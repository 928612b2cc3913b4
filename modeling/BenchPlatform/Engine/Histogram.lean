import Mathlib.Data.List.Count
import Mathlib.Algebra.Ring.Nat

/-!
This module contains the two latency histograms of a `DiskRandWorkload`: 1 us buckets up to one
second, an overflow bucket, and how much of each histogram its occupant reached.
-/

namespace Bench

def kLatencyBuckets : Nat := 1000000

def kLatencyOverflowBucket : Nat := kLatencyBuckets

def kLatencyHistogramSize : Nat := kLatencyBuckets + 1

/--
The bucket of one call that took `ns`.
-/
def latencyBucket (ns : Nat) : Nat :=
  let us := ns / 1000
  if us ≥ kLatencyBuckets then kLatencyOverflowBucket else us

/--
`hist_`, `used_` and `cur_`. A histogram is empty from its used length on.
-/
structure Histograms where
  hist : Bool → Nat → BitVec 32
  used : Bool → Nat
  cur : Bool
  tail : ∀ h b, used h ≤ b → hist h b = 0

namespace Histograms

/--
What `setup` leaves: both histograms zero, the first one current.
-/
def init : Histograms where
  hist := fun _ _ => 0
  used := fun _ => 0
  cur := false
  tail := fun _ _ _ => rfl

/--
The part of `before_trial` that clears the histogram `h`: only the buckets its previous occupant
reached, and the overflow bucket.
-/
def clear (s : Histograms) (h : Bool) : Histograms :=
  if s.used h > 0 then
    { s with
      hist := Function.update s.hist h fun b =>
        if b < s.used h ∨ b = kLatencyOverflowBucket then 0 else s.hist h b
      used := Function.update s.used h 0
      tail := by
        intro h' b hb
        by_cases heq : h' = h
        . subst heq
          simp only [Function.update_self]
          split
          . rfl
          . rename_i hnot
            exact s.tail h' b (by omega)
        . simp only [Function.update_of_ne heq] at hb ⊢
          exact s.tail h' b hb }
  else
    s

def beforeTrial (s : Histograms) : Histograms :=
  clear { s with cur := !s.cur } (!s.cur)

def record (s : Histograms) (ns : Nat) : Histograms :=
  let bucket := latencyBucket ns
  { s with
    hist := Function.update s.hist s.cur <|
      Function.update (s.hist s.cur) bucket (s.hist s.cur bucket + 1)
    used := Function.update s.used s.cur (max (s.used s.cur) (bucket + 1))
    tail := by
      intro h b hb
      by_cases heq : h = s.cur
      . subst heq
        simp only [Function.update_self] at hb ⊢
        rw [Function.update_of_ne]
        . exact s.tail _ _ (by omega)
        . omega
      . simp only [Function.update_of_ne heq] at hb ⊢
        exact s.tail h b hb }

variable {s : Histograms} {h : Bool} {ns b : Nat}

theorem clear_used : (s.clear h).used h = 0 := by
  unfold clear
  split
  . simp
  . omega

theorem clear_of_ne {h' : Bool} (hne : h' ≠ h)
    : (s.clear h).hist h' = s.hist h' ∧ (s.clear h).used h' = s.used h' := by
  unfold clear
  split <;> simp [hne]

@[simp]
theorem clear_cur : (s.clear h).cur = s.cur := by
  unfold clear
  split <;> rfl

@[simp]
theorem beforeTrial_cur : s.beforeTrial.cur = !s.cur := by
  simp [beforeTrial]

@[simp]
theorem beforeTrial_used : s.beforeTrial.used (!s.cur) = 0 := by
  simp only [beforeTrial, clear_used]

@[simp]
theorem beforeTrial_used_of_cur : s.beforeTrial.used s.cur = s.used s.cur := by
  simp [beforeTrial, clear_of_ne]

@[simp]
theorem beforeTrial_hist : s.beforeTrial.hist s.cur = s.hist s.cur := by
  simp [beforeTrial, clear_of_ne]

@[simp]
theorem record_cur : (s.record ns).cur = s.cur := rfl

@[simp]
theorem record_used : (s.record ns).used s.cur = max (s.used s.cur) (latencyBucket ns + 1) := by
  simp [record]

theorem record_hist : (s.record ns).hist s.cur b
    = if b = latencyBucket ns then s.hist s.cur b + 1 else s.hist s.cur b := by
  by_cases hb : b = latencyBucket ns
  . subst hb
    simp [record]
  . simp [record, hb]

end Histograms

/--
How many of the calls fall into bucket `b`, as the 32-bit counter of that bucket shows it.
-/
def bucketCount (latencies : List Nat) (b : Nat) : BitVec 32 :=
  BitVec.ofNat 32 ((latencies.map latencyBucket).count b)

def usedBuckets (latencies : List Nat) : Nat :=
  latencies.foldl (fun used ns => max used (latencyBucket ns + 1)) 0

namespace Histograms

variable {s : Histograms} {latencies : List Nat} {ns : Nat}

/--
Histogram `h` contains exactly these calls.
-/
structure Holds (s : Histograms) (h : Bool) (latencies : List Nat) : Prop where
  used : s.used h = usedBuckets latencies
  hist : ∀ b, s.hist h b = bucketCount latencies b

theorem holds_nil {h : Bool} (hused : s.used h = 0) : s.Holds h [] where
  used := hused
  hist := fun b => s.tail h b (by omega)

theorem Holds.beforeTrial (hs : s.Holds s.cur latencies)
    : s.beforeTrial.Holds s.cur latencies where
  used := by rw [beforeTrial_used_of_cur, hs.used]
  hist := by simpa using hs.hist

theorem Holds.record (hs : s.Holds s.cur latencies)
    : (s.record ns).Holds s.cur (latencies ++ [ns]) := by
  constructor
  . simp [usedBuckets, hs.used]
  . intro b
    rw [record_hist, hs.hist b]
    by_cases hb : b = latencyBucket ns
    . subst hb
      simp [bucketCount, BitVec.ofNat_add]
    . simp [bucketCount, hb, Ne.symm hb]

end Histograms

end Bench
