import BenchPlatform.Engine.DiskIo
import BenchPlatform.Engine.Histogram
import BenchPlatform.Lib.Cumulative
import BenchPlatform.Lib.Program

/-!
This module proves what the two histograms of a `DiskRandWorkload` contain over all its trials: each has the
calls of its own trial, if no counter wraps.
-/

namespace Bench

open Program

namespace Histograms

/--
One I/O of a batch. It is recorded unless it fails.
-/
def run_io (io : Nat → Except String Nat) (i : Nat) : EStateM String Histograms Unit :=
  match io i with
  | .ok ns => modify (·.record ns)
  | .error what => throw what

def run_batch (io : Nat → Except String Nat) : EStateM String Histograms Nat := do
  (List.range DiskRandWorkload.kIosPerBatch).forM (run_io io)
  return DiskRandWorkload.kIosPerBatch

end Histograms

def stateOf {ε σ α : Type} (x : EStateM ε σ α) (s : σ) : σ :=
  match x s with
  | .ok _ s => s
  | .error _ s => s

/--
A call of the runner. The I/Os of a batch take so many nanoseconds, or they fail.
-/
inductive LatencyCall where
  | before_trial
  | run_batch (io : Nat → Except String Nat)

namespace LatencyCall

def apply (s : Histograms) : LatencyCall → Histograms
  | .before_trial => s.beforeTrial
  | .run_batch io => stateOf (Histograms.run_batch io) s

def run (calls : List LatencyCall) : Histograms :=
  calls.foldl apply .init

def measured : List (Except String Nat) → List Nat
  | [] => []
  | .ok ns :: rest => ns :: measured rest
  | .error _ :: _ => []

def trials (prev cur : List Nat) : List LatencyCall → List Nat × List Nat
  | [] => (prev, cur)
  | .before_trial :: calls => trials cur [] calls
  | .run_batch io :: calls =>
    trials prev (cur ++ measured ((List.range DiskRandWorkload.kIosPerBatch).map io)) calls

def trial (calls : List LatencyCall) : List Nat :=
  (trials [] [] calls).2

end LatencyCall

namespace Histograms

variable {s : Histograms} {latencies other : List Nat} {io : Nat → Except String Nat}

theorem record_of_ne {h : Bool} (ns : Nat) (hne : h ≠ s.cur)
    : (s.record ns).hist h = s.hist h ∧ (s.record ns).used h = s.used h := by
  simp [record, hne]

theorem beforeTrial_empty : s.beforeTrial.Holds s.beforeTrial.cur [] :=
  holds_nil (by rw [beforeTrial_cur, beforeTrial_used])

/--
The current histogram has these calls, and the other one those.
-/
structure Hold (s : Histograms) (other latencies : List Nat) : Prop where
  current : s.Holds s.cur latencies
  other : s.Holds (!s.cur) other

theorem Hold.record {ns : Nat} (hs : s.Hold other latencies) : (s.record ns).Hold other (latencies ++ [ns]) where
  current := hs.current.record
  other := by
    obtain ⟨hhist, hused⟩ := record_of_ne (s := s) (h := !s.cur) ns (by simp)
    constructor
    . rw [record_cur, hused, hs.other.used]
    . intro b
      rw [record_cur, hhist, hs.other.hist]

theorem Hold.beforeTrial (hs : s.Hold other latencies) : s.beforeTrial.Hold latencies [] where
  current := beforeTrial_empty
  other := by
    rw [beforeTrial_cur, Bool.not_not]
    exact hs.current.beforeTrial

theorem run_ios_state (is : List Nat) (s : Histograms)
    : stateOf (is.forM (run_io io)) s = (LatencyCall.measured (is.map io)).foldl record s := by
  induction is generalizing s with
  | nil => rfl
  | cons i is ih =>
    have hcons : (i :: is).forM (run_io io) = (run_io io i >>= fun _ => is.forM (run_io io)) := rfl
    rw [List.map_cons, hcons]
    cases hio : io i with
    | ok ns =>
      have hfirst : run_io io i s = .ok () (s.record ns) := by
        unfold run_io
        rw [hio]
        rfl
      rw [LatencyCall.measured, List.foldl_cons, ← ih]
      unfold stateOf
      rw [bind_of_ok hfirst]
    | error what =>
      have hfirst : run_io io i s = .error what s := by
        unfold run_io
        rw [hio]
        rfl
      unfold stateOf
      rw [bind_of_error hfirst]
      rfl

theorem apply_run_batch (s : Histograms)
    : LatencyCall.apply s (.run_batch io)
      = (LatencyCall.measured ((List.range DiskRandWorkload.kIosPerBatch).map io)).foldl record s := by
  have hbatch : stateOf (run_batch io) s
      = stateOf ((List.range DiskRandWorkload.kIosPerBatch).forM (run_io io)) s := by
    unfold stateOf run_batch
    cases hloop : (List.range DiskRandWorkload.kIosPerBatch).forM (run_io io) s with
    | ok _ s' => rw [bind_of_ok hloop]; rfl
    | error what s' => rw [bind_of_error hloop]
  exact hbatch.trans (run_ios_state _ s)

theorem Hold.run_batch (hs : s.Hold other latencies)
    : (LatencyCall.apply s (.run_batch io)).Hold other
        (latencies ++ LatencyCall.measured ((List.range DiskRandWorkload.kIosPerBatch).map io)) := by
  rw [apply_run_batch]
  generalize LatencyCall.measured ((List.range DiskRandWorkload.kIosPerBatch).map io) = ios
  induction ios generalizing s latencies with
  | nil => rwa [List.append_nil]
  | cons ns ios ih =>
    rw [List.append_cons]
    exact ih hs.record

end Histograms

namespace LatencyCall

variable {s : Histograms} {prev cur : List Nat} {calls : List LatencyCall}

theorem hold_foldl (hs : s.Hold prev cur) (calls : List LatencyCall)
    : (calls.foldl apply s).Hold (trials prev cur calls).1 (trials prev cur calls).2 := by
  induction calls generalizing s prev cur with
  | nil => exact hs
  | cons call calls ih =>
    cases call with
    | before_trial => exact ih hs.beforeTrial
    | run_batch io => exact ih hs.run_batch

theorem hold_run (calls : List LatencyCall) : (run calls).Hold (trials [] [] calls).1 (trial calls) :=
  hold_foldl ⟨Histograms.holds_nil rfl, Histograms.holds_nil rfl⟩ calls

theorem run_append (calls calls' : List LatencyCall) : run (calls ++ calls') = calls'.foldl apply (run calls) :=
  List.foldl_append

theorem batches_frame (ios : List (Nat → Except String Nat)) (s : Histograms)
    : ((ios.map run_batch).foldl apply s).cur = s.cur
      ∧ ((ios.map run_batch).foldl apply s).hist (!s.cur) = s.hist (!s.cur)
      ∧ ((ios.map run_batch).foldl apply s).used (!s.cur) = s.used (!s.cur) := by
  induction ios generalizing s with
  | nil => exact ⟨rfl, rfl, rfl⟩
  | cons io ios ih =>
    have hbatch : ∀ (ns : List Nat) (s : Histograms), (ns.foldl Histograms.record s).cur = s.cur
        ∧ (ns.foldl Histograms.record s).hist (!s.cur) = s.hist (!s.cur)
        ∧ (ns.foldl Histograms.record s).used (!s.cur) = s.used (!s.cur) := by
      intro ns
      induction ns with
      | nil => exact fun _ => ⟨rfl, rfl, rfl⟩
      | cons x ns ih =>
        intro s
        have hother := Histograms.record_of_ne (s := s) (h := !s.cur) x (by simp)
        have hrest := ih (s.record x)
        rw [Histograms.record_cur, hother.1, hother.2] at hrest
        exact hrest
    rw [List.map_cons, List.foldl_cons, Histograms.apply_run_batch]
    generalize measured _ = ns
    obtain ⟨hcur, hhist, hused⟩ := hbatch ns s
    have hrest := ih (ns.foldl Histograms.record s)
    rw [hcur, hhist, hused] at hrest
    exact hrest

def NoneWraps (calls : List LatencyCall) : Prop :=
  ∀ b, ((trial calls).map latencyBucket).count b < 2 ^ 32

/--
The current histogram counts the I/Os of a trial by their whole microseconds.
-/
structure Counts (s : Histograms) (ios : List Nat) : Prop where
  bucket : ∀ us < kLatencyBuckets, (s.hist s.cur us).toNat = ios.countP (· / 1000 = us)
  overflow : (s.hist s.cur kLatencyOverflowBucket).toNat = ios.countP (10 ^ 9 ≤ ·)
  total : ((List.range kLatencyHistogramSize).map fun b => (s.hist s.cur b).toNat).sum = ios.length

theorem count_bucket {ios : List Nat} {us : Nat} (h : us < kLatencyBuckets)
    : (ios.map latencyBucket).count us = ios.countP (· / 1000 = us) := by
  unfold List.count
  rw [List.countP_map]
  apply List.countP_congr
  intro ns _
  unfold latencyBucket kLatencyOverflowBucket
  simp only [Function.comp_apply, beq_iff_eq, decide_eq_true_eq]
  split <;> omega

theorem count_overflow {ios : List Nat}
    : (ios.map latencyBucket).count kLatencyOverflowBucket = ios.countP (10 ^ 9 ≤ ·) := by
  unfold List.count
  rw [List.countP_map]
  apply List.countP_congr
  intro ns _
  unfold latencyBucket kLatencyOverflowBucket kLatencyBuckets
  simp only [Function.comp_apply, beq_iff_eq, decide_eq_true_eq]
  split <;> omega

theorem bucket_lt (ns : Nat) : latencyBucket ns < kLatencyHistogramSize := by
  unfold latencyBucket kLatencyOverflowBucket kLatencyHistogramSize
  dsimp only
  split <;> omega

theorem counts_iff {ios : List Nat} (h : s.Holds s.cur ios)
    : Counts s ios ↔ ∀ b, (ios.map latencyBucket).count b < 2 ^ 32 := by
  constructor
  . intro hcounts b
    rcases Nat.lt_trichotomy b kLatencyBuckets with hlt | heq | hgt
    . rw [count_bucket hlt, ← hcounts.bucket b hlt]
      exact BitVec.isLt _
    . obtain rfl : b = kLatencyOverflowBucket := heq
      rw [count_overflow, ← hcounts.overflow]
      exact BitVec.isLt _
    . have hnone : (ios.map latencyBucket).count b = 0 := by
        apply List.count_eq_zero.mpr
        intro hmem
        obtain ⟨ns, _, rfl⟩ := List.mem_map.mp hmem
        have hlt := bucket_lt ns
        unfold kLatencyHistogramSize at hlt
        omega
      rw [hnone]
      decide
  . intro hfit
    have hcounter : ∀ b, (s.hist s.cur b).toNat = (ios.map latencyBucket).count b := by
      intro b
      rw [h.hist b]
      exact BitVec.toNat_ofNat _ _ |>.trans (Nat.mod_eq_of_lt (hfit b))
    refine ⟨fun us hus => ?_, ?_, ?_⟩
    . rw [hcounter, count_bucket hus]
    . rw [hcounter, count_overflow]
    . simp only [hcounter]
      rw [← Cumulative.below_eq_sum, Cumulative.below_eq_length, List.length_map]
      intro b hb
      obtain ⟨ns, _, rfl⟩ := List.mem_map.mp hb
      exact bucket_lt ns

/--
What the histograms are after some calls, and in the trial that comes next.
-/
structure Right (calls : List LatencyCall) : Prop where
  tail : ∀ h b, (run calls).used h ≤ b → (run calls).hist h b = 0
  cleared : ∀ b, (run (calls ++ [.before_trial])).hist (run (calls ++ [.before_trial])).cur b = 0
  /-- The runner is still reading the histogram of the trial before. -/
  kept : ∀ ios : List (Nat → Except String Nat),
    let next := run (calls ++ .before_trial :: ios.map run_batch)
    next.cur = !(run calls).cur ∧ next.hist (!next.cur) = (run calls).hist (run calls).cur
      ∧ next.used (!next.cur) = (run calls).used (run calls).cur
  counts : Counts (run calls) (trial calls)

theorem cleared (calls : List LatencyCall) (b : Nat)
    : (run (calls ++ [.before_trial])).hist (run (calls ++ [.before_trial])).cur b = 0 := by
  rw [run_append]
  change (run calls).beforeTrial.hist (run calls).beforeTrial.cur b = 0
  rw [Histograms.beforeTrial_empty.hist b]
  rfl

theorem kept (calls : List LatencyCall) (ios : List (Nat → Except String Nat))
    : let next := run (calls ++ .before_trial :: ios.map run_batch)
      next.cur = !(run calls).cur ∧ next.hist (!next.cur) = (run calls).hist (run calls).cur
        ∧ next.used (!next.cur) = (run calls).used (run calls).cur := by
  obtain ⟨hcur, hhist, hused⟩ := batches_frame ios (run calls).beforeTrial
  rw [Histograms.beforeTrial_cur] at hcur hhist hused
  rw [Bool.not_not] at hhist hused
  have hnext : run (calls ++ .before_trial :: ios.map run_batch)
      = (ios.map run_batch).foldl apply (run calls).beforeTrial := run_append calls _
  dsimp only
  rw [hnext, hcur, Bool.not_not]
  exact ⟨rfl, hhist.trans Histograms.beforeTrial_hist, hused.trans Histograms.beforeTrial_used_of_cur⟩

/--
All of it is right after any calls, if and only if no counter of the current trial has wrapped.
-/
theorem right_iff_noneWraps (calls : List LatencyCall) : Right calls ↔ NoneWraps calls := by
  have hcounts := counts_iff (hold_run calls).current
  constructor
  . exact fun hright => hcounts.mp hright.counts
  . exact fun hnone =>
      { tail := (run calls).tail
        cleared := cleared calls
        kept := kept calls
        counts := hcounts.mpr hnone }

def instant (n : Nat) : List LatencyCall :=
  .before_trial :: List.replicate n (.run_batch fun _ => .ok 0)

theorem trial_instant (n : Nat)
    : trial (instant n) = List.replicate (DiskRandWorkload.kIosPerBatch * n) 0 := by
  have hbatches : ∀ cur, trials [] cur (List.replicate n (.run_batch fun _ => .ok 0))
      = ([], cur ++ List.replicate (DiskRandWorkload.kIosPerBatch * n) 0) := by
    induction n with
    | zero => exact fun cur => by rw [Nat.mul_zero, List.replicate_zero, List.replicate_zero, List.append_nil]; rfl
    | succ n ih =>
      intro cur
      have hbatch : measured ((List.range DiskRandWorkload.kIosPerBatch).map fun _ => .ok 0)
          = List.replicate DiskRandWorkload.kIosPerBatch 0 := rfl
      rw [List.replicate_succ, trials, ih, hbatch, List.append_assoc, ← List.replicate_add, Nat.mul_succ, Nat.add_comm]
  unfold trial instant
  rw [trials, hbatches, List.nil_append]

/--
The counter of the first bucket is zero again.
-/
theorem instant_not_right : ¬Right (instant (2 ^ 27)) := by
  intro hright
  have hfit := (counts_iff (hold_run _).current).mp hright.counts 0
  have hfirst : latencyBucket 0 = 0 := by decide
  rw [trial_instant, List.map_replicate, hfirst, List.count_replicate_self] at hfit
  exact absurd hfit (by decide)

end LatencyCall

end Bench
