import BenchPlatform.Api.Float
import BenchPlatform.Engine.Histogram
import BenchPlatform.Lib.Cumulative
import Mathlib.Data.List.Sort

/-!
This module contains how the latencies that the workers recorded in a trial are merged, and when the outcome is
that of all the calls together.
-/

namespace Bench

open Api Cumulative

/--
What the merge reads of a slot: the histogram that its worker published, if it has one.
-/
structure LatencySlot where
  hist : Option (Nat → BitVec 32)
  hist_used : Nat

/--
The latencies are the upper edges of buckets. They are small enough to be exact.
-/
structure LatencySummary where
  p99_us : Nat
  samples : BitVec 64
  overflow : BitVec 64
  min_us : Nat
  max_us : Nat
  deriving DecidableEq

/--
Adds bucket `b` of every histogram.
-/
def add_bucket (slots : List LatencySlot) (b : Nat) (sum : BitVec 64) : BitVec 64 :=
  slots.foldl (fun sum s =>
    match s.hist with
    | some hist => sum + (hist b).setWidth 64
    | none => sum) sum

/--
`x * y - z` with one rounding.
-/
def fmsub : Float64 → Float64 → Float64 → Float64
  | .finite s m e, .finite t m' e', .finite u m'' e'' =>
    Float64.ofRat ((s ^^ t) && !u)
      (Float64.value (.finite s m e) * Float64.value (.finite t m' e') - Float64.value (.finite u m'' e''))
  | x, y, z => Float64.sub (Float64.mul x y) z

/--
The nearest rank of the 99th percentile, as it is calculated in `double`. A build for a processor that has the
instruction (`fused`) may contract the product and the difference.
-/
def p99_rank (fused : Bool) (samples : Nat) : Nat :=
  let p99 := Float64.ofRat false (99 / 100)
  let nano := Float64.ofRat false (1 / 10 ^ 9)
  let raw :=
    if fused then
      fmsub p99 (Float64.ofInt samples) nano
    else
      Float64.sub (Float64.mul p99 (Float64.ofInt samples)) nano
  ⌈raw.value⌉.toNat

structure LatencyScan where
  cum : BitVec 64
  have_min : Bool
  min_us : Nat
  max_us : Nat
  p99_us : Nat

def LatencyScan.step (slots : List LatencySlot) (rank : Nat) (st : LatencyScan) (b : Nat) : LatencyScan :=
  let here := add_bucket slots b 0
  if here = 0 then
    st
  else
    let cum := st.cum + here
    { cum := cum
      have_min := true
      min_us := if st.have_min then st.min_us else b + 1
      max_us := b + 1
      p99_us := if st.p99_us = 0 ∧ rank ≤ cum.toNat then b + 1 else st.p99_us }

def merged_used (slots : List LatencySlot) : Nat :=
  slots.foldl (fun used s => if s.hist.isSome then max used s.hist_used else used) 0

def merged_samples (slots : List LatencySlot) (used : Nat) : BitVec 64 :=
  (List.range used).foldl (fun samples b => add_bucket slots b samples) 0

def LatencySummary.empty : LatencySummary where
  p99_us := 0
  samples := 0
  overflow := 0
  min_us := 0
  max_us := 0

def LatencyScan.run (slots : List LatencySlot) (rank used : Nat) : LatencyScan :=
  (List.range used).foldl (step slots rank) { cum := 0, have_min := false, min_us := 0, max_us := 0, p99_us := 0 }

def merge_latencies (fused : Bool) (slots : List LatencySlot) : LatencySummary :=
  let used := merged_used slots
  if used = 0 then
    .empty
  else
    let samples := merged_samples slots used
    if samples = 0 then
      .empty
    else
      let overflow := if kLatencyBuckets < used then add_bucket slots kLatencyOverflowBucket 0 else 0
      let st := LatencyScan.run slots (p99_rank fused samples.toNat) used
      { p99_us := st.p99_us, samples := samples, overflow := overflow, min_us := st.min_us,
        max_us := st.max_us }

def Histograms.trial (s : Histograms) (latencies : List Nat) : Histograms :=
  latencies.foldl record s.beforeTrial

/--
A worker of a trial: the histograms that it had before and the calls that it makes. Not every workload has
histograms.
-/
abbrev LatencyWorker := Option (Histograms × List Nat)

def LatencyWorker.slot : LatencyWorker → LatencySlot
  | none => { hist := none, hist_used := 0 }
  | some (s, latencies) =>
    let s := s.trial latencies
    { hist := some (s.hist s.cur), hist_used := s.used s.cur }

def LatencyWorker.calls : LatencyWorker → List Nat
  | none => []
  | some (_, latencies) => latencies

def pooled (workers : List LatencyWorker) : List Nat :=
  workers.flatMap LatencyWorker.calls

def sortedBuckets (calls : List Nat) : List Nat :=
  (calls.map latencyBucket).mergeSort (· ≤ ·)

def upperEdge (bucket : Option Nat) : Nat :=
  bucket.elim 0 (· + 1)

/--
The summary of these calls. The rank of the 99th percentile is exact.
-/
structure LatencySummary.Describes (out : LatencySummary) (calls : List Nat) : Prop where
  samples : out.samples.toNat = calls.length
  overflow : out.overflow.toNat = calls.countP (10 ^ 9 ≤ ·)
  min : out.min_us = upperEdge (sortedBuckets calls).head?
  max : out.max_us = upperEdge (sortedBuckets calls).getLast?
  p99 : out.p99_us = upperEdge (sortedBuckets calls)[⌈(99 / 100 : ℚ) * calls.length⌉₊ - 1]?

section Counts

variable {slots : List LatencySlot} {workers : List LatencyWorker} {latencies : List Nat} {b : Nat}

/--
What all histograms together have in bucket `b`.
-/
def counted (slots : List LatencySlot) (b : Nat) : Nat :=
  (slots.map fun s => s.hist.elim 0 fun hist => (hist b).toNat).sum

theorem add_bucket_eq (slots : List LatencySlot) (b : Nat) (sum : BitVec 64)
    : add_bucket slots b sum = sum + BitVec.ofNat 64 (counted slots b) := by
  induction slots generalizing sum with
  | nil => exact (BitVec.add_zero sum).symm
  | cons s slots ih =>
    unfold add_bucket counted at ih ⊢
    rw [List.foldl_cons, ih, List.map_cons, List.sum_cons, BitVec.ofNat_add, ← BitVec.add_assoc]
    congr 1
    cases s.hist with
    | none => exact (BitVec.add_zero sum).symm
    | some hist =>
      dsimp only [Option.elim_some]
      rw [BitVec.ofNat_toNat]

theorem samples_eq (slots : List LatencySlot) (used : Nat)
    : merged_samples slots used = BitVec.ofNat 64 ((List.range used).map (counted slots)).sum := by
  unfold merged_samples
  induction used with
  | zero => rfl
  | succ used ih =>
    rw [List.range_succ, List.foldl_append, ih, List.foldl_cons, List.foldl_nil, add_bucket_eq, List.map_append,
      List.sum_append, List.map_singleton, List.sum_singleton, BitVec.ofNat_add]

theorem Histograms.trial_holds (s : Histograms) (latencies : List Nat)
    : (s.trial latencies).Holds (s.trial latencies).cur latencies := by
  have hrun : ∀ (rest done : List Nat) (s : Histograms), s.Holds s.cur done →
      (rest.foldl Histograms.record s).Holds (rest.foldl Histograms.record s).cur (done ++ rest) := by
    intro rest
    induction rest with
    | nil =>
      intro done s hs
      rwa [List.append_nil]
    | cons ns rest ih =>
      intro done s hs
      have h := ih (done ++ [ns]) (s.record ns) hs.record
      rwa [List.append_assoc] at h
  apply hrun latencies []
  apply Histograms.holds_nil
  rw [Histograms.beforeTrial_cur, Histograms.beforeTrial_used]

/--
The calls of a worker in bucket `b`.
-/
def LatencyWorker.count (w : LatencyWorker) (b : Nat) : Nat :=
  (w.calls.map latencyBucket).count b

theorem counted_slots (workers : List LatencyWorker) (b : Nat)
    : counted (workers.map LatencyWorker.slot) b = (workers.map fun w => w.count b % 2 ^ 32).sum := by
  unfold counted
  rw [List.map_map]
  congr 1
  apply List.map_congr_left
  rintro (_ | ⟨s, latencies⟩) _
  . rfl
  . have hhist := (s.trial_holds latencies).hist b
    rw [Function.comp_apply]
    dsimp only [LatencyWorker.slot, Option.elim_some]
    rw [hhist]
    exact BitVec.toNat_ofNat _ _

theorem count_pooled (workers : List LatencyWorker) (b : Nat)
    : ((pooled workers).map latencyBucket).count b = (workers.map fun w => w.count b).sum := by
  induction workers with
  | nil => rfl
  | cons w workers ih =>
    unfold pooled at ih ⊢
    rw [List.flatMap_cons, List.map_append, List.count_append, ih, List.map_cons, List.sum_cons]
    rfl

theorem counted_le (workers : List LatencyWorker) (b : Nat)
    : counted (workers.map LatencyWorker.slot) b ≤ ((pooled workers).map latencyBucket).count b := by
  rw [counted_slots, count_pooled]
  exact List.sum_le_sum fun w _ => Nat.mod_le _ _

def CountersFit (workers : List LatencyWorker) : Prop :=
  ∀ w ∈ workers, ∀ b, w.count b < 2 ^ 32

theorem counted_of_fit (h : CountersFit workers) (b : Nat)
    : counted (workers.map LatencyWorker.slot) b = ((pooled workers).map latencyBucket).count b := by
  rw [counted_slots, count_pooled]
  congr 1
  exact List.map_congr_left fun w hw => Nat.mod_eq_of_lt (h w hw b)

theorem fit_of_counted (h : ∀ b, counted (workers.map LatencyWorker.slot) b
      = ((pooled workers).map latencyBucket).count b)
    : CountersFit workers := by
  intro w hw b
  have hsum := h b
  rw [counted_slots, count_pooled] at hsum
  by_contra hnot
  have hlt : w.count b % 2 ^ 32 < w.count b :=
    Nat.lt_of_lt_of_le (Nat.mod_lt _ (by decide)) (Nat.not_lt.mp hnot)
  have hstrict : (workers.map fun w => w.count b % 2 ^ 32).sum < (workers.map fun w => w.count b).sum :=
    List.sum_lt_sum _ _ (fun w _ => Nat.mod_le _ _) ⟨w, hw, hlt⟩
  omega

theorem lt_usedBuckets {ns : Nat} (h : ns ∈ latencies) : latencyBucket ns < usedBuckets latencies := by
  have hfold : ∀ (l : List Nat) (used : Nat),
      used ≤ l.foldl (fun used ns => max used (latencyBucket ns + 1)) used
      ∧ ∀ ns ∈ l, latencyBucket ns < l.foldl (fun used ns => max used (latencyBucket ns + 1)) used := by
    intro l
    induction l with
    | nil => exact fun used => ⟨Nat.le_refl _, nofun⟩
    | cons x l ih =>
      intro used
      obtain ⟨hle, hall⟩ := ih (max used (latencyBucket x + 1))
      rw [List.foldl_cons]
      refine ⟨Nat.le_trans (Nat.le_max_left _ _) hle, List.forall_mem_cons.mpr ⟨?_, hall⟩⟩
      exact Nat.lt_of_lt_of_le (Nat.lt_of_lt_of_le (Nat.lt_succ_self _) (Nat.le_max_right _ _)) hle
  exact (hfold latencies 0).2 ns h

theorem lt_merged_used {x : Nat} (h : x ∈ (pooled workers).map latencyBucket)
    : x < merged_used (workers.map LatencyWorker.slot) := by
  have hfold : ∀ (ws : List LatencyWorker) (used : Nat),
      let merged := (ws.map LatencyWorker.slot).foldl
        (fun used s => if s.hist.isSome then max used s.hist_used else used) used
      used ≤ merged ∧ ∀ w ∈ ws, ∀ ns ∈ w.calls, latencyBucket ns < merged := by
    intro ws
    induction ws with
    | nil => exact fun used => ⟨Nat.le_refl _, nofun⟩
    | cons w ws ih =>
      intro used
      rw [List.map_cons, List.foldl_cons]
      cases w with
      | none =>
        obtain ⟨hle, hall⟩ := ih used
        exact ⟨hle, List.forall_mem_cons.mpr ⟨nofun, hall⟩⟩
      | some w =>
        obtain ⟨hle, hall⟩ := ih (max used ((w.1.trial w.2).used (w.1.trial w.2).cur))
        refine ⟨Nat.le_trans (Nat.le_max_left _ _) hle, List.forall_mem_cons.mpr ⟨?_, hall⟩⟩
        intro ns hns
        have hlt : latencyBucket ns < usedBuckets w.2 := lt_usedBuckets hns
        rw [← (w.1.trial_holds w.2).used] at hlt
        exact Nat.lt_of_lt_of_le (Nat.lt_of_lt_of_le hlt (Nat.le_max_right _ _)) hle
  obtain ⟨ns, hns, rfl⟩ := List.mem_map.mp h
  obtain ⟨w, hw, hns⟩ := List.mem_flatMap.mp hns
  exact (hfold workers 0).2 w hw ns hns

end Counts

section Scan

variable {slots : List LatencySlot} {l : List Nat} {rank m : Nat} {st : LatencyScan}

/--
What the scan has found in the buckets below `m` of a sorted list.
-/
structure LatencyScan.Scanned (l : List Nat) (rank m : Nat) (st : LatencyScan) : Prop where
  cum : st.cum.toNat = below l m
  have_min : st.have_min = decide (0 < below l m)
  min : st.min_us = if 0 < below l m then upperEdge l[0]? else 0
  max : st.max_us = if 0 < below l m then upperEdge l[below l m - 1]? else 0
  p99 : st.p99_us = if 0 < below l m ∧ rank ≤ below l m then upperEdge l[rank - 1]? else 0

theorem scanned_step (hl : l.Pairwise (· ≤ ·)) (hcount : counted slots m = l.count m)
    (hlength : l.length < 2 ^ 64) (h : st.Scanned l rank m)
    : (st.step slots rank m).Scanned l rank (m + 1) := by
  have hsucc := below_succ l m
  have hle : below l (m + 1) ≤ l.length := below_le_length
  have hhere : (BitVec.ofNat 64 (l.count m)).toNat = l.count m := by
    rw [BitVec.toNat_ofNat]
    exact Nat.mod_eq_of_lt (by omega)
  have hzero : (BitVec.ofNat 64 (l.count m) = 0) ↔ l.count m = 0 := by
    rw [← BitVec.toNat_inj, hhere]
    rfl
  -- what the bucket has comes in the list after what is below it
  have hat : ∀ i, below l m ≤ i → i < below l (m + 1) → upperEdge l[i]? = m + 1 := by
    intro i hlow hhigh
    rw [getElem?_eq hl hlow hhigh]
    rfl
  unfold LatencyScan.step
  rw [add_bucket_eq, hcount, show (0 : BitVec 64) + _ = _ from BitVec.zero_add _]
  dsimp only
  by_cases hnone : l.count m = 0
  . rw [if_pos (hzero.mpr hnone)]
    rw [hnone, Nat.add_zero] at hsucc
    constructor
    all_goals rw [hsucc]
    . exact h.cum
    . exact h.have_min
    . exact h.min
    . exact h.max
    . exact h.p99
  . rw [if_neg (hzero.not.mpr hnone)]
    have hcum : (st.cum + BitVec.ofNat 64 (l.count m)).toNat = below l (m + 1) := by
      rw [BitVec.toNat_add, hhere, h.cum, ← hsucc]
      exact Nat.mod_eq_of_lt (by omega)
    have hpos : 0 < below l (m + 1) := by omega
    constructor
    . exact hcum
    . exact (decide_eq_true hpos).symm
    . rw [if_pos hpos, h.have_min, h.min]
      by_cases hbefore : 0 < below l m
      . rw [if_pos (decide_eq_true hbefore), if_pos hbefore]
      . rw [if_neg (by simpa using hbefore)]
        exact (hat 0 (by omega) hpos).symm
    . rw [if_pos hpos]
      exact (hat _ (by omega) (by omega)).symm
    . dsimp only
      rw [hcum, h.p99]
      by_cases hbefore : 0 < below l m ∧ rank ≤ below l m
      . have hin : rank - 1 < l.length := by omega
        have hfound : upperEdge l[rank - 1]? ≠ 0 := by
          rw [List.getElem?_eq_getElem hin]
          exact Nat.succ_ne_zero _
        rw [if_pos hbefore, if_neg (fun hp => hfound hp.1), if_pos ⟨hpos, by omega⟩]
      . rw [if_neg hbefore]
        by_cases hrank : rank ≤ below l (m + 1)
        . rw [if_pos ⟨rfl, hrank⟩, if_pos ⟨hpos, hrank⟩]
          exact (hat _ (by omega) (by omega)).symm
        . rw [if_neg (fun hp => hrank hp.2), if_neg (fun hp => hrank hp.2)]

theorem scanned_run (hl : l.Pairwise (· ≤ ·)) (hcount : ∀ b, counted slots b = l.count b)
    (hlength : l.length < 2 ^ 64) (rank m : Nat)
    : (LatencyScan.run slots rank m).Scanned l rank m := by
  unfold LatencyScan.run
  induction m with
  | zero =>
    constructor
    all_goals rw [below_zero]
    all_goals rfl
  | succ m ih =>
    rw [List.range_succ, List.foldl_append, List.foldl_cons, List.foldl_nil]
    exact scanned_step hl (hcount m) hlength ih

end Scan

section Rank

open Float64 Rounding

theorem ofRat_p99 : Float64.ofRat false (99 / 100) = .finite false 8917127262193582 (-53) := by
  decide +kernel

theorem ofRat_nano : Float64.ofRat false (1 / 10 ^ 9) = .finite false 4835703278458517 (-82) := by
  decide +kernel

theorem value_p99 : Float64.value (.finite false 8917127262193582 (-53)) = 8917127262193582 / 2 ^ 53 := by
  rw [value_finite, zpow_neg]
  norm_num

theorem value_nano : Float64.value (.finite false 4835703278458517 (-82)) = 4835703278458517 / 2 ^ 82 := by
  rw [value_finite, zpow_neg]
  norm_num

theorem exists_p99_rank (fused : Bool) {samples : Nat} (htwo : 2 ≤ samples) (hle : samples ≤ 2 ^ 45)
    : ∃ scaled rank : ℚ,
        (Rounded 53 (8917127262193582 / 2 ^ 53 * (samples : ℚ)) scaled
          ∨ scaled = 8917127262193582 / 2 ^ 53 * samples)
        ∧ Rounded 53 (scaled - 4835703278458517 / 2 ^ 82) rank ∧ p99_rank fused samples = ⌈rank⌉.toNat := by
  have hlow : (2 : ℚ) ≤ samples := mod_cast htwo
  have hhigh : (samples : ℚ) ≤ 2 ^ 45 := mod_cast hle
  obtain ⟨m, e, hof, hvalue⟩ := ofInt_nat (n := samples) (by omega)
  cases fused with
  | true =>
    obtain ⟨m₁, e₁, hrank, hrounded⟩ :=
      ofRat_rounded ((false ^^ false) && !false)
        (q := 8917127262193582 / 2 ^ 53 * samples - 4835703278458517 / 2 ^ 82) (by linarith)
        (lt_bound (by linarith))
    refine ⟨_, _, .inr rfl, hrounded, ?_⟩
    unfold p99_rank
    dsimp only
    rw [if_pos rfl, ofRat_p99, ofRat_nano, hof]
    unfold fmsub
    dsimp only
    rw [value_p99, value_nano, hvalue]
    exact congrArg (fun x => ⌈value x⌉.toNat) hrank
  | false =>
    obtain ⟨m₁, e₁, hscaled, hrounded⟩ :=
      ofRat_rounded (false ^^ false) (q := 8917127262193582 / 2 ^ 53 * samples) (by linarith)
        (lt_bound (by linarith))
    have hless := hrounded.le_mul
    have hmore := hrounded.mul_le
    obtain ⟨m₂, e₂, hrank, hrounded'⟩ :=
      ofRat_rounded (false && true) (q := value (.finite false m₁ e₁) - 4835703278458517 / 2 ^ 82)
        (by linarith) (lt_bound (by linarith))
    refine ⟨_, _, .inl hrounded, hrounded', ?_⟩
    have hmul : Float64.mul (Float64.ofRat false (99 / 100)) (Float64.ofInt samples) = .finite false m₁ e₁ := by
      rw [ofRat_p99, hof, ← hscaled]
      unfold Float64.mul
      dsimp only
      rw [value_p99, hvalue]
    have hneg := value_neg (.finite false 4835703278458517 (-82))
    rw [value_nano] at hneg
    unfold p99_rank
    dsimp only
    rw [if_neg Bool.false_ne_true, hmul, ofRat_nano]
    unfold Float64.sub Float64.neg Float64.add
    unfold Float64.neg at hneg
    dsimp only at hneg ⊢
    rw [hneg, ← sub_eq_add_neg]
    exact congrArg (fun x => ⌈value x⌉.toNat) hrank

theorem p99_rank_eq (fused : Bool) {samples : Nat} (h : samples ≤ 2 ^ 45)
    : p99_rank fused samples = ⌈(99 / 100 : ℚ) * samples⌉₊ := by
  match samples, h with
  | 0, _ => cases fused <;> decide +kernel
  | 1, _ => cases fused <;> decide +kernel
  | samples + 2, h =>
    generalize hn : samples + 2 = n at *
    have hhigh : (n : ℚ) ≤ 2 ^ 45 := mod_cast h
    have hpos : (0 : ℚ) ≤ n := Nat.cast_nonneg n
    obtain ⟨scaled, rank, hscaled, hrank, heq⟩ := exists_p99_rank fused (show 2 ≤ n by omega) h
    rw [heq]
    generalize hk : ⌈(99 / 100 : ℚ) * n⌉₊ = k
    have hup : (99 / 100 : ℚ) * n ≤ k := hk ▸ Nat.le_ceil _
    have hkn : k ≤ n := by
      rw [← hk]
      apply Nat.ceil_le.mpr
      linarith
    have hbound : (k : ℚ) < 2 ^ 53 := by
      have hcast : (k : ℚ) ≤ n := mod_cast hkn
      linarith
    -- the exact value is a multiple of a hundredth
    have hdown : (k : ℚ) ≤ 99 / 100 * n + 99 / 100 := by
      have hlt : (k : ℚ) < 99 / 100 * n + 1 := hk ▸ Nat.ceil_lt_add_one (by positivity)
      have hnat : 100 * k < 99 * n + 100 := by
        rw [← Nat.cast_lt (α := ℚ)]
        push_cast
        linarith
      have hnat' : ((100 * k : Nat) : ℚ) ≤ ((99 * n + 99 : Nat) : ℚ) := Nat.cast_le.mpr (by omega)
      push_cast at hnat'
      linarith
    have hle₁ : scaled ≤ k := by
      obtain hscaled | rfl := hscaled
      . exact hscaled.le_nat (by linarith) (by linarith)
      . linarith
    have hle₂ : rank ≤ k := hrank.le_nat (by linarith) (by linarith)
    have hge₁ : 8917127262193582 / 2 ^ 53 * (n : ℚ) * (2 ^ 53 - 1) ≤ scaled * 2 ^ 53 := by
      obtain hscaled | rfl := hscaled
      . exact hscaled.le_mul
      . linarith
    have hge₂ := hrank.le_mul
    have hceil : ⌈rank⌉ = k := by
      rw [Int.ceil_eq_iff]
      constructor
      . push_cast
        linarith
      . exact_mod_cast hle₂
    rw [hceil, Int.toNat_natCast]

end Rank

section Merge

variable {workers : List LatencyWorker} {calls : List Nat}

theorem sortedBuckets_perm (calls : List Nat) : (sortedBuckets calls).Perm (calls.map latencyBucket) :=
  List.mergeSort_perm _ _

theorem length_sortedBuckets (calls : List Nat) : (sortedBuckets calls).length = calls.length := by
  rw [(sortedBuckets_perm calls).length_eq, List.length_map]

theorem pairwise_sortedBuckets (calls : List Nat) : (sortedBuckets calls).Pairwise (· ≤ ·) :=
  List.pairwise_mergeSort' (· ≤ ·) _

theorem counted_sum_le (workers : List LatencyWorker) (used : Nat)
    : ((List.range used).map (counted (workers.map LatencyWorker.slot))).sum ≤ (pooled workers).length := by
  calc ((List.range used).map (counted (workers.map LatencyWorker.slot))).sum
    _ ≤ ((List.range used).map (((pooled workers).map latencyBucket).count ·)).sum :=
      List.sum_le_sum fun b _ => counted_le workers b
    _ = below ((pooled workers).map latencyBucket) used := (below_eq_sum _ _).symm
    _ ≤ (pooled workers).length := by
      rw [← List.length_map latencyBucket]
      exact below_le_length

theorem merge_latencies_eq (fused : Bool) (slots : List LatencySlot)
    : merge_latencies fused slots
      = if merged_samples slots (merged_used slots) = 0 then
          .empty
        else
          { p99_us :=
              (LatencyScan.run slots (p99_rank fused (merged_samples slots (merged_used slots)).toNat)
                (merged_used slots)).p99_us
            samples := merged_samples slots (merged_used slots)
            overflow :=
              if kLatencyBuckets < merged_used slots then add_bucket slots kLatencyOverflowBucket 0 else 0
            min_us :=
              (LatencyScan.run slots (p99_rank fused (merged_samples slots (merged_used slots)).toNat)
                (merged_used slots)).min_us
            max_us :=
              (LatencyScan.run slots (p99_rank fused (merged_samples slots (merged_used slots)).toNat)
                (merged_used slots)).max_us } := by
  unfold merge_latencies
  dsimp only
  by_cases hused : merged_used slots = 0
  . rw [if_pos hused, hused, if_pos (by rfl)]
  . rw [if_neg hused]

theorem merge_samples (fused : Bool) (slots : List LatencySlot)
    : (merge_latencies fused slots).samples = merged_samples slots (merged_used slots) := by
  rw [merge_latencies_eq]
  by_cases hsamples : merged_samples slots (merged_used slots) = 0
  . rw [if_pos hsamples, hsamples]
    rfl
  . rw [if_neg hsamples]

theorem fit_of_samples {fused : Bool}
    (h : (merge_latencies fused (workers.map LatencyWorker.slot)).samples.toNat = (pooled workers).length)
    : CountersFit workers ∧ (pooled workers).length < 2 ^ 64 := by
  have hle := counted_sum_le workers (merged_used (workers.map LatencyWorker.slot))
  rw [merge_samples, samples_eq, BitVec.toNat_ofNat] at h
  generalize hused : merged_used (workers.map LatencyWorker.slot) = used at h hle
  have hmod := Nat.mod_le ((List.range used).map (counted (workers.map LatencyWorker.slot))).sum (2 ^ 64)
  have hlt := Nat.mod_lt ((List.range used).map (counted (workers.map LatencyWorker.slot))).sum
    (Nat.two_pow_pos 64)
  refine ⟨?_, by omega⟩
  apply fit_of_counted
  intro b
  have hall : ((pooled workers).map latencyBucket).length = below ((pooled workers).map latencyBucket) used :=
    (below_eq_length fun x hx => hused ▸ lt_merged_used hx).symm
  rw [List.length_map] at hall
  by_cases hb : b < used
  . by_contra hne
    have hstrict : ((List.range used).map (counted (workers.map LatencyWorker.slot))).sum
        < ((List.range used).map (((pooled workers).map latencyBucket).count ·)).sum :=
      List.sum_lt_sum _ _ (fun b _ => counted_le workers b)
        ⟨b, List.mem_range.mpr hb, Nat.lt_of_le_of_ne (counted_le workers b) hne⟩
    rw [← below_eq_sum] at hstrict
    omega
  . have hnone : ((pooled workers).map latencyBucket).count b = 0 := by
      rw [List.count_eq_zero]
      exact fun hmem => hb (hused ▸ lt_merged_used hmem)
    have hcounted := counted_le workers b
    omega

theorem count_overflow (calls : List Nat)
    : (calls.map latencyBucket).count kLatencyOverflowBucket = calls.countP (10 ^ 9 ≤ ·) := by
  rw [List.count, List.countP_map]
  congr 1
  funext ns
  rw [Function.comp_apply, Bool.eq_iff_iff, beq_iff_eq, decide_eq_true_eq]
  unfold latencyBucket kLatencyOverflowBucket kLatencyBuckets
  dsimp only
  split <;> omega

theorem merge_of_fit (fused : Bool) (hfit : CountersFit workers) (hlength : (pooled workers).length < 2 ^ 64)
    : (merge_latencies fused (workers.map LatencyWorker.slot)).samples.toNat = (pooled workers).length
      ∧ (merge_latencies fused (workers.map LatencyWorker.slot)).overflow.toNat = (pooled workers).countP (10 ^ 9 ≤ ·)
      ∧ (merge_latencies fused (workers.map LatencyWorker.slot)).min_us
        = upperEdge (sortedBuckets (pooled workers)).head?
      ∧ (merge_latencies fused (workers.map LatencyWorker.slot)).max_us
        = upperEdge (sortedBuckets (pooled workers)).getLast?
      ∧ (merge_latencies fused (workers.map LatencyWorker.slot)).p99_us
        = upperEdge (sortedBuckets (pooled workers))[p99_rank fused (pooled workers).length - 1]? := by
  have hcount : ∀ b, counted (workers.map LatencyWorker.slot) b = (sortedBuckets (pooled workers)).count b := by
    intro b
    rw [counted_of_fit hfit, (sortedBuckets_perm _).count_eq]
  have hbelow : ∀ x ∈ sortedBuckets (pooled workers), x < merged_used (workers.map LatencyWorker.slot) :=
    fun x hx => lt_merged_used ((sortedBuckets_perm _).mem_iff.mp hx)
  have hall := below_eq_length hbelow
  have hoverflow : (pooled workers).countP (10 ^ 9 ≤ ·)
      = (sortedBuckets (pooled workers)).count kLatencyOverflowBucket := by
    rw [← count_overflow, (sortedBuckets_perm _).count_eq]
  have hpairwise := pairwise_sortedBuckets (pooled workers)
  have hsum : merged_samples (workers.map LatencyWorker.slot) (merged_used (workers.map LatencyWorker.slot))
      = BitVec.ofNat 64 (sortedBuckets (pooled workers)).length := by
    rw [samples_eq, ← hall, below_eq_sum]
    congr 2
    exact List.map_congr_left fun b _ => hcount b
  rw [hoverflow]
  rw [← length_sortedBuckets] at hlength ⊢
  generalize sortedBuckets (pooled workers) = l at *
  generalize workers.map LatencyWorker.slot = slots at *
  have htoNat : (BitVec.ofNat 64 l.length).toNat = l.length := by
    rw [BitVec.toNat_ofNat]
    exact Nat.mod_eq_of_lt hlength
  rw [merge_latencies_eq, hsum]
  by_cases hnil : BitVec.ofNat 64 l.length = 0
  . rw [if_pos hnil]
    have hempty : l = [] := by
      apply List.length_eq_zero_iff.mp
      rw [← htoNat, hnil]
      rfl
    rw [hempty]
    exact ⟨rfl, rfl, rfl, rfl, rfl⟩
  . rw [if_neg hnil, htoNat]
    have hpos : 0 < l.length := by
      apply Nat.pos_of_ne_zero
      intro hzero
      rw [hzero] at hnil
      exact hnil rfl
    have hscan := scanned_run hpairwise hcount hlength (p99_rank fused l.length) (merged_used slots)
    have hmin := hscan.min
    have hmax := hscan.max
    have hp99 := hscan.p99
    rw [hall, if_pos hpos] at hmin hmax
    rw [hall] at hp99
    refine ⟨rfl, ?_, ?_, ?_, ?_⟩
    . dsimp only
      by_cases hover : kLatencyBuckets < merged_used slots
      . rw [if_pos hover, add_bucket_eq, hcount, show (0 : BitVec 64) + _ = _ from BitVec.zero_add _,
          BitVec.toNat_ofNat]
        exact Nat.mod_eq_of_lt (Nat.lt_of_le_of_lt List.count_le_length hlength)
      . rw [if_neg hover]
        exact (List.count_eq_zero.mpr fun hmem => hover (hbelow _ hmem)).symm
    . rw [hmin, List.head?_eq_getElem?]
    . rw [hmax, List.getLast?_eq_getElem?]
    . rw [hp99]
      by_cases hrank : p99_rank fused l.length ≤ l.length
      . rw [if_pos ⟨hpos, hrank⟩]
      . rw [if_neg (fun h => hrank h.2), List.getElem?_eq_none (by omega)]
        rfl

/--
Up to 2^45 calls the outcome is that of all the calls together, whichever worker made them, exactly as long as
no counter wraps. It never is when one does.
-/
theorem merge_latencies_describes_iff (fused : Bool) (workers : List LatencyWorker)
    : ((pooled workers).length ≤ 2 ^ 45 →
        ((merge_latencies fused (workers.map LatencyWorker.slot)).Describes (pooled workers)
          ↔ CountersFit workers))
      ∧ ((merge_latencies fused (workers.map LatencyWorker.slot)).Describes (pooled workers) →
        CountersFit workers ∧ (pooled workers).length < 2 ^ 64) := by
  refine ⟨?_, fun h => fit_of_samples h.samples⟩
  intro hlength
  constructor
  . exact fun h => (fit_of_samples h.samples).1
  . intro hfit
    obtain ⟨hsamples, hoverflow, hmin, hmax, hp99⟩ := merge_of_fit fused hfit (by omega)
    rw [p99_rank_eq fused hlength] at hp99
    exact ⟨hsamples, hoverflow, hmin, hmax, hp99⟩

/--
A bucket that is hit 2^32 times shows nothing.
-/
theorem wrapped_not_describes
    : ¬(merge_latencies false ([some (.init, List.replicate (2 ^ 32) 0)].map LatencyWorker.slot)).Describes
      (pooled [some (.init, List.replicate (2 ^ 32) 0)]) := by
  intro h
  have hlt := (fit_of_samples h.samples).1 _ List.mem_cons_self 0
  have hcount : LatencyWorker.count (some (.init, List.replicate (2 ^ 32) 0)) 0 = 2 ^ 32 := by
    unfold LatencyWorker.count LatencyWorker.calls
    dsimp only
    rw [List.map_replicate]
    exact List.count_replicate_self
  rw [hcount] at hlt
  exact Nat.lt_irrefl _ hlt

end Merge

end Bench
