import BenchPlatform.Engine.Exact
import BenchPlatform.Engine.Runner.Basic
import BenchPlatform.Engine.Validate

/-!
This module contains what a summary says about the values it is made of, in exact arithmetic, and that the
validation finds its numbers in order.
-/

namespace Bench

section Rank

variable {D : Type} [Double D]

def rank (sorted : List D) (p : Nat) : D :=
  (p : D) / ((100 : Nat) : D) * ((sorted.length - 1 : Nat) : D)

theorem percentile_sorted_eq (sorted : List D) (p : Nat)
    : percentile_sorted sorted p
      = if sorted.isEmpty then
          Double.nan
        else
          sorted.getD (Double.floor (rank sorted p)) Double.nan
            + (sorted.getD (Double.ceil (rank sorted p)) Double.nan
                - sorted.getD (Double.floor (rank sorted p)) Double.nan)
              * (rank sorted p - ((Double.floor (rank sorted p) : Nat) : D)) :=
  rfl

/--
The two elements that a percentile is interpolated from are read inside of the list.
-/
def ReadsInside (sorted : List D) (p : Nat) : Prop :=
  Double.floor (rank sorted p) < sorted.length ∧ Double.ceil (rank sorted p) < sorted.length

end Rank

section Exact

open Sample

variable {K : Type} [Field K] [LinearOrder K] [FloorRing K] {sqrt : K → K} {nan : K} {v : List K} {p : Nat}

theorem sorted_copy_exact (v : List K)
    : @sorted_copy K (Double.exact sqrt nan) v = (v : Multiset K).sort (· ≤ ·) := by
  rw [Multiset.coe_sort]
  unfold sorted_copy
  congr 1
  funext a b
  change (!decide (b < a)) = decide (a ≤ b)
  rw [← decide_not]
  exact decide_eq_decide.mpr not_lt

theorem length_sorted_copy (v : List K) : (@sorted_copy K (Double.exact sqrt nan) v).length = v.length :=
  List.length_mergeSort _

theorem sorted_copy_ne_nil (hv : v ≠ []) : @sorted_copy K (Double.exact sqrt nan) v ≠ [] := by
  intro hnil
  have hlength := @length_sorted_copy K _ _ _ sqrt nan v
  rw [hnil] at hlength
  exact hv (List.length_eq_zero_iff.mp hlength.symm)

theorem getD_sorted_copy {i : Nat} (hi : i < v.length) (d : K)
    : (@sorted_copy K (Double.exact sqrt nan) v).getD i d = orderStatistic (v : Multiset K) i := by
  have hin : i < (@sorted_copy K (Double.exact sqrt nan) v).length := by rwa [length_sorted_copy]
  unfold orderStatistic
  rw [Multiset.coe_card, Nat.min_eq_left (by omega), ← @sorted_copy_exact K _ _ _ sqrt nan,
    List.getD_eq_getElem _ _ hin, List.getD_eq_getElem _ _ hin]

theorem head_sorted_copy (hv : v ≠ []) (d : K)
    : (@sorted_copy K (Double.exact sqrt nan) v).headD d = orderStatistic (v : Multiset K) 0 := by
  rw [← getD_sorted_copy (List.length_pos_iff.mpr hv) d]
  cases @sorted_copy K (Double.exact sqrt nan) v with
  | nil => rfl
  | cons x rest => rfl

theorem last_sorted_copy (hv : v ≠ []) (d : K)
    : (@sorted_copy K (Double.exact sqrt nan) v).getLastD d
      = orderStatistic (v : Multiset K) ((v : Multiset K).card - 1) := by
  have hpos := List.length_pos_iff.mpr hv
  rw [Multiset.coe_card, ← @getD_sorted_copy K _ _ _ sqrt nan _ _ (by omega) d,
    List.getLastD_eq_getLast?, List.getLast?_eq_getElem?, length_sorted_copy, List.getD_eq_getElem?_getD]

section Ranks

variable [IsStrictOrderedRing K]

theorem rank_le (sorted : List K) (hp : p ≤ 100)
    : @rank K (Double.exact sqrt nan) sorted p ≤ ((sorted.length - 1 : Nat) : K) := by
  have hle : (p : K) / ((100 : Nat) : K) ≤ 1 := by
    rw [div_le_one (Nat.cast_pos.mpr (by decide))]
    exact Nat.cast_le.mpr hp
  exact mul_le_of_le_one_left (Nat.cast_nonneg _) hle

theorem zero_le_rank (sorted : List K) : 0 ≤ @rank K (Double.exact sqrt nan) sorted p :=
  mul_nonneg (div_nonneg (Nat.cast_nonneg _) (Nat.cast_nonneg _)) (Nat.cast_nonneg _)

theorem readsInside_of_ne_nil {sorted : List K} (h : sorted ≠ []) (hp : p ≤ 100)
    : @ReadsInside K (Double.exact sqrt nan) sorted p := by
  have hpos := List.length_pos_iff.mpr h
  have hle := @rank_le K _ _ _ sqrt nan _ _ sorted hp
  have hceil : ⌈@rank K (Double.exact sqrt nan) sorted p⌉₊ ≤ sorted.length - 1 := Nat.ceil_le.mpr hle
  have hfloor := Nat.floor_le_ceil (@rank K (Double.exact sqrt nan) sorted p)
  constructor
  . change ⌊@rank K (Double.exact sqrt nan) sorted p⌋.toNat < sorted.length
    rw [Int.floor_toNat]
    omega
  . change ⌈@rank K (Double.exact sqrt nan) sorted p⌉.toNat < sorted.length
    rw [Int.ceil_toNat]
    omega

theorem percentile_sorted_exact (hv : v ≠ []) (hp : p ≤ 100)
    : @percentile_sorted K (Double.exact sqrt nan) (@sorted_copy K (Double.exact sqrt nan) v) p
      = Sample.percentile (v : Multiset K) p := by
  have hne := @sorted_copy_ne_nil K _ _ _ sqrt nan _ hv
  have hinside := @readsInside_of_ne_nil K _ _ _ sqrt nan _ _ _ hne hp
  have hrank : @rank K (Double.exact sqrt nan) (@sorted_copy K (Double.exact sqrt nan) v) p
      = p / 100 * (((v : Multiset K).card - 1 : Nat) : K) := by
    unfold rank
    rw [length_sorted_copy, Multiset.coe_card, Nat.cast_ofNat]
  have hnonneg := @zero_le_rank K _ _ _ sqrt nan p _ (@sorted_copy K (Double.exact sqrt nan) v)
  unfold ReadsInside at hinside
  rw [length_sorted_copy] at hinside
  rw [@percentile_sorted_eq K (Double.exact sqrt nan), if_neg (fun h => hne (List.isEmpty_iff.mp h)), getD_sorted_copy hinside.1,
    getD_sorted_copy hinside.2]
  unfold Sample.percentile interpolate
  rw [← hrank]
  generalize @rank K (Double.exact sqrt nan) (@sorted_copy K (Double.exact sqrt nan) v) p = r at hnonneg
  change orderStatistic (v : Multiset K) ⌊r⌋.toNat
      + (orderStatistic (v : Multiset K) ⌈r⌉.toNat - orderStatistic (v : Multiset K) ⌊r⌋.toNat)
        * (r - (⌊r⌋.toNat : K)) = _
  rw [Int.floor_toNat, Int.ceil_toNat]
  obtain heq | hlt := (Nat.floor_le hnonneg).eq_or_lt
  . rw [heq, sub_self, mul_zero, mul_zero]
  . have hceil : ⌈r⌉₊ = ⌊r⌋₊ + 1 := by
      apply le_antisymm (Nat.ceil_le_floor_add_one r)
      exact Nat.lt_ceil.mpr hlt
    rw [hceil]

theorem median_exact (hv : v ≠ []) : @median K (Double.exact sqrt nan) v = Sample.percentile (v : Multiset K) 50 := by
  have h := @percentile_sorted_exact K _ _ _ sqrt nan v 50 _ hv (by decide)
  rwa [Nat.cast_ofNat] at h

theorem mad_exact (hv : v ≠ []) : @Bench.mad K (Double.exact sqrt nan) v = Sample.mad (v : Multiset K) := by
  have hdev : (v.map fun x => |x - @median K (Double.exact sqrt nan) v|) ≠ [] := by
    intro hnil
    exact hv (List.map_eq_nil_iff.mp hnil)
  unfold Bench.mad Sample.mad
  rw [if_neg (fun h => hv (List.isEmpty_iff.mp h)), Multiset.map_coe, ← @median_exact K _ _ _ sqrt nan v _ hv]
  exact median_exact hdev

end Ranks

theorem check_ordering_nil {s : Summary K} (hmin : s.min ≤ s.median) (hmax : s.median ≤ s.max)
    (hp : s.p5 ≤ s.p95) (w : String)
    : @Validate.check_ordering K (Double.exact sqrt nan) s.to_json w = [] := by
  have hnot : ∀ {a b : K}, a ≤ b → @Double.lt K (Double.exact sqrt nan) b a = false :=
    fun h => decide_eq_false (not_lt.mpr h)
  unfold Validate.check_ordering Validate.check_order Validate.problem_if
  simp [Summary.to_json, json.find, json.contains, Validate.num, json.double, List.lookup_cons, hnot hmin, hnot hmax,
    hnot hp, hnot (hmin.trans hmax)]

/--
What the statistics say about the values, whatever their order.
-/
structure SummaryStats.Describes (st : SummaryStats K) (sqrt : K → K) (s : Multiset K) : Prop where
  n : st.n = s.card
  mean : st.mean = average s
  stddev : st.stddev = sqrt (variance s)
  cov : st.cov = if average s = 0 then 0 else sqrt (variance s) / average s
  min_mem : st.min ∈ s
  min_le : ∀ x ∈ s, st.min ≤ x
  max_mem : st.max ∈ s
  le_max : ∀ x ∈ s, x ≤ st.max
  median : st.median = Sample.percentile s 50
  p5 : st.p5 = Sample.percentile s 5
  p95 : st.p95 = Sample.percentile s 95
  mad : st.mad = Sample.mad s

structure SummaryStats.InOrder (st : SummaryStats K) : Prop where
  min_p5 : st.min ≤ st.p5
  p5_median : st.p5 ≤ st.median
  median_p95 : st.median ≤ st.p95
  p95_max : st.p95 ≤ st.max
  min_mean : st.min ≤ st.mean
  mean_max : st.mean ≤ st.max

namespace SummaryStats.Describes

variable {st st' : SummaryStats K} {s : Multiset K}

theorem ne_zero (h : st.Describes sqrt s) : s ≠ 0 := by
  intro hs
  have hmem := h.min_mem
  rw [hs] at hmem
  exact Multiset.notMem_zero _ hmem

theorem min_eq (h : st.Describes sqrt s) : st.min = orderStatistic s 0 := by
  have hs := h.ne_zero
  exact le_antisymm (h.min_le _ (orderStatistic_mem hs 0)) (orderStatistic_zero_le h.min_mem)

theorem max_eq (h : st.Describes sqrt s) : st.max = orderStatistic s (s.card - 1) := by
  have hs := h.ne_zero
  exact le_antisymm (le_orderStatistic_last h.max_mem) (h.le_max _ (orderStatistic_mem hs _))

theorem unique (h : st.Describes sqrt s) (h' : st'.Describes sqrt s) : st = st' := by
  cases st
  cases st'
  congr
  . exact h.n.trans h'.n.symm
  . exact h.mean.trans h'.mean.symm
  . exact h.median.trans h'.median.symm
  . exact h.stddev.trans h'.stddev.symm
  . exact h.cov.trans h'.cov.symm
  . exact h.min_eq.trans h'.min_eq.symm
  . exact h.p5.trans h'.p5.symm
  . exact h.p95.trans h'.p95.symm
  . exact h.max_eq.trans h'.max_eq.symm
  . exact h.mad.trans h'.mad.symm

variable [IsStrictOrderedRing K]

theorem inOrder (h : st.Describes sqrt s) : st.InOrder where
  min_p5 := by
    rw [h.min_eq, ← percentile_zero, h.p5]
    exact percentile_mono le_rfl (by norm_num)
  p5_median := by
    rw [h.p5, h.median]
    exact percentile_mono (by norm_num) (by norm_num)
  median_p95 := by
    rw [h.median, h.p95]
    exact percentile_mono (by norm_num) (by norm_num)
  p95_max := by
    rw [h.max_eq, ← percentile_hundred, h.p95]
    exact percentile_mono (by norm_num) (by norm_num)
  min_mean := by
    rw [h.mean]
    exact le_average (h.ne_zero) h.min_le
  mean_max := by
    rw [h.mean]
    exact average_le (h.ne_zero) h.le_max

end SummaryStats.Describes

variable [IsStrictOrderedRing K]

theorem describes_summarize (hv : v ≠ [])
    : (@summarize K (Double.exact sqrt nan) v).Describes sqrt (v : Multiset K) := by
  have hnil : ¬v.isEmpty = true := fun h => hv (List.isEmpty_iff.mp h)
  have hs : (v : Multiset K) ≠ 0 := fun h => hv (Multiset.coe_eq_zero _ |>.mp h)
  have hpercentile : ∀ p ≤ 100, @percentile_sorted K (Double.exact sqrt nan)
      (@sorted_copy K (Double.exact sqrt nan) v) p = Sample.percentile (v : Multiset K) p :=
    fun p hp => percentile_sorted_exact hv hp
  have hstddev : @sample_stddev K (Double.exact sqrt nan) v = sqrt (variance (v : Multiset K)) :=
    congrArg sqrt (sample_variance_exact sqrt nan v)
  unfold summarize
  rw [if_neg hnil]
  dsimp only
  rw [head_sorted_copy hv, last_sorted_copy hv, mean_exact, hstddev, hpercentile 5 (by decide),
    hpercentile 50 (by decide), hpercentile 95 (by decide), mad_exact hv]
  constructor
  . exact (Multiset.coe_card v).symm
  . rfl
  . rfl
  . dsimp only
    rw [Nat.cast_zero]
    exact if_congr decide_eq_true_iff rfl rfl
  . exact orderStatistic_mem hs 0
  . exact fun x hx => orderStatistic_zero_le hx
  . exact orderStatistic_mem hs _
  . exact fun x hx => le_orderStatistic_last hx
  . exact congrArg (Sample.percentile _) Nat.cast_ofNat
  . exact congrArg (Sample.percentile _) Nat.cast_ofNat
  . exact congrArg (Sample.percentile _) Nat.cast_ofNat
  . rfl

/--
A summary says what its values are as a multiset, is made without a read outside of the list, has its numbers in
order and passes the validation.
-/
theorem summarize_describes (sqrt : K → K) (nan : K) (hv : v ≠ [])
    : (@summarize K (Double.exact sqrt nan) v).Describes sqrt (v : Multiset K)
      ∧ ((∀ x, 0 ≤ x → sqrt x * sqrt x = x) →
        (@summarize K (Double.exact sqrt nan) v).stddev * (@summarize K (Double.exact sqrt nan) v).stddev
          = variance (v : Multiset K))
      ∧ (∀ sorted : List K, sorted ≠ [] → ∀ p ≤ 100, @ReadsInside K (Double.exact sqrt nan) sorted p)
      ∧ (∀ v' : List K, v'.Perm v →
        @summarize K (Double.exact sqrt nan) v' = @summarize K (Double.exact sqrt nan) v)
      ∧ (@summarize K (Double.exact sqrt nan) v).InOrder
      ∧ ∀ (sess : ConfigSession K) (m : Metric) (canary_start canary_end : ClockCheck K) (attempts : Int)
          (w : String),
        @Validate.check_ordering K (Double.exact sqrt nan)
          (@ConfigSession.summary K (Double.exact sqrt nan) sess m v canary_start canary_end attempts).to_json w
            = [] := by
  have h := @describes_summarize K _ _ _ sqrt nan _ _ hv
  have horder := h.inOrder
  refine ⟨h, ?_, ?_, ?_, horder, ?_⟩
  . intro hsqrt
    rw [h.stddev]
    exact hsqrt _ (variance_nonneg _)
  . exact fun sorted hne p hp => readsInside_of_ne_nil hne hp
  . intro v' hperm
    have hv' : v' ≠ [] := fun hnil => hv (List.nil_perm.mp (hnil ▸ hperm))
    have h' := @describes_summarize K _ _ _ sqrt nan _ _ hv'
    rw [Multiset.coe_eq_coe.mpr hperm] at h'
    exact h'.unique h
  . intro sess m canary_start canary_end attempts w
    apply check_ordering_nil
    . exact horder.min_p5.trans horder.p5_median
    . exact horder.median_p95.trans horder.p95_max
    . exact horder.p5_median.trans horder.median_p95

theorem summarize_describes_rat
    : (@summarize ℚ (Double.exact id 0) [3, 1, 2]).Describes id (([3, 1, 2] : List ℚ) : Multiset ℚ)
      ∧ (@summarize ℚ (Double.exact id 0) [3, 1, 2]).InOrder := by
  obtain ⟨h, _, _, _, horder, _⟩ := summarize_describes id 0 (v := ([3, 1, 2] : List ℚ)) (List.cons_ne_nil _ _)
  exact ⟨h, horder⟩

end Exact

end Bench
