import Mathlib.Algebra.Order.BigOperators.Group.Multiset
import Mathlib.Algebra.Order.Floor.Semiring
import Mathlib.Algebra.BigOperators.Ring.Multiset
import Mathlib.Data.List.GetD
import Mathlib.Data.Multiset.Sort
import Mathlib.Tactic.FieldSimp
import Mathlib.Tactic.Linarith
import Mathlib.Tactic.Ring

/-!
This module contains the statistics of a finite multiset: its average and the squared deviations from it, its
order statistics, and the percentiles that lie between two of them.
-/

namespace Sample

section Deviations

variable {K : Type*} [Field K]

def average (s : Multiset K) : K :=
  s.sum / s.card

def deviations (s : Multiset K) : K :=
  (s.map fun x => (x - average s) ^ 2).sum

def squares (s : Multiset K) : K :=
  (s.map (· ^ 2)).sum

def variance (s : Multiset K) : K :=
  if s.card < 2 then 0 else deviations s / ((s.card - 1 : Nat) : K)

theorem sum_sub_sq (s : Multiset K) (c : K)
    : (s.map fun x => (x - c) ^ 2).sum = squares s - 2 * c * s.sum + s.card * c ^ 2 := by
  have hexpand : (fun x => (x - c) ^ 2) = fun x => x ^ 2 + (-(2 * c) * x + c ^ 2) := by
    funext x
    ring
  rw [hexpand, Multiset.sum_map_add, Multiset.sum_map_add, Multiset.sum_map_mul_left, Multiset.map_const',
    Multiset.sum_replicate, Multiset.map_id', nsmul_eq_mul]
  unfold squares
  ring

theorem deviations_eq [CharZero K] (s : Multiset K)
    : deviations s = squares s - s.sum ^ 2 / s.card := by
  unfold deviations
  rw [sum_sub_sq]
  obtain rfl | hs := eq_or_ne s 0
  . simp
  . have hcard : (s.card : K) ≠ 0 := Nat.cast_ne_zero.mpr (Multiset.card_eq_zero.not.mpr hs)
    unfold average
    field_simp
    ring

end Deviations

section Average

variable {K : Type*} [Field K] [LinearOrder K] [IsStrictOrderedRing K] {s : Multiset K} {a : K}

theorem le_average (hs : s ≠ 0) (h : ∀ x ∈ s, a ≤ x) : a ≤ average s := by
  have hcard : (0 : K) < s.card := Nat.cast_pos.mpr (Multiset.card_pos.mpr hs)
  unfold average
  rw [le_div_iff₀ hcard, mul_comm, ← nsmul_eq_mul]
  exact Multiset.card_nsmul_le_sum h

theorem average_le (hs : s ≠ 0) (h : ∀ x ∈ s, x ≤ a) : average s ≤ a := by
  have hcard : (0 : K) < s.card := Nat.cast_pos.mpr (Multiset.card_pos.mpr hs)
  unfold average
  rw [div_le_iff₀ hcard, mul_comm, ← nsmul_eq_mul]
  exact Multiset.sum_le_card_nsmul s a h

theorem deviations_nonneg (s : Multiset K) : 0 ≤ deviations s := by
  apply Multiset.sum_nonneg
  intro y hy
  obtain ⟨x, _, rfl⟩ := Multiset.mem_map.mp hy
  exact sq_nonneg _

theorem variance_nonneg (s : Multiset K) : 0 ≤ variance s := by
  unfold variance
  split
  . exact le_rfl
  . exact div_nonneg (deviations_nonneg s) (Nat.cast_nonneg _)

end Average

section Interpolation

variable {K : Type*} [Field K] [LinearOrder K] [IsStrictOrderedRing K] [FloorSemiring K] {x : Nat → K} {r r' : K}

/--
The line through the points `(i, x i)`.
-/
def interpolate (x : Nat → K) (r : K) : K :=
  x ⌊r⌋₊ + (x (⌊r⌋₊ + 1) - x ⌊r⌋₊) * (r - ⌊r⌋₊)

@[simp]
theorem interpolate_natCast (n : Nat) : interpolate x (n : K) = x n := by
  unfold interpolate
  rw [Nat.floor_natCast, sub_self, mul_zero, add_zero]

theorem le_interpolate (hx : Monotone x) (hr : 0 ≤ r) : x ⌊r⌋₊ ≤ interpolate x r := by
  have hstep := hx (Nat.le_succ ⌊r⌋₊)
  have hfrac : 0 ≤ r - ⌊r⌋₊ := sub_nonneg.mpr (Nat.floor_le hr)
  exact le_add_of_nonneg_right (mul_nonneg (sub_nonneg.mpr hstep) hfrac)

theorem interpolate_le (hx : Monotone x) : interpolate x r ≤ x (⌊r⌋₊ + 1) := by
  have hstep := hx (Nat.le_succ ⌊r⌋₊)
  have hfrac : r - ⌊r⌋₊ ≤ 1 := by
    have hlt := Nat.lt_floor_add_one r
    linarith
  have hmul := mul_le_of_le_one_right (sub_nonneg.mpr hstep) hfrac
  unfold interpolate
  linarith

theorem interpolate_mono (hx : Monotone x) (hr : 0 ≤ r) (h : r ≤ r') : interpolate x r ≤ interpolate x r' := by
  obtain heq | hlt := (Nat.floor_mono h).eq_or_lt
  . -- on one segment
    have hslope := sub_nonneg.mpr (hx (Nat.le_succ ⌊r⌋₊))
    have hmul := mul_le_mul_of_nonneg_left (sub_le_sub_right h (⌊r⌋₊ : K)) hslope
    unfold interpolate
    rw [← heq]
    linarith
  . calc interpolate x r
      _ ≤ x (⌊r⌋₊ + 1) := interpolate_le hx
      _ ≤ x ⌊r'⌋₊ := hx hlt
      _ ≤ interpolate x r' := le_interpolate hx (hr.trans h)

end Interpolation

section Order

variable {K : Type*} [Field K] [LinearOrder K] {s : Multiset K} {i : Nat}

def orderStatistic (s : Multiset K) (i : Nat) : K :=
  (s.sort (· ≤ ·)).getD (min i (s.card - 1)) 0

theorem orderStatistic_mem (hs : s ≠ 0) (i : Nat) : orderStatistic s i ∈ s := by
  have hpos := Multiset.card_pos.mpr hs
  have hlt : min i (s.card - 1) < (s.sort (· ≤ ·)).length := by
    rw [Multiset.length_sort]
    omega
  unfold orderStatistic
  rw [List.getD_eq_getElem _ _ hlt]
  exact (Multiset.mem_sort (· ≤ ·)).mp (List.getElem_mem hlt)

theorem orderStatistic_mono (s : Multiset K) : Monotone (orderStatistic s) := by
  intro i j hij
  obtain rfl | hs := eq_or_ne s 0
  . unfold orderStatistic
    simp
  . have hpos := Multiset.card_pos.mpr hs
    have hsorted : (s.sort (· ≤ ·)).SortedLE := (Multiset.pairwise_sort s (· ≤ ·)).sortedLE
    have hlength := Multiset.length_sort (s := s) (r := (· ≤ ·))
    have hi : min i (s.card - 1) < (s.sort (· ≤ ·)).length := by omega
    have hj : min j (s.card - 1) < (s.sort (· ≤ ·)).length := by omega
    unfold orderStatistic
    rw [List.getD_eq_getElem _ _ hi, List.getD_eq_getElem _ _ hj]
    exact hsorted.getElem_le_getElem_of_le (by omega)

theorem exists_orderStatistic {x : K} (hx : x ∈ s) : ∃ i ≤ s.card - 1, orderStatistic s i = x := by
  obtain ⟨i, hi, rfl⟩ := List.getElem_of_mem ((Multiset.mem_sort (· ≤ ·)).mpr hx)
  have hlt := hi
  rw [Multiset.length_sort] at hlt
  refine ⟨i, by omega, ?_⟩
  unfold orderStatistic
  rw [Nat.min_eq_left (by omega), List.getD_eq_getElem _ _ hi]

theorem orderStatistic_zero_le {x : K} (hx : x ∈ s) : orderStatistic s 0 ≤ x := by
  obtain ⟨i, _, rfl⟩ := exists_orderStatistic hx
  exact orderStatistic_mono s (Nat.zero_le i)

theorem le_orderStatistic_last {x : K} (hx : x ∈ s) : x ≤ orderStatistic s (s.card - 1) := by
  obtain ⟨i, hi, rfl⟩ := exists_orderStatistic hx
  exact orderStatistic_mono s hi

end Order

section Percentile

variable {K : Type*} [Field K] [LinearOrder K] [IsStrictOrderedRing K] [FloorSemiring K] {s : Multiset K} {p q : K}

/--
Linear interpolation between the order statistics next to the rank `p / 100 * (n - 1)`.
-/
def percentile (s : Multiset K) (p : K) : K :=
  interpolate (orderStatistic s) (p / 100 * ((s.card - 1 : Nat) : K))

def mad (s : Multiset K) : K :=
  percentile (s.map fun x => |x - percentile s 50|) 50

omit [FloorSemiring K] in
theorem rank_nonneg (s : Multiset K) (hp : 0 ≤ p) : 0 ≤ p / 100 * ((s.card - 1 : Nat) : K) :=
  mul_nonneg (div_nonneg hp (by norm_num)) (Nat.cast_nonneg _)

theorem percentile_mono (hp : 0 ≤ p) (h : p ≤ q) : percentile s p ≤ percentile s q := by
  apply interpolate_mono (orderStatistic_mono s) (rank_nonneg s hp)
  exact mul_le_mul_of_nonneg_right (div_le_div_of_nonneg_right h (by norm_num)) (Nat.cast_nonneg _)

theorem percentile_zero : percentile s 0 = orderStatistic s 0 := by
  unfold percentile
  rw [zero_div, zero_mul, ← Nat.cast_zero, interpolate_natCast]

theorem percentile_hundred : percentile s 100 = orderStatistic s (s.card - 1) := by
  unfold percentile
  rw [div_self (by norm_num), one_mul, interpolate_natCast]

end Percentile

end Sample
