import Mathlib.Data.List.Count
import Mathlib.Algebra.BigOperators.Group.List.Basic
import Mathlib.Algebra.Ring.Nat

/-!
This module contains the cumulative counts of a list of numbers, and where they are found when the list is
sorted.
-/

namespace Cumulative

variable {l l' : List Nat} {m i : Nat}

/--
How many of the numbers are below `m`.
-/
def below (l : List Nat) (m : Nat) : Nat :=
  l.countP (· < m)

@[simp]
theorem below_zero : below l 0 = 0 :=
  List.countP_eq_zero.mpr fun _ _ h => Nat.not_lt_zero _ (of_decide_eq_true h)

theorem below_cons (x : Nat) : below (x :: l) m = below l m + if x < m then 1 else 0 := by
  unfold below
  simp only [List.countP_cons, decide_eq_true_eq]

theorem below_succ (l : List Nat) (m : Nat) : below l (m + 1) = below l m + l.count m := by
  induction l with
  | nil => rfl
  | cons x l ih =>
    rw [below_cons, below_cons, ih, List.count_cons]
    simp only [beq_iff_eq]
    split <;> split <;> split <;> omega

theorem below_eq_sum (l : List Nat) (m : Nat) : below l m = ((List.range m).map (l.count ·)).sum := by
  induction m with
  | zero => rw [below_zero, List.range_zero, List.map_nil, List.sum_nil]
  | succ m ih => rw [below_succ, ih, List.range_succ, List.map_append, List.sum_append, List.map_singleton,
      List.sum_singleton]

theorem below_le_length : below l m ≤ l.length :=
  List.countP_le_length

theorem below_eq_length (h : ∀ x ∈ l, x < m) : below l m = l.length :=
  List.countP_eq_length.mpr fun x hx => decide_eq_true (h x hx)

theorem getElem_lt_iff (hl : l.Pairwise (· ≤ ·)) (hi : i < l.length) : l[i] < m ↔ i < below l m := by
  induction l generalizing i with
  | nil => exact absurd hi (Nat.not_lt_zero _)
  | cons x l ih =>
    obtain ⟨hx, hl⟩ := List.pairwise_cons.mp hl
    rw [below_cons]
    by_cases hxm : x < m
    . rw [if_pos hxm]
      cases i with
      | zero => exact iff_of_true hxm (Nat.succ_pos _)
      | succ i => rw [List.getElem_cons_succ, ih hl, Nat.succ_lt_succ_iff]
    . have hnone : below l m = 0 := by
        apply List.countP_eq_zero.mpr
        intro y hy hlt
        exact hxm (Nat.lt_of_le_of_lt (hx y hy) (of_decide_eq_true hlt))
      rw [if_neg hxm, hnone, Nat.add_zero]
      apply iff_of_false _ (Nat.not_lt_zero _)
      cases i with
      | zero => exact hxm
      | succ i => exact fun hlt => hxm (Nat.lt_of_le_of_lt (hx _ (List.getElem_mem _)) hlt)

theorem getElem?_eq (hl : l.Pairwise (· ≤ ·)) (hlow : below l m ≤ i) (hhigh : i < below l (m + 1))
    : l[i]? = some m := by
  have hi : i < l.length := Nat.lt_of_lt_of_le hhigh below_le_length
  have hlt := (getElem_lt_iff (m := m + 1) hl hi).mpr hhigh
  have hge := (getElem_lt_iff (m := m) hl hi).not.mpr (Nat.not_lt.mpr hlow)
  rw [List.getElem?_eq_getElem hi]
  congr 1
  omega

end Cumulative
