import Mathlib.Data.List.Sort

/-!
This module contains the pages of a list whose elements are taken in the order of a key: what the first
elements are, and which of the others can be left out.
-/

namespace Keyset

variable {α κ : Type*} [LinearOrder κ]

def page (key : α → κ) (n : Nat) (l : List α) : List α :=
  (l.insertionSort fun a b => key a ≤ key b).take n

variable {key : α → κ} {n : Nat} {l : List α} {a : α}

theorem mem_of_mem_page (h : a ∈ page key n l) : a ∈ l :=
  (List.mem_insertionSort _).mp (List.mem_of_mem_take h)

theorem pairwise_insertionSort (key : α → κ) (l : List α)
    : (l.insertionSort fun a b => key a ≤ key b).Pairwise fun a b => key a ≤ key b :=
  have : Std.Total fun a b : α => key a ≤ key b := ⟨fun a b => le_total (key a) (key b)⟩
  have : IsTrans α fun a b => key a ≤ key b := ⟨fun _ _ _ => le_trans⟩
  List.pairwise_insertionSort _ l

theorem pairwise_page : (page key n l).Pairwise fun a b => key a ≤ key b :=
  (pairwise_insertionSort key l).sublist (List.take_sublist _ _)

theorem pairwise_page_lt (h : (l.map key).Nodup) : ((page key n l).map key).Pairwise (· < ·) := by
  have hperm := (List.perm_insertionSort (fun a b => key a ≤ key b) l).map key
  have hnodup : ((page key n l).map key).Nodup :=
    (hperm.nodup_iff.mpr h).sublist ((List.take_sublist _ _).map _)
  have hle : ((page key n l).map key).Pairwise (· ≤ ·) := List.pairwise_map.mpr pairwise_page
  exact (hle.and hnodup).imp fun h => lt_of_le_of_ne h.1 h.2

theorem mem_page_or (h : a ∈ l)
    : a ∈ page key n l ∨ (page key n l).length = n ∧ ∀ b ∈ page key n l, key b ≤ key a := by
  have hsorted := pairwise_insertionSort key l
  have hmem := (List.mem_insertionSort fun a b => key a ≤ key b).mpr h
  unfold page
  generalize (l.insertionSort fun a b => key a ≤ key b) = sorted at hsorted hmem
  rw [← List.take_append_drop n sorted, List.mem_append] at hmem
  obtain hmem | hmem := hmem
  . exact .inl hmem
  . right
    constructor
    . rw [List.length_take]
      have hdrop := List.length_pos_of_mem hmem
      rw [List.length_drop] at hdrop
      omega
    . rw [← List.take_append_drop n sorted, List.pairwise_append] at hsorted
      exact fun b hb => hsorted.2.2 b hb a hmem

theorem le_getLast {last : α} (h : (l.map key).Pairwise (· < ·)) (hlast : l.getLast? = some last)
    (ha : a ∈ l)
    : key a ≤ key last := by
  obtain ⟨init, rfl⟩ := List.getLast?_eq_some_iff.mp hlast
  rw [List.map_append, List.pairwise_append] at h
  obtain ha | ha := List.mem_append.mp ha
  . exact le_of_lt (h.2.2 _ (List.mem_map_of_mem ha) _ (List.mem_singleton_self _))
  . rw [List.mem_singleton.mp ha]

theorem take_filter {p : α → Bool} (h : ∀ a ∈ l.take n, p a) : (l.filter p).take n = l.take n := by
  induction l generalizing n with
  | nil => rfl
  | cons a l ih =>
    cases n with
    | zero => simp
    | succ n =>
      rw [List.filter_cons_of_pos (h a (by simp)), List.take_succ_cons, List.take_succ_cons]
      congr 1
      exact ih fun b hb => h b (List.mem_cons_of_mem _ hb)

end Keyset
