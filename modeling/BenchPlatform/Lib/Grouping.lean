import Mathlib.Data.List.Dedup
import Mathlib.Logic.Function.Basic

/-!
This module contains rows that are grouped by a key, and maps that are filled with one entry for each
group.
-/

namespace Grouping

variable {α β κ μ ρ : Type*} [DecidableEq κ] [DecidableEq μ]

def keys (key : α → κ) (rows : List α) : List κ :=
  (rows.map key).dedup

def members (key : α → κ) (rows : List α) (k : κ) : List α :=
  rows.filter fun a => key a = k

variable {key : α → κ} {rows : List α} {k : κ}

theorem mem_keys : k ∈ keys key rows ↔ ∃ a ∈ rows, key a = k := by
  rw [keys, List.mem_dedup, List.mem_map]

theorem mem_members {a : α} : a ∈ members key rows k ↔ a ∈ rows ∧ key a = k := by
  rw [members, List.mem_filter, decide_eq_true_iff]

theorem members_ne_nil_iff : members key rows k ≠ [] ↔ k ∈ keys key rows := by
  rw [mem_keys, ← List.length_pos_iff, List.length_pos_iff_exists_mem]
  exact exists_congr fun a => mem_members

theorem members_pair (key' : α → μ) (rows : List α) (j : μ) (k : κ)
    : members (fun a => (key' a, key a)) rows (j, k) = members key (members key' rows j) k := by
  rw [members, members, members, List.filter_filter]
  apply List.filter_congr
  intro a _
  simp only [Prod.mk.injEq, Bool.decide_and, Bool.and_comm]

theorem find?_map {row : κ → ρ} {tag : ρ → κ} (htag : ∀ k, tag (row k) = k) (ks : List κ) (k : κ)
    : (ks.map row).find? (fun r => tag r = k) = if k ∈ ks then some (row k) else none := by
  induction ks with
  | nil => rfl
  | cons k' ks ih =>
    rw [List.map_cons, List.find?_cons, htag, ih]
    by_cases h : k' = k
    . simp [h]
    . simp [h, Ne.symm h]

def insertAll (tag : ρ → κ) (value : ρ → β) (m : κ → Option β) (rs : List ρ) : κ → Option β :=
  rs.foldl (fun m r => Function.update m (tag r) (some (value r))) m

theorem insertAll_apply {row : κ → ρ} {tag : ρ → κ} (value : ρ → β) {rs : List ρ}
    (hrow : ∀ r ∈ rs, row (tag r) = r) (m : κ → Option β) (k : κ)
    : insertAll tag value m rs k = if k ∈ rs.map tag then some (value (row k)) else m k := by
  unfold insertAll
  induction rs generalizing m with
  | nil => rfl
  | cons r rs ih =>
    rw [List.forall_mem_cons] at hrow
    rw [List.foldl_cons, ih hrow.2, List.map_cons]
    by_cases hk : k ∈ rs.map tag
    . rw [if_pos hk, if_pos (List.mem_cons_of_mem _ hk)]
    . rw [if_neg hk]
      by_cases h : k = tag r
      . rw [h, Function.update_self, if_pos List.mem_cons_self, hrow.1]
      . rw [Function.update_of_ne h, if_neg fun hmem => ?_]
        obtain h' | h' := List.mem_cons.mp hmem
        . exact h h'
        . exact hk h'

end Grouping
