import Mathlib.Data.List.Basic
import Mathlib.Data.List.Infix

/-!
This module contains the search for the first place where a text stands in another one: what is skipped on the
way there, and what is found in a text of which only the front has arrived.
-/

namespace Search

variable {α : Type} [DecidableEq α]

/--
Where `pat` first stands in a text.
-/
def search (pat : List α) : List α → Option Nat
  | [] => if pat = [] then some 0 else none
  | c :: s => if pat.isPrefixOf (c :: s) then some 0 else (search pat s).map (· + 1)

variable {pat s t front : List α} {a b c : α}

theorem search_isSome_iff : (search pat s).isSome ↔ pat <:+: s := by
  induction s with
  | nil => simp [search]
  | cons c s ih =>
    rw [search, List.infix_cons_iff]
    split
    . rename_i hbegins
      exact iff_of_true rfl (.inl (List.isPrefixOf_iff_prefix.mp hbegins))
    . rename_i hbegins
      rw [Option.isSome_map, ih]
      exact (or_iff_right (mt List.isPrefixOf_iff_prefix.mpr hbegins)).symm

theorem search_prefix (h : pat <+: s) : search pat s = some 0 := by
  cases s with
  | nil => rw [search, if_pos (List.prefix_nil.mp h)]
  | cons c s => rw [search, if_pos (List.isPrefixOf_iff_prefix.mpr h)]

theorem search_cons (h : ¬pat <+: c :: s) : search pat (c :: s) = (search pat s).map (· + 1) := by
  rw [search, if_neg (mt List.isPrefixOf_iff_prefix.mp h)]

theorem search_front {n : Nat} (h : s <+: t) (hfound : search pat s = some n)
    : search pat t = some n := by
  induction s generalizing t n with
  | nil =>
    unfold search at hfound
    split at hfound
    . rename_i hpat
      rw [hpat, ← hfound]
      exact search_prefix List.nil_prefix
    . cases hfound
  | cons c s ih =>
    obtain ⟨r, rfl⟩ := h
    by_cases hbegins : pat <+: c :: s
    . rw [ search_prefix hbegins] at hfound
      rw [← hfound]
      exact search_prefix (hbegins.trans (List.prefix_append _ _))
    . rw [search_cons hbegins] at hfound
      obtain ⟨k, hk, rfl⟩ := Option.map_eq_some_iff.mp hfound
      have hinfix : pat <:+: s := search_isSome_iff.mp (Option.isSome_iff_exists.mpr ⟨k, hk⟩)
      have hlength : pat.length ≤ (c :: s).length := Nat.le_succ_of_le hinfix.length_le
      have hnot : ¬pat <+: c :: (s ++ r) := fun hlater =>
        hbegins (List.prefix_of_prefix_length_le hlater (List.prefix_append (c :: s) r) hlength)
      rw [List.cons_append, search_cons hnot, ih (List.prefix_append s r) hk]
      rfl

theorem search_skip (h : a ∉ front)
    : search (a :: pat) (front ++ s) = (search (a :: pat) s).map (· + front.length) := by
  induction front with
  | nil => simp
  | cons c front ih =>
    rw [List.mem_cons, not_or] at h
    have hbegins : ¬a :: pat <+: c :: (front ++ s) := fun hp => h.1 (List.cons_prefix_cons.mp hp).1
    rw [List.cons_append, search_cons hbegins, ih h.2, Option.map_map, List.length_cons]
    rfl

theorem search_append (h : a ∉ front) : search (a :: pat) (front ++ (a :: pat ++ s)) = some front.length := by
  rw [search_skip h, search_prefix (List.prefix_append _ _), Option.map_some, Nat.zero_add]

theorem search_eq_none (h : a ∉ s) : search (a :: pat) s = none := by
  have hskip : search (a :: pat) (s ++ []) = (search (a :: pat) []).map (· + s.length) := search_skip h
  rw [List.append_nil] at hskip
  rw [hskip]
  rfl

omit [DecidableEq α] in
theorem infix_cons_of_not_mem (h : a ∉ pat) : pat <:+: a :: t ↔ pat <:+: t := by
  rw [List.infix_cons_iff]
  constructor
  . rintro (hbegins | hinfix)
    . obtain rfl | ⟨_, rfl, _⟩ := List.prefix_cons_iff.mp hbegins
      . exact List.nil_infix
      . exact absurd List.mem_cons_self h
    . exact hinfix
  . exact .inr

omit [DecidableEq α] in
theorem infix_append_cons (h : a ∉ pat) : pat <:+: s ++ a :: t ↔ pat <:+: s ∨ pat <:+: t := by
  rw [List.infix_append_iff, infix_cons_of_not_mem h]
  constructor
  . rintro (hs | ht | ⟨l, l', rfl, hs, ht⟩)
    . exact .inl hs
    . exact .inr ht
    . obtain rfl | ⟨_, rfl, _⟩ := List.prefix_cons_iff.mp ht
      . rw [List.append_nil]
        exact .inl hs.isInfix
      . exact absurd (List.mem_append_right _ List.mem_cons_self) h
  . rintro (hs | ht)
    . exact .inl hs
    . exact .inr (.inl ht)

theorem search_pair (hfront : a ∉ front) {p : List α} (hp : p <+: front ++ (a :: b :: t))
    : (search [a, b] p = none ∧ p.length < front.length + 2)
      ∨ ∃ p', p' <+: t ∧ p = front ++ (a :: b :: p') := by
  obtain ⟨q, hq⟩ := hp
  obtain ⟨p', hp', _⟩ | ⟨front', rfl, hrest⟩ := List.append_eq_append_iff.mp hq
  . left
    rw [hp', List.mem_append, not_or] at hfront
    rw [hp', List.length_append]
    exact ⟨search_eq_none hfront.1, by omega⟩
  . cases front' with
    | nil =>
      left
      rw [List.append_nil]
      exact ⟨search_eq_none hfront, by omega⟩
    | cons a' front' =>
      injection hrest with ha hrest
      subst ha
      cases front' with
      | nil =>
        left
        have hlast : search [a, b] [a] = none := by
          simp [search, List.isPrefixOf]
        rw [search_skip hfront, hlast, List.length_append]
        exact ⟨rfl, Nat.lt_succ_self _⟩
      | cons b' front' =>
        injection hrest with hb hrest
        subst hb
        exact .inr ⟨front', ⟨q, hrest.symm⟩, rfl⟩

end Search
