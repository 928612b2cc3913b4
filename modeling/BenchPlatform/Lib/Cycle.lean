import Mathlib.GroupTheory.Perm.Cycle.Basic
import Mathlib.Data.Nat.ModEq

/-!
This module contains permutations of the numbers below a bound that are one single cycle: how such a cycle
is made longer by a transposition, and which numbers are met on the way along it.
-/

open Equiv Equiv.Perm

namespace Cycle

/--
From every number below `n` every other one is reached, and nothing else is.
-/
structure Single (n : Nat) (f : Nat → Nat) : Prop where
  below : ∀ x < n, f x < n
  reaches : ∀ x < n, ∀ y < n, ∃ k, f^[k] x = y

variable {α : Type*} [DecidableEq α] {f : Perm α} {s : Finset α} {i j : α}

theorem sameCycle_swap_mul (hf : f.IsCycleOn s) (hi : i ∉ s) (n : Nat) {x : α} (hx : x ∈ s)
    (h : (f ^ (n + 1)) x = j)
    : SameCycle (swap i j * f) x i := by
  have hself : ∀ x, SameCycle (swap i j * f) x ((swap i j * f) x) :=
    fun x => sameCycle_apply_right.mpr (SameCycle.refl _ x)
  induction n generalizing x with
  | zero =>
    have hstep := hself x
    rw [zero_add, pow_one] at h
    rwa [Perm.mul_apply, h, swap_apply_right] at hstep
  | succ n ih =>
    have hmem : f x ∈ s := Finset.mem_coe.mp (hf.apply_mem_iff.mpr (Finset.mem_coe.mpr hx))
    have hstep := hself x
    rw [Perm.mul_apply] at hstep
    by_cases hj : f x = j
    . rwa [hj, swap_apply_right] at hstep
    . have hne : f x ≠ i := fun hxi => hi (hxi ▸ hmem)
      rw [swap_apply_of_ne_of_ne hne hj] at hstep
      have hrest : (f ^ (n + 1)) (f x) = j := by
        rw [← h, pow_succ f (n + 1), Perm.mul_apply]
      exact hstep.trans (ih hmem hrest)

theorem isCycleOn_swap_mul (hf : f.IsCycleOn s) (hfix : f i = i) (hi : i ∉ s) (hj : j ∈ s)
    : (swap i j * f).IsCycleOn (insert i s : Finset α) := by
  have hall : ∀ x ∈ insert i s, SameCycle (swap i j * f) x i := by
    intro x hx
    obtain rfl | hx := Finset.mem_insert.mp hx
    . exact SameCycle.refl _ _
    . have hmem : f x ∈ s := Finset.mem_coe.mp (hf.apply_mem_iff.mpr (Finset.mem_coe.mpr hx))
      obtain ⟨n, _, hn⟩ := hf.exists_pow_eq hmem hj
      apply sameCycle_swap_mul hf hi n hx
      rw [pow_succ, Perm.mul_apply, hn]
  constructor
  . have hf' : Set.BijOn f (insert i (s : Set α)) (insert i (s : Set α)) := by
      have hinsert := hf.1.insert (a := i) (by
        rw [hfix]
        exact hi)
      rwa [hfix] at hinsert
    rw [Finset.coe_insert]
    exact (Equiv.bijOn_swap (Set.mem_insert i _) (Set.mem_insert_of_mem i hj)).comp hf'
  . intro x hx y hy
    exact (hall x (Finset.mem_coe.mp hx)).trans (hall y (Finset.mem_coe.mp hy)).symm

/--
The cycle of the points up to `m` that is grown point by point: the point `i` is put in at `d i`.
-/
def grown (d : Nat → Nat) : Nat → Perm Nat
  | 0 => 1
  | i + 1 => swap (i + 1) (d (i + 1)) * grown d i

variable {d d' : Nat → Nat} {m : Nat}

theorem grown_of_lt (hd : ∀ i, 0 < i → d i < i) {x : Nat} (hx : m < x) : grown d m x = x := by
  induction m with
  | zero => rfl
  | succ m ih =>
    have hlt := hd (m + 1) (Nat.succ_pos m)
    rw [grown, Perm.mul_apply, ih (by omega), swap_apply_of_ne_of_ne (by omega) (by omega)]

theorem grown_congr (h : ∀ i, 0 < i → i ≤ m → d i = d' i) : grown d m = grown d' m := by
  induction m with
  | zero => rfl
  | succ m ih =>
    rw [grown, grown, h (m + 1) (Nat.succ_pos m) le_rfl, ih fun i hi hm => h i hi (Nat.le_succ_of_le hm)]

theorem isCycleOn_grown (hd : ∀ i, 0 < i → d i < i) : (grown d m).IsCycleOn (Finset.range (m + 1)) := by
  induction m with
  | zero =>
    rw [zero_add, Finset.range_one, Finset.coe_singleton]
    exact isCycleOn_singleton.mpr rfl
  | succ m ih =>
    rw [Finset.range_add_one]
    apply isCycleOn_swap_mul ih
    . exact grown_of_lt hd (Nat.lt_succ_self m)
    . exact Finset.notMem_range_self
    . exact Finset.mem_range.mpr (hd (m + 1) (Nat.succ_pos m))

theorem exists_grown_apply {x y : Nat} (hx : x ≤ m) (hy : y ≤ m) (hne : x ≠ y)
    : ∃ d : Nat → Nat, (∀ i, 0 < i → d i < i) ∧ grown d m y = x := by
  induction m with
  | zero => omega
  | succ m ih =>
    -- the point `m + 1` may be put in anywhere
    have hput : ∀ d : Nat → Nat, (∀ i, 0 < i → d i < i) → ∀ j ≤ m,
        ∃ d' : Nat → Nat, (∀ i, 0 < i → d' i < i) ∧ grown d' (m + 1) = swap (m + 1) j * grown d m := by
      intro d hd j hj
      refine ⟨Function.update d (m + 1) j, ?_, ?_⟩
      . intro i hi
        by_cases him : i = m + 1
        . rw [him, Function.update_self]
          omega
        . rw [Function.update_of_ne him]
          exact hd i hi
      . rw [grown, Function.update_self, grown_congr fun i _ hi => Function.update_of_ne (by omega) j d]
    have hzero : ∀ i, 0 < i → (fun _ => 0) i < i := fun i hi => hi
    by_cases hxm : x = m + 1
    . -- put in where `y` leads to
      have hlt : grown (fun _ => 0) m y < m + 1 := by
        have hmaps := (isCycleOn_grown (m := m) hzero).1.mapsTo
        exact Finset.mem_range.mp (Finset.mem_coe.mp
          (hmaps (Finset.mem_coe.mpr (Finset.mem_range.mpr (by omega : y < m + 1)))))
      obtain ⟨d', hd', hgrown⟩ := hput _ hzero (grown (fun _ => 0) m y) (by omega)
      exact ⟨d', hd', by rw [hgrown, Perm.mul_apply, swap_apply_right, hxm]⟩
    . by_cases hym : y = m + 1
      . obtain ⟨d', hd', hgrown⟩ := hput _ hzero x (by omega)
        refine ⟨d', hd', ?_⟩
        rw [hgrown, Perm.mul_apply, hym, grown_of_lt hzero (Nat.lt_succ_self m), swap_apply_left]
      . -- put in at a point that is not `x`
        obtain ⟨d, hd, hgrown⟩ := ih (by omega) (by omega)
        obtain ⟨d', hd', hgrown'⟩ := hput d hd y (by omega)
        refine ⟨d', hd', ?_⟩
        rw [hgrown', Perm.mul_apply, hgrown, swap_apply_of_ne_of_ne hxm hne]

section Walk

variable {n : Nat} {p : Perm Nat} {f : Nat → Nat}

theorem iterate_eq_pow (hp : p.IsCycleOn (Finset.range n)) (hf : ∀ x < n, f x = p x) {x : Nat} (hx : x < n)
    (k : Nat)
    : f^[k] x = (p ^ k) x ∧ f^[k] x < n := by
  induction k with
  | zero => exact ⟨rfl, hx⟩
  | succ k ih =>
    obtain ⟨heq, hlt⟩ := ih
    have hmem := (hp.1.mapsTo (Finset.mem_coe.mpr (Finset.mem_range.mpr hlt)))
    rw [Function.iterate_succ_apply', hf _ hlt]
    exact ⟨by rw [heq, pow_succ', Perm.mul_apply], Finset.mem_range.mp (Finset.mem_coe.mp hmem)⟩

theorem single_of_isCycleOn (hp : p.IsCycleOn (Finset.range n)) (hf : ∀ x < n, f x = p x) : Single n f where
  below := fun _ hx => (iterate_eq_pow hp hf hx 1).2
  reaches := by
    intro x hx y hy
    obtain ⟨k, _, hk⟩ := hp.exists_pow_eq (Finset.mem_range.mpr hx) (Finset.mem_range.mpr hy)
    exact ⟨k, (iterate_eq_pow hp hf hx k).1.trans hk⟩

theorem perm_window (hp : p.IsCycleOn (Finset.range n)) (hf : ∀ x < n, f x = p x) {x : Nat} (hx : x < n)
    (start : Nat)
    : ((List.range n).map fun t => f^[start + t] x).Perm (List.range n) := by
  have hnodup : ((List.range n).map fun t => f^[start + t] x).Nodup := by
    apply List.Nodup.map_on _ List.nodup_range
    intro t ht u hu heq
    rw [(iterate_eq_pow hp hf hx _).1, (iterate_eq_pow hp hf hx _).1,
      hp.pow_apply_eq_pow_apply (Finset.mem_range.mpr hx), Finset.card_range] at heq
    have hmod : t ≡ u [MOD n] := Nat.ModEq.add_left_cancel' start heq
    exact hmod.eq_of_lt_of_lt (List.mem_range.mp ht) (List.mem_range.mp hu)
  apply List.Subperm.perm_of_length_le
  . apply List.subperm_of_subset hnodup
    intro y hy
    obtain ⟨t, _, rfl⟩ := List.mem_map.mp hy
    exact List.mem_range.mpr (iterate_eq_pow hp hf hx _).2
  . rw [List.length_map]

theorem not_single_of_fixed {x : Nat} (hx : x < n) (hn : 2 ≤ n) (hfix : f x = x) : ¬Single n f := by
  intro h
  obtain ⟨y, hy, hne⟩ : ∃ y < n, y ≠ x := by
    by_cases hx0 : x = 0
    . exact ⟨1, by omega, by omega⟩
    . exact ⟨0, by omega, by omega⟩
  obtain ⟨k, hk⟩ := h.reaches x hx y hy
  rw [Function.iterate_fixed hfix] at hk
  exact hne hk.symm

end Walk

end Cycle
