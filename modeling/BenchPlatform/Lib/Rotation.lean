import Mathlib.Data.List.Basic

/-!
This module contains players who take turns as long as they want to: what is fair about the order of their
turns, and that going round them is.
-/

/--
What a turn makes of a player. The state of a player says how many turns there have been.
-/
structure Rotation (σ ρ : Type) where
  wants : σ → Bool
  turn : σ → ρ → σ
  count : σ → Nat
  count_turn : ∀ s r, count (turn s r) = count s + 1

namespace Rotation

variable {σ ρ : Type} (p : Rotation σ ρ)

/--
The players after these turns, each of which has the place of a player and an outcome.
-/
def played (players : List σ) (turns : List (Nat × ρ)) : List σ :=
  turns.foldl (fun players (i, r) => players.modify i (p.turn · r)) players

/--
None of those who want another turn is more than one turn ahead of the others.
-/
def Even (players : List σ) : Prop :=
  ∀ s ∈ players, ∀ t ∈ players, p.wants s = true → p.wants t = true → p.count s ≤ p.count t + 1

/--
Nobody but the player at this place wants another turn.
-/
def Alone (players : List σ) (i : Nat) : Prop :=
  ∀ j s, players[j]? = some s → j ≠ i → p.wants s = false

/--
The players are even between all turns, and nobody has two in a row unless alone. There may be one more turn
that has begun.
-/
structure Fair (players : List σ) (turns : List (Nat × ρ)) (next : Option Nat) : Prop where
  even : ∀ pre, pre <+: turns → p.Even (p.played players pre)
  alone : ∀ pre i r r', pre ++ [(i, r), (i, r')] <+: turns → p.Alone (p.played players (pre ++ [(i, r)])) i
  next : ∀ pre i r, turns = pre ++ [(i, r)] → next = some i → p.Alone (p.played players turns) i

/--
Everybody has had this place between the two, going up and starting again after the last one.
-/
def Passed (i stop j : Nat) : Prop :=
  (i < stop ∧ i < j ∧ j < stop) ∨ (stop ≤ i ∧ (i < j ∨ j < stop))

/--
The players in the middle of a round, in which some have been asked already. Those who have been asked since the
last turn did not want one.
-/
structure Turning (players : List σ) (turns : List (Nat × ρ)) (before after : List σ) (round : Nat) : Prop where
  played : p.played players turns = before ++ after
  had : ∀ s ∈ before, p.wants s = true → p.count s = round + 1
  coming : ∀ s ∈ after, p.wants s = true → p.count s = round
  last : ∀ pre i r, turns = pre ++ [(i, r)] → ∀ j s, (before ++ after)[j]? = some s → Passed i before.length j →
    p.wants s = false
  fair : p.Fair players turns none

variable {p} {players before after : List σ} {turns : List (Nat × ρ)} {round : Nat} {s : σ}

theorem played_append (i : Nat) (r : ρ)
    : p.played players (turns ++ [(i, r)]) = (p.played players turns).modify i (p.turn · r) := by
  unfold played
  rw [List.foldl_append]
  rfl

theorem played_map {α : Type} (f : σ → α) (hf : ∀ s r, f (p.turn s r) = f s) (turns : List (Nat × ρ))
    : (p.played players turns).map f = players.map f := by
  induction turns generalizing players with
  | nil => rfl
  | cons turn turns ih =>
    refine ih.trans (List.ext_getElem? fun j => ?_)
    rw [List.getElem?_map, List.getElem?_map, List.getElem?_modify, Option.map_eq_map, Option.map_map]
    congr 1
    funext s
    rw [Function.comp_apply]
    split
    . exact hf s turn.2
    . rfl

theorem modify_length (f : σ → σ) : (before ++ s :: after).modify before.length f = before ++ f s :: after := by
  induction before with
  | nil => rfl
  | cons t before ih => rw [List.cons_append, List.length_cons, List.modify_succ_cons, ih, List.cons_append]

theorem even_of_counts {players : List σ} (round : Nat)
    (h : ∀ s ∈ players, p.wants s = true → p.count s = round ∨ p.count s = round + 1)
    : p.Even players := by
  intro s hs t ht hwants hwants'
  have hcount := h s hs hwants
  have hcount' := h t ht hwants'
  omega

namespace Turning

theorem start (h : ∀ s ∈ players, p.count s = 0) : p.Turning players [] [] players 0 where
  played := rfl
  had := nofun
  coming := fun s hs _ => h s hs
  last := fun pre _ _ hnil => absurd hnil.symm (List.append_ne_nil_of_right_ne_nil pre (List.cons_ne_nil _ _))
  fair := by
    refine ⟨?_, ?_, ?_⟩
    . intro pre hpre
      rw [List.prefix_nil.mp hpre]
      exact even_of_counts 0 fun s hs _ => .inl (h s hs)
    . intro pre i r r' hpre
      exact absurd (List.prefix_nil.mp hpre) (List.append_ne_nil_of_right_ne_nil pre (List.cons_ne_nil _ _))
    . exact fun _ _ _ _ hnone => nomatch hnone

theorem skip (h : p.Turning players turns before (s :: after) round) (hs : p.wants s = false)
    : p.Turning players turns (before ++ [s]) after round where
  played := by rw [h.played, List.append_assoc, List.singleton_append]
  had := by
    rw [List.forall_mem_append, List.forall_mem_singleton]
    refine ⟨h.had, fun hwants => ?_⟩
    rw [hs] at hwants
    cases hwants
  coming := (List.forall_mem_cons.mp h.coming).2
  last := by
    intro pre i r hturns j t hj hpassed
    rw [List.append_assoc, List.singleton_append] at hj
    by_cases hplace : j = before.length
    . rw [hplace, List.getElem?_append_right (Nat.le_refl _), Nat.sub_self] at hj
      rw [← Option.some.inj hj]
      exact hs
    . apply h.last pre i r hturns j t hj
      rw [List.length_append, List.length_singleton] at hpassed
      unfold Passed at hpassed ⊢
      omega
  fair := h.fair

theorem next (h : p.Turning players turns before (s :: after) round)
    : p.Fair players turns (some before.length) where
  even := h.fair.even
  alone := h.fair.alone
  next := by
    intro pre i r hturns hnext j t hj hne
    obtain rfl := Option.some.inj hnext
    rw [h.played] at hj
    apply h.last pre _ r hturns j t hj
    unfold Passed
    omega

theorem turn (h : p.Turning players turns before (s :: after) round) (hs : p.wants s = true) (r : ρ)
    : p.Turning players (turns ++ [(before.length, r)]) (before ++ [p.turn s r]) after round := by
  have hcoming := List.forall_mem_cons.mp h.coming
  have hplayed : p.played players (turns ++ [(before.length, r)]) = before ++ [p.turn s r] ++ after := by
    rw [played_append, h.played, modify_length, List.append_assoc, List.singleton_append]
  have hhad : ∀ t ∈ before ++ [p.turn s r], p.wants t = true → p.count t = round + 1 := by
    rw [List.forall_mem_append, List.forall_mem_singleton]
    refine ⟨h.had, fun _ => ?_⟩
    rw [p.count_turn, hcoming.1 hs]
  have heven : p.Even (p.played players (turns ++ [(before.length, r)])) := by
    rw [hplayed]
    apply even_of_counts round
    rw [List.forall_mem_append]
    exact ⟨fun t ht hwants => .inr (hhad t ht hwants), fun t ht hwants => .inl (hcoming.2 t ht hwants)⟩
  refine ⟨hplayed, hhad, hcoming.2, ?_, ?_, ?_, nofun⟩
  . intro pre i r' hturns j t hj hpassed
    obtain ⟨-, hlast⟩ := List.append_inj' hturns rfl
    obtain ⟨rfl, -⟩ := Prod.mk.inj (List.singleton_inj.mp hlast)
    have hlt := (List.getElem?_eq_some_iff.mp hj).1
    unfold Passed at hpassed
    rw [List.length_append, List.length_singleton] at hpassed
    omega
  . intro pre hpre
    obtain rfl | hpre := List.prefix_concat_iff.mp hpre
    . exact heven
    . exact h.fair.even pre hpre
  . intro pre i r₁ r₂ hpre
    obtain heq | hpre := List.prefix_concat_iff.mp hpre
    . have hsplit : pre ++ [(i, r₁)] ++ [(i, r₂)] = turns ++ [(before.length, r)] := by
        rw [← heq, List.append_assoc]
        rfl
      obtain ⟨hturns, hlast⟩ := List.append_inj' hsplit rfl
      obtain ⟨rfl, -⟩ := Prod.mk.inj (List.singleton_inj.mp hlast)
      rw [hturns]
      exact h.next.next pre _ r₁ hturns.symm rfl
    . exact h.fair.alone pre i r₁ r₂ hpre

theorem wrap (h : p.Turning players turns before [] round) : p.Turning players turns [] before (round + 1) where
  played := by rw [h.played, List.append_nil, List.nil_append]
  had := nofun
  coming := h.had
  last := by
    intro pre i r hturns j t hj hpassed
    rw [List.nil_append] at hj
    have hlt := (List.getElem?_eq_some_iff.mp hj).1
    apply h.last pre i r hturns j t (by rw [List.append_nil]; exact hj)
    rw [List.length_nil] at hpassed
    unfold Passed at hpassed ⊢
    omega
  fair := h.fair

end Turning

end Rotation
