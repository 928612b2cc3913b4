import Mathlib.Logic.Relation
import Mathlib.Data.Set.Finite.Basic
import Mathlib.Data.Fintype.Pigeonhole

/-!
This module contains the orbits of a partial function: that one ends exactly if it does not come back to
where it has been, provided that there are only finitely many places to go on from.
-/

open Relation

namespace Orbit

variable {α : Type*} (next : α → Option α)

/--
Where so many steps lead to. There is `none` once it has ended.
-/
def orbit (a : α) : Nat → Option α
  | 0 => some a
  | n + 1 => (orbit a n).bind next

def Steps (a b : α) : Prop :=
  next a = some b

def Reaches (a b : α) : Prop :=
  ReflTransGen (Steps next) a b

variable {next} {a b c : α} {m n : Nat}

theorem orbit_add : orbit next a (m + n) = (orbit next a m).bind (orbit next · n) := by
  induction n with
  | zero =>
    rw [Nat.add_zero]
    exact (Option.bind_fun_some _).symm
  | succ n ih =>
    rw [← Nat.add_assoc, orbit, ih, Option.bind_assoc]
    rfl

theorem orbit_succ : orbit next a (n + 1) = (next a).bind (orbit next · n) := by
  rw [Nat.add_comm, orbit_add]
  rfl

theorem reaches_of_orbit (h : orbit next a n = some b) : Reaches next a b := by
  induction n generalizing b with
  | zero =>
    injection h with h
    rw [h]
    exact .refl
  | succ n ih =>
    obtain ⟨c, hc, hb⟩ := Option.bind_eq_some_iff.mp h
    exact (ih hc).tail hb

/--
A function with fewer steps ends no later.
-/
theorem orbit_eq_none_of_le {next' : α → Option α} (hle : ∀ a b, next' a = some b → next a = some b)
    (h : orbit next a n = none)
    : orbit next' a n = none := by
  have hsteps : ∀ n b, orbit next' a n = some b → orbit next a n = some b := by
    intro n
    induction n with
    | zero => exact fun b hb => hb
    | succ n ih =>
      intro b hb
      obtain ⟨c, hc, hstep⟩ := Option.bind_eq_some_iff.mp hb
      exact Option.bind_eq_some_iff.mpr ⟨c, ih c hc, hle c b hstep⟩
  cases hend : orbit next' a n with
  | none => rfl
  | some b => exact absurd (hsteps n b hend) (by simp [h])

theorem exists_orbit_of_reaches (h : Reaches next a b) : ∃ n, orbit next a n = some b := by
  induction h with
  | refl => exact ⟨0, rfl⟩
  | tail _ hstep ih =>
    obtain ⟨n, hn⟩ := ih
    exact ⟨n + 1, Option.bind_eq_some_iff.mpr ⟨_, hn, hstep⟩⟩

theorem orbit_of_le (h : orbit next a m = none) (hle : m ≤ n) : orbit next a n = none := by
  obtain ⟨k, rfl⟩ := Nat.exists_eq_add_of_le hle
  rw [orbit_add, h, Option.bind_none]

theorem orbit_mul (h : orbit next a (m + 1) = some a) (k : Nat) : orbit next a (k * (m + 1)) = some a := by
  induction k with
  | zero =>
    rw [Nat.zero_mul]
    rfl
  | succ k ih => rw [Nat.succ_mul, orbit_add, ih, Option.bind_some, h]

theorem orbit_ne_none (hreach : Reaches next a b) (hstep : Steps next b c) (hback : Reaches next c b)
    (n : Nat)
    : orbit next a n ≠ none := by
  intro hnone
  obtain ⟨m, hm⟩ := exists_orbit_of_reaches hreach
  obtain ⟨k, hk⟩ := exists_orbit_of_reaches hback
  have hcycle : orbit next b (k + 1) = some b := by rw [orbit_succ, hstep, Option.bind_some, hk]
  have hlong : orbit next a (m + n * (k + 1)) = some b := by
    rw [orbit_add, hm, Option.bind_some, orbit_mul hcycle]
  have hle : n ≤ m + n * (k + 1) :=
    Nat.le_trans (Nat.le_mul_of_pos_right n (Nat.succ_pos k)) (Nat.le_add_left _ _)
  rw [orbit_of_le hnone hle] at hlong
  cases hlong

theorem exists_cycle (hfin : {b | (next b).isSome}.Finite) (h : ∀ n, orbit next a n ≠ none)
    : ∃ b c, Reaches next a b ∧ Steps next b c ∧ Reaches next c b := by
  have hgoes : ∀ n, ∃ b, orbit next a n = some b ∧ (next b).isSome := by
    intro n
    obtain ⟨c, hc⟩ := Option.ne_none_iff_exists'.mp (h (n + 1))
    obtain ⟨b, hb, hstep⟩ := Option.bind_eq_some_iff.mp hc
    refine ⟨b, hb, ?_⟩
    rw [hstep]
    rfl
  choose place hplace hmem using hgoes
  have : Finite {b | (next b).isSome} := hfin
  obtain ⟨i, j, hne, hsame⟩ :=
    Finite.exists_ne_map_eq_of_infinite fun n => (⟨place n, hmem n⟩ : {b | (next b).isSome})
  replace hsame : place i = place j := congrArg Subtype.val hsame
  wlog hlt : i < j generalizing i j
  . exact this j i hne.symm hsame.symm (by omega)
  obtain ⟨k, rfl⟩ := Nat.exists_eq_add_of_lt hlt
  obtain ⟨c, hc⟩ := Option.isSome_iff_exists.mp (hmem i)
  refine ⟨place i, c, reaches_of_orbit (hplace i), hc, ?_⟩
  have hback : orbit next a (i + (k + 1)) = some (place i) := by
    rw [hsame]
    exact hplace _
  rw [orbit_add, hplace i, Option.bind_some, orbit_succ, hc, Option.bind_some] at hback
  exact reaches_of_orbit hback

theorem reaches_back {d : α} (hstep : Steps next b c) (hback : Reaches next c b) (h : Reaches next b d)
    : Reaches next d b := by
  induction h with
  | refl => exact .refl
  | @tail d e _ hde ih =>
    obtain rfl | ⟨e', hde', hback'⟩ := ReflTransGen.cases_head ih
    . have hsame : c = e := Option.some.inj (hstep.symm.trans hde)
      rwa [← hsame]
    . have hsame : e' = e := Option.some.inj (hde'.symm.trans hde)
      rwa [← hsame]

end Orbit
