import BenchPlatform.Engine.Exact

/-!
This module contains the accumulator that makes mean and variance in one pass, and that it agrees with the two
passes however the values are split and merged.
-/

namespace Bench

/--
`m2` is the sum of squared deviations from the running mean.
-/
structure Welford (D : Type) where
  n : Nat
  mean : D
  m2 : D

namespace Welford

variable {D : Type} [Double D]

def init : Welford D where
  n := 0
  mean := ((0 : Nat) : D)
  m2 := ((0 : Nat) : D)

/--
The product has the mean from before the value and the mean that it is part of.
-/
def add (w : Welford D) (x : D) : Welford D :=
  let n := w.n + 1
  let delta := x - w.mean
  let mean := w.mean + delta / (n : D)
  { n := n, mean := mean, m2 := w.m2 + delta * (x - mean) }

def merge (w o : Welford D) : Welford D :=
  if o.n = 0 then
    w
  else if w.n = 0 then
    o
  else
    let na : D := (w.n : D)
    let nb : D := (o.n : D)
    let delta := o.mean - w.mean
    let total := na + nb
    { n := w.n + o.n
      mean := w.mean + delta * nb / total
      m2 := w.m2 + (o.m2 + delta * delta * na * nb / total) }

def variance (w : Welford D) : D :=
  if w.n < 2 then ((0 : Nat) : D) else w.m2 / ((w.n - 1 : Nat) : D)

/--
What the two passes over the values make: the mean first, and then the deviations from it.
-/
def two_pass (v : List D) : Welford D where
  n := v.length
  mean := Bench.mean v
  m2 := v.foldl (fun sumsq x => sumsq + (x - Bench.mean v) * (x - Bench.mean v)) ((0 : Nat) : D)

/--
Some values in parts, each of which is accumulated on its own before the parts are merged in pairs.
-/
inductive Parts (D : Type) where
  | part (v : List D)
  | merge (l r : Parts D)

def Parts.values : Parts D → List D
  | .part v => v
  | .merge l r => l.values ++ r.values

def Parts.accumulate : Parts D → Welford D
  | .part v => v.foldl add init
  | .merge l r => l.accumulate.merge r.accumulate

section Exact

open Sample

variable {K : Type} [Field K] [LinearOrder K] [FloorRing K] (sqrt : K → K) (nan : K)

/--
The accumulator of values that are known by their number, their sum and the sum of their squares.
-/
def of_sums (n : Nat) (sum squares : K) : Welford K where
  n := n
  mean := sum / n
  m2 := squares - sum ^ 2 / n

def of (s : Multiset K) : Welford K :=
  of_sums s.card s.sum (squares s)

theorem two_pass_exact (v : List K) : @two_pass K (Double.exact sqrt nan) v = of (v : Multiset K) := by
  have hsum := foldl_add_eq (fun x => (x - average (v : Multiset K)) ^ 2) v 0
  have hdev : deviations (v : Multiset K) = v.foldl (fun sum x => sum + (x - average (v : Multiset K)) ^ 2) 0 := by
    rw [hsum, zero_add]
    rfl
  unfold two_pass of of_sums
  rw [mean_exact, ← deviations_eq, hdev]
  simp only [sq, Nat.cast_zero]
  rfl

theorem add_of (s : Multiset K) (x : K) : @add K (Double.exact sqrt nan) (of s) x = of (x ::ₘ s) := by
  unfold add of of_sums squares
  dsimp only
  rw [Multiset.card_cons, Multiset.sum_cons, Multiset.map_cons, Multiset.sum_cons]
  obtain rfl | hs := eq_or_ne s 0
  . simp
  . have hcard : (s.card : K) ≠ 0 := Nat.cast_ne_zero.mpr (Multiset.card_eq_zero.not.mpr hs)
    have hsucc : ((s.card + 1 : Nat) : K) ≠ 0 := Nat.cast_ne_zero.mpr (Nat.succ_ne_zero _)
    rw [Nat.cast_add, Nat.cast_one] at hsucc ⊢
    congr 1
    . field_simp
      ring
    . field_simp
      ring

theorem merge_of (s t : Multiset K)
    : @merge K (Double.exact sqrt nan) (of s) (of t) = of (s + t) := by
  have hempty : ∀ u : Multiset K, (of u).n = 0 ↔ u = 0 := fun u => Multiset.card_eq_zero
  unfold merge
  by_cases ht : t = 0
  . rw [if_pos ((hempty t).mpr ht), ht, add_zero]
  . rw [if_neg ((hempty t).not.mpr ht)]
    by_cases hs : s = 0
    . rw [if_pos ((hempty s).mpr hs), hs, zero_add]
    . rw [if_neg ((hempty s).not.mpr hs)]
      have hns : (s.card : K) ≠ 0 := Nat.cast_ne_zero.mpr (Multiset.card_eq_zero.not.mpr hs)
      have hnt : (t.card : K) ≠ 0 := Nat.cast_ne_zero.mpr (Multiset.card_eq_zero.not.mpr ht)
      have hsum : ((s.card + t.card : Nat) : K) ≠ 0 := by
        apply Nat.cast_ne_zero.mpr
        have hpos := Multiset.card_pos.mpr hs
        omega
      unfold of of_sums squares
      dsimp only
      rw [Multiset.card_add, Multiset.sum_add, Multiset.map_add, Multiset.sum_add]
      rw [Nat.cast_add] at hsum ⊢
      congr 1
      . field_simp
        ring
      . field_simp
        ring

theorem foldl_add_of (v : List K) (s : Multiset K)
    : v.foldl (@add K (Double.exact sqrt nan)) (of s) = of ((v : Multiset K) + s) := by
  induction v generalizing s with
  | nil => rw [List.foldl_nil, Multiset.coe_nil, zero_add]
  | cons x v ih =>
    rw [List.foldl_cons, add_of, ih, ← Multiset.cons_coe, Multiset.cons_add, Multiset.add_cons]

theorem accumulate_exact (parts : Parts K)
    : @Parts.accumulate K (Double.exact sqrt nan) parts
      = of ((@Parts.values K parts : List K) : Multiset K) := by
  induction parts with
  | part v =>
    have hinit : @init K (Double.exact sqrt nan) = of 0 := by
      unfold init of of_sums squares
      simp
    unfold Parts.accumulate Parts.values
    rw [hinit, foldl_add_of, add_zero]
  | merge l r ihl ihr =>
    unfold Parts.accumulate Parts.values
    rw [ihl, ihr, merge_of, Multiset.coe_add]

/--
However the values are split into parts and the parts are merged, the outcome is that of the two passes.
-/
theorem accumulate_eq_two_pass (parts : Parts K)
    : @Parts.accumulate K (Double.exact sqrt nan) parts = @two_pass K (Double.exact sqrt nan) parts.values
      ∧ @variance K (Double.exact sqrt nan) (@Parts.accumulate K (Double.exact sqrt nan) parts)
        = @sample_variance K (Double.exact sqrt nan) parts.values := by
  have haccumulate : @Parts.accumulate K (Double.exact sqrt nan) parts
      = @two_pass K (Double.exact sqrt nan) parts.values := by
    rw [accumulate_exact, two_pass_exact]
  refine ⟨haccumulate, ?_⟩
  rw [haccumulate]
  rfl

end Exact

end Welford

end Bench
