import BenchPlatform.Engine.Stats
import BenchPlatform.Lib.Sample
import Mathlib.Algebra.Order.Floor.Ring

/-!
This module contains the statistics of the engine in exact arithmetic: over an ordered field they are those of
the multiset of the values.
-/

namespace Bench

open Sample

variable {K : Type} [Field K] [LinearOrder K] [FloorRing K]

/--
Arithmetic without rounding. The square root may be any, as the rationals have none, and so may be what a
calculation without a value gives.
-/
@[reducible]
def Double.exact (sqrt : K → K) (nan : K) : Double K where
  lt a b := decide (a < b)
  beq a b := decide (a = b)
  isfinite _ := true
  sqrt := sqrt
  fabs x := |x|
  floor x := ⌊x⌋.toNat
  ceil x := ⌈x⌉.toNat
  nanoseconds x := ⌊x * 10 ^ 9⌋.toNat
  nan := nan

example : (inferInstance : Double ℚ)
    = Double.exact (fun x => (Nat.sqrt x.num.toNat : ℚ) / (Nat.sqrt x.den : ℚ)) 0 :=
  rfl

variable (sqrt : K → K) (nan : K)

omit [LinearOrder K] [FloorRing K] in
theorem foldl_add_eq (f : K → K) (v : List K) (a : K) : v.foldl (fun sum x => sum + f x) a = a + (v.map f).sum := by
  induction v generalizing a with
  | nil => simp
  | cons x v ih => rw [List.foldl_cons, ih, List.map_cons, List.sum_cons, add_assoc]

theorem mean_exact (v : List K) : @mean K (Double.exact sqrt nan) v = average (v : Multiset K) := by
  have hsum := foldl_add_eq id v 0
  rw [List.map_id, zero_add] at hsum
  unfold mean average
  rw [Multiset.sum_coe, Multiset.coe_card]
  by_cases hv : v = []
  . rw [if_pos (List.isEmpty_iff.mpr hv), hv]
    simp
  . rw [if_neg (fun h => hv (List.isEmpty_iff.mp h)), Nat.cast_zero]
    exact congrArg (· / (v.length : K)) hsum

theorem sample_variance_exact (v : List K)
    : @sample_variance K (Double.exact sqrt nan) v = variance (v : Multiset K) := by
  unfold sample_variance variance
  rw [Multiset.coe_card]
  by_cases hv : v.length < 2
  . rw [if_pos hv, if_pos hv, Nat.cast_zero]
  . have hsum := foldl_add_eq (fun x => (x - average (v : Multiset K)) ^ 2) v 0
    rw [zero_add] at hsum
    rw [if_neg hv, if_neg hv, Nat.cast_zero]
    dsimp only
    rw [mean_exact]
    unfold deviations
    rw [Multiset.map_coe, Multiset.sum_coe, ← hsum]
    simp only [sq]

end Bench
