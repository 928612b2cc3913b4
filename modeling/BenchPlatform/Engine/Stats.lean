import BenchPlatform.Engine.Metric
import Mathlib.Data.List.Sort
import Mathlib.Data.Rat.Floor
import Mathlib.Data.Nat.Sqrt

/-!
This module contains the statistics of a configuration's values. They are stated over any type with
the operations of `double` that the engine uses.
-/

namespace Bench

class Double (D : Type) extends Add D, Sub D, Mul D, Div D, NatCast D where
  lt : D → D → Bool
  beq : D → D → Bool
  isfinite : D → Bool
  sqrt : D → D
  fabs : D → D
  floor : D → Nat
  ceil : D → Nat
  /-- The nanoseconds in this many seconds. -/
  nanoseconds : D → Nat
  nan : D

instance : Double ℚ where
  lt a b := decide (a < b)
  beq a b := decide (a = b)
  isfinite _ := true
  sqrt x := (Nat.sqrt x.num.toNat : ℚ) / (Nat.sqrt x.den : ℚ)
  fabs x := |x|
  floor x := ⌊x⌋.toNat
  ceil x := ⌈x⌉.toNat
  nanoseconds x := ⌊x * 10 ^ 9⌋.toNat
  nan := 0

variable {D : Type} [Double D]

def Double.le (a b : D) : Bool :=
  Double.lt a b || Double.beq a b

def mean (v : List D) : D :=
  if v.isEmpty then ((0 : Nat) : D) else v.foldl (· + ·) ((0 : Nat) : D) / ((v.length : Nat) : D)

def sample_variance (v : List D) : D :=
  if v.length < 2 then
    ((0 : Nat) : D)
  else
    let m := mean v
    v.foldl (fun sumsq x => sumsq + (x - m) * (x - m)) ((0 : Nat) : D) / ((v.length - 1 : Nat) : D)

def sample_stddev (v : List D) : D :=
  Double.sqrt (sample_variance v)

def percentile_sorted (sorted : List D) (p : Nat) : D :=
  if sorted.isEmpty then
    Double.nan
  else
    let rank : D := (p : D) / ((100 : Nat) : D) * ((sorted.length - 1 : Nat) : D)
    let lo := Double.floor rank
    let hi := Double.ceil rank
    let frac := rank - (lo : D)
    let at_lo := sorted.getD lo Double.nan
    at_lo + (sorted.getD hi Double.nan - at_lo) * frac

def sorted_copy (v : List D) : List D :=
  v.mergeSort fun a b => !Double.lt b a

def percentile (v : List D) (p : Nat) : D :=
  percentile_sorted (sorted_copy v) p

def median (v : List D) : D :=
  percentile v 50

def mad (v : List D) : D :=
  if v.isEmpty then
    Double.nan
  else
    let m := median v
    median (v.map fun x => Double.fabs (x - m))

structure SummaryStats (D : Type) where
  n : Nat
  mean : D
  median : D
  stddev : D
  cov : D
  min : D
  p5 : D
  p95 : D
  max : D
  mad : D

def summarize (v : List D) : SummaryStats D :=
  let zero := ((0 : Nat) : D)
  if v.isEmpty then
    { n := 0, mean := zero, median := zero, stddev := zero, cov := zero, min := zero, p5 := zero,
      p95 := zero, max := zero, mad := zero }
  else
    let sorted := sorted_copy v
    let mean := mean v
    let stddev := sample_stddev v
    { n := v.length
      mean := mean
      stddev := stddev
      cov := if Double.beq mean zero then zero else stddev / mean
      min := sorted.headD zero
      max := sorted.getLastD zero
      median := percentile_sorted sorted 50
      p5 := percentile_sorted sorted 5
      p95 := percentile_sorted sorted 95
      mad := mad v }

@[simp]
theorem summarize_n (v : List D) : (summarize v).n = v.length := by
  unfold summarize
  split
  . rename_i hnil
    rw [List.isEmpty_iff.mp hnil]
    rfl
  . rfl

/--
The value of a trial in which the workers have done that many units of work.
-/
def value_from_units (m : Metric) (units elapsed_ns : Nat) (threads : Int) : D :=
  let u : D := (units : D)
  let ns : D := (elapsed_ns : D)
  if units = 0 ∨ elapsed_ns = 0 ∨ threads < 1 then
    ((0 : Nat) : D)
  else
    match value_rule_of m with
    | .units_per_s => u / (ns / ((10 ^ 9 : Nat) : D))
    | .giga_units_per_s => u / ns
    | .mega_units_per_s => u / ns * ((1000 : Nat) : D)
    | .ns_per_unit => ns / (u / ((threads.toNat : Nat) : D))
    | .latency_p99_us => ((0 : Nat) : D)

end Bench
