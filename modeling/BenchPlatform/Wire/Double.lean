import BenchPlatform.Api.Float
import BenchPlatform.Engine.Stats
import Mathlib.Data.Nat.Sqrt

/-!
This module contains the `double` of the engine: the same 64 bits as the `float64` of the API.
-/

namespace Bench

open Api

namespace Double64

/--
The number of binary digits that a square root is computed with, of which the rounding drops some.
-/
def kSqrtBits : Nat := 60

/--
The square root of `mant * 2 ^ exp`. Between two candidates it stands for all that lies between them.
-/
def sqrt : Float64 → Float64
  | .finite neg mant exp =>
    if mant = 0 then
      .finite neg mant exp
    else if neg then
      .nan
    else
      let shift := 2 * kSqrtBits + (exp % 2).toNat
      let root := Nat.sqrt (mant * 2 ^ shift)
      let half := (exp - shift) / 2
      let q : Rat := if root * root = mant * 2 ^ shift then root else root + 1 / 2
      .ofRat false (q * 2 ^ half)
  | .inf neg => if neg then .nan else .inf neg
  | .nan => .nan

def isfinite : Float64 → Bool
  | .finite _ _ _ => true
  | _ => false

def fabs : Float64 → Float64
  | .finite _ mant exp => .finite false mant exp
  | .inf _ => .inf false
  | .nan => .nan

end Double64

instance : Double Float64 where
  add := Float64.add
  sub := Float64.sub
  mul := Float64.mul
  div := Float64.div
  natCast n := .ofInt n
  lt := Float64.lt
  beq := Float64.eq
  isfinite := Double64.isfinite
  sqrt := Double64.sqrt
  fabs := Double64.fabs
  floor x := ⌊x.value⌋.toNat
  ceil x := ⌈x.value⌉.toNat
  nanoseconds x := ⌊(Float64.mul x (.ofInt (10 ^ 9))).value⌋.toNat
  nan := .nan

example : Double.sqrt (Float64.ofInt 2) = Float64.finite false 6369051672525773 (-52) := by
  decide +kernel

end Bench
