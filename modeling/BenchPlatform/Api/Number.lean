import Mathlib.Data.Nat.Log
import Mathlib.Data.List.TakeWhile
import Mathlib.Algebra.Ring.Nat

/-!
This module contains how the Go decoder reads the literals of JSON numbers: integers of 64 bits and
`float64`, rounded to nearest with ties to even.
-/

namespace Api

/--
A `float64`. A finite one is `mant * 2 ^ exp` with its sign.
-/
inductive Float64 where
  | finite (neg : Bool) (mant : Nat) (exp : Int)
  | inf (neg : Bool)
  | nan
  deriving DecidableEq

def digitOf? (c : Char) : Option Nat :=
  if '0' ≤ c ∧ c ≤ '9' then some (c.toNat - '0'.toNat) else none

def takeDigits : List Char → Nat → Nat → Nat × Nat × List Char
  | [], acc, len => (acc, len, [])
  | c :: cs, acc, len =>
    match digitOf? c with
    | some d => takeDigits cs (acc * 10 + d) (len + 1)
    | none => (acc, len, c :: cs)

def takeSign : List Char → Bool × List Char
  | '-' :: cs => (true, cs)
  | '+' :: cs => (false, cs)
  | cs => (false, cs)

/--
`strconv.ParseInt(s, 10, 64)`.
-/
def parseInt64 (s : String) : Option Int :=
  let (neg, cs) := takeSign s.toList
  let (n, len, rest) := takeDigits cs 0 0
  if len = 0 ∨ rest ≠ [] then
    none
  else if neg then
    if n ≤ 2 ^ 63 then some (-n) else none
  else
    if n < 2 ^ 63 then some n else none

namespace Float64

/--
The nearest integer to `num / den`, the even one if there are two.
-/
def roundHalfEven (num den : Nat) : Nat :=
  let q := num / den
  let r := num % den
  if 2 * r < den ∨ 2 * r = den ∧ q % 2 = 0 then q else q + 1

/--
The least exponent from -1074 on for which `num / den` has at most 53 binary digits.
-/
def exponentFor (num den : Nat) : Int :=
  let e := max (-1074) ((Nat.log2 num : Int) - Nat.log2 den - 53)
  if num * 2 ^ (-(e + 53)).toNat < den * 2 ^ (e + 53).toNat then e else e + 1

/--
`num / den` rounded to a finite value, or nothing when that is too large.
-/
def ofRatio (neg : Bool) (num den : Nat) : Option Float64 :=
  if num = 0 then
    some (.finite neg 0 (-1074))
  else
    let e := exponentFor num den
    let mant := roundHalfEven (num * 2 ^ (-e).toNat) (den * 2 ^ e.toNat)
    let (mant, e) := if mant = 2 ^ 53 then (2 ^ 52, e + 1) else (mant, e)
    if e > 971 then none else some (.finite neg mant e)

/--
`strconv.ParseFloat(s, 64)` of a decimal literal.
-/
def parse (s : String) : Option Float64 := do
  let (neg, cs) := takeSign s.toList
  let (int, intLen, cs) := takeDigits cs 0 0
  let (digits, fracLen, cs) :=
    match cs with
    | '.' :: cs =>
      let (digits, len, cs) := takeDigits cs int 0
      (digits, len, cs)
    | cs => (int, 0, cs)
  if intLen + fracLen = 0 then
    none
  let exp : Int ←
    match cs with
    | [] => some 0
    | c :: cs =>
      let (neg, cs) := takeSign cs
      let (n, len, rest) := takeDigits cs 0 0
      if (c = 'e' ∨ c = 'E') ∧ 0 < len ∧ rest = [] then
        some (if neg then -(n : Int) else n)
      else
        none
  let exp := exp - fracLen
  ofRatio neg (digits * 10 ^ exp.toNat) (10 ^ (-exp).toNat)

def isNaN : Float64 → Bool
  | .nan => true
  | _ => false

def isInf : Float64 → Bool
  | .inf _ => true
  | _ => false

example : parse "0.1" = some (.finite false 7205759403792794 (-56)) := by decide

example : parse "-1.0e+23" = some (.finite true 5960464477539062 24) := by decide

end Float64

end Api
