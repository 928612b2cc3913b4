import BenchPlatform.Api.Errors
import Mathlib.Algebra.Ring.Nat

/-!
This module contains the patterns of the schema: identifiers in hex and timestamps in UTC, which are
parsed into calendar times.
-/

namespace Api
namespace Model

def matchClasses : List (Char → Bool) → List Char → Bool
  | [], [] => true
  | p :: ps, c :: cs => p c && matchClasses ps cs
  | _, _ => false

def isDigit (c : Char) : Bool :=
  '0' ≤ c ∧ c ≤ '9'

def isLowerHex (c : Char) : Bool :=
  isDigit c || decide ('a' ≤ c ∧ c ≤ 'f')

def uuidRe (s : String) : Bool :=
  matchClasses
    (.replicate 8 isLowerHex ++ (· == '-') :: .replicate 4 isLowerHex
      ++ (· == '-') :: (fun c => decide ('1' ≤ c ∧ c ≤ '8')) :: .replicate 3 isLowerHex
      ++ (· == '-') :: (['8', '9', 'a', 'b'].contains ·) :: .replicate 3 isLowerHex
      ++ (· == '-') :: .replicate 12 isLowerHex)
    s.toList

def machineIDRe (s : String) : Bool :=
  matchClasses (.replicate 32 isLowerHex) s.toList

def fractionRe : List Char → Bool
  | ['Z'] => true
  | '.' :: cs =>
    let digits := cs.takeWhile isDigit
    1 ≤ digits.length ∧ digits.length ≤ 9 ∧ cs.dropWhile isDigit = ['Z']
  | _ => false

def timestampRe (s : String) : Bool :=
  let cs := s.toList
  matchClasses
    (.replicate 4 isDigit ++ (· == '-') :: .replicate 2 isDigit ++ (· == '-') :: .replicate 2 isDigit
      ++ (· == 'T') :: .replicate 2 isDigit ++ (· == ':') :: .replicate 2 isDigit
      ++ (· == ':') :: .replicate 2 isDigit)
    (cs.take 19)
  && fractionRe (cs.drop 19)

/--
A `time.Time` in UTC. The order of the fields makes the lists of two times compare as the times do.
-/
structure Time where
  year : Nat
  month : Nat
  day : Nat
  hour : Nat
  minute : Nat
  second : Nat
  nanosecond : Nat
  deriving DecidableEq

namespace Time

def toList (t : Time) : List Nat :=
  [t.year, t.month, t.day, t.hour, t.minute, t.second, t.nanosecond]

def Before (t u : Time) : Prop :=
  t.toList < u.toList

instance (t u : Time) : Decidable (t.Before u) :=
  inferInstanceAs (Decidable (t.toList < u.toList))

def zero : Time where
  year := 1
  month := 1
  day := 1
  hour := 0
  minute := 0
  second := 0
  nanosecond := 0

def IsZero (t : Time) : Prop :=
  t = zero

instance (t : Time) : Decidable t.IsZero :=
  inferInstanceAs (Decidable (t = zero))

end Time

def daysIn (month year : Nat) : Nat :=
  match month with
  | 2 => if year % 4 = 0 ∧ (year % 100 ≠ 0 ∨ year % 400 = 0) then 29 else 28
  | 4 | 6 | 9 | 11 => 30
  | _ => 31

/--
The number that `len` characters from position `start` write.
-/
def numberAt (cs : List Char) (start len : Nat) : Nat :=
  (takeDigits ((cs.drop start).take len) 0 0).1

def fraction (cs : List Char) : Nat :=
  match cs with
  | '.' :: cs =>
    let (n, len, _) := takeDigits cs 0 0
    n * 10 ^ (9 - len)
  | _ => 0

/--
What `time.Parse` finds out of range first: the day is looked at last.
-/
def outOfRange (t : Time) : Option String :=
  if t.month < 1 ∨ 12 < t.month then some "month"
  else if 24 ≤ t.hour then some "hour"
  else if 60 ≤ t.minute then some "minute"
  else if 60 ≤ t.second then some "second"
  else if t.day < 1 ∨ daysIn t.month t.year < t.day then some "day"
  else none

def ParseTimestamp (s : String) : Except GoError Time :=
  if ¬timestampRe s then
    .error (.new [.text "timestamp ", .quoted s, .text " is not RFC 3339 UTC with a Z suffix"])
  else
    let cs := s.toList
    let t : Time :=
      { year := numberAt cs 0 4, month := numberAt cs 5 2, day := numberAt cs 8 2,
        hour := numberAt cs 11 2, minute := numberAt cs 14 2, second := numberAt cs 17 2,
        nanosecond := fraction (cs.drop 19) }
    match outOfRange t with
    | some what =>
      .error (.wrap [.text "timestamp ", .quoted s]
        (.new [.text "parsing time ", .quoted s, .text (": " ++ what ++ " out of range")]))
    | none => .ok t

theorem timestampRe_of_parsed {s : String} {t : Time} (h : ParseTimestamp s = .ok t) : timestampRe s := by
  unfold ParseTimestamp at h
  split at h
  . cases h
  . rename_i hre
    exact not_not.mp hre

example : ParseTimestamp "2026-02-28T10:00:00.25Z" = .ok ⟨2026, 2, 28, 10, 0, 0, 250000000⟩ := by
  decide

example : (ParseTimestamp "2026-02-29T10:00:00Z").isOk = false := by decide

end Model
end Api
