import Mathlib.Data.List.Basic
import Mathlib.Data.Nat.Digits.Defs
import Mathlib.Data.Nat.Digits.Lemmas

/-!
This module contains the Go strings of the HTTP layer as lists of bytes, with the functions of
`strings` and `strconv` that it calls.
-/

namespace Api

abbrev Bytes := List UInt8

def ascii (s : String) : Bytes :=
  s.toList.map fun c => c.toNat.toUInt8

theorem ascii_ofList (cs : List Char) : ascii (String.ofList cs) = cs.map fun c => c.toNat.toUInt8 := by
  rw [ascii, String.toList_ofList]

theorem ascii_append (s t : String) : ascii (s ++ t) = ascii s ++ ascii t := by
  rw [ascii, String.toList_append, List.map_append]
  rfl

def comma : UInt8 := 44

def bar : UInt8 := 124

def equals : UInt8 := 61

/--
The encodings of the characters that `unicode.IsSpace` accepts.
-/
def spaces : List Bytes :=
  [[9], [10], [11], [12], [13], [32], [0xC2, 0x85], [0xC2, 0xA0], [0xE1, 0x9A, 0x80],
    [0xE2, 0x80, 0x80], [0xE2, 0x80, 0x81], [0xE2, 0x80, 0x82], [0xE2, 0x80, 0x83],
    [0xE2, 0x80, 0x84], [0xE2, 0x80, 0x85], [0xE2, 0x80, 0x86], [0xE2, 0x80, 0x87],
    [0xE2, 0x80, 0x88], [0xE2, 0x80, 0x89], [0xE2, 0x80, 0x8A], [0xE2, 0x80, 0xA8],
    [0xE2, 0x80, 0xA9], [0xE2, 0x80, 0xAF], [0xE2, 0x81, 0x9F], [0xE3, 0x80, 0x80]]

/--
Drops any of `prefixes` from the front, as often as there is one. The fuel is the length.
-/
def dropPrefixes (prefixes : List Bytes) : Nat → Bytes → Bytes
  | 0, v => v
  | fuel + 1, v =>
    match prefixes.find? (·.isPrefixOf v) with
    | some p => dropPrefixes prefixes fuel (v.drop p.length)
    | none => v

/--
`strings.TrimSpace`.
-/
def trimSpace (v : Bytes) : Bytes :=
  let v := dropPrefixes spaces v.length v
  (dropPrefixes (spaces.map List.reverse) v.length v.reverse).reverse

/--
`strings.Cut` at one byte: what precedes it and what follows it.
-/
def cut (sep : UInt8) : Bytes → Option (Bytes × Bytes)
  | [] => none
  | b :: v =>
    if b = sep then
      some ([], v)
    else
      (cut sep v).map fun (before, after) => (b :: before, after)

def parseDigits (acc : Nat) : Bytes → Option Nat
  | [] => some acc
  | b :: v => if 48 ≤ b ∧ b ≤ 57 then parseDigits (acc * 10 + (b.toNat - 48)) v else none

/--
`strconv.ParseInt` in base 10 with 64 bits, and `strconv.Atoi`.
-/
def parseInt (v : Bytes) : Option Int :=
  let (negative, digits) :=
    match v with
    | 43 :: digits => (false, digits)
    | 45 :: digits => (true, digits)
    | digits => (false, digits)
  if digits = [] then
    none
  else
    (parseDigits 0 digits).bind fun n =>
      if negative then
        if n ≤ 2 ^ 63 then some (-n) else none
      else
        if n < 2 ^ 63 then some n else none

def formatDigits (digits : List Nat) : Bytes :=
  digits.reverse.map fun d => (48 + d).toUInt8

/--
`strconv.FormatInt` in base 10.
-/
def formatInt (n : Int) : Bytes :=
  let digits := if n = 0 then [0] else Nat.digits 10 n.natAbs
  if n < 0 then 45 :: formatDigits digits else formatDigits digits

theorem mem_of_mem_dropPrefixes {prefixes : List Bytes} {fuel : Nat} {v : Bytes} {b : UInt8}
    (h : b ∈ dropPrefixes prefixes fuel v)
    : b ∈ v := by
  induction fuel generalizing v with
  | zero => exact h
  | succ fuel ih =>
    simp only [dropPrefixes] at h
    split at h
    . exact List.mem_of_mem_drop (ih h)
    . exact h

theorem mem_of_mem_trimSpace {v : Bytes} {b : UInt8} (h : b ∈ trimSpace v) : b ∈ v := by
  simp only [trimSpace, List.mem_reverse] at h
  have := mem_of_mem_dropPrefixes h
  rw [List.mem_reverse] at this
  exact mem_of_mem_dropPrefixes this

theorem parseDigits_append {acc : Nat} {v w : Bytes}
    : parseDigits acc (v ++ w) = (parseDigits acc v).bind fun n => parseDigits n w := by
  induction v generalizing acc with
  | nil => rfl
  | cons b v ih =>
    rw [List.cons_append, parseDigits, parseDigits]
    split
    . exact ih
    . rfl

theorem digit_bounds {d : Nat} (h : d < 10)
    : 48 ≤ (48 + d).toUInt8 ∧ (48 + d).toUInt8 ≤ 57 ∧ (48 + d).toUInt8.toNat = 48 + d := by
  interval_cases d <;> decide

theorem parseDigits_formatDigits {digits : List Nat} (h : ∀ d ∈ digits, d < 10)
    : parseDigits 0 (formatDigits digits) = some (Nat.ofDigits 10 digits) := by
  unfold formatDigits
  induction digits with
  | nil => rfl
  | cons d digits ih =>
    rw [List.forall_mem_cons] at h
    obtain ⟨hlow, hhigh, hvalue⟩ := digit_bounds h.1
    rw [List.reverse_cons, List.map_append, parseDigits_append, ih h.2, Option.bind_some,
      List.map_singleton, parseDigits, if_pos ⟨hlow, hhigh⟩, parseDigits, hvalue, Nat.ofDigits_cons]
    congr 1
    omega

theorem formatDigits_ne_nil {digits : List Nat} (h : digits ≠ []) : formatDigits digits ≠ [] := by
  simpa [formatDigits] using h

theorem sign_of_digit {b : UInt8} {v : Bytes} (h : 48 ≤ b)
    : (match b :: v with
      | 43 :: digits => (false, digits)
      | 45 :: digits => (true, digits)
      | digits => (false, digits)) = (false, b :: v) := by
  split
  . rename_i heq
    injection heq with heq
    rw [heq] at h
    exact absurd h (by decide)
  . rename_i heq
    injection heq with heq
    rw [heq] at h
    exact absurd h (by decide)
  . rfl

theorem parseInt_of_digits {v : Bytes} (hne : v ≠ []) (h : ∀ b ∈ v, 48 ≤ b)
    : parseInt v = (parseDigits 0 v).bind fun n => if n < 2 ^ 63 then some (n : Int) else none := by
  obtain ⟨b, v, rfl⟩ := List.exists_cons_of_ne_nil hne
  unfold parseInt
  split
  rename_i negative digits hsign
  have hsame := (sign_of_digit (h b List.mem_cons_self)).symm.trans hsign
  injection hsame with hnegative hdigits
  rw [← hnegative, ← hdigits]
  simp

theorem parseInt_formatDigits {digits : List Nat} (hne : digits ≠ []) (h : ∀ d ∈ digits, d < 10)
    (hlt : Nat.ofDigits 10 digits < 2 ^ 63)
    : parseInt (formatDigits digits) = some (Int.ofNat (Nat.ofDigits 10 digits)) := by
  rw [parseInt_of_digits (formatDigits_ne_nil hne), parseDigits_formatDigits h, Option.bind_some,
    if_pos hlt]
  . rfl
  . intro b hb
    obtain ⟨d, hd, rfl⟩ := List.mem_map.mp hb
    exact (digit_bounds (h d (List.mem_reverse.mp hd))).1

theorem parseInt_formatInt {n : Int} (h : 0 ≤ n) (hlt : n < 2 ^ 63)
    : parseInt (formatInt n) = some n := by
  have hnat : (n.natAbs : Int) = n := Int.natAbs_of_nonneg h
  unfold formatInt
  rw [if_neg (not_lt.mpr h)]
  by_cases hzero : n = 0
  . rw [if_pos hzero, hzero]
    decide
  . rw [if_neg hzero, parseInt_formatDigits]
    . rw [Nat.ofDigits_digits]
      exact congrArg some hnat
    . exact Nat.digits_ne_nil_iff_ne_zero.mpr (by omega)
    . exact fun d hd => Nat.digits_lt_base (by decide) hd
    . rw [Nat.ofDigits_digits]
      omega

theorem formatInt_ne_nil (n : Int) : formatInt n ≠ [] := by
  have hdigits : (if n = 0 then [0] else Nat.digits 10 n.natAbs) ≠ [] := by
    split
    . exact List.cons_ne_nil _ _
    . exact Nat.digits_ne_nil_iff_ne_zero.mpr (by omega)
  unfold formatInt
  dsimp only
  generalize (if n = 0 then [0] else Nat.digits 10 n.natAbs) = digits at hdigits ⊢
  split
  . exact List.cons_ne_nil _ _
  . exact formatDigits_ne_nil hdigits

example : trimSpace (ascii "  a b ") = ascii "a b" := by decide

example : parseInt (ascii "-12") = some (-12) := by decide

end Api
