import Mathlib.Data.List.Basic
import Mathlib.Data.List.TakeWhile

/-!
This module contains searches in strings, which are lists of characters: the first and the last place of a
character, what is left without blanks at both ends, and numbers at the begin of a string.
-/

namespace Text

section Find

variable {α : Type} [DecidableEq α] {s t : List α} {c : α} {pos : Nat}

/--
The first place of `c` from `pos` on.
-/
def find (s : List α) (c : α) (pos : Nat) : Option Nat :=
  ((s.drop pos).idxOf? c).map (pos + ·)

theorem idxOf?_append (h : c ∉ s) : (s ++ c :: t).idxOf? c = some s.length := by
  induction s with
  | nil => simp [List.idxOf?_cons]
  | cons a s ih =>
    rw [List.mem_cons, not_or] at h
    rw [List.cons_append, List.idxOf?_cons, ih h.2]
    simp [Ne.symm h.1]

theorem find_eq_none (h : c ∉ s.drop pos) : find s c pos = none := by
  unfold find
  rw [List.idxOf?_eq_none_iff.mpr h]
  rfl

theorem find_append (h : c ∉ s) : find (s ++ c :: t) c 0 = some s.length := by
  unfold find
  rw [List.drop_zero, idxOf?_append h]
  exact congrArg some (Nat.zero_add _)

end Find

section Numbers

variable {base limit : Nat} {digits rest : List Char}

/--
The value of a digit. Letters are digits of the larger bases, in both cases.
-/
def digit (base : Nat) (c : Char) : Option Nat :=
  let v :=
    if '0' ≤ c ∧ c ≤ '9' then some (c.toNat - '0'.toNat)
    else if 'a' ≤ c ∧ c ≤ 'z' then some (c.toNat - 'a'.toNat + 10)
    else if 'A' ≤ c ∧ c ≤ 'Z' then some (c.toNat - 'A'.toNat + 10)
    else none
  v.filter (· < base)

def isDigit (base : Nat) (c : Char) : Bool :=
  (digit base c).isSome

def value (base : Nat) (digits : List Char) : Nat :=
  digits.foldl (fun n c => n * base + (digit base c).getD 0) 0

/--
Reads an unsigned number as far as its digits go, unless there is none or it is too large. What follows it is left.
-/
def fromChars (base limit : Nat) (s : List Char) : Option (Nat × List Char) :=
  let digits := s.takeWhile (isDigit base)
  if digits = [] ∨ limit ≤ value base digits then none
  else some (value base digits, s.dropWhile (isDigit base))

def Ends (base : Nat) (rest : List Char) : Prop :=
  ∀ c ∈ rest.head?, isDigit base c = false

theorem takeWhile_digits (hdigits : ∀ c ∈ digits, isDigit base c = true) (hrest : Ends base rest)
    : (digits ++ rest).takeWhile (isDigit base) = digits ∧ (digits ++ rest).dropWhile (isDigit base) = rest := by
  rw [List.takeWhile_append_of_pos hdigits, List.dropWhile_append_of_pos hdigits]
  cases rest with
  | nil => exact ⟨List.append_nil _, rfl⟩
  | cons c rest =>
    have hc : isDigit base c = false := hrest c rfl
    rw [List.takeWhile_cons_of_neg (by simp [hc]), List.dropWhile_cons_of_neg (by simp [hc]), List.append_nil]
    exact ⟨rfl, rfl⟩

theorem fromChars_append (hdigits : ∀ c ∈ digits, isDigit base c = true) (hrest : Ends base rest) (hsome : digits ≠ [])
    (hlt : value base digits < limit)
    : fromChars base limit (digits ++ rest) = some (value base digits, rest) := by
  unfold fromChars
  rw [(takeWhile_digits hdigits hrest).1, (takeWhile_digits hdigits hrest).2]
  exact if_neg (not_or.mpr ⟨hsome, Nat.not_le.mpr hlt⟩)

theorem fromChars_rest {s : List Char} {n : Nat} (h : fromChars base limit s = some (n, rest))
    : s.dropWhile (isDigit base) = rest := by
  unfold fromChars at h
  dsimp only at h
  split at h
  . contradiction
  . exact congrArg Prod.snd (Option.some.inj h)

theorem digit_ten {c : Char} (h : c.isDigit = true) : digit 10 c = some (c.toNat - '0'.toNat) := by
  have hrange : '0' ≤ c ∧ c ≤ '9' := by
    simpa [Char.isDigit, Char.le_def] using h
  have hlt : c.toNat - '0'.toNat < 10 := by
    have hle : c.toNat ≤ '9'.toNat := hrange.2
    have hnine : '9'.toNat = '0'.toNat + 9 := rfl
    omega
  unfold digit
  rw [if_pos hrange]
  exact if_pos (decide_eq_true hlt)

theorem isDigit_toDigits {n : Nat} : ∀ c ∈ Nat.toDigits 10 n, isDigit 10 c = true := by
  intro c hc
  unfold isDigit
  rw [digit_ten (Nat.isDigit_of_mem_toDigits (by decide) (by decide) hc)]
  rfl

theorem value_toDigits (n : Nat) : value 10 (Nat.toDigits 10 n) = n := by
  have hsame : ∀ (l : List Char) (init : Nat), (∀ c ∈ l, c.isDigit = true) →
      l.foldl (fun n c => n * 10 + (digit 10 c).getD 0) init = Nat.ofDigitChars 10 l init := by
    intro l
    induction l with
    | nil => exact fun init _ => Nat.ofDigitChars_nil.symm
    | cons c l ih =>
      intro init h
      rw [List.forall_mem_cons] at h
      rw [List.foldl_cons, digit_ten h.1, Option.getD_some, Nat.ofDigitChars_cons, ih _ h.2, Nat.mul_comm]
  unfold value
  rw [hsame _ 0 fun c hc => Nat.isDigit_of_mem_toDigits (by decide) (by decide) hc, Nat.ofDigitChars_ten_toDigits]

def intDigits (i : Int) : List Char :=
  if i < 0 then '-' :: Nat.toDigits 10 i.natAbs else Nat.toDigits 10 i.natAbs

theorem toDigits_inj {m n : Nat} (h : Nat.toDigits 10 m = Nat.toDigits 10 n) : m = n := by
  have hvalue := congrArg (value 10) h
  rwa [value_toDigits, value_toDigits] at hvalue

theorem minus_not_mem_toDigits {n : Nat} : '-' ∉ Nat.toDigits 10 n := by
  intro hmem
  have hdigit := isDigit_toDigits '-' hmem
  revert hdigit
  decide

theorem intDigits_inj {i j : Int} (h : intDigits i = intDigits j) : i = j := by
  unfold intDigits at h
  split at h <;> split at h
  . have habs := toDigits_inj (List.cons.inj h).2
    omega
  . exact absurd (h ▸ List.mem_cons_self) minus_not_mem_toDigits
  . exact absurd (h ▸ List.mem_cons_self) minus_not_mem_toDigits
  . have habs := toDigits_inj h
    omega

def bytes (s : List Char) : List UInt8 :=
  s.map fun c => c.toNat.toUInt8

theorem toNat_toUInt8 {c : Char} (h : c.toNat < 128) : c.toNat.toUInt8.toNat = c.toNat := by
  rw [Nat.toUInt8_eq, UInt8.toNat_ofNat']
  omega

theorem bytes_inj {s t : List Char} (hs : ∀ c ∈ s, c.toNat < 128) (ht : ∀ c ∈ t, c.toNat < 128)
    (h : bytes s = bytes t)
    : s = t := by
  have hread : ∀ s : List Char, (∀ c ∈ s, c.toNat < 128) → (bytes s).map (fun b => Char.ofNat b.toNat) = s := by
    intro s hs
    unfold bytes
    rw [List.map_map]
    refine (List.map_congr_left fun c hc => ?_).trans (List.map_id s)
    rw [Function.comp_apply, toNat_toUInt8 (hs c hc), Char.ofNat_toNat]
    rfl
  rw [← hread s hs, ← hread t ht, h]

end Numbers

section Lines

variable {line cur rest : List Char} {blank : Char → Bool}

def linesFrom (cur : List Char) : List Char → List (List Char)
  | [] => if cur = [] then [] else [cur]
  | c :: cs => if c = '\n' then cur :: linesFrom [] cs else linesFrom (cur ++ [c]) cs

/--
The lines of a text. The last one need not be terminated.
-/
def lines (text : List Char) : List (List Char) :=
  linesFrom [] text

theorem linesFrom_append (h : '\n' ∉ line) : linesFrom cur (line ++ rest) = linesFrom (cur ++ line) rest := by
  induction line generalizing cur with
  | nil => rw [List.nil_append, List.append_nil]
  | cons c line ih =>
    rw [List.mem_cons, not_or] at h
    rw [List.cons_append, linesFrom, if_neg (Ne.symm h.1), ih h.2, List.append_assoc, List.singleton_append]

theorem lines_cons (h : '\n' ∉ line) : lines (line ++ '\n' :: rest) = line :: lines rest := by
  unfold lines
  rw [linesFrom_append h, linesFrom, if_pos rfl, List.nil_append]

theorem lines_last (h : '\n' ∉ line) : lines line = if line = [] then [] else [line] := by
  have happend : linesFrom [] (line ++ []) = linesFrom ([] ++ line) [] := linesFrom_append h
  rw [List.append_nil, List.nil_append] at happend
  exact happend

theorem lines_terminated {ls : List (List Char)} {last : List Char} (hls : ∀ l ∈ ls, '\n' ∉ l) (hlast : '\n' ∉ last)
    : lines (ls.flatMap (· ++ ['\n']) ++ last) = ls ++ if last = [] then [] else [last] := by
  induction ls with
  | nil => exact lines_last hlast
  | cons l ls ih =>
    rw [List.forall_mem_cons] at hls
    rw [List.flatMap_cons, List.append_assoc, List.append_assoc, List.singleton_append, lines_cons hls.1, ih hls.2,
      List.cons_append]

def trim (blank : Char → Bool) (s : List Char) : List Char :=
  ((s.dropWhile blank).reverse.dropWhile blank).reverse

def Trimmed (blank : Char → Bool) (s : List Char) : Prop :=
  (∀ c ∈ s.head?, blank c = false) ∧ ∀ c ∈ s.getLast?, blank c = false

-- The search for an instance could go through all characters instead.
instance {s : List Char} : Decidable (Trimmed blank s) :=
  @instDecidableAnd _ _ (Option.decidableForallMem _) (Option.decidableForallMem _)

theorem dropWhile_blanks {before s : List Char} (hbefore : ∀ c ∈ before, blank c = true)
    (hs : ∀ c ∈ s.head?, blank c = false)
    : (before ++ s).dropWhile blank = s := by
  rw [List.dropWhile_append_of_pos hbefore]
  cases s with
  | nil => rfl
  | cons c s => exact List.dropWhile_cons_of_neg (by simp [hs c rfl])

theorem trim_eq_nil {s : List Char} : trim blank s = [] ↔ ∀ c ∈ s, blank c = true := by
  unfold trim
  rw [List.reverse_eq_nil_iff, List.dropWhile_eq_nil_iff]
  constructor
  . intro h c hc
    rw [← List.takeWhile_append_dropWhile (p := blank) (l := s)] at hc
    obtain hc | hc := List.mem_append.mp hc
    . exact List.mem_takeWhile_imp hc
    . exact h c (List.mem_reverse.mpr hc)
  . intro h c hc
    exact h c ((List.dropWhile_sublist blank).subset (List.mem_reverse.mp hc))

theorem trim_append {before s after : List Char} (hbefore : ∀ c ∈ before, blank c = true)
    (hafter : ∀ c ∈ after, blank c = true) (hs : Trimmed blank s)
    : trim blank (before ++ s ++ after) = s := by
  by_cases hnil : s = []
  . subst hnil
    rw [trim_eq_nil, List.append_nil]
    exact List.forall_mem_append.mpr ⟨hbefore, hafter⟩
  . have hhead : (s ++ after).head? = s.head? := List.head?_append_of_ne_nil s hnil
    unfold trim
    rw [List.append_assoc, dropWhile_blanks hbefore (by rw [hhead]; exact hs.1), List.reverse_append,
      dropWhile_blanks (by simpa using hafter) (by rw [List.head?_reverse]; exact hs.2), List.reverse_reverse]

end Lines

end Text
