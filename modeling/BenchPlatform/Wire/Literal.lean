import BenchPlatform.Api.Float
import BenchPlatform.Lib.Text

/-!
This module proves that the decoder reads back the numbers that a literal was written for: integers in
decimal, and the finite values of `float64`, which no reading rounds.
-/

namespace Api

open Text

def literal (i : Int) : String :=
  String.ofList (intDigits i)

section

variable {digits rest : List Char}

theorem digitOf?_of_isDigit {c : Char} (h : c.isDigit = true)
    : digitOf? c = some (c.toNat - '0'.toNat) := by
  have hrange : '0' ≤ c ∧ c ≤ '9' := by
    simpa [Char.isDigit, Char.le_def] using h
  exact if_pos hrange

theorem takeDigits_append (hdigits : ∀ c ∈ digits, c.isDigit = true) (rest : List Char) (acc len : Nat)
    : takeDigits (digits ++ rest) acc len
      = takeDigits rest (Nat.ofDigitChars 10 digits acc) (len + digits.length) := by
  induction digits generalizing acc len with
  | nil => rw [List.nil_append, Nat.ofDigitChars_nil, List.length_nil, Nat.add_zero]
  | cons c digits ih =>
    rw [List.forall_mem_cons] at hdigits
    rw [List.cons_append, takeDigits, digitOf?_of_isDigit hdigits.1]
    dsimp only
    rw [ih hdigits.2, Nat.ofDigitChars_cons, Nat.mul_comm acc, List.length_cons, Nat.add_assoc,
      Nat.add_comm 1]

def NoDigit (rest : List Char) : Prop :=
  ∀ c ∈ rest.head?, digitOf? c = none

theorem takeDigits_stop (h : NoDigit rest) (acc len : Nat)
    : takeDigits rest acc len = (acc, len, rest) := by
  cases rest with
  | nil => rfl
  | cons c rest =>
    rw [takeDigits, h c rfl]

theorem takeDigits_toDigits (n : Nat) (h : NoDigit rest)
    : takeDigits (Nat.toDigits 10 n ++ rest) 0 0 = (n, (Nat.toDigits 10 n).length, rest) := by
  have hdigits : ∀ c ∈ Nat.toDigits 10 n, c.isDigit = true := by
    intro c hc
    exact Nat.isDigit_of_mem_toDigits (by decide) (by decide) hc
  rw [takeDigits_append hdigits, takeDigits_stop h, Nat.ofDigitChars_ten_toDigits, Nat.zero_add]

theorem length_toDigits_pos (n : Nat) : 0 < (Nat.toDigits 10 n).length := by
  apply List.length_pos_of_ne_nil
  intro hnil
  have hvalue := Nat.ofDigitChars_ten_toDigits (n := n)
  rw [hnil, Nat.ofDigitChars_nil] at hvalue
  rw [← hvalue] at hnil
  revert hnil
  decide

theorem takeSign_minus (cs : List Char) : takeSign ('-' :: cs) = (true, cs) := rfl

theorem takeSign_of_isDigit (hne : digits ≠ []) (hdigits : ∀ c ∈ digits, c.isDigit = true)
    : takeSign (digits ++ rest) = (false, digits ++ rest) := by
  obtain ⟨c, digits, rfl⟩ := List.exists_cons_of_ne_nil hne
  have hc := hdigits c List.mem_cons_self
  rw [List.cons_append]
  unfold takeSign
  split
  . rename_i heq
    cases heq
    exact absurd hc (by decide)
  . rename_i heq
    cases heq
    exact absurd hc (by decide)
  . rfl

theorem takeSign_toDigits (n : Nat)
    : takeSign (Nat.toDigits 10 n ++ rest) = (false, Nat.toDigits 10 n ++ rest) := by
  apply takeSign_of_isDigit
  . exact List.ne_nil_of_length_pos (length_toDigits_pos n)
  . intro c hc
    exact Nat.isDigit_of_mem_toDigits (by decide) (by decide) hc

end

theorem parseInt64_literal (i : Int)
    : parseInt64 (literal i) = if -2 ^ 63 ≤ i ∧ i < 2 ^ 63 then some i else none := by
  have hnil : NoDigit [] := by
    intro c hc
    cases hc
  have hread := takeDigits_toDigits i.natAbs hnil
  rw [List.append_nil] at hread
  have hlength := length_toDigits_pos i.natAbs
  unfold parseInt64 literal
  rw [String.toList_ofList]
  unfold intDigits
  obtain hneg | hnonneg := lt_or_ge i 0
  . rw [if_pos hneg, takeSign_minus]
    dsimp only
    rw [hread]
    dsimp only
    rw [if_neg (not_or.mpr ⟨hlength.ne', fun h => h rfl⟩), if_pos rfl]
    split
    . rw [if_pos (by omega)]
      congr 1
      omega
    . rw [if_neg (by omega)]
  . have hsign : takeSign (Nat.toDigits 10 i.natAbs ++ []) = (false, Nat.toDigits 10 i.natAbs ++ []) :=
      takeSign_toDigits i.natAbs
    rw [List.append_nil] at hsign
    rw [if_neg (by omega), hsign]
    dsimp only
    rw [hread]
    dsimp only
    rw [if_neg (not_or.mpr ⟨hlength.ne', fun h => h rfl⟩), if_neg (by decide)]
    split
    . rw [if_pos (by omega)]
      congr 1
      omega
    . rw [if_neg (by omega)]

namespace Float64

open Rounding

def Finite : Float64 → Prop
  | .finite _ mant exp =>
    mant < 2 ^ 53 ∧ -1074 ≤ exp ∧ exp ≤ 971 ∧ (mant < 2 ^ 52 → exp = -1074)
  | _ => False

instance (x : Float64) : Decidable x.Finite := by
  cases x
  . exact inferInstanceAs (Decidable (_ ∧ _))
  . exact inferInstanceAs (Decidable False)
  . exact inferInstanceAs (Decidable False)

variable {num den mant : Nat} {e : Int}

theorem two_zpow_lt_iff {a b : Int} : (2 : Rat) ^ a < 2 ^ b ↔ a < b :=
  zpow_lt_zpow_iff_right₀ one_lt_two

theorem exponentFor_exact (hden : 0 < den) (hratio : (num : Rat) / den = mant * 2 ^ e) (hmant : 0 < mant)
    (hlt : mant < 2 ^ 53) (hmin : -1074 ≤ e) (hnormal : mant < 2 ^ 52 → e = -1074)
    : exponentFor num den = e := by
  have hmantQ : (0 : Rat) < mant := Nat.cast_pos.mpr hmant
  have hnum : 0 < num := by
    by_contra hzero
    rw [Nat.eq_zero_of_not_pos hzero, Nat.cast_zero, zero_div] at hratio
    have hpos : (0 : Rat) < mant * 2 ^ e := by positivity
    exact hpos.ne hratio
  obtain ⟨hlow, hhigh⟩ := log2_bounds hnum hden
  rw [hratio] at hlow hhigh
  have hupper : (mant : Rat) * 2 ^ e < 2 ^ (e + 53) := by
    rw [add_comm, zpow_add₀ two_ne_zero]
    have hltQ : (mant : Rat) < 2 ^ (53 : Int) := mod_cast hlt
    exact mul_lt_mul_of_pos_right hltQ (by positivity)
  have hlog : (Nat.log2 num : Int) - Nat.log2 den < e + 54 := by
    apply two_zpow_lt_iff.mp
    calc
      (2 : Rat) ^ ((Nat.log2 num : Int) - Nat.log2 den) < 2 * (mant * 2 ^ e) := hlow
      _ < 2 * 2 ^ (e + 53) := by linarith
      _ = 2 ^ (e + 54) := by rw [show e + 54 = e + 53 + 1 by ring, zpow_add_one₀ two_ne_zero, mul_comm]
  have hlower : 2 ^ 52 ≤ mant → (2 : Rat) ^ (e + 52) ≤ mant * 2 ^ e := by
    intro hge
    rw [add_comm, zpow_add₀ two_ne_zero]
    have hgeQ : (2 : Rat) ^ (52 : Int) ≤ mant := mod_cast hge
    exact mul_le_mul_of_nonneg_right hgeQ (by positivity)
  have hlog' : 2 ^ 52 ≤ mant → e + 51 < (Nat.log2 num : Int) - Nat.log2 den := by
    intro hge
    have hlt := two_zpow_lt_iff.mp ((hlower hge).trans_lt hhigh)
    omega
  unfold exponentFor
  dsimp only
  simp only [mul_lt_mul_iff_ratio hden, hratio]
  generalize (Nat.log2 num : Int) - Nat.log2 den = l at hlog hlog'
  by_cases hsame : max (-1074) (l - 53) = e
  . rw [hsame, if_pos hupper]
  . have hge : 2 ^ 52 ≤ mant := by
      by_contra hsub
      have he := hnormal (not_le.mp hsub)
      omega
    have hl := hlog' hge
    have hprev : max (-1074) (l - 53) = e - 1 := by omega
    rw [hprev, if_neg, sub_add_cancel]
    rw [not_lt, show e - 1 + 53 = e + 52 by ring]
    exact hlower hge

theorem ofRatio_exact (neg : Bool) (hden : 0 < den) (hratio : (num : Rat) / den = mant * 2 ^ e)
    (hfinite : Finite (.finite neg mant e))
    : ofRatio neg num den = some (.finite neg mant e) := by
  obtain ⟨hlt, hmin, hmax, hnormal⟩ := hfinite
  have hdenQ : (0 : Rat) < den := Nat.cast_pos.mpr hden
  obtain hzero | hmant := Nat.eq_zero_or_pos mant
  . rw [hzero, Nat.cast_zero, zero_mul, div_eq_zero_iff, Nat.cast_eq_zero] at hratio
    rw [hratio.resolve_right hdenQ.ne', hzero, hnormal (by omega)]
    rfl
  . have hnum : num ≠ 0 := by
      rintro rfl
      rw [Nat.cast_zero, zero_div] at hratio
      have hpos : (0 : Rat) < mant * 2 ^ e := by positivity
      exact hpos.ne hratio
    have hscale : num * 2 ^ (-e).toNat = mant * (den * 2 ^ e.toNat) := by
      rw [div_eq_iff hdenQ.ne', ← two_pow_toNat] at hratio
      have hpow : (0 : Rat) < 2 ^ (-e).toNat := by positivity
      have hmul : (num : Rat) * 2 ^ (-e).toNat = mant * (den * 2 ^ e.toNat) := by
        rw [hratio]
        field_simp
      exact mod_cast hmul
    have hround : roundHalfEven (num * 2 ^ (-e).toNat) (den * 2 ^ e.toNat) = mant := by
      have hpos : 0 < den * 2 ^ e.toNat := by positivity
      rw [hscale]
      unfold roundHalfEven
      rw [Nat.mul_div_cancel _ hpos, Nat.mul_mod_left]
      exact if_pos (.inl (by omega))
    unfold ofRatio
    rw [if_neg hnum, exponentFor_exact hden hratio hmant hlt hmin hnormal]
    dsimp only
    rw [hround, if_neg (by omega : ¬mant = 2 ^ 53)]
    exact if_neg (not_lt.mpr hmax)

def exactLiteral : Float64 → String
  | .finite neg mant exp =>
    let digits := Nat.toDigits 10 (mant * 2 ^ exp.toNat * 5 ^ (-exp).toNat)
    let exponent := 'e' :: '-' :: Nat.toDigits 10 (-exp).toNat
    String.ofList ((if neg then ['-'] else []) ++ digits ++ exponent)
  | _ => ""

theorem parse_exactLiteral {x : Float64} (h : x.Finite) : parse x.exactLiteral = some x := by
  cases x with
  | inf s => exact absurd h id
  | nan => exact absurd h id
  | finite neg mant e =>
    have hnil : NoDigit [] := by
      intro c hc
      cases hc
    have hexp : NoDigit ('e' :: '-' :: Nat.toDigits 10 (-e).toNat) := by
      intro c hc
      cases hc
      rfl
    have hread := takeDigits_toDigits (mant * 2 ^ e.toNat * 5 ^ (-e).toNat) hexp
    have hread' := takeDigits_toDigits (-e).toNat hnil
    rw [List.append_nil] at hread'
    have hlength := length_toDigits_pos (mant * 2 ^ e.toNat * 5 ^ (-e).toNat)
    have hlength' := length_toDigits_pos (-e).toNat
    have hsign : takeSign ((if neg then ['-'] else []) ++ Nat.toDigits 10 (mant * 2 ^ e.toNat * 5 ^ (-e).toNat)
          ++ 'e' :: '-' :: Nat.toDigits 10 (-e).toNat)
        = (neg, Nat.toDigits 10 (mant * 2 ^ e.toNat * 5 ^ (-e).toNat)
          ++ 'e' :: '-' :: Nat.toDigits 10 (-e).toNat) := by
      cases neg with
      | false => exact takeSign_toDigits _
      | true => rfl
    have hratio : ((mant * 2 ^ e.toNat * 5 ^ (-e).toNat * 10 ^ 0 : Nat) : Rat) / (10 ^ (-e).toNat : Nat)
        = mant * 2 ^ e := by
      have hten : (10 : Rat) ^ (-e).toNat = 2 ^ (-e).toNat * 5 ^ (-e).toNat := by
        rw [← mul_pow]
        norm_num
      rw [← two_pow_toNat e]
      push_cast
      rw [hten]
      field_simp
    have hexact := ofRatio_exact neg (by positivity) hratio h
    unfold parse exactLiteral
    dsimp only
    rw [String.toList_ofList, hsign]
    dsimp only
    rw [hread]
    dsimp only
    rw [if_neg (by omega)]
    -- what is left is the ratio of the digits to a power of ten
    have hscale : (-max (-e) 0).toNat = 0 := by omega
    have hdown : (max (-e) 0).toNat = (-e).toNat := by omega
    simp [takeSign_minus, hread', hlength']
    rw [hscale, hdown]
    exact hexact

end Float64

end Api
