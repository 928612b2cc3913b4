import BenchPlatform.Api.Number
import BenchPlatform.Lib.Rounding
import Mathlib.Data.Rat.Floor

/-!
This module contains the arithmetic of `float64`: the exact result of an operation is a rational number,
which is then rounded.
-/

namespace Api
namespace Float64

def value : Float64 → Rat
  | .finite neg mant exp =>
    mkRat ((if neg then -1 else 1) * mant * 2 ^ exp.toNat) (2 ^ (-exp).toNat)
  | .inf _ => 0
  | .nan => 0

/--
The `float64` of an exact result. A zero keeps the sign that the operation gives it.
-/
def ofRat (neg : Bool) (q : Rat) : Float64 :=
  if q = 0 then
    .finite neg 0 (-1074)
  else
    (ofRatio (q < 0) q.num.natAbs q.den).getD (.inf (q < 0))

def ofInt (n : Int) : Float64 :=
  ofRat false n

def neg : Float64 → Float64
  | .finite s mant exp => .finite (!s) mant exp
  | .inf s => .inf (!s)
  | .nan => .nan

def add : Float64 → Float64 → Float64
  | .nan, _ => .nan
  | _, .nan => .nan
  | .inf s, .inf t => if s = t then .inf s else .nan
  | .inf s, _ => .inf s
  | _, .inf t => .inf t
  | .finite s m e, .finite t m' e' =>
    ofRat (s && t) (value (.finite s m e) + value (.finite t m' e'))

def sub (x y : Float64) : Float64 :=
  add x (neg y)

def mul : Float64 → Float64 → Float64
  | .nan, _ => .nan
  | _, .nan => .nan
  | .inf s, .inf t => .inf (s ^^ t)
  | .inf s, .finite t m _ => if m = 0 then .nan else .inf (s ^^ t)
  | .finite s m _, .inf t => if m = 0 then .nan else .inf (s ^^ t)
  | .finite s m e, .finite t m' e' =>
    ofRat (s ^^ t) (value (.finite s m e) * value (.finite t m' e'))

def div : Float64 → Float64 → Float64
  | .nan, _ => .nan
  | _, .nan => .nan
  | .inf _, .inf _ => .nan
  | .inf s, .finite t _ _ => .inf (s ^^ t)
  | .finite s _ _, .inf t => .finite (s ^^ t) 0 (-1074)
  | .finite s m e, .finite t m' e' =>
    if m' = 0 then
      if m = 0 then .nan else .inf (s ^^ t)
    else
      ofRat (s ^^ t) (value (.finite s m e) / value (.finite t m' e'))

/--
`x == y`. Nothing is equal to a `NaN`, and the two zeros are.
-/
def eq : Float64 → Float64 → Bool
  | .finite s m e, .finite t m' e' => value (.finite s m e) = value (.finite t m' e')
  | .inf s, .inf t => s = t
  | _, _ => false

/--
`x < y`.
-/
def lt : Float64 → Float64 → Bool
  | .nan, _ => false
  | _, .nan => false
  | .inf s, .inf t => s && !t
  | .inf s, .finite _ _ _ => s
  | .finite _ _ _, .inf t => !t
  | .finite s m e, .finite t m' e' => value (.finite s m e) < value (.finite t m' e')

/--
`int(x)`, which drops the fraction. Go leaves open what becomes of a number that does not fit; on amd64
it is the least integer.
-/
def toInt : Float64 → Int
  | .finite s m e =>
    let q := value (.finite s m e)
    let n := q.num.tdiv q.den
    if -2 ^ 63 ≤ n ∧ n < 2 ^ 63 then n else -2 ^ 63
  | _ => -2 ^ 63

example : toInt (mul (ofInt 3) (div (ofInt 10) (ofInt 4))) = 7 := by decide +kernel

section Rounding

open Rounding

theorem halfEven_roundHalfEven (num : Nat) {den : Nat} (hden : 0 < den)
    : HalfEven ((num : Rat) / den) (roundHalfEven num den) := by
  have hdenQ : (0 : Rat) < den := Nat.cast_pos.mpr hden
  have hsplit : den * (num / den) + num % den = num := Nat.div_add_mod num den
  have hmod : num % den < den := Nat.mod_lt num hden
  have hle : ∀ a : Nat, (a : Rat) ≤ num / den + 1 / 2 ↔ 2 * (a * den) ≤ 2 * num + den := by
    intro a
    rw [div_add_div _ _ hdenQ.ne' two_ne_zero, le_div_iff₀ (by positivity)]
    rw [← Nat.cast_le (α := Rat)]
    push_cast
    constructor <;> intro h <;> linarith
  have hge : ∀ a : Nat, (num : Rat) / den ≤ a + 1 / 2 ↔ 2 * num ≤ 2 * (a * den) + den := by
    intro a
    rw [div_le_iff₀ hdenQ, ← Nat.cast_le (α := Rat)]
    push_cast
    constructor <;> intro h <;> linarith
  unfold roundHalfEven
  dsimp only
  generalize num / den = q at hsplit ⊢
  generalize num % den = r at hsplit hmod ⊢
  subst hsplit
  have hsucc : (q + 1) * den = den * q + den := by rw [Nat.add_mul, Nat.one_mul, Nat.mul_comm]
  constructor
  . rw [hle]
    split
    . rw [Nat.mul_comm q]
      omega
    . rw [hsucc]
      omega
  . rw [hge]
    split
    . rw [Nat.mul_comm q]
      omega
    . rw [hsucc]
      omega
  . intro m hm h
    rw [hle] at h
    have hmul : ∀ a, a ≤ m → a * den ≤ m * den := fun a ha => Nat.mul_le_mul_right den ha
    split
    . -- above the quotient there is only an odd number that can be as near
      by_contra hlt
      have hodd := hmul (q + 1) (by omega)
      rw [hsucc] at hodd
      have hne : m ≠ q + 1 := by
        rintro rfl
        have := Nat.even_iff.mp hm
        omega
      have htwo := hmul (q + 1 + 1) (by omega)
      rw [Nat.add_mul, hsucc] at htwo
      omega
    . by_contra hlt
      have htwo := hmul (q + 1 + 1) (by omega)
      rw [Nat.add_mul, hsucc] at htwo
      omega

theorem log2_bounds {num den : Nat} (hnum : 0 < num) (hden : 0 < den)
    : (2 : Rat) ^ ((Nat.log2 num : Int) - Nat.log2 den) < 2 * (num / den)
      ∧ (num : Rat) / den < 2 ^ ((Nat.log2 num : Int) - Nat.log2 den + 1) := by
  have hdenQ : (0 : Rat) < den := Nat.cast_pos.mpr hden
  have hnumLow : (2 : Rat) ^ Nat.log2 num ≤ num := mod_cast Nat.log2_self_le hnum.ne'
  have hnumHigh : (num : Rat) < 2 ^ (Nat.log2 num + 1) := mod_cast Nat.lt_log2_self
  have hdenLow : (2 : Rat) ^ Nat.log2 den ≤ den := mod_cast Nat.log2_self_le hden.ne'
  have hdenHigh : (den : Rat) < 2 ^ (Nat.log2 den + 1) := mod_cast Nat.lt_log2_self
  have hpos : (0 : Rat) < 2 ^ Nat.log2 den := by positivity
  rw [zpow_add_one₀ two_ne_zero, zpow_sub₀ two_ne_zero, zpow_natCast, zpow_natCast]
  constructor
  . rw [← mul_div_assoc, div_lt_div_iff₀ hpos hdenQ]
    calc
      (2 : Rat) ^ Nat.log2 num * den < 2 ^ Nat.log2 num * 2 ^ (Nat.log2 den + 1) := by gcongr
      _ = 2 * 2 ^ Nat.log2 num * 2 ^ Nat.log2 den := by ring
      _ ≤ 2 * num * 2 ^ Nat.log2 den := by gcongr
  . rw [div_mul_eq_mul_div, div_lt_div_iff₀ hdenQ hpos]
    calc
      (num : Rat) * 2 ^ Nat.log2 den < 2 ^ (Nat.log2 num + 1) * 2 ^ Nat.log2 den := by gcongr
      _ = 2 ^ Nat.log2 num * 2 * 2 ^ Nat.log2 den := by ring
      _ ≤ 2 ^ Nat.log2 num * 2 * den := by gcongr

theorem two_pow_toNat (e : Int) : (2 : Rat) ^ e.toNat / 2 ^ (-e).toNat = 2 ^ e := by
  obtain he | he := le_total 0 e
  . rw [Int.toNat_eq_zero.mpr (by omega : -e ≤ 0), pow_zero, div_one, ← zpow_natCast, Int.toNat_of_nonneg he]
  . rw [Int.toNat_eq_zero.mpr he, pow_zero, ← zpow_natCast, Int.toNat_of_nonneg (by omega), zpow_neg,
      one_div, inv_inv]

theorem mul_lt_mul_iff_ratio {num den : Nat} (hden : 0 < den) (e : Int)
    : num * 2 ^ (-e).toNat < den * 2 ^ e.toNat ↔ (num : Rat) / den < 2 ^ e := by
  have hdenQ : (0 : Rat) < den := Nat.cast_pos.mpr hden
  rw [← two_pow_toNat, div_lt_div_iff₀ hdenQ (by positivity), mul_comm (_ ^ _), ← Nat.cast_lt (α := Rat)]
  push_cast
  rfl

theorem exponentFor_spec {num den : Nat} (hden : 0 < den) (hle : den ≤ num)
    : (2 : Rat) ^ (exponentFor num den + 53) ≤ 2 * (num / den)
      ∧ (num : Rat) / den < 2 ^ (exponentFor num den + 53) := by
  obtain ⟨hlow, hhigh⟩ := log2_bounds (hden.trans_le hle) hden
  have hlog : Nat.log2 den ≤ Nat.log2 num :=
    (Nat.le_log2 (hden.trans_le hle).ne').mpr ((Nat.log2_self_le hden.ne').trans hle)
  obtain ⟨e, he⟩ : ∃ e : Int, (Nat.log2 num : Int) - Nat.log2 den = e + 53 := ⟨_, (sub_add_cancel _ _).symm⟩
  rw [he] at hlow hhigh
  unfold exponentFor
  dsimp only
  rw [max_eq_right (by omega), he, add_sub_cancel_right]
  simp only [mul_lt_mul_iff_ratio hden]
  split
  . rename_i hlt
    exact ⟨hlow.le, hlt⟩
  . rename_i hge
    rw [add_right_comm, zpow_add_one₀ two_ne_zero, mul_comm]
    rw [zpow_add_one₀ two_ne_zero, mul_comm] at hhigh
    exact ⟨mul_le_mul_of_nonneg_left (not_lt.mp hge) zero_le_two, hhigh⟩

theorem value_finite (mant : Nat) (e : Int) : value (.finite false mant e) = mant * 2 ^ e := by
  simp only [value, Rat.mkRat_eq_div]
  push_cast
  rw [one_mul, mul_div_assoc, two_pow_toNat]

theorem ofRatio_rounded {num den : Nat} (hden : 0 < den) (hle : den ≤ num)
    (hlt : (num : Rat) / den < 2 ^ (1000 : Int))
    : ∃ mant e, ofRatio false num den = some (.finite false mant e)
        ∧ Rounded 53 ((num : Rat) / den) (value (.finite false mant e)) := by
  obtain ⟨hlow, hhigh⟩ := exponentFor_spec hden hle
  have hmax : exponentFor num den < 970 := by
    by_contra hge
    have hpow : (2 : Rat) ^ ((1000 : Int) + 1) ≤ 2 ^ (exponentFor num den + 53) :=
      zpow_le_zpow_right₀ one_le_two (by omega)
    rw [zpow_add_one₀ two_ne_zero] at hpow
    generalize (2 : Rat) ^ (1000 : Int) = bound at hlt hpow
    linarith
  unfold ofRatio
  rw [if_neg (hden.trans_le hle).ne']
  dsimp only
  generalize exponentFor num den = e at hlow hhigh hmax ⊢
  have hhalf := halfEven_roundHalfEven (num * 2 ^ (-e).toNat) (by positivity : 0 < den * 2 ^ e.toNat)
  have hscale : ((num * 2 ^ (-e).toNat : Nat) : Rat) / (den * 2 ^ e.toNat : Nat) = num / den / 2 ^ e := by
    rw [← two_pow_toNat e]
    push_cast
    field_simp
  rw [hscale] at hhalf
  generalize roundHalfEven (num * 2 ^ (-e).toNat) (den * 2 ^ e.toNat) = r at hhalf ⊢
  have hrounded : Rounded 53 ((num : Rat) / den) (r * 2 ^ e) := ⟨e, hlow, hhigh, r, hhalf, rfl⟩
  split
  . rename_i hr
    refine ⟨2 ^ 52, e + 1, if_neg (by dsimp only; omega), ?_⟩
    have hcarry : value (.finite false (2 ^ 52) (e + 1)) = r * 2 ^ e := by
      rw [value_finite, hr, zpow_add_one₀ two_ne_zero]
      push_cast
      ring
    rwa [hcarry]
  . refine ⟨r, e, if_neg (by dsimp only; omega), ?_⟩
    rwa [value_finite]

theorem ofRat_rounded (neg : Bool) {q : Rat} (hone : 1 ≤ q) (hlt : q < 2 ^ (1000 : Int))
    : ∃ mant e, ofRat neg q = .finite false mant e ∧ Rounded 53 q (value (.finite false mant e)) := by
  have hpos : 0 < q := zero_lt_one.trans_le hone
  have hnum : ((q.num.natAbs : Nat) : Rat) = q.num := by
    rw [Nat.cast_natAbs, abs_of_pos (Rat.num_pos.mpr hpos)]
  have hq : (q.num.natAbs : Rat) / q.den = q := by
    rw [hnum, Rat.num_div_den]
  have hle : q.den ≤ q.num.natAbs := by
    rw [← Nat.cast_le (α := Rat), ← one_le_div (Nat.cast_pos.mpr q.den_pos), hq]
    exact hone
  obtain ⟨mant, e, hsome, hrounded⟩ := ofRatio_rounded q.den_pos hle (by rwa [hq])
  rw [hq] at hrounded
  refine ⟨mant, e, ?_, hrounded⟩
  unfold ofRat
  rw [if_neg hpos.ne', decide_eq_false hpos.not_gt, hsome]
  rfl

theorem lt_bound {q : Rat} (h : q < 2 ^ 53) : q < 2 ^ (1000 : Int) := by
  have hpow : (2 : Rat) ^ (53 : Int) ≤ 2 ^ (1000 : Int) := zpow_le_zpow_right₀ one_le_two (by decide)
  exact h.trans_le hpow

theorem value_zero (s : Bool) (e : Int) : value (.finite s 0 e) = 0 := by
  simp [value]

theorem ofInt_nat {n : Nat} (hn : n < 2 ^ 53)
    : ∃ mant e, ofInt n = .finite false mant e ∧ value (.finite false mant e) = n := by
  obtain rfl | hpos := Nat.eq_zero_or_pos n
  . exact ⟨0, -1074, rfl, by rw [value_zero, Nat.cast_zero]⟩
  . have hlt : (n : Rat) < 2 ^ 53 := mod_cast hn
    obtain ⟨mant, e, hof, hrounded⟩ :=
      ofRat_rounded false (Nat.one_le_cast.mpr hpos) (lt_bound hlt)
    exact ⟨mant, e, hof, hrounded.eq_nat hlt⟩

theorem value_neg (x : Float64) : value (neg x) = -value x := by
  cases x with
  | finite s mant e =>
    cases s <;> simp [neg, value, Rat.mkRat_eq_div, neg_div]
  | inf s => simp [neg, value]
  | nan => simp [neg, value]

theorem ofRatio_true (num den : Nat) : ofRatio true num den = (ofRatio false num den).map neg := by
  unfold ofRatio
  split
  . rfl
  . dsimp only
    split
    all_goals
      split
      . rfl
      . rfl

theorem ofInt_neg {n : Nat} (hn : 0 < n) : ofInt (-n) = neg (ofInt n) := by
  have hnQ : (0 : Rat) < n := Nat.cast_pos.mpr hn
  unfold ofInt ofRat
  push_cast
  rw [if_neg (neg_ne_zero.mpr hnQ.ne'), if_neg hnQ.ne', decide_eq_true (neg_lt_zero.mpr hnQ),
    decide_eq_false hnQ.not_gt, Rat.neg_num, Rat.neg_den, Int.natAbs_neg, ofRatio_true]
  cases ofRatio false (n : Rat).num.natAbs (n : Rat).den with
  | none => rfl
  | some x => rfl

theorem exists_ofInt {n : Int} (hn : n.natAbs < 2 ^ 53)
    : ∃ s mant e, ofInt n = .finite s mant e ∧ value (.finite s mant e) = n := by
  obtain ⟨mant, e, hof, hvalue⟩ := ofInt_nat hn
  obtain hnonneg | hneg := le_or_gt 0 n
  . rw [Int.natAbs_of_nonneg hnonneg] at hof
    refine ⟨false, mant, e, hof, ?_⟩
    rw [hvalue, Nat.cast_natAbs, abs_of_nonneg hnonneg]
  . have hn' : n = -(n.natAbs : Int) := by omega
    refine ⟨true, mant, e, ?_, ?_⟩
    . rw [hn', ofInt_neg (Int.natAbs_pos.mpr hneg.ne), hof]
      rfl
    . have hvalue' := value_neg (.finite false mant e)
      rw [hvalue] at hvalue'
      rw [hn', Int.cast_neg, Int.cast_natCast]
      exact hvalue'

theorem eq_ofInt {a b : Int} (ha : a.natAbs < 2 ^ 53) (hb : b.natAbs < 2 ^ 53)
    : eq (ofInt a) (ofInt b) = decide (a = b) := by
  obtain ⟨s, m, e, hof, hvalue⟩ := exists_ofInt ha
  obtain ⟨s', m', e', hof', hvalue'⟩ := exists_ofInt hb
  rw [hof, hof']
  unfold eq
  dsimp only
  rw [hvalue, hvalue', decide_eq_decide]
  exact Int.cast_inj

theorem div_ofInt {m n : Nat} (hn : 0 < n) (hle : n ≤ m) (hm : m < 2 ^ 53)
    : ∃ mant e, div (ofInt m) (ofInt n) = .finite false mant e
        ∧ Rounded 53 ((m : Rat) / n) (value (.finite false mant e)) := by
  have hnQ : (0 : Rat) < n := Nat.cast_pos.mpr hn
  have hlt : (m : Rat) / n < 2 ^ 53 := by
    have hle : (m : Rat) / n ≤ m := div_le_self (Nat.cast_nonneg m) (Nat.one_le_cast.mpr hn)
    exact hle.trans_lt (mod_cast hm)
  have hone : 1 ≤ (m : Rat) / n := (one_le_div hnQ).mpr (Nat.cast_le.mpr hle)
  obtain ⟨m₁, e₁, hm₁, hv₁⟩ := ofInt_nat hm
  obtain ⟨m₂, e₂, hm₂, hv₂⟩ := ofInt_nat (hle.trans_lt hm)
  have hne : m₂ ≠ 0 := by
    rintro rfl
    rw [value_zero] at hv₂
    exact hnQ.ne hv₂
  rw [hm₁, hm₂]
  unfold div
  dsimp only
  rw [if_neg hne, hv₁, hv₂]
  exact ofRat_rounded _ hone (lt_bound hlt)

theorem ofInt_mul {n mant : Nat} {e : Int} (hn : 0 < n) (hone : 1 ≤ value (.finite false mant e))
    (hlt : n * value (.finite false mant e) < 2 ^ 53)
    : ∃ mant' e', mul (ofInt n) (.finite false mant e) = .finite false mant' e'
        ∧ Rounded 53 (n * value (.finite false mant e)) (value (.finite false mant' e')) := by
  have hnQ : (1 : Rat) ≤ n := Nat.one_le_cast.mpr hn
  have hprod : n ≤ n * value (.finite false mant e) := le_mul_of_one_le_right (by positivity) hone
  obtain ⟨m₁, e₁, hm₁, hv₁⟩ := ofInt_nat (n := n) (mod_cast hprod.trans_lt hlt)
  rw [hm₁]
  unfold mul
  dsimp only
  rw [hv₁]
  exact ofRat_rounded _ (hnQ.trans hprod) (lt_bound hlt)

theorem ofInt_zero_mul (mant : Nat) (e : Int)
    : mul (ofInt 0) (.finite false mant e) = .finite false 0 (-1074) := by
  have hzero : ofInt 0 = .finite false 0 (-1074) := rfl
  rw [hzero]
  unfold mul
  dsimp only
  rw [value_zero, zero_mul]
  rfl

theorem toInt_eq_floor {mant : Nat} {e : Int} (hlt : value (.finite false mant e) < 2 ^ 53)
    : toInt (.finite false mant e) = ⌊value (.finite false mant e)⌋ := by
  have hnonneg : 0 ≤ value (.finite false mant e) := by
    rw [value_finite]
    positivity
  unfold toInt
  dsimp only
  generalize value (.finite false mant e) = q at hlt hnonneg ⊢
  rw [Int.tdiv_eq_ediv_of_nonneg (Rat.num_nonneg.mpr hnonneg), ← Rat.floor_def']
  have hlow : 0 ≤ ⌊q⌋ := Int.floor_nonneg.mpr hnonneg
  have hhigh : ⌊q⌋ < 2 ^ 53 := Int.floor_lt.mpr (mod_cast hlt)
  exact if_pos ⟨by omega, by omega⟩

end Rounding

end Float64
end Api
