import Mathlib.Algebra.Order.Field.Basic
import Mathlib.Algebra.Order.Field.Power
import Mathlib.Algebra.Ring.Parity
import Mathlib.Tactic.FieldSimp
import Mathlib.Tactic.Linarith
import Mathlib.Tactic.NormNum
import Mathlib.Tactic.Positivity
import Mathlib.Tactic.Ring

/-!
This module contains the rounding of positive numbers to a number of binary digits, to nearest with ties to
even: how it acts on integers, how far it is off, and that it keeps a step of one.
-/

namespace Rounding

variable {K : Type*} [Field K] [LinearOrder K] [IsStrictOrderedRing K]

/--
A nearest integer. A tie goes up if the integer above is even.
-/
structure HalfEven (q : K) (r : Nat) : Prop where
  le_add : (r : K) ≤ q + 1 / 2
  sub_le : q ≤ r + 1 / 2
  even_le : ∀ m : Nat, Even m → (m : K) ≤ q + 1 / 2 → m ≤ r

theorem HalfEven.nat_le {q : K} {r m : Nat} (h : HalfEven q r) (hm : (m : K) ≤ q) : m ≤ r := by
  have hlt : (m : K) < (r + 1 : Nat) := by
    push_cast
    linarith [h.sub_le]
  exact Nat.lt_succ_iff.mp (Nat.cast_lt.mp hlt)

theorem HalfEven.le_nat {q : K} {r m : Nat} (h : HalfEven q r) (hm : q ≤ m) : r ≤ m := by
  have hlt : (r : K) < (m + 1 : Nat) := by
    push_cast
    linarith [h.le_add]
  exact Nat.lt_succ_iff.mp (Nat.cast_lt.mp hlt)

/--
The rounding of a number to `p` binary digits, of which the last is worth `2 ^ e`.
-/
structure RoundedAt (p : Nat) (e : Int) (q v : K) : Prop where
  low : 2 ^ (e + p) ≤ 2 * q
  high : q < 2 ^ (e + p)
  digits : ∃ r : Nat, HalfEven (q / 2 ^ e) r ∧ v = r * 2 ^ e

def Rounded (p : Nat) (q v : K) : Prop :=
  ∃ e, RoundedAt p e q v

variable {p k : Nat} {e e' : Int} {q q' v v' : K}

theorem two_zpow_pos (e : Int) : (0 : K) < 2 ^ e :=
  zpow_pos two_pos e

theorem exists_units (he : e ≤ 0) (k : Nat) : ∃ m : Nat, m = k * 2 ^ (-e).toNat ∧ (k : K) = m * 2 ^ e := by
  refine ⟨_, rfl, ?_⟩
  push_cast
  rw [mul_assoc, ← zpow_natCast, ← zpow_add₀ two_ne_zero, Int.toNat_of_nonneg (by omega), neg_add_cancel,
    zpow_zero, mul_one]

namespace RoundedAt

theorem exp_le (h : RoundedAt p e q v) (hq : q < 2 ^ p) : e ≤ 0 := by
  by_contra he
  have hpow : (2 : K) ^ ((p : Int) + 1) ≤ 2 ^ (e + p) := zpow_le_zpow_right₀ one_le_two (by omega)
  rw [zpow_add_one₀ two_ne_zero, zpow_natCast] at hpow
  linarith [h.low]

theorem nat_le (h : RoundedAt p e q v) (hk : (k : K) ≤ q) (hq : q < 2 ^ p) : (k : K) ≤ v := by
  obtain ⟨r, hr, rfl⟩ := h.digits
  obtain ⟨m, -, hm⟩ := exists_units (K := K) (h.exp_le hq) k
  rw [hm] at hk ⊢
  have hle : m ≤ r := hr.nat_le ((le_div_iff₀ (two_zpow_pos e)).mpr hk)
  exact mul_le_mul_of_nonneg_right (Nat.cast_le.mpr hle) (two_zpow_pos e).le

theorem le_nat (h : RoundedAt p e q v) (hk : q ≤ k) (hq : q < 2 ^ p) : v ≤ k := by
  obtain ⟨r, hr, rfl⟩ := h.digits
  obtain ⟨m, -, hm⟩ := exists_units (K := K) (h.exp_le hq) k
  rw [hm] at hk ⊢
  have hle : r ≤ m := hr.le_nat ((div_le_iff₀ (two_zpow_pos e)).mpr hk)
  exact mul_le_mul_of_nonneg_right (Nat.cast_le.mpr hle) (two_zpow_pos e).le

theorem le_add_half (h : RoundedAt p e q v) : v ≤ q + 2 ^ e / 2 := by
  obtain ⟨r, hr, rfl⟩ := h.digits
  have hpos := two_zpow_pos (K := K) e
  calc
    (r : K) * 2 ^ e ≤ (q / 2 ^ e + 1 / 2) * 2 ^ e := mul_le_mul_of_nonneg_right hr.le_add hpos.le
    _ = q + 2 ^ e / 2 := by field_simp

theorem sub_half_le (h : RoundedAt p e q v) : q - 2 ^ e / 2 ≤ v := by
  obtain ⟨r, hr, rfl⟩ := h.digits
  have hpos := two_zpow_pos (K := K) e
  have hle := (div_le_iff₀ hpos).mp hr.sub_le
  linarith

theorem le_mul (h : RoundedAt p e q v) : q * (2 ^ p - 1) ≤ v * 2 ^ p := by
  have hlow := h.low
  rw [zpow_add₀ two_ne_zero, zpow_natCast] at hlow
  have hle := mul_le_mul_of_nonneg_right h.sub_half_le (pow_nonneg zero_le_two p)
  linarith

theorem mul_le (h : RoundedAt p e q v) : v * 2 ^ p ≤ q * (2 ^ p + 1) := by
  have hlow := h.low
  rw [zpow_add₀ two_ne_zero, zpow_natCast] at hlow
  have hle := mul_le_mul_of_nonneg_right h.le_add_half (pow_nonneg zero_le_two p)
  linarith

theorem succ_le (h : RoundedAt p e q v) (h' : RoundedAt p e' q' v') (hqq : q + 1 ≤ q') (hk : (k : K) ≤ v)
    (hbound : 2 * (k + 1) ≤ 2 ^ p) (hq' : q' < 2 ^ p)
    : ((k + 1 : Nat) : K) ≤ v' := by
  by_cases hlt : ((k + 1 : Nat) : K) ≤ q'
  . exact h'.nat_le hlt hq'
  . -- the last digit of `q'` is worth at most a half, and the integer is an even multiple of it
    rw [not_le] at hlt
    have hneg : e' < 0 := by
      by_contra he
      have hpow : (2 : K) ^ (p : Int) ≤ 2 ^ (e' + p) := zpow_le_zpow_right₀ one_le_two (by omega)
      have hcast : ((2 * (k + 1) : Nat) : K) ≤ ((2 ^ p : Nat) : K) := Nat.cast_le.mpr hbound
      rw [zpow_natCast] at hpow
      push_cast at hcast hlt
      linarith [h'.low]
    have hexp : e ≤ e' := by
      by_contra he
      have hpow : (2 : K) ^ (e' + p + 1) ≤ 2 ^ (e + p) := zpow_le_zpow_right₀ one_le_two (by omega)
      rw [zpow_add_one₀ two_ne_zero] at hpow
      linarith [h.low, h'.high]
    have hulp : (2 : K) ^ e ≤ 2 ^ e' := zpow_le_zpow_right₀ one_le_two hexp
    have hq := h.le_add_half
    obtain ⟨r, hr, rfl⟩ := h'.digits
    obtain ⟨m, hmk, hm⟩ := exists_units (K := K) hneg.le (k + 1)
    have heven : Even m := by
      rw [hmk]
      exact (Nat.even_pow.mpr ⟨even_two, by omega⟩).mul_left _
    have hpos := two_zpow_pos (K := K) e'
    have hle : m ≤ r := by
      apply hr.even_le m heven
      rw [← mul_le_mul_iff_left₀ hpos, ← hm, add_mul, div_mul_cancel₀ _ hpos.ne']
      push_cast
      linarith
    rw [hm]
    exact mul_le_mul_of_nonneg_right (Nat.cast_le.mpr hle) hpos.le

end RoundedAt

namespace Rounded

theorem nat_le (h : Rounded p q v) (hk : (k : K) ≤ q) (hq : q < 2 ^ p) : (k : K) ≤ v := by
  obtain ⟨e, h⟩ := h
  exact h.nat_le hk hq

theorem eq_nat (h : Rounded p (k : K) v) (hk : (k : K) < 2 ^ p) : v = k := by
  obtain ⟨e, h⟩ := h
  exact le_antisymm (h.le_nat le_rfl hk) (h.nat_le le_rfl hk)

theorem le_nat (h : Rounded p q v) (hk : q ≤ k) (hq : q < 2 ^ p) : v ≤ k := by
  obtain ⟨e, h⟩ := h
  exact h.le_nat hk hq

theorem le_mul (h : Rounded p q v) : q * (2 ^ p - 1) ≤ v * 2 ^ p := by
  obtain ⟨e, h⟩ := h
  exact h.le_mul

theorem mul_le (h : Rounded p q v) : v * 2 ^ p ≤ q * (2 ^ p + 1) := by
  obtain ⟨e, h⟩ := h
  exact h.mul_le

theorem succ_le (h : Rounded p q v) (h' : Rounded p q' v') (hqq : q + 1 ≤ q') (hk : (k : K) ≤ v)
    (hbound : 2 * (k + 1) ≤ 2 ^ p) (hq' : q' < 2 ^ p)
    : ((k + 1 : Nat) : K) ≤ v' := by
  obtain ⟨e, h⟩ := h
  obtain ⟨e', h'⟩ := h'
  exact h.succ_le h' hqq hk hbound hq'

end Rounded

end Rounding
