import Mathlib.Data.List.Basic
import Mathlib.Algebra.Ring.Nat

/-!
This module contains numbers that are written with a fixed number of digits: the most significant digit comes
first, and zeros are put before a number that is too short.
-/

namespace Digits

variable {b w v n m : Nat}

/--
The last `w` digits of `n` in base `b`.
-/
def fixed (b : Nat) : Nat → Nat → List Nat
  | 0, _ => []
  | w + 1, n => fixed b w (n / b) ++ [n % b]

def value (b : Nat) (digits : List Nat) : Nat :=
  digits.foldl (fun n d => n * b + d) 0

/--
`n` with at least `w` digits.
-/
def padded (b w n : Nat) : List Char :=
  (Nat.toDigits b n).leftpad w '0'

@[simp]
theorem length_fixed : (fixed b w n).length = w := by
  induction w generalizing n with
  | zero => rfl
  | succ w ih => rw [fixed, List.length_append, ih, List.length_singleton]

theorem lt_of_mem_fixed (hb : 0 < b) {d : Nat} (h : d ∈ fixed b w n) : d < b := by
  induction w generalizing n with
  | zero => cases h
  | succ w ih =>
    obtain h | h := List.mem_append.mp h
    . exact ih h
    . rw [List.mem_singleton.mp h]
      exact Nat.mod_lt n hb

theorem value_append {digits : List Nat} {d : Nat} : value b (digits ++ [d]) = value b digits * b + d := by
  unfold value
  rw [List.foldl_append]
  rfl

theorem value_fixed : value b (fixed b w n) = n % b ^ w := by
  induction w generalizing n with
  | zero => rw [Nat.pow_zero, Nat.mod_one]; rfl
  | succ w ih =>
    rw [fixed, value_append, ih, Nat.pow_succ, Nat.mul_comm (b ^ w), Nat.mod_mul, Nat.mul_comm, Nat.add_comm]

theorem value_fixed_of_lt (h : n < b ^ w) : value b (fixed b w n) = n := by
  rw [value_fixed, Nat.mod_eq_of_lt h]

theorem fixed_inj (hn : n < b ^ w) (hm : m < b ^ w) : fixed b w n = fixed b w m ↔ n = m := by
  constructor
  . intro h
    rw [← value_fixed_of_lt hn, ← value_fixed_of_lt hm, h]
  . exact congrArg _

theorem fixed_mod : fixed b w (n % b ^ w) = fixed b w n := by
  induction w generalizing n with
  | zero => rfl
  | succ w ih =>
    have hlast : n % b ^ (w + 1) % b = n % b := by
      rw [Nat.pow_succ]
      exact Nat.mod_mul_left_mod n (b ^ w) b
    rw [fixed, fixed, hlast, Nat.pow_succ, Nat.mod_mul_left_div_self, ih]

theorem fixed_append (w v n : Nat) : fixed b w (n / b ^ v) ++ fixed b v n = fixed b (w + v) n := by
  induction v generalizing n with
  | zero => rw [Nat.pow_zero, Nat.div_one, fixed, List.append_nil, Nat.add_zero]
  | succ v ih =>
    rw [fixed, ← List.append_assoc, Nat.pow_succ, Nat.mul_comm, ← Nat.div_div_eq_div_mul, ih]
    rfl

theorem getElem?_fixed {i : Nat} (hi : i < w) : (fixed b w n)[i]? = some (n / b ^ (w - 1 - i) % b) := by
  induction w generalizing n with
  | zero => exact absurd hi (Nat.not_lt_zero i)
  | succ w ih =>
    rw [fixed, List.getElem?_append, length_fixed]
    split
    . rename_i hlt
      have hexp : w + 1 - 1 - i = (w - 1 - i) + 1 := by omega
      rw [ih hlt, Nat.div_div_eq_div_mul, hexp, Nat.pow_succ, Nat.mul_comm]
    . have hlast : i = w := by omega
      rw [hlast, Nat.sub_self, Nat.add_sub_cancel, Nat.sub_self, Nat.pow_zero, Nat.div_one]
      rfl

theorem leftpad_append {l : List Char} {c d : Char} {w : Nat}
    : (l ++ [c]).leftpad (w + 1) d = l.leftpad w d ++ [c] := by
  unfold List.leftpad
  rw [List.length_append, List.length_singleton, Nat.add_sub_add_right, List.append_assoc]

theorem padded_eq (hb : 1 < b) (h : n < b ^ (w + 1))
    : padded b (w + 1) n = (fixed b (w + 1) n).map Nat.digitChar := by
  unfold padded
  induction w generalizing n with
  | zero =>
    rw [Nat.zero_add, Nat.pow_one] at h
    rw [Nat.toDigits_of_lt_base h, fixed, Nat.mod_eq_of_lt h]
    rfl
  | succ w ih =>
    have hquotient : n / b < b ^ (w + 1) := by
      apply Nat.div_lt_of_lt_mul
      rwa [Nat.mul_comm, ← Nat.pow_succ]
    rw [fixed, List.map_append, List.map_singleton, ← ih hquotient]
    by_cases hlt : n < b
    . have hzeros : ['0'].leftpad (w + 1) '0' = List.replicate (w + 1) '0' := List.replicate_succ'.symm
      rw [Nat.div_eq_of_lt hlt, Nat.mod_eq_of_lt hlt, Nat.toDigits_of_lt_base hlt,
        Nat.toDigits_of_lt_base (by omega : 0 < b)]
      change _ = ['0'].leftpad (w + 1) '0' ++ _
      rw [hzeros]
      rfl
    . rw [Nat.toDigits_of_base_le hb (by omega), leftpad_append]

end Digits
