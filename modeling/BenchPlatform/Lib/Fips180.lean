import Mathlib.Analysis.SpecialFunctions.Pow.Real
import Mathlib.Data.Nat.Nth
import Mathlib.Data.Nat.Prime.Nth
import Mathlib.Order.Bounds.Basic

/-!
This module contains SHA-256 as it is defined in FIPS 180-4, on messages of bits, and what an implementation on
bytes needs of it: numbers as strings of bits, the padding, and the constants, which are fractions of roots of
primes.
-/

namespace Fips180

abbrev Bits := List Bool

abbrev Word := BitVec 32

/--
The last `len` bits of a number, the most significant one first.
-/
def bits_of (n : Nat) : Nat → Bits
  | 0 => []
  | len + 1 => n.testBit len :: bits_of n len

def nat_of : Bits → Nat
  | [] => 0
  | b :: bits => b.toNat * 2 ^ bits.length + nat_of bits

def bits_of_bytes (bytes : List UInt8) : Bits :=
  bytes.flatMap fun b => bits_of b.toNat 8

def word_of (bits : Bits) : Word :=
  BitVec.ofNat 32 (nat_of bits)

def zeros (len : Nat) : Nat :=
  (959 - len % 512) % 512

def pad (message : Bits) : Bits :=
  message ++ [true] ++ List.replicate (zeros message.length) false ++ bits_of message.length 64

def parts (size : Nat) (bits : Bits) : List Bits :=
  (List.range (bits.length / size)).map fun i => (bits.drop (size * i)).take size

/--
The first 32 bits of the fractional part of a root of the prime number at this place.
-/
noncomputable def fraction (root place : Nat) : Word :=
  BitVec.ofNat 32 ⌊Int.fract ((Nat.nth Nat.Prime place : ℝ) ^ (1 / root : ℝ)) * 2 ^ 32⌋₊

noncomputable def K (t : Nat) : Word :=
  fraction 3 t

def Ch (x y z : Word) : Word :=
  (x &&& y) ^^^ (~~~x &&& z)

def Maj (x y z : Word) : Word :=
  (x &&& y) ^^^ (x &&& z) ^^^ (y &&& z)

def bigSigma0 (x : Word) : Word :=
  x.rotateRight 2 ^^^ x.rotateRight 13 ^^^ x.rotateRight 22

def bigSigma1 (x : Word) : Word :=
  x.rotateRight 6 ^^^ x.rotateRight 11 ^^^ x.rotateRight 25

def sigma0 (x : Word) : Word :=
  x.rotateRight 7 ^^^ x.rotateRight 18 ^^^ (x >>> 3)

def sigma1 (x : Word) : Word :=
  x.rotateRight 17 ^^^ x.rotateRight 19 ^^^ (x >>> 10)

def W (block : Bits) (t : Nat) : Word :=
  if t < 16 then word_of ((block.drop (32 * t)).take 32)
  else sigma1 (W block (t - 2)) + W block (t - 7) + sigma0 (W block (t - 15)) + W block (t - 16)

@[ext]
structure State where
  a : Word
  b : Word
  c : Word
  d : Word
  e : Word
  f : Word
  g : Word
  h : Word

namespace State

protected def add (x y : State) : State where
  a := x.a + y.a
  b := x.b + y.b
  c := x.c + y.c
  d := x.d + y.d
  e := x.e + y.e
  f := x.f + y.f
  g := x.g + y.g
  h := x.h + y.h

def bits (x : State) : Bits :=
  [x.a, x.b, x.c, x.d, x.e, x.f, x.g, x.h].flatMap fun word => bits_of word.toNat 32

end State

def round (k w : Word) (x : State) : State :=
  let T1 := x.h + bigSigma1 x.e + Ch x.e x.f x.g + k + w
  let T2 := bigSigma0 x.a + Maj x.a x.b x.c
  { a := T1 + T2, b := x.a, c := x.b, d := x.c, e := x.d + T1, f := x.e, g := x.f, h := x.g }

noncomputable def rounds (block : Bits) (x : State) : Nat → State
  | 0 => x
  | t + 1 => round (K t) (W block t) (rounds block x t)

noncomputable def compress (x : State) (block : Bits) : State :=
  (rounds block x 64).add x

noncomputable def initial : State where
  a := fraction 2 0
  b := fraction 2 1
  c := fraction 2 2
  d := fraction 2 3
  e := fraction 2 4
  f := fraction 2 5
  g := fraction 2 6
  h := fraction 2 7

noncomputable def sha256 (message : Bits) : Bits :=
  ((parts 512 (pad message)).foldl compress initial).bits

def hex (bits : Bits) : List Char :=
  (parts 4 bits).map fun digit => (nat_of digit).digitChar

theorem isLeast_zeros (len : Nat) : IsLeast {k | (len + 1 + k) % 512 = 448} (zeros len) := by
  unfold zeros
  refine ⟨?_, fun k (hk : (len + 1 + k) % 512 = 448) => ?_⟩
  . change (len + 1 + (959 - len % 512) % 512) % 512 = 448
    omega
  . omega

section Bits

variable {len n : Nat} {bits : Bits}

@[simp]
theorem bits_of_length (n len : Nat) : (bits_of n len).length = len := by
  induction len with
  | zero => rfl
  | succ len ih => rw [bits_of, List.length_cons, ih]

theorem bits_of_add (n high low : Nat) : bits_of n (high + low) = bits_of (n >>> low) high ++ bits_of n low := by
  induction high with
  | zero => rw [Nat.zero_add, bits_of, List.nil_append]
  | succ high ih =>
    rw [Nat.succ_add, bits_of, bits_of, ih, Nat.testBit_shiftRight, Nat.add_comm low high, List.cons_append]

theorem bits_of_congr {m : Nat} (h : ∀ i < len, n.testBit i = m.testBit i) : bits_of n len = bits_of m len := by
  induction len with
  | zero => rfl
  | succ len ih => rw [bits_of, bits_of, h len (Nat.lt_succ_self _), ih fun i hi => h i (Nat.lt_succ_of_lt hi)]

theorem bits_of_mod (n len : Nat) : bits_of (n % 2 ^ len) len = bits_of n len := by
  apply bits_of_congr
  intro i hi
  rw [Nat.testBit_mod_two_pow, decide_eq_true hi, Bool.true_and]

theorem nat_of_bits_of (n len : Nat) : nat_of (bits_of n len) = n % 2 ^ len := by
  induction len with
  | zero => rw [bits_of, nat_of, Nat.pow_zero, Nat.mod_one]
  | succ len ih =>
    rw [bits_of, nat_of, bits_of_length, ih, Nat.toNat_testBit, Nat.mod_pow_succ, Nat.add_comm, Nat.mul_comm]

theorem nat_of_append (xs ys : Bits) : nat_of (xs ++ ys) = nat_of xs * 2 ^ ys.length + nat_of ys := by
  induction xs with
  | nil => rw [List.nil_append, nat_of, Nat.zero_mul, Nat.zero_add]
  | cons x xs ih =>
    rw [List.cons_append, nat_of, nat_of, ih, List.length_append, Nat.pow_add, Nat.add_mul, Nat.mul_assoc,
      Nat.add_assoc]

end Bits

section Bytes

variable {bytes : List UInt8}

theorem bits_of_bytes_cons (b : UInt8) (bytes : List UInt8)
    : bits_of_bytes (b :: bytes) = bits_of b.toNat 8 ++ bits_of_bytes bytes :=
  List.flatMap_cons

theorem bits_of_bytes_append (xs ys : List UInt8)
    : bits_of_bytes (xs ++ ys) = bits_of_bytes xs ++ bits_of_bytes ys :=
  List.flatMap_append

@[simp]
theorem bits_of_bytes_length (bytes : List UInt8) : (bits_of_bytes bytes).length = 8 * bytes.length := by
  induction bytes with
  | nil => rfl
  | cons b bytes ih =>
    rw [bits_of_bytes_cons, List.length_append, bits_of_length, ih, List.length_cons, Nat.mul_succ, Nat.add_comm]

theorem bits_of_bytes_drop (bytes : List UInt8) (i : Nat)
    : bits_of_bytes (bytes.drop i) = (bits_of_bytes bytes).drop (8 * i) := by
  induction i generalizing bytes with
  | zero => rfl
  | succ i ih =>
    cases bytes with
    | nil => exact List.drop_nil.symm
    | cons b bytes =>
      rw [List.drop_succ_cons, ih, bits_of_bytes_cons, Nat.mul_succ, Nat.add_comm, ← List.drop_drop,
        List.drop_left' (bits_of_length _ _)]

theorem bits_of_bytes_take (bytes : List UInt8) (i : Nat)
    : bits_of_bytes (bytes.take i) = (bits_of_bytes bytes).take (8 * i) := by
  induction i generalizing bytes with
  | zero => rfl
  | succ i ih =>
    cases bytes with
    | nil => exact List.take_nil.symm
    | cons b bytes =>
      have hbyte : (bits_of b.toNat 8 ++ bits_of_bytes bytes).take ((bits_of b.toNat 8).length + 8 * i)
          = bits_of b.toNat 8 ++ (bits_of_bytes bytes).take (8 * i) := List.take_length_add_append _
      rw [bits_of_length] at hbyte
      rw [List.take_succ_cons, bits_of_bytes_cons, bits_of_bytes_cons, ih, Nat.mul_succ, Nat.add_comm, hbyte]

theorem bits_of_bytes_zeros (n : Nat) : bits_of_bytes (List.replicate n 0) = List.replicate (8 * n) false := by
  induction n with
  | zero => rfl
  | succ n ih =>
    rw [List.replicate_succ, bits_of_bytes_cons, ih, Nat.mul_succ, Nat.add_comm, List.replicate_add]
    rfl

theorem bits_of_bytes_of_nat (n count : Nat)
    : bits_of_bytes ((List.range count).map fun i => UInt8.ofNat (n >>> (8 * (count - 1 - i))))
      = bits_of n (8 * count) := by
  induction count generalizing n with
  | zero => rfl
  | succ count ih =>
    have hlast : bits_of_bytes [UInt8.ofNat n] = bits_of n 8 := by
      rw [bits_of_bytes_cons, UInt8.toNat_ofNat', bits_of_mod]
      rfl
    rw [List.range_succ, List.map_append, bits_of_bytes_append, List.map_singleton, Nat.mul_succ, bits_of_add,
      ← ih (n >>> 8)]
    congr 1
    . congr 1
      apply List.map_congr_left
      intro i hi
      have hi := List.mem_range.mp hi
      rw [← Nat.shiftRight_add]
      congr 2
      omega
    . rw [Nat.add_sub_cancel, Nat.sub_self]
      exact hlast

end Bytes

section Parts

variable {size : Nat} {bits : Bits}

theorem parts_of_lt (h : bits.length < size) : parts size bits = [] := by
  unfold parts
  rw [Nat.div_eq_of_lt h]
  rfl

theorem parts_cons (hsize : 0 < size) (h : size ≤ bits.length)
    : parts size bits = bits.take size :: parts size (bits.drop size) := by
  unfold parts
  rw [Nat.div_eq_sub_div hsize h, List.range_succ_eq_map, List.map_cons, List.map_map, List.length_drop, Nat.mul_zero,
    List.drop_zero]
  congr 1
  apply List.map_congr_left
  intro i _
  rw [Function.comp_apply, List.drop_drop, Nat.mul_succ, Nat.add_comm]

theorem parts_append (hsize : 0 < size) {xs : Bits} (h : xs.length = size)
    : parts size (xs ++ bits) = xs :: parts size bits := by
  rw [parts_cons hsize (by rw [List.length_append]; omega), List.take_left' h, List.drop_left' h]

end Parts

section Padding

theorem pad_bytes {bytes : List UInt8} {more : Nat} (hmore : more < 64) (hblock : (bytes.length + 1 + more) % 64 = 56)
    : pad (bits_of_bytes bytes)
      = bits_of_bytes (bytes ++ [(0x80 : UInt8)] ++ List.replicate more (0 : UInt8)
          ++ (List.range 8).map fun i => UInt8.ofNat ((8 * bytes.length) >>> (8 * (8 - 1 - i)))) := by
  have hzeros : zeros (8 * bytes.length) = 7 + 8 * more := by
    unfold zeros
    omega
  have hone : bits_of_bytes [(0x80 : UInt8)] = [true] ++ List.replicate 7 false := by decide
  unfold pad
  rw [bits_of_bytes_length, hzeros, List.replicate_add, bits_of_bytes_append, bits_of_bytes_append,
    bits_of_bytes_append, bits_of_bytes_zeros, bits_of_bytes_of_nat, hone]
  simp only [List.append_assoc]

theorem pad_length_dvd (message : Bits) : 512 ∣ (pad message).length := by
  have hzeros := (isLeast_zeros message.length).1
  change (message.length + 1 + zeros message.length) % 512 = 448 at hzeros
  unfold pad
  rw [List.length_append, List.length_append, List.length_append, bits_of_length, List.length_replicate,
    List.length_singleton]
  omega

end Padding

section Digits

theorem hex_bytes (bytes : List UInt8)
    : hex (bits_of_bytes bytes) = bytes.flatMap fun b => [(b.toNat / 16).digitChar, (b.toNat % 16).digitChar] := by
  induction bytes with
  | nil => rfl
  | cons b bytes ih =>
    have hlow : b.toNat % 16 % 2 ^ 4 = b.toNat % 16 := Nat.mod_mod _ _
    have hhigh : (b.toNat >>> 4) % 2 ^ 4 = b.toNat / 16 := by
      have hlt := b.toNat_lt
      rw [Nat.shiftRight_eq_div_pow]
      omega
    unfold hex at ih ⊢
    rw [bits_of_bytes_cons, bits_of_add _ 4 4, List.append_assoc, parts_append (by decide) (bits_of_length _ _),
      parts_append (by decide) (bits_of_length _ _), List.map_cons, List.map_cons, ih, nat_of_bits_of, nat_of_bits_of,
      hhigh, List.flatMap_cons]
    rfl

theorem nat_of_four (b0 b1 b2 b3 : UInt8)
    : nat_of (bits_of_bytes [b0, b1, b2, b3])
      = b0.toNat * 2 ^ 24 + (b1.toNat * 2 ^ 16 + (b2.toNat * 2 ^ 8 + b3.toNat)) := by
  have hbyte : ∀ b : UInt8, nat_of (bits_of b.toNat 8) = b.toNat := by
    intro b
    rw [nat_of_bits_of]
    exact Nat.mod_eq_of_lt b.toNat_lt
  have hnil : bits_of_bytes [] = [] := rfl
  simp only [bits_of_bytes_cons, hnil, nat_of_append, hbyte, List.length_append, bits_of_length, List.length_nil,
    nat_of]
  omega

end Digits

section Constants

def isPrime (n : Nat) : Bool :=
  2 ≤ n && (List.range n).all fun m => m < 2 || n % m ≠ 0

def primes (n : Nat) : List Nat :=
  (List.range n).filter isPrime

/--
The part behind the point of the root of a number, in units of the last of 32 bits.
-/
def IsFraction (root n part : Nat) : Prop :=
  part < 2 ^ 32 ∧ ∃ whole < n, (whole * 2 ^ 32 + part) ^ root ≤ n * (2 ^ 32) ^ root
    ∧ n * (2 ^ 32) ^ root < (whole * 2 ^ 32 + part + 1) ^ root

instance (root n part : Nat) : Decidable (IsFraction root n part) :=
  inferInstanceAs (Decidable (_ ∧ _))

theorem fraction_eq {root place n part : Nat} (hroot : root ≠ 0) (hprime : Nat.nth Nat.Prime place = n)
    (h : IsFraction root n part)
    : fraction root place = BitVec.ofNat 32 part := by
  obtain ⟨hpart, whole, -, hlo, hhi⟩ := h
  have hnonneg : (0 : ℝ) ≤ (n : ℝ) ^ (1 / root : ℝ) := by positivity
  have hpow : ((n : ℝ) ^ (1 / root : ℝ)) ^ root = n := by
    rw [one_div]
    exact Real.rpow_inv_natCast_pow (Nat.cast_nonneg _) hroot
  unfold fraction
  rw [hprime]
  generalize (n : ℝ) ^ (1 / root : ℝ) = x at hnonneg hpow
  have hlo : (whole * 2 ^ 32 + part : ℝ) ≤ x * 2 ^ 32 := by
    apply le_of_pow_le_pow_left₀ hroot (by positivity)
    rw [mul_pow, hpow]
    exact_mod_cast hlo
  have hhi : x * 2 ^ 32 < whole * 2 ^ 32 + part + 1 := by
    apply lt_of_pow_lt_pow_left₀ root (by positivity)
    rw [mul_pow, hpow]
    exact_mod_cast hhi
  have hpart : (part : ℝ) + 1 ≤ 2 ^ 32 := by exact_mod_cast hpart
  have hfloor : ⌊x⌋ = whole := by
    rw [Int.floor_eq_iff]
    push_cast
    constructor
    . nlinarith
    . nlinarith
  congr 1
  rw [Nat.floor_eq_iff (by have := Int.fract_nonneg x; positivity), Int.fract, hfloor]
  push_cast
  constructor
  . linarith
  . linarith

theorem isPrime_iff (n : Nat) : isPrime n = true ↔ n.Prime := by
  rw [Nat.prime_def_lt', isPrime, Bool.and_eq_true, decide_eq_true_eq, List.all_eq_true]
  refine and_congr_right fun _ => forall_congr' fun m => ?_
  rw [List.mem_range, Bool.or_eq_true, decide_eq_true_eq, decide_eq_true_eq, Nat.dvd_iff_mod_eq_zero]
  grind

theorem primes_succ (n : Nat) : primes (n + 1) = primes n ++ [n].filter isPrime := by
  unfold primes
  rw [List.range_succ, List.filter_append]

theorem primes_length (n : Nat) : (primes n).length = Nat.count Nat.Prime n := by
  induction n with
  | zero => rfl
  | succ n ih =>
    rw [primes_succ, List.length_append, ih, Nat.count_succ]
    by_cases hprime : n.Prime
    . rw [if_pos hprime, List.filter_singleton, (isPrime_iff n).mpr hprime]
      rfl
    . rw [if_neg hprime, List.filter_singleton, eq_false_of_ne_true ((isPrime_iff n).not.mpr hprime)]
      rfl

theorem nth_prime {n place q : Nat} (h : (primes n)[place]? = some q) : Nat.nth Nat.Prime place = q := by
  induction n with
  | zero => cases h
  | succ n ih =>
    rw [primes_succ] at h
    by_cases hlt : place < (primes n).length
    . rw [List.getElem?_append_left hlt] at h
      exact ih h
    . rw [List.getElem?_append_right (Nat.le_of_not_lt hlt)] at h
      by_cases hprime : isPrime n
      . rw [List.filter_singleton, hprime, cond_true, List.getElem?_singleton] at h
        split at h
        . rename_i hlast
          have hplace : place = Nat.count Nat.Prime n := by
            rw [← primes_length]
            exact Nat.le_antisymm (Nat.le_of_sub_eq_zero hlast) (Nat.le_of_not_lt hlt)
          rw [hplace, Nat.nth_count ((isPrime_iff n).mp hprime)]
          exact Option.some.inj h
        . cases h
      . rw [List.filter_singleton, eq_false_of_ne_true hprime, cond_false, List.getElem?_nil] at h
        cases h

theorem fraction_of_table {root n place : Nat} {table : List Nat} (hroot : root ≠ 0)
    (h : List.Forall₂ (IsFraction root) (primes n) table) (hplace : place < table.length)
    : fraction root place = BitVec.ofNat 32 table[place] := by
  obtain ⟨hlength, hall⟩ := List.forall₂_iff_get.mp h
  have hprimes : place < (primes n).length := hlength ▸ hplace
  exact fraction_eq hroot (nth_prime (List.getElem?_eq_getElem hprimes)) (hall place hprimes hplace)

end Constants

end Fips180
