import BenchPlatform.Api.Float
import BenchPlatform.Lib.Program
import Mathlib.Algebra.Order.Floor.Ring

/-!
This module contains the downsampling of a series to its first point, its last point, and the point of
each bucket in between that spans the largest triangle. The points come out in their order.
-/

namespace Api
namespace Lttb

open Float64

structure Point where
  x : Float64
  y : Float64
  deriving DecidableEq

def triangleArea (a b c : Point) : Float64 :=
  let area :=
    sub (mul (sub a.x c.x) (sub b.y a.y)) (mul (sub a.x b.x) (sub c.y a.y))
  if lt area (ofInt 0) then neg area else area

def cell (every : Float64) (i : Nat) : Int :=
  toInt (mul (ofInt i) every) + 1

/--
What a loop reads that goes from one index up to another one. An index out of range panics.
-/
def slice (data : List Point) (start stop : Int) : Option (List Point) :=
  if start < stop then
    if 0 ≤ start ∧ stop ≤ data.length then
      some ((data.take stop.toNat).drop start.toNat)
    else
      none
  else
    some []

def average (last : Point) (next : List Point) : Point :=
  if next = [] then
    last
  else
    let avgX := next.foldl (fun sum p => add sum p.x) (ofInt 0)
    let avgY := next.foldl (fun sum p => add sum p.y) (ofInt 0)
    { x := div avgX (ofInt next.length), y := div avgY (ofInt next.length) }

def largest (a avg : Point) : List Point → Int → Int → Float64 → Int
  | [], _, best, _ => best
  | p :: ps, j, best, bestArea =>
    let area := triangleArea a p avg
    if lt bestArea area then
      largest a avg ps (j + 1) j area
    else
      largest a avg ps (j + 1) best bestArea

def bucket (data : List Point) (every : Float64) (i : Nat) (a : Point) : Option Int := do
  let next ← slice data (cell every (i + 1)) (min (cell every (i + 2)) data.length)
  let last ← data.getLast?
  let start := cell every i
  let inside ← slice data start (min (cell every (i + 1)) (data.length - 1))
  return largest a (average last next) inside start start (ofInt (-1))

def index (j : Int) : Option Nat :=
  if 0 ≤ j then some j.toNat else none

/--
The indices that are selected from the buckets that are left, after the point `a`.
-/
def buckets (data : List Point) (every : Float64) : Nat → Nat → Point → Option (List Nat)
  | 0, _, _ => some []
  | left + 1, i, a => do
    let best ← bucket data every i a
    let j ← index best
    let p ← data[j]?
    let rest ← buckets data every left (i + 1) p
    return j :: rest

def selected (data : List Point) (threshold : Int) : Option (List Nat) := do
  let first ← data.head?
  let every := div (ofInt (data.length - 2)) (ofInt (threshold - 2))
  let inner ← buckets data every (threshold - 2).toNat 0 first
  return 0 :: (inner ++ [data.length - 1])

/--
Reduces data to at most threshold points. `none` is a panic.
-/
def Downsample (data : List Point) (threshold : Int) : Option (List Point) :=
  if threshold ≥ data.length ∨ threshold < 3 then
    some data
  else do
    let indices ← selected data threshold
    indices.mapM (data[·]?)

section Cells

open Rounding

variable {N T : Nat}

theorem exists_length (hT : 0 < T) (hle : T ≤ N) (hN : N < 2 ^ 48)
    : ∃ v : Rat, 1 ≤ v ∧ T * v * 2 ^ 53 ≤ N * (2 ^ 53 + 1)
        ∧ cell (div (ofInt N) (ofInt T)) 0 = 1
        ∧ ∀ i : Nat, 0 < i → i ≤ T →
            ∃ s : Rat, Rounded 53 (i * v) s ∧ cell (div (ofInt N) (ofInt T)) i = ⌊s⌋ + 1 := by
  have hTQ : (0 : Rat) < T := Nat.cast_pos.mpr hT
  have hNQ : (N : Rat) < 2 ^ 48 := mod_cast hN
  obtain ⟨mant, e, hdiv, hv⟩ := div_ofInt hT hle (hN.trans (by decide))
  have hratio : (N : Rat) / T < 2 ^ 53 := by
    have hself : (N : Rat) / T ≤ N := div_le_self (Nat.cast_nonneg N) (Nat.one_le_cast.mpr hT)
    linarith
  have hone : 1 ≤ value (.finite false mant e) := by
    have h := hv.nat_le (k := 1) (by
      rw [Nat.cast_one]
      exact (one_le_div hTQ).mpr (Nat.cast_le.mpr hle)) hratio
    rwa [Nat.cast_one] at h
  have hmul : T * value (.finite false mant e) * 2 ^ 53 ≤ N * (2 ^ 53 + 1) := by
    have h := mul_le_mul_of_nonneg_left hv.mul_le hTQ.le
    rw [← mul_assoc, ← mul_assoc, mul_div_cancel₀ _ hTQ.ne'] at h
    exact h
  rw [hdiv]
  refine ⟨_, hone, hmul, ?_, ?_⟩
  . unfold cell
    have hlt : value (.finite false 0 (-1074)) < 2 ^ 53 := by
      rw [value_zero]
      exact pow_pos two_pos 53
    rw [Nat.cast_zero, ofInt_zero_mul, toInt_eq_floor hlt, value_zero, Int.floor_zero, zero_add]
  . intro i hi hiT
    have hiv : i * value (.finite false mant e) ≤ T * value (.finite false mant e) :=
      mul_le_mul_of_nonneg_right (Nat.cast_le.mpr hiT) (zero_le_one.trans hone)
    obtain ⟨mant', e', hmul', hs⟩ := ofInt_mul hi hone (by linarith)
    refine ⟨_, hs, ?_⟩
    unfold cell
    rw [hmul', toInt_eq_floor]
    have h := hs.mul_le
    linarith

theorem cell_lt_succ (hle : T ≤ N) (hN : N < 2 ^ 48) {i : Nat} (hi : i < T)
    : cell (div (ofInt N) (ofInt T)) i < cell (div (ofInt N) (ofInt T)) (i + 1) := by
  have hNQ : (N : Rat) < 2 ^ 48 := mod_cast hN
  obtain ⟨v, hone, hmul, hzero, hcell⟩ := exists_length (by omega : 0 < T) hle hN
  obtain ⟨s', hs', hcell'⟩ := hcell (i + 1) (Nat.succ_pos i) hi
  have hq' : ((i + 1 : Nat) : Rat) * v ≤ T * v :=
    mul_le_mul_of_nonneg_right (Nat.cast_le.mpr hi) (zero_le_one.trans hone)
  obtain rfl | hpos := Nat.eq_zero_or_pos i
  . have hle := hs'.nat_le (k := 1) (by
      rw [Nat.zero_add, Nat.cast_one, one_mul]
      exact hone) (by linarith)
    rw [hzero, hcell']
    have hfloor : (1 : Int) ≤ ⌊s'⌋ := Int.le_floor.mpr (mod_cast hle)
    omega
  . obtain ⟨s, hs, hcelli⟩ := hcell i hpos hi.le
    have hqq : (i : Rat) * v + 1 ≤ ((i + 1 : Nat) : Rat) * v := by
      push_cast
      linarith
    have hs0 : 0 ≤ s := by
      have h := hs.nat_le (k := 0) (by
        rw [Nat.cast_zero]
        positivity) (by linarith)
      rwa [Nat.cast_zero] at h
    obtain ⟨k, hk⟩ := Int.eq_ofNat_of_zero_le (Int.floor_nonneg.mpr hs0)
    have hks : (k : Rat) ≤ s := by
      have h := Int.floor_le s
      rwa [hk] at h
    have hklt : k < 2 ^ 50 := by
      have h : (k : Rat) < 2 ^ 50 := by
        have h := hs.mul_le
        linarith
      exact_mod_cast h
    have hle := hs.succ_le hs' hqq hks (by omega) (by linarith)
    rw [hcelli, hcell', hk]
    have hfloor : ((k + 1 : Nat) : Int) ≤ ⌊s'⌋ := Int.le_floor.mpr (mod_cast hle)
    omega

theorem cell_le (hT : 0 < T) (hle : T ≤ N) (hN : N < 2 ^ 48)
    : cell (div (ofInt N) (ofInt T)) T ≤ N + 1 := by
  have hNQ : (N : Rat) < 2 ^ 48 := mod_cast hN
  obtain ⟨v, hone, hmul, -, hcell⟩ := exists_length hT hle hN
  obtain ⟨s, hs, hcellT⟩ := hcell T hT le_rfl
  have hlt : s < ((N + 1 : Int) : Rat) := by
    have h := hs.mul_le
    push_cast
    linarith
  rw [hcellT]
  have hfloor := Int.floor_lt.mpr hlt
  omega

end Cells

section Selected

variable {data : List Point} {every : Float64} {start stop : Int}

theorem exists_slice (data : List Point) (start stop : Int) (hstart : 0 ≤ start)
    (hstop : stop ≤ data.length)
    : ∃ l, slice data start stop = some l ∧ (l.length : Int) = max 0 (stop - start) := by
  unfold slice
  split
  . rw [if_pos ⟨hstart, hstop⟩]
    refine ⟨_, rfl, ?_⟩
    rw [List.length_drop, List.length_take]
    omega
  . exact ⟨[], rfl, by rw [List.length_nil]; omega⟩

theorem largest_bounds (a avg : Point) (ps : List Point) (j best : Int) (bestArea : Float64)
    (hlow : start ≤ best) (hhigh : best < stop) (hj : start ≤ j) (hps : j + ps.length ≤ stop)
    : start ≤ largest a avg ps j best bestArea ∧ largest a avg ps j best bestArea < stop := by
  induction ps generalizing j best bestArea with
  | nil => exact ⟨hlow, hhigh⟩
  | cons p ps ih =>
    rw [List.length_cons] at hps
    unfold largest
    dsimp only
    split
    . exact ih (j + 1) j _ hj (by omega) (by omega) (by omega)
    . exact ih (j + 1) best _ hlow hhigh (by omega) (by omega)

/--
The starts of the buckets, as they are when there are fewer buckets than points in between.
-/
structure Cells (data : List Point) (every : Float64) (T : Nat) : Prop where
  zero : cell every 0 = 1
  lt_succ : ∀ i < T, cell every i < cell every (i + 1)
  le_last : cell every T ≤ data.length - 1

variable {T i : Nat}

theorem Cells.one_le (h : Cells data every T) (hi : i ≤ T) : 1 ≤ cell every i := by
  induction i with
  | zero => exact h.zero.ge
  | succ i ih =>
    have hlt := h.lt_succ i hi
    have hle := ih (Nat.le_of_succ_le hi)
    omega

theorem Cells.le_cell (h : Cells data every T) (hi : i ≤ T) : cell every i ≤ cell every T := by
  induction hi using Nat.decreasingInduction with
  | self => exact le_rfl
  | of_succ i hi ih =>
    have hlt := h.lt_succ i hi
    omega

theorem exists_bucket (h : Cells data every T) (hi : i < T) (a : Point)
    : ∃ best, bucket data every i a = some best ∧ cell every i ≤ best ∧ best < cell every (i + 1) := by
  have hlow := h.one_le hi.le
  have hlt := h.lt_succ i hi
  have hhigh := (h.le_cell (by omega : i + 1 ≤ T)).trans h.le_last
  obtain ⟨next, hnext, -⟩ := exists_slice data (cell every (i + 1))
    (min (cell every (i + 2)) data.length) (by omega) (by omega)
  obtain ⟨inside, hinside, hlen⟩ := exists_slice data (cell every i)
    (min (cell every (i + 1)) (data.length - 1)) (by omega) (by omega)
  have hne : data ≠ [] := List.ne_nil_of_length_pos (by omega)
  refine ⟨_, Option.bind_eq_some_iff.mpr ⟨next, hnext, Option.bind_eq_some_iff.mpr
    ⟨_, List.getLast?_eq_some_getLast hne, Option.bind_eq_some_iff.mpr ⟨inside, hinside, rfl⟩⟩⟩, ?_⟩
  exact largest_bounds _ _ inside _ _ _ le_rfl hlt le_rfl (by omega)

theorem exists_buckets (h : Cells data every T) (left : Nat) (hi : i + left = T) (a : Point)
    : ∃ idx, buckets data every left i a = some idx ∧ idx.length = left ∧ idx.Pairwise (· < ·)
        ∧ ∀ j ∈ idx, cell every i ≤ j ∧ (j : Int) < cell every T := by
  induction left generalizing i a with
  | zero => exact ⟨[], rfl, rfl, List.Pairwise.nil, nofun⟩
  | succ left ih =>
    obtain ⟨best, hbest, hge, hlt⟩ := exists_bucket h (by omega : i < T) a
    have hlow := h.one_le (by omega : i ≤ T)
    have hhigh := (h.le_cell (by omega : i + 1 ≤ T)).trans h.le_last
    obtain ⟨j, rfl⟩ := Int.eq_ofNat_of_zero_le (by omega : 0 ≤ best)
    have hj : j < data.length := by omega
    obtain ⟨rest, hrest, hlen, hpairwise, hmem⟩ := ih (i := i + 1) (by omega) data[j]
    refine ⟨j :: rest, ?_, ?_, ?_, ?_⟩
    . refine Option.bind_eq_some_iff.mpr ⟨_, hbest, Option.bind_eq_some_iff.mpr ⟨j, ?_,
        Option.bind_eq_some_iff.mpr ⟨_, List.getElem?_eq_getElem hj,
          Option.bind_eq_some_iff.mpr ⟨rest, hrest, rfl⟩⟩⟩⟩
      exact if_pos (Int.natCast_nonneg j)
    . rw [List.length_cons, hlen]
    . refine List.pairwise_cons.mpr ⟨fun k hk => ?_, hpairwise⟩
      have hk := (hmem k hk).1
      omega
    . intro k hk
      obtain rfl | hk := List.mem_cons.mp hk
      . have hlast := h.le_cell (by omega : i + 1 ≤ T)
        omega
      . have hk := hmem k hk
        omega

theorem exists_selected {threshold : Int} (hlow : 3 ≤ threshold) (hhigh : threshold < data.length)
    (hlen : data.length < 2 ^ 48)
    : ∃ inner : List Nat, selected data threshold = some (0 :: (inner ++ [data.length - 1]))
        ∧ (inner.length : Int) = threshold - 2
        ∧ (0 :: (inner ++ [data.length - 1])).Pairwise (· < ·) := by
  obtain ⟨T, hT⟩ := Int.eq_ofNat_of_zero_le (by omega : 0 ≤ threshold - 2)
  obtain ⟨N, hN⟩ : ∃ N, data.length = N + 2 := ⟨data.length - 2, by omega⟩
  have hcells : Cells data (div (ofInt N) (ofInt T)) T :=
    { zero := by
        obtain ⟨_, _, _, hzero, _⟩ := exists_length (by omega : 0 < T) (by omega : T ≤ N) (by omega)
        exact hzero
      lt_succ := fun i hi => cell_lt_succ (by omega) (by omega) hi
      le_last := by
        have hle := cell_le (by omega : 0 < T) (by omega : T ≤ N) (by omega)
        omega }
  have hne : data ≠ [] := List.ne_nil_of_length_pos (by omega)
  obtain ⟨inner, hinner, hcount, hpairwise, hmem⟩ :=
    exists_buckets hcells T (Nat.zero_add T) (data.head hne)
  refine ⟨inner, ?_, by omega, ?_⟩
  . refine Option.bind_eq_some_iff.mpr ⟨_, List.head?_eq_some_head hne,
      Option.bind_eq_some_iff.mpr ⟨inner, ?_, rfl⟩⟩
    rw [hT, hN, Int.toNat_natCast]
    have hsub : ((N + 2 : Nat) : Int) - 2 = N := by omega
    rw [hsub]
    exact hinner
  . have hbounds : ∀ j ∈ inner, 0 < j ∧ j < data.length - 1 := by
      intro j hj
      have h := hmem j hj
      have hzero := hcells.zero
      have hlast := hcells.le_last
      omega
    refine List.pairwise_cons.mpr ⟨fun j hj => ?_, List.pairwise_append.mpr
      ⟨hpairwise, List.pairwise_singleton _ _, fun j hj k hk => ?_⟩⟩
    . obtain hj | hj := List.mem_append.mp hj
      . exact (hbounds j hj).1
      . rw [List.mem_singleton.mp hj]
        omega
    . rw [List.mem_singleton.mp hk]
      exact (hbounds j hj).2

end Selected

end Lttb
end Api
