import BenchPlatform.Api.Lttb

/-!
This module contains the downsampling over any arithmetic that has the operations of `float64`, and that over
`float64` itself it is the one that the server runs.
-/

namespace Api
namespace Lttb
namespace Over

class Scalar (A : Type) where
  add : A → A → A
  sub : A → A → A
  mul : A → A → A
  div : A → A → A
  neg : A → A
  lt : A → A → Bool
  ofInt : Int → A
  toInt : A → Int

instance : Scalar Float64 where
  add := Float64.add
  sub := Float64.sub
  mul := Float64.mul
  div := Float64.div
  neg := Float64.neg
  lt := Float64.lt
  ofInt := Float64.ofInt
  toInt := Float64.toInt

structure Point (A : Type) where
  x : A
  y : A
  deriving DecidableEq

section Algorithm

open Scalar

variable {A : Type} [Scalar A]

def triangleArea (a b c : Point A) : A :=
  let area := sub (mul (sub a.x c.x) (sub b.y a.y)) (mul (sub a.x b.x) (sub c.y a.y))
  if lt area (ofInt 0) then neg area else area

def cell (every : A) (i : Nat) : Int :=
  toInt (mul (ofInt i) every) + 1

omit [Scalar A] in
/--
What a loop reads that goes from one index up to another one. An index out of range panics.
-/
def slice (data : List (Point A)) (start stop : Int) : Option (List (Point A)) :=
  if start < stop then
    if 0 ≤ start ∧ stop ≤ data.length then
      some ((data.take stop.toNat).drop start.toNat)
    else
      none
  else
    some []

def average (last : Point A) (next : List (Point A)) : Point A :=
  if next.isEmpty then
    last
  else
    let avgX := next.foldl (fun sum p => add sum p.x) (ofInt 0)
    let avgY := next.foldl (fun sum p => add sum p.y) (ofInt 0)
    { x := div avgX (ofInt next.length), y := div avgY (ofInt next.length) }

def largest (a avg : Point A) : List (Point A) → Int → Int → A → Int
  | [], _, best, _ => best
  | p :: ps, j, best, bestArea =>
    let area := triangleArea a p avg
    if lt bestArea area then
      largest a avg ps (j + 1) j area
    else
      largest a avg ps (j + 1) best bestArea

def bucket (data : List (Point A)) (every : A) (i : Nat) (a : Point A) : Option Int := do
  let next ← slice data (cell every (i + 1)) (min (cell every (i + 2)) data.length)
  let last ← data.getLast?
  let start := cell every i
  let inside ← slice data start (min (cell every (i + 1)) (data.length - 1))
  return largest a (average last next) inside start start (ofInt (-1))

/--
The indices that are selected from the buckets that are left, after the point `a`.
-/
def buckets (data : List (Point A)) (every : A) : Nat → Nat → Point A → Option (List Nat)
  | 0, _, _ => some []
  | left + 1, i, a => do
    let best ← bucket data every i a
    let j ← index best
    let p ← data[j]?
    let rest ← buckets data every left (i + 1) p
    return j :: rest

def selected (data : List (Point A)) (threshold : Int) : Option (List Nat) := do
  let first ← data.head?
  let every : A := div (ofInt (data.length - 2)) (ofInt (threshold - 2))
  let inner ← buckets data every (threshold - 2).toNat 0 first
  return 0 :: (inner ++ [data.length - 1])

/--
Reduces data to at most threshold points. `none` is a panic.
-/
def Downsample (data : List (Point A)) (threshold : Int) : Option (List (Point A)) :=
  if threshold ≥ data.length ∨ threshold < 3 then
    some data
  else do
    let indices ← selected data threshold
    indices.mapM (data[·]?)

end Algorithm

section Float64

variable {data : List Lttb.Point}

def ofPoint (p : Lttb.Point) : Point Float64 where
  x := p.x
  y := p.y

theorem slice_map (start stop : Int)
    : slice (data.map ofPoint) start stop = (Lttb.slice data start stop).map (List.map ofPoint) := by
  unfold slice Lttb.slice
  rw [List.length_map]
  split
  . split
    . rw [Option.map_some, List.map_drop, List.map_take]
    . rfl
  . rfl

theorem average_map (last : Lttb.Point) (next : List Lttb.Point)
    : average (ofPoint last) (next.map ofPoint) = ofPoint (Lttb.average last next) := by
  unfold average Lttb.average
  cases next with
  | nil => rfl
  | cons p next =>
    rw [if_neg (by simp), if_neg (by simp), List.foldl_map, List.foldl_map, List.length_map]
    rfl

theorem largest_map (a avg : Lttb.Point) (ps : List Lttb.Point) (j best : Int) (bestArea : Float64)
    : largest (ofPoint a) (ofPoint avg) (ps.map ofPoint) j best bestArea
      = Lttb.largest a avg ps j best bestArea := by
  induction ps generalizing j best bestArea with
  | nil => rfl
  | cons p ps ih =>
    rw [List.map_cons, largest, Lttb.largest, ih, ih]
    rfl

theorem bucket_map (every : Float64) (i : Nat) (a : Lttb.Point)
    : bucket (data.map ofPoint) every i (ofPoint a) = Lttb.bucket data every i a := by
  unfold bucket Lttb.bucket
  dsimp only
  simp only [slice_map, List.getLast?_map, List.length_map]
  change ((Lttb.slice data (Lttb.cell every (i + 1)) (min (Lttb.cell every (i + 2)) data.length)).map _).bind _ = _
  cases Lttb.slice data (Lttb.cell every (i + 1)) (min (Lttb.cell every (i + 2)) data.length) with
  | none => rfl
  | some next =>
    cases data.getLast? with
    | none => rfl
    | some last =>
      change ((Lttb.slice data (Lttb.cell every i) (min (Lttb.cell every (i + 1)) (data.length - 1))).map _).bind _
        = _
      cases Lttb.slice data (Lttb.cell every i) (min (Lttb.cell every (i + 1)) (data.length - 1)) with
      | none => rfl
      | some inside =>
        change some (largest (ofPoint a) (average (ofPoint last) (next.map ofPoint)) (inside.map ofPoint) _ _ _) = _
        rw [average_map, largest_map]
        rfl

theorem buckets_map (every : Float64) (left i : Nat) (a : Lttb.Point)
    : buckets (data.map ofPoint) every left i (ofPoint a) = Lttb.buckets data every left i a := by
  induction left generalizing i a with
  | zero => rfl
  | succ left ih =>
    rw [buckets, Lttb.buckets, bucket_map]
    congr 1
    funext best
    congr 1
    funext j
    rw [List.getElem?_map]
    cases data[j]? with
    | none => rfl
    | some p =>
      change (buckets (data.map ofPoint) every left (i + 1) (ofPoint p)).bind _ = _
      rw [ih]
      rfl

theorem selected_map (threshold : Int)
    : selected (data.map ofPoint) threshold = Lttb.selected data threshold := by
  unfold selected Lttb.selected
  rw [List.head?_map, List.length_map]
  cases data.head? with
  | none => rfl
  | some first =>
    change (buckets (data.map ofPoint) _ _ 0 (ofPoint first)).bind _ = _
    rw [buckets_map]
    rfl

theorem downsample_float64 (data : List Lttb.Point) (threshold : Int)
    : Downsample (data.map ofPoint) threshold = (Lttb.Downsample data threshold).map (List.map ofPoint) := by
  unfold Downsample Lttb.Downsample
  rw [List.length_map]
  split
  . rfl
  . rw [selected_map]
    cases Lttb.selected data threshold with
    | none => rfl
    | some indices =>
      change indices.mapM ((data.map ofPoint)[·]?) = (indices.mapM (data[·]?)).map _
      induction indices with
      | nil => rfl
      | cons j indices ih =>
        rw [List.mapM_cons, List.mapM_cons, ih, List.getElem?_map]
        cases data[j]? with
        | none => rfl
        | some p =>
          cases indices.mapM (data[·]?) with
          | none => rfl
          | some out => rfl

end Float64

end Over
end Lttb
end Api
