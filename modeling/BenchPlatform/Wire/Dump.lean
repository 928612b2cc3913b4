import BenchPlatform.Api.Model.FieldOrder
import BenchPlatform.Engine.Codec
import BenchPlatform.Wire.Literal
import Mathlib.Data.List.Sort

/-!
This module contains the text that the engine makes of a document, as the decoder of the API finds it:
the keys of an object in their order, and `null` for what is no number.
-/

namespace Bench

open Api

/--
The keys of an object are those of a `std::map`.
-/
def sort_keys (members : List (String × Json)) : List (String × Json) :=
  members.insertionSort fun a b => a.1 ≤ b.1

def dump_double (format_double : Float64 → String) (x : Float64) : Json :=
  match x with
  | .finite _ _ _ => .num (format_double x)
  | _ => .null

section

variable (format_double : Float64 → String)

mutual

/--
`j.dump()`.
-/
def json.dump : json Float64 → Json
  | .null => .null
  | .boolean b => .bool b
  | .number_integer i => .num (literal i)
  | .number_unsigned n => .num (literal n)
  | .number_float x => dump_double format_double x
  | .string s => .str s
  | .array elems => .arr (dump_elems elems)
  | .object members => .obj (sort_keys (dump_members members))

def dump_elems : List (json Float64) → List Json
  | [] => []
  | v :: vs => v.dump :: dump_elems vs

def dump_members : List (String × json Float64) → List (String × Json)
  | [] => []
  | (key, v) :: members => (key, v.dump) :: dump_members members

end

theorem dump_elems_eq (vs : List (json Float64)) : dump_elems format_double vs = vs.map (json.dump format_double) := by
  induction vs with
  | nil => rfl
  | cons v vs ih => rw [dump_elems, ih, List.map_cons]

end

/--
What the library promises: a finite number is written with digits enough to be read back.
-/
def ReadsBack (format_double : Float64 → String) : Prop :=
  ∀ x, x.Finite → Float64.parse (format_double x) = some x

theorem readsBack_exactLiteral : ReadsBack Float64.exactLiteral :=
  fun _ => Float64.parse_exactLiteral

end Bench
