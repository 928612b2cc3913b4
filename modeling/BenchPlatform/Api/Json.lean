import BenchPlatform.Api.Errors

/-!
This module contains JSON values and how `encoding/json` decodes them into Go values: with unknown
fields disallowed, with `null` leaving what is there, and with keys that may differ in case.
-/

namespace Api

/--
A JSON value. Numbers are kept as their literals.
-/
inductive Json where
  | null
  | bool (b : Bool)
  | num (literal : String)
  | str (s : String)
  | arr (elems : List Json)
  | obj (members : List (String × Json))

namespace Json

/--
How an `UnmarshalTypeError` calls a value.
-/
def kind : Json → String
  | .null => "null"
  | .bool _ => "bool"
  | .num literal => "number " ++ literal
  | .str _ => "string"
  | .arr _ => "array"
  | .obj _ => "object"

def mismatch {α : Type} (v : Json) (type : String) : Except GoError α :=
  .error (.unmarshalType v.kind type)

def decodeString (v : Json) (old : String) : Except GoError String :=
  match v with
  | .null => .ok old
  | .str s => .ok s
  | v => v.mismatch "string"

/--
An `int` or `int64`: the literal must be an integer.
-/
def decodeInt (type : String) (v : Json) (old : Int) : Except GoError Int :=
  match v with
  | .null => .ok old
  | .num literal =>
    match parseInt64 literal with
    | some n => .ok n
    | none => v.mismatch type
  | v => v.mismatch type

def decodeFloat (v : Json) (old : Float64) : Except GoError Float64 :=
  match v with
  | .null => .ok old
  | .num literal =>
    match Float64.parse literal with
    | some f => .ok f
    | none => v.mismatch "float64"
  | v => v.mismatch "float64"

/--
A `json.RawMessage` takes every value, also `null`.
-/
def decodeRaw (v : Json) (_ : Option Json) : Except GoError (Option Json) :=
  .ok (some v)

def decodeElems {α : Type} (decode : Json → α → Except GoError α) (zero : α)
    : List Json → List α → Except GoError (List α)
  | [], _ => .ok []
  | v :: vs, old => do
    let a ← decode v (old.headD zero)
    let as ← decodeElems decode zero vs old.tail
    return a :: as

/--
A slice. `none` is nil.
-/
def decodeSlice {α : Type} (type : String) (decode : Json → α → Except GoError α) (zero : α)
    (v : Json) (old : Option (List α)) : Except GoError (Option (List α)) :=
  match v with
  | .null => .ok none
  | .arr elems => some <$> decodeElems decode zero elems (old.getD [])
  | v => v.mismatch type

/--
A field of a struct: its key and how a value is decoded into it.
-/
structure Field (σ : Type) where
  name : String
  decode : Json → σ → Except GoError σ

/--
The field with this key that is read with `get` and written with `put`.
-/
def field {σ α : Type} (name : String) (get : σ → α) (put : σ → α → σ)
    (decode : Json → α → Except GoError α) : Field σ where
  name := name
  decode v s := put s <$> decode v (get s)

/--
The character that stands for all those equal to it up to case, for the characters of field names:
the long s and the Kelvin sign are letters, too.
-/
def foldChar (c : Char) : Char :=
  if c = '\u017F' then 'S' else if c = '\u212A' then 'K' else c.toUpper

def foldName (name : String) : List Char :=
  name.toList.map foldChar

def lookup {σ : Type} (fields : List (Field σ)) (key : String) : Option (Field σ) :=
  (fields.find? (·.name = key)).or (fields.find? (foldName ·.name = foldName key))

def decodeMember {σ : Type} (fields : List (Field σ)) (s : σ) (member : String × Json)
    : Except GoError σ :=
  match lookup fields member.1 with
  | some f => (f.decode member.2 s).mapError (.inField f.name)
  | none => .error (.new [.text "json: unknown field ", .quoted member.1])

theorem decodeMember_eq {σ : Type} {fields : List (Field σ)} {s : σ} {member : String × Json} {f : Field σ}
    (h : lookup fields member.1 = some f)
    : decodeMember fields s member = (f.decode member.2 s).mapError (.inField f.name) := by
  unfold decodeMember
  rw [h]

/--
A struct of the package `model`.
-/
def decodeStruct {σ : Type} (name : String) (fields : List (Field σ)) (v : Json) (s : σ)
    : Except GoError σ :=
  match v with
  | .null => .ok s
  | .obj members => (members.foldlM (decodeMember fields) s).mapError (.inStruct name)
  | v => v.mismatch ("model." ++ name)

end Json
end Api
