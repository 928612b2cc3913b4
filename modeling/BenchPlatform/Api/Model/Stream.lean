import BenchPlatform.Api.Model.Basic
import BenchPlatform.Lib.Program

/-!
This module contains the streaming decoder of run envelopes. A request body is what the JSON decoder
finds in it as it reads on: complete values as far as they go, and where it gets stuck.
-/

namespace Api
namespace Model

/--
What `Decoder.Token` returns at the begin of a value.
-/
inductive Token where
  | delim (c : Char)
  | str (s : String)
  | num (literal : String)
  | bool (b : Bool)
  | null
  deriving DecidableEq

def firstToken : Json → Token
  | .null => .null
  | .bool b => .bool b
  | .num literal => .num literal
  | .str s => .str s
  | .arr _ => .delim '['
  | .obj _ => .delim '\x7b'

/--
How `%v` formats a token. A number is converted first, which fails when it is out of range.
-/
def Token.format : Token → Except GoError Message
  | .delim c => .ok [.text (String.ofList [c])]
  | .str s => .ok [.text s]
  | .num literal =>
    match Float64.parse literal with
    | some f => .ok [.float f]
    | none => .error (.unmarshalType ("number " ++ literal) "float64")
  | .bool b => .ok [.text (if b then "true" else "false")]
  | .null => .ok [.text "<nil>"]

/--
Why a body cannot be read on: it is not JSON, it ends too early, or the connection fails.
-/
inductive ReadError where
  | syntaxError (msg : String)
  | eof
  | unexpectedEOF
  | io (msg : String)
  deriving DecidableEq

def ReadError.toGoError : ReadError → GoError
  | .syntaxError msg => .syntaxError msg
  | .eof => .eof
  | .unexpectedEOF => .unexpectedEOF
  | .io msg => .new [.text msg]

/--
A value that is not complete: nothing of it can be read, or it is an object, or an array whose first
elements are complete. `atElem` says whether `Decoder.More` announces one more element.
-/
inductive Broken where
  | value (err : ReadError)
  | object (err : ReadError)
  | array (elems : List Json) (atElem : Bool) (err : ReadError)

/--
What follows the members of the outermost object that are complete.
-/
inductive Ending where
  /-- The closing brace. What comes after it is never read. -/
  | closed
  | key (err : ReadError)
  | value (key : String) (at' : Broken)

inductive Body where
  | unreadable (err : ReadError)
  | other (tok : Token)
  | object (members : List (String × Json)) (ending : Ending)

def runEnvelope : Message := [.text "run envelope"]

section

variable {σ : Type}

abbrev ResultFunc (σ : Type) : Type :=
  RunEnvelope → Nat → Result → EStateM GoError σ Unit

def liftResult {α : Type} : Except GoError α → EStateM GoError σ α
  | .ok a => pure a
  | .error err => throw err

theorem liftResult_eq_ok {α : Type} {x : Except GoError α} {s s' : σ} {a : α}
    : liftResult x s = .ok a s' ↔ x = .ok a ∧ s' = s := by
  cases x with
  | error err => simp [liftResult]
  | ok b => simp [liftResult, eq_comm]

def wrapError {α : Type} (msg : Message) (x : EStateM GoError σ α) : EStateM GoError σ α :=
  x.adaptExcept (.wrap msg)

theorem wrapError_eq_ok {α : Type} {msg : Message} {x : EStateM GoError σ α} {s s' : σ} {a : α}
    : wrapError msg x s = .ok a s' ↔ x s = .ok a s' :=
  Program.adaptExcept_eq_ok

def headerDone (env : RunEnvelope) : Prop :=
  env.runID ≠ "" ∧ env.machine.id ≠ ""

instance (env : RunEnvelope) : Decidable (headerDone env) :=
  inferInstanceAs (Decidable (_ ∧ _))

def checkMax (maxResults : Int) (i : Nat) : EStateM GoError σ Unit :=
  if 0 < maxResults ∧ maxResults ≤ i then throw (.tooManyResults maxResults) else pure ()

def elemPath (i : Nat) : Message :=
  [.text "results[", .int i, .text "]"]

def readResult (v : Json) (i : Nat) : EStateM GoError σ Result := do
  let res ← wrapError (elemPath i) (liftResult (Result.decode v .zero))
  let p := res.validate i []
  if p = [] then
    return res
  else
    throw (.validation p)

/--
The loop over the elements of the results: how many there are so far, and those that came too early
to be handed over.
-/
def streamElems (env : RunEnvelope) (maxResults : Int) (fn : ResultFunc σ)
    : List Json → Nat → List Result → EStateM GoError σ (Nat × List Result)
  | [], i, buffered => pure (i, buffered)
  | v :: vs, i, buffered => do
    checkMax maxResults i
    let res ← readResult v i
    if headerDone env then
      fn env i res
      streamElems env maxResults fn vs (i + 1) buffered
    else
      streamElems env maxResults fn vs (i + 1) (buffered ++ [res])

def wantArray {α : Type} (tok : Token) : EStateM GoError σ α := do
  let got ← liftResult tok.format
  throw (.new (.text "want an array, got " :: got))

def streamResults (env : RunEnvelope) (maxResults : Int) (fn : ResultFunc σ) (v : Json)
    : EStateM GoError σ (Nat × List Result) :=
  match v with
  | .arr elems => streamElems env maxResults fn elems 0 []
  | v => wantArray (firstToken v)

/--
The results of a body that breaks off inside them. It never returns.
-/
def streamBroken (env : RunEnvelope) (maxResults : Int) (fn : ResultFunc σ) (at' : Broken)
    : EStateM GoError σ Unit :=
  match at' with
  | .value err => throw err.toGoError
  | .object _ => wantArray (.delim '\x7b')
  | .array elems atElem err => do
    let (i, _) ← streamElems env maxResults fn elems 0 []
    if atElem then
      checkMax maxResults i
      throw (.wrap (elemPath i) err.toGoError)
    else
      throw err.toGoError

/--
What the loop over the members carries: the envelope, the number of results and those not yet handed
over.
-/
structure Scan where
  env : RunEnvelope
  count : Nat
  buffered : List Result

def unknownField {α : Type} (key : String) : EStateM GoError σ α :=
  throw (.new (runEnvelope ++ [.text ": unknown field ", .quoted key]))

def streamMember (maxResults : Int) (fn : ResultFunc σ) (s : Scan) (member : String × Json)
    : EStateM GoError σ Scan :=
  let (key, v) := member
  if key = "results" then do
    let (count, buffered) ← wrapError [.text key] (streamResults s.env maxResults fn v)
    return { s with count := count, buffered := buffered }
  else
    match RunEnvelope.headerFields.find? (·.name = key) with
    | some f => do
      let env ← wrapError [.text key] (liftResult (f.decode v s.env))
      return { s with env := env }
    | none => unknownField key

def streamMembers (maxResults : Int) (fn : ResultFunc σ)
    : List (String × Json) → Scan → EStateM GoError σ Scan
  | [], s => pure s
  | member :: members, s => do
    let s ← streamMember maxResults fn s member
    streamMembers maxResults fn members s

def streamEnding (maxResults : Int) (fn : ResultFunc σ) (s : Scan) : Ending → EStateM GoError σ Unit
  | .closed => pure ()
  | .key err => throw (.wrap runEnvelope err.toGoError)
  | .value key at' =>
    if key = "results" then
      wrapError [.text key] (streamBroken s.env maxResults fn at')
    else
      match RunEnvelope.headerFields.find? (·.name = key), at' with
      | some _, .value err | some _, .object err | some _, .array _ _ err =>
        throw (.wrap [.text key] err.toGoError)
      | none, _ => unknownField key

def replay (env : RunEnvelope) (fn : ResultFunc σ) : List Result → Nat → EStateM GoError σ Unit
  | [], _ => pure ()
  | r :: rs, i => do
    fn env i r
    replay env fn rs (i + 1)

def StreamRunEnvelope (body : Body) (maxResults : Int) (fn : ResultFunc σ)
    : EStateM GoError σ RunEnvelope :=
  match body with
  | .unreadable err => throw (.wrap runEnvelope err.toGoError)
  | .other tok => do
    let got ← wrapError runEnvelope (liftResult tok.format)
    throw (.new (runEnvelope ++ .text ": want a JSON object, got " :: got))
  | .object members ending => do
    let s ← streamMembers maxResults fn members { env := .zero, count := 0, buffered := [] }
    streamEnding maxResults fn s ending
    replay s.env fn s.buffered 0
    liftResult (s.env.validateHeader s.count)
    return s.env

end

end Model
end Api
