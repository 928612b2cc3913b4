import BenchPlatform.Api.Model.Stream

/-!
This module proves that the streaming decoder uses its callback for nothing but to hand over results:
whatever the callback does, the decoder hands over what it hands over to one that only keeps them.
-/

namespace Api
namespace Model

open Program

/--
A call of the `ResultFunc`.
-/
structure Delivery where
  env : RunEnvelope
  index : Nat
  result : Result

/--
The `ResultFunc` that does with a call what `fn` does with the delivery.
-/
def ofCallback {σ : Type} (fn : Callback GoError Delivery σ) : ResultFunc σ :=
  fun env i r => fn { env := env, index := i, result := r }

abbrev Hands (α : Type) : Type 1 :=
  Sender GoError Delivery α

def Delivers (body : Body) (maxResults : Int) (env : RunEnvelope) (log : List Delivery) : Prop :=
  StreamRunEnvelope body maxResults (ofCallback record) [] = .ok env log

section

variable {α : Type} {env : RunEnvelope} {maxResults : Int}

theorem sends_liftResult {x : Except GoError α}
    : Sends GoError.cause ((fun _ _ => liftResult x) : Hands α) := by
  cases x with
  | ok a => exact .pure
  | error err => exact .throw

theorem sends_checkMax {i : Nat}
    : Sends GoError.cause ((fun _ _ => checkMax maxResults i) : Hands Unit) :=
  .ite .throw .pure

theorem sends_readResult {v : Json} {i : Nat}
    : Sends GoError.cause ((fun _ _ => readResult v i) : Hands Result) :=
  .bind (.adaptExcept (fun _ => rfl) sends_liftResult) fun _ => .ite .pure .throw

theorem sends_streamElems {vs : List Json} {i : Nat} {buffered : List Result}
    : Sends GoError.cause fun _ fn => streamElems env maxResults (ofCallback fn) vs i buffered := by
  induction vs generalizing i buffered with
  | nil => exact .pure
  | cons v vs ih =>
    refine .bind sends_checkMax fun _ => .bind sends_readResult fun res => .ite ?_ ih
    exact .bind .call fun _ => ih

theorem sends_wantArray {tok : Token}
    : Sends GoError.cause ((fun _ _ => wantArray tok) : Hands α) :=
  .bind sends_liftResult fun _ => .throw

theorem sends_streamResults {v : Json}
    : Sends GoError.cause fun _ fn => streamResults env maxResults (ofCallback fn) v := by
  cases v with
  | arr elems => exact sends_streamElems
  | _ => exact sends_wantArray

theorem sends_streamBroken {at' : Broken}
    : Sends GoError.cause fun _ fn => streamBroken env maxResults (ofCallback fn) at' := by
  cases at' with
  | value err => exact .throw
  | object err => exact sends_wantArray
  | array elems atElem err =>
    refine .bind sends_streamElems fun found => .ite ?_ .throw
    exact .bind sends_checkMax fun _ => .throw

theorem sends_streamMember {s : Scan} {member : String × Json}
    : Sends GoError.cause fun _ fn => streamMember maxResults (ofCallback fn) s member := by
  obtain ⟨key, v⟩ := member
  refine .ite (.bind (.adaptExcept (fun _ => rfl) sends_streamResults) fun _ => .pure) ?_
  cases RunEnvelope.headerFields.find? (·.name = key) with
  | none => exact .throw
  | some f => exact .bind (.adaptExcept (fun _ => rfl) sends_liftResult) fun _ => .pure

theorem sends_streamMembers {s : Scan} {members : List (String × Json)}
    : Sends GoError.cause fun _ fn => streamMembers maxResults (ofCallback fn) members s := by
  induction members generalizing s with
  | nil => exact .pure
  | cons member members ih => exact .bind sends_streamMember fun _ => ih

theorem sends_streamEnding {s : Scan} {ending : Ending}
    : Sends GoError.cause fun _ fn => streamEnding maxResults (ofCallback fn) s ending := by
  cases ending with
  | closed => exact .pure
  | key err => exact .throw
  | value key at' =>
    refine .ite (.adaptExcept (fun _ => rfl) sends_streamBroken) ?_
    cases RunEnvelope.headerFields.find? (·.name = key) with
    | none => exact .throw
    | some f => cases at' <;> exact .throw

theorem sends_replay {rs : List Result} {i : Nat}
    : Sends GoError.cause fun _ fn => replay env (ofCallback fn) rs i := by
  induction rs generalizing i with
  | nil => exact .pure
  | cons r rs ih => exact .bind .call fun _ => ih

end

theorem sends_stream (body : Body) (maxResults : Int)
    : Sends GoError.cause fun _ fn => StreamRunEnvelope body maxResults (ofCallback fn) := by
  cases body with
  | unreadable err => exact .throw
  | other tok => exact .bind (.adaptExcept (fun _ => rfl) sends_liftResult) fun _ => .throw
  | object members ending =>
    refine .bind sends_streamMembers fun s => .bind sends_streamEnding fun _ => ?_
    exact .bind sends_replay fun _ => .bind sends_liftResult fun _ => .pure

theorem stream_eq_ok {σ : Type} {body : Body} {maxResults : Int} {fn : Callback GoError Delivery σ}
    {s s' : σ} {env : RunEnvelope}
    : StreamRunEnvelope body maxResults (ofCallback fn) s = .ok env s'
      ↔ ∃ log, Delivers body maxResults env log ∧ feed fn log s = .ok () s' :=
  (sends_stream body maxResults).eq_ok _ fn s env s'

end Model
end Api
