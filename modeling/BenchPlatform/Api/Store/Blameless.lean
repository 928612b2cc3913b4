import BenchPlatform.Api.Store.IngestSpec
import BenchPlatform.Api.Model.Deliveries
import BenchPlatform.Lib.Hoare

/-!
This module proves that an ingest on a database without faults fails with no error that the handler takes for one of
the document: neither the statements nor the driver make such errors.
-/

namespace Api

/--
The causes that the handler answers as errors of the client.
-/
def GoError.OfDocument (err : GoError) : Prop :=
  match err.cause with
  | .tooManyResults _ | .validation _ | .syntaxError _ | .unmarshalType .. | .eof | .unexpectedEOF => True
  | _ => False

namespace Store

open Model Program Hoare

/--
An outcome that is no error of the document.
-/
abbrev Blameless {α : Type} (x : Except GoError α) : Prop :=
  Fails (fun err => ¬err.OfDocument) x

namespace Blameless

theorem text (s : String) : Blameless (encodeText s) :=
  .ite (.error id) .ok

theorem int4 (n : Int) : Blameless (encodeInt4 n) :=
  .ite .ok (.error id)

theorem jsonb (p : Json → Bool) (v : Json) : Blameless (encodeJsonb p v) :=
  .ite .ok (.error id)

theorem uuid (s : String) : Blameless (encodeUuid s) := by
  unfold encodeUuid
  split
  . exact .ok
  . exact .error id

theorem time (s : String) : Blameless (ParseTimestamp s) := by
  unfold ParseTimestamp
  split
  . exact .error id
  . dsimp only
    split
    . exact .error id
    . exact .ok

theorem machine (m : Machine) (started finished : Time) : Blameless (encodeMachine m started finished) := by
  unfold encodeMachine
  repeat' first
    | exact text _
    | exact int4 _
    | exact .ok
    | refine Fails.bind ?_ fun _ => ?_

theorem run (p : Json → Bool) (env : RunEnvelope) (started finished : Time) (argv : Json)
    : Blameless (encodeRun p env started finished argv) := by
  unfold encodeRun
  exact (uuid _).bind fun _ => (text _).bind fun _ => (text _).bind fun _ => (text _).bind fun _ =>
    (jsonb _ _).bind fun _ => .ok

theorem params (p : Json → Bool) (v : Option Json) : Blameless (v.mapM (encodeJsonb p)) := by
  cases v with
  | none => exact .ok
  | some v => exact (jsonb p v).bind fun _ => .ok

theorem row (p : Json → Bool) (r : PendingRow) : Blameless (r.encode p) := by
  unfold PendingRow.encode
  dsimp only
  split
  . have hcount : ∀ n, Blameless ((encodeInt4 n).mapError fun err => copyFailed err.message) :=
      fun _ => Fails.any.mapError fun _ _ => id
    exact (text _).bind fun _ => (text _).bind fun _ => (text _).bind fun _ => (hcount _).bind fun _ =>
      (hcount _).bind fun _ => (text _).bind fun _ => (params p r.result.params).bind fun _ => .ok
  . exact .error id

theorem references (db : Db) (rows : List MeasurementRow) : Blameless (db.checkReferences rows) :=
  .ite .ok (.ite (.error id) (.error id))

theorem copy (db : Db) (rows : List MeasurementRow) : Blameless (db.copyMeasurements rows) := by
  unfold Db.copyMeasurements
  split
  . exact .error id
  . exact (references db rows).bind fun _ => .ok

theorem insertIgnore (db : Db) (rows : List MeasurementRow) : Blameless (db.insertIgnore rows) :=
  (references db _).bind fun _ => .ok

theorem insertMachine (db : Db) (m : Machine) (started finished : Time)
    : Blameless (db.insertMachine m started finished) :=
  (machine m started finished).bind fun _ => .ok

theorem insertRun (db : Db) (p : Json → Bool) (env : RunEnvelope) (started finished : Time) (argv : Json)
    : Blameless (db.insertRun p env started finished argv) :=
  (run p env started finished argv).bind fun _ => .ite .ok (.ite (.error id) .ok)

theorem tempTable (tx : Tx) : Blameless tx.tempTable := by
  unfold Tx.tempTable
  split
  . exact .ok
  . exact .error id

end Blameless

/--
With a database on which no command fails for a reason of its own, no error is one of the document.
-/
def Internal {α : Type} (x : StoreM α) : Prop :=
  Triple World.Faultless x (fun _ => World.Faultless) fun err w => w.Faultless ∧ ¬err.OfDocument

namespace Internal

variable {α β : Type} {x : StoreM α}

theorem pure {a : α} : Internal (pure a) :=
  Triple.pure fun _ h => h

theorem throw {err : GoError} (h : ¬err.OfDocument) : Internal (throw err : StoreM α) :=
  Triple.throw fun _ hw => ⟨hw, h⟩

theorem bind {f : α → StoreM β} (hx : Internal x) (hf : ∀ a, Internal (f a)) : Internal (x >>= f) :=
  Triple.bind hx hf

theorem lift {r : Except GoError α} (h : Blameless r) : Internal (liftResult r) := by
  cases r with
  | ok a => exact pure
  | error err => exact throw (h err rfl)

theorem wrapError {msg : Message} (hx : Internal x) : Internal (wrapError msg x) := by
  intro w hw
  have hx := hx w hw
  unfold Model.wrapError EStateM.adaptExcept
  cases hxw : x w with
  | ok a w' =>
    rw [hxw] at hx
    exact hx
  | error err w' =>
    rw [hxw] at hx
    exact hx

theorem orRollback (hx : Internal x) : Internal (orRollback x) := by
  intro w hw
  have hx := hx w hw
  unfold Store.orRollback
  cases hxw : x w with
  | ok a w' =>
    rw [hxw] at hx
    exact hx
  | error err w' =>
    rw [hxw] at hx
    exact hx

theorem statement {run : (Json → Bool) → Tx → Except GoError (α × Tx)} (h : ∀ p tx, Blameless (run p tx))
    : Internal (statement run) := by
  intro w hw
  unfold Store.statement
  cases w.tx with
  | none => exact ⟨hw, id⟩
  | some tx =>
    dsimp only
    rw [hw]
    dsimp only
    cases tx.aborted with
    | true => exact ⟨hw, id⟩
    | false =>
      cases hrun : run w.jsonb tx with
      | ok r =>
        simp only [Bool.false_eq_true, if_false]
        exact hw
      | error err =>
        simp only [Bool.false_eq_true, if_false]
        exact ⟨hw, h _ _ err hrun⟩

theorem onDb {run : (Json → Bool) → Db → Except GoError (α × Db)} (h : ∀ p db, Blameless (run p db))
    : Internal (onDb run) :=
  statement fun _ _ => (h _ _).bind fun _ => .ok

theorem begin : Internal begin := by
  intro w hw
  unfold Store.begin
  rw [hw]
  exact hw

theorem rollbackToSavepoint : Internal rollbackToSavepoint := by
  intro w hw
  unfold Store.rollbackToSavepoint
  cases w.tx with
  | none => exact ⟨hw, id⟩
  | some tx =>
    dsimp only
    rw [hw]
    cases tx.savepoint with
    | none => exact ⟨hw, id⟩
    | some saved => exact hw

theorem commit : Internal commit := by
  intro w hw
  unfold Store.commit
  cases w.tx with
  | none => exact ⟨hw, id⟩
  | some tx =>
    dsimp only
    rw [hw]
    cases haborted : tx.aborted with
    | true =>
      simp only [if_true]
      exact ⟨hw, id⟩
    | false =>
      simp only [Bool.false_eq_true, if_false]
      exact hw

theorem flushDedup (ing : Ingestion) : Internal ing.flushDedup := by
  unfold Ingestion.flushDedup
  refine bind ?_ fun _ => bind (wrapError (statement fun _ tx => (Blameless.tempTable tx).bind fun _ => .ok))
    fun _ => bind (wrapError (statement fun p tx => (Fails.mapM (Blameless.row p) _).bind fun _ =>
      (Blameless.tempTable tx).bind fun _ => .ok)) fun _ => bind (wrapError (statement fun _ tx =>
        (Blameless.tempTable tx).bind fun _ => (Blameless.insertIgnore _ _).bind fun _ => .ok)) fun _ => pure
  unfold Ingestion.ensureTempTable
  split
  . exact pure
  . refine wrapError (statement fun _ tx => ?_)
    split
    . exact .error id
    . exact .ok

theorem flushCopy (ing : Ingestion) : Internal ing.flushCopy := by
  unfold Ingestion.flushCopy
  refine bind (wrapError (statement fun _ _ => .ok)) fun _ => ?_
  have hcopy : Internal (copyMeasurements ing.rows) :=
    onDb fun p db => (Fails.mapM (Blameless.row p) _).bind fun _ => Blameless.copy db _
  refine Triple.bind (Q := fun r w => (∀ err, r = .error err → ¬err.OfDocument) ∧ w.Faultless) ?_ fun r => ?_
  . intro w hw
    have hcopy := hcopy w hw
    unfold attempt
    cases hrun : copyMeasurements ing.rows w with
    | ok n w' =>
      rw [hrun] at hcopy
      exact ⟨nofun, hcopy⟩
    | error err w' =>
      rw [hrun] at hcopy
      refine ⟨fun err' h => ?_, hcopy.1⟩
      cases h
      exact hcopy.2
  . apply Triple.of_pure
    intro hr
    cases r with
    | ok n => exact bind (wrapError (statement fun _ _ => .ok)) fun _ => pure
    | error err =>
      dsimp only
      split
      . exact bind (wrapError rollbackToSavepoint) fun _ => flushDedup _
      . exact throw (hr err rfl)

theorem flush (ing : Ingestion) : Internal ing.flush := by
  unfold Ingestion.flush
  split
  . exact pure
  . split
    . exact flushDedup ing
    . exact flushCopy ing

theorem add (ing : Ingestion) (r : Result) : Internal (ing.add r) := by
  unfold Ingestion.add
  refine bind (lift (Blameless.time _)) fun _ => ?_
  dsimp only
  split
  . exact flush _
  . exact pure

theorem beginWith (mode : Bool → Bool) (env : RunEnvelope) : Internal (beginWith mode env) := by
  refine bind ?_ fun _ => pure
  unfold beginIngest
  refine bind (lift (Blameless.time _)) fun _ => bind (lift (Blameless.time _)) fun _ =>
    bind (wrapError begin) fun _ => bind (orRollback (wrapError (onDb fun _ db => ?_))) fun _ =>
      bind (orRollback (wrapError (onDb fun p db => Blameless.insertRun db p _ _ _ _))) fun _ => pure
  exact (Blameless.insertMachine db _ _ _).bind fun _ => .ok

end Internal

/--
The same of the callback of the decoder, which has the ingest in hand.
-/
def InternalCall (x : EStateM GoError (World × Option Ingestion) Unit) : Prop :=
  Triple (fun s => s.1.Faultless) x (fun _ s => s.1.Faultless) fun err _ => ¬err.OfDocument

namespace InternalCall

theorem addTo (ing : Ingestion) (r : Result) : InternalCall (addTo ing r) := by
  rintro ⟨w, o⟩ hw
  have hadd := Internal.add ing r w hw
  cases hrun : ing.add r w with
  | ok ing' w' =>
    rw [hrun] at hadd
    rw [addTo_ok hrun]
    exact hadd
  | error err w' =>
    rw [hrun] at hadd
    rw [addTo_error hrun]
    exact hadd.2

theorem handOver (mode : Bool → Bool) (d : Delivery) : InternalCall (handOver mode d.env d.index d.result) := by
  rintro ⟨w, _ | ing⟩ hw
  . have hbegin := Internal.beginWith mode d.env w hw
    cases hrun : beginWith mode d.env w with
    | ok ing w' =>
      rw [hrun] at hbegin
      rw [handOver_begin hrun]
      exact addTo ing d.result (w', none) hbegin
    | error err w' =>
      rw [hrun] at hbegin
      rw [handOver_error hrun]
      exact hbegin.2
  . exact addTo ing d.result (w, some ing) hw

theorem feed (mode : Bool → Bool) (log : List Delivery)
    : InternalCall (feed (fun d => Store.handOver mode d.env d.index d.result) log) := by
  induction log with
  | nil => exact Triple.pure fun _ hw => hw
  | cons d log ih => exact Triple.bind (handOver mode d) fun _ => ih

end InternalCall

end Store
end Api
