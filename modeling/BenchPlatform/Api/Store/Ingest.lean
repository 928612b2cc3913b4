import BenchPlatform.Api.Store.Postgres
import BenchPlatform.Api.Model.Stream

/-!
This module contains the ingest: how a run envelope is stored batch by batch in one transaction, and
the two functions that do so, from a request body as it is read and from a decoded envelope.
-/

namespace Api
namespace Store

open Model

def copyBatchRows : Nat := 10000

structure IngestResult where
  runID : String
  results : Nat
  inserted : Nat
  skipped : Nat
  duplicate : Bool
  machineID : String
  deriving DecidableEq

/--
One ingest in flight: the run it belongs to and the batch that is being filled.
-/
structure Ingestion where
  runID : String
  machineID : String
  rows : List PendingRow
  inserted : Nat
  skipped : Nat
  results : Nat
  dedup : Bool
  tempReady : Bool

def orRollback {α : Type} (x : StoreM α) : StoreM α := fun w =>
  match x w with
  | .ok a w => .ok a w
  | .error err w => (do rollback; throw err) w

def attempt {α : Type} (x : StoreM α) : StoreM (Except GoError α) := fun w =>
  match x w with
  | .ok a w => .ok (.ok a) w
  | .error err w => .ok (.error err) w

/--
`json.Marshal` of the arguments: a nil slice becomes `null`.
-/
def marshalArgv : Option (List String) → Json
  | none => .null
  | some argv => .arr (argv.map .str)

def upsertMachine (m : Machine) (started finished : Time) : StoreM Unit :=
  wrapError [.text "upsert machine"] (insertMachine m started finished)

def beginIngest (env : RunEnvelope) : StoreM Ingestion := do
  let started ← liftResult (ParseTimestamp env.startedAt)
  let finished ← liftResult (ParseTimestamp env.finishedAt)
  let argv := marshalArgv env.argv
  wrapError [.text "begin"] begin
  orRollback (upsertMachine env.machine started finished)
  let affected ← orRollback (wrapError [.text "insert run"] (insertRun env started finished argv))
  return {
    runID := env.runID
    machineID := env.machine.id
    rows := []
    inserted := 0
    skipped := 0
    results := 0
    dedup := affected = 0
    tempReady := false }

namespace Ingestion

def ensureTempTable (ing : Ingestion) : StoreM Unit :=
  if ing.tempReady then pure () else wrapError [.text "create temp table"] createTempTable

/--
Copies the batch into a temporary table and moves it across without the rows whose keys are there.
-/
def flushDedup (ing : Ingestion) : StoreM Ingestion := do
  ing.ensureTempTable
  wrapError [.text "truncate temp table"] truncateTempTable
  let _ ← wrapError [.text "copy into temp table"] (copyIntoTempTable ing.rows)
  let affected ← wrapError [.text "insert from temp table"] insertFromTempTable
  return { ing with
    tempReady := true
    inserted := ing.inserted + affected
    skipped := ing.skipped + (ing.rows.length - affected)
    rows := [] }

/--
Copies the batch straight into the table. If the batch repeats a key the savepoint undoes the copy,
and from then on the keys are checked.
-/
def flushCopy (ing : Ingestion) : StoreM Ingestion := do
  wrapError [.text "savepoint"] savepoint
  match ← attempt (copyMeasurements ing.rows) with
  | .ok n =>
    wrapError [.text "release savepoint"] releaseSavepoint
    return { ing with inserted := ing.inserted + n, rows := [] }
  | .error err =>
    if err.pgCode? = some "23505" then
      wrapError [.text "rollback to savepoint"] rollbackToSavepoint
      flushDedup { ing with dedup := true }
    else
      throw (.wrap [.text "copy measurements"] err)

def flush (ing : Ingestion) : StoreM Ingestion :=
  if ing.rows.length = 0 then
    return ing
  else if ing.dedup then
    ing.flushDedup
  else
    ing.flushCopy

def add (ing : Ingestion) (r : Result) : StoreM Ingestion := do
  let ts ← liftResult (ParseTimestamp r.timestamp)
  let row : PendingRow :=
    { runID := ing.runID, machineID := ing.machineID, result := r, recordedAt := ts }
  let ing := { ing with rows := ing.rows ++ [row], results := ing.results + 1 }
  if copyBatchRows ≤ ing.rows.length then
    ing.flush
  else
    return ing

def commit (ing : Ingestion) : StoreM IngestResult := do
  let ing ← orRollback ing.flush
  wrapError [.text "commit"] Store.commit
  return {
    runID := ing.runID
    results := ing.results
    inserted := ing.inserted
    skipped := ing.skipped
    duplicate := ing.inserted = 0 ∧ 0 < ing.results
    machineID := ing.machineID }

/--
The loop of `IngestRun` over the results.
-/
def addAll : List Result → Ingestion → StoreM Ingestion
  | [], ing => pure ing
  | r :: rs, ing => do
    let ing ← ing.add r
    addAll rs ing

end Ingestion

def noResults : GoError := .new [.text "run envelope carried no results"]

/--
Begins an ingest that checks the keys if `mode` says so, given whether the run was there.
-/
def beginWith (mode : Bool → Bool) (env : RunEnvelope) : StoreM Ingestion := do
  let ing ← beginIngest env
  return { ing with dedup := mode ing.dedup }

/--
Adds a result to the ingest that the callback of `IngestStream` has in hand.
-/
def addTo (ing : Ingestion) (r : Result) : EStateM GoError (World × Option Ingestion) Unit :=
  fun (w, _) =>
    match ing.add r w with
    | .error err w => .error err (w, some ing)
    | .ok ing w => .ok () (w, some ing)

/--
The function that the streaming decoder calls for each result. The first result begins the ingest.
-/
def handOver (mode : Bool → Bool) : ResultFunc (World × Option Ingestion) :=
  fun env _ r (w, ing) =>
    match ing with
    | some ing => addTo ing r (w, some ing)
    | none =>
      match beginWith mode env w with
      | .error err w => .error err (w, none)
      | .ok ing w => addTo ing r (w, some ing)

theorem addTo_ok {ing ing' : Ingestion} {r : Result} {w w' : World} {o : Option Ingestion}
    (h : ing.add r w = .ok ing' w')
    : addTo ing r (w, o) = .ok () (w', some ing') := by
  unfold addTo
  simp only [h]

theorem addTo_error {ing : Ingestion} {r : Result} {w w' : World} {o : Option Ingestion}
    {err : GoError} (h : ing.add r w = .error err w')
    : addTo ing r (w, o) = .error err (w', some ing) := by
  unfold addTo
  simp only [h]

theorem handOver_some {mode : Bool → Bool} {env : RunEnvelope} {i : Nat} {r : Result} {w : World}
    {ing : Ingestion}
    : handOver mode env i r (w, some ing) = addTo ing r (w, some ing) := rfl

theorem handOver_begin {mode : Bool → Bool} {env : RunEnvelope} {i : Nat} {r : Result}
    {w w' : World} {ing : Ingestion} (h : beginWith mode env w = .ok ing w')
    : handOver mode env i r (w, none) = addTo ing r (w', some ing) := by
  unfold handOver
  simp only [h]

theorem handOver_error {mode : Bool → Bool} {env : RunEnvelope} {i : Nat} {r : Result}
    {w w' : World} {err : GoError} (h : beginWith mode env w = .error err w')
    : handOver mode env i r (w, none) = .error err (w', none) := by
  unfold handOver
  simp only [h]

def ingestStreamWith (mode : Bool → Bool) (body : Body) (maxResults : Int)
    : StoreM IngestResult := fun w =>
  match StreamRunEnvelope body maxResults (handOver mode) (w, none) with
  | .error err (w, none) => .error err w
  | .error err (w, some _) => (do rollback; throw err) w
  | .ok _ (w, none) => .error noResults w
  | .ok _ (w, some ing) => ing.commit w

def IngestStream : Body → Int → StoreM IngestResult :=
  ingestStreamWith id

def ingestRunWith (mode : Bool → Bool) (env : RunEnvelope) : StoreM IngestResult := do
  liftResult env.Validate
  let results := env.results.getD []
  if results.length = 0 then
    throw noResults
  else
    let ing ← beginWith mode env
    let ing ← orRollback (Ingestion.addAll results ing)
    ing.commit

def IngestRun : RunEnvelope → StoreM IngestResult :=
  ingestRunWith id

end Store
end Api
