import BenchPlatform.Lib.Table
import BenchPlatform.Api.Model.Basic
import Mathlib.Data.Vector.Basic

/-!
This module contains the database as the ingest sees it: the three tables, a transaction with its
savepoint and its temporary table, and the statements. Any statement may fail for a reason of its
own.
-/

namespace Api
namespace Store

open Model

/--
A `uuid` as its 32 digits in hex.
-/
abbrev Uuid := List.Vector Nat 32

def hexValue? (c : Char) : Option Nat :=
  if '0' ≤ c ∧ c ≤ '9' then some (c.toNat - 48)
  else if 'a' ≤ c ∧ c ≤ 'f' then some (c.toNat - 87)
  else if 'A' ≤ c ∧ c ≤ 'F' then some (c.toNat - 55)
  else none

/--
The digits of the last `n` bytes of a `uuid`, and what follows them. Postgres skips a hyphen after
each second byte but the last.
-/
def uuidBytes : Nat → List Char → Option (List Nat × List Char)
  | 0, cs => some ([], cs)
  | n + 1, a :: b :: cs => do
    let a ← hexValue? a
    let b ← hexValue? b
    let cs :=
      match cs with
      | '-' :: rest => if n % 2 = 0 ∧ 0 < n then rest else cs
      | cs => cs
    let (digits, cs) ← uuidBytes n cs
    return (a :: b :: digits, cs)
  | _ + 1, _ => none

def Uuid.ofDigits? (digits : List Nat) : Option Uuid :=
  if h : digits.length = 32 then some ⟨digits, h⟩ else none

/--
How Postgres reads the text of a `uuid`: there may be braces around it.
-/
def parseUuid (s : String) : Option Uuid := do
  let (digits, rest) ←
    match s.toList with
    | '\x7b' :: cs => do
      let (digits, rest) ← uuidBytes 16 cs
      if rest = ['\x7d'] then
        some (digits, [])
      else
        none
    | cs => uuidBytes 16 cs
  if rest = [] then
    Uuid.ofDigits? digits
  else
    none

def parseUuidBinary (s : String) : Option Uuid := do
  let cs := s.toList
  let cs := if cs.length = 36 then
      cs.take 8 ++ (cs.drop 9).take 4 ++ (cs.drop 14).take 4 ++ (cs.drop 19).take 4 ++ cs.drop 24
    else
      cs
  let digits ← cs.mapM hexValue?
  Uuid.ofDigits? digits

/--
A `timestamptz` has microseconds.
-/
def timestamptz (t : Time) : Time :=
  { t with nanosecond := t.nanosecond / 1000 * 1000 }

structure MachineRow where
  id : String
  hostname : String
  cpuModel : String
  physicalCores : Int
  logicalCPUs : Int
  l1dKB : Int
  l2KB : Int
  l3KB : Int
  memoryBytes : Int
  os : String
  kernel : String
  compiler : String
  compilerFlags : String
  virtualized : String
  firstSeen : Time
  lastSeen : Time
  deriving DecidableEq

structure RunRow where
  id : Uuid
  machineID : String
  engineVersion : String
  engineGitSHA : String
  startedAt : Time
  finishedAt : Time
  argv : Json

structure MeasurementRow where
  runID : Uuid
  machineID : String
  workload : String
  metric : String
  threadCount : Int
  workingSetBytes : Int
  trial : Int
  value : Float64
  unit : String
  recordedAt : Time
  durationNs : Int
  params : Option Json

/--
The tuple that `measurements_dedup_idx` makes unique.
-/
structure MeasurementKey where
  runID : Uuid
  metric : String
  threadCount : Int
  workingSetBytes : Int
  trial : Int
  deriving DecidableEq

def MeasurementRow.key (r : MeasurementRow) : MeasurementKey where
  runID := r.runID
  metric := r.metric
  threadCount := r.threadCount
  workingSetBytes := r.workingSetBytes
  trial := r.trial

structure Db where
  machines : Table MachineRow.id
  runs : Table RunRow.id
  measurements : Table MeasurementRow.key

def Db.empty : Db where
  machines := .empty
  runs := .empty
  measurements := .empty

/--
A `text` column cannot hold the character 0. Strings are valid UTF-8 here.
-/
def encodeText (s : String) : Except GoError String :=
  if '\x00' ∈ s.toList then
    .error (.pg "22021" [.text "invalid byte sequence for encoding \"UTF8\": 0x00"])
  else
    .ok s

def encodeInt4 (n : Int) : Except GoError Int :=
  if -2 ^ 31 ≤ n ∧ n < 2 ^ 31 then
    .ok n
  else
    .error (.new [.text "failed to encode args: unable to encode ", .int n,
      .text " into binary format for int4 (OID 23): ", .int n,
      .text (if n < 0 then " is less than minimum value for int4"
        else " is greater than maximum value for int4")])

def encodeJsonb (jsonb : Json → Bool) (v : Json) : Except GoError Json :=
  if jsonb v then .ok v else .error (.pg "22P05" [.text "unsupported Unicode escape sequence"])

def encodeUuid (s : String) : Except GoError Uuid :=
  match parseUuid s with
  | some u => .ok u
  | none => .error (.pg "22P02" [.text ("invalid input syntax for type uuid: \"" ++ s ++ "\"")])

def encodeMachine (m : Machine) (started finished : Time) : Except GoError MachineRow := do
  return {
    id := ← encodeText m.id
    hostname := ← encodeText m.hostname
    cpuModel := ← encodeText m.cpuModel
    physicalCores := ← encodeInt4 m.physicalCores
    logicalCPUs := ← encodeInt4 m.logicalCPUs
    l1dKB := ← encodeInt4 m.l1dKB
    l2KB := ← encodeInt4 m.l2KB
    l3KB := ← encodeInt4 m.l3KB
    memoryBytes := m.memoryBytes
    os := ← encodeText m.os
    kernel := ← encodeText m.kernel
    compiler := ← encodeText m.compiler
    compilerFlags := ← encodeText m.compilerFlags
    virtualized := ← encodeText m.virtualized
    firstSeen := timestamptz started
    lastSeen := timestamptz finished }

/--
What the older row of a machine becomes: the newer one, but for when it was first and last seen.
-/
def MachineRow.merge (new old : MachineRow) : MachineRow :=
  { new with
    id := old.id
    firstSeen := if new.firstSeen.Before old.firstSeen then new.firstSeen else old.firstSeen
    lastSeen := if old.lastSeen.Before new.lastSeen then new.lastSeen else old.lastSeen }

def encodeRun (jsonb : Json → Bool) (env : RunEnvelope) (started finished : Time) (argv : Json)
    : Except GoError RunRow := do
  return {
    id := ← encodeUuid env.runID
    machineID := ← encodeText env.machine.id
    engineVersion := ← encodeText env.machine.engineVersion
    engineGitSHA := ← encodeText env.machine.engineGitSHA
    startedAt := timestamptz started
    finishedAt := timestamptz finished
    argv := ← encodeJsonb jsonb argv }

structure PendingRow where
  runID : String
  machineID : String
  result : Result
  recordedAt : Time

def copyFailed (reason : Message) : GoError :=
  .pg "57014" (.text "COPY from stdin failed: " :: reason)

/--
A row of a binary copy. The driver encodes it before the server sees it, but for the text and the
JSON, which the server checks.
-/
def PendingRow.encode (jsonb : Json → Bool) (r : PendingRow) : Except GoError MeasurementRow := do
  let runID ←
    match parseUuidBinary r.runID with
    | some u => .ok u
    | none => .error (copyFailed [.text ("cannot parse UUID " ++ r.runID)])
  return {
    runID := runID
    machineID := ← encodeText r.machineID
    workload := ← encodeText r.result.workload
    metric := ← encodeText r.result.metric
    threadCount := ← (encodeInt4 r.result.threadCount).mapError fun err => copyFailed err.message
    workingSetBytes := r.result.workingSetBytes
    trial := ← (encodeInt4 r.result.trial).mapError fun err => copyFailed err.message
    value := r.result.value
    unit := ← encodeText r.result.unit
    recordedAt := timestamptz r.recordedAt
    durationNs := r.result.durationNs
    params := ← r.result.params.mapM (encodeJsonb jsonb) }

namespace Db

def insertMachine (db : Db) (m : Machine) (started finished : Time) : Except GoError Db := do
  let row ← encodeMachine m started finished
  return { db with machines := db.machines.upsert row row.merge (fun _ => rfl) }

def foreignKeyViolation (table constraint : String) : GoError :=
  .pg "23503" [.text ("insert or update on table \"" ++ table ++ "\" violates foreign key constraint \""
    ++ constraint ++ "\"")]

def insertRun (db : Db) (jsonb : Json → Bool) (env : RunEnvelope) (started finished : Time)
    (argv : Json) : Except GoError (Nat × Db) := do
  let row ← encodeRun jsonb env started finished argv
  if row.id ∈ db.runs.keys then
    return (0, db)
  else if row.machineID ∉ db.machines.keys then
    throw (foreignKeyViolation "runs" "runs_machine_id_fkey")
  else
    return (1, { db with runs := db.runs.insertIgnore row })

def References (db : Db) (row : MeasurementRow) : Prop :=
  row.runID ∈ db.runs.keys ∧ row.machineID ∈ db.machines.keys

instance (db : Db) (row : MeasurementRow) : Decidable (db.References row) :=
  inferInstanceAs (Decidable (_ ∧ _))

def checkReferences (db : Db) (rows : List MeasurementRow) : Except GoError Unit :=
  if ∀ row ∈ rows, db.References row then
    .ok ()
  else if ∀ row ∈ rows, row.runID ∈ db.runs.keys then
    .error (foreignKeyViolation "measurements" "measurements_machine_id_fkey")
  else
    .error (foreignKeyViolation "measurements" "measurements_run_id_fkey")

def uniqueViolation : GoError :=
  .pg "23505" [.text "duplicate key value violates unique constraint \"measurements_dedup_idx\""]

/--
`COPY measurements`: all rows or none.
-/
def copyMeasurements (db : Db) (rows : List MeasurementRow) : Except GoError (Nat × Db) :=
  match db.measurements.copy rows with
  | none => .error uniqueViolation
  | some measurements => do
    db.checkReferences rows
    return (rows.length, { db with measurements := measurements })

/--
`INSERT ... SELECT ... ON CONFLICT DO NOTHING`, with the number of rows that were inserted.
-/
def insertIgnore (db : Db) (rows : List MeasurementRow) : Except GoError (Nat × Db) := do
  let inserted := Table.firsts MeasurementRow.key db.measurements.keys rows
  db.checkReferences inserted
  return (inserted.length, { db with measurements := db.measurements.insertAllIgnore rows })

end Db

/--
A transaction: what it sees of the database, its temporary table and what a savepoint saved of both.
-/
structure Tx where
  db : Db
  ingestBatch : Option (List MeasurementRow)
  savepoint : Option (Db × Option (List MeasurementRow))
  aborted : Bool

def Tx.start (db : Db) : Tx where
  db := db
  ingestBatch := none
  savepoint := none
  aborted := false

/--
The database server and the connection to it. `fault n` is the reason why the `n`-th command fails,
and `jsonb` says which documents can be stored.
-/
structure World where
  db : Db
  tx : Option Tx
  commands : Nat
  fault : Nat → Option GoError
  jsonb : Json → Bool

abbrev StoreM := EStateM GoError World

def Tx.abort (tx : Tx) : Tx :=
  { tx with aborted := true }

def txClosed : GoError := .new [.text "tx is closed"]

def inFailedTransaction : GoError :=
  .pg "25P02"
    [.text "current transaction is aborted, commands ignored until end of transaction block"]

/--
A statement of a transaction. If it fails the transaction is aborted, and in an aborted transaction
every statement fails.
-/
def statement {α : Type} (run : (Json → Bool) → Tx → Except GoError (α × Tx)) : StoreM α := fun w =>
  match w.tx with
  | none => .error txClosed w
  | some tx =>
    let result : Except GoError (α × Tx) :=
      match w.fault w.commands with
      | some err => .error err
      | none => if tx.aborted then .error inFailedTransaction else run w.jsonb tx
    match result with
    | .ok (a, tx) => .ok a { w with tx := some tx, commands := w.commands + 1 }
    | .error err => .error err { w with tx := some tx.abort, commands := w.commands + 1 }

def onDb {α : Type} (run : (Json → Bool) → Db → Except GoError (α × Db)) : StoreM α :=
  statement fun jsonb tx => do
    let (a, db) ← run jsonb tx.db
    return (a, { tx with db := db })

def begin : StoreM Unit := fun w =>
  match w.fault w.commands with
  | some err => .error err { w with commands := w.commands + 1 }
  | none =>
    .ok () { w with tx := some (Tx.start w.db), commands := w.commands + 1 }

def commit : StoreM Unit := fun w =>
  let closed := { w with tx := none, commands := w.commands + 1 }
  match w.tx with
  | none => .error txClosed w
  | some tx =>
    match w.fault w.commands with
    | some err => .error err closed
    | none =>
      if tx.aborted then
        .error (.new [.text "commit unexpectedly resulted in rollback"]) closed
      else
        .ok () { closed with db := tx.db }

/--
An error of a rollback is ignored: without its connection the transaction is rolled back, too.
-/
def rollback : StoreM Unit := fun w =>
  .ok () { w with tx := none, commands := w.commands + 1 }

def savepoint : StoreM Unit :=
  statement fun _ tx => .ok ((), { tx with savepoint := some (tx.db, tx.ingestBatch) })

def releaseSavepoint : StoreM Unit :=
  statement fun _ tx => .ok ((), { tx with savepoint := none })

def rollbackToSavepoint : StoreM Unit := fun w =>
  match w.tx with
  | none => .error txClosed w
  | some tx =>
    match w.fault w.commands, tx.savepoint with
    | none, some (db, ingestBatch) =>
      .ok () { w with
        tx := some { tx with db := db, ingestBatch := ingestBatch, aborted := false }
        commands := w.commands + 1 }
    | fault, _ =>
      .error (fault.getD (.pg "3B001" [.text "savepoint \"batch\" does not exist"]))
        { w with tx := some tx.abort, commands := w.commands + 1 }

def insertMachine (m : Machine) (started finished : Time) : StoreM Unit :=
  onDb fun _ db => do
    let db ← db.insertMachine m started finished
    return ((), db)

def insertRun (env : RunEnvelope) (started finished : Time) (argv : Json) : StoreM Nat :=
  onDb fun jsonb db => db.insertRun jsonb env started finished argv

def copyMeasurements (rows : List PendingRow) : StoreM Nat :=
  onDb fun jsonb db => do
    let rows ← rows.mapM (PendingRow.encode jsonb)
    db.copyMeasurements rows

def createTempTable : StoreM Unit :=
  statement fun _ tx =>
    match tx.ingestBatch with
    | some _ => .error (.pg "42P07" [.text "relation \"ingest_batch\" already exists"])
    | none => .ok ((), { tx with ingestBatch := some [] })

def Tx.tempTable (tx : Tx) : Except GoError (List MeasurementRow) :=
  match tx.ingestBatch with
  | some batch => .ok batch
  | none => .error (.pg "42P01" [.text "relation \"ingest_batch\" does not exist"])

def truncateTempTable : StoreM Unit :=
  statement fun _ tx => do
    let _ ← tx.tempTable
    return ((), { tx with ingestBatch := some [] })

def copyIntoTempTable (rows : List PendingRow) : StoreM Nat :=
  statement fun jsonb tx => do
    let rows ← rows.mapM (PendingRow.encode jsonb)
    let batch ← tx.tempTable
    return (rows.length, { tx with ingestBatch := some (batch ++ rows) })

def insertFromTempTable : StoreM Nat :=
  statement fun _ tx => do
    let batch ← tx.tempTable
    let (n, db) ← tx.db.insertIgnore batch
    return (n, { tx with db := db })

example : (parseUuid "\x7b11111111-2222-4333-8444-55555555555A\x7d").map (·.toList.take 9)
    = some [1, 1, 1, 1, 1, 1, 1, 1, 2] := by
  decide

end Store
end Api
