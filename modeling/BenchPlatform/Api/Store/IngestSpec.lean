import BenchPlatform.Api.Store.Ingest
import BenchPlatform.Lib.Program

/-!
This module states what an ingest is for, as a function from a database to a database, and proves
that the batches, the savepoint and the temporary table of the program compute this function.
-/

namespace Api
namespace Store

open Model Program

def pendingRow (runID machineID : String) (r : Result) : Except GoError PendingRow := do
  let ts ← ParseTimestamp r.timestamp
  return { runID := runID, machineID := machineID, result := r, recordedAt := ts }

def rowOf (jsonb : Json → Bool) (runID machineID : String) (r : Result)
    : Except GoError MeasurementRow := do
  let row ← pendingRow runID machineID r
  row.encode jsonb

def Db.beginRun (db : Db) (jsonb : Json → Bool) (env : RunEnvelope) : Except GoError (Nat × Db) := do
  let started ← ParseTimestamp env.startedAt
  let finished ← ParseTimestamp env.finishedAt
  let db ← db.insertMachine env.machine started finished
  db.insertRun jsonb env started finished (marshalArgv env.argv)

/--
What an ingest does: the machine and the run are inserted, and then the first row of each new key.
-/
def Db.ingest (db : Db) (jsonb : Json → Bool) (env : RunEnvelope) (rs : List Result)
    : Except GoError (IngestResult × Db) := do
  let (_, db) ← db.beginRun jsonb env
  let rows ← rs.mapM (rowOf jsonb env.runID env.machine.id)
  let (inserted, db) ← db.insertIgnore rows
  return (
    { runID := env.runID
      results := rs.length
      inserted := inserted
      skipped := rs.length - inserted
      duplicate := inserted = 0 ∧ 0 < rs.length
      machineID := env.machine.id }, db)

/--
The program that both ways of ingesting run: begin, add each result, commit.
-/
def ingestAll (mode : Bool → Bool) (env : RunEnvelope) (rs : List Result) : StoreM IngestResult := do
  let ing ← beginWith mode env
  let ing ← orRollback (Ingestion.addAll rs ing)
  ing.commit

def World.on (w : World) (tx : Tx) (commands : Nat) : World :=
  { w with tx := some tx, commands := commands }

def World.Faultless (w : World) : Prop :=
  ∀ n, w.fault n = none

theorem statement_eq_ok {α : Type} {run : (Json → Bool) → Tx → Except GoError (α × Tx)} {w w' : World}
    {a : α}
    : statement run w = .ok a w' ↔ ∃ tx tx', w.tx = some tx ∧ tx.aborted = false
        ∧ w.fault w.commands = none ∧ run w.jsonb tx = .ok (a, tx')
        ∧ w' = w.on tx' (w.commands + 1) := by
  unfold statement
  cases htx : w.tx with
  | none => simp
  | some tx =>
    cases hfault : w.fault w.commands with
    | some err => simp
    | none =>
      cases habort : tx.aborted with
      | true => simp [habort]
      | false =>
        cases hrun : run w.jsonb tx with
        | error err => simp [habort, hrun]
        | ok r =>
          obtain ⟨b, tx'⟩ := r
          simp only [habort, hrun, Bool.false_eq_true, if_false]
          constructor
          . intro h
            injection h with hb hw
            subst hb hw
            exact ⟨tx, tx', rfl, habort, trivial, hrun, rfl⟩
          . rintro ⟨_, tx'', ⟨⟩, _, _, hrun', rfl⟩
            rw [hrun] at hrun'
            injection hrun' with hrun'
            injection hrun' with hb htx'
            subst hb htx'
            rfl

theorem onDb_eq_ok {α : Type} {run : (Json → Bool) → Db → Except GoError (α × Db)} {w w' : World}
    {a : α}
    : onDb run w = .ok a w' ↔ ∃ tx db, w.tx = some tx ∧ tx.aborted = false
        ∧ w.fault w.commands = none ∧ run w.jsonb tx.db = .ok (a, db)
        ∧ w' = w.on { tx with db := db } (w.commands + 1) := by
  unfold onDb
  rw [statement_eq_ok]
  constructor
  . rintro ⟨tx, tx', htx, habort, hfault, hdo, rfl⟩
    obtain ⟨⟨b, db⟩, hrun, hpure⟩ := except_bind_eq_ok.mp hdo
    injection hpure with hpure
    injection hpure with hb htx'
    subst hb htx'
    exact ⟨tx, db, htx, habort, hfault, hrun, rfl⟩
  . rintro ⟨tx, db, htx, habort, hfault, hrun, rfl⟩
    exact ⟨tx, _, htx, habort, hfault, except_bind_eq_ok.mpr ⟨_, hrun, rfl⟩, rfl⟩

theorem statement_error {α : Type} {run : (Json → Bool) → Tx → Except GoError (α × Tx)} {w w' : World}
    {tx : Tx} {err : GoError} (htx : w.tx = some tx) (h : statement run w = .error err w')
    : w' = w.on tx.abort (w.commands + 1) := by
  unfold statement at h
  rw [htx] at h
  dsimp only at h
  split at h
  . cases h
  . injection h with _ h
    exact h.symm

theorem rollbackToSavepoint_eq_ok {w w' : World} {a : Unit}
    : rollbackToSavepoint w = .ok a w' ↔ ∃ tx saved, w.tx = some tx ∧ w.fault w.commands = none
        ∧ tx.savepoint = some saved
        ∧ w' = w.on { tx with db := saved.1, ingestBatch := saved.2, aborted := false }
          (w.commands + 1) := by
  unfold rollbackToSavepoint
  cases htx : w.tx with
  | none => simp
  | some tx =>
    cases hfault : w.fault w.commands with
    | some err => simp
    | none =>
      obtain ⟨db, ingestBatch, saved, aborted⟩ := tx
      cases saved with
      | none => simp
      | some saved =>
        constructor
        . intro h
          injection h with _ h
          exact ⟨_, saved, rfl, rfl, rfl, h.symm⟩
        . rintro ⟨tx', saved', ⟨⟩, _, ⟨⟩, rfl⟩
          rfl

theorem orRollback_eq_ok {α : Type} {x : StoreM α} {w w' : World} {a : α}
    : orRollback x w = .ok a w' ↔ x w = .ok a w' := by
  unfold orRollback
  cases x w with
  | ok b w => rfl
  | error err w => simp [bind, EStateM.bind, rollback]

theorem copyMeasurements_eq_ok {db : Db} {rows : List MeasurementRow} {r : Nat × Db}
    (h : db.copyMeasurements rows = .ok r)
    : db.insertIgnore rows = .ok r ∧ r.1 = rows.length := by
  unfold Db.copyMeasurements at h
  cases hcopy : db.measurements.copy rows with
  | none => simp [hcopy] at h
  | some measurements =>
    rw [hcopy] at h
    obtain ⟨_, hrefs, hpure⟩ := except_bind_eq_ok.mp h
    injection hpure with hpure
    subst hpure
    obtain ⟨htable, hfirsts⟩ := Table.copy_eq_some hcopy
    refine ⟨?_, rfl⟩
    unfold Db.insertIgnore
    rw [hfirsts]
    exact except_bind_eq_ok.mpr ⟨(), hrefs, by rw [htable]; rfl⟩

theorem copyMeasurements_of_insertIgnore {db : Db} {rows : List MeasurementRow} {r : Nat × Db}
    (h : db.insertIgnore rows = .ok r)
    : db.copyMeasurements rows = .ok r ∨ db.copyMeasurements rows = .error Db.uniqueViolation := by
  unfold Db.copyMeasurements
  cases hcopy : db.measurements.copy rows with
  | none => exact .inr rfl
  | some measurements =>
    left
    obtain ⟨htable, hfirsts⟩ := Table.copy_eq_some hcopy
    unfold Db.insertIgnore at h
    rw [hfirsts] at h
    obtain ⟨_, hrefs, hpure⟩ := except_bind_eq_ok.mp h
    exact except_bind_eq_ok.mpr ⟨(), hrefs, by rw [htable]; exact hpure⟩

/--
What a flush does to the ingestion and to its transaction when it succeeds.
-/
structure Flushed (jsonb : Json → Bool) (ing ing' : Ingestion) (tx tx' : Tx) : Prop where
  insert : ∃ rows n, ing.rows.mapM (PendingRow.encode jsonb) = .ok rows
    ∧ tx.db.insertIgnore rows = .ok (n, tx'.db)
    ∧ ing'.inserted = ing.inserted + n
    ∧ ing'.skipped = ing.skipped + (rows.length - n)
  aborted : tx'.aborted = false
  rows : ing'.rows = []
  results : ing'.results = ing.results
  runID : ing'.runID = ing.runID
  machineID : ing'.machineID = ing.machineID
  tempReady : ing'.tempReady = tx'.ingestBatch.isSome

variable {w w' : World} {tx : Tx} {ing ing' : Ingestion}

@[simp]
theorem World.on_tx {n : Nat} : (w.on tx n).tx = some tx := rfl

@[simp]
theorem World.on_jsonb {n : Nat} : (w.on tx n).jsonb = w.jsonb := rfl

@[simp]
theorem World.on_on {tx' : Tx} {n n' : Nat} : (w.on tx n).on tx' n' = w.on tx' n' := rfl

@[simp]
theorem World.on_commands {n : Nat} : (w.on tx n).commands = n := rfl

@[simp]
theorem World.on_fault {n : Nat} : (w.on tx n).fault = w.fault := rfl

theorem World.on_self (h : w.tx = some tx) : w.on tx w.commands = w := by
  cases w
  cases h
  rfl

theorem tempTable_eq_ok {batch : List MeasurementRow}
    : tx.tempTable = .ok batch ↔ tx.ingestBatch = some batch := by
  unfold Tx.tempTable
  cases tx.ingestBatch <;> simp

theorem ensureTempTable_eq_ok {a : Unit} (htx : w.tx = some tx)
    (htemp : ing.tempReady = tx.ingestBatch.isSome) (h : ing.ensureTempTable w = .ok a w')
    : ∃ batch n, w' = w.on { tx with ingestBatch := some batch } n := by
  unfold Ingestion.ensureTempTable at h
  split at h
  . rename_i hready
    obtain ⟨batch, hbatch⟩ := Option.isSome_iff_exists.mp (htemp.symm.trans hready)
    injection h with _ h
    subst h
    refine ⟨batch, w.commands, ?_⟩
    rw [← hbatch]
    exact (World.on_self htx).symm
  . obtain ⟨tx₁, tx', htx₁, _, _, hrun, rfl⟩ := statement_eq_ok.mp (wrapError_eq_ok.mp h)
    rw [htx] at htx₁
    cases htx₁
    split at hrun
    . cases hrun
    . injection hrun with hrun
      injection hrun with _ hrun
      subst hrun
      exact ⟨[], _, rfl⟩

theorem truncateTempTable_eq_ok {a : Unit} (htx : w.tx = some tx)
    (h : truncateTempTable w = .ok a w')
    : ∃ n, w' = w.on { tx with ingestBatch := some [] } n := by
  obtain ⟨tx₁, tx', htx₁, _, _, hrun, rfl⟩ := statement_eq_ok.mp h
  rw [htx] at htx₁
  cases htx₁
  obtain ⟨_, _, hpure⟩ := except_bind_eq_ok.mp hrun
  injection hpure with hpure
  injection hpure with _ hpure
  subst hpure
  exact ⟨_, rfl⟩

theorem copyIntoTempTable_eq_ok {pending : List PendingRow} {k : Nat} {batch : List MeasurementRow}
    (htx : w.tx = some tx) (hbatch : tx.ingestBatch = some batch)
    (h : copyIntoTempTable pending w = .ok k w')
    : ∃ rows n, pending.mapM (PendingRow.encode w.jsonb) = .ok rows
      ∧ w' = w.on { tx with ingestBatch := some (batch ++ rows) } n := by
  obtain ⟨tx₁, tx', htx₁, _, _, hrun, rfl⟩ := statement_eq_ok.mp h
  rw [htx] at htx₁
  cases htx₁
  obtain ⟨rows, hrows, hrun⟩ := except_bind_eq_ok.mp hrun
  obtain ⟨batch', hbatch', hpure⟩ := except_bind_eq_ok.mp hrun
  rw [tempTable_eq_ok, hbatch] at hbatch'
  cases hbatch'
  injection hpure with hpure
  injection hpure with _ hpure
  subst hpure
  exact ⟨rows, _, hrows, rfl⟩

theorem insertFromTempTable_eq_ok {k : Nat} {batch : List MeasurementRow} (htx : w.tx = some tx)
    (hbatch : tx.ingestBatch = some batch) (h : insertFromTempTable w = .ok k w')
    : ∃ db n, tx.aborted = false ∧ tx.db.insertIgnore batch = .ok (k, db)
      ∧ w' = w.on { tx with db := db } n := by
  obtain ⟨tx₁, tx', htx₁, habort, _, hrun, rfl⟩ := statement_eq_ok.mp h
  rw [htx] at htx₁
  cases htx₁
  obtain ⟨batch', hbatch', hrun⟩ := except_bind_eq_ok.mp hrun
  rw [tempTable_eq_ok, hbatch] at hbatch'
  cases hbatch'
  obtain ⟨⟨n, db⟩, hinsert, hpure⟩ := except_bind_eq_ok.mp hrun
  injection hpure with hpure
  injection hpure with hn hpure
  subst hn hpure
  exact ⟨db, _, habort, hinsert, rfl⟩

theorem flushDedup_eq_ok (htx : w.tx = some tx) (htemp : ing.tempReady = tx.ingestBatch.isSome)
    (h : ing.flushDedup w = .ok ing' w')
    : ∃ tx' n, w' = w.on tx' n ∧ Flushed w.jsonb ing ing' tx tx' := by
  unfold Ingestion.flushDedup at h
  obtain ⟨_, w₁, hcreate, h⟩ := bind_eq_ok.mp h
  obtain ⟨_, w₂, htruncate, h⟩ := bind_eq_ok.mp h
  obtain ⟨k, w₃, hcopy, h⟩ := bind_eq_ok.mp h
  obtain ⟨n, w₄, hinsert, h⟩ := bind_eq_ok.mp h
  injection h with hing hw
  subst hing hw
  obtain ⟨_, _, rfl⟩ := ensureTempTable_eq_ok htx htemp hcreate
  obtain ⟨_, rfl⟩ := truncateTempTable_eq_ok rfl (wrapError_eq_ok.mp htruncate)
  obtain ⟨rows, _, hrows, rfl⟩ := copyIntoTempTable_eq_ok rfl rfl (wrapError_eq_ok.mp hcopy)
  obtain ⟨db, c, habort, hdb, rfl⟩ := insertFromTempTable_eq_ok rfl rfl (wrapError_eq_ok.mp hinsert)
  have hlen : ing.rows.length = rows.length := (mapM_eq_ok.mp hrows).length_eq
  refine ⟨_, c, rfl, ⟨rows, n, hrows, hdb, rfl, ?_⟩, habort, rfl, rfl, rfl, rfl, rfl⟩
  rw [hlen]

theorem attempt_eq_ok {α : Type} {x : StoreM α} {r : Except GoError α}
    : attempt x w = .ok r w' ↔ (∃ a, x w = .ok a w' ∧ r = .ok a)
      ∨ ∃ err, x w = .error err w' ∧ r = .error err := by
  unfold attempt
  cases x w <;> simp [eq_comm, and_comm]

theorem copyMeasurementsM_eq_ok {pending : List PendingRow} {k : Nat} (htx : w.tx = some tx)
    (h : copyMeasurements pending w = .ok k w')
    : ∃ rows db n, pending.mapM (PendingRow.encode w.jsonb) = .ok rows ∧ tx.aborted = false
      ∧ tx.db.copyMeasurements rows = .ok (k, db) ∧ w' = w.on { tx with db := db } n := by
  obtain ⟨tx₁, db, htx₁, habort, _, hrun, rfl⟩ := onDb_eq_ok.mp h
  rw [htx] at htx₁
  cases htx₁
  obtain ⟨rows, hrows, hrun⟩ := except_bind_eq_ok.mp hrun
  exact ⟨rows, db, _, hrows, habort, hrun, rfl⟩

theorem copyMeasurementsM_error {pending : List PendingRow} {err : GoError} (htx : w.tx = some tx)
    (h : copyMeasurements pending w = .error err w')
    : w' = w.on tx.abort (w.commands + 1) := by
  unfold copyMeasurements onDb at h
  exact statement_error htx h

theorem flushCopy_eq_ok (htx : w.tx = some tx) (htemp : ing.tempReady = tx.ingestBatch.isSome)
    (h : ing.flushCopy w = .ok ing' w')
    : ∃ tx' n, w' = w.on tx' n ∧ Flushed w.jsonb ing ing' tx tx' := by
  unfold Ingestion.flushCopy at h
  obtain ⟨_, w₁, hsave, h⟩ := bind_eq_ok.mp h
  obtain ⟨tx₁, tx', htx₁, _, _, hrun, rfl⟩ := statement_eq_ok.mp (wrapError_eq_ok.mp hsave)
  rw [htx] at htx₁
  cases htx₁
  cases hrun
  obtain ⟨r, w₂, hattempt, h⟩ := bind_eq_ok.mp h
  obtain ⟨k, hcopy, rfl⟩ | ⟨err, hcopy, rfl⟩ := attempt_eq_ok.mp hattempt
  . obtain ⟨rows, db, n, hrows, _, hdb, rfl⟩ := copyMeasurementsM_eq_ok rfl hcopy
    obtain ⟨hinsert, hk⟩ := copyMeasurements_eq_ok hdb
    change k = rows.length at hk
    obtain ⟨_, w₃, hrelease, h⟩ := bind_eq_ok.mp h
    obtain ⟨tx₂, tx', ⟨⟩, habort, _, hrun, rfl⟩ := statement_eq_ok.mp (wrapError_eq_ok.mp hrelease)
    cases hrun
    injection h with hing hw
    subst hing hw
    refine ⟨_, _, rfl, ⟨rows, k, hrows, hinsert, rfl, ?_⟩, habort, rfl, rfl, rfl, rfl, htemp⟩
    rw [hk, Nat.sub_self]
    rfl
  . have := copyMeasurementsM_error rfl hcopy
    subst this
    dsimp only at h
    split at h
    . -- the savepoint has what the transaction had before the copy
      obtain ⟨_, w₃, hback, h⟩ := bind_eq_ok.mp h
      obtain ⟨tx₂, saved, ⟨⟩, _, ⟨⟩, rfl⟩ := rollbackToSavepoint_eq_ok.mp (wrapError_eq_ok.mp hback)
      obtain ⟨tx', n, rfl, hflushed⟩ := flushDedup_eq_ok rfl (by exact htemp) h
      exact ⟨tx', n, rfl, ⟨hflushed.insert, hflushed.aborted, hflushed.rows, hflushed.results,
        hflushed.runID, hflushed.machineID, hflushed.tempReady⟩⟩
    . cases h

theorem flush_eq_ok (htx : w.tx = some tx) (habort : tx.aborted = false)
    (htemp : ing.tempReady = tx.ingestBatch.isSome) (h : ing.flush w = .ok ing' w')
    : ∃ tx' n, w' = w.on tx' n ∧ Flushed w.jsonb ing ing' tx tx' := by
  unfold Ingestion.flush at h
  split at h
  . rename_i hnil
    rw [List.length_eq_zero_iff] at hnil
    injection h with hing hw
    subst hing hw
    refine ⟨tx, w.commands, (World.on_self htx).symm, ⟨[], 0, ?_, ?_, rfl, rfl⟩, habort, hnil, rfl,
      rfl, rfl, htemp⟩
    . rw [hnil]
      rfl
    . simp [Db.insertIgnore, Db.checkReferences, Table.firsts]
  . split at h
    . exact flushDedup_eq_ok htx htemp h
    . exact flushCopy_eq_ok htx htemp h

theorem insertIgnore_eq_ok {db db' : Db} {rows : List MeasurementRow} {n : Nat}
    : db.insertIgnore rows = .ok (n, db')
      ↔ (∀ row ∈ Table.firsts MeasurementRow.key db.measurements.keys rows, db.References row)
        ∧ n = (Table.firsts MeasurementRow.key db.measurements.keys rows).length
        ∧ db' = { db with measurements := db.measurements.insertAllIgnore rows } := by
  unfold Db.insertIgnore Db.checkReferences
  constructor
  . intro h
    obtain ⟨_, hrefs, hpure⟩ := except_bind_eq_ok.mp h
    split at hrefs
    . rename_i hall
      injection hpure with hpure
      injection hpure with hn hdb
      exact ⟨hall, hn.symm, hdb.symm⟩
    . split at hrefs <;> cases hrefs
  . rintro ⟨hall, rfl, rfl⟩
    exact except_bind_eq_ok.mpr ⟨(), if_pos hall, rfl⟩

theorem insertIgnore_append_eq_ok {db db' : Db} {rows rows' : List MeasurementRow} {k : Nat}
    : db.insertIgnore (rows ++ rows') = .ok (k, db') ↔ ∃ n m mid,
        db.insertIgnore rows = .ok (n, mid) ∧ mid.insertIgnore rows' = .ok (m, db') ∧ k = n + m := by
  simp only [insertIgnore_eq_ok, Table.firsts_append, List.length_append]
  constructor
  . rintro ⟨hrefs, rfl, rfl⟩
    refine ⟨_, _, _, ⟨?_, rfl, rfl⟩, ⟨?_, rfl, ?_⟩, rfl⟩
    . exact fun row hrow => hrefs row (List.mem_append_left _ hrow)
    . exact fun row hrow => hrefs row (List.mem_append_right _ hrow)
    . rw [Table.insertAllIgnore_append]
  . rintro ⟨_, _, _, ⟨hrefs, rfl, rfl⟩, ⟨hrefs', rfl, rfl⟩, rfl⟩
    refine ⟨?_, rfl, ?_⟩
    . intro row hrow
      obtain hrow | hrow := List.mem_append.mp hrow
      . exact hrefs row hrow
      . exact hrefs' row hrow
    . rw [Table.insertAllIgnore_append]

section

variable {base : Db} {jsonb : Json → Bool} {runID machineID : String} {rs : List Result}

/--
An ingest that has been given the results `rs`: the earlier ones are in the transaction, the others
are in the batch.
-/
structure InFlight (base : Db) (jsonb : Json → Bool) (runID machineID : String) (rs : List Result)
    (ing : Ingestion) (w : World) (tx : Tx) : Prop where
  current : w.tx = some tx
  aborted : tx.aborted = false
  tempReady : ing.tempReady = tx.ingestBatch.isSome
  rows : ∃ early late flushed, rs = early ++ late
    ∧ early.mapM (rowOf jsonb runID machineID) = .ok flushed
    ∧ late.mapM (pendingRow runID machineID) = .ok ing.rows
    ∧ base.insertIgnore flushed = .ok (ing.inserted, tx.db)
    ∧ ing.inserted + ing.skipped = early.length
  results : ing.results = rs.length
  runID : ing.runID = runID
  machineID : ing.machineID = machineID
  jsonb : w.jsonb = jsonb

theorem insertIgnore_le {db db' : Db} {rows : List MeasurementRow} {n : Nat}
    (h : db.insertIgnore rows = .ok (n, db'))
    : n ≤ rows.length := by
  obtain ⟨_, rfl, _⟩ := insertIgnore_eq_ok.mp h
  exact Table.length_firsts_le

theorem InFlight.flush (h : InFlight base jsonb runID machineID rs ing w tx)
    (hok : ing.flush w = .ok ing' w')
    : ∃ tx' n, w' = w.on tx' n ∧ InFlight base jsonb runID machineID rs ing' w' tx'
      ∧ ing'.rows = [] := by
  obtain ⟨tx', n, rfl, hflushed⟩ := flush_eq_ok h.current h.aborted h.tempReady hok
  obtain ⟨early, late, flushed, rfl, hearly, hlate, hinserted, hcount⟩ := h.rows
  obtain ⟨rows, k, hrows, hinsert, hinserted', hskipped⟩ := hflushed.insert
  rw [h.jsonb] at hrows
  have hlate : late.mapM (rowOf jsonb runID machineID) = .ok rows :=
    mapM_bind_eq_ok.mpr ⟨_, hlate, hrows⟩
  have hlen : late.length = rows.length := (mapM_eq_ok.mp hlate).length_eq
  have hle := insertIgnore_le hinsert
  refine ⟨tx', n, rfl, ?_, hflushed.rows⟩
  exact
    { current := rfl
      aborted := hflushed.aborted
      tempReady := hflushed.tempReady
      rows := by
        refine ⟨early ++ late, [], flushed ++ rows, (List.append_nil _).symm,
          mapM_append_eq_ok.mpr ⟨_, _, hearly, hlate, rfl⟩, ?_, ?_, ?_⟩
        . rw [hflushed.rows]
          rfl
        . exact insertIgnore_append_eq_ok.mpr ⟨_, _, _, hinserted, hinsert, hinserted'⟩
        . rw [hinserted', hskipped, List.length_append, hlen]
          omega
      results := hflushed.results.trans h.results
      runID := hflushed.runID.trans h.runID
      machineID := hflushed.machineID.trans h.machineID
      jsonb := h.jsonb }

theorem InFlight.push (h : InFlight base jsonb runID machineID rs ing w tx) {r : Result} {ts : Time}
    (hts : ParseTimestamp r.timestamp = .ok ts)
    : InFlight base jsonb runID machineID (rs ++ [r])
      { ing with
        rows := ing.rows
          ++ [{ runID := ing.runID, machineID := ing.machineID, result := r, recordedAt := ts }]
        results := ing.results + 1 } w tx := by
  obtain ⟨early, late, flushed, rfl, hearly, hlate, hinserted, hcount⟩ := h.rows
  exact
    { h with
      rows := by
        refine ⟨early, late ++ [r], flushed, List.append_assoc .., hearly, ?_, hinserted, hcount⟩
        refine mapM_append_eq_ok.mpr ⟨_, _, hlate, ?_, rfl⟩
        rw [List.mapM_cons, h.runID, h.machineID]
        exact except_bind_eq_ok.mpr ⟨_, except_bind_eq_ok.mpr ⟨_, hts, rfl⟩, rfl⟩
      results := by simp [h.results, Nat.add_assoc] }

theorem InFlight.add (h : InFlight base jsonb runID machineID rs ing w tx) {r : Result}
    (hok : ing.add r w = .ok ing' w')
    : ∃ tx' n, w' = w.on tx' n ∧ InFlight base jsonb runID machineID (rs ++ [r]) ing' w' tx' := by
  unfold Ingestion.add at hok
  obtain ⟨ts, w₁, hlift, hbatch⟩ := bind_eq_ok.mp hok
  obtain ⟨hts, rfl⟩ := liftResult_eq_ok.mp hlift
  have hpush := h.push hts
  dsimp only at hbatch
  split at hbatch
  . obtain ⟨tx', n, rfl, hflight, _⟩ := hpush.flush hbatch
    exact ⟨tx', n, rfl, hflight⟩
  . injection hbatch with hing hw
    subst hing hw
    exact ⟨tx, w₁.commands, (World.on_self h.current).symm, hpush⟩

theorem InFlight.addAll (h : InFlight base jsonb runID machineID rs ing w tx) {rs' : List Result}
    (hok : Ingestion.addAll rs' ing w = .ok ing' w')
    : ∃ tx' n, w' = w.on tx' n ∧ InFlight base jsonb runID machineID (rs ++ rs') ing' w' tx' := by
  induction rs' generalizing rs ing w tx with
  | nil =>
    injection hok with hing hw
    subst hing hw
    exact ⟨tx, w.commands, (World.on_self h.current).symm, by rwa [List.append_nil]⟩
  | cons r rs' ih =>
    obtain ⟨ing₁, w₁, hadd, hok⟩ := bind_eq_ok.mp hok
    obtain ⟨tx₁, n, rfl, h₁⟩ := h.add hadd
    obtain ⟨tx', n', rfl, h'⟩ := ih h₁ hok
    exact ⟨tx', n', rfl, by rwa [List.append_assoc] at h'⟩

theorem begin_eq_ok {a : Unit}
    : begin w = .ok a w' ↔ w.fault w.commands = none
      ∧ w' = w.on (Tx.start w.db) (w.commands + 1) := by
  unfold begin
  cases w.fault w.commands <;> simp [World.on, eq_comm]

theorem insertMachine_eq_ok {m : Machine} {started finished : Time} {a : Unit}
    (htx : w.tx = some tx) (h : insertMachine m started finished w = .ok a w')
    : ∃ db n, tx.db.insertMachine m started finished = .ok db
      ∧ w' = w.on { tx with db := db } n := by
  obtain ⟨tx₁, db, htx₁, _, _, hrun, rfl⟩ := onDb_eq_ok.mp h
  rw [htx] at htx₁
  cases htx₁
  obtain ⟨db', hdb, hpure⟩ := except_bind_eq_ok.mp hrun
  injection hpure with hpure
  injection hpure with _ hpure
  subst hpure
  exact ⟨db', _, hdb, rfl⟩

theorem insertRun_eq_ok {env : RunEnvelope} {started finished : Time} {argv : Json} {k : Nat}
    (htx : w.tx = some tx) (h : insertRun env started finished argv w = .ok k w')
    : ∃ db n, tx.db.insertRun w.jsonb env started finished argv = .ok (k, db)
      ∧ w' = w.on { tx with db := db } n := by
  obtain ⟨tx₁, db, htx₁, _, _, hrun, rfl⟩ := onDb_eq_ok.mp h
  rw [htx] at htx₁
  cases htx₁
  exact ⟨db, _, hrun, rfl⟩

theorem insertIgnore_nil {db : Db} : db.insertIgnore [] = .ok (0, db) :=
  insertIgnore_eq_ok.mpr ⟨by simp [Table.firsts], rfl, rfl⟩

theorem beginWith_eq_ok {mode : Bool → Bool} {env : RunEnvelope}
    (h : beginWith mode env w = .ok ing w')
    : ∃ n base tx c, w.db.beginRun w.jsonb env = .ok (n, base) ∧ w' = w.on tx c
      ∧ InFlight base w.jsonb env.runID env.machine.id [] ing w' tx := by
  obtain ⟨begun, w₁, h₁, hmode⟩ := bind_eq_ok.mp h
  unfold beginIngest at h₁
  obtain ⟨started, w₂, hlift, h₂⟩ := bind_eq_ok.mp h₁
  obtain ⟨hstarted, rfl⟩ := liftResult_eq_ok.mp hlift
  obtain ⟨finished, w₃, hlift', h₃⟩ := bind_eq_ok.mp h₂
  obtain ⟨hfinished, rfl⟩ := liftResult_eq_ok.mp hlift'
  obtain ⟨_, w₄, hopen, h₄⟩ := bind_eq_ok.mp h₃
  obtain ⟨_, rfl⟩ := begin_eq_ok.mp (wrapError_eq_ok.mp hopen)
  obtain ⟨_, w₅, hupsert, h₅⟩ := bind_eq_ok.mp h₄
  obtain ⟨db, _, hmachine, rfl⟩ :=
    insertMachine_eq_ok rfl (wrapError_eq_ok.mp (orRollback_eq_ok.mp hupsert))
  obtain ⟨affected, w₆, hinsert, h₆⟩ := bind_eq_ok.mp h₅
  obtain ⟨base, n, hrun, rfl⟩ :=
    insertRun_eq_ok rfl (wrapError_eq_ok.mp (orRollback_eq_ok.mp hinsert))
  injection h₆ with hing hw
  subst hing hw
  injection hmode with hing hw
  subst hing hw
  refine ⟨affected, base, _, n, ?_, rfl, ?_⟩
  . refine except_bind_eq_ok.mpr ⟨_, hstarted, except_bind_eq_ok.mpr ⟨_, hfinished, ?_⟩⟩
    exact except_bind_eq_ok.mpr ⟨_, hmachine, hrun⟩
  . exact
      { current := rfl
        aborted := rfl
        tempReady := rfl
        rows := ⟨[], [], [], rfl, rfl, rfl, insertIgnore_nil, rfl⟩
        results := rfl
        runID := rfl
        machineID := rfl
        jsonb := rfl }

theorem commit_eq_ok {a : Unit} (htx : w.tx = some tx) (h : Store.commit w = .ok a w')
    : tx.aborted = false ∧ w.fault w.commands = none
      ∧ w' = { w with tx := none, db := tx.db, commands := w.commands + 1 } := by
  unfold Store.commit at h
  rw [htx] at h
  dsimp only at h
  split at h
  . cases h
  . rename_i hfault
    split at h
    . cases h
    . rename_i habort
      injection h with _ h
      exact ⟨Bool.eq_false_iff.mpr habort, hfault, h.symm⟩

theorem InFlight.commit (h : InFlight base jsonb runID machineID rs ing w tx) {res : IngestResult}
    (hok : ing.commit w = .ok res w')
    : ∃ rows n, rs.mapM (rowOf jsonb runID machineID) = .ok rows
      ∧ base.insertIgnore rows = .ok (n, w'.db) ∧ w'.tx = none
      ∧ res =
        { runID := runID, results := rs.length, inserted := n, skipped := rs.length - n,
          duplicate := n = 0 ∧ 0 < rs.length, machineID := machineID } := by
  unfold Ingestion.commit at hok
  obtain ⟨ing', w₁, hflush, h₁⟩ := bind_eq_ok.mp hok
  obtain ⟨tx', n, rfl, hflight, hrows⟩ := h.flush (orRollback_eq_ok.mp hflush)
  obtain ⟨_, w₂, hcommit, h₂⟩ := bind_eq_ok.mp h₁
  obtain ⟨_, _, rfl⟩ := commit_eq_ok rfl (wrapError_eq_ok.mp hcommit)
  injection h₂ with hres hw
  subst hres hw
  obtain ⟨early, late, flushed, rfl, hearly, hlate, hinserted, hcount⟩ := hflight.rows
  -- nothing is left in the batch
  rw [hrows] at hlate
  have hnil : late = [] := List.eq_nil_of_length_eq_zero (mapM_eq_ok.mp hlate).length_eq
  subst hnil
  rw [List.append_nil] at hflight ⊢
  refine ⟨flushed, ing'.inserted, hearly, hinserted, rfl, ?_⟩
  have hskipped : ing'.skipped = early.length - ing'.inserted := by omega
  rw [hskipped, hflight.results, hflight.runID, hflight.machineID]

theorem ingestAll_eq_ok {mode : Bool → Bool} {env : RunEnvelope} {res : IngestResult}
    (h : ingestAll mode env rs w = .ok res w')
    : w.db.ingest w.jsonb env rs = .ok (res, w'.db) ∧ w'.tx = none := by
  obtain ⟨ing, w₁, hbegin, h₁⟩ := bind_eq_ok.mp h
  obtain ⟨k, base, tx, c, hbase, rfl, hflight⟩ := beginWith_eq_ok hbegin
  obtain ⟨ing', w₂, hadd, hcommit⟩ := bind_eq_ok.mp h₁
  obtain ⟨tx', c', rfl, hflight'⟩ := hflight.addAll (orRollback_eq_ok.mp hadd)
  obtain ⟨rows, n, hrows, hinsert, htx, rfl⟩ := hflight'.commit hcommit
  refine ⟨?_, htx⟩
  refine except_bind_eq_ok.mpr ⟨_, hbase, except_bind_eq_ok.mpr ⟨rows, hrows, ?_⟩⟩
  exact except_bind_eq_ok.mpr ⟨_, hinsert, rfl⟩

end

end Store
end Api
