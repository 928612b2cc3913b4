import BenchPlatform.Api.Store.IngestSpec

/-!
This module proves the converse: with a database on which no command fails for a reason of its own,
an ingest succeeds whenever what it is for can be done.
-/

namespace Api
namespace Store

open Model Program

variable {w w' : World} {tx : Tx} {ing ing' : Ingestion}

theorem Faultless.on {n : Nat} (h : w.Faultless) : (w.on tx n).Faultless :=
  h

theorem statement_of_run {α : Type} {run : (Json → Bool) → Tx → Except GoError (α × Tx)} {tx' : Tx}
    {a : α} (hfault : w.Faultless) (htx : w.tx = some tx) (habort : tx.aborted = false)
    (h : run w.jsonb tx = .ok (a, tx'))
    : statement run w = .ok a (w.on tx' (w.commands + 1)) :=
  statement_eq_ok.mpr ⟨tx, tx', htx, habort, hfault _, h, rfl⟩

theorem ensureTempTable_total (hfault : w.Faultless) (htx : w.tx = some tx)
    (habort : tx.aborted = false) (htemp : ing.tempReady = tx.ingestBatch.isSome)
    : ∃ batch n, ing.ensureTempTable w = .ok () (w.on { tx with ingestBatch := some batch } n) := by
  unfold Ingestion.ensureTempTable
  cases hready : ing.tempReady with
  | false =>
    have hnone : tx.ingestBatch = none :=
      Option.isNone_iff_eq_none.mp (Option.isSome_eq_false_iff.mp (htemp.symm.trans hready))
    refine ⟨[], w.commands + 1, wrapError_eq_ok.mpr (statement_of_run hfault htx habort ?_)⟩
    rw [hnone]
  | true =>
    obtain ⟨batch, hbatch⟩ := Option.isSome_iff_exists.mp (htemp.symm.trans hready)
    refine ⟨batch, w.commands, ?_⟩
    rw [← hbatch, if_pos rfl]
    exact congrArg _ (World.on_self htx).symm

theorem flushDedup_total {rows : List MeasurementRow} {r : Nat × Db} (hfault : w.Faultless)
    (htx : w.tx = some tx) (habort : tx.aborted = false)
    (htemp : ing.tempReady = tx.ingestBatch.isSome)
    (hrows : ing.rows.mapM (PendingRow.encode w.jsonb) = .ok rows)
    (hinsert : tx.db.insertIgnore rows = .ok r)
    : ∃ ing' w', ing.flushDedup w = .ok ing' w' := by
  obtain ⟨batch, n, hcreate⟩ := ensureTempTable_total hfault htx habort htemp
  have htruncate : wrapError [.text "truncate temp table"] truncateTempTable
      (w.on { tx with ingestBatch := some batch } n) = .ok () _ :=
    wrapError_eq_ok.mpr (statement_of_run (Faultless.on hfault) rfl habort rfl)
  have hcopy : wrapError [.text "copy into temp table"] (copyIntoTempTable ing.rows)
      (w.on { tx with ingestBatch := some [] } (n + 1)) = .ok _ _ :=
    wrapError_eq_ok.mpr (statement_of_run (Faultless.on hfault) rfl habort
      (except_bind_eq_ok.mpr ⟨rows, hrows, rfl⟩))
  have hinsert : wrapError [.text "insert from temp table"] insertFromTempTable
      (w.on { tx with ingestBatch := some rows } (n + 2)) = .ok _ _ :=
    wrapError_eq_ok.mpr (statement_of_run (Faultless.on hfault) rfl habort
      (except_bind_eq_ok.mpr ⟨_, rfl, except_bind_eq_ok.mpr ⟨r, hinsert, rfl⟩⟩))
  exact ⟨_, _, bind_eq_ok.mpr ⟨_, _, hcreate, bind_eq_ok.mpr ⟨_, _, htruncate,
    bind_eq_ok.mpr ⟨_, _, hcopy, bind_eq_ok.mpr ⟨_, _, hinsert, rfl⟩⟩⟩⟩⟩

theorem copyMeasurements_of_ok {pending : List PendingRow} {rows : List MeasurementRow}
    {r : Nat × Db} (hfault : w.Faultless) (htx : w.tx = some tx) (habort : tx.aborted = false)
    (hrows : pending.mapM (PendingRow.encode w.jsonb) = .ok rows)
    (h : tx.db.copyMeasurements rows = .ok r)
    : copyMeasurements pending w = .ok r.1 (w.on { tx with db := r.2 } (w.commands + 1)) :=
  onDb_eq_ok.mpr ⟨tx, r.2, htx, habort, hfault _, except_bind_eq_ok.mpr ⟨rows, hrows, h⟩, rfl⟩

theorem copyMeasurements_of_error {pending : List PendingRow} {rows : List MeasurementRow}
    {err : GoError} (hfault : w.Faultless) (htx : w.tx = some tx) (habort : tx.aborted = false)
    (hrows : pending.mapM (PendingRow.encode w.jsonb) = .ok rows)
    (h : tx.db.copyMeasurements rows = .error err)
    : copyMeasurements pending w = .error err (w.on tx.abort (w.commands + 1)) := by
  unfold copyMeasurements onDb statement
  rw [htx]
  simp only [hfault w.commands, habort, hrows, h, bind, Except.bind]
  rfl

theorem flushCopy_total {rows : List MeasurementRow} {r : Nat × Db} (hfault : w.Faultless)
    (htx : w.tx = some tx) (habort : tx.aborted = false)
    (htemp : ing.tempReady = tx.ingestBatch.isSome)
    (hrows : ing.rows.mapM (PendingRow.encode w.jsonb) = .ok rows)
    (hinsert : tx.db.insertIgnore rows = .ok r)
    : ∃ ing' w', ing.flushCopy w = .ok ing' w' := by
  have hsave : wrapError [.text "savepoint"] savepoint w
      = .ok () (w.on { tx with savepoint := some (tx.db, tx.ingestBatch) } (w.commands + 1)) :=
    wrapError_eq_ok.mpr (statement_of_run hfault htx habort rfl)
  obtain hcopy | hcopy := copyMeasurements_of_insertIgnore hinsert
  . have hcopy : attempt (copyMeasurements ing.rows) (w.on
        { tx with savepoint := some (tx.db, tx.ingestBatch) } (w.commands + 1)) = .ok (.ok _) _ :=
      attempt_eq_ok.mpr (.inl ⟨_, copyMeasurements_of_ok (Faultless.on hfault) rfl habort hrows hcopy,
        rfl⟩)
    have hrelease : wrapError [.text "release savepoint"] releaseSavepoint (w.on
        { tx with db := r.2, savepoint := some (tx.db, tx.ingestBatch) } (w.commands + 2))
        = .ok () _ :=
      wrapError_eq_ok.mpr (statement_of_run (Faultless.on hfault) rfl habort rfl)
    exact ⟨_, _, bind_eq_ok.mpr ⟨_, _, hsave, bind_eq_ok.mpr ⟨_, _, hcopy,
      bind_eq_ok.mpr ⟨_, _, hrelease, rfl⟩⟩⟩⟩
  . have hcopy : attempt (copyMeasurements ing.rows) (w.on
        { tx with savepoint := some (tx.db, tx.ingestBatch) } (w.commands + 1))
        = .ok (.error _) _ :=
      attempt_eq_ok.mpr (.inr ⟨_, copyMeasurements_of_error (Faultless.on hfault) rfl habort hrows
        hcopy, rfl⟩)
    have hback : wrapError [.text "rollback to savepoint"] rollbackToSavepoint (w.on
        { tx with savepoint := some (tx.db, tx.ingestBatch), aborted := true } (w.commands + 2))
        = .ok () (w.on { tx with savepoint := some (tx.db, tx.ingestBatch), aborted := false }
          (w.commands + 3)) :=
      wrapError_eq_ok.mpr (rollbackToSavepoint_eq_ok.mpr ⟨_, _, rfl, hfault _, rfl, rfl⟩)
    have hdedup : ∃ ing' w', { ing with dedup := true }.flushDedup (w.on
        { tx with savepoint := some (tx.db, tx.ingestBatch), aborted := false } (w.commands + 3))
        = .ok ing' w' :=
      flushDedup_total (Faultless.on hfault) rfl rfl htemp hrows hinsert
    obtain ⟨ing', w', hdedup⟩ := hdedup
    exact ⟨ing', w', bind_eq_ok.mpr ⟨_, _, hsave, bind_eq_ok.mpr ⟨_, _, hcopy,
      bind_eq_ok.mpr ⟨_, _, hback, hdedup⟩⟩⟩⟩

theorem flush_total {rows : List MeasurementRow} {r : Nat × Db} (hfault : w.Faultless)
    (htx : w.tx = some tx) (habort : tx.aborted = false)
    (htemp : ing.tempReady = tx.ingestBatch.isSome)
    (hrows : ing.rows.mapM (PendingRow.encode w.jsonb) = .ok rows)
    (hinsert : tx.db.insertIgnore rows = .ok r)
    : ∃ ing' w', ing.flush w = .ok ing' w' := by
  unfold Ingestion.flush
  split
  . exact ⟨ing, w, rfl⟩
  . split
    . exact flushDedup_total hfault htx habort htemp hrows hinsert
    . exact flushCopy_total hfault htx habort htemp hrows hinsert

variable {base : Db} {jsonb : Json → Bool} {runID machineID : String} {rs rs' : List Result}

/--
All the results, those to come included, can be stored in `base`.
-/
def CanStore (base : Db) (jsonb : Json → Bool) (runID machineID : String) (rs : List Result)
    : Prop :=
  ∃ rows r, rs.mapM (rowOf jsonb runID machineID) = .ok rows ∧ base.insertIgnore rows = .ok r

theorem InFlight.flush_total (h : InFlight base jsonb runID machineID rs ing w tx)
    (hfault : w.Faultless) (hstore : CanStore base jsonb runID machineID (rs ++ rs'))
    : ∃ ing' w', ing.flush w = .ok ing' w' := by
  obtain ⟨early, late, flushed, rfl, hearly, hlate, hinserted, _⟩ := h.rows
  obtain ⟨rows, ⟨k, db⟩, hall, hinsert⟩ := hstore
  -- the rows of the batch are a segment of all rows
  obtain ⟨_, _, hsofar, _, rfl⟩ := mapM_append_eq_ok.mp hall
  obtain ⟨_, lateRows, hearly', hlate', rfl⟩ := mapM_append_eq_ok.mp hsofar
  rw [hearly] at hearly'
  cases hearly'
  obtain ⟨_, _, mid, hmid, _, _⟩ := insertIgnore_append_eq_ok.mp hinsert
  obtain ⟨_, m, _, hflushed, hlateRows, _⟩ := insertIgnore_append_eq_ok.mp hmid
  rw [hinserted] at hflushed
  cases hflushed
  obtain ⟨pending, hpending, hencode⟩ := mapM_bind_eq_ok.mp hlate'
  rw [hlate] at hpending
  cases hpending
  refine Store.flush_total hfault h.current h.aborted h.tempReady ?_ hlateRows
  rw [h.jsonb]
  exact hencode

theorem InFlight.add_total (h : InFlight base jsonb runID machineID rs ing w tx) {r : Result}
    (hfault : w.Faultless) (hstore : CanStore base jsonb runID machineID (rs ++ r :: rs'))
    : ∃ ing' w', ing.add r w = .ok ing' w' := by
  have hts : ∃ ts, ParseTimestamp r.timestamp = .ok ts := by
    obtain ⟨rows, _, hall, _⟩ := hstore
    obtain ⟨_, _, _, hrest, _⟩ := mapM_append_eq_ok.mp hall
    rw [List.mapM_cons] at hrest
    obtain ⟨row, hrow, _⟩ := except_bind_eq_ok.mp hrest
    obtain ⟨pending, hpending, _⟩ := except_bind_eq_ok.mp hrow
    obtain ⟨ts, hts, _⟩ := except_bind_eq_ok.mp hpending
    exact ⟨ts, hts⟩
  obtain ⟨ts, hts⟩ := hts
  have hlift : liftResult (ParseTimestamp r.timestamp) w = .ok ts w :=
    liftResult_eq_ok.mpr ⟨hts, rfl⟩
  unfold Ingestion.add
  rw [bind_of_ok hlift]
  dsimp only
  split
  . apply (h.push hts).flush_total hfault
    rwa [List.append_assoc, List.singleton_append]
  . exact ⟨_, _, rfl⟩

theorem InFlight.addAll_total (h : InFlight base jsonb runID machineID rs ing w tx)
    (hfault : w.Faultless) (hstore : CanStore base jsonb runID machineID (rs ++ rs'))
    : ∃ ing' w', Ingestion.addAll rs' ing w = .ok ing' w' := by
  induction rs' generalizing rs ing w tx with
  | nil => exact ⟨ing, w, rfl⟩
  | cons r rs' ih =>
    obtain ⟨ing₁, w₁, hadd⟩ := h.add_total hfault hstore
    obtain ⟨tx₁, n, rfl, h₁⟩ := h.add hadd
    obtain ⟨ing', w', hrest⟩ := ih h₁ (Faultless.on hfault)
      (by rwa [List.append_assoc, List.singleton_append])
    exact ⟨ing', w', bind_eq_ok.mpr ⟨_, _, hadd, hrest⟩⟩

theorem InFlight.commit_total (h : InFlight base jsonb runID machineID rs ing w tx)
    (hfault : w.Faultless) (hstore : CanStore base jsonb runID machineID rs)
    : ∃ res w', ing.commit w = .ok res w' := by
  rw [← List.append_nil rs] at hstore
  obtain ⟨ing', w₁, hflush⟩ := h.flush_total hfault hstore
  obtain ⟨tx', n, rfl, hflight, _⟩ := h.flush hflush
  have hcommit : ∃ w', Store.commit (w.on tx' n) = .ok () w' := by
    refine ⟨{ w with tx := none, db := tx'.db, commands := n + 1 }, ?_⟩
    unfold Store.commit
    simp [World.on, hfault n, hflight.aborted]
  obtain ⟨w', hcommit⟩ := hcommit
  exact ⟨_, w', bind_eq_ok.mpr ⟨_, _, orRollback_eq_ok.mpr hflush,
    bind_eq_ok.mpr ⟨_, _, wrapError_eq_ok.mpr hcommit, rfl⟩⟩⟩

theorem beginWith_total {mode : Bool → Bool} {env : RunEnvelope} {r : Nat × Db}
    (hfault : w.Faultless) (h : w.db.beginRun w.jsonb env = .ok r)
    : ∃ ing w', beginWith mode env w = .ok ing w' := by
  obtain ⟨started, hstarted, h⟩ := except_bind_eq_ok.mp h
  obtain ⟨finished, hfinished, h⟩ := except_bind_eq_ok.mp h
  obtain ⟨db, hmachine, hrun⟩ := except_bind_eq_ok.mp h
  have hopen : wrapError [.text "begin"] begin w = .ok () _ :=
    wrapError_eq_ok.mpr (begin_eq_ok.mpr ⟨hfault _, rfl⟩)
  have hupsert : orRollback (upsertMachine env.machine started finished)
      (w.on (Tx.start w.db) (w.commands + 1)) = .ok () _ :=
    orRollback_eq_ok.mpr (wrapError_eq_ok.mpr (onDb_eq_ok.mpr ⟨_, db, rfl, rfl, hfault _,
      except_bind_eq_ok.mpr ⟨db, hmachine, rfl⟩, rfl⟩))
  have hinsert : orRollback (wrapError [.text "insert run"]
      (insertRun env started finished (marshalArgv env.argv))) (w.on (Tx.start db) (w.commands + 2))
      = .ok _ _ :=
    orRollback_eq_ok.mpr (wrapError_eq_ok.mpr (onDb_eq_ok.mpr ⟨_, _, rfl, rfl, hfault _, hrun, rfl⟩))
  have hbegin : beginIngest env w = .ok _ _ :=
    bind_eq_ok.mpr ⟨_, _, liftResult_eq_ok.mpr ⟨hstarted, rfl⟩,
      bind_eq_ok.mpr ⟨_, _, liftResult_eq_ok.mpr ⟨hfinished, rfl⟩,
        bind_eq_ok.mpr ⟨_, _, hopen, bind_eq_ok.mpr ⟨_, _, hupsert,
          bind_eq_ok.mpr ⟨_, _, hinsert, rfl⟩⟩⟩⟩⟩
  exact ⟨_, _, bind_eq_ok.mpr ⟨_, _, hbegin, rfl⟩⟩

theorem ingestAll_iff {mode : Bool → Bool} {env : RunEnvelope} {res : IngestResult} {db : Db}
    (hfault : w.Faultless)
    : (∃ w', ingestAll mode env rs w = .ok res w' ∧ w'.db = db)
      ↔ w.db.ingest w.jsonb env rs = .ok (res, db) := by
  constructor
  . rintro ⟨w', h, rfl⟩
    exact (ingestAll_eq_ok h).1
  . intro h
    have hparts := h
    obtain ⟨⟨k, base⟩, hbase, hparts⟩ := except_bind_eq_ok.mp hparts
    obtain ⟨rows, hrows, hparts⟩ := except_bind_eq_ok.mp hparts
    obtain ⟨⟨n, db'⟩, hinsert, _⟩ := except_bind_eq_ok.mp hparts
    have hstore : CanStore base w.jsonb env.runID env.machine.id rs := ⟨rows, _, hrows, hinsert⟩
    have hbegin : ∃ ing w', beginWith mode env w = .ok ing w' := beginWith_total hfault hbase
    obtain ⟨ing, w₁, hbegin⟩ := hbegin
    obtain ⟨_, base', tx, c, hbase', rfl, hflight⟩ := beginWith_eq_ok hbegin
    rw [hbase] at hbase'
    cases hbase'
    obtain ⟨ing', w₂, hadd⟩ := hflight.addAll_total (Faultless.on hfault) hstore
    obtain ⟨tx', c', rfl, hflight'⟩ := hflight.addAll hadd
    obtain ⟨res', w', hcommit⟩ := hflight'.commit_total (Faultless.on hfault) hstore
    have hall : ingestAll mode env rs w = .ok res' w' :=
      bind_eq_ok.mpr ⟨_, _, hbegin, bind_eq_ok.mpr ⟨_, _, orRollback_eq_ok.mpr hadd, hcommit⟩⟩
    have heq := (ingestAll_eq_ok hall).1
    rw [h] at heq
    cases heq
    exact ⟨w', hall, rfl⟩

end Store
end Api
