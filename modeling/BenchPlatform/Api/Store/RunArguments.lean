import BenchPlatform.Api.Store.IngestTotal

/-!
This module proves what the arguments of a run have to do with the outcome of an ingest: they are
stored with a run that is new, and must be storable in any case.
-/

namespace Api
namespace Store

open Model Program

variable {db db' : Db} {jsonb : Json → Bool} {env env' : RunEnvelope} {rs : List Result}
  {res : IngestResult} {started finished : Time} {argv argv' : Json} {w w' : World}

theorem marshalArgv_eq_null {argv : Option (List String)} : marshalArgv argv = .null ↔ argv = none := by
  cases argv <;> simp [marshalArgv]

theorem encodeJsonb_eq_ok {v v' : Json} : encodeJsonb jsonb v = .ok v' ↔ jsonb v ∧ v' = v := by
  unfold encodeJsonb
  split <;> simp [*, eq_comm]

theorem encodeRun_eq
    : encodeRun jsonb env started finished argv = do
        let row ← encodeRun (fun _ => true) env started finished .null
        let argv ← encodeJsonb jsonb argv
        return { row with argv := argv } := by
  unfold encodeRun
  simp only [bind_assoc]
  rfl

theorem encodeRun_eq_ok {row : RunRow}
    : encodeRun jsonb env started finished argv = .ok row
      ↔ ∃ row₀, encodeRun (fun _ => true) env started finished .null = .ok row₀
        ∧ jsonb argv ∧ row = { row₀ with argv := argv } := by
  rw [encodeRun_eq]
  simp only [except_bind_eq_ok, encodeJsonb_eq_ok]
  constructor
  . rintro ⟨row₀, hrow₀, _, ⟨hargv, rfl⟩, hpure⟩
    injection hpure with hpure
    exact ⟨row₀, hrow₀, hargv, hpure.symm⟩
  . rintro ⟨row₀, hrow₀, hargv, rfl⟩
    exact ⟨row₀, hrow₀, argv, ⟨hargv, rfl⟩, rfl⟩

def RunStored (db : Db) (env : RunEnvelope) : Prop :=
  ∃ u ∈ db.runs.keys, parseUuid env.runID = some u

theorem encodeRun_id {row : RunRow} (h : encodeRun jsonb env started finished argv = .ok row)
    : parseUuid env.runID = some row.id := by
  obtain ⟨id, hid, h⟩ := except_bind_eq_ok.mp h
  obtain ⟨_, _, h₁⟩ := except_bind_eq_ok.mp h
  obtain ⟨_, _, h₂⟩ := except_bind_eq_ok.mp h₁
  obtain ⟨_, _, h₃⟩ := except_bind_eq_ok.mp h₂
  obtain ⟨_, _, hpure⟩ := except_bind_eq_ok.mp h₃
  injection hpure with hpure
  subst hpure
  unfold encodeUuid at hid
  split at hid
  . rename_i hparse
    injection hid with hid
    rw [hparse, hid]
  . cases hid

theorem Db.insertRun_iff {k : Nat}
    : db.insertRun jsonb env started finished argv = .ok (k, db') ↔ ∃ row,
        encodeRun (fun _ => true) env started finished .null = .ok row ∧ jsonb argv
        ∧ if row.id ∈ db.runs.keys then
            k = 0 ∧ db' = db
          else
            row.machineID ∈ db.machines.keys ∧ k = 1
            ∧ db' = { db with runs := db.runs.insertIgnore { row with argv := argv } } := by
  unfold Db.insertRun
  rw [except_bind_eq_ok]
  constructor
  . rintro ⟨_, hencode, h⟩
    obtain ⟨row, hrow, hargv, rfl⟩ := encodeRun_eq_ok.mp hencode
    refine ⟨row, hrow, hargv, ?_⟩
    dsimp only at h
    split at h
    . rename_i hmem
      injection h with h
      injection h with hk hdb
      rw [if_pos hmem]
      exact ⟨hk.symm, hdb.symm⟩
    . rename_i hmem
      rw [if_neg hmem]
      split at h
      . cases h
      . rename_i hmachine
        injection h with h
        injection h with hk hdb
        exact ⟨not_not.mp hmachine, hk.symm, hdb.symm⟩
  . rintro ⟨row, hrow, hargv, h⟩
    refine ⟨_, encodeRun_eq_ok.mpr ⟨row, hrow, hargv, rfl⟩, ?_⟩
    dsimp only
    split at h
    . rename_i hmem
      obtain ⟨rfl, rfl⟩ := h
      rw [if_pos hmem]
      rfl
    . rename_i hmem
      obtain ⟨hmachine, rfl, rfl⟩ := h
      rw [if_neg hmem, if_neg (not_not.mpr hmachine)]
      rfl

theorem insertRun_argv {k : Nat} (h : db.insertRun jsonb env started finished argv = .ok (k, db'))
    (hargv' : jsonb argv')
    : ∃ db'', db.insertRun jsonb env started finished argv' = .ok (k, db'')
      ∧ db''.measurements = db'.measurements ∧ db''.machines = db'.machines
      ∧ db''.runs.keys = db'.runs.keys ∧ (RunStored db env → db'' = db') := by
  obtain ⟨row, hrow, _, h⟩ := Db.insertRun_iff.mp h
  split at h
  . rename_i hmem
    obtain ⟨rfl, rfl⟩ := h
    refine ⟨db', Db.insertRun_iff.mpr ⟨row, hrow, hargv', ?_⟩, rfl, rfl, rfl, fun _ => rfl⟩
    rw [if_pos hmem]
    exact ⟨rfl, rfl⟩
  . rename_i hmem
    obtain ⟨hmachine, rfl, rfl⟩ := h
    have hinsert : db.insertRun jsonb env started finished argv' = .ok (1, _) :=
      Db.insertRun_iff.mpr ⟨row, hrow, hargv', by rw [if_neg hmem]; exact ⟨hmachine, rfl, rfl⟩⟩
    refine ⟨_, hinsert, rfl, rfl, ?_, ?_⟩
    . have hkeys : ∀ a, (db.runs.insertIgnore { row with argv := a }).keys
          = db.runs.keys ++ [row.id] :=
        fun a => Table.keys_insertIgnore (r := { row with argv := a }) hmem
      exact (hkeys argv').trans (hkeys argv).symm
    . rintro ⟨u, hu, hparse⟩
      rw [encodeRun_id hrow] at hparse
      cases hparse
      exact absurd hu hmem

theorem insertIgnore_runs {db₁ db₂ : Db} {rows : List MeasurementRow} {n : Nat}
    (hmeasurements : db₁.measurements = db₂.measurements) (hmachines : db₁.machines = db₂.machines)
    (hruns : db₁.runs.keys = db₂.runs.keys) (h : db₂.insertIgnore rows = .ok (n, db'))
    : db₁.insertIgnore rows = .ok (n, { db' with runs := db₁.runs }) := by
  obtain ⟨hrefs, hn, rfl⟩ := insertIgnore_eq_ok.mp h
  refine insertIgnore_eq_ok.mpr ⟨?_, ?_, ?_⟩
  . intro row hrow
    rw [hmeasurements] at hrow
    unfold Db.References
    rw [hruns, hmachines]
    exact hrefs row hrow
  . rw [hmeasurements]
    exact hn
  . cases db₁
    cases hmeasurements
    cases hmachines
    rfl

theorem Db.insertMachine_runs {m : Machine} (h : db.insertMachine m started finished = .ok db')
    : db'.runs = db.runs := by
  obtain ⟨_, _, hpure⟩ := except_bind_eq_ok.mp h
  injection hpure with hpure
  subst hpure
  rfl

theorem ingest_steps (h : db.ingest jsonb env rs = .ok (res, db'))
    : ∃ started finished db₁ k base rows n,
        ParseTimestamp env.startedAt = .ok started ∧ ParseTimestamp env.finishedAt = .ok finished
        ∧ db.insertMachine env.machine started finished = .ok db₁
        ∧ db₁.insertRun jsonb env started finished (marshalArgv env.argv) = .ok (k, base)
        ∧ rs.mapM (rowOf jsonb env.runID env.machine.id) = .ok rows
        ∧ base.insertIgnore rows = .ok (n, db')
        ∧ ∀ (argv : Option (List String)) base' db'',
          db₁.insertRun jsonb env started finished (marshalArgv argv) = .ok (k, base') →
          base'.insertIgnore rows = .ok (n, db'') →
          db.ingest jsonb { env with argv := argv } rs = .ok (res, db'') := by
  obtain ⟨⟨k, base⟩, hbase, h₁⟩ := except_bind_eq_ok.mp h
  obtain ⟨started, hstarted, h₂⟩ := except_bind_eq_ok.mp hbase
  obtain ⟨finished, hfinished, h₃⟩ := except_bind_eq_ok.mp h₂
  obtain ⟨db₁, hmachine, hrun⟩ := except_bind_eq_ok.mp h₃
  obtain ⟨rows, hrows, h₄⟩ := except_bind_eq_ok.mp h₁
  obtain ⟨⟨n, db₂⟩, hinsert, hpure⟩ := except_bind_eq_ok.mp h₄
  injection hpure with hpure
  injection hpure with hres hdb
  subst hres hdb
  refine ⟨started, finished, db₁, k, base, rows, n, hstarted, hfinished, hmachine, hrun, hrows,
    hinsert, fun argv base' db'' hrun' hinsert' => ?_⟩
  refine except_bind_eq_ok.mpr ⟨(k, base'), ?_, except_bind_eq_ok.mpr ⟨rows, hrows,
    except_bind_eq_ok.mpr ⟨_, hinsert', rfl⟩⟩⟩
  exact except_bind_eq_ok.mpr ⟨started, hstarted, except_bind_eq_ok.mpr ⟨finished, hfinished,
    except_bind_eq_ok.mpr ⟨db₁, hmachine, hrun'⟩⟩⟩

theorem ingest_argv (h : db.ingest jsonb env rs = .ok (res, db')) {argv : Option (List String)}
    (hargv : jsonb (marshalArgv argv))
    : ∃ db'', db.ingest jsonb { env with argv := argv } rs = .ok (res, db'')
      ∧ (RunStored db env → db'' = db') := by
  obtain ⟨started, finished, db₁, k, base, rows, n, _, _, hmachine, hrun, _, hinsert, hrest⟩ :=
    ingest_steps h
  obtain ⟨base', hrun', hmeasurements, hmachines, hruns, hsame⟩ := insertRun_argv hrun hargv
  have hinsert' := insertIgnore_runs hmeasurements hmachines hruns hinsert
  refine ⟨_, hrest argv base' _ hrun' hinsert', fun hstored => ?_⟩
  have hbase' : base' = base := by
    apply hsame
    unfold RunStored
    rwa [Db.insertMachine_runs hmachine]
  subst hbase'
  obtain ⟨_, _, rfl⟩ := insertIgnore_eq_ok.mp hinsert
  rfl

theorem argv_of_ingest (h : db.ingest jsonb env rs = .ok (res, db'))
    : jsonb (marshalArgv env.argv)
      ∧ (¬RunStored db env → ∃ row ∈ db'.runs.rows, parseUuid env.runID = some row.id
          ∧ row.argv = marshalArgv env.argv) := by
  obtain ⟨started, finished, db₁, k, base, rows, n, _, _, hmachine, hrun, _, hinsert, _⟩ :=
    ingest_steps h
  obtain ⟨row, hrow, hargv, hif⟩ := Db.insertRun_iff.mp hrun
  refine ⟨hargv, fun hnew => ?_⟩
  have hkeys := Db.insertMachine_runs hmachine
  split at hif
  . rename_i hmem
    rw [hkeys] at hmem
    exact absurd ⟨row.id, hmem, encodeRun_id hrow⟩ hnew
  . rename_i hmem
    obtain ⟨_, _, rfl⟩ := hif
    obtain ⟨_, _, rfl⟩ := insertIgnore_eq_ok.mp hinsert
    have hid := encodeRun_id hrow
    refine ⟨{ row with argv := marshalArgv env.argv }, ?_, hid, rfl⟩
    change _ ∈ (db₁.runs.insertIgnore _).rows
    rw [Table.rows_insertIgnore (by exact hmem)]
    exact List.mem_append_right _ (List.mem_singleton_self _)

/--
What a run is stored with, but for its arguments.
-/
structure SameHeader (env env' : RunEnvelope) : Prop where
  runID : env.runID = env'.runID
  machine : env.machine = env'.machine
  startedAt : env.startedAt = env'.startedAt
  finishedAt : env.finishedAt = env'.finishedAt

theorem SameHeader.ingestAll {mode : Bool → Bool} (h : SameHeader env env')
    (hargv : env.argv = env'.argv)
    : ingestAll mode env rs = ingestAll mode env' rs := by
  obtain ⟨_, _, _, _, _, _, _, _⟩ := env
  obtain ⟨_, _, _, _, _, _, _, _⟩ := env'
  obtain ⟨hrun, hmachine, hstarted, hfinished⟩ := h
  dsimp only at hrun hmachine hstarted hfinished hargv
  subst hrun hmachine hstarted hfinished hargv
  rfl

theorem SameHeader.ingest (h : SameHeader env env') (hargv : env.argv = env'.argv)
    : db.ingest jsonb env rs = db.ingest jsonb env' rs := by
  obtain ⟨_, _, _, _, _, _, _, _⟩ := env
  obtain ⟨_, _, _, _, _, _, _, _⟩ := env'
  obtain ⟨hrun, hmachine, hstarted, hfinished⟩ := h
  dsimp only at hrun hmachine hstarted hfinished hargv
  subst hrun hmachine hstarted hfinished hargv
  rfl

theorem Db.insertRun_of_stored (hstored : RunStored db env) (hargv : jsonb argv)
    : db.insertRun jsonb env started finished argv
      = (fun _ => (0, db)) <$> encodeRun (fun _ => true) env started finished .null := by
  unfold Db.insertRun
  rw [encodeRun_eq]
  cases hrow : encodeRun (fun _ => true) env started finished .null with
  | error err => rfl
  | ok row =>
    have hmem : row.id ∈ db.runs.keys := by
      obtain ⟨u, hu, hparse⟩ := hstored
      rw [encodeRun_id hrow] at hparse
      cases hparse
      exact hu
    have hencode : encodeJsonb jsonb argv = .ok argv := encodeJsonb_eq_ok.mpr ⟨hargv, rfl⟩
    simp only [hencode, bind, Except.bind, pure, Except.pure, hmem, if_true]
    rfl

theorem insertRun_of_stored {tx : Tx} {started finished : Time} (htx : w.tx = some tx)
    (hstored : RunStored tx.db env) (hargv : w.jsonb argv) (hargv' : w.jsonb argv')
    : insertRun env started finished argv w = insertRun env started finished argv' w := by
  unfold insertRun onDb statement
  rw [htx]
  dsimp only
  rw [Db.insertRun_of_stored hstored hargv, Db.insertRun_of_stored hstored hargv']

theorem wrapError_congr {α : Type} {msg : Message} {x y : StoreM α} (h : x w = y w)
    : wrapError msg x w = wrapError msg y w := by
  unfold wrapError EStateM.adaptExcept
  rw [h]

theorem orRollback_congr {α : Type} {x y : StoreM α} (h : x w = y w)
    : orRollback x w = orRollback y w := by
  unfold orRollback
  rw [h]

theorem ingestAll_of_stored {mode : Bool → Bool} {argv : Option (List String)}
    (hstored : RunStored w.db env) (hargv : w.jsonb (marshalArgv argv))
    (hargv' : w.jsonb (marshalArgv env.argv))
    : ingestAll mode { env with argv := argv } rs w = ingestAll mode env rs w := by
  have hbegin : beginIngest { env with argv := argv } w = beginIngest env w := by
    unfold beginIngest
    refine bind_congr_ok fun started t₁ h₁ => ?_
    rw [(liftResult_eq_ok.mp h₁).2]
    refine bind_congr_ok fun finished t₂ h₂ => ?_
    rw [(liftResult_eq_ok.mp h₂).2]
    refine bind_congr_ok fun _ t₃ h₃ => ?_
    obtain ⟨_, rfl⟩ := begin_eq_ok.mp (wrapError_eq_ok.mp h₃)
    refine bind_congr_ok fun _ t₄ h₄ => ?_
    obtain ⟨db, n, hmachine, rfl⟩ := insertMachine_eq_ok rfl
      (wrapError_eq_ok.mp (orRollback_eq_ok.mp h₄))
    have hstored' : RunStored db env := by
      unfold RunStored
      rw [Db.insertMachine_runs hmachine]
      exact hstored
    exact bind_congr_left (orRollback_congr (wrapError_congr
      (insertRun_of_stored rfl hstored' hargv hargv')))
  exact bind_congr_left (bind_congr_left hbegin)

end Store
end Api
