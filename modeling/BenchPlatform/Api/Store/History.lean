import BenchPlatform.Api.Store.Encoded
import BenchPlatform.Api.Store.SetSemantics
import BenchPlatform.Lib.Trans

/-!
This module contains histories of ingests, and what it takes for the measurements and the runs to
agree on their machines.
-/

namespace Api
namespace Store

open Model Program

/--
What a client sends: a body that is streamed into the database, or an envelope that has been decoded
before.
-/
inductive Request where
  | stream (body : Body) (maxResults : Int)
  | decoded (env : RunEnvelope)

def Request.ingest : Request → StoreM IngestResult
  | .stream body maxResults => IngestStream body maxResults
  | .decoded env => IngestRun env

/--
What a request that the validators accept stores: some results, under the header as it is when they
are handed over.
-/
inductive Request.Stores : Request → RunEnvelope → List Result → Prop where
  | stream {body : Body} {maxResults : Int} {env : RunEnvelope} {first : Delivery}
    {log : List Delivery} (h : Delivers body maxResults env (first :: log)) :
    Stores (.stream body maxResults) first.env ((first :: log).map (·.result))
  | decoded {env : RunEnvelope} (hvalid : env.Validate = .ok ()) (hne : env.results.getD [] ≠ []) :
    Stores (.decoded env) env (env.results.getD [])

def connect (jsonb : Json → Bool) (fault : Nat → Option GoError) (db : Db) : World where
  db := db
  tx := none
  commands := 0
  fault := fault
  jsonb := jsonb

structure Call where
  request : Request
  fault : Nat → Option GoError

def Db.step (jsonb : Json → Bool) (db : Db) (c : Call) : Option Db :=
  match c.request.ingest (connect jsonb c.fault db) with
  | .ok _ w => some w.db
  | .error _ _ => none

def Db.run (jsonb : Json → Bool) (db : Db) (calls : List Call) : Db :=
  Trans.run (Db.step jsonb) db calls

variable {jsonb : Json → Bool} {db db' : Db} {c : Call} {r : Request} {env env' : RunEnvelope}
  {rs rs' : List Result} {w w' : World} {res : IngestResult} {e e' : Encoded} {r' : Result}

theorem Request.ingest_eq_ok
    : r.ingest w = .ok res w' ↔ ∃ env rs, r.Stores env rs ∧ ingestAll id env rs w = .ok res w' := by
  cases r with
  | stream body maxResults =>
    change ingestStreamWith id body maxResults w = _ ↔ _
    rw [ingestStreamWith_eq_ok]
    constructor
    . rintro ⟨env, first, log, hdelivers, hall⟩
      exact ⟨_, _, .stream hdelivers, hall⟩
    . rintro ⟨_, _, ⟨hdelivers⟩, hall⟩
      exact ⟨_, _, _, hdelivers, hall⟩
  | decoded env =>
    change ingestRunWith id env w = _ ↔ _
    rw [ingestRunWith_eq_ok]
    constructor
    . rintro ⟨hvalid, hne, hall⟩
      exact ⟨_, _, .decoded hvalid hne, hall⟩
    . rintro ⟨_, _, hstores, hall⟩
      cases hstores with
      | decoded hvalid hne => exact ⟨hvalid, hne, hall⟩

theorem Request.Stores.unique (h : r.Stores env rs) (h' : r.Stores env' rs')
    : env = env' ∧ rs = rs' := by
  cases h with
  | stream hdelivers =>
    cases h' with
    | stream hdelivers' =>
      have hsame := hdelivers.symm.trans hdelivers'
      cases hsame
      exact ⟨rfl, rfl⟩
  | decoded _ _ =>
    cases h' with
    | decoded _ _ => exact ⟨rfl, rfl⟩

theorem step_eq_some (h : db.step jsonb c = some db')
    : ∃ env rs e, c.request.Stores env rs ∧ encode jsonb env rs = .ok e ∧ db' = db.store e := by
  unfold Db.step at h
  split at h
  . rename_i res w hok
    injection h with h
    obtain ⟨env, rs, hstores, hall⟩ := Request.ingest_eq_ok.mp hok
    obtain ⟨e, hencode, hdb, _⟩ := ingest_iff.mp (ingestAll_eq_ok hall).1
    exact ⟨env, rs, e, hstores, hencode, h.symm.trans hdb⟩
  . cases h

def resultKey (runID : Uuid) (r : Result) : MeasurementKey where
  runID := runID
  metric := r.metric
  threadCount := r.threadCount
  workingSetBytes := r.workingSetBytes
  trial := r.trial

def MachinesAgree (db : Db) : Prop :=
  ∀ m ∈ db.measurements.rows, ∃ run ∈ db.runs.rows, run.id = m.runID ∧ run.machineID = m.machineID

/--
If there is a run with this id, it is one of the same machine, or all the results are there, too.
-/
def SameMachine (db : Db) (c : Call) : Prop :=
  ∀ env rs, c.request.Stores env rs → ∀ run ∈ db.runs.rows, parseUuid env.runID = some run.id →
    run.machineID = env.machine.id ∨ ∀ r ∈ rs, resultKey run.id r ∈ db.measurements.keys

theorem rowOf_key {row : MeasurementRow} {u : Uuid}
    (h : rowOf jsonb env.runID env.machine.id r' = .ok row) (hrun : row.runID = u)
    : row.key = resultKey u r' := by
  obtain ⟨_, _, hmetric, hthreads, hws, htrial⟩ := rowOf_fields h
  simp only [MeasurementRow.key, resultKey, hrun, hmetric, hthreads, hws, htrial]

theorem encode_keys (h : encode jsonb env rs = .ok e)
    : e.measurements.map MeasurementRow.key = rs.map (resultKey e.run.id) := by
  obtain ⟨started, finished, _, _, _, _, hrows⟩ := encode_eq_ok.mp h
  have hrefers := (encode_refers h).2.2.2
  have hforall := mapM_eq_ok.mp hrows
  clear h hrows
  generalize e.measurements = rows at hforall hrefers
  induction hforall with
  | nil => rfl
  | cons hrow _ ih =>
    rw [List.forall_mem_cons] at hrefers
    rw [List.map_cons, List.map_cons, rowOf_key hrow hrefers.1.1, ih hrefers.2]

theorem mem_measurements_store {m : MeasurementRow}
    : m ∈ (db.store e).measurements.rows ↔ m ∈ db.measurements.rows ∨ m ∈ db.fresh e := by
  change m ∈ (db.measurements.insertAllIgnore e.measurements).rows ↔ _
  rw [Table.rows_insertAllIgnore, List.mem_append]
  rfl

theorem mem_runs_store {run : RunRow} (h : run ∈ db.runs.rows) : run ∈ (db.store e).runs.rows :=
  Table.mem_rows_insertIgnore h

theorem MachinesAgree.step (hdb : MachinesAgree db) (hok : SameMachine db c)
    (h : db.step jsonb c = some db')
    : MachinesAgree db' := by
  obtain ⟨env, rs, e, hstores, hencode, rfl⟩ := step_eq_some h
  obtain ⟨hid, _, hmachine, hrefers⟩ := encode_refers hencode
  intro m hm
  obtain hold | hnew := mem_measurements_store.mp hm
  . obtain ⟨run, hrun, hagrees⟩ := hdb m hold
    exact ⟨run, mem_runs_store hrun, hagrees⟩
  . obtain ⟨hrunID, hmachineID⟩ := hrefers m (Table.mem_of_mem_firsts hnew)
    by_cases hthere : e.run.id ∈ db.runs.keys
    . obtain ⟨run, hrun, hrunKey⟩ := List.mem_map.mp hthere
      refine ⟨run, mem_runs_store hrun, hrunKey.trans hrunID.symm, ?_⟩
      obtain hsame | hstored := hok env rs hstores run hrun (hid.trans (congrArg some hrunKey.symm))
      . exact hsame.trans hmachineID.symm
      . -- nothing is new
        exfalso
        have hkey : m.key ∈ rs.map (resultKey e.run.id) :=
          encode_keys hencode ▸ List.mem_map_of_mem (Table.mem_of_mem_firsts hnew)
        obtain ⟨r, hr, hrKey⟩ := List.mem_map.mp hkey
        apply (Table.mem_firsts.mp hnew).1
        rw [← hrKey, ← hrunKey]
        exact hstored r hr
    . refine ⟨e.run, ?_, hrunID.symm, hmachine.trans hmachineID.symm⟩
      change e.run ∈ (db.runs.insertIgnore e.run).rows
      rw [Table.rows_insertIgnore hthere]
      exact List.mem_append_right _ (List.mem_singleton_self _)

theorem sameMachine_of_agree (h : db.step jsonb c = some db') (hdb' : MachinesAgree db')
    : SameMachine db c := by
  obtain ⟨env, rs, e, hstores, hencode, rfl⟩ := step_eq_some h
  obtain ⟨hid, _, hmachine, hrefers⟩ := encode_refers hencode
  intro env' rs' hstores' run hrun hrunID
  obtain ⟨rfl, rfl⟩ := hstores'.unique hstores
  have hkey : run.id = e.run.id := Option.some.inj (hrunID.symm.trans hid)
  rw [or_iff_not_imp_right]
  intro hnew
  obtain ⟨r, hr, hnotStored⟩ : ∃ r ∈ rs', resultKey run.id r ∉ db.measurements.keys := by
    simpa using hnew
  -- the row that is inserted for this key
  have hmem : resultKey run.id r ∈ e.measurements.map MeasurementRow.key := by
    rw [encode_keys hencode, hkey]
    exact List.mem_map_of_mem hr
  obtain ⟨row, hrow, hrowKey⟩ := List.mem_map.mp hmem
  obtain ⟨m, hm, hmKey⟩ := Table.exists_firsts hrow (hrowKey ▸ hnotStored)
  obtain ⟨hmRun, hmMachine⟩ := hrefers m (Table.mem_of_mem_firsts hm)
  obtain ⟨run', hrun', hid', hmachine'⟩ := hdb' m (mem_measurements_store.mpr (.inr hm))
  have hsame : run' = run :=
    Table.eq_of_key_eq hrun' (mem_runs_store hrun) (hid'.trans (hmRun.trans hkey.symm))
  rw [← hsame, hmachine', hmMachine]

/--
In a history of ingests the measurements always have the machines of their runs, if and only if each
ingest respects the machine of its run.
-/
theorem machines_agree_iff (jsonb : Json → Bool) (calls : List Call)
    : Trans.Along (Db.step jsonb) SameMachine .empty calls
      ↔ ∀ pre, pre <+: calls → MachinesAgree (Db.run jsonb .empty pre) := by
  apply Trans.along_iff (I := MachinesAgree)
  . intro db c db' hdb hok h
    exact hdb.step hok h
  . exact fun _ h => h
  . intro db c db' _ h hdb'
    exact sameMachine_of_agree h hdb'
  . intro m hm
    cases hm

def exampleBody (machineID hostname trial : String) : Body :=
  .object
    [("schema_version", .num "1"), ("run_id", .str "11111111-2222-4333-8444-555555555555"),
      ("started_at", .str "2026-09-21T10:00:00Z"), ("finished_at", .str "2026-09-21T10:00:01Z"),
      ("machine", .obj [("id", .str machineID), ("hostname", .str hostname), ("cpu_model", .str "c"),
        ("physical_cores", .num "1"), ("logical_cpus", .num "1"), ("l1d_kb", .num "0"),
        ("l2_kb", .num "0"), ("l3_kb", .num "0"), ("memory_bytes", .num "0"), ("os", .str "o"),
        ("kernel", .str "k"), ("compiler", .str "gcc"), ("compiler_flags", .str ""),
        ("engine_version", .str "1"), ("engine_git_sha", .str "0")]),
      ("results", .arr [.obj [("workload", .str "cpu_int"), ("thread_count", .num "1"),
        ("working_set_bytes", .num "0"), ("metric", .str "cpu_int_ops"), ("value", .num "1"),
        ("unit", .str "ops/s"), ("trial", .num trial), ("timestamp", .str "2026-09-21T10:00:00Z"),
        ("duration_ns", .num "1")]])]
    .closed

def examplePost (machineID hostname trial : String) : Call where
  request := .stream (exampleBody machineID hostname trial) 10
  fault := fun _ => none

def twoMachines : List Call :=
  [examplePost "ffffffffffffffffffffffffffffffff" "h" "0",
    examplePost "eeeeeeeeeeeeeeeeeeeeeeeeeeeeeeee" "h" "1"]

def machineIDs (db : Db) : List String × List String :=
  (db.measurements.rows.map (·.machineID), db.runs.rows.map (·.machineID))

theorem MachinesAgree.machineIDs (h : MachinesAgree db) {id : String}
    (hid : id ∈ (machineIDs db).1)
    : id ∈ (machineIDs db).2 := by
  obtain ⟨m, hm, rfl⟩ := List.mem_map.mp hid
  obtain ⟨run, hrun, _, hagrees⟩ := h m hm
  exact hagrees ▸ List.mem_map_of_mem hrun

/--
The second envelope has the run of the first one and another machine.
-/
theorem machines_disagree : ¬MachinesAgree (Db.run (fun _ => true) .empty twoMachines) := by
  intro h
  have hids : machineIDs (Db.run (fun _ => true) .empty twoMachines)
      = (["ffffffffffffffffffffffffffffffff", "eeeeeeeeeeeeeeeeeeeeeeeeeeeeeeee"],
        ["ffffffffffffffffffffffffffffffff"]) := by
    decide +kernel
  have hmem := h.machineIDs (by rw [hids]; exact List.mem_cons_of_mem _ List.mem_cons_self)
  rw [hids] at hmem
  exact absurd hmem (by decide)

end Store
end Api
