import BenchPlatform.Api.Store.IngestTotal
import BenchPlatform.Api.Model.RepeatedResults

/-!
This module proves that both ways of ingesting store a set of rows: each key that is not there yet
gets the row of the first result with this key, and the fast path makes no difference.
-/

namespace Api
namespace Store

open Model Program

variable {w w' : World} {mode : Bool → Bool} {env : RunEnvelope} {res : IngestResult}

theorem ingestRunWith_eq_ok
    : ingestRunWith mode env w = .ok res w' ↔ env.Validate = .ok () ∧ env.results.getD [] ≠ []
      ∧ ingestAll mode env (env.results.getD []) w = .ok res w' := by
  unfold ingestRunWith
  cases hvalid : env.Validate with
  | error err => simp [bind, EStateM.bind, liftResult]
  | ok u =>
    have hlift : (liftResult (.ok u) : StoreM Unit) w = .ok u w := rfl
    rw [bind_of_ok hlift]
    by_cases hnil : env.results.getD [] = []
    . simp [hnil]
    . rw [if_neg (by simpa using hnil)]
      simp only [hnil, ne_eq, not_false_eq_true, true_and]
      rfl

theorem feed_handOver {ing : Ingestion} {log : List Delivery} {s : World × Option Ingestion}
    : feed (fun d => handOver mode d.env d.index d.result) log (w, some ing) = .ok () s
      ↔ ∃ ing' w', Ingestion.addAll (log.map (·.result)) ing w = .ok ing' w'
        ∧ s = (w', some ing') := by
  induction log generalizing w ing with
  | nil =>
    constructor
    . intro h
      injection h with _ h
      exact ⟨ing, w, rfl, h.symm⟩
    . rintro ⟨_, _, h, rfl⟩
      injection h with hing hw
      subst hing hw
      rfl
  | cons d log ih =>
    rw [feed, List.map_cons, Ingestion.addAll]
    cases hadd : ing.add d.result w with
    | error err w₁ =>
      rw [bind_of_error (handOver_some.trans (addTo_error hadd)), bind_of_error hadd]
      simp
    | ok ing₁ w₁ =>
      rw [bind_of_ok (handOver_some.trans (addTo_ok hadd)), bind_of_ok hadd, ih]

theorem feed_handOver_begin {first : Delivery} {log : List Delivery} {s : World × Option Ingestion}
    : feed (fun d => handOver mode d.env d.index d.result) (first :: log) (w, none) = .ok () s
      ↔ ∃ ing w₁ ing' w', beginWith mode first.env w = .ok ing w₁
        ∧ Ingestion.addAll ((first :: log).map (·.result)) ing w₁ = .ok ing' w'
        ∧ s = (w', some ing') := by
  cases hbegin : beginWith mode first.env w with
  | error err w₁ =>
    rw [feed, bind_of_error (handOver_error hbegin)]
    simp
  | ok ing w₁ =>
    -- from here on it is as if the ingest had begun before
    have hcall : feed (fun d => handOver mode d.env d.index d.result) (first :: log) (w, none)
        = feed (fun d => handOver mode d.env d.index d.result) (first :: log) (w₁, some ing) := by
      have hfirst : handOver mode first.env first.index first.result (w, none)
          = handOver mode first.env first.index first.result (w₁, some ing) :=
        (handOver_begin hbegin).trans handOver_some.symm
      change EStateM.bind _ _ _ = EStateM.bind _ _ _
      unfold EStateM.bind
      dsimp only
      rw [hfirst]
    rw [hcall, feed_handOver]
    constructor
    . rintro ⟨ing', w', hadd, rfl⟩
      exact ⟨ing, w₁, ing', w', rfl, hadd, rfl⟩
    . rintro ⟨_, _, ing', w', ⟨⟩, hadd, rfl⟩
      exact ⟨ing', w', hadd, rfl⟩

theorem ingestStreamWith_eq_ok {body : Body} {maxResults : Int}
    : ingestStreamWith mode body maxResults w = .ok res w' ↔ ∃ env first log,
        Delivers body maxResults env (first :: log)
        ∧ ingestAll mode first.env ((first :: log).map (·.result)) w = .ok res w' := by
  have hstream : ∀ env s, StreamRunEnvelope body maxResults (handOver mode) (w, none) = .ok env s
      ↔ ∃ log, Delivers body maxResults env log
        ∧ feed (fun d => handOver mode d.env d.index d.result) log (w, none) = .ok () s :=
    fun _ _ => @stream_eq_ok _ _ _ (fun d => handOver mode d.env d.index d.result) _ _ _
  unfold ingestStreamWith
  constructor
  . intro h
    split at h
    . cases h
    . simp [bind, EStateM.bind, rollback] at h
    . cases h
    . rename_i env w₁ ing heq
      obtain ⟨log, hdelivers, hfeed⟩ := (hstream _ _).mp heq
      cases log with
      | nil => cases hfeed
      | cons first log =>
        obtain ⟨ing₀, w₀, ing', w', hbegin, hadd, hs⟩ := feed_handOver_begin.mp hfeed
        cases hs
        exact ⟨env, first, log, hdelivers, bind_eq_ok.mpr ⟨_, _, hbegin,
          bind_eq_ok.mpr ⟨_, _, orRollback_eq_ok.mpr hadd, h⟩⟩⟩
  . rintro ⟨env, first, log, hdelivers, hall⟩
    obtain ⟨ing₀, w₀, hbegin, hrest⟩ := bind_eq_ok.mp hall
    obtain ⟨ing', w₁, hadd, hcommit⟩ := bind_eq_ok.mp hrest
    have heq := (hstream env _).mpr ⟨first :: log, hdelivers, feed_handOver_begin.mpr
      ⟨ing₀, w₀, ing', w₁, hbegin, orRollback_eq_ok.mp hadd, rfl⟩⟩
    rw [heq]
    exact hcommit

/--
Exactly one new row for each key that was not there, that of the first result with this key, and the
counts of what has been inserted and of what has been skipped.
-/
structure StoresFirsts (before after : Table MeasurementRow.key) (rows : List MeasurementRow)
    (res : IngestResult) : Prop where
  stored : ∃ new, after.rows = before.rows ++ new
    ∧ (∀ row, row ∈ new ↔ row.key ∉ before.keys ∧ rows.find? (·.key = row.key) = some row)
    ∧ (new.map MeasurementRow.key).Nodup
    ∧ res.inserted = new.length
  results : res.results = rows.length
  counted : res.inserted + res.skipped = rows.length

def dedupOn : Bool → Bool :=
  fun _ => true

def World.withoutFaults (w : World) : World :=
  { w with fault := fun _ => none }

theorem beginRun_measurements {db base : Db} {jsonb : Json → Bool} {k : Nat}
    (h : db.beginRun jsonb env = .ok (k, base))
    : base.measurements = db.measurements := by
  obtain ⟨_, _, h₁⟩ := except_bind_eq_ok.mp h
  obtain ⟨_, _, h₂⟩ := except_bind_eq_ok.mp h₁
  obtain ⟨db₁, hmachine, hrun⟩ := except_bind_eq_ok.mp h₂
  obtain ⟨_, _, hpure⟩ := except_bind_eq_ok.mp hmachine
  injection hpure with hpure
  subst hpure
  obtain ⟨row, _, hrun⟩ := except_bind_eq_ok.mp hrun
  split at hrun
  . cases hrun
    rfl
  . split at hrun
    . cases hrun
    . cases hrun
      rfl

theorem storesFirsts_of_ingestAll {rs : List Result} (h : ingestAll mode env rs w = .ok res w')
    : ∃ rows, rs.mapM (rowOf w.jsonb env.runID env.machine.id) = .ok rows
      ∧ StoresFirsts w.db.measurements w'.db.measurements rows res
      ∧ ∃ w'', ingestAll dedupOn env rs w.withoutFaults = .ok res w'' ∧ w''.db = w'.db := by
  have hingest := (ingestAll_eq_ok h).1
  have hdedup : ∃ w'', ingestAll dedupOn env rs w.withoutFaults = .ok res w'' ∧ w''.db = w'.db :=
    (ingestAll_iff fun _ => rfl).mpr hingest
  obtain ⟨⟨k, base⟩, hbase, h₁⟩ := except_bind_eq_ok.mp hingest
  obtain ⟨rows, hrows, h₂⟩ := except_bind_eq_ok.mp h₁
  obtain ⟨⟨n, db⟩, hinsert, hpure⟩ := except_bind_eq_ok.mp h₂
  injection hpure with hpure
  injection hpure with hres hdb
  subst hres hdb
  have hlen : rs.length = rows.length := (mapM_eq_ok.mp hrows).length_eq
  have hle := insertIgnore_le hinsert
  obtain ⟨_, hn, hdb⟩ := insertIgnore_eq_ok.mp hinsert
  rw [beginRun_measurements hbase] at hn hdb
  refine ⟨rows, hrows, ?_, hdedup⟩
  exact
    { stored := by
        refine ⟨_, ?_, fun row => Table.mem_firsts, Table.nodup_firsts, hn⟩
        rw [hdb]
        exact Table.rows_insertAllIgnore ..
      results := hlen
      counted := by
        change n + (rs.length - n) = rows.length
        omega }

/--
A successful ingest of either kind stores the first result of each new key and counts the others as
skipped, and checking every key from the first batch on would have made no difference. Commands may
fail for reasons of their own, as long as the ingest succeeds.
-/
theorem ingest_stores_firsts
    : (∀ (env : RunEnvelope) (w w' : World) (res : IngestResult), IngestRun env w = .ok res w' →
        ∃ rows, (env.results.getD []).mapM (rowOf w.jsonb env.runID env.machine.id) = .ok rows
          ∧ StoresFirsts w.db.measurements w'.db.measurements rows res
          ∧ ∃ w'', ingestRunWith dedupOn env w.withoutFaults = .ok res w'' ∧ w''.db = w'.db)
      ∧ ∀ (body : Body) (maxResults : Int) (w w' : World) (res : IngestResult),
        IngestStream body maxResults w = .ok res w' →
        ∃ env first log rows, Delivers body maxResults env (first :: log)
          ∧ ((first :: log).map (·.result)).mapM
            (rowOf w.jsonb first.env.runID first.env.machine.id) = .ok rows
          ∧ StoresFirsts w.db.measurements w'.db.measurements rows res
          ∧ ∃ w'', ingestStreamWith dedupOn body maxResults w.withoutFaults = .ok res w''
            ∧ w''.db = w'.db := by
  constructor
  . intro env w w' res h
    obtain ⟨hvalid, hne, hall⟩ := ingestRunWith_eq_ok.mp h
    obtain ⟨rows, hrows, hstores, w'', hdedup, hdb⟩ := storesFirsts_of_ingestAll hall
    exact ⟨rows, hrows, hstores, w'', ingestRunWith_eq_ok.mpr ⟨hvalid, hne, hdedup⟩, hdb⟩
  . intro body maxResults w w' res h
    obtain ⟨env, first, log, hdelivers, hall⟩ := ingestStreamWith_eq_ok.mp h
    obtain ⟨rows, hrows, hstores, w'', hdedup, hdb⟩ := storesFirsts_of_ingestAll hall
    exact ⟨env, first, log, rows, hdelivers, hrows, hstores, w'',
      ingestStreamWith_eq_ok.mpr ⟨env, first, log, hdelivers, hdedup⟩, hdb⟩

def repeatedTrial : List (String × Json) :=
  twoArrays.filter (·.1 ≠ "results") ++ [("results", .arr [trialOf "0", trialOf "0", trialOf "1"])]

def freshWorld : World where
  db := .empty
  tx := none
  commands := 0
  fault := fun _ => none
  jsonb := fun _ => true

/--
The copy of the batch meets the key twice, and is undone.
-/
theorem ingest_stores_firsts_repeated
    : ∃ res w' rows, IngestStream (.object repeatedTrial .closed) 10 freshWorld = .ok res w'
      ∧ res.inserted = 2 ∧ res.skipped = 1
      ∧ StoresFirsts Db.empty.measurements w'.db.measurements rows res := by
  have hreturned : returned (IngestStream (.object repeatedTrial .closed) 10 freshWorld) = some
      { runID := "11111111-2222-4333-8444-555555555555"
        results := 3
        inserted := 2
        skipped := 1
        duplicate := false
        machineID := "ffffffffffffffffffffffffffffffff" } := by
    decide +kernel
  obtain ⟨w', hingest⟩ := returned_eq_some.mp hreturned
  obtain ⟨_, _, _, rows, _, _, hstores, _⟩ := ingest_stores_firsts.2 _ _ _ _ _ hingest
  exact ⟨_, w', rows, hingest, rfl, rfl, hstores⟩

end Store
end Api
