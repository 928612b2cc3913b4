import BenchPlatform.Api.Store.RunArguments
import BenchPlatform.Api.Store.SetSemantics
import BenchPlatform.Api.Model.FieldOrder
import BenchPlatform.Api.Model.Validation

/-!
This module proves when the two ways of ingesting agree on an envelope. What stands before the
results decides: a run is stored with what the streaming decoder has seen of it by then.
-/

namespace Api
namespace Store

open Model Program

variable {o : Layout} {maxResults : Int} {w : World} {first env : RunEnvelope} {rs : List Result}
  {res : IngestResult} {db : Db} {start finish : Time}

/--
The ingest succeeds with this answer and leaves this database.
-/
def Outcome (env : RunEnvelope) (rs : List Result) (w : World) (res : IngestResult) (db : Db)
    : Prop :=
  ∃ w', ingestAll id env rs w = .ok res w' ∧ w'.db = db

theorem Outcome.ingest (h : Outcome env rs w res db) : w.db.ingest w.jsonb env rs = .ok (res, db) := by
  obtain ⟨w', h, rfl⟩ := h
  exact (ingestAll_eq_ok h).1

def StreamOutcome (o : Layout) (maxResults : Int) (w : World) (res : IngestResult) (db : Db) : Prop :=
  ∃ w', IngestStream (.object o.members .closed) maxResults w = .ok res w' ∧ w'.db = db

def DecodedOutcome (o : Layout) (w : World) (res : IngestResult) (db : Db) : Prop :=
  ∃ env w', RunEnvelope.decode (.obj o.members) = .ok env ∧ IngestRun env w = .ok res w'
    ∧ w'.db = db

theorem streamOutcome_iff (hne : o.elems ≠ [])
    (hmax : 0 < maxResults → (o.elems.length : Int) ≤ maxResults)
    : StreamOutcome o maxResults w res db ↔ ∃ first env rs, o.Decodes first env rs
        ∧ (∀ r ∈ rs, r.Valid) ∧ env.validateHeader rs.length = .ok ()
        ∧ Outcome (Layout.handedEnv first env) rs w res db := by
  unfold StreamOutcome IngestStream
  simp only [ingestStreamWith_eq_ok, Layout.delivers_iff hmax]
  constructor
  . rintro ⟨w', ⟨env, d, log, ⟨first, rs, hdecodes, hvalid, hheader, hlog⟩, hall⟩, hdb⟩
    rw [hlog, map_result_deliveries] at hall
    have henv : d.env = Layout.handedEnv first env := env_of_deliveries (hlog ▸ List.mem_cons_self)
    rw [henv] at hall
    exact ⟨first, env, rs, hdecodes, hvalid, hheader, w', hall, hdb⟩
  . rintro ⟨first, env, rs, hdecodes, hvalid, hheader, w', hall, hdb⟩
    have hrs : rs ≠ [] := List.ne_nil_of_length_pos
      (hdecodes.length ▸ List.length_pos_iff.mpr hne)
    obtain ⟨r, rs, rfl⟩ := List.exists_cons_of_ne_nil hrs
    refine ⟨w', ⟨env, { env := Layout.handedEnv first env, index := 0, result := r },
      deliveries (Layout.handedEnv first env) rs 1, ⟨first, _, hdecodes, hvalid, hheader, rfl⟩, ?_⟩,
      hdb⟩
    rw [List.map_cons, map_result_deliveries]
    exact hall

theorem decodedOutcome_iff (hne : o.elems ≠ [])
    : DecodedOutcome o w res db ↔ ∃ first env rs, o.Decodes first env rs
        ∧ (env.withResults rs).Validate = .ok () ∧ Outcome env rs w res db := by
  unfold DecodedOutcome IngestRun
  simp only [Layout.decode_eq_ok, ingestRunWith_eq_ok]
  have hsame : ∀ env rs, ingestAll id (env.withResults rs) rs = ingestAll id env rs :=
    fun env rs => SameHeader.ingestAll ⟨rfl, rfl, rfl, rfl⟩ rfl
  constructor
  . rintro ⟨_, w', ⟨first, env, rs, hdecodes, rfl⟩, ⟨hvalidate, _, hall⟩, hdb⟩
    exact ⟨first, env, rs, hdecodes, hvalidate, w', (hsame env rs) ▸ hall, hdb⟩
  . rintro ⟨first, env, rs, hdecodes, hvalidate, w', hall, hdb⟩
    have hrs : rs ≠ [] := List.ne_nil_of_length_pos
      (hdecodes.length ▸ List.length_pos_iff.mpr hne)
    exact ⟨_, w', ⟨first, env, rs, hdecodes, rfl⟩, ⟨hvalidate, hrs, (hsame env rs).symm ▸ hall⟩, hdb⟩

/--
The fields that the streaming decoder waits for stand before the results.
-/
def headerFirst (o : Layout) : Prop :=
  "run_id" ∈ o.keysBefore ∧ "machine" ∈ o.keysBefore

def timesFirst (o : Layout) : Prop :=
  "started_at" ∈ o.keysBefore ∧ "finished_at" ∈ o.keysBefore

def argvFirst (o : Layout) : Prop :=
  "argv" ∈ o.keysBefore

theorem headerDone_iff (hdecodes : o.Decodes first env rs) (hchecked : env.Checked start finish)
    : headerDone first ↔ headerFirst o := by
  obtain ⟨hrunID, hmachineID⟩ := hchecked.headerDone
  constructor
  . rintro ⟨hrun, hmachine⟩
    constructor
    . by_contra hkey
      exact hrun (hdecodes.unseen RunEnvelope.ownedBy_runID hkey)
    . by_contra hkey
      exact hmachine (congrArg Machine.id (hdecodes.unseen RunEnvelope.ownedBy_machine hkey))
  . rintro ⟨hkey, hkey'⟩
    unfold headerDone
    rw [hdecodes.seen RunEnvelope.ownedBy_runID hkey,
      hdecodes.seen RunEnvelope.ownedBy_machine hkey']
    exact ⟨hrunID, hmachineID⟩

theorem sameHeader_first (hdecodes : o.Decodes first env rs) (hheader : headerFirst o)
    (htimes : timesFirst o)
    : SameHeader first env where
  runID := hdecodes.seen RunEnvelope.ownedBy_runID hheader.1
  machine := hdecodes.seen RunEnvelope.ownedBy_machine hheader.2
  startedAt := hdecodes.seen RunEnvelope.ownedBy_startedAt htimes.1
  finishedAt := hdecodes.seen RunEnvelope.ownedBy_finishedAt htimes.2

theorem timesFirst_of_outcome (hdecodes : o.Decodes first env rs) (h : Outcome first rs w res db)
    : timesFirst o := by
  have hempty : ∀ t, ParseTimestamp "" ≠ .ok t := by
    intro t h
    rw [ParseTimestamp, if_pos (by decide)] at h
    cases h
  obtain ⟨started, finished, _, _, _, _, _, hstarted, hfinished, _⟩ := ingest_steps h.ingest
  constructor
  . by_contra hkey
    rw [hdecodes.unseen RunEnvelope.ownedBy_startedAt hkey] at hstarted
    exact hempty started hstarted
  . by_contra hkey
    rw [hdecodes.unseen RunEnvelope.ownedBy_finishedAt hkey] at hfinished
    exact hempty finished hfinished

theorem outcome_first (hdecodes : o.Decodes first env rs) (hsame : SameHeader first env)
    (hargv : argvFirst o ∨ env.argv = none
      ∨ RunStored w.db env ∧ w.jsonb .null ∧ w.jsonb (marshalArgv env.argv))
    : Outcome first rs w res db ↔ Outcome env rs w res db := by
  unfold Outcome
  by_cases hkey : argvFirst o
  . rw [hsame.ingestAll (hdecodes.seen RunEnvelope.ownedBy_argv hkey)]
  . have hnone : first.argv = none := hdecodes.unseen RunEnvelope.ownedBy_argv hkey
    obtain hargv | hargv | ⟨hstored, hnull, hargv⟩ := hargv
    . exact absurd hargv hkey
    . rw [hsame.ingestAll (hnone.trans hargv.symm)]
    . have hfirst : SameHeader first { env with argv := none } :=
        ⟨hsame.runID, hsame.machine, hsame.startedAt, hsame.finishedAt⟩
      have hnull' : w.jsonb (marshalArgv none) := hnull
      rw [hfirst.ingestAll hnone, ingestAll_of_stored hstored hnull' hargv]

/--
The order of the timestamps that only one of the validations looks at.
-/
def ZeroStart (env : RunEnvelope) : Prop :=
  ∃ start finish, ParseTimestamp env.startedAt = .ok start
    ∧ ParseTimestamp env.finishedAt = .ok finish ∧ start.IsZero ∧ finish.Before start

theorem zeroStart_iff (hchecked : env.Checked start finish)
    : ZeroStart (env.withResults rs) ↔ start.IsZero ∧ finish.Before start := by
  constructor
  . rintro ⟨start', finish', hstart, hfinish, h⟩
    cases hchecked.started.symm.trans hstart
    cases hchecked.finished.symm.trans hfinish
    exact h
  . exact fun h => ⟨start, finish, hchecked.started, hchecked.finished, h⟩

/--
All that a run is stored with stands before the results, unless everything else stands after them.
-/
def InOrder (o : Layout) (w : World) (env : RunEnvelope) : Prop :=
  if w.jsonb (marshalArgv env.argv) then
    ¬ZeroStart env
    ∧ (headerFirst o → timesFirst o ∧ (argvFirst o ∨ env.argv = none ∨ RunStored w.db env))
  else
    -- the decoded envelope is refused, so the arguments must not be overlooked
    headerFirst o → timesFirst o → ¬ZeroStart env → argvFirst o

theorem checked_withResults
    : (env.withResults rs).Checked start finish ↔ env.Checked start finish :=
  ⟨fun h => ⟨h.1, h.2, h.3, h.4, h.5⟩, fun h => ⟨h.1, h.2, h.3, h.4, h.5⟩⟩

theorem validate_withResults
    : (env.withResults rs).Validate = .ok () ↔ ∃ start finish, env.Checked start finish
        ∧ (start.IsZero ∨ ¬finish.Before start) ∧ ∀ r ∈ rs, r.Valid := by
  simp only [RunEnvelope.Validate_eq_ok, checked_withResults]
  rfl

/--
What both decoders and the database want of an envelope, its arguments apart.
-/
def Acceptable (o : Layout) (w : World) (env : RunEnvelope) : Prop :=
  RunEnvelope.decode (.obj o.members) = .ok env ∧ env.Validate = .ok ()
    ∧ ∃ r, w.db.ingest w.jsonb { env with argv := none } (env.results.getD []) = .ok r

theorem acceptable_of_ingest (hdecodes : o.Decodes first env rs)
    (hvalidate : (env.withResults rs).Validate = .ok ()) (hnull : w.jsonb .null)
    {env' : RunEnvelope} (hsame : SameHeader env' env)
    (h : w.db.ingest w.jsonb env' rs = .ok (res, db))
    : Acceptable o w (env.withResults rs) := by
  refine ⟨Layout.decode_eq_ok.mpr ⟨first, env, rs, hdecodes, rfl⟩, hvalidate, ?_⟩
  have hnull' : w.jsonb (marshalArgv none) := hnull
  obtain ⟨db', hingest, _⟩ := ingest_argv h hnull'
  have hsame' : SameHeader { env' with argv := none } { env.withResults rs with argv := none } :=
    ⟨hsame.runID, hsame.machine, hsame.startedAt, hsame.finishedAt⟩
  rw [hsame'.ingest rfl] at hingest
  exact ⟨_, hingest⟩

theorem sameHeader_refl : SameHeader env env :=
  ⟨rfl, rfl, rfl, rfl⟩

theorem agrees_of_inOrder (hne : o.elems ≠ [])
    (hmax : 0 < maxResults → (o.elems.length : Int) ≤ maxResults) (hnull : w.jsonb .null)
    (h : ∀ env, Acceptable o w env → InOrder o w env)
    : StreamOutcome o maxResults w res db ↔ DecodedOutcome o w res db := by
  rw [streamOutcome_iff hne hmax, decodedOutcome_iff hne]
  constructor
  . rintro ⟨first, env, rs, hdecodes, hvalid, hheader, hout⟩
    obtain ⟨start, finish, hchecked, horder, _⟩ := RunEnvelope.validateHeader_eq_ok.mp hheader
    have hvalidate := validate_withResults.mpr ⟨start, finish, hchecked, .inr horder, hvalid⟩
    refine ⟨first, env, rs, hdecodes, hvalidate, ?_⟩
    by_cases hdone : headerDone first
    . rw [Layout.handedEnv, if_pos hdone] at hout
      have hfirst := (headerDone_iff hdecodes hchecked).mp hdone
      have htimes := timesFirst_of_outcome hdecodes hout
      have hsame := sameHeader_first hdecodes hfirst htimes
      have hin := h _ (acceptable_of_ingest hdecodes hvalidate hnull hsame hout.ingest)
      apply (outcome_first hdecodes hsame ?_).mp hout
      unfold InOrder at hin
      split at hin
      . rename_i hargv
        obtain hargv' | hargv' | hstored := (hin.2 hfirst).2
        . exact .inl hargv'
        . exact .inr (.inl hargv')
        . exact .inr (.inr ⟨hstored, hnull, hargv⟩)
      . refine .inl (hin hfirst htimes ?_)
        exact fun hzero => horder ((zeroStart_iff hchecked).mp hzero).2
    . rwa [Layout.handedEnv, if_neg hdone] at hout
  . rintro ⟨first, env, rs, hdecodes, hvalidate, hout⟩
    obtain ⟨start, finish, hchecked, horder, hvalid⟩ := validate_withResults.mp hvalidate
    have hargv := (argv_of_ingest hout.ingest).1
    have hin := h _ (acceptable_of_ingest hdecodes hvalidate hnull sameHeader_refl hout.ingest)
    unfold InOrder at hin
    rw [if_pos (by exact hargv)] at hin
    have hheader : env.validateHeader rs.length = .ok () := by
      refine RunEnvelope.validateHeader_eq_ok.mpr ⟨start, finish, hchecked, ?_, ?_⟩
      . intro hbefore
        obtain hzero | hnot := horder
        . exact hin.1 ((zeroStart_iff hchecked).mpr ⟨hzero, hbefore⟩)
        . exact hnot hbefore
      . rw [hdecodes.length]
        exact List.length_pos_iff.mpr hne |>.ne'
    refine ⟨first, env, rs, hdecodes, hvalid, hheader, ?_⟩
    unfold Layout.handedEnv
    split
    . rename_i hdone
      have hfirst := (headerDone_iff hdecodes hchecked).mp hdone
      obtain ⟨htimes, hcase⟩ := hin.2 hfirst
      apply (outcome_first hdecodes (sameHeader_first hdecodes hfirst htimes) ?_).mpr hout
      obtain hargv' | hargv' | hstored := hcase
      . exact .inl hargv'
      . exact .inr (.inl hargv')
      . exact .inr (.inr ⟨hstored, hnull, hargv⟩)
    . exact hout

theorem inOrder_of_agrees (hfault : w.Faultless) (hne : o.elems ≠ [])
    (hmax : 0 < maxResults → (o.elems.length : Int) ≤ maxResults)
    (h : ∀ res db, StreamOutcome o maxResults w res db ↔ DecodedOutcome o w res db)
    (hacceptable : Acceptable o w env)
    : InOrder o w env := by
  simp only [streamOutcome_iff hne hmax, decodedOutcome_iff hne] at h
  obtain ⟨hdecode, hvalidate, ⟨res, base⟩, hbase⟩ := hacceptable
  obtain ⟨first, env, rs, hdecodes, rfl⟩ := Layout.decode_eq_ok.mp hdecode
  obtain ⟨start, finish, hchecked, horder, hvalid⟩ := validate_withResults.mp hvalidate
  have houtcome : ∀ env' res db, Outcome env' rs w res db
      ↔ w.db.ingest w.jsonb env' rs = .ok (res, db) := fun _ _ _ => ingestAll_iff hfault
  have hdone := headerDone_iff hdecodes hchecked
  have hlate : headerFirst o → timesFirst o → ¬argvFirst o →
      w.db.ingest w.jsonb first rs = .ok (res, base) := by
    intro hfirst htimes hlate
    have hsame := sameHeader_first hdecodes hfirst htimes
    have hsame' : SameHeader first { env.withResults rs with argv := none } :=
      ⟨hsame.runID, hsame.machine, hsame.startedAt, hsame.finishedAt⟩
    rw [hsame'.ingest (hdecodes.unseen RunEnvelope.ownedBy_argv hlate)]
    exact hbase
  unfold InOrder
  split
  . rename_i hargv
    -- the decoded envelope is stored, so the other one must be, too
    obtain ⟨db, hdb, _⟩ := ingest_argv hbase hargv
    obtain ⟨first', env', rs', hdecodes', _, hheader, hstream⟩ :=
      (h res db).mpr ⟨first, env, rs, hdecodes, hvalidate, (houtcome ..).mpr hdb⟩
    obtain ⟨rfl, rfl, rfl⟩ := hdecodes.unique hdecodes'
    obtain ⟨start', finish', hchecked', hnot, _⟩ := RunEnvelope.validateHeader_eq_ok.mp hheader
    refine ⟨fun hzero => hnot ((zeroStart_iff hchecked').mp hzero).2, fun hfirst => ?_⟩
    rw [Layout.handedEnv, if_pos (hdone.mpr hfirst)] at hstream
    have htimes := timesFirst_of_outcome hdecodes hstream
    refine ⟨htimes, ?_⟩
    by_contra hcase
    obtain ⟨hargv', hcase⟩ := not_or.mp hcase
    obtain ⟨hsome, hnew⟩ := not_or.mp hcase
    -- the one stores the arguments and the other one does not
    have hrunID : first.runID = env.runID := hdecodes.seen RunEnvelope.ownedBy_runID hfirst.1
    have hnew' : ¬RunStored w.db first := by
      unfold RunStored
      rw [hrunID]
      exact hnew
    obtain ⟨row, hrow, hid, hstored⟩ := (argv_of_ingest ((houtcome ..).mp hstream)).2 hnew'
    obtain ⟨row', hrow', hid', hstored'⟩ := (argv_of_ingest hdb).2 hnew
    rw [hrunID] at hid
    have hsame : row = row' := Table.eq_of_key_eq hrow hrow' (Option.some.inj (hid.symm.trans hid'))
    subst hsame
    have hnone : first.argv = none := hdecodes.unseen RunEnvelope.ownedBy_argv hargv'
    rw [hnone] at hstored
    exact hsome (marshalArgv_eq_null.mp (hstored'.symm.trans hstored))
  . rename_i hargv
    intro hfirst htimes hzero
    by_contra hargv'
    have hheader : env.validateHeader rs.length = .ok () := by
      refine RunEnvelope.validateHeader_eq_ok.mpr ⟨start, finish, hchecked, ?_, ?_⟩
      . intro hbefore
        obtain hstart | hnot := horder
        . exact hzero ((zeroStart_iff hchecked).mpr ⟨hstart, hbefore⟩)
        . exact hnot hbefore
      . rw [hdecodes.length]
        exact (List.length_pos_iff.mpr hne).ne'
    have hstream : Outcome (Layout.handedEnv first env) rs w res base := by
      rw [Layout.handedEnv, if_pos (hdone.mpr hfirst)]
      exact (houtcome ..).mpr (hlate hfirst htimes hargv')
    obtain ⟨first', env', rs', hdecodes', _, hdecoded⟩ :=
      (h res base).mp ⟨first, env, rs, hdecodes, hvalid, hheader, hstream⟩
    obtain ⟨rfl, rfl, rfl⟩ := hdecodes.unique hdecodes'
    exact hargv (argv_of_ingest hdecoded.ingest).1

/--
The streaming and the decoded ingest of an envelope agree, however the commands fail, if and only if
the fields of an acceptable envelope are in order.
-/
theorem stream_agrees_iff (o : Layout) (maxResults : Int) (w : World) (hne : o.elems ≠ [])
    (hmax : 0 < maxResults → (o.elems.length : Int) ≤ maxResults) (hnull : w.jsonb .null)
    : (∀ fault res db, StreamOutcome o maxResults { w with fault := fault } res db
          ↔ DecodedOutcome o { w with fault := fault } res db)
      ↔ ∀ env, Acceptable o w env → InOrder o w env := by
  constructor
  . intro h env hacceptable
    exact inOrder_of_agrees (w := { w with fault := fun _ => none }) (fun _ => rfl) hne hmax (h _)
      hacceptable
  . intro h fault res db
    exact agrees_of_inOrder (w := { w with fault := fault }) hne hmax hnull h

def exampleMachine : Json :=
  .obj [("id", .str "ffffffffffffffffffffffffffffffff"), ("hostname", .str "h"),
    ("cpu_model", .str "c"), ("physical_cores", .num "1"), ("logical_cpus", .num "1"),
    ("l1d_kb", .num "0"), ("l2_kb", .num "0"), ("l3_kb", .num "0"), ("memory_bytes", .num "0"),
    ("os", .str "o"), ("kernel", .str "k"), ("compiler", .str "gcc"), ("compiler_flags", .str ""),
    ("engine_version", .str "1"), ("engine_git_sha", .str "0")]

def exampleResult : Json :=
  .obj [("workload", .str "cpu_int"), ("thread_count", .num "1"), ("working_set_bytes", .num "0"),
    ("metric", .str "cpu_int_ops"), ("value", .num "1"), ("unit", .str "ops/s"),
    ("trial", .num "0"), ("timestamp", .str "2026-09-21T10:00:00Z"), ("duration_ns", .num "1")]

def lateTimes : Layout where
  before := [("schema_version", .num "1"),
    ("run_id", .str "11111111-2222-4333-8444-555555555555"), ("machine", exampleMachine)]
  elems := [exampleResult]
  after := [("started_at", .str "2026-09-21T10:00:00Z"),
    ("finished_at", .str "2026-09-21T10:00:01Z")]
  known := by decide
  unrepeated := by decide

def emptyServer : World where
  db := .empty
  tx := none
  commands := 0
  fault := fun _ => none
  jsonb := fun _ => true

theorem lateTimes_disagree
    : ¬∀ res db, StreamOutcome lateTimes 10 emptyServer res db
        ↔ DecodedOutcome lateTimes emptyServer res db := by
  have hstream : returned (IngestStream (.object lateTimes.members .closed) 10 emptyServer)
      = none := by
    decide +kernel
  have hdecoded : ((RunEnvelope.decode (.obj lateTimes.members)).toOption.bind fun env =>
      returned (IngestRun env emptyServer)).isSome := by
    decide +kernel
  intro h
  cases hdecode : RunEnvelope.decode (.obj lateTimes.members) with
  | error err => simp [hdecode, Except.toOption] at hdecoded
  | ok env =>
    rw [hdecode] at hdecoded
    obtain ⟨res, hres⟩ := Option.isSome_iff_exists.mp hdecoded
    obtain ⟨w', hrun⟩ := returned_eq_some.mp hres
    obtain ⟨w'', hok, _⟩ := (h res w'.db).mpr ⟨env, w', hdecode, hrun, rfl⟩
    rw [hok] at hstream
    cases hstream

theorem stream_agrees_iff_lateTimes
    : (∀ fault res db, StreamOutcome lateTimes 10 { emptyServer with fault := fault } res db
          ↔ DecodedOutcome lateTimes { emptyServer with fault := fault } res db)
      ↔ ∀ env, Acceptable lateTimes emptyServer env → InOrder lateTimes emptyServer env :=
  stream_agrees_iff lateTimes 10 emptyServer (by simp [lateTimes]) (by simp [lateTimes]) rfl

end Store
end Api
