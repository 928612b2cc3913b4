import BenchPlatform.Wire.Accepted
import BenchPlatform.Api.Store.Chunks

/-!
This module follows a run from the engine to the tables: once the client says that the upload is through,
they have what was measured, however often a part was sent and whatever has failed on the way.
-/

namespace Api
namespace Store

open Bench Model

variable {jsonb : Json → Bool} {env : RunEnvelope} {rs : List Result} {chunk : Nat}
  {start db : Db} {answered : List (Nat × IngestResult)}

theorem Serial.stored (h : Serial jsonb env rs chunk start answered db) (hchunk : 0 < chunk) (hne : rs ≠ [])
    (hall : ∀ c, c < chunkCount rs.length chunk → ∃ res, (c, res) ∈ answered)
    (hkeys : rs.Pairwise fun r r' => ¬SameKey r r')
    (hnew : ∀ m ∈ start.measurements.rows, parseUuid env.runID ≠ some m.runID)
    (hnewRun : ∀ r ∈ start.runs.rows, parseUuid env.runID ≠ some r.id)
    : ∃ e, encode jsonb env rs = .ok e
      ∧ db.measurements.rows.Perm (start.measurements.rows ++ e.measurements)
      ∧ db.runs.rows = start.runs.rows ++ [e.run]
      ∧ (answered.map (·.2.inserted)).sum = rs.length := by
  obtain ⟨e, hencode, hrows⟩ := h.whole hchunk hne hall
  obtain ⟨hid, _, _, hrefers⟩ := encode_refers hencode
  have hnodup := encode_nodup hencode hkeys
  obtain ⟨rows, hmeasurements, hmem⟩ := h.measurements
  have hfresh : Table.firsts MeasurementRow.key start.measurements.keys e.measurements = e.measurements := by
    apply Table.firsts_eq_self _ hnodup
    intro row hrow hstored
    obtain ⟨m, hm, hkey⟩ := List.mem_map.mp hstored
    apply hnew m hm
    rw [hid, ← (hrefers row hrow).1]
    exact congrArg (some ∘ MeasurementKey.runID) hkey.symm
  have hperm : db.measurements.rows.Perm (start.measurements.rows ++ e.measurements) := by
    rw [hmeasurements, ← hfresh, ← Table.rows_insertAllIgnore]
    apply Table.perm_insertAllIgnore
    . intro row
      rw [hmem, hrows]
    . exact fun r hr r' hr' => List.inj_on_of_nodup_map hnodup hr hr'
  refine ⟨e, hencode, hperm, ?_, ?_⟩
  . have hanswered : answered ≠ [] := by
      intro hnil
      obtain ⟨r, hr⟩ := List.exists_mem_of_ne_nil rs hne
      obtain ⟨c, hc, _⟩ := exists_slice hchunk hr
      obtain ⟨res, hp⟩ := hall c hc
      rw [hnil] at hp
      cases hp
    rw [h.runs hencode, if_neg hanswered]
    apply Table.rows_insertIgnore
    intro hstored
    obtain ⟨row, hrow, hkey⟩ := List.mem_map.mp hstored
    exact hnewRun row hrow (hid.trans (congrArg some hkey.symm))
  . have hgrown := h.inserted
    have hlength := hperm.length_eq
    have hmeasured := congrArg List.length (encode_keys hencode)
    rw [List.length_map, List.length_map] at hmeasured
    rw [List.length_append] at hlength
    omega

end Store
end Api

namespace Bench

open Api Model Program Store

def Result.row (format_double : Float64 → String) (runID : Uuid) (machineID : String) (recorded : Time)
    (r : Result Float64)
    : MeasurementRow where
  runID := runID
  machineID := machineID
  workload := r.workload.to_string
  metric := r.metric.to_string
  threadCount := r.thread_count
  workingSetBytes := r.working_set_bytes
  trial := r.trial
  value := received r.value
  unit := (unit_of r.metric).to_string
  recordedAt := timestamptz recorded
  durationNs := r.duration_ns
  params := some (r.params.dump format_double)

def RunEnvelope.row (runID : Uuid) (started finished : Time) (run : RunEnvelope Float64) : RunRow where
  id := runID
  machineID := run.machine.id
  engineVersion := run.machine.engine_version
  engineGitSHA := run.machine.engine_git_sha
  startedAt := timestamptz started
  finishedAt := timestamptz finished
  argv := .arr (run.argv.map .str)

/--
The two results are those of one trial of one configuration.
-/
def Result.SameTrial (r r' : Result Float64) : Prop :=
  r.metric = r'.metric ∧ r.thread_count = r'.thread_count ∧ r.working_set_bytes = r'.working_set_bytes
    ∧ r.trial = r'.trial

structure RunEnvelope.Stored (format_double : Float64 → String) (run : RunEnvelope Float64)
    (row : RunRow) (rows : List MeasurementRow)
    : Prop where
  header : ∃ u started finished, parseUuid run.run_id = some u ∧ ParseTimestamp run.started_at = .ok started
    ∧ ParseTimestamp run.finished_at = .ok finished ∧ row = run.row u started finished
  measured : List.Forall₂ (fun (r : Result Float64) m => ∃ t, ParseTimestamp r.timestamp = .ok t
    ∧ m = r.row format_double row.id run.machine.id t) run.results rows

section

variable {format_double : Float64 → String} {jsonb : Json → Bool} {run : RunEnvelope Float64}
  {r : Result Float64} {e : Encoded} {maxResults : Int}

theorem encodeJsonb_eq_ok {v v' : Json} : encodeJsonb jsonb v = .ok v' ↔ jsonb v = true ∧ v' = v := by
  unfold encodeJsonb
  split <;> simp [*, eq_comm]

theorem rowOf_sent {runID machineID : String} {u : Uuid} {m : MeasurementRow}
    (hid : parseUuid runID = some u)
    (h : rowOf jsonb runID machineID (r.sent format_double received) = .ok m)
    : ∃ t, ParseTimestamp r.timestamp = .ok t ∧ m = r.row format_double u machineID t := by
  obtain ⟨pending, hpending, hencode⟩ := except_bind_eq_ok.mp h
  obtain ⟨t, ht, hpure⟩ := except_bind_eq_ok.mp hpending
  injection hpure with hpure
  subst hpure
  refine ⟨t, ht, ?_⟩
  unfold PendingRow.encode at hencode
  dsimp only at hencode
  split at hencode
  swap
  . obtain ⟨_, herror, _⟩ := except_bind_eq_ok.mp hencode
    cases herror
  rename_i hbinary
  obtain ⟨_, hok, hencode⟩ := except_bind_eq_ok.mp hencode
  injection hok with hok
  subst hok
  obtain rfl := parseUuid_eq hid hbinary
  obtain ⟨_, hmachine, hencode⟩ := except_bind_eq_ok.mp hencode
  obtain ⟨_, hworkload, hencode⟩ := except_bind_eq_ok.mp hencode
  obtain ⟨_, hmetric, hencode⟩ := except_bind_eq_ok.mp hencode
  obtain ⟨_, hthreads, hencode⟩ := except_bind_eq_ok.mp hencode
  obtain ⟨_, htrial, hencode⟩ := except_bind_eq_ok.mp hencode
  obtain ⟨_, hunit, hencode⟩ := except_bind_eq_ok.mp hencode
  obtain ⟨_, hparams, hpure⟩ := except_bind_eq_ok.mp hencode
  injection hpure with hpure
  subst hpure
  obtain ⟨_, hjson, hsome⟩ := except_bind_eq_ok.mp hparams
  injection hsome with hsome
  subst hsome
  obtain ⟨_, rfl⟩ := encodeJsonb_eq_ok.mp hjson
  obtain ⟨_, rfl⟩ := encodeText_eq_ok.mp hmachine
  obtain ⟨_, rfl⟩ := encodeText_eq_ok.mp hworkload
  obtain ⟨_, rfl⟩ := encodeText_eq_ok.mp hmetric
  obtain ⟨_, rfl⟩ := encodeText_eq_ok.mp hunit
  obtain ⟨_, rfl⟩ := encodeInt4_eq_ok.mp (except_mapError_eq_ok.mp hthreads)
  obtain ⟨_, rfl⟩ := encodeInt4_eq_ok.mp (except_mapError_eq_ok.mp htrial)
  rfl

theorem encode_sent
    (h : encode jsonb (run.sent received) (run.results.map (Result.sent format_double received)) = .ok e)
    : run.Stored format_double e.run e.measurements := by
  obtain ⟨started, finished, hstarted, hfinished, _, hrun, hrows⟩ := encode_eq_ok.mp h
  have hid : parseUuid run.run_id = some e.run.id := encodeRun_id hrun
  constructor
  . obtain ⟨id, hid', hrun⟩ := except_bind_eq_ok.mp hrun
    obtain ⟨_, hmachine, hrun⟩ := except_bind_eq_ok.mp hrun
    obtain ⟨_, hversion, hrun⟩ := except_bind_eq_ok.mp hrun
    obtain ⟨_, hsha, hrun⟩ := except_bind_eq_ok.mp hrun
    obtain ⟨_, hargv, hpure⟩ := except_bind_eq_ok.mp hrun
    injection hpure with hpure
    obtain ⟨_, rfl⟩ := encodeText_eq_ok.mp hmachine
    obtain ⟨_, rfl⟩ := encodeText_eq_ok.mp hversion
    obtain ⟨_, rfl⟩ := encodeText_eq_ok.mp hsha
    obtain ⟨_, rfl⟩ := encodeJsonb_eq_ok.mp hargv
    refine ⟨e.run.id, started, finished, hid, hstarted, hfinished, ?_⟩
    rw [← hpure]
    rfl
  . have hall := List.forall₂_map_left_iff.mp (mapM_eq_ok.mp hrows)
    exact hall.imp fun r m hrow => rowOf_sent hid hrow

theorem sameKey_sent {r r' : Result Float64}
    : SameKey (r.sent format_double received) (r'.sent format_double received) ↔ r.SameTrial r' := by
  have hmetric : r.metric.to_string = r'.metric.to_string ↔ r.metric = r'.metric := by
    constructor
    . intro h
      have hparse := congrArg parse_metric h
      rw [parse_metric_to_string, parse_metric_to_string] at hparse
      exact Option.some.inj hparse
    . exact congrArg _
  have hws : (r.working_set_bytes : Int) = r'.working_set_bytes ↔ r.working_set_bytes = r'.working_set_bytes :=
    Int.natCast_inj
  exact and_congr hmetric (and_congr_right' (and_congr_left' hws))

theorem bodies_chunkSize {o : Layout} {chunk_results : Nat}
    : bodies o chunk_results = bodies o (chunkSize o.elems.length chunk_results) := by
  have hsame : ∀ total, chunkSize total (chunkSize total chunk_results) = chunkSize total chunk_results := by
    intro total
    unfold chunkSize
    split <;> simp [*]
  unfold bodies post_envelope
  dsimp only
  rw [Layout.resultsOf_members, hsame]

theorem ok_of_post_all {post : Nat → PostResult} {bodies : List Object} {c rc : Nat}
    (h : (post_all post bodies c rc).2 = 0)
    : rc = 0 ∧ ∀ k, k < bodies.length → (post (c + k)).error = false ∧ (post (c + k)).ok = true := by
  induction bodies generalizing c rc with
  | nil => exact ⟨h, fun k hk => absurd hk (Nat.not_lt_zero k)⟩
  | cons body bodies ih =>
    unfold post_all at h
    by_cases herror : (post c).error = true
    . rw [if_pos herror] at h
      cases h
    . rw [if_neg herror] at h
      obtain ⟨hrc, hrest⟩ := ih h
      have hok : (post c).ok = true := by
        by_contra hfailed
        rw [if_neg hfailed] at hrc
        cases hrc
      rw [if_pos hok] at hrc
      refine ⟨hrc, fun k hk => ?_⟩
      cases k with
      | zero => exact ⟨Bool.eq_false_of_not_eq_true herror, hok⟩
      | succ k =>
        rw [Nat.add_comm k, ← Nat.add_assoc]
        rw [List.length_cons] at hk
        exact hrest k (by omega)

end

theorem stored_of_answered {jsonb : Json → Bool} {format_double : Float64 → String}
    (htext : ReadsBack format_double) {run : RunEnvelope Float64} (hfits : run.Fits)
    (hdoubles : ∀ x ∈ run.doubles, IsDouble x) (haccepted : run.Accepted format_double 0)
    (htrials : run.results.Pairwise fun r r' => ¬r.SameTrial r') {chunk_results : Nat} {maxResults : Int}
    (hmax : 0 < maxResults → (min (chunkSize run.results.length chunk_results) run.results.length : Int) ≤ maxResults)
    (hsize : run.results.length + chunkSize run.results.length chunk_results - 1 < 2 ^ 64) {db : Db}
    (hnew : ∀ m ∈ db.measurements.rows, parseUuid run.run_id ≠ some m.runID)
    (hnewRun : ∀ r ∈ db.runs.rows, parseUuid run.run_id ≠ some r.id) (schedule : List Uploads.Action)
    (hanswered : ∀ c, c < (bodies (run.wire format_double) chunk_results).length → ∃ res, (c, res) ∈
      (Uploads.run jsonb (bodies (run.wire format_double) chunk_results) maxResults db schedule).answered)
    : ∃ row rows, run.Stored format_double row rows
      ∧ (Uploads.run jsonb (bodies (run.wire format_double) chunk_results) maxResults db
        schedule).db.measurements.rows.Perm (db.measurements.rows ++ rows)
      ∧ (Uploads.run jsonb (bodies (run.wire format_double) chunk_results) maxResults db
        schedule).db.runs.rows = db.runs.rows ++ [row]
      ∧ ((Uploads.run jsonb (bodies (run.wire format_double) chunk_results) maxResults db
        schedule).answered.map (·.2.inserted)).sum = run.results.length := by
  obtain ⟨hint64, hvalid, _, hheader⟩ := (accepted_steps htext hfits hdoubles).mp haccepted
  have hne : run.results ≠ [] := by
    intro hnil
    obtain ⟨_, _, _, _, hcount⟩ := Model.RunEnvelope.validateHeader_eq_ok.mp hheader
    exact hcount (congrArg List.length hnil)
  have hlength : (run.wire format_double).elems.length = run.results.length := List.length_map _
  rw [bodies_chunkSize, hlength] at hanswered ⊢
  have hchunk : 0 < chunkSize run.results.length chunk_results := by
    have := List.length_pos_of_ne_nil hne
    unfold chunkSize
    split <;> omega
  generalize chunkSize run.results.length chunk_results = chunk at *
  have hdecodes := (RunEnvelope.wire_decodes htext hfits hdoubles).mpr ⟨hint64, rfl, rfl, rfl⟩
  -- the results are handed over at the end, with the complete header
  have hhanded : Layout.handedEnv run.first (run.sent received) = run.sent received :=
    if_neg (RunEnvelope.wire_late hfits run.first hdecodes.before)
  have hsome : run.results.map (Result.sent format_double received) ≠ [] := mt List.map_eq_nil_iff.mp hne
  have hcount : (run.results.map (Result.sent format_double received)).length = run.results.length :=
    List.length_map _
  rw [← hcount] at hheader
  have hbodies := bodies_eq (o := run.wire format_double) hchunk (by omega)
  rw [hlength] at hbodies
  have hparts : Uploads.PartsOf (bodies (run.wire format_double) chunk) maxResults (run.sent received)
      (run.results.map (Result.sent format_double received)) chunk := by
    intro c body hbody
    rw [hbodies, List.getElem?_map, Option.map_eq_some_iff] at hbody
    obtain ⟨c', hc', rfl⟩ := hbody
    obtain ⟨hlt, rfl⟩ := List.getElem?_eq_some_iff.mp hc'
    rw [List.getElem_range, ← hcount]
    rw [List.length_range, ← hcount] at hlt
    have hstores := part_stores hdecodes (List.forall_mem_map.mpr hvalid) hheader hsome hchunk (by rwa [hcount]) hlt
    rwa [hhanded] at hstores
  have hserial : Serial jsonb (run.sent received) (run.results.map (Result.sent format_double received)) chunk db
      (Uploads.run jsonb (bodies (run.wire format_double) chunk) maxResults db schedule).answered
      (Uploads.run jsonb (bodies (run.wire format_double) chunk) maxResults db schedule).db :=
    (Uploads.InTurn.run hparts schedule).serial
  generalize Uploads.run jsonb (bodies (run.wire format_double) chunk) maxResults db schedule = final
    at hserial hanswered ⊢
  have hall : ∀ c, c < chunkCount (run.results.map (Result.sent format_double received)).length chunk →
      ∃ res, (c, res) ∈ final.answered := by
    intro c hc
    rw [hbodies, List.length_map, List.length_range, ← hcount] at hanswered
    exact hanswered c hc
  have hkeys : (run.results.map (Result.sent format_double received)).Pairwise fun r r' => ¬SameKey r r' := by
    apply List.pairwise_map.mpr
    exact htrials.imp fun hdiffer hsame => hdiffer (sameKey_sent.mp hsame)
  obtain ⟨e, hencode, hmeasurements, hruns, hinserted⟩ := hserial.stored hchunk hsome hall hkeys hnew hnewRun
  exact ⟨e.run, e.measurements, encode_sent hencode, hmeasurements, hruns, hinserted.trans hcount⟩

/--
If the client says that the upload of a run is through, the tables have the run and each of its results
once, with its value if that is finite and with 0 if not: however often and in whatever order the parts
arrive, and whichever commands of the database fail in between. A success is only reported for a part that
has been committed. The parts must be within the limit of the API, if it has one, their number must not
wrap when it is rounded up, and the id of the run must be new.
-/
theorem upload_stores_run (jsonb : Json → Bool) (format_double : Float64 → String)
    (htext : ReadsBack format_double) (run : RunEnvelope Float64) (hfits : run.Fits)
    (hdoubles : ∀ x ∈ run.doubles, IsDouble x) (haccepted : run.Accepted format_double 0)
    (htrials : run.results.Pairwise fun r r' => ¬r.SameTrial r') (chunk_results : Nat) (maxResults : Int)
    (hmax : 0 < maxResults → (min (chunkSize run.results.length chunk_results) run.results.length : Int) ≤ maxResults)
    (hsize : run.results.length + chunkSize run.results.length chunk_results - 1 < 2 ^ 64) (db : Db)
    (hnew : ∀ m ∈ db.measurements.rows, parseUuid run.run_id ≠ some m.runID)
    (hnewRun : ∀ r ∈ db.runs.rows, parseUuid run.run_id ≠ some r.id) (schedule : List Uploads.Action)
    (post : Nat → PostResult)
    (hreply : ∀ c, (post c).error = false → (post c).ok = true → ∃ res, (c, res) ∈
      (Uploads.run jsonb (bodies (run.wire format_double) chunk_results) maxResults db schedule).answered)
    (hthrough : (post_all post (post_envelope (run.wire format_double).members chunk_results) 0 0).2 = 0)
    : ∃ row rows, run.Stored format_double row rows
      ∧ (Uploads.run jsonb (bodies (run.wire format_double) chunk_results) maxResults db
        schedule).db.measurements.rows.Perm (db.measurements.rows ++ rows)
      ∧ (Uploads.run jsonb (bodies (run.wire format_double) chunk_results) maxResults db
        schedule).db.runs.rows = db.runs.rows ++ [row]
      ∧ ((Uploads.run jsonb (bodies (run.wire format_double) chunk_results) maxResults db
        schedule).answered.map (·.2.inserted)).sum = run.results.length := by
  have hposted : (post_envelope (run.wire format_double).members chunk_results).length
      = (bodies (run.wire format_double) chunk_results).length := (List.length_map _).symm
  obtain ⟨_, htaken⟩ := ok_of_post_all hthrough
  rw [hposted] at htaken
  apply stored_of_answered htext hfits hdoubles haccepted htrials hmax hsize hnew hnewRun schedule
  intro c hc
  obtain ⟨herror, hok⟩ := htaken c hc
  rw [Nat.zero_add] at herror hok
  exact hreply c herror hok

def uploaded_run : RunEnvelope Float64 :=
  measured_run (.finite false (3 * 2 ^ 51) (-52))

def retried_upload : List Uploads.Action :=
  [.arrive 0 fun n => if n = 6 then some .eof else none, .lock 0, .finish, .arrive 0 fun _ => none, .lock 0,
    .finish]

theorem uploaded_run_doubles : ∀ x ∈ uploaded_run.doubles, IsDouble x := by
  intro x hx
  apply isDouble_of_finite
  rw [List.mem_singleton.mp hx]
  decide

theorem uploaded_run_accepted : uploaded_run.Accepted Float64.exactLiteral 0 :=
  (accepted_iff readsBack_exactLiteral (measured_run_fits _) uploaded_run_doubles).mpr
    ⟨measured_run_shared _, measured_run_apiOnly _ 0⟩

theorem upload_stores_run_retried
    : ∃ row rows, uploaded_run.Stored Float64.exactLiteral row rows
      ∧ (Uploads.run (fun _ => true) (bodies (uploaded_run.wire Float64.exactLiteral) 0) 1 .empty
        retried_upload).db.measurements.rows.Perm rows
      ∧ (Uploads.run (fun _ => true) (bodies (uploaded_run.wire Float64.exactLiteral) 0) 1 .empty
        retried_upload).db.runs.rows = [row] := by
  have hanswered : (Uploads.run (fun _ => true) (bodies (uploaded_run.wire Float64.exactLiteral) 0) 1 .empty
      retried_upload).answered.map (·.1) = [0] := by
    decide +kernel
  have hstores := upload_stores_run (fun _ => true) Float64.exactLiteral readsBack_exactLiteral uploaded_run
    (measured_run_fits _) uploaded_run_doubles uploaded_run_accepted (List.pairwise_singleton _ _) 0 1
    (fun _ => le_rfl) (by decide) .empty (List.forall_mem_nil _) (List.forall_mem_nil _) retried_upload
    fun c => { error := false, ok := decide (c = 0) }
  obtain ⟨row, rows, hstored, hmeasurements, hruns, _⟩ := hstores (by
    intro c _ hok
    have hmem : c ∈ (Uploads.run (fun _ => true) (bodies (uploaded_run.wire Float64.exactLiteral) 0) 1 .empty
        retried_upload).answered.map (·.1) := by
      rw [hanswered, of_decide_eq_true hok]
      exact List.mem_cons_self
    obtain ⟨p, hp, rfl⟩ := List.mem_map.mp hmem
    exact ⟨p.2, hp⟩) rfl
  exact ⟨row, rows, hstored, hmeasurements, hruns⟩

end Bench
