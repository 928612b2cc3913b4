import BenchPlatform.Engine.Runner.Keys
import BenchPlatform.Api.Http.Ingest
import BenchPlatform.Wire.Exchange
import BenchPlatform.Wire.Produced
import BenchPlatform.Wire.Reply
import BenchPlatform.Wire.Upload

/-!
This module follows a run from the command line to the tables: what is measured, given a name and a time, posted
and stored is one row for each trial that was asked for and has been run.
-/

namespace Bench

open Api Api.Model Api.Store Api.Http Hoare

section

variable {o : RunOptions Float64} {cfg : RunConfig Float64} {host : Host Float64} {fuel : Nat} {machine : MachineInfo}
  {argv : List String} {file : Option Nat} {run : RunEnvelope Float64} {st : RunState Float64}

theorem distinct_of_run (hcfg : run_config o = .ok cfg) (hdistinct : cfg.Distinct)
    (hrun : run_benchmarks host cfg fuel machine argv (.init file) = .ok run st)
    : run.results.Pairwise fun r r' => ¬r.SameTrial r' := by
  have hchecked := checked_of_run hrun
  have htrials := one_le_trials hchecked
  have hrule : Triple (Going (Orderly cfg)) (run_benchmarks host cfg fuel machine argv)
      (fun run st => (∃ blocks, Emits cfg st run blocks) ∧ ∃ deadline, DeadlineOf host cfg deadline
        ∧ Held host cfg deadline (Orderly cfg) st) fun _ _ => True :=
    run_benchmarks_rule (Orderly.kept .any) (fun _ _ _ => trivial) fun _ _ => trivial
  obtain ⟨⟨blocks, hemits⟩, -⟩ := Triple.of_ok hrule (Orderly.init file) hrun
  have hnodup : (run.results.map Result.key).Nodup := by
    by_cases hnone : cfg.all_specs = []
    . have hsublist := hemits.keys_sublist
      rw [hnone] at hsublist
      rw [List.sublist_nil.mp hsublist]
      exact List.nodup_nil
    . obtain hargs | hspecs | hrepeats := hdistinct
      . exact absurd hchecked hargs
      . exact absurd hspecs hnone
      . have hpos : 0 < cfg.trials.toNat := by omega
        exact hemits.keys_sublist.nodup
          ((all_keys_nodup hpos (not_rider_of_run_config hcfg) hnone).mpr hrepeats)
  refine (List.pairwise_map.mp hnodup).imp ?_
  rintro r r' hne ⟨hmetric, hthreads, hws, htrial⟩
  apply hne
  unfold Result.key
  rw [hmetric, hthreads, hws, htrial]

end

/--
If `bench run --post` ends well, whatever has stopped the run before its end and whichever calls and commands fail,
then the tables have gained one row for the run and one for each of its results: with the machine that it was run on,
under an id and with times that the API reads as the engine meant them. The command line must not repeat anything, the
clock not be set back and the id be new, the parts be within the limit of the API, and a success that the client reads
be what the handler has written for that part.
-/
theorem measured_run_stored (format_double : Float64 → String) (htext : ReadsBack format_double)
    (o : RunOptions Float64) (cfg : RunConfig Float64) (hcfg : run_config o = .ok cfg) (hdistinct : cfg.Distinct)
    (host : Host Float64) (hstamped : Stamped host) (fuel : Nat) (machine : MachineInfo)
    (hmachine : machine.sent.Valid) (argv : List String) (file : Option Nat) (run : RunEnvelope Float64)
    (st : RunState Float64) (hrun : run_benchmarks host cfg fuel machine argv (.init file) = .ok run st)
    (hsome : run.results ≠ []) (hfits : run.Fits) (hint64 : run.InInt64) (hdoubles : ∀ x ∈ run.doubles, IsDouble x)
    (hclock : ∀ start finish, InClock start → InClock finish → run.started_at = utc_now_rfc3339 start →
      run.finished_at = utc_now_rfc3339 finish → start / 1000 ≤ finish / 1000)
    (chunk_results : Nat) (maxResults : Int)
    (hmax : 0 < maxResults → (min (chunkSize run.results.length chunk_results) run.results.length : Int) ≤ maxResults)
    (hsize : run.results.length + chunkSize run.results.length chunk_results - 1 < 2 ^ 64) (db : Db)
    (hnew : ∀ m ∈ db.measurements.rows, parseUuid run.run_id ≠ some m.runID)
    (hnewRun : ∀ r ∈ db.runs.rows, parseUuid run.run_id ≠ some r.id) (dump : Object → List Char) (t : Transport)
    (htexts : t.texts = (post_envelope (run.wire format_double).members chunk_results).map dump)
    (posting : List Exchange.Action) (fmt : Format) (jsonb : Json → Bool) (serving : List Uploads.Action)
    (hserver : ∀ l ∈ (Exchange.run t posting).links, ∀ c status, 200 ≤ status → status < 300 →
      l.Answered t c status → ∃ r, (c, r) ∈ (Service.run fmt jsonb (bodies (run.wire format_double) chunk_results)
        maxResults db serving).responses ∧ (r.status : Int) = status)
    (hexit : (Exchange.run t posting).exit = some 0)
    : ∃ row rows, run.Stored format_double row rows ∧ row.machineID = machine.id
      ∧ rows.length = run.results.length
      ∧ (Service.run fmt jsonb (bodies (run.wire format_double) chunk_results) maxResults db
        serving).uploads.db.measurements.rows.Perm (db.measurements.rows ++ rows)
      ∧ (Service.run fmt jsonb (bodies (run.wire format_double) chunk_results) maxResults db
        serving).uploads.db.runs.rows = db.runs.rows ++ [row] := by
  obtain ⟨start, finish, hproduced⟩ := produced_of_run hstamped hrun
  have horder := hclock start finish hproduced.start_clock hproduced.finish_clock hproduced.started_at
    hproduced.finished_at
  have haccepted : run.Accepted format_double 0 :=
    (hproduced.accepted_iff htext hfits hdoubles 0).mpr ⟨hmachine, hsome, .inl le_rfl, hint64, horder⟩
  have hlength : t.texts.length = (bodies (run.wire format_double) chunk_results).length := by
    rw [htexts]
    unfold bodies
    rw [List.length_map, List.length_map]
  have htaken := (Exchange.run_inv t posting).exited hexit
  obtain ⟨hstored, actions, hactions⟩ := Service.run_stored fmt jsonb
    (bodies (run.wire format_double) chunk_results) maxResults db serving
  generalize Service.run fmt jsonb (bodies (run.wire format_double) chunk_results) maxResults db serving = service
    at hserver hstored hactions ⊢
  have hanswered : ∀ c, c < (bodies (run.wire format_double) chunk_results).length →
      ∃ res, (c, res) ∈ service.uploads.answered := by
    intro c hc
    obtain ⟨status, ⟨hlow, hhigh⟩, l, hl, hl'⟩ := htaken c (hlength ▸ hc)
    obtain ⟨r, hr, hstatus⟩ := hserver l hl c status hlow hhigh hl'
    exact hstored c r hr (by omega)
  rw [hactions] at hanswered ⊢
  obtain ⟨row, rows, hrows, hmeasurements, hruns, _⟩ := stored_of_answered htext hfits hdoubles haccepted
    (distinct_of_run hcfg hdistinct hrun) hmax hsize hnew hnewRun actions hanswered
  refine ⟨row, rows, hrows, ?_, hrows.measured.length_eq.symm, hmeasurements, hruns⟩
  obtain ⟨u, started, finished, _, _, _, hrow⟩ := hrows.header
  rw [hrow, ← hproduced.machine]
  rfl

/--
`bench run --workload cpu_int`, with no warm-up.
-/
def cpu_int_options : RunOptions Float64 where
  all := false
  workloads_csv := "cpu_int"
  metrics_csv := ""
  threads_csv := "1"
  ws_csv := "0"
  trials := 1
  trial_ms := none
  warmup_trials := 0
  warmup_ms := 0
  max_seconds := Model.float0
  interleave := false
  canary_retries := 0
  allow_writes := false
  write_budget := "0"
  pin := false
  cpus_csv := ""

theorem cpu_int_config : run_config cpu_int_options = .ok one_trial := by
  have hfields : (match run_config cpu_int_options with
      | .ok cfg => decide (cfg.workloads = [.cpu_int] ∧ cfg.metrics = [] ∧ cfg.thread_counts = [1]
        ∧ cfg.working_sets = [0] ∧ cfg.trials = 1 ∧ cfg.warmup_trials = 0 ∧ cfg.warmup_ms = 0 ∧ cfg.trial_ms = 50
        ∧ cfg.max_seconds = Model.float0 ∧ cfg.cpus = [] ∧ cfg.interleave = false ∧ cfg.canary_retries = 0
        ∧ cfg.write_budget_bytes = 0)
      | .error _ => false) = true := by
    decide +kernel
  split at hfields
  . rename_i cfg hok
    rw [hok]
    have hcfg := of_decide_eq_true hfields
    cases cfg
    obtain ⟨rfl, rfl, rfl, rfl, rfl, rfl, rfl, rfl, rfl, rfl, rfl, rfl, rfl⟩ := hcfg
    rfl
  . cases hfields

def escape (c : Char) : List Char :=
  if c = '"' then ['\\', '"']
  else if c = '\\' then ['\\', '\\']
  else if c = '\n' then ['\\', 'n']
  else if c = '\r' then ['\\', 'r']
  else if c = '\t' then ['\\', 't']
  else if c.toNat = 8 then ['\\', 'b']
  else if c.toNat = 12 then ['\\', 'f']
  else if c.toNat < 32 then ['\\', 'u', '0', '0', Nat.digitChar (c.toNat / 16), Nat.digitChar (c.toNat % 16)]
  else [c]

def write_string (s : String) : List Char :=
  '"' :: (s.toList.flatMap escape ++ ['"'])

mutual

def write_json : Json → List Char
  | .null => ['n', 'u', 'l', 'l']
  | .bool true => ['t', 'r', 'u', 'e']
  | .bool false => ['f', 'a', 'l', 's', 'e']
  | .num literal => literal.toList
  | .str s => write_string s
  | .arr elems => '[' :: (write_elems elems ++ [']'])
  | .obj members => '\x7b' :: (write_members members ++ ['\x7d'])

def write_elems : List Json → List Char
  | [] => []
  | [v] => write_json v
  | v :: vs => write_json v ++ ',' :: write_elems vs

def write_members : List (String × Json) → List Char
  | [] => []
  | [(key, v)] => write_string key ++ ':' :: write_json v
  | (key, v) :: members => write_string key ++ ':' :: (write_json v ++ ',' :: write_members members)

end

/--
What `part.dump()` gives: UTF-8, with one character for each byte.
-/
def dump_text (part : Object) : List Char :=
  chars ((write_json (.obj part)).flatMap String.utf8EncodeChar)

def posting (run : RunEnvelope Float64) : Transport where
  url := { host := ['h'], port := 80, path := ['/'] }
  version := ['1']
  timeout_ms := 1000
  texts := (post_envelope (run.wire Float64.exactLiteral).members 0).map dump_text

/--
One address cannot be used, calls are interrupted, and everything goes over the connection in two pieces.
-/
def posting_schedule (run : RunEnvelope Float64) : List Exchange.Action :=
  let request := (posting run).request 0
  let reply := taken_reply.encode
  [.client (.resolved 2), .client (.failed (.other "no")), .client .done, .client (.failed .einprogress),
    .client .ready, .client .done, .client .ready, .client (.count 10), .client (.failed .eintr), .client .ready,
    .client (.failed .eagain), .client .ready, .client (.count (request.length - 10)), .write 0 (reply.take 40),
    .client .ready, .client (.bytes (reply.take 40)), .write 0 (reply.drop 40), .close 0, .client .ready,
    .client (.bytes (reply.drop 40)), .client .ready, .client (.bytes []), .client (.rounds 3), .next]

def serving_schedule : List Uploads.Action :=
  [.arrive 0 fun _ => none, .lock 0, .finish]

def serving (run : RunEnvelope Float64) : Service :=
  Service.run ⟨fun _ => true, fun _ => ""⟩ (fun _ => true) (bodies (run.wire Float64.exactLiteral) 0) 1 .empty
    serving_schedule

theorem taken_reply_status {status : Int} {chunked : Bool} {payload : List Char}
    (h : read_response taken_reply.encode = .response status chunked payload)
    : status = 200 := by
  have hread : (match read_response taken_reply.encode with
      | .response status _ _ => decide (status = 200)
      | _ => false) = true := by
    decide +kernel
  rw [h] at hread
  exact of_decide_eq_true hread

theorem measured_run_stored_cpu_int
    : ∃ run st row rows, run_benchmarks steady_host one_trial 5 sent_run.machine [] (.init none) = .ok run st
      ∧ run.Stored Float64.exactLiteral row rows ∧ row.machineID = sent_run.machine.id
      ∧ rows.length = run.results.length
      ∧ (serving run).uploads.db.measurements.rows.Perm ([] ++ rows)
      ∧ (serving run).uploads.db.runs.rows = [] ++ [row] := by
  obtain ⟨run, st, hrun, hfits, hint64, hdoubles, hlength, hstarted, hfinished⟩ := steady_run
  have hposted : (match run_benchmarks steady_host one_trial 5 sent_run.machine [] (.init none) with
      | .ok run _ => decide ((Exchange.run (posting run) (posting_schedule run)).exit = some 0
        ∧ (Exchange.run (posting run) (posting_schedule run)).links.map (fun l => (l.part, l.answer))
          = [(0, taken_reply.encode)]
        ∧ (serving run).responses.map (fun p => (p.1, p.2.status)) = [(0, 200)])
      | .error _ _ => false) = true := by
    decide +kernel
  rw [hrun] at hposted
  obtain ⟨hexit, hlinks, hresponses⟩ := of_decide_eq_true hposted
  have hserver : ∀ l ∈ (Exchange.run (posting run) (posting_schedule run)).links, ∀ c status, 200 ≤ status →
      status < 300 → l.Answered (posting run) c status →
      ∃ r, (c, r) ∈ (serving run).responses ∧ (r.status : Int) = status := by
    intro l hl c status _ _ hanswered
    obtain ⟨-, chunked, payload, hread⟩ := hanswered.responded
    have hpair : (l.part, l.answer) = (0, taken_reply.encode) := by
      rw [← List.mem_singleton, ← hlinks]
      exact List.mem_map_of_mem hl
    obtain ⟨hpart, hanswer⟩ := Prod.mk.inj hpair
    rw [hanswer] at hread
    obtain ⟨⟨p, r⟩, hr, hstatus⟩ := List.mem_map.mp (hresponses ▸ List.mem_cons_self :
      (0, 200) ∈ (serving run).responses.map fun p => (p.1, p.2.status))
    obtain ⟨rfl, hstatus⟩ := Prod.mk.inj hstatus
    refine ⟨r, ?_, ?_⟩
    . rwa [← hanswered.part, hpart]
    . rw [taken_reply_status hread, hstatus]
      rfl
  have hdistinct : one_trial.Distinct := .inr (.inr ⟨by decide, by decide, by decide⟩)
  have hsome : run.results ≠ [] := List.ne_nil_of_length_pos (hlength ▸ Nat.one_pos)
  have hclock : ∀ start finish, InClock start → InClock finish → run.started_at = utc_now_rfc3339 start →
      run.finished_at = utc_now_rfc3339 finish → start / 1000 ≤ finish / 1000 :=
    fun start finish hstart hfinish hstart' hfinish' =>
      same_microsecond hstart hfinish (by rw [← hstart', ← hfinish', hstarted, hfinished])
  have hmax : 0 < (1 : Int) → (min (chunkSize run.results.length 0) run.results.length : Int) ≤ 1 := by
    rw [hlength]
    exact fun _ => le_rfl
  have hsize : run.results.length + chunkSize run.results.length 0 - 1 < 2 ^ 64 := by
    rw [hlength]
    decide
  obtain ⟨row, rows, hstored⟩ := measured_run_stored Float64.exactLiteral readsBack_exactLiteral cpu_int_options
    one_trial cpu_int_config hdistinct steady_host steady_host_stamped 5 sent_run.machine sent_machine_valid [] none
    run st hrun hsome hfits hint64 hdoubles hclock 0 1 hmax hsize .empty (List.forall_mem_nil _) (List.forall_mem_nil _)
    dump_text (posting run) rfl (posting_schedule run) ⟨fun _ => true, fun _ => ""⟩ (fun _ => true) serving_schedule
    hserver hexit
  exact ⟨run, st, row, rows, hrun, hstored⟩

end Bench
