import BenchPlatform.Engine.DiskIo
import BenchPlatform.Engine.Result
import BenchPlatform.Lib.Hoare

/-!
This module contains the run coordinator: the configurations that a run covers, the trials of one of
them, and the loops that take the configurations one after the other or in turn.
-/

namespace Bench

variable {D : Type} [Double D]

structure RunConfig (D : Type) where
  workloads : List Workload
  metrics : List Metric
  thread_counts : List Int
  working_sets : List Nat
  trials : Int
  warmup_trials : Int
  warmup_ms : Int
  trial_ms : Int
  max_seconds : D
  cpus : List Int
  interleave : Bool
  canary_retries : Int
  write_budget_bytes : Nat

structure ConfigSpec where
  kind : Workload
  metrics : List Metric
  threads : Int
  working_set : Nat
  deriving DecidableEq

inductive StopReason where
  | none
  | aborted
  | timed_out
  | write_budget
  deriving DecidableEq, Repr

inductive RunError where
  | invalid_argument (what : String)
  | runtime_error (what : String)
  /-- An exception that a worker does not catch. -/
  | terminated (what : String)
  /-- The loops have not ended after the rounds they were given. -/
  | unfinished
  deriving DecidableEq, Repr

structure ClockCheck (D : Type) where
  monotonic : Bool
  mean_call_ns : D
  min_call_ns : Nat

def ClockCheck.contention_ratio (c : ClockCheck D) : D :=
  if c.min_call_ns = 0 then ((1 : Nat) : D) else c.mean_call_ns / (c.min_call_ns : D)

def kCanaryMaxRatio : Nat :=
  3

def canary_clean (c : ClockCheck D) : Bool :=
  c.monotonic && Double.le c.contention_ratio (kCanaryMaxRatio : D)

/--
What the workers leave behind when a trial is over. They run for a millisecond at least.
-/
structure TrialReading (D : Type) where
  ns : Nat
  lasted : 0 < ns
  total_ops : Nat
  spread_ns : Nat
  p99_us : D
  /-- The steps of the workers that write, in their order, and where the last byte of theirs lies. -/
  schedule : List WriteAction
  reach : Nat
  stamp : String
  params : List (String × json D)

def kLateTrialUs : Nat :=
  1000

def TrialReading.late (reading : TrialReading D) : Bool :=
  Double.lt (kLateTrialUs : D) ((reading.spread_ns : D) / ((1000 : Nat) : D))

/--
All that a run asks of its surroundings. The argument says how many questions have been asked before.
-/
structure Host (D : Type) where
  new_run_id : Nat → String
  utc_now_rfc3339 : Nat → String
  clock_selftest : Nat → ClockCheck D
  now : Nat → Nat
  abort_requested : Nat → Bool
  check_disk_path : Nat → Except String Unit
  /-- Creating the test file fails with what is left of it. -/
  create_test_file : Nat → Except (String × Option Nat) Unit
  setup : Nat → Except String Unit
  trial : Nat → Except String (TrialReading D)

/--
A configuration's worker pool. The log has all its trials, and whether they were for warmup.
-/
structure ConfigSession (D : Type) where
  id : Nat
  spec : ConfigSpec
  warmups_done : Nat
  timed_done : Nat
  late_trials : Nat
  active_ns : Nat
  values : List (List D)
  results : List (Result D)
  log : List (Bool × TrialReading D)

/--
A trial that has been started, with the size of the test file and the bytes written at that moment.
-/
structure Started where
  session : Nat
  spec : ConfigSpec
  warmup : Bool
  file : Option Nat
  bytes_written : Nat
  deriving DecidableEq

/--
A batch of writes that has been completed. The trials of a run are numbered from one on.
-/
structure WriteBatch where
  trial : Nat
  thread : Nat
  bytes : Nat
  deriving DecidableEq

structure RunState (D : Type) where
  asked : Nat
  file : Option Nat
  bytes_written : Nat
  /-- What all workers of all sessions have written. -/
  batches : List WriteBatch
  stop : StopReason
  /-- What the progress callback has been called with. -/
  progress : List (Result D × Bool)
  started : List Started
  stopped : List (ConfigSession D)
  attempts : List Int

def RunState.init (file : Option Nat) : RunState D :=
  { asked := 0, file := file, bytes_written := 0, batches := [], stop := .none, progress := [],
    started := [], stopped := [], attempts := [] }

abbrev RunM (D : Type) : Type → Type :=
  EStateM RunError (RunState D)

def ask {α : Type} (f : Nat → α) : RunM D α := do
  let st ← get
  set { st with asked := st.asked + 1 }
  pure (f st.asked)

def checked {α : Type} (error : String → RunError) (x : Except String α) : RunM D α :=
  match x with
  | .ok a => pure a
  | .error what => throw (error what)

variable (host : Host D) (cfg : RunConfig D)

namespace ConfigSession

def in_warmup (sess : ConfigSession D) : Bool :=
  (sess.warmups_done : Int) < cfg.warmup_trials || sess.active_ns < cfg.warmup_ms.toNat * 10 ^ 6

def wants_more_trials (sess : ConfigSession D) : Bool :=
  sess.in_warmup cfg || (sess.timed_done : Int) < cfg.trials

def row (spec : ConfigSpec) (trial : Int) (reading : TrialReading D) (m : Metric) : Result D where
  workload := spec.kind
  thread_count := spec.threads
  working_set_bytes := spec.working_set
  metric := m
  value :=
    if value_rule_of m = .latency_p99_us then reading.p99_us
    else value_from_units m reading.total_ops reading.ns spec.threads
  trial := trial
  timestamp := reading.stamp
  duration_ns := if reading.ns = 0 then 1 else reading.ns
  params := .object reading.params

def record (sess : ConfigSession D) (warmup : Bool) (reading : TrialReading D)
    : ConfigSession D × List (Result D) :=
  let warmups_done := if warmup then sess.warmups_done + 1 else sess.warmups_done
  let timed_done := if warmup then sess.timed_done else sess.timed_done + 1
  let trial : Int := if warmup then -warmups_done else timed_done - 1
  let rows := sess.spec.metrics.map (row sess.spec trial reading)
  ({ sess with
      warmups_done := warmups_done
      timed_done := timed_done
      active_ns := sess.active_ns + reading.ns
      values := if warmup then sess.values else sess.values.zipWith (fun v r => v ++ [r.value]) rows
      results := if warmup then sess.results else sess.results ++ rows
      late_trials := if !warmup && reading.late then sess.late_trials + 1 else sess.late_trials
      log := sess.log ++ [(warmup, reading)] },
    rows)

def summary (sess : ConfigSession D) (m : Metric) (v : List D) (canary_start canary_end : ClockCheck D)
    (attempts : Int) : Summary D :=
  let st := summarize v
  { workload := sess.spec.kind
    metric := m
    thread_count := sess.spec.threads
    working_set_bytes := sess.spec.working_set
    n := st.n
    mean := st.mean
    median := st.median
    stddev := st.stddev
    cov := st.cov
    min := st.min
    p5 := st.p5
    p95 := st.p95
    max := st.max
    mad := st.mad
    late_trials := sess.late_trials
    canary_attempts := attempts
    clock_call_ns_start := canary_start.mean_call_ns
    clock_call_ns_end := canary_end.mean_call_ns }

def emit (sess : ConfigSession D) (out : RunEnvelope D) (canary_start canary_end : ClockCheck D)
    (attempts : Int) : RunEnvelope D :=
  if sess.results.isEmpty then
    out
  else
    let measured := (sess.spec.metrics.zip sess.values).filter (!·.2.isEmpty)
    { out with
      results := out.results ++ sess.results
      summary := out.summary
        ++ measured.map fun (m, v) => sess.summary m v canary_start canary_end attempts }

end ConfigSession

def make_session (spec : ConfigSpec) : RunM D (ConfigSession D) := do
  let id ← ask id
  pure
    { id := id, spec := spec, warmups_done := 0, timed_done := 0, late_trials := 0, active_ns := 0,
      values := spec.metrics.map fun _ => [], results := [], log := [] }

/--
Creates the test file at exactly that size if it is missing or has another size.
-/
def ensure_test_file (bytes : Nat) : RunM D Unit := do
  let st ← get
  if st.file = some bytes then
    pure ()
  else
    match ← ask host.create_test_file with
    | .ok () => modify fun st => { st with file := some bytes }
    | .error (what, left) => do
      modify fun st => { st with file := left }
      throw (.runtime_error what)

def prepare (sess : ConfigSession D) : RunM D Unit :=
  if sess.spec.kind.on_disk then do
    let path ← ask host.check_disk_path
    checked .runtime_error path
    ensure_test_file host sess.spec.working_set
  else
    pure ()

def start : RunM D Unit := do
  let setup ← ask host.setup
  checked .runtime_error setup

/--
Only the disk write metrics are counted. Where they write lies before the size that the file had when
the workers opened it, which is the working set.
-/
def note_written (spec : ConfigSpec) (reading : TrialReading D) : RunM D Unit :=
  if spec.metrics.head?.any Metric.writes_disk then
    modify fun st =>
      let writers := DiskWriters.run spec.kind st.bytes_written reading.schedule
      { st with
        bytes_written := writers.bytes_written
        batches := st.batches
          ++ writers.completed.map fun (thread, bytes) => ⟨st.started.length, thread, bytes⟩
        file := st.file.map (max · (min reading.reach spec.working_set)) }
  else
    pure ()

def run_workers (sess : ConfigSession D) (warmup : Bool) : RunM D (TrialReading D) := do
  modify fun st => { st with
    started := st.started ++ [⟨sess.id, sess.spec, warmup, st.file, st.bytes_written⟩] }
  let trial ← ask host.trial
  let reading ← checked .terminated trial
  note_written sess.spec reading
  pure reading

def run_one_trial (sess : ConfigSession D) : RunM D (ConfigSession D) := do
  let warmup := sess.in_warmup cfg
  let reading ← run_workers host sess warmup
  let (sess, rows) := sess.record warmup reading
  modify fun st => { st with progress := st.progress ++ rows.map (·, warmup) }
  pure sess

def stop (sess : ConfigSession D) : RunM D Unit :=
  modify fun st => { st with stopped := st.stopped ++ [sess] }

def stop_with (reason : StopReason) : RunM D Bool := do
  modify fun st => { st with stop := reason }
  pure true

def past (deadline : Option Nat) : RunM D Bool :=
  match deadline with
  | none => pure false
  | some deadline => do
    let now ← ask host.now
    pure (deadline ≤ now)

def should_stop (deadline : Option Nat) : RunM D Bool := do
  if ← ask host.abort_requested then
    stop_with .aborted
  else
    let st ← get
    if 0 < cfg.write_budget_bytes ∧ cfg.write_budget_bytes ≤ st.bytes_written then
      stop_with .write_budget
    else if ← past host deadline then
      stop_with .timed_out
    else
      pure false

/--
One trial of each session that wants one. Also says whether there was any.
-/
def trial_round (deadline : Option Nat)
    : List (ConfigSession D) → RunM D (List (ConfigSession D) × Bool)
  | [] => pure ([], false)
  | sess :: sessions => do
    if ← should_stop host cfg deadline then
      pure (sess :: sessions, false)
    else if sess.wants_more_trials cfg then
      let sess ← run_one_trial host cfg sess
      let (sessions, _) ← trial_round deadline sessions
      pure (sess :: sessions, true)
    else
      let (sessions, any) ← trial_round deadline sessions
      pure (sess :: sessions, any)

def open_session (spec : ConfigSpec) : RunM D (ConfigSession D) := do
  let sess ← make_session spec
  prepare host sess
  start host
  pure sess

def run_interleaved (fuel : Nat) (deadline : Option Nat) (specs : List ConfigSpec)
    (run : RunEnvelope D) : RunM D (RunEnvelope D) := do
  let canary_start ← ask host.clock_selftest
  let sessions ← specs.mapM (open_session host)
  let sessions ← Hoare.loop .unfinished (fun sessions => do
    let (sessions, any) ← trial_round host cfg deadline sessions
    let st ← get
    pure (if any ∧ st.stop = .none then .inl sessions else .inr sessions)) fuel sessions
  sessions.forM stop
  let canary_end ← ask host.clock_selftest
  pure (sessions.foldl (fun run sess => sess.emit run canary_start canary_end 1) run)

def run_trials (fuel : Nat) (deadline : Option Nat)
    : ConfigSession D → RunM D (ConfigSession D) :=
  Hoare.loop .unfinished (fun sess => do
    if sess.wants_more_trials cfg then
      if ← should_stop host cfg deadline then
        pure (.inr sess)
      else
        let sess ← run_one_trial host cfg sess
        pure (.inl sess)
    else
      pure (.inr sess)) fuel

def kBackoffNs : Nat :=
  250 * 10 ^ 6

def has_room_to_retry (deadline : Option Nat) : RunM D Bool :=
  match deadline with
  | none => pure true
  | some deadline => do
    let now ← ask host.now
    pure (now + kBackoffNs < deadline)

/--
One attempt at a configuration: either its number, if it is discarded, or what it has emitted.
-/
def try_config (fuel : Nat) (deadline : Option Nat) (spec : ConfigSpec) (run : RunEnvelope D)
    (attempt : Int) : RunM D (Int ⊕ Int × RunEnvelope D) := do
  let attempt := attempt + 1
  let last_attempt : Bool := cfg.canary_retries < attempt
  let canary_start ← ask host.clock_selftest
  let room_to_retry ← has_room_to_retry host deadline
  if !canary_clean canary_start && !last_attempt && room_to_retry then
    pure (.inl attempt)
  else
    let sess ← open_session host spec
    let sess ← run_trials host cfg fuel deadline sess
    stop sess
    let canary_end ← ask host.clock_selftest
    let st ← get
    if !canary_clean canary_end && !last_attempt && st.stop = .none && room_to_retry then
      pure (.inl attempt)
    else
      pure (.inr (attempt, sess.emit run canary_start canary_end attempt))

def run_sequential (fuel : Nat) (deadline : Option Nat)
    : List ConfigSpec → RunEnvelope D → RunM D (RunEnvelope D)
  | [], run => pure run
  | spec :: specs, run => do
    let (attempts, run) ← Hoare.loop .unfinished (try_config host cfg fuel deadline spec run) fuel 0
    modify fun st => { st with attempts := st.attempts ++ [attempts] }
    let st ← get
    if st.stop = .none then
      run_sequential fuel deadline specs run
    else
      pure run

def run_specs (fuel : Nat) (deadline : Option Nat) (specs : List ConfigSpec) (run : RunEnvelope D)
    : RunM D (RunEnvelope D) :=
  if cfg.interleave then
    run_interleaved host cfg fuel deadline specs run
  else
    run_sequential host cfg fuel deadline specs run

def check_arguments : Except RunError Unit := do
  if cfg.trials < 1 then
    throw (.invalid_argument "trials must be >= 1")
  if cfg.warmup_trials < 0 then
    throw (.invalid_argument "warmup_trials must be >= 0")
  if cfg.warmup_ms < 0 then
    throw (.invalid_argument "warmup_ms must be >= 0")
  if cfg.trial_ms < 1 then
    throw (.invalid_argument "trial_ms must be >= 1")
  if Double.lt cfg.max_seconds ((0 : Nat) : D) || !Double.isfinite cfg.max_seconds then
    throw (.invalid_argument "max_seconds must be >= 0 and finite")
  if cfg.thread_counts.any (· < 1) then
    throw (.invalid_argument "thread_count must be >= 1")
  if cfg.cpus.any (· < 0) then
    throw (.invalid_argument "cpu ids must be >= 0")

/--
The metrics that are measured: those that are asked for, or all of the workloads'.
-/
def selected_metrics : List Metric :=
  if cfg.metrics.isEmpty then cfg.workloads.flatMap metrics_of else cfg.metrics

def group_of (metric : Metric) : List Metric :=
  metric :: riders_of metric

def specs_of (metric : Metric) : Except RunError (List ConfigSpec) :=
  let kind := workload_of metric
  if is_implemented kind then
    .ok (cfg.thread_counts.flatMap fun threads =>
      cfg.working_sets.map fun ws =>
        ⟨kind, group_of metric, threads, effective_working_set kind ws⟩)
  else
    .error (.runtime_error s!"workload '{kind.to_string}' is not implemented yet")

def specs : Except RunError (List ConfigSpec) := do
  let groups ← (selected_metrics cfg).mapM (specs_of cfg)
  pure groups.flatten

def deadline_of : RunM D (Option Nat) := do
  if Double.lt ((0 : Nat) : D) cfg.max_seconds then
    let now ← ask host.now
    pure (some (now + Double.nanoseconds cfg.max_seconds))
  else
    pure none

def liftChecked {α : Type} (x : Except RunError α) : RunM D α :=
  match x with
  | .ok a => pure a
  | .error err => throw err

def run_benchmarks (fuel : Nat) (machine : MachineInfo) (argv : List String)
    : RunM D (RunEnvelope D) := do
  liftChecked (check_arguments cfg)
  let run_id ← ask host.new_run_id
  let started_at ← ask host.utc_now_rfc3339
  let run : RunEnvelope D :=
    { schema_version := 1, run_id := run_id, started_at := started_at, finished_at := "",
      machine := machine, argv := argv, results := [], summary := [] }
  let deadline ← deadline_of host cfg
  let specs ← liftChecked (specs cfg)
  let run ← run_specs host cfg fuel deadline specs run
  let finished_at ← ask host.utc_now_rfc3339
  pure { run with finished_at := finished_at }

end Bench
