import BenchPlatform.Engine.Runner.Rows
import BenchPlatform.Wire.Accepted
import BenchPlatform.Wire.RunId
import BenchPlatform.Wire.Timestamp

/-!
This module follows what a run writes back to where it was produced: whatever stops the run, and in either mode, the
API refuses it only if nothing was measured, or a number does not fit, or the clock of the system was set back.
-/

namespace Bench

open Api Hoare

/--
The host takes its random numbers and its stamps from where the engine does.
-/
structure Stamped (host : Host Float64) : Prop where
  run_id : ∀ n, ∃ hi lo, host.new_run_id n = new_run_id hi lo
  now : ∀ n, ∃ now, InClock now ∧ host.utc_now_rfc3339 n = utc_now_rfc3339 now
  trial : ∀ n reading, host.trial n = .ok reading → ∃ now, InClock now ∧ reading.stamp = utc_now_rfc3339 now

/--
What the API asks of a result on its own.
-/
structure Result.Good (r : Result Float64) : Prop where
  shared : r.Shared
  date : ∃ t, Model.ParseTimestamp r.timestamp = .ok t
  duration : 1 ≤ r.duration_ns

structure ConfigSpec.Good (spec : ConfigSpec) : Prop where
  kind : ∀ m ∈ spec.metrics, spec.kind = workload_of m
  threads : 1 ≤ spec.threads

structure ConfigSession.Good (sess : ConfigSession Float64) : Prop where
  spec : sess.spec.Good
  results : ∀ r ∈ sess.results, r.Good

/--
The run has some good results and is otherwise the same.
-/
def RunEnvelope.Extends (run run' : RunEnvelope Float64) : Prop :=
  (∃ results summary, run' = { run with results := results, summary := summary }) ∧ ∀ r ∈ run'.results, r.Good

section

variable {host : Host Float64} {cfg : RunConfig Float64} {sess : ConfigSession Float64} {spec : ConfigSpec}
  {run run' : RunEnvelope Float64} {deadline : Option Nat} {fuel : Nat}

theorem gives_ask {α : Type} {f : Nat → α} : Gives (ask (D := Float64) f) fun a => ∃ n, f n = a :=
  (ask_rule f fun _ _ _ => trivial).weaken fun _ _ h => h.1

theorem gives_checked {α : Type} {error : String → RunError} {x : Except String α}
    : Gives (checked (D := Float64) error x) fun a => x = .ok a := by
  cases x with
  | ok a => exact .pure rfl
  | error what => exact .throw

theorem ConfigSession.Good.record (hs : sess.Good) (warmup : Bool) {reading : TrialReading Float64} {now : Int}
    (hnow : InClock now) (hstamp : reading.stamp = utc_now_rfc3339 now)
    : (sess.record warmup reading).1.Good := by
  refine ⟨hs.spec, ?_⟩
  unfold ConfigSession.record
  cases warmup with
  | true => exact hs.results
  | false =>
    apply List.forall_mem_append.mpr ⟨hs.results, ?_⟩
    intro r hr
    obtain ⟨m, hm, rfl⟩ := List.mem_map.mp hr
    constructor
    . constructor
      . exact hs.spec.kind m hm
      . change Model.timestampRe reading.stamp = true
        rw [hstamp]
        exact timestampRe_stamp hnow
      . exact hs.spec.threads
      . change (0 : Int) ≤ ((sess.timed_done + 1 : Nat) : Int) - 1
        omega
    . refine ⟨stamp_time now, ?_⟩
      change Model.ParseTimestamp reading.stamp = _
      rw [hstamp]
      exact ParseTimestamp_stamp hnow
    . change 1 ≤ (if reading.ns = 0 then 1 else reading.ns)
      split <;> omega

theorem gives_run_one_trial (hstamped : Stamped host) (hs : sess.Good)
    : Gives (run_one_trial host cfg sess) ConfigSession.Good := by
  have hworkers : ∀ warmup, Gives (run_workers host sess warmup) fun reading =>
      ∃ now, InClock now ∧ reading.stamp = utc_now_rfc3339 now := by
    intro warmup
    apply Gives.bind .any
    intro _ _
    apply Gives.bind gives_ask
    rintro _ ⟨n, rfl⟩
    apply Gives.bind gives_checked
    intro reading hreading
    apply Gives.bind .any
    exact fun _ _ => .pure (hstamped.trial n reading hreading)
  apply Gives.bind (hworkers _)
  rintro reading ⟨now, hnow, hstamp⟩
  apply Gives.bind .any
  exact fun _ _ => .pure (hs.record _ hnow hstamp)

theorem gives_open_session (hspec : spec.Good) : Gives (open_session host spec) ConfigSession.Good := by
  have hmake : Gives (make_session (D := Float64) spec) ConfigSession.Good := by
    apply Gives.bind .any
    exact fun id _ => .pure ⟨hspec, fun r hr => absurd hr List.not_mem_nil⟩
  apply Gives.bind hmake
  intro sess hs
  apply Gives.bind .any
  intro _ _
  apply Gives.bind .any
  exact fun _ _ => .pure hs

theorem gives_trial_round (hstamped : Stamped host) {sessions : List (ConfigSession Float64)}
    (hs : ∀ sess ∈ sessions, sess.Good)
    : Gives (trial_round host cfg deadline sessions) fun r => ∀ sess ∈ r.1, sess.Good := by
  induction sessions with
  | nil => exact .pure hs
  | cons sess sessions ih =>
    rw [List.forall_mem_cons] at hs
    apply Gives.bind .any
    intro stopped _
    apply Gives.ite
    . exact fun _ => .pure (List.forall_mem_cons.mpr hs)
    . intro _
      apply Gives.ite
      . intro _
        apply Gives.bind (gives_run_one_trial hstamped hs.1)
        intro sess' hs'
        apply Gives.bind (ih hs.2)
        exact fun r hr => .pure (List.forall_mem_cons.mpr ⟨hs', hr⟩)
      . intro _
        apply Gives.bind (ih hs.2)
        exact fun r hr => .pure (List.forall_mem_cons.mpr ⟨hs.1, hr⟩)

theorem gives_run_trials (hstamped : Stamped host) (hs : sess.Good)
    : Gives (run_trials host cfg fuel deadline sess) ConfigSession.Good := by
  refine Gives.loop (fun sess hs => ?_) hs
  apply Gives.ite
  . intro _
    apply Gives.bind .any
    intro stopped _
    apply Gives.ite
    . exact fun _ => .pure hs
    . intro _
      apply Gives.bind (gives_run_one_trial hstamped hs)
      exact fun sess' hs' => .pure hs'
  . exact fun _ => .pure hs

theorem RunEnvelope.Extends.refl (h : ∀ r ∈ run.results, r.Good) : run.Extends run :=
  ⟨⟨run.results, run.summary, rfl⟩, h⟩

theorem RunEnvelope.Extends.emit (h : run.Extends run') (hs : sess.Good) (canary_start canary_end : ClockCheck Float64)
    (attempts : Int)
    : run.Extends (sess.emit run' canary_start canary_end attempts) := by
  obtain ⟨⟨results, summary, rfl⟩, hresults⟩ := h
  unfold ConfigSession.emit
  split
  . exact ⟨⟨results, summary, rfl⟩, hresults⟩
  . exact ⟨⟨_, _, rfl⟩, List.forall_mem_append.mpr ⟨hresults, hs.results⟩⟩

theorem gives_run_interleaved (hstamped : Stamped host) {specs : List ConfigSpec} (hspecs : ∀ spec ∈ specs, spec.Good)
    (hrun : ∀ r ∈ run.results, r.Good)
    : Gives (run_interleaved host cfg fuel deadline specs run) run.Extends := by
  apply Gives.bind .any
  intro canary_start _
  apply Gives.bind (Gives.mapM fun spec hspec => gives_open_session (hspecs spec hspec))
  intro sessions hs
  have hrounds : Gives (Hoare.loop RunError.unfinished (fun sessions => do
      let (sessions, any) ← trial_round host cfg deadline sessions
      let st ← get
      pure (if any ∧ st.stop = .none then .inl sessions else .inr sessions)) fuel sessions)
      fun sessions => ∀ sess ∈ sessions, sess.Good := by
    refine Gives.loop (Q := fun sessions => ∀ sess ∈ sessions, sess.Good) (fun sessions hs => ?_) hs
    apply Gives.bind (gives_trial_round hstamped hs)
    intro r hr
    apply Gives.bind .any
    intro st _
    apply Gives.pure
    split
    . exact hr
    . exact hr
  apply Gives.bind hrounds
  intro sessions hs
  apply Gives.bind .any
  intro _ _
  apply Gives.bind .any
  intro canary_end _
  apply Gives.pure
  have hfold : ∀ run', run.Extends run' →
      run.Extends (sessions.foldl (fun run sess => sess.emit run canary_start canary_end 1) run') := by
    induction sessions with
    | nil => exact fun run' h => h
    | cons sess sessions ih =>
      rw [List.forall_mem_cons] at hs
      exact fun run' h => ih hs.2 _ (h.emit hs.1 _ _ _)
  exact hfold run (.refl hrun)

theorem gives_run_sequential (hstamped : Stamped host) {specs : List ConfigSpec} (hspecs : ∀ spec ∈ specs, spec.Good)
    (hrun : run.Extends run')
    : Gives (run_sequential host cfg fuel deadline specs run') run.Extends := by
  induction specs generalizing run' with
  | nil => exact .pure hrun
  | cons spec specs ih =>
    rw [List.forall_mem_cons] at hspecs
    have htry : Gives (Hoare.loop RunError.unfinished (try_config host cfg fuel deadline spec run') fuel 0)
        fun r => run.Extends r.2 := by
      refine Gives.loop (Q := fun _ => True) (fun attempt _ => ?_) trivial
      apply Gives.bind .any
      intro canary_start _
      apply Gives.bind .any
      intro room_to_retry _
      apply Gives.ite
      . exact fun _ => .pure trivial
      . intro _
        apply Gives.bind (gives_open_session hspecs.1)
        intro sess hs
        apply Gives.bind (gives_run_trials hstamped hs)
        intro sess hs
        apply Gives.bind .any
        intro _ _
        apply Gives.bind .any
        intro canary_end _
        apply Gives.bind .any
        intro st _
        apply Gives.ite
        . exact fun _ => .pure trivial
        . exact fun _ => .pure (hrun.emit hs _ _ _)
    apply Gives.bind htry
    intro r hr
    apply Gives.bind .any
    intro _ _
    apply Gives.bind .any
    intro st _
    apply Gives.ite
    . exact fun _ => ih hspecs.2 hr
    . exact fun _ => .pure hr

theorem not_of_passed {c : Prop} [Decidable c] {err : RunError} {rest : PUnit → Except RunError Unit} {u : Unit}
    (h : (if c then throw err >>= rest else rest ⟨⟩) = .ok u)
    : ¬c ∧ rest ⟨⟩ = .ok u := by
  by_cases hc : c
  . rw [if_pos hc] at h
    cases h
  . rw [if_neg hc] at h
    exact ⟨hc, h⟩

theorem one_le_threads {u : Unit} (h : check_arguments cfg = .ok u) : ∀ n ∈ cfg.thread_counts, 1 ≤ n := by
  -- the threads are checked after five other things
  unfold check_arguments at h
  dsimp only at h
  have htrials := (not_of_passed h).2
  have hwarmups := (not_of_passed htrials).2
  have hwarmup := (not_of_passed hwarmups).2
  have htrial := (not_of_passed hwarmup).2
  have hseconds := (not_of_passed htrial).2
  have hthreads := (not_of_passed hseconds).1
  simpa using hthreads

theorem good_of_mem_all_specs {u : Unit} (h : check_arguments cfg = .ok u) (hspec : spec ∈ cfg.all_specs)
    : spec.Good := by
  obtain ⟨metric, _, hspec⟩ := List.mem_flatMap.mp hspec
  obtain ⟨threads, hthreads, hspec⟩ := List.mem_flatMap.mp hspec
  obtain ⟨ws, _, rfl⟩ := List.mem_map.mp hspec
  refine ⟨?_, one_le_threads h threads hthreads⟩
  have hriders : ∀ metric, ∀ m ∈ group_of metric, workload_of metric = workload_of m := by
    intro metric
    cases metric <;> decide
  exact hriders metric

theorem gives_run_benchmarks (hstamped : Stamped host) {machine : MachineInfo} {argv : List String}
    : Gives (run_benchmarks host cfg fuel machine argv) fun run =>
        (∃ hi lo start finish, InClock start ∧ InClock finish ∧ run.run_id = new_run_id hi lo
          ∧ run.started_at = utc_now_rfc3339 start ∧ run.finished_at = utc_now_rfc3339 finish)
        ∧ run.machine = machine ∧ ∀ r ∈ run.results, r.Good := by
  apply Gives.bind (Q := fun u => check_arguments cfg = .ok u)
  . cases hargs : check_arguments cfg with
    | ok u => exact .pure rfl
    | error err => exact .throw
  intro u hchecked
  apply Gives.bind gives_ask
  rintro _ ⟨n, rfl⟩
  apply Gives.bind gives_ask
  rintro _ ⟨n', rfl⟩
  apply Gives.bind .any
  intro deadline _
  rw [specs_eq]
  apply Gives.bind (Q := fun specs => specs = cfg.all_specs) (.pure rfl)
  rintro _ rfl
  have hspecs : ∀ spec ∈ cfg.all_specs, spec.Good := fun spec hspec => good_of_mem_all_specs hchecked hspec
  have hnone : ∀ r ∈ ([] : List (Result Float64)), r.Good := fun r hr => absurd hr List.not_mem_nil
  apply Gives.bind (Q := (RunEnvelope.mk 1 (host.new_run_id n) (host.utc_now_rfc3339 n') "" machine argv [] []).Extends)
  . apply Gives.ite
    . exact fun _ => gives_run_interleaved hstamped hspecs hnone
    . exact fun _ => gives_run_sequential hstamped hspecs (.refl hnone)
  rintro _ ⟨⟨results, summary, rfl⟩, hresults⟩
  apply Gives.bind gives_ask
  rintro _ ⟨n'', rfl⟩
  obtain ⟨hi, lo, hid⟩ := hstamped.run_id n
  obtain ⟨start, hstart, hstarted⟩ := hstamped.now n'
  obtain ⟨finish, hfinish, hfinished⟩ := hstamped.now n''
  exact .pure ⟨⟨hi, lo, start, finish, hstart, hfinish, hid, hstarted, hfinished⟩, rfl, hresults⟩

end

/--
A run with the id and the stamps of the engine, and with good results.
-/
structure Produced (machine : MachineInfo) (start finish : Int) (run : RunEnvelope Float64) : Prop where
  start_clock : InClock start
  finish_clock : InClock finish
  run_id : ∃ hi lo, run.run_id = new_run_id hi lo
  started_at : run.started_at = utc_now_rfc3339 start
  finished_at : run.finished_at = utc_now_rfc3339 finish
  machine : run.machine = machine
  results : ∀ r ∈ run.results, r.Good

theorem produced_of_run {host : Host Float64} (hstamped : Stamped host) {cfg : RunConfig Float64} {fuel : Nat}
    {machine : MachineInfo} {argv : List String} {s : RunState Float64} {run : RunEnvelope Float64}
    {st : RunState Float64} (hrun : run_benchmarks host cfg fuel machine argv s = .ok run st)
    : ∃ start finish, Produced machine start finish run := by
  obtain ⟨⟨hi, lo, start, finish, hstart, hfinish, hid, hstarted, hfinished⟩, hmachine, hresults⟩ :=
    (gives_run_benchmarks hstamped).of_ok hrun
  exact ⟨start, finish, hstart, hfinish, ⟨hi, lo, hid⟩, hstarted, hfinished, hmachine, hresults⟩

theorem Produced.accepted_iff {format_double : Float64 → String} {machine : MachineInfo} {start finish : Int}
    {run : RunEnvelope Float64} (h : Produced machine start finish run) (htext : ReadsBack format_double)
    (hfits : run.Fits) (hdoubles : ∀ x ∈ run.doubles, IsDouble x) (maxResults : Int)
    : run.Accepted format_double maxResults ↔ machine.sent.Valid ∧ run.results ≠ []
      ∧ (maxResults ≤ 0 ∨ run.results.length ≤ maxResults) ∧ run.InInt64 ∧ start / 1000 ≤ finish / 1000 := by
  have hstart' := ParseTimestamp_stamp h.start_clock
  have hfinish' := ParseTimestamp_stamp h.finish_clock
  rw [Bench.accepted_iff htext hfits hdoubles, machine_valid_iff]
  constructor
  . rintro ⟨hshared, halone⟩
    obtain ⟨t, t', ht, ht', horder⟩ := halone.dates
    rw [h.started_at, hstart', Except.ok.injEq] at ht
    rw [h.finished_at, hfinish', Except.ok.injEq] at ht'
    rw [← ht, ← ht', stamp_before_iff h.finish_clock h.start_clock, not_lt] at horder
    rw [← h.machine]
    exact ⟨⟨hshared.machine_id, halone.described, halone.cores, halone.caches⟩, halone.some_result,
      halone.few_results, halone.fits, horder⟩
  . rintro ⟨⟨hmachineID, hdescribed, hcores, hcaches⟩, hsome, hfew, hfits64, horder⟩
    rw [← h.machine] at hmachineID hdescribed hcores hcaches
    constructor
    . refine ⟨?_, ?_, ?_, hmachineID, fun r hr => (h.results r hr).shared⟩
      . obtain ⟨hi, lo, hid⟩ := h.run_id
        rw [hid]
        exact uuidRe_new_run_id
      . rw [h.started_at]
        exact timestampRe_stamp h.start_clock
      . rw [h.finished_at]
        exact timestampRe_stamp h.finish_clock
    . refine ⟨hfits64, hsome, hfew, ⟨_, _, h.started_at ▸ hstart', h.finished_at ▸ hfinish', ?_⟩,
        fun r hr => (h.results r hr).date, fun r hr => (h.results r hr).duration, hdescribed, hcores, hcaches⟩
      rw [stamp_before_iff h.finish_clock h.start_clock, not_lt]
      exact horder

/--
A run that has ended, however it did, is refused only if the machine is not described, nothing was measured or too
much, a number does not fit, or the clock was set back by a microsecond or more while it ran.
-/
theorem run_accepted_iff (format_double : Float64 → String) (htext : ReadsBack format_double)
    (host : Host Float64) (hstamped : Stamped host) (cfg : RunConfig Float64) (fuel : Nat) (machine : MachineInfo)
    (argv : List String) (file : Option Nat) (run : RunEnvelope Float64) (st : RunState Float64)
    (hrun : run_benchmarks host cfg fuel machine argv (.init file) = .ok run st) (hfits : run.Fits)
    (hdoubles : ∀ x ∈ run.doubles, IsDouble x) (maxResults : Int)
    : ∃ start finish, InClock start ∧ InClock finish
      ∧ run.started_at = utc_now_rfc3339 start ∧ run.finished_at = utc_now_rfc3339 finish
      ∧ (run.Accepted format_double maxResults ↔ machine.sent.Valid ∧ run.results ≠ []
        ∧ (maxResults ≤ 0 ∨ run.results.length ≤ maxResults) ∧ run.InInt64 ∧ start / 1000 ≤ finish / 1000) := by
  obtain ⟨start, finish, h⟩ := produced_of_run hstamped hrun
  exact ⟨start, finish, h.start_clock, h.finish_clock, h.started_at, h.finished_at,
    h.accepted_iff htext hfits hdoubles maxResults⟩

/--
A host whose clock advances by a nanosecond with each question, and on which each trial has the same result.
-/
def steady_host : Host Float64 where
  new_run_id := fun _ => new_run_id 0 0
  utc_now_rfc3339 := fun n => utc_now_rfc3339 (n % 2 ^ 63)
  clock_selftest := fun _ => { monotonic := true, mean_call_ns := Model.float0, min_call_ns := 0 }
  now := fun n => n
  abort_requested := fun _ => false
  check_disk_path := fun _ => .ok ()
  create_test_file := fun _ => .ok ()
  setup := fun _ => .ok ()
  trial := fun n => .ok
    { ns := 50000000, lasted := by decide, total_ops := 100, spread_ns := 0, p99_us := Model.float0, schedule := [],
      reach := 0, stamp := utc_now_rfc3339 (n % 2 ^ 63), params := [("cold", .string "none")] }

def one_trial : RunConfig Float64 where
  workloads := [.cpu_int]
  metrics := []
  thread_counts := [1]
  working_sets := [0]
  trials := 1
  warmup_trials := 0
  warmup_ms := 0
  trial_ms := 50
  max_seconds := Model.float0
  cpus := []
  interleave := false
  canary_retries := 0
  write_budget_bytes := 0

theorem steady_host_stamped : Stamped steady_host := by
  have hclock : ∀ n : Nat, InClock (n % 2 ^ 63) := by
    intro n
    unfold InClock
    omega
  constructor
  . exact fun n => ⟨0, 0, rfl⟩
  . exact fun n => ⟨_, hclock n, rfl⟩
  . intro n reading hreading
    injection hreading with hreading
    exact ⟨_, hclock n, hreading ▸ rfl⟩

theorem steady_run
    : ∃ run st, run_benchmarks steady_host one_trial 5 sent_run.machine [] (.init none) = .ok run st
      ∧ run.Fits ∧ run.InInt64 ∧ (∀ x ∈ run.doubles, IsDouble x) ∧ run.results.length = 1
      ∧ run.started_at = utc_now_rfc3339 1 ∧ run.finished_at = utc_now_rfc3339 1 := by
  have hfacts : (match run_benchmarks steady_host one_trial 5 sent_run.machine [] (.init none) with
      | .ok run _ => decide (run.schema_version = 1 ∧ run.machine.id = sent_run.machine.id
        ∧ (∀ r ∈ run.results, (-2 ^ 31 ≤ r.thread_count ∧ r.thread_count < 2 ^ 31) ∧ r.working_set_bytes < 2 ^ 63
          ∧ (-2 ^ 31 ≤ r.trial ∧ r.trial < 2 ^ 31) ∧ r.duration_ns < 2 ^ 63)
        ∧ (∀ s ∈ run.summary, (-2 ^ 31 ≤ s.thread_count ∧ s.thread_count < 2 ^ 31) ∧ s.working_set_bytes < 2 ^ 63
          ∧ (-2 ^ 31 ≤ s.n ∧ s.n < 2 ^ 31) ∧ (-2 ^ 31 ≤ s.late_trials ∧ s.late_trials < 2 ^ 31)
          ∧ -2 ^ 31 ≤ s.canary_attempts ∧ s.canary_attempts < 2 ^ 31)
        ∧ (∀ x ∈ run.doubles, x.Finite) ∧ run.results.length = 1
        ∧ run.started_at = utc_now_rfc3339 1 ∧ run.finished_at = utc_now_rfc3339 1)
      | .error _ _ => false) = true := by
    decide +kernel
  split at hfacts
  swap
  . cases hfacts
  rename_i run st hrun
  obtain ⟨hversion, _, hresults, hsummary, hfinite, hlength, hstarted, hfinished⟩ := of_decide_eq_true hfacts
  obtain ⟨_, hmachine, _⟩ := (gives_run_benchmarks steady_host_stamped).of_ok hrun
  have hfits : run.Fits := by
    refine ⟨hversion, hmachine ▸ sent_run_fits.machine, fun r hr => ?_, fun s hs => ?_⟩
    . obtain ⟨hthreads, hws, htrial, hduration⟩ := hresults r hr
      exact ⟨hthreads, hws.trans (by decide), htrial, hduration.trans (by decide)⟩
    . obtain ⟨hthreads, hws, hn, hlate, hattempts⟩ := hsummary s hs
      exact ⟨hthreads, hws.trans (by decide), hn, hlate, hattempts⟩
  refine ⟨run, st, hrun, hfits, ?_, fun x hx => isDouble_of_finite (hfinite x hx), hlength, hstarted, hfinished⟩
  refine ⟨hmachine ▸ sent_run_inInt64.memory_bytes, fun r hr => ?_, fun s hs => (hsummary s hs).2.1⟩
  exact ⟨(hresults r hr).2.2.2, (hresults r hr).2.1⟩

theorem sent_machine_valid : sent_run.machine.sent.Valid :=
  machine_valid_iff.mpr ⟨by decide, by decide, by decide, by decide⟩

theorem same_microsecond {start finish : Int} (hstart : InClock start) (hfinish : InClock finish)
    (h : utc_now_rfc3339 start = utc_now_rfc3339 finish)
    : start / 1000 ≤ finish / 1000 := by
  have hsame : stamp_time start = stamp_time finish := by
    apply Except.ok.inj (ε := GoError)
    rw [← ParseTimestamp_stamp hstart, ← ParseTimestamp_stamp hfinish, h]
  rw [← not_lt, ← stamp_before_iff hfinish hstart, hsame]
  exact lt_irrefl _

theorem run_accepted_iff_measured
    : ∃ run st, run_benchmarks steady_host one_trial 5 sent_run.machine [] (.init none) = .ok run st
      ∧ run.Accepted Float64.exactLiteral 50000 := by
  obtain ⟨run, st, hrun, hfits, hint64, hdoubles, hlength, hstarted, hfinished⟩ := steady_run
  obtain ⟨start, finish, hstart, hfinish, hstart', hfinish', haccepted⟩ :=
    run_accepted_iff Float64.exactLiteral readsBack_exactLiteral steady_host steady_host_stamped one_trial 5
      sent_run.machine [] none run st hrun hfits hdoubles 50000
  have hsome : run.results ≠ [] := List.ne_nil_of_length_pos (hlength ▸ Nat.one_pos)
  have horder := same_microsecond hstart hfinish (by rw [← hstart', ← hfinish', hstarted, hfinished])
  exact ⟨run, st, hrun, haccepted.mpr ⟨sent_machine_valid, hsome, .inr (by omega), hint64, horder⟩⟩

/--
What the API asks of a machine beyond its id.
-/
structure MachineInfo.Described (m : MachineInfo) : Prop where
  texts : ∀ s ∈ [m.hostname, m.cpu_model, m.os, m.kernel, m.compiler, m.engine_version, m.engine_git_sha], s ≠ ""
  cores : 1 ≤ m.physical_cores ∧ 1 ≤ m.logical_cpus
  caches : ∀ n ∈ [m.l1d_kb, m.l2_kb, m.l3_kb], 0 ≤ n

end Bench
