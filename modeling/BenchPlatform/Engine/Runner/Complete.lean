import BenchPlatform.Engine.Runner.Rows
import Mathlib.Data.List.Induction

/-!
This module contains that a run is complete: what it emits are the first trials of each configuration in
the order of the specification, the same ones in both modes unless it has been stopped.
-/

set_option linter.unusedSectionVars false

namespace Bench

open Hoare
open ConfigSession

variable {D : Type} [Double D] {host : Host D} {cfg : RunConfig D} {E : RunError → RunState D → Prop}
  {spec : ConfigSpec} {run : RunEnvelope D} {st : RunState D} {blocks : List (Block D)}

theorem Kept.of_ignores {P : RunState D → Prop} (hP : Ignores P)
    (hprepare : ∀ spec, PrepareGives host P P E spec) (hsetup : SetupFails host P E)
    (hworkers : ∀ spec ∈ cfg.all_specs, WorkersKeep host cfg P E spec)
    (hstopped : ∀ st sessions, (∀ sess ∈ sessions, sess.Tracks cfg) → P st →
      P { st with stopped := st.stopped ++ sessions })
    (hattempted : ∀ st attempts, (0 ≤ cfg.canary_retries → attempts ≤ cfg.canary_retries + 1) → P st →
      P { st with attempts := st.attempts ++ [attempts] })
    : Kept host cfg E P P where
  ignores := hP
  ignores' := hP
  turn := by
    intro _
    refine ⟨fun _ => P, ?_, fun _ h => h, fun _ h => h⟩
    exact {
      ignores := fun _ => hP
      prepare := fun _ spec _ => hprepare spec
      setup := fun _ => hsetup
      workers := hworkers
      stopped := hstopped }
  sequence := by
    intro _
    refine ⟨P, fun _ => P, ?_, fun _ h => h, fun _ h => h⟩
    exact {
      ignores := hP
      ignores' := fun _ => hP
      prepare := fun spec _ => hprepare spec
      setup := fun _ => hsetup
      workers := hworkers
      stopped := fun _ st sess hsess => hstopped st [sess] (by simpa using hsess)
      attempted := hattempted }

/--
The metric, the configuration and the number of the trial that a result is for.
-/
def Result.key (r : Result D) : Metric × Int × Nat × Int :=
  (r.metric, r.thread_count, r.working_set_bytes, r.trial)

def ConfigSpec.keys (spec : ConfigSpec) (trials : Nat) : List (Metric × Int × Nat × Int) :=
  (List.range trials).flatMap fun (t : Nat) =>
    spec.metrics.map fun m => (m, spec.threads, spec.working_set, (t : Int))

/--
A run without gaps: nothing but the first trials of each configuration, in one block each.
-/
structure Complete (cfg : RunConfig D) (st : RunState D) (run : RunEnvelope D) : Prop where
  emits : ∃ blocks, Emits cfg st run blocks
  distinct : ∀ spec ∈ cfg.all_specs, spec.metrics.Nodup
  warmups_first : ∀ sess ∈ st.stopped,
    sess.log = sess.warmups.map (true, ·) ++ sess.recorded.map (false, ·)
  attempts : 0 ≤ cfg.canary_retries → ∀ attempts ∈ st.attempts, attempts ≤ cfg.canary_retries + 1

/--
What holds of all sessions and attempts so far.
-/
def Orderly (cfg : RunConfig D) (st : RunState D) : Prop :=
  (∀ sess ∈ st.stopped, sess.Tracks cfg)
    ∧ (0 ≤ cfg.canary_retries → ∀ attempts ∈ st.attempts, attempts ≤ cfg.canary_retries + 1)

theorem Orderly.kept (hE : Accepts host E) : Kept host cfg E (Orderly cfg) (Orderly cfg) := by
  have hquiet : Quiet (Orderly cfg) :=
    { asked := fun _ _ h => h, progress := fun _ _ h => h, stop := fun _ _ h => h
      file := fun _ _ h => h, bytes_written := fun _ _ h => h, batches := fun _ _ h => h
      started := fun _ _ h => h }
  apply Kept.of_ignores hquiet.toIgnores (fun _ => hquiet.toIgnores.prepare hquiet.file hE.anywhere)
    (fun n what hwhat st _ => hE.setup n what hwhat st) fun _ _ => hquiet.workers hE
  . intro st sessions hsessions hst
    exact ⟨List.forall_mem_append.mpr ⟨hst.1, hsessions⟩, hst.2⟩
  . intro st attempts hattempts hst
    refine ⟨hst.1, fun hretries => List.forall_mem_append.mpr ⟨hst.2 hretries, ?_⟩⟩
    simpa using hattempts hretries

theorem Orderly.init (file : Option Nat) : Going (Orderly cfg) (.init file) :=
  ⟨⟨nofun, nofun⟩, rfl⟩

theorem check_arguments_ne_unfinished {err : RunError} (h : check_arguments cfg = .error err)
    : err ≠ .unfinished := by
  unfold check_arguments at h
  rintro rfl
  repeat' split at h
  all_goals cases h

theorem group_of_nodup (metric : Metric) : (group_of metric).Nodup := by
  cases metric <;> decide

theorem metrics_of_mem_all_specs (h : spec ∈ cfg.all_specs)
    : ∃ metric ∈ selected_metrics cfg, spec.metrics = group_of metric := by
  obtain ⟨metric, hmetric, h⟩ := List.mem_flatMap.mp h
  obtain ⟨threads, _, h⟩ := List.mem_flatMap.mp h
  obtain ⟨ws, _, rfl⟩ := List.mem_map.mp h
  exact ⟨metric, hmetric, rfl⟩

theorem keys_rows_of (spec : ConfigSpec) (recorded : List (TrialReading D))
    : (rows_of spec recorded).map Result.key = spec.keys recorded.length := by
  induction recorded using List.reverseRecOn with
  | nil => rfl
  | append_singleton recorded reading ih =>
    have hrow : Result.key ∘ row spec recorded.length reading
        = fun m => (m, spec.threads, spec.working_set, (recorded.length : Int)) := rfl
    rw [rows_of_append, List.map_append, ih, List.map_map, hrow, List.length_append,
      List.length_singleton]
    unfold ConfigSpec.keys
    rw [List.range_succ, List.flatMap_append, List.flatMap_singleton]

theorem Emits.keys (h : Emits cfg st run blocks) (hgoing : st.stop = .none)
    : run.results.map Result.key = cfg.all_specs.flatMap (·.keys cfg.trials.toNat) := by
  rw [h.results, List.map_flatMap]
  have hemitted := h.emitted
  clear h
  generalize cfg.all_specs = specs at hemitted ⊢
  induction hemitted with
  | nil => rfl
  | cons hb _ ih =>
    rw [List.flatMap_cons, List.flatMap_cons, ih, hb.rows, keys_rows_of]
    have hcomplete := hb.complete hgoing
    rw [← hcomplete]
    rfl

/--
A run is complete if it returns, and it does not need more rounds than can be told in advance. Unless it
is stopped the keys of its results do not depend on the mode.
-/
theorem run_benchmarks_complete (cfg : RunConfig D)
    : (∀ (host : Host D) fuel machine argv file run st,
        run_benchmarks host cfg fuel machine argv (.init file) = .ok run st → Complete cfg st run)
      ∧ (∀ (host : Host D) fuel machine argv file st, cfg.fuel ≤ fuel →
        run_benchmarks host cfg fuel machine argv (.init file) ≠ .error .unfinished st)
      ∧ ∀ (host host' : Host D) fuel fuel' machine machine' argv argv' file file' run run' st st',
        run_benchmarks host { cfg with interleave := false } fuel machine argv (.init file) = .ok run st →
        run_benchmarks host' { cfg with interleave := true } fuel' machine' argv' (.init file')
          = .ok run' st' →
        st.stop = .none → st'.stop = .none →
        run.results.map Result.key = run'.results.map Result.key := by
  have hrun : ∀ (cfg : RunConfig D) (host : Host D) fuel machine argv,
      Triple (Going (Orderly cfg)) (run_benchmarks host cfg fuel machine argv)
        (fun run st => (∃ blocks, Emits cfg st run blocks) ∧ Orderly cfg st) fun _ _ => True := by
    intro cfg host fuel machine argv
    refine (run_benchmarks_rule (Orderly.kept .any) (fun _ _ _ => trivial)
      fun _ _ => trivial).weaken ?_
    rintro run st ⟨hemits, _, _, hst⟩
    exact ⟨hemits, hst.1⟩
  refine ⟨?_, ?_, ?_⟩
  . intro host fuel machine argv file run st h
    obtain ⟨hemits, horderly⟩ := (hrun cfg host fuel machine argv).of_ok (Orderly.init file) h
    refine ⟨hemits, ?_, fun sess hsess => (horderly.1 sess hsess).log, horderly.2⟩
    intro spec hspec
    obtain ⟨metric, _, hmetrics⟩ := metrics_of_mem_all_specs hspec
    rw [hmetrics]
    exact group_of_nodup metric
  . intro host fuel machine argv file st hfuel h
    have hends : Triple (Going (Orderly cfg)) (run_benchmarks host cfg fuel machine argv)
        (fun run st => (∃ blocks, Emits cfg st run blocks)
          ∧ ∃ deadline, DeadlineOf host cfg deadline ∧ Held host cfg deadline (Orderly cfg) st)
        fun err _ => err ≠ .unfinished := by
      apply run_benchmarks_rule (Orderly.kept ?_)
      . exact fun err herr _ => check_arguments_ne_unfinished herr
      . exact fun hlt => absurd hfuel (not_le.mpr hlt)
      . exact ⟨nofun, nofun, nofun, nofun⟩
    exact hends.of_error (Orderly.init file) h rfl
  . intro host host' fuel fuel' machine machine' argv argv' file file' run run' st st' h h' hgoing hgoing'
    obtain ⟨⟨blocks, hblocks⟩, -⟩ := (hrun _ host fuel machine argv).of_ok (Orderly.init file) h
    obtain ⟨⟨blocks', hblocks'⟩, -⟩ := (hrun _ host' fuel' machine' argv').of_ok (Orderly.init file') h'
    rw [hblocks.keys hgoing, hblocks'.keys hgoing']
    rfl

/--
A host on which nothing fails and nobody stops a run. Its trials take no time, and those of the write metrics report no
batch, which no disk does.
-/
def Host.steady : Host D where
  new_run_id := fun _ => ""
  utc_now_rfc3339 := fun _ => ""
  clock_selftest := fun _ => ⟨true, ((1 : Nat) : D), 1⟩
  now := fun _ => 0
  abort_requested := fun _ => false
  check_disk_path := fun _ => .ok ()
  create_test_file := fun _ => .ok ()
  setup := fun _ => .ok ()
  trial := fun _ => .ok
    { ns := 1, lasted := Nat.one_pos, total_ops := 1, spread_ns := 0, p99_us := ((1 : Nat) : D)
      schedule := [], reach := 0, stamp := "", params := [] }

def nowhere : MachineInfo where
  id := ""
  hostname := ""
  cpu_model := ""
  physical_cores := 1
  logical_cpus := 1
  l1d_kb := 0
  l2_kb := 0
  l3_kb := 0
  memory_bytes := 0
  os := ""
  kernel := ""
  compiler := ""
  compiler_flags := ""
  engine_version := ""
  engine_git_sha := ""
  virtualized := ""

def four_trials : RunConfig ℚ where
  workloads := []
  metrics := [.mem_read_bw]
  thread_counts := [1, 2]
  working_sets := [64]
  trials := 2
  warmup_trials := 0
  warmup_ms := 0
  trial_ms := 50
  max_seconds := 0
  cpus := []
  interleave := false
  canary_retries := 0
  write_budget_bytes := 0

theorem run_benchmarks_complete_steady
    : ∃ run st run' st',
      run_benchmarks .steady { four_trials with interleave := false } 9 nowhere [] (.init none) = .ok run st
      ∧ run_benchmarks .steady { four_trials with interleave := true } 9 nowhere [] (.init none) = .ok run' st'
      ∧ Complete { four_trials with interleave := false } st run ∧ run.results.length = 4
      ∧ run.results.map Result.key = run'.results.map Result.key := by
  have hruns : ∀ interleave, (match run_benchmarks .steady { four_trials with interleave := interleave } 9 nowhere []
        (.init none) with
      | .ok run st => decide (st.stop = .none ∧ run.results.length = 4)
      | .error _ _ => false) = true := by
    decide +kernel
  have hsequential := hruns false
  have hinterleaved := hruns true
  split at hsequential
  swap
  . cases hsequential
  split at hinterleaved
  swap
  . cases hinterleaved
  rename_i run st hrun _ run' st' hrun'
  obtain ⟨hgoing, hlength⟩ := of_decide_eq_true hsequential
  obtain ⟨hgoing', -⟩ := of_decide_eq_true hinterleaved
  obtain ⟨hcomplete, -, -⟩ := run_benchmarks_complete { four_trials with interleave := false }
  refine ⟨run, st, run', st', hrun, hrun', hcomplete _ _ _ _ _ _ _ hrun, hlength, ?_⟩
  exact (run_benchmarks_complete four_trials).2.2 _ _ _ _ _ _ _ _ _ _ _ _ _ _ hrun hrun' hgoing hgoing'

end Bench
