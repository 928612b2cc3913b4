import BenchPlatform.Engine.Runner.Complete
import BenchPlatform.Engine.Cli
import Mathlib.Data.List.Nodup

/-!
This module contains when the results of a run have different keys: the command line must not repeat a
metric, a thread count or what a workload makes of a working set.
-/

set_option linter.unusedSectionVars false

namespace Bench

open Hoare
open ConfigSession

variable {D : Type} [Double D] {cfg : RunConfig D} {run : RunEnvelope D} {st : RunState D}
  {blocks : List (Block D)}

section Owner

variable {α β : Type} {l : List α} {f : α → List β}

theorem nodup_flatMap_iff (owner : β → α) (hne : ∀ a ∈ l, f a ≠ []) (howner : ∀ a ∈ l, ∀ b ∈ f a, owner b = a)
    : (l.flatMap f).Nodup ↔ l.Nodup ∧ ∀ a ∈ l, (f a).Nodup := by
  have hpairwise : l.Pairwise (Function.onFun List.Disjoint f) ↔ l.Nodup := by
    apply List.Pairwise.iff_of_mem
    intro a a' ha ha'
    constructor
    . rintro hdisjoint rfl
      obtain ⟨b, hb⟩ := List.exists_mem_of_ne_nil _ (hne a ha)
      exact hdisjoint hb hb
    . intro hdiffer b hb hb'
      exact hdiffer ((howner a ha b hb).symm.trans (howner a' ha' b hb'))
  rw [List.nodup_flatMap, hpairwise, and_comm]

end Owner

def host_of (m : Metric) : Metric :=
  if is_rider m then .disk_rand_read_iops else m

theorem host_of_mem {m g : Metric} (hm : is_rider m = false) (h : g ∈ group_of m) : host_of g = m := by
  cases m <;> cases g <;> first | rfl | exact absurd h (by decide) | exact absurd hm (by decide)

theorem keys_nodup (metric : Metric) (threads : Int) (ws n : Nat)
    : ((⟨workload_of metric, group_of metric, threads, ws⟩ : ConfigSpec).keys n).Nodup := by
  unfold ConfigSpec.keys
  have hmap : ∀ t : Nat, ((group_of metric).map fun m => (m, threads, ws, (t : Int))).Nodup := by
    intro t
    apply (group_of_nodup metric).map
    intro m m' h
    exact congrArg Prod.fst h
  refine (nodup_flatMap_iff (fun k => k.2.2.2.toNat) ?_ ?_).mpr ⟨List.nodup_range, fun t _ => hmap t⟩
  . exact fun t _ h => List.cons_ne_nil _ _ (List.map_eq_nil_iff.mp h)
  . intro t _ k hk
    obtain ⟨m, _, rfl⟩ := List.mem_map.mp hk
    rfl

/--
No metric, no thread count and no effective working set comes twice.
-/
def RunConfig.NoRepeats (cfg : RunConfig D) : Prop :=
  (selected_metrics cfg).Nodup ∧ cfg.thread_counts.Nodup
    ∧ ∀ m ∈ selected_metrics cfg,
      (cfg.working_sets.map (effective_working_set (workload_of m))).Nodup

def RunConfig.keys_for (cfg : RunConfig D) (n : Nat) (m : Metric) : List (Metric × Int × Nat × Int) :=
  cfg.thread_counts.flatMap fun threads =>
    (cfg.working_sets.map (effective_working_set (workload_of m))).flatMap fun ws =>
      (⟨workload_of m, group_of m, threads, ws⟩ : ConfigSpec).keys n

theorem all_specs_keys (cfg : RunConfig D) (n : Nat)
    : cfg.all_specs.flatMap (·.keys n) = (selected_metrics cfg).flatMap (cfg.keys_for n) := by
  unfold RunConfig.all_specs RunConfig.specs_for RunConfig.keys_for
  simp only [List.flatMap_assoc, List.flatMap_map]

theorem mem_keys {spec : ConfigSpec} {n : Nat} {k : Metric × Int × Nat × Int} (h : k ∈ spec.keys n)
    : k.1 ∈ spec.metrics ∧ k.2.1 = spec.threads ∧ k.2.2.1 = spec.working_set := by
  obtain ⟨t, _, h⟩ := List.mem_flatMap.mp h
  obtain ⟨m, hm, rfl⟩ := List.mem_map.mp h
  exact ⟨hm, rfl, rfl⟩

theorem keys_ne_nil {m : Metric} {threads : Int} {ws n : Nat} (hn : 0 < n)
    : (⟨workload_of m, group_of m, threads, ws⟩ : ConfigSpec).keys n ≠ [] := by
  unfold ConfigSpec.keys
  intro h
  rw [List.flatMap_eq_nil_iff] at h
  exact List.cons_ne_nil _ _ (List.map_eq_nil_iff.mp (h 0 (List.mem_range.mpr hn)))

theorem mem_keys_for {m : Metric} {n : Nat} {k : Metric × Int × Nat × Int}
    (h : k ∈ cfg.keys_for n m)
    : k.1 ∈ group_of m := by
  obtain ⟨threads, _, h⟩ := List.mem_flatMap.mp h
  obtain ⟨ws, _, h⟩ := List.mem_flatMap.mp h
  exact (mem_keys h).1

theorem sets_keys_ne_nil {m : Metric} {threads : Int} {n : Nat} (hn : 0 < n)
    (hsets : cfg.working_sets ≠ [])
    : ((cfg.working_sets.map (effective_working_set (workload_of m))).flatMap fun ws =>
        (⟨workload_of m, group_of m, threads, ws⟩ : ConfigSpec).keys n) ≠ [] := by
  intro hnil
  obtain ⟨ws, hws⟩ := List.exists_mem_of_ne_nil _ hsets
  exact keys_ne_nil hn (List.flatMap_eq_nil_iff.mp hnil _ (List.mem_map_of_mem hws))

theorem keys_for_ne_nil {m : Metric} {n : Nat} (hn : 0 < n) (hthreads : cfg.thread_counts ≠ [])
    (hsets : cfg.working_sets ≠ [])
    : cfg.keys_for n m ≠ [] := by
  intro hnil
  obtain ⟨threads, hthreads⟩ := List.exists_mem_of_ne_nil _ hthreads
  exact sets_keys_ne_nil hn hsets (List.flatMap_eq_nil_iff.mp hnil threads hthreads)

theorem keys_for_nodup {m : Metric} {n : Nat} (hn : 0 < n) (hsets : cfg.working_sets ≠ [])
    : (cfg.keys_for n m).Nodup ↔ cfg.thread_counts.Nodup
      ∧ (cfg.thread_counts ≠ [] →
        (cfg.working_sets.map (effective_working_set (workload_of m))).Nodup) := by
  have hinner : ∀ threads : Int,
      ((cfg.working_sets.map (effective_working_set (workload_of m))).flatMap fun ws =>
        (⟨workload_of m, group_of m, threads, ws⟩ : ConfigSpec).keys n).Nodup
      ↔ (cfg.working_sets.map (effective_working_set (workload_of m))).Nodup := by
    intro threads
    rw [nodup_flatMap_iff (fun k => k.2.2.1) (fun _ _ => keys_ne_nil hn) fun _ _ k hk => (mem_keys hk).2.2]
    exact and_iff_left fun ws _ => keys_nodup m threads ws n
  unfold RunConfig.keys_for
  rw [nodup_flatMap_iff (fun k => k.2.1)]
  . refine and_congr_right fun _ => ?_
    simp only [hinner]
    constructor
    . intro hall hsome
      obtain ⟨threads, hthreads⟩ := List.exists_mem_of_ne_nil _ hsome
      exact hall threads hthreads
    . exact fun hall threads hthreads => hall (List.ne_nil_of_mem hthreads)
  . exact fun threads _ => sets_keys_ne_nil hn hsets
  . intro threads _ k hk
    obtain ⟨ws, _, hk⟩ := List.mem_flatMap.mp hk
    exact (mem_keys hk).2.1

theorem all_keys_nodup {n : Nat} (hn : 0 < n)
    (hriders : ∀ m ∈ selected_metrics cfg, is_rider m = false) (hsome : cfg.all_specs ≠ [])
    : (cfg.all_specs.flatMap (·.keys n)).Nodup ↔ cfg.NoRepeats := by
  obtain ⟨spec, hspec⟩ := List.exists_mem_of_ne_nil _ hsome
  obtain ⟨m, hm, hspec⟩ := List.mem_flatMap.mp hspec
  obtain ⟨threads, hthreads, hspec⟩ := List.mem_flatMap.mp hspec
  have hsets : cfg.working_sets ≠ [] := by
    intro hnil
    rw [hnil] at hspec
    cases hspec
  have hthreads := List.ne_nil_of_mem hthreads
  rw [all_specs_keys, nodup_flatMap_iff (fun k => host_of k.1)]
  . refine and_congr_right fun _ => ?_
    simp only [keys_for_nodup hn hsets, forall_const, hthreads, ne_eq, not_false_eq_true]
    constructor
    . exact fun hall => ⟨(hall m hm).1, fun m hm => (hall m hm).2⟩
    . exact fun hall m hm => ⟨hall.1, hall.2 m hm⟩
  . exact fun m _ => keys_for_ne_nil hn hthreads hsets
  . exact fun m hm k hk => host_of_mem (hriders m hm) (mem_keys_for hk)

theorem keys_sublist (spec : ConfigSpec) {k n : Nat} (h : k ≤ n)
    : (spec.keys k).Sublist (spec.keys n) := by
  obtain ⟨r, rfl⟩ := Nat.exists_eq_add_of_le h
  unfold ConfigSpec.keys
  rw [List.range_add, List.flatMap_append]
  exact List.sublist_append_left _ _

theorem Emits.keys_sublist (h : Emits cfg st run blocks)
    : (run.results.map Result.key).Sublist (cfg.all_specs.flatMap (·.keys cfg.trials.toNat)) := by
  rw [h.results, List.map_flatMap]
  have hemitted := h.emitted
  clear h
  generalize cfg.all_specs = specs at hemitted ⊢
  induction hemitted with
  | nil => exact List.Sublist.refl _
  | cons hb _ ih =>
    rw [List.flatMap_cons, List.flatMap_cons, hb.rows, keys_rows_of]
    apply List.Sublist.append _ ih
    have hbound := hb.bound
    apply Bench.keys_sublist
    omega

def RunConfig.Timeless (cfg : RunConfig D) : Prop :=
  Double.lt ((0 : Nat) : D) cfg.max_seconds = true ∧ Double.nanoseconds cfg.max_seconds = 0

theorem steady_returns (hargs : check_arguments cfg = .ok ()) (htime : ¬cfg.Timeless)
    (machine : MachineInfo) (argv : List String) (file : Option Nat)
    : ∃ run st, run_benchmarks .steady cfg cfg.fuel machine argv (.init file) = .ok run st
      ∧ st.stop = .none ∧ ∃ blocks, Emits cfg st run blocks := by
  have hE : Accepts (Host.steady (D := D)) fun _ _ => False := ⟨nofun, nofun, nofun, nofun⟩
  have hignores : Ignores fun st : RunState D => st.bytes_written = 0 :=
    ⟨fun _ _ h => h, fun _ _ h => h, fun _ _ h => h⟩
  have hkept : Kept Host.steady cfg (fun _ _ => False) (fun st => st.bytes_written = 0)
      fun st => st.bytes_written = 0 := by
    apply Kept.of_ignores hignores (fun _ => hignores.prepare (fun _ _ h => h) hE.anywhere) nofun
    . intro spec _
      apply hignores.workers hE.anywhere fun _ _ h => h
      rintro spec n reading hreading
      injection hreading with hreading
      subst hreading
      apply Triple.ite
      . exact fun _ => .modify fun st hst => hst
      . exact fun _ => .pure fun _ hst => hst
    . exact fun _ _ _ h => h
    . exact fun _ _ _ h => h
  have hrule : Triple (Going fun st => st.bytes_written = 0)
      (run_benchmarks .steady cfg cfg.fuel machine argv) (fun run st => (∃ blocks, Emits cfg st run blocks)
        ∧ ∃ deadline, DeadlineOf .steady cfg deadline
          ∧ Held .steady cfg deadline (fun st => st.bytes_written = 0) st) fun _ _ => False := by
    apply run_benchmarks_rule hkept
    . intro err herr
      rw [hargs] at herr
      cases herr
    . exact fun hlt => absurd hlt (lt_irrefl _)
  obtain ⟨run, st, hrun, hemits, deadline, hdeadline, hwritten, hcause⟩ :=
    hrule.exists_ok (s := .init file) ⟨rfl, rfl⟩
  refine ⟨run, st, hrun, ?_, hemits⟩
  by_contra hstop
  obtain ⟨n, habort⟩ | hspent | ⟨time, rfl, n, hlate⟩ := hcause hstop
  . cases habort
  . apply hspent
    intro hpos
    rw [hwritten]
    exact hpos
  . unfold DeadlineOf at hdeadline
    split at hdeadline
    . rename_i hlimited
      obtain ⟨n, htime'⟩ := hdeadline
      injection htime' with htime'
      apply htime ⟨hlimited, ?_⟩
      change time ≤ 0 at hlate
      change time = 0 + _ at htime'
      omega
    . cases hdeadline

theorem not_rider_of_named {name : String} {m : Metric} (h : metric_named name = .ok m)
    : is_rider m = false := by
  unfold metric_named at h
  split at h
  . cases h
  . split at h
    . cases h
    . split at h
      . cases h
      . rename_i hrider
        injection h with h
        rw [← h]
        simpa using hrider

theorem not_rider_of_metrics_of {w : Workload} {m : Metric} (h : m ∈ metrics_of w)
    : is_rider m = false := by
  obtain ⟨d, _, h⟩ := List.mem_flatMap.mp h
  split at h
  . simpa using (List.mem_filter.mp h).2
  . cases h

variable {o : RunOptions D}

theorem not_rider_of_gated {explicit_selection : Bool} {workloads : List Workload}
    {metrics : List Metric} {gated : List Workload × List Metric}
    (h : gate_writes o explicit_selection workloads metrics = .ok gated)
    (hmetrics : ∀ m ∈ metrics, is_rider m = false)
    : ∀ m ∈ gated.2, is_rider m = false := by
  unfold gate_writes at h
  split at h
  . injection h with h
    rw [← h]
    exact hmetrics
  . split at h
    . cases h
    . cases h
    . injection h with h
      rw [← h]
      exact fun m hm => hmetrics m (List.mem_filter.mp hm).1
    . injection h with h
      rw [← h]
      intro m hm
      obtain ⟨w, _, hm⟩ := List.mem_flatMap.mp (List.mem_filter.mp hm).1
      exact not_rider_of_metrics_of hm

theorem not_rider_of_run_config (h : run_config o = .ok cfg)
    : ∀ m ∈ selected_metrics cfg, is_rider m = false := by
  obtain ⟨_, _, h⟩ := Program.except_bind_eq_ok.mp h
  obtain ⟨named, hnamed, h⟩ := Program.except_bind_eq_ok.mp h
  obtain ⟨_, _, h⟩ := Program.except_bind_eq_ok.mp h
  obtain ⟨gated, hgated, h⟩ := Program.except_bind_eq_ok.mp h
  obtain ⟨_, _, h⟩ := Program.except_bind_eq_ok.mp h
  obtain ⟨_, _, h⟩ := Program.except_bind_eq_ok.mp h
  obtain ⟨_, _, h⟩ := Program.except_bind_eq_ok.mp h
  injection h with h
  have hmetrics : ∀ m ∈ named.2, is_rider m = false := by
    obtain ⟨_, _, hnamed⟩ := Program.except_bind_eq_ok.mp hnamed
    obtain ⟨metrics, hmetrics, hnamed⟩ := Program.except_bind_eq_ok.mp hnamed
    split at hnamed
    . cases hnamed
    . injection hnamed with hnamed
      rw [← hnamed]
      intro m hm
      obtain ⟨name, _, hname⟩ := Program.exists_of_mem_mapM hmetrics hm
      exact not_rider_of_named hname
  rw [← h]
  unfold selected_metrics
  split
  . intro m hm
    obtain ⟨w, _, hm⟩ := List.mem_flatMap.mp hm
    exact not_rider_of_metrics_of hm
  . exact not_rider_of_gated hgated hmetrics

/--
There is nothing to run, or nothing comes twice.
-/
def RunConfig.Distinct (cfg : RunConfig D) : Prop :=
  check_arguments cfg ≠ .ok () ∨ cfg.all_specs = [] ∨ cfg.NoRepeats

theorem checked_of_run {host : Host D} {fuel : Nat} {machine : MachineInfo} {argv : List String}
    {s : RunState D} (h : run_benchmarks host cfg fuel machine argv s = .ok run st)
    : check_arguments cfg = .ok () := by
  obtain ⟨u, t, hchecked, _⟩ := Program.bind_eq_ok.mp h
  cases hargs : check_arguments cfg with
  | ok => rfl
  | error err =>
    rw [hargs] at hchecked
    cases hchecked

/--
No two results of a run that the command line leads to have the same key if it repeats nothing. If it
does then two results have the same key in a run that is complete.
-/
theorem results_distinct_iff (h : run_config o = .ok cfg)
    : (cfg.Distinct → ∀ (host : Host D) fuel machine argv file run st,
        run_benchmarks host cfg fuel machine argv (.init file) = .ok run st →
        (run.results.map Result.key).Nodup)
      ∧ ((∀ (host : Host D) fuel machine argv file run st,
          run_benchmarks host cfg fuel machine argv (.init file) = .ok run st →
          (run.results.map Result.key).Nodup) →
        cfg.Distinct ∨ cfg.Timeless) := by
  have hriders := not_rider_of_run_config h
  constructor
  . intro hdistinct host fuel machine argv file run st hrun
    have hchecked := checked_of_run hrun
    have htrials := one_le_trials hchecked
    have hrule : Triple (Going (Orderly cfg)) (run_benchmarks host cfg fuel machine argv)
        (fun run st => (∃ blocks, Emits cfg st run blocks) ∧ ∃ deadline, DeadlineOf host cfg deadline
          ∧ Held host cfg deadline (Orderly cfg) st) fun _ _ => True :=
      run_benchmarks_rule (Orderly.kept .any) (fun _ _ _ => trivial) fun _ _ => trivial
    obtain ⟨⟨blocks, hemits⟩, -⟩ := Triple.of_ok hrule (Orderly.init file) hrun
    by_cases hnone : cfg.all_specs = []
    . have hsublist := hemits.keys_sublist
      rw [hnone] at hsublist
      rw [List.sublist_nil.mp hsublist]
      exact List.nodup_nil
    . obtain hargs | hspecs | hrepeats := hdistinct
      . exact absurd hchecked hargs
      . exact absurd hspecs hnone
      . exact hemits.keys_sublist.nodup ((all_keys_nodup (by omega) hriders hnone).mpr hrepeats)
  . intro hall
    by_cases htime : cfg.Timeless
    . exact .inr htime
    . left
      by_cases hargs : check_arguments cfg = .ok ()
      . by_cases hnone : cfg.all_specs = []
        . exact .inr (.inl hnone)
        . have htrials := one_le_trials hargs
          obtain ⟨run, st, hrun, hgoing, blocks, hemits⟩ :=
            steady_returns hargs htime nowhere [] none
          have hnodup := hall _ _ _ _ _ _ _ hrun
          rw [hemits.keys hgoing] at hnodup
          exact .inr (.inr ((all_keys_nodup (by omega) hriders hnone).mp hnodup))
      . exact .inl hargs

def reading_at (ws_csv : String) : RunOptions ℚ where
  all := false
  workloads_csv := ""
  metrics_csv := "mem_read_bw"
  threads_csv := "1"
  ws_csv := ws_csv
  trials := 1
  trial_ms := none
  warmup_trials := 0
  warmup_ms := 0
  max_seconds := 0
  interleave := false
  canary_retries := 0
  allow_writes := false
  write_budget := "1G"
  pin := false
  cpus_csv := ""

def reading_config (working_sets : List Nat) : RunConfig ℚ where
  workloads := []
  metrics := [.mem_read_bw]
  thread_counts := [1]
  working_sets := working_sets
  trials := 1
  warmup_trials := 0
  warmup_ms := 0
  trial_ms := 50
  max_seconds := 0
  cpus := []
  interleave := false
  canary_retries := 0
  write_budget_bytes := 2 ^ 30

/--
Two working sets of which the same number of cache lines is left.
-/
theorem results_not_distinct
    : run_config (reading_at "64,65") = .ok (reading_config [64, 65])
      ∧ ∃ run st, run_benchmarks .steady (reading_config [64, 65]) (reading_config [64, 65]).fuel nowhere []
          (.init none) = .ok run st
        ∧ run.results.map Result.key = [(.mem_read_bw, 1, 64, 0), (.mem_read_bw, 1, 64, 0)]
        ∧ ¬(run.results.map Result.key).Nodup := by
  refine ⟨rfl, ?_⟩
  have hargs : check_arguments (reading_config [64, 65]) = .ok () := rfl
  have htime : ¬(reading_config [64, 65]).Timeless := by
    rintro ⟨hlimited, -⟩
    exact absurd hlimited (by decide)
  obtain ⟨run, st, hrun, hgoing, blocks, hemits⟩ := steady_returns hargs htime nowhere [] none
  have hkeys : run.results.map Result.key = [(.mem_read_bw, 1, 64, 0), (.mem_read_bw, 1, 64, 0)] :=
    hemits.keys hgoing
  refine ⟨run, st, hrun, hkeys, ?_⟩
  rw [hkeys]
  decide

/--
Here it is not the same number.
-/
theorem results_distinct_iff_lines
    : run_config (reading_at "64,128") = .ok (reading_config [64, 128])
      ∧ ∀ (host : Host ℚ) fuel machine argv file run st,
        run_benchmarks host (reading_config [64, 128]) fuel machine argv (.init file) = .ok run st →
        (run.results.map Result.key).Nodup := by
  have hconfig : run_config (reading_at "64,128") = .ok (reading_config [64, 128]) := rfl
  refine ⟨hconfig, (results_distinct_iff hconfig).1 (.inr (.inr ?_))⟩
  exact ⟨by decide, by decide, by decide⟩

end Bench
