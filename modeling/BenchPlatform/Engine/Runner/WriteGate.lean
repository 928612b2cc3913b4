import BenchPlatform.Engine.Runner.Keys

/-!
This module contains what a run may measure without permission to write: no metric that writes to the test
file, whichever workloads and metrics are asked for, and all others if everything is asked for.
-/

set_option linter.unusedSectionVars false

namespace Bench

open Hoare

variable {D : Type} [Double D] {host : Host D} {cfg : RunConfig D} {st : RunState D} {o : RunOptions D}

theorem gate_writes_keeps {explicit_selection : Bool} {workloads : List Workload} {metrics : List Metric}
    {gated : List Workload × List Metric} (hallow : o.allow_writes = false)
    (h : gate_writes o explicit_selection workloads metrics = .ok gated)
    : (∀ m ∈ gated.2, m.writes_disk = false) ∧ ∀ w ∈ gated.1, ∀ m ∈ metrics_of w, m.writes_disk = false := by
  unfold gate_writes at h
  rw [if_neg (by simp [hallow])] at h
  split at h
  . cases h
  . cases h
  . rename_i hworkloads
    rw [← Except.ok.inj h]
    refine ⟨fun m hm => by simpa using (List.mem_filter.mp hm).2, fun w hw m hm => ?_⟩
    cases hfind : workloads.find? (metrics_of · |>.any Metric.writes_disk) with
    | none =>
      have hnone := List.find?_eq_none.mp hfind w hw
      rw [List.any_eq_true] at hnone
      exact eq_false_of_ne_true fun hwrites => hnone ⟨m, hm, hwrites⟩
    | some w' => exact (hworkloads _ hfind).elim
  . rw [← Except.ok.inj h]
    exact ⟨fun m hm => by simpa using (List.mem_filter.mp hm).2, nofun⟩

theorem group_of_keeps {m g : Metric} (h : m.writes_disk = false) (hg : g ∈ group_of m) : g.writes_disk = false := by
  obtain rfl | hg := List.mem_cons.mp hg
  . exact h
  . unfold riders_of at hg
    split at hg
    . rw [List.mem_singleton.mp hg]
      rfl
    . cases hg

/--
Nothing that is measured writes to the test file.
-/
def RunConfig.ReadsOnly (cfg : RunConfig D) : Prop :=
  ∀ specs, Bench.specs cfg = .ok specs → ∀ spec ∈ specs, ∀ m ∈ spec.metrics, m.writes_disk = false

theorem readsOnly_of_selected (h : ∀ m ∈ selected_metrics cfg, m.writes_disk = false) : cfg.ReadsOnly := by
  intro specs hspecs spec hspec m hm
  rw [specs_eq] at hspecs
  obtain rfl := Except.ok.inj hspecs
  obtain ⟨metric, hmetric, hspec⟩ := List.mem_flatMap.mp hspec
  obtain ⟨threads, _, hspec⟩ := List.mem_flatMap.mp hspec
  obtain ⟨ws, _, rfl⟩ := List.mem_map.mp hspec
  exact group_of_keeps (h metric hmetric) hm

theorem gated_of_run_config (h : run_config o = .ok cfg)
    : ∃ named, named_selection o = .ok named
      ∧ gate_writes o (!named.2.isEmpty || o.workloads_csv ≠ "") named.1 named.2
        = .ok (cfg.workloads, cfg.metrics) := by
  obtain ⟨_, _, h⟩ := Program.except_bind_eq_ok.mp h
  obtain ⟨named, hnamed, h⟩ := Program.except_bind_eq_ok.mp h
  obtain ⟨_, _, h⟩ := Program.except_bind_eq_ok.mp h
  obtain ⟨gated, hgated, h⟩ := Program.except_bind_eq_ok.mp h
  obtain ⟨_, _, h⟩ := Program.except_bind_eq_ok.mp h
  obtain ⟨_, _, h⟩ := Program.except_bind_eq_ok.mp h
  obtain ⟨_, _, h⟩ := Program.except_bind_eq_ok.mp h
  rw [← Except.ok.inj h]
  exact ⟨named, hnamed, hgated⟩

theorem readsOnly_of_run_config (hallow : o.allow_writes = false) (h : run_config o = .ok cfg)
    : cfg.ReadsOnly := by
  obtain ⟨named, _, hgated⟩ := gated_of_run_config h
  have hkeeps := gate_writes_keeps hallow hgated
  apply readsOnly_of_selected
  unfold selected_metrics
  split
  . intro m hm
    obtain ⟨w, hw, hm⟩ := List.mem_flatMap.mp hm
    exact hkeeps.2 w hw m hm
  . exact hkeeps.1

/--
No trial that writes has been started, and nothing has been written.
-/
def Untouched (st : RunState D) : Prop :=
  st.bytes_written = 0 ∧ ∀ e ∈ st.started, ∀ m ∈ e.spec.metrics, m.writes_disk = false

theorem ignores_untouched : Ignores fun st : RunState D => Untouched st where
  asked := fun _ _ h => h
  progress := fun _ _ h => h
  stop := fun _ _ h => h

theorem workers_untouched (h : cfg.ReadsOnly) {spec : ConfigSpec} (hspec : spec ∈ cfg.all_specs)
    : WorkersKeep host cfg Untouched (fun _ => Untouched) spec := by
  have hreads := h _ specs_eq spec hspec
  rintro sess warmup rfl
  apply Triple.bind (Q := fun _ => Going Untouched)
  . refine .modify fun st hst => ⟨⟨hst.1.1.1, List.forall_mem_append.mpr ⟨hst.1.1.2, ?_⟩⟩, hst.1.2⟩
    rw [List.forall_mem_singleton]
    exact hreads
  . intro _
    apply Triple.bind (ask_rule host.trial ignores_untouched.going)
    intro trial
    apply Triple.of_pure
    rintro ⟨n, rfl⟩
    apply Triple.bind (checked_rule fun _ _ st hst => hst.1)
    intro reading
    apply Triple.of_pure
    intro _
    apply Triple.bind (Q := fun _ => Going Untouched)
    . unfold note_written
      rw [if_neg]
      . exact .pure fun _ hst => hst
      . intro hwrites
        obtain ⟨m, hm, hwrites⟩ := (Option.any_eq_true _ _).mp hwrites
        rw [hreads m (List.mem_of_head? hm)] at hwrites
        cases hwrites
    . exact fun _ => .pure fun _ hst => hst

theorem kept_untouched (h : cfg.ReadsOnly) : Kept host cfg (fun _ => Untouched) Untouched Untouched := by
  apply Kept.of_ignores ignores_untouched
  . exact fun _ => ignores_untouched.prepare (fun _ _ h => h) .still
  . exact fun _ _ _ _ h => h
  . exact fun _ => workers_untouched h
  . exact fun _ _ _ h => h
  . exact fun _ _ _ h => h

/--
Every metric of an implemented workload that does not write is measured, with all numbers of threads and all
working sets.
-/
def RunConfig.MeasuresAll (cfg : RunConfig D) : Prop :=
  ∀ d ∈ workload_registry, d.implemented = true → ∀ m ∈ d.metrics, m.writes_disk = false →
    ∀ threads ∈ cfg.thread_counts, ∀ ws ∈ cfg.working_sets,
      ∃ specs, Bench.specs cfg = .ok specs ∧ ∃ spec ∈ specs, spec.kind = d.kind ∧ m ∈ spec.metrics
        ∧ spec.threads = threads ∧ spec.working_set = effective_working_set d.kind ws

theorem measuresAll_of_all (hall : o.all = true) (hworkloads : o.workloads_csv = "") (hmetrics : o.metrics_csv = "")
    (hallow : o.allow_writes = false) (h : run_config o = .ok cfg)
    : cfg.MeasuresAll := by
  obtain ⟨named, hnamed, hgated⟩ := gated_of_run_config h
  have hall : named = (all_workloads, []) := by
    unfold named_selection at hnamed
    rw [hworkloads, hmetrics, hall] at hnamed
    exact (Except.ok.inj hnamed).symm
  rw [hall, hworkloads] at hgated
  have hselected : selected_metrics cfg = (all_workloads.flatMap metrics_of).filter (!·.writes_disk) := by
    unfold gate_writes at hgated
    rw [if_neg (by simp [hallow])] at hgated
    obtain ⟨hw, hm⟩ := Prod.mk.inj (Except.ok.inj hgated)
    unfold selected_metrics
    rw [← hw, ← hm]
    rfl
  have hcovered : ∀ d ∈ workload_registry, ∀ m ∈ d.metrics, m.writes_disk = false →
      ∃ metric ∈ (all_workloads.flatMap metrics_of).filter (!·.writes_disk),
        workload_of metric = d.kind ∧ m ∈ group_of metric := by
    decide
  intro d hd _ m hm hreads threads hthreads ws hws
  obtain ⟨metric, hmetric, hkind, hgroup⟩ := hcovered d hd m hm hreads
  refine ⟨_, specs_eq, ⟨workload_of metric, group_of metric, threads, effective_working_set (workload_of metric) ws⟩,
    ?_, hkind, hgroup, rfl, by rw [hkind]⟩
  rw [← hselected] at hmetric
  exact List.mem_flatMap.mpr ⟨metric, hmetric, List.mem_flatMap.mpr ⟨threads, hthreads, List.mem_map_of_mem hws⟩⟩

/--
Without permission to write a command line is refused or leads to runs that write nothing, however they end.
If everything is asked for, all that does not write is measured.
-/
theorem no_write_without_permission (o : RunOptions D) (hallow : o.allow_writes = false)
    : (∃ e, run_config o = .error e)
      ∨ ∃ cfg, run_config o = .ok cfg ∧ cfg.ReadsOnly
        ∧ (∀ (host : Host D) fuel machine argv file, cfg.fuel ≤ fuel →
          (∀ run st, run_benchmarks host cfg fuel machine argv (.init file) = .ok run st → Untouched st)
          ∧ ∀ err st, run_benchmarks host cfg fuel machine argv (.init file) = .error err st → Untouched st)
        ∧ (o.all = true → o.workloads_csv = "" → o.metrics_csv = "" → cfg.MeasuresAll) := by
  cases h : run_config o with
  | error e => exact .inl ⟨e, rfl⟩
  | ok cfg =>
    have hreads := readsOnly_of_run_config hallow h
    refine .inr ⟨cfg, rfl, hreads, ?_, fun hall hworkloads hmetrics => ?_⟩
    . intro host fuel machine argv file hfuel
      exact (kept_untouched hreads).at_end hfuel ⟨rfl, nofun⟩
    . exact measuresAll_of_all hall hworkloads hmetrics hallow h

def everything : RunOptions ℚ :=
  { reading_at "64" with all := true, metrics_csv := "" }

theorem no_write_without_permission_everything
    : ∃ cfg, run_config everything = .ok cfg ∧ cfg.metrics.length = 9 ∧ cfg.ReadsOnly ∧ cfg.MeasuresAll := by
  have hlength : (match run_config everything with
      | .ok cfg => cfg.metrics.length
      | .error _ => 0) = 9 := by
    decide +kernel
  obtain ⟨e, he⟩ | ⟨cfg, hcfg, hreads, -, hall⟩ := no_write_without_permission everything rfl
  . rw [he] at hlength
    cases hlength
  . rw [hcfg] at hlength
    exact ⟨cfg, hcfg, hlength, hreads, hall rfl rfl rfl⟩

end Bench
