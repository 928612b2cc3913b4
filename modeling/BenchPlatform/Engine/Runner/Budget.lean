import BenchPlatform.Engine.Runner.Keys

/-!
This module contains the write budget over a whole run: what the shared counter stands at before each
trial, and that no trial is started once the budget is spent.
-/

set_option linter.unusedSectionVars false

namespace Bench

open Hoare
open ConfigSession

variable {D : Type} [Double D] {host : Host D} {cfg : RunConfig D} {spec : ConfigSpec} {st : RunState D}

def moved (batches : List WriteBatch) : Nat :=
  (batches.map (·.bytes)).sum

/--
The counter stands at what all completed batches have moved, also before each trial that has been
started, and then there was some of the budget left. Trial number `k + 1` is the entry `k`.
-/
structure Ledger (cfg : RunConfig D) (st : RunState D) : Prop where
  total : st.bytes_written = moved st.batches
  numbered : ∀ b ∈ st.batches, b.trial ≤ st.started.length
  before : ∀ k e, st.started[k]? = some e → e.bytes_written = moved (st.batches.filter (·.trial ≤ k))
  unspent : ∀ e ∈ st.started, 0 < cfg.write_budget_bytes → e.bytes_written < cfg.write_budget_bytes

theorem moved_append (batches batches' : List WriteBatch)
    : moved (batches ++ batches') = moved batches + moved batches' := by
  unfold moved
  rw [List.map_append, List.sum_append]

namespace Ledger

theorem init (file : Option Nat) : Ledger cfg (.init file) where
  total := rfl
  numbered := nofun
  before := nofun
  unspent := nofun

theorem start (h : Ledger cfg st) (hunspent : Unspent cfg st) (session : Nat) (spec : ConfigSpec)
    (warmup : Bool)
    : Ledger cfg { st with
        started := st.started ++ [⟨session, spec, warmup, st.file, st.bytes_written⟩] } where
  total := h.total
  numbered := by
    intro b hb
    rw [List.length_append]
    exact Nat.le_add_right_of_le (h.numbered b hb)
  before := by
    intro k e he
    obtain hlt | hge := Nat.lt_or_ge k st.started.length
    . rw [List.getElem?_append_left hlt] at he
      exact h.before k e he
    . rw [List.getElem?_append_right hge, List.getElem?_singleton] at he
      split at he
      . have hall : st.batches.filter (·.trial ≤ k) = st.batches :=
          List.filter_eq_self.mpr fun b hb => decide_eq_true ((h.numbered b hb).trans hge)
        rw [← Option.some.inj he, hall]
        exact h.total
      . cases he
  unspent := by
    refine List.forall_mem_append.mpr ⟨h.unspent, ?_⟩
    rw [List.forall_mem_singleton]
    exact hunspent

theorem write (h : Ledger cfg st) {n : Nat} {completed : List (Nat × Nat)} {file : Option Nat}
    (hn : n = st.bytes_written + (completed.map (·.2)).sum)
    : Ledger cfg { st with
        bytes_written := n
        batches := st.batches ++ completed.map fun (thread, bytes) => ⟨st.started.length, thread, bytes⟩
        file := file } where
  total := by
    have hmoved : moved (completed.map fun (thread, bytes) => ⟨st.started.length, thread, bytes⟩)
        = (completed.map (·.2)).sum := by
      unfold moved
      rw [List.map_map]
      rfl
    rw [moved_append, hmoved, hn, h.total]
  numbered := by
    refine List.forall_mem_append.mpr ⟨h.numbered, ?_⟩
    intro b hb
    obtain ⟨_, _, rfl⟩ := List.mem_map.mp hb
    exact le_rfl
  before := by
    intro k e he
    have hlt := (List.getElem?_eq_some_iff.mp he).1
    have hnone : (completed.map fun (thread, bytes) => (⟨st.started.length, thread, bytes⟩ : WriteBatch)).filter
        (·.trial ≤ k) = [] := by
      rw [List.filter_eq_nil_iff]
      intro b hb
      obtain ⟨_, _, rfl⟩ := List.mem_map.mp hb
      rw [decide_eq_true_eq]
      exact not_le.mpr hlt
    rw [List.filter_append, hnone, List.append_nil]
    exact h.before k e he
  unspent := h.unspent

theorem ignores : Ignores fun st : RunState D => Ledger cfg st where
  asked := fun _ _ h => ⟨h.total, h.numbered, h.before, h.unspent⟩
  progress := fun _ _ h => ⟨h.total, h.numbered, h.before, h.unspent⟩
  stop := fun _ _ h => ⟨h.total, h.numbered, h.before, h.unspent⟩

theorem workers : WorkersKeep host cfg (Ledger cfg) (fun _ => Ledger cfg) spec := by
  rintro sess warmup rfl
  apply Triple.bind (Q := fun _ => Going (Ledger cfg))
  . exact .modify fun st hst => ⟨hst.1.1.start hst.2 sess.id sess.spec warmup, hst.1.2⟩
  . intro _
    apply Triple.bind (ask_rule host.trial ignores.going)
    intro trial
    apply Triple.of_pure
    rintro ⟨n, rfl⟩
    apply Triple.bind (checked_rule fun _ _ st hst => hst.1)
    intro reading
    apply Triple.of_pure
    intro _
    apply Triple.bind (Q := fun _ => Going (Ledger cfg))
    . apply Triple.ite
      . refine fun _ => .modify fun st hst => ⟨hst.1.write ?_, hst.2⟩
        exact DiskWriters.run_counts sess.spec.kind st.bytes_written reading.schedule
      . exact fun _ => .pure fun _ hst => hst
    . exact fun _ => .pure fun _ hst => hst

theorem kept : Kept host cfg (fun _ => Ledger cfg) (Ledger cfg) (Ledger cfg) := by
  apply Kept.of_ignores ignores
  . exact fun _ => ignores.prepare (fun _ _ h => ⟨h.total, h.numbered, h.before, h.unspent⟩) .still
  . exact fun _ _ _ _ h => h
  . exact fun _ _ => workers
  . exact fun _ _ _ h => ⟨h.total, h.numbered, h.before, h.unspent⟩
  . exact fun _ _ _ h => ⟨h.total, h.numbered, h.before, h.unspent⟩

end Ledger

/--
In every run the counter stands at what all completed batches of all workers have moved, and no trial is
started once the budget is spent, also in a run that fails, discards attempts or is stopped.
-/
theorem write_budget_kept (host : Host D) (cfg : RunConfig D) (fuel : Nat) (hfuel : cfg.fuel ≤ fuel)
    (machine : MachineInfo) (argv : List String) (file : Option Nat)
    : (∀ run st, run_benchmarks host cfg fuel machine argv (.init file) = .ok run st → Ledger cfg st)
      ∧ ∀ err st, run_benchmarks host cfg fuel machine argv (.init file) = .error err st →
        Ledger cfg st :=
  Ledger.kept.at_end hfuel (.init file)

def Host.writing : Host ℚ where
  new_run_id := fun _ => ""
  utc_now_rfc3339 := fun _ => ""
  clock_selftest := fun _ => ⟨true, 1, 1⟩
  now := fun _ => 0
  abort_requested := fun _ => false
  check_disk_path := fun _ => .ok ()
  create_test_file := fun _ => .ok ()
  setup := fun _ => .ok ()
  trial := fun _ => .ok
    { ns := 1, lasted := Nat.one_pos, total_ops := 1, spread_ns := 0, p99_us := 1
      schedule := .begin 0 :: List.replicate 16 (.pwrite 0) ++ [.note_written 0]
      reach := 0, stamp := "", params := [] }

def small_budget : RunConfig ℚ where
  workloads := []
  metrics := [.disk_seq_write_bw]
  thread_counts := [1]
  working_sets := [2 ^ 24]
  trials := 4
  warmup_trials := 1
  warmup_ms := 0
  trial_ms := 50
  max_seconds := 0
  cpus := []
  interleave := false
  canary_retries := 0
  write_budget_bytes := 3 * 2 ^ 23

theorem write_budget_kept_small
    : ∃ run st, run_benchmarks .writing small_budget 6 nowhere [] (.init none) = .ok run st
      ∧ st.stop = .write_budget ∧ Ledger small_budget st := by
  have hstop : (match run_benchmarks .writing small_budget 6 nowhere [] (.init none) with
      | .ok _ st => st.stop
      | .error _ _ => .none) = .write_budget := by
    decide +kernel
  have hkept := (write_budget_kept .writing small_budget 6 (by decide +kernel) nowhere [] none).1
  cases hrun : run_benchmarks .writing small_budget 6 nowhere [] (.init none) with
  | ok run st =>
    rw [hrun] at hstop
    exact ⟨run, st, rfl, hstop, hkept run st hrun⟩
  | error err st =>
    rw [hrun] at hstop
    cases hstop

end Bench
