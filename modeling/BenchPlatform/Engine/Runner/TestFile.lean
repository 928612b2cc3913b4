import BenchPlatform.Engine.Runner.Keys
import BenchPlatform.Engine.DiskIo

/-!
This module contains when the test file has the size that the configuration of a disk trial says: always
if one configuration is finished before the next, but in turn only if all of them agree on the size.
-/

set_option linter.unusedSectionVars false

namespace Bench

open Hoare
open ConfigSession

variable {D : Type} [Double D] {host : Host D} {cfg : RunConfig D} {spec : ConfigSpec} {st : RunState D}

/--
A block that a thread of a disk configuration may read or write. The threads have seen the size of the
test file right after it was prepared for them.
-/
inductive ConfigSpec.Touches (spec : ConfigSpec) : Nat → Nat → Prop where
  | seq {path : String} {thread_index n off : Nat} {w : DiskSeqWorkload}
    (hkind : spec.kind = .disk_seq) (hthread : (thread_index : Int) < spec.threads)
    (hsetup : DiskSeqWorkload.setup path spec.working_set thread_index spec.threads.toNat = .ok w)
    (hoff : off ∈ DiskSeqWorkload.run_batches n w)
    : spec.Touches off kDiskSeqBlock
  | rand {path : String} {blocks rng : Nat} (hkind : spec.kind = .disk_rand)
    (hsetup : DiskRandWorkload.setup path spec.working_set = .ok blocks)
    : spec.Touches (DiskRandWorkload.offset kDiskRandBlock blocks rng) kDiskRandBlock

theorem kDiskSeqBlock_pos : 0 < kDiskSeqBlock :=
  Nat.two_pow_pos 20

theorem kDiskRandBlock_pos : 0 < kDiskRandBlock :=
  Nat.succ_pos 4095

theorem ConfigSpec.Touches.inside {off len : Nat} (h : spec.Touches off len)
    : off + len ≤ spec.working_set := by
  cases h with
  | seq _ _ hsetup hoff =>
    obtain ⟨size, hopen, hsetup⟩ := Program.except_bind_eq_ok.mp hsetup
    obtain ⟨rfl, hle⟩ := le_of_open_for hopen
    injection hsetup with hsetup
    rw [← hsetup] at hoff
    exact (DiskSeqWorkload.Inside.region_of_thread kDiskSeqBlock_pos hle _ _).run_batches _ _ hoff
  | rand _ hsetup =>
    obtain ⟨size, hopen, hsetup⟩ := Program.except_bind_eq_ok.mp hsetup
    obtain ⟨rfl, hle⟩ := le_of_open_for hopen
    injection hsetup with hsetup
    rw [← hsetup]
    exact DiskRandWorkload.offset_inside kDiskRandBlock_pos hle _

/--
The trial runs on a file of the size that its rows will tell, and stays inside of it.
-/
def Started.Matches (e : Started) : Prop :=
  e.spec.kind.on_disk = true →
    e.file = some e.spec.working_set ∧ ∀ off len, e.spec.Touches off len → off + len ≤ e.spec.working_set

def RunState.FilesMatch (st : RunState D) : Prop :=
  ∀ e ∈ st.started, e.Matches

abbrev MatchesStill (_ : RunError) (st : RunState D) : Prop :=
  st.FilesMatch

theorem ignores_filesMatch : Ignores fun st : RunState D => st.FilesMatch where
  asked := fun _ _ h => h
  progress := fun _ _ h => h
  stop := fun _ _ h => h

theorem prepare_disk_rule {sess : ConfigSession D} (hdisk : sess.spec.kind.on_disk = true)
    : Triple (Going fun st : RunState D => st.FilesMatch) (prepare host sess)
        (fun _ => Going fun st => st.FilesMatch ∧ st.file = some sess.spec.working_set) MatchesStill := by
  have hasked : ∀ st n, Going (fun st : RunState D => st.FilesMatch) st →
      Going (fun st : RunState D => st.FilesMatch) { st with asked := n } := fun _ _ hst => hst
  unfold prepare
  rw [if_pos hdisk]
  apply Triple.bind (ask_rule host.check_disk_path hasked)
  intro path
  apply Triple.bind (Q := fun _ => Going fun st : RunState D => st.FilesMatch)
  . refine ((checked_rule ?_).strengthen fun _ hst => hst.2).weaken fun _ _ hst => hst.2
    exact fun _ _ st hst => hst.1
  . intro _
    apply Triple.bind (Q := fun st' st => st' = st ∧ Going (fun st => st.FilesMatch) st)
      (.get fun _ hst => ⟨rfl, hst⟩)
    intro st'
    apply Triple.ite
    . intro hfile
      refine .pure ?_
      rintro st ⟨rfl, hst⟩
      exact ⟨⟨hst.1, hfile⟩, hst.2⟩
    . intro _
      apply Triple.bind ((ask_rule host.create_test_file hasked).strengthen fun _ hst => hst.2)
      rintro (⟨what, left⟩ | _)
      . apply Triple.bind (Q := fun _ (st : RunState D) => st.FilesMatch) (.modify fun st hst => hst.2.1)
        exact fun _ => .throw fun st hst => hst
      . exact .modify fun st hst => ⟨⟨hst.2.1, rfl⟩, hst.2.2⟩

theorem note_written_rule {P : RunState D → Prop} {E : RunError → RunState D → Prop}
    {reading : TrialReading D}
    (hP : ∀ st n batches, P st → P { st with bytes_written := n, batches := batches })
    (hfile : ∀ st, spec.metrics.head?.any Metric.writes_disk = true → P st →
      st.file = some spec.working_set)
    : Triple P (note_written spec reading) (fun _ => P) E := by
  apply Triple.ite
  . refine fun hwrites => .modify fun st hst => ?_
    have hsame : st.file.map (max · (min reading.reach spec.working_set)) = st.file := by
      rw [hfile st hwrites hst, Option.map_some, max_eq_left (min_le_right _ _)]
    dsimp only
    rw [hsame]
    exact hP st _ _ hst
  . exact fun _ => .pure fun _ hst => hst

theorem run_workers_matches {P : RunState D → Prop} (hP : Ignores P)
    (hstarted : ∀ st started, P st → P { st with started := started })
    (hwritten : ∀ st n batches, P st → P { st with bytes_written := n, batches := batches })
    (hfile : ∀ st, spec.kind.on_disk = true → P st → st.file = some spec.working_set)
    (hwrites : spec.metrics.head?.any Metric.writes_disk = true → spec.kind.on_disk = true)
    : WorkersKeep host cfg (fun st => st.FilesMatch ∧ P st) MatchesStill spec := by
  rintro sess warmup rfl
  have hasked : ∀ st n, Going (fun st => st.FilesMatch ∧ P st) st →
      Going (fun st => st.FilesMatch ∧ P st) { st with asked := n } :=
    fun st n hst => ⟨⟨hst.1.1, hP.asked st n hst.1.2⟩, hst.2⟩
  apply Triple.bind (Q := fun _ => Going fun st => st.FilesMatch ∧ P st)
  . refine .modify fun st hst => ⟨⟨?_, hstarted st _ hst.1.1.2⟩, hst.1.2⟩
    refine List.forall_mem_append.mpr ⟨hst.1.1.1, ?_⟩
    rw [List.forall_mem_singleton]
    exact fun hdisk => ⟨hfile st hdisk hst.1.1.2, fun _ _ htouches => htouches.inside⟩
  . intro _
    apply Triple.bind (ask_rule host.trial hasked)
    intro trial
    apply Triple.of_pure
    rintro ⟨n, rfl⟩
    apply Triple.bind (checked_rule fun _ _ st hst => hst.1.1)
    intro reading
    apply Triple.of_pure
    intro _
    apply Triple.bind (Q := fun _ => Going fun st => st.FilesMatch ∧ P st)
    . apply note_written_rule
      . exact fun st n batches hst => ⟨⟨hst.1.1, hwritten st n batches hst.1.2⟩, hst.2⟩
      . exact fun st hhead hst => hfile st (hwrites hhead) hst.1.2
    . exact fun _ => .pure fun _ hst => hst

theorem on_disk_of_writes_disk (m : Metric) : m.writes_disk = true → (workload_of m).on_disk = true := by
  cases m <;> decide

theorem on_disk_of_head (h : spec ∈ cfg.all_specs)
    : spec.metrics.head?.any Metric.writes_disk = true → spec.kind.on_disk = true := by
  obtain ⟨metric, _, h⟩ := List.mem_flatMap.mp h
  obtain ⟨threads, _, h⟩ := List.mem_flatMap.mp h
  obtain ⟨ws, _, rfl⟩ := List.mem_map.mp h
  exact on_disk_of_writes_disk metric

/--
The size of the test file once this configuration has been prepared.
-/
def Prepared (spec : ConfigSpec) (st : RunState D) : Prop :=
  spec.kind.on_disk = true → st.file = some spec.working_set

theorem ignores_prepared : Ignores fun st : RunState D => Prepared spec st where
  asked := fun _ _ h => h
  progress := fun _ _ h => h
  stop := fun _ _ h => h

theorem prepare_rule
    : PrepareGives host (fun st => st.FilesMatch) (fun st => st.FilesMatch ∧ Prepared spec st) MatchesStill
        spec := by
  rintro sess rfl
  by_cases hdisk : sess.spec.kind.on_disk = true
  . exact (prepare_disk_rule hdisk).weaken fun _ st hst => ⟨⟨hst.1.1, fun _ => hst.1.2⟩, hst.2⟩
  . unfold prepare
    rw [if_neg hdisk]
    exact .pure fun st hst => ⟨⟨hst.1, fun h => absurd h hdisk⟩, hst.2⟩

theorem keptInSequence_filesMatch
    : KeptInSequence host cfg MatchesStill cfg.all_specs (fun st => st.FilesMatch)
        fun spec st => st.FilesMatch ∧ Prepared spec st where
  ignores := ignores_filesMatch
  ignores' := fun _ => ignores_filesMatch.and ignores_prepared
  prepare := fun _ _ => prepare_rule
  setup := fun _ _ _ _ _ hst => hst.1
  workers := by
    intro spec hspec
    apply run_workers_matches ignores_prepared
    . exact fun _ _ hst => hst
    . exact fun _ _ _ hst => hst
    . exact fun _ hdisk hst => hst hdisk
    . exact on_disk_of_head hspec
  stopped := fun _ _ _ _ hst => hst.1
  attempted := fun _ _ _ hst => hst

/--
All disk configurations want a file of this size.
-/
def RunConfig.OneFileSize (cfg : RunConfig D) (size : Nat) : Prop :=
  ∀ spec ∈ cfg.all_specs, spec.kind.on_disk = true → spec.working_set = size

/--
Once one of these configurations has been prepared the file has this size.
-/
def PreparedAll (size : Nat) (specs : List ConfigSpec) (st : RunState D) : Prop :=
  (∃ spec ∈ specs, spec.kind.on_disk = true) → st.file = some size

theorem ignores_preparedAll (size : Nat) (specs : List ConfigSpec)
    : Ignores fun st : RunState D => PreparedAll size specs st where
  asked := fun _ _ h => h
  progress := fun _ _ h => h
  stop := fun _ _ h => h

theorem keptInTurn_filesMatch {size : Nat} (hsize : cfg.OneFileSize size)
    : KeptInTurn host cfg MatchesStill cfg.all_specs
        fun pre st => st.FilesMatch ∧ PreparedAll size pre st where
  ignores := fun pre => ignores_filesMatch.and (ignores_preparedAll size pre)
  prepare := by
    rintro pre spec hspec sess rfl
    by_cases hdisk : sess.spec.kind.on_disk = true
    . refine ((prepare_disk_rule hdisk).strengthen fun st hst => ⟨hst.1.1, hst.2⟩).weaken ?_
      intro _ st hst
      rw [hsize _ hspec hdisk] at hst
      exact ⟨⟨hst.1.1, fun _ => hst.1.2⟩, hst.2⟩
    . unfold prepare
      rw [if_neg hdisk]
      refine .pure fun st hst => ⟨⟨hst.1.1, ?_⟩, hst.2⟩
      rintro ⟨other, hother, hon_disk⟩
      obtain hother | hother := List.mem_append.mp hother
      . exact hst.1.2 ⟨other, hother, hon_disk⟩
      . rw [List.mem_singleton.mp hother] at hon_disk
        exact absurd hon_disk hdisk
  setup := fun _ _ _ _ _ hst => hst.1
  workers := by
    intro spec hspec
    apply run_workers_matches (ignores_preparedAll size _)
    . exact fun _ _ hst => hst
    . exact fun _ _ _ hst => hst
    . intro st hdisk hst
      rw [hsize spec hspec hdisk]
      exact hst ⟨spec, hspec, hdisk⟩
    . exact on_disk_of_head hspec
  stopped := fun _ _ _ hst => hst

/--
The configurations cannot get into each other's way.
-/
def RunConfig.KeepsFile (cfg : RunConfig D) : Prop :=
  cfg.interleave = true → ∃ size, cfg.OneFileSize size

theorem kept_filesMatch (h : cfg.KeepsFile)
    : Kept host cfg MatchesStill (fun st => st.FilesMatch) fun st => st.FilesMatch where
  ignores := ignores_filesMatch
  ignores' := ignores_filesMatch
  turn := by
    intro hinterleave
    obtain ⟨size, hsize⟩ := h hinterleave
    refine ⟨_, keptInTurn_filesMatch hsize, fun st hst => ⟨hst, ?_⟩, fun st hst => hst.1⟩
    rintro ⟨spec, hspec, _⟩
    exact absurd hspec List.not_mem_nil
  sequence := fun _ => ⟨_, _, keptInSequence_filesMatch, fun _ hst => hst, fun _ hst => hst⟩

/--
Every disk trial of a run finds the test file at the size of its configuration, also in a run that fails
or is stopped, if the run takes its configurations one after the other or if all of them agree on the size.
-/
theorem trials_match_file (hkeeps : cfg.KeepsFile) (host : Host D) (fuel : Nat) (hfuel : cfg.fuel ≤ fuel)
    (machine : MachineInfo) (argv : List String) (file : Option Nat)
    : (∀ run st, run_benchmarks host cfg fuel machine argv (.init file) = .ok run st → st.FilesMatch)
      ∧ ∀ err st, run_benchmarks host cfg fuel machine argv (.init file) = .error err st →
        st.FilesMatch :=
  (kept_filesMatch hkeeps).at_end hfuel nofun

def two_files (interleave : Bool) (working_sets : List Nat) : RunConfig ℚ where
  workloads := []
  metrics := [.disk_seq_read_bw]
  thread_counts := [1]
  working_sets := working_sets
  trials := 1
  warmup_trials := 0
  warmup_ms := 0
  trial_ms := 50
  max_seconds := 0
  cpus := []
  interleave := interleave
  canary_retries := 0
  write_budget_bytes := 2 ^ 30

def file_sizes (r : EStateM.Result RunError (RunState D) (RunEnvelope D)) : List (Bool × Nat × Option Nat) :=
  match r with
  | .ok _ st => st.started.map fun e => (e.spec.kind.on_disk, e.spec.working_set, e.file)
  | .error _ _ => []

/--
The second configuration has made the file larger before the first one starts its trial.
-/
theorem trials_mismatch_file
    : ∃ run st, run_benchmarks .steady (two_files true [2 ^ 20, 2 ^ 21]) 3 nowhere [] (.init none) = .ok run st
      ∧ ¬st.FilesMatch := by
  have hsizes : (true, 2 ^ 20, some (2 ^ 21))
      ∈ file_sizes (run_benchmarks .steady (two_files true [2 ^ 20, 2 ^ 21]) 3 nowhere [] (.init none)) := by
    decide +kernel
  cases hrun : run_benchmarks .steady (two_files true [2 ^ 20, 2 ^ 21]) 3 nowhere [] (.init none) with
  | ok run st =>
    rw [hrun] at hsizes
    obtain ⟨e, he, hfound⟩ := List.mem_map.mp hsizes
    obtain ⟨hdisk, hsize, hfile⟩ := (Prod.ext_iff.trans (and_congr_right fun _ => Prod.ext_iff)).mp hfound
    refine ⟨run, st, rfl, fun hmatch => ?_⟩
    have hsame := (hmatch e he hdisk).1
    dsimp only at hsize hfile
    rw [hfile, hsize] at hsame
    exact absurd hsame (by decide)
  | error err st =>
    rw [hrun] at hsizes
    exact absurd hsizes List.not_mem_nil

/--
The same configurations one after the other.
-/
theorem trials_match_file_sequential
    : ∃ run st, run_benchmarks .steady (two_files false [2 ^ 20, 2 ^ 21]) 3 nowhere [] (.init none) = .ok run st
      ∧ st.FilesMatch := by
  have hkeeps : (two_files false [2 ^ 20, 2 ^ 21]).KeepsFile := fun h => absurd h (by decide)
  have hsizes : (true, 2 ^ 20, some (2 ^ 20))
      ∈ file_sizes (run_benchmarks .steady (two_files false [2 ^ 20, 2 ^ 21]) 3 nowhere [] (.init none)) := by
    decide +kernel
  have hmatch := (trials_match_file hkeeps .steady 3 (by decide +kernel) nowhere [] none).1
  cases hrun : run_benchmarks .steady (two_files false [2 ^ 20, 2 ^ 21]) 3 nowhere [] (.init none) with
  | ok run st => exact ⟨run, st, rfl, hmatch run st hrun⟩
  | error err st =>
    rw [hrun] at hsizes
    exact absurd hsizes List.not_mem_nil

end Bench
