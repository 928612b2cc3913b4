import BenchPlatform.Engine.Runner.Rules

/-!
This module contains what a run emits: for each configuration the rows of the trials that one of its
sessions has recorded, and a summary for each of its metrics.
-/

set_option linter.unusedSectionVars false

namespace Bench

open Hoare
open ConfigSession

variable {D : Type} [Double D] {host : Host D} {cfg : RunConfig D} {deadline : Option Nat}
  {P P' : RunState D → Prop} {E : RunError → RunState D → Prop} {sess : ConfigSession D}
  {spec : ConfigSpec} {run : RunEnvelope D} {st st' : RunState D}

structure Block (D : Type) where
  recorded : List (TrialReading D)
  rows : List (Result D)
  summary : List (Summary D)

def RunEnvelope.add (run : RunEnvelope D) (b : Block D) : RunEnvelope D :=
  { run with results := run.results ++ b.rows, summary := run.summary ++ b.summary }

def Summary.subject (s : Summary D) : Workload × Metric × Int × Nat × Int :=
  (s.workload, s.metric, s.thread_count, s.working_set_bytes, s.n)

def ConfigSpec.subjects (spec : ConfigSpec) (n : Nat) : List (Workload × Metric × Int × Nat × Int) :=
  if n = 0 then [] else spec.metrics.map fun m => (spec.kind, m, spec.threads, spec.working_set, n)

/--
The block of a configuration has the rows of its first trials, all of them unless the run was stopped.
They are what a session of this configuration has recorded.
-/
structure Block.Emitted (cfg : RunConfig D) (st : RunState D) (spec : ConfigSpec) (b : Block D) : Prop where
  rows : b.rows = rows_of spec b.recorded
  bound : (b.recorded.length : Int) ≤ cfg.trials
  complete : st.stop = .none → (b.recorded.length : Int) = cfg.trials
  ran : b.recorded ≠ [] → ∃ sess ∈ st.stopped, sess.spec = spec ∧ sess.recorded = b.recorded
  summary : b.summary.map Summary.subject = spec.subjects b.recorded.length
  late : ∀ s ∈ b.summary, s.late_trials ≤ s.n
  attempts : 0 ≤ cfg.canary_retries → ∀ s ∈ b.summary, s.canary_attempts ≤ cfg.canary_retries + 1

def ConfigSession.block (sess : ConfigSession D) (canary_start canary_end : ClockCheck D)
    (attempts : Int) : Block D where
  recorded := sess.recorded
  rows := rows_of sess.spec sess.recorded
  summary :=
    if sess.recorded.isEmpty then
      []
    else
      sess.spec.metrics.map fun m =>
        sess.summary m (values_of sess.spec sess.recorded m) canary_start canary_end attempts

namespace Block.Emitted

variable {b : Block D}

theorem mono (h : b.Emitted cfg st spec) (hstop : st'.stop = .none → st.stop = .none)
    (hstopped : st.stopped ⊆ st'.stopped)
    : b.Emitted cfg st' spec where
  rows := h.rows
  bound := h.bound
  complete := fun hgoing => h.complete (hstop hgoing)
  ran := by
    intro hsome
    obtain ⟨sess, hsess, hrest⟩ := h.ran hsome
    exact ⟨sess, hstopped hsess, hrest⟩
  summary := h.summary
  late := h.late
  attempts := h.attempts

theorem empty (h : st.stop ≠ .none) (htrials : 1 ≤ cfg.trials)
    : (⟨[], [], []⟩ : Block D).Emitted cfg st spec where
  rows := rfl
  bound := by
    change (0 : Int) ≤ _
    omega
  complete := fun hgoing => absurd hgoing h
  ran := fun hsome => absurd rfl hsome
  summary := rfl
  late := fun _ hs => absurd hs List.not_mem_nil
  attempts := fun _ _ hs => absurd hs List.not_mem_nil

theorem of_tracks {canary_start canary_end : ClockCheck D} {attempts : Int} (hs : sess.Tracks cfg)
    (hdone : st.stop = .none → sess.wants_more_trials cfg = false) (hmem : sess ∈ st.stopped)
    (hattempts : 0 ≤ cfg.canary_retries → attempts ≤ cfg.canary_retries + 1)
    : (sess.block canary_start canary_end attempts).Emitted cfg st sess.spec where
  rows := rfl
  bound := hs.bound
  complete := fun hgoing => hs.complete (hdone hgoing)
  ran := fun _ => ⟨sess, hmem, rfl, rfl⟩
  summary := by
    unfold ConfigSession.block ConfigSpec.subjects
    dsimp only
    split
    . rename_i hnone
      rw [List.isEmpty_iff.mp hnone]
      rfl
    . rename_i hsome
      have hlength : sess.recorded.length ≠ 0 := by simpa using hsome
      rw [if_neg hlength, List.map_map]
      apply List.map_congr_left
      intro m _
      simp [ConfigSession.summary, Summary.subject, values_of]
  late := by
    unfold ConfigSession.block
    dsimp only
    intro s h
    split at h
    . cases h
    . obtain ⟨m, _, rfl⟩ := List.mem_map.mp h
      simpa [ConfigSession.summary, values_of, hs.late_trials] using List.countP_le_length
  attempts := by
    unfold ConfigSession.block
    dsimp only
    intro hretries s h
    split at h
    . cases h
    . obtain ⟨m, _, rfl⟩ := List.mem_map.mp h
      exact hattempts hretries

end Block.Emitted

theorem rows_of_eq_nil {recorded : List (TrialReading D)} (h : rows_of spec recorded = [])
    : recorded = [] ∨ spec.metrics = [] := by
  cases recorded with
  | nil => exact .inl rfl
  | cons reading recorded =>
    right
    unfold rows_of at h
    rw [List.zipIdx_cons, List.flatMap_cons] at h
    exact List.map_eq_nil_iff.mp (List.append_eq_nil_iff.mp h).1

theorem zip_values {recorded : List (TrialReading D)} (h : recorded ≠ []) (metrics : List Metric)
    : (metrics.zip (metrics.map (values_of spec recorded))).filter (!·.2.isEmpty)
      = metrics.map fun m => (m, values_of spec recorded m) := by
  induction metrics with
  | nil => rfl
  | cons m metrics ih =>
    have hsome : (!(values_of spec recorded m).isEmpty) = true := by simpa [values_of] using h
    rw [List.map_cons, List.zip_cons_cons, List.filter_cons, if_pos hsome, ih, List.map_cons]

theorem emit_eq (hs : sess.Tracks cfg) (canary_start canary_end : ClockCheck D) (attempts : Int)
    : sess.emit run canary_start canary_end attempts
      = run.add (sess.block canary_start canary_end attempts) := by
  unfold ConfigSession.emit RunEnvelope.add ConfigSession.block
  dsimp only
  rw [hs.results]
  by_cases hnil : rows_of sess.spec sess.recorded = []
  . rw [if_pos (List.isEmpty_iff.mpr hnil), hnil, List.append_nil]
    obtain hnone | hnone := rows_of_eq_nil hnil
    . rw [if_pos (List.isEmpty_iff.mpr hnone), List.append_nil]
    . rw [hnone, List.map_nil, ite_self, List.append_nil]
  . have hrecorded : sess.recorded ≠ [] := by
      intro hnone
      rw [hnone] at hnil
      exact hnil rfl
    rw [if_neg (mt List.isEmpty_iff.mp hnil), if_neg (mt List.isEmpty_iff.mp hrecorded), hs.values,
      zip_values hrecorded, List.map_map]
    rfl

theorem foldl_emit {sessions : List (ConfigSession D)} (hs : ∀ sess ∈ sessions, sess.Tracks cfg)
    (canary_start canary_end : ClockCheck D) (attempts : Int)
    : sessions.foldl (fun run sess => sess.emit run canary_start canary_end attempts) run
      = (sessions.map (block · canary_start canary_end attempts)).foldl RunEnvelope.add run := by
  induction sessions generalizing run with
  | nil => rfl
  | cons sess sessions ih =>
    rw [List.forall_mem_cons] at hs
    rw [List.foldl_cons, List.map_cons, List.foldl_cons, emit_eq hs.1, ih hs.2]

theorem forM_stop {sessions : List (ConfigSession D)}
    : sessions.forM stop st = .ok () { st with stopped := st.stopped ++ sessions } := by
  induction sessions generalizing st with
  | nil =>
    rw [List.append_nil]
    rfl
  | cons sess sessions ih =>
    have hstop : stop sess st = .ok () { st with stopped := st.stopped ++ [sess] } := rfl
    change (stop sess >>= fun _ => sessions.forM stop) st = _
    rw [Program.bind_of_ok hstop, ih, List.append_assoc]
    rfl

theorem total_fresh {specs : List ConfigSpec} {sessions : List (ConfigSession D)}
    (h : List.Forall₂ (fun spec sess => ∃ id, sess = fresh id spec) specs sessions)
    : total cfg sessions = specs.length * cfg.rounds := by
  induction h with
  | nil => exact (Nat.zero_mul _).symm
  | cons hsess _ ih =>
    obtain ⟨id, rfl⟩ := hsess
    unfold total at ih ⊢
    rw [List.map_cons, List.sum_cons, ih, List.length_cons, Nat.succ_mul, Nat.add_comm]
    rfl

/--
What a run that takes its configurations in turn has to keep. The invariant may depend on the
configurations that have been prepared.
-/
structure KeptInTurn (host : Host D) (cfg : RunConfig D) (E : RunError → RunState D → Prop)
    (specs : List ConfigSpec) (I : List ConfigSpec → RunState D → Prop) : Prop where
  ignores : ∀ pre, Ignores (I pre)
  prepare : ∀ pre, ∀ spec ∈ specs, PrepareGives host (I pre) (I (pre ++ [spec])) E spec
  setup : ∀ pre, SetupFails host (I pre) E
  workers : ∀ spec ∈ specs, WorkersKeep host cfg (I specs) E spec
  stopped : ∀ st sessions, (∀ sess ∈ sessions, sess.Tracks cfg) → I specs st →
    I specs { st with stopped := st.stopped ++ sessions }

theorem run_interleaved_rule {specs : List ConfigSpec} {I : List ConfigSpec → RunState D → Prop}
    {fuel : Nat} (hI : KeptInTurn host cfg E specs I) (htrials : 1 ≤ cfg.trials)
    (hgaveUp : fuel ≤ specs.length * cfg.rounds → ∀ st, E .unfinished st)
    : Triple (Going (I [])) (run_interleaved host cfg fuel deadline specs run)
        (fun run' st => (∃ blocks, List.Forall₂ (fun spec b => b.Emitted cfg st spec) specs blocks
          ∧ run' = blocks.foldl RunEnvelope.add run) ∧ Held host cfg deadline (I specs) st) E := by
  have hasked : ∀ pre st n, Going (I pre) st → Going (I pre) { st with asked := n } :=
    fun pre st n hst => ⟨(hI.ignores pre).asked st n hst.1, hst.2⟩
  apply Triple.bind ((ask_rule host.clock_selftest (hasked [])).weaken fun _ _ hst => hst.2)
  intro canary_start
  have hopen : ∀ pre spec, spec ∈ specs → Triple (Going (I pre)) (open_session host spec)
      (fun sess st => (∃ id, sess = fresh id spec) ∧ Going (I (pre ++ [spec])) st) E :=
    fun pre spec hspec => open_session_rule (hI.ignores pre) (hI.ignores _)
      (hI.prepare pre spec hspec) (hI.setup _)
  apply Triple.bind (Triple.mapM hopen [])
  intro sessions
  apply Triple.of_pure
  intro hfresh
  have hsessions : List.Forall₂ (SessionOf cfg) specs sessions := by
    refine hfresh.imp fun spec sess hsess => ?_
    obtain ⟨id, rfl⟩ := hsess
    exact .fresh id htrials
  rw [← total_fresh hfresh] at hgaveUp
  apply Triple.bind (trial_rounds_rule (hI.ignores specs) hI.workers hsessions hgaveUp)
  intro sessions'
  apply Triple.of_pure
  intro hsessions'
  have htracks : ∀ sess ∈ sessions', sess.Tracks cfg := by
    intro sess hsess
    obtain ⟨spec, _, hof⟩ := Program.exists_of_forall₂_right hsessions' hsess
    exact hof.tracks
  apply Triple.bind (Q := fun _ st => (st.stop = .none →
      ∀ sess ∈ sessions', sess.wants_more_trials cfg = false) ∧ sessions' ⊆ st.stopped
      ∧ Held host cfg deadline (I specs) st)
  . intro st hst
    rw [forM_stop]
    refine ⟨hst.1, ?_, hI.stopped st sessions' htracks hst.2.1, hst.2.2⟩
    exact fun sess hsess => List.mem_append_right _ hsess
  . intro _
    apply Triple.bind ((ask_rule host.clock_selftest ?_).weaken fun _ _ hst => hst.2)
    . intro canary_end
      refine .pure fun st hst => ⟨?_, hst.2.2⟩
      refine ⟨sessions'.map (block · canary_start canary_end 1), ?_, foldl_emit htracks ..⟩
      rw [List.forall₂_map_right_iff]
      have hrun : ∀ sess ∈ sessions', (st.stop = .none → sess.wants_more_trials cfg = false)
          ∧ sess ∈ st.stopped :=
        fun sess hsess => ⟨fun hgoing => hst.1 hgoing sess hsess, hst.2.1 hsess⟩
      refine ((List.forall₂_and_left _ _).mpr ⟨hrun, hsessions'.flip⟩).flip.imp ?_
      rintro spec sess ⟨⟨hdone, hmem⟩, hof⟩
      rw [← hof.spec]
      exact .of_tracks hof.tracks hdone hmem fun hretries => by omega
    . exact fun st n hst => ⟨hst.1, hst.2.1, (hI.ignores specs).asked st n hst.2.2.1, hst.2.2.2⟩

/--
What a run that finishes one configuration before the next has to keep: `P` between configurations, and
`P'` from the moment a session has been prepared until it is stopped.
-/
structure KeptInSequence (host : Host D) (cfg : RunConfig D) (E : RunError → RunState D → Prop)
    (specs : List ConfigSpec) (P : RunState D → Prop) (P' : ConfigSpec → RunState D → Prop) : Prop where
  ignores : Ignores P
  ignores' : ∀ spec, Ignores (P' spec)
  prepare : ∀ spec ∈ specs, PrepareGives host P (P' spec) E spec
  setup : ∀ spec, SetupFails host (P' spec) E
  workers : ∀ spec ∈ specs, WorkersKeep host cfg (P' spec) E spec
  stopped : ∀ spec st sess, sess.Tracks cfg → P' spec st → P { st with stopped := st.stopped ++ [sess] }
  attempted : ∀ st attempts, (0 ≤ cfg.canary_retries → attempts ≤ cfg.canary_retries + 1) → P st →
    P { st with attempts := st.attempts ++ [attempts] }

theorem has_room_to_retry_rule (hP : ∀ st n, P st → P { st with asked := n })
    : Triple P (has_room_to_retry host deadline) (fun _ => P) E := by
  cases deadline with
  | none => exact .pure fun _ hst => hst
  | some deadline =>
    apply Triple.bind (ask_rule host.now hP)
    exact fun _ => .pure fun _ hst => hst.2

/--
A configuration is not attempted again after the last retry.
-/
def AttemptsBelow (cfg : RunConfig D) (attempt : Int) : Prop :=
  0 ≤ attempt ∧ (0 ≤ cfg.canary_retries → attempt ≤ cfg.canary_retries)

theorem try_config_rule {specs : List ConfigSpec} {P' : ConfigSpec → RunState D → Prop} {fuel : Nat}
    (hP : KeptInSequence host cfg E specs P P') (htrials : 1 ≤ cfg.trials) (hspec : spec ∈ specs)
    (hgaveUp : fuel ≤ cfg.rounds → ∀ st, E .unfinished st) {attempt : Int}
    (hattempt : AttemptsBelow cfg attempt)
    : Triple (Going P) (try_config host cfg fuel deadline spec run attempt)
        (Sum.elim
          (fun attempt' st => (attempt' = attempt + 1 ∧ attempt' ≤ cfg.canary_retries) ∧ Going P st)
          fun r st => (0 ≤ cfg.canary_retries → r.1 ≤ cfg.canary_retries + 1)
            ∧ (∃ b : Block D, b.Emitted cfg st spec ∧ r.2 = run.add b)
            ∧ Held host cfg deadline P st) E := by
  have hasked : ∀ st n, Going P st → Going P { st with asked := n } :=
    fun st n hst => ⟨hP.ignores.asked st n hst.1, hst.2⟩
  apply Triple.bind ((ask_rule host.clock_selftest hasked).weaken fun _ _ hst => hst.2)
  intro canary_start
  apply Triple.bind (has_room_to_retry_rule hasked)
  intro room_to_retry
  apply Triple.ite
  . intro hretry
    refine .pure fun st hst => ⟨⟨rfl, ?_⟩, hst⟩
    simp only [Bool.and_eq_true, Bool.not_eq_true', decide_eq_false_iff_not, not_lt] at hretry
    exact hretry.1.2
  . intro _
    apply Triple.bind (open_session_rule hP.ignores (hP.ignores' spec) (hP.prepare spec hspec)
      (hP.setup spec))
    intro sess
    apply Triple.of_pure
    rintro ⟨id, rfl⟩
    apply Triple.bind (run_trials_rule (hP.ignores' spec) (hP.workers spec hspec) (.fresh id htrials)
      hgaveUp)
    intro sess
    apply Triple.of_pure
    intro hsess
    apply Triple.bind (Q := fun _ st => (st.stop = .none → sess.wants_more_trials cfg = false)
      ∧ sess ∈ st.stopped ∧ Held host cfg deadline P st)
    . refine .modify fun st hst =>
        ⟨hst.1, ?_, hP.stopped spec st sess hsess.tracks hst.2.1, hst.2.2⟩
      exact List.mem_append_right _ List.mem_cons_self
    . intro _
      apply Triple.bind ((ask_rule host.clock_selftest ?_).weaken fun _ _ hst => hst.2)
      . intro canary_end
        apply Triple.bind (Q := fun st' st => st' = st
            ∧ (st.stop = .none → sess.wants_more_trials cfg = false) ∧ sess ∈ st.stopped
            ∧ Held host cfg deadline P st)
          (.get fun st hst => ⟨rfl, hst⟩)
        intro st'
        apply Triple.ite
        . intro hretry
          refine .pure ?_
          rintro st ⟨rfl, _, _, hst⟩
          simp only [Bool.and_eq_true, Bool.not_eq_true', decide_eq_false_iff_not, not_lt,
            decide_eq_true_eq] at hretry
          exact ⟨⟨rfl, hretry.1.1.2⟩, hst.1, hretry.1.2⟩
        . intro _
          have hattempts : 0 ≤ cfg.canary_retries → attempt + 1 ≤ cfg.canary_retries + 1 := by
            intro hretries
            have := hattempt.2 hretries
            omega
          refine .pure ?_
          rintro st ⟨rfl, hdone, hmem, hst⟩
          refine ⟨hattempts, ⟨_, ?_, emit_eq hsess.tracks ..⟩, hst⟩
          rw [← hsess.spec]
          exact .of_tracks hsess.tracks hdone hmem hattempts
      . exact fun st n hst => ⟨hst.1, hst.2.1, hP.ignores.asked st n hst.2.2.1, hst.2.2.2⟩

theorem KeptInSequence.since {specs : List ConfigSpec} {P' : ConfigSpec → RunState D → Prop}
    (hP : KeptInSequence host cfg E specs P P') (base : List (ConfigSession D))
    : KeptInSequence host cfg E specs (fun st => P st ∧ base ⊆ st.stopped)
        fun spec st => P' spec st ∧ base ⊆ st.stopped := by
  have hbase : Quiet fun st : RunState D => base ⊆ st.stopped :=
    { asked := fun _ _ h => h, progress := fun _ _ h => h, stop := fun _ _ h => h
      file := fun _ _ h => h, bytes_written := fun _ _ h => h, batches := fun _ _ h => h
      started := fun _ _ h => h }
  constructor
  . exact hP.ignores.and hbase.toIgnores
  . exact fun spec => (hP.ignores' spec).and hbase.toIgnores
  . intro spec hspec sess hsess
    have hprepare := (hP.prepare spec hspec sess hsess).and (hbase.toIgnores.prepare hbase.file Accepts.any.anywhere sess hsess)
    exact hprepare.imp (fun st hst => ⟨⟨hst.1.1, hst.2⟩, hst.1.2, hst.2⟩)
      (fun _ st hst => ⟨⟨hst.1.1, hst.2.1⟩, hst.1.2⟩) fun _ _ h => h
  . exact fun spec n what hwhat st hst => hP.setup spec n what hwhat st hst.1
  . intro spec hspec sess warmup hsess
    have hstays : WorkersKeep host cfg (fun st => base ⊆ st.stopped) (fun _ _ => True) spec :=
      hbase.workers .any
    have hworkers := (hP.workers spec hspec sess warmup hsess).and (hstays sess warmup hsess)
    exact hworkers.imp
      (fun st hst => ⟨⟨⟨hst.1.1.1, hst.1.2⟩, hst.2⟩, ⟨hst.1.1.2, hst.1.2⟩, hst.2⟩)
      (fun _ st hst => ⟨⟨hst.1.1, hst.2.1⟩, hst.1.2⟩) fun _ _ h => h
  . intro spec st sess hsess hst
    exact ⟨hP.stopped spec st sess hsess hst.1, fun s hs => List.mem_append_left _ (hst.2 hs)⟩
  . exact fun st attempts hattempts hst => ⟨hP.attempted st attempts hattempts hst.1, hst.2⟩

theorem emitted_nothing (run : RunEnvelope D) (h : st.stop ≠ .none) (htrials : 1 ≤ cfg.trials) (specs : List ConfigSpec)
    : ∃ blocks : List (Block D), List.Forall₂ (fun spec b => b.Emitted cfg st spec) specs blocks
      ∧ run = blocks.foldl RunEnvelope.add run := by
  induction specs with
  | nil => exact ⟨[], .nil, rfl⟩
  | cons spec specs ih =>
    obtain ⟨blocks, hblocks, hrun⟩ := ih
    refine ⟨⟨[], [], []⟩ :: blocks, .cons (.empty h htrials) hblocks, ?_⟩
    rw [List.foldl_cons]
    unfold RunEnvelope.add at hrun ⊢
    rw [List.append_nil, List.append_nil]
    exact hrun

theorem attempts_rule {specs : List ConfigSpec} {P' : ConfigSpec → RunState D → Prop} {fuel : Nat}
    (hP : KeptInSequence host cfg E specs P P') (htrials : 1 ≤ cfg.trials) (hspec : spec ∈ specs)
    (hgaveUp : fuel ≤ max cfg.rounds (cfg.canary_retries + 1).toNat → ∀ st, E .unfinished st)
    : Triple (Going P) (loop .unfinished (try_config host cfg fuel deadline spec run) fuel 0)
        (fun r st => (0 ≤ cfg.canary_retries → r.1 ≤ cfg.canary_retries + 1)
          ∧ (∃ b : Block D, b.Emitted cfg st spec ∧ r.2 = run.add b)
          ∧ Held host cfg deadline P st) E := by
  have hround : ∀ attempt, Triple (fun st => AttemptsBelow cfg attempt ∧ Going P st)
      (try_config host cfg fuel deadline spec run attempt)
      (Sum.elim
        (fun attempt' st => (cfg.canary_retries + 1 - attempt').toNat
            < (cfg.canary_retries + 1 - attempt).toNat ∧ AttemptsBelow cfg attempt' ∧ Going P st)
        fun r st => (0 ≤ cfg.canary_retries → r.1 ≤ cfg.canary_retries + 1)
          ∧ (∃ b : Block D, b.Emitted cfg st spec ∧ r.2 = run.add b)
          ∧ Held host cfg deadline P st) E := by
    intro attempt
    apply Triple.of_pure
    intro hattempt
    refine (try_config_rule hP htrials hspec ?_ hattempt).weaken ?_
    . exact fun hle => hgaveUp (hle.trans (le_max_left _ _))
    . rintro (attempt' | r) st hst
      . obtain ⟨⟨rfl, hle⟩, hgoing⟩ := hst
        refine ⟨?_, ⟨?_, fun _ => hle⟩, hgoing⟩
        . omega
        . have := hattempt.1
          omega
      . exact hst
  have hrounds : fuel ≤ (cfg.canary_retries + 1 - 0).toNat → ∀ st, E .unfinished st := by
    rw [sub_zero]
    exact fun hle => hgaveUp (hle.trans (le_max_right _ _))
  exact (Triple.loop hround hrounds).strengthen fun st hst => ⟨⟨le_rfl, fun h => h⟩, hst⟩

theorem run_sequential_rule {specs rest : List ConfigSpec} {P' : ConfigSpec → RunState D → Prop}
    {fuel : Nat} (hP : KeptInSequence host cfg E specs P P') (htrials : 1 ≤ cfg.trials)
    (hrest : rest ⊆ specs)
    (hgaveUp : fuel ≤ max cfg.rounds (cfg.canary_retries + 1).toNat → ∀ st, E .unfinished st)
    : Triple (Going P) (run_sequential host cfg fuel deadline rest run)
        (fun run' st => (∃ blocks, List.Forall₂ (fun spec b => b.Emitted cfg st spec) rest blocks
          ∧ run' = blocks.foldl RunEnvelope.add run) ∧ Held host cfg deadline P st) E := by
  induction rest generalizing run P P' with
  | nil => exact .pure fun st hst => ⟨⟨[], .nil, rfl⟩, hst.held⟩
  | cons spec rest ih =>
    obtain ⟨hspec, hrest⟩ := List.cons_subset.mp hrest
    apply Triple.bind (attempts_rule hP htrials hspec hgaveUp)
    rintro ⟨attempts, run'⟩
    apply Triple.of_pure
    intro hattempts
    apply Triple.bind (Q := fun _ st => (∃ b : Block D, b.Emitted cfg st spec ∧ run' = run.add b)
      ∧ Held host cfg deadline P st)
    . refine .modify fun st hst => ⟨?_, hP.attempted st attempts hattempts hst.2.1, hst.2.2⟩
      obtain ⟨b, hb, hrun⟩ := hst.1
      exact ⟨b, hb.mono (fun h => h) fun _ h => h, hrun⟩
    . intro _
      apply Triple.bind (Q := fun st' st => st' = st
        ∧ (∃ b : Block D, b.Emitted cfg st spec ∧ run' = run.add b) ∧ Held host cfg deadline P st)
        (.get fun st hst => ⟨rfl, hst⟩)
      intro st'
      apply Triple.of_state
      rintro st ⟨rfl, ⟨b, hb, rfl⟩, hst⟩
      apply Triple.ite
      . intro hgoing
        refine (ih (hP.since st'.stopped) hrest).imp ?_ ?_ fun _ _ h => h
        . rintro st rfl
          exact ⟨⟨hst.1, fun _ h => h⟩, hgoing⟩
        . rintro run' st ⟨⟨blocks, hblocks, hrun⟩, ⟨hkept, hstopped⟩, hcause⟩
          refine ⟨⟨b :: blocks, .cons ?_ hblocks, hrun⟩, hkept, hcause⟩
          exact hb.mono (fun _ => hgoing) hstopped
      . intro hstopped
        refine .pure ?_
        rintro st rfl
        obtain ⟨blocks, hblocks, hrun⟩ := emitted_nothing (run.add b) hstopped htrials rest
        exact ⟨⟨b :: blocks, .cons hb hblocks, hrun⟩, hst⟩

def RunConfig.specs_for (cfg : RunConfig D) (metric : Metric) : List ConfigSpec :=
  cfg.thread_counts.flatMap fun threads =>
    cfg.working_sets.map fun ws =>
      ⟨workload_of metric, group_of metric, threads, effective_working_set (workload_of metric) ws⟩

def RunConfig.all_specs (cfg : RunConfig D) : List ConfigSpec :=
  (selected_metrics cfg).flatMap cfg.specs_for

theorem specs_eq : specs cfg = .ok cfg.all_specs := by
  have hgroups : (selected_metrics cfg).mapM (specs_of cfg)
      = .ok ((selected_metrics cfg).map cfg.specs_for) := by
    rw [Program.mapM_eq_ok, List.forall₂_map_right_iff, List.forall₂_same]
    intro metric _
    exact if_pos (is_implemented_workload_of metric)
  exact Program.except_bind_eq_ok.mpr ⟨_, hgroups, rfl⟩

def RunConfig.fuel (cfg : RunConfig D) : Nat :=
  max (cfg.all_specs.length * cfg.rounds) (max cfg.rounds (cfg.canary_retries + 1).toNat) + 1

/--
What a run has to keep, whichever way it takes its configurations.
-/
structure Kept (host : Host D) (cfg : RunConfig D) (E : RunError → RunState D → Prop)
    (P R : RunState D → Prop) : Prop where
  ignores : Ignores P
  ignores' : Ignores R
  turn : cfg.interleave = true → ∃ I, KeptInTurn host cfg E cfg.all_specs I
    ∧ (∀ st, P st → I [] st) ∧ ∀ st, I cfg.all_specs st → R st
  sequence : cfg.interleave = false → ∃ P₀ P', KeptInSequence host cfg E cfg.all_specs P₀ P'
    ∧ (∀ st, P st → P₀ st) ∧ ∀ st, P₀ st → R st

/--
The blocks of a run, one for each configuration.
-/
structure Emits (cfg : RunConfig D) (st : RunState D) (run : RunEnvelope D) (blocks : List (Block D))
    : Prop where
  emitted : List.Forall₂ (fun spec b => b.Emitted cfg st spec) cfg.all_specs blocks
  results : run.results = blocks.flatMap (·.rows)
  summary : run.summary = blocks.flatMap (·.summary)

theorem foldl_add (blocks : List (Block D))
    : blocks.foldl RunEnvelope.add run
      = { run with
          results := run.results ++ blocks.flatMap (·.rows)
          summary := run.summary ++ blocks.flatMap (·.summary) } := by
  induction blocks generalizing run with
  | nil => simp
  | cons b blocks ih =>
    rw [List.foldl_cons, ih]
    simp [RunEnvelope.add]

theorem one_le_trials {u : Unit} (h : check_arguments cfg = .ok u) : 1 ≤ cfg.trials := by
  unfold check_arguments at h
  by_contra hlt
  rw [if_pos (by omega)] at h
  cases h

theorem run_specs_rule {R : RunState D → Prop} {fuel : Nat} (hkept : Kept host cfg E P R)
    (htrials : 1 ≤ cfg.trials) (hgaveUp : fuel < cfg.fuel → ∀ st, E .unfinished st)
    (hempty : run.results = [] ∧ run.summary = [])
    : Triple (Going P) (run_specs host cfg fuel deadline cfg.all_specs run)
        (fun run st => (∃ blocks, Emits cfg st run blocks) ∧ Held host cfg deadline R st) E := by
  have hemits : ∀ st blocks, List.Forall₂ (fun spec b => b.Emitted cfg st spec) cfg.all_specs blocks →
      Emits cfg st (blocks.foldl RunEnvelope.add run) blocks := by
    intro st blocks hblocks
    rw [foldl_add, hempty.1, hempty.2]
    exact ⟨hblocks, rfl, rfl⟩
  apply Triple.ite
  . intro hinterleave
    obtain ⟨I, hI, hpre, hpost⟩ := hkept.turn hinterleave
    refine (run_interleaved_rule hI htrials ?_).imp ?_ ?_ fun _ _ h => h
    . intro hle
      apply hgaveUp
      exact Nat.lt_succ_of_le (hle.trans (le_max_left _ _))
    . exact fun st hst => ⟨hpre st hst.1, hst.2⟩
    . rintro _ st ⟨⟨blocks, hblocks, rfl⟩, hst⟩
      exact ⟨⟨blocks, hemits st blocks hblocks⟩, hpost st hst.1, hst.2⟩
  . intro hsequential
    obtain ⟨P₀, P', hP, hpre, hpost⟩ := hkept.sequence (by simpa using hsequential)
    refine (run_sequential_rule hP htrials (fun _ h => h) ?_).imp ?_ ?_ fun _ _ h => h
    . intro hle
      apply hgaveUp
      exact Nat.lt_succ_of_le (hle.trans (le_max_right _ _))
    . exact fun st hst => ⟨hpre st hst.1, hst.2⟩
    . rintro _ st ⟨⟨blocks, hblocks, rfl⟩, hst⟩
      exact ⟨⟨blocks, hemits st blocks hblocks⟩, hpost st hst.1, hst.2⟩

/--
The deadline of a run, if its time is limited.
-/
def DeadlineOf (host : Host D) (cfg : RunConfig D) (deadline : Option Nat) : Prop :=
  if Double.lt ((0 : Nat) : D) cfg.max_seconds then
    ∃ n, deadline = some (host.now n + Double.nanoseconds cfg.max_seconds)
  else
    deadline = none

theorem deadline_of_rule (hP : ∀ st n, P st → P { st with asked := n })
    : Triple P (deadline_of host cfg) (fun deadline st => DeadlineOf host cfg deadline ∧ P st) E := by
  apply Triple.ite
  . intro hlimited
    apply Triple.bind (ask_rule host.now hP)
    intro now
    refine .pure ?_
    rintro st ⟨⟨n, rfl⟩, hst⟩
    exact ⟨(if_pos hlimited).mpr ⟨n, rfl⟩, hst⟩
  . exact fun hunlimited => .pure fun _ hst => ⟨(if_neg hunlimited).mpr rfl, hst⟩

theorem run_benchmarks_rule {R : RunState D → Prop} {fuel : Nat} {machine : MachineInfo}
    {argv : List String} (hkept : Kept host cfg E P R)
    (hargs : ∀ err, check_arguments cfg = .error err → ∀ st, E err st)
    (hgaveUp : fuel < cfg.fuel → ∀ st, E .unfinished st)
    : Triple (Going P) (run_benchmarks host cfg fuel machine argv)
        (fun run st => (∃ blocks, Emits cfg st run blocks)
          ∧ ∃ deadline, DeadlineOf host cfg deadline ∧ Held host cfg deadline R st) E := by
  have hasked : ∀ st n, Going P st → Going P { st with asked := n } :=
    fun st n hst => ⟨hkept.ignores.asked st n hst.1, hst.2⟩
  apply Triple.bind (liftChecked_rule fun err herr st _ => hargs err herr st)
  intro u
  apply Triple.of_pure
  intro hchecked
  have htrials := one_le_trials hchecked
  apply Triple.bind ((ask_rule host.new_run_id hasked).weaken fun _ _ hst => hst.2)
  intro run_id
  apply Triple.bind ((ask_rule host.utc_now_rfc3339 hasked).weaken fun _ _ hst => hst.2)
  intro started_at
  apply Triple.bind (deadline_of_rule hasked)
  intro deadline
  apply Triple.of_pure
  intro hdeadline
  rw [specs_eq]
  apply Triple.bind (Q := fun specs st => specs = cfg.all_specs ∧ Going P st)
    (.pure fun _ hst => ⟨rfl, hst⟩)
  intro specs
  apply Triple.of_pure
  rintro rfl
  apply Triple.bind (run_specs_rule hkept htrials hgaveUp ⟨rfl, rfl⟩)
  intro run
  apply Triple.bind (Q := fun _ st => (∃ blocks, Emits cfg st run blocks)
    ∧ Held host cfg deadline R st)
  . refine (ask_rule host.utc_now_rfc3339 ?_).weaken fun _ _ hst => hst.2
    rintro st n ⟨⟨blocks, hblocks⟩, hst⟩
    refine ⟨⟨blocks, ?_, hblocks.results, hblocks.summary⟩, hkept.ignores'.asked st n hst.1, hst.2⟩
    exact hblocks.emitted.imp fun spec b hb => hb.mono (fun h => h) fun _ h => h
  . intro finished_at
    refine .pure ?_
    rintro st ⟨⟨blocks, hblocks⟩, hst⟩
    exact ⟨⟨blocks, hblocks.emitted, hblocks.results, hblocks.summary⟩, deadline, hdeadline, hst⟩

theorem Kept.at_end {fuel : Nat} {machine : MachineInfo} {argv : List String} {file : Option Nat}
    (hkept : Kept host cfg (fun _ => P) P P) (hfuel : cfg.fuel ≤ fuel) (hstart : P (.init file))
    : (∀ run st, run_benchmarks host cfg fuel machine argv (.init file) = .ok run st → P st)
      ∧ ∀ err st, run_benchmarks host cfg fuel machine argv (.init file) = .error err st → P st := by
  cases hargs : check_arguments cfg with
  | ok u =>
    have hrule : Triple (Going P) (run_benchmarks host cfg fuel machine argv)
        (fun run st => (∃ blocks, Emits cfg st run blocks)
          ∧ ∃ deadline, DeadlineOf host cfg deadline ∧ Held host cfg deadline P st) fun _ => P := by
      apply run_benchmarks_rule hkept
      . intro err herr
        rw [hargs] at herr
        cases herr
      . exact fun hlt => absurd hfuel (not_le.mpr hlt)
    constructor
    . intro run st hrun
      obtain ⟨_, _, _, hst⟩ := hrule.of_ok ⟨hstart, rfl⟩ hrun
      exact hst.1
    . exact fun err st hrun => hrule.of_error ⟨hstart, rfl⟩ hrun
  | error what =>
    have hrefused : run_benchmarks host cfg fuel machine argv (.init file) = .error what (.init file) := by
      unfold run_benchmarks
      rw [hargs]
      rfl
    constructor
    . intro run st hrun
      rw [hrefused] at hrun
      cases hrun
    . intro err st hrun
      rw [hrefused] at hrun
      injection hrun with _ hst
      rwa [← hst]

end Bench
