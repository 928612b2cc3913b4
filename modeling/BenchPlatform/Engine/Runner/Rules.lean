import BenchPlatform.Engine.Runner.Trials
import BenchPlatform.Lib.Program

/-!
This module contains one rule for each part of the run coordinator: what it returns, and that it keeps
any property of the state that the questions to its surroundings do not touch.
-/

set_option linter.unusedSectionVars false

namespace Bench

open Hoare
open Program (exists_of_forall₂_right forall₂_trans)
open ConfigSession

variable {D : Type} [Double D] {host : Host D} {cfg : RunConfig D} {deadline : Option Nat}
  {P P' : RunState D → Prop} {E : RunError → RunState D → Prop} {sess : ConfigSession D}
  {spec : ConfigSpec}

/--
What does not depend on the number of questions, on the reported progress nor on why the run stops.
-/
structure Ignores (P : RunState D → Prop) : Prop where
  asked : ∀ st n, P st → P { st with asked := n }
  progress : ∀ st rows, P st → P { st with progress := rows }
  stop : ∀ st reason, P st → P { st with stop := reason }

def Going (P : RunState D → Prop) (st : RunState D) : Prop :=
  P st ∧ st.stop = .none

/--
There is no write budget, or some of it is left.
-/
def Unspent (cfg : RunConfig D) (st : RunState D) : Prop :=
  0 < cfg.write_budget_bytes → st.bytes_written < cfg.write_budget_bytes

/--
What stops a run: somebody has asked for it, the write budget is spent, or the time is up.
-/
def Cause (host : Host D) (cfg : RunConfig D) (deadline : Option Nat) (st : RunState D) : Prop :=
  (∃ n, host.abort_requested n = true) ∨ ¬Unspent cfg st
    ∨ ∃ time, deadline = some time ∧ ∃ n, time ≤ host.now n

/--
The run goes on or has been stopped for a reason.
-/
def Held (host : Host D) (cfg : RunConfig D) (deadline : Option Nat) (P : RunState D → Prop)
    (st : RunState D) : Prop :=
  P st ∧ (st.stop ≠ .none → Cause host cfg deadline st)

theorem Going.held {st : RunState D} (h : Going P st) : Held host cfg deadline P st :=
  ⟨h.1, fun hstop => absurd h.2 hstop⟩

theorem Ignores.and (hP : Ignores P) (hP' : Ignores P') : Ignores fun st => P st ∧ P' st where
  asked := fun st n h => ⟨hP.asked st n h.1, hP'.asked st n h.2⟩
  progress := fun st rows h => ⟨hP.progress st rows h.1, hP'.progress st rows h.2⟩
  stop := fun st reason h => ⟨hP.stop st reason h.1, hP'.stop st reason h.2⟩

theorem ask_rule {α : Type} (f : Nat → α) (h : ∀ st n, P st → P { st with asked := n })
    : Triple P (ask f) (fun a st => (∃ n, f n = a) ∧ P st) E :=
  fun st hst => ⟨⟨st.asked, rfl⟩, h st _ hst⟩

theorem checked_rule {α : Type} {error : String → RunError} {x : Except String α}
    (h : ∀ what, x = .error what → ∀ st, P st → E (error what) st)
    : Triple P (checked error x) (fun a st => x = .ok a ∧ P st) E := by
  cases x with
  | ok a => exact .pure fun _ hst => ⟨rfl, hst⟩
  | error what => exact .throw (h what rfl)

theorem liftChecked_rule {α : Type} {x : Except RunError α}
    (h : ∀ err, x = .error err → ∀ st, P st → E err st)
    : Triple P (liftChecked x) (fun a st => x = .ok a ∧ P st) E := by
  cases x with
  | ok a => exact .pure fun _ hst => ⟨rfl, hst⟩
  | error err => exact .throw (h err rfl)

structure Stopped (host : Host D) (cfg : RunConfig D) (deadline : Option Nat)
    (P : RunState D → Prop) (st : RunState D) : Prop where
  held : Held host cfg deadline P st
  stopped : st.stop ≠ .none

theorem stop_with_rule {R : RunState D → Prop} {reason : StopReason} (hP : Ignores P)
    (hreason : reason ≠ .none) (hR : ∀ st, R st → P st ∧ Cause host cfg deadline st)
    : Triple R (stop_with reason)
        (fun b st => if b then Stopped host cfg deadline P st else Going P st ∧ Unspent cfg st) E := by
  apply Triple.bind (Q := fun _ => Stopped host cfg deadline P)
  . refine .modify fun st hst => ⟨⟨hP.stop st reason (hR st hst).1, fun _ => ?_⟩, hreason⟩
    exact (hR st hst).2
  . exact fun _ => .pure fun _ hst => hst

theorem should_stop_rule (hP : Ignores P)
    : Triple (Going P) (should_stop host cfg deadline)
        (fun b st => if b then Stopped host cfg deadline P st else Going P st ∧ Unspent cfg st) E := by
  apply Triple.bind (ask_rule host.abort_requested fun st n hst => ⟨hP.asked st n hst.1, hst.2⟩)
  intro aborted
  apply Triple.ite
  . intro haborted
    refine stop_with_rule hP (by decide) fun st hst => ⟨hst.2.1, .inl ?_⟩
    obtain ⟨n, rfl⟩ := hst.1
    exact ⟨n, haborted⟩
  . intro _
    apply Triple.bind (Q := fun st' st => st' = st ∧ Going P st) (.get fun st hst => ⟨rfl, hst.2⟩)
    intro st'
    apply Triple.ite
    . intro hspent
      refine stop_with_rule hP (by decide) ?_
      rintro st ⟨rfl, hst⟩
      exact ⟨hst.1, .inr (.inl fun hunspent => not_lt.mpr hspent.2 (hunspent hspent.1))⟩
    . intro hbudget
      have hasked : ∀ st n, Going P st ∧ Unspent cfg st →
          Going P { st with asked := n } ∧ Unspent cfg { st with asked := n } :=
        fun st n hst => ⟨⟨hP.asked st n hst.1.1, hst.1.2⟩, hst.2⟩
      have hunspent : ∀ st, st' = st ∧ Going P st → Going P st ∧ Unspent cfg st := by
        rintro st ⟨rfl, hst⟩
        refine ⟨hst, fun hpos => ?_⟩
        by_contra hspent
        exact hbudget ⟨hpos, not_lt.mp hspent⟩
      have hpast : Triple (fun st => st' = st ∧ Going P st) (past host deadline)
          (fun late st => (late = true → Cause host cfg deadline st) ∧ Going P st ∧ Unspent cfg st) E := by
        cases deadline with
        | none => exact .pure fun st hst => ⟨nofun, hunspent st hst⟩
        | some time =>
          apply Triple.bind ((ask_rule host.now hasked).strengthen hunspent)
          intro now
          refine .pure ?_
          rintro st ⟨⟨n, rfl⟩, hst⟩
          refine ⟨fun hlate => .inr (.inr ⟨time, rfl, n, ?_⟩), hst⟩
          simpa using hlate
      apply Triple.bind hpast
      intro late
      apply Triple.ite
      . exact fun hlate => stop_with_rule hP (by decide) fun st hst => ⟨hst.2.1.1, hst.1 hlate⟩
      . exact fun _ => .pure fun _ hst => hst.2

/--
The next state of a session: it has run a trial that it wanted, or none.
-/
def Advances (cfg : RunConfig D) (sess sess' : ConfigSession D) : Prop :=
  sess' = sess
    ∨ sess.wants_more_trials cfg = true
      ∧ ∃ reading, sess' = (sess.record (sess.in_warmup cfg) reading).1

namespace Advances

variable {sess' : ConfigSession D}

theorem same_spec (h : Advances cfg sess sess') : sess'.spec = sess.spec := by
  obtain rfl | ⟨_, reading, rfl⟩ := h <;> rfl

theorem tracks (h : Advances cfg sess sess') (hs : sess.Tracks cfg) : sess'.Tracks cfg := by
  obtain rfl | ⟨hwants, reading, rfl⟩ := h
  . exact hs
  . exact hs.record hwants

theorem remaining_le (h : Advances cfg sess sess') : sess'.remaining cfg ≤ sess.remaining cfg := by
  obtain rfl | ⟨hwants, reading, rfl⟩ := h
  . exact le_rfl
  . exact (remaining_record hwants).le

end Advances

def WorkersKeep (host : Host D) (cfg : RunConfig D) (P : RunState D → Prop)
    (E : RunError → RunState D → Prop) (spec : ConfigSpec) : Prop :=
  ∀ sess warmup, sess.spec = spec →
    Triple (fun st => Going P st ∧ Unspent cfg st) (run_workers host sess warmup)
      (fun _ => Going P) E

theorem run_one_trial_rule (hP : Ignores P) (hworkers : WorkersKeep host cfg P E sess.spec)
    : Triple (fun st => Going P st ∧ Unspent cfg st) (run_one_trial host cfg sess)
        (fun sess' st => (∃ reading, sess' = (sess.record (sess.in_warmup cfg) reading).1)
          ∧ Going P st) E := by
  apply Triple.bind (hworkers sess (sess.in_warmup cfg) rfl)
  intro reading
  apply Triple.bind (Q := fun _ => Going P)
  . exact .modify fun st hst => ⟨hP.progress st _ hst.1, hst.2⟩
  . exact fun _ => .pure fun _ hst => ⟨⟨reading, rfl⟩, hst⟩

theorem make_session_rule (hP : ∀ st n, P st → P { st with asked := n })
    : Triple P (make_session spec) (fun sess st => (∃ id, sess = fresh id spec) ∧ P st) E := by
  apply Triple.bind (ask_rule id hP)
  exact fun id => .pure fun _ hst => ⟨⟨id, rfl⟩, hst.2⟩

/--
What preparing a session has to make of `P`.
-/
def PrepareGives (host : Host D) (P P' : RunState D → Prop) (E : RunError → RunState D → Prop)
    (spec : ConfigSpec) : Prop :=
  ∀ sess : ConfigSession D, sess.spec = spec →
    Triple (Going P) (prepare host sess) (fun _ => Going P') E

def SetupFails (host : Host D) (P : RunState D → Prop) (E : RunError → RunState D → Prop) : Prop :=
  ∀ n what, host.setup n = .error what → ∀ st, P st → E (.runtime_error what) st

theorem open_session_rule (hP : Ignores P) (hP' : Ignores P')
    (hprepare : PrepareGives host P P' E spec) (hsetup : SetupFails host P' E)
    : Triple (Going P) (open_session host spec)
        (fun sess st => (∃ id, sess = fresh id spec) ∧ Going P' st) E := by
  apply Triple.bind (make_session_rule fun st n hst => ⟨hP.asked st n hst.1, hst.2⟩)
  intro sess
  apply Triple.of_pure
  rintro ⟨id, rfl⟩
  apply Triple.bind (hprepare _ rfl)
  intro _
  have hstart : Triple (Going P') (start host) (fun _ => Going P') E := by
    apply Triple.bind (ask_rule host.setup fun st n hst => ⟨hP'.asked st n hst.1, hst.2⟩)
    intro setup
    apply Triple.of_pure
    rintro ⟨n, rfl⟩
    refine (checked_rule ?_).weaken fun _ _ hst => hst.2
    exact fun what hwhat st hst => hsetup n what hwhat st hst.1
  apply Triple.bind hstart
  exact fun _ => .pure fun _ hst => ⟨⟨id, rfl⟩, hst⟩

def total (cfg : RunConfig D) (sessions : List (ConfigSession D)) : Nat :=
  (sessions.map (remaining cfg)).sum

theorem total_le {sessions sessions' : List (ConfigSession D)}
    (h : List.Forall₂ (Advances cfg) sessions sessions')
    : total cfg sessions' ≤ total cfg sessions := by
  induction h with
  | nil => exact le_rfl
  | cons hhead _ ih => exact Nat.add_le_add hhead.remaining_le ih

/--
What a round leads to: each session has run a trial at most, the trials of a round use up some of what
remains, and a round without any is the last one.
-/
structure Rounded (cfg : RunConfig D) (sessions : List (ConfigSession D))
    (r : List (ConfigSession D) × Bool) (st : RunState D) : Prop where
  advances : List.Forall₂ (Advances cfg) sessions r.1
  less : r.2 = true → total cfg r.1 < total cfg sessions
  done : r.2 = false → st.stop = .none → ∀ sess ∈ r.1, sess.wants_more_trials cfg = false

namespace Rounded

variable {sessions : List (ConfigSession D)} {r : List (ConfigSession D) × Bool} {st : RunState D}

theorem stopped (h : st.stop ≠ .none) : Rounded cfg sessions (sessions, false) st where
  advances := List.forall₂_same.mpr fun _ _ => .inl rfl
  less := nofun
  done := fun _ hgoing => absurd hgoing h

theorem trial {reading : TrialReading D} (h : Rounded cfg sessions r st)
    (hwants : sess.wants_more_trials cfg = true)
    : Rounded cfg (sess :: sessions)
        ((sess.record (sess.in_warmup cfg) reading).1 :: r.1, true) st where
  advances := .cons (.inr ⟨hwants, reading, rfl⟩) h.advances
  less := fun _ => Nat.add_lt_add_of_lt_of_le (remaining_record hwants) (total_le h.advances)
  done := nofun

theorem skip (h : Rounded cfg sessions r st) (hwants : sess.wants_more_trials cfg = false)
    : Rounded cfg (sess :: sessions) (sess :: r.1, r.2) st where
  advances := .cons (.inl rfl) h.advances
  less := fun hany => Nat.add_lt_add_left (h.less hany) _
  done := by
    intro hnone hgoing
    exact List.forall_mem_cons.mpr ⟨hwants, h.done hnone hgoing⟩

end Rounded

theorem trial_round_rule (hP : Ignores P) (sessions : List (ConfigSession D))
    (hworkers : ∀ sess ∈ sessions, WorkersKeep host cfg P E sess.spec)
    : Triple (Going P) (trial_round host cfg deadline sessions)
        (fun r st => Held host cfg deadline P st ∧ Rounded cfg sessions r st) E := by
  induction sessions with
  | nil =>
    refine .pure fun st hst => ⟨hst.held, .nil, nofun, ?_⟩
    exact fun _ _ sess hsess => absurd hsess List.not_mem_nil
  | cons sess sessions ih =>
    rw [List.forall_mem_cons] at hworkers
    apply Triple.bind (should_stop_rule hP)
    rintro (_ | _)
    . simp only [Bool.false_eq_true, if_false]
      apply Triple.ite
      . intro hwants
        apply Triple.bind (run_one_trial_rule hP hworkers.1)
        intro sess'
        apply Triple.of_pure
        rintro ⟨reading, rfl⟩
        apply Triple.bind (ih hworkers.2)
        exact fun r => .pure fun st hst => ⟨hst.1, hst.2.trial hwants⟩
      . intro hwants
        apply Triple.bind ((ih hworkers.2).strengthen fun _ hst => hst.1)
        exact fun r => .pure fun st hst => ⟨hst.1, hst.2.skip (by simpa using hwants)⟩
    . exact .pure fun st hst => ⟨hst.held, .stopped hst.stopped⟩

/--
Whenever the surroundings fail, `E` holds.
-/
structure Accepts (host : Host D) (E : RunError → RunState D → Prop) : Prop where
  check_disk_path : ∀ n what, host.check_disk_path n = .error what → ∀ st, E (.runtime_error what) st
  create_test_file : ∀ n what, host.create_test_file n = .error what → ∀ st,
    E (.runtime_error what.1) st
  setup : ∀ n what, host.setup n = .error what → ∀ st, E (.runtime_error what) st
  trial : ∀ n what, host.trial n = .error what → ∀ st, E (.terminated what) st

theorem Accepts.any : Accepts host fun _ _ => True where
  check_disk_path := fun _ _ _ _ => trivial
  create_test_file := fun _ _ _ _ => trivial
  setup := fun _ _ _ _ => trivial
  trial := fun _ _ _ _ => trivial

/--
Whenever the surroundings fail in a state with `P`, `E` holds.
-/
structure AcceptsFrom (host : Host D) (P : RunState D → Prop) (E : RunError → RunState D → Prop) : Prop where
  check_disk_path : ∀ n what, host.check_disk_path n = .error what → ∀ st, P st → E (.runtime_error what) st
  create_test_file : ∀ n what, host.create_test_file n = .error what → ∀ st, P st →
    E (.runtime_error what.1) st
  setup : ∀ n what, host.setup n = .error what → ∀ st, P st → E (.runtime_error what) st
  trial : ∀ n what, host.trial n = .error what → ∀ st, P st → E (.terminated what) st

theorem Accepts.anywhere (hE : Accepts host E) : AcceptsFrom host P E where
  check_disk_path := fun n what h st _ => hE.check_disk_path n what h st
  create_test_file := fun n what h st _ => hE.create_test_file n what h st
  setup := fun n what h st _ => hE.setup n what h st
  trial := fun n what h st _ => hE.trial n what h st

theorem AcceptsFrom.still : AcceptsFrom host P fun _ => P where
  check_disk_path := fun _ _ _ _ h => h
  create_test_file := fun _ _ _ _ h => h
  setup := fun _ _ _ _ h => h
  trial := fun _ _ _ _ h => h

theorem Ignores.going (hP : Ignores P) : ∀ st n, Going P st → Going P { st with asked := n } :=
  fun st n hst => ⟨hP.asked st n hst.1, hst.2⟩

theorem Ignores.prepare (hP : Ignores P) (hfile : ∀ st file, P st → P { st with file := file })
    (hE : AcceptsFrom host P E)
    : PrepareGives host P P E spec := by
  intro sess _
  apply Triple.ite
  . intro _
    apply Triple.bind (ask_rule host.check_disk_path hP.going)
    intro path
    apply Triple.of_pure
    rintro ⟨n, rfl⟩
    apply Triple.bind ((checked_rule ?_).weaken fun _ _ hst => hst.2)
    . intro _
      apply Triple.bind (Q := fun _ => Going P) (.get fun _ hst => hst)
      intro st'
      apply Triple.ite
      . exact fun _ => .pure fun _ hst => hst
      . intro _
        apply Triple.bind (ask_rule host.create_test_file hP.going)
        intro created
        apply Triple.of_pure
        rintro ⟨n, hcreated⟩
        cases created with
        | ok _ => exact .modify fun st hst => ⟨hfile st _ hst.1, hst.2⟩
        | error what =>
          apply Triple.bind (Q := fun _ => P) (.modify fun st hst => hfile st _ hst.1)
          exact fun _ => .throw (hE.create_test_file n what hcreated)
    . exact fun what hwhat st hst => hE.check_disk_path n what hwhat st hst.1
  . exact fun _ => .pure fun _ hst => hst

theorem Ignores.workers (hP : Ignores P) (hE : AcceptsFrom host P E)
    (hstarted : ∀ st started, P st → P { st with started := started })
    (hwritten : ∀ spec n reading, host.trial n = .ok reading →
      Triple (Going P) (note_written spec reading) (fun _ => Going P) E)
    : WorkersKeep host cfg P E spec := by
  intro sess warmup _
  apply Triple.bind (Q := fun _ => Going P) (.modify fun st hst => ⟨hstarted st _ hst.1.1, hst.1.2⟩)
  intro _
  apply Triple.bind (ask_rule host.trial hP.going)
  intro trial
  apply Triple.of_pure
  rintro ⟨n, rfl⟩
  apply Triple.bind (checked_rule fun what hwhat st hst => hE.trial n what hwhat st hst.1)
  intro reading
  apply Triple.of_pure
  intro hreading
  apply Triple.bind (hwritten sess.spec n reading hreading)
  exact fun _ => .pure fun _ hst => hst

/--
What does not depend on the test file nor on the trials that have been started either.
-/
structure Quiet (P : RunState D → Prop) : Prop extends Ignores P where
  file : ∀ st file, P st → P { st with file := file }
  bytes_written : ∀ st n, P st → P { st with bytes_written := n }
  batches : ∀ st batches, P st → P { st with batches := batches }
  started : ∀ st started, P st → P { st with started := started }

theorem Quiet.workers (hP : Quiet P) (hE : Accepts host E) : WorkersKeep host cfg P E spec := by
  apply hP.toIgnores.workers hE.anywhere hP.started
  intro spec _ reading _
  apply Triple.ite
  . intro _
    refine .modify fun st hst => ⟨?_, hst.2⟩
    let writers := DiskWriters.run spec.kind st.bytes_written reading.schedule
    have hwritten := hP.bytes_written st writers.bytes_written hst.1
    have hbatches := hP.batches _ (st.batches
      ++ writers.completed.map fun done => ⟨st.started.length, done.1, done.2⟩) hwritten
    exact hP.file _ (st.file.map (max · (min reading.reach spec.working_set))) hbatches
  . exact fun _ => .pure fun _ hst => hst

/--
A session of this configuration after some of its trials.
-/
structure SessionOf (cfg : RunConfig D) (spec : ConfigSpec) (sess : ConfigSession D) : Prop where
  spec : sess.spec = spec
  tracks : sess.Tracks cfg

theorem SessionOf.fresh (id : Nat) (htrials : 1 ≤ cfg.trials)
    : SessionOf cfg spec (fresh id spec) where
  spec := rfl
  tracks := .fresh id spec htrials

theorem SessionOf.advance {sess' : ConfigSession D} (hs : SessionOf cfg spec sess)
    (h : Advances cfg sess sess')
    : SessionOf cfg spec sess' where
  spec := h.same_spec.trans hs.spec
  tracks := h.tracks hs.tracks

def RunConfig.rounds (cfg : RunConfig D) : Nat :=
  cfg.warmup_trials.toNat + cfg.warmup_ms.toNat * 10 ^ 6 + cfg.trials.toNat

theorem run_trials_rule (hP : Ignores P) (hworkers : WorkersKeep host cfg P E spec)
    (hsess : SessionOf cfg spec sess) {fuel : Nat}
    (hgaveUp : fuel ≤ sess.remaining cfg → ∀ st, E .unfinished st)
    : Triple (Going P) (run_trials host cfg fuel deadline sess)
        (fun sess' st => SessionOf cfg spec sess'
          ∧ (st.stop = .none → sess'.wants_more_trials cfg = false) ∧ Held host cfg deadline P st) E := by
  have hround : ∀ sess : ConfigSession D,
      Triple (fun st => SessionOf cfg spec sess ∧ Going P st)
        (do
          if sess.wants_more_trials cfg then
            if ← should_stop host cfg deadline then
              pure (.inr sess)
            else
              let sess ← run_one_trial host cfg sess
              pure (.inl sess)
          else
            pure (.inr sess))
        (Sum.elim
          (fun sess' st => sess'.remaining cfg < sess.remaining cfg
            ∧ SessionOf cfg spec sess' ∧ Going P st)
          fun sess' st => SessionOf cfg spec sess'
            ∧ (st.stop = .none → sess'.wants_more_trials cfg = false) ∧ Held host cfg deadline P st)
        E := by
    intro sess
    apply Triple.of_pure
    intro hsess
    apply Triple.ite
    . intro hwants
      apply Triple.bind (should_stop_rule hP)
      rintro (_ | _)
      . simp only [Bool.false_eq_true, if_false]
        apply Triple.bind (run_one_trial_rule hP (hsess.spec.symm ▸ hworkers))
        intro sess'
        apply Triple.of_pure
        rintro ⟨reading, rfl⟩
        refine .pure fun st hst => ⟨remaining_record hwants, ?_, hst⟩
        exact hsess.advance (.inr ⟨hwants, reading, rfl⟩)
      . exact .pure fun st hst => ⟨hsess, fun hgoing => absurd hgoing hst.stopped, hst.held⟩
    . intro hwants
      exact .pure fun st hst => ⟨hsess, fun _ => by simpa using hwants, hst.held⟩
  exact (Triple.loop hround hgaveUp).strengthen fun st hst => ⟨hsess, hst⟩

theorem trial_rounds_rule (hP : Ignores P) {specs : List ConfigSpec}
    (hworkers : ∀ spec ∈ specs, WorkersKeep host cfg P E spec)
    {sessions : List (ConfigSession D)} (hsessions : List.Forall₂ (SessionOf cfg) specs sessions)
    {fuel : Nat} (hgaveUp : fuel ≤ total cfg sessions → ∀ st, E .unfinished st)
    : Triple (Going P)
        (loop .unfinished (fun sessions => do
          let (sessions, any) ← trial_round host cfg deadline sessions
          let st ← get
          pure (if any ∧ st.stop = .none then .inl sessions else .inr sessions)) fuel sessions)
        (fun sessions' st => List.Forall₂ (SessionOf cfg) specs sessions'
          ∧ (st.stop = .none → ∀ sess ∈ sessions', sess.wants_more_trials cfg = false)
          ∧ Held host cfg deadline P st) E := by
  have hround : ∀ sessions : List (ConfigSession D),
      Triple (fun st => List.Forall₂ (SessionOf cfg) specs sessions ∧ Going P st)
        (do
          let (sessions, any) ← trial_round host cfg deadline sessions
          let st ← get
          pure (if any ∧ st.stop = .none then .inl sessions else .inr sessions))
        (Sum.elim
          (fun sessions' st => total cfg sessions' < total cfg sessions
            ∧ List.Forall₂ (SessionOf cfg) specs sessions' ∧ Going P st)
          fun sessions' st => List.Forall₂ (SessionOf cfg) specs sessions'
            ∧ (st.stop = .none → ∀ sess ∈ sessions', sess.wants_more_trials cfg = false)
            ∧ Held host cfg deadline P st) E := by
    intro sessions
    apply Triple.of_pure
    intro hsessions
    have hkeep : ∀ sess ∈ sessions, WorkersKeep host cfg P E sess.spec := by
      intro sess hsess
      obtain ⟨spec, hspec, hof⟩ := exists_of_forall₂_right hsessions hsess
      exact hof.spec.symm ▸ hworkers spec hspec
    apply Triple.bind (trial_round_rule hP sessions hkeep)
    rintro ⟨sessions', any⟩
    apply Triple.bind (Q := fun st' st =>
      st' = st ∧ Held host cfg deadline P st ∧ Rounded cfg sessions (sessions', any) st)
      (.get fun st hst => ⟨rfl, hst⟩)
    intro st'
    refine .pure ?_
    rintro st ⟨rfl, hst, hrounded⟩
    have hsessions' : List.Forall₂ (SessionOf cfg) specs sessions' :=
      forall₂_trans (fun _ _ _ hs h => hs.advance h) hsessions hrounded.advances
    split
    . rename_i hmore
      exact ⟨hrounded.less hmore.1, hsessions', hst.1, hmore.2⟩
    . rename_i hlast
      refine ⟨hsessions', fun hgoing => ?_, hst⟩
      apply hrounded.done _ hgoing
      simpa [hgoing] using hlast
  exact (Triple.loop hround hgaveUp).strengthen fun st hst => ⟨hsessions, hst⟩

end Bench
