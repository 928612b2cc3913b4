import BenchPlatform.Engine.Runner.TestFile
import BenchPlatform.Lib.Rotation

/-!
This module contains the turns that configurations take when they are interleaved: nobody is favoured, for any
number of configurations and in whichever order they have had enough.
-/

set_option linter.unusedSectionVars false

namespace Bench

open Hoare
open ConfigSession

variable {D : Type} [Double D] {host : Host D} {cfg : RunConfig D} {deadline : Option Nat}

def rotation (cfg : RunConfig D) : Rotation (ConfigSession D) (TrialReading D) where
  wants := wants_more_trials cfg
  turn := fun sess reading => (sess.record (sess.in_warmup cfg) reading).1
  count := fun sess => sess.warmups_done + sess.timed_done
  count_turn := by
    intro sess reading
    unfold record
    cases sess.in_warmup cfg
    . exact (Nat.add_assoc ..).symm
    . exact Nat.add_right_comm ..

/--
The trials that have been started are those of the sessions at these places, in this order.
-/
def Logged (sessions : List (ConfigSession D)) (order : List Nat) (started started' : List Started) : Prop :=
  ∃ es, started' = started ++ es
    ∧ List.Forall₂ (fun e i => ∃ sess, sessions[i]? = some sess ∧ e.session = sess.id) es order

/--
The part of the state that says whose trials have been started and which sessions are over, since `st`.
-/
structure Since (st : RunState D) (sessions : List (ConfigSession D)) (order : List Nat) (st' : RunState D) : Prop where
  started : Logged sessions order st.started st'.started
  stopped : st'.stopped = st.stopped

variable {st : RunState D} {sessions : List (ConfigSession D)} {order : List Nat} {sess : ConfigSession D}

theorem Since.ignores : Ignores (Since st sessions order) where
  asked := fun _ _ h => ⟨h.started, h.stopped⟩
  progress := fun _ _ h => ⟨h.started, h.stopped⟩
  stop := fun _ _ h => ⟨h.started, h.stopped⟩

theorem Logged.append {started started' : List Started} {e : Started} {i : Nat}
    (h : Logged sessions order started started') (he : ∃ sess, sessions[i]? = some sess ∧ e.session = sess.id)
    : Logged sessions (order ++ [i]) started (started' ++ [e]) := by
  obtain ⟨es, rfl, hes⟩ := h
  exact ⟨es ++ [e], by rw [List.append_assoc], List.rel_append hes (.cons he .nil)⟩

theorem note_written_since {spec : ConfigSpec} {reading : TrialReading D} {E : RunError → RunState D → Prop}
    : Triple (Going (Since st sessions order)) (note_written spec reading) (fun _ => Going (Since st sessions order))
        E := by
  apply Triple.ite
  . exact fun _ => .modify fun _ hst => ⟨⟨hst.1.started, hst.1.stopped⟩, hst.2⟩
  . exact fun _ => .pure fun _ hst => hst

theorem run_one_trial_since {i : Nat} (hsess : ∃ sess', sessions[i]? = some sess' ∧ sess.id = sess'.id)
    : Triple (Going (Since st sessions order)) (run_one_trial host cfg sess)
        (fun sess' st' => (∃ reading, sess' = (rotation cfg).turn sess reading)
          ∧ Going (Since st sessions (order ++ [i])) st')
        fun _ => Since st sessions (order ++ [i]) := by
  apply Triple.bind (Q := fun _ => Going (Since st sessions (order ++ [i])))
  . apply Triple.bind (Q := fun _ => Going (Since st sessions (order ++ [i])))
    . exact .modify fun st' hst => ⟨⟨hst.1.started.append hsess, hst.1.stopped⟩, hst.2⟩
    . intro _
      apply Triple.bind (ask_rule host.trial Since.ignores.going)
      intro trial
      apply Triple.of_pure
      rintro ⟨n, rfl⟩
      apply Triple.bind ((checked_rule fun _ _ _ hst => hst.1).weaken fun _ _ hst => hst.2)
      intro reading
      apply Triple.bind note_written_since
      exact fun _ => .pure fun _ hst => hst
  . intro reading
    apply Triple.bind (Q := fun _ => Going (Since st sessions (order ++ [i])))
    . exact .modify fun _ hst => ⟨⟨hst.1.started, hst.1.stopped⟩, hst.2⟩
    . exact fun _ => .pure fun _ hst => ⟨⟨reading, rfl⟩, hst⟩

/--
Fair turns, and the sessions that they lead to.
-/
def Played (cfg : RunConfig D) (st : RunState D) (sessions sessions' : List (ConfigSession D)) (st' : RunState D)
    : Prop :=
  ∃ turns, (rotation cfg).played sessions turns = sessions' ∧ (rotation cfg).Fair sessions turns none
    ∧ Since st sessions (turns.map (·.1)) st'

/--
Fair turns, the last of which may have begun only.
-/
def Broken (cfg : RunConfig D) (st : RunState D) (sessions : List (ConfigSession D)) (_ : RunError) (st' : RunState D)
    : Prop :=
  ∃ turns next, (rotation cfg).Fair sessions turns next ∧ Since st sessions (turns.map (·.1) ++ next.toList) st'

def Playing (cfg : RunConfig D) (st : RunState D) (sessions before after : List (ConfigSession D)) (st' : RunState D)
    : Prop :=
  ∃ turns round, (rotation cfg).Turning sessions turns before after round ∧ Since st sessions (turns.map (·.1)) st'

theorem Playing.played {before after : List (ConfigSession D)} {st' : RunState D}
    (h : Playing cfg st sessions before after st') : Played cfg st sessions (before ++ after) st' := by
  obtain ⟨turns, round, hturning, hsince⟩ := h
  exact ⟨turns, hturning.played, hturning.fair, hsince⟩

theorem Playing.ignores {before after : List (ConfigSession D)} : Ignores (Playing cfg st sessions before after) where
  asked := fun _ n ⟨turns, round, h, hst⟩ => ⟨turns, round, h, Since.ignores.asked _ n hst⟩
  progress := fun _ rows ⟨turns, round, h, hst⟩ => ⟨turns, round, h, Since.ignores.progress _ rows hst⟩
  stop := fun _ reason ⟨turns, round, h, hst⟩ => ⟨turns, round, h, Since.ignores.stop _ reason hst⟩

theorem Played.broken {sessions' : List (ConfigSession D)} {st' : RunState D} {err : RunError}
    (h : Played cfg st sessions sessions' st') : Broken cfg st sessions err st' := by
  obtain ⟨turns, -, hfair, hsince⟩ := h
  refine ⟨turns, none, hfair, ?_⟩
  rw [Option.toList_none, List.append_nil]
  exact hsince

theorem place_of_turning {turns : List (Nat × TrialReading D)} {before after : List (ConfigSession D)} {round : Nat}
    (h : (rotation cfg).Turning sessions turns before (sess :: after) round)
    : ∃ sess', sessions[before.length]? = some sess' ∧ sess.id = sess'.id := by
  have hids : ((rotation cfg).played sessions turns).map (·.id) = sessions.map (·.id) :=
    (rotation cfg).played_map (·.id) (fun _ _ => rfl) turns
  rw [h.played] at hids
  have hplace := congrArg (·[before.length]?) hids
  rw [List.getElem?_map, List.getElem?_map, List.getElem?_append_right (Nat.le_refl _), Nat.sub_self] at hplace
  cases hsess : sessions[before.length]? with
  | none =>
    rw [hsess] at hplace
    cases hplace
  | some sess' =>
    rw [hsess] at hplace
    exact ⟨sess', rfl, Option.some.inj hplace⟩

theorem run_one_trial_playing {before after : List (ConfigSession D)} (hwants : sess.wants_more_trials cfg = true)
    : Triple (Going (Playing cfg st sessions before (sess :: after))) (run_one_trial host cfg sess)
        (fun sess' st' => Going (Playing cfg st sessions (before ++ [sess']) after) st') (Broken cfg st sessions) := by
  rintro st' ⟨⟨turns, round, hturning, hsince⟩, hgoing⟩
  have hplace := place_of_turning hturning
  have htrial := @run_one_trial_since D _ host cfg st sessions (turns.map (·.1)) sess before.length hplace
  refine (htrial.imp ?_ ?_ ?_ : Triple (· = st') _ _ _) st' rfl
  . rintro _ rfl
    exact ⟨hsince, hgoing⟩
  . rintro sess' st'' ⟨⟨reading, rfl⟩, hsince, hgoing⟩
    refine ⟨⟨_, round, hturning.turn hwants reading, ?_⟩, hgoing⟩
    rw [List.map_append]
    exact hsince
  . exact fun err st'' hsince => ⟨turns, some before.length, hturning.next, hsince⟩

theorem trial_round_playing {before after : List (ConfigSession D)}
    : Triple (Going (Playing cfg st sessions before after)) (trial_round host cfg deadline after)
        (fun r st' => Played cfg st sessions (before ++ r.1) st'
          ∧ (st'.stop = .none → Playing cfg st sessions (before ++ r.1) [] st'))
        (Broken cfg st sessions) := by
  induction after generalizing before with
  | nil =>
    refine .pure fun st' hst => ⟨hst.1.played, fun _ => ?_⟩
    rw [List.append_nil]
    exact hst.1
  | cons sess after ih =>
    apply Triple.bind (should_stop_rule Playing.ignores)
    rintro (_ | _)
    . simp only [Bool.false_eq_true, if_false]
      apply Triple.ite
      . intro hwants
        apply Triple.bind ((run_one_trial_playing hwants).strengthen fun _ hst => hst.1)
        intro sess'
        apply Triple.bind ih
        intro r
        refine .pure fun st' hst => ?_
        rw [List.append_assoc] at hst
        exact hst
      . intro hwants
        have hskip : ∀ st', Going (Playing cfg st sessions before (sess :: after)) st' ∧ Unspent cfg st' →
            Going (Playing cfg st sessions (before ++ [sess]) after) st' := by
          rintro st' ⟨⟨⟨turns, round, hturning, hsince⟩, hgoing⟩, -⟩
          exact ⟨⟨turns, round, hturning.skip (eq_false_of_ne_true hwants), hsince⟩, hgoing⟩
        apply Triple.bind (ih.strengthen hskip)
        intro r
        refine .pure fun st' hst => ?_
        rw [List.append_assoc] at hst
        exact hst
    . exact .pure fun st' hst => ⟨hst.held.1.played, fun hgoing => absurd hgoing hst.stopped⟩

theorem trial_rounds_playing {fuel : Nat} {sessions' : List (ConfigSession D)}
    : Triple (Going (Playing cfg st sessions [] sessions'))
        (loop .unfinished (fun sessions => do
          let (sessions, any) ← trial_round host cfg deadline sessions
          let st ← get
          pure (if any ∧ st.stop = .none then .inl sessions else .inr sessions)) fuel sessions')
        (Played cfg st sessions) (Broken cfg st sessions) := by
  apply Triple.loop_inv (I := fun sessions' => Going (Playing cfg st sessions [] sessions'))
  . intro sessions'
    apply Triple.bind trial_round_playing
    rintro ⟨sessions'', any⟩
    apply Triple.bind (Q := fun st'' st' => st'' = st' ∧ Played cfg st sessions sessions'' st'
      ∧ (st'.stop = .none → Playing cfg st sessions sessions'' [] st')) (.get fun _ hst => ⟨rfl, hst⟩)
    intro st''
    refine .pure ?_
    rintro st' ⟨rfl, hplayed, hplaying⟩
    split
    . rename_i hmore
      obtain ⟨turns, round, hturning, hsince⟩ := hplaying hmore.2
      exact ⟨⟨turns, round + 1, hturning.wrap, hsince⟩, hmore.2⟩
    . exact hplayed
  . exact fun _ _ hst => hst.1.played.broken

/--
No trial has been started yet, and so many questions have been asked.
-/
def Opening (st : RunState D) (n : Nat) (st' : RunState D) : Prop :=
  n ≤ st'.asked ∧ st'.started = st.started ∧ st'.stopped = st.stopped ∧ st'.stop = .none

def Unstarted (st : RunState D) (_ : RunError) (st' : RunState D) : Prop :=
  st'.started = st.started

theorem ask_opening {α : Type} {n : Nat} {E : RunError → RunState D → Prop} (f : Nat → α)
    : Triple (Opening st n) (ask f) (fun _ => Opening st n) E :=
  fun _ hst => ⟨Nat.le_succ_of_le hst.1, hst.2⟩

theorem checked_opening {α : Type} {n : Nat} {error : String → RunError} {x : Except String α}
    : Triple (Opening st n) (checked error x) (fun _ => Opening st n) (Unstarted st) :=
  (checked_rule fun _ _ _ hst => hst.2.1).weaken fun _ _ hst => hst.2

theorem prepare_opening {n : Nat}
    : Triple (Opening st n) (prepare host sess) (fun _ => Opening st n) (Unstarted st) := by
  apply Triple.ite
  . intro _
    apply Triple.bind (ask_opening _)
    intro path
    apply Triple.bind checked_opening
    intro _
    apply Triple.bind (Q := fun _ => Opening st n) (.get fun _ hst => hst)
    intro st'
    apply Triple.ite
    . exact fun _ => .pure fun _ hst => hst
    . intro _
      apply Triple.bind (ask_opening _)
      intro created
      cases created with
      | ok _ => exact .modify fun _ hst => hst
      | error failed =>
        obtain ⟨what, left⟩ := failed
        apply Triple.bind (Q := fun _ => Opening st n)
        . exact .modify fun _ hst => hst
        . exact fun _ => .throw fun _ hst => hst.2.1
  . exact fun _ => .pure fun _ hst => hst

theorem open_session_opening {n : Nat} {spec : ConfigSpec}
    : Triple (Opening st n) (open_session host spec)
        (fun sess st' => ∃ id, sess = fresh id spec ∧ n ≤ id ∧ Opening st (id + 1) st') (Unstarted st) := by
  apply Triple.bind (Q := fun sess st' => ∃ id, sess = fresh id spec ∧ n ≤ id ∧ Opening st (id + 1) st')
  . exact fun st' hst => ⟨st'.asked, rfl, hst.1, Nat.le_refl _, hst.2⟩
  . intro sess
    apply Triple.of_exists
    intro id
    apply Triple.of_pure
    intro hsess
    apply Triple.of_pure
    intro hid
    apply Triple.bind prepare_opening
    intro _
    apply Triple.bind
    . apply Triple.bind (ask_opening _)
      exact fun _ => checked_opening
    . exact fun _ => .pure fun _ hst => ⟨id, hsess, hid, hst⟩

theorem open_sessions_opening {n : Nat} {specs : List ConfigSpec}
    : Triple (Opening st n) (specs.mapM (open_session host))
        (fun sessions st' => List.Forall₂ (fun spec sess => ∃ id, sess = fresh id spec) specs sessions
          ∧ (sessions.map (·.id)).Pairwise (· < ·) ∧ (∀ sess ∈ sessions, n ≤ sess.id) ∧ ∃ m, Opening st m st')
        (Unstarted st) := by
  induction specs generalizing n with
  | nil => exact .pure fun _ hst => ⟨.nil, .nil, nofun, n, hst⟩
  | cons spec specs ih =>
    rw [List.mapM_cons]
    apply Triple.bind open_session_opening
    intro sess
    apply Triple.of_exists
    intro id
    apply Triple.of_pure
    rintro rfl
    apply Triple.of_pure
    intro hid
    apply Triple.bind ih
    intro sessions
    refine .pure ?_
    rintro st' ⟨hfresh, hids, hlater, hst⟩
    refine ⟨.cons ⟨id, rfl⟩ hfresh, ?_, ?_, hst⟩
    . rw [List.map_cons, List.pairwise_cons]
      exact ⟨List.forall_mem_map.mpr hlater, hids⟩
    . rw [List.forall_mem_cons]
      exact ⟨hid, fun sess hsess => Nat.le_of_lt (Nat.lt_of_lt_of_le (Nat.lt_succ_of_le hid) (hlater sess hsess))⟩

/--
A run that has started the trials of its sessions in turn, all of them fairly.
-/
structure InTurn (cfg : RunConfig D) (specs : List ConfigSpec) (st : RunState D) (sessions : List (ConfigSession D))
    (turns : List (Nat × TrialReading D)) (next : Option Nat) (st' : RunState D) : Prop where
  opened : List.Forall₂ (fun spec sess => ∃ id, sess = fresh id spec) specs sessions
  distinct : (sessions.map (·.id)).Nodup
  started : Logged sessions (turns.map (·.1) ++ next.toList) st.started st'.started
  fair : (rotation cfg).Fair sessions turns next

/--
How a run ends: either all trials it started are over and the sessions are stopped as these have left them, or
it has failed, in the last trial or before there was one.
-/
def TakesTurns (cfg : RunConfig D) (specs : List ConfigSpec) (st : RunState D)
    (result : EStateM.Result RunError (RunState D) (RunEnvelope D)) : Prop :=
  (∀ run st', result = .ok run st' → ∃ sessions turns, InTurn cfg specs st sessions turns none st'
    ∧ st'.stopped = st.stopped ++ (rotation cfg).played sessions turns)
  ∧ ∀ err st', result = .error err st' → st'.started = st.started
    ∨ ∃ sessions turns next, InTurn cfg specs st sessions turns next st'

theorem run_interleaved_takes_turns {fuel : Nat} {specs : List ConfigSpec} {run : RunEnvelope D}
    (hst : st.stop = .none)
    : TakesTurns cfg specs st (run_interleaved host cfg fuel deadline specs run st) := by
  have hrule : Triple (Opening st 0) (run_interleaved host cfg fuel deadline specs run)
      (fun _ st' => ∃ sessions turns, InTurn cfg specs st sessions turns none st'
        ∧ st'.stopped = st.stopped ++ (rotation cfg).played sessions turns)
      fun _ st' => st'.started = st.started ∨ ∃ sessions turns next, InTurn cfg specs st sessions turns next st' := by
    apply Triple.bind (ask_opening _)
    intro canary_start
    apply Triple.bind (open_sessions_opening.imp (fun _ h => h) (fun _ _ h => h) fun _ _ h => .inl h)
    intro sessions
    apply Triple.of_pure
    intro hopened
    apply Triple.of_pure
    intro hids
    apply Triple.of_pure
    intro _
    apply Triple.of_exists
    intro m
    have hdistinct : (sessions.map (·.id)).Nodup := hids.imp Nat.ne_of_lt
    have hstart : ∀ st', Opening st m st' → Going (Playing cfg st sessions [] sessions) st' := by
      rintro st' ⟨-, hstarted, hstopped, hgoing⟩
      refine ⟨⟨[], 0, .start ?_, ⟨[], by rw [hstarted, List.append_nil], .nil⟩, hstopped⟩, hgoing⟩
      intro sess hsess
      obtain ⟨spec, -, id, rfl⟩ := Program.exists_of_forall₂_right hopened hsess
      rfl
    have hrounds := @trial_rounds_playing D _ host cfg deadline st sessions fuel sessions
    apply Triple.bind (hrounds.imp hstart (fun _ _ h => h) ?_)
    . intro sessions'
      apply Triple.of_exists
      intro turns
      apply Triple.of_pure
      rintro rfl
      apply Triple.of_pure
      intro hfair
      let Done : RunState D → Prop := fun st' => Logged sessions (turns.map (·.1)) st.started st'.started
        ∧ st'.stopped = st.stopped ++ (rotation cfg).played sessions turns
      apply Triple.bind (Q := fun _ => Done)
      . intro st' hsince
        rw [forM_stop]
        exact ⟨hsince.started, congrArg (· ++ _) hsince.stopped⟩
      . intro _
        apply Triple.bind ((ask_rule (P := Done) host.clock_selftest fun _ _ hst => hst).weaken fun _ _ hst => hst.2)
        intro canary_end
        refine .pure fun st' hst => ⟨sessions, turns, ⟨hopened, hdistinct, ?_, hfair⟩, hst.2⟩
        rw [Option.toList_none, List.append_nil]
        exact hst.1
    . rintro err st' ⟨turns, next, hfair, hsince⟩
      exact .inr ⟨sessions, turns, next, hopened, hdistinct, hsince.started, hfair⟩
  have hopening : Opening st 0 st := ⟨Nat.zero_le _, rfl, rfl, hst⟩
  exact ⟨fun _ _ hok => hrule.of_ok hopening hok, fun _ _ herror => hrule.of_error hopening herror⟩

/--
However the trials of an interleaved run go, and whichever of its configurations have had enough first: between
any two trials those that want more are even, and nobody has two trials in a row while another one wants more.
-/
theorem interleaving_fair (host : Host D) (cfg : RunConfig D) (hinterleave : cfg.interleave = true) (fuel : Nat)
    (deadline : Option Nat) (specs : List ConfigSpec) (run : RunEnvelope D) (st : RunState D) (hst : st.stop = .none)
    : TakesTurns cfg specs st (run_specs host cfg fuel deadline specs run st) := by
  unfold run_specs
  rw [if_pos hinterleave]
  exact run_interleaved_takes_turns hst

def two_specs : List ConfigSpec :=
  [⟨.disk_seq, [.disk_seq_read_bw], 1, 2 ^ 20⟩, ⟨.disk_seq, [.disk_seq_read_bw], 2, 2 ^ 20⟩]

def in_turn : RunConfig ℚ :=
  { two_files true [2 ^ 20] with trials := 2, warmup_trials := 1 }

def no_results : RunEnvelope ℚ where
  schema_version := 1
  run_id := ""
  started_at := ""
  finished_at := ""
  machine := nowhere
  argv := []
  results := []
  summary := []

theorem interleaving_fair_two
    : ∃ run st, run_specs .steady in_turn 4 none two_specs no_results (.init none) = .ok run st
      ∧ st.started.map (·.spec.threads) = [1, 2, 1, 2, 1, 2]
      ∧ ∃ sessions turns, InTurn in_turn two_specs (.init none) sessions turns none st := by
  have horder : (match run_specs .steady in_turn 4 none two_specs no_results (.init none) with
      | .ok _ st => st.started.map (·.spec.threads)
      | .error _ _ => []) = [1, 2, 1, 2, 1, 2] := by
    decide +kernel
  have hfair := (interleaving_fair .steady in_turn rfl 4 none two_specs no_results (.init none) rfl).1
  split at horder
  . rename_i run st hrun
    obtain ⟨sessions, turns, hturns, -⟩ := hfair run st hrun
    exact ⟨run, st, hrun, horder, sessions, turns, hturns⟩
  . cases horder

end Bench
