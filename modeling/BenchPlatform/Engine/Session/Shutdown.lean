import BenchPlatform.Engine.Session.Live
import BenchPlatform.Engine.Session.Progress

/-!
This module proves that the threads of a `ConfigSession` never wait for each other forever if `start`
creates all threads or fails at the first, and that `stop` never returns if it fails in between.
-/

namespace Bench
namespace Session

variable {n : Nat} {s : Session n} {i : Fin n}

namespace Blocked

theorem workerPoint (hb : Blocked s) (i : Fin n)
    : (s.worker i).point = .unborn ∨ (s.worker i).point = .left
      ∨ (s.worker i).point = .gateWait ∧ s.park ∧ s.gate = (s.worker i).gateSeen
      ∨ (s.worker i).point = .startBarrier ∧ s.startB.Polls (some i)
      ∨ (s.worker i).point = .endBarrier ∧ s.endB.Polls (some i) := by
  have hidle := hb.worker i
  unfold WorkerIdle at hidle
  cases hpt : (s.worker i).point <;> simp_all

theorem startB (hb : Blocked s) (hs : Inv s) (q : Option (Fin n))
    : s.startB.Polls q ∨ s.startB.point q = .outside := by
  cases q with
  | none =>
    by_cases hc : s.coord = .startBarrier ∨ s.coord = .stopBarrier
    . left
      have hidle := hb.coord
      unfold CoordIdle at hidle
      obtain hc | hc := hc <;> simpa only [hc] using hidle
    . rw [not_or] at hc
      exact .inr (hs.startPoint hc.1 hc.2)
  | some i =>
    by_cases hpt : (s.worker i).point = .startBarrier
    . left
      have hidle := hb.worker i
      unfold WorkerIdle at hidle
      simpa only [hpt] using hidle
    . exact .inr ((hs.worker i).startPoint hpt)

theorem endB (hb : Blocked s) (hs : Inv s) (q : Option (Fin n))
    : s.endB.Polls q ∨ s.endB.point q = .outside := by
  cases q with
  | none =>
    by_cases hc : s.coord = .endBarrier
    . left
      have hidle := hb.coord
      unfold CoordIdle at hidle
      simpa only [hc] using hidle
    . exact .inr (hs.endPoint hc)
  | some i =>
    by_cases hpt : (s.worker i).point = .endBarrier
    . left
      have hidle := hb.worker i
      unfold WorkerIdle at hidle
      simpa only [hpt] using hidle
    . exact .inr ((hs.worker i).endPoint hpt)

theorem workerPhase (hb : Blocked s) (hs : Inv s) (i : Fin n)
    : (s.worker i).point = .unborn
      ∨ ((s.worker i).point = .left ∧ s.startB.phase = s.endB.phase + 1)
      ∨ ((s.worker i).point = .gateWait ∧ s.startB.phase = s.endB.phase
        ∧ s.endB.returns (some i) = s.endB.phase ∧ s.park ∧ s.gate = (s.worker i).gateSeen)
      ∨ ((s.worker i).point = .startBarrier ∧ s.startB.phase = s.endB.phase
        ∧ s.startB.point (some i) ≠ .outside)
      ∨ ((s.worker i).point = .endBarrier ∧ s.startB.phase = s.endB.phase + 1
        ∧ s.endB.returns (some i) = s.endB.phase ∧ s.endB.point (some i) ≠ .outside) := by
  have hw := hs.worker i
  have hlaps : s.startB.returns (some i) = s.endB.returns (some i) + (s.worker i).point.laps := hw.laps
  have hstart : (s.worker i).point ≠ .startBarrier → s.startB.returns (some i) = s.startB.phase :=
    fun h => (hs.startB.outside (hw.startPoint h)).2.1
  have hend : (s.worker i).point ≠ .endBarrier → s.endB.returns (some i) = s.endB.phase :=
    fun h => (hs.endB.outside (hw.endPoint h)).2.1
  obtain hpt | hpt | ⟨hpt, hgate⟩ | ⟨hpt, hpolls⟩ | ⟨hpt, hpolls⟩ := hb.workerPoint i
  all_goals simp only [hpt, WorkerPoint.laps, ne_eq, reduceCtorEq, not_false_eq_true, not_true_eq_false,
    forall_const, false_implies] at hlaps hstart hend
  . exact .inl hpt
  . exact .inr (.inl ⟨hpt, by omega⟩)
  . exact .inr (.inr (.inl ⟨hpt, by omega, by omega, hgate⟩))
  . have hreturns := (hs.startB.polls hpolls).2
    refine .inr (.inr (.inr (.inl ⟨hpt, by omega, ?_⟩)))
    rw [hpolls]
    simp
  . have hreturns := (hs.endB.polls hpolls).2
    refine .inr (.inr (.inr (.inr ⟨hpt, by omega, hreturns, ?_⟩)))
    rw [hpolls]
    simp

theorem left (hb : Blocked s) (hs : Inv s) (hl : Live s) (hstopping : s.coord.Stopping)
    (hlaps : s.coord.laps = 1) (hoff : ¬s.coord.AtBarrier) (i : Fin n)
    : (s.worker i).point = .left := by
  have hstart : s.startB.point none = .outside := by
    apply hs.startPoint <;> (intro hc; simp [hc, CoordPoint.AtBarrier] at hoff)
  have hend : s.endB.point none = .outside := by
    apply hs.endPoint
    intro hc
    simp [hc, CoordPoint.AtBarrier] at hoff
  have hphase := hs.laps
  rw [(hs.startB.outside hstart).2.1, (hs.endB.outside hend).2.1, hlaps] at hphase
  have hspawned : s.spawned = n := by
    apply hl.started
    cases hc : s.coord <;> simp [hc, CoordPoint.Stopping, CoordPoint.Started] at hstopping ⊢
  obtain hpt | ⟨hpt, _⟩ | ⟨_, h, _⟩ | ⟨_, h, _⟩ | ⟨hpt, _, hreturns, _⟩ := hb.workerPhase hs i
  . exact absurd hpt (hl.born i (by omega))
  . exact hpt
  . omega
  . omega
  . have := (hl.halted hstopping i).2 hpt
    omega

theorem not_startBarrier (hb : Blocked s) (hs : Inv s) (hl : Live s)
    : ¬(s.coord = .startBarrier ∨ s.coord = .stopBarrier) := by
  intro hc
  have hpolls : s.startB.Polls none := by
    have hidle := hb.coord
    unfold CoordIdle at hidle
    obtain hc | hc := hc <;> simpa only [hc] using hidle
  have hphase := hs.laps
  have hend : s.endB.point none = .outside := hs.endPoint (by obtain hc | hc := hc <;> simp [hc])
  have hpoint : s.coord.laps = 0 ∧ s.coord.opened = 1 ∧ s.coord.Started := by
    obtain hc | hc := hc <;> rw [hc] <;> exact ⟨rfl, rfl, trivial⟩
  rw [(hs.startB.polls hpolls).2, (hs.endB.outside hend).2.1, hpoint.1] at hphase
  have htrials := hs.trials.trans (hs.endB.outside hend).2.1
  have hspawned := hl.started hpoint.2.2
  obtain ⟨q, hout, _⟩ := hs.startB.exists_outside (hb.startB hs)
  cases q with
  | none =>
    rw [hpolls] at hout
    cases hout
  | some i =>
    obtain hpt | ⟨_, h⟩ | ⟨hpt, _, hreturns, hpark, hgate⟩ | ⟨_, _, hin⟩ | ⟨_, h, _⟩ := hb.workerPhase hs i
    . exact hl.born i (by omega) hpt
    . omega
    . have hseen := hl.seen hpark i
      rw [hl.gate hpark, hseen, hpoint.2.1, htrials, hreturns, hpt] at hgate
      exact SpinBarrier.ofNat_succ_ne _ hgate
    . exact hin hout
    . omega

theorem not_endBarrier (hb : Blocked s) (hs : Inv s) (hl : Live s) : s.coord ≠ .endBarrier := by
  intro hc
  have hpolls : s.endB.Polls none := by
    have hidle := hb.coord
    unfold CoordIdle at hidle
    simpa only [hc] using hidle
  have hphase := hs.laps
  have hstart : s.startB.point none = .outside := hs.startPoint (by simp [hc]) (by simp [hc])
  rw [(hs.startB.outside hstart).2.1, (hs.endB.polls hpolls).2, hc] at hphase
  simp only [CoordPoint.laps] at hphase
  have hspawned := hl.started (by rw [hc]; trivial)
  obtain ⟨q, hout, _⟩ := hs.endB.exists_outside (hb.endB hs)
  cases q with
  | none =>
    rw [hpolls] at hout
    cases hout
  | some i =>
    obtain hpt | ⟨hpt, _⟩ | ⟨_, h, _⟩ | ⟨_, h, _⟩ | ⟨_, _, _, hin⟩ := hb.workerPhase hs i
    . exact hl.born i (by omega) hpt
    . have hstop := hs.stop i ((hs.worker i).left hpt)
      rw [hc] at hstop
      exact hstop
    . omega
    . omega
    . exact hin hout

theorem not_readyWait (hb : Blocked s) (hl : Live s) : s.coord ≠ .readyWait := by
  intro hc
  have hidle := hb.coord
  unfold CoordIdle at hidle
  simp only [hc] at hidle
  rw [hl.ready] at hidle
  obtain ⟨i, hi⟩ := Finset.card_pos.mp (Nat.pos_of_ne_zero hidle)
  have hunready : (s.worker i).point.Unready := (Finset.mem_filter.mp hi).2
  have hspawned := hl.started (by rw [hc]; trivial)
  obtain hpt | hpt | ⟨hpt, _⟩ | ⟨hpt, _⟩ | ⟨hpt, _⟩ := hb.workerPoint i
  . exact hl.born i (by omega) hpt
  all_goals
    rw [hpt] at hunready
    exact hunready

end Blocked

theorem Live.not_deadlocked (hl : Live s) (hs : Inv s) : ¬s.Deadlocked := by
  rintro ⟨hwaits, hsteps⟩
  have hb := blocked_of_not_steps hsteps
  have hcoord := hb.coord
  have hnobody : (∀ i, ¬(s.worker i).point.Waits) → s.coord.Waits :=
    fun h => hwaits.resolve_left fun ⟨i, hi⟩ => h i hi
  unfold CoordIdle at hcoord
  cases hc : s.coord
  all_goals simp only [hc] at hcoord
  case readyWait => exact hb.not_readyWait hl hc
  case startBarrier => exact hb.not_startBarrier hs hl (.inl hc)
  case stopBarrier => exact hb.not_startBarrier hs hl (.inr hc)
  case endBarrier => exact hb.not_endBarrier hs hl hc
  case join j =>
    have hleft := hb.left hs hl (by rw [hc]; trivial) (by rw [hc]; rfl) (by simp [hc, CoordPoint.AtBarrier])
    obtain ⟨hj, _, hne⟩ := hcoord
    exact hne (hleft ⟨j, hj⟩)
  case stopped =>
    have hleft := hb.left hs hl (by rw [hc]; trivial) (by rw [hc]; rfl) (by simp [hc, CoordPoint.AtBarrier])
    have := hnobody fun i hi => by
      rw [hleft i] at hi
      exact hi
    rw [hc] at this
    exact this
  case empty =>
    have hunborn := fun i => hs.unborn i (by rw [hl.empty hc]; exact Nat.zero_le _)
    have := hnobody fun i hi => by
      rw [hunborn i] at hi
      exact hi
    rw [hc] at this
    exact this

theorem along_inv {schedule : List (SessionAction n)} (hs : Inv s) (hl : Live s)
    (hok : Trans.Along step StartsWhole s schedule)
    : Inv (s.run schedule) ∧ Live (s.run schedule) := by
  apply Trans.invariant_of_along (I := fun s => Inv s ∧ Live s) _ ⟨hs, hl⟩ schedule hok
  exact fun s a s' hi hok h => ⟨hi.1.step h, hi.2.step hi.1 hok h⟩

/--
In every interleaving in which `start` creates all threads, or fails at the first, there is always
somebody who can take a step as long as some thread waits.
-/
theorem never_deadlocked (n : Nat) (park histogram : Bool) (trialLen : Nat) (assignedCpu : Fin n → Int)
    (schedule : List (SessionAction n))
    (hok : Trans.Along step StartsWhole (init n park histogram trialLen assignedCpu) schedule)
    : ¬((init n park histogram trialLen assignedCpu).run schedule).Deadlocked := by
  obtain ⟨hs, hl⟩ := along_inv (init_inv _ _ _ _ _) (init_live _ _ _ _ _) hok
  exact hl.not_deadlocked hs

theorem never_deadlocked_two
    : ¬((init 2 true true 5 fun _ => -1).run
        [.coord .next, .coord .next, .coord .next, .worker 0 ⟨true, 0, none, 0⟩]).Deadlocked :=
  never_deadlocked 2 true true 5 _ _
    ⟨fun _ => trivial, fun _ => trivial, fun _ => trivial, fun _ => trivial, trivial⟩

/--
The first of two threads exists when the second cannot be created. `stop` asks it to stop and waits for
it at a barrier of three.
-/
def failedSecond : Session 2 :=
  (init 2 false false 5 fun _ => -1).run <|
    [.coord .next, .coord .stop] ++ List.replicate 5 (.coord .next)
      ++ List.replicate 10 (.worker 0 ⟨false, 0, none, 0⟩)

theorem failedSecond_deadlocked : failedSecond.Deadlocked := by
  have hfirst : (failedSecond.worker 0).point = .startBarrier := by decide +kernel
  have hsecond : (failedSecond.worker 1).point = .unborn := by decide +kernel
  have hcoord : failedSecond.coord = .stopBarrier := by decide +kernel
  refine ⟨.inl ⟨0, by rw [hfirst]; trivial⟩, Blocked.not_steps ⟨?_, ?_⟩⟩
  . intro i
    unfold WorkerIdle
    match i with
    | 0 =>
      rw [hfirst]
      exact (by decide +kernel : failedSecond.startB.point (some 0) = .waiting failedSecond.startB.generation)
    | 1 =>
      rw [hsecond]
      trivial
  . unfold CoordIdle
    rw [hcoord]
    exact (by decide +kernel : failedSecond.startB.point none = .waiting failedSecond.startB.generation)

/--
`stop` after a failure of `start` between two threads.
-/
structure Abandoned (s : Session n) : Prop where
  spawned : s.spawned < n
  coord : (∃ j, s.coord = .requestStop j) ∨ s.coord = .stopGate ∨ s.coord = .stopBarrier

theorem Inv.phase_of_unborn (hs : Inv s) (h : (s.worker i).point = .unborn) : s.startB.phase = 0 := by
  have hw := hs.worker i
  have hf := hw.facts
  have hlaps : s.startB.returns (some i) = s.endB.returns (some i) + (s.worker i).point.laps := hw.laps
  have hproduced : (s.worker i).produced.length
      = s.endB.returns (some i) + if (s.worker i).point = .endBarrier then 1 else 0 :=
    hw.produced
  simp only [Worker.Facts, h] at hf
  rw [hf.1, h, if_neg (by simp), List.length_nil] at hproduced
  rw [(hs.startB.outside (hw.startPoint (by simp [h]))).2.1, h] at hlaps
  simp only [WorkerPoint.laps] at hlaps
  omega

theorem Abandoned.step {a : SessionAction n} {s' : Session n} (ha : Abandoned s) (hs : Inv s)
    (h : s.step a = some s')
    : Abandoned s' := by
  cases a with
  | tick d =>
    simp only [Session.step] at h
    split at h
    . rw [← Option.some.inj h]
      exact ⟨ha.spawned, ha.coord⟩
    . cases h
  | worker i o =>
    have hsame := sameCoord_of_stepWorker h
    exact ⟨hsame.spawned ▸ ha.spawned, hsame.coord ▸ ha.coord⟩
  | coord c =>
    simp only [Session.step] at h
    obtain ⟨j, hc⟩ | hc | hc := ha.coord
    all_goals simp only [Session.stepCoord, hc] at h
    . split at h
      all_goals rw [← Option.some.inj h]
      . exact ⟨ha.spawned, .inl ⟨_, rfl⟩⟩
      . exact ⟨ha.spawned, .inr (.inl rfl)⟩
    . rw [← Option.some.inj h]
      exact ⟨ha.spawned, .inr (.inr rfl)⟩
    . have hphase := hs.phase_of_unborn (hs.unborn ⟨s.spawned, ha.spawned⟩ (Nat.le_refl _))
      have hret : ¬s.startB.returning none := by
        intro hret
        have hstep := (hs.startB.step none).returns_le none
        rw [(SpinBarrier.step_of_returning hret).2, SpinBarrier.step_phase_of_returning hret] at hstep
        omega
      rw [if_neg hret] at h
      rw [← Option.some.inj h]
      exact ⟨ha.spawned, .inr (.inr hc)⟩

theorem Abandoned.run (ha : Abandoned s) (hs : Inv s) (schedule : List (SessionAction n))
    : Abandoned (s.run schedule) :=
  (Trans.invariant (I := fun s => Inv s ∧ Abandoned s)
    (fun _ _ _ hi h => ⟨hi.1.step h, hi.2.step hi.1 h⟩) ⟨hs, ha⟩ schedule).2

end Session

end Bench
