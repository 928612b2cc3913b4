import BenchPlatform.Engine.Session.Worker

/-!
This module contains what it means that the threads of a `ConfigSession` wait for each other: which
thread has a step to take, and that none has one exactly if all are blocked.
-/

namespace Bench

namespace WorkerPoint

/--
At the gate or in a call of `arrive_and_wait`.
-/
def Waits : WorkerPoint → Prop
  | .gateWait | .startBarrier | .endBarrier => True
  | _ => False

end WorkerPoint

namespace CoordPoint

/--
At the latch, in a call of `arrive_and_wait` or in the destructor of a thread.
-/
def Waits : CoordPoint → Prop
  | .readyWait | .startBarrier | .endBarrier | .stopBarrier | .join _ => True
  | _ => False

end CoordPoint

namespace Session

variable {n : Nat}

/--
Some thread can take a step. A poll that fails leaves everything as it is and is none.
-/
def Steps (s : Session n) : Prop :=
  (∃ i o s', s.stepWorker i o = some s' ∧ s' ≠ s) ∨ ∃ c s', s.stepCoord c = some s' ∧ s' ≠ s

def Deadlocked (s : Session n) : Prop :=
  ((∃ i, (s.worker i).point.Waits) ∨ s.coord.Waits) ∧ ¬s.Steps

/--
The thread of worker `i` has no step to take.
-/
def WorkerIdle (s : Session n) (i : Fin n) : Prop :=
  match (s.worker i).point with
  | .unborn | .left => True
  | .gateWait => s.park ∧ s.gate = (s.worker i).gateSeen
  | .startBarrier => s.startB.Polls (some i)
  | .endBarrier => s.endB.Polls (some i)
  | _ => False

def CoordIdle (s : Session n) : Prop :=
  match s.coord with
  | .readyWait => s.ready ≠ 0
  | .startBarrier | .stopBarrier => s.startB.Polls none
  | .endBarrier => s.endB.Polls none
  | .join j => ∃ h : j < n, j < s.spawned ∧ (s.worker ⟨j, h⟩).point ≠ .left
  | .stopped | .empty => True
  | _ => False

variable {s : Session n} {i : Fin n}

theorem ne_of_point_ne {s' : Session n} (h : (s'.worker i).point ≠ (s.worker i).point) : s' ≠ s := by
  rintro rfl
  exact h rfl

theorem exists_step_of_not_idle (hidle : ¬s.WorkerIdle i)
    (hpoint : (s.worker i).point ∉ [.setup, .countDown, .startBarrier, .endBarrier])
    : ∃ o w', (s.worker i).step s i o = some w' ∧ w'.point ≠ (s.worker i).point := by
  refine ⟨⟨false, 0, none, 0⟩, ?_⟩
  unfold WorkerIdle at hidle
  cases hpt : (s.worker i).point
  case gateWait =>
    simp only [hpt, not_and] at hidle
    unfold Worker.step
    cases hpark : s.park <;> cases hok : (s.worker i).ok <;> simp_all
  all_goals simp_all [Worker.step]
  all_goals split <;> simp

theorem steps_of_not_workerIdle (hidle : ¬s.WorkerIdle i) : s.Steps := by
  left
  refine ⟨i, ?_⟩
  by_cases hpoint : (s.worker i).point ∈ [.setup, .countDown, .startBarrier, .endBarrier]
  . simp only [List.mem_cons, List.not_mem_nil, or_false] at hpoint
    unfold WorkerIdle at hidle
    obtain hpt | hpt | hpt | hpt := hpoint
    all_goals simp only [hpt] at hidle
    . refine ⟨⟨false, 0, none, 0⟩, _, by simp only [stepWorker, hpt]; rfl, ne_of_point_ne (i := i) ?_⟩
      simp [setWorker, hpt]
    . refine ⟨⟨false, 0, none, 0⟩, _, by simp only [stepWorker, hpt]; rfl, ne_of_point_ne (i := i) ?_⟩
      simp [setWorker, hpt]
    . have hne := SpinBarrier.step_ne_of_not_polls hidle
      by_cases hret : s.startB.returning (some i)
      . refine ⟨⟨false, 0, none, 0⟩, _, by simp only [stepWorker, hpt, if_pos hret]; rfl, ?_⟩
        exact fun hsame => hne (congrArg Session.startB hsame)
      . refine ⟨⟨false, 0, none, 0⟩, _, by simp only [stepWorker, hpt, if_neg hret]; rfl, ?_⟩
        exact fun hsame => hne (congrArg Session.startB hsame)
    . have hne := SpinBarrier.step_ne_of_not_polls hidle
      by_cases hret : s.endB.returning (some i)
      . refine ⟨⟨false, 0, none, 0⟩, _, by simp only [stepWorker, hpt, if_pos hret]; rfl, ?_⟩
        exact fun hsame => hne (congrArg Session.endB hsame)
      . refine ⟨⟨false, 0, none, 0⟩, _, by simp only [stepWorker, hpt, if_neg hret]; rfl, ?_⟩
        exact fun hsame => hne (congrArg Session.endB hsame)
  . obtain ⟨o, w', hstep, hne⟩ := exists_step_of_not_idle hidle hpoint
    refine ⟨o, s.setWorker i w', ?_, ne_of_point_ne (i := i) (by rwa [setWorker_self])⟩
    simp only [List.mem_cons, List.not_mem_nil, or_false, not_or] at hpoint
    obtain ⟨h1, h2, h3, h4⟩ := hpoint
    unfold stepWorker
    dsimp only
    split
    . contradiction
    . contradiction
    . contradiction
    . contradiction
    . rw [hstep]
      rfl

theorem steps_of_not_coordIdle (hidle : ¬s.CoordIdle) : s.Steps := by
  right
  refine ⟨.next, ?_⟩
  have hcoord : ∀ {s' : Session n}, s'.coord ≠ s.coord → s' ≠ s := by
    rintro s' h rfl
    exact h rfl
  unfold CoordIdle at hidle
  cases hc : s.coord
  all_goals simp only [hc] at hidle
  case spawn =>
    by_cases hk : s.spawned < n
    . refine ⟨_, by simp only [stepCoord, hc, dif_pos hk]; rfl, ?_⟩
      intro hsame
      have := congrArg Session.spawned hsame
      exact absurd this (Nat.succ_ne_self _)
    . exact ⟨_, by simp only [stepCoord, hc, dif_neg hk]; rfl, hcoord (by simp [hc])⟩
  case readyWait =>
    exact ⟨_, by simp only [stepCoord, hc, if_pos (not_not.mp hidle)]; rfl, hcoord (by simp [hc])⟩
  case checkFailure =>
    refine ⟨_, by simp only [stepCoord, hc]; rfl, hcoord ?_⟩
    unfold beginStop
    split <;> (try split) <;> simp [hc]
  case idle => exact ⟨_, by simp only [stepCoord, hc]; rfl, hcoord (by simp [hc])⟩
  case openGate => exact ⟨_, by simp only [stepCoord, hc]; rfl, hcoord (by simp [hc])⟩
  case startBarrier =>
    have hne := SpinBarrier.step_ne_of_not_polls hidle
    by_cases hret : s.startB.returning none
    . exact ⟨_, by simp only [stepCoord, hc, if_pos hret]; rfl, fun hs => hne (congrArg Session.startB hs)⟩
    . exact ⟨_, by simp only [stepCoord, hc, if_neg hret]; rfl, fun hs => hne (congrArg Session.startB hs)⟩
  case stopBarrier =>
    have hne := SpinBarrier.step_ne_of_not_polls hidle
    by_cases hret : s.startB.returning none
    . exact ⟨_, by simp only [stepCoord, hc, if_pos hret]; rfl, fun hs => hne (congrArg Session.startB hs)⟩
    . exact ⟨_, by simp only [stepCoord, hc, if_neg hret]; rfl, fun hs => hne (congrArg Session.startB hs)⟩
  case endBarrier =>
    have hne := SpinBarrier.step_ne_of_not_polls hidle
    by_cases hret : s.endB.returning none
    . exact ⟨_, by simp only [stepCoord, hc, if_pos hret]; rfl, fun hs => hne (congrArg Session.endB hs)⟩
    . exact ⟨_, by simp only [stepCoord, hc, if_neg hret]; rfl, fun hs => hne (congrArg Session.endB hs)⟩
  case readSlots j =>
    by_cases hj : j < n
    . exact ⟨_, by simp only [stepCoord, hc, dif_pos hj]; rfl, hcoord (by simp [hc])⟩
    . exact ⟨_, by simp only [stepCoord, hc, dif_neg hj]; rfl, hcoord (by simp [hc])⟩
  case mergeLatencies => exact ⟨_, by simp only [stepCoord, hc]; rfl, hcoord (by simp [hc])⟩
  case requestStop j =>
    by_cases hj : j < n ∧ j < s.spawned
    . exact ⟨_, by simp only [stepCoord, hc, dif_pos hj]; rfl, hcoord (by simp [hc])⟩
    . exact ⟨_, by simp only [stepCoord, hc, dif_neg hj]; rfl, hcoord (by simp [hc])⟩
  case stopGate => exact ⟨_, by simp only [stepCoord, hc]; rfl, hcoord (by simp [hc])⟩
  case join j =>
    by_cases hj : j < n ∧ j < s.spawned
    . have hleft : (s.worker ⟨j, hj.1⟩).point = .left := by
        by_contra hne
        exact hidle ⟨hj.1, hj.2, hne⟩
      exact ⟨_, by simp only [stepCoord, hc, dif_pos hj, if_pos hleft]; rfl, hcoord (by simp [hc])⟩
    . exact ⟨_, by simp only [stepCoord, hc, dif_neg hj]; rfl, hcoord (by simp [hc])⟩
  case stopped => exact absurd trivial hidle
  case empty => exact absurd trivial hidle

theorem stepStart_of_polls {p : Option (Fin n)} (h : s.startB.Polls p)
    : ¬s.startB.returning p ∧ s.stepStart p = s := by
  have hpoint : s.startB.point p = .waiting s.startB.generation := h
  constructor
  . simp [SpinBarrier.returning, hpoint]
  . simp [stepStart, SpinBarrier.step_waiting_poll hpoint rfl, SpinBarrier.stamping, hpoint]

theorem stepEnd_of_polls {p : Option (Fin n)} (h : s.endB.Polls p)
    : ¬s.endB.returning p ∧ s.stepEnd p = s := by
  have hpoint : s.endB.point p = .waiting s.endB.generation := h
  constructor
  . simp [SpinBarrier.returning, hpoint]
  . simp [stepEnd, SpinBarrier.step_waiting_poll hpoint rfl, SpinBarrier.stamping, hpoint]

structure Blocked (s : Session n) : Prop where
  worker : ∀ i, s.WorkerIdle i
  coord : s.CoordIdle

theorem blocked_of_not_steps (h : ¬s.Steps) : Blocked s where
  worker := fun _ => not_not.mp fun hidle => h (steps_of_not_workerIdle hidle)
  coord := not_not.mp fun hidle => h (steps_of_not_coordIdle hidle)

namespace Blocked

theorem stepWorker (hb : Blocked s) {o : Outcome} {s' : Session n} (h : s.stepWorker i o = some s')
    : s' = s := by
  have hidle := hb.worker i
  unfold WorkerIdle at hidle
  cases hpt : (s.worker i).point
  all_goals simp only [hpt] at hidle
  all_goals simp only [Session.stepWorker, hpt, Worker.step, Option.map_none, reduceCtorEq] at h
  case gateWait =>
    rw [if_pos hidle.1, if_pos hidle.2] at h
    cases h
  case startBarrier =>
    obtain ⟨hret, hsame⟩ := stepStart_of_polls hidle
    rw [if_neg hret, hsame] at h
    exact (Option.some.inj h).symm
  case endBarrier =>
    obtain ⟨hret, hsame⟩ := stepEnd_of_polls hidle
    rw [if_neg hret, hsame] at h
    exact (Option.some.inj h).symm

theorem stepCoord (hb : Blocked s) {c : Choice n} {s' : Session n} (h : s.stepCoord c = some s')
    : s' = s := by
  have hidle := hb.coord
  unfold CoordIdle at hidle
  cases hc : s.coord
  all_goals simp only [hc] at hidle
  all_goals simp only [Session.stepCoord, hc, reduceCtorEq] at h
  case readyWait =>
    rw [if_neg hidle] at h
    cases h
  case startBarrier | stopBarrier =>
    obtain ⟨hret, hsame⟩ := stepStart_of_polls hidle
    rw [if_neg hret, hsame] at h
    exact (Option.some.inj h).symm
  case endBarrier =>
    obtain ⟨hret, hsame⟩ := stepEnd_of_polls hidle
    rw [if_neg hret, hsame] at h
    exact (Option.some.inj h).symm
  case join j =>
    obtain ⟨hj, hspawned, hne⟩ := hidle
    rw [dif_pos ⟨hj, hspawned⟩, if_neg hne] at h
    cases h

theorem not_steps (hb : Blocked s) : ¬s.Steps := by
  rintro (⟨i, o, s', h, hne⟩ | ⟨c, s', h, hne⟩)
  . exact hne (hb.stepWorker h)
  . exact hne (hb.stepCoord h)

end Blocked

end Session

end Bench
