import BenchPlatform.Engine.Session.Safety

/-!
This module contains the invariant behind the shutdown of a `ConfigSession`: how far the latch, the gate
and the stop requests have got where the threads are. It is kept unless `start` fails between two
threads.
-/

namespace Bench

namespace WorkerPoint

/--
Before `ready.count_down()`.
-/
def Unready : WorkerPoint → Prop
  | .unborn | .pin | .setup | .countDown => True
  | _ => False

instance (pt : WorkerPoint) : Decidable pt.Unready := by
  cases pt <;> unfold Unready <;> infer_instance

/--
How many openings of the gate a worker has passed since it was last at the end barrier.
-/
def passed : WorkerPoint → Nat
  | .unborn | .pin | .setup | .countDown | .gateWait => 0
  | _ => 1

def Measuring : WorkerPoint → Prop
  | .slotColdNs | .slotPreNs | .slotCpuStart | .t0 | .runBatch | .now | .slotStart | .slotEnd
  | .slotOps | .slotBatches | .slotHist | .slotHistUsed | .slotCpuEnd => True
  | _ => False

end WorkerPoint

namespace CoordPoint

def opened : CoordPoint → Nat
  | .startBarrier | .endBarrier | .stopBarrier | .join _ | .stopped => 1
  | _ => 0

/--
`start` has created all threads.
-/
def Started : CoordPoint → Prop
  | .spawn | .empty => False
  | _ => True

def Requested : CoordPoint → Prop
  | .stopGate | .stopBarrier | .join _ | .stopped => True
  | _ => False

theorem stopping_of_requested {pt : CoordPoint} (h : pt.Requested) : pt.Stopping := by
  cases pt <;> simp_all [Requested, Stopping]

end CoordPoint

namespace Session

variable {n : Nat} {s : Session n} {i : Fin n}

/--
The workers that `ready_` waits for.
-/
def unready (s : Session n) : Finset (Fin n) :=
  Finset.univ.filter fun i => (s.worker i).point.Unready

/--
What a session keeps as long as `start` does not fail between two threads.
-/
structure Live (s : Session n) : Prop where
  ready : s.ready = s.unready.card
  spawned : s.spawned ≤ n
  started : s.coord.Started → s.spawned = n
  empty : s.coord = .empty → s.spawned = 0
  born : ∀ i, i.val < s.spawned → (s.worker i).point ≠ .unborn
  gate : s.park → s.gate = BitVec.ofNat 64 (s.trials + s.coord.opened)
  seen : s.park → ∀ i, (s.worker i).gateSeen
    = BitVec.ofNat 64 (s.endB.returns (some i) + (s.worker i).point.passed)
  requesting : ∀ j, s.coord = .requestStop j → ∀ i, i.val < j → s.stop i
  requested : s.coord.Requested → ∀ i, s.stop i
  halted : s.coord.Stopping → ∀ i, ¬(s.worker i).point.Measuring
    ∧ ((s.worker i).point = .endBarrier → s.endB.returns (some i) < s.endB.phase)

theorem init_live (n : Nat) (park histogram : Bool) (trialLen : Nat) (assignedCpu : Fin n → Int)
    : Live (init n park histogram trialLen assignedCpu) := by
  constructor
  case ready =>
    have hall : (init n park histogram trialLen assignedCpu).unready = Finset.univ :=
      Finset.filter_true_of_mem fun _ _ => trivial
    rw [hall, Finset.card_univ, Fintype.card_fin]
    rfl
  case seen => exact fun _ _ => rfl
  all_goals simp [init, CoordPoint.Started, CoordPoint.opened, CoordPoint.Requested, CoordPoint.Stopping]

theorem unready_of_same {s' : Session n} {w' : Worker}
    (hs' : s'.worker = Function.update s.worker i w')
    (h : w'.point.Unready ↔ (s.worker i).point.Unready)
    : s'.unready = s.unready := by
  unfold unready
  apply Finset.filter_congr
  intro j _
  rw [hs']
  by_cases hj : j = i
  . subst hj
    rw [Function.update_self]
    exact h
  . rw [Function.update_of_ne hj]

theorem unready_erase {s' : Session n} {w' : Worker}
    (hs' : s'.worker = Function.update s.worker i w') (h : ¬w'.point.Unready)
    : s'.unready = s.unready.erase i := by
  ext j
  simp only [unready, Finset.mem_filter, Finset.mem_univ, true_and, Finset.mem_erase]
  rw [hs']
  by_cases hj : j = i
  . subst hj
    rw [Function.update_self]
    exact iff_of_false h fun h => h.1 rfl
  . rw [Function.update_of_ne hj]
    exact (and_iff_right hj).symm

theorem step_live {w w' : Worker} {o : Outcome} (h : w.step s i o = some w')
    : w'.point ≠ .unborn ∧ (w'.point.Unready ↔ w.point.Unready)
      ∧ (w'.point.Measuring ∨ w'.point = .endBarrier →
        w.point.Measuring ∨ w.point = .stopRequested ∧ s.stop i = false)
      ∧ ∀ k, s.park → w.gateSeen = BitVec.ofNat 64 (k + w.point.passed) →
        w'.gateSeen = BitVec.ofNat 64 (k + w'.point.passed) := by
  cases hp : w.point
  all_goals simp only [Worker.step, hp, reduceCtorEq] at h
  case gateWait =>
    cases hpark : s.park <;> cases hok : w.ok
    all_goals simp only [hpark, hok, Bool.false_eq_true, if_false, if_true] at h
    all_goals (try split at h) <;> cases h
    all_goals simp [WorkerPoint.Unready, WorkerPoint.Measuring, WorkerPoint.passed]
    all_goals
      intro k hseen
      rw [hseen, BitVec.ofNat_add]
  case stopRequested =>
    cases hstop : s.stop i
    all_goals simp only [hstop] at h
    all_goals cases h
    all_goals simp [WorkerPoint.Unready, WorkerPoint.Measuring, WorkerPoint.passed]
  all_goals (repeat' split at h) <;> cases h
  all_goals simp_all [WorkerPoint.Unready, WorkerPoint.Measuring, WorkerPoint.passed]

theorem Inv.halted (hs : Inv s) (hoff : ¬s.coord.AtBarrier) (hlaps : s.coord.laps = 0) (i : Fin n)
    : ¬(s.worker i).point.Measuring
      ∧ ((s.worker i).point = .endBarrier → s.endB.returns (some i) < s.endB.phase) := by
  have hw := hs.worker i
  have hstart : s.startB.point none = .outside := by
    apply hs.startPoint <;> (intro hc; simp [hc, CoordPoint.AtBarrier] at hoff)
  have hend : s.endB.point none = .outside := by
    apply hs.endPoint
    intro hc
    simp [hc, CoordPoint.AtBarrier] at hoff
  have hphase := hs.laps
  rw [(hs.startB.outside hstart).2.1, (hs.endB.outside hend).2.1, hlaps] at hphase
  have hwlaps : s.startB.returns (some i) = s.endB.returns (some i) + (s.worker i).point.laps :=
    hw.laps
  constructor
  . intro hm
    have hne : (s.worker i).point ≠ .startBarrier ∧ (s.worker i).point ≠ .endBarrier
        ∧ (s.worker i).point.laps = 1 := by
      cases hpt : (s.worker i).point <;> simp [hpt, WorkerPoint.Measuring, WorkerPoint.laps] at hm ⊢
    rw [(hs.startB.outside (hw.startPoint hne.1)).2.1, (hs.endB.outside (hw.endPoint hne.2.1)).2.1,
      hne.2.2] at hwlaps
    omega
  . intro hpt
    have hne : (s.worker i).point ≠ .startBarrier := by simp [hpt]
    rw [(hs.startB.outside (hw.startPoint hne)).2.1, hpt] at hwlaps
    simp only [WorkerPoint.laps] at hwlaps
    omega

theorem Live.stop_of_stopRequested (hl : Live s) (hs : Inv s) (hstopping : s.coord.Stopping)
    (hpt : (s.worker i).point = .stopRequested)
    : s.stop i := by
  by_cases hreq : s.coord.Requested
  . exact hl.requested hreq i
  . exfalso
    have hw := hs.worker i
    have hoff : ¬s.coord.AtBarrier ∧ s.coord.laps = 0 := by
      cases hc : s.coord
      all_goals simp [hc, CoordPoint.Stopping, CoordPoint.Requested] at hstopping hreq
      all_goals simp [CoordPoint.AtBarrier, CoordPoint.laps]
    have hstart : s.startB.point none = .outside := by
      apply hs.startPoint <;> (intro hc; simp [hc, CoordPoint.AtBarrier] at hoff)
    have hend : s.endB.point none = .outside := by
      apply hs.endPoint
      intro hc
      simp [hc, CoordPoint.AtBarrier] at hoff
    have hphase := hs.laps
    rw [(hs.startB.outside hstart).2.1, (hs.endB.outside hend).2.1, hoff.2] at hphase
    have hwlaps : s.startB.returns (some i) = s.endB.returns (some i) + (s.worker i).point.laps :=
      hw.laps
    rw [(hs.startB.outside (hw.startPoint (by simp [hpt]))).2.1,
      (hs.endB.outside (hw.endPoint (by simp [hpt]))).2.1, hpt] at hwlaps
    simp only [WorkerPoint.laps] at hwlaps
    omega

structure SameCoord (s s' : Session n) : Prop where
  park : s'.park = s.park
  gate : s'.gate = s.gate
  stop : s'.stop = s.stop
  spawned : s'.spawned = s.spawned
  coord : s'.coord = s.coord
  trials : s'.trials = s.trials

theorem sameCoord_of_stepWorker {s' : Session n} {o : Outcome} (h : s.stepWorker i o = some s')
    : SameCoord s s' := by
  cases hpt : (s.worker i).point
  all_goals simp only [Session.stepWorker, hpt] at h
  case startBarrier | endBarrier =>
    split at h
    all_goals
      injection h with h
      subst h
      exact ⟨rfl, rfl, rfl, rfl, rfl, rfl⟩
  case setup | countDown =>
    injection h with h
    subst h
    exact ⟨rfl, rfl, rfl, rfl, rfl, rfl⟩
  all_goals
    obtain ⟨_, _, rfl⟩ := Option.map_eq_some_iff.mp h
    exact ⟨rfl, rfl, rfl, rfl, rfl, rfl⟩

namespace Live

variable {s' : Session n} {w' : Worker} {o : Outcome}

theorem update (hl : Live s) (hworker : s'.worker = Function.update s.worker i w')
    (hsame : SameCoord s s') (hready : s'.ready = s'.unready.card) (hborn : w'.point ≠ .unborn)
    (hreturns : ∀ j, j ≠ i → s'.endB.returns (some j) = s.endB.returns (some j))
    (hphase : s.endB.phase ≤ s'.endB.phase)
    (hseen : s.park →
      w'.gateSeen = BitVec.ofNat 64 (s'.endB.returns (some i) + w'.point.passed))
    (hhalted : s.coord.Stopping → ¬w'.point.Measuring
      ∧ (w'.point = .endBarrier → s'.endB.returns (some i) < s'.endB.phase))
    : Live s' where
  ready := hready
  spawned := by
    rw [hsame.spawned]
    exact hl.spawned
  started := by
    rw [hsame.coord, hsame.spawned]
    exact hl.started
  empty := by
    rw [hsame.coord, hsame.spawned]
    exact hl.empty
  born := by
    intro j hj
    rw [hsame.spawned] at hj
    rw [hworker]
    by_cases hji : j = i
    . rw [hji, Function.update_self]
      exact hborn
    . rw [Function.update_of_ne hji]
      exact hl.born j hj
  gate := by
    rw [hsame.park, hsame.gate, hsame.trials, hsame.coord]
    exact hl.gate
  seen := by
    intro hpark j
    rw [hsame.park] at hpark
    rw [hworker]
    by_cases hji : j = i
    . rw [hji, Function.update_self]
      exact hseen hpark
    . rw [Function.update_of_ne hji, hreturns j hji]
      exact hl.seen hpark j
  requesting := by
    rw [hsame.coord, hsame.stop]
    exact hl.requesting
  requested := by
    rw [hsame.coord, hsame.stop]
    exact hl.requested
  halted := by
    intro hstopping j
    rw [hsame.coord] at hstopping
    rw [hworker]
    by_cases hji : j = i
    . rw [hji, Function.update_self]
      exact hhalted hstopping
    . rw [Function.update_of_ne hji, hreturns j hji]
      obtain ⟨hm, hend⟩ := hl.halted hstopping j
      exact ⟨hm, fun h => Nat.lt_of_lt_of_le (hend h) hphase⟩

theorem poll (hl : Live s) (hworker : s'.worker = s.worker) (hsame : SameCoord s s')
    (hready : s'.ready = s.ready) (hreturns : s'.endB.returns = s.endB.returns)
    (hphase : s.endB.phase ≤ s'.endB.phase) (hborn : (s.worker i).point ≠ .unborn)
    : Live s' := by
  have hworker' : s'.worker = Function.update s.worker i (s.worker i) := by
    rw [hworker, Function.update_eq_self]
  apply hl.update hworker' hsame
  . rw [hready, hl.ready, unready_of_same hworker' Iff.rfl]
  . exact hborn
  . exact fun j _ => by rw [hreturns]
  . exact hphase
  . rw [hreturns]
    exact fun hpark => hl.seen hpark i
  . intro hstopping
    obtain ⟨hm, hend⟩ := hl.halted hstopping i
    rw [hreturns]
    exact ⟨hm, fun h => Nat.lt_of_lt_of_le (hend h) hphase⟩

theorem stepWorker (hl : Live s) (hs : Inv s) (h : s.stepWorker i o = some s') : Live s' := by
  have hseen : s.park → _ := fun hpark => hl.seen hpark i
  have hsame := sameCoord_of_stepWorker h
  cases hpt : (s.worker i).point
  all_goals simp only [Session.stepWorker, hpt] at h
  case setup =>
    injection h with h
    subst h
    refine hl.update (i := i) rfl hsame ?_ ?_ ?_ ?_ ?_ ?_
    . exact hl.ready.trans (congrArg Finset.card (unready_of_same rfl (by simp [hpt, WorkerPoint.Unready])).symm)
    . simp
    . exact fun _ _ => rfl
    . exact Nat.le_refl _
    . rw [hpt] at hseen
      exact hseen
    . exact fun _ => ⟨id, by simp⟩
  case countDown =>
    injection h with h
    subst h
    refine hl.update (i := i) rfl hsame ?_ ?_ ?_ ?_ ?_ ?_
    . have hmem : i ∈ s.unready := by
        unfold unready
        rw [Finset.mem_filter, hpt]
        exact ⟨Finset.mem_univ i, trivial⟩
      refine Eq.trans ?_ (congrArg Finset.card (unready_erase (i := i) rfl id).symm)
      rw [Finset.card_erase_of_mem hmem, ← hl.ready]
    . simp
    . exact fun _ _ => rfl
    . exact Nat.le_refl _
    . rw [hpt] at hseen
      exact hseen
    . exact fun _ => ⟨id, by simp⟩
  case startBarrier =>
    split at h
    all_goals
      injection h with h
      subst h
    . refine hl.update (i := i) rfl hsame ?_ ?_ ?_ ?_ ?_ ?_
      . exact hl.ready.trans (congrArg Finset.card (unready_of_same rfl (by simp [hpt, WorkerPoint.Unready])).symm)
      . simp
      . exact fun _ _ => rfl
      . exact Nat.le_refl _
      . rw [hpt] at hseen
        exact hseen
      . exact fun _ => ⟨id, by simp⟩
    . exact hl.poll rfl hsame rfl rfl (Nat.le_refl _) (i := i) (by simp [hpt])
  case endBarrier =>
    split at h
    all_goals
      rename_i hret
      injection h with h
      subst h
    . refine hl.update (i := i) rfl hsame ?_ ?_ ?_ ?_ ?_ ?_
      . exact hl.ready.trans (congrArg Finset.card (unready_of_same rfl (by simp [hpt, WorkerPoint.Unready])).symm)
      . simp
      . exact fun j hj => SpinBarrier.step_returns_of_ne (by simpa using hj)
      . exact SpinBarrier.phase_le_step
      . intro hpark
        have hreturns := (SpinBarrier.step_of_returning hret).2
        rw [hpt] at hseen
        exact (hseen hpark).trans (by simp [hreturns, WorkerPoint.passed, setWorker, stepEnd])
      . exact fun _ => ⟨id, by simp⟩
    . exact hl.poll rfl hsame rfl
        (SpinBarrier.step_returns_of_not_returning hret) SpinBarrier.phase_le_step (i := i) (by simp [hpt])
  all_goals
    obtain ⟨w', hstep, hs'⟩ := Option.map_eq_some_iff.mp h
    subst hs'
    obtain ⟨hborn, hunready, hmeasuring, hpassed⟩ := step_live hstep
    refine hl.update (i := i) rfl hsame ?_ ?_ ?_ ?_ ?_ ?_
    . exact hl.ready.trans (congrArg Finset.card (unready_of_same rfl hunready).symm)
    . exact hborn
    . exact fun _ _ => rfl
    . exact Nat.le_refl _
    . exact fun hpark => hpassed _ hpark (hseen hpark)
    . intro hstopping
      have hnot : ¬((s.worker i).point.Measuring ∨ (s.worker i).point = .stopRequested ∧ s.stop i = false) := by
        rintro (hm | ⟨hreq, hstop⟩)
        . exact (hl.halted hstopping i).1 hm
        . have := hl.stop_of_stopRequested hs hstopping hreq
          rw [hstop] at this
          cases this
      exact ⟨fun hm => hnot (hmeasuring (.inl hm)), fun hend => absurd (hmeasuring (.inr hend)) hnot⟩

theorem move (hl : Live s) (hworker : s'.worker = s.worker) (hready : s'.ready = s.ready)
    (hpark : s'.park = s.park) (hspawned : s'.spawned = s.spawned)
    (hreturns : ∀ i : Fin n, s'.endB.returns (some i) = s.endB.returns (some i))
    (hphase : s.endB.phase ≤ s'.endB.phase) (hstarted : s'.coord.Started → s.spawned = n)
    (hempty : s'.coord = .empty → s.spawned = 0)
    (hgate : s.park → s'.gate = BitVec.ofNat 64 (s'.trials + s'.coord.opened))
    (hrequesting : ∀ j, s'.coord = .requestStop j → ∀ i, i.val < j → s'.stop i)
    (hrequested : s'.coord.Requested → ∀ i, s'.stop i)
    (hhalted : s'.coord.Stopping → ∀ i, ¬(s.worker i).point.Measuring
      ∧ ((s.worker i).point = .endBarrier → s.endB.returns (some i) < s.endB.phase))
    : Live s' where
  ready := by
    unfold unready
    rw [hready, hworker]
    exact hl.ready
  spawned := by
    rw [hspawned]
    exact hl.spawned
  started := by rwa [hspawned]
  empty := by rwa [hspawned]
  born := by
    rw [hworker, hspawned]
    exact hl.born
  gate := by rwa [hpark]
  seen := by
    intro h i
    rw [hpark] at h
    rw [hworker, hreturns]
    exact hl.seen h i
  requesting := hrequesting
  requested := hrequested
  halted := by
    intro h i
    rw [hworker, hreturns]
    obtain ⟨hm, hend⟩ := hhalted h i
    exact ⟨hm, fun hpt => Nat.lt_of_lt_of_le (hend hpt) hphase⟩

theorem move_running (hl : Live s) (hworker : s'.worker = s.worker) (hready : s'.ready = s.ready)
    (hpark : s'.park = s.park) (hspawned : s'.spawned = s.spawned)
    (hreturns : ∀ i : Fin n, s'.endB.returns (some i) = s.endB.returns (some i))
    (hphase : s.endB.phase ≤ s'.endB.phase) (hstarted : s.spawned = n)
    (hgate : s.park → s'.gate = BitVec.ofNat 64 (s'.trials + s'.coord.opened))
    (hempty : s'.coord ≠ .empty) (hrunning : ¬s'.coord.Stopping)
    : Live s' := by
  apply hl.move hworker hready hpark hspawned hreturns hphase (fun _ => hstarted) (fun h => absurd h hempty) hgate
  . intro j hj
    rw [hj] at hrunning
    exact absurd trivial hrunning
  . exact fun h => absurd (CoordPoint.stopping_of_requested h) hrunning
  . exact fun h => absurd h hrunning

theorem beginStop (hl : Live s) (hs : Inv s) (hoff : ¬s.coord.AtBarrier) (hlaps : s.coord.laps = 0)
    (hopened : s.coord.opened = 0) (hspawned : s.spawned = n ∨ s.spawned = 0)
    : Live s.beginStop := by
  have hgate : s.park → s.gate = BitVec.ofNat 64 s.trials := by
    intro hpark
    have := hl.gate hpark
    rwa [hopened] at this
  unfold Session.beginStop
  split
  . rename_i hzero
    exact hl.move rfl rfl rfl rfl (fun _ => rfl) (Nat.le_refl _) False.elim (fun _ => hzero) hgate (by simp)
      False.elim False.elim
  . rename_i hpos
    refine hl.move rfl rfl rfl rfl (fun _ => rfl) (Nat.le_refl _) (fun _ => hspawned.resolve_right hpos)
      (by simp) hgate ?_ False.elim fun _ => hs.halted hoff hlaps
    intro j hj i hi
    injection hj with hj
    rw [← hj] at hi
    exact absurd hi (Nat.not_lt_zero _)

theorem spawn (hl : Live s) (hs : Inv s) (hc : s.coord = .spawn) (hk : s.spawned < n)
    : Live
        { s.setWorker ⟨s.spawned, hk⟩ { s.worker ⟨s.spawned, hk⟩ with point := .pin } with
          spawned := s.spawned + 1 } := by
  have hpt := hs.unborn ⟨s.spawned, hk⟩ (Nat.le_refl _)
  have hunready : WorkerPoint.pin.Unready ↔ (s.worker ⟨s.spawned, hk⟩).point.Unready := by
    rw [hpt]
    exact Iff.rfl
  have hpassed := fun hpark => hl.seen hpark ⟨s.spawned, hk⟩
  rw [hpt] at hpassed
  constructor
  case ready => exact hl.ready.trans (congrArg Finset.card (unready_of_same rfl hunready).symm)
  case spawned => exact hk
  case gate => exact hl.gate
  case born =>
    intro i hi
    by_cases hik : i = ⟨s.spawned, hk⟩
    . subst hik
      simp [setWorker]
    . have hne : i.val ≠ s.spawned := fun h => hik (Fin.ext h)
      simpa [setWorker, hik] using hl.born i (by simp only at hi; omega)
  case seen =>
    intro hpark i
    by_cases hik : i = ⟨s.spawned, hk⟩
    . subst hik
      simpa [setWorker, WorkerPoint.passed] using hpassed hpark
    . simpa [setWorker, hik] using hl.seen hpark i
  all_goals simp [setWorker, hc, CoordPoint.Started, CoordPoint.Requested, CoordPoint.Stopping]

end Live

/--
The step is no failure of `start` to create a thread after the first.
-/
def StartsWhole (s : Session n) : SessionAction n → Prop
  | .coord .stop => s.coord = .spawn → s.spawned < n → s.spawned = 0
  | _ => True

namespace Live

variable {s' : Session n}

theorem stepCoord {c : Choice n} (hl : Live s) (hs : Inv s) (hok : s.StartsWhole (.coord c))
    (h : s.stepCoord c = some s')
    : Live s' := by
  have hstarted := hl.started
  have hgate := hl.gate
  have hhalted := hl.halted
  have hreturns : ∀ i : Fin n, (s.endB.step none).returns (some i) = s.endB.returns (some i) :=
    fun _ => SpinBarrier.step_returns_of_ne (by simp)
  cases hc : s.coord
  all_goals simp only [Session.stepCoord, hc] at h
  all_goals simp only [hc, CoordPoint.Started, CoordPoint.opened, CoordPoint.Stopping, forall_const]
    at hstarted hgate hhalted
  case spawn =>
    split at h
    . rename_i hk
      split at h
      . injection h with h
        subst h
        exact hl.beginStop hs (by simp [hc, CoordPoint.AtBarrier]) (by rw [hc]; rfl) (by rw [hc]; rfl)
          (.inr (hok hc hk))
      . injection h with h
        subst h
        exact hl.spawn hs hc hk
    . rename_i hk
      injection h with h
      subst h
      have := hl.spawned
      exact hl.move_running rfl rfl rfl rfl (fun _ => rfl) (Nat.le_refl _) (by omega) hgate (by simp) id
  case readyWait =>
    split at h
    . injection h with h
      subst h
      exact hl.move_running rfl rfl rfl rfl (fun _ => rfl) (Nat.le_refl _) hstarted hgate (by simp) id
    . cases h
  case checkFailure =>
    injection h with h
    subst h
    split
    . exact hl.beginStop hs (by simp [hc, CoordPoint.AtBarrier]) (by rw [hc]; rfl) (by rw [hc]; rfl)
        (.inl hstarted)
    . exact hl.move_running rfl rfl rfl rfl (fun _ => rfl) (Nat.le_refl _) hstarted hgate (by simp) id
  case idle =>
    split at h
    . injection h with h
      subst h
      exact hl.beginStop hs (by simp [hc, CoordPoint.AtBarrier]) (by rw [hc]; rfl) (by rw [hc]; rfl)
        (.inl hstarted)
    . injection h with h
      subst h
      exact hl.move_running rfl rfl rfl rfl (fun _ => rfl) (Nat.le_refl _) hstarted hgate (by simp) id
  case openGate =>
    injection h with h
    subst h
    refine hl.move_running rfl rfl rfl rfl (fun _ => rfl) (Nat.le_refl _) hstarted ?_ (by simp) id
    intro hpark
    simp [openGate, hpark, hgate hpark, CoordPoint.opened, BitVec.ofNat_add]
  case startBarrier =>
    split at h
    all_goals
      injection h with h
      subst h
    . exact hl.move_running rfl rfl rfl rfl (fun _ => rfl) (Nat.le_refl _) hstarted hgate (by simp) id
    . exact hl.move rfl rfl rfl rfl (fun _ => rfl) (Nat.le_refl _) hl.started hl.empty hl.gate hl.requesting
        hl.requested hl.halted
  case endBarrier =>
    split at h
    all_goals
      injection h with h
      subst h
    . exact hl.move_running rfl rfl rfl rfl hreturns SpinBarrier.phase_le_step hstarted hgate (by simp) id
    . exact hl.move rfl rfl rfl rfl hreturns SpinBarrier.phase_le_step hl.started hl.empty hl.gate
        hl.requesting hl.requested hl.halted
  case readSlots j =>
    split at h
    all_goals
      injection h with h
      subst h
      exact hl.move_running rfl rfl rfl rfl (fun _ => rfl) (Nat.le_refl _) hstarted hgate (by simp) id
  case mergeLatencies =>
    split at h
    . split at h
      . split at h
        . injection h with h
          subst h
          exact hl.move_running rfl rfl rfl rfl (fun _ => rfl) (Nat.le_refl _) hstarted hgate (by simp) id
        . cases h
      . cases h
    . injection h with h
      subst h
      exact hl.move_running rfl rfl rfl rfl (fun _ => rfl) (Nat.le_refl _) hstarted hgate (by simp) id
  case requestStop j =>
    have hrequesting := hl.requesting j hc
    split at h
    . rename_i hj
      injection h with h
      subst h
      refine hl.move rfl rfl rfl rfl (fun _ => rfl) (Nat.le_refl _) (fun _ => hstarted) (by simp) hgate ?_
        False.elim fun _ => hhalted
      intro j' hj' i hi
      injection hj' with hj'
      by_cases hij : i = ⟨j, hj.1⟩
      . rw [hij]
        exact Function.update_self _ _ _
      . have hne : i.val ≠ j := fun h => hij (Fin.ext h)
        dsimp only
        rw [Function.update_of_ne hij]
        exact hrequesting i (by omega)
    . rename_i hj
      injection h with h
      subst h
      refine hl.move rfl rfl rfl rfl (fun _ => rfl) (Nat.le_refl _) (fun _ => hstarted) (by simp) hgate (by simp)
        ?_ fun _ => hhalted
      exact fun _ i => hrequesting i (by omega)
  case stopGate =>
    have hrequested := hl.requested (by rw [hc]; trivial)
    injection h with h
    subst h
    refine hl.move rfl rfl rfl rfl (fun _ => rfl) (Nat.le_refl _) (fun _ => hstarted) (by simp) ?_ (by simp)
      (fun _ => hrequested) fun _ => hhalted
    intro hpark
    simp [openGate, hpark, hgate hpark, CoordPoint.opened, BitVec.ofNat_add]
  case stopBarrier =>
    have hrequested := hl.requested (by rw [hc]; trivial)
    split at h
    all_goals
      injection h with h
      subst h
    . exact hl.move rfl rfl rfl rfl (fun _ => rfl) (Nat.le_refl _) (fun _ => hstarted) (by simp) hgate (by simp)
        (fun _ => hrequested) fun _ => hhalted
    . exact hl.move rfl rfl rfl rfl (fun _ => rfl) (Nat.le_refl _) hl.started hl.empty hl.gate hl.requesting
        hl.requested hl.halted
  case join j =>
    have hrequested := hl.requested (by rw [hc]; trivial)
    split at h
    . split at h
      . injection h with h
        subst h
        exact hl.move rfl rfl rfl rfl (fun _ => rfl) (Nat.le_refl _) (fun _ => hstarted) (by simp) hgate (by simp)
          (fun _ => hrequested) fun _ => hhalted
      . cases h
    . injection h with h
      subst h
      exact hl.move rfl rfl rfl rfl (fun _ => rfl) (Nat.le_refl _) (fun _ => hstarted) (by simp) hgate (by simp)
        (fun _ => hrequested) fun _ => hhalted
  case stopped => cases h
  case empty => cases h

theorem step {a : SessionAction n} (hl : Live s) (hs : Inv s) (hok : s.StartsWhole a)
    (h : s.step a = some s')
    : Live s' := by
  cases a with
  | tick d =>
    simp only [Session.step] at h
    split at h
    . injection h with h
      subst h
      exact hl.move rfl rfl rfl rfl (fun _ => rfl) (Nat.le_refl _) hl.started hl.empty hl.gate hl.requesting
        hl.requested hl.halted
    . cases h
  | worker i o => exact hl.stepWorker hs h
  | coord c => exact hl.stepCoord hs hok h

end Live

end Session

end Bench
