import BenchPlatform.Engine.SpinBarrier.Safety
import BenchPlatform.Engine.Session.Worker
import Mathlib.Data.Fintype.Option

/-!
This module proves the trial protocol of `ConfigSession`: in every interleaving the coordinator
evaluates, after a trial, exactly what the workers produced in that trial.
-/

namespace Bench

namespace CoordPoint

/--
By how much the coordinator is ahead at the start barrier. The last arrival there is the one of
`stop`, which no arrival at the end barrier follows.
-/
def laps : CoordPoint → Nat
  | .endBarrier | .join _ | .stopped => 1
  | _ => 0

/--
In a call of `arrive_and_wait`.
-/
def AtBarrier : CoordPoint → Prop
  | .startBarrier | .endBarrier | .stopBarrier => True
  | _ => False

/--
`run_one_trial` until the end of the trial.
-/
def Timing : CoordPoint → Prop
  | .openGate | .startBarrier | .endBarrier => True
  | _ => False

/--
`run_one_trial` after the end of the trial, as long as it looks at the workers' data.
-/
def Reading : CoordPoint → Prop
  | .readSlots _ | .mergeLatencies => True
  | _ => False

/--
`stop`, from the first stop request on.
-/
def Stopping : CoordPoint → Prop
  | .requestStop _ | .stopGate | .stopBarrier | .join _ | .stopped => True
  | _ => False

end CoordPoint

namespace Session

variable {n : Nat}

/--
The coordinator has returned from the end barrier of a trial and not yet arrived at the start
barrier again.
-/
def BetweenTrials (s : Session n) : Prop :=
  0 < s.endB.returns none ∧ s.startB.arrivals none = s.endB.returns none

structure Inv (s : Session n) : Prop where
  startB : s.startB.Inv
  endB : s.endB.Inv
  worker : ∀ i, WorkerInv (s.view i) (s.worker i)
  clock : s.clock < 2 ^ 63
  release : s.tRelease ≤ s.clock
  done : s.tDone ≤ s.clock
  startPoint : s.coord ≠ .startBarrier → s.coord ≠ .stopBarrier → s.startB.point none = .outside
  endPoint : s.coord ≠ .endBarrier → s.endB.point none = .outside
  laps : s.startB.returns none = s.endB.returns none + s.coord.laps
  trials : s.trials = s.endB.returns none
  unborn : ∀ i, s.spawned ≤ i.val → (s.worker i).point = .unborn
  reading : s.coord.Reading → 0 < s.trials
  stop : ∀ i, s.stop i → s.coord.Stopping
  slots : ∀ i x, s.slots i = some x → s.coord.Reading ∧ (s.worker i).slot = x
  buckets : ∀ i b c, s.buckets i b = some c →
    s.coord.Reading ∧ ∃ h, (s.worker i).slot.hist = some h ∧ (s.worker i).hists.hist h b = c

theorem init_inv (n : Nat) (park histogram : Bool) (trialLen : Nat) (assignedCpu : Fin n → Int)
    : Inv (init n park histogram trialLen assignedCpu) := by
  have hbarrier : (SpinBarrier.init (Option (Fin n)) (n + 1)).Inv := by
    have := SpinBarrier.init_inv (Option (Fin n))
    rwa [Fintype.card_option, Fintype.card_fin] at this
  constructor
  case startB => exact hbarrier
  case endB => exact hbarrier
  case worker =>
    intro i
    constructor <;> simp [init, Worker.init, view, SpinBarrier.init, WorkerPoint.laps, Worker.Facts,
      Histograms.init]
  case unborn => exact fun _ _ => rfl
  all_goals simp [init, SpinBarrier.init, CoordPoint.laps, CoordPoint.Reading]

namespace Inv

variable {s s' : Session n} {i : Fin n} {o : Outcome}

theorem between (hs : Inv s) (hbetween : s.BetweenTrials) (i : Fin n)
    : ¬(s.worker i).point.InTrial ∧ (s.worker i).produced.length = s.trials
        ∧ (s.worker i).Settled s.histogram
        ∧ s.startB.completions = s.trials ∧ s.endB.completions = s.trials := by
  obtain ⟨hpos, harr⟩ := hbetween
  have hlaps := hs.laps
  have hw := hs.worker i
  have hwlaps : s.startB.returns (some i) = s.endB.returns (some i) + (s.worker i).point.laps :=
    hw.laps
  have hle := hs.startB.returns_le_arrivals none
  obtain ⟨hstart, hstartc⟩ := hs.startB.of_arrivals_eq_returns (p := none) (by omega)
  have hcoord : s.coord ≠ .endBarrier := by
    intro h
    simp only [h, CoordPoint.laps] at hlaps
    omega
  obtain ⟨-, hend, hendc⟩ := hs.endB.outside (hs.endPoint hcoord)
  have htrials := hs.trials
  have hout : ¬(s.worker i).point.InTrial := by
    rintro ⟨hl, hne⟩
    have hne' : (s.worker i).point ≠ .startBarrier := by
      intro h
      simp [h, WorkerPoint.laps] at hl
    have h1 := (hs.startB.outside (hw.startPoint hne')).2.1
    have h2 := (hs.endB.outside (hw.endPoint hne)).2.1
    omega
  have hlen : (s.worker i).produced.length = s.trials := by
    have hproduced : (s.worker i).produced.length
        = s.endB.returns (some i) + if (s.worker i).point = .endBarrier then 1 else 0 :=
      hw.produced
    by_cases hpt : (s.worker i).point = .endBarrier
    . have h1 := (hs.startB.outside (hw.startPoint (by simp [hpt]))).2.1
      simp only [hpt, WorkerPoint.laps, if_true] at hproduced hwlaps
      omega
    . have h2 := (hs.endB.outside (hw.endPoint hpt)).2.1
      simp only [hpt, if_false] at hproduced
      omega
  refine ⟨hout, hlen, ?_, by omega, by omega⟩
  have hne : (s.worker i).produced ≠ [] := by
    intro h
    rw [h, List.length_nil] at hlen
    omega
  have hf := hw.facts
  cases hpt : (s.worker i).point
  all_goals simp only [Worker.Facts, hpt] at hf
  case unborn | pin | setup | countDown => exact absurd hf.1 hne
  case gateWait | p0 | beforeTrial | endBarrier | c0 | c1 | startBarrier => exact hf.1
  all_goals simp [WorkerPoint.InTrial, WorkerPoint.laps, hpt] at hout

theorem betweenTrials_of_reading (hs : Inv s) (h : s.coord.Reading) : s.BetweenTrials := by
  have hpos := hs.reading h
  have hlaps := hs.laps
  have htrials := hs.trials
  have hpoint : s.startB.point none = .outside := by
    apply hs.startPoint
    all_goals
      intro hc
      simp [hc, CoordPoint.Reading] at h
  obtain ⟨harr, hret, -⟩ := hs.startB.outside hpoint
  have : s.coord.laps = 0 := by
    cases hc : s.coord <;> simp [hc, CoordPoint.Reading, CoordPoint.laps] at h ⊢
  exact ⟨by omega, by omega⟩

theorem worker_stepStart (hs : Inv s) {p : Option (Fin n)} (j : Fin n)
    (hp : p = some j → (s.worker j).point = .startBarrier ∧ ¬s.startB.returning p)
    : WorkerInv ((s.stepStart p).view j) (s.worker j) := by
  have hstamp : WorkerInv
      { s.view j with
        startCompletions := (s.startB.step p).completions
        tRelease := if s.startB.stamping p then s.clock else s.tRelease } (s.worker j) := by
    rw [SpinBarrier.step_completions]
    by_cases hst : s.startB.stamping p
    . simp only [hst, if_true]
      obtain ⟨hout, hret, hcompl⟩ := hs.startB.stamping hst (some j)
      apply (hs.worker j).stampRelease
      . by_contra hpt
        exact hout ((hs.worker j).startPoint hpt)
      . exact hret.trans hcompl.symm
    . simp only [hst]
      exact hs.worker j
  by_cases hpj : p = some j
  . obtain ⟨hpt, hret⟩ := hp hpj
    have hreturns := SpinBarrier.step_returns_of_not_returning hret
    have := hstamp.atStart ((s.startB.step p).point (some j)) hpt
    simpa only [view, stepStart, hreturns] using this
  . have hne : some j ≠ p := fun h => hpj h.symm
    have hpoint := SpinBarrier.step_point_of_ne (b := s.startB) hne
    have hreturns := SpinBarrier.step_returns_of_ne (b := s.startB) hne
    simpa only [view, stepStart, hpoint, hreturns] using hstamp

theorem worker_stepEnd (hs : Inv s) {p : Option (Fin n)} (j : Fin n)
    (hp : p = some j → (s.worker j).point = .endBarrier ∧ ¬s.endB.returning p)
    : WorkerInv ((s.stepEnd p).view j) (s.worker j) := by
  have hstamp : WorkerInv
      { s.view j with
        endCompletions := (s.endB.step p).completions
        tDone := if s.endB.stamping p then s.clock else s.tDone } (s.worker j) := by
    rw [SpinBarrier.step_completions]
    by_cases hst : s.endB.stamping p
    . simp only [hst, if_true]
      exact (hs.worker j).stampDone
    . simp only [hst]
      exact hs.worker j
  by_cases hpj : p = some j
  . obtain ⟨hpt, hret⟩ := hp hpj
    have hreturns := SpinBarrier.step_returns_of_not_returning hret
    have := hstamp.atEnd ((s.endB.step p).point (some j)) hpt
    simpa only [view, stepEnd, hreturns] using this
  . have hne : some j ≠ p := fun h => hpj h.symm
    have hpoint := SpinBarrier.step_point_of_ne (b := s.endB) hne
    have hreturns := SpinBarrier.step_returns_of_ne (b := s.endB) hne
    simpa only [view, stepEnd, hpoint, hreturns] using hstamp

theorem release_le (hs : Inv s) (p : Option (Fin n)) : (s.stepStart p).tRelease ≤ s.clock := by
  simp only [stepStart]
  split
  . exact Nat.le_refl _
  . exact hs.release

theorem done_le (hs : Inv s) (p : Option (Fin n)) : (s.stepEnd p).tDone ≤ s.clock := by
  simp only [stepEnd]
  split
  . exact Nat.le_refl _
  . exact hs.done

theorem tick (hs : Inv s) {d : Nat} (hd : s.clock + d < 2 ^ 63)
    : Inv { s with clock := s.clock + d } :=
  { hs with
    worker := fun i => (hs.worker i).tick (Nat.le_add_right _ _)
    clock := hd
    release := hs.release.trans (Nat.le_add_right _ _)
    done := hs.done.trans (Nat.le_add_right _ _) }

theorem unborn_of_lt {w' : Worker} (hs : Inv s) (hborn : i.val < s.spawned)
    : ∀ j, s.spawned ≤ j.val → ((s.setWorker i w').worker j).point = .unborn := by
  intro j hj
  by_cases hji : j = i
  . subst hji
    omega
  . rw [setWorker_of_ne hji]
    exact hs.unborn j hj

theorem setWorker {w' : Worker} (hs : Inv s) (hw : WorkerInv (s.view i) w')
    (hborn : i.val < s.spawned)
    (hfrozen : s.coord.Reading → w'.slot = (s.worker i).slot
      ∧ ∀ g, (s.worker i).slot.hist = some g → w'.hists.hist g = (s.worker i).hists.hist g)
    : Inv (s.setWorker i w') :=
  { hs with
    worker := by
      intro j
      by_cases hj : j = i
      . subst hj
        rw [setWorker_self]
        exact hw
      . rw [setWorker_of_ne hj]
        exact hs.worker j
    unborn := hs.unborn_of_lt hborn
    slots := by
      intro j x hx
      obtain ⟨hr, hslot⟩ := hs.slots j x hx
      refine ⟨hr, ?_⟩
      by_cases hj : j = i
      . subst hj
        rw [setWorker_self, (hfrozen hr).1]
        exact hslot
      . rw [setWorker_of_ne hj]
        exact hslot
    buckets := by
      intro j b c hc
      obtain ⟨hr, g, hg, hb⟩ := hs.buckets j b c hc
      refine ⟨hr, g, ?_⟩
      by_cases hj : j = i
      . subst hj
        rw [setWorker_self, (hfrozen hr).1, (hfrozen hr).2 g hg]
        exact ⟨hg, hb⟩
      . rw [setWorker_of_ne hj]
        exact ⟨hg, hb⟩ }

theorem reads_of_same (hs : Inv s) {worker' : Fin n → Worker}
    (hsame : ∀ j, (worker' j).slot = (s.worker j).slot ∧ (worker' j).hists = (s.worker j).hists)
    : (∀ j x, s.slots j = some x → s.coord.Reading ∧ (worker' j).slot = x)
      ∧ ∀ j b c, s.buckets j b = some c →
        s.coord.Reading ∧ ∃ h, (worker' j).slot.hist = some h ∧ (worker' j).hists.hist h b = c := by
  constructor
  . intro j x hx
    rw [(hsame j).1]
    exact hs.slots j x hx
  . intro j b c hc
    rw [(hsame j).1, (hsame j).2]
    exact hs.buckets j b c hc

theorem same_of_goto (s : Session n) (i : Fin n) (pt : WorkerPoint) (j : Fin n)
    : (Function.update s.worker i { s.worker i with point := pt } j).slot = (s.worker j).slot
      ∧ (Function.update s.worker i { s.worker i with point := pt } j).hists
        = (s.worker j).hists := by
  by_cases hj : j = i
  . subst hj
    simp
  . simp [hj]

theorem stepStart_worker (hs : Inv s) {pt : WorkerPoint} (hborn : i.val < s.spawned)
    (hw : WorkerInv ((s.stepStart (some i)).view i) { s.worker i with point := pt })
    : Inv ((s.stepStart (some i)).setWorker i { s.worker i with point := pt }) := by
  have hpoint := SpinBarrier.step_point_of_ne (b := s.startB) (p := some i) (q := none) nofun
  have hreturns := SpinBarrier.step_returns_of_ne (b := s.startB) (p := some i) (q := none) nofun
  have hreads := hs.reads_of_same (same_of_goto s i pt)
  exact { hs with
    startB := hs.startB.step (some i)
    worker := by
      intro j
      by_cases hj : j = i
      . subst hj
        rw [setWorker_self]
        exact hw
      . rw [setWorker_of_ne hj]
        apply hs.worker_stepStart
        intro h
        injection h with h
        exact absurd h.symm hj
    release := hs.release_le _
    startPoint := fun h1 h2 => hpoint.trans (hs.startPoint h1 h2)
    laps := hreturns.trans hs.laps
    unborn := hs.unborn_of_lt hborn
    slots := hreads.1
    buckets := hreads.2 }

theorem stepEnd_worker (hs : Inv s) {pt : WorkerPoint} (hborn : i.val < s.spawned)
    (hw : WorkerInv ((s.stepEnd (some i)).view i) { s.worker i with point := pt })
    : Inv ((s.stepEnd (some i)).setWorker i { s.worker i with point := pt }) := by
  have hpoint := SpinBarrier.step_point_of_ne (b := s.endB) (p := some i) (q := none) nofun
  have hreturns := SpinBarrier.step_returns_of_ne (b := s.endB) (p := some i) (q := none) nofun
  have hreads := hs.reads_of_same (same_of_goto s i pt)
  exact { hs with
    endB := hs.endB.step (some i)
    worker := by
      intro j
      by_cases hj : j = i
      . subst hj
        rw [setWorker_self]
        exact hw
      . rw [setWorker_of_ne hj]
        apply hs.worker_stepEnd
        intro h
        injection h with h
        exact absurd h.symm hj
    done := hs.done_le _
    endPoint := fun h => hpoint.trans (hs.endPoint h)
    laps := by
      show s.startB.returns none = (s.endB.step (some i)).returns none + s.coord.laps
      rw [hreturns]
      exact hs.laps
    trials := hs.trials.trans hreturns.symm
    unborn := hs.unborn_of_lt hborn
    slots := hreads.1
    buckets := hreads.2 }

theorem stepWorker (hs : Inv s) (h : s.stepWorker i o = some s') : Inv s' := by
  have hw := hs.worker i
  have hborn : i.val < s.spawned := by
    by_contra hi
    have hpt := hs.unborn i (by omega)
    simp [Session.stepWorker, hpt, Worker.step] at h
  -- the points off the barriers, where only the worker changes
  have hlocal : ∀ w', (s.worker i).step s i o = some w' → Inv (s.setWorker i w') := by
    intro w' hstep
    apply hs.setWorker
    . apply hw.step hs.release _ hstep
      intro hout
      obtain ⟨-, hret, hcompl⟩ := hs.endB.outside hout
      exact hcompl.trans hret.symm
    . exact hborn
    . intro hr
      have hbetween := hs.betweenTrials_of_reading hr
      obtain ⟨hout, hlen, -⟩ := hs.between hbetween i
      apply hw.frozen hout _ hstep
      intro hnil
      have := hs.reading hr
      rw [hnil, List.length_nil] at hlen
      omega
  cases hpt : (s.worker i).point
  all_goals simp only [Session.stepWorker, hpt] at h
  case setup =>
    injection h with h
    subst h
    have hf := hw.facts
    simp only [Worker.Facts, hpt] at hf
    have hw' : WorkerInv (s.view i) { s.worker i with ok := !o.threw, point := .countDown } := by
      apply hw.move <;> simp [hpt, WorkerPoint.laps]
      . exact fun _ => hf.2.1
      . exact hf
    exact { hs.setWorker hw' hborn (fun _ => ⟨rfl, fun _ _ => rfl⟩) with }
  case countDown =>
    injection h with h
    subst h
    have hf := hw.facts
    simp only [Worker.Facts, hpt] at hf
    have hw' : WorkerInv (s.view i) { s.worker i with point := .gateWait } := by
      apply hw.move <;> simp [hpt, WorkerPoint.laps]
      . exact fun _ => hf.2.1
      . refine ⟨?_, ?_, fun _ => hf.2.2⟩
        . simp [Worker.Settled, hf.1]
        . simp [Worker.Current, hf.2.1]
    exact { hs.setWorker hw' hborn (fun _ => ⟨rfl, fun _ _ => rfl⟩) with }
  case startBarrier =>
    split at h
    . rename_i hret
      injection h with h
      subst h
      apply hs.stepStart_worker hborn
      rw [view_stepStart_of_returning hret]
      exact hw.returnFromStart hpt
    . rename_i hret
      injection h with h
      subst h
      have hself := setWorker_eq_self (s := s.stepStart (some i)) (i := i)
      rw [← hself]
      exact hs.stepStart_worker hborn (hs.worker_stepStart i fun _ => ⟨hpt, hret⟩)
  case endBarrier =>
    split at h
    . rename_i hret
      injection h with h
      subst h
      apply hs.stepEnd_worker hborn
      rw [view_stepEnd_of_returning hret]
      exact hw.returnFromEnd hpt
    . rename_i hret
      injection h with h
      subst h
      have hself := setWorker_eq_self (s := s.stepEnd (some i)) (i := i)
      rw [← hself]
      exact hs.stepEnd_worker hborn (hs.worker_stepEnd i fun _ => ⟨hpt, hret⟩)
  all_goals
    obtain ⟨w', hstep, hs'⟩ := Option.map_eq_some_iff.mp h
    rw [← hs']
    exact hlocal w' hstep

theorem goto {c : CoordPoint} (hs : Inv s) (pt : CoordPoint) (hc : s.coord = c) (hoff : ¬c.AtBarrier)
    (hlaps : pt.laps = c.laps) (hreading : pt.Reading ↔ c.Reading)
    (hstop : c.Stopping → pt.Stopping)
    : Inv { s with coord := pt } := by
  subst hc
  exact { hs with
    startPoint := by
      intro _ _
      apply hs.startPoint
      all_goals
        intro h
        simp [h, CoordPoint.AtBarrier] at hoff
    endPoint := by
      intro _
      apply hs.endPoint
      intro h
      simp [h, CoordPoint.AtBarrier] at hoff
    laps := by
      show s.startB.returns none = s.endB.returns none + pt.laps
      rw [hlaps]
      exact hs.laps
    reading := fun h => hs.reading (hreading.mp h)
    stop := fun i h => hstop (hs.stop i h)
    slots := fun i x h => ⟨hreading.mpr (hs.slots i x h).1, (hs.slots i x h).2⟩
    buckets := fun i b c h => ⟨hreading.mpr (hs.buckets i b c h).1, (hs.buckets i b c h).2⟩ }

theorem stepStart_coord (hs : Inv s) (pt : CoordPoint)
    (hcoord : s.coord = .startBarrier ∨ s.coord = .stopBarrier)
    (hpoint : pt ≠ .startBarrier → pt ≠ .stopBarrier → (s.startB.step none).point none = .outside)
    (hlaps : (s.startB.step none).returns none = s.endB.returns none + pt.laps)
    (hreading : ¬pt.Reading) (hstop : s.coord.Stopping → pt.Stopping)
    : Inv { s.stepStart none with coord := pt } := by
  have hnot : ¬s.coord.Reading := by
    obtain h | h := hcoord <;> simp [h, CoordPoint.Reading]
  have hend : s.coord ≠ .endBarrier := by
    obtain h | h := hcoord <;> simp [h]
  exact { hs with
    startB := hs.startB.step none
    worker := fun j => hs.worker_stepStart j nofun
    release := hs.release_le _
    startPoint := hpoint
    endPoint := fun _ => hs.endPoint hend
    laps := hlaps
    reading := fun h => absurd h hreading
    stop := fun i h => hstop (hs.stop i h)
    slots := fun i x h => absurd (hs.slots i x h).1 hnot
    buckets := fun i b c h => absurd (hs.buckets i b c h).1 hnot }

theorem stepEnd_coord (hs : Inv s) (pt : CoordPoint) (trials : Nat)
    (hcoord : s.coord = .endBarrier)
    (hpoint : pt ≠ .endBarrier → (s.endB.step none).point none = .outside)
    (hlaps : s.startB.returns none = (s.endB.step none).returns none + pt.laps)
    (htrials : trials = (s.endB.step none).returns none) (hreading : pt.Reading → 0 < trials)
    : Inv { s.stepEnd none with trials := trials, coord := pt } := by
  have hnot : ¬s.coord.Reading := by simp [hcoord, CoordPoint.Reading]
  exact { hs with
    endB := hs.endB.step none
    worker := fun j => hs.worker_stepEnd j nofun
    done := hs.done_le _
    startPoint := fun _ _ => hs.startPoint (by simp [hcoord]) (by simp [hcoord])
    endPoint := hpoint
    laps := hlaps
    trials := htrials
    reading := hreading
    stop := by
      intro i h
      have := hs.stop i h
      simp [hcoord, CoordPoint.Stopping] at this
    slots := fun i x h => absurd (hs.slots i x h).1 hnot
    buckets := fun i b c h => absurd (hs.buckets i b c h).1 hnot }

theorem beginStop {c : CoordPoint} (hs : Inv s) (hc : s.coord = c) (hoff : ¬c.AtBarrier)
    (hlaps : c.laps = 0) (hreading : ¬c.Reading) (hstop : ¬c.Stopping)
    : Inv s.beginStop := by
  unfold Session.beginStop
  split
  all_goals
    apply hs.goto _ hc hoff
    . rw [hlaps]
      rfl
    . exact iff_of_false id hreading
    . exact fun h => absurd h hstop

theorem read {c : CoordPoint} (hs : Inv s) (pt : CoordPoint) (hc : s.coord = c) (hreading : c.Reading)
    (hpt : pt.Reading) {slots : Fin n → Option Slot} {buckets : Fin n → Nat → Option (BitVec 32)}
    (hslots : ∀ i x, slots i = some x → (s.worker i).slot = x)
    (hbuckets : ∀ i b c, buckets i b = some c →
      ∃ h, (s.worker i).slot.hist = some h ∧ (s.worker i).hists.hist h b = c)
    : Inv { s with coord := pt, slots := slots, buckets := buckets } := by
  have hlaps : pt.laps = c.laps := by
    cases c <;> simp only [CoordPoint.Reading] at hreading
    all_goals cases pt <;> simp only [CoordPoint.Reading] at hpt
    all_goals rfl
  have hoff : ¬c.AtBarrier := by
    cases c <;> simp [CoordPoint.Reading, CoordPoint.AtBarrier] at hreading ⊢
  have hstop : c.Stopping → pt.Stopping := by
    cases c <;> simp [CoordPoint.Reading, CoordPoint.Stopping] at hreading ⊢
  exact { hs.goto _ hc hoff hlaps (iff_of_true hpt hreading) hstop with
    slots := fun i x hx => ⟨hpt, hslots i x hx⟩
    buckets := fun i b c hc => ⟨hpt, hbuckets i b c hc⟩ }

theorem spawn (hs : Inv s) (hk : s.spawned < n)
    : Inv
        { s.setWorker ⟨s.spawned, hk⟩ { s.worker ⟨s.spawned, hk⟩ with point := .pin } with
          spawned := s.spawned + 1 } := by
  have hs' : Inv { s with spawned := s.spawned + 1 } :=
    { hs with unborn := fun i hi => hs.unborn i (Nat.le_of_succ_le hi) }
  have hpt := hs.unborn ⟨s.spawned, hk⟩ (Nat.le_refl _)
  have hw := hs.worker ⟨s.spawned, hk⟩
  have hf := hw.facts
  simp only [Worker.Facts, hpt] at hf
  have hw' : WorkerInv (s.view ⟨s.spawned, hk⟩)
      { s.worker ⟨s.spawned, hk⟩ with point := .pin } := by
    apply hw.move <;> simp [hpt, WorkerPoint.laps]
    . exact fun _ => hf.2.1
    . exact hf
  exact hs'.setWorker hw' (Nat.lt_succ_self _) fun _ => ⟨rfl, fun _ _ => rfl⟩

theorem stepCoord {c : Choice n} (hs : Inv s) (h : s.stepCoord c = some s') : Inv s' := by
  cases hc : s.coord
  all_goals simp only [Session.stepCoord, hc] at h
  case spawn =>
    split at h
    . rename_i hk
      split at h
      . injection h with h
        subst h
        exact hs.beginStop hc id rfl id id
      . injection h with h
        subst h
        exact hs.spawn hk
    . injection h with h
      subst h
      exact hs.goto _ hc id rfl Iff.rfl id
  case readyWait =>
    split at h
    . injection h with h
      subst h
      exact hs.goto _ hc id rfl Iff.rfl id
    . cases h
  case checkFailure =>
    injection h with h
    subst h
    split
    . exact hs.beginStop hc id rfl id id
    . exact hs.goto _ hc id rfl Iff.rfl id
  case idle =>
    split at h
    . injection h with h
      subst h
      exact hs.beginStop hc id rfl id id
    . injection h with h
      subst h
      exact hs.goto _ hc id rfl Iff.rfl id
  case openGate =>
    injection h with h
    subst h
    exact { hs.goto .startBarrier hc id rfl Iff.rfl id with }
  case startBarrier =>
    split at h
    . rename_i hret
      injection h with h
      subst h
      obtain ⟨hpoint, hreturns⟩ := SpinBarrier.step_of_returning hret
      apply hs.stepStart_coord _ (.inl hc) (fun _ _ => hpoint) _ id
      . simp [hc, CoordPoint.Stopping]
      . have := hs.laps
        simp only [hc, CoordPoint.laps] at this
        rw [hreturns, this]
        rfl
    . rename_i hret
      injection h with h
      subst h
      have hreturns := SpinBarrier.step_returns_of_not_returning hret
      exact hs.stepStart_coord s.coord (.inl hc) (by simp [hc])
        (by rw [hreturns]; exact hs.laps) (by simp [hc, CoordPoint.Reading]) id
  case endBarrier =>
    split at h
    . rename_i hret
      injection h with h
      subst h
      obtain ⟨hpoint, hreturns⟩ := SpinBarrier.step_of_returning hret
      have htrials := hs.trials
      apply hs.stepEnd_coord _ _ hc (fun _ => hpoint)
      . have := hs.laps
        simp only [hc, CoordPoint.laps] at this
        rw [hreturns, this]
        rfl
      . rw [hreturns, htrials]
      . intro _
        omega
    . rename_i hret
      injection h with h
      subst h
      have hreturns := SpinBarrier.step_returns_of_not_returning hret
      exact hs.stepEnd_coord s.coord s.trials hc (by simp [hc])
        (by rw [hreturns]; exact hs.laps) (by rw [hreturns]; exact hs.trials)
        (by simp [hc, CoordPoint.Reading])
  case readSlots j =>
    split at h
    . rename_i hj
      injection h with h
      subst h
      refine hs.read (.readSlots (j + 1)) hc trivial trivial ?_ fun i b c hb => (hs.buckets i b c hb).2
      intro i x hx
      by_cases hi : i = ⟨j, hj⟩
      . subst hi
        simpa using hx
      . rw [Function.update_of_ne hi] at hx
        exact (hs.slots i x hx).2
    . injection h with h
      subst h
      exact hs.goto _ hc id rfl Iff.rfl id
  case mergeLatencies =>
    split at h
    . rename_i j b
      split at h
      . rename_i g hg
        split at h
        . injection h with h
          subst h
          refine hs.read .mergeLatencies hc trivial trivial (fun i x hx => (hs.slots i x hx).2) ?_
          intro i b' c hb
          by_cases hi : i = j
          . subst hi
            rw [Function.update_self] at hb
            by_cases hbb : b' = b
            . subst hbb
              refine ⟨g, hg, ?_⟩
              simpa using hb
            . rw [Function.update_of_ne hbb] at hb
              exact (hs.buckets i b' c hb).2
          . rw [Function.update_of_ne hi] at hb
            exact (hs.buckets i b' c hb).2
        . cases h
      . cases h
    . injection h with h
      subst h
      exact { hs with
        startPoint := fun _ _ => hs.startPoint (by simp [hc]) (by simp [hc])
        endPoint := fun _ => hs.endPoint (by simp [hc])
        laps := by simpa [hc, CoordPoint.laps] using hs.laps
        reading := nofun
        stop := fun i hi => by simpa [hc, CoordPoint.Stopping] using hs.stop i hi
        slots := nofun
        buckets := nofun }
  case requestStop j =>
    split at h
    . rename_i hj
      injection h with h
      subst h
      have hs' := hs.goto (.requestStop (j + 1)) hc id rfl Iff.rfl id
      exact { hs' with
        worker := by
          intro i
          by_cases hi : i = ⟨j, hj.1⟩
          . subst hi
            simpa only [view, Function.update_self] using (hs.worker _).setStop
          . simpa only [view, Function.update_of_ne hi] using hs.worker i
        stop := fun _ _ => trivial }
    . injection h with h
      subst h
      exact hs.goto _ hc id rfl Iff.rfl id
  case stopGate =>
    injection h with h
    subst h
    exact { hs.goto .stopBarrier hc id rfl Iff.rfl id with }
  case stopBarrier =>
    split at h
    . rename_i hret
      injection h with h
      subst h
      obtain ⟨hpoint, hreturns⟩ := SpinBarrier.step_of_returning hret
      apply hs.stepStart_coord _ (.inr hc) (fun _ _ => hpoint) _ id
      . exact fun _ => trivial
      . have := hs.laps
        simp only [hc, CoordPoint.laps] at this
        rw [hreturns, this]
        rfl
    . rename_i hret
      injection h with h
      subst h
      have hreturns := SpinBarrier.step_returns_of_not_returning hret
      exact hs.stepStart_coord s.coord (.inr hc) (by simp [hc])
        (by rw [hreturns]; exact hs.laps) (by simp [hc, CoordPoint.Reading]) id
  case join j =>
    split at h
    . split at h
      . injection h with h
        subst h
        exact hs.goto _ hc id rfl Iff.rfl id
      . cases h
    . injection h with h
      subst h
      exact hs.goto _ hc id rfl Iff.rfl id
  case stopped => cases h
  case empty => cases h

theorem step {a : SessionAction n} (hs : Inv s) (h : s.step a = some s') : Inv s' := by
  cases a with
  | tick d =>
    simp only [Session.step] at h
    split at h
    . rename_i hd
      injection h with h
      subst h
      exact hs.tick hd
    . cases h
  | worker i o => exact hs.stepWorker h
  | coord c => exact hs.stepCoord h

theorem run (hs : Inv s) (schedule : List (SessionAction n)) : Inv (s.run schedule) :=
  Trans.invariant (I := Inv) (fun _ _ _ hs h => hs.step h) hs schedule

end Inv

/--
What the trial protocol promises in every state of a session.
-/
structure Safe (s : Session n) : Prop where
  /-- Every slot that the coordinator reads shows what its worker produced in this trial. -/
  slots : ∀ i x, s.slots i = some x →
    ∃ t, (s.worker i).produced.getLast? = some t ∧ (s.worker i).produced.length = s.trials
      ∧ x.Shows s.histogram (s.worker i).hists t
  /-- Every bucket that it reads counts the calls of this trial. -/
  buckets : ∀ i b c, s.buckets i b = some c →
    ∃ t, (s.worker i).produced.getLast? = some t ∧ (s.worker i).produced.length = s.trials
      ∧ c = bucketCount t.latencies b
  /-- Between two trials no worker writes a slot or a histogram that a slot points to. -/
  frozen : s.BetweenTrials → ∀ i o s', s.stepWorker i o = some s' → ∀ j,
    (s'.worker j).slot = (s.worker j).slot
      ∧ ∀ g, (s.worker j).slot.hist = some g → (s'.worker j).hists.hist g = (s.worker j).hists.hist g
  /-- Nobody leaves during a trial that the coordinator times, or before its end. -/
  left : ∀ i, (s.worker i).point = .left →
    ¬s.coord.Timing ∧ (s.worker i).produced.length = s.trials
  /-- The stamps enclose every worker's own times, so the unsigned differences are exact. -/
  times : s.coord.Reading → ∀ i t, (s.worker i).produced.getLast? = some t →
    s.tRelease ≤ t.start ∧ t.start ≤ t.finish ∧ t.finish ≤ s.tDone
      ∧ (nsBetween s.tRelease t.start).toNat = t.start - s.tRelease
      ∧ (nsBetween t.start t.finish).toNat = t.finish - t.start
      ∧ (nsBetween s.tRelease s.tDone).toNat = s.tDone - s.tRelease
  /-- The spread of the starts is a difference of two of them. -/
  spread : s.coord.Reading → ∀ i j t u, (s.worker i).produced.getLast? = some t →
    (s.worker j).produced.getLast? = some u → t.start ≤ u.start →
    (nsBetween t.start u.start).toNat = u.start - t.start

namespace Inv

variable {s s' : Session n} {i : Fin n} {o : Outcome}

theorem frozen (hs : Inv s) (hbetween : s.BetweenTrials) (h : s.stepWorker i o = some s')
    (j : Fin n)
    : (s'.worker j).slot = (s.worker j).slot
      ∧ ∀ g, (s.worker j).slot.hist = some g →
        (s'.worker j).hists.hist g = (s.worker j).hists.hist g := by
  obtain ⟨hout, hlen, -⟩ := hs.between hbetween i
  have hne : (s.worker i).produced ≠ [] := by
    intro hnil
    have := hs.trials
    have := hbetween.1
    rw [hnil, List.length_nil] at hlen
    omega
  -- worker `i` becomes `w'`, and no other worker changes
  have hset : ∀ w', s'.worker = Function.update s.worker i w' →
      (w'.slot = (s.worker i).slot ∧ ∀ g, (s.worker i).slot.hist = some g →
        w'.hists.hist g = (s.worker i).hists.hist g) →
      (s'.worker j).slot = (s.worker j).slot
        ∧ ∀ g, (s.worker j).slot.hist = some g →
          (s'.worker j).hists.hist g = (s.worker j).hists.hist g := by
    intro w' hs' hw'
    rw [hs']
    by_cases hj : j = i
    . subst hj
      rw [Function.update_self]
      exact hw'
    . rw [Function.update_of_ne hj]
      exact ⟨rfl, fun _ _ => rfl⟩
  cases hpt : (s.worker i).point
  all_goals simp only [Session.stepWorker, hpt] at h
  case setup | countDown =>
    injection h with h
    subst h
    exact hset _ rfl ⟨rfl, fun _ _ => rfl⟩
  case startBarrier | endBarrier =>
    split at h
    all_goals
      injection h with h
      subst h
    . exact hset _ rfl ⟨rfl, fun _ _ => rfl⟩
    . exact ⟨rfl, fun _ _ => rfl⟩
  all_goals
    obtain ⟨w', hstep, hs'⟩ := Option.map_eq_some_iff.mp h
    subst hs'
    exact hset w' rfl ((hs.worker i).frozen hout hne hstep)

theorem left (hs : Inv s) (h : (s.worker i).point = .left)
    : ¬s.coord.Timing ∧ (s.worker i).produced.length = s.trials := by
  have hw := hs.worker i
  have hstop := hs.stop i (hw.left h)
  constructor
  . intro ht
    cases hc : s.coord <;> simp [hc, CoordPoint.Timing, CoordPoint.Stopping] at ht hstop
  . have hcoord : s.coord ≠ .endBarrier := by
      intro hc
      simp [hc, CoordPoint.Stopping] at hstop
    have h1 := (hs.endB.outside (hs.endPoint hcoord)).2.1
    have h2 := (hs.endB.outside (hw.endPoint (by simp [h]))).2.1
    have hproduced : (s.worker i).produced.length
        = s.endB.returns (some i) + if (s.worker i).point = .endBarrier then 1 else 0 :=
      hw.produced
    have htrials := hs.trials
    simp only [h, reduceCtorEq, if_false] at hproduced
    omega

theorem times (hs : Inv s) (hr : s.coord.Reading) {t : Trial}
    (ht : (s.worker i).produced.getLast? = some t)
    : s.tRelease ≤ t.start ∧ t.start ≤ t.finish ∧ t.finish ≤ s.tDone := by
  have hw := hs.worker i
  obtain ⟨-, hlen, -, hstart, hend⟩ := hs.between (hs.betweenTrials_of_reading hr) i
  refine ⟨?_, (hw.trials t (List.mem_of_getLast? ht)).1, ?_⟩
  . exact hw.release (hlen.trans hstart.symm) t ht
  . exact hw.done (hlen.trans hend.symm).le t ht

theorem safe (hs : Inv s) : Safe s := by
  have hlast : s.coord.Reading → ∀ i, ∃ t, (s.worker i).produced.getLast? = some t
      ∧ (s.worker i).produced.length = s.trials
      ∧ (s.worker i).slot.Shows s.histogram (s.worker i).hists t := by
    intro hr i
    obtain ⟨-, hlen, hsettled, -⟩ := hs.between (hs.betweenTrials_of_reading hr) i
    have hpos := hs.reading hr
    have hne : (s.worker i).produced ≠ [] := by
      intro hnil
      rw [hnil, List.length_nil] at hlen
      omega
    have ht := List.getLast?_eq_some_getLast hne
    exact ⟨_, ht, hlen, hsettled _ ht⟩
  constructor
  . intro i x hx
    obtain ⟨hr, hslot⟩ := hs.slots i x hx
    rw [← hslot]
    exact hlast hr i
  . intro i b c hc
    obtain ⟨hr, g, hg, hb⟩ := hs.buckets i b c hc
    obtain ⟨t, ht, hlen, hshows⟩ := hlast hr i
    refine ⟨t, ht, hlen, ?_⟩
    have hh : s.histogram = true := by
      by_contra hh
      have : (s.worker i).slot.hist = none := (hs.worker i).plain (by simpa [view] using hh)
      rw [hg] at this
      cases this
    obtain ⟨g', hg', hholds⟩ := hshows.hist hh
    rw [hg] at hg'
    injection hg' with hg'
    subst hg'
    rw [← hb, hholds.hist b]
  . intro hbetween i o s' h j
    exact hs.frozen hbetween h j
  . intro i h
    exact hs.left h
  . intro hr i t ht
    obtain ⟨h1, h2, h3⟩ := hs.times hr ht
    have hdone := hs.done
    have hclock := hs.clock
    refine ⟨h1, h2, h3, ?_, ?_, ?_⟩
    all_goals apply nsBetween_toNat <;> omega
  . intro hr i j t u ht hu hle
    obtain ⟨-, h2, h3⟩ := hs.times hr hu
    have hdone := hs.done
    have hclock := hs.clock
    apply nsBetween_toNat <;> omega

end Inv

/--
The trial protocol is safe for any number of workers and trials, parked or spinning workers, any
outcome of the workers' steps and of the coordinator's choices, and every interleaving.
-/
theorem trial_protocol_safe (n : Nat) (park histogram : Bool) (trialLen : Nat)
    (assignedCpu : Fin n → Int) (schedule : List (SessionAction n))
    : Safe ((init n park histogram trialLen assignedCpu).run schedule) :=
  ((init_inv n park histogram trialLen assignedCpu).run schedule).safe

end Session

end Bench
