import BenchPlatform.Engine.Session.Basic
import Mathlib.Tactic.Linarith
import Mathlib.Data.BitVec

/-!
This module contains the invariant of one worker of a `ConfigSession`: what its program point says
about its laps around the two barriers, its slot, its histograms and the times it has measured. The
rest of the session enters through a `View`; there is one preservation lemma for each way in which
the view or the worker can change.
-/

namespace Bench

/--
The part of a session that the invariant of worker `i` depends on.
-/
structure View where
  histogram : Bool
  clock : Nat
  tRelease : Nat
  tDone : Nat
  stop : Bool
  startPoint : BarrierPoint
  startReturns : Nat
  startCompletions : Nat
  endPoint : BarrierPoint
  endReturns : Nat
  endCompletions : Nat

def Session.view {n : Nat} (s : Session n) (i : Fin n) : View where
  histogram := s.histogram
  clock := s.clock
  tRelease := s.tRelease
  tDone := s.tDone
  stop := s.stop i
  startPoint := s.startB.point (some i)
  startReturns := s.startB.returns (some i)
  startCompletions := s.startB.completions
  endPoint := s.endB.point (some i)
  endReturns := s.endB.returns (some i)
  endCompletions := s.endB.completions

namespace Session

variable {n : Nat} {s : Session n} {i j : Fin n} {w : Worker}

@[simp]
theorem setWorker_self : (s.setWorker i w).worker i = w := by
  simp [setWorker]

@[simp]
theorem setWorker_of_ne (h : j ≠ i) : (s.setWorker i w).worker j = s.worker j := by
  simp [setWorker, h]

@[simp]
theorem setWorker_eq_self : s.setWorker i (s.worker i) = s := by
  simp [setWorker]

@[simp]
theorem view_setWorker : (s.setWorker i w).view j = s.view j := rfl

theorem view_stepStart_of_returning (h : s.startB.returning (some i))
    : (s.stepStart (some i)).view i
      = { s.view i with
          startPoint := .outside
          startReturns := (s.view i).startReturns + 1 } := by
  obtain ⟨hpoint, hreturns⟩ := SpinBarrier.step_of_returning h
  have hstamp := SpinBarrier.stamping_of_returning h
  simp [view, stepStart, hpoint, hreturns, SpinBarrier.step_completions, hstamp]

theorem view_stepEnd_of_returning (h : s.endB.returning (some i))
    : (s.stepEnd (some i)).view i
      = { s.view i with
          endPoint := .outside
          endReturns := (s.view i).endReturns + 1 } := by
  obtain ⟨hpoint, hreturns⟩ := SpinBarrier.step_of_returning h
  have hstamp := SpinBarrier.stamping_of_returning h
  simp [view, stepEnd, hpoint, hreturns, SpinBarrier.step_completions, hstamp]

end Session

namespace WorkerPoint

def laps : WorkerPoint → Nat
  | .stopRequested | .slotColdNs | .slotPreNs | .slotCpuStart | .t0 | .runBatch | .now
  | .slotStart | .slotEnd | .slotOps | .slotBatches | .slotHist | .slotHistUsed | .slotCpuEnd
  | .endBarrier | .left => 1
  | _ => 0

def InTrial (pt : WorkerPoint) : Prop :=
  pt.laps = 1 ∧ pt ≠ .endBarrier

end WorkerPoint

/--
The slot of a worker and the histogram that it points to show the trial `t`.
-/
structure Slot.Shows (histogram : Bool) (slot : Slot) (hists : Histograms) (t : Trial) : Prop where
  coldNs : slot.coldNs = t.coldNs
  preNs : slot.preNs = t.preNs
  cpuStart : slot.cpuStart = t.cpuStart
  cpuEnd : slot.cpuEnd = t.cpuEnd
  start : slot.start = t.start
  finish : slot.finish = t.finish
  ops : slot.ops = t.units.sum
  batches : slot.batches = BitVec.ofNat 64 t.units.length
  histUsed : histogram → slot.histUsed = usedBuckets t.latencies
  hist : histogram → ∃ h, slot.hist = some h ∧ hists.Holds h t.latencies

/--
The worker shows the last trial that it finished.
-/
def Worker.Settled (histogram : Bool) (w : Worker) : Prop :=
  ∀ t, w.produced.getLast? = some t → w.slot.Shows histogram w.hists t

def Worker.Current (w : Worker) : Prop :=
  ∀ h, w.slot.hist = some h → h = w.hists.cur

/--
A worker that records nothing leaves the current histogram empty.
-/
def Worker.Unused (histogram : Bool) (w : Worker) : Prop :=
  ¬(w.ok ∧ histogram) → w.hists.used w.hists.cur = 0

/--
The measurement of the trial in progress: the local variables against its history.
-/
structure Worker.Measured (v : View) (w : Worker) : Prop where
  coldNs : w.slot.coldNs = w.coldNs
  preNs : w.slot.preNs = w.preNs
  cpuStart : w.slot.cpuStart = w.cpuStart
  released : v.tRelease ≤ w.t0
  ordered : w.t0 ≤ w.now
  clock : w.now ≤ v.clock
  ops : w.ops = w.units.sum
  batches : w.batches = BitVec.ofNat 64 w.units.length
  holds : w.hists.Holds w.hists.cur w.latencies
  unused : w.Unused v.histogram

/--
The first `k` of the six fields that are written after the timed region.
-/
structure Worker.Written (v : View) (w : Worker) (k : Nat) : Prop where
  start : 1 ≤ k → w.slot.start = w.t0
  finish : 2 ≤ k → w.slot.finish = w.now
  ops : 3 ≤ k → w.slot.ops = w.ops
  batches : 4 ≤ k → w.slot.batches = w.batches
  hist : 5 ≤ k → v.histogram → w.slot.hist = some w.hists.cur
  histUsed : 6 ≤ k → v.histogram → w.slot.histUsed = w.hists.used w.hists.cur

/--
What the program point says about the worker's data.
-/
def Worker.Facts (v : View) (w : Worker) : Prop :=
  match w.point with
  | .unborn | .pin | .setup | .countDown =>
    w.produced = [] ∧ w.slot.hist = none ∧ w.hists.used w.hists.cur = 0
  | .gateWait | .p0 | .beforeTrial | .endBarrier =>
    w.Settled v.histogram ∧ w.Current ∧ w.Unused v.histogram
  | .c0 | .c1 | .startBarrier => w.Settled v.histogram ∧ w.hists.used w.hists.cur = 0
  | .stopRequested | .slotColdNs | .left => w.hists.used w.hists.cur = 0
  | .slotPreNs => w.hists.used w.hists.cur = 0 ∧ w.slot.coldNs = w.coldNs
  | .slotCpuStart =>
    w.hists.used w.hists.cur = 0 ∧ w.slot.coldNs = w.coldNs ∧ w.slot.preNs = w.preNs
  | .t0 =>
    w.hists.used w.hists.cur = 0 ∧ w.slot.coldNs = w.coldNs ∧ w.slot.preNs = w.preNs
      ∧ w.slot.cpuStart = w.cpuStart
  | .runBatch | .now => w.ok ∧ w.Measured v
  | .slotStart => w.Measured v
  | .slotEnd => w.Measured v ∧ w.Written v 1
  | .slotOps => w.Measured v ∧ w.Written v 2
  | .slotBatches => w.Measured v ∧ w.Written v 3
  | .slotHist => w.Measured v ∧ w.Written v 4 ∧ v.histogram
  | .slotHistUsed => w.Measured v ∧ w.Written v 5
  | .slotCpuEnd => w.Measured v ∧ w.Written v 6

structure WorkerInv (v : View) (w : Worker) : Prop where
  startPoint : w.point ≠ .startBarrier → v.startPoint = .outside
  endPoint : w.point ≠ .endBarrier → v.endPoint = .outside
  laps : v.startReturns = v.endReturns + w.point.laps
  produced : w.produced.length = v.endReturns + if w.point = .endBarrier then 1 else 0
  plain : v.histogram = false → w.slot.hist = none
  facts : w.Facts v
  trials : ∀ t ∈ w.produced, t.start ≤ t.finish ∧ t.finish ≤ v.clock
  /-- While the stamp of the release is the one of the last trial. -/
  release : w.produced.length = v.startCompletions →
    ∀ t, w.produced.getLast? = some t → v.tRelease ≤ t.start
  /-- Once the end of the last trial is stamped. -/
  done : w.produced.length ≤ v.endCompletions →
    ∀ t, w.produced.getLast? = some t → t.finish ≤ v.tDone
  left : w.point = .left → v.stop

namespace WorkerInv

variable {v : View} {w w' : Worker}

theorem move (hw : WorkerInv v w) (hstart : w.point ≠ .startBarrier) (hend : w.point ≠ .endBarrier)
    (hend' : w'.point ≠ .endBarrier) (hlaps : w'.point.laps = w.point.laps)
    (hproduced : w'.produced = w.produced) (hplain : v.histogram = false → w'.slot.hist = none)
    (hfacts : w'.Facts v) (hleft : w'.point = .left → v.stop)
    : WorkerInv v w' where
  startPoint := fun _ => hw.startPoint hstart
  endPoint := fun _ => hw.endPoint hend
  laps := by rw [hlaps, hw.laps]
  produced := by simpa [hproduced, hend, hend'] using hw.produced
  plain := hplain
  facts := hfacts
  trials := by simpa [hproduced] using hw.trials
  release := by simpa [hproduced] using hw.release
  done := by simpa [hproduced] using hw.done
  left := hleft

end WorkerInv

section Step

variable {n : Nat} {s : Session n} {i : Fin n} {o : Outcome} {v : View} {w w' : Worker}

theorem Worker.Settled.beforeTrial (hs : w.Settled v.histogram) (hcurrent : w.Current)
    : Settled v.histogram { w with hists := w.hists.beforeTrial, point := .c0 } := by
  intro t ht
  refine { hs t ht with hist := ?_ }
  intro hh
  obtain ⟨h, hhist, hholds⟩ := (hs t ht).hist hh
  have := hcurrent h hhist
  subst this
  exact ⟨w.hists.cur, hhist, hholds.beforeTrial⟩

theorem Worker.Measured.record {ns : Nat} {pt : WorkerPoint} (hm : w.Measured v)
    (hused : w.ok ∧ v.histogram)
    : Measured v
        { w with hists := w.hists.record ns, latencies := w.latencies ++ [ns], point := pt } :=
  { hm with
    holds := hm.holds.record
    unused := fun h => absurd hused h }

theorem Worker.Measured.settled {cpuEnd : Int} (hm : w.Measured v) (hw : w.Written v 6)
    : Settled v.histogram
        { w with
          slot := { w.slot with cpuEnd := cpuEnd }
          produced := w.produced ++ [w.trial cpuEnd]
          point := .endBarrier } := by
  intro t ht
  simp only [List.getLast?_append, List.getLast?_singleton, Option.some_or,
    Option.some.injEq] at ht
  subst ht
  constructor
  . exact hm.coldNs
  . exact hm.preNs
  . exact hm.cpuStart
  . rfl
  . exact hw.start (by decide)
  . exact hw.finish (by decide)
  . exact (hw.ops (by decide)).trans hm.ops
  . exact (hw.batches (by decide)).trans hm.batches
  . intro hh
    exact (hw.histUsed (by decide) hh).trans hm.holds.used
  . intro hh
    exact ⟨w.hists.cur, hw.hist (by decide) hh, hm.holds⟩

theorem Worker.step_facts (hf : w.Facts (s.view i)) (hclock : s.tRelease ≤ s.clock)
    (hplain : s.histogram = false → w.slot.hist = none)
    (h : w.step s i o = some w')
    : w'.Facts (s.view i) := by
  cases hpt : w.point
  all_goals simp only [step, hpt, Option.some.injEq, reduceCtorEq] at h
  all_goals simp only [Facts, hpt] at hf
  case pin =>
    subst h
    exact hf
  case gateWait =>
    obtain ⟨hsettled, hcurrent, hunused⟩ := hf
    -- a worker whose setup failed goes straight to the barrier
    have hnext : ∀ seen, Facts (s.view i)
        { w with gateSeen := seen, point := if w.ok then .p0 else .startBarrier } := by
      intro seen
      by_cases hok : w.ok
      . rw [if_pos hok]
        exact ⟨hsettled, hcurrent, hunused⟩
      . rw [if_neg hok]
        exact ⟨hsettled, hunused (by simp [hok])⟩
    split at h
    . split at h
      . cases h
      . injection h with h
        subst h
        exact hnext _
    . injection h with h
      subst h
      exact hnext _
  case p0 =>
    subst h
    exact hf
  case beforeTrial =>
    obtain ⟨hsettled, hcurrent, hunused⟩ := hf
    subst h
    by_cases hh : s.histogram
    . rw [if_pos hh]
      exact ⟨hsettled.beforeTrial hcurrent, by simp⟩
    . rw [if_neg hh]
      exact ⟨hsettled, hunused (by simp [hh, Session.view])⟩
  case c0 =>
    subst h
    exact hf
  case c1 =>
    subst h
    exact hf
  case stopRequested =>
    subst h
    by_cases hstop : s.stop i
    . rw [if_pos hstop]
      exact hf
    . rw [if_neg hstop]
      exact hf
  case slotColdNs =>
    subst h
    exact ⟨hf, rfl⟩
  case slotPreNs =>
    subst h
    exact ⟨hf.1, hf.2, rfl⟩
  case slotCpuStart =>
    subst h
    exact ⟨hf.1, hf.2.1, hf.2.2, rfl⟩
  case t0 =>
    obtain ⟨hused, hcold, hpre, hcpu⟩ := hf
    have hm : ∀ pt, Measured (s.view i)
        { w with
          ops := 0, batches := 0, t0 := s.clock, now := s.clock, units := [], latencies := []
          point := pt } := by
      intro pt
      exact ⟨hcold, hpre, hcpu, hclock, Nat.le_refl _, Nat.le_refl _, rfl, rfl,
        Histograms.holds_nil hused, fun _ => hused⟩
    subst h
    by_cases hok : w.ok
    . rw [if_pos hok]
      exact ⟨hok, hm .runBatch⟩
    . rw [if_neg hok]
      exact hm .slotStart
  case runBatch =>
    obtain ⟨hok, hm⟩ := hf
    split at h
    . split at h
      . rename_i ns hh
        injection h with h
        subst h
        simp only [Facts]
        exact ⟨hok, hm.record ⟨hok, hh⟩⟩
      . cases h
    . injection h with h
      subst h
      refine ⟨hok, { hm with ops := ?_, batches := ?_ }⟩
      . simp [hm.ops]
      . simp [hm.batches, BitVec.ofNat_add]
  case now =>
    obtain ⟨hok, hm⟩ := hf
    have hm' : ∀ pt, Measured (s.view i) { w with now := s.clock, point := pt } := by
      intro pt
      exact { hm with ordered := hm.ordered.trans hm.clock, clock := Nat.le_refl _ }
    subst h
    by_cases hlen : s.clock - w.t0 < s.trialLen
    . rw [if_pos hlen]
      exact ⟨hok, hm' .runBatch⟩
    . rw [if_neg hlen]
      exact hm' .slotStart
  case slotStart =>
    subst h
    exact ⟨{ hf with }, by constructor <;> simp⟩
  case slotEnd =>
    subst h
    exact ⟨{ hf.1 with }, by constructor <;> simp [hf.2.start]⟩
  case slotOps =>
    subst h
    exact ⟨{ hf.1 with }, by constructor <;> simp [hf.2.start, hf.2.finish]⟩
  case slotBatches =>
    have hm : ∀ pt, Measured (s.view i)
        { w with slot := { w.slot with batches := w.batches }, point := pt } := by
      intro pt
      exact { hf.1 with }
    subst h
    by_cases hh : s.histogram
    . rw [if_pos hh]
      exact ⟨hm .slotHist, by constructor <;> simp [hf.2.start, hf.2.finish, hf.2.ops], hh⟩
    . rw [if_neg hh]
      refine ⟨hm .slotCpuEnd, ?_⟩
      constructor <;> simp [hf.2.start, hf.2.finish, hf.2.ops, Session.view, hh]
  case slotHist =>
    subst h
    obtain ⟨hm, hw, -⟩ := hf
    refine ⟨{ hm with }, ?_⟩
    constructor <;> simp [hw.start, hw.finish, hw.ops, hw.batches]
  case slotHistUsed =>
    subst h
    refine ⟨{ hf.1 with }, ?_⟩
    have := hf.2.hist
    constructor <;> simp_all [hf.2.start, hf.2.finish, hf.2.ops, hf.2.batches]
  case slotCpuEnd =>
    obtain ⟨hm, hw⟩ := hf
    subst h
    refine ⟨hm.settled hw, ?_, hm.unused⟩
    intro g hg
    by_cases hh : s.histogram
    . have := hw.hist (by decide) hh
      simp_all
    . have := hplain (by simpa using hh)
      simp_all

theorem Worker.step_plain (hf : w.Facts (s.view i)) (hplain : w.slot.hist = none)
    (hh : s.histogram = false) (h : w.step s i o = some w')
    : w'.slot.hist = none := by
  cases hpt : w.point
  case slotHist =>
    simp only [Facts, hpt, Session.view, hh] at hf
    exact absurd hf.2.2 (by decide)
  all_goals simp only [step, hpt, Option.some.injEq, reduceCtorEq] at h
  all_goals (repeat' split at h) <;> cases h <;> exact hplain

theorem Worker.step_of_ne_slotCpuEnd (hpt : w.point ≠ .slotCpuEnd) (h : w.step s i o = some w')
    : w.point ≠ .startBarrier ∧ w.point ≠ .endBarrier ∧ w'.point ≠ .endBarrier
        ∧ w'.point.laps = w.point.laps ∧ w'.produced = w.produced
        ∧ (w'.point = .left → s.stop i) := by
  cases hp : w.point
  case slotCpuEnd => exact absurd hp hpt
  all_goals simp only [step, hp, Option.some.injEq, reduceCtorEq] at h
  all_goals refine ⟨by decide, by decide, ?_⟩
  case gateWait =>
    cases hok : w.ok
    all_goals simp only [hok] at h
    all_goals (repeat' split at h) <;> cases h <;> simp [WorkerPoint.laps]
  case stopRequested =>
    cases hstop : s.stop i
    all_goals simp only [hstop] at h
    all_goals cases h
    all_goals simp [WorkerPoint.laps]
  all_goals (repeat' split at h) <;> cases h <;> simp_all [WorkerPoint.laps]

end Step

namespace WorkerInv

variable {n : Nat} {s : Session n} {i : Fin n} {o : Outcome} {v : View} {w w' : Worker}

theorem finish {cpuEnd : Int} (hw : WorkerInv v w) (hpt : w.point = .slotCpuEnd)
    (hend : v.endPoint = .outside → v.endCompletions = v.endReturns)
    (hfacts : Worker.Facts v
      { w with
        slot := { w.slot with cpuEnd := cpuEnd }
        produced := w.produced ++ [w.trial cpuEnd]
        point := .endBarrier })
    : WorkerInv v
        { w with
          slot := { w.slot with cpuEnd := cpuEnd }
          produced := w.produced ++ [w.trial cpuEnd]
          point := .endBarrier } := by
  have hm : w.Measured v := by
    have := hw.facts
    simp only [Worker.Facts, hpt] at this
    exact this.1
  have hlen : w.produced.length = v.endReturns := by simpa [hpt] using hw.produced
  constructor
  . intro _
    exact hw.startPoint (by simp [hpt])
  . intro h
    exact absurd rfl h
  . simpa [hpt, WorkerPoint.laps] using hw.laps
  . simp [hlen]
  . exact hw.plain
  . exact hfacts
  . intro t ht
    simp only [List.mem_append, List.mem_singleton] at ht
    obtain ht | ht := ht
    . exact hw.trials t ht
    . subst ht
      exact ⟨hm.ordered, hm.clock⟩
  . intro _ t ht
    simp only [List.getLast?_append, List.getLast?_singleton, Option.some_or,
      Option.some.injEq] at ht
    subst ht
    exact hm.released
  . intro hdone
    have := hend (hw.endPoint (by simp [hpt]))
    simp only [List.length_append, List.length_singleton] at hdone
    omega
  . intro h
    cases h

theorem step (hw : WorkerInv (s.view i) w) (hclock : s.tRelease ≤ s.clock)
    (hend : s.endB.point (some i) = .outside → s.endB.completions = s.endB.returns (some i))
    (h : w.step s i o = some w')
    : WorkerInv (s.view i) w' := by
  have hfacts := Worker.step_facts hw.facts hclock hw.plain h
  by_cases hpt : w.point = .slotCpuEnd
  . simp only [Worker.step, hpt, Option.some.injEq] at h
    subst h
    exact hw.finish hpt hend hfacts
  . obtain ⟨hstart, hend, hend', hlaps, hproduced, hleft⟩ := Worker.step_of_ne_slotCpuEnd hpt h
    have hplain : s.histogram = false → w'.slot.hist = none := by
      intro hh
      exact Worker.step_plain hw.facts (hw.plain hh) hh h
    exact hw.move hstart hend hend' hlaps hproduced hplain hfacts hleft

theorem facts_of_view {v' : View} (hf : w.Facts v) (hh : v'.histogram = v.histogram)
    (hclock : v.clock ≤ v'.clock) (hrelease : v'.tRelease = v.tRelease ∨ w.point = .startBarrier)
    : w.Facts v' := by
  obtain hrelease | hpt := hrelease
  . have hm : w.Measured v → w.Measured v' := by
      intro hm
      exact { hm with
        released := hrelease ▸ hm.released
        clock := hm.clock.trans hclock
        unused := hh ▸ hm.unused }
    have hwr : ∀ k, w.Written v k → w.Written v' k := by
      intro k hwr
      exact { hwr with hist := hh ▸ hwr.hist, histUsed := hh ▸ hwr.histUsed }
    cases hpt : w.point <;> simp only [Worker.Facts, hpt, hh] at hf ⊢
    all_goals tauto
  . simp only [Worker.Facts, hpt, hh] at hf ⊢
    exact hf

theorem tick (hw : WorkerInv v w) {c : Nat} (hc : v.clock ≤ c) : WorkerInv { v with clock := c } w :=
  { hw with
    facts := facts_of_view hw.facts rfl hc (.inl rfl)
    trials := fun t ht => ⟨(hw.trials t ht).1, (hw.trials t ht).2.trans hc⟩ }

theorem setStop (hw : WorkerInv v w) : WorkerInv { v with stop := true } w :=
  { hw with
    facts := facts_of_view hw.facts rfl (Nat.le_refl _) (.inl rfl)
    left := fun _ => rfl }

theorem atStart (hw : WorkerInv v w) (pt : BarrierPoint) (hpt : w.point = .startBarrier)
    : WorkerInv { v with startPoint := pt } w :=
  { hw with
    startPoint := fun h => absurd hpt h
    facts := facts_of_view hw.facts rfl (Nat.le_refl _) (.inl rfl) }

theorem stampRelease (hw : WorkerInv v w) (hpt : w.point = .startBarrier)
    (hphase : v.startReturns = v.startCompletions)
    : WorkerInv { v with startCompletions := v.startCompletions + 1, tRelease := v.clock } w :=
  { hw with
    facts := facts_of_view hw.facts rfl (Nat.le_refl _) (.inr hpt)
    release := by
      intro h
      have hlaps := hw.laps
      have hproduced := hw.produced
      simp only [hpt, WorkerPoint.laps, reduceCtorEq, if_false] at hlaps hproduced
      simp only at h
      omega }

theorem atEnd (hw : WorkerInv v w) (pt : BarrierPoint) (hpt : w.point = .endBarrier)
    : WorkerInv { v with endPoint := pt } w :=
  { hw with
    endPoint := fun h => absurd hpt h
    facts := facts_of_view hw.facts rfl (Nat.le_refl _) (.inl rfl) }

theorem stampDone (hw : WorkerInv v w)
    : WorkerInv { v with endCompletions := v.endCompletions + 1, tDone := v.clock } w :=
  { hw with
    facts := facts_of_view hw.facts rfl (Nat.le_refl _) (.inl rfl)
    done := fun _ t ht => (hw.trials t (List.mem_of_getLast? ht)).2 }

theorem returnFromStart (hw : WorkerInv v w) (hpt : w.point = .startBarrier)
    : WorkerInv { v with startPoint := .outside, startReturns := v.startReturns + 1 }
        { w with point := .stopRequested } := by
  have hf := hw.facts
  have hlaps := hw.laps
  have hproduced := hw.produced
  simp only [Worker.Facts, hpt] at hf
  simp only [hpt, WorkerPoint.laps, reduceCtorEq, if_false] at hlaps hproduced
  exact { hw with
    startPoint := fun _ => rfl
    endPoint := fun _ => hw.endPoint (by simp [hpt])
    laps := by simp [hlaps, WorkerPoint.laps]
    produced := by simpa using hproduced
    facts := hf.2
    left := fun h => by cases h }

theorem returnFromEnd (hw : WorkerInv v w) (hpt : w.point = .endBarrier)
    : WorkerInv { v with endPoint := .outside, endReturns := v.endReturns + 1 }
        { w with point := .gateWait } := by
  have hf := hw.facts
  have hlaps := hw.laps
  have hproduced := hw.produced
  simp only [Worker.Facts, hpt] at hf
  simp only [hpt, WorkerPoint.laps, if_true] at hlaps hproduced
  exact { hw with
    startPoint := fun _ => hw.startPoint (by simp [hpt])
    endPoint := fun _ => rfl
    laps := by simp [hlaps, WorkerPoint.laps]
    produced := by simpa using hproduced
    facts := hf
    left := fun h => by cases h }

theorem frozen (hw : WorkerInv (s.view i) w) (hout : ¬w.point.InTrial) (hproduced : w.produced ≠ [])
    (h : w.step s i o = some w')
    : w'.slot = w.slot
        ∧ ∀ g, w.slot.hist = some g → w'.hists.hist g = w.hists.hist g := by
  have hf := hw.facts
  cases hpt : w.point
  all_goals simp only [Worker.step, hpt, Option.some.injEq, reduceCtorEq] at h
  all_goals simp only [Worker.Facts, hpt] at hf
  case beforeTrial =>
    subst h
    refine ⟨rfl, ?_⟩
    intro g hg
    have := hf.2.1 g hg
    subst this
    by_cases hh : s.histogram <;> simp [hh]
  case pin => exact absurd hf.1 hproduced
  case gateWait =>
    (repeat' split at h) <;> cases h <;> exact ⟨rfl, fun _ _ => rfl⟩
  case p0 | c0 | c1 =>
    subst h
    exact ⟨rfl, fun _ _ => rfl⟩
  all_goals simp [WorkerPoint.InTrial, WorkerPoint.laps, hpt] at hout

end WorkerInv

end Bench
