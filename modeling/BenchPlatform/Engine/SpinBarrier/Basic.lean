import BenchPlatform.Lib.Trans
import Mathlib.Data.Fintype.Card
import Mathlib.Logic.Function.Basic

/-!
This module contains `SpinBarrier` at the granularity of its atomic operations. One step of a
participant is one operation of `arrive` or one poll of the wait loop; what other participants do
in between is up to the schedule.
-/

namespace Bench

/--
The program points of a call of `arrive_and_wait`. Each carries the generation that `arrive`
loaded, as the local variable `gen` does.
-/
inductive BarrierPoint where
  /-- Not in a call. -/
  | outside
  /-- `generation_.load()` is done, `count_.fetch_sub(1)` is next. -/
  | loaded (gen : BitVec 64)
  /-- `fetch_sub` returned 1: the completion function is next. -/
  | last (gen : BitVec 64)
  /-- The completion function is done, `count_.store(n_)` is next. -/
  | completed (gen : BitVec 64)
  /-- The count is restored, `generation_.fetch_add(1)` is next. -/
  | reset (gen : BitVec 64)
  /-- `arrive` returned `gen`: the wait loop polls the generation. -/
  | waiting (gen : BitVec 64)
  deriving DecidableEq, Repr

def BarrierPoint.Completing : BarrierPoint → Prop
  | .last _ | .completed _ | .reset _ => True
  | _ => False

instance (pt : BarrierPoint) : Decidable pt.Completing := by
  cases pt <;> unfold BarrierPoint.Completing <;> infer_instance

/--
The barrier and where each of its participants is. `arrive_and_wait` and
`arrive_and_wait_polling` perform the same atomic operations (the second sleeps between two
polls), so a participant may be in a call of either. The last five fields are history: how often
each participant arrived and returned, how often the generation was bumped and the completion
function ran, and the phase of every arrival that found the count at 1.
-/
structure SpinBarrier (P : Type) where
  n : Nat
  count : Int
  generation : BitVec 64
  point : P → BarrierPoint
  arrivals : P → Nat
  returns : P → Nat
  phase : Nat
  completions : Nat
  lasts : List Nat

namespace SpinBarrier

variable {P : Type} [DecidableEq P]

/--
A barrier that was just constructed for `n` participants.
-/
def init (P : Type) (n : Nat) : SpinBarrier P where
  n := n
  count := n
  generation := 0
  point := fun _ => .outside
  arrivals := fun _ => 0
  returns := fun _ => 0
  phase := 0
  completions := 0
  lasts := []

def goto (b : SpinBarrier P) (p : P) (pt : BarrierPoint) : SpinBarrier P :=
  { b with point := Function.update b.point p pt }

/--
The next atomic operation of participant `p`. A participant that is outside starts a call.
-/
def step (b : SpinBarrier P) (p : P) : SpinBarrier P :=
  match b.point p with
  | .outside => b.goto p (.loaded b.generation)
  | .loaded gen =>
    if b.count = 1 then
      { b.goto p (.last gen) with
        count := b.count - 1
        arrivals := Function.update b.arrivals p (b.arrivals p + 1)
        lasts := b.lasts ++ [b.arrivals p] }
    else
      { b.goto p (.waiting gen) with
        count := b.count - 1
        arrivals := Function.update b.arrivals p (b.arrivals p + 1) }
  | .last gen => { b.goto p (.completed gen) with completions := b.completions + 1 }
  -- before the bump: the next phase sees a full count
  | .completed gen => { b.goto p (.reset gen) with count := b.n }
  | .reset gen =>
    { b.goto p (.waiting gen) with
      generation := b.generation + 1
      phase := b.phase + 1 }
  | .waiting gen =>
    if b.generation = gen then
      b
    else
      { b.goto p .outside with returns := Function.update b.returns p (b.returns p + 1) }

def returning (b : SpinBarrier P) (p : P) : Bool :=
  match b.point p with
  | .waiting gen => b.generation != gen
  | _ => false

def stamping (b : SpinBarrier P) (p : P) : Bool :=
  match b.point p with
  | .last _ => true
  | _ => false

/--
The barrier after a schedule, which names the participant that takes each step.
-/
def run (b : SpinBarrier P) (schedule : List P) : SpinBarrier P :=
  Trans.run (fun b p => some (b.step p)) b schedule

variable {b : SpinBarrier P} {p : P} {gen : BitVec 64}

theorem step_outside (h : b.point p = .outside) : b.step p = b.goto p (.loaded b.generation) := by
  simp [step, h]

theorem step_loaded_last (h : b.point p = .loaded gen) (hcount : b.count = 1)
    : b.step p =
      { b.goto p (.last gen) with
        count := b.count - 1
        arrivals := Function.update b.arrivals p (b.arrivals p + 1)
        lasts := b.lasts ++ [b.arrivals p] } := by
  simp [step, h, hcount]

theorem step_loaded_wait (h : b.point p = .loaded gen) (hcount : b.count ≠ 1)
    : b.step p =
      { b.goto p (.waiting gen) with
        count := b.count - 1
        arrivals := Function.update b.arrivals p (b.arrivals p + 1) } := by
  simp [step, h, hcount]

theorem step_last (h : b.point p = .last gen)
    : b.step p = { b.goto p (.completed gen) with completions := b.completions + 1 } := by
  simp [step, h]

theorem step_completed (h : b.point p = .completed gen)
    : b.step p = { b.goto p (.reset gen) with count := b.n } := by
  simp [step, h]

theorem step_reset (h : b.point p = .reset gen)
    : b.step p =
      { b.goto p (.waiting gen) with generation := b.generation + 1, phase := b.phase + 1 } := by
  simp [step, h]

theorem step_waiting_poll (h : b.point p = .waiting gen) (hgen : b.generation = gen)
    : b.step p = b := by
  simp [step, h, hgen]

theorem step_waiting_return (h : b.point p = .waiting gen) (hgen : b.generation ≠ gen)
    : b.step p =
      { b.goto p .outside with returns := Function.update b.returns p (b.returns p + 1) } := by
  simp [step, h, hgen]

@[simp]
theorem step_n : (b.step p).n = b.n := by
  unfold step
  split
  all_goals (try split) <;> rfl

theorem step_point_of_ne {q : P} (h : q ≠ p) : (b.step p).point q = b.point q := by
  unfold step
  split
  all_goals (try split) <;> simp [goto, h]

theorem step_of_returning (h : b.returning p)
    : (b.step p).point p = .outside ∧ (b.step p).returns p = b.returns p + 1 := by
  cases hp : b.point p with
  | waiting gen =>
    have hgen : b.generation ≠ gen := by simpa [returning, hp] using h
    rw [step_waiting_return hp hgen]
    simp [goto]
  | _ => simp [returning, hp] at h

theorem step_returns_of_not_returning (h : ¬b.returning p) : (b.step p).returns = b.returns := by
  cases hp : b.point p with
  | waiting gen =>
    have hgen : b.generation = gen := by simpa [returning, hp] using h
    rw [step_waiting_poll hp hgen]
  | loaded gen =>
    simp only [step, hp]
    split <;> rfl
  | _ => simp [step, hp, goto]

omit [DecidableEq P] in
theorem stamping_of_returning (h : b.returning p) : b.stamping p = false := by
  cases hp : b.point p <;> simp [returning, stamping, hp] at h ⊢

theorem step_completions
    : (b.step p).completions = if b.stamping p then b.completions + 1 else b.completions := by
  cases hp : b.point p with
  | loaded gen =>
    simp only [step, hp, stamping]
    split <;> rfl
  | waiting gen =>
    simp only [step, hp, stamping]
    split <;> rfl
  | _ => simp [step, hp, goto, stamping]

theorem phase_le_step : b.phase ≤ (b.step p).phase := by
  cases hp : b.point p with
  | loaded gen =>
    simp only [step, hp]
    split <;> exact Nat.le_refl _
  | waiting gen =>
    simp only [step, hp]
    split <;> exact Nat.le_refl _
  | _ => simp [step, hp, goto]

theorem step_phase_of_returning (h : b.returning p) : (b.step p).phase = b.phase := by
  cases hp : b.point p with
  | waiting gen =>
    have hgen : b.generation ≠ gen := by simpa [returning, hp] using h
    rw [step_waiting_return hp hgen]
    rfl
  | _ => simp [returning, hp] at h

/--
The next step of the participant is a poll that fails.
-/
def Polls (b : SpinBarrier P) (p : P) : Prop :=
  b.point p = .waiting b.generation

theorem step_ne_of_not_polls (h : ¬b.Polls p) : b.step p ≠ b := by
  intro hstep
  have hpoint : (b.step p).point p = b.point p := by rw [hstep]
  cases hp : b.point p with
  | loaded gen =>
    simp only [step, hp] at hpoint
    split at hpoint <;> simp [goto] at hpoint
  | waiting gen =>
    have hgen : b.generation ≠ gen := by
      rintro rfl
      exact h hp
    rw [step_waiting_return hp hgen, hp] at hpoint
    simp [goto] at hpoint
  | _ => simp [step, hp, goto] at hpoint

theorem step_returns_of_ne {q : P} (h : q ≠ p) : (b.step p).returns q = b.returns q := by
  unfold step
  split
  all_goals (try split) <;> simp [goto, h]

end SpinBarrier

end Bench
