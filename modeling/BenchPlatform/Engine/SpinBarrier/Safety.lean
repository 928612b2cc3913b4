import BenchPlatform.Engine.SpinBarrier.Basic
import Mathlib.Data.List.Count
import Mathlib.Tactic.Linarith

/-!
This module proves that `SpinBarrier` is a barrier: the invariant that links the counter, the
generation and the program point of every participant, its preservation by every atomic operation,
and what it says about a whole run.
-/

namespace Bench
namespace SpinBarrier

variable {P : Type}

/--
What the phase says about one participant at `pt` that arrived `a` and returned `r` times.
-/
def PointOk (phase : Nat) (a r : Nat) : BarrierPoint → Prop
  | .outside => a = phase ∧ r = phase
  | .loaded gen => a = phase ∧ r = phase ∧ gen = BitVec.ofNat 64 phase
  | .last gen | .completed gen | .reset gen =>
    a = phase + 1 ∧ r = phase ∧ gen = BitVec.ofNat 64 phase
  | .waiting gen =>
    (a = phase + 1 ∧ r = phase ∧ gen = BitVec.ofNat 64 phase)
      ∨ (a = phase ∧ r + 1 = phase ∧ gen = BitVec.ofNat 64 r)

/--
How often the completion function ran in the phase that a participant at this point completes.
-/
def ran : BarrierPoint → Nat
  | .completed _ | .reset _ => 1
  | _ => 0

variable [Fintype P]

def arrived (b : SpinBarrier P) : Nat :=
  (Finset.univ.filter fun q => b.arrivals q = b.phase + 1).card

/--
The inductive invariant. `quiet` is about the states in which nobody completes a phase, `busy`
about those in which `p` does.
-/
structure Inv (b : SpinBarrier P) : Prop where
  size : b.n = Fintype.card P
  generation : b.generation = BitVec.ofNat 64 b.phase
  points : ∀ p, PointOk b.phase (b.arrivals p) (b.returns p) (b.point p)
  quiet : (∀ p, ¬(b.point p).Completing) →
    b.count = b.n - b.arrived ∧ b.arrived < b.n ∧ b.completions = b.phase
      ∧ b.lasts = List.range b.phase
  busy : ∀ p, (b.point p).Completing →
    (∀ q, q ≠ p → ¬(b.point q).Completing)
      ∧ (∀ q, b.arrivals q = b.phase + 1)
      ∧ b.completions = b.phase + ran (b.point p)
      ∧ b.lasts = List.range (b.phase + 1)
  restored : ∀ p gen, b.point p = .reset gen → b.count = b.n

theorem ofNat_succ_ne (n : Nat) : BitVec.ofNat 64 (n + 1) ≠ BitVec.ofNat 64 n := by
  intro h
  have := congrArg BitVec.toNat h
  simp only [BitVec.toNat_ofNat] at this
  omega

theorem init_inv (P : Type) [Fintype P] [Nonempty P] : Inv (init P (Fintype.card P)) where
  size := rfl
  generation := rfl
  points := fun _ => ⟨rfl, rfl⟩
  quiet := fun _ => ⟨by simp [init, arrived], by simp [init, arrived, Fintype.card_pos], rfl, rfl⟩
  busy := fun _ h => h.elim
  restored := fun _ _ h => by simp [init] at h

namespace Inv

variable {b : SpinBarrier P} {p : P} {gen : BitVec 64}

theorem not_completing (hb : Inv b) (harr : b.arrivals p = b.phase) (q : P)
    : ¬(b.point q).Completing := by
  intro hq
  have := (hb.busy q hq).2.1 p
  omega

theorem arrivals_le (hb : Inv b) (q : P) : b.arrivals q = b.phase ∨ b.arrivals q = b.phase + 1 := by
  have h := hb.points q
  cases hq : b.point q <;> simp only [hq, PointOk] at h <;> omega

theorem returns_le (hb : Inv b) (q : P) : b.returns q ≤ b.phase := by
  have h := hb.points q
  cases hq : b.point q <;> simp only [hq, PointOk] at h <;> omega

theorem exists_not_arrived (hb : Inv b) (h : ∀ p, ¬(b.point p).Completing)
    : ∃ q, b.arrivals q = b.phase := by
  by_contra hall
  simp only [not_exists] at hall
  have hlt := (hb.quiet h).2.1
  have : b.arrived = Fintype.card P := by
    have huniv : (Finset.univ.filter fun q => b.arrivals q = b.phase + 1) = Finset.univ := by
      ext q
      have := hb.arrivals_le q
      have := hall q
      simp only [Finset.mem_filter, Finset.mem_univ, true_and, iff_true]
      omega
    rw [arrived, huniv, Finset.card_univ]
  have := hb.size
  omega

theorem outside (hb : Inv b) (h : b.point p = .outside)
    : b.arrivals p = b.phase ∧ b.returns p = b.phase ∧ b.completions = b.phase := by
  have hp := hb.points p
  simp only [h, PointOk] at hp
  exact ⟨hp.1, hp.2, (hb.quiet (hb.not_completing hp.1)).2.2.1⟩

theorem returns_le_arrivals (hb : Inv b) (q : P) : b.returns q ≤ b.arrivals q := by
  have h := hb.points q
  cases hq : b.point q <;> simp only [hq, PointOk] at h <;> omega

theorem of_arrivals_eq_returns (hb : Inv b) (h : b.arrivals p = b.returns p)
    : b.returns p = b.phase ∧ b.completions = b.phase := by
  have hp := hb.points p
  have harr : b.arrivals p = b.phase := by
    cases hpt : b.point p <;> simp only [hpt, PointOk] at hp <;> omega
  exact ⟨by omega, (hb.quiet (hb.not_completing harr)).2.2.1⟩

theorem stamping (hb : Inv b) (h : b.stamping p) (q : P)
    : b.point q ≠ .outside ∧ b.returns q = b.phase ∧ b.completions = b.phase := by
  have hlast : (b.point p).Completing ∧ ran (b.point p) = 0 := by
    cases hp : b.point p <;> simp [SpinBarrier.stamping, hp, BarrierPoint.Completing, ran] at h ⊢
  obtain ⟨_, harr, hcompl, _⟩ := hb.busy p hlast.1
  have hq := hb.points q
  have := harr q
  refine ⟨?_, ?_, by omega⟩
  . intro hout
    simp only [hout, PointOk] at hq
    omega
  . cases hpt : b.point q <;> simp only [hpt, PointOk] at hq <;> omega

variable [DecidableEq P]

theorem of_goto {pt : BarrierPoint} {r : P → Nat} (hb : Inv b)
    (hold : ¬(b.point p).Completing) (hnew : ¬pt.Completing)
    (hpt : PointOk b.phase (b.arrivals p) (r p) pt) (hr : ∀ q, q ≠ p → r q = b.returns q)
    : Inv { b.goto p pt with returns := r } := by
  have hpoint : ∀ q, ((b.goto p pt).point q).Completing ↔ (b.point q).Completing := by
    intro q
    by_cases hq : q = p
    . subst hq
      simp [goto, hold, hnew]
    . simp [goto, hq]
  constructor
  . exact hb.size
  . exact hb.generation
  . intro q
    by_cases hq : q = p
    . subst hq
      simpa [goto] using hpt
    . simpa [goto, hq, hr q hq] using hb.points q
  . intro h
    apply hb.quiet
    intro q hq
    exact h q ((hpoint q).mpr hq)
  . intro q hq
    obtain ⟨honly, harr, hcompl, hlasts⟩ := hb.busy q ((hpoint q).mp hq)
    have hqp : q ≠ p := by
      intro hqp
      subst hqp
      exact hold ((hpoint q).mp hq)
    refine ⟨?_, harr, ?_, hlasts⟩
    . intro q' hne hq'
      exact honly q' hne ((hpoint q').mp hq')
    . simpa [goto, hqp] using hcompl
  . intro q g hq
    by_cases hqp : q = p
    . subst hqp
      simp only [goto, Function.update_self] at hq
      subst hq
      exact absurd trivial hnew
    . simp only [goto, Function.update_of_ne hqp] at hq
      exact hb.restored q g hq

theorem step_outside (hb : Inv b) (h : b.point p = .outside) : Inv (b.step p) := by
  have hp := hb.points p
  simp only [h, PointOk] at hp
  rw [SpinBarrier.step_outside h]
  apply hb.of_goto (r := b.returns)
  . simp [h, BarrierPoint.Completing]
  . simp [BarrierPoint.Completing]
  . exact ⟨hp.1, hp.2, hb.generation⟩
  . intros
    rfl

theorem arrived_update (b : SpinBarrier P) (harr : b.arrivals p = b.phase)
    : (Finset.univ.filter fun q =>
        Function.update b.arrivals p (b.arrivals p + 1) q = b.phase + 1).card = b.arrived + 1 := by
  have : (Finset.univ.filter fun q =>
      Function.update b.arrivals p (b.arrivals p + 1) q = b.phase + 1)
        = insert p (Finset.univ.filter fun q => b.arrivals q = b.phase + 1) := by
    ext q
    by_cases hq : q = p
    . subst hq
      simp [harr]
    . simp [hq]
  rw [this, Finset.card_insert_of_notMem]
  . rfl
  . simp [harr]

theorem step_loaded (hb : Inv b) (h : b.point p = .loaded gen) : Inv (b.step p) := by
  have hp := hb.points p
  simp only [h, PointOk] at hp
  obtain ⟨harr, hret, hgen⟩ := hp
  have hquiet := hb.not_completing harr
  obtain ⟨hcount, hlt, hcompl, hlasts⟩ := hb.quiet hquiet
  have hupd := arrived_update b harr
  have hpoints : ∀ pt q, PointOk b.phase (b.phase + 1) b.phase pt →
      b.returns p = b.phase →
      PointOk b.phase (Function.update b.arrivals p (b.arrivals p + 1) q) (b.returns q)
        ((b.goto p pt).point q) := by
    intro pt q hpt hr
    by_cases hq : q = p
    . subst hq
      simpa [goto, harr, hr] using hpt
    . simpa [goto, hq] using hb.points q
  by_cases hone : b.count = 1
  . rw [step_loaded_last h hone]
    -- the count was 1, so with this arrival everybody has arrived
    have hall : ∀ q, Function.update b.arrivals p (b.arrivals p + 1) q = b.phase + 1 := by
      have hcard : (Finset.univ.filter fun q =>
          Function.update b.arrivals p (b.arrivals p + 1) q = b.phase + 1).card
            = Fintype.card P := by
        have := hb.size
        omega
      intro q
      have := Finset.eq_univ_of_card _ hcard
      have hq := Finset.mem_univ q
      rw [← this] at hq
      simpa using hq
    constructor
    . exact hb.size
    . exact hb.generation
    . intro q
      exact hpoints (.last gen) q ⟨rfl, rfl, hgen⟩ hret
    . intro hnone
      exact absurd (by simp [goto, BarrierPoint.Completing]) (hnone p)
    . intro q hq
      have hqp : q = p := by
        by_contra hne
        simp only [goto, Function.update_of_ne hne] at hq
        exact hquiet q hq
      subst hqp
      refine ⟨?_, hall, ?_, ?_⟩
      . intro q' hne
        simpa [goto, hne] using hquiet q'
      . simpa [goto, ran] using hcompl
      . simp [goto, hlasts, harr, List.range_succ]
    . intro q g hq
      by_cases hqp : q = p
      . subst hqp
        simp [goto] at hq
      . simp only [goto, Function.update_of_ne hqp] at hq
        exact absurd (by simp [hq, BarrierPoint.Completing]) (hquiet q)
  . rw [step_loaded_wait h hone]
    constructor
    . exact hb.size
    . exact hb.generation
    . intro q
      exact hpoints (.waiting gen) q (.inl ⟨rfl, rfl, hgen⟩) hret
    . intro _
      have : arrived { b.goto p (.waiting gen) with
          count := b.count - 1
          arrivals := Function.update b.arrivals p (b.arrivals p + 1) } = b.arrived + 1 := hupd
      rw [this]
      refine ⟨?_, ?_, hcompl, hlasts⟩
      . simp only [goto]
        omega
      . simp only [goto]
        omega
    . intro q hq
      by_cases hqp : q = p
      . subst hqp
        simp [goto, BarrierPoint.Completing] at hq
      . simp only [goto, Function.update_of_ne hqp] at hq
        exact absurd hq (hquiet q)
    . intro q g hq
      by_cases hqp : q = p
      . subst hqp
        simp [goto] at hq
      . simp only [goto, Function.update_of_ne hqp] at hq
        exact absurd (by simp [hq, BarrierPoint.Completing]) (hquiet q)

theorem of_goto_completing {pt : BarrierPoint} (hb : Inv b) (count : Int) (completions : Nat)
    (hold : (b.point p).Completing) (hnew : pt.Completing)
    (hpt : PointOk b.phase (b.arrivals p) (b.returns p) pt)
    (hcount : ∀ gen, pt = .reset gen → count = b.n)
    (hcompl : completions + ran (b.point p) = b.completions + ran pt)
    : Inv { b.goto p pt with count := count, completions := completions } := by
  obtain ⟨honly, harr, hran, hlasts⟩ := hb.busy p hold
  constructor
  . exact hb.size
  . exact hb.generation
  . intro q
    by_cases hq : q = p
    . subst hq
      simpa [goto] using hpt
    . simpa [goto, hq] using hb.points q
  . intro hnone
    exact absurd (by simpa [goto] using hnew) (hnone p)
  . intro q hq
    have hqp : q = p := by
      by_contra hne
      simp only [goto, Function.update_of_ne hne] at hq
      exact honly q hne hq
    subst hqp
    refine ⟨?_, harr, ?_, hlasts⟩
    . intro q' hne
      simpa [goto, hne] using honly q' hne
    . simp only [goto, Function.update_self]
      omega
  . intro q g hq
    by_cases hqp : q = p
    . subst hqp
      simp only [goto, Function.update_self] at hq
      exact hcount g hq
    . simp only [goto, Function.update_of_ne hqp] at hq
      exact absurd (by simp [hq, BarrierPoint.Completing]) (honly q hqp)

theorem step_last (hb : Inv b) (h : b.point p = .last gen) : Inv (b.step p) := by
  have hp := hb.points p
  simp only [h, PointOk] at hp
  rw [SpinBarrier.step_last h]
  apply hb.of_goto_completing b.count
  . simp [h, BarrierPoint.Completing]
  . simp [BarrierPoint.Completing]
  . exact hp
  . simp
  . simp [h, ran]

theorem step_completed (hb : Inv b) (h : b.point p = .completed gen) : Inv (b.step p) := by
  have hp := hb.points p
  simp only [h, PointOk] at hp
  rw [SpinBarrier.step_completed h]
  apply hb.of_goto_completing _ b.completions
  . simp [h, BarrierPoint.Completing]
  . simp [BarrierPoint.Completing]
  . exact hp
  . intros
    rfl
  . simp [h, ran]

theorem step_reset (hb : Inv b) (h : b.point p = .reset gen) : Inv (b.step p) := by
  obtain ⟨honly, harr, hcompl, hlasts⟩ := hb.busy p (by simp [h, BarrierPoint.Completing])
  have hcount := hb.restored p gen h
  rw [SpinBarrier.step_reset h]
  constructor
  . exact hb.size
  . show b.generation + 1 = BitVec.ofNat 64 (b.phase + 1)
    rw [hb.generation, BitVec.ofNat_add]
    rfl
  . intro q
    have hq := hb.points q
    by_cases hqp : q = p
    . subst hqp
      simp only [h, PointOk] at hq
      simp only [goto, Function.update_self, PointOk]
      right
      refine ⟨hq.1, by omega, ?_⟩
      rw [hq.2.1]
      exact hq.2.2
    . have hnc := honly q hqp
      have ha := harr q
      simp only [goto, Function.update_of_ne hqp]
      cases hpt : b.point q with
      | waiting g =>
        simp only [hpt, PointOk] at hq ⊢
        right
        obtain ⟨h1, h2, h3⟩ | ⟨h1, h2, h3⟩ := hq
        . refine ⟨h1, by omega, ?_⟩
          rw [h2]
          exact h3
        . omega
      | outside => simp only [hpt, PointOk] at hq; omega
      | loaded g => simp only [hpt, PointOk] at hq; omega
      | last g => simp [hpt, BarrierPoint.Completing] at hnc
      | completed g => simp [hpt, BarrierPoint.Completing] at hnc
      | reset g => simp [hpt, BarrierPoint.Completing] at hnc
  . intro _
    have : arrived { b.goto p (.waiting gen) with
        generation := b.generation + 1, phase := b.phase + 1 } = 0 := by
      simp [arrived, goto, harr]
    rw [this]
    refine ⟨?_, ?_, ?_, hlasts⟩
    . simpa [goto] using hcount
    . simp only [goto, hb.size]
      exact Fintype.card_pos_iff.mpr ⟨p⟩
    . simpa [goto, h, ran] using hcompl
  . intro q hq
    by_cases hqp : q = p
    . subst hqp
      simp [goto, BarrierPoint.Completing] at hq
    . simp only [goto, Function.update_of_ne hqp] at hq
      exact absurd hq (honly q hqp)
  . intro q g hq
    by_cases hqp : q = p
    . subst hqp
      simp [goto] at hq
    . simp only [goto, Function.update_of_ne hqp] at hq
      exact absurd (by simp [hq, BarrierPoint.Completing]) (honly q hqp)

theorem step_waiting (hb : Inv b) (h : b.point p = .waiting gen) : Inv (b.step p) := by
  have hp := hb.points p
  simp only [h, PointOk] at hp
  by_cases hgen : b.generation = gen
  . rw [step_waiting_poll h hgen]
    exact hb
  . rw [step_waiting_return h hgen]
    have hold : b.arrivals p = b.phase ∧ b.returns p + 1 = b.phase := by
      obtain ⟨_, _, h3⟩ | ⟨h1, h2, _⟩ := hp
      . exact absurd (hb.generation.trans h3.symm) hgen
      . exact ⟨h1, h2⟩
    apply hb.of_goto
    . simp [h, BarrierPoint.Completing]
    . simp [BarrierPoint.Completing]
    . refine ⟨hold.1, ?_⟩
      rw [Function.update_self]
      exact hold.2
    . intro q hq
      rw [Function.update_of_ne hq]

theorem step (hb : Inv b) (p : P) : Inv (b.step p) := by
  cases h : b.point p with
  | outside => exact hb.step_outside h
  | loaded gen => exact hb.step_loaded h
  | last gen => exact hb.step_last h
  | completed gen => exact hb.step_completed h
  | reset gen => exact hb.step_reset h
  | waiting gen => exact hb.step_waiting h

theorem run (hb : Inv b) (schedule : List P) : Inv (b.run schedule) := by
  apply Trans.invariant (I := Inv)
  . intro b p b' hb h
    injection h with h
    rw [← h]
    exact hb.step p
  . exact hb

omit [DecidableEq P] in
theorem polls (hb : Inv b) (h : b.Polls p) : b.arrivals p = b.phase + 1 ∧ b.returns p = b.phase := by
  have hp := hb.points p
  simp only [Polls] at h
  simp only [h, PointOk] at hp
  obtain ⟨harr, hret, _⟩ | ⟨_, hret, hgen⟩ := hp
  . exact ⟨harr, hret⟩
  . rw [hb.generation, ← hret] at hgen
    exact absurd hgen (ofNat_succ_ne _)

omit [DecidableEq P] in
theorem exists_outside (hb : Inv b) (h : ∀ q, b.Polls q ∨ b.point q = .outside)
    : ∃ q, b.point q = .outside ∧ b.returns q = b.phase := by
  have hquiet : ∀ q, ¬(b.point q).Completing := by
    intro q
    obtain hq | hq := h q
    . simp only [Polls] at hq
      simp [hq, BarrierPoint.Completing]
    . simp [hq, BarrierPoint.Completing]
  obtain ⟨q, harr⟩ := hb.exists_not_arrived hquiet
  obtain hq | hq := h q
  . have := (hb.polls hq).1
    omega
  . exact ⟨q, hq, (hb.outside hq).2.1⟩

end Inv

/--
What the barrier promises. A participant that returned `k + 1` times has returned from phase `k`.
-/
structure Safe (b : SpinBarrier P) : Prop where
  /-- Whoever returned from a phase did so after everybody arrived in it. -/
  returned : ∀ k p q, k < b.returns p → k < b.arrivals q
  /-- A phase has one last arrival once everybody arrived in it, and none before. -/
  one_last : ∀ k, b.lasts.count k = if ∀ q, k < b.arrivals q then 1 else 0
  /-- Every last arrival bumps the generation once, unless it is still about to. -/
  advanced : b.lasts.length
    = b.phase + (Finset.univ.filter fun p => (b.point p).Completing).card
  generation : b.generation = BitVec.ofNat 64 b.phase
  /-- The counter is full whenever nobody has arrived in the current phase yet. -/
  restored : (∀ q, b.arrivals q = b.phase) → b.count = b.n
  /--
  Whoever is about to arrive does so in the current phase, on a counter that has been lowered
  by the arrivals in this phase only.
  -/
  own_phase : ∀ p gen, b.point p = .loaded gen →
    b.arrivals p = b.phase ∧ b.count = b.n - b.arrived

theorem Inv.lasts_eq_range {b : SpinBarrier P} (hb : Inv b)
    : b.lasts = List.range
        (b.phase + (Finset.univ.filter fun p => (b.point p).Completing).card) := by
  by_cases h : ∃ p, (b.point p).Completing
  . obtain ⟨p, hp⟩ := h
    obtain ⟨honly, _, _, hlasts⟩ := hb.busy p hp
    have : (Finset.univ.filter fun p => (b.point p).Completing) = {p} := by
      ext q
      simp only [Finset.mem_filter, Finset.mem_univ, true_and, Finset.mem_singleton]
      constructor
      . intro hq
        by_contra hne
        exact honly q hne hq
      . intro hq
        rw [hq]
        exact hp
    simp [this, hlasts]
  . simp only [not_exists] at h
    simp [h, (hb.quiet h).2.2.2]

theorem Inv.safe {b : SpinBarrier P} (hb : Inv b) : Safe b := by
  constructor
  . intro k p q hk
    have := hb.returns_le p
    have := hb.arrivals_le q
    omega
  . intro k
    by_cases h : ∃ p, (b.point p).Completing
    . obtain ⟨p, hp⟩ := h
      obtain ⟨_, harr, _, hlasts⟩ := hb.busy p hp
      have : Nonempty P := ⟨p⟩
      simp [hlasts, harr, List.count_range]
    . simp only [not_exists] at h
      obtain ⟨q, hq⟩ := hb.exists_not_arrived h
      have hiff : (∀ q, k < b.arrivals q) ↔ k < b.phase := by
        constructor
        . intro hall
          have := hall q
          omega
        . intro hk q
          have := hb.arrivals_le q
          omega
      simp [(hb.quiet h).2.2.2, hiff, List.count_range]
  . have h := congrArg List.length hb.lasts_eq_range
    simpa using h
  . exact hb.generation
  . intro hnone
    have hquiet : ∀ p, ¬(b.point p).Completing := by
      intro p
      exact hb.not_completing (hnone p) p
    rw [(hb.quiet hquiet).1]
    simp [arrived, hnone]
  . intro p gen hp
    have hpt := hb.points p
    simp only [hp, PointOk] at hpt
    exact ⟨hpt.1, (hb.quiet (hb.not_completing hpt.1)).1⟩

/--
Every interleaving of the atomic operations of `n` participants that call the barrier over and
over keeps its promises.
-/
theorem barrier_safe (n : Nat) (hn : 1 ≤ n) (schedule : List (Fin n))
    : Safe ((init (Fin n) n).run schedule) := by
  have : Nonempty (Fin n) := ⟨⟨0, hn⟩⟩
  have hinit := init_inv (Fin n)
  rw [Fintype.card_fin] at hinit
  exact (hinit.run schedule).safe

theorem barrier_safe_two
    : Safe ((init (Fin 2) 2).run [0, 0, 1, 1, 1, 1, 1, 1, 1, 0, 1]) :=
  barrier_safe 2 (by decide) _

end SpinBarrier
end Bench
