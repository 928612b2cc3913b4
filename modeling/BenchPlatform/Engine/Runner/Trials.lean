import BenchPlatform.Engine.Runner.Basic

/-!
This module contains what holds of a session after any number of its trials: its counters and rows
follow from its log, and the log has the warmup trials first.
-/

namespace Bench
namespace ConfigSession

variable {D : Type} [Double D] {cfg : RunConfig D} {sess sess' : ConfigSession D}
  {reading : TrialReading D}

def trials_of (warmup : Bool) (log : List (Bool × TrialReading D)) : List (TrialReading D) :=
  (log.filter (·.1 = warmup)).map (·.2)

def warmups (sess : ConfigSession D) : List (TrialReading D) :=
  trials_of true sess.log

def recorded (sess : ConfigSession D) : List (TrialReading D) :=
  trials_of false sess.log

def rows_of (spec : ConfigSpec) (recorded : List (TrialReading D)) : List (Result D) :=
  recorded.zipIdx.flatMap fun (reading, t) => spec.metrics.map (row spec t reading)

def values_of (spec : ConfigSpec) (recorded : List (TrialReading D)) (m : Metric) : List D :=
  recorded.map fun reading => (row spec 0 reading m).value

def fresh (id : Nat) (spec : ConfigSpec) : ConfigSession D :=
  { id := id, spec := spec, warmups_done := 0, timed_done := 0, late_trials := 0, active_ns := 0,
    values := spec.metrics.map fun _ => [], results := [], log := [] }

structure Tracks (cfg : RunConfig D) (sess : ConfigSession D) : Prop where
  log : sess.log = sess.warmups.map (true, ·) ++ sess.recorded.map (false, ·)
  timed_done : sess.timed_done = sess.recorded.length
  late_trials : sess.late_trials = sess.recorded.countP (·.late)
  results : sess.results = rows_of sess.spec sess.recorded
  values : sess.values = sess.spec.metrics.map (values_of sess.spec sess.recorded)
  past_warmup : sess.recorded ≠ [] → sess.in_warmup cfg = false
  bound : (sess.recorded.length : Int) ≤ cfg.trials

def remaining (cfg : RunConfig D) (sess : ConfigSession D) : Nat :=
  (cfg.warmup_trials.toNat - sess.warmups_done)
    + (cfg.warmup_ms.toNat * 10 ^ 6 - sess.active_ns) + (cfg.trials.toNat - sess.timed_done)

omit [Double D] in
theorem in_warmup_eq_false
    : sess.in_warmup cfg = false
      ↔ cfg.warmup_trials ≤ sess.warmups_done ∧ cfg.warmup_ms.toNat * 10 ^ 6 ≤ sess.active_ns := by
  simp [in_warmup]

omit [Double D] in
theorem wants_more_trials_eq_false
    : sess.wants_more_trials cfg = false
      ↔ sess.in_warmup cfg = false ∧ cfg.trials ≤ sess.timed_done := by
  simp [wants_more_trials]

omit [Double D] in
@[simp]
theorem trials_of_append (warmup : Bool) (log log' : List (Bool × TrialReading D))
    : trials_of warmup (log ++ log') = trials_of warmup log ++ trials_of warmup log' := by
  simp [trials_of]

section Record

variable (sess reading)

@[simp]
theorem record_spec (warmup : Bool) : (sess.record warmup reading).1.spec = sess.spec := rfl

@[simp]
theorem record_id (warmup : Bool) : (sess.record warmup reading).1.id = sess.id := rfl

@[simp]
theorem record_warmup_warmups
    : (sess.record true reading).1.warmups = sess.warmups ++ [reading] := by
  unfold warmups
  exact trials_of_append true sess.log [(true, reading)]

@[simp]
theorem record_warmup_recorded : (sess.record true reading).1.recorded = sess.recorded := by
  unfold recorded
  refine (trials_of_append false sess.log [(true, reading)]).trans ?_
  exact List.append_nil _

@[simp]
theorem record_timed_warmups : (sess.record false reading).1.warmups = sess.warmups := by
  unfold warmups
  refine (trials_of_append true sess.log [(false, reading)]).trans ?_
  exact List.append_nil _

@[simp]
theorem record_timed_recorded
    : (sess.record false reading).1.recorded = sess.recorded ++ [reading] := by
  unfold recorded
  exact trials_of_append false sess.log [(false, reading)]

end Record

theorem record_in_warmup (warmup : Bool) (h : sess.in_warmup cfg = false)
    : (sess.record warmup reading).1.in_warmup cfg = false := by
  rw [in_warmup_eq_false] at h ⊢
  unfold record
  dsimp only
  constructor
  . split <;> omega
  . omega

theorem remaining_record (h : sess.wants_more_trials cfg = true)
    : (sess.record (sess.in_warmup cfg) reading).1.remaining cfg < sess.remaining cfg := by
  have hlasted := reading.lasted
  cases hwarmup : sess.in_warmup cfg with
  | true =>
    have hneeds : (sess.warmups_done : Int) < cfg.warmup_trials
        ∨ sess.active_ns < cfg.warmup_ms.toNat * 10 ^ 6 := by
      simpa [in_warmup] using hwarmup
    simp only [remaining, record, if_true]
    omega
  | false =>
    have hneeds : (sess.timed_done : Int) < cfg.trials := by
      simpa [wants_more_trials, hwarmup] using h
    simp only [remaining, record, Bool.false_eq_true, if_false]
    omega

theorem rows_of_append (spec : ConfigSpec) (recorded : List (TrialReading D)) (reading : TrialReading D)
    : rows_of spec (recorded ++ [reading])
      = rows_of spec recorded ++ spec.metrics.map (row spec recorded.length reading) := by
  unfold rows_of
  rw [List.zipIdx_append, List.flatMap_append]
  simp

theorem zipWith_values (spec : ConfigSpec) (recorded : List (TrialReading D)) (t : Int)
    (reading : TrialReading D) (metrics : List Metric)
    : (metrics.map (values_of spec recorded)).zipWith (fun v r => v ++ [r.value])
        (metrics.map (row spec t reading))
      = metrics.map (values_of spec (recorded ++ [reading])) := by
  induction metrics with
  | nil => rfl
  | cons m metrics ih =>
    rw [List.map_cons, List.map_cons, List.zipWith_cons_cons, ih, List.map_cons]
    congr 1
    unfold values_of
    rw [List.map_append]
    rfl

namespace Tracks

theorem fresh (id : Nat) (spec : ConfigSpec) (h : 1 ≤ cfg.trials)
    : (fresh id spec : ConfigSession D).Tracks cfg where
  log := rfl
  timed_done := rfl
  late_trials := rfl
  results := rfl
  values := rfl
  past_warmup := fun h => absurd rfl h
  bound := by
    change (0 : Int) ≤ _
    omega

theorem record_warmup (hs : sess.Tracks cfg) (h : sess.in_warmup cfg = true)
    : (sess.record true reading).1.Tracks cfg := by
  have hnone : sess.recorded = [] := by
    by_contra hsome
    rw [hs.past_warmup hsome] at h
    cases h
  constructor
  . rw [record_warmup_warmups, record_warmup_recorded, hnone, List.map_append]
    have hlog := hs.log
    rw [hnone] at hlog
    change sess.log ++ [(true, reading)] = _
    rw [hlog]
    simp
  . rw [record_warmup_recorded]
    exact hs.timed_done
  . rw [record_warmup_recorded]
    exact hs.late_trials
  . rw [record_warmup_recorded]
    exact hs.results
  . rw [record_warmup_recorded]
    exact hs.values
  . rw [record_warmup_recorded]
    exact fun hsome => absurd hnone hsome
  . rw [record_warmup_recorded]
    exact hs.bound

theorem record_timed (hs : sess.Tracks cfg) (hover : sess.in_warmup cfg = false)
    (h : (sess.timed_done : Int) < cfg.trials)
    : (sess.record false reading).1.Tracks cfg := by
  have htimed := hs.timed_done
  constructor
  . rw [record_timed_warmups, record_timed_recorded, List.map_append, ← List.append_assoc, ← hs.log]
    rfl
  . rw [record_timed_recorded, List.length_append]
    change sess.timed_done + 1 = _
    rw [htimed]
    rfl
  . rw [record_timed_recorded, List.countP_append, ← hs.late_trials, List.countP_singleton]
    cases hlate : reading.late <;> simp [record, hlate]
  . rw [record_timed_recorded, record_spec, rows_of_append, ← hs.results, ← htimed]
    change sess.results ++ sess.spec.metrics.map (row sess.spec ((sess.timed_done + 1 : Nat) - 1) reading)
      = _
    have hnumber : ((sess.timed_done + 1 : Nat) : Int) - 1 = sess.timed_done := by omega
    rw [hnumber]
  . rw [record_timed_recorded, record_spec, ← zipWith_values, ← hs.values]
    rfl
  . exact fun _ => record_in_warmup false hover
  . rw [record_timed_recorded, List.length_append, ← htimed]
    change ((sess.timed_done + 1 : Nat) : Int) ≤ cfg.trials
    omega

theorem record (hs : sess.Tracks cfg) (h : sess.wants_more_trials cfg = true)
    : (sess.record (sess.in_warmup cfg) reading).1.Tracks cfg := by
  cases hwarmup : sess.in_warmup cfg with
  | true => exact hs.record_warmup hwarmup
  | false =>
    apply hs.record_timed hwarmup
    simpa [wants_more_trials, hwarmup] using h

theorem complete (hs : sess.Tracks cfg) (h : sess.wants_more_trials cfg = false)
    : (sess.recorded.length : Int) = cfg.trials := by
  have htrials := (wants_more_trials_eq_false.mp h).2
  rw [hs.timed_done] at htrials
  exact le_antisymm hs.bound htrials

end Tracks

end ConfigSession
end Bench
