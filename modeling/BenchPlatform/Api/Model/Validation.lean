import BenchPlatform.Api.Model.Basic

/-!
This module proves what the two validations of an envelope accept. They differ in the order of the
timestamps: the one of a whole envelope does not compare with a zero start.
-/

namespace Api
namespace Model

theorem Machine.Valid.id_ne {m : Machine} (h : m.Valid) : m.id ≠ "" := by
  intro hnil
  have hid := h.id
  rw [hnil] at hid
  revert hid
  decide

namespace RunEnvelope

variable {e : RunEnvelope}

/--
What both validations check: all of the header but the order of its timestamps, `start` and `finish`.
-/
structure Checked (e : RunEnvelope) (start finish : Time) : Prop where
  schemaVersion : e.schemaVersion = 1
  runID : uuidRe e.runID
  started : ParseTimestamp e.startedAt = .ok start
  finished : ParseTimestamp e.finishedAt = .ok finish
  machine : e.machine.Valid

theorem validateIDs_eq_nil : e.validateIDs = [] ↔ e.schemaVersion = 1 ∧ uuidRe e.runID := by
  simp [validateIDs]

theorem validateResults_eq_nil {rs : List Result} {i : Nat} {p : Problems}
    : validateResults rs i p = [] ↔ p = [] ∧ ∀ r ∈ rs, r.Valid := by
  induction rs generalizing i p with
  | nil => simp [validateResults]
  | cons r rs ih =>
    rw [validateResults, ih, Result.validate_eq_nil, List.forall_mem_cons, and_assoc]

theorem validateOrder_eq_nil {start finish : Time} {p : Problems}
    : e.validateOrder (.ok start) (.ok finish) p = []
      ↔ p = [] ∧ (start.IsZero ∨ ¬finish.Before start) := by
  simp [validateOrder]

theorem eq_nil_of_validateOrder {started finished : Except GoError Time} {p : Problems}
    (h : e.validateOrder started finished p = [])
    : p = [] := by
  unfold validateOrder at h
  split at h
  . exact h
  . exact (Problems.check_eq_nil.mp h).1

theorem Validate_eq_ok
    : e.Validate = .ok () ↔ ∃ start finish, e.Checked start finish
        ∧ (start.IsZero ∨ ¬finish.Before start) ∧ ∀ r ∈ e.results.getD [], r.Valid := by
  unfold Validate
  simp only [ite_eq_left_iff, reduceCtorEq, imp_false, not_not, validateResults_eq_nil,
    Machine.validate_eq_nil]
  constructor
  . rintro ⟨⟨horder, hmachine⟩, hresults⟩
    -- the timestamps have been parsed, or there would be a problem
    have hparsed := eq_nil_of_validateOrder horder
    simp only [Problems.addErr_eq_nil] at hparsed
    obtain ⟨⟨_, start, hstart⟩, finish, hfinish⟩ := hparsed
    rw [hstart, hfinish, validateOrder_eq_nil] at horder
    have hids := validateIDs_eq_nil.mp horder.1
    exact ⟨start, finish, ⟨hids.1, hids.2, hstart, hfinish, hmachine⟩, horder.2, hresults⟩
  . rintro ⟨start, finish, hchecked, horder, hresults⟩
    rw [hchecked.started, hchecked.finished, validateOrder_eq_nil]
    exact ⟨⟨⟨validateIDs_eq_nil.mpr ⟨hchecked.schemaVersion, hchecked.runID⟩, horder⟩,
      hchecked.machine⟩, hresults⟩

theorem validateHeader_eq_ok {n : Nat}
    : e.validateHeader n = .ok () ↔ ∃ start finish, e.Checked start finish
        ∧ ¬finish.Before start ∧ n ≠ 0 := by
  unfold validateHeader
  simp only [ite_eq_left_iff, reduceCtorEq, imp_false, not_not, Problems.check_eq_nil,
    Machine.validate_eq_nil]
  constructor
  . rintro ⟨⟨horder, hmachine⟩, hn⟩
    split at horder
    . rename_i start finish hstart hfinish
      simp only [Problems.check_eq_nil, Problems.addErr_eq_nil] at horder
      have hids := validateIDs_eq_nil.mp horder.1.1.1
      exact ⟨start, finish, ⟨hids.1, hids.2, hstart, hfinish, hmachine⟩, horder.2, hn⟩
    . rename_i hunparsed
      simp only [Problems.addErr_eq_nil] at horder
      obtain ⟨⟨_, start, hstart⟩, finish, hfinish⟩ := horder
      exact (hunparsed start finish hstart hfinish).elim
  . rintro ⟨start, finish, hchecked, horder, hn⟩
    rw [hchecked.started, hchecked.finished]
    simp only [Problems.check_eq_nil, Problems.addErr_eq_nil]
    exact ⟨⟨⟨⟨⟨validateIDs_eq_nil.mpr ⟨hchecked.schemaVersion, hchecked.runID⟩, start, rfl⟩,
      finish, rfl⟩, horder⟩, hchecked.machine⟩, hn⟩

theorem Checked.headerDone {start finish : Time} (h : e.Checked start finish)
    : e.runID ≠ "" ∧ e.machine.id ≠ "" := by
  constructor
  . intro hnil
    have hid := h.runID
    rw [hnil] at hid
    revert hid
    decide
  . exact h.machine.id_ne

end RunEnvelope
end Model
end Api
