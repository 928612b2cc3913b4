import Mathlib.Data.Option.Basic

/-!
This module contains the runs of a system that is given by a partial step function: which states
a schedule of actions leads to, and the rules that carry an invariant or a projection from one
step to a whole run.
-/

namespace Trans

variable {σ τ α β : Type*}

/--
The state after one scheduled action. An action that is not enabled leaves the state alone, so
that every list of actions is a schedule.
-/
def next (step : σ → α → Option σ) (s : σ) (a : α) : σ :=
  (step s a).getD s

def run (step : σ → α → Option σ) (s : σ) : List α → σ
  | [] => s
  | a :: as => run step (next step s a) as

/--
Every action of the schedule that is taken satisfies `ok` in the state it is taken in.
-/
def Along (step : σ → α → Option σ) (ok : σ → α → Prop) (s : σ) : List α → Prop
  | [] => True
  | a :: as => ((step s a).isSome → ok s a) ∧ Along step ok (next step s a) as

instance Along.decidable (step : σ → α → Option σ) (ok : σ → α → Prop)
    [∀ s a, Decidable (ok s a)] (s : σ) (as : List α)
    : Decidable (Along step ok s as) :=
  match as with
  | [] => inferInstanceAs (Decidable True)
  | a :: as =>
    have := Along.decidable step ok (next step s a) as
    inferInstanceAs (Decidable (((step s a).isSome → ok s a) ∧ _))

variable {step : σ → α → Option σ} {ok : σ → α → Prop} {s : σ}

@[simp]
theorem run_nil : run step s [] = s := rfl

@[simp]
theorem run_cons (a : α) (as : List α) : run step s (a :: as) = run step (next step s a) as := rfl

theorem next_of_some {s' : σ} {a : α} (h : step s a = some s') : next step s a = s' := by
  simp [next, h]

theorem run_append (as bs : List α)
    : run step s (as ++ bs) = run step (run step s as) bs := by
  induction as generalizing s with
  | nil => rfl
  | cons a as ih => simp only [List.cons_append, run_cons, ih]

theorem along_true (as : List α) : Along step (fun _ _ => True) s as := by
  induction as generalizing s with
  | nil => trivial
  | cons a as ih => exact ⟨fun _ => trivial, ih⟩

theorem along_append {as bs : List α}
    : Along step ok s (as ++ bs) ↔ Along step ok s as ∧ Along step ok (run step s as) bs := by
  induction as generalizing s with
  | nil => simp [Along]
  | cons a as ih => simp only [List.cons_append, Along, run_cons, ih, and_assoc]

theorem invariant_of_along {I : σ → Prop} (hstep : ∀ s a s', I s → ok s a → step s a = some s' → I s')
    (hs : I s) (as : List α) (hok : Along step ok s as)
    : I (run step s as) := by
  induction as generalizing s with
  | nil => exact hs
  | cons a as ih =>
    apply ih
    . cases h : step s a with
      | none => simpa [next, h] using hs
      | some s' =>
        rw [next_of_some h]
        exact hstep s a s' hs (hok.1 (by simp [h])) h
    . exact hok.2

theorem invariant {I : σ → Prop} (hstep : ∀ s a s', I s → step s a = some s' → I s')
    (hs : I s) (as : List α)
    : I (run step s as) := by
  refine invariant_of_along ?_ hs as (along_true as)
  intro s a s' hi _ h
  exact hstep s a s' hi h

theorem along_iff {I P : σ → Prop} (hstep : ∀ s a s', I s → ok s a → step s a = some s' → I s')
    (hP : ∀ s, I s → P s) (hok : ∀ s a s', I s → step s a = some s' → P s' → ok s a) (hs : I s)
    (as : List α)
    : Along step ok s as ↔ ∀ pre, pre <+: as → P (run step s pre) := by
  constructor
  . rintro h pre ⟨post, rfl⟩
    apply hP
    exact invariant_of_along hstep hs pre (along_append.mp h).1
  . intro h
    induction as generalizing s with
    | nil => trivial
    | cons a as ih =>
      have hnext : (step s a).isSome → ok s a := by
        intro hsome
        obtain ⟨s', hs'⟩ := Option.isSome_iff_exists.mp hsome
        apply hok s a s' hs hs'
        rw [← next_of_some hs']
        exact h [a] ⟨as, rfl⟩
      refine ⟨hnext, ih ?_ fun pre hpre => h (a :: pre) (List.cons_prefix_cons.mpr ⟨rfl, hpre⟩)⟩
      cases hs' : step s a with
      | none => simpa [next, hs'] using hs
      | some s' =>
        rw [next_of_some hs']
        exact hstep s a s' hs (hnext (by simp [hs'])) hs'

theorem project {step' : τ → β → Option τ} (f : σ → τ)
    (hstep : ∀ s a s', step s a = some s' → ∃ bs, f s' = run step' (f s) bs) (as : List α)
    : ∃ bs, f (run step s as) = run step' (f s) bs := by
  induction as generalizing s with
  | nil => exact ⟨[], rfl⟩
  | cons a as ih =>
    obtain ⟨bs, hbs⟩ : ∃ bs, f (next step s a) = run step' (f s) bs := by
      cases h : step s a with
      | none => exact ⟨[], by simp [next, h]⟩
      | some s' =>
        rw [next_of_some h]
        exact hstep s a s' h
    obtain ⟨cs, hcs⟩ := ih (s := next step s a)
    refine ⟨bs ++ cs, ?_⟩
    rw [run_append, ← hbs]
    exact hcs

end Trans
