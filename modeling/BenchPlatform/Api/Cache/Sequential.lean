import BenchPlatform.Api.Cache.Freshness
import Mathlib.Data.Fintype.Basic

/-!
This module settles what failures of Redis cost when requests come one after the other. An
invalidation that fails, or that the circuit breaker leaves out, must not have had anything to delete.
-/

namespace Api
namespace Cache

variable {κ : Type}

def Fetch.Active (f : Fetch κ) : Prop :=
  match f.point with
  | .get | .load _ | .store _ => True
  | .done _ => False

instance : (f : Fetch κ) → Decidable f.Active
  | { point := .get, .. } | { point := .load _, .. } | { point := .store _, .. } => inferInstanceAs (Decidable True)
  | { point := .done _, .. } => inferInstanceAs (Decidable False)

namespace State

def Idle (s : State κ) : Prop :=
  (∀ f ∈ s.fetches, ¬f.Active) ∧ ∀ g ∈ s.ingests, g.point = .acked

def Alone (s : State κ) : Action κ → Prop
  | .start _ _ | .commit _ => s.Idle
  | .tick _ | .fetch _ _ | .ingest _ _ => True

/--
Nothing can be served that describes the machine.
-/
def Unserved (s : State κ) (m : String) : Prop :=
  ∀ key, ∀ e ∈ s.redis.get s.now key, m ∉ e.machines

/--
The next access of an ingest succeeds, and the circuit is closed, or there is nothing to delete.
-/
def InvalidateOk (s : State κ) (g : Ingest κ) (fails : Bool) : Prop :=
  match g.point with
  | .up => s.circuit.up s.now ∨ s.Unserved g.machine
  | .sMembers | .del _ => fails = false ∨ s.Unserved g.machine
  | .answer | .acked => True

/--
A `Fetch` finds what was stored by one that listed the same machines or more, and an ingest does not
leave out a deletion.
-/
def Invalidates (s : State κ) : Action κ → Prop
  | .fetch i fails => ∀ f ∈ s.fetches[i]?, f.point = .get → fails = false → s.HitOk f
  | .ingest i fails => ∀ g ∈ s.ingests[i]?, s.InvalidateOk g fails
  | .tick _ | .start _ _ | .commit _ => True

def calm (s : State κ) : State κ :=
  { s with circuit := .init }

/--
While a `Fetch` is under way every ingest has been acknowledged, and what it has loaded is current.
-/
structure SeqInv (s : State κ) : Prop where
  inv : Inv s.calm
  acked : (∃ f ∈ s.fetches, f.Active) → ∀ g ∈ s.ingests, g.point = .acked
  current : ∀ f ∈ s.fetches, ∀ body, f.point = .store body → body = s.commits

theorem seqInv_init (κ : Type) {ttl : Nat} (hlasts : SetsLast ttl) : SeqInv (init κ ttl) := by
  refine ⟨init_inv κ hlasts, ?_, ?_⟩ <;> simp [init]

variable {s s' : State κ} {i : Nat} {f : Fetch κ} {g : Ingest κ} {fails : Bool}

theorem calm_stepFetch [DecidableEq κ] (hfails : fails = false ∨ ∃ cached, f.point = .load cached)
    (h : s.stepFetch i f fails = some s')
    : s.calm.stepFetch i f fails = some s'.calm := by
  cases hpt : f.point
  all_goals simp only [stepFetch, hpt] at h ⊢
  case done => cases h
  case load cached =>
    cases fails <;> cases cached <;> cases h <;> rfl
  all_goals
    have hfails : fails = false := by simpa [hpt] using hfails
    subst hfails
    simp only [Bool.false_eq_true, if_false] at h ⊢
  case get =>
    cases hget : s.redis.get s.now f.key with
    | none =>
      simp only [hget, Option.some.injEq] at h
      subst h
      simp only [calm, hget]
      rfl
    | some e =>
      simp only [hget, Option.some.injEq] at h
      subst h
      simp only [calm, hget]
      rfl
  case store body =>
    injection h with h
    subst h
    rfl

namespace SeqInv

theorem storeOk (hs : SeqInv s) (hf : f ∈ s.fetches) {body : Nat} (hpt : f.point = .store body)
    : s.StoreOk f body := by
  intro g hg _
  have hactive : f.Active := by
    unfold Fetch.Active
    rw [hpt]
    trivial
  have hacked := hs.acked ⟨f, hf, hactive⟩ g hg
  unfold Ingest.Spares
  rw [hacked, hs.current f hf body hpt]
  exact hs.inv.commit g hg

theorem fetches (hs : SeqInv s) (hf : s.fetches[i]? = some f) {pt : FetchPoint}
    (hactive : f.Active) (hcurrent : ∀ body, pt = .store body → body = s.commits)
    (hinv : Inv s'.calm) (hfetches : s'.fetches = s.fetches.set i { f with point := pt })
    (hingests : s'.ingests = s.ingests) (hcommits : s'.commits = s.commits)
    : SeqInv s' := by
  refine ⟨hinv, ?_, ?_⟩
  . intro _
    rw [hingests]
    exact hs.acked ⟨f, List.mem_of_getElem? hf, hactive⟩
  . intro f' hf' body hpt
    rw [hfetches] at hf'
    rw [hcommits]
    obtain hf' | rfl := List.mem_or_eq_of_mem_set hf'
    . exact hs.current f' hf' body hpt
    . exact hcurrent body hpt

theorem stepFetch [DecidableEq κ] (hs : SeqInv s) (hf : s.fetches[i]? = some f)
    (hok : s.Invalidates (.fetch i fails)) (h : s.stepFetch i f fails = some s')
    : SeqInv s' := by
  have hmem := List.mem_of_getElem? hf
  have hfok := hs.inv.fetch f hmem
  have hhit := hok f hf
  have hactive : f.Active := by
    unfold Fetch.Active
    split
    . trivial
    . trivial
    . trivial
    . rename_i hdone
      simp [State.stepFetch, hdone] at h
  -- what Redis answers is answered in a race-free way
  have hcalm : (fails = false ∨ ∃ cached, f.point = .load cached) → Inv s'.calm := by
    intro hfails
    refine hs.inv.stepFetch hf ?_ (calm_stepFetch hfails h)
    intro f' hf'
    rw [show s.calm.fetches[i]? = some f from hf] at hf'
    cases hf'
    unfold FetchOk
    cases hpt : f.point
    case load | done => trivial
    all_goals
      have hfails : fails = false := by simpa [hpt] using hfails
      subst hfails
    case get => exact ⟨rfl, hhit hpt rfl⟩
    case store body => exact ⟨rfl, hs.storeOk hmem hpt⟩
  cases hpt : f.point
  all_goals simp only [State.stepFetch, hpt] at h
  case done body => cases h
  case load cached =>
    have hinv := hcalm (.inr ⟨cached, hpt⟩)
    (repeat' split at h) <;> injection h with h <;> subst h
    . exact hs.fetches hf hactive (by rintro _ ⟨⟩) hinv rfl rfl rfl
    . exact hs.fetches hf hactive (fun body hbody => by cases hbody; rfl) hinv rfl rfl rfl
    . exact hs.fetches hf hactive (by rintro _ ⟨⟩) hinv rfl rfl rfl
  case get =>
    split at h
    . injection h with h
      subst h
      have hpassed : Fetch.Ok s.calm { f with point := .load true } :=
        { hfok with store := by simp, done := by simp }
      have hinv := hs.inv.setFetch (i := i) hpassed
      exact hs.fetches hf hactive (by rintro _ ⟨⟩) hinv rfl rfl rfl
    . rename_i hfails
      have hinv := hcalm (.inl (by simpa using hfails))
      split at h <;> injection h with h <;> subst h
      . exact hs.fetches hf hactive (by rintro _ ⟨⟩) hinv rfl rfl rfl
      . exact hs.fetches hf hactive (by rintro _ ⟨⟩) hinv rfl rfl rfl
  case store body =>
    split at h
    . injection h with h
      subst h
      have hpassed : Fetch.Ok s.calm { f with point := .done (some body) } :=
        { hfok with
          store := by simp
          done := by
            intro body' hbody m c hc _
            simp only [FetchPoint.done.injEq, Option.some.injEq] at hbody
            subst hbody
            exact hfok.store _ hpt m c hc }
      have hinv := hs.inv.setFetch (i := i) hpassed
      exact hs.fetches hf hactive (by rintro _ ⟨⟩) hinv rfl rfl rfl
    . rename_i hfails
      have hinv := hcalm (.inl (by simpa using hfails))
      injection h with h
      subst h
      exact hs.fetches hf hactive (by rintro _ ⟨⟩) hinv rfl rfl rfl

theorem ingests (hs : SeqInv s) (hg : g ∈ s.ingests) (hnot : g.point ≠ .acked)
    (hinv : Inv s'.calm) (hfetches : s'.fetches = s.fetches)
    : SeqInv s' := by
  have hidle : ¬∃ f ∈ s.fetches, f.Active := fun h => hnot (hs.acked h g hg)
  refine ⟨hinv, ?_, ?_⟩
  . rw [hfetches]
    exact fun h => absurd h hidle
  . intro f hf body hpt
    rw [hfetches] at hf
    refine absurd ⟨f, hf, ?_⟩ hidle
    unfold Fetch.Active
    rw [hpt]
    trivial

theorem stepIngest [DecidableEq κ] (hs : SeqInv s) (hg : s.ingests[i]? = some g)
    (hok : s.Invalidates (.ingest i fails)) (h : s.stepIngest i g fails = some s')
    : SeqInv s' := by
  have hmem := List.mem_of_getElem? hg
  have hgok := hok g hg
  have hname := hs.inv.name g hmem
  have hnot : g.point ≠ .acked := by
    intro hacked
    simp [State.stepIngest, hacked] at h
  -- an ingest without anything to delete may stop
  have hstop : s.Unserved g.machine → ∀ pt, Inv (s.calm.setIngest i { g with point := pt }) := by
    intro hunserved pt
    exact hs.inv.setIngest hg hnot fun key e he hm => absurd hm (hunserved key e he)
  unfold InvalidateOk at hgok
  cases hpt : g.point
  all_goals simp only [State.stepIngest, hpt] at h hgok
  case acked => cases h
  case up =>
    split at h
    . injection h with h
      subst h
      have hinv : (s.calm.setIngest i { g with point := .sMembers }).Inv :=
        hs.inv.setIngest hg hnot fun _ _ _ _ => trivial
      exact hs.ingests hmem hnot hinv rfl
    . rename_i hdown
      injection h with h
      subst h
      have hunserved : s.Unserved g.machine :=
        hgok.resolve_left fun hup => hdown ⟨hup, hname⟩
      exact hs.ingests hmem hnot (hstop hunserved _) rfl
  case sMembers =>
    split at h
    . rename_i hfails
      injection h with h
      subst h
      have hunserved : s.Unserved g.machine := hgok.resolve_left (by simp [hfails])
      exact hs.ingests hmem hnot (hstop hunserved _) rfl
    . have hcalm : s.calm.stepIngest i g false = some s'.calm := by
        simp only [State.stepIngest, hpt, Bool.false_eq_true, if_false, calm]
        split at h <;> injection h with h <;> subst h
        . rename_i hempty
          exact if_pos hempty
        . rename_i hempty
          exact if_neg hempty
      have hfetches : s'.fetches = s.fetches := by
        split at h <;> injection h with h <;> subst h <;> rfl
      exact hs.ingests hmem hnot (hs.inv.stepIngest hg rfl hcalm) hfetches
  case del members =>
    split at h
    . rename_i hfails
      injection h with h
      subst h
      have hunserved : s.Unserved g.machine := hgok.resolve_left (by simp [hfails])
      exact hs.ingests hmem hnot (hstop hunserved _) rfl
    . injection h with h
      have hcalm : s.calm.stepIngest i g false = some s'.calm := by
        subst h
        simp only [State.stepIngest, hpt, Bool.false_eq_true, if_false]
        rfl
      have hfetches : s'.fetches = s.fetches := by
        subst h
        rfl
      exact hs.ingests hmem hnot (hs.inv.stepIngest hg rfl hcalm) hfetches
  case answer =>
    injection h with h
    have hcalm : s.calm.stepIngest i g false = some s'.calm := by
      subst h
      simp only [State.stepIngest, hpt]
      rfl
    have hfetches : s'.fetches = s.fetches := by
      subst h
      rfl
    exact hs.ingests hmem hnot (hs.inv.stepIngest hg rfl hcalm) hfetches

theorem step [DecidableEq κ] {a : Action κ} (hs : SeqInv s) (halone : s.Alone a)
    (hok : s.Invalidates a) (h : s.step a = some s')
    : SeqInv s' := by
  cases a with
  | tick d =>
    injection h with h
    subst h
    exact ⟨hs.inv.tick d, hs.acked, hs.current⟩
  | start key machines =>
    injection h with h
    subst h
    refine ⟨hs.inv.start key machines ?_, fun _ => halone.2, ?_⟩
    . split
      . exact .inl rfl
      . exact .inr rfl
    . intro f hf body hpt
      obtain hf | hf := List.mem_append.mp hf
      . exact hs.current f hf body hpt
      . rw [List.mem_singleton] at hf
        subst hf
        dsimp only at hpt
        split at hpt <;> cases hpt
  | fetch i fails =>
    obtain ⟨f, hf, hstep⟩ := Option.bind_eq_some_iff.mp h
    exact hs.stepFetch hf hok hstep
  | commit machine =>
    simp only [State.step] at h
    split at h
    . cases h
    . rename_i hm
      injection h with h
      subst h
      refine ⟨hs.inv.commits hm, ?_, ?_⟩
      . rintro ⟨f, hf, hactive⟩
        exact absurd hactive (halone.1 f hf)
      . intro f hf body hpt
        refine absurd ?_ (halone.1 f hf)
        unfold Fetch.Active
        rw [hpt]
        trivial
  | ingest i fails =>
    obtain ⟨g, hg, hstep⟩ := Option.bind_eq_some_iff.mp h
    exact hs.stepIngest hg hok hstep

end SeqInv
variable [DecidableEq κ]

instance (s : State κ) (a : Action κ) : Decidable (s.Alone a) :=
  match a with
  | .start _ _ | .commit _ => inferInstanceAs (Decidable ((∀ _ ∈ _, ¬_) ∧ ∀ _ ∈ _, _ = _))
  | .tick _ | .fetch _ _ | .ingest _ _ => inferInstanceAs (Decidable True)

instance [Fintype κ] (s : State κ) (m : String) : Decidable (s.Unserved m) := by
  unfold Unserved
  infer_instance

instance [Fintype κ] (s : State κ) (g : Ingest κ) (fails : Bool)
    : Decidable (s.InvalidateOk g fails) :=
  match g with
  | { machine, point := .up, .. } => inferInstanceAs (Decidable (s.circuit.up s.now ∨ s.Unserved machine))
  | { machine, point := .sMembers, .. } | { machine, point := .del _, .. } =>
    inferInstanceAs (Decidable (fails = false ∨ s.Unserved machine))
  | { point := .answer, .. } | { point := .acked, .. } => inferInstanceAs (Decidable True)

instance [Fintype κ] (s : State κ) (a : Action κ) : Decidable (s.Invalidates a) :=
  match a with
  | .fetch i fails =>
    inferInstanceAs (Decidable (∀ f ∈ s.fetches[i]?, f.point = .get → fails = false → s.HitOk f))
  | .ingest i fails => inferInstanceAs (Decidable (∀ g ∈ s.ingests[i]?, s.InvalidateOk g fails))
  | .tick _ | .start _ _ | .commit _ => inferInstanceAs (Decidable True)

/--
When requests are handled one after the other and no deletion is left out, whatever fails, no `Fetch`
returns a body from before an ingest that was acknowledged when it started, unless ten times the ttl
wraps.
-/
theorem fetch_fresh_of_invalidates (ttl : Nat) (hlasts : SetsLast ttl)
    (schedule : List (Action κ))
    (h : Trans.Along step (fun s a => s.Alone a ∧ s.Invalidates a) (init κ ttl) schedule)
    : Fresh ((init κ ttl).run schedule) := by
  have hinv : SeqInv ((init κ ttl).run schedule) :=
    Trans.invariant_of_along (fun _ _ _ hs hok hstep => hs.step hok.1 hok.2 hstep)
      (seqInv_init κ hlasts) schedule h
  intro f hf
  exact (hinv.inv.fetch f hf).done

/--
The ingest finds the circuit open, but what was cached has expired by then.
-/
theorem fetch_fresh_of_invalidates_open
    : Fresh ((init Bool second).run
        [.start true ["m"], .fetch 0 false, .fetch 0 false, .fetch 0 false, .tick second,
          .start true ["m"], .fetch 1 true, .fetch 1 false, .fetch 1 true, .start true ["m"],
          .fetch 2 true, .fetch 2 false, .fetch 2 true, .commit "m", .ingest 0 false,
          .ingest 0 false, .tick (60 * second), .start true ["m"], .fetch 3 false, .fetch 3 false,
          .fetch 3 false]) :=
  fetch_fresh_of_invalidates second (setsLast_of_lt (by decide)) _ (by decide)

/--
The commands of an ingest fail, and the next `Fetch` finds what they should have deleted.
-/
theorem fetch_stale_of_failure
    : ¬∀ schedule : List (Action Bool),
        Trans.Along step (fun s a => s.Alone a) (init Bool (60 * second)) schedule →
        Fresh ((init Bool (60 * second)).run schedule) := by
  intro h
  have hfresh := h
    [.start true ["m"], .fetch 0 false, .fetch 0 false, .fetch 0 false, .commit "m",
      .ingest 0 false, .ingest 0 true, .ingest 0 false, .start true ["m"], .fetch 1 false]
    (by decide)
  have hstale : (1 : Nat) ≤ 0 := by
    apply hfresh ⟨true, ["m"], [("m", 1)], .done (some 0)⟩ _ 0 rfl "m" 1
    . simp
    . simp
    . exact List.mem_of_getElem? (i := 1) rfl
  omega

end State
end Cache
end Api
