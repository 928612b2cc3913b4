import BenchPlatform.Api.Cache.Basic

/-!
This module settles when a `Fetch` that starts after an ingest was acknowledged can return a body
from before that ingest. A body must not be stored after an ingest for a machine it describes has
looked for the keys to delete: then it is never found by that ingest, nor by a later one.
-/

namespace Api
namespace Cache

variable {κ : Type}

/--
An ingest does not leave a body under `key` stale: it has not looked for the keys yet, it is about
to delete this one, or the body was loaded after its commit.
-/
def Ingest.Spares (g : Ingest κ) (key : κ) (body : Nat) : Prop :=
  match g.point with
  | .up | .sMembers => True
  | .del members => key ∈ members
  | .answer | .acked => g.commit ≤ body

instance [DecidableEq κ] (g : Ingest κ) (key : κ) (body : Nat) : Decidable (g.Spares key body) :=
  match g with
  | { point := .up, .. } | { point := .sMembers, .. } => inferInstanceAs (Decidable True)
  | { point := .del members, .. } => inferInstanceAs (Decidable (key ∈ members))
  | { commit, point := .answer, .. } | { commit, point := .acked, .. } => inferInstanceAs (Decidable (commit ≤ body))

def Action.Succeeds : Action κ → Prop
  | .fetch _ fails | .ingest _ fails => fails = false
  | .tick _ | .start _ _ | .commit _ => True

instance (a : Action κ) : Decidable a.Succeeds := by
  unfold Action.Succeeds
  split <;> infer_instance

namespace State

/--
A `Fetch` may store `body`: no ingest for a machine that it lists has missed the key.
-/
def StoreOk (s : State κ) (f : Fetch κ) (body : Nat) : Prop :=
  ∀ g ∈ s.ingests, g.machine ∈ f.machines → g.Spares f.key body

/--
What a `Fetch` finds was stored by one that listed the same machines or more.
-/
def HitOk (s : State κ) (f : Fetch κ) : Prop :=
  ∀ e ∈ s.redis.get s.now f.key, ∀ m ∈ f.machines, m ∈ e.machines

/--
The next access of a `Fetch`, if it is one of Redis, succeeds and comes in a right moment.
-/
def FetchOk (s : State κ) (f : Fetch κ) (fails : Bool) : Prop :=
  match f.point with
  | .get => fails = false ∧ s.HitOk f
  | .store body => fails = false ∧ s.StoreOk f body
  | .load _ | .done _ => True

def RaceFree (s : State κ) : Action κ → Prop
  | .fetch i fails => ∀ f ∈ s.fetches[i]?, s.FetchOk f fails
  | .ingest _ fails => fails = false
  | .tick _ | .start _ _ | .commit _ => True

/--
No `Fetch` has returned a body that was loaded before an ingest for one of its machines that had been
acknowledged when it started.
-/
def Fresh (s : State κ) : Prop :=
  ∀ f ∈ s.fetches, ∀ body, f.point = .done (some body) →
    ∀ m c, (m, c) ∈ f.acked → m ∈ f.machines → c ≤ body

end State

/--
The part of the invariant about a body that can still be served.
-/
structure Entry.Ok (s : State κ) (key : κ) (e : Entry) : Prop where
  expires : e.expires ≤ s.now + s.ttl
  registered : ∀ m ∈ e.machines, m ≠ "" → s.redis.Registered m key e.expires
  spared : ∀ g ∈ s.ingests, g.machine ∈ e.machines → g.Spares key e.body

/--
The part about a `Fetch`: it knows acknowledged ingests only, and what it loaded is younger.
-/
structure Fetch.Ok (s : State κ) (f : Fetch κ) : Prop where
  acked : ∀ m c, (m, c) ∈ f.acked → (m, c) ∈ s.acked
  store : ∀ body, f.point = .store body → ∀ m c, (m, c) ∈ f.acked → c ≤ body
  done : ∀ body, f.point = .done (some body) →
    ∀ m c, (m, c) ∈ f.acked → m ∈ f.machines → c ≤ body

namespace State

structure Inv (s : State κ) : Prop where
  lasts : SetsLast s.ttl
  circuit : s.circuit = .init
  now : 0 < s.now
  entry : ∀ key e, s.redis.get s.now key = some e → e.Ok s key
  fetch : ∀ f ∈ s.fetches, f.Ok s
  name : ∀ g ∈ s.ingests, g.machine ≠ ""
  commit : ∀ g ∈ s.ingests, g.commit ≤ s.commits
  acked : ∀ m c, (m, c) ∈ s.acked →
    ∃ g ∈ s.ingests, g.machine = m ∧ g.commit = c ∧ g.point = .acked

theorem init_inv (κ : Type) {ttl : Nat} (hlasts : SetsLast ttl) : Inv (init κ ttl) := by
  constructor
  case lasts => exact hlasts
  all_goals simp [init, Redis.init, Redis.get]

namespace Inv

variable {s s' : State κ} {i : Nat} {f : Fetch κ} {g : Ingest κ}

theorem commit_le (hs : Inv s) {m : String} {c : Nat} (h : (m, c) ∈ s.acked) : c ≤ s.commits := by
  obtain ⟨g, hg, -, rfl, -⟩ := hs.acked m c h
  exact hs.commit g hg

theorem tick (hs : Inv s) (d : Nat) : Inv { s with now := s.now + d } :=
  { hs with
    now := Nat.add_pos_left hs.now d
    entry := by
      intro key e he
      obtain ⟨hv, hlt⟩ := Redis.get_eq_some he
      have hlt' : s.now < e.expires := by
        simp only at hlt
        omega
      have hok := hs.entry key e (Redis.get_of_value hv hlt')
      exact { hok with expires := hok.expires.trans (by simp only; omega) }
    fetch := fun f hf => { hs.fetch f hf with } }

theorem start (hs : Inv s) (key : κ) (machines : List String) {point : FetchPoint}
    (hpoint : point = .get ∨ point = .load false)
    : Inv { s with
        fetches := s.fetches ++
          [{ key := key, machines := machines, acked := s.acked, point := point }] } :=
  { hs with
    entry := fun k e he => { hs.entry k e he with }
    fetch := by
      intro f hf
      obtain hf | hf := List.mem_append.mp hf
      . exact { hs.fetch f hf with }
      . rw [List.mem_singleton] at hf
        subst hf
        refine ⟨fun _ _ h => h, ?_, ?_⟩
        all_goals
          intro body h
          obtain rfl | rfl := hpoint <;> cases h }

theorem commits (hs : Inv s) {m : String} (hm : m ≠ "")
    : Inv { s with
        commits := s.commits + 1
        ingests := s.ingests ++ [{ machine := m, commit := s.commits + 1, point := .up }] } :=
  { hs with
    entry := by
      intro key e he
      have hok := hs.entry key e he
      refine { hok with spared := ?_ }
      intro g hg hm
      obtain hg | hg := List.mem_append.mp hg
      . exact hok.spared g hg hm
      . rw [List.mem_singleton] at hg
        subst hg
        trivial
    fetch := fun f hf => { hs.fetch f hf with }
    name := by
      intro g hg
      obtain hg | hg := List.mem_append.mp hg
      . exact hs.name g hg
      . rw [List.mem_singleton] at hg
        subst hg
        exact hm
    commit := by
      intro g hg
      obtain hg | hg := List.mem_append.mp hg
      . exact (hs.commit g hg).trans (Nat.le_succ _)
      . rw [List.mem_singleton] at hg
        subst hg
        exact Nat.le_refl _
    acked := by
      intro m c h
      obtain ⟨g, hg, hrest⟩ := hs.acked m c h
      exact ⟨g, List.mem_append_left _ hg, hrest⟩ }

theorem setFetch (hs : Inv s) {f' : Fetch κ} (hf : f'.Ok s) : Inv (s.setFetch i f') :=
  { hs with
    entry := fun k e he => { hs.entry k e he with }
    fetch := by
      intro f h
      obtain h | h := List.mem_or_eq_of_mem_set h
      . exact { hs.fetch f h with }
      . subst h
        exact { hf with } }

theorem store [DecidableEq κ] (hs : Inv s) {body : Nat} (hstore : s.StoreOk f body)
    : Inv { s with redis := s.redis.store s.now s.ttl f.key f.machines body } :=
  { hs with
    entry := by
      intro key e he
      obtain ⟨hv, hlt⟩ := Redis.get_eq_some he
      have hlasts := hs.lasts.le_toNat
      simp only [Redis.store, Redis.register_value] at hv hlt
      by_cases hkey : key = f.key
      . subst hkey
        rw [Function.update_self] at hv
        injection hv with hv
        subst hv
        refine ⟨Nat.le_refl _, ?_, hstore⟩
        intro m hm hname
        exact Redis.registered_register hm hname hlt (by simp only; omega)
      . rw [Function.update_of_ne hkey] at hv
        have hok := hs.entry key e (Redis.get_of_value hv hlt)
        refine { hok with registered := ?_ }
        intro m hm hname
        have hexp := hok.expires
        exact Redis.Registered.register (hok.registered m hm hname) hlt (by omega)
    fetch := fun f hf => { hs.fetch f hf with } }

theorem setIngest (hs : Inv s) {pt : IngestPoint κ} (hg : s.ingests[i]? = some g)
    (hnot : g.point ≠ .acked)
    (hspares : ∀ key e, s.redis.get s.now key = some e → g.machine ∈ e.machines →
      Ingest.Spares { g with point := pt } key e.body)
    : Inv (s.setIngest i { g with point := pt }) := by
  have hmem : g ∈ s.ingests := List.mem_of_getElem? hg
  exact { hs with
    entry := by
      intro key e he
      have hok := hs.entry key e he
      refine { hok with spared := ?_ }
      intro g' hg' hm
      obtain hg' | hg' := List.mem_or_eq_of_mem_set hg'
      . exact hok.spared g' hg' hm
      . subst hg'
        exact hspares key e he hm
    fetch := fun f hf => { hs.fetch f hf with }
    name := by
      intro g' hg'
      obtain hg' | hg' := List.mem_or_eq_of_mem_set hg'
      . exact hs.name g' hg'
      . subst hg'
        exact hs.name g hmem
    commit := by
      intro g' hg'
      obtain hg' | hg' := List.mem_or_eq_of_mem_set hg'
      . exact hs.commit g' hg'
      . subst hg'
        exact hs.commit g hmem
    acked := by
      intro m c h
      obtain ⟨g', hg', hm, hc, hpt⟩ := hs.acked m c h
      refine ⟨g', ?_, hm, hc, hpt⟩
      obtain ⟨j, hj⟩ := List.mem_iff_getElem?.mp hg'
      have hne : i ≠ j := by
        intro h
        subst h
        rw [hg] at hj
        injection hj with hj
        subst hj
        exact hnot hpt
      apply List.mem_of_getElem? (i := j)
      simp only [State.setIngest]
      rw [List.getElem?_set_ne hne]
      exact hj }

theorem ok (hs : Inv s) : Inv s.ok :=
  { hs with
    circuit := by
      simp only [State.ok, hs.circuit]
      rfl
    entry := fun k e he => { hs.entry k e he with }
    fetch := fun f hf => { hs.fetch f hf with } }

theorem not_mem_of_del [DecidableEq κ] (hs : Inv s) (hg : g ∈ s.ingests) {members : Finset κ}
    (hpt : g.point = .del members) {key : κ} {e : Entry}
    (he : (s.redis.del members g.machine).get s.now key = some e)
    : s.redis.get s.now key = some e ∧ g.machine ∉ e.machines := by
  obtain ⟨hv, hlt⟩ := Redis.get_eq_some he
  simp only [Redis.del] at hv
  split at hv
  . cases hv
  . rename_i hnot
    have hget := Redis.get_of_value hv hlt
    refine ⟨hget, ?_⟩
    intro hm
    have := (hs.entry key e hget).spared g hg hm
    simp only [Ingest.Spares, hpt] at this
    exact hnot this

theorem del [DecidableEq κ] (hs : Inv s) (hg : g ∈ s.ingests) {members : Finset κ}
    (hpt : g.point = .del members)
    : Inv { s with redis := s.redis.del members g.machine } :=
  { hs with
    entry := by
      intro key e he
      obtain ⟨hget, hnot⟩ := hs.not_mem_of_del hg hpt he
      have hok := hs.entry key e hget
      refine { hok with registered := ?_ }
      intro m hm hname
      obtain ⟨ks, expires, hkeys, hrest⟩ := hok.registered m hm hname
      have hne : m ≠ g.machine := by
        intro h
        rw [h] at hm
        exact hnot hm
      exact ⟨ks, expires, by simpa [Redis.del, hne] using hkeys, hrest⟩
    fetch := fun f hf => { hs.fetch f hf with } }

theorem stepFetch [DecidableEq κ] {fails : Bool} (hs : Inv s) (hf : s.fetches[i]? = some f)
    (hok : s.RaceFree (.fetch i fails)) (h : s.stepFetch i f fails = some s')
    : Inv s' := by
  have hfok := hs.fetch f (List.mem_of_getElem? hf)
  have hrace := hok f hf
  cases hpt : f.point
  all_goals simp only [State.stepFetch, hpt] at h
  all_goals simp only [State.FetchOk, hpt] at hrace
  case get =>
    obtain ⟨rfl, hhit⟩ := hrace
    simp only [Bool.false_eq_true, if_false] at h
    cases hget : s.redis.get s.now f.key with
    | none =>
      simp only [hget, Option.some.injEq] at h
      subst h
      exact hs.ok.setFetch { hfok with store := by simp, done := by simp }
    | some e =>
      simp only [hget, Option.some.injEq] at h
      subst h
      refine hs.ok.setFetch { hfok with store := by simp, done := ?_ }
      -- the ingest is acknowledged, so it has spared what is found now
      intro body hbody m c hc hm
      simp only [FetchPoint.done.injEq, Option.some.injEq] at hbody
      subst hbody
      obtain ⟨g, hg, rfl, rfl, hacked⟩ := hs.acked m c (hfok.acked m c hc)
      have := (hs.entry f.key e hget).spared g hg (hhit e hget _ hm)
      simpa only [Ingest.Spares, hacked] using this
  case load cached =>
    have hle : ∀ m c, (m, c) ∈ f.acked → c ≤ s.commits := by
      intro m c hc
      exact hs.commit_le (hfok.acked m c hc)
    (repeat' split at h) <;> injection h with h <;> subst h
    . exact hs.setFetch { hfok with store := by simp, done := by simp }
    . refine hs.setFetch { hfok with store := ?_, done := by simp }
      intro body hbody
      injection hbody with hbody
      subst hbody
      exact hle
    . refine hs.setFetch { hfok with store := by simp, done := ?_ }
      intro body hbody m c hc _
      simp only [FetchPoint.done.injEq, Option.some.injEq] at hbody
      subst hbody
      exact hle m c hc
  case store body =>
    obtain ⟨rfl, hstore⟩ := hrace
    simp only [Bool.false_eq_true, if_false, Option.some.injEq] at h
    subst h
    have hdone : Fetch.Ok s { f with point := .done (some body) } := by
      refine { hfok with store := by simp, done := ?_ }
      intro body' hbody m c hc _
      simp only [FetchPoint.done.injEq, Option.some.injEq] at hbody
      subst hbody
      exact hfok.store _ hpt m c hc
    exact ((hs.setFetch (i := i) hdone).store (f := f) hstore).ok
  case done => cases h

theorem stepIngest [DecidableEq κ] {fails : Bool} (hs : Inv s) (hg : s.ingests[i]? = some g)
    (hok : s.RaceFree (.ingest i fails)) (h : s.stepIngest i g fails = some s')
    : Inv s' := by
  have hmem := List.mem_of_getElem? hg
  simp only [State.RaceFree] at hok
  subst hok
  cases hpt : g.point
  all_goals simp only [State.stepIngest, hpt, Bool.false_eq_true, if_false] at h
  case up =>
    have hup : s.circuit.up s.now = true := by
      rw [hs.circuit]
      exact Circuit.up_init hs.now
    rw [if_pos ⟨hup, hs.name g hmem⟩] at h
    injection h with h
    subst h
    exact hs.setIngest hg (by simp [hpt]) fun _ _ _ _ => trivial
  case sMembers =>
    -- every body that describes the machine is registered with it
    have hall : ∀ key e, s.redis.get s.now key = some e → g.machine ∈ e.machines →
        key ∈ s.redis.sMembers s.now g.machine := by
      intro key e he hm
      have hreg := (hs.entry key e he).registered _ hm (hs.name g hmem)
      exact hreg.mem_sMembers (Redis.get_eq_some he).2
    split at h
    . rename_i hempty
      injection h with h
      subst h
      apply hs.setIngest hg (by simp [hpt])
      intro key e he hm
      have := hall key e he hm
      rw [hempty] at this
      cases this
    . injection h with h
      subst h
      exact hs.setIngest hg (by simp [hpt]) hall
  case del members =>
    injection h with h
    subst h
    refine ((hs.del hmem hpt).setIngest (i := i) hg (by simp [hpt]) ?_).ok
    intro key e he hm
    exact absurd hm (hs.not_mem_of_del hmem hpt he).2
  case answer =>
    injection h with h
    subst h
    have hs' : Inv (s.setIngest i { g with point := .acked }) := by
      apply hs.setIngest hg (by simp [hpt])
      intro key e he hm
      have := (hs.entry key e he).spared g hmem hm
      simpa only [Ingest.Spares, hpt] using this
    exact { hs' with
      entry := fun k e he => { hs'.entry k e he with }
      fetch := by
        intro f hf
        refine { hs'.fetch f hf with acked := ?_ }
        intro m c hc
        exact List.mem_append_left _ ((hs'.fetch f hf).acked m c hc)
      acked := by
        intro m c hc
        obtain hc | hc := List.mem_append.mp hc
        . exact hs'.acked m c hc
        . rw [List.mem_singleton] at hc
          injection hc with hm hc
          refine ⟨{ g with point := .acked }, ?_, hm.symm, hc.symm, rfl⟩
          apply List.mem_set
          exact (List.getElem?_eq_some_iff.mp hg).1 }
  case acked => cases h

theorem step [DecidableEq κ] {a : Action κ} (hs : Inv s) (hok : s.RaceFree a)
    (h : s.step a = some s')
    : Inv s' := by
  cases a with
  | tick d =>
    injection h with h
    subst h
    exact hs.tick d
  | start key machines =>
    injection h with h
    subst h
    apply hs.start key machines
    split
    . exact .inl rfl
    . exact .inr rfl
  | fetch i fails =>
    obtain ⟨f, hf, hstep⟩ := Option.bind_eq_some_iff.mp h
    exact hs.stepFetch hf hok hstep
  | commit machine =>
    simp only [State.step] at h
    split at h
    . cases h
    . rename_i hm
      injection h with h
      subst h
      exact hs.commits hm
  | ingest i fails =>
    obtain ⟨g, hg, hstep⟩ := Option.bind_eq_some_iff.mp h
    exact hs.stepIngest hg hok hstep

end Inv

variable [DecidableEq κ]

instance (s : State κ) (f : Fetch κ) (body : Nat) : Decidable (s.StoreOk f body) := by
  unfold StoreOk
  infer_instance

instance (s : State κ) (f : Fetch κ) : Decidable (s.HitOk f) := by
  unfold HitOk
  infer_instance

instance (s : State κ) (f : Fetch κ) (fails : Bool) : Decidable (s.FetchOk f fails) :=
  match f with
  | { key, machines, acked, point := .get } =>
    inferInstanceAs (Decidable (fails = false ∧ s.HitOk { key, machines, acked, point := .get }))
  | { key, machines, acked, point := .store body } =>
    inferInstanceAs (Decidable (fails = false ∧ s.StoreOk { key, machines, acked, point := .store body } body))
  | { point := .load _, .. } | { point := .done _, .. } => inferInstanceAs (Decidable True)

instance (s : State κ) (a : Action κ) : Decidable (s.RaceFree a) :=
  match a with
  | .fetch i fails => inferInstanceAs (Decidable (∀ f ∈ s.fetches[i]?, s.FetchOk f fails))
  | .ingest _ fails => inferInstanceAs (Decidable (fails = false))
  | .tick _ | .start _ _ | .commit _ => inferInstanceAs (Decidable True)

/--
In every run in which Redis answers and no body is stored or found in the wrong moment, no `Fetch`
returns a body from before an ingest that was acknowledged when it started, unless ten times the ttl
wraps.
-/
theorem fetch_fresh_of_raceFree (ttl : Nat) (hlasts : SetsLast ttl) (schedule : List (Action κ))
    (h : Trans.Along step RaceFree (init κ ttl) schedule)
    : Fresh ((init κ ttl).run schedule) := by
  have hinv : Inv ((init κ ttl).run schedule) :=
    Trans.invariant_of_along (fun _ _ _ hs hok hstep => hs.step hok hstep) (init_inv κ hlasts)
      schedule h
  intro f hf
  exact (hinv.fetch f hf).done

theorem fetch_fresh_of_raceFree_hit
    : Fresh ((init Nat (60 * second)).run
        [.start 0 ["m"], .fetch 0 false, .commit "m", .fetch 0 false, .fetch 0 false,
          .ingest 0 false, .ingest 0 false, .ingest 0 false, .ingest 0 false, .start 0 ["m"],
          .fetch 1 false, .fetch 1 false, .fetch 1 false, .start 0 ["m"], .fetch 2 false]) :=
  fetch_fresh_of_raceFree (60 * second) (setsLast_of_lt (by decide)) _ (by decide)

/--
A `Fetch` that has loaded before an ingest commits stores what it has loaded after the ingest is
acknowledged: the next `Fetch` finds it.
-/
theorem fetch_stale
    : ¬∀ schedule : List (Action Nat), (∀ a ∈ schedule, a.Succeeds) →
        Fresh ((init Nat (60 * second)).run schedule) := by
  intro h
  have hfresh := h
    [.start 0 ["m"], .fetch 0 false, .fetch 0 false, .commit "m", .ingest 0 false, .ingest 0 false,
      .ingest 0 false, .fetch 0 false, .start 0 ["m"], .fetch 1 false] (by decide)
  have hstale : (1 : Nat) ≤ 0 := by
    apply hfresh ⟨0, ["m"], [("m", 1)], .done (some 0)⟩ _ 0 rfl "m" 1
    . simp
    . simp
    . exact List.mem_of_getElem? (i := 1) rfl
  omega

end State

end Cache
end Api
