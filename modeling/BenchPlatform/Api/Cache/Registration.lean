import BenchPlatform.Api.Cache.Freshness

/-!
This module settles when every cached body is registered with the machines that it describes. An
invalidation reads the set of a machine and deletes it later: what is registered in between loses its
set.
-/

namespace Api
namespace Cache

variable {κ : Type} [DecidableEq κ]

namespace Redis

variable {r : Redis κ} {now now' ttl : Nat} {key : κ}

/--
A body that can be served expires in time and is in the set of each machine that it describes, as
long as it lives.
-/
structure Covers (r : Redis κ) (now ttl : Nat) : Prop where
  expires : ∀ key e, r.get now key = some e → e.expires ≤ now + ttl
  registered : ∀ key e, r.get now key = some e → ∀ m ∈ e.machines, m ≠ "" →
    r.Registered m key e.expires

omit [DecidableEq κ] in
theorem Covers.tick (h : r.Covers now ttl) (hnow : now ≤ now') : r.Covers now' ttl := by
  have hget : ∀ key e, r.get now' key = some e → r.get now key = some e := by
    intro key e he
    obtain ⟨hv, hlt⟩ := get_eq_some he
    exact get_of_value hv (by omega)
  constructor
  . intro key e he
    have := h.expires key e (hget key e he)
    omega
  . intro key e he
    exact h.registered key e (hget key e he)

theorem Covers.store {machines : List String} {body : Nat} (h : r.Covers now ttl)
    (hlasts : SetsLast ttl)
    : (r.store now ttl key machines body).Covers now ttl := by
  have hle := hlasts.le_toNat
  have hcases : ∀ key' e, (r.store now ttl key machines body).get now key' = some e →
      (key' = key ∧ e = { body := body, expires := now + ttl, machines := machines })
      ∨ r.get now key' = some e := by
    intro key' e he
    obtain ⟨hv, hlt⟩ := get_eq_some he
    simp only [Redis.store, register_value] at hv
    by_cases hkey : key' = key
    . subst hkey
      rw [Function.update_self] at hv
      injection hv with hv
      exact .inl ⟨rfl, hv.symm⟩
    . rw [Function.update_of_ne hkey] at hv
      exact .inr (get_of_value hv hlt)
  constructor
  . intro key' e he
    obtain ⟨rfl, rfl⟩ | hget := hcases key' e he
    . exact Nat.le_refl _
    . exact h.expires key' e hget
  . intro key' e he m hm hname
    have hlt := (get_eq_some he).2
    obtain ⟨rfl, rfl⟩ | hget := hcases key' e he
    . exact registered_register hm hname hlt (by simp only; omega)
    . have hexp := h.expires key' e hget
      exact Registered.register (h.registered key' e hget m hm hname) hlt (by omega)

/--
A deletion leaves no body behind that describes the machine.
-/
def Clears (r : Redis κ) (now : Nat) (members : Finset κ) (m : String) : Prop :=
  ∀ key e, r.get now key = some e → m ∈ e.machines → key ∈ members

theorem get_del {members : Finset κ} {m : String} {e : Entry}
    (h : (r.del members m).get now key = some e)
    : r.get now key = some e ∧ key ∉ members := by
  obtain ⟨hv, hlt⟩ := get_eq_some h
  simp only [Redis.del] at hv
  split at hv
  . cases hv
  . rename_i hnot
    exact ⟨get_of_value hv hlt, hnot⟩

theorem Covers.del {members : Finset κ} {m : String} (h : r.Covers now ttl)
    (hclears : r.Clears now members m)
    : (r.del members m).Covers now ttl := by
  constructor
  . intro key e he
    exact h.expires key e (get_del he).1
  . intro key e he m' hm hname
    obtain ⟨hget, hnot⟩ := get_del he
    have hne : m' ≠ m := by
      rintro rfl
      exact hnot (hclears key e hget hm)
    obtain ⟨ks, expires, hkeys, hrest⟩ := h.registered key e hget m' hm hname
    exact ⟨ks, expires, by simpa [Redis.del, hne] using hkeys, hrest⟩

end Redis

namespace State

variable {s s' : State κ} {a : Action κ}

/--
What a step does to Redis: nothing, or the transaction of a `Fetch` or of an ingest that succeeds.
-/
inductive Writes (s : State κ) : Action κ → State κ → Prop where
  | nothing {a : Action κ} {s' : State κ} (redis : s'.redis = s.redis) (ttl : s'.ttl = s.ttl)
    (now : s.now ≤ s'.now) : Writes s a s'
  | store {i : Nat} {f : Fetch κ} {body : Nat} {s' : State κ} (fetch : s.fetches[i]? = some f)
    (point : f.point = .store body)
    (redis : s'.redis = s.redis.store s.now s.ttl f.key f.machines body) (ttl : s'.ttl = s.ttl)
    (now : s'.now = s.now) : Writes s (.fetch i false) s'
  | del {i : Nat} {g : Ingest κ} {members : Finset κ} {s' : State κ}
    (ingest : s.ingests[i]? = some g) (point : g.point = .del members)
    (redis : s'.redis = s.redis.del members g.machine) (ttl : s'.ttl = s.ttl)
    (now : s'.now = s.now) : Writes s (.ingest i false) s'

theorem writes_of_step (h : s.step a = some s') : s.Writes a s' := by
  cases a with
  | tick d =>
    injection h with h
    subst h
    exact .nothing rfl rfl (Nat.le_add_right ..)
  | start key machines =>
    injection h with h
    subst h
    exact .nothing rfl rfl (Nat.le_refl _)
  | commit machine =>
    simp only [step] at h
    split at h
    . cases h
    . injection h with h
      subst h
      exact .nothing rfl rfl (Nat.le_refl _)
  | fetch i fails =>
    obtain ⟨f, hf, h⟩ := Option.bind_eq_some_iff.mp h
    cases hpt : f.point
    all_goals simp only [stepFetch, hpt] at h
    case get =>
      (repeat' split at h) <;> injection h with h <;> subst h
      all_goals exact .nothing rfl rfl (Nat.le_refl _)
    case load cached =>
      (repeat' split at h) <;> injection h with h <;> subst h
      all_goals exact .nothing rfl rfl (Nat.le_refl _)
    case store body =>
      split at h
      . injection h with h
        subst h
        exact .nothing rfl rfl (Nat.le_refl _)
      . rename_i hfails
        injection h with h
        subst h
        rw [Bool.not_eq_true] at hfails
        subst hfails
        exact .store hf hpt rfl rfl rfl
    case done => cases h
  | ingest i fails =>
    obtain ⟨g, hg, h⟩ := Option.bind_eq_some_iff.mp h
    cases hpt : g.point
    all_goals simp only [stepIngest, hpt] at h
    case del members =>
      split at h
      . injection h with h
        subst h
        exact .nothing rfl rfl (Nat.le_refl _)
      . rename_i hfails
        injection h with h
        subst h
        rw [Bool.not_eq_true] at hfails
        subst hfails
        exact .del hg hpt rfl rfl rfl
    case acked => cases h
    all_goals
      (repeat' split at h) <;> injection h with h <;> subst h
    all_goals exact .nothing rfl rfl (Nat.le_refl _)

/--
An ingest as a step leaves it: if it is about to delete something it has just read it.
-/
structure Moved (s : State κ) (g' : Ingest κ) : Prop where
  machine : g'.machine ≠ "" ∨ ∃ g ∈ s.ingests, g.machine = g'.machine
  del : ∀ members, g'.point = .del members → members = s.redis.sMembers s.now g'.machine

theorem ingest_of_step {g' : Ingest κ} (h : s.step a = some s') (hg' : g' ∈ s'.ingests)
    : g' ∈ s.ingests ∨ s.Moved g' := by
  cases a with
  | tick d =>
    injection h with h
    subst h
    exact .inl hg'
  | start key machines =>
    injection h with h
    subst h
    exact .inl hg'
  | commit machine =>
    simp only [step] at h
    split at h
    . cases h
    . rename_i hname
      injection h with h
      subst h
      obtain hg' | hg' := List.mem_append.mp hg'
      . exact .inl hg'
      . rw [List.mem_singleton] at hg'
        subst hg'
        exact .inr ⟨.inl hname, by simp⟩
  | fetch i fails =>
    obtain ⟨f, hf, h⟩ := Option.bind_eq_some_iff.mp h
    left
    cases hpt : f.point
    all_goals simp only [stepFetch, hpt] at h
    case done => cases h
    all_goals
      (repeat' split at h) <;> injection h with h <;> subst h
    all_goals exact hg'
  | ingest i fails =>
    obtain ⟨g, hg, h⟩ := Option.bind_eq_some_iff.mp h
    have hmem : g ∈ s.ingests := List.mem_of_getElem? hg
    -- whatever the step, it sets this ingest to a point
    have hset : ∃ pt, s'.ingests = s.ingests.set i { g with point := pt }
        ∧ ∀ members, pt = .del members → members = s.redis.sMembers s.now g.machine := by
      cases hpt : g.point
      all_goals simp only [stepIngest, hpt] at h
      case acked => cases h
      all_goals
        (repeat' split at h) <;> injection h with h <;> subst h
      all_goals refine ⟨_, rfl, ?_⟩
      all_goals
        intro members hpoint
        cases hpoint
      rfl
    obtain ⟨pt, hs', hdel⟩ := hset
    rw [hs'] at hg'
    obtain hg' | rfl := List.mem_or_eq_of_mem_set hg'
    . exact .inl hg'
    . exact .inr ⟨.inr ⟨g, hmem, rfl⟩, hdel⟩

theorem names_of_step (hname : ∀ g ∈ s.ingests, g.machine ≠ "") (h : s.step a = some s')
    : ∀ g ∈ s'.ingests, g.machine ≠ "" := by
  intro g' hg'
  obtain hg' | hmoved := ingest_of_step h hg'
  . exact hname g' hg'
  . obtain hname' | ⟨g, hg, hm⟩ := hmoved.machine
    . exact hname'
    . rw [← hm]
      exact hname g hg

/--
Every body that can be served is in the set of each machine that the `Fetch` which stored it listed,
so that an invalidation that reads the set now deletes it.
-/
def Registered (s : State κ) : Prop :=
  ∀ key e, s.redis.get s.now key = some e → ∀ m ∈ e.machines, m ≠ "" →
    key ∈ s.redis.sMembers s.now m
    ∧ (s.redis.del (s.redis.sMembers s.now m) m).get s.now key = none

/--
An invalidation deletes all that can be served and describes its machine: nothing was stored since it
read the set.
-/
def DeletesAll (s : State κ) : Action κ → Prop
  | .ingest i fails => ∀ g ∈ s.ingests[i]?, ∀ members, g.point = .del members → fails = false →
      s.redis.Clears s.now members g.machine
  | .fetch _ _ | .tick _ | .start _ _ | .commit _ => True

structure RegInv (s : State κ) : Prop where
  lasts : SetsLast s.ttl
  covers : s.redis.Covers s.now s.ttl
  name : ∀ g ∈ s.ingests, g.machine ≠ ""

omit [DecidableEq κ] in
theorem RegInv.init {ttl : Nat} (hlasts : SetsLast ttl) : RegInv (init κ ttl) := by
  refine ⟨hlasts, ⟨?_, ?_⟩, ?_⟩ <;> simp [Cache.init, Redis.init, Redis.get]

theorem RegInv.step (hs : RegInv s) (hok : s.DeletesAll a) (h : s.step a = some s')
    : RegInv s' := by
  cases writes_of_step h with
  | nothing hredis httl hnow =>
    refine ⟨httl ▸ hs.lasts, ?_, names_of_step hs.name h⟩
    rw [hredis, httl]
    exact hs.covers.tick hnow
  | store hf hpt hredis httl hnow =>
    refine ⟨httl ▸ hs.lasts, ?_, names_of_step hs.name h⟩
    rw [hredis, httl, hnow]
    exact hs.covers.store hs.lasts
  | del hg hpt hredis httl hnow =>
    refine ⟨httl ▸ hs.lasts, ?_, names_of_step hs.name h⟩
    rw [hredis, httl, hnow]
    exact hs.covers.del (hok _ hg _ hpt rfl)

theorem RegInv.registered (hs : RegInv s) : Registered s := by
  intro key e he m hm hname
  have hmem := (hs.covers.registered key e he m hm hname).mem_sMembers (Redis.get_eq_some he).2
  refine ⟨hmem, ?_⟩
  simp [Redis.get, Redis.del, hmem]

theorem RegInv.deletesAll (hs : RegInv s) (h : s.step a = some s') (hreg : Registered s')
    : s.DeletesAll a := by
  cases a with
  | ingest i fails =>
    rintro g hg members hpt rfl key e he hm
    have hname := hs.name g (List.mem_of_getElem? hg)
    simp only [State.step, Option.mem_def.mp hg, Option.bind_some, stepIngest, hpt,
      Bool.false_eq_true, if_false, Option.some.injEq] at h
    subst h
    by_contra hnot
    have hlive : (s.redis.del members g.machine).get s.now key = some e := by
      obtain ⟨hv, hlt⟩ := Redis.get_eq_some he
      exact Redis.get_of_value (by simpa [Redis.del, hnot] using hv) hlt
    have hmem := (hreg key e hlive g.machine hm hname).1
    simp [State.setIngest, Redis.sMembers, Redis.del] at hmem
  | _ => trivial

/--
One `Fetch`, and time until the set is gone.
-/
def outlived (ttl : Nat) (key : κ) : List (Action κ) :=
  [.start key ["m"], .fetch 0 false, .fetch 0 false, .fetch 0 false, .tick (setTtl ttl).toNat]

theorem not_registered_outlived {ttl : Nat} (hshort : ¬SetsLast ttl) (key : κ)
    : ¬Registered ((init κ ttl).run (outlived ttl key)) := by
  have hlt : (setTtl ttl).toNat < ttl := by
    have hpos : 0 < ttl := by
      apply Nat.pos_of_ne_zero
      rintro rfl
      exact hshort (by decide)
    unfold SetsLast at hshort
    omega
  have hrun : ((init κ ttl).run (outlived ttl key)).redis = Redis.init.store 1 ttl key ["m"] 0
      ∧ ((init κ ttl).run (outlived ttl key)).now = 1 + (setTtl ttl).toNat := by
    have hup : Circuit.init.up 1 = true := by decide
    simp [outlived, State.run, Trans.next, step, Cache.init, hup, stepFetch, setFetch, ok,
      Redis.get, Redis.init]
  obtain ⟨hredis, hnow⟩ := hrun
  generalize (init κ ttl).run (outlived ttl key) = s at hredis hnow
  intro hreg
  have hget : s.redis.get s.now key
      = some { body := 0, expires := 1 + ttl, machines := ["m"] } := by
    rw [hredis, hnow]
    apply Redis.get_of_value
    . simp [Redis.store]
    . simp only
      omega
  have hmem := (hreg key _ hget "m" (by simp) (by decide)).1
  simp [hredis, hnow, Redis.sMembers, Redis.store, Redis.register, Redis.sAdd] at hmem

/--
Unless ten times the ttl wraps, every cached body is registered all along a run if and only if no
invalidation in it reads the set of its machine before a `Fetch` for this machine stores something and
deletes the set afterwards. If it wraps there is a run without any such invalidation in which a cached
body is not registered.
-/
theorem registered_iff (ttl : Nat) (key : κ)
    : (SetsLast ttl →
        ∀ schedule : List (Action κ),
          (∀ pre, pre <+: schedule → Registered ((init κ ttl).run pre))
          ↔ Trans.Along step DeletesAll (init κ ttl) schedule)
      ∧ (¬SetsLast ttl →
        ∃ schedule : List (Action κ), Trans.Along step DeletesAll (init κ ttl) schedule
          ∧ ¬Registered ((init κ ttl).run schedule)) := by
  constructor
  . intro hlasts schedule
    exact (Trans.along_iff (fun _ _ _ hs hok h => hs.step hok h) (fun _ hs => hs.registered)
      (fun _ _ _ hs h hreg => hs.deletesAll h hreg) (RegInv.init hlasts) schedule).symm
  . intro hshort
    refine ⟨outlived ttl key, ?_, not_registered_outlived hshort key⟩
    simp [outlived, Trans.Along, DeletesAll]

/--
A ttl of a minute, and one of 300000 hours.
-/
theorem registered_iff_minute
    : (∀ pre, pre <+: outlived (60 * second) 0 → Registered ((init Nat (60 * second)).run pre))
      ∧ ∃ schedule, Trans.Along step DeletesAll (init Nat (300000 * 3600 * second)) schedule
        ∧ ¬Registered ((init Nat (300000 * 3600 * second)).run schedule) :=
  ⟨((registered_iff (60 * second) 0).1 (setsLast_of_lt (by decide)) _).mpr
      (by simp [outlived, Trans.Along, DeletesAll]),
    (registered_iff (300000 * 3600 * second) 0).2 (by decide)⟩

/--
Another key for the machine is stored between the two round trips of an invalidation.
-/
theorem not_registered_of_race
    : ¬∀ schedule : List (Action Nat), (∀ a ∈ schedule, a.Succeeds) →
        Registered ((init Nat (60 * second)).run schedule) := by
  intro h
  have hreg := h
    [.start 0 ["m"], .fetch 0 false, .fetch 0 false, .fetch 0 false, .start 1 ["m"], .fetch 1 false,
      .fetch 1 false, .commit "m", .ingest 0 false, .ingest 0 false, .fetch 1 false,
      .ingest 0 false] (by decide)
  have hmem := (hreg 1 { body := 0, expires := 1 + 60 * second, machines := ["m"] }
    (Redis.get_of_value rfl (by decide)) "m" (by simp) (by decide)).1
  revert hmem
  decide

end State
end Cache
end Api
