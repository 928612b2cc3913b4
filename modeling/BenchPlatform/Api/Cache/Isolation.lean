import BenchPlatform.Api.Cache.Registration

/-!
This module proves that an invalidation of one machine leaves the others alone: the set of a machine
holds nothing but keys that were stored for it, and an invalidation deletes what it has read there.
-/

namespace Api
namespace Cache

variable {κ : Type} [DecidableEq κ]

namespace Redis

variable {r : Redis κ} {P : String → κ → Prop} {now : Nat} {key : κ} {m : String}

/--
Every key in the set of a machine has the property `P` with this machine.
-/
def Only (r : Redis κ) (P : String → κ → Prop) : Prop :=
  ∀ m members expires, r.keys m = some (members, expires) → ∀ key ∈ members, P m key

omit [DecidableEq κ] in
theorem Only.sMembers (h : r.Only P) (hkey : key ∈ r.sMembers now m) : P m key := by
  unfold Redis.sMembers at hkey
  cases hkeys : r.keys m with
  | none => simp [hkeys] at hkey
  | some entry =>
    rw [hkeys] at hkey
    dsimp only at hkey
    split at hkey
    . exact h m _ _ hkeys key hkey
    . simp at hkey

theorem Only.sAdd {expires : Nat} (h : r.Only P) (hkey : P m key)
    : (r.sAdd now m key expires).Only P := by
  intro m' members expires' hkeys key' hkey'
  by_cases hm : m' = m
  . subst hm
    simp only [Redis.sAdd, Function.update_self, Option.some.injEq, Prod.mk.injEq] at hkeys
    obtain ⟨rfl, -⟩ := hkeys
    obtain rfl | hkey' := Finset.mem_insert.mp hkey'
    . exact hkey
    . exact h.sMembers hkey'
  . simp only [Redis.sAdd, Function.update_of_ne hm] at hkeys
    exact h m' _ _ hkeys key' hkey'

theorem Only.register {expires : Nat} {machines : List String} (h : r.Only P)
    (hkey : ∀ m ∈ machines, P m key)
    : (r.register now expires key machines).Only P := by
  induction machines generalizing r with
  | nil => exact h
  | cons m machines ih =>
    rw [List.forall_mem_cons] at hkey
    simp only [Redis.register]
    split
    . exact ih h hkey.2
    . exact ih (h.sAdd hkey.1) hkey.2

theorem Only.store {ttl body : Nat} {machines : List String} (h : r.Only P)
    (hkey : ∀ m ∈ machines, P m key)
    : (r.store now ttl key machines body).Only P :=
  Only.register (by exact h) hkey

theorem Only.del {members : Finset κ} (h : r.Only P) : (r.del members m).Only P := by
  intro m' members' expires hkeys
  by_cases hm : m' = m
  . subst hm
    simp [Redis.del] at hkeys
  . simp only [Redis.del, Function.update_of_ne hm] at hkeys
    exact h m' _ _ hkeys

omit [DecidableEq κ] in
theorem Only.mono {Q : String → κ → Prop} (h : r.Only P) (hPQ : ∀ m key, P m key → Q m key)
    : r.Only Q :=
  fun m members expires hkeys key hkey => hPQ m key (h m members expires hkeys key hkey)

end Redis

namespace State

variable {start s s' : State κ} {a : Action κ} {schedule : List (Action κ)} {key : κ} {m : String}

/--
In the course of the schedule a `Fetch` that listed `m` has stored a body under `key`.
-/
def StoredFor (start : State κ) (schedule : List (Action κ)) (m : String) (key : κ) : Prop :=
  ∃ pre i f body, pre ++ [.fetch i false] <+: schedule ∧ (start.run pre).fetches[i]? = some f
    ∧ f.point = .store body ∧ f.key = key ∧ m ∈ f.machines

theorem StoredFor.append (h : StoredFor start schedule m key) (as : List (Action κ))
    : StoredFor start (schedule ++ as) m key := by
  obtain ⟨pre, i, f, body, hpre, hf, hrest⟩ := h
  exact ⟨pre, i, f, body, hpre.trans (List.prefix_append ..), hf, hrest⟩

/--
What is in the set of a machine, or has been read there, was stored for this machine.
-/
structure KnownKeys (start : State κ) (schedule : List (Action κ)) (s : State κ) : Prop where
  keys : s.redis.Only (StoredFor start schedule)
  del : ∀ g ∈ s.ingests, ∀ members, g.point = .del members → ∀ key ∈ members,
    StoredFor start schedule g.machine key

theorem KnownKeys.step (hs : KnownKeys start schedule (start.run schedule))
    (h : (start.run schedule).step a = some s')
    : KnownKeys start (schedule ++ [a]) s' := by
  have hkeys := hs.keys.mono fun m key h => h.append [a]
  constructor
  . cases writes_of_step h with
    | nothing hredis =>
      rw [hredis]
      exact hkeys
    | store hf hpt hredis =>
      rw [hredis]
      apply hkeys.store
      intro m hm
      exact ⟨schedule, _, _, _, List.prefix_refl _, hf, hpt, rfl, hm⟩
    | del hg hpt hredis =>
      rw [hredis]
      exact hkeys.del
  . intro g hg members hpt key hkey
    obtain hg | hmoved := ingest_of_step h hg
    . exact (hs.del g hg members hpt key hkey).append [a]
    . rw [hmoved.del members hpt] at hkey
      exact hkeys.sMembers hkey

theorem knownKeys_run (ttl : Nat) (schedule : List (Action κ))
    : KnownKeys (init κ ttl) schedule ((init κ ttl).run schedule) := by
  induction schedule using List.reverseRecOn with
  | nil => constructor <;> simp [Cache.init, Redis.init, Redis.Only, run]
  | append_singleton schedule a ih =>
    have hrun : (init κ ttl).run (schedule ++ [a])
        = Trans.next State.step ((init κ ttl).run schedule) a := Trans.run_append ..
    rw [hrun]
    cases hstep : ((init κ ttl).run schedule).step a with
    | none =>
      rw [Trans.next, hstep, Option.getD_none]
      exact ⟨ih.keys.mono fun m key h => h.append [a],
        fun g hg members hpt key hkey => (ih.del g hg members hpt key hkey).append [a]⟩
    | some s' =>
      rw [Trans.next_of_some hstep]
      exact ih.step hstep

/--
In every history, what an ingest for a machine deletes are bodies whose keys were stored before by a
`Fetch` that listed this machine, and the sets of all other machines stay as they are.
-/
theorem ingest_isolated (ttl : Nat) (schedule : List (Action κ)) (i : Nat) (fails : Bool)
    (g : Ingest κ) (s' : State κ)
    : ((init κ ttl).run schedule).ingests[i]? = some g →
      ((init κ ttl).run schedule).step (.ingest i fails) = some s' →
      (∀ key, s'.redis.value key ≠ ((init κ ttl).run schedule).redis.value key →
        s'.redis.value key = none ∧ StoredFor (init κ ttl) schedule g.machine key)
      ∧ ∀ m, m ≠ g.machine → s'.redis.keys m = ((init κ ttl).run schedule).redis.keys m := by
  intro hg h
  have hknown := knownKeys_run ttl schedule
  cases writes_of_step h with
  | nothing hredis =>
    rw [hredis]
    exact ⟨fun key hne => absurd rfl hne, fun _ _ => rfl⟩
  | @del _ g' members _ hg' hpt hredis =>
    rw [hg] at hg'
    cases hg'
    rw [hredis]
    constructor
    . intro key hne
      by_cases hkey : key ∈ members
      . exact ⟨by simp [Redis.del, hkey],
          hknown.del g (List.mem_of_getElem? hg) members hpt key hkey⟩
      . simp [Redis.del, hkey] at hne
    . intro m hm
      simp [Redis.del, hm]

/--
A body that describes two machines is stored, and one of them is invalidated.
-/
def comparison : List (Action Nat) :=
  [.start 0 ["a", "b"], .fetch 0 false, .fetch 0 false, .fetch 0 false, .commit "a",
    .ingest 0 false, .ingest 0 false]

theorem ingest_isolated_comparison
    : (∀ key, ((init Nat (60 * second)).run (comparison ++ [.ingest 0 false])).redis.value key
          ≠ ((init Nat (60 * second)).run comparison).redis.value key →
        ((init Nat (60 * second)).run (comparison ++ [.ingest 0 false])).redis.value key = none
        ∧ StoredFor (init Nat (60 * second)) comparison "a" key)
      ∧ ∀ m, m ≠ "a" → ((init Nat (60 * second)).run (comparison ++ [.ingest 0 false])).redis.keys m
          = ((init Nat (60 * second)).run comparison).redis.keys m :=
  ingest_isolated (60 * second) comparison 0 false
    { machine := "a", commit := 1, point := .del {0} } _ (by decide +kernel) rfl

end State
end Cache
end Api
