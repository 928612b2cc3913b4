import Mathlib.Algebra.Ring.Nat
import Mathlib.Data.Finset.Insert
import Mathlib.Logic.Function.Basic

/-!
This module contains what the cache package uses of Redis (values and sets of keys that expire,
and the commands on them) and its circuit breaker.
-/

namespace Api
namespace Cache

/--
A cached body. Bodies differ by the state of the database that they were loaded from, which is the
number of ingests that had committed. `machines` is history: what the `Fetch` that stored it listed.
-/
structure Entry where
  body : Nat
  expires : Nat
  machines : List String
  deriving DecidableEq

/--
The values, and under `machineKeysKey m` the set of a machine, each with the time it expires at.
-/
structure Redis (κ : Type) where
  value : κ → Option Entry
  keys : String → Option (Finset κ × Nat)

def second : Nat := 1000000000

/--
`c.ttl*10`, which is a product of 64-bit numbers.
-/
def setTtl (ttl : Nat) : Int :=
  ((ttl : Int) * 10).bmod (2 ^ 64)

def SetsLast (ttl : Nat) : Prop :=
  (ttl : Int) ≤ setTtl ttl

instance (ttl : Nat) : Decidable (SetsLast ttl) :=
  inferInstanceAs (Decidable (_ ≤ _))

theorem setsLast_of_lt {ttl : Nat} (h : ttl * 10 < 2 ^ 63) : SetsLast ttl := by
  have hexact : setTtl ttl = (ttl : Int) * 10 := Int.bmod_eq_of_le (by omega) (by omega)
  unfold SetsLast
  omega

theorem SetsLast.le_toNat {ttl : Nat} (h : SetsLast ttl) : ttl ≤ (setTtl ttl).toNat := by
  unfold SetsLast at h
  omega

namespace Redis

variable {κ : Type} [DecidableEq κ]

def init : Redis κ where
  value := fun _ => none
  keys := fun _ => none

def get (r : Redis κ) (now : Nat) (key : κ) : Option Entry :=
  (r.value key).filter fun e => now < e.expires

def sMembers (r : Redis κ) (now : Nat) (m : String) : Finset κ :=
  match r.keys m with
  | some (members, expires) => if now < expires then members else ∅
  | none => ∅

/--
`SADD` of one key to the set of a machine, then `EXPIRE` of the set.
-/
def sAdd (r : Redis κ) (now : Nat) (m : String) (key : κ) (expires : Nat) : Redis κ :=
  { r with keys := Function.update r.keys m (some (insert key (r.sMembers now m), expires)) }

/--
The `SADD`s of `Fetch`: machines without a name are skipped.
-/
def register (r : Redis κ) (now expires : Nat) (key : κ) : List String → Redis κ
  | [] => r
  | m :: machines =>
    if m = "" then
      r.register now expires key machines
    else
      (r.sAdd now m key expires).register now expires key machines

/--
The transaction of `Fetch`: `SET` of the body, then its registration. `EXPIRE` with no time left takes
the set away at once.
-/
def store (r : Redis κ) (now ttl : Nat) (key : κ) (machines : List String) (body : Nat) : Redis κ :=
  let entry : Entry := { body := body, expires := now + ttl, machines := machines }
  { r with value := Function.update r.value key (some entry) }.register now (now + (setTtl ttl).toNat) key
    machines

/--
The transaction of `InvalidateMachine`: `DEL` of the keys and of the set.
-/
def del (r : Redis κ) (members : Finset κ) (m : String) : Redis κ where
  value := fun key => if key ∈ members then none else r.value key
  keys := Function.update r.keys m none

variable {r : Redis κ} {now expires : Nat} {key : κ} {m : String} {machines : List String}

@[simp]
theorem register_value : (r.register now expires key machines).value = r.value := by
  induction machines generalizing r with
  | nil => rfl
  | cons m machines ih =>
    simp only [register]
    split
    . exact ih
    . exact ih

/--
The set of a machine contains `key`, and lives until `bound` at least.
-/
def Registered (r : Redis κ) (m : String) (key : κ) (bound : Nat) : Prop :=
  ∃ members expires, r.keys m = some (members, expires) ∧ key ∈ members ∧ bound ≤ expires

omit [DecidableEq κ] in
theorem Registered.mem_sMembers {bound : Nat} (h : r.Registered m key bound) (hnow : now < bound)
    : key ∈ r.sMembers now m := by
  obtain ⟨members, expires, hkeys, hmem, hle⟩ := h
  have : now < expires := by omega
  simpa [sMembers, hkeys, this] using hmem

theorem Registered.sAdd {key' : κ} {m' : String} {bound : Nat} (h : r.Registered m key bound)
    (hnow : now < bound) (hbound : bound ≤ expires)
    : (r.sAdd now m' key' expires).Registered m key bound := by
  by_cases hm : m = m'
  . subst hm
    refine ⟨_, expires, Function.update_self .., ?_, hbound⟩
    exact Finset.mem_insert_of_mem (h.mem_sMembers hnow)
  . obtain ⟨members, expires', hkeys, hmem, hle⟩ := h
    exact ⟨members, expires', by simpa [Redis.sAdd, hm] using hkeys, hmem, hle⟩

theorem Registered.register {key' : κ} {bound : Nat} (h : r.Registered m key bound)
    (hnow : now < bound) (hbound : bound ≤ expires)
    : (r.register now expires key' machines).Registered m key bound := by
  induction machines generalizing r with
  | nil => exact h
  | cons m' machines ih =>
    simp only [Redis.register]
    split
    . exact ih h
    . exact ih (h.sAdd hnow hbound)

theorem registered_register {bound : Nat} (hm : m ∈ machines) (hname : m ≠ "") (hnow : now < bound)
    (hbound : bound ≤ expires)
    : (r.register now expires key machines).Registered m key bound := by
  induction machines generalizing r with
  | nil => cases hm
  | cons m' machines ih =>
    simp only [Redis.register]
    obtain rfl | hm := List.mem_cons.mp hm
    . rw [if_neg hname]
      apply Registered.register _ hnow hbound
      exact ⟨_, expires, Function.update_self .., Finset.mem_insert_self _ _, hbound⟩
    . split
      . exact ih hm
      . exact ih hm

omit [DecidableEq κ] in
theorem get_eq_some {e : Entry} (h : r.get now key = some e)
    : r.value key = some e ∧ now < e.expires := by
  simpa [get, Option.filter_eq_some_iff] using h

omit [DecidableEq κ] in
theorem get_of_value {e : Entry} (h : r.value key = some e) (hnow : now < e.expires)
    : r.get now key = some e := by
  simpa [get, Option.filter_eq_some_iff] using ⟨h, hnow⟩

end Redis

/--
`consecutive` and `openUntil`.
-/
structure Circuit where
  consecutive : Nat
  openUntil : Nat
  deriving DecidableEq

def circuitThreshold : Nat := 3

def circuitCooldown : Nat := 30 * second

namespace Circuit

def init : Circuit where
  consecutive := 0
  openUntil := 0

def up (c : Circuit) (now : Nat) : Bool :=
  now > c.openUntil

def ok (c : Circuit) : Circuit :=
  { c with consecutive := 0 }

def note (c : Circuit) (now : Nat) : Circuit :=
  if c.consecutive + 1 ≥ circuitThreshold then
    { consecutive := 0, openUntil := now + circuitCooldown }
  else
    { c with consecutive := c.consecutive + 1 }

@[simp]
theorem ok_init : init.ok = init := rfl

theorem up_init {now : Nat} (h : 0 < now) : init.up now = true := by
  simpa [init, up] using h

end Circuit

end Cache
end Api
