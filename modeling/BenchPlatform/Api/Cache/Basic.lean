import BenchPlatform.Api.Cache.Redis
import BenchPlatform.Lib.Trans

/-!
This module contains the cache of the API as it is used: any number of `Fetch`es and ingests whose
database accesses and Redis commands interleave.
-/

namespace Api
namespace Cache

/--
Where a `Fetch` is. Each point is named after its next access.
-/
inductive FetchPoint where
  | get
  /-- `load`; the result is stored unless the circuit was open. -/
  | load (cached : Bool)
  | store (body : Nat)
  /-- It returned a body, or the error of `load`. -/
  | done (body : Option Nat)
  deriving DecidableEq

/--
A call of `Fetch`. `acked` is history: the ingests that were acknowledged when it started, each with
its machine and its place in the order of the commits.
-/
structure Fetch (κ : Type) where
  key : κ
  machines : List String
  acked : List (String × Nat)
  point : FetchPoint

/--
Where an ingest is after its commit: in `InvalidateMachine`, before the answer, or answered.
-/
inductive IngestPoint (κ : Type) where
  | up
  | sMembers
  | del (members : Finset κ)
  | answer
  | acked
  deriving DecidableEq

/--
An ingest for a machine that was the `commit`-th to commit.
-/
structure Ingest (κ : Type) where
  machine : String
  commit : Nat
  point : IngestPoint κ
  deriving DecidableEq

def Ingest.Finished {κ : Type} (g : Ingest κ) : Prop :=
  match g.point with
  | .answer | .acked => True
  | _ => False

instance {κ : Type} : (g : Ingest κ) → Decidable g.Finished
  | { point := .answer, .. } | { point := .acked, .. } => inferInstanceAs (Decidable True)
  | { point := .up, .. } | { point := .sMembers, .. } | { point := .del _, .. } => inferInstanceAs (Decidable False)

structure State (κ : Type) where
  ttl : Nat
  now : Nat
  circuit : Circuit
  redis : Redis κ
  commits : Nat
  fetches : List (Fetch κ)
  ingests : List (Ingest κ)
  acked : List (String × Nat)

/--
`fetch` and `ingest` are the next access of the call at a place in the list; `fails` says whether
the access fails.
-/
inductive Action (κ : Type) where
  | tick (d : Nat)
  | start (key : κ) (machines : List String)
  | fetch (i : Nat) (fails : Bool)
  | commit (machine : String)
  | ingest (i : Nat) (fails : Bool)
  deriving DecidableEq

variable {κ : Type} [DecidableEq κ]

/--
A cache without entries. The clock is past the zero time that `openUntil` starts with.
-/
def init (κ : Type) (ttl : Nat) : State κ where
  ttl := ttl
  now := 1
  circuit := .init
  redis := .init
  commits := 0
  fetches := []
  ingests := []
  acked := []

namespace State

def setFetch (s : State κ) (i : Nat) (f : Fetch κ) : State κ :=
  { s with fetches := s.fetches.set i f }

def setIngest (s : State κ) (i : Nat) (g : Ingest κ) : State κ :=
  { s with ingests := s.ingests.set i g }

def note (s : State κ) : State κ :=
  { s with circuit := s.circuit.note s.now }

def ok (s : State κ) : State κ :=
  { s with circuit := s.circuit.ok }

/--
The next access of a `Fetch`.
-/
def stepFetch (s : State κ) (i : Nat) (f : Fetch κ) (fails : Bool) : Option (State κ) :=
  match f.point with
  | .get =>
    if fails then
      some (s.note.setFetch i { f with point := .load true })
    else
      match s.redis.get s.now f.key with
      | some e => some (s.ok.setFetch i { f with point := .done (some e.body) })
      | none => some (s.ok.setFetch i { f with point := .load true })
  | .load cached =>
    if fails then
      some (s.setFetch i { f with point := .done none })
    else if cached then
      some (s.setFetch i { f with point := .store s.commits })
    else
      some (s.setFetch i { f with point := .done (some s.commits) })
  | .store body =>
    let s := s.setFetch i { f with point := .done (some body) }
    if fails then
      some s.note
    else
      some { s.ok with redis := s.redis.store s.now s.ttl f.key f.machines body }
  | .done _ => none

def stepIngest (s : State κ) (i : Nat) (g : Ingest κ) (fails : Bool) : Option (State κ) :=
  match g.point with
  | .up =>
    if s.circuit.up s.now ∧ g.machine ≠ "" then
      some (s.setIngest i { g with point := .sMembers })
    else
      some (s.setIngest i { g with point := .answer })
  | .sMembers =>
    if fails then
      some (s.note.setIngest i { g with point := .answer })
    else
      let members := s.redis.sMembers s.now g.machine
      if members = ∅ then
        some (s.setIngest i { g with point := .answer })
      else
        some (s.setIngest i { g with point := .del members })
  | .del members =>
    let s := s.setIngest i { g with point := .answer }
    if fails then
      some s.note
    else
      some { s.ok with redis := s.redis.del members g.machine }
  | .answer =>
    some { s.setIngest i { g with point := .acked } with
      acked := s.acked ++ [(g.machine, g.commit)] }
  | .acked => none

def step (s : State κ) : Action κ → Option (State κ)
  | .tick d => some { s with now := s.now + d }
  | .start key machines =>
    let point := if s.circuit.up s.now then .get else .load false
    let f : Fetch κ := { key := key, machines := machines, acked := s.acked, point := point }
    some { s with fetches := s.fetches ++ [f] }
  | .fetch i fails => s.fetches[i]?.bind fun f => s.stepFetch i f fails
  | .commit machine =>
    -- the validators reject an envelope whose machine has no id
    if machine = "" then
      none
    else
      let g : Ingest κ := { machine := machine, commit := s.commits + 1, point := .up }
      some { s with commits := s.commits + 1, ingests := s.ingests ++ [g] }
  | .ingest i fails => s.ingests[i]?.bind fun g => s.stepIngest i g fails

def run (s : State κ) (schedule : List (Action κ)) : State κ :=
  Trans.run step s schedule

end State

end Cache
end Api
