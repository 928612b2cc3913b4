import BenchPlatform.Api.Strings
import BenchPlatform.Lib.Keyset
import BenchPlatform.Lib.Program
import BenchPlatform.Lib.Trans
import Mathlib.Data.Finset.Sort
import Mathlib.Data.Int.ConditionallyCompleteOrder

/-!
This module contains the migrations: how the files are read, how `Up` and `Down` go through them with one
transaction each, and what is recorded when any of their commands fails.
-/

namespace Api
namespace Migrations

structure Migration where
  version : Int
  name : Bytes
  up : Bytes
  down : Bytes
  deriving DecidableEq

inductive LoadError where
  | wantName (file : Bytes)
  | badVersion (file : Bytes)
  | badSuffix (file : Bytes)
  | noUp (version : Int)
  deriving DecidableEq

def underscore : UInt8 := 95

def trimSuffix (v suffix : Bytes) : Bytes :=
  if suffix.isSuffixOf v then v.take (v.length - suffix.length) else v

def setVersion (version : Int) (f : Migration → Migration) : List Migration → List Migration
  | [] => [f { version := version, name := [], up := [], down := [] }]
  | m :: ms => if m.version = version then f m :: ms else m :: setVersion version f ms

def addFile (ms : List Migration) (file : Bytes × Bytes) : Except LoadError (List Migration) :=
  match cut underscore file.1 with
  | none => .error (.wantName file.1)
  | some (number, rest) =>
    match parseInt number with
    | none => .error (.badVersion file.1)
    | some version =>
      if (ascii ".up.sql").isSuffixOf file.1 then
        .ok (setVersion version
          (fun m => { m with name := trimSuffix rest (ascii ".up.sql"), up := file.2 }) ms)
      else if (ascii ".down.sql").isSuffixOf file.1 then
        .ok (setVersion version (fun m => { m with down := file.2 }) ms)
      else
        .error (.badSuffix file.1)

/--
The migrations in the order of their versions. Which of those without a script for `Up` the error names
depends on the order of a map.
-/
def Load (files : List (Bytes × Bytes)) : Except LoadError (List Migration) := do
  let ms ← files.foldlM addFile []
  let out := ms.insertionSort fun m m' => m.version ≤ m'.version
  match out.find? (·.up = []) with
  | some m => throw (.noUp m.version)
  | none => return out

/--
What the database has of the migrations: the versions that `schema_migrations` records, and those whose
script is in effect.
-/
structure Db where
  recorded : Finset Int
  schema : Finset Int
  deriving DecidableEq

/--
What becomes of a commit. The reply can be lost after the server has committed.
-/
inductive CommitOutcome where
  | committed
  | failed
  | lost
  deriving DecidableEq

structure TxOutcome where
  begins : Bool
  script : Bool
  record : Bool
  commit : CommitOutcome

/--
Whether a version is an `integer` of the database.
-/
def storable (version : Int) : Bool :=
  -2 ^ 31 ≤ version ∧ version < 2 ^ 31

/--
A statement of the transaction, which changes the working copy if the server accepts it.
-/
def exec (accepted : Bool) (work : Db) : Option Db :=
  if accepted then some work else none

/--
The script of a migration, then its row in `schema_migrations`.
-/
def execUp (m : Migration) (o : TxOutcome) (db : Db) : Option Db := do
  let db ← exec o.script { db with schema := insert m.version db.schema }
  -- the version is the primary key
  exec (o.record ∧ storable m.version ∧ m.version ∉ db.recorded)
    { db with recorded := insert m.version db.recorded }

def execDown (m : Migration) (o : TxOutcome) (db : Db) : Option Db := do
  let db ← exec o.script { db with schema := db.schema.erase m.version }
  exec o.record { db with recorded := db.recorded.erase m.version }

def inTx (o : TxOutcome) (fn : Db → Option Db) (db : Db) : Bool × Db :=
  if o.begins then
    match fn db with
    | none => (false, db)
    | some work =>
      match o.commit with
      | .committed => (true, work)
      | .failed => (false, db)
      | .lost => (false, work)
  else
    (false, db)

inductive MigrateError where
  | load (e : LoadError)
  | applied
  | up (version : Int) (name : Bytes)
  | down (version : Int) (name : Bytes)
  | noDown (version : Int) (name : Bytes)
  deriving DecidableEq

/--
The versions that a call has been through, its error, and the database after it.
-/
structure Result where
  done : List Int
  err : Option MigrateError
  db : Db

structure Outcomes where
  create : Bool
  query : Bool
  tx : Nat → TxOutcome

def Applied (o : Outcomes) (db : Db) : Option (Finset Int) :=
  if o.create ∧ o.query then some db.recorded else none

def upLoop (applied : Finset Int) (tx : Nat → TxOutcome) : List Migration → List Int → Db → Result
  | [], done, db => ⟨done, none, db⟩
  | m :: ms, done, db =>
    if m.version ∈ applied then
      upLoop applied tx ms done db
    else
      match inTx (tx done.length) (execUp m (tx done.length)) db with
      | (true, db) => upLoop applied tx ms (done ++ [m.version]) db
      | (false, db) => ⟨done, some (.up m.version m.name), db⟩

def Up (files : List (Bytes × Bytes)) (o : Outcomes) (db : Db) : Result :=
  match Load files with
  | .error e => ⟨[], some (.load e), db⟩
  | .ok ms =>
    match Applied o db with
    | none => ⟨[], some .applied, db⟩
    | some applied => upLoop applied o.tx ms [] db

/--
The loop of `Down` over the migrations from the last one on.
-/
def downLoop (applied : Finset Int) (tx : Nat → TxOutcome) (n : Int)
    : List Migration → List Int → Db → Result
  | [], done, db => ⟨done, none, db⟩
  | m :: ms, done, db =>
    if (done.length : Int) < n then
      if m.version ∉ applied then
        downLoop applied tx n ms done db
      else if m.down = [] then
        ⟨done, some (.noDown m.version m.name), db⟩
      else
        match inTx (tx done.length) (execDown m (tx done.length)) db with
        | (true, db) => downLoop applied tx n ms (done ++ [m.version]) db
        | (false, db) => ⟨done, some (.down m.version m.name), db⟩
    else
      ⟨done, none, db⟩

def Down (files : List (Bytes × Bytes)) (n : Int) (o : Outcomes) (db : Db) : Result :=
  match Load files with
  | .error e => ⟨[], some (.load e), db⟩
  | .ok ms =>
    match Applied o db with
    | none => ⟨[], some .applied, db⟩
    | some applied => downLoop applied o.tx n ms.reverse [] db

section Load

variable {ms out : List Migration} {files : List (Bytes × Bytes)} {file : Bytes × Bytes}

theorem versions_setVersion {version : Int} {f : Migration → Migration}
    (hf : ∀ m, (f m).version = m.version)
    : (setVersion version f ms).map (·.version)
      = if version ∈ ms.map (·.version) then ms.map (·.version) else ms.map (·.version) ++ [version] := by
  induction ms with
  | nil => simp [setVersion, hf]
  | cons m ms ih =>
    unfold setVersion
    split
    . rename_i hm
      simp [hf, hm]
    . rename_i hm
      have hcons : version ∈ (m :: ms).map (·.version) ↔ version ∈ ms.map (·.version) := by
        rw [List.map_cons, List.mem_cons]
        exact or_iff_right fun h => hm h.symm
      rw [List.map_cons, ih]
      by_cases hmem : version ∈ ms.map (·.version)
      . rw [if_pos hmem, if_pos (hcons.mpr hmem)]
        rfl
      . rw [if_neg hmem, if_neg (mt hcons.mp hmem)]
        rfl

theorem nodup_setVersion {version : Int} {f : Migration → Migration}
    (hf : ∀ m, (f m).version = m.version) (h : (ms.map (·.version)).Nodup)
    : ((setVersion version f ms).map (·.version)).Nodup := by
  rw [versions_setVersion hf]
  split
  . exact h
  . rename_i hmem
    exact List.nodup_append_comm.mp (List.nodup_cons.mpr ⟨hmem, h⟩)

theorem nodup_addFile (h : addFile ms file = .ok out) (hnodup : (ms.map (·.version)).Nodup)
    : (out.map (·.version)).Nodup := by
  unfold addFile at h
  split at h
  . cases h
  . split at h
    . cases h
    . split at h
      . injection h with h
        rw [← h]
        exact nodup_setVersion (fun _ => rfl) hnodup
      . split at h
        . injection h with h
          rw [← h]
          exact nodup_setVersion (fun _ => rfl) hnodup
        . cases h

theorem nodup_addFiles (h : files.foldlM addFile ms = .ok out) (hnodup : (ms.map (·.version)).Nodup)
    : (out.map (·.version)).Nodup := by
  induction files generalizing ms with
  | nil =>
    injection h with h
    rwa [← h]
  | cons file files ih =>
    rw [List.foldlM_cons] at h
    obtain ⟨ms', hms', h⟩ := Program.except_bind_eq_ok.mp h
    exact ih h (nodup_addFile hms' hnodup)

theorem Load_ascending (h : Load files = .ok ms) : (ms.map (·.version)).Pairwise (· < ·) := by
  obtain ⟨read, hread, h⟩ := Program.except_bind_eq_ok.mp h
  dsimp only at h
  split at h
  . cases h
  . injection h with h
    have hperm := (List.perm_insertionSort (fun m m' : Migration => m.version ≤ m'.version) read).map
      (·.version)
    have hnodup := hperm.nodup_iff.mpr (nodup_addFiles hread List.nodup_nil)
    have hsorted : (_ : List Int).Pairwise (· ≤ ·) :=
      List.pairwise_map.mpr (Keyset.pairwise_insertionSort Migration.version read)
    rw [← h]
    exact (hsorted.and hnodup).imp fun h => lt_of_le_of_ne h.1 h.2

end Load

def Db.Consistent (db : Db) : Prop :=
  db.recorded = db.schema

def Db.applied (db : Db) (versions : List Int) : Db where
  recorded := db.recorded ∪ versions.toFinset
  schema := db.schema ∪ versions.toFinset

def Db.rolledBack (db : Db) (versions : List Int) : Db where
  recorded := db.recorded \ versions.toFinset
  schema := db.schema \ versions.toFinset

section Loops

variable {m : Migration} {o : TxOutcome} {db db' : Db} {ok : Bool} {v : Int} {versions : List Int}

@[simp]
theorem Db.applied_nil : db.applied [] = db := by
  simp [Db.applied]

@[simp]
theorem Db.rolledBack_nil : db.rolledBack [] = db := by
  simp [Db.rolledBack]

theorem Db.applied_cons : db.applied (v :: versions) = (db.applied [v]).applied versions := by
  simp only [Db.applied, List.toFinset_cons, List.toFinset_nil, Finset.union_insert, Finset.union_empty,
    Finset.insert_union]

theorem Db.rolledBack_cons : db.rolledBack (v :: versions) = (db.rolledBack [v]).rolledBack versions := by
  simp only [Db.rolledBack, List.toFinset_cons, List.toFinset_nil, Finset.sdiff_insert, insert_empty_eq,
    Finset.sdiff_singleton_eq_erase]
  simp [Finset.erase_sdiff_comm]

theorem Db.Consistent.applied (h : db.Consistent) : (db.applied versions).Consistent := by
  unfold Db.Consistent at h ⊢
  simp [Db.applied, h]

theorem Db.Consistent.rolledBack (h : db.Consistent) : (db.rolledBack versions).Consistent := by
  unfold Db.Consistent at h ⊢
  simp [Db.rolledBack, h]

/--
A transaction does all that it is there for, or nothing. It can have done it and return an error.
-/
theorem inTx_cases {fn : Db → Option Db} {target : Db} (hfn : ∀ work, fn db = some work → work = target)
    (h : inTx o fn db = (ok, db'))
    : ok = true ∧ db' = target ∨ ok = false ∧ (db' = db ∨ db' = target) := by
  unfold inTx at h
  split at h
  . split at h
    . injection h with hok hdb
      exact .inr ⟨hok.symm, .inl hdb.symm⟩
    . rename_i work hwork
      rw [hfn work hwork] at h
      split at h
      all_goals injection h with hok hdb
      . exact .inl ⟨hok.symm, hdb.symm⟩
      . exact .inr ⟨hok.symm, .inl hdb.symm⟩
      . exact .inr ⟨hok.symm, .inr hdb.symm⟩
  . injection h with hok hdb
    exact .inr ⟨hok.symm, .inl hdb.symm⟩

theorem exec_eq_some {accepted : Bool} {work : Db} (h : exec accepted work = some db) : db = work := by
  unfold exec at h
  split at h
  . exact (Option.some.inj h).symm
  . cases h

theorem inTx_execUp (h : inTx o (execUp m o) db = (ok, db'))
    : ok = true ∧ db' = db.applied [m.version]
      ∨ ok = false ∧ (db' = db ∨ db' = db.applied [m.version]) := by
  apply inTx_cases _ h
  intro work hwork
  obtain ⟨db₁, hscript, hrecord⟩ := Option.bind_eq_some_iff.mp hwork
  rw [exec_eq_some hrecord, exec_eq_some hscript, Db.applied, List.toFinset_cons, List.toFinset_nil,
    Finset.union_insert, Finset.union_empty, Finset.union_insert, Finset.union_empty]

theorem inTx_execDown (h : inTx o (execDown m o) db = (ok, db'))
    : ok = true ∧ db' = db.rolledBack [m.version]
      ∨ ok = false ∧ (db' = db ∨ db' = db.rolledBack [m.version]) := by
  apply inTx_cases _ h
  intro work hwork
  obtain ⟨db₁, hscript, hrecord⟩ := Option.bind_eq_some_iff.mp hwork
  rw [exec_eq_some hrecord, exec_eq_some hscript, Db.rolledBack, List.toFinset_cons, List.toFinset_nil,
    insert_empty_eq, Finset.sdiff_singleton_eq_erase, Finset.sdiff_singleton_eq_erase]

end Loops

/--
A call went through the first of the versions that were its turn. Without an error these are all, and
after one the next of them may have been committed too.
-/
structure Result.Progress (r : Result) (done todo : List Int) (after : List Int → Db) : Prop where
  split : ∃ new rest, todo = new ++ rest ∧ r.done = done ++ new ∧ (r.err = none → rest = [])
    ∧ (r.db = after new ∨ r.err ≠ none ∧ ∃ v rest', rest = v :: rest' ∧ r.db = after (new ++ [v]))

namespace Result.Progress

variable {r : Result} {done todo : List Int} {after : List Int → Db} {v : Int}

theorem stop (hdone : r.done = done) (hdb : r.db = after []) (htodo : r.err = none → todo = [])
    : r.Progress done todo after where
  split := ⟨[], todo, rfl, by rw [hdone, List.append_nil], htodo, .inl hdb⟩

theorem lost {todo : List Int} (hdone : r.done = done) (herr : r.err ≠ none) (hdb : r.db = after [v])
    : r.Progress done (v :: todo) after where
  split := ⟨[], v :: todo, rfl, by rw [hdone, List.append_nil], fun h => absurd h herr,
    .inr ⟨herr, v, todo, rfl, hdb⟩⟩

theorem cons (h : r.Progress (done ++ [v]) todo fun new => after (v :: new))
    : r.Progress done (v :: todo) after where
  split := by
    obtain ⟨new, rest, htodo, hdone, hrest, hdb⟩ := h.split
    refine ⟨v :: new, rest, by rw [htodo, List.cons_append], ?_, hrest, hdb⟩
    rw [hdone, List.append_assoc]
    rfl

end Result.Progress

theorem upLoop_progress (applied : Finset Int) (tx : Nat → TxOutcome) (ms : List Migration)
    (done : List Int) (db : Db)
    : (upLoop applied tx ms done db).Progress done ((ms.map (·.version)).filter (· ∉ applied))
        db.applied := by
  induction ms generalizing done db with
  | nil => exact .stop rfl db.applied_nil.symm fun _ => rfl
  | cons m ms ih =>
    unfold upLoop
    rw [List.map_cons, List.filter_cons]
    split
    . rename_i hmem
      rw [if_neg (by simpa using hmem)]
      exact ih done db
    . rename_i hmem
      rw [if_pos (by simpa using hmem)]
      split
      . rename_i db' htx
        obtain ⟨_, rfl⟩ | ⟨hok, _⟩ := inTx_execUp htx
        . apply Result.Progress.cons
          rw [funext fun new => Db.applied_cons]
          exact ih (done ++ [m.version]) (db.applied [m.version])
        . cases hok
      . rename_i db' htx
        obtain ⟨hok, _⟩ | ⟨_, rfl | rfl⟩ := inTx_execUp htx
        . cases hok
        . exact .stop rfl db'.applied_nil.symm nofun
        . exact .lost rfl nofun rfl

theorem downLoop_progress (applied : Finset Int) (tx : Nat → TxOutcome) (n : Int) (ms : List Migration)
    (done : List Int) (db : Db)
    : (downLoop applied tx n ms done db).Progress done
        (((ms.map (·.version)).filter (· ∈ applied)).take (n.toNat - done.length)) db.rolledBack := by
  induction ms generalizing done db with
  | nil => exact .stop rfl db.rolledBack_nil.symm fun _ => by simp
  | cons m ms ih =>
    unfold downLoop
    rw [List.map_cons, List.filter_cons]
    split
    . rename_i hlt
      obtain ⟨k, hk⟩ : ∃ k, n.toNat - done.length = k + 1 := ⟨n.toNat - done.length - 1, by omega⟩
      by_cases hmem : m.version ∈ applied
      case neg =>
        rw [if_pos hmem, if_neg (mt of_decide_eq_true hmem)]
        exact ih done db
      case pos =>
        rw [if_neg (not_not.mpr hmem), if_pos (decide_eq_true hmem), hk, List.take_succ_cons]
        split
        . exact .stop rfl db.rolledBack_nil.symm nofun
        . split
          . rename_i db' htx
            obtain ⟨_, rfl⟩ | ⟨hok, _⟩ := inTx_execDown htx
            . apply Result.Progress.cons
              have hleft : n.toNat - (done ++ [m.version]).length = k := by
                rw [List.length_append, List.length_singleton]
                omega
              rw [funext fun new => Db.rolledBack_cons, ← hleft]
              exact ih (done ++ [m.version]) (db.rolledBack [m.version])
            . cases hok
          . rename_i db' htx
            obtain ⟨hok, _⟩ | ⟨_, rfl | rfl⟩ := inTx_execDown htx
            . cases hok
            . exact .stop rfl db'.rolledBack_nil.symm nofun
            . exact .lost rfl nofun rfl
    . rename_i hge
      have hzero : n.toNat - done.length = 0 := by omega
      rw [hzero, List.take_zero]
      exact .stop rfl db.rolledBack_nil.symm fun _ => rfl

section Calls

variable {files : List (Bytes × Bytes)} {o : Outcomes} {db : Db} {n : Int}

def known (files : List (Bytes × Bytes)) : List Int :=
  match Load files with
  | .error _ => []
  | .ok ms => ms.map (·.version)

theorem known_ascending : (known files).Pairwise (· < ·) := by
  unfold known
  split
  . exact List.Pairwise.nil
  . exact Load_ascending ‹_›

/--
The versions that `Up` has to apply, in its order.
-/
def pending (files : List (Bytes × Bytes)) (db : Db) : List Int :=
  (known files).filter (· ∉ db.recorded)

/--
The recorded versions that the binary has files for, from the highest one on.
-/
def removable (files : List (Bytes × Bytes)) (db : Db) : List Int :=
  (known files).reverse.filter (· ∈ db.recorded)

/--
The `n` highest of the recorded versions, or all of them if there are fewer.
-/
def highest (n : Int) (db : Db) : List Int :=
  (db.recorded.sort (· ≥ ·)).take n.toNat

theorem Up_progress (files : List (Bytes × Bytes)) (o : Outcomes) (db : Db)
    : (Up files o db).Progress [] (pending files db) db.applied := by
  unfold Up pending known
  split
  . exact .stop rfl db.applied_nil.symm nofun
  . unfold Applied
    split
    . exact .stop rfl db.applied_nil.symm nofun
    . rename_i applied happlied
      split at happlied
      . rw [← Option.some.inj happlied]
        exact upLoop_progress db.recorded o.tx _ [] db
      . cases happlied

theorem Down_progress (files : List (Bytes × Bytes)) (n : Int) (o : Outcomes) (db : Db)
    : (Down files n o db).Progress [] ((removable files db).take n.toNat) db.rolledBack := by
  unfold Down removable known
  split
  . exact .stop rfl db.rolledBack_nil.symm nofun
  . unfold Applied
    split
    . exact .stop rfl db.rolledBack_nil.symm nofun
    . rename_i applied happlied
      split at happlied
      . rw [← Option.some.inj happlied, ← List.map_reverse]
        exact downLoop_progress db.recorded o.tx n _ [] db
      . cases happlied

theorem pending_of_success {r : Result} (h : r.Progress [] (pending files db) db.applied)
    (hok : r.err = none)
    : pending files r.db = [] := by
  obtain ⟨new, rest, hpending, _, hrest, hdb⟩ := h.split
  rw [hrest hok, List.append_nil] at hpending
  obtain hdb | ⟨herr, _⟩ := hdb
  . rw [hdb, ← hpending]
    unfold pending Db.applied
    rw [List.filter_eq_nil_iff]
    intro v hv
    by_cases hmem : v ∈ db.recorded
    . simp [hmem]
    . simp [hmem, hv]
  . exact absurd hok herr

theorem Result.Progress.of_nil {r : Result} {after : List Int → Db} (h : r.Progress [] [] after)
    : r.done = [] ∧ r.db = after [] := by
  obtain ⟨new, rest, hnil, hdone, _, hdb⟩ := h.split
  obtain ⟨rfl, rfl⟩ := List.append_eq_nil_iff.mp hnil.symm
  obtain hdb | ⟨_, v, rest', hrest, _⟩ := hdb
  . exact ⟨hdone, hdb⟩
  . cases hrest

theorem Result.Progress.of_success {r : Result} {todo : List Int} {after : List Int → Db}
    (h : r.Progress [] todo after) (hok : r.err = none)
    : r.done = todo ∧ r.db = after todo := by
  obtain ⟨new, rest, htodo, hdone, hrest, hdb⟩ := h.split
  rw [hrest hok, List.append_nil] at htodo
  rw [htodo]
  obtain hdb | ⟨herr, _⟩ := hdb
  . exact ⟨hdone, hdb⟩
  . exact absurd hok herr

theorem removable_eq_filter
    : removable files db = (db.recorded.sort (· ≥ ·)).filter (· ∈ known files) := by
  apply List.Pairwise.eq_of_mem_iff (r := (· > ·))
  . exact (List.pairwise_reverse.mpr known_ascending).filter _
  . exact db.recorded.sortedGT_sort.pairwise.filter _
  . intro v
    simp [removable, and_comm]

theorem take_removable_iff
    : (removable files db).take n.toNat = highest n db ↔ ∀ v ∈ highest n db, v ∈ known files := by
  constructor
  . intro h v hv
    rw [← h] at hv
    exact List.mem_reverse.mp (List.mem_filter.mp (List.mem_of_mem_take hv)).1
  . intro h
    rw [removable_eq_filter]
    exact Keyset.take_filter fun v hv => decide_eq_true (h v hv)

theorem Up_consistent (h : db.Consistent) : (Up files o db).db.Consistent := by
  obtain ⟨new, _, _, _, _, hdb | ⟨_, v, _, _, hdb⟩⟩ := (Up_progress files o db).split
  all_goals
    rw [hdb]
    exact h.applied

theorem Down_consistent (h : db.Consistent) : (Down files n o db).db.Consistent := by
  obtain ⟨new, _, _, _, _, hdb | ⟨_, v, _, _, hdb⟩⟩ := (Down_progress files n o db).split
  all_goals
    rw [hdb]
    exact h.rolledBack

end Calls

inductive Call where
  | up
  | down (n : Int)
  deriving DecidableEq

def Call.run (files : List (Bytes × Bytes)) (o : Outcomes) (db : Db) : Call → Result
  | .up => Up files o db
  | .down n => Down files n o db

structure Last where
  call : Call
  before : Db
  result : Result

structure State where
  db : Db
  last : Option Last

def step (files : List (Bytes × Bytes)) (s : State) (a : Call × Outcomes) : Option State :=
  let r := a.1.run files a.2 s.db
  some { db := r.db, last := some { call := a.1, before := s.db, result := r } }

/--
What a call is there for: `Up` goes through the pending versions in ascending order and leaves nothing to
a second one if it succeeds, and a successful `Down` rolls back the highest versions.
-/
def Last.Kept (files : List (Bytes × Bytes)) (l : Last) : Prop :=
  match l.call with
  | .up =>
    (pending files l.before).Pairwise (· < ·)
      ∧ l.result.Progress [] (pending files l.before) l.before.applied
      ∧ (l.result.err = none →
          ∀ o, (Up files o l.result.db).done = [] ∧ (Up files o l.result.db).db = l.result.db)
  | .down n =>
    l.result.err = none →
      l.result.done = highest n l.before ∧ l.result.db = l.before.rolledBack (highest n l.before)

def State.Correct (files : List (Bytes × Bytes)) (s : State) : Prop :=
  s.db.Consistent ∧ ∀ l ∈ s.last, l.Kept files

/--
There are files for all the versions that `Down` is to roll back.
-/
def KnowsHighest (files : List (Bytes × Bytes)) (s : State) (a : Call × Outcomes) : Prop :=
  match a.1 with
  | .up => True
  | .down n => ∀ v ∈ highest n s.db, v ∈ known files

section History

variable {files : List (Bytes × Bytes)} {o : Outcomes} {db : Db} {n : Int}

theorem kept_up : Last.Kept files { call := .up, before := db, result := Up files o db } := by
  have hprogress := Up_progress files o db
  refine ⟨known_ascending.filter _, hprogress, fun hok o' => ?_⟩
  have hagain := Up_progress files o' (Up files o db).db
  rw [pending_of_success hprogress hok] at hagain
  have hnil := hagain.of_nil
  rwa [Db.applied_nil] at hnil

theorem kept_down_iff
    : Last.Kept files { call := .down n, before := db, result := Down files n o db }
      ↔ ((Down files n o db).err = none → ∀ v ∈ highest n db, v ∈ known files) := by
  have hprogress := Down_progress files n o db
  constructor
  . intro h hok
    obtain ⟨hdone, _⟩ := h hok
    rw [(hprogress.of_success hok).1] at hdone
    exact take_removable_iff.mp hdone
  . intro h hok
    obtain ⟨hdone, hdb⟩ := hprogress.of_success hok
    rw [take_removable_iff.mpr (h hok)] at hdone hdb
    exact ⟨hdone, hdb⟩

theorem step_correct (s : State) (a : Call × Outcomes) (s' : State) (h : s.Correct files)
    (hknows : KnowsHighest files s a) (hstep : step files s a = some s')
    : s'.Correct files := by
  obtain ⟨call, o⟩ := a
  injection hstep with hstep
  rw [← hstep]
  cases call with
  | up =>
    refine ⟨Up_consistent h.1, fun l hl => ?_⟩
    rw [← Option.some.inj hl]
    exact kept_up
  | down n =>
    refine ⟨Down_consistent h.1, fun l hl => ?_⟩
    rw [← Option.some.inj hl]
    exact kept_down_iff.mpr fun _ => hknows

/--
The record and the schema stay together, and every call does what it is there for, as long as there are
files for the versions that `Down` is to roll back.
-/
theorem migrations_correct (files : List (Bytes × Bytes)) (db : Db) (hdb : db.Consistent)
    (calls : List (Call × Outcomes))
    (hknows : Trans.Along (step files) (KnowsHighest files) { db := db, last := none } calls)
    : ∀ pre, pre <+: calls →
        (Trans.run (step files) { db := db, last := none } pre).Correct files := by
  rintro pre ⟨post, rfl⟩
  apply Trans.invariant_of_along step_correct _ pre (Trans.along_append.mp hknows).1
  exact ⟨hdb, nofun⟩

def firstFiles : List (Bytes × Bytes) :=
  [(ascii "0001_init.down.sql", ascii "DROP TABLE runs"),
    (ascii "0001_init.up.sql", ascii "CREATE TABLE runs ()")]

def secondFiles : List (Bytes × Bytes) :=
  firstFiles ++ [(ascii "0002_index.down.sql", ascii "DROP INDEX runs_idx"),
    (ascii "0002_index.up.sql", ascii "CREATE INDEX runs_idx")]

def allAccepted : Outcomes where
  create := true
  query := true
  tx _ := { begins := true, script := true, record := true, commit := .committed }

theorem migrations_correct_two
    : (Trans.run (step secondFiles) { db := ⟨∅, ∅⟩, last := none }
        [(Call.up, allAccepted), (Call.down 1, allAccepted)]).Correct secondFiles := by
  refine migrations_correct secondFiles ⟨∅, ∅⟩ rfl _ ?_ _ List.prefix_rfl
  refine ⟨fun _ => trivial, fun _ v hv => ?_, trivial⟩
  have hall : ∀ v ∈ (Up secondFiles allAccepted ⟨∅, ∅⟩).db.recorded, v ∈ known secondFiles := by
    decide +kernel
  exact hall v ((Finset.mem_sort _).mp (List.mem_of_mem_take hv))

def newer : Db where
  recorded := {1, 2}
  schema := {1, 2}

/--
The binary with one migration rolls it back, with the second one still applied.
-/
theorem down_removes_lower
    : newer.Consistent
      ∧ ¬ (Trans.run (step firstFiles) { db := newer, last := none } [(Call.down 1, allAccepted)]).Correct
            firstFiles := by
  refine ⟨rfl, fun h => ?_⟩
  have hresult : (Down firstFiles 1 allAccepted newer).err = none
      ∧ (Down firstFiles 1 allAccepted newer).done = [1] := by
    decide +kernel
  have hsort : newer.recorded.sort (· ≥ ·) = [2, 1] := by
    apply List.Pairwise.eq_of_mem_iff (r := (· > ·))
    . exact newer.recorded.sortedGT_sort.pairwise
    . decide
    . simp [newer, or_comm]
  have hdone : (Down firstFiles 1 allAccepted newer).done = highest 1 newer := (h.2 _ rfl hresult.1).1
  rw [hresult.2, highest, hsort] at hdone
  cases hdone

end History

end Migrations
end Api
