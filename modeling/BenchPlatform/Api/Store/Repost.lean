import BenchPlatform.Api.Store.History

/-!
This module proves what it takes for an ingest that is repeated to change nothing, whatever has been
ingested since: the machine must still be described as it was.
-/

namespace Api
namespace Store

open Model Program

def MachineRow.ofMachine (m : Machine) (firstSeen lastSeen : Time) : MachineRow where
  id := m.id
  hostname := m.hostname
  cpuModel := m.cpuModel
  physicalCores := m.physicalCores
  logicalCPUs := m.logicalCPUs
  l1dKB := m.l1dKB
  l2KB := m.l2KB
  l3KB := m.l3KB
  memoryBytes := m.memoryBytes
  os := m.os
  kernel := m.kernel
  compiler := m.compiler
  compilerFlags := m.compilerFlags
  virtualized := m.virtualized
  firstSeen := firstSeen
  lastSeen := lastSeen

/--
The row says of the machine what `m` says.
-/
def MachineRow.Describes (row : MachineRow) (m : Machine) : Prop :=
  row = .ofMachine m row.firstSeen row.lastSeen

/--
The row of the request's machine, if there is one, describes it as the request does.
-/
def Described (db : Db) (r : Request) : Prop :=
  ∀ env rs, r.Stores env rs → ∀ row ∈ db.machines.rows, row.id = env.machine.id →
    row.Describes env.machine

/--
The request succeeds if no command fails, and then it inserts nothing and changes nothing.
-/
def ChangesNothing (jsonb : Json → Bool) (db : Db) (r : Request) : Prop :=
  ∃ res w, r.ingest (connect jsonb (fun _ => none) db) = .ok res w ∧ res.inserted = 0 ∧ w.db = db

/--
The row has been seen in all of this time.
-/
structure MachineRow.Spans (row : MachineRow) (firstSeen lastSeen : Time) : Prop where
  first : ¬firstSeen.Before row.firstSeen
  last : ¬row.lastSeen.Before lastSeen

/--
The rows of `e` are there, or other ones instead.
-/
structure Covered (db : Db) (e : Encoded) : Prop where
  machine : ∃ row ∈ db.machines.rows, row.id = e.machine.id
    ∧ row.Spans e.machine.firstSeen e.machine.lastSeen
  run : e.run.id ∈ db.runs.keys
  measurements : ∀ m ∈ e.measurements, m.key ∈ db.measurements.keys

variable {jsonb : Json → Bool} {db db' : Db} {c : Call} {r : Request} {env : RunEnvelope}
  {rs : List Result} {e e' : Encoded} {row new old : MachineRow} {first last : Time}

theorem Time.before_irrefl (t : Time) : ¬t.Before t :=
  List.lt_irrefl _

theorem Time.before_trans {t u v : Time} (h : t.Before u) (h' : u.Before v) : t.Before v :=
  List.lt_trans h h'

theorem encodeMachine_eq {m : Machine} {started finished : Time}
    (h : encodeMachine m started finished = .ok row)
    : row = .ofMachine m (timestamptz started) (timestamptz finished) := by
  unfold encodeMachine at h
  simp only [except_bind_eq_ok, encodeText_eq_ok, encodeInt4_eq_ok] at h
  obtain ⟨_, ⟨_, rfl⟩, _, ⟨_, rfl⟩, _, ⟨_, rfl⟩, _, ⟨_, rfl⟩, _, ⟨_, rfl⟩, _, ⟨_, rfl⟩, _, ⟨_, rfl⟩,
    _, ⟨_, rfl⟩, _, ⟨_, rfl⟩, _, ⟨_, rfl⟩, _, ⟨_, rfl⟩, _, ⟨_, rfl⟩, _, ⟨_, rfl⟩, hpure⟩ := h
  injection hpure with hpure
  exact hpure.symm

theorem MachineRow.spans_merge_new : (new.merge old).Spans new.firstSeen new.lastSeen := by
  constructor <;> dsimp only [merge] <;> split
  . exact Time.before_irrefl _
  . assumption
  . exact Time.before_irrefl _
  . assumption

theorem MachineRow.Spans.merge (h : old.Spans first last) : (new.merge old).Spans first last := by
  constructor <;> dsimp only [MachineRow.merge] <;> split
  . rename_i hbefore
    exact fun hfirst => h.first (Time.before_trans hfirst hbefore)
  . exact h.first
  . rename_i hbefore
    exact fun hlast => h.last (Time.before_trans hbefore hlast)
  . exact h.last

theorem Covered.store_self : Covered (db.store e) e := by
  constructor
  . obtain ⟨row, hrow, hid, hnew | ⟨old, hmerged⟩⟩ :=
      db.machines.exists_upsert_self e.machine e.machine.merge e.machine.merge_id
    . refine ⟨row, hrow, hid, ?_⟩
      rw [hnew]
      exact ⟨Time.before_irrefl _, Time.before_irrefl _⟩
    . refine ⟨row, hrow, hid, ?_⟩
      rw [hmerged]
      exact MachineRow.spans_merge_new
  . exact Table.mem_keys_insertIgnore.mpr (.inr rfl)
  . intro m hm
    exact Table.mem_keys_insertAllIgnore.mpr (.inr ⟨m, hm, rfl⟩)

theorem Covered.store (h : Covered db e) : Covered (db.store e') e := by
  constructor
  . obtain ⟨old, hold, hid, hspans⟩ := h.machine
    obtain ⟨row, hrow, hkey, rfl | hmerged⟩ :=
      Table.exists_upsert_of_mem e'.machine e'.machine.merge e'.machine.merge_id hold
    . exact ⟨row, hrow, hid, hspans⟩
    . refine ⟨row, hrow, hkey.trans hid, ?_⟩
      rw [hmerged]
      exact hspans.merge
  . exact Table.mem_keys_insertIgnore.mpr (.inl h.run)
  . intro m hm
    exact Table.keys_subset_insertAllIgnore (h.measurements m hm)

theorem Covered.step (h : Covered db e) (hstep : db.step jsonb c = some db') : Covered db' e := by
  obtain ⟨_, _, e', _, _, rfl⟩ := step_eq_some hstep
  exact h.store

theorem Covered.fresh (h : Covered db e) : db.fresh e = [] := by
  apply List.eq_nil_iff_forall_not_mem.mpr
  intro m hm
  exact (Table.mem_firsts.mp hm).1 (h.measurements m (Table.mem_of_mem_firsts hm))

theorem MachineRow.merge_of_spans {m : Machine} (hspans : old.Spans first last) (hid : old.id = m.id)
    : (ofMachine m first last).merge old = ofMachine m old.firstSeen old.lastSeen := by
  unfold merge ofMachine
  dsimp only
  rw [if_neg hspans.first, if_neg hspans.last, hid]

theorem Covered.store_eq (h : Covered db e) (hstores : r.Stores env rs)
    (hencode : encode jsonb env rs = .ok e)
    : db.store e = db ↔ Described db r := by
  obtain ⟨started, finished, _, _, hmachine, _, _⟩ := encode_eq_ok.mp hencode
  have hrow := encodeMachine_eq hmachine
  obtain ⟨old, hold, hid, hspans⟩ := h.machine
  have hkey : e.machine.id = env.machine.id := congrArg MachineRow.id hrow
  have hmerge : e.machine.merge old = .ofMachine env.machine old.firstSeen old.lastSeen := by
    rw [hrow] at hspans ⊢
    exact MachineRow.merge_of_spans hspans (hid.trans hkey)
  have hruns : db.runs.insertIgnore e.run = db.runs := Table.insertIgnore_of_mem h.run
  have hmeasurements : db.measurements.insertAllIgnore e.measurements = db.measurements :=
    Table.insertAllIgnore_of_subset h.measurements
  have hmem : e.machine.id ∈ db.machines.keys := hid ▸ List.mem_map_of_mem hold
  have hself := Table.upsert_eq_self e.machine.merge e.machine.merge_id hmem
  have hstore : db.store e = db ↔ e.machine.merge old = old := by
    unfold Db.store
    rw [hruns, hmeasurements]
    constructor
    . intro heq
      exact hself.mp (congrArg Db.machines heq) old hold hid
    . intro hsame
      rw [hself.mpr]
      intro old' hold' hid'
      rwa [Table.eq_of_key_eq hold' hold (hid'.trans hid.symm)]
  rw [hstore, hmerge]
  constructor
  . intro hsame env' rs' hstores' row hrow' hrowID
    obtain ⟨rfl, rfl⟩ := hstores'.unique hstores
    have hrowOld : row = old :=
      Table.eq_of_key_eq hrow' hold (hrowID.trans (hkey.symm.trans hid.symm))
    rw [hrowOld]
    exact hsame.symm
  . intro hdescribed
    exact (hdescribed env rs hstores old hold (hid.trans hkey)).symm

/--
Once a request has been ingested, and whatever has been ingested since, ingesting it again changes
nothing if and only if its machine is still described as it says.
-/
theorem repost_iff (jsonb : Json → Bool) (db : Db) (c : Call) (later : List Call)
    (h : (db.step jsonb c).isSome)
    : ChangesNothing jsonb (Db.run jsonb db (c :: later)) c.request
      ↔ Described (Db.run jsonb db (c :: later)) c.request := by
  obtain ⟨db₁, hfirst⟩ := Option.isSome_iff_exists.mp h
  obtain ⟨env, rs, e, hstores, hencode, hdb₁⟩ := step_eq_some hfirst
  have hcovered : Covered (Db.run jsonb db (c :: later)) e := by
    unfold Db.run
    rw [Trans.run_cons, Trans.next_of_some hfirst]
    apply Trans.invariant (I := fun db => Covered db e)
    . intro db c db' hdb hstep
      exact hdb.step hstep
    . rw [hdb₁]
      exact Covered.store_self
  generalize Db.run jsonb db (c :: later) = db' at hcovered
  rw [← hcovered.store_eq hstores hencode]
  constructor
  . rintro ⟨res, w, hok, _, hdb⟩
    obtain ⟨env', rs', hstores', hall⟩ := Request.ingest_eq_ok.mp hok
    obtain ⟨rfl, rfl⟩ := hstores'.unique hstores
    obtain ⟨e', hencode', hstore, _⟩ := ingest_iff.mp (ingestAll_eq_ok hall).1
    obtain rfl : e' = e := Except.ok.inj (hencode'.symm.trans hencode)
    exact hstore.symm.trans hdb
  . intro hstore
    have hingest : db'.ingest jsonb env rs = .ok (_, db') :=
      ingest_iff.mpr ⟨e, hencode, hstore.symm, rfl⟩
    have hfault : (connect jsonb (fun _ => none) db').Faultless := fun _ => rfl
    obtain ⟨w, hall, hdb⟩ := (ingestAll_iff hfault).mpr hingest
    refine ⟨_, w, Request.ingest_eq_ok.mpr ⟨env, rs, hstores, hall⟩, ?_, hdb⟩
    dsimp only
    rw [hcovered.fresh]
    rfl

def firstPost : Call :=
  examplePost "ffffffffffffffffffffffffffffffff" "h" "0"

def renamingPost : Call :=
  examplePost "ffffffffffffffffffffffffffffffff" "other" "1"

def hostnames (db : Db) : List String :=
  db.machines.rows.map (·.hostname)

theorem ChangesNothing.step (h : ChangesNothing jsonb db r)
    : db.step jsonb { request := r, fault := fun _ => none } = some db := by
  obtain ⟨res, w, hok, _, hdb⟩ := h
  unfold Db.step
  dsimp only
  rw [hok]
  exact congrArg some hdb

/--
Once more the first post takes the new hostname back.
-/
theorem repost_renames
    : ¬ChangesNothing (fun _ => true)
        (Db.run (fun _ => true) .empty [firstPost, renamingPost]) firstPost.request := by
  intro h
  have hbefore : hostnames (Db.run (fun _ => true) .empty [firstPost, renamingPost]) = ["other"] := by
    decide +kernel
  have hafter : (Db.step (fun _ => true) (Db.run (fun _ => true) .empty [firstPost, renamingPost])
      firstPost).map hostnames = some ["h"] := by
    decide +kernel
  have hsame : Db.step (fun _ => true) (Db.run (fun _ => true) .empty [firstPost, renamingPost])
      firstPost = some _ :=
    h.step
  rw [hsame, Option.map_some, hbefore] at hafter
  exact absurd hafter (by decide)

theorem repost_iff_renamed
    : ChangesNothing (fun _ => true) (Db.run (fun _ => true) .empty [firstPost, renamingPost])
        firstPost.request
      ↔ Described (Db.run (fun _ => true) .empty [firstPost, renamingPost]) firstPost.request :=
  repost_iff (fun _ => true) .empty firstPost [renamingPost] (by decide +kernel)

end Store
end Api
