import BenchPlatform.Api.Strings
import BenchPlatform.Api.Store.Postgres
import BenchPlatform.Lib.Keyset
import BenchPlatform.Lib.Program

/-!
This module contains how the measurements are listed: the condition with numbered placeholders that a
filter becomes, what the database makes of it, and which rows that are.
-/

namespace Api
namespace Store

/--
A row with its `bigserial`.
-/
structure Measurement where
  id : Int
  row : MeasurementRow

structure Measurement.Storable (m : Measurement) : Prop where
  id_pos : 0 < m.id
  id_lt : m.id < 2 ^ 63
  machineID : '\x00' ∉ m.row.machineID.toList
  workload : '\x00' ∉ m.row.workload.toList
  metric : '\x00' ∉ m.row.metric.toList
  threadCount : -2 ^ 31 ≤ m.row.threadCount ∧ m.row.threadCount < 2 ^ 31

structure Measurements where
  rows : List Measurement
  unique : (rows.map (·.id)).Nodup
  storable : ∀ m ∈ rows, m.Storable

def Measurements.insert (t : Measurements) (m : Measurement) (hm : m.Storable)
    (hid : m.id ∉ t.rows.map (·.id))
    : Measurements where
  rows := t.rows ++ [m]
  unique := by
    rw [List.map_append]
    exact List.nodup_append_comm.mp (List.nodup_cons.mpr ⟨hid, t.unique⟩)
  storable := by
    intro m' hm'
    obtain hm' | hm' := List.mem_append.mp hm'
    . exact t.storable m' hm'
    . rwa [List.mem_singleton.mp hm']

/--
The filter of a listing. `none` is no filter on a column, which is different from a zero.
-/
structure MeasurementFilter where
  machineID : Bytes
  runID : Bytes
  workload : Bytes
  metric : Bytes
  threadCount : Option Int
  workingSetBytes : Option Int
  limit : Int
  cursor : Int
  deriving DecidableEq

inductive Column where
  | id
  | runID
  | machineID
  | workload
  | metric
  | threadCount
  | workingSetBytes
  deriving DecidableEq

inductive Comparison where
  | equal
  | greater
  deriving DecidableEq

/--
A condition of a query: a column is compared with the argument of that number, from 1 on.
-/
structure Cond where
  column : Column
  comparison : Comparison
  placeholder : Nat
  deriving DecidableEq

inductive Arg where
  | text (v : Bytes)
  | int (n : Int)
  deriving DecidableEq

abbrev Clause := List Arg × List Cond

def Clause.add (column : Column) (comparison : Comparison) (v : Arg) (c : Clause) : Clause :=
  (c.1 ++ [v], c.2 ++ [⟨column, comparison, c.1.length + 1⟩])

def Clause.addText (column : Column) (v : Bytes) (c : Clause) : Clause :=
  if v = [] then c else c.add column .equal (.text v)

def Clause.addInt (column : Column) (v : Option Int) (c : Clause) : Clause :=
  match v with
  | none => c
  | some n => c.add column .equal (.int n)

def MeasurementFilter.whereClause (f : MeasurementFilter) (args : List Arg) : Clause :=
  let c : Clause := (args, [])
  let c := c.addText .machineID f.machineID
  let c := c.addText .metric f.metric
  let c := c.addText .workload f.workload
  let c := c.addInt .threadCount f.threadCount
  let c := c.addInt .workingSetBytes f.workingSetBytes
  c.addText .runID f.runID

/--
`SELECT ... WHERE ... ORDER BY id LIMIT $n` with its arguments.
-/
structure Query where
  conds : List Cond
  limit : Nat
  args : List Arg

def MeasurementFilter.listQuery (f : MeasurementFilter) : Query :=
  let c := f.whereClause []
  let c := if 0 < f.cursor then c.add .id .greater (.int f.cursor) else c
  let limit := if f.limit ≤ 0 then 100 else f.limit
  { conds := c.2, limit := c.1.length + 1, args := c.1 ++ [.int limit] }

inductive Value where
  | text (s : String)
  | int (n : Int)
  | uuid (u : Uuid)
  deriving DecidableEq

def Column.get (m : Measurement) : Column → Value
  | .id => .int m.id
  | .runID => .uuid m.row.runID
  | .machineID => .text m.row.machineID
  | .workload => .text m.row.workload
  | .metric => .text m.row.metric
  | .threadCount => .int m.row.threadCount
  | .workingSetBytes => .int m.row.workingSetBytes

def textOf (v : Bytes) : Except GoError String :=
  match String.fromUTF8? ⟨v.toArray⟩ with
  | some s => .ok s
  | none => .error (.pg "22021" [.text "invalid byte sequence for encoding \"UTF8\""])

/--
An argument becomes a value of the type that the column it is compared with has.
-/
def Column.bind (c : Column) (a : Arg) : Except GoError Value :=
  match c, a with
  | .machineID, .text v | .workload, .text v | .metric, .text v => do
    let s ← textOf v
    .text <$> encodeText s
  | .runID, .text v => do
    let s ← textOf v
    .uuid <$> encodeUuid s
  | .threadCount, .int n => .int <$> encodeInt4 n
  | .workingSetBytes, .int n | .id, .int n => .ok (.int n)
  | _, _ => .error (.new [.text "failed to encode args"])

def Comparison.holds : Comparison → Value → Value → Bool
  | .equal, v, w => v = w
  | .greater, .int v, .int w => w < v
  | .greater, _, _ => false

def Query.arg (q : Query) (placeholder : Nat) : Except GoError Arg :=
  match q.args[placeholder - 1]? with
  | some a => .ok a
  | none => .error (.pg "42P02" [.text "there is no parameter $", .int placeholder])

def Query.predicate (q : Query) (c : Cond) : Except GoError (Measurement → Bool) := do
  let a ← q.arg c.placeholder
  let v ← c.column.bind a
  return fun m => c.comparison.holds (c.column.get m) v

def Query.count (q : Query) : Except GoError Nat := do
  match ← q.arg q.limit with
  | .int n => return n.toNat
  | .text _ => throw (.new [.text "failed to encode args"])

def Query.run (q : Query) (t : Measurements) : Except GoError (List Measurement) := do
  let predicates ← q.conds.mapM q.predicate
  let n ← q.count
  return Keyset.page (·.id) n (t.rows.filter fun m => predicates.all (· m))

def ListMeasurements (t : Measurements) (f : MeasurementFilter) : Except GoError (List Measurement) :=
  (f.listQuery.run t).mapError (.wrap [.text "list measurements"])

structure MeasurementFilter.Matches (f : MeasurementFilter) (m : Measurement) : Prop where
  machineID : f.machineID ≠ [] → textOf f.machineID = .ok m.row.machineID
  metric : f.metric ≠ [] → textOf f.metric = .ok m.row.metric
  workload : f.workload ≠ [] → textOf f.workload = .ok m.row.workload
  threadCount : ∀ n, f.threadCount = some n → m.row.threadCount = n
  workingSetBytes : ∀ n, f.workingSetBytes = some n → m.row.workingSetBytes = n
  runID : f.runID ≠ [] → ∃ s, textOf f.runID = .ok s ∧ parseUuid s = some m.row.runID

abbrev Conjunct := Column × Comparison × Arg

/--
The row is as the argument says, which can be bound.
-/
def Conjunct.Holds (p : Conjunct) (m : Measurement) : Prop :=
  ∃ v, p.1.bind p.2.2 = .ok v ∧ p.2.1.holds (p.1.get m) v = true

def textConjunct (column : Column) (v : Bytes) : List Conjunct :=
  if v = [] then [] else [(column, .equal, .text v)]

def intConjunct (column : Column) (v : Option Int) : List Conjunct :=
  match v with
  | none => []
  | some n => [(column, .equal, .int n)]

def MeasurementFilter.conjuncts (f : MeasurementFilter) : List Conjunct :=
  textConjunct .machineID f.machineID ++ textConjunct .metric f.metric
    ++ textConjunct .workload f.workload ++ intConjunct .threadCount f.threadCount
    ++ intConjunct .workingSetBytes f.workingSetBytes ++ textConjunct .runID f.runID

def MeasurementFilter.cursorConjunct (f : MeasurementFilter) : List Conjunct :=
  if 0 < f.cursor then [(.id, .greater, .int f.cursor)] else []

/--
The placeholder has the number of the argument.
-/
structure Cond.Reads (args : List Arg) (c : Cond) (p : Conjunct) : Prop where
  column : c.column = p.1
  comparison : c.comparison = p.2.1
  argument : args[c.placeholder - 1]? = some p.2.2

/--
The conditions of a clause are these, whichever arguments may follow.
-/
def Clause.Reads (c : Clause) (ps : List Conjunct) : Prop :=
  List.Forall₂ (Cond.Reads c.1) c.2 ps

/--
Conditions one after another, the first with argument `k`.
-/
def number (k : Nat) : List Conjunct → List Cond
  | [] => []
  | p :: ps => ⟨p.1, p.2.1, k⟩ :: number (k + 1) ps

theorem number_append (k : Nat) (ps qs : List Conjunct)
    : number k (ps ++ qs) = number k ps ++ number (k + ps.length) qs := by
  induction ps generalizing k with
  | nil => rfl
  | cons p ps ih =>
    rw [List.cons_append, number, ih, number, List.length_cons, Nat.add_right_comm k 1, Nat.add_assoc k]
    rfl

theorem number_reads (before after : List Arg) (ps : List Conjunct)
    : List.Forall₂ (Cond.Reads (before ++ (ps.map (·.2.2) ++ after))) (number (before.length + 1) ps) ps := by
  induction ps generalizing before with
  | nil => exact .nil
  | cons p ps ih =>
    refine .cons ⟨rfl, rfl, ?_⟩ ?_
    . rw [Nat.add_sub_cancel, List.getElem?_append_right (Nat.le_refl _), Nat.sub_self]
      rfl
    . have := ih (before ++ [p.2.2])
      rwa [List.append_assoc, List.length_append] at this

/--
A clause has these conditions after the arguments that were there before.
-/
structure Clause.Holds (before : List Arg) (c : Clause) (ps : List Conjunct) : Prop where
  args : c.1 = before ++ ps.map (·.2.2)
  conds : c.2 = number (before.length + 1) ps

namespace Clause.Holds

variable {before : List Arg} {c : Clause} {ps : List Conjunct}

theorem add (h : c.Holds before ps) (column : Column) (comparison : Comparison) (v : Arg)
    : (c.add column comparison v).Holds before (ps ++ [(column, comparison, v)]) where
  args := by
    rw [Clause.add, h.args, List.append_assoc, List.map_append]
    rfl
  conds := by
    rw [Clause.add, h.conds, h.args, number_append, List.length_append, List.length_map,
      Nat.add_right_comm]
    rfl

theorem addText (h : c.Holds before ps) (column : Column) (v : Bytes)
    : (c.addText column v).Holds before (ps ++ textConjunct column v) := by
  unfold Clause.addText textConjunct
  split
  . rwa [List.append_nil]
  . exact h.add column .equal (.text v)

theorem addInt (h : c.Holds before ps) (column : Column) (v : Option Int)
    : (c.addInt column v).Holds before (ps ++ intConjunct column v) := by
  cases v with
  | none => rwa [intConjunct, List.append_nil]
  | some n => exact h.add column .equal (.int n)

end Clause.Holds

theorem whereClause_holds (f : MeasurementFilter) (args : List Arg)
    : (f.whereClause args).Holds args f.conjuncts := by
  have hempty : Clause.Holds args (args, []) [] := ⟨(List.append_nil args).symm, rfl⟩
  have h := hempty.addText .machineID f.machineID
  have h := h.addText .metric f.metric
  have h := h.addText .workload f.workload
  have h := h.addInt .threadCount f.threadCount
  have h := h.addInt .workingSetBytes f.workingSetBytes
  exact h.addText .runID f.runID

theorem listQuery_eq (f : MeasurementFilter)
    : f.listQuery
      = { conds := number 1 (f.conjuncts ++ f.cursorConjunct)
          limit := (f.conjuncts ++ f.cursorConjunct).length + 1
          args := (f.conjuncts ++ f.cursorConjunct).map (·.2.2)
            ++ [.int (if f.limit ≤ 0 then 100 else f.limit)] } := by
  have h := whereClause_holds f []
  have hcursor : (if 0 < f.cursor then (f.whereClause []).add .id .greater (.int f.cursor)
      else f.whereClause []).Holds [] (f.conjuncts ++ f.cursorConjunct) := by
    unfold MeasurementFilter.cursorConjunct
    split
    . exact h.add .id .greater (.int f.cursor)
    . rwa [List.append_nil]
  unfold MeasurementFilter.listQuery
  dsimp only
  rw [hcursor.args, hcursor.conds, List.nil_append, List.length_map]
  rfl

theorem listQuery_reads (f : MeasurementFilter)
    : List.Forall₂ (Cond.Reads f.listQuery.args) f.listQuery.conds (f.conjuncts ++ f.cursorConjunct) := by
  rw [listQuery_eq]
  exact number_reads [] _ _

def MeasurementFilter.pageSize (f : MeasurementFilter) : Nat :=
  (if f.limit ≤ 0 then 100 else f.limit).toNat

theorem listQuery_count (f : MeasurementFilter) : f.listQuery.count = .ok f.pageSize := by
  have harg : f.listQuery.arg f.listQuery.limit = .ok (.int (if f.limit ≤ 0 then 100 else f.limit)) := by
    unfold Query.arg MeasurementFilter.listQuery
    dsimp only
    rw [Nat.add_sub_cancel, List.getElem?_concat_length]
  unfold Query.count
  rw [harg]
  rfl

theorem predicate_eq_ok {q : Query} {c : Cond} {p : Conjunct} {pred : Measurement → Bool}
    (h : c.Reads q.args p) (hpred : q.predicate c = .ok pred) (m : Measurement)
    : pred m = true ↔ p.Holds m := by
  have harg : q.arg c.placeholder = .ok p.2.2 := by
    unfold Query.arg
    rw [h.argument]
  unfold Query.predicate at hpred
  rw [harg] at hpred
  obtain ⟨a, ha, hpred⟩ := Program.except_bind_eq_ok.mp hpred
  injection ha with ha
  obtain ⟨v, hbind, hpred⟩ := Program.except_bind_eq_ok.mp hpred
  injection hpred with hpred
  rw [← ha] at hbind
  rw [h.column] at hbind
  rw [← hpred, h.column, h.comparison]
  unfold Conjunct.Holds
  rw [hbind]
  simp

theorem exists_predicate_iff {q : Query} {c : Cond} {p : Conjunct} (h : c.Reads q.args p)
    : (∃ pred, q.predicate c = .ok pred) ↔ ∃ v, p.1.bind p.2.2 = .ok v := by
  have harg : q.arg c.placeholder = .ok p.2.2 := by
    unfold Query.arg
    rw [h.argument]
  unfold Query.predicate
  rw [harg]
  constructor
  . rintro ⟨pred, hpred⟩
    obtain ⟨a, ha, hpred⟩ := Program.except_bind_eq_ok.mp hpred
    injection ha with ha
    obtain ⟨v, hbind, _⟩ := Program.except_bind_eq_ok.mp hpred
    rw [h.column, ← ha] at hbind
    exact ⟨v, hbind⟩
  . rintro ⟨v, hbind⟩
    rw [← h.column] at hbind
    exact ⟨_, Program.except_bind_eq_ok.mpr ⟨p.2.2, rfl, Program.except_bind_eq_ok.mpr ⟨v, hbind, rfl⟩⟩⟩

theorem listQuery_run_of_ok {t : Measurements} {f : MeasurementFilter} {rows : List Measurement}
    (h : ListMeasurements t f = .ok rows)
    : f.listQuery.run t = .ok rows := by
  unfold ListMeasurements at h
  cases hrun : f.listQuery.run t with
  | ok rows' =>
    rw [hrun] at h
    exact h
  | error err =>
    rw [hrun] at h
    cases h

theorem all_iff {q : Query} {conds : List Cond} {ps : List Conjunct} {preds : List (Measurement → Bool)}
    (h : List.Forall₂ (Cond.Reads q.args) conds ps)
    (hpreds : List.Forall₂ (fun c pred => q.predicate c = .ok pred) conds preds) (m : Measurement)
    : preds.all (· m) = true ↔ ∀ p ∈ ps, p.Holds m := by
  induction h generalizing preds with
  | nil =>
    cases hpreds
    simp
  | cons hread _ ih =>
    cases hpreds with
    | cons hpred hpreds =>
      rw [List.all_cons, Bool.and_eq_true, ih hpreds, predicate_eq_ok hread hpred, List.forall_mem_cons]

theorem exists_ListMeasurements_iff {t : Measurements} {f : MeasurementFilter}
    : (∃ rows, ListMeasurements t f = .ok rows)
      ↔ ∀ p ∈ f.conjuncts ++ f.cursorConjunct, ∃ v, p.1.bind p.2.2 = .ok v := by
  have hreads := listQuery_reads f
  constructor
  . rintro ⟨rows, h⟩ p hp
    obtain ⟨preds, hpreds, _⟩ := Program.except_bind_eq_ok.mp (listQuery_run_of_ok h)
    obtain ⟨c, hc, hread⟩ := Program.exists_of_forall₂_right hreads hp
    exact (exists_predicate_iff hread).mp (Program.exists_of_mapM hpreds hc)
  . intro hbind
    have hpreds : ∃ preds, f.listQuery.conds.mapM f.listQuery.predicate = .ok preds := by
      apply Program.exists_mapM
      intro c hc
      obtain ⟨p, hp, hread⟩ := Program.exists_of_forall₂_right hreads.flip hc
      exact (exists_predicate_iff hread).mpr (hbind p hp)
    obtain ⟨preds, hpreds⟩ := hpreds
    have hrun : f.listQuery.run t = .ok _ :=
      Program.except_bind_eq_ok.mpr ⟨preds, hpreds,
        Program.except_bind_eq_ok.mpr ⟨f.pageSize, listQuery_count f, rfl⟩⟩
    unfold ListMeasurements
    rw [hrun]
    exact ⟨_, rfl⟩

theorem cursorConjunct_bind {f : MeasurementFilter} {p : Conjunct} (h : p ∈ f.cursorConjunct)
    : ∃ v, p.1.bind p.2.2 = .ok v := by
  unfold MeasurementFilter.cursorConjunct at h
  split at h
  . rw [List.mem_singleton.mp h]
    exact ⟨_, rfl⟩
  . cases h

theorem textConjunct_holds {column : Column} {v : Bytes} {m : Measurement} {s : String}
    (hget : column.get m = .text s) (hs : '\x00' ∉ s.toList)
    (hbind : column.bind (.text v) = (do
      let s ← textOf v
      .text <$> encodeText s))
    : (∀ p ∈ textConjunct column v, p.Holds m) ↔ (v ≠ [] → textOf v = .ok s) := by
  unfold textConjunct
  split
  . rename_i hv
    exact iff_of_true nofun fun hne => absurd hv hne
  . rename_i hv
    rw [List.forall_mem_singleton]
    unfold Conjunct.Holds
    rw [hget, hbind]
    constructor
    . rintro ⟨w, hw, hholds⟩ _
      obtain ⟨s', hs', hw⟩ := Program.except_bind_eq_ok.mp hw
      obtain ⟨s'', hs'', rfl⟩ := Program.except_map_eq_ok.mp hw
      unfold encodeText at hs''
      split at hs''
      . cases hs''
      . injection hs'' with hs''
        have hsame : s = s'' := by simpa [Comparison.holds] using hholds
        rw [hs', hs'', hsame]
    . intro htext
      refine ⟨.text s, ?_, by simp [Comparison.holds]⟩
      rw [htext hv]
      exact Program.except_bind_eq_ok.mpr ⟨s, rfl, Program.except_map_eq_ok.mpr ⟨s, if_neg hs, rfl⟩⟩

theorem intConjunct_holds {column : Column} {v : Option Int} {m : Measurement} {k : Int}
    (hget : column.get m = .int k) (hbind : ∀ n w, column.bind (.int n) = .ok w → w = .int n)
    (hself : column.bind (.int k) = .ok (.int k))
    : (∀ p ∈ intConjunct column v, p.Holds m) ↔ ∀ n, v = some n → k = n := by
  cases v with
  | none => exact iff_of_true nofun nofun
  | some n =>
    rw [intConjunct, List.forall_mem_singleton]
    unfold Conjunct.Holds
    rw [hget]
    constructor
    . rintro ⟨w, hw, hholds⟩ n' hn'
      injection hn' with hn'
      rw [hbind n w hw] at hholds
      rw [← hn']
      simpa [Comparison.holds] using hholds
    . intro hsame
      obtain rfl := hsame n rfl
      exact ⟨.int k, hself, by simp [Comparison.holds]⟩

theorem bind_threadCount {n : Int} {w : Value} (h : Column.bind .threadCount (.int n) = .ok w)
    : w = .int n := by
  obtain ⟨n', hn', rfl⟩ := Program.except_map_eq_ok.mp h
  unfold encodeInt4 at hn'
  split at hn'
  . injection hn' with hn'
    rw [hn']
  . cases hn'

theorem runIDConjunct_holds {v : Bytes} {m : Measurement}
    : (∀ p ∈ textConjunct .runID v, p.Holds m)
      ↔ (v ≠ [] → ∃ s, textOf v = .ok s ∧ parseUuid s = some m.row.runID) := by
  unfold textConjunct
  split
  . rename_i hv
    exact iff_of_true nofun fun hne => absurd hv hne
  . rename_i hv
    rw [List.forall_mem_singleton]
    constructor
    . rintro ⟨w, hw, hholds⟩ _
      obtain ⟨s, hs, hw⟩ := Program.except_bind_eq_ok.mp hw
      obtain ⟨u, hu, rfl⟩ := Program.except_map_eq_ok.mp hw
      refine ⟨s, hs, ?_⟩
      have hsame : m.row.runID = u := by simpa [Comparison.holds, Column.get] using hholds
      unfold encodeUuid at hu
      split at hu
      . rename_i u' hparse
        injection hu with hu
        rw [hparse, hu, hsame]
      . cases hu
    . intro hrun
      obtain ⟨s, hs, hparse⟩ := hrun hv
      have hencode : encodeUuid s = .ok m.row.runID := by
        unfold encodeUuid
        rw [hparse]
      refine ⟨.uuid m.row.runID, ?_, by simp [Comparison.holds, Column.get]⟩
      refine Program.except_bind_eq_ok.mpr ⟨s, hs, ?_⟩
      exact Program.except_map_eq_ok.mpr ⟨_, hencode, rfl⟩

theorem matches_iff {f : MeasurementFilter} {m : Measurement} (hm : m.Storable)
    : f.Matches m ↔ ∀ p ∈ f.conjuncts, p.Holds m := by
  have hmachine : (∀ p ∈ textConjunct .machineID f.machineID, p.Holds m) ↔ _ :=
    textConjunct_holds rfl hm.machineID rfl
  have hmetric : (∀ p ∈ textConjunct .metric f.metric, p.Holds m) ↔ _ :=
    textConjunct_holds rfl hm.metric rfl
  have hworkload : (∀ p ∈ textConjunct .workload f.workload, p.Holds m) ↔ _ :=
    textConjunct_holds rfl hm.workload rfl
  have hthreads : (∀ p ∈ intConjunct .threadCount f.threadCount, p.Holds m) ↔ _ :=
    intConjunct_holds rfl (fun _ _ => bind_threadCount)
      (Program.except_map_eq_ok.mpr ⟨_, if_pos hm.threadCount, rfl⟩)
  have hws : (∀ p ∈ intConjunct .workingSetBytes f.workingSetBytes, p.Holds m) ↔ _ :=
    intConjunct_holds rfl (fun n w hw => (Except.ok.inj hw).symm) rfl
  unfold MeasurementFilter.conjuncts
  simp only [List.forall_mem_append, hmachine, hmetric, hworkload, hthreads, hws, runIDConjunct_holds]
  constructor
  . exact fun h => ⟨⟨⟨⟨⟨h.machineID, h.metric⟩, h.workload⟩, h.threadCount⟩, h.workingSetBytes⟩, h.runID⟩
  . exact fun h => ⟨h.1.1.1.1.1, h.1.1.1.1.2, h.1.1.1.2, h.1.1.2, h.1.2, h.2⟩

theorem cursorConjunct_holds {f : MeasurementFilter} {m : Measurement}
    : (∀ p ∈ f.cursorConjunct, p.Holds m) ↔ (0 < f.cursor → f.cursor < m.id) := by
  unfold MeasurementFilter.cursorConjunct
  split
  . rename_i hpos
    rw [List.forall_mem_singleton]
    constructor
    . rintro ⟨w, hw, hholds⟩ _
      injection hw with hw
      rw [← hw] at hholds
      simpa [Comparison.holds, Column.get] using hholds
    . intro hlt
      exact ⟨.int f.cursor, rfl, by simpa [Comparison.holds, Column.get] using hlt hpos⟩
  . rename_i hpos
    exact iff_of_true nofun fun h => absurd h hpos

theorem ListMeasurements_ok {t : Measurements} {f : MeasurementFilter} {rows : List Measurement}
    (h : ListMeasurements t f = .ok rows)
    : ∃ selected : List Measurement, rows = Keyset.page (·.id) f.pageSize selected
      ∧ (selected.map (·.id)).Nodup
      ∧ ∀ m, m ∈ selected ↔ m ∈ t.rows ∧ f.Matches m ∧ (0 < f.cursor → f.cursor < m.id) := by
  obtain ⟨preds, hpreds, hrun⟩ := Program.except_bind_eq_ok.mp (listQuery_run_of_ok h)
  obtain ⟨n, hn, hrun⟩ := Program.except_bind_eq_ok.mp hrun
  rw [listQuery_count] at hn
  injection hn with hn
  injection hrun with hrun
  refine ⟨t.rows.filter fun m => preds.all (· m), ?_, t.unique.sublist (List.filter_sublist.map _), ?_⟩
  . rw [← hrun, hn]
  . intro m
    rw [List.mem_filter]
    refine and_congr_right fun hm => ?_
    rw [all_iff (listQuery_reads f) (Program.mapM_eq_ok.mp hpreds), List.forall_mem_append,
      ← matches_iff (t.storable m hm), cursorConjunct_holds]

section Listing

variable {t : Measurements} {f : MeasurementFilter} {rows : List Measurement} {m : Measurement}

theorem of_mem_listing (h : ListMeasurements t f = .ok rows) (hm : m ∈ rows)
    : m ∈ t.rows ∧ f.Matches m ∧ (0 < f.cursor → f.cursor < m.id) := by
  obtain ⟨selected, rfl, _, hselected⟩ := ListMeasurements_ok h
  exact (hselected m).mp (Keyset.mem_of_mem_page hm)

theorem listing_pairwise (h : ListMeasurements t f = .ok rows)
    : (rows.map (·.id)).Pairwise (· < ·) := by
  obtain ⟨selected, rfl, hnodup, _⟩ := ListMeasurements_ok h
  exact Keyset.pairwise_page_lt hnodup

theorem mem_listing_or (h : ListMeasurements t f = .ok rows) (hm : m ∈ t.rows) (hmatches : f.Matches m)
    (hcursor : 0 < f.cursor → f.cursor < m.id)
    : m ∈ rows ∨ rows.length = f.pageSize ∧ ∀ b ∈ rows, b.id ≤ m.id := by
  obtain ⟨selected, rfl, _, hselected⟩ := ListMeasurements_ok h
  exact Keyset.mem_page_or ((hselected m).mpr ⟨hm, hmatches, hcursor⟩)

end Listing

theorem Measurements.eq_of_id_eq {t : Measurements} {m m' : Measurement} (hm : m ∈ t.rows)
    (hm' : m' ∈ t.rows) (h : m.id = m'.id)
    : m = m' :=
  List.inj_on_of_nodup_map t.unique hm hm' h

theorem matches_cursor {f : MeasurementFilter} {m : Measurement} {cursor : Int}
    : ({ f with cursor := cursor } : MeasurementFilter).Matches m ↔ f.Matches m :=
  ⟨fun h => ⟨h.machineID, h.metric, h.workload, h.threadCount, h.workingSetBytes, h.runID⟩,
    fun h => ⟨h.machineID, h.metric, h.workload, h.threadCount, h.workingSetBytes, h.runID⟩⟩

theorem ListMeasurements_of_matches {f : MeasurementFilter} {m : Measurement} (hm : m.Storable)
    (h : f.Matches m) (t : Measurements)
    : ∃ rows, ListMeasurements t f = .ok rows := by
  apply exists_ListMeasurements_iff.mpr
  apply List.forall_mem_append.mpr ⟨_, fun _ => cursorConjunct_bind⟩
  intro p hp
  obtain ⟨v, hbind, _⟩ := (matches_iff hm).mp h p hp
  exact ⟨v, hbind⟩

end Store
end Api
