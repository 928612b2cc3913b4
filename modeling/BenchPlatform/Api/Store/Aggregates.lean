import BenchPlatform.Api.Float
import BenchPlatform.Api.Store.Sql
import BenchPlatform.Lib.Grouping
import Mathlib.Data.List.GetD
import Mathlib.Data.List.Sort
import Mathlib.Data.Multiset.Filter

/-!
This module contains the two statistics of the store, the one for one machine and the comparison of
several, and that they agree.
-/

namespace Api
namespace Store

open Model
open Http (GroupBy)

def goString (s : String) : Bytes :=
  s.toByteArray.data.toList

/--
What the database computes from the values of a group, whose order does not matter.
-/
structure SqlAggregates where
  avg : Multiset Float64 → Float64
  percentileCont : Rat → Multiset Float64 → Float64
  stddevSamp : Multiset Float64 → Option Float64
  min : Multiset Float64 → Float64
  max : Multiset Float64 → Float64

/--
A statement over the rows that its conditions select. The number of the list of machines comes first if
there is one.
-/
structure GroupQuery where
  machines : Option Nat
  conds : List Cond
  args : List QueryArg

def GroupQuery.arg (q : GroupQuery) (placeholder : Nat) : Except GoError QueryArg :=
  match q.args[placeholder - 1]? with
  | some a => .ok a
  | none => .error (.pg "42P02" [.text "there is no parameter $", .int placeholder])

def Conjunct.predicate (p : Conjunct) : Except GoError (Measurement → Bool) := do
  let v ← p.1.bind p.2.2
  return fun m => p.2.1.holds (p.1.get m) v

def GroupQuery.predicate (q : GroupQuery) (c : Cond) : Except GoError (Measurement → Bool) := do
  match ← q.arg c.placeholder with
  | .value v => Conjunct.predicate (c.column, c.comparison, v)
  | .machines _ => throw (.new [.text "failed to encode args"])

/--
`ANY` of a list of machines.
-/
def anyMachine (ids : List Bytes) : Except GoError (Measurement → Bool) := do
  let vs ← ids.mapM fun id => Column.machineID.bind (.text id)
  return fun m => vs.contains (Column.machineID.get m)

def GroupQuery.machinesPredicate (q : GroupQuery) : Except GoError (Measurement → Bool) := do
  match q.machines with
  | none => return fun _ => true
  | some placeholder =>
    match ← q.arg placeholder with
    | .machines ids => anyMachine ids
    | .value _ => throw (.new [.text "failed to encode args"])

def GroupQuery.select (q : GroupQuery) (t : Measurements) : Except GoError (List Measurement) := do
  let machines ← q.machinesPredicate
  let predicates ← q.conds.mapM q.predicate
  return t.rows.filter fun m => machines m && predicates.all (· m)

def groupValue : GroupBy → Measurement → Int
  | .threadCount, m => m.row.threadCount
  | .workingSetBytes, m => m.row.workingSetBytes

def groupValues (rows : List Measurement) : Multiset Float64 :=
  Multiset.ofList (rows.map (·.row.value))

structure AggregateGroup where
  group : Int
  n : Int
  mean : Float64
  median : Float64
  stddev : Float64
  cov : Float64
  min : Float64
  p5 : Float64
  p95 : Float64
  max : Float64

structure AggregateResponse where
  machineID : Bytes
  metric : Bytes
  workload : Bytes
  unit : String
  groupBy : GroupBy
  groups : List AggregateGroup

def unitOf (metric : Bytes) : String :=
  ((UnitOf.find? fun u => ascii u.1 = metric).map (·.2)).getD ""

def zero : Float64 := Float64.ofInt 0

/--
One row of the aggregates. The coefficient of variation is left at 0 if the mean is.
-/
def aggregateGroup (sql : SqlAggregates) (by' : GroupBy) (rows : List Measurement) (g : Int)
    : AggregateGroup :=
  let members := Grouping.members (groupValue by') rows g
  let values := groupValues members
  let mean := sql.avg values
  let stddev := (sql.stddevSamp values).getD zero
  { group := g
    n := members.length
    mean := mean
    median := sql.percentileCont (1 / 2) values
    stddev := stddev
    cov := if !mean.eq zero then stddev.div mean else zero
    min := sql.min values
    p5 := sql.percentileCont (1 / 20) values
    p95 := sql.percentileCont (19 / 20) values
    max := sql.max values }

/--
`GROUP BY` one column, in the order of that column.
-/
def aggregateGroups (sql : SqlAggregates) (by' : GroupBy) (rows : List Measurement)
    : List AggregateGroup :=
  ((Grouping.keys (groupValue by') rows).insertionSort (· ≤ ·)).map (aggregateGroup sql by' rows)

def MeasurementFilter.aggregatesQuery (f : MeasurementFilter) : GroupQuery :=
  let c := f.whereClause []
  { machines := none, conds := c.2, args := c.1.map .value }

def Aggregates (sql : SqlAggregates) (t : Measurements) (f : MeasurementFilter) (by' : GroupBy)
    : Except GoError AggregateResponse := do
  let rows ← (f.aggregatesQuery.select t).mapError (.wrap [.text "aggregates"])
  return { machineID := f.machineID, metric := f.metric, workload := f.workload,
           unit := unitOf f.metric, groupBy := by', groups := aggregateGroups sql by' rows }

/--
The conditions of a comparison with their numbers past the list of machines.
-/
def MeasurementFilter.compareQuery (f : MeasurementFilter) (machineIDs : List Bytes) : GroupQuery :=
  let c := { f with machineID := [] }.whereClause []
  { machines := some 1
    conds := c.2.map fun c => { c with placeholder := c.placeholder + 1 }
    args := .machines machineIDs :: c.1.map .value }

/--
A row of the comparison: the statistics of one machine and group.
-/
structure CompareRow where
  machineID : Bytes
  grp : Int
  n : Int
  mean : Float64
  median : Float64

def machineGroup (by' : GroupBy) (m : Measurement) : Bytes × Int :=
  (goString m.row.machineID, groupValue by' m)

def compareRow (sql : SqlAggregates) (by' : GroupBy) (rows : List Measurement) (k : Bytes × Int)
    : CompareRow :=
  let members := Grouping.members (machineGroup by') rows k
  let values := groupValues members
  { machineID := k.1, grp := k.2, n := members.length, mean := sql.avg values,
    median := sql.percentileCont (1 / 2) values }

def compareRows (sql : SqlAggregates) (by' : GroupBy) (rows : List Measurement) : List CompareRow :=
  (Grouping.keys (machineGroup by') rows).map (compareRow sql by' rows)

/--
The orders that are left open: that of rows with the same group, and that in which Go goes through the
keys of a map.
-/
structure Unordered where
  rows : List CompareRow → List CompareRow
  rows_perm : ∀ rs, (rows rs).Perm rs
  keys : List Int → List Int
  keys_perm : ∀ ks, (keys ks).Perm ks

structure Cell where
  n : Int
  mean : Float64
  median : Float64

/--
A map of maps. A machine without a map has no cells.
-/
abbrev Cells := Bytes → Option (Int → Option Cell)

def readRow (st : Cells × List Int) (r : CompareRow) : Cells × List Int :=
  let (data, groupSet) := st
  let cells := (data r.machineID).getD fun _ => none
  (Function.update data r.machineID
      (some (Function.update cells r.grp (some { n := r.n, mean := r.mean, median := r.median }))),
    if r.grp ∈ groupSet then groupSet else groupSet ++ [r.grp])

def readRows (rs : List CompareRow) : Cells × List Int :=
  rs.foldl readRow (fun _ => none, [])

def swap (v : List Int) (i j : Nat) : List Int :=
  (v.set i (v.getD j 0)).set j (v.getD i 0)

/--
The inner loop: what is at `j` goes down as long as it is less than what is before it.
-/
def sink (v : List Int) : Nat → List Int
  | 0 => v
  | j + 1 => if v.getD (j + 1) 0 < v.getD j 0 then sink (swap v (j + 1) j) j else v

def sortInt64 (v : List Int) : List Int :=
  (List.range' 1 (v.length - 1)).foldl sink v

structure CompareSeries where
  machineID : Bytes
  hostname : Bytes
  groups : List Int
  median : List Float64
  mean : List Float64
  n : List Int
  ratio : List Float64

structure CompareResponse where
  metric : Bytes
  workload : Bytes
  unit : String
  groupBy : GroupBy
  baseline : Bytes
  groups : List Int
  series : List CompareSeries

/--
The names of the machines. A machine that is not known has the empty name.
-/
def hostnamesOf (machines : Table MachineRow.id) (ids : List Bytes) : Except GoError (Bytes → Bytes) := do
  let vs ← (ids.mapM fun id => Column.machineID.bind (.text id)).mapError (.wrap [.text "hostnames"])
  let rows := machines.rows.filter fun r => vs.contains (.text r.id)
  return fun id => ((rows.find? fun r => goString r.id = id).map fun r => goString r.hostname).getD []

def cellOf (data : Cells) (id : Bytes) (g : Int) : Cell :=
  ((data id).bind fun cells => cells g).getD { n := 0, mean := zero, median := zero }

def ratioTo (baseline : Option (Int → Option Cell)) (g : Int) (c : Cell) : Float64 :=
  match baseline.bind fun cells => cells g with
  | some b => if !b.median.eq zero then c.median.div b.median else zero
  | none => zero

def compareSeries (data : Cells) (baseline : Option (Int → Option Cell)) (groups : List Int)
    (hostnames : Bytes → Bytes) (id : Bytes)
    : CompareSeries where
  machineID := id
  hostname := hostnames id
  groups := groups
  median := groups.map fun g => (cellOf data id g).median
  mean := groups.map fun g => (cellOf data id g).mean
  n := groups.map fun g => (cellOf data id g).n
  ratio := groups.map fun g => ratioTo baseline g (cellOf data id g)

def Compare (sql : SqlAggregates) (order : Unordered) (t : Measurements) (machines : Table MachineRow.id)
    (machineIDs : List Bytes) (f : MeasurementFilter) (by' : GroupBy)
    : Except GoError CompareResponse :=
  let res : CompareResponse :=
    { metric := f.metric, workload := f.workload, unit := unitOf f.metric, groupBy := by',
      baseline := [], groups := [], series := [] }
  match machineIDs with
  | [] => .ok res
  | first :: _ => do
    let rows ← ((f.compareQuery machineIDs).select t).mapError (.wrap [.text "compare"])
    let (data, groupSet) := readRows (order.rows (compareRows sql by' rows))
    let groups := sortInt64 (order.keys groupSet)
    let hostnames ← hostnamesOf machines machineIDs
    return { res with
             baseline := first
             groups := groups
             series := machineIDs.map (compareSeries data (data first) groups hostnames) }

theorem getD_append_cons (l rest : List Int) (x : Int) : (l ++ x :: rest).getD l.length 0 = x := by
  rw [List.getD_append_right _ _ _ _ (Nat.le_refl _), Nat.sub_self]
  rfl

theorem swap_append (l rest : List Int) (y x : Int)
    : swap (l ++ y :: x :: rest) (l.length + 1) l.length = l ++ x :: y :: rest := by
  have hx : (l ++ y :: x :: rest).getD (l.length + 1) 0 = x := by
    have := getD_append_cons (l ++ [y]) rest x
    rwa [List.append_assoc, List.length_append] at this
  rw [swap, hx, getD_append_cons, List.set_append_right _ _ (by omega), Nat.add_sub_cancel_left,
    List.set_append_right _ _ (by omega), Nat.sub_self]
  rfl

theorem pairwise_concat_iff {l : List Int} {y : Int}
    : (l ++ [y]).Pairwise (· ≤ ·) ↔ l.Pairwise (· ≤ ·) ∧ ∀ a ∈ l, a ≤ y := by
  simp [List.pairwise_append]

theorem sink_append (l : List Int) (x : Int) (rest : List Int)
    : ∃ l', sink (l ++ x :: rest) l.length = l' ++ rest ∧ l'.Perm (x :: l)
      ∧ (l.Pairwise (· ≤ ·) → l'.Pairwise (· ≤ ·)) := by
  -- on the part in front, from its end on
  induction l using List.reverseRecOn generalizing rest with
  | nil => exact ⟨[x], rfl, .refl _, fun _ => List.pairwise_singleton _ _⟩
  | append_singleton l y ih =>
    have hx : (l ++ y :: x :: rest).getD (l.length + 1) 0 = x := by
      have := getD_append_cons (l ++ [y]) rest x
      rwa [List.append_assoc, List.length_append] at this
    rw [List.append_assoc, List.length_append, List.length_singleton]
    dsimp only [List.singleton_append]
    rw [sink, hx, getD_append_cons]
    by_cases hlt : x < y
    . obtain ⟨l', hsink, hperm, hsorted⟩ := ih (y :: rest)
      rw [if_pos hlt, swap_append, hsink]
      refine ⟨l' ++ [y], by rw [List.append_assoc]; rfl, hperm.append_right [y], fun h => ?_⟩
      rw [pairwise_concat_iff] at h ⊢
      refine ⟨hsorted h.1, fun a ha => ?_⟩
      obtain rfl | ha := List.mem_cons.mp (hperm.mem_iff.mp ha)
      . exact hlt.le
      . exact h.2 a ha
    . rw [if_neg hlt]
      refine ⟨l ++ [y] ++ [x], by simp, List.perm_append_singleton x _, fun h => ?_⟩
      refine pairwise_concat_iff.mpr ⟨h, fun a ha => ?_⟩
      obtain ha | ha := List.mem_append.mp ha
      . exact ((pairwise_concat_iff.mp h).2 a ha).trans (not_lt.mp hlt)
      . rw [List.mem_singleton.mp ha]
        exact not_lt.mp hlt

theorem foldl_sink (l rest : List Int) (h : l.Pairwise (· ≤ ·))
    : ∃ l', (List.range' l.length rest.length).foldl sink (l ++ rest) = l' ∧ l'.Perm (l ++ rest)
      ∧ l'.Pairwise (· ≤ ·) := by
  induction rest generalizing l with
  | nil =>
    rw [List.append_nil]
    exact ⟨l, rfl, .refl l, h⟩
  | cons x rest ih =>
    obtain ⟨l₁, hsink, hperm₁, hsorted⟩ := sink_append l x rest
    have hlen : l₁.length = l.length + 1 := hperm₁.length_eq
    obtain ⟨l', hfold, hperm, hl'⟩ := ih l₁ (hsorted h)
    rw [List.length_cons, List.range'_succ, List.foldl_cons, hsink, ← hlen]
    refine ⟨l', hfold, hperm.trans ?_, hl'⟩
    exact (hperm₁.append_right rest).trans List.perm_middle.symm

theorem sortInt64_spec (v : List Int) : (sortInt64 v).Perm v ∧ (sortInt64 v).Pairwise (· ≤ ·) := by
  cases v with
  | nil => exact ⟨.refl _, .nil⟩
  | cons x v =>
    obtain ⟨v', hfold, hperm, hsorted⟩ := foldl_sink [x] v (List.pairwise_singleton _ _)
    rw [← hfold] at hperm hsorted
    exact ⟨hperm, hsorted⟩

theorem aggregatesQuery_eq (f : MeasurementFilter)
    : f.aggregatesQuery = { machines := none, conds := number 1 f.conjuncts, args := values f.conjuncts } := by
  have h := whereClause_holds f []
  rw [MeasurementFilter.aggregatesQuery, h.args, h.conds, List.nil_append, List.map_map]
  rfl

theorem number_shift (k n : Nat) (ps : List Conjunct)
    : (number k ps).map (fun c => { c with placeholder := c.placeholder + n }) = number (k + n) ps := by
  induction ps generalizing k with
  | nil => rfl
  | cons p ps ih =>
    rw [number, List.map_cons, ih, Nat.add_right_comm]
    rfl

theorem compareQuery_eq (f : MeasurementFilter) (machineIDs : List Bytes)
    : f.compareQuery machineIDs
      = { machines := some 1
          conds := number 2 ({ f with machineID := [] } : MeasurementFilter).conjuncts
          args := .machines machineIDs :: values ({ f with machineID := [] } : MeasurementFilter).conjuncts } := by
  have h := whereClause_holds { f with machineID := [] } []
  rw [MeasurementFilter.compareQuery, h.args, h.conds, List.nil_append, List.map_map, number_shift]
  rfl

theorem aggregatesStatement_query (f : MeasurementFilter) (by' : GroupBy)
    : f.aggregatesQuery.args = (f.aggregatesStatement by').args
      ∧ (f.whereSql []).2 = whereText (f.aggregatesQuery.conds.map Cond.sql) := by
  rw [aggregatesQuery_eq, MeasurementFilter.aggregatesStatement, whereSql_eq]
  exact ⟨rfl, rfl⟩

/--
The statement of `Compare` has the arguments of the query, and its conditions at their placeholders, after the one on
the machines.
-/
theorem compareStatement_query (f : MeasurementFilter) (machineIDs : List Bytes) (by' : GroupBy)
    : (f.compareQuery machineIDs).args = (f.compareStatement machineIDs by').args
      ∧ ∀ tail, (machineConditions machineIDs (({ f with machineID := [] } : MeasurementFilter).whereSql []).1
            (({ f with machineID := [] } : MeasurementFilter).whereSql []).2).2 ++ tail
          = render ((ascii " WHERE m.machine_id = ANY(", 1) :: leads (ascii ") AND ") (f.compareQuery machineIDs).conds)
            (if (f.compareQuery machineIDs).conds = [] then ascii ")" ++ tail else tail) := by
  rw [compareQuery_eq, MeasurementFilter.compareStatement, whereSql_eq]
  refine ⟨(machineConditions_args _ _).symm, fun tail => ?_⟩
  dsimp only [List.nil_append, List.length_nil]
  rw [machineConditions_append _ (conjuncts_length _)]
  cases ({ f with machineID := [] } : MeasurementFilter).conjuncts with
  | nil => rfl
  | cons p ps => rfl

theorem mapM_predicate {q : GroupQuery} (before : List QueryArg) (ps : List Conjunct)
    (h : q.args = before ++ values ps)
    : (number (before.length + 1) ps).mapM q.predicate = ps.mapM Conjunct.predicate := by
  induction ps generalizing before with
  | nil => rfl
  | cons p ps ih =>
    have harg : q.arg (before.length + 1) = .ok (.value p.2.2) := by
      rw [GroupQuery.arg, h, Nat.add_sub_cancel, List.getElem?_append_right (Nat.le_refl _), Nat.sub_self]
      rfl
    have hhead : q.predicate ⟨p.1, p.2.1, before.length + 1⟩ = p.predicate := by
      rw [GroupQuery.predicate, harg]
      rfl
    have htail := ih (before ++ [.value p.2.2]) (by rw [h, List.append_assoc]; rfl)
    rw [List.length_append, List.length_singleton] at htail
    rw [number, List.mapM_cons, List.mapM_cons, hhead, htail]

theorem textOf_eq_ok {v : Bytes} {s : String} : textOf v = .ok s ↔ goString s = v := by
  unfold textOf String.fromUTF8?
  constructor
  . intro h
    split at h
    . next s' hs' =>
      injection h with h
      split at hs'
      . injection hs' with hs'
        rw [← h, ← hs', goString]
        exact List.toList_toArray
      . cases hs'
    . cases h
  . rintro rfl
    have hbytes : (⟨(goString s).toArray⟩ : ByteArray) = s.toByteArray := by
      rw [goString, Array.toArray_toList]
    rw [hbytes, dif_pos s.isValidUTF8]
    rfl

theorem goString_injective : Function.Injective goString := by
  intro s s' h
  have hs := textOf_eq_ok.mpr h
  rw [textOf_eq_ok.mpr rfl] at hs
  injection hs with hs
  exact hs.symm

/--
The argument can be bound to the column of the machine.
-/
def Binds (id : Bytes) : Prop :=
  ∃ v, Column.machineID.bind (.text id) = .ok v

theorem bind_machineID {id : Bytes} {v : Value} (h : Column.machineID.bind (.text id) = .ok v)
    : ∃ s, goString s = id ∧ v = .text s := by
  obtain ⟨s, hs, h⟩ := Program.except_bind_eq_ok.mp h
  obtain ⟨s', hs', rfl⟩ := Program.except_map_eq_ok.mp h
  unfold encodeText at hs'
  split at hs'
  . cases hs'
  . injection hs' with hs'
    exact ⟨s, textOf_eq_ok.mp hs, by rw [hs']⟩

theorem text_eq_iff {id : Bytes} {v : Value} (h : Column.machineID.bind (.text id) = .ok v) (s : String)
    : Value.text s = v ↔ goString s = id := by
  obtain ⟨s', rfl, rfl⟩ := bind_machineID h
  rw [Value.text.injEq]
  exact goString_injective.eq_iff.symm

theorem anyMachine_eq_ok {ids : List Bytes} {pred : Measurement → Bool}
    : anyMachine ids = .ok pred
      ↔ (∀ id ∈ ids, Binds id) ∧ pred = fun m => decide (goString m.row.machineID ∈ ids) := by
  have hpred : ∀ {vs}, List.Forall₂ (fun id v => Column.machineID.bind (.text id) = .ok v) ids vs →
      (fun m => vs.contains (Column.machineID.get m))
        = fun m : Measurement => decide (goString m.row.machineID ∈ ids) := by
    intro vs hvs
    funext m
    induction hvs with
    | nil => rfl
    | cons hv _ ih =>
      rw [List.contains_cons, ih, Column.get]
      simp only [List.mem_cons, Bool.decide_or, beq_eq_decide, text_eq_iff hv]
  unfold anyMachine
  rw [Program.except_bind_eq_ok]
  constructor
  . rintro ⟨vs, hvs, h⟩
    injection h with h
    refine ⟨fun id hid => ?_, h.symm.trans (hpred (Program.mapM_eq_ok.mp hvs))⟩
    obtain ⟨v, hv⟩ := Program.exists_of_mapM hvs hid
    exact ⟨v, hv⟩
  . rintro ⟨hbind, rfl⟩
    obtain ⟨vs, hvs⟩ := Program.exists_mapM hbind
    exact ⟨vs, hvs, congrArg Except.ok (hpred (Program.mapM_eq_ok.mp hvs))⟩

abbrev MeasurementFilter.anyMachine (f : MeasurementFilter) : MeasurementFilter :=
  { f with machineID := [] }

theorem conjuncts_machine (f : MeasurementFilter) {id : Bytes} (hid : id ≠ [])
    : ({ f with machineID := id } : MeasurementFilter).conjuncts
      = (.machineID, .equal, .text id) :: f.anyMachine.conjuncts := by
  simp [MeasurementFilter.conjuncts, textConjunct, hid]

def Selects (t : Measurements) (f : MeasurementFilter) (p : Bytes → Bool) (rows : List Measurement) : Prop :=
  ∃ preds, f.anyMachine.conjuncts.mapM Conjunct.predicate = .ok preds
    ∧ rows = t.rows.filter fun m => p (goString m.row.machineID) && preds.all (· m)

variable {t : Measurements} {f : MeasurementFilter} {rows : List Measurement}

theorem select_eq_ok {q : GroupQuery} (before : List QueryArg) (ps : List Conjunct)
    (hconds : q.conds = number (before.length + 1) ps) (hargs : q.args = before ++ values ps)
    : q.select t = .ok rows
      ↔ ∃ machines, q.machinesPredicate = .ok machines
        ∧ ∃ preds, ps.mapM Conjunct.predicate = .ok preds
          ∧ rows = t.rows.filter fun m => machines m && preds.all (· m) := by
  unfold GroupQuery.select
  rw [hconds, mapM_predicate before ps hargs, Program.except_bind_eq_ok]
  refine exists_congr fun machines => and_congr_right fun _ => ?_
  rw [Program.except_bind_eq_ok]
  refine exists_congr fun preds => and_congr_right fun _ => ?_
  exact ⟨fun h => (Except.ok.inj h).symm, fun h => congrArg Except.ok h.symm⟩

theorem machine_predicate_eq_ok {id : Bytes} {pred : Measurement → Bool}
    : Conjunct.predicate (.machineID, .equal, .text id) = .ok pred
      ↔ Binds id ∧ pred = fun m => decide (goString m.row.machineID = id) := by
  have hpred : ∀ {v}, Column.machineID.bind (.text id) = .ok v →
      (fun m => Comparison.equal.holds (Column.machineID.get m) v)
        = fun m : Measurement => decide (goString m.row.machineID = id) := by
    intro v hv
    funext m
    rw [Comparison.holds, Column.get]
    exact decide_eq_decide.mpr (text_eq_iff hv _)
  unfold Conjunct.predicate
  rw [Program.except_bind_eq_ok]
  constructor
  . rintro ⟨v, hv, h⟩
    injection h with h
    exact ⟨⟨v, hv⟩, h.symm.trans (hpred hv)⟩
  . rintro ⟨⟨v, hv⟩, rfl⟩
    exact ⟨v, hv, congrArg Except.ok (hpred hv)⟩

theorem aggregates_select {id : Bytes} (hid : id ≠ [])
    : ({ f with machineID := id } : MeasurementFilter).aggregatesQuery.select t = .ok rows
      ↔ Binds id ∧ Selects t f (fun b => decide (b = id)) rows := by
  rw [aggregatesQuery_eq, select_eq_ok [] _ rfl rfl, conjuncts_machine f hid]
  constructor
  . rintro ⟨machines, hmachines, preds, hpreds, hrows⟩
    injection hmachines with hmachines
    obtain ⟨pred, hpred, hpreds⟩ := Program.except_bind_eq_ok.mp (List.mapM_cons.symm.trans hpreds)
    obtain ⟨preds, hrest, hpreds⟩ := Program.except_bind_eq_ok.mp hpreds
    injection hpreds with hpreds
    obtain ⟨hbinds, rfl⟩ := machine_predicate_eq_ok.mp hpred
    refine ⟨hbinds, preds, hrest, ?_⟩
    rw [hrows, ← hmachines, ← hpreds]
    rfl
  . rintro ⟨hbinds, preds, hpreds, hrows⟩
    have hpred := machine_predicate_eq_ok.mpr ⟨hbinds, rfl⟩
    refine ⟨fun _ => true, rfl, _ :: preds, ?_, hrows⟩
    rw [List.mapM_cons, hpred, hpreds]
    rfl

theorem compare_select {ids : List Bytes}
    : (f.compareQuery ids).select t = .ok rows
      ↔ (∀ id ∈ ids, Binds id) ∧ Selects t f (fun b => decide (b ∈ ids)) rows := by
  rw [compareQuery_eq, select_eq_ok [.machines ids] _ rfl rfl]
  change (∃ machines, anyMachine ids = .ok machines ∧ _) ↔ _
  simp only [anyMachine_eq_ok, and_assoc, exists_and_left, exists_eq_left]
  rfl

theorem Selects.other {p : Bytes → Bool} (h : Selects t f p rows) (p' : Bytes → Bool)
    : ∃ rows', Selects t f p' rows' := by
  obtain ⟨preds, hpreds, _⟩ := h
  exact ⟨_, preds, hpreds, rfl⟩

def rowsOf (rows : List Measurement) (id : Bytes) : List Measurement :=
  Grouping.members (fun m => goString m.row.machineID) rows id

theorem Selects.members {ids : List Bytes} {id : Bytes} {own : List Measurement}
    (h : Selects t f (fun b => decide (b ∈ ids)) rows) (hown : Selects t f (fun b => decide (b = id)) own)
    (hid : id ∈ ids)
    : own = rowsOf rows id := by
  obtain ⟨preds, hpreds, rfl⟩ := h
  obtain ⟨preds', hpreds', rfl⟩ := hown
  rw [hpreds] at hpreds'
  injection hpreds' with hpreds'
  rw [rowsOf, Grouping.members, List.filter_filter, ← hpreds']
  apply List.filter_congr
  intro m _
  by_cases hm : goString m.row.machineID = id
  . simp [hm, hid]
  . simp [hm]

theorem Selects.machine_mem {ids : List Bytes} {m : Measurement}
    (h : Selects t f (fun b => decide (b ∈ ids)) rows) (hm : m ∈ rows)
    : goString m.row.machineID ∈ ids := by
  obtain ⟨preds, _, rfl⟩ := h
  have := (List.mem_filter.mp hm).2
  rw [Bool.and_eq_true, decide_eq_true_iff] at this
  exact this.1

def lookup (data : Cells) (k : Bytes × Int) : Option Cell :=
  (data k.1).bind fun cells => cells k.2

def CompareRow.cell (r : CompareRow) : Cell where
  n := r.n
  mean := r.mean
  median := r.median

def CompareRow.tag (r : CompareRow) : Bytes × Int :=
  (r.machineID, r.grp)

theorem lookup_readRow (st : Cells × List Int) (r : CompareRow)
    : lookup (readRow st r).1 = Function.update (lookup st.1) r.tag (some r.cell) := by
  funext k
  obtain ⟨id, g⟩ := k
  unfold lookup readRow CompareRow.tag
  dsimp only
  by_cases hid : id = r.machineID
  . subst hid
    rw [Function.update_self, Option.bind_some]
    by_cases hg : g = r.grp
    . subst hg
      rw [Function.update_self, Function.update_self]
      rfl
    . rw [Function.update_of_ne hg, Function.update_of_ne (by simp [hg])]
      cases st.1 r.machineID <;> rfl
  . rw [Function.update_of_ne hid, Function.update_of_ne (by simp [hid])]

theorem lookup_foldl (rs : List CompareRow) (st : Cells × List Int)
    : lookup (rs.foldl readRow st).1
      = Grouping.insertAll CompareRow.tag CompareRow.cell (lookup st.1) rs := by
  unfold Grouping.insertAll
  induction rs generalizing st with
  | nil => rfl
  | cons r rs ih =>
    rw [List.foldl_cons, List.foldl_cons, ih, lookup_readRow]

theorem mem_groupSet {rs : List CompareRow} {st : Cells × List Int} {g : Int}
    : g ∈ (rs.foldl readRow st).2 ↔ g ∈ st.2 ∨ ∃ r ∈ rs, r.grp = g := by
  induction rs generalizing st with
  | nil => simp
  | cons r rs ih =>
    simp only [List.foldl_cons, ih, List.mem_cons, exists_eq_or_imp]
    rw [← or_assoc]
    refine or_congr_left ?_
    unfold readRow
    dsimp only
    split
    . next hmem => exact ⟨.inl, fun h => h.elim id fun heq => heq ▸ hmem⟩
    . rw [List.mem_append, List.mem_singleton, eq_comm (a := g)]

theorem groupSet_nodup {rs : List CompareRow} {st : Cells × List Int} (h : st.2.Nodup)
    : (rs.foldl readRow st).2.Nodup := by
  induction rs generalizing st with
  | nil => exact h
  | cons r rs ih =>
    rw [List.foldl_cons]
    apply ih
    unfold readRow
    dsimp only
    split
    . exact h
    . next hmem => exact List.nodup_append_comm.mp (List.nodup_cons.mpr ⟨hmem, h⟩)

def findGroup (groups : List AggregateGroup) (g : Int) : Option AggregateGroup :=
  groups.find? fun a => a.group = g

def AggregateGroup.cell (a : AggregateGroup) : Cell where
  n := a.n
  mean := a.mean
  median := a.median

section Comparison

variable {sql : SqlAggregates} {order : Unordered} {by' : GroupBy}

theorem lookup_readRows (k : Bytes × Int)
    : lookup (readRows (order.rows (compareRows sql by' rows))).1 k
      = if k ∈ Grouping.keys (machineGroup by') rows then some (compareRow sql by' rows k).cell else none := by
  have hperm := order.rows_perm (compareRows sql by' rows)
  have hrow : ∀ r ∈ order.rows (compareRows sql by' rows), compareRow sql by' rows r.tag = r := by
    intro r hr
    obtain ⟨k, _, rfl⟩ := List.mem_map.mp (hperm.mem_iff.mp hr)
    rfl
  have htags : k ∈ (order.rows (compareRows sql by' rows)).map CompareRow.tag
      ↔ k ∈ Grouping.keys (machineGroup by') rows := by
    rw [(hperm.map CompareRow.tag).mem_iff, compareRows, List.map_map]
    exact iff_of_eq (congrArg _ (List.map_id _))
  rw [readRows, lookup_foldl, Grouping.insertAll_apply _ hrow]
  simp only [htags]
  rfl

theorem mem_readRows {g : Int}
    : g ∈ (readRows (order.rows (compareRows sql by' rows))).2 ↔ ∃ m ∈ rows, groupValue by' m = g := by
  have hperm := order.rows_perm (compareRows sql by' rows)
  rw [readRows, mem_groupSet]
  constructor
  . rintro (h | ⟨r, hr, rfl⟩)
    . cases h
    . obtain ⟨k, hk, rfl⟩ := List.mem_map.mp (hperm.mem_iff.mp hr)
      obtain ⟨m, hm, rfl⟩ := Grouping.mem_keys.mp hk
      exact ⟨m, hm, rfl⟩
  . rintro ⟨m, hm, rfl⟩
    have hk : machineGroup by' m ∈ Grouping.keys (machineGroup by') rows :=
      Grouping.mem_keys.mpr ⟨m, hm, rfl⟩
    exact .inr ⟨_, hperm.mem_iff.mpr (List.mem_map_of_mem hk), rfl⟩

theorem mem_sorted_keys {g : Int}
    : g ∈ (Grouping.keys (groupValue by') rows).insertionSort (· ≤ ·)
      ↔ g ∈ Grouping.keys (groupValue by') rows :=
  (List.perm_insertionSort _ _).mem_iff

theorem lookup_eq_findGroup (id : Bytes) (g : Int)
    : lookup (readRows (order.rows (compareRows sql by' rows))).1 (id, g)
      = (findGroup (aggregateGroups sql by' (rowsOf rows id)) g).map AggregateGroup.cell := by
  generalize hown : rowsOf rows id = own
  have hmembers : Grouping.members (machineGroup by') rows (id, g)
      = Grouping.members (groupValue by') own g := by
    rw [← hown]
    exact Grouping.members_pair _ _ _ _
  have hkeys : (id, g) ∈ Grouping.keys (machineGroup by') rows ↔ g ∈ Grouping.keys (groupValue by') own := by
    rw [← Grouping.members_ne_nil_iff, hmembers, Grouping.members_ne_nil_iff]
  have hfind : findGroup (aggregateGroups sql by' own) g
      = if g ∈ Grouping.keys (groupValue by') own then some (aggregateGroup sql by' own g) else none := by
    rw [findGroup, aggregateGroups, Grouping.find?_map (fun _ => rfl), if_congr mem_sorted_keys rfl rfl]
  rw [lookup_readRows, hfind, if_congr hkeys rfl rfl, apply_ite (Option.map _)]
  refine if_congr Iff.rfl (congrArg some ?_) rfl
  unfold CompareRow.cell AggregateGroup.cell compareRow aggregateGroup
  rw [hmembers]

/--
A series has for each group what the aggregates of its machine have, and 0 where they have none. A
median is divided by the one of the first machine, if there is one that is not 0.
-/
structure CompareSeries.Aligned (s : CompareSeries) (axis : List Int) (base own : List AggregateGroup)
    : Prop where
  groups : s.groups = axis
  n : s.n = axis.map fun g => (findGroup own g).elim 0 (·.n)
  mean : s.mean = axis.map fun g => (findGroup own g).elim zero (·.mean)
  median : s.median = axis.map fun g => (findGroup own g).elim zero (·.median)
  ratio : s.ratio = axis.map fun g =>
    match findGroup base g with
    | some b => if b.median.eq zero then zero else ((findGroup own g).elim zero (·.median)).div b.median
    | none => zero

theorem compareSeries_aligned {data : Cells} {first id : Bytes} {base own : List AggregateGroup}
    (hbase : ∀ g, lookup data (first, g) = (findGroup base g).map AggregateGroup.cell)
    (hown : ∀ g, lookup data (id, g) = (findGroup own g).map AggregateGroup.cell) (axis : List Int)
    (names : Bytes → Bytes)
    : (compareSeries data (data first) axis names id).Aligned axis base own := by
  have hcell : ∀ g, cellOf data id g
      = ((findGroup own g).map AggregateGroup.cell).getD { n := 0, mean := zero, median := zero } := by
    intro g
    rw [← hown]
    rfl
  have hmedian : ∀ g, (cellOf data id g).median = (findGroup own g).elim zero (·.median) := by
    intro g
    rw [hcell]
    cases findGroup own g <;> rfl
  refine ⟨rfl, ?_, ?_, ?_, ?_⟩
  . apply List.map_congr_left
    intro g _
    rw [hcell]
    cases findGroup own g <;> rfl
  . apply List.map_congr_left
    intro g _
    rw [hcell]
    cases findGroup own g <;> rfl
  . exact List.map_congr_left fun g _ => hmedian g
  . apply List.map_congr_left
    intro g _
    have hlookup : ((data first).bind fun cells => cells g) = (findGroup base g).map AggregateGroup.cell :=
      hbase g
    rw [ratioTo, hlookup, hmedian]
    cases findGroup base g with
    | none => rfl
    | some b =>
      dsimp only [Option.map_some, AggregateGroup.cell]
      cases b.median.eq zero <;> rfl

theorem Aggregates_eq_ok {id : Bytes} (hid : id ≠ []) {a : AggregateResponse}
    : Aggregates sql t { f with machineID := id } by' = .ok a
      ↔ Binds id ∧ ∃ own, Selects t f (fun b => decide (b = id)) own
        ∧ a = { machineID := id, metric := f.metric, workload := f.workload, unit := unitOf f.metric,
                groupBy := by', groups := aggregateGroups sql by' own } := by
  unfold Aggregates
  simp only [Program.except_bind_eq_ok, Program.except_mapError_eq_ok, aggregates_select hid]
  constructor
  . rintro ⟨own, ⟨hbinds, hown⟩, h⟩
    injection h with h
    exact ⟨hbinds, own, hown, h.symm⟩
  . rintro ⟨hbinds, own, hown, rfl⟩
    exact ⟨own, ⟨hbinds, hown⟩, rfl⟩

theorem exists_hostnamesOf {machines : Table MachineRow.id} {ids : List Bytes} (h : ∀ id ∈ ids, Binds id)
    : ∃ names, hostnamesOf machines ids = .ok names := by
  obtain ⟨vs, hvs⟩ := Program.exists_mapM h
  have herror := (Program.except_mapError_eq_ok (f := (GoError.wrap [.text "hostnames"]))).mpr hvs
  exact ⟨_, Program.except_bind_eq_ok.mpr ⟨vs, herror, rfl⟩⟩

variable {machines : Table MachineRow.id} {first : Bytes} {rest : List Bytes}

theorem Compare_eq_ok {res : CompareResponse}
    : Compare sql order t machines (first :: rest) f by' = .ok res
      ↔ (∀ id ∈ first :: rest, Binds id) ∧ ∃ rows, Selects t f (fun b => decide (b ∈ first :: rest)) rows
        ∧ ∃ names, hostnamesOf machines (first :: rest) = .ok names
          ∧ ∃ st, st = readRows (order.rows (compareRows sql by' rows))
            ∧ res = { metric := f.metric, workload := f.workload, unit := unitOf f.metric, groupBy := by',
                      baseline := first, groups := sortInt64 (order.keys st.2),
                      series := (first :: rest).map
                        (compareSeries st.1 (st.1 first) (sortInt64 (order.keys st.2)) names) } := by
  unfold Compare
  simp only [Program.except_bind_eq_ok, Program.except_mapError_eq_ok, compare_select]
  constructor
  . rintro ⟨rows, ⟨hbinds, hrows⟩, names, hnames, h⟩
    injection h with h
    exact ⟨hbinds, rows, hrows, names, hnames, _, rfl, h.symm⟩
  . rintro ⟨hbinds, rows, hrows, names, hnames, st, rfl, rfl⟩
    exact ⟨rows, ⟨hbinds, hrows⟩, names, hnames, rfl⟩

theorem groups_pairwise_lt : (sortInt64 (order.keys (readRows (order.rows (compareRows sql by' rows))).2)).Pairwise (· < ·) := by
  have hnodup : (readRows (order.rows (compareRows sql by' rows))).2.Nodup := groupSet_nodup List.nodup_nil
  obtain ⟨hperm, hsorted⟩ := sortInt64_spec (order.keys (readRows (order.rows (compareRows sql by' rows))).2)
  have hdistinct := (hperm.trans (order.keys_perm _)).nodup_iff.mpr hnodup
  exact (hsorted.and hdistinct).imp fun h => lt_of_le_of_ne h.1 h.2

theorem mem_groups {g : Int}
    : g ∈ sortInt64 (order.keys (readRows (order.rows (compareRows sql by' rows))).2)
      ↔ ∃ m ∈ rows, groupValue by' m = g := by
  obtain ⟨hperm, _⟩ := sortInt64_spec (order.keys (readRows (order.rows (compareRows sql by' rows))).2)
  rw [(hperm.trans (order.keys_perm _)).mem_iff, mem_readRows]

theorem mem_aggregateGroups {own : List Measurement} {g : Int}
    : (∃ b ∈ aggregateGroups sql by' own, b.group = g) ↔ ∃ m ∈ own, groupValue by' m = g := by
  have hkeys : g ∈ (Grouping.keys (groupValue by') own).insertionSort (· ≤ ·)
      ↔ ∃ m ∈ own, groupValue by' m = g := mem_sorted_keys.trans Grouping.mem_keys
  rw [← hkeys, aggregateGroups]
  constructor
  . rintro ⟨b, hb, rfl⟩
    obtain ⟨g, hg, rfl⟩ := List.mem_map.mp hb
    exact hg
  . intro hg
    exact ⟨_, List.mem_map_of_mem hg, rfl⟩

theorem Selects.aggregates {ids : List Bytes} {id : Bytes}
    (h : Selects t f (fun b => decide (b ∈ ids)) rows) (hid : id ∈ ids) (hne : id ≠ []) (hbinds : Binds id)
    (sql : SqlAggregates) (by' : GroupBy)
    : ∃ a, Aggregates sql t { f with machineID := id } by' = .ok a
      ∧ a.groups = aggregateGroups sql by' (rowsOf rows id) := by
  obtain ⟨own, hown⟩ := h.other fun b => decide (b = id)
  rw [← h.members hown hid]
  exact ⟨_, (Aggregates_eq_ok hne).mpr ⟨hbinds, own, hown, rfl⟩, rfl⟩

theorem Selects.exists_group_iff {ids : List Bytes} (h : Selects t f (fun b => decide (b ∈ ids)) rows)
    (hids : ∀ id ∈ ids, id ≠ [] ∧ Binds id) (g : Int)
    : (∃ m ∈ rows, groupValue by' m = g)
      ↔ ∃ id ∈ ids, ∃ a, Aggregates sql t { f with machineID := id } by' = .ok a
        ∧ ∃ b ∈ a.groups, b.group = g := by
  constructor
  . rintro ⟨m, hm, hg⟩
    have hid := h.machine_mem hm
    obtain ⟨a, ha, hgroups⟩ := h.aggregates hid (hids _ hid).1 (hids _ hid).2 sql by'
    refine ⟨_, hid, a, ha, ?_⟩
    rw [hgroups]
    exact mem_aggregateGroups.mpr ⟨m, Grouping.mem_members.mpr ⟨hm, rfl⟩, hg⟩
  . rintro ⟨id, hid, a, ha, hgroup⟩
    obtain ⟨a', ha', hgroups⟩ := h.aggregates hid (hids _ hid).1 (hids _ hid).2 sql by'
    rw [ha] at ha'
    injection ha' with ha'
    rw [ha', hgroups] at hgroup
    obtain ⟨m, hm, hg⟩ := mem_aggregateGroups.mp hgroup
    exact ⟨m, (Grouping.mem_members.mp hm).1, hg⟩

theorem exists_Compare_iff {ids : List Bytes} (hids : ∀ id ∈ ids, id ≠ [])
    : (∃ res, Compare sql order t machines ids f by' = .ok res)
      ↔ ∀ id ∈ ids, ∃ a, Aggregates sql t { f with machineID := id } by' = .ok a := by
  cases ids with
  | nil => exact iff_of_true ⟨_, rfl⟩ nofun
  | cons first rest =>
    constructor
    . rintro ⟨res, h⟩ id hid
      obtain ⟨hbinds, rows, hrows, _⟩ := Compare_eq_ok.mp h
      obtain ⟨a, ha, _⟩ := hrows.aggregates hid (hids id hid) (hbinds id hid) sql by'
      exact ⟨a, ha⟩
    . intro h
      have hbinds : ∀ id ∈ first :: rest, Binds id := by
        intro id hid
        obtain ⟨a, ha⟩ := h id hid
        exact ((Aggregates_eq_ok (hids id hid)).mp ha).1
      obtain ⟨a, ha⟩ := h first List.mem_cons_self
      obtain ⟨_, own, hown, _⟩ := (Aggregates_eq_ok (hids first List.mem_cons_self)).mp ha
      obtain ⟨rows, hrows⟩ := hown.other fun b => decide (b ∈ first :: rest)
      obtain ⟨names, hnames⟩ := exists_hostnamesOf hbinds
      exact ⟨_, Compare_eq_ok.mpr ⟨hbinds, rows, hrows, names, hnames, _, rfl, rfl⟩⟩

end Comparison

/--
A comparison agrees with the aggregates of its machines. It succeeds if they do; its groups are in order
and are those that some machine has; there is one series for each machine of the list, aligned to the
groups.
-/
theorem Compare_agrees (sql : SqlAggregates) (order : Unordered) (t : Measurements)
    (machines : Table MachineRow.id) (f : MeasurementFilter) (by' : GroupBy) (ids : List Bytes)
    (hids : ∀ id ∈ ids, id ≠ [])
    : ((∃ res, Compare sql order t machines ids f by' = .ok res)
        ↔ ∀ id ∈ ids, ∃ a, Aggregates sql t { f with machineID := id } by' = .ok a)
      ∧ ∀ res, Compare sql order t machines ids f by' = .ok res →
        res.groups.Pairwise (· < ·)
        ∧ (∀ g, g ∈ res.groups
          ↔ ∃ id ∈ ids, ∃ a, Aggregates sql t { f with machineID := id } by' = .ok a
            ∧ ∃ b ∈ a.groups, b.group = g)
        ∧ res.series.map (·.machineID) = ids
        ∧ ∀ s ∈ res.series, ∃ base own,
          Aggregates sql t { f with machineID := ids.headD [] } by' = .ok base
          ∧ Aggregates sql t { f with machineID := s.machineID } by' = .ok own
          ∧ s.Aligned res.groups base.groups own.groups := by
  refine ⟨exists_Compare_iff hids, fun res h => ?_⟩
  cases ids with
  | nil =>
    injection h with h
    subst h
    exact ⟨.nil, fun g => iff_of_false nofun nofun, rfl, nofun⟩
  | cons first rest =>
    obtain ⟨hbinds, rows, hrows, names, _, st, rfl, rfl⟩ := Compare_eq_ok.mp h
    refine ⟨groups_pairwise_lt, fun g => ?_, ?_, fun s hs => ?_⟩
    . rw [mem_groups]
      exact hrows.exists_group_iff (fun id hid => ⟨hids id hid, hbinds id hid⟩) g
    . rw [List.map_map]
      exact List.map_id _
    . obtain ⟨id, hid, rfl⟩ := List.mem_map.mp hs
      have hfirst : first ∈ first :: rest := List.mem_cons_self
      obtain ⟨base, hbase, hgroups⟩ := hrows.aggregates hfirst (hids first hfirst) (hbinds first hfirst) sql by'
      obtain ⟨own, hown, hgroups'⟩ := hrows.aggregates hid (hids id hid) (hbinds id hid) sql by'
      refine ⟨base, own, hbase, hown, ?_⟩
      rw [hgroups, hgroups']
      exact compareSeries_aligned (lookup_eq_findGroup first) (lookup_eq_findGroup id) _ names

theorem readMachines_ne_nil {q : Http.Values} {ids : List Bytes} (h : Http.readMachines q = .ok ids)
    : ∀ id ∈ ids, id ≠ [] := by
  unfold Http.readMachines at h
  dsimp only at h
  split at h
  . cases h
  . split at h
    . cases h
    . injection h with h
      subst h
      intro id hid
      exact of_decide_eq_true (List.mem_filter.mp hid).2

section ThreeMeasurements

def ofSingle (vs : Multiset Float64) : Float64 :=
  Quotient.liftOn vs (fun | [x] => x | _ => .nan) (by
    intro l l' h
    match l, l', h with
    | [], l', h => rw [List.nil_perm.mp h]
    | [x], l', h => rw [List.singleton_perm.mp h]
    | x :: y :: l, [], h => exact absurd h.length_eq (by simp)
    | x :: y :: l, [z], h => exact absurd h.length_eq (by simp)
    | x :: y :: l, z :: w :: l', h => rfl)

def singles : SqlAggregates where
  avg := ofSingle
  percentileCont := fun _ => ofSingle
  stddevSamp := fun _ => none
  min := ofSingle
  max := ofSingle

def asTheyCome : Unordered where
  rows := id
  rows_perm := fun rs => .refl rs
  keys := List.reverse
  keys_perm := List.reverse_perm

def measured (id : Int) (machineID : String) (threads : Int) (value : Nat) : Measurement where
  id := id
  row := {
    runID := List.Vector.replicate 32 0
    machineID := machineID
    workload := "cpu"
    metric := "cpu_alu"
    threadCount := threads
    workingSetBytes := 0
    trial := 0
    value := .finite false value 0
    unit := "ops_s"
    recordedAt := ⟨2026, 1, 1, 0, 0, 0, 0⟩
    durationNs := 1
    params := none
  }

def threeMeasurements : Measurements where
  rows := [measured 1 "a" 1 8, measured 2 "b" 4 3, measured 3 "a" 4 6]
  unique := by decide
  storable := by
    intro m hm
    simp only [List.mem_cons, List.not_mem_nil, or_false] at hm
    obtain rfl | rfl | rfl := hm <;> constructor <;> decide

/--
A machine that is asked for twice and one that is not known.
-/
theorem Compare_agrees_threeMeasurements
    : ∃ res, Compare singles asTheyCome threeMeasurements .empty [ascii "a", ascii "b", ascii "c", ascii "b"]
        ⟨[], [], [], [], none, none, 0, 0⟩ .threadCount = .ok res
      ∧ res.groups.Pairwise (· < ·)
      ∧ res.series.map (·.machineID) = [ascii "a", ascii "b", ascii "c", ascii "b"] := by
  obtain ⟨hok, hres⟩ := Compare_agrees singles asTheyCome threeMeasurements .empty
    ⟨[], [], [], [], none, none, 0, 0⟩ .threadCount [ascii "a", ascii "b", ascii "c", ascii "b"] (by decide)
  have hbinds : ∀ id ∈ [ascii "a", ascii "b", ascii "c", ascii "b"], Binds id := by
    simp only [List.forall_mem_cons]
    exact ⟨⟨.text "a", rfl⟩, ⟨.text "b", rfl⟩, ⟨.text "c", rfl⟩, ⟨.text "b", rfl⟩, nofun⟩
  obtain ⟨res, h⟩ := hok.mpr fun id hid =>
    ⟨_, (Aggregates_eq_ok ((by decide : ∀ id ∈ [ascii "a", ascii "b", ascii "c", ascii "b"], id ≠ []) id hid)).mpr
      ⟨hbinds id hid, _, ⟨[], rfl, rfl⟩, rfl⟩⟩
  exact ⟨res, h, (hres res h).1, (hres res h).2.2.1⟩

example : (Compare singles asTheyCome threeMeasurements .empty [ascii "a", ascii "b"]
      ⟨[], [], [], [], none, none, 0, 0⟩ .threadCount).toOption.map
        (fun res => (res.groups, res.series.map (·.ratio)))
    = some ([1, 4], [[Float64.ofInt 1, Float64.ofInt 1], [zero, (Float64.ofInt 3).div (Float64.ofInt 6)]]) := by
  decide +kernel

end ThreeMeasurements

end Store
end Api
