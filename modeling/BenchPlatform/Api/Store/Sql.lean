import BenchPlatform.Api.Http.Analytics
import BenchPlatform.Api.Store.Queries
import BenchPlatform.Api.Store.Placeholders

/-!
This module contains the statements of the read endpoints as text with their arguments, and what each
numbered placeholder of the text stands for.
-/

namespace Api
namespace Store

open Http (GroupBy)

/--
An argument of a statement: the list of machines of a comparison, or one value.
-/
inductive QueryArg where
  | machines (ids : List Bytes)
  | value (v : Arg)
  deriving DecidableEq

structure Statement where
  sql : Bytes
  args : List QueryArg
  deriving DecidableEq

abbrev Draft := List QueryArg × List Bytes

/--
`add`: the number of the new argument stands where `sql` ends.
-/
def Draft.add (sql : String) (v : Arg) (d : Draft) : Draft :=
  let args := d.1 ++ [.value v]
  (args, d.2 ++ [ascii sql ++ formatInt args.length])

def Draft.addText (sql : String) (v : Bytes) (d : Draft) : Draft :=
  if v = [] then d else d.add sql (.text v)

def Draft.addInt (sql : String) (v : Option Int) (d : Draft) : Draft :=
  match v with
  | none => d
  | some n => d.add sql (.int n)

/--
`strings.Join(conds, " AND ")` after the keyword.
-/
def whereText (conds : List Bytes) : Bytes :=
  if conds = [] then [] else ascii " WHERE " ++ (ascii " AND ").intercalate conds

/--
`where` appends to the arguments and returns the text.
-/
def MeasurementFilter.whereSql (f : MeasurementFilter) (args : List QueryArg) : List QueryArg × Bytes :=
  let d : Draft := (args, [])
  let d := d.addText "machine_id = $" f.machineID
  let d := d.addText "metric = $" f.metric
  let d := d.addText "workload = $" f.workload
  let d := d.addInt "thread_count = $" f.threadCount
  let d := d.addInt "working_set_bytes = $" f.workingSetBytes
  let d := d.addText "run_id = $" f.runID
  (d.1, whereText d.2)

/--
`string(by)`: the name of the column.
-/
def groupColumn : GroupBy → Bytes
  | .threadCount => ascii "thread_count"
  | .workingSetBytes => ascii "working_set_bytes"

/--
The cursor of `ListMeasurements` is one more condition.
-/
def MeasurementFilter.addCursor (f : MeasurementFilter) (args : List QueryArg) (cond : Bytes)
    : List QueryArg × Bytes :=
  if 0 < f.cursor then
    let args := args ++ [.value (.int f.cursor)]
    if cond = [] then
      (args, ascii " WHERE id > $" ++ formatInt args.length)
    else
      (args, cond ++ (ascii " AND id > $" ++ formatInt args.length))
  else
    (args, cond)

/--
The statement of `ListMeasurements`.
-/
def MeasurementFilter.listStatement (f : MeasurementFilter) : Statement :=
  let (args, cond) := f.whereSql []
  let (args, cond) := f.addCursor args cond
  let limit := if f.limit ≤ 0 then 100 else f.limit
  let args := args ++ [.value (.int limit)]
  { sql := ascii ("SELECT id, run_id, machine_id, workload, metric, thread_count, working_set_bytes,\n"
      ++ "\t               trial, value, unit, recorded_at, duration_ns, params\n"
      ++ "\t        FROM measurements")
      ++ cond ++ (ascii " ORDER BY id LIMIT $" ++ formatInt args.length)
    args := args }

/--
The statement of `CountMeasurements`.
-/
def MeasurementFilter.countStatement (f : MeasurementFilter) : Statement :=
  let (args, cond) := f.whereSql []
  { sql := ascii "SELECT count(*) FROM measurements" ++ cond, args := args }

/--
The statement of `Aggregates`.
-/
def MeasurementFilter.aggregatesStatement (f : MeasurementFilter) (by' : GroupBy) : Statement :=
  let (args, cond) := f.whereSql []
  let column := groupColumn by'
  { sql := ascii "\n\t\tSELECT " ++ column
      ++ ascii (" AS grp,\n"
        ++ "\t\t       count(*),\n"
        ++ "\t\t       avg(value),\n"
        ++ "\t\t       percentile_cont(0.5)  WITHIN GROUP (ORDER BY value),\n"
        ++ "\t\t       coalesce(stddev_samp(value), 0),\n"
        ++ "\t\t       min(value),\n"
        ++ "\t\t       percentile_cont(0.05) WITHIN GROUP (ORDER BY value),\n"
        ++ "\t\t       percentile_cont(0.95) WITHIN GROUP (ORDER BY value),\n"
        ++ "\t\t       max(value)\n"
        ++ "\t\tFROM measurements")
      ++ cond ++ (ascii "\n\t\tGROUP BY " ++ column ++ ascii "\n\t\tORDER BY " ++ column)
    args := args }

/--
The statement of `Trials`.
-/
def MeasurementFilter.trialsStatement (f : MeasurementFilter) : Statement :=
  let (args, cond) := f.whereSql []
  let limit := if f.limit ≤ 0 then 10000 else f.limit
  let args := args ++ [.value (.int limit)]
  { sql := ascii "\n\t\tSELECT trial, value, recorded_at FROM measurements" ++ cond
      ++ (ascii "\n\t\tORDER BY recorded_at, trial LIMIT $" ++ formatInt args.length)
    args := args }

/--
The conditions of `Compare`. The numbers of the others are shifted past the list of machines.
-/
def machineConditions (machineIDs : List Bytes) (extra : List QueryArg) (more : Bytes)
    : List QueryArg × Bytes :=
  let args := [.machines machineIDs]
  let cond := ascii " WHERE m.machine_id = ANY($1)"
  if more ≠ [] then
    (args ++ extra,
      cond ++ (ascii " AND " ++ shiftPlaceholders (more.drop (ascii " WHERE ").length) args.length))
  else
    (args, cond)

/--
The statement of `Compare`. The list of machines replaces the filter on one.
-/
def MeasurementFilter.compareStatement (f : MeasurementFilter) (machineIDs : List Bytes) (by' : GroupBy)
    : Statement :=
  let (extra, more) := { f with machineID := [] }.whereSql []
  let (args, cond) := machineConditions machineIDs extra more
  let column := ascii "m." ++ groupColumn by'
  { sql := ascii "\n\t\tSELECT m.machine_id, " ++ column
      ++ ascii (" AS grp, count(*), avg(m.value),\n"
        ++ "\t\t       percentile_cont(0.5) WITHIN GROUP (ORDER BY m.value)\n"
        ++ "\t\tFROM measurements m")
      ++ cond ++ (ascii "\n\t\tGROUP BY m.machine_id, " ++ column ++ ascii "\n\t\tORDER BY " ++ column)
    args := args }

def Column.name : Column → String
  | .id => "id"
  | .runID => "run_id"
  | .machineID => "machine_id"
  | .workload => "workload"
  | .metric => "metric"
  | .threadCount => "thread_count"
  | .workingSetBytes => "working_set_bytes"

def Comparison.sql : Comparison → String
  | .equal => " = "
  | .greater => " > "

def Cond.lead (c : Cond) : Bytes :=
  ascii c.column.name ++ ascii c.comparison.sql

def Cond.sql (c : Cond) : Bytes :=
  c.lead ++ dollar :: formatInt c.placeholder

/--
What stands in front of each number when `before` precedes the conditions.
-/
def leads (before : Bytes) : List Cond → List (Bytes × Nat)
  | [] => []
  | c :: cs => (before ++ c.lead, c.placeholder) :: leads (ascii " AND ") cs

def values (ps : List Conjunct) : List QueryArg :=
  ps.map fun p => .value p.2.2

/--
A draft holds these conditions after the arguments that were there before.
-/
structure Draft.Holds (before : List QueryArg) (d : Draft) (ps : List Conjunct) : Prop where
  args : d.1 = before ++ values ps
  conds : d.2 = (number (before.length + 1) ps).map Cond.sql

namespace Draft.Holds

variable {before : List QueryArg} {d : Draft} {ps : List Conjunct}

theorem add (h : d.Holds before ps) {column : Column} {comparison : Comparison} {sql : String}
    (hsql : ascii sql = ascii column.name ++ (ascii comparison.sql ++ [dollar])) (v : Arg)
    : (d.add sql v).Holds before (ps ++ [(column, comparison, v)]) := by
  have hargs : d.1 ++ [.value v] = before ++ values (ps ++ [(column, comparison, v)]) := by
    rw [h.args, values, values, List.map_append, List.append_assoc]
    rfl
  refine ⟨hargs, ?_⟩
  have hlen : (d.1 ++ [QueryArg.value v]).length = before.length + 1 + ps.length := by
    rw [hargs, List.length_append, values, List.length_map, List.length_append, List.length_singleton]
    omega
  unfold Draft.add
  dsimp only
  rw [hlen, h.conds, number_append, List.map_append, hsql]
  congr 1
  simp [number, Cond.sql, Cond.lead]

theorem addText (h : d.Holds before ps) (column : Column) (sql : String)
    (hsql : ascii sql = ascii column.name ++ (ascii Comparison.equal.sql ++ [dollar])) (v : Bytes)
    : (d.addText sql v).Holds before (ps ++ textConjunct column v) := by
  unfold Draft.addText textConjunct
  split
  . rwa [List.append_nil]
  . exact h.add hsql (.text v)

theorem addInt (h : d.Holds before ps) (column : Column) (sql : String)
    (hsql : ascii sql = ascii column.name ++ (ascii Comparison.equal.sql ++ [dollar])) (v : Option Int)
    : (d.addInt sql v).Holds before (ps ++ intConjunct column v) := by
  cases v with
  | none => rwa [intConjunct, List.append_nil]
  | some n => exact h.add hsql (.int n)

end Draft.Holds

theorem whereSql_eq (f : MeasurementFilter) (args : List QueryArg)
    : f.whereSql args
      = (args ++ values f.conjuncts,
          whereText ((number (args.length + 1) f.conjuncts).map Cond.sql)) := by
  have hempty : Draft.Holds args (args, []) [] := ⟨(List.append_nil args).symm, rfl⟩
  have h := hempty.addText .machineID "machine_id = $" (by decide) f.machineID
  have h := h.addText .metric "metric = $" (by decide) f.metric
  have h := h.addText .workload "workload = $" (by decide) f.workload
  have h := h.addInt .threadCount "thread_count = $" (by decide) f.threadCount
  have h := h.addInt .workingSetBytes "working_set_bytes = $" (by decide) f.workingSetBytes
  have h := h.addText .runID "run_id = $" (by decide) f.runID
  exact Prod.ext h.args (congrArg whereText h.conds)

theorem plain_nil : Plain [] :=
  ⟨List.not_mem_nil, fun _ hb => absurd hb (Option.not_mem_none _)⟩

theorem plain_ascii {cs : List Char}
    (h : (cs.all (·.toNat % 256 != 36) && cs.head?.all fun c => c.toNat % 256 < 48 || 57 < c.toNat % 256) = true)
    : Plain (ascii (String.ofList cs)) := by
  have hcode : ∀ c : Char, c.toNat.toUInt8.toNat = c.toNat % 256 := fun _ => rfl
  obtain ⟨hdollar, hdigit⟩ := Bool.and_eq_true_iff.mp h
  rw [ascii_ofList]
  constructor
  . intro hmem
    obtain ⟨c, hc, heq⟩ := List.mem_map.mp hmem
    apply bne_iff_ne.mp (List.all_eq_true.mp hdollar c hc)
    rw [← hcode, heq]
    rfl
  . intro b hb
    rw [List.head?_map, Option.mem_map] at hb
    obtain ⟨c, hc, rfl⟩ := hb
    have h := (Option.all_eq_true _ _).mp hdigit c hc
    rw [← hcode, Bool.or_eq_true, decide_eq_true_eq, decide_eq_true_eq] at h
    rw [isDigit, Bool.and_eq_false_iff, decide_eq_false_iff_not, decide_eq_false_iff_not, UInt8.le_iff_toNat_le,
      UInt8.le_iff_toNat_le]
    exact h.imp Nat.not_le.mpr Nat.not_le.mpr

theorem name_plain (column : Column) : Plain (ascii column.name) := by
  cases column <;> exact plain_ascii (by decide)

theorem comparison_plain (comparison : Comparison) : Plain (ascii comparison.sql) := by
  cases comparison <;> exact plain_ascii (by decide)

theorem lead_plain (c : Cond) : Plain c.lead :=
  (name_plain c.column).append (comparison_plain c.comparison)

theorem leads_plain {before : Bytes} (h : Plain before) (cs : List Cond) : ∀ p ∈ leads before cs, Plain p.1 := by
  induction cs generalizing before with
  | nil => exact fun p hp => absurd hp List.not_mem_nil
  | cons c cs ih =>
    rw [leads, List.forall_mem_cons]
    exact ⟨h.append (lead_plain c), ih (plain_ascii (by decide))⟩

theorem intercalate_append (before : Bytes) (c : Cond) (cs : List Cond) (tail : Bytes)
    : before ++ ((ascii " AND ").intercalate ((c :: cs).map Cond.sql) ++ tail)
      = render (leads before (c :: cs)) tail := by
  induction cs generalizing before c with
  | nil =>
    rw [List.map_singleton, List.intercalate_singleton]
    simp [leads, render, Cond.sql]
  | cons c' cs ih =>
    have htail := ih (ascii " AND ") c'
    rw [List.map_cons, List.map_cons, List.intercalate_cons_cons]
    rw [List.map_cons] at htail
    rw [leads, render, ← htail]
    simp [Cond.sql]

theorem whereText_cons (c : Cond) (cs : List Cond)
    : whereText ((c :: cs).map Cond.sql)
      = ascii " WHERE " ++ (ascii " AND ").intercalate ((c :: cs).map Cond.sql) :=
  if_neg (List.cons_ne_nil _ _)

theorem whereText_append (cs : List Cond) (tail : Bytes)
    : whereText (cs.map Cond.sql) ++ tail = render (leads (ascii " WHERE ") cs) tail := by
  cases cs with
  | nil => rfl
  | cons c cs =>
    rw [← intercalate_append, whereText_cons, List.append_assoc]

/--
What a placeholder can stand for: the value that a column is compared with, the number of rows, or the
machines of a comparison.
-/
inductive Slot where
  | comparison (column : Column) (operator : Comparison)
  | limit
  | machines

/--
The text that ends where the number begins, but for the `$`.
-/
def Slot.sql : Slot → Bytes
  | .comparison column operator => ascii " " ++ (ascii column.name ++ ascii operator.sql)
  | .limit => ascii " LIMIT "
  | .machines => ascii " m.machine_id = ANY("

/--
A placeholder stands where its slot is and has the position of the slot's argument.
-/
def Slot.Reads (args : List QueryArg) (p : Bytes × Nat) (s : Slot × QueryArg) : Prop :=
  s.1.sql <:+ p.1 ∧ args[p.2 - 1]? = some s.2

/--
The text has the placeholders 1 to the number of arguments, each once and in this order, and each is
the position of the argument that its slot is for.
-/
structure Statement.Matched (s : Statement) (ss : List (Slot × QueryArg)) : Prop where
  numbers : placeholders s.sql = List.range' 1 s.args.length
  reads : List.Forall₂ (Slot.Reads s.args) (slots s.sql) ss

def conjunctSlots (ps : List Conjunct) : List (Slot × QueryArg) :=
  ps.map fun p => (.comparison p.1 p.2.1, .value p.2.2)

/--
The placeholders stand where the slots are and are numbered from `k` on.
-/
inductive Follow : Nat → List (Bytes × Nat) → List (Slot × QueryArg) → Prop where
  | nil {k : Nat} : Follow k [] []
  | cons {k : Nat} {lead : Bytes} {s : Slot × QueryArg} {ps : List (Bytes × Nat)}
      {ss : List (Slot × QueryArg)} (h : s.1.sql <:+ lead) (hs : Follow (k + 1) ps ss)
      : Follow k ((lead, k) :: ps) (s :: ss)

namespace Follow

variable {k : Nat} {ps qs : List (Bytes × Nat)} {ss ts : List (Slot × QueryArg)}

theorem numbers (h : Follow k ps ss) : ps.map (·.2) = List.range' k ss.length := by
  induction h with
  | nil => rfl
  | cons _ _ ih =>
    rw [List.map_cons, ih, List.length_cons, List.range'_succ]

theorem append (h : Follow k ps ss) (h' : Follow (k + ss.length) qs ts) : Follow k (ps ++ qs) (ss ++ ts) := by
  induction h with
  | nil => exact h'
  | cons hlead _ ih =>
    refine .cons hlead (ih ?_)
    rwa [List.length_cons, Nat.add_comm _ 1, ← Nat.add_assoc] at h'

theorem modifyHead (h : Follow k ps ss) (head : Bytes)
    : Follow k (ps.modifyHead fun p => (head ++ p.1, p.2)) ss := by
  cases h with
  | nil => exact .nil
  | cons hlead hs => exact .cons (hlead.trans (List.suffix_append _ _)) hs

theorem reads (h : Follow k ps ss) {before : List QueryArg} (hk : k = before.length + 1)
    (after : List QueryArg)
    : List.Forall₂ (Slot.Reads (before ++ (ss.map (·.2) ++ after))) ps ss := by
  induction h generalizing before with
  | nil => exact .nil
  | @cons k lead s ps ss hlead hs ih =>
    refine .cons ⟨hlead, ?_⟩ ?_
    . rw [hk, Nat.add_sub_cancel, List.getElem?_append_right (Nat.le_refl _), Nat.sub_self]
      rfl
    . have hk' : k + 1 = (before ++ [s.2]).length + 1 := by
        rw [hk, List.length_append]
        rfl
      have := ih hk'
      rwa [List.append_assoc] at this

theorem leads {before : Bytes} (h : ascii " " <:+ before) (ps : List Conjunct)
    : Follow k (leads before (number k ps)) (conjunctSlots ps) := by
  induction ps generalizing k before with
  | nil => exact .nil
  | cons p ps ih =>
    obtain ⟨pre, rfl⟩ := h
    refine .cons ?_ (ih ⟨ascii " AND", by decide⟩)
    rw [List.append_assoc]
    exact List.suffix_append pre (Slot.comparison p.1 p.2.1).sql

theorem matched {s : Statement} (h : Follow 1 (slots s.sql) ss) (hargs : s.args = ss.map (·.2))
    : s.Matched ss where
  numbers := by
    rw [placeholders, h.numbers, hargs, List.length_map]
  reads := by
    have : List.Forall₂ (Slot.Reads ([] ++ _)) _ _ := h.reads rfl []
    rwa [List.append_nil, List.nil_append, ← hargs] at this

end Follow

theorem length_conjunctSlots (ps : List Conjunct) : (conjunctSlots ps).length = ps.length :=
  List.length_map ..

theorem conjunctSlots_args (ps : List Conjunct) : (conjunctSlots ps).map (·.2) = values ps :=
  List.map_map

theorem follow_conditions {head : Bytes} (ps : List Conjunct) (qs : List (Bytes × Nat)) (tail : Bytes)
    {ss : List (Slot × QueryArg)} (hhead : dollar ∉ head) (hqs : ∀ q ∈ qs, Plain q.1) (htail : Plain tail)
    (h : Follow (ps.length + 1) qs ss)
    : Follow 1 (slots (head ++ whereText ((number 1 ps).map Cond.sql) ++ render qs tail))
        (conjunctSlots ps ++ ss) := by
  rw [List.append_assoc, whereText_append, ← render_append, slots_append hhead, slots_render _ htail]
  . apply Follow.modifyHead
    refine (Follow.leads ⟨ascii " WHERE", by decide⟩ ps).append ?_
    rwa [length_conjunctSlots, Nat.add_comm]
  . exact List.forall_mem_append.mpr ⟨leads_plain (plain_ascii (by decide)) _, hqs⟩

theorem matched_text {head tail : Bytes} (ps : List Conjunct) (hhead : dollar ∉ head) (htail : Plain tail)
    : Statement.Matched
        { sql := head ++ whereText ((number 1 ps).map Cond.sql) ++ tail
          args := values ps }
        (conjunctSlots ps) := by
  have h := follow_conditions ps [] tail hhead (fun q hq => absurd hq List.not_mem_nil) htail .nil
  rw [List.append_nil] at h
  exact Follow.matched h (conjunctSlots_args ps).symm

theorem matched_limit {head limitText : Bytes} (ps : List Conjunct) (limit : Int) (lead : Bytes)
    (hhead : dollar ∉ head) (hplain : Plain lead) (hlead : Slot.limit.sql <:+ lead)
    (hlimit : limitText = lead ++ [dollar])
    : Statement.Matched
        { sql := head ++ whereText ((number 1 ps).map Cond.sql)
            ++ (limitText ++ formatInt (values ps ++ [QueryArg.value (.int limit)]).length)
          args := values ps ++ [.value (.int limit)] }
        (conjunctSlots ps ++ [(.limit, .value (.int limit))]) := by
  have hfollow : Follow (ps.length + 1) [(lead, ps.length + 1)] [(.limit, .value (.int limit))] :=
    .cons hlead .nil
  have h := follow_conditions ps _ [] hhead (by rwa [List.forall_mem_singleton]) plain_nil hfollow
  have hlen : (values ps ++ [QueryArg.value (.int limit)]).length = ps.length + 1 := by
    rw [List.length_append, values, List.length_map]
    rfl
  apply Follow.matched
  . rw [hlen, hlimit, List.append_assoc lead]
    rwa [render, render, List.append_nil] at h
  . rw [List.map_append, conjunctSlots_args]
    rfl

theorem textConjunct_length (column : Column) (v : Bytes) : (textConjunct column v).length ≤ 1 := by
  unfold textConjunct
  split
  . exact Nat.zero_le 1
  . exact Nat.le_refl 1

theorem intConjunct_length (column : Column) (v : Option Int) : (intConjunct column v).length ≤ 1 := by
  cases v with
  | none => exact Nat.zero_le 1
  | some n => exact Nat.le_refl 1

theorem conjuncts_length (f : MeasurementFilter) : f.conjuncts.length ≤ 6 := by
  have h₁ := textConjunct_length .machineID f.machineID
  have h₂ := textConjunct_length .metric f.metric
  have h₃ := textConjunct_length .workload f.workload
  have h₄ := intConjunct_length .threadCount f.threadCount
  have h₅ := intConjunct_length .workingSetBytes f.workingSetBytes
  have h₆ := textConjunct_length .runID f.runID
  unfold MeasurementFilter.conjuncts
  simp only [List.length_append]
  omega

theorem leads_bounds {before : Bytes} {k : Nat} {ps : List Conjunct}
    : ∀ p ∈ leads before (number k ps), k ≤ p.2 ∧ p.2 < k + ps.length := by
  induction ps generalizing before k with
  | nil => exact fun p hp => absurd hp List.not_mem_nil
  | cons q ps ih =>
    rw [number, leads, List.forall_mem_cons, List.length_cons]
    refine ⟨⟨Nat.le_refl k, Nat.lt_add_of_pos_right (Nat.succ_pos _)⟩, fun p hp => ?_⟩
    have := ih p hp
    omega

theorem leads_map_shift (before : Bytes) (k n : Nat) (ps : List Conjunct)
    : (leads before (number k ps)).map (fun p => (p.1, p.2 + n)) = leads before (number (k + n) ps) := by
  induction ps generalizing before k with
  | nil => rfl
  | cons p ps ih =>
    rw [number, leads, List.map_cons, ih, Nat.add_right_comm]
    rfl

theorem shiftPlaceholders_leads {before : Bytes} {n : Nat} {ps : List Conjunct} (hbefore : Plain before)
    (h : ps.length + n < 2 ^ 63)
    : shiftPlaceholders (render (leads before (number 1 ps)) []) n
      = render (leads before (number (1 + n) ps)) [] := by
  rw [shiftPlaceholders_render (leads_plain hbefore _) plain_nil, leads_map_shift]
  . exact fun p hp => (leads_bounds p hp).1
  . intro p hp
    have := leads_bounds p hp
    omega

theorem shiftPlaceholders_whereSql (f : MeasurementFilter) (args : List QueryArg)
    (h : args.length + 6 < 2 ^ 63)
    : shiftPlaceholders (f.whereSql []).2 args.length = (f.whereSql args).2 := by
  have hlen := conjuncts_length f
  rw [whereSql_eq, whereSql_eq]
  have h₁ := whereText_append (number 1 f.conjuncts) []
  have h₂ := whereText_append (number (args.length + 1) f.conjuncts) []
  rw [List.append_nil] at h₁ h₂
  dsimp only [List.length_nil, Nat.zero_add]
  rw [h₁, h₂, shiftPlaceholders_leads (plain_ascii (by decide)) (by omega), Nat.add_comm]

theorem intercalate_concat (c : Cond) (cs : List Cond) (c' : Cond)
    : (ascii " AND ").intercalate ((c :: (cs ++ [c'])).map Cond.sql)
      = (ascii " AND ").intercalate ((c :: cs).map Cond.sql) ++ (ascii " AND " ++ c'.sql) := by
  induction cs generalizing c with
  | nil => simp
  | cons d cs ih =>
    have := ih d
    simp only [List.map_cons, List.cons_append] at this ⊢
    rw [List.intercalate_cons_cons, this, List.intercalate_cons_cons, List.append_assoc _ _ (_ ++ c'.sql)]

theorem whereText_eq_nil_iff {conds : List Bytes} : whereText conds = [] ↔ conds = [] := by
  constructor
  . intro h
    by_contra hne
    rw [whereText, if_neg hne] at h
    exact absurd (List.append_eq_nil_iff.mp h).1 (by decide)
  . rintro rfl
    rfl

theorem whereText_ne_nil (c : Cond) (cs : List Cond) : whereText ((c :: cs).map Cond.sql) ≠ [] :=
  fun h => List.cons_ne_nil _ _ (whereText_eq_nil_iff.mp h)

theorem whereText_concat (cs : List Cond) (c : Cond)
    : (if whereText (cs.map Cond.sql) = [] then
        ascii " WHERE " ++ c.sql
      else
        whereText (cs.map Cond.sql) ++ (ascii " AND " ++ c.sql))
      = whereText ((cs ++ [c]).map Cond.sql) := by
  cases cs with
  | nil =>
    rw [if_pos (whereText_eq_nil_iff.mpr List.map_nil), List.nil_append, whereText_cons,
      List.map_singleton, List.intercalate_singleton]
  | cons d cs =>
    rw [if_neg (whereText_ne_nil d cs), List.cons_append, whereText_cons, whereText_cons, intercalate_concat,
      List.append_assoc]

theorem group_plain (by' : GroupBy) : Plain (groupColumn by') := by
  cases by' <;> exact plain_ascii (by decide)

theorem group_no_dollar (by' : GroupBy) : dollar ∉ groupColumn by' :=
  (group_plain by').no_dollar

theorem countStatement_matched (f : MeasurementFilter)
    : f.countStatement.Matched (conjunctSlots f.conjuncts) := by
  have hhead : dollar ∉ ascii "SELECT count(*) FROM measurements" := by
    rw [ascii_ofList]
    decide
  have h := matched_text f.conjuncts hhead plain_nil
  rw [List.append_nil] at h
  unfold MeasurementFilter.countStatement
  rw [whereSql_eq]
  exact h

theorem aggregatesStatement_matched (f : MeasurementFilter) (by' : GroupBy)
    : (f.aggregatesStatement by').Matched (conjunctSlots f.conjuncts) := by
  unfold MeasurementFilter.aggregatesStatement
  rw [whereSql_eq]
  dsimp only [List.nil_append, List.length_nil]
  apply matched_text
  . simp only [ascii_append, List.mem_append, not_or, group_no_dollar, not_false_eq_true, and_true]
    and_intros <;> (rw [ascii_ofList]; decide)
  . have hgroup := group_plain by'
    exact (((plain_ascii (by decide)).append hgroup).append (plain_ascii (by decide))).append hgroup

theorem trialsStatement_matched (f : MeasurementFilter)
    : f.trialsStatement.Matched
        (conjunctSlots f.conjuncts
          ++ [(.limit, .value (.int (if f.limit ≤ 0 then 10000 else f.limit)))]) := by
  unfold MeasurementFilter.trialsStatement
  rw [whereSql_eq]
  dsimp only [List.nil_append, List.length_nil]
  apply matched_limit _ _ (ascii "\n\t\tORDER BY recorded_at, trial LIMIT ")
  . rw [ascii_ofList]
    decide
  . exact plain_ascii (by decide)
  . exact ⟨ascii "\n\t\tORDER BY recorded_at, trial", by decide⟩
  . decide

theorem addCursor_eq (f : MeasurementFilter) (ps : List Conjunct)
    : f.addCursor (values ps) (whereText ((number 1 ps).map Cond.sql))
      = (values (ps ++ f.cursorConjunct),
          whereText ((number 1 (ps ++ f.cursorConjunct)).map Cond.sql)) := by
  unfold MeasurementFilter.addCursor MeasurementFilter.cursorConjunct
  split
  . have hlen : (values ps ++ [QueryArg.value (.int f.cursor)]).length = ps.length + 1 := by
      rw [List.length_append, values, List.length_map]
      rfl
    have hwhere := whereText_concat (number 1 ps) ⟨.id, .greater, 1 + ps.length⟩
    have hfirst : ascii " WHERE id > $" = ascii " WHERE " ++ (ascii "id" ++ ascii " > " ++ [dollar]) := by
      decide
    have hnext : ascii " AND id > $" = ascii " AND " ++ (ascii "id" ++ ascii " > " ++ [dollar]) := by
      decide
    have hsql : Cond.sql ⟨.id, .greater, 1 + ps.length⟩
        = ascii "id" ++ ascii " > " ++ [dollar] ++ formatInt (ps.length + 1 : Nat) := by
      rw [Nat.add_comm]
      simp [Cond.sql, Cond.lead, Column.name, Comparison.sql]
    have hvalues : values (ps ++ [(.id, .greater, .int f.cursor)])
        = values ps ++ [.value (.int f.cursor)] := List.map_append
    rw [number_append, hvalues]
    rw [hsql] at hwhere
    dsimp only
    rw [hlen, hfirst, hnext, List.append_assoc (ascii " WHERE "), List.append_assoc (ascii " AND ")]
    split
    . next hnil =>
      rw [if_pos hnil] at hwhere
      exact Prod.ext rfl hwhere
    . next hne =>
      rw [if_neg hne] at hwhere
      exact Prod.ext rfl hwhere
  . rw [List.append_nil]

theorem listStatement_eq (f : MeasurementFilter)
    : f.listStatement
      = { sql := ascii ("SELECT id, run_id, machine_id, workload, metric, thread_count, working_set_bytes,\n"
            ++ "\t               trial, value, unit, recorded_at, duration_ns, params\n"
            ++ "\t        FROM measurements")
            ++ whereText (f.listQuery.conds.map Cond.sql)
            ++ (ascii " ORDER BY id LIMIT $" ++ formatInt f.listQuery.limit)
          args := f.listQuery.args.map .value } := by
  rw [MeasurementFilter.listStatement, whereSql_eq, listQuery_eq]
  dsimp only [List.nil_append, List.length_nil]
  rw [addCursor_eq, List.length_append, List.map_append, List.map_map, values, List.length_map]
  rfl

theorem listStatement_matched (f : MeasurementFilter)
    : f.listStatement.Matched
        (conjunctSlots (f.conjuncts ++ f.cursorConjunct)
          ++ [(.limit, .value (.int (if f.limit ≤ 0 then 100 else f.limit)))]) := by
  unfold MeasurementFilter.listStatement
  rw [whereSql_eq]
  dsimp only [List.nil_append, List.length_nil]
  rw [addCursor_eq]
  apply matched_limit _ _ (ascii " ORDER BY id LIMIT ")
  . simp only [ascii_append, List.mem_append, not_or]
    and_intros <;> (rw [ascii_ofList]; decide)
  . exact plain_ascii (by decide)
  . exact ⟨ascii " ORDER BY id", by decide⟩
  . decide

theorem append_render_leads (before before' : Bytes) (c : Cond) (cs : List Cond) (tail : Bytes)
    : before ++ render (leads before' (c :: cs)) tail = render (leads (before ++ before') (c :: cs)) tail := by
  simp only [leads, render, List.append_assoc]

theorem render_nil_append (ps : List (Bytes × Nat)) (tail : Bytes)
    : render ps [] ++ tail = render ps tail := by
  induction ps with
  | nil => rfl
  | cons p ps ih =>
    obtain ⟨lead, k⟩ := p
    rw [render, render, ← ih]
    simp

theorem shiftPlaceholders_drop {p : Conjunct} {ps : List Conjunct} (h : ps.length < 6)
    : shiftPlaceholders
        ((whereText ((number 1 (p :: ps)).map Cond.sql)).drop (ascii " WHERE ").length) (1 : Nat)
      = render (leads [] (number 2 (p :: ps))) [] := by
  have hrender := intercalate_append [] ⟨p.1, p.2.1, 1⟩ (number 2 ps) []
  rw [List.nil_append, List.append_nil] at hrender
  have hlen : (p :: ps).length + 1 < 2 ^ 63 := by
    rw [List.length_cons]
    omega
  rw [number, whereText_cons, List.drop_left, hrender]
  exact shiftPlaceholders_leads plain_nil hlen

theorem follow_compare {head tail : Bytes} (ids : List Bytes) (ps : List Conjunct) (hhead : dollar ∉ head)
    (htail : Plain tail)
    : Follow 1
        (slots (head ++ render ((ascii " WHERE m.machine_id = ANY(", 1) :: leads (ascii ") AND ") (number 2 ps))
          tail))
        ((.machines, .machines ids) :: conjunctSlots ps) := by
  have hmachines : Slot.machines.sql <:+ ascii " WHERE m.machine_id = ANY(" :=
    ⟨ascii " WHERE", by decide⟩
  rw [slots_append hhead, slots_render _ htail]
  . apply Follow.modifyHead
    exact .cons hmachines (.leads ⟨ascii ") AND", by decide⟩ ps)
  . rw [List.forall_mem_cons]
    exact ⟨plain_ascii (by decide), leads_plain (plain_ascii (by decide)) _⟩

theorem machineConditions_args (ids : List Bytes) (ps : List Conjunct)
    : (machineConditions ids (values ps) (whereText ((number 1 ps).map Cond.sql))).1
      = .machines ids :: values ps := by
  cases ps with
  | nil => rfl
  | cons p ps =>
    rw [machineConditions, number, if_pos (whereText_ne_nil _ _)]
    rfl

theorem machineConditions_append (ids : List Bytes) {ps : List Conjunct} (h : ps.length ≤ 6) (tail : Bytes)
    : (machineConditions ids (values ps) (whereText ((number 1 ps).map Cond.sql))).2 ++ tail
      = render ((ascii " WHERE m.machine_id = ANY(", 1) :: leads (ascii ") AND ") (number 2 ps))
          (if ps = [] then ascii ")" ++ tail else tail) := by
  have hfirst : ascii " WHERE m.machine_id = ANY($1)"
      = ascii " WHERE m.machine_id = ANY(" ++ dollar :: (formatInt (1 : Nat) ++ ascii ")") := by
    decide
  cases ps with
  | nil =>
    have hcond : (machineConditions ids (values []) (whereText ((number 1 []).map Cond.sql))).2
        = ascii " WHERE m.machine_id = ANY($1)" := rfl
    rw [hcond, hfirst, if_pos rfl]
    simp [number, leads, render]
  | cons p ps =>
    have hlt : ps.length < 6 := h
    have hcond : (machineConditions ids (values (p :: ps)) (whereText ((number 1 (p :: ps)).map Cond.sql))).2
        = ascii " WHERE m.machine_id = ANY($1)"
          ++ (ascii " AND " ++ render (leads [] (number 2 (p :: ps))) []) := by
      rw [← shiftPlaceholders_drop hlt, machineConditions, number, if_pos (whereText_ne_nil _ _)]
      rfl
    have hand : ascii ")" ++ ascii " AND " = ascii ") AND " := by decide
    rw [hcond, hfirst, if_neg (List.cons_ne_nil p ps)]
    simp [number, append_render_leads, render, render_nil_append, ← hand]

theorem compareStatement_matched (f : MeasurementFilter) (machineIDs : List Bytes) (by' : GroupBy)
    : (f.compareStatement machineIDs by').Matched
        ((.machines, .machines machineIDs)
          :: conjunctSlots ({ f with machineID := [] } : MeasurementFilter).conjuncts) := by
  unfold MeasurementFilter.compareStatement
  rw [whereSql_eq]
  dsimp only [List.nil_append, List.length_nil]
  apply Follow.matched
  . rw [List.append_assoc, machineConditions_append _ (conjuncts_length _)]
    apply follow_compare
    . simp only [ascii_append, List.mem_append, not_or, group_no_dollar, not_false_eq_true, and_true]
      and_intros <;> (rw [ascii_ofList]; decide)
    . have htail : Plain (ascii "\n\t\tGROUP BY m.machine_id, " ++ (ascii "m." ++ groupColumn by')
          ++ ascii "\n\t\tORDER BY " ++ (ascii "m." ++ groupColumn by')) := by
        have hcolumn : Plain (ascii "m." ++ groupColumn by') :=
          Plain.append (plain_ascii (by decide)) (group_plain by')
        exact (((plain_ascii (by decide)).append hcolumn).append (plain_ascii (by decide))).append hcolumn
      split
      . exact Plain.append (plain_ascii (by decide)) htail
      . exact htail
  . rw [machineConditions_args, List.map_cons, conjunctSlots_args]

theorem follow_whereSql (f : MeasurementFilter) (before : List QueryArg)
    : Follow (before.length + 1) (slots (f.whereSql before).2) (conjunctSlots f.conjuncts) := by
  have hrender := whereText_append (number (before.length + 1) f.conjuncts) []
  rw [List.append_nil] at hrender
  rw [whereSql_eq, hrender, slots_render (leads_plain (plain_ascii (by decide)) _) plain_nil]
  exact .leads ⟨ascii " WHERE", by decide⟩ f.conjuncts

/--
In every statement of the read endpoints the placeholders are 1 to the number of arguments, each once,
and each is the position of the value that its column is compared with. A condition that is built after
other arguments goes on from their number, which is also what shifting the numbers of a condition
built on its own gives, and the shift changes nothing else in any text.
-/
theorem MeasurementFilter.placeholders_match (f : MeasurementFilter)
    : (∀ before : List QueryArg,
        (f.whereSql before).1 = before ++ values f.conjuncts
        ∧ placeholders (f.whereSql before).2 = List.range' (before.length + 1) f.conjuncts.length
        ∧ List.Forall₂ (Slot.Reads (f.whereSql before).1) (slots (f.whereSql before).2)
          (conjunctSlots f.conjuncts)
        ∧ (before.length + 6 < 2 ^ 63 →
          shiftPlaceholders (f.whereSql []).2 before.length = (f.whereSql before).2))
      ∧ f.listStatement.Matched
        (conjunctSlots (f.conjuncts ++ f.cursorConjunct)
          ++ [(.limit, .value (.int (if f.limit ≤ 0 then 100 else f.limit)))])
      ∧ f.trialsStatement.Matched
        (conjunctSlots f.conjuncts ++ [(.limit, .value (.int (if f.limit ≤ 0 then 10000 else f.limit)))])
      ∧ f.countStatement.Matched (conjunctSlots f.conjuncts)
      ∧ (∀ by', (f.aggregatesStatement by').Matched (conjunctSlots f.conjuncts))
      ∧ (∀ machineIDs by',
        (f.compareStatement machineIDs by').Matched
          ((.machines, .machines machineIDs)
            :: conjunctSlots ({ f with machineID := [] } : MeasurementFilter).conjuncts))
      ∧ ∀ (text : Bytes) (n : Nat), (∀ k ∈ placeholders text, k + n < 2 ^ 63) →
        tokens (shiftPlaceholders text n) = (tokens text).map (Token.shift n) := by
  refine ⟨fun before => ?_, listStatement_matched f, trialsStatement_matched f,
    countStatement_matched f, aggregatesStatement_matched f, compareStatement_matched f,
    fun _ _ => tokens_shiftPlaceholders⟩
  have hargs : (f.whereSql before).1 = before ++ values f.conjuncts := by
    rw [whereSql_eq]
  have hfollow := follow_whereSql f before
  refine ⟨hargs, ?_, ?_, shiftPlaceholders_whereSql f before⟩
  . rw [placeholders, hfollow.numbers, length_conjunctSlots]
  . have hreads := hfollow.reads rfl []
    rwa [List.append_nil, conjunctSlots_args, ← hargs] at hreads

def everyFilter : MeasurementFilter where
  machineID := ascii "m"
  runID := ascii "r"
  workload := ascii "mem"
  metric := ascii "latency_ns"
  threadCount := some 4
  workingSetBytes := some 0
  limit := 20
  cursor := 7

theorem everyFilter_placeholders_match
    : placeholders everyFilter.listStatement.sql = [1, 2, 3, 4, 5, 6, 7, 8]
      ∧ shiftPlaceholders (everyFilter.whereSql []).2 5
        = (everyFilter.whereSql (List.replicate 5 (.value (.int 0)))).2
      ∧ tokens (shiftPlaceholders (ascii "a = $9 AND b = $12") 3)
        = (tokens (ascii "a = $9 AND b = $12")).map (Token.shift 3) := by
  obtain ⟨hwhere, hlist, _, _, _, _, hshift⟩ := everyFilter.placeholders_match
  exact ⟨hlist.numbers, (hwhere (List.replicate 5 (.value (.int 0)))).2.2.2 (by decide +kernel),
    hshift _ 3 (by decide +kernel)⟩

end Store
end Api
