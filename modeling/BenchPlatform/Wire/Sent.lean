import BenchPlatform.Wire.Dump

/-!
This module proves what the API reads in the documents that the engine writes: the run that was
written, with 0 for a number that is not finite, unless an unsigned number is too large for it.
-/

namespace Api
namespace Json

open Program

variable {σ α : Type} {fields : List (Field σ)} {s t u : σ} {key : String} {v : Json}
  {members members' : List (String × Json)} {P Q : Prop}

/--
The members can be decoded one after the other if `P` holds, and lead from the one state to the other.
-/
inductive Writes (fields : List (Field σ)) : σ → List (String × Json) → Prop → σ → Prop where
  | nil {s : σ} : Writes fields s [] True s
  | cons {s t u : σ} {member : String × Json} {members : List (String × Json)} {P Q : Prop}
      (hmember : ∀ t', decodeMember fields s member = .ok t' ↔ P ∧ t' = t) (hrest : Writes fields t members Q u)
      : Writes fields s (member :: members) (P ∧ Q) u

theorem Writes.foldlM_eq_ok (h : Writes fields s members P t) {t' : σ}
    : members.foldlM (decodeMember fields) s = .ok t' ↔ P ∧ t' = t := by
  induction h generalizing t' with
  | nil =>
    rw [List.foldlM_nil, true_and]
    exact ⟨fun h => (Except.ok.inj h).symm, fun h => congrArg _ h.symm⟩
  | cons hmember _ ih =>
    rw [List.foldlM_cons, except_bind_eq_ok]
    constructor
    . rintro ⟨s', hs', hrest⟩
      obtain ⟨hP, rfl⟩ := (hmember s').mp hs'
      obtain ⟨hQ, ht'⟩ := ih.mp hrest
      exact ⟨⟨hP, hQ⟩, ht'⟩
    . rintro ⟨⟨hP, hQ⟩, ht'⟩
      exact ⟨_, (hmember _).mpr ⟨hP, rfl⟩, ih.mpr ⟨hQ, ht'⟩⟩

theorem Writes.field {put : σ → α → σ} {get : σ → α} {decode : Json → α → Except GoError α} {x : α}
    (hlookup : lookup fields key = some (Json.field key get put decode))
    (hdecode : ∀ y, decode v (get s) = .ok y ↔ P ∧ y = x) (hrest : Writes fields (put s x) members Q u)
    : Writes fields s ((key, v) :: members) (P ∧ Q) u := by
  refine .cons (fun t' => ?_) hrest
  rw [decodeMember_eq hlookup]
  refine except_mapError_eq_ok.trans (except_map_eq_ok.trans ?_)
  constructor
  . rintro ⟨y, hy, rfl⟩
    obtain ⟨hP, rfl⟩ := (hdecode y).mp hy
    exact ⟨hP, rfl⟩
  . rintro ⟨hP, rfl⟩
    exact ⟨x, (hdecode x).mpr ⟨hP, rfl⟩, rfl⟩

def IsInt64 (i : Int) : Prop :=
  -2 ^ 63 ≤ i ∧ i < 2 ^ 63

theorem decodeString_str {x old : String} (y : String)
    : decodeString (.str x) old = .ok y ↔ True ∧ y = x := by
  rw [true_and]
  exact ⟨fun h => (Except.ok.inj h).symm, fun h => congrArg _ h.symm⟩

theorem decodeInt_literal {type : String} {i old : Int} (y : Int)
    : decodeInt type (.num (literal i)) old = .ok y ↔ IsInt64 i ∧ y = i := by
  unfold decodeInt
  dsimp only
  rw [parseInt64_literal]
  by_cases hi : -2 ^ 63 ≤ i ∧ i < 2 ^ 63
  . rw [if_pos hi]
    exact ⟨fun h => ⟨hi, (Except.ok.inj h).symm⟩, fun h => congrArg _ h.2.symm⟩
  . rw [if_neg hi]
    constructor
    . intro h
      cases h
    . intro h
      exact absurd h.1 hi

end Json
end Api

namespace Bench

open Api Json Program

variable {format_double : Float64 → String}

/--
What a `double` holds: a finite value in its only form, or none.
-/
def IsDouble : Float64 → Prop
  | .finite neg mant exp => (Float64.finite neg mant exp).Finite
  | _ => True

/--
What becomes of a number that is written as `null`.
-/
def received : Float64 → Float64
  | .finite neg mant exp => .finite neg mant exp
  | _ => Model.float0

theorem decodeFloat_dump (htext : ReadsBack format_double) {x : Float64} (hx : IsDouble x) (y : Float64)
    : decodeFloat (dump_double format_double x) Model.float0 = .ok y ↔ True ∧ y = received x := by
  have hok : decodeFloat (dump_double format_double x) Model.float0 = .ok (received x) := by
    cases x with
    | finite neg mant exp =>
      unfold dump_double
      dsimp only
      unfold decodeFloat
      dsimp only
      rw [htext (.finite neg mant exp) hx]
      rfl
    | inf neg => rfl
    | nan => rfl
  rw [hok, true_and]
  exact ⟨fun h => (Except.ok.inj h).symm, fun h => congrArg _ h.symm⟩

def MachineInfo.sent (m : MachineInfo) : Model.Machine where
  id := m.id
  hostname := m.hostname
  cpuModel := m.cpu_model
  physicalCores := m.physical_cores
  logicalCPUs := m.logical_cpus
  l1dKB := m.l1d_kb
  l2KB := m.l2_kb
  l3KB := m.l3_kb
  memoryBytes := m.memory_bytes
  os := m.os
  kernel := m.kernel
  compiler := m.compiler
  compilerFlags := m.compiler_flags
  engineVersion := m.engine_version
  engineGitSHA := m.engine_git_sha
  virtualized := m.virtualized

def Result.sent (format_double : Float64 → String) (number : Float64 → Float64) (r : Result Float64)
    : Model.Result where
  workload := r.workload.to_string
  threadCount := r.thread_count
  workingSetBytes := r.working_set_bytes
  metric := r.metric.to_string
  value := number r.value
  unit := (unit_of r.metric).to_string
  trial := r.trial
  timestamp := r.timestamp
  durationNs := r.duration_ns
  params := some (r.params.dump format_double)

def Summary.sent (number : Float64 → Float64) (s : Summary Float64) : Model.Summary where
  workload := s.workload.to_string
  metric := s.metric.to_string
  threadCount := s.thread_count
  workingSetBytes := s.working_set_bytes
  n := s.n
  mean := number s.mean
  median := number s.median
  stddev := number s.stddev
  cov := number s.cov
  min := number s.min
  p5 := number s.p5
  p95 := number s.p95
  max := number s.max
  mad := number s.mad
  lateTrials := s.late_trials
  canaryAttempts := s.canary_attempts
  clockCallNsStart := number s.clock_call_ns_start
  clockCallNsEnd := number s.clock_call_ns_end

def RunEnvelope.sent (number : Float64 → Float64) (run : RunEnvelope Float64) : Model.RunEnvelope where
  schemaVersion := run.schema_version
  runID := run.run_id
  startedAt := run.started_at
  finishedAt := run.finished_at
  machine := run.machine.sent
  argv := some run.argv
  results := none
  summary := some (run.summary.map (Summary.sent number))

def Summary.doubles (s : Summary Float64) : List Float64 :=
  [s.mean, s.median, s.stddev, s.cov, s.min, s.p5, s.p95, s.max, s.mad, s.clock_call_ns_start,
    s.clock_call_ns_end]

def RunEnvelope.doubles (run : RunEnvelope Float64) : List Float64 :=
  run.results.map Result.value ++ run.summary.flatMap Summary.doubles

theorem isInt64_of_isInt {i : Int} (h : IsInt i) : IsInt64 i := by
  obtain ⟨hlow, hhigh⟩ := h
  constructor
  . omega
  . omega

theorem isInt64_natCast {n : Nat} : IsInt64 n ↔ n < 2 ^ 63 := by
  unfold IsInt64
  omega

theorem decodeRaw_eq_ok {v : Json} {old : Option Json} (y : Option Json)
    : decodeRaw v old = .ok y ↔ True ∧ y = some v := by
  rw [true_and]
  exact ⟨fun h => (Except.ok.inj h).symm, fun h => congrArg _ h.symm⟩

section

attribute [local simp] json.dump dump_members dump_elems_eq sort_keys List.insertionSort List.orderedInsert

theorem dump_machine (m : MachineInfo)
    : (m.to_json (D := Float64)).dump format_double = .obj
      [("compiler", .str m.compiler),
        ("compiler_flags", .str m.compiler_flags),
        ("cpu_model", .str m.cpu_model),
        ("engine_git_sha", .str m.engine_git_sha),
        ("engine_version", .str m.engine_version),
        ("hostname", .str m.hostname),
        ("id", .str m.id),
        ("kernel", .str m.kernel),
        ("l1d_kb", .num (literal m.l1d_kb)),
        ("l2_kb", .num (literal m.l2_kb)),
        ("l3_kb", .num (literal m.l3_kb)),
        ("logical_cpus", .num (literal m.logical_cpus)),
        ("memory_bytes", .num (literal m.memory_bytes)),
        ("os", .str m.os),
        ("physical_cores", .num (literal m.physical_cores)),
        ("virtualized", .str m.virtualized)] := by
  simp [MachineInfo.to_json]

theorem dump_result (r : Result Float64)
    : r.to_json.dump format_double = .obj
      [("duration_ns", .num (literal r.duration_ns)),
        ("metric", .str r.metric.to_string),
        ("params", r.params.dump format_double),
        ("thread_count", .num (literal r.thread_count)),
        ("timestamp", .str r.timestamp),
        ("trial", .num (literal r.trial)),
        ("unit", .str (unit_of r.metric).to_string),
        ("value", dump_double format_double r.value),
        ("working_set_bytes", .num (literal r.working_set_bytes)),
        ("workload", .str r.workload.to_string)] := by
  simp [Result.to_json]

theorem dump_summary (s : Summary Float64)
    : s.to_json.dump format_double = .obj
      [("canary_attempts", .num (literal s.canary_attempts)),
        ("clock_call_ns_end", dump_double format_double s.clock_call_ns_end),
        ("clock_call_ns_start", dump_double format_double s.clock_call_ns_start),
        ("cov", dump_double format_double s.cov),
        ("late_trials", .num (literal s.late_trials)),
        ("mad", dump_double format_double s.mad),
        ("max", dump_double format_double s.max),
        ("mean", dump_double format_double s.mean),
        ("median", dump_double format_double s.median),
        ("metric", .str s.metric.to_string),
        ("min", dump_double format_double s.min),
        ("n", .num (literal s.n)),
        ("p5", dump_double format_double s.p5),
        ("p95", dump_double format_double s.p95),
        ("stddev", dump_double format_double s.stddev),
        ("thread_count", .num (literal s.thread_count)),
        ("working_set_bytes", .num (literal s.working_set_bytes)),
        ("workload", .str s.workload.to_string)] := by
  simp [Summary.to_json]

theorem dump_run (run : RunEnvelope Float64)
    : run.to_json.dump format_double = .obj
      [("argv", .arr (run.argv.map .str)),
        ("finished_at", .str run.finished_at),
        ("machine", (run.machine.to_json (D := Float64)).dump format_double),
        ("results", .arr (run.results.map fun r => r.to_json.dump format_double)),
        ("run_id", .str run.run_id),
        ("schema_version", .num (literal run.schema_version)),
        ("started_at", .str run.started_at),
        ("summary", .arr (run.summary.map fun s => s.to_json.dump format_double))] := by
  simp [RunEnvelope.to_json]

end

theorem decode_machine {m : MachineInfo} (hm : m.Fits) (y : Model.Machine)
    : Model.Machine.decode ((m.to_json (D := Float64)).dump format_double) .zero = .ok y
      ↔ m.memory_bytes < 2 ^ 63 ∧ y = m.sent := by
  rw [dump_machine]
  refine except_mapError_eq_ok.trans ?_
  refine (Writes.foldlM_eq_ok
    (.field rfl decodeString_str <| .field rfl decodeString_str <| .field rfl decodeString_str <|
      .field rfl decodeString_str <| .field rfl decodeString_str <| .field rfl decodeString_str <|
      .field rfl decodeString_str <| .field rfl decodeString_str <| .field rfl decodeInt_literal <|
      .field rfl decodeInt_literal <| .field rfl decodeInt_literal <| .field rfl decodeInt_literal <|
      .field rfl decodeInt_literal <| .field rfl decodeString_str <| .field rfl decodeInt_literal <|
      .field rfl decodeString_str .nil)).trans (and_congr ?_ Iff.rfl)
  simp only [isInt64_of_isInt hm.l1d_kb, isInt64_of_isInt hm.l2_kb, isInt64_of_isInt hm.l3_kb,
    isInt64_of_isInt hm.logical_cpus, isInt64_of_isInt hm.physical_cores, isInt64_natCast, true_and, and_true]

theorem decode_result (htext : ReadsBack format_double) {r : Result Float64} (hr : r.Fits)
    (hvalue : IsDouble r.value) (y : Model.Result)
    : Model.Result.decode (r.to_json.dump format_double) .zero = .ok y
      ↔ (r.duration_ns < 2 ^ 63 ∧ r.working_set_bytes < 2 ^ 63) ∧ y = r.sent format_double received := by
  rw [dump_result]
  refine except_mapError_eq_ok.trans ?_
  refine (Writes.foldlM_eq_ok
    (.field rfl decodeInt_literal <| .field rfl decodeString_str <| .field rfl decodeRaw_eq_ok <|
      .field rfl decodeInt_literal <| .field rfl decodeString_str <| .field rfl decodeInt_literal <|
      .field rfl decodeString_str <| .field rfl (decodeFloat_dump htext hvalue) <|
      .field rfl decodeInt_literal <| .field rfl decodeString_str .nil)).trans (and_congr ?_ Iff.rfl)
  simp only [isInt64_of_isInt hr.thread_count, isInt64_of_isInt hr.trial, isInt64_natCast, true_and, and_true]

theorem decode_summary (htext : ReadsBack format_double) {s : Summary Float64} (hs : s.Fits)
    (hdoubles : ∀ x ∈ s.doubles, IsDouble x) (y : Model.Summary)
    : Model.Summary.decode (s.to_json.dump format_double) .zero = .ok y
      ↔ s.working_set_bytes < 2 ^ 63 ∧ y = s.sent received := by
  rw [dump_summary]
  simp only [Summary.doubles, List.forall_mem_cons] at hdoubles
  obtain ⟨hmean, hmedian, hstddev, hcov, hmin, hp5, hp95, hmax, hmad, hstart, hend, _⟩ := hdoubles
  refine except_mapError_eq_ok.trans ?_
  refine (Writes.foldlM_eq_ok
    (.field rfl decodeInt_literal <| .field rfl (decodeFloat_dump htext hend) <|
      .field rfl (decodeFloat_dump htext hstart) <| .field rfl (decodeFloat_dump htext hcov) <|
      .field rfl decodeInt_literal <| .field rfl (decodeFloat_dump htext hmad) <|
      .field rfl (decodeFloat_dump htext hmax) <| .field rfl (decodeFloat_dump htext hmean) <|
      .field rfl (decodeFloat_dump htext hmedian) <| .field rfl decodeString_str <|
      .field rfl (decodeFloat_dump htext hmin) <| .field rfl decodeInt_literal <|
      .field rfl (decodeFloat_dump htext hp5) <| .field rfl (decodeFloat_dump htext hp95) <|
      .field rfl (decodeFloat_dump htext hstddev) <| .field rfl decodeInt_literal <|
      .field rfl decodeInt_literal <| .field rfl decodeString_str .nil)).trans (and_congr ?_ Iff.rfl)
  simp only [isInt64_of_isInt hs.thread_count, isInt64_of_isInt hs.n, isInt64_of_isInt hs.late_trials,
    isInt64_of_isInt hs.canary_attempts, isInt64_natCast, true_and, and_true]

theorem mapM_eq_ok_iff {ε α β γ : Type} {f : β → Except ε γ} {g : α → β} {h : α → γ} {P : α → Prop} {l : List α}
    (hf : ∀ a ∈ l, ∀ y, f (g a) = .ok y ↔ P a ∧ y = h a) (ys : List γ)
    : (l.map g).mapM f = .ok ys ↔ (∀ a ∈ l, P a) ∧ ys = l.map h := by
  induction l generalizing ys with
  | nil =>
    rw [List.map_nil, List.mapM_nil, List.map_nil]
    exact ⟨fun h => ⟨fun _ ha => absurd ha List.not_mem_nil, (Except.ok.inj h).symm⟩, fun h => congrArg _ h.2.symm⟩
  | cons a l ih =>
    have ha := hf a List.mem_cons_self
    have hl := ih fun b hb => hf b (List.mem_cons_of_mem a hb)
    rw [List.map_cons, List.mapM_cons, List.map_cons, List.forall_mem_cons, except_bind_eq_ok]
    constructor
    . rintro ⟨y, hy, hrest⟩
      obtain ⟨zs, hzs, hys⟩ := except_bind_eq_ok.mp hrest
      obtain ⟨hP, rfl⟩ := (ha y).mp hy
      obtain ⟨hall, rfl⟩ := (hl zs).mp hzs
      exact ⟨⟨hP, hall⟩, (Except.ok.inj hys).symm⟩
    . rintro ⟨⟨hP, hall⟩, rfl⟩
      exact ⟨_, (ha _).mpr ⟨hP, rfl⟩, except_bind_eq_ok.mpr ⟨_, (hl _).mpr ⟨hall, rfl⟩, rfl⟩⟩

theorem decodeSlice_eq_ok {α β : Type} {type : String} {decode : Json → β → Except GoError β} {zero : β}
    {g : α → Json} {h : α → β} {P : α → Prop} {l : List α}
    (hdecode : ∀ a ∈ l, ∀ y, decode (g a) zero = .ok y ↔ P a ∧ y = h a) (y : Option (List β))
    : decodeSlice type decode zero (.arr (l.map g)) none = .ok y ↔ (∀ a ∈ l, P a) ∧ y = some (l.map h) := by
  change some <$> decodeElems decode zero (l.map g) [] = _ ↔ _
  rw [decodeElems_nil, except_map_eq_ok]
  constructor
  . rintro ⟨ys, hys, rfl⟩
    obtain ⟨hall, rfl⟩ := (mapM_eq_ok_iff hdecode ys).mp hys
    exact ⟨hall, rfl⟩
  . rintro ⟨hall, rfl⟩
    exact ⟨_, (mapM_eq_ok_iff hdecode _).mpr ⟨hall, rfl⟩, rfl⟩

namespace RunEnvelope

/--
The unsigned numbers that the API reads into signed ones fit.
-/
structure InInt64 (run : RunEnvelope Float64) : Prop where
  memory_bytes : run.machine.memory_bytes < 2 ^ 63
  results : ∀ r ∈ run.results, r.duration_ns < 2 ^ 63 ∧ r.working_set_bytes < 2 ^ 63
  summary : ∀ s ∈ run.summary, s.working_set_bytes < 2 ^ 63

def wire (format_double : Float64 → String) (run : RunEnvelope Float64) : Model.Layout where
  before :=
    [("argv", .arr (run.argv.map .str)),
      ("finished_at", .str run.finished_at),
      ("machine", (run.machine.to_json (D := Float64)).dump format_double)]
  elems := run.results.map fun r => r.to_json.dump format_double
  after :=
    [("run_id", .str run.run_id),
      ("schema_version", .num (literal run.schema_version)),
      ("started_at", .str run.started_at),
      ("summary", .arr (run.summary.map fun s => s.to_json.dump format_double))]
  known := by
    simp only [List.cons_append, List.nil_append, List.forall_mem_cons]
    decide
  unrepeated := by
    change ["argv", "finished_at", "machine", "run_id", "schema_version", "started_at", "summary"].Nodup
    decide

theorem dump_wire (run : RunEnvelope Float64)
    : run.to_json.dump format_double = .obj (run.wire format_double).members :=
  dump_run run

def first (run : RunEnvelope Float64) : Model.RunEnvelope :=
  { Model.RunEnvelope.zero with
    argv := some run.argv
    finishedAt := run.finished_at
    machine := run.machine.sent }

variable {run : RunEnvelope Float64}

theorem decode_before (hfits : run.Fits) (y : Model.RunEnvelope)
    : Model.RunEnvelope.decodeHeader (run.wire format_double).before .zero = .ok y
      ↔ run.machine.memory_bytes < 2 ^ 63 ∧ y = run.first := by
  have hargv : ∀ s ∈ run.argv, ∀ y, decodeString (.str s) "" = .ok y ↔ True ∧ y = id s :=
    fun s _ => decodeString_str
  have hwrites : Writes Model.RunEnvelope.fields .zero (run.wire format_double).before _ _ :=
    .field rfl (decodeSlice_eq_ok hargv) <| .field rfl decodeString_str <| by
      apply Writes.field rfl
      . intro y
        exact decode_machine hfits.machine y
      . exact .nil
  refine hwrites.foldlM_eq_ok.trans ?_
  simp only [true_and, and_true, implies_true, List.map_id]
  rfl

theorem decode_after (htext : ReadsBack format_double) (hfits : run.Fits)
    (hdoubles : ∀ x ∈ run.doubles, IsDouble x) (y : Model.RunEnvelope)
    : Model.RunEnvelope.decodeHeader (run.wire format_double).after run.first = .ok y
      ↔ (∀ s ∈ run.summary, s.working_set_bytes < 2 ^ 63) ∧ y = run.sent received := by
  have hsummary : ∀ s ∈ run.summary, ∀ y,
      Model.Summary.decode (s.to_json.dump format_double) .zero = .ok y
        ↔ s.working_set_bytes < 2 ^ 63 ∧ y = s.sent received := by
    intro s hs
    apply decode_summary htext (hfits.summary s hs)
    intro x hx
    exact hdoubles x (List.mem_append_right _ (List.mem_flatMap.mpr ⟨s, hs, hx⟩))
  have hversion : IsInt64 run.schema_version := by
    rw [hfits.schema_version]
    exact ⟨by decide, by decide⟩
  unfold wire Model.RunEnvelope.decodeHeader
  dsimp only
  refine (Writes.foldlM_eq_ok
    (.field rfl decodeString_str <| .field rfl decodeInt_literal <| .field rfl decodeString_str <|
      .field rfl (decodeSlice_eq_ok hsummary) .nil)).trans ?_
  simp only [hversion, true_and, and_true]
  rfl

theorem decode_results (htext : ReadsBack format_double) (hfits : run.Fits)
    (hdoubles : ∀ x ∈ run.doubles, IsDouble x) (ys : List Model.Result)
    : (run.wire format_double).elems.mapM (Model.Result.decode · .zero) = .ok ys
      ↔ (∀ r ∈ run.results, r.duration_ns < 2 ^ 63 ∧ r.working_set_bytes < 2 ^ 63)
        ∧ ys = run.results.map (Result.sent format_double received) := by
  apply mapM_eq_ok_iff
  intro r hr
  apply decode_result htext (hfits.results r hr)
  exact hdoubles _ (List.mem_append_left _ (List.mem_map_of_mem hr))

theorem wire_decodes (htext : ReadsBack format_double) (hfits : run.Fits)
    (hdoubles : ∀ x ∈ run.doubles, IsDouble x) {f env : Model.RunEnvelope} {rs : List Model.Result}
    : (run.wire format_double).Decodes f env rs
      ↔ run.InInt64 ∧ f = run.first ∧ env = run.sent received
        ∧ rs = run.results.map (Result.sent format_double received) := by
  constructor
  . rintro ⟨hbefore, hresults, hafter⟩
    obtain ⟨hmemory, rfl⟩ := (decode_before hfits f).mp hbefore
    obtain ⟨hsummary, rfl⟩ := (decode_after htext hfits hdoubles env).mp hafter
    obtain ⟨hall, rfl⟩ := (decode_results htext hfits hdoubles rs).mp hresults
    exact ⟨⟨hmemory, hall, hsummary⟩, rfl, rfl, rfl⟩
  . rintro ⟨hint, rfl, rfl, rfl⟩
    exact ⟨(decode_before hfits _).mpr ⟨hint.memory_bytes, rfl⟩,
      (decode_results htext hfits hdoubles _).mpr ⟨hint.results, rfl⟩,
      (decode_after htext hfits hdoubles _).mpr ⟨hint.summary, rfl⟩⟩

def whole (format_double : Float64 → String) (number : Float64 → Float64) (run : RunEnvelope Float64)
    : Model.RunEnvelope :=
  (run.sent number).withResults (run.results.map (Result.sent format_double number))

theorem received_eq_iff {x : Float64} (hx : IsDouble x) : received x = x ↔ x.Finite := by
  cases x with
  | finite neg mant exp => exact iff_of_true rfl hx
  | inf neg =>
    refine iff_of_false ?_ id
    intro h
    cases h
  | nan =>
    refine iff_of_false ?_ id
    intro h
    cases h

theorem whole_received_iff
    : run.whole format_double received = run.whole format_double id ↔ ∀ x ∈ run.doubles, received x = x := by
  have hsent : ∀ r : Result Float64,
      r.sent format_double received = r.sent format_double id ↔ received r.value = r.value := by
    intro r
    simp [Result.sent]
  have hsummary : ∀ s : Summary Float64, s.sent received = s.sent id ↔ ∀ x ∈ s.doubles, received x = x := by
    intro s
    simp [Summary.sent, Summary.doubles]
  unfold whole sent Model.RunEnvelope.withResults doubles
  rw [List.forall_mem_append, List.forall_mem_map, List.forall_mem_flatMap]
  simp [hsent, hsummary]

/--
The API reads back the run that was written, unless an unsigned number does not fit into 63 bits, and
then it reads nothing. What it reads is what was measured exactly if every number is finite.
-/
theorem run_read_back (format_double : Float64 → String) (htext : ReadsBack format_double)
    (run : RunEnvelope Float64) (hfits : run.Fits) (hdoubles : ∀ x ∈ run.doubles, IsDouble x)
    : (∀ env, Model.RunEnvelope.decode (run.to_json.dump format_double) = .ok env
        ↔ run.InInt64 ∧ env = run.whole format_double received)
      ∧ (run.whole format_double received = run.whole format_double id ↔ ∀ x ∈ run.doubles, x.Finite) := by
  constructor
  . intro env
    rw [dump_wire, Model.Layout.decode_eq_ok]
    simp only [wire_decodes htext hfits hdoubles]
    constructor
    . rintro ⟨_, _, _, ⟨hint, rfl, rfl, rfl⟩, rfl⟩
      exact ⟨hint, rfl⟩
    . rintro ⟨hint, rfl⟩
      exact ⟨_, _, _, ⟨hint, rfl, rfl, rfl⟩, rfl⟩
  . rw [whole_received_iff]
    exact forall₂_congr fun x hx => received_eq_iff (hdoubles x hx)

end RunEnvelope

def sent_run : RunEnvelope Float64 where
  schema_version := 1
  run_id := sample_run.run_id
  started_at := sample_run.started_at
  finished_at := sample_run.finished_at
  machine := sample_run.machine
  argv := ["bench", "run"]
  results := [{
    workload := .cpu_int
    thread_count := 2
    working_set_bytes := 0
    metric := .cpu_int_ops
    value := .finite false (3 * 2 ^ 51) (-52)
    trial := 0
    timestamp := "2026-09-18T15:47:30.000000Z"
    duration_ns := 50000000
    params := .object [("cold", .string "none")]
  }]
  summary := [{
    workload := .cpu_int
    metric := .cpu_int_ops
    thread_count := 2
    working_set_bytes := 0
    n := 1
    mean := .finite false (3 * 2 ^ 51) (-52)
    median := .finite false (3 * 2 ^ 51) (-52)
    stddev := Model.float0
    cov := Model.float0
    min := .finite false (3 * 2 ^ 51) (-52)
    p5 := .finite false (3 * 2 ^ 51) (-52)
    p95 := .finite false (3 * 2 ^ 51) (-52)
    max := .finite false (3 * 2 ^ 51) (-52)
    mad := Model.float0
    late_trials := 0
    canary_attempts := 1
    clock_call_ns_start := Model.float0
    clock_call_ns_end := Model.float0
  }]

theorem sent_run_fits : sent_run.Fits where
  schema_version := rfl
  machine := sample_run_fits.machine
  results := by
    intro r hr
    rw [List.mem_singleton.mp hr]
    constructor <;> simp [IsInt, IsUint64]
  summary := by
    intro s hs
    rw [List.mem_singleton.mp hs]
    constructor <;> simp [IsInt, IsUint64]

theorem sent_run_finite : ∀ x ∈ sent_run.doubles, x.Finite := by
  decide

theorem isDouble_of_finite {x : Float64} (h : x.Finite) : IsDouble x := by
  cases x with
  | finite neg mant exp => exact h
  | inf neg => exact trivial
  | nan => exact trivial

theorem sent_run_doubles : ∀ x ∈ sent_run.doubles, IsDouble x :=
  fun x hx => isDouble_of_finite (sent_run_finite x hx)

theorem sent_run_inInt64 : sent_run.InInt64 where
  memory_bytes := by decide
  results := by
    intro r hr
    rw [List.mem_singleton.mp hr]
    exact ⟨by decide, by decide⟩
  summary := by
    intro s hs
    rw [List.mem_singleton.mp hs]
    decide

theorem run_read_back_sample
    : Model.RunEnvelope.decode (sent_run.to_json.dump Float64.exactLiteral)
      = .ok (sent_run.whole Float64.exactLiteral id) := by
  obtain ⟨hread, hexact⟩ :=
    RunEnvelope.run_read_back Float64.exactLiteral readsBack_exactLiteral sent_run sent_run_fits sent_run_doubles
  exact (hread _).mpr ⟨sent_run_inInt64, (hexact.mpr sent_run_finite).symm⟩

end Bench
