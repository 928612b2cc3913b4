import BenchPlatform.Engine.Result
import BenchPlatform.Lib.Program

/-!
This module contains how the engine writes a run as a document and how it reads a document back, and that
nothing is lost on the way.
-/

namespace Bench

/--
What an `int` can hold.
-/
def IsInt (i : Int) : Prop :=
  -2 ^ 31 ≤ i ∧ i < 2 ^ 31

/--
What a `std::uint64_t` can hold.
-/
def IsUint64 (n : Nat) : Prop :=
  n < 2 ^ 64

/--
The part of the JSON library that the engine calls: `get<T>` for the types that it asks for, the elements
that a range-for goes over and what `value` throws on a document that is no object. An error is what
`what()` says.
-/
structure JsonLib (D : Type) where
  get_int : json D → Except String Int
  get_uint64 : json D → Except String Nat
  get_double : json D → Except String D
  get_string : json D → Except String String
  get_strings : json D → Except String (List String)
  elems : json D → List (json D)
  no_value : json D → String

variable {D : Type} {lib : JsonLib D}

/--
What the library promises: `get<T>` returns a `T`, and the `T` that a document was made of.
-/
structure JsonLib.Documented (lib : JsonLib D) : Prop where
  isInt_of_get_int : ∀ {j i}, lib.get_int j = .ok i → IsInt i
  isUint64_of_get_uint64 : ∀ {j n}, lib.get_uint64 j = .ok n → IsUint64 n
  get_int : ∀ {i}, IsInt i → lib.get_int (.number_integer i) = .ok i
  get_uint64 : ∀ {n}, IsUint64 n → lib.get_uint64 (.number_unsigned n) = .ok n
  get_double : ∀ x, lib.get_double (.number_float x) = .ok x
  get_string : ∀ s, lib.get_string (.string s) = .ok s
  get_strings : ∀ l : List String, lib.get_strings (.array (l.map .string)) = .ok l
  elems : ∀ l, lib.elems (.array l) = l

theorem JsonLib.Documented.get_int_one (hlib : lib.Documented) : lib.get_int (.number_integer 1) = .ok 1 :=
  hlib.get_int (by simp [IsInt])

namespace json

def find (j : json D) (key : String) : Option (json D) :=
  match j with
  | .object members => members.lookup key
  | _ => none

def without (keys : List String) : json D → json D
  | .object members => .object (members.filter (·.1 ∉ keys))
  | j => j

end json

def get_required {α : Type} (get : json D → Except String α) (j : json D) (key w : String)
    : Except String α :=
  match j.find key with
  | none => .error s!"{w}: missing '{key}'"
  | some v =>
    match get v with
    | .ok a => .ok a
    | .error what => .error s!"{w}.{key}: {what}"

/--
`j.value(key, dflt)`.
-/
def JsonLib.value {α : Type} (lib : JsonLib D) (get : json D → Except String α) (j : json D)
    (key : String) (dflt : α)
    : Except String α :=
  match j with
  | .object _ =>
    match j.find key with
    | none => .ok dflt
    | some v => get v
  | _ => .error (lib.no_value j)

/--
`get<json>` is a copy.
-/
def get_json (j : json D) : Except String (json D) :=
  .ok j

def MachineInfo.to_json (m : MachineInfo) : json D :=
  .object
    [("id", .string m.id),
      ("hostname", .string m.hostname),
      ("cpu_model", .string m.cpu_model),
      ("physical_cores", .number_integer m.physical_cores),
      ("logical_cpus", .number_integer m.logical_cpus),
      ("l1d_kb", .number_integer m.l1d_kb),
      ("l2_kb", .number_integer m.l2_kb),
      ("l3_kb", .number_integer m.l3_kb),
      ("memory_bytes", .number_unsigned m.memory_bytes),
      ("os", .string m.os),
      ("kernel", .string m.kernel),
      ("compiler", .string m.compiler),
      ("compiler_flags", .string m.compiler_flags),
      ("engine_version", .string m.engine_version),
      ("engine_git_sha", .string m.engine_git_sha),
      ("virtualized", .string m.virtualized)]

def Result.to_json (r : Result D) : json D :=
  .object
    [("workload", .string r.workload.to_string),
      ("thread_count", .number_integer r.thread_count),
      ("working_set_bytes", .number_unsigned r.working_set_bytes),
      ("metric", .string r.metric.to_string),
      ("value", .number_float r.value),
      ("unit", .string (unit_of r.metric).to_string),
      ("trial", .number_integer r.trial),
      ("timestamp", .string r.timestamp),
      ("duration_ns", .number_unsigned r.duration_ns),
      ("params", r.params)]

def Summary.to_json (s : Summary D) : json D :=
  .object
    [("workload", .string s.workload.to_string),
      ("metric", .string s.metric.to_string),
      ("thread_count", .number_integer s.thread_count),
      ("working_set_bytes", .number_unsigned s.working_set_bytes),
      ("n", .number_integer s.n),
      ("mean", .number_float s.mean),
      ("median", .number_float s.median),
      ("stddev", .number_float s.stddev),
      ("cov", .number_float s.cov),
      ("min", .number_float s.min),
      ("p5", .number_float s.p5),
      ("p95", .number_float s.p95),
      ("max", .number_float s.max),
      ("mad", .number_float s.mad),
      ("late_trials", .number_integer s.late_trials),
      ("canary_attempts", .number_integer s.canary_attempts),
      ("clock_call_ns_start", .number_float s.clock_call_ns_start),
      ("clock_call_ns_end", .number_float s.clock_call_ns_end)]

def RunEnvelope.to_json (run : RunEnvelope D) : json D :=
  .object
    [("schema_version", .number_integer run.schema_version),
      ("run_id", .string run.run_id),
      ("started_at", .string run.started_at),
      ("finished_at", .string run.finished_at),
      ("machine", run.machine.to_json),
      ("argv", .array (run.argv.map .string)),
      ("results", .array (run.results.map Result.to_json)),
      ("summary", .array (run.summary.map Summary.to_json))]

def machine_from_json (lib : JsonLib D) (j : json D) : Except String MachineInfo := do
  let w := "machine"
  let id ← get_required lib.get_string j "id" w
  let hostname ← get_required lib.get_string j "hostname" w
  let cpu_model ← get_required lib.get_string j "cpu_model" w
  let physical_cores ← get_required lib.get_int j "physical_cores" w
  let logical_cpus ← get_required lib.get_int j "logical_cpus" w
  let l1d_kb ← get_required lib.get_int j "l1d_kb" w
  let l2_kb ← get_required lib.get_int j "l2_kb" w
  let l3_kb ← get_required lib.get_int j "l3_kb" w
  let memory_bytes ← get_required lib.get_uint64 j "memory_bytes" w
  let os ← get_required lib.get_string j "os" w
  let kernel ← get_required lib.get_string j "kernel" w
  let compiler ← get_required lib.get_string j "compiler" w
  let compiler_flags ← get_required lib.get_string j "compiler_flags" w
  let engine_version ← get_required lib.get_string j "engine_version" w
  let engine_git_sha ← get_required lib.get_string j "engine_git_sha" w
  let virtualized ← lib.value lib.get_string j "virtualized" ""
  return {
    id, hostname, cpu_model, physical_cores, logical_cpus, l1d_kb, l2_kb, l3_kb, memory_bytes, os, kernel,
    compiler, compiler_flags, engine_version, engine_git_sha, virtualized
  }

def or_throw {α : Type} (what : String) : Option α → Except String α
  | some a => .ok a
  | none => .error what

def check_unit (metric : Metric) (unit : String) : Except String Unit :=
  if parse_unit unit = some (unit_of metric) then
    .ok ()
  else
    .error s!"result.unit: expected '{(unit_of metric).to_string}' for metric '{metric.to_string}'"

def result_from_json (lib : JsonLib D) (j : json D) : Except String (Result D) := do
  let w := "result"
  let wl ← get_required lib.get_string j "workload" w
  let workload ← or_throw "result.workload: unknown value" (parse_workload wl)
  let thread_count ← get_required lib.get_int j "thread_count" w
  let working_set_bytes ← get_required lib.get_uint64 j "working_set_bytes" w
  let me ← get_required lib.get_string j "metric" w
  let metric ← or_throw "result.metric: unknown value" (parse_metric me)
  let value ← get_required lib.get_double j "value" w
  let un ← get_required lib.get_string j "unit" w
  check_unit metric un
  let trial ← get_required lib.get_int j "trial" w
  let timestamp ← get_required lib.get_string j "timestamp" w
  let duration_ns ← get_required lib.get_uint64 j "duration_ns" w
  let params ← lib.value get_json j "params" (.object [])
  return {
    workload, thread_count, working_set_bytes, metric, value, trial, timestamp, duration_ns, params
  }

def summary_from_json (lib : JsonLib D) [Zero D] (j : json D) : Except String (Summary D) := do
  let w := "summary"
  let wl ← get_required lib.get_string j "workload" w
  let me ← get_required lib.get_string j "metric" w
  -- Both are read before either is looked at.
  let workload ← or_throw "summary: unknown workload/metric" (parse_workload wl)
  let metric ← or_throw "summary: unknown workload/metric" (parse_metric me)
  let thread_count ← get_required lib.get_int j "thread_count" w
  let working_set_bytes ← get_required lib.get_uint64 j "working_set_bytes" w
  let n ← get_required lib.get_int j "n" w
  let mean ← get_required lib.get_double j "mean" w
  let median ← get_required lib.get_double j "median" w
  let stddev ← get_required lib.get_double j "stddev" w
  let cov ← get_required lib.get_double j "cov" w
  let min ← get_required lib.get_double j "min" w
  let p5 ← get_required lib.get_double j "p5" w
  let p95 ← get_required lib.get_double j "p95" w
  let max ← get_required lib.get_double j "max" w
  let mad ← lib.value lib.get_double j "mad" 0
  let late_trials ← lib.value lib.get_int j "late_trials" 0
  let canary_attempts ← lib.value lib.get_int j "canary_attempts" 1
  let clock_call_ns_start ← lib.value lib.get_double j "clock_call_ns_start" 0
  let clock_call_ns_end ← lib.value lib.get_double j "clock_call_ns_end" 0
  return {
    workload, metric, thread_count, working_set_bytes, n, mean, median, stddev, cov, min, p5, p95, max, mad,
    late_trials, canary_attempts, clock_call_ns_start, clock_call_ns_end
  }

/--
The documents of the summaries. A run written before there were summaries has none.
-/
def summary_elems (lib : JsonLib D) (j : json D) : List (json D) :=
  match j.find "summary" with
  | none => []
  | some v => lib.elems v

def check_schema_version (v : Int) : Except String Unit :=
  if v = 1 then .ok () else .error s!"run.schema_version: unsupported {v}"

def run_from_json (lib : JsonLib D) [Zero D] (j : json D) : Except String (RunEnvelope D) := do
  let w := "run"
  let schema_version ← get_required lib.get_int j "schema_version" w
  check_schema_version schema_version
  let run_id ← get_required lib.get_string j "run_id" w
  let started_at ← get_required lib.get_string j "started_at" w
  let finished_at ← get_required lib.get_string j "finished_at" w
  let machine ← get_required get_json j "machine" w
  let machine ← machine_from_json lib machine
  let argv ← get_required lib.get_strings j "argv" w
  let results ← get_required get_json j "results" w
  let results ← (lib.elems results).mapM (result_from_json lib)
  let summary ← (summary_elems lib j).mapM (summary_from_json lib)
  return { schema_version, run_id, started_at, finished_at, machine, argv, results, summary }

theorem exists_of_get_required {α : Type} {get : json D → Except String α} {j : json D}
    {key w : String} {a : α} (h : get_required get j key w = .ok a)
    : ∃ v, get v = .ok a := by
  unfold get_required at h
  cases hfind : j.find key with
  | none => simp [hfind] at h
  | some v =>
    cases hget : get v with
    | error what => simp [hfind, hget] at h
    | ok b =>
      simp only [hfind, hget, Except.ok.injEq] at h
      exact ⟨v, h ▸ hget⟩

theorem eq_or_exists_of_value {α : Type} {get : json D → Except String α} {j : json D} {key : String}
    {dflt a : α} (h : lib.value get j key dflt = .ok a)
    : a = dflt ∨ ∃ v, get v = .ok a := by
  unfold JsonLib.value at h
  split at h
  . split at h
    . exact .inl (Except.ok.inj h).symm
    . exact .inr ⟨_, h⟩
  . cases h

theorem parse_workload_to_string (w : Workload) : parse_workload w.to_string = some w := by
  cases w <;> decide

theorem parse_unit_to_string (u : MetricUnit) : parse_unit u.to_string = some u := by
  cases u <;> decide

/--
The numbers of a machine fit the types of its fields.
-/
structure MachineInfo.Fits (m : MachineInfo) : Prop where
  physical_cores : IsInt m.physical_cores
  logical_cpus : IsInt m.logical_cpus
  l1d_kb : IsInt m.l1d_kb
  l2_kb : IsInt m.l2_kb
  l3_kb : IsInt m.l3_kb
  memory_bytes : IsUint64 m.memory_bytes

structure Result.Fits (r : Result D) : Prop where
  thread_count : IsInt r.thread_count
  working_set_bytes : IsUint64 r.working_set_bytes
  trial : IsInt r.trial
  duration_ns : IsUint64 r.duration_ns

structure Summary.Fits (s : Summary D) : Prop where
  thread_count : IsInt s.thread_count
  working_set_bytes : IsUint64 s.working_set_bytes
  n : IsInt s.n
  late_trials : IsInt s.late_trials
  canary_attempts : IsInt s.canary_attempts

/--
A run whose numbers fit the types of their fields, in the one version of the schema that there is.
-/
structure RunEnvelope.Fits (run : RunEnvelope D) : Prop where
  schema_version : run.schema_version = 1
  machine : run.machine.Fits
  results : ∀ r ∈ run.results, r.Fits
  summary : ∀ s ∈ run.summary, s.Fits

theorem machine_from_json_to_json (hlib : lib.Documented) {m : MachineInfo} (hm : m.Fits)
    : machine_from_json lib m.to_json = .ok m := by
  simp [machine_from_json, MachineInfo.to_json, get_required, JsonLib.value, json.find, List.lookup_cons,
    hlib.get_string, hlib.get_int hm.physical_cores, hlib.get_int hm.logical_cpus,
    hlib.get_int hm.l1d_kb, hlib.get_int hm.l2_kb, hlib.get_int hm.l3_kb,
    hlib.get_uint64 hm.memory_bytes, bind, Except.bind, pure, Except.pure]

theorem result_from_json_to_json (hlib : lib.Documented) {r : Result D} (hr : r.Fits)
    : result_from_json lib r.to_json = .ok r := by
  simp [result_from_json, Result.to_json, get_required, JsonLib.value, json.find, List.lookup_cons,
    hlib.get_string, hlib.get_double, get_json, or_throw, check_unit, parse_workload_to_string,
    parse_metric_to_string, parse_unit_to_string,
    hlib.get_int hr.thread_count, hlib.get_int hr.trial, hlib.get_uint64 hr.working_set_bytes,
    hlib.get_uint64 hr.duration_ns, bind, Except.bind, pure, Except.pure]

theorem summary_from_json_to_json [Zero D] (hlib : lib.Documented) {s : Summary D} (hs : s.Fits)
    : summary_from_json lib s.to_json = .ok s := by
  simp [summary_from_json, Summary.to_json, get_required, JsonLib.value, json.find, List.lookup_cons,
    hlib.get_string, hlib.get_double, or_throw, parse_workload_to_string, parse_metric_to_string,
    hlib.get_int hs.thread_count, hlib.get_int hs.n, hlib.get_int hs.late_trials,
    hlib.get_int hs.canary_attempts, hlib.get_uint64 hs.working_set_bytes,
    bind, Except.bind, pure, Except.pure]

theorem isInt_of_get_required (hlib : lib.Documented) {j : json D} {key w : String} {i : Int}
    (h : get_required lib.get_int j key w = .ok i)
    : IsInt i := by
  obtain ⟨v, hget⟩ := exists_of_get_required h
  exact hlib.isInt_of_get_int hget

theorem isUint64_of_get_required (hlib : lib.Documented) {j : json D} {key w : String} {n : Nat}
    (h : get_required lib.get_uint64 j key w = .ok n)
    : IsUint64 n := by
  obtain ⟨v, hget⟩ := exists_of_get_required h
  exact hlib.isUint64_of_get_uint64 hget

theorem isInt_of_value (hlib : lib.Documented) {j : json D} {key : String} {dflt i : Int}
    (hdflt : IsInt dflt) (h : lib.value lib.get_int j key dflt = .ok i)
    : IsInt i := by
  obtain rfl | ⟨v, hget⟩ := eq_or_exists_of_value h
  . exact hdflt
  . exact hlib.isInt_of_get_int hget

theorem fits_of_machine_from_json (hlib : lib.Documented) {j : json D} {m : MachineInfo}
    (h : machine_from_json lib j = .ok m)
    : m.Fits := by
  simp only [machine_from_json, Program.except_bind_eq_ok, pure, Except.pure, Except.ok.injEq] at h
  obtain ⟨id, -, hostname, -, cpu_model, -, physical_cores, hphysical, logical_cpus, hlogical, l1d_kb,
    hl1d, l2_kb, hl2, l3_kb, hl3, memory_bytes, hmemory, os, -, kernel, -, compiler, -, compiler_flags, -,
    engine_version, -, engine_git_sha, -, virtualized, -, rfl⟩ := h
  exact {
    physical_cores := isInt_of_get_required hlib hphysical
    logical_cpus := isInt_of_get_required hlib hlogical
    l1d_kb := isInt_of_get_required hlib hl1d
    l2_kb := isInt_of_get_required hlib hl2
    l3_kb := isInt_of_get_required hlib hl3
    memory_bytes := isUint64_of_get_required hlib hmemory
  }

theorem fits_of_result_from_json (hlib : lib.Documented) {j : json D} {r : Result D}
    (h : result_from_json lib j = .ok r)
    : r.Fits := by
  simp only [result_from_json, Program.except_bind_eq_ok, pure, Except.pure, Except.ok.injEq] at h
  obtain ⟨wl, -, workload, -, thread_count, hthread, working_set_bytes, hworking, me, -, metric, -, value, -,
    un, -, -, -, trial, htrial, timestamp, -, duration_ns, hduration, params, -, rfl⟩ := h
  exact {
    thread_count := isInt_of_get_required hlib hthread
    working_set_bytes := isUint64_of_get_required hlib hworking
    trial := isInt_of_get_required hlib htrial
    duration_ns := isUint64_of_get_required hlib hduration
  }

theorem fits_of_summary_from_json [Zero D] (hlib : lib.Documented) {j : json D} {s : Summary D}
    (h : summary_from_json lib j = .ok s)
    : s.Fits := by
  simp only [summary_from_json, Program.except_bind_eq_ok, pure, Except.pure, Except.ok.injEq] at h
  obtain ⟨wl, -, me, -, workload, -, metric, -, thread_count, hthread, working_set_bytes, hworking, n, hn,
    mean, -, median, -, stddev, -, cov, -, min, -, p5, -, p95, -, max, -, mad, -, late_trials, hlate,
    canary_attempts, hcanary, clock_call_ns_start, -, clock_call_ns_end, -, rfl⟩ := h
  exact {
    thread_count := isInt_of_get_required hlib hthread
    working_set_bytes := isUint64_of_get_required hlib hworking
    n := isInt_of_get_required hlib hn
    late_trials := isInt_of_value hlib (by simp [IsInt]) hlate
    canary_attempts := isInt_of_value hlib (by simp [IsInt]) hcanary
  }

theorem fits_of_run_from_json [Zero D] (hlib : lib.Documented) {j : json D} {run : RunEnvelope D}
    (h : run_from_json lib j = .ok run)
    : run.Fits := by
  simp only [run_from_json, Program.except_bind_eq_ok, pure, Except.pure, Except.ok.injEq] at h
  obtain ⟨schema_version, -, _, hversion, run_id, -, started_at, -, finished_at, -, mj, -, machine, hmachine,
    argv, -, rj, -, results, hresults, summary, hsummary, rfl⟩ := h
  refine ⟨?_, fits_of_machine_from_json hlib hmachine, ?_, ?_⟩
  . unfold check_schema_version at hversion
    split at hversion
    . assumption
    . cases hversion
  . intro r hr
    obtain ⟨v, -, hv⟩ := Program.exists_of_mem_mapM hresults hr
    exact fits_of_result_from_json hlib hv
  . intro s hs
    obtain ⟨v, -, hv⟩ := Program.exists_of_mem_mapM hsummary hs
    exact fits_of_summary_from_json hlib hv

theorem run_from_json_to_json [Zero D] (hlib : lib.Documented) {run : RunEnvelope D} (hrun : run.Fits)
    : run_from_json lib run.to_json = .ok run := by
  have hresults : (run.results.map Result.to_json).mapM (result_from_json lib) = .ok run.results := by
    rw [Program.mapM_map_eq_ok (g := Result.to_json) (k := id) fun r hr =>
      result_from_json_to_json hlib (hrun.results r hr), List.map_id]
  have hsummary : (run.summary.map Summary.to_json).mapM (summary_from_json lib) = .ok run.summary := by
    rw [Program.mapM_map_eq_ok (g := Summary.to_json) (k := id) fun s hs =>
      summary_from_json_to_json hlib (hrun.summary s hs), List.map_id]
  simp [run_from_json, RunEnvelope.to_json, get_required, json.find, List.lookup_cons, summary_elems,
    hlib.get_string, hlib.get_strings, hlib.elems, get_json, hlib.get_int_one, check_schema_version,
    hrun.schema_version, machine_from_json_to_json hlib hrun.machine, hresults, hsummary,
    bind, Except.bind, pure, Except.pure]
  rw [← hrun.schema_version]

/--
The records as they were written before the optional fields, and what is read back.
-/
def MachineInfo.to_old_json (m : MachineInfo) : json D :=
  m.to_json.without ["virtualized"]

def MachineInfo.old (m : MachineInfo) : MachineInfo :=
  { m with virtualized := "" }

def Result.to_old_json (r : Result D) : json D :=
  r.to_json.without ["params"]

def Result.old (r : Result D) : Result D :=
  { r with params := .object [] }

def Summary.to_old_json (s : Summary D) : json D :=
  s.to_json.without
    ["mad", "late_trials", "canary_attempts", "clock_call_ns_start", "clock_call_ns_end"]

def Summary.old [Zero D] (s : Summary D) : Summary D :=
  { s with mad := 0, late_trials := 0, canary_attempts := 1, clock_call_ns_start := 0, clock_call_ns_end := 0 }

def RunEnvelope.to_old_json (run : RunEnvelope D) : json D :=
  .object
    [("schema_version", .number_integer run.schema_version),
      ("run_id", .string run.run_id),
      ("started_at", .string run.started_at),
      ("finished_at", .string run.finished_at),
      ("machine", run.machine.to_old_json),
      ("argv", .array (run.argv.map .string)),
      ("results", .array (run.results.map Result.to_old_json)),
      ("summary", .array (run.summary.map Summary.to_old_json))]

def RunEnvelope.old [Zero D] (run : RunEnvelope D) : RunEnvelope D :=
  { run with
    machine := run.machine.old
    results := run.results.map Result.old
    summary := run.summary.map Summary.old }

theorem machine_from_json_to_old_json (hlib : lib.Documented) {m : MachineInfo} (hm : m.Fits)
    : machine_from_json lib m.to_old_json = .ok m.old := by
  simp [machine_from_json, MachineInfo.to_old_json, MachineInfo.old, MachineInfo.to_json, json.without,
    get_required, JsonLib.value, json.find, List.lookup_cons,
    hlib.get_string, hlib.get_int hm.physical_cores, hlib.get_int hm.logical_cpus,
    hlib.get_int hm.l1d_kb, hlib.get_int hm.l2_kb, hlib.get_int hm.l3_kb,
    hlib.get_uint64 hm.memory_bytes, bind, Except.bind, pure, Except.pure]

theorem result_from_json_to_old_json (hlib : lib.Documented) {r : Result D} (hr : r.Fits)
    : result_from_json lib r.to_old_json = .ok r.old := by
  simp [result_from_json, Result.to_old_json, Result.old, Result.to_json, json.without, get_required,
    JsonLib.value, json.find, List.lookup_cons,
    hlib.get_string, hlib.get_double, or_throw, check_unit, parse_workload_to_string,
    parse_metric_to_string, parse_unit_to_string,
    hlib.get_int hr.thread_count, hlib.get_int hr.trial, hlib.get_uint64 hr.working_set_bytes,
    hlib.get_uint64 hr.duration_ns, bind, Except.bind, pure, Except.pure]

theorem summary_from_json_to_old_json [Zero D] (hlib : lib.Documented) {s : Summary D} (hs : s.Fits)
    : summary_from_json lib s.to_old_json = .ok s.old := by
  simp [summary_from_json, Summary.to_old_json, Summary.old, Summary.to_json, json.without, get_required,
    JsonLib.value, json.find, List.lookup_cons,
    hlib.get_string, hlib.get_double, or_throw, parse_workload_to_string, parse_metric_to_string,
    hlib.get_int hs.thread_count, hlib.get_int hs.n, hlib.get_uint64 hs.working_set_bytes,
    bind, Except.bind, pure, Except.pure]

theorem run_from_json_to_old_json [Zero D] (hlib : lib.Documented) {run : RunEnvelope D} (hrun : run.Fits)
    : run_from_json lib run.to_old_json = .ok run.old
      ∧ run_from_json lib (run.to_old_json.without ["summary"]) = .ok { run.old with summary := [] } := by
  have hresults : (run.results.map Result.to_old_json).mapM (result_from_json lib)
      = .ok (run.results.map Result.old) :=
    Program.mapM_map_eq_ok fun r hr => result_from_json_to_old_json hlib (hrun.results r hr)
  have hsummary : (run.summary.map Summary.to_old_json).mapM (summary_from_json lib)
      = .ok (run.summary.map Summary.old) :=
    Program.mapM_map_eq_ok fun s hs => summary_from_json_to_old_json hlib (hrun.summary s hs)
  constructor <;>
    simp [run_from_json, RunEnvelope.to_old_json, RunEnvelope.old, json.without, get_required, json.find,
      List.lookup_cons, summary_elems, hlib.get_string, hlib.get_strings, hlib.elems, get_json, hlib.get_int_one,
      check_schema_version, hrun.schema_version, machine_from_json_to_old_json hlib hrun.machine, hresults,
      hsummary, bind, Except.bind, pure, Except.pure]

/--
A run is read back as it was written. A document that is read at all, also one without the optional fields,
gives a run that is written so that the same run is read again.
-/
theorem codec_round_trips [Zero D] (hlib : lib.Documented)
    : (∀ run : RunEnvelope D, run.Fits → run_from_json lib run.to_json = .ok run)
      ∧ (∀ j run, run_from_json lib j = .ok run → run_from_json lib run.to_json = .ok run)
      ∧ ∀ run : RunEnvelope D, run.Fits →
          run_from_json lib run.to_old_json = .ok run.old
          ∧ run_from_json lib (run.to_old_json.without ["summary"])
            = .ok { run.old with summary := [] } := by
  refine ⟨?_, ?_, ?_⟩
  . intro run hrun
    exact run_from_json_to_json hlib hrun
  . intro j run h
    exact run_from_json_to_json hlib (fits_of_run_from_json hlib h)
  . intro run hrun
    exact run_from_json_to_old_json hlib hrun

/--
The library as its manual describes it, over the rational numbers: `get<T>` converts numbers as
`static_cast` does.
-/
def nlohmann : JsonLib Rat where
  get_int j :=
    match j with
    | .number_integer i => .ok (i.bmod (2 ^ 32))
    | .number_unsigned n => .ok (Int.bmod n (2 ^ 32))
    | .number_float x => .ok ((x.num.tdiv x.den).bmod (2 ^ 32))
    | .boolean b => .ok b.toInt
    | j => .error (type_error_302 "number" j)
  get_uint64 j :=
    match j with
    | .number_integer i => .ok (i % 2 ^ 64).toNat
    | .number_unsigned n => .ok (n % 2 ^ 64)
    | .number_float x => .ok (x.num.tdiv x.den % 2 ^ 64).toNat
    | j => .error (type_error_302 "number" j)
  get_double j :=
    match j with
    | .number_integer i => .ok i
    | .number_unsigned n => .ok n
    | .number_float x => .ok x
    | j => .error (type_error_302 "number" j)
  get_string := get_string
  get_strings j :=
    match j with
    | .array l => l.mapM get_string
    | j => .error (type_error_302 "array" j)
  elems j :=
    match j with
    | .null => []
    | .array l => l
    | .object members => members.map (·.2)
    | j => [j]
  no_value j := s!"[json.exception.type_error.306] cannot use value() with {type_name j}"
where
  type_name : json Rat → String
    | .null => "null"
    | .boolean _ => "boolean"
    | .number_integer _ | .number_unsigned _ | .number_float _ => "number"
    | .string _ => "string"
    | .array _ => "array"
    | .object _ => "object"
  type_error_302 (want : String) (j : json Rat) : String :=
    s!"[json.exception.type_error.302] type must be {want}, but is {type_name j}"
  get_string (j : json Rat) : Except String String :=
    match j with
    | .string s => .ok s
    | j => .error (type_error_302 "string" j)

theorem isInt_bmod (i : Int) : IsInt (i.bmod (2 ^ 32)) := by
  have hle := Int.le_bmod (x := i) (m := 2 ^ 32) (by decide)
  have hlt := Int.bmod_lt (x := i) (m := 2 ^ 32) (by decide)
  exact ⟨by omega, by omega⟩

theorem nlohmann_documented : nlohmann.Documented where
  isInt_of_get_int := by
    intro j i h
    cases j with
    | number_integer _ | number_unsigned _ | number_float _ =>
      obtain rfl := Except.ok.inj h
      apply isInt_bmod
    | boolean b =>
      obtain rfl := Except.ok.inj h
      cases b <;> simp [IsInt]
    | null | string _ | array _ | object _ => cases h
  isUint64_of_get_uint64 := by
    intro j n h
    cases j with
    | number_integer _ | number_unsigned _ | number_float _ =>
      obtain rfl := Except.ok.inj h
      unfold IsUint64
      omega
    | null | boolean _ | string _ | array _ | object _ => cases h
  get_int := by
    intro i hi
    change Except.ok (i.bmod (2 ^ 32)) = _
    obtain ⟨hle, hlt⟩ := hi
    rw [Int.bmod_eq_of_le (by omega) (by omega)]
  get_uint64 := by
    intro n hn
    change Except.ok (n % 2 ^ 64) = _
    rw [Nat.mod_eq_of_lt hn]
  get_double := fun _ => rfl
  get_string := fun _ => rfl
  get_strings := by
    intro l
    change (l.map json.string).mapM nlohmann.get_string = _
    rw [Program.mapM_map_eq_ok (g := json.string) (k := id) fun _ _ => rfl, List.map_id]
  elems := fun _ => rfl

def sample_run : RunEnvelope Rat where
  schema_version := 1
  run_id := "00000000-0000-4000-8000-000000000000"
  started_at := "2026-09-18T15:47:00.000000Z"
  finished_at := "2026-09-18T15:48:00.000000Z"
  machine := {
    id := "aaaaaaaaaaaaaaaaaaaaaaaaaaaaaaaa"
    hostname := "h"
    cpu_model := "cpu"
    physical_cores := 4
    logical_cpus := 8
    l1d_kb := 48
    l2_kb := 2048
    l3_kb := 24576
    memory_bytes := 2 ^ 34
    os := "os"
    kernel := "k"
    compiler := "g++ 13"
    compiler_flags := "-O3"
    engine_version := "0.1.0"
    engine_git_sha := "abc"
    virtualized := "none"
  }
  argv := ["bench", "run"]
  results := [{
    workload := .cpu_int
    thread_count := 2
    working_set_bytes := 0
    metric := .cpu_int_ops
    value := 1500000000
    trial := 0
    timestamp := "2026-09-18T15:47:30.000000Z"
    duration_ns := 50000000
    params := .object [("cold", .string "none")]
  }]
  summary := [{
    workload := .cpu_int
    metric := .cpu_int_ops
    thread_count := 2
    working_set_bytes := 0
    n := 1
    mean := 1500000000
    median := 1500000000
    stddev := 0
    cov := 0
    min := 1500000000
    p5 := 1500000000
    p95 := 1500000000
    max := 1500000000
    mad := 0
    late_trials := 0
    canary_attempts := 1
    clock_call_ns_start := 0
    clock_call_ns_end := 0
  }]

theorem sample_run_fits : sample_run.Fits where
  schema_version := rfl
  machine := by constructor <;> simp [sample_run, IsInt, IsUint64]
  results := by
    intro r hr
    obtain rfl := List.mem_singleton.mp hr
    constructor <;> simp [IsInt, IsUint64]
  summary := by
    intro s hs
    obtain rfl := List.mem_singleton.mp hs
    constructor <;> simp [IsInt, IsUint64]

theorem codec_round_trips_sample
    : run_from_json nlohmann sample_run.to_json = .ok sample_run
      ∧ run_from_json nlohmann sample_run.to_old_json = .ok sample_run.old
      ∧ run_from_json nlohmann sample_run.old.to_json = .ok sample_run.old := by
  obtain ⟨hround, hread, hold⟩ := codec_round_trips nlohmann_documented
  have hsample := (hold sample_run sample_run_fits).1
  exact ⟨hround sample_run sample_run_fits, hsample, hread _ _ hsample⟩

end Bench
