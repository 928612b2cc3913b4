import BenchPlatform.Api.Json
import BenchPlatform.Api.Model.Enums
import BenchPlatform.Api.Model.Timestamp

/-!
This module contains the Go shapes of the result schema: what a run envelope consists of, how it is
decoded and what `Validate` checks.
-/

namespace Api
namespace Model

structure Machine where
  id : String
  hostname : String
  cpuModel : String
  physicalCores : Int
  logicalCPUs : Int
  l1dKB : Int
  l2KB : Int
  l3KB : Int
  memoryBytes : Int
  os : String
  kernel : String
  compiler : String
  compilerFlags : String
  engineVersion : String
  engineGitSHA : String
  virtualized : String
  deriving DecidableEq

structure Result where
  workload : String
  threadCount : Int
  workingSetBytes : Int
  metric : String
  value : Float64
  unit : String
  trial : Int
  timestamp : String
  durationNs : Int
  params : Option Json

structure Summary where
  workload : String
  metric : String
  threadCount : Int
  workingSetBytes : Int
  n : Int
  mean : Float64
  median : Float64
  stddev : Float64
  cov : Float64
  min : Float64
  p5 : Float64
  p95 : Float64
  max : Float64
  mad : Float64
  lateTrials : Int
  canaryAttempts : Int
  clockCallNsStart : Float64
  clockCallNsEnd : Float64

/--
What `bench run` writes and the ingest endpoint accepts. `argv` is `none` when it is nil.
-/
structure RunEnvelope where
  schemaVersion : Int
  runID : String
  startedAt : String
  finishedAt : String
  machine : Machine
  argv : Option (List String)
  results : Option (List Result)
  summary : Option (List Summary)

def float0 : Float64 := .finite false 0 (-1074)

def Machine.zero : Machine where
  id := ""
  hostname := ""
  cpuModel := ""
  physicalCores := 0
  logicalCPUs := 0
  l1dKB := 0
  l2KB := 0
  l3KB := 0
  memoryBytes := 0
  os := ""
  kernel := ""
  compiler := ""
  compilerFlags := ""
  engineVersion := ""
  engineGitSHA := ""
  virtualized := ""

def Result.zero : Result where
  workload := ""
  threadCount := 0
  workingSetBytes := 0
  metric := ""
  value := float0
  unit := ""
  trial := 0
  timestamp := ""
  durationNs := 0
  params := none

def Summary.zero : Summary where
  workload := ""
  metric := ""
  threadCount := 0
  workingSetBytes := 0
  n := 0
  mean := float0
  median := float0
  stddev := float0
  cov := float0
  min := float0
  p5 := float0
  p95 := float0
  max := float0
  mad := float0
  lateTrials := 0
  canaryAttempts := 0
  clockCallNsStart := float0
  clockCallNsEnd := float0

def RunEnvelope.zero : RunEnvelope where
  schemaVersion := 0
  runID := ""
  startedAt := ""
  finishedAt := ""
  machine := .zero
  argv := none
  results := none
  summary := none

open Json

def Machine.fields : List (Json.Field Machine) :=
  [field "id" id (fun m x => { m with id := x }) decodeString,
    field "hostname" hostname (fun m x => { m with hostname := x }) decodeString,
    field "cpu_model" cpuModel (fun m x => { m with cpuModel := x }) decodeString,
    field "physical_cores" physicalCores (fun m x => { m with physicalCores := x })
      (decodeInt "int"),
    field "logical_cpus" logicalCPUs (fun m x => { m with logicalCPUs := x }) (decodeInt "int"),
    field "l1d_kb" l1dKB (fun m x => { m with l1dKB := x }) (decodeInt "int"),
    field "l2_kb" l2KB (fun m x => { m with l2KB := x }) (decodeInt "int"),
    field "l3_kb" l3KB (fun m x => { m with l3KB := x }) (decodeInt "int"),
    field "memory_bytes" memoryBytes (fun m x => { m with memoryBytes := x }) (decodeInt "int64"),
    field "os" os (fun m x => { m with os := x }) decodeString,
    field "kernel" kernel (fun m x => { m with kernel := x }) decodeString,
    field "compiler" compiler (fun m x => { m with compiler := x }) decodeString,
    field "compiler_flags" compilerFlags (fun m x => { m with compilerFlags := x }) decodeString,
    field "engine_version" engineVersion (fun m x => { m with engineVersion := x }) decodeString,
    field "engine_git_sha" engineGitSHA (fun m x => { m with engineGitSHA := x }) decodeString,
    field "virtualized" virtualized (fun m x => { m with virtualized := x }) decodeString]

def Result.fields : List (Json.Field Result) :=
  [field "workload" workload (fun r x => { r with workload := x }) decodeString,
    field "thread_count" threadCount (fun r x => { r with threadCount := x }) (decodeInt "int"),
    field "working_set_bytes" workingSetBytes (fun r x => { r with workingSetBytes := x })
      (decodeInt "int64"),
    field "metric" metric (fun r x => { r with metric := x }) decodeString,
    field "value" value (fun r x => { r with value := x }) decodeFloat,
    field "unit" unit (fun r x => { r with unit := x }) decodeString,
    field "trial" trial (fun r x => { r with trial := x }) (decodeInt "int"),
    field "timestamp" timestamp (fun r x => { r with timestamp := x }) decodeString,
    field "duration_ns" durationNs (fun r x => { r with durationNs := x }) (decodeInt "int64"),
    field "params" params (fun r x => { r with params := x }) decodeRaw]

def Summary.fields : List (Json.Field Summary) :=
  [field "workload" workload (fun s x => { s with workload := x }) decodeString,
    field "metric" metric (fun s x => { s with metric := x }) decodeString,
    field "thread_count" threadCount (fun s x => { s with threadCount := x }) (decodeInt "int"),
    field "working_set_bytes" workingSetBytes (fun s x => { s with workingSetBytes := x })
      (decodeInt "int64"),
    field "n" n (fun s x => { s with n := x }) (decodeInt "int"),
    field "mean" mean (fun s x => { s with mean := x }) decodeFloat,
    field "median" median (fun s x => { s with median := x }) decodeFloat,
    field "stddev" stddev (fun s x => { s with stddev := x }) decodeFloat,
    field "cov" cov (fun s x => { s with cov := x }) decodeFloat,
    field "min" Summary.min (fun s x => { s with min := x }) decodeFloat,
    field "p5" p5 (fun s x => { s with p5 := x }) decodeFloat,
    field "p95" p95 (fun s x => { s with p95 := x }) decodeFloat,
    field "max" Summary.max (fun s x => { s with max := x }) decodeFloat,
    field "mad" mad (fun s x => { s with mad := x }) decodeFloat,
    field "late_trials" lateTrials (fun s x => { s with lateTrials := x }) (decodeInt "int"),
    field "canary_attempts" canaryAttempts (fun s x => { s with canaryAttempts := x })
      (decodeInt "int"),
    field "clock_call_ns_start" clockCallNsStart (fun s x => { s with clockCallNsStart := x })
      decodeFloat,
    field "clock_call_ns_end" clockCallNsEnd (fun s x => { s with clockCallNsEnd := x })
      decodeFloat]

def Machine.decode : Json → Machine → Except GoError Machine :=
  decodeStruct "Machine" Machine.fields

def Result.decode : Json → Result → Except GoError Result :=
  decodeStruct "Result" Result.fields

def Summary.decode : Json → Summary → Except GoError Summary :=
  decodeStruct "Summary" Summary.fields

def decodeArgv : Json → Option (List String) → Except GoError (Option (List String)) :=
  decodeSlice "[]string" decodeString ""

def decodeSummaries
    : Json → Option (List Summary) → Except GoError (Option (List Summary)) :=
  decodeSlice "[]model.Summary" Summary.decode .zero

def decodeResults : Json → Option (List Result) → Except GoError (Option (List Result)) :=
  decodeSlice "[]model.Result" Result.decode .zero

/--
The fields before the results, which `StreamRunEnvelope` decodes one at a time, and the summary.
-/
def RunEnvelope.headerFields : List (Json.Field RunEnvelope) :=
  [field "schema_version" schemaVersion (fun e x => { e with schemaVersion := x })
      (decodeInt "int"),
    field "run_id" runID (fun e x => { e with runID := x }) decodeString,
    field "started_at" startedAt (fun e x => { e with startedAt := x }) decodeString,
    field "finished_at" finishedAt (fun e x => { e with finishedAt := x }) decodeString,
    field "machine" machine (fun e x => { e with machine := x }) Machine.decode,
    field "argv" argv (fun e x => { e with argv := x }) decodeArgv,
    field "summary" summary (fun e x => { e with summary := x }) decodeSummaries]

def RunEnvelope.fields : List (Json.Field RunEnvelope) :=
  RunEnvelope.headerFields
    ++ [field "results" results (fun e x => { e with results := x }) decodeResults]

/--
`json.Unmarshal` of a whole envelope.
-/
def RunEnvelope.decode (v : Json) : Except GoError RunEnvelope :=
  decodeStruct "RunEnvelope" RunEnvelope.fields v .zero

def maxProblems : Nat := 20

/--
The problems found so far, at most `maxProblems`.
-/
abbrev Problems := List Message

def Problems.addf (p : Problems) (msg : Message) : Problems :=
  if p.length < maxProblems then p ++ [msg] else p

def Problems.check (p : Problems) (ok : Prop) [Decidable ok] (msg : Message) : Problems :=
  if ok then p else p.addf msg

def Problems.addErr {α : Type} (p : Problems) (at' : Message) : Except GoError α → Problems
  | .ok _ => p
  | .error err => p.addf (at' ++ .text ": " :: err.message)

@[simp]
theorem Problems.addf_ne_nil {p : Problems} {msg : Message} : p.addf msg ≠ [] := by
  unfold addf
  split
  . simp
  . rename_i h
    intro hnil
    simp [hnil, maxProblems] at h

@[simp]
theorem Problems.check_eq_nil {p : Problems} {ok : Prop} [Decidable ok] {msg : Message}
    : p.check ok msg = [] ↔ p = [] ∧ ok := by
  unfold check
  split <;> simp [*]

@[simp]
theorem Problems.addErr_eq_nil {α : Type} {p : Problems} {at' : Message} {x : Except GoError α}
    : p.addErr at' x = [] ↔ p = [] ∧ ∃ a, x = .ok a := by
  cases x <;> simp [addErr]

namespace Machine

def required (m : Machine) : List (String × String) :=
  [("hostname", m.hostname), ("cpu_model", m.cpuModel), ("os", m.os), ("kernel", m.kernel),
    ("compiler", m.compiler), ("engine_version", m.engineVersion),
    ("engine_git_sha", m.engineGitSHA)]

def caches (m : Machine) : List (String × Int) :=
  [("l1d_kb", m.l1dKB), ("l2_kb", m.l2KB), ("l3_kb", m.l3KB)]

def validate (m : Machine) (p : Problems) : Problems :=
  let p := p.check (machineIDRe m.id)
    [.text "machine.id ", .quoted m.id, .text " is not 32 hex characters"]
  let p := m.required.foldl (fun p f =>
    p.check (f.2 ≠ "") [.text ("machine." ++ f.1 ++ " is required and must be non-empty")]) p
  let p := p.check (1 ≤ m.physicalCores)
    [.text "machine.physical_cores must be >= 1, got ", .int m.physicalCores]
  let p := p.check (1 ≤ m.logicalCPUs)
    [.text "machine.logical_cpus must be >= 1, got ", .int m.logicalCPUs]
  let p := m.caches.foldl (fun p f =>
    p.check (0 ≤ f.2) [.text ("machine." ++ f.1 ++ " must be >= 0, got "), .int f.2]) p
  p.check (0 ≤ m.memoryBytes) [.text "machine.memory_bytes must be >= 0, got ", .int m.memoryBytes]

/--
What `validate` accepts.
-/
structure Valid (m : Machine) : Prop where
  id : machineIDRe m.id
  required : ∀ f ∈ m.required, f.2 ≠ ""
  physicalCores : 1 ≤ m.physicalCores
  logicalCPUs : 1 ≤ m.logicalCPUs
  caches : ∀ f ∈ m.caches, 0 ≤ f.2
  memoryBytes : 0 ≤ m.memoryBytes

end Machine

theorem foldl_check_eq_nil {α : Type} {ok : α → Prop} [DecidablePred ok] {msg : α → Message}
    {l : List α} {p : Problems}
    : l.foldl (fun p a => p.check (ok a) (msg a)) p = [] ↔ p = [] ∧ ∀ a ∈ l, ok a := by
  induction l generalizing p with
  | nil => simp
  | cons a l ih => simp [ih, and_assoc]

theorem Machine.validate_eq_nil {m : Machine} {p : Problems}
    : m.validate p = [] ↔ p = [] ∧ m.Valid := by
  simp only [validate, Problems.check_eq_nil, foldl_check_eq_nil]
  constructor
  . rintro ⟨⟨⟨⟨⟨⟨hp, hid⟩, hreq⟩, hphys⟩, hlog⟩, hcache⟩, hmem⟩
    exact ⟨hp, hid, hreq, hphys, hlog, hcache, hmem⟩
  . rintro ⟨hp, hid, hreq, hphys, hlog, hcache, hmem⟩
    exact ⟨⟨⟨⟨⟨⟨hp, hid⟩, hreq⟩, hphys⟩, hlog⟩, hcache⟩, hmem⟩

namespace Result

def at' (i : Nat) (f : String) : Message :=
  [.text "results[", .int i, .text ("]." ++ f)]

def validateKnown (r : Result) (i : Nat) (p : Problems) : Problems :=
  let wantWorkload := mapGet WorkloadOf r.metric
  let p := p.check (r.workload = wantWorkload)
    (at' i "workload" ++ ([.text (": metric " ++ r.metric ++ " belongs to workload " ++ wantWorkload
      ++ ", got "), .quoted r.workload] : Message))
  let wantUnit := mapGet UnitOf r.metric
  let p := p.check (r.unit = wantUnit)
    (at' i "unit" ++ ([.text (": metric " ++ r.metric ++ " is measured in " ++ wantUnit ++ ", got "),
      .quoted r.unit] : Message))
  let p := p.check (1 ≤ r.threadCount)
    (at' i "thread_count" ++ ([.text ": must be >= 1, got ", .int r.threadCount] : Message))
  let p := p.check (0 ≤ r.workingSetBytes)
    (at' i "working_set_bytes" ++ ([.text ": must be >= 0, got ", .int r.workingSetBytes] : Message))
  let p := p.check (0 ≤ r.trial) (at' i "trial" ++ ([.text ": must be >= 0, got ", .int r.trial] : Message))
  let p := p.check (1 ≤ r.durationNs)
    (at' i "duration_ns" ++ ([.text ": must be >= 1, got ", .int r.durationNs] : Message))
  let p := p.addErr (at' i "timestamp") (ParseTimestamp r.timestamp)
  p.check (¬(r.value.isNaN ∨ r.value.isInf))
    (at' i "value" ++ ([.text ": must be finite, got ", .float r.value] : Message))

def validate (r : Result) (i : Nat) (p : Problems) : Problems :=
  let p := p.check (ValidWorkload r.workload)
    (at' i "workload" ++ ([.text ": unknown workload ", .quoted r.workload] : Message))
  if ValidMetric r.metric then
    r.validateKnown i p
  else
    -- the other checks have nothing to check against
    p.addf (at' i "metric" ++ ([.text ": unknown metric ", .quoted r.metric] : Message))

/--
What `validate` accepts.
-/
structure Valid (r : Result) : Prop where
  workload : ValidWorkload r.workload
  metric : ValidMetric r.metric
  workloadOf : r.workload = mapGet WorkloadOf r.metric
  unitOf : r.unit = mapGet UnitOf r.metric
  threadCount : 1 ≤ r.threadCount
  workingSetBytes : 0 ≤ r.workingSetBytes
  trial : 0 ≤ r.trial
  durationNs : 1 ≤ r.durationNs
  timestamp : ∃ t, ParseTimestamp r.timestamp = .ok t
  value : ¬(r.value.isNaN ∨ r.value.isInf)

theorem validate_eq_nil {r : Result} {i : Nat} {p : Problems}
    : r.validate i p = [] ↔ p = [] ∧ r.Valid := by
  unfold validate validateKnown
  split
  . rename_i hmetric
    simp only [Problems.check_eq_nil, Problems.addErr_eq_nil]
    constructor
    . rintro ⟨⟨⟨⟨⟨⟨⟨⟨⟨hp, hw⟩, hwo⟩, huo⟩, hth⟩, hws⟩, htr⟩, hdur⟩, hts⟩, hval⟩
      exact ⟨hp, hw, hmetric, hwo, huo, hth, hws, htr, hdur, hts, hval⟩
    . rintro ⟨hp, hw, _, hwo, huo, hth, hws, htr, hdur, hts, hval⟩
      exact ⟨⟨⟨⟨⟨⟨⟨⟨⟨hp, hw⟩, hwo⟩, huo⟩, hth⟩, hws⟩, htr⟩, hdur⟩, hts⟩, hval⟩
  . rename_i hmetric
    constructor
    . intro h
      exact absurd h Problems.addf_ne_nil
    . rintro ⟨_, hvalid⟩
      exact absurd hvalid.metric hmetric

end Result

namespace RunEnvelope

/--
The order of the two timestamps, if both could be parsed. A zero start is not compared.
-/
def validateOrder (e : RunEnvelope) (started finished : Except GoError Time) (p : Problems)
    : Problems :=
  match finished with
  | .error _ => p
  | .ok finish =>
    -- `started` is the zero time when it could not be parsed
    let start := match started with
      | .ok start => start
      | .error _ => Time.zero
    p.check (start.IsZero ∨ ¬finish.Before start)
      [.text ("finished_at " ++ e.finishedAt ++ " is before started_at " ++ e.startedAt)]

def validateResults : List Result → Nat → Problems → Problems
  | [], _, p => p
  | r :: rs, i, p => validateResults rs (i + 1) (r.validate i p)

def validateIDs (e : RunEnvelope) : Problems :=
  let p := Problems.check [] (e.schemaVersion = 1)
    [.text "schema_version must be 1, got ", .int e.schemaVersion]
  p.check (uuidRe e.runID) [.text "run_id ", .quoted e.runID, .text " is not a UUID v4"]

def Validate (e : RunEnvelope) : Except GoError Unit :=
  let p := e.validateIDs
  let started := ParseTimestamp e.startedAt
  let p := p.addErr [.text "started_at"] started
  let finished := ParseTimestamp e.finishedAt
  let p := p.addErr [.text "finished_at"] finished
  let p := e.validateOrder started finished p
  let p := e.machine.validate p
  let p := validateResults (e.results.getD []) 0 p
  if p = [] then .ok () else .error (.validation p)

/--
The checks on an envelope whose results have been validated as they were read.
-/
def validateHeader (e : RunEnvelope) (resultCount : Nat) : Except GoError Unit :=
  let p := e.validateIDs
  let started := ParseTimestamp e.startedAt
  let p := p.addErr [.text "started_at"] started
  let finished := ParseTimestamp e.finishedAt
  let p := p.addErr [.text "finished_at"] finished
  let p := match started, finished with
    | .ok start, .ok finish =>
      p.check (¬finish.Before start)
        [.text ("finished_at " ++ e.finishedAt ++ " is before started_at " ++ e.startedAt)]
    | _, _ => p
  let p := e.machine.validate p
  let p := p.check (resultCount ≠ 0)
    [.text "results is empty: a run with no measurements is not a run"]
  if p = [] then .ok () else .error (.validation p)

end RunEnvelope

end Model
end Api
