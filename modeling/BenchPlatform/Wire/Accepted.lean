import BenchPlatform.Api.Model.Validation
import BenchPlatform.Wire.Double
import BenchPlatform.Wire.Patterns
import BenchPlatform.Wire.Streamed

/-!
This module compares the two validations that a run goes through: the engine's own, of the document, and
the API's, of what it reads. Each of them checks something that the other one leaves out.
-/

namespace Bench

open Api Validate

section

variable {D : Type} [Double D]

/--
The parameters that the schema pins down are what it says.
-/
structure ParamsOk (params : json D) : Prop where
  cold : ∀ v, params.find "cold" = some v → v = .string "clflush" ∨ v = .string "evict" ∨ v = .string "none"
    ∨ v = .string "n/a"
  huge_pages : ∀ v, params.find "huge_pages" = some v → ∃ b, v = .boolean b

/--
The numbers of a summary can be those of some trials.
-/
structure Summary.Plausible (s : Summary D) : Prop where
  workload : s.workload = workload_of s.metric
  n : 1 ≤ s.n
  nonnegative : ∀ x ∈ [s.stddev, s.cov, s.mad, s.clock_call_ns_start, s.clock_call_ns_end],
    Double.lt x ((0 : Nat) : D) = false
  late_trials : 0 ≤ s.late_trials ∧ s.late_trials ≤ s.n
  canary_attempts : 1 ≤ s.canary_attempts
  ordered : ∀ p ∈ [(s.min, s.max), (s.min, s.median), (s.median, s.max), (s.p5, s.p95)],
    Double.lt p.2 p.1 = false

theorem problem_if_eq_nil {p : Bool} {problem : String} : problem_if p problem = [] ↔ p = false := by
  cases p <;> simp [problem_if]

section

attribute [local simp] json.find List.lookup_cons require check_string check_int check_number is_int json.long_long
  json.double json.is_number json.is_string json.is_array json.is_object json.is_boolean json.contains
  problem_if_eq_nil parse_workload_to_string parse_metric_to_string parse_unit_to_string

omit [Double D] in
theorem check_machine_eq_nil {m : MachineInfo}
    : check_machine (m.to_json (D := D)) = [] ↔ kMachineId m.id = true := by
  simp [check_machine, MachineInfo.to_json]

omit [Double D] in
theorem check_params_eq_nil {params : json D} {w : String}
    : check_params params w = [] ↔ ParamsOk params := by
  unfold check_params
  rw [List.append_eq_nil_iff]
  refine (and_congr
    (c := ∀ v, params.find "cold" = some v → v = .string "clflush" ∨ v = .string "evict" ∨ v = .string "none"
      ∨ v = .string "n/a")
    (d := ∀ v, params.find "huge_pages" = some v → ∃ b, v = .boolean b) ?_ ?_).trans
    ⟨fun h => ⟨h.1, h.2⟩, fun h => ⟨h.cold, h.huge_pages⟩⟩
  . generalize params.find "cold" = o
    cases o with
    | none => simp
    | some v =>
      cases v with
      | string c => simp [problem_if_eq_nil, or_iff_not_imp_left]
      | _ => simp
  . generalize params.find "huge_pages" = o
    cases o with
    | none => simp
    | some v => cases v <;> simp [problem_if_eq_nil]

/--
What `check_result` makes of the parameters.
-/
def params_problems (w : String) : Option (json D) → List String
  | some (.object members) => check_params (.object members) w
  | _ => []

omit [Double D] in
theorem params_problems_eq_nil {params : json D} {w : String}
    : params_problems w (some params) = [] ↔ ParamsOk params := by
  rw [← check_params_eq_nil (w := w)]
  cases params <;> exact Iff.rfl

theorem check_result_eq_nil {r : Result D} {i : Nat}
    : check_result r.to_json i = []
      ↔ r.workload = workload_of r.metric ∧ kTimestamp r.timestamp = true ∧ 1 ≤ r.thread_count ∧ 0 ≤ r.trial
        ∧ Double.isfinite r.value = true ∧ ParamsOk r.params := by
  simp [check_result, Result.to_json, check_metric, check_workload, Validate.check_unit, named_metric]
  intro _ _ _ _ _
  exact params_problems_eq_nil

end

theorem check_number_of_find {j : json D} {key : String} {x : D} (h : j.find key = some (.number_float x))
    (check : D → List String)
    : check_number j key check = check x := by
  unfold check_number
  rw [h]
  rfl

theorem check_nonnegative {s : Summary D} {w : String}
    : (["stddev", "cov", "mad", "clock_call_ns_start", "clock_call_ns_end"].flatMap fun k =>
        check_number s.to_json k fun x => problem_if (Double.lt x ((0 : Nat) : D)) s!"{w}.{k}: must be >= 0") = []
      ↔ ∀ x ∈ [s.stddev, s.cov, s.mad, s.clock_call_ns_start, s.clock_call_ns_end],
        Double.lt x ((0 : Nat) : D) = false := by
  have hstddev : s.to_json.find "stddev" = some (.number_float s.stddev) := rfl
  have hcov : s.to_json.find "cov" = some (.number_float s.cov) := rfl
  have hmad : s.to_json.find "mad" = some (.number_float s.mad) := rfl
  have hstart : s.to_json.find "clock_call_ns_start" = some (.number_float s.clock_call_ns_start) := rfl
  have hend : s.to_json.find "clock_call_ns_end" = some (.number_float s.clock_call_ns_end) := rfl
  rw [List.flatMap_eq_nil_iff]
  simp only [List.forall_mem_cons, check_number_of_find hstddev, check_number_of_find hcov,
    check_number_of_find hmad, check_number_of_find hstart, check_number_of_find hend, problem_if_eq_nil]
  simp

section

attribute [local simp] json.find List.lookup_cons require check_string check_int is_int json.long_long
  json.double json.is_number json.is_string json.contains Summary.to_json problem_if_eq_nil
  parse_workload_to_string parse_metric_to_string

omit [Double D] in
theorem check_late_eq_nil {s : Summary D} {w : String}
    : check_late_trials s.to_json w = [] ↔ 0 ≤ s.late_trials ∧ s.late_trials ≤ s.n := by
  have hlate : (s.to_json.find "late_trials").bind json.long_long = some s.late_trials := rfl
  have hn : (s.to_json.find "n").bind json.long_long = some s.n := rfl
  unfold check_late_trials check_int
  rw [hlate, hn]
  dsimp only
  split
  . rename_i hneg
    exact iff_of_false (List.cons_ne_nil _ _) (by omega)
  . rw [problem_if_eq_nil, decide_eq_false_iff_not]
    omega

theorem check_ordering_eq_nil {s : Summary D} {w : String}
    : check_ordering s.to_json w = []
      ↔ ∀ p ∈ [(s.min, s.max), (s.min, s.median), (s.median, s.max), (s.p5, s.p95)],
        Double.lt p.2 p.1 = false := by
  simp [check_ordering, check_order, num]

theorem require_summary {s : Summary D} {w : String}
    : (["workload", "metric"].flatMap (require s.to_json · w json.is_string "string")) = []
      ∧ (["thread_count", "working_set_bytes", "n"].flatMap (require s.to_json · w is_int "integer")) = []
      ∧ (["mean", "median", "stddev", "cov", "min", "p5", "p95", "max"].flatMap
        (require s.to_json · w json.is_number "number")) = [] := by
  refine ⟨?_, ?_, ?_⟩
  . simp
  . simp
  . simp

omit [Double D] in
theorem check_named {s : Summary D} {w : String}
    : check_metric s.to_json w = []
      ∧ (check_workload s.to_json w = [] ↔ s.workload = workload_of s.metric) := by
  refine ⟨?_, ?_⟩
  . simp [check_metric]
  . simp [check_workload, named_metric]

end

theorem check_summary_eq_nil {s : Summary D} {i : Nat}
    : check_summary s.to_json i = [] ↔ s.Plausible := by
  have hn : (s.to_json.find "n").bind json.long_long = some s.n := rfl
  have hcanary : (s.to_json.find "canary_attempts").bind json.long_long = some s.canary_attempts := rfl
  unfold check_summary
  dsimp only
  rw [if_neg (by simp [Summary.to_json, json.is_object])]
  simp only [List.append_eq_nil_iff, require_summary, check_named, check_nonnegative, check_late_eq_nil,
    check_ordering_eq_nil, check_int, hn, hcanary, problem_if_eq_nil, decide_eq_false_iff_not, not_lt, true_and]
  constructor
  . rintro ⟨⟨⟨⟨⟨hworkload, hn⟩, hnonneg⟩, hlate⟩, hcanary⟩, hordered⟩
    exact ⟨hworkload, hn, hnonneg, hlate, hcanary, hordered⟩
  . rintro ⟨hworkload, hn, hnonneg, hlate, hcanary, hordered⟩
    exact ⟨⟨⟨⟨⟨hworkload, hn⟩, hnonneg⟩, hlate⟩, hcanary⟩, hordered⟩

omit [Double D] in
theorem check_elems_eq_nil {α : Type} {l : List α} {f : α → json D} {check : json D → Nat → List String}
    {P : α → Prop} (h : ∀ a i, check (f a) i = [] ↔ P a)
    : check_elems (.array (l.map f)) check = [] ↔ ∀ a ∈ l, P a := by
  unfold check_elems
  dsimp only
  generalize 0 = k
  induction l generalizing k with
  | nil => simp
  | cons a l ih =>
    rw [List.map_cons, List.zipIdx_cons, List.flatMap_cons, List.append_eq_nil_iff, ih, List.forall_mem_cons]
    exact and_congr_left' (h a k)

structure Result.Shared (r : Result D) : Prop where
  workload : r.workload = workload_of r.metric
  timestamp : Model.timestampRe r.timestamp
  thread_count : 1 ≤ r.thread_count
  trial : 0 ≤ r.trial

structure RunEnvelope.Shared (run : RunEnvelope D) : Prop where
  run_id : Model.uuidRe run.run_id
  started_at : Model.timestampRe run.started_at
  finished_at : Model.timestampRe run.finished_at
  machine_id : Model.machineIDRe run.machine.id
  results : ∀ r ∈ run.results, r.Shared

structure RunEnvelope.EngineOnly (run : RunEnvelope D) : Prop where
  finite : ∀ r ∈ run.results, Double.isfinite r.value = true
  params : ∀ r ∈ run.results, ParamsOk r.params
  summary : ∀ s ∈ run.summary, s.Plausible

theorem validate_run_eq_nil {run : RunEnvelope D} (hversion : run.schema_version = 1)
    : validate_run run.to_json = [] ↔ run.Shared ∧ run.EngineOnly := by
  have hresults : check_elems (.array (run.results.map Result.to_json)) check_result = []
      ↔ ∀ r ∈ run.results, _ := check_elems_eq_nil fun _ _ => check_result_eq_nil
  have hsummary : check_elems (.array (run.summary.map Summary.to_json)) check_summary = []
      ↔ ∀ s ∈ run.summary, _ := check_elems_eq_nil fun _ _ => check_summary_eq_nil
  have hparts : validate_run run.to_json = []
      ↔ kUuid run.run_id ∧ kTimestamp run.started_at ∧ kTimestamp run.finished_at ∧ kMachineId run.machine.id
        ∧ check_elems (.array (run.results.map Result.to_json)) check_result = []
        ∧ check_elems (.array (run.summary.map Summary.to_json)) check_summary = [] := by
    simp [validate_run, RunEnvelope.to_json, json.find, List.lookup_cons, require, check_string, check_int,
      hversion, json.is_object, json.is_string, json.is_array, is_int, json.long_long, problem_if_eq_nil,
      check_machine_eq_nil]
  rw [hparts, hresults, hsummary, kUuid_eq, kTimestamp_eq, kTimestamp_eq, kMachineId_eq]
  constructor
  . rintro ⟨hid, hstart, hfinish, hmachine, hresults, hsummary⟩
    constructor
    . refine ⟨hid, hstart, hfinish, hmachine, fun r hr => ?_⟩
      obtain ⟨hworkload, htimestamp, hthreads, htrial, _⟩ := hresults r hr
      exact ⟨hworkload, by rwa [← kTimestamp_eq], hthreads, htrial⟩
    . refine ⟨fun r hr => ?_, fun r hr => ?_, hsummary⟩
      . exact (hresults r hr).2.2.2.2.1
      . exact (hresults r hr).2.2.2.2.2
  . rintro ⟨hshared, halone⟩
    refine ⟨hshared.run_id, hshared.started_at, hshared.finished_at, hshared.machine_id, fun r hr => ?_,
      halone.summary⟩
    obtain ⟨hworkload, htimestamp, hthreads, htrial⟩ := hshared.results r hr
    rw [kTimestamp_eq]
    exact ⟨hworkload, htimestamp, hthreads, htrial, halone.finite r hr, halone.params r hr⟩

end

/--
What the API alone looks at: numbers that must fit, dates that must exist and be in order, and that the
machine is described and something was measured.
-/
structure RunEnvelope.ApiOnly (run : RunEnvelope Float64) (maxResults : Int) : Prop where
  fits : run.InInt64
  some_result : run.results ≠ []
  few_results : maxResults ≤ 0 ∨ run.results.length ≤ maxResults
  dates : ∃ start finish, Model.ParseTimestamp run.started_at = .ok start
    ∧ Model.ParseTimestamp run.finished_at = .ok finish ∧ ¬finish.Before start
  result_dates : ∀ r ∈ run.results, ∃ t, Model.ParseTimestamp r.timestamp = .ok t
  durations : ∀ r ∈ run.results, 1 ≤ r.duration_ns
  described : ∀ s ∈ [run.machine.hostname, run.machine.cpu_model, run.machine.os, run.machine.kernel,
    run.machine.compiler, run.machine.engine_version, run.machine.engine_git_sha], s ≠ ""
  cores : 1 ≤ run.machine.physical_cores ∧ 1 ≤ run.machine.logical_cpus
  caches : ∀ n ∈ [run.machine.l1d_kb, run.machine.l2_kb, run.machine.l3_kb], 0 ≤ n

section

variable {format_double : Float64 → String}

theorem sent_valid {r : Result Float64}
    : (r.sent format_double received).Valid
      ↔ r.Shared ∧ (∃ t, Model.ParseTimestamp r.timestamp = .ok t) ∧ 1 ≤ r.duration_ns := by
  have hworkload : ∀ w : Workload, Model.ValidWorkload w.to_string := by
    intro w
    cases w <;> decide
  have hmetric : ∀ m : Metric, Model.ValidMetric m.to_string ∧ Model.mapGet Model.UnitOf m.to_string = (unit_of m).to_string
      ∧ Model.mapGet Model.WorkloadOf m.to_string = (workload_of m).to_string := by
    intro m
    cases m <;> decide
  have hinj : ∀ w w' : Workload, w.to_string = w'.to_string ↔ w = w' := by
    intro w w'
    constructor
    . intro h
      have hparse := congrArg parse_workload h
      rw [parse_workload_to_string, parse_workload_to_string] at hparse
      exact Option.some.inj hparse
    . exact congrArg _
  have hfinite : ∀ x, ¬((received x).isNaN ∨ (received x).isInf) := by
    intro x
    cases x <;> simp [received, Float64.isNaN, Float64.isInf, Model.float0]
  constructor
  . rintro ⟨_, _, hof, _, hthreads, _, htrial, hduration, ⟨t, ht⟩, _⟩
    refine ⟨⟨?_, Model.timestampRe_of_parsed ht, hthreads, htrial⟩, ⟨t, ht⟩, ?_⟩
    . exact (hinj _ _).mp (hof.trans (hmetric r.metric).2.2)
    . exact Int.ofNat_le.mp hduration
  . rintro ⟨hshared, hdate, hduration⟩
    exact {
      workload := hworkload r.workload
      metric := (hmetric r.metric).1
      workloadOf := ((hinj _ _).mpr hshared.workload).trans (hmetric r.metric).2.2.symm
      unitOf := (hmetric r.metric).2.1.symm
      threadCount := hshared.thread_count
      workingSetBytes := Int.natCast_nonneg _
      trial := hshared.trial
      durationNs := Int.ofNat_le.mpr hduration
      timestamp := hdate
      value := hfinite r.value }

theorem machine_valid_iff {m : MachineInfo}
    : m.sent.Valid ↔ Model.machineIDRe m.id
      ∧ (∀ s ∈ [m.hostname, m.cpu_model, m.os, m.kernel, m.compiler, m.engine_version, m.engine_git_sha], s ≠ "")
      ∧ (1 ≤ m.physical_cores ∧ 1 ≤ m.logical_cpus) ∧ ∀ n ∈ [m.l1d_kb, m.l2_kb, m.l3_kb], 0 ≤ n := by
  have hrequired : (∀ f ∈ m.sent.required, f.2 ≠ "")
      ↔ ∀ s ∈ [m.hostname, m.cpu_model, m.os, m.kernel, m.compiler, m.engine_version, m.engine_git_sha],
        s ≠ "" := by
    simp [Model.Machine.required, MachineInfo.sent]
  have hcaches : (∀ f ∈ m.sent.caches, 0 ≤ f.2) ↔ ∀ n ∈ [m.l1d_kb, m.l2_kb, m.l3_kb], 0 ≤ n := by
    simp [Model.Machine.caches, MachineInfo.sent]
  constructor
  . rintro ⟨hid, hreq, hphysical, hlogical, hcache, _⟩
    exact ⟨hid, hrequired.mp hreq, ⟨hphysical, hlogical⟩, hcaches.mp hcache⟩
  . rintro ⟨hid, hreq, ⟨hphysical, hlogical⟩, hcache⟩
    exact ⟨hid, hrequired.mpr hreq, hphysical, hlogical, hcaches.mpr hcache, Int.natCast_nonneg _⟩

/--
The streaming validation accepts what the engine writes, with a callback that accepts every result.
-/
def RunEnvelope.Accepted (format_double : Float64 → String) (run : RunEnvelope Float64) (maxResults : Int)
    : Prop :=
  ∃ env, Model.StreamRunEnvelope (.object (run.wire format_double).members .closed) maxResults
    (fun _ _ _ => pure ()) () = .ok env ()

theorem replay_accepting {env : Model.RunEnvelope} {rs : List Model.Result} {i : Nat}
    : Model.replay env (fun _ _ _ => pure ()) rs i () = .ok () () := by
  induction rs generalizing i with
  | nil => rfl
  | cons r rs ih => exact ih

variable {run : RunEnvelope Float64} {maxResults : Int}

theorem accepted_steps (htext : ReadsBack format_double) (hfits : run.Fits)
    (hdoubles : ∀ x ∈ run.doubles, IsDouble x)
    : run.Accepted format_double maxResults ↔ run.InInt64
      ∧ (∀ r ∈ run.results, (r.sent format_double received).Valid)
      ∧ (run.results = [] ∨ maxResults ≤ 0 ∨ run.results.length ≤ maxResults)
      ∧ (run.sent received).validateHeader run.results.length = .ok () := by
  obtain ⟨hwhole, hnone⟩ := RunEnvelope.wire_streamed htext hfits hdoubles maxResults (fun _ _ _ => pure ()) ()
  unfold RunEnvelope.Accepted
  by_cases hread : run.InInt64 ∧ (∀ r ∈ run.results, (r.sent format_double received).Valid)
      ∧ (run.results = [] ∨ maxResults ≤ 0 ∨ run.results.length ≤ maxResults)
  . obtain ⟨hint, hvalid, hroom⟩ := hread
    rw [hwhole hint hvalid hroom, Program.bind_of_ok replay_accepting]
    simp only [Program.bind_eq_ok, Model.liftResult_eq_ok]
    constructor
    . rintro ⟨_, _, _, ⟨hheader, _⟩, _⟩
      exact ⟨hint, hvalid, hroom, hheader⟩
    . rintro ⟨_, _, _, hheader⟩
      exact ⟨_, (), (), ⟨hheader, trivial⟩, rfl⟩
  . obtain ⟨err, herr⟩ := hnone hread
    rw [herr]
    constructor
    . rintro ⟨_, h⟩
      cases h
    . rintro ⟨hint, hvalid, hroom, _⟩
      exact absurd ⟨hint, hvalid, hroom⟩ hread

theorem accepted_iff (htext : ReadsBack format_double) (hfits : run.Fits)
    (hdoubles : ∀ x ∈ run.doubles, IsDouble x)
    : run.Accepted format_double maxResults ↔ run.Shared ∧ run.ApiOnly maxResults := by
  rw [accepted_steps htext hfits hdoubles, Model.RunEnvelope.validateHeader_eq_ok]
  simp only [sent_valid]
  constructor
  . rintro ⟨hint, hvalid, hroom, start, finish, ⟨_, hid, hstart, hfinish, hmachine⟩, horder, hcount⟩
    have hsome : run.results ≠ [] := fun hnil => hcount (congrArg List.length hnil)
    obtain ⟨hmachineID, hdescribed, hcores, hcaches⟩ := machine_valid_iff.mp hmachine
    constructor
    . exact ⟨hid, Model.timestampRe_of_parsed hstart, Model.timestampRe_of_parsed hfinish, hmachineID,
        fun r hr => (hvalid r hr).1⟩
    . exact ⟨hint, hsome, hroom.resolve_left hsome, ⟨start, finish, hstart, hfinish, horder⟩,
        fun r hr => (hvalid r hr).2.1, fun r hr => (hvalid r hr).2.2, hdescribed, hcores, hcaches⟩
  . rintro ⟨hshared, halone⟩
    obtain ⟨start, finish, hstart, hfinish, horder⟩ := halone.dates
    have hmachine := machine_valid_iff.mpr ⟨hshared.machine_id, halone.described, halone.cores, halone.caches⟩
    refine ⟨halone.fits, fun r hr => ?_, .inr halone.few_results, start, finish, ?_, horder, ?_⟩
    . exact ⟨hshared.results r hr, halone.result_dates r hr, halone.durations r hr⟩
    . exact ⟨hfits.schema_version, hshared.run_id, hstart, hfinish, hmachine⟩
    . exact mt List.length_eq_zero_iff.mp halone.some_result

end

def aborted_run : RunEnvelope Float64 :=
  { sent_run with results := [], summary := [] }

theorem aborted_run_fits : aborted_run.Fits :=
  ⟨rfl, sent_run_fits.machine, List.forall_mem_nil _, List.forall_mem_nil _⟩

theorem aborted_run_shared : aborted_run.Shared :=
  ⟨by decide, by decide, by decide, by decide, List.forall_mem_nil _⟩

theorem sent_run_dates
    : ∃ start finish, Model.ParseTimestamp sent_run.started_at = .ok start
      ∧ Model.ParseTimestamp sent_run.finished_at = .ok finish ∧ ¬finish.Before start :=
  ⟨_, _, rfl, rfl, by decide⟩

theorem sent_run_stamp : ∃ t, Model.ParseTimestamp "2026-09-18T15:47:30.000000Z" = .ok t :=
  ⟨_, rfl⟩

def measured_run (value : Float64) : RunEnvelope Float64 :=
  { sent_run with results := sent_run.results.map ({ · with value := value }), summary := [] }

section

variable (value : Float64)

theorem measured_run_fits : (measured_run value).Fits := by
  refine ⟨rfl, sent_run_fits.machine, ?_, List.forall_mem_nil _⟩
  intro r hr
  rw [List.mem_singleton.mp hr]
  constructor <;> simp [IsInt, IsUint64]

theorem measured_run_shared : (measured_run value).Shared := by
  refine { aborted_run_shared with results := ?_ }
  intro r hr
  rw [List.mem_singleton.mp hr]
  exact ⟨rfl, (by decide : Model.timestampRe "2026-09-18T15:47:30.000000Z"), (by decide : (1 : Int) ≤ 2), Int.le_refl 0⟩

theorem measured_run_apiOnly (maxResults : Int) : (measured_run value).ApiOnly maxResults where
  fits := by
    refine ⟨sent_run_inInt64.memory_bytes, ?_, List.forall_mem_nil _⟩
    intro r hr
    rw [List.mem_singleton.mp hr]
    exact ⟨(by decide : 50000000 < 2 ^ 63), Nat.two_pow_pos 63⟩
  some_result := List.cons_ne_nil _ _
  few_results := le_or_gt maxResults 0
  dates := sent_run_dates
  result_dates := by
    intro r hr
    rw [List.mem_singleton.mp hr]
    exact sent_run_stamp
  durations := by
    intro r hr
    rw [List.mem_singleton.mp hr]
    exact (by decide : 1 ≤ 50000000)
  described := (by decide : ∀ s ∈ [sent_run.machine.hostname, sent_run.machine.cpu_model, sent_run.machine.os,
    sent_run.machine.kernel, sent_run.machine.compiler, sent_run.machine.engine_version,
    sent_run.machine.engine_git_sha], s ≠ "")
  cores := (by decide : 1 ≤ sent_run.machine.physical_cores ∧ 1 ≤ sent_run.machine.logical_cpus)
  caches := (by decide : ∀ n ∈ [sent_run.machine.l1d_kb, sent_run.machine.l2_kb, sent_run.machine.l3_kb], 0 ≤ n)

end

/--
What the engine's validation and the API's have in common, and what each of them looks at alone: a run without
results passes only the first, and one with a value that is not finite only the second.
-/
theorem validations_compared (format_double : Float64 → String) (htext : ReadsBack format_double)
    (maxResults : Int)
    : (∀ run : RunEnvelope Float64, run.Fits → (∀ x ∈ run.doubles, IsDouble x) →
        (validate_run run.to_json = [] ↔ run.Shared ∧ run.EngineOnly)
        ∧ (run.Accepted format_double maxResults ↔ run.Shared ∧ run.ApiOnly maxResults))
      ∧ (∃ run : RunEnvelope Float64, run.Fits ∧ (∀ x ∈ run.doubles, IsDouble x)
        ∧ validate_run run.to_json = [] ∧ ¬run.Accepted format_double maxResults)
      ∧ ∃ run : RunEnvelope Float64, run.Fits ∧ (∀ x ∈ run.doubles, IsDouble x)
        ∧ run.Accepted format_double maxResults ∧ validate_run run.to_json ≠ [] := by
  have hinf : ∀ x ∈ (measured_run (.inf false)).doubles, IsDouble x := by
    intro x hx
    rw [List.mem_singleton.mp hx]
    trivial
  refine ⟨fun run hfits hdoubles => ⟨validate_run_eq_nil hfits.schema_version, accepted_iff htext hfits hdoubles⟩,
    ⟨aborted_run, aborted_run_fits, List.forall_mem_nil _, ?_, ?_⟩,
    ⟨measured_run (.inf false), measured_run_fits _, hinf, ?_, ?_⟩⟩
  . exact (validate_run_eq_nil rfl).mpr
      ⟨aborted_run_shared, ⟨List.forall_mem_nil _, List.forall_mem_nil _, List.forall_mem_nil _⟩⟩
  . rw [accepted_iff htext aborted_run_fits (List.forall_mem_nil _)]
    exact fun haccepted => haccepted.2.some_result rfl
  . rw [accepted_iff htext (measured_run_fits _) hinf]
    exact ⟨measured_run_shared _, measured_run_apiOnly _ _⟩
  . rw [Ne, validate_run_eq_nil rfl]
    rintro ⟨-, hengine⟩
    exact Bool.false_ne_true (hengine.finite _ List.mem_cons_self)

theorem validations_compared_aborted
    : validate_run aborted_run.to_json = [] ∧ ¬aborted_run.Accepted Float64.exactLiteral 50000 := by
  obtain ⟨hengine, hapi⟩ := (validations_compared Float64.exactLiteral readsBack_exactLiteral 50000).1 aborted_run
    aborted_run_fits (List.forall_mem_nil _)
  constructor
  . exact hengine.mpr
      ⟨aborted_run_shared, ⟨List.forall_mem_nil _, List.forall_mem_nil _, List.forall_mem_nil _⟩⟩
  . intro haccepted
    exact (hapi.mp haccepted).2.some_result rfl

end Bench
