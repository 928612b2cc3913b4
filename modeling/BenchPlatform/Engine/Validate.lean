import BenchPlatform.Engine.Codec

/-!
This module contains the structural validation of a run document. Every check adds its problems to those of
the checks before it.
-/

namespace Bench

variable {D : Type} [Double D]

namespace json

/--
An integer as `get<long long>` returns it. Nothing else is an integer.
-/
def long_long : json D → Option Int
  | .number_integer i => some i
  | .number_unsigned n => some (Int.bmod n (2 ^ 64))
  | _ => none

/--
A number as `get<double>` returns it. Nothing else is a number.
-/
def double : json D → Option D
  | .number_integer i =>
    some (if i < 0 then ((0 : Nat) : D) - ((i.natAbs : Nat) : D) else ((i.natAbs : Nat) : D))
  | .number_unsigned n => some (n : D)
  | .number_float x => some x
  | _ => none

def is_string : json D → Bool
  | .string _ => true
  | _ => false

def is_array : json D → Bool
  | .array _ => true
  | _ => false

def is_boolean : json D → Bool
  | .boolean _ => true
  | _ => false

def is_object : json D → Bool
  | .object _ => true
  | _ => false

def is_number (v : json D) : Bool :=
  v.double.isSome

def contains (j : json D) (key : String) : Bool :=
  (j.find key).isSome

end json

def is_int (v : json D) : Bool :=
  v.long_long.isSome

namespace Validate

def hex (c : Char) : Bool :=
  ('0' ≤ c && c ≤ '9') || ('a' ≤ c && c ≤ 'f')

def digit (c : Char) : Bool :=
  '0' ≤ c && c ≤ '9'

def all_match (classes : List (Char → Bool)) (s : List Char) : Bool :=
  classes.length == s.length && (classes.zip s).all fun (c, x) => c x

def kUuid (s : String) : Bool :=
  all_match
    (List.replicate 8 hex ++ (· == '-') :: List.replicate 4 hex
      ++ (· == '-') :: (fun c => '1' ≤ c && c ≤ '8') :: List.replicate 3 hex
      ++ (· == '-') :: (fun c => c == '8' || c == '9' || c == 'a' || c == 'b') :: List.replicate 3 hex
      ++ (· == '-') :: List.replicate 12 hex)
    s.toList

def kTimestamp (s : String) : Bool :=
  all_match
      (List.replicate 4 digit ++ (· == '-') :: List.replicate 2 digit ++ (· == '-') :: List.replicate 2 digit
        ++ (· == 'T') :: List.replicate 2 digit ++ (· == ':') :: List.replicate 2 digit
        ++ (· == ':') :: List.replicate 2 digit)
      (s.toList.take 19)
    && match s.toList.drop 19 with
      | ['Z'] => true
      | '.' :: rest =>
        2 ≤ rest.length && rest.length ≤ 10 && rest.dropLast.all digit && rest.getLast? == some 'Z'
      | _ => false

def kMachineId (s : String) : Bool :=
  all_match (List.replicate 32 hex) s.toList

def require (j : json D) (key w : String) (pred : json D → Bool) (type_name : String) : List String :=
  match j.find key with
  | none => [s!"{w}: missing required '{key}'"]
  | some v => if pred v then [] else [s!"{w}.{key}: expected {type_name}"]

def check_string (j : json D) (key : String) (check : String → List String) : List String :=
  match j.find key with
  | some (.string s) => check s
  | _ => []

def check_int (j : json D) (key : String) (check : Int → List String) : List String :=
  match (j.find key).bind json.long_long with
  | some i => check i
  | none => []

def check_number (j : json D) (key : String) (check : D → List String) : List String :=
  match (j.find key).bind json.double with
  | some x => check x
  | none => []

def problem_if (p : Bool) (problem : String) : List String :=
  if p then [problem] else []

def check_machine (m : json D) : List String :=
  let w := "machine"
  if !m.is_object then
    ["machine: expected object"]
  else
    (["id", "hostname", "cpu_model", "os", "kernel", "compiler", "compiler_flags", "engine_version",
        "engine_git_sha"].flatMap (require m · w json.is_string "string"))
      ++ (["physical_cores", "logical_cpus", "l1d_kb", "l2_kb", "l3_kb", "memory_bytes"].flatMap
        (require m · w is_int "integer"))
      ++ check_string m "id" fun id => problem_if (!kMachineId id) "machine.id: must be 32 lowercase hex chars"

def named_metric (j : json D) : Option Metric :=
  match j.find "metric" with
  | some (.string s) => parse_metric s
  | _ => none

def check_metric (j : json D) (w : String) : List String :=
  check_string j "metric" fun s => problem_if (parse_metric s).isNone s!"{w}.metric: unknown '{s}'"

def check_workload (j : json D) (w : String) : List String :=
  check_string j "workload" fun s =>
    match parse_workload s, named_metric j with
    | none, _ => [s!"{w}.workload: unknown '{s}'"]
    | some wl, some m =>
      problem_if (wl ≠ workload_of m)
        s!"{w}.workload: '{(workload_of m).to_string}' expected for metric '{m.to_string}'"
    | some _, none => []

def check_unit (j : json D) (w : String) : List String :=
  check_string j "unit" fun s =>
    match parse_unit s, named_metric j with
    | none, _ => [s!"{w}.unit: unknown '{s}'"]
    | some un, some m =>
      problem_if (un ≠ unit_of m)
        s!"{w}.unit: '{(unit_of m).to_string}' expected for metric '{m.to_string}'"
    | some _, none => []

def check_params (p : json D) (w : String) : List String :=
  (match p.find "cold" with
    | none => []
    | some (.string c) =>
      problem_if (c ≠ "clflush" && c ≠ "evict" && c ≠ "none" && c ≠ "n/a") s!"{w}.params.cold: unknown '{c}'"
    | some _ => [w ++ ".params.cold: expected string"])
  ++ match p.find "huge_pages" with
    | none => []
    | some v => problem_if (!v.is_boolean) (w ++ ".params.huge_pages: expected boolean")

def check_result (r : json D) (i : Nat) : List String :=
  let w := s!"results[{i}]"
  if !r.is_object then
    [w ++ ": expected object"]
  else
    (["schema_version", "run_id", "machine"].flatMap fun k =>
        problem_if (r.contains k) s!"{w}: '{k}' must not appear inside a run result")
      ++ (["workload", "metric", "unit", "timestamp"].flatMap (require r · w json.is_string "string"))
      ++ require r "value" w json.is_number "number"
      ++ (["thread_count", "working_set_bytes", "trial", "duration_ns"].flatMap (require r · w is_int "integer"))
      ++ check_metric r w
      ++ check_workload r w
      ++ check_unit r w
      ++ check_string r "timestamp" (fun s =>
        problem_if (!kTimestamp s) (w ++ ".timestamp: must be RFC 3339 UTC with 'Z'"))
      ++ check_int r "thread_count" (fun t => problem_if (t < 1) (w ++ ".thread_count: must be >= 1"))
      ++ check_int r "trial" (fun t => problem_if (t < 0) (w ++ ".trial: must be >= 0"))
      ++ check_number r "value" (fun x => problem_if (!Double.isfinite x) (w ++ ".value: must be finite"))
      ++ match r.find "params" with
        | some (.object members) => check_params (.object members) w
        | _ => []

def num (s : json D) (k : String) : D :=
  ((s.find k).bind json.double).getD ((0 : Nat) : D)

def check_order (s : json D) (w lower upper : String) : List String :=
  problem_if (s.contains lower && s.contains upper && Double.lt (num s upper) (num s lower))
    s!"{w}: {lower} > {upper}"

def check_ordering (s : json D) (w : String) : List String :=
  check_order s w "min" "max" ++ check_order s w "min" "median" ++ check_order s w "median" "max"
    ++ check_order s w "p5" "p95"

def check_late_trials (s : json D) (w : String) : List String :=
  check_int s "late_trials" fun late =>
    if late < 0 then
      [w ++ ".late_trials: must be >= 0"]
    else
      check_int s "n" fun n => problem_if (n < late) (w ++ ".late_trials: must be <= n")

def check_summary (s : json D) (i : Nat) : List String :=
  let w := s!"summary[{i}]"
  if !s.is_object then
    [w ++ ": expected object"]
  else
    (["workload", "metric"].flatMap (require s · w json.is_string "string"))
      ++ (["thread_count", "working_set_bytes", "n"].flatMap (require s · w is_int "integer"))
      ++ (["mean", "median", "stddev", "cov", "min", "p5", "p95", "max"].flatMap
        (require s · w json.is_number "number"))
      ++ check_metric s w
      ++ check_workload s w
      ++ check_int s "n" (fun n => problem_if (n < 1) (w ++ ".n: must be >= 1"))
      ++ (["stddev", "cov", "mad", "clock_call_ns_start", "clock_call_ns_end"].flatMap fun k =>
        check_number s k fun x => problem_if (Double.lt x ((0 : Nat) : D)) s!"{w}.{k}: must be >= 0")
      ++ check_late_trials s w
      ++ check_int s "canary_attempts" (fun c => problem_if (c < 1) (w ++ ".canary_attempts: must be >= 1"))
      ++ check_ordering s w

def check_elems (j : json D) (check : json D → Nat → List String) : List String :=
  match j with
  | .array elems => elems.zipIdx.flatMap fun (v, i) => check v i
  | _ => []

end Validate

open Validate in
def validate_run (j : json D) : List String :=
  let w := "run"
  if !j.is_object then
    ["run: expected object"]
  else
    require j "schema_version" w is_int "integer"
      ++ check_int j "schema_version" (fun v =>
        problem_if (Int.bmod v (2 ^ 32) ≠ 1) "run.schema_version: must be 1")
      ++ require j "run_id" w json.is_string "string"
      ++ check_string j "run_id" (fun s => problem_if (!kUuid s) "run.run_id: must be a lowercase UUID")
      ++ (["started_at", "finished_at"].flatMap fun k =>
        require j k w json.is_string "string"
          ++ check_string j k fun s =>
            problem_if (!kTimestamp s) s!"run.{k}: must be RFC 3339 UTC with 'Z'")
      ++ require j "argv" w json.is_array "array"
      ++ require j "results" w json.is_array "array"
      ++ (match j.find "machine" with
        | some m => check_machine m
        | none => ["run: missing required 'machine'"])
      ++ (match j.find "results" with
        | some results => check_elems results check_result
        | none => [])
      ++ match j.find "summary" with
        | some (.array elems) => check_elems (.array elems) check_summary
        | some _ => ["run.summary: expected array"]
        | none => []

end Bench
