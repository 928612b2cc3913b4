import BenchPlatform.Api.Model.Stream

/-!
This module contains the published schema of a run, `schema/benchmark-result.schema.json`: the keywords that it uses as
predicates on JSON values, and its definitions.
-/

namespace Api

/--
The literal of a number: its sign, its digits as one number, and the power of ten that they count.
-/
structure Decimal where
  neg : Bool
  digits : Nat
  exp : Int

namespace Decimal

def parseExponent : List Char → Option Int
  | [] => some 0
  | c :: cs =>
    let (neg, cs) := takeSign cs
    let (n, len, rest) := takeDigits cs 0 0
    if (c = 'e' ∨ c = 'E') ∧ 0 < len ∧ rest = [] then
      some (if neg then -(n : Int) else n)
    else
      none

def parse (literal : String) : Option Decimal := do
  let (neg, cs) := takeSign literal.toList
  let (int, intLen, cs) := takeDigits cs 0 0
  let (digits, fracLen, cs) :=
    match cs with
    | '.' :: cs => takeDigits cs int 0
    | cs => (int, 0, cs)
  if intLen + fracLen = 0 then
    none
  let exp ← parseExponent cs
  return { neg := neg, digits := digits, exp := exp - fracLen }

/--
The integer that a literal denotes, if it has no fractional part.
-/
def toInt? (d : Decimal) : Option Int :=
  let num := d.digits * 10 ^ d.exp.toNat
  let den := 10 ^ (-d.exp).toNat
  if num % den = 0 then
    some (if d.neg then -((num / den : Nat) : Int) else (num / den : Nat))
  else
    none

theorem parse_of_parseInt64 {literal : String} {n : Int} (h : parseInt64 literal = some n)
    : ∃ d, parse literal = some d ∧ d.toInt? = some n := by
  unfold parseInt64 at h
  dsimp only at h
  generalize hsign : takeSign literal.toList = sign at h
  obtain ⟨neg, cs⟩ := sign
  dsimp only at h
  generalize hdigits : takeDigits cs 0 0 = found at h
  obtain ⟨digits, len, rest⟩ := found
  dsimp only at h
  split at h
  . cases h
  . rename_i hlen
    rw [not_or, not_not] at hlen
    obtain ⟨hlen, rfl⟩ := hlen
    refine ⟨{ neg := neg, digits := digits, exp := 0 }, ?_, ?_⟩
    . unfold parse
      simp [hsign, hdigits, hlen, parseExponent]
    . have hvalue : (if neg then -(digits : Int) else digits) = n := by
        cases neg with
        | true =>
          simp only [if_true, Option.ite_none_right_eq_some, Option.some.injEq] at h
          exact h.2
        | false =>
          simp only [Bool.false_eq_true, if_false, Option.ite_none_right_eq_some, Option.some.injEq] at h
          exact h.2
      unfold toInt?
      simp [Nat.mod_one, hvalue]

example : (parse "-1.20e3").bind toInt? = some (-1200) := by decide

example : (parse "0.5").bind toInt? = none := by decide

end Decimal

namespace Schema

def string (p : String → Prop) : Json → Prop
  | .str s => p s
  | _ => False

def integer (p : Int → Prop) : Json → Prop
  | .num literal => ∃ d n, Decimal.parse literal = some d ∧ d.toInt? = some n ∧ p n
  | _ => False

def number : Json → Prop
  | .num _ => True
  | _ => False

/--
A number with the minimum 0.
-/
def nonnegative : Json → Prop
  | .num literal => ∃ d, Decimal.parse literal = some d ∧ (d.neg = false ∨ d.digits = 0)
  | _ => False

def boolean : Json → Prop
  | .bool _ => True
  | _ => False

def array (items : Json → Prop) : Json → Prop
  | .arr elems => ∀ v ∈ elems, items v
  | _ => False

/--
The members of an object. The schema is about objects whose names are unique. It is closed if it allows no additional
properties.
-/
structure Members (isClosed : Bool) (keys : List String) (props : List (String × (Json → Prop)))
    (members : List (String × Json)) : Prop where
  unique : (members.map Prod.fst).Nodup
  required : ∀ key ∈ keys, key ∈ members.map Prod.fst
  properties : ∀ p ∈ props, ∀ v, (p.1, v) ∈ members → p.2 v
  closed : isClosed = true → ∀ key ∈ members.map Prod.fst, key ∈ props.map Prod.fst

def object (isClosed : Bool) (required : List String) (properties : List (String × (Json → Prop))) : Json → Prop
  | .obj members => Members isClosed required properties members
  | _ => False

def schema_version : Json → Prop :=
  integer (· = 1)

def uuid : Json → Prop :=
  string (Model.uuidRe · = true)

/--
The format `date-time` is an annotation, the pattern an assertion.
-/
def timestamp : Json → Prop :=
  string (Model.timestampRe · = true)

def workload : Json → Prop :=
  string (· ∈ ["cpu_int", "cpu_fp", "cpu_hash", "mem_bw", "mem_latency", "disk_seq", "disk_rand"])

def metric : Json → Prop :=
  string (· ∈ ["cpu_int_ops", "cpu_fp_ops", "cpu_hash_ops", "mem_read_bw", "mem_write_bw", "mem_copy_bw",
    "mem_latency", "disk_seq_read_bw", "disk_seq_write_bw", "disk_rand_read_iops", "disk_rand_write_iops",
    "disk_rand_read_p99_us"])

def unit : Json → Prop :=
  string (· ∈ ["ops/s", "GB/s", "ns", "MB/s", "IOPS", "us"])

def machine_id : Json → Prop :=
  string (Model.machineIDRe · = true)

def text : Json → Prop :=
  string (· ≠ "")

def anyString : Json → Prop :=
  string fun _ => True

def machine : Json → Prop :=
  object true
    ["id", "hostname", "cpu_model", "physical_cores", "logical_cpus", "l1d_kb", "l2_kb", "l3_kb", "memory_bytes", "os",
      "kernel", "compiler", "compiler_flags", "engine_version", "engine_git_sha"]
    [("id", machine_id), ("hostname", text), ("cpu_model", text), ("physical_cores", integer (1 ≤ ·)),
      ("logical_cpus", integer (1 ≤ ·)), ("l1d_kb", integer (0 ≤ ·)), ("l2_kb", integer (0 ≤ ·)),
      ("l3_kb", integer (0 ≤ ·)), ("memory_bytes", integer (0 ≤ ·)), ("os", text), ("kernel", text),
      ("compiler", text), ("compiler_flags", anyString), ("engine_version", text), ("engine_git_sha", text),
      ("virtualized", anyString)]

def params : Json → Prop :=
  object false []
    [("cold", string (· ∈ ["clflush", "evict", "none", "n/a"])),
      ("cold_requested", string (· ∈ ["clflush", "evict", "none"])), ("cold_bytes", integer (0 ≤ ·)),
      ("cold_prep_mean_us", nonnegative), ("cold_prep_max_us", nonnegative), ("pinned", boolean),
      ("cpus", array (integer (0 ≤ ·))), ("warmup_trials", integer (0 ≤ ·)), ("trial_ms", integer (1 ≤ ·)),
      ("seed", integer fun _ => True), ("huge_pages", boolean), ("huge_page_bytes", integer (0 ≤ ·)),
      ("block_bytes", integer (1 ≤ ·)), ("queue_depth", integer (1 ≤ ·)),
      ("unit_of_work", string (· ∈ ["ops", "bytes", "loads", "ios"])), ("pre_trial_prep_max_us", nonnegative),
      ("mem_mode", string (· ∈ ["read", "write", "copy"])), ("buffer_bytes", integer (0 ≤ ·)),
      ("passes_per_batch", integer (1 ≤ ·)), ("nt", boolean), ("nt_effective", boolean),
      ("huge_pages_requested", boolean), ("thp_policy", string (· ∈ ["always", "madvise", "never", "unknown"])),
      ("buffer_huge_page_bytes", integer (0 ≤ ·)), ("buffer_huge_pages", boolean), ("chase_lines", integer (2 ≤ ·)),
      ("line_bytes", integer (1 ≤ ·)), ("batch_loads", integer (1 ≤ ·)), ("disk_path", text),
      ("file_bytes", integer (1 ≤ ·)), ("o_direct", boolean), ("o_dsync", boolean), ("fadvise_dontneed", boolean),
      ("blocks_per_batch", integer (1 ≤ ·)), ("ios_per_batch", integer (1 ≤ ·)), ("fdatasync_per_batch", boolean),
      ("region_offset", integer (0 ≤ ·)), ("region_bytes", integer (0 ≤ ·)), ("blocks_in_file", integer (1 ≤ ·)),
      ("latency_bucket_us", integer (1 ≤ ·)), ("latency_bucket_count", integer (1 ≤ ·)),
      ("latency_samples", integer (0 ≤ ·)), ("latency_min_us", nonnegative), ("latency_max_us", nonnegative),
      ("latency_overflow", integer (0 ≤ ·))]

/--
The cases of `allOf`: for each metric its unit and its workload.
-/
def cases : List (String × String × String) :=
  [("cpu_int_ops", "ops/s", "cpu_int"), ("cpu_fp_ops", "ops/s", "cpu_fp"), ("cpu_hash_ops", "ops/s", "cpu_hash"),
    ("mem_read_bw", "GB/s", "mem_bw"), ("mem_write_bw", "GB/s", "mem_bw"), ("mem_copy_bw", "GB/s", "mem_bw"),
    ("mem_latency", "ns", "mem_latency"), ("disk_seq_read_bw", "MB/s", "disk_seq"),
    ("disk_seq_write_bw", "MB/s", "disk_seq"), ("disk_rand_read_iops", "IOPS", "disk_rand"),
    ("disk_rand_write_iops", "IOPS", "disk_rand"), ("disk_rand_read_p99_us", "us", "disk_rand")]

/--
If the object has this metric, then it has this unit and this workload.
-/
def ifMetric (c : String × String × String) : Json → Prop
  | .obj members => ("metric", .str c.1) ∈ members →
    ∀ p ∈ [("unit", c.2.1), ("workload", c.2.2)], ∀ v, (p.1, v) ∈ members → v = .str p.2
  | _ => True

def result_core (v : Json) : Prop :=
  object false
    ["workload", "thread_count", "working_set_bytes", "metric", "value", "unit", "trial", "timestamp", "duration_ns"]
    [("workload", workload), ("thread_count", integer (1 ≤ ·)), ("working_set_bytes", integer (0 ≤ ·)),
      ("metric", metric), ("value", number), ("unit", unit), ("trial", integer (0 ≤ ·)), ("timestamp", timestamp),
      ("duration_ns", integer (1 ≤ ·)), ("params", params)] v
  ∧ ∀ c ∈ cases, ifMetric c v

def run_result (v : Json) : Prop :=
  result_core v
  ∧ object false [] [("schema_version", fun _ => False), ("run_id", fun _ => False), ("machine", fun _ => False)] v

def summary : Json → Prop :=
  object true
    ["workload", "metric", "thread_count", "working_set_bytes", "n", "mean", "median", "stddev", "cov", "min", "p5",
      "p95", "max"]
    [("workload", workload), ("metric", metric), ("thread_count", integer (1 ≤ ·)),
      ("working_set_bytes", integer (0 ≤ ·)), ("n", integer (1 ≤ ·)), ("mean", number), ("median", number),
      ("stddev", nonnegative), ("cov", nonnegative), ("min", number), ("p5", number), ("p95", number),
      ("max", number), ("mad", nonnegative), ("late_trials", integer (0 ≤ ·)), ("canary_attempts", integer (1 ≤ ·)),
      ("clock_call_ns_start", nonnegative), ("clock_call_ns_end", nonnegative)]

/--
What a run must have, here and in `openapi.yaml`.
-/
def runRequired : List String :=
  ["schema_version", "run_id", "started_at", "finished_at", "machine", "argv", "results"]

def run : Json → Prop :=
  object true runRequired
    [("schema_version", schema_version), ("run_id", uuid), ("started_at", timestamp), ("finished_at", timestamp),
      ("machine", machine), ("argv", array anyString), ("results", array run_result), ("summary", array summary)]

end Schema

/--
A request body, and whether anything but white space follows on the value that `StreamRunEnvelope` reads of it.
-/
structure Document where
  body : Model.Body
  trailing : Bool

/--
The document is one JSON value, which obeys the schema.
-/
def Document.Satisfies (schema : Json → Prop) (doc : Document) : Prop :=
  doc.trailing = false ∧ ∃ members, doc.body = .object members .closed ∧ schema (.obj members)

end Api
