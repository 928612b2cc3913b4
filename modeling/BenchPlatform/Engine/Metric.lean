import Mathlib.Algebra.Ring.Nat

/-!
This module contains the workloads, metrics and units of the engine, what each workload measures and
the working set that it really uses.
-/

namespace Bench

inductive Workload where
  | cpu_int
  | cpu_fp
  | cpu_hash
  | mem_bw
  | mem_latency
  | disk_seq
  | disk_rand
  deriving DecidableEq, Repr

inductive Metric where
  | cpu_int_ops
  | cpu_fp_ops
  | cpu_hash_ops
  | mem_read_bw
  | mem_write_bw
  | mem_copy_bw
  | mem_latency
  | disk_seq_read_bw
  | disk_seq_write_bw
  | disk_rand_read_iops
  | disk_rand_write_iops
  | disk_rand_read_p99_us
  deriving DecidableEq, Repr

inductive MetricUnit where
  | ops_per_s
  | gb_per_s
  | ns
  | mb_per_s
  | iops
  | us
  deriving DecidableEq, Repr

def kAllWorkloads : List Workload :=
  [.cpu_int, .cpu_fp, .cpu_hash, .mem_bw, .mem_latency, .disk_seq, .disk_rand]

def kAllMetrics : List Metric :=
  [.cpu_int_ops, .cpu_fp_ops, .cpu_hash_ops, .mem_read_bw, .mem_write_bw, .mem_copy_bw, .mem_latency,
    .disk_seq_read_bw, .disk_seq_write_bw, .disk_rand_read_iops, .disk_rand_write_iops,
    .disk_rand_read_p99_us]

def kAllUnits : List MetricUnit :=
  [.ops_per_s, .gb_per_s, .ns, .mb_per_s, .iops, .us]

def Workload.to_string : Workload → String
  | .cpu_int => "cpu_int"
  | .cpu_fp => "cpu_fp"
  | .cpu_hash => "cpu_hash"
  | .mem_bw => "mem_bw"
  | .mem_latency => "mem_latency"
  | .disk_seq => "disk_seq"
  | .disk_rand => "disk_rand"

def Metric.to_string : Metric → String
  | .cpu_int_ops => "cpu_int_ops"
  | .cpu_fp_ops => "cpu_fp_ops"
  | .cpu_hash_ops => "cpu_hash_ops"
  | .mem_read_bw => "mem_read_bw"
  | .mem_write_bw => "mem_write_bw"
  | .mem_copy_bw => "mem_copy_bw"
  | .mem_latency => "mem_latency"
  | .disk_seq_read_bw => "disk_seq_read_bw"
  | .disk_seq_write_bw => "disk_seq_write_bw"
  | .disk_rand_read_iops => "disk_rand_read_iops"
  | .disk_rand_write_iops => "disk_rand_write_iops"
  | .disk_rand_read_p99_us => "disk_rand_read_p99_us"

def MetricUnit.to_string : MetricUnit → String
  | .ops_per_s => "ops/s"
  | .gb_per_s => "GB/s"
  | .ns => "ns"
  | .mb_per_s => "MB/s"
  | .iops => "IOPS"
  | .us => "us"

def parse_workload (s : String) : Option Workload :=
  kAllWorkloads.find? (·.to_string = s)

def parse_metric (s : String) : Option Metric :=
  kAllMetrics.find? (·.to_string = s)

def parse_unit (s : String) : Option MetricUnit :=
  kAllUnits.find? (·.to_string = s)

def unit_of : Metric → MetricUnit
  | .cpu_int_ops | .cpu_fp_ops | .cpu_hash_ops => .ops_per_s
  | .mem_read_bw | .mem_write_bw | .mem_copy_bw => .gb_per_s
  | .mem_latency => .ns
  | .disk_seq_read_bw | .disk_seq_write_bw => .mb_per_s
  | .disk_rand_read_iops | .disk_rand_write_iops => .iops
  | .disk_rand_read_p99_us => .us

def workload_of : Metric → Workload
  | .cpu_int_ops => .cpu_int
  | .cpu_fp_ops => .cpu_fp
  | .cpu_hash_ops => .cpu_hash
  | .mem_read_bw | .mem_write_bw | .mem_copy_bw => .mem_bw
  | .mem_latency => .mem_latency
  | .disk_seq_read_bw | .disk_seq_write_bw => .disk_seq
  | .disk_rand_read_iops | .disk_rand_write_iops | .disk_rand_read_p99_us => .disk_rand

inductive ValueRule where
  | units_per_s
  | giga_units_per_s
  | mega_units_per_s
  | ns_per_unit
  | latency_p99_us
  deriving DecidableEq, Repr

def value_rule_of : Metric → ValueRule
  | .cpu_int_ops | .cpu_fp_ops | .cpu_hash_ops => .units_per_s
  | .disk_rand_read_iops | .disk_rand_write_iops => .units_per_s
  | .mem_read_bw | .mem_write_bw | .mem_copy_bw => .giga_units_per_s
  | .disk_seq_read_bw | .disk_seq_write_bw => .mega_units_per_s
  | .mem_latency => .ns_per_unit
  | .disk_rand_read_p99_us => .latency_p99_us

structure WorkloadDesc where
  kind : Workload
  metrics : List Metric
  implemented : Bool

def workload_registry : List WorkloadDesc :=
  [⟨.cpu_int, [.cpu_int_ops], true⟩,
    ⟨.cpu_fp, [.cpu_fp_ops], true⟩,
    ⟨.cpu_hash, [.cpu_hash_ops], true⟩,
    ⟨.mem_bw, [.mem_read_bw, .mem_write_bw, .mem_copy_bw], true⟩,
    ⟨.mem_latency, [.mem_latency], true⟩,
    ⟨.disk_seq, [.disk_seq_read_bw, .disk_seq_write_bw], true⟩,
    ⟨.disk_rand, [.disk_rand_read_iops, .disk_rand_write_iops, .disk_rand_read_p99_us], true⟩]

def is_implemented (w : Workload) : Bool :=
  match workload_registry.find? (·.kind = w) with
  | some d => d.implemented
  | none => false

def is_rider (m : Metric) : Bool :=
  m = .disk_rand_read_p99_us

def riders_of (m : Metric) : List Metric :=
  if m = .disk_rand_read_iops then [.disk_rand_read_p99_us] else []

def metrics_of (w : Workload) : List Metric :=
  workload_registry.flatMap fun d => if d.kind = w then d.metrics.filter (!is_rider ·) else []

def kCacheLine : Nat :=
  64

def kDiskSeqBlock : Nat :=
  2 ^ 20

def kDiskDefaultSize : Nat :=
  4 * 2 ^ 30

namespace MemBwWorkload

def kDefaultWorkingSet : Nat :=
  64 * 2 ^ 20

def buffer_bytes_for (working_set : Nat) : Nat :=
  let want := if working_set = 0 then kDefaultWorkingSet else working_set
  max 1 (want / kCacheLine) * kCacheLine

end MemBwWorkload

namespace MemLatencyWorkload

def kDefaultWorkingSet : Nat :=
  64 * 2 ^ 20

def kMinLines : Nat :=
  2

def buffer_bytes_for (working_set : Nat) : Nat :=
  let want := if working_set = 0 then kDefaultWorkingSet else working_set
  max kMinLines (want / kCacheLine) * kCacheLine

end MemLatencyWorkload

def effective_working_set (w : Workload) (requested : Nat) : Nat :=
  match w with
  | .mem_bw => MemBwWorkload.buffer_bytes_for requested
  | .mem_latency => MemLatencyWorkload.buffer_bytes_for requested
  | .disk_seq | .disk_rand =>
    let want := if requested = 0 then kDiskDefaultSize else requested
    max 1 (want / kDiskSeqBlock) * kDiskSeqBlock
  | _ => requested

def Workload.on_disk : Workload → Bool
  | .disk_seq | .disk_rand => true
  | _ => false

def Metric.writes_disk : Metric → Bool
  | .disk_seq_write_bw | .disk_rand_write_iops => true
  | _ => false

theorem parse_metric_to_string (m : Metric) : parse_metric m.to_string = some m := by
  cases m <;> decide

theorem is_implemented_workload_of (m : Metric) : is_implemented (workload_of m) = true := by
  cases m <;> decide

end Bench
