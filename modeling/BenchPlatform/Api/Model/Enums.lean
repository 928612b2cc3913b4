/-!
This module contains the enumerations of the result schema, as the API's model package lists them.
-/

namespace Api
namespace Model

def Workloads : List String :=
  ["cpu_int", "cpu_fp", "cpu_hash", "mem_bw", "mem_latency", "disk_seq", "disk_rand"]

def Metrics : List String :=
  ["cpu_int_ops", "cpu_fp_ops", "cpu_hash_ops", "mem_read_bw", "mem_write_bw", "mem_copy_bw",
    "mem_latency", "disk_seq_read_bw", "disk_seq_write_bw", "disk_rand_read_iops",
    "disk_rand_write_iops", "disk_rand_read_p99_us"]

def UnitOf : List (String × String) :=
  [("cpu_int_ops", "ops/s"), ("cpu_fp_ops", "ops/s"), ("cpu_hash_ops", "ops/s"),
    ("mem_read_bw", "GB/s"), ("mem_write_bw", "GB/s"), ("mem_copy_bw", "GB/s"),
    ("mem_latency", "ns"), ("disk_seq_read_bw", "MB/s"), ("disk_seq_write_bw", "MB/s"),
    ("disk_rand_read_iops", "IOPS"), ("disk_rand_write_iops", "IOPS"),
    ("disk_rand_read_p99_us", "us")]

def WorkloadOf : List (String × String) :=
  [("cpu_int_ops", "cpu_int"), ("cpu_fp_ops", "cpu_fp"), ("cpu_hash_ops", "cpu_hash"),
    ("mem_read_bw", "mem_bw"), ("mem_write_bw", "mem_bw"), ("mem_copy_bw", "mem_bw"),
    ("mem_latency", "mem_latency"), ("disk_seq_read_bw", "disk_seq"),
    ("disk_seq_write_bw", "disk_seq"), ("disk_rand_read_iops", "disk_rand"),
    ("disk_rand_write_iops", "disk_rand"), ("disk_rand_read_p99_us", "disk_rand")]

def mapGet (m : List (String × String)) (key : String) : String :=
  (m.lookup key).getD ""

def ValidWorkload (w : String) : Bool :=
  Workloads.contains w

def ValidMetric (m : String) : Bool :=
  Metrics.contains m

end Model
end Api
