import BenchPlatform.Engine.Stats

/-!
This module contains the records of a run and the document that they are written as.
-/

namespace Bench

inductive json (D : Type) where
  | null
  | boolean (b : Bool)
  | number_integer (i : Int)
  | number_unsigned (n : Nat)
  | number_float (x : D)
  | string (s : String)
  | array (elems : List (json D))
  | object (members : List (String × json D))

structure MachineInfo where
  id : String
  hostname : String
  cpu_model : String
  physical_cores : Int
  logical_cpus : Int
  l1d_kb : Int
  l2_kb : Int
  l3_kb : Int
  memory_bytes : Nat
  os : String
  kernel : String
  compiler : String
  compiler_flags : String
  engine_version : String
  engine_git_sha : String
  virtualized : String

structure Result (D : Type) where
  workload : Workload
  thread_count : Int
  working_set_bytes : Nat
  metric : Metric
  value : D
  trial : Int
  timestamp : String
  duration_ns : Nat
  params : json D

structure Summary (D : Type) where
  workload : Workload
  metric : Metric
  thread_count : Int
  working_set_bytes : Nat
  n : Int
  mean : D
  median : D
  stddev : D
  cov : D
  min : D
  p5 : D
  p95 : D
  max : D
  mad : D
  late_trials : Int
  canary_attempts : Int
  clock_call_ns_start : D
  clock_call_ns_end : D

structure RunEnvelope (D : Type) where
  schema_version : Int
  run_id : String
  started_at : String
  finished_at : String
  machine : MachineInfo
  argv : List String
  results : List (Result D)
  summary : List (Summary D)

end Bench
