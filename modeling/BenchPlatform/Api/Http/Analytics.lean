import BenchPlatform.Api.Strings
import BenchPlatform.Api.Model.Enums
import Mathlib.Data.List.Sort

/-!
This module contains the analytics handlers up to the cache: how they read the query, what they
reject, the key they ask the cache for and what they load if it is not there.
-/

namespace Api
namespace Http

/--
`url.Values`: the values of each parameter in the order of the query string.
-/
abbrev Values := Bytes → List Bytes

/--
`Values.Get`: the first value, or the empty string.
-/
def Values.get (q : Values) (name : String) : Bytes :=
  (q (ascii name)).headD []

def Values.ofPairs (pairs : List (String × String)) : Values :=
  fun name => (pairs.filter fun p => ascii p.1 = name).map fun p => ascii p.2

/--
A piece of a message: fixed text, or a value that is formatted with `%q`.
-/
inductive Part where
  | text (s : String)
  | quoted (v : Bytes)
  deriving DecidableEq

/--
What `writeError` is called with.
-/
structure Rejection where
  status : Nat
  code : String
  message : List Part
  deriving DecidableEq

def invalidQuery (message : List Part) : Rejection where
  status := 400
  code := "invalid_query"
  message := message

def validMetric (v : Bytes) : Bool :=
  (Model.Metrics.map ascii).contains v

def validWorkload (v : Bytes) : Bool :=
  (Model.Workloads.map ascii).contains v

/--
`sort.Strings`.
-/
def sortStrings (vs : List Bytes) : List Bytes :=
  vs.insertionSort (· ≤ ·)

def keyField (q : Values) (name : Bytes) : Bytes :=
  match q name with
  | [] => []
  | values => bar :: (name ++ equals :: [comma].intercalate (sortStrings values))

def cacheKey (endpoint : String) (q : Values) (params : List String) : Bytes :=
  ascii endpoint ++ (sortStrings (params.map ascii)).flatMap (keyField q)

inductive GroupBy where
  | threadCount
  | workingSetBytes
  deriving DecidableEq

def parseGroupBy (v : Bytes) : Except (List Part) GroupBy :=
  if v = [] ∨ v = ascii "thread_count" then
    .ok .threadCount
  else if v = ascii "working_set_bytes" then
    .ok .workingSetBytes
  else
    .error [.text "group_by must be thread_count or working_set_bytes, got ", .quoted v]

/--
`store.MeasurementFilter`, the fields that these handlers set. `limit` 0 is no limit.
-/
structure MeasurementFilter where
  machineID : Bytes
  metric : Bytes
  workload : Bytes
  threadCount : Option Int
  workingSetBytes : Option Int
  limit : Int
  deriving DecidableEq

/--
What the `load` function of a handler closes over.
-/
inductive Load where
  | aggregates (f : MeasurementFilter) (by' : GroupBy)
  | compare (machines : List Bytes) (f : MeasurementFilter) (by' : GroupBy)
  | trials (f : MeasurementFilter) (threshold : Int) (downsample : Bytes)
  deriving DecidableEq

/--
A call of `cache.Fetch`.
-/
@[ext]
structure Request where
  key : Bytes
  machines : List Bytes
  load : Load
  deriving DecidableEq

def requireFilters (q : Values) : Except Rejection (Bytes × Bytes) :=
  let machineID := q.get "machine_id"
  let metric := q.get "metric"
  if machineID = [] ∨ metric = [] then
    .error
      { status := 400
        code := "missing_filter"
        message := [.text ("machine_id and metric are required; an aggregate over every machine "
          ++ "and metric is not a question this endpoint answers")] }
  else if ¬validMetric metric then
    .error (invalidQuery [.text "unknown metric ", .quoted metric])
  else
    .ok (machineID, metric)

/--
A parameter that is an integer of at least `low` and at most `high`, if it is there.
-/
def parseBounded (v : Bytes) (low : Int) (high : Option Int) (message : String)
    : Except Rejection (Option Int) :=
  if v = [] then
    .ok none
  else
    match parseInt v with
    | none => .error (invalidQuery [.text message])
    | some n =>
      if n < low ∨ high.any (n > ·) then
        .error (invalidQuery [.text message])
      else
        .ok (some n)

def parseThreadCount (q : Values) : Except Rejection (Option Int) :=
  parseBounded (q.get "thread_count") 1 none "thread_count must be a positive integer"

def parseWorkingSetBytes (q : Values) : Except Rejection (Option Int) :=
  parseBounded (q.get "working_set_bytes") 0 none
    "working_set_bytes must be a non-negative integer"

def pinOther (q : Values) (f : MeasurementFilter) : GroupBy → Except Rejection MeasurementFilter
  | .threadCount => do
    let n ← parseWorkingSetBytes q
    return { f with workingSetBytes := n }
  | .workingSetBytes => do
    let n ← parseThreadCount q
    return { f with threadCount := n }

def aggregatesParams : List String :=
  ["machine_id", "metric", "workload", "group_by", "thread_count", "working_set_bytes"]

/--
`handleAggregates` up to the key: the filter and the grouping.
-/
def readAggregates (q : Values) : Except Rejection (MeasurementFilter × GroupBy) := do
  let (machineID, metric) ← requireFilters q
  let groupBy ← (parseGroupBy (q.get "group_by")).mapError invalidQuery
  let workload := q.get "workload"
  if workload ≠ [] ∧ ¬validWorkload workload then
    throw (invalidQuery [.text "unknown workload ", .quoted workload])
  let f : MeasurementFilter :=
    { machineID := machineID, metric := metric, workload := workload, threadCount := none,
      workingSetBytes := none, limit := 0 }
  let f ← pinOther q f groupBy
  return (f, groupBy)

def handleAggregates (q : Values) : Except Rejection Request := do
  let (f, groupBy) ← readAggregates q
  return { key := cacheKey "agg" q aggregatesParams
           machines := [f.machineID]
           load := .aggregates f groupBy }

def compareParams : List String :=
  ["metric", "workload", "group_by", "thread_count", "working_set_bytes"]

def maxCompare : Nat := 8

/--
The machines of a comparison, in the order given: the first one is the baseline.
-/
def splitMachines (v : Bytes) : List Bytes :=
  ((v.splitOn comma).map trimSpace).filter (· ≠ [])

def readMachines (q : Values) : Except Rejection (List Bytes) :=
  let machines := splitMachines (q.get "machines")
  if machines.length < 2 then
    .error (invalidQuery [.text "machines must list at least two machine ids, comma-separated"])
  else if machines.length > maxCompare then
    .error (invalidQuery [.text "at most 8 machines may be compared at once"])
  else
    .ok machines

/--
The filter of a comparison. The workload is not checked here.
-/
def readCompareFilter (q : Values) : Except Rejection (MeasurementFilter × GroupBy) := do
  let groupBy ← (parseGroupBy (q.get "group_by")).mapError invalidQuery
  let f : MeasurementFilter :=
    { machineID := [], metric := q.get "metric", workload := q.get "workload", threadCount := none,
      workingSetBytes := none, limit := 0 }
  let f ← pinOther q f groupBy
  return (f, groupBy)

def handleCompare (q : Values) : Except Rejection Request := do
  let metric := q.get "metric"
  if metric = [] ∨ ¬validMetric metric then
    throw (invalidQuery [.text "metric is required and must be one of the 12 metrics, got ",
      .quoted metric])
  let machines ← readMachines q
  let (f, groupBy) ← readCompareFilter q
  let key := cacheKey "cmp" q compareParams
    ++ bar :: (ascii "machines" ++ equals :: [comma].intercalate machines)
  return { key := key, machines := machines, load := .compare machines f groupBy }

def maxTrials : Int := 10000

def parseDownsample (v : Bytes) : Except (List Part) Int :=
  let malformed := [.text "downsample must be lttb:N, got ", .quoted v]
  let outOfRange := [.text "downsample threshold must be between 3 and 10000"]
  if v = [] then
    .ok 0
  else
    match cut 58 v with
    | none => .error malformed
    | some (name, count) =>
      if name ≠ ascii "lttb" then
        .error malformed
      else
        match parseInt count with
        | none => .error outOfRange
        | some n => if n < 3 ∨ n > maxTrials then .error outOfRange else .ok n

def trialsParams : List String :=
  ["machine_id", "metric", "workload", "thread_count", "working_set_bytes", "limit", "downsample"]

/--
`handleTrials` up to the key: the filter and the threshold.
-/
def readTrials (q : Values) : Except Rejection (MeasurementFilter × Int) := do
  let (machineID, metric) ← requireFilters q
  let threadCount ← parseThreadCount q
  let workingSetBytes ← parseWorkingSetBytes q
  let limit ← parseBounded (q.get "limit") 1 (some maxTrials) "limit must be between 1 and 10000"
  let threshold ← (parseDownsample (q.get "downsample")).mapError invalidQuery
  let f : MeasurementFilter :=
    { machineID := machineID, metric := metric, workload := q.get "workload",
      threadCount := threadCount, workingSetBytes := workingSetBytes,
      limit := limit.getD maxTrials }
  return (f, threshold)

def handleTrials (q : Values) : Except Rejection Request := do
  let (f, threshold) ← readTrials q
  return { key := cacheKey "trials" q trialsParams
           machines := [f.machineID]
           load := .trials f threshold (q.get "downsample") }

inductive Endpoint where
  | aggregates
  | compare
  | trials
  deriving DecidableEq

def Endpoint.handle : Endpoint → Values → Except Rejection Request
  | .aggregates => handleAggregates
  | .compare => handleCompare
  | .trials => handleTrials

/--
The parameters that the key of an endpoint is built from with `cacheKey`.
-/
def Endpoint.params : Endpoint → List String
  | .aggregates => aggregatesParams
  | .compare => compareParams
  | .trials => trialsParams

def Endpoint.names : Endpoint → List String
  | .aggregates => aggregatesParams
  | .compare => "machines" :: compareParams
  | .trials => trialsParams

/--
The parameter that is in the key though the handler does not look at it: the one it groups by.
-/
def Endpoint.unread (e : Endpoint) (q : Values) : Option String :=
  match e, parseGroupBy (q.get "group_by") with
  | .trials, _ | _, .error _ => none
  | _, .ok .threadCount => some "thread_count"
  | _, .ok .workingSetBytes => some "working_set_bytes"

end Http
end Api
