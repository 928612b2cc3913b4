import BenchPlatform.Engine.Runner.Basic

/-!
This module contains how the options of the `run` command become the configuration of a run.
-/

namespace Bench

variable {D : Type} [Double D]

inductive CliError where
  | validation (name what : String)
  /-- A check that the option itself makes. -/
  | option (name : String)
  /-- An exception of `std::stoi`. -/
  | stoi
  deriving DecidableEq

def isspace (c : Char) : Bool :=
  c = ' ' || ('\t' ≤ c && c ≤ '\r')

def decimal (digits : List Char) : Nat :=
  digits.foldl (fun n c => n * 10 + (c.toNat - '0'.toNat)) 0

/--
`std::stoi`: what follows the number is ignored.
-/
def stoi (s : String) : Option Int :=
  let cs := s.toList.dropWhile isspace
  let (neg, cs) :=
    match cs with
    | '-' :: cs => (true, cs)
    | '+' :: cs => (false, cs)
    | cs => (false, cs)
  let digits := cs.takeWhile Char.isDigit
  let i : Int := if neg then -(decimal digits : Int) else decimal digits
  if digits = [] then none
  else if -2 ^ 31 ≤ i ∧ i < 2 ^ 31 then some i
  else none

def parse_size (s : String) : Except CliError Nat :=
  let digits := s.toList.takeWhile Char.isDigit
  let v := decimal digits
  if digits = [] ∨ 2 ^ 64 ≤ v then
    throw (.validation "size" ("not a number: " ++ s))
  else
    let suffix := String.ofList ((s.toList.dropWhile Char.isDigit).map Char.toUpper)
    if suffix = "" ∨ suffix = "B" then
      pure v
    else if suffix = "K" ∨ suffix = "KB" ∨ suffix = "KIB" then
      pure (v * 2 ^ 10 % 2 ^ 64)
    else if suffix = "M" ∨ suffix = "MB" ∨ suffix = "MIB" then
      pure (v * 2 ^ 20 % 2 ^ 64)
    else if suffix = "G" ∨ suffix = "GB" ∨ suffix = "GIB" then
      pure (v * 2 ^ 30 % 2 ^ 64)
    else
      throw (.validation "size" ("unknown suffix: " ++ s))

def split_csv_from : List Char → List Char → List String
  | cur, [] => if cur = [] then [] else [String.ofList cur]
  | cur, c :: cs =>
    if c = ',' then
      (if cur = [] then [] else [String.ofList cur]) ++ split_csv_from [] cs
    else if c = ' ' then
      split_csv_from cur cs
    else
      split_csv_from (cur ++ [c]) cs

/--
The parts between the commas without their blanks. Empty parts are left out.
-/
def split_csv (s : String) : List String :=
  split_csv_from [] s.toList

/--
What the command line gives for each option. The time of a trial may be left to its default.
-/
structure RunOptions (D : Type) where
  all : Bool
  workloads_csv : String
  metrics_csv : String
  threads_csv : String
  ws_csv : String
  trials : Int
  trial_ms : Option Int
  warmup_trials : Int
  warmup_ms : Int
  max_seconds : D
  interleave : Bool
  canary_retries : Int
  allow_writes : Bool
  write_budget : String
  pin : Bool
  cpus_csv : String

variable (o : RunOptions D)

def check_options : Except CliError Unit := do
  if o.trial_ms.any (· ≤ 0) then
    throw (.option "--trial-ms")
  if o.warmup_trials < 0 then
    throw (.option "--warmup")
  if o.warmup_ms < 0 then
    throw (.option "--warmup-ms")
  if Double.lt o.max_seconds ((0 : Nat) : D) then
    throw (.option "--max-seconds")
  if o.canary_retries < 0 then
    throw (.option "--canary-retries")

def workload_named (name : String) : Except CliError Workload :=
  match parse_workload name with
  | none => throw (.validation "--workload" ("unknown workload: " ++ name))
  | some w =>
    if is_implemented w then pure w
    else throw (.validation "--workload" ("not implemented yet: " ++ name))

def metric_named (name : String) : Except CliError Metric :=
  match parse_metric name with
  | none => throw (.validation "--metric" ("unknown metric: " ++ name))
  | some m =>
    if !is_implemented (workload_of m) then
      throw (.validation "--metric" ("not implemented yet: " ++ name))
    else if is_rider m then
      throw (.validation "--metric" (name ++ " is reported alongside the metric whose trials it "
        ++ "summarizes; select that one instead"))
    else
      pure m

def all_workloads : List Workload :=
  (workload_registry.filter (·.implemented)).map (·.kind)

def with_all (all : Bool) (named : List Workload) : List Workload :=
  (if all then all_workloads else []) ++ named

/--
The workloads and metrics that are left when writing to the disk is not allowed. An explicit request for
a metric that writes is refused.
-/
def gate_writes (explicit_selection : Bool) (workloads : List Workload) (metrics : List Metric)
    : Except CliError (List Workload × List Metric) :=
  if o.allow_writes then
    pure (workloads, metrics)
  else
    match metrics.find? Metric.writes_disk, workloads.find? (metrics_of · |>.any Metric.writes_disk),
      explicit_selection with
    | some m, _, true =>
      throw (.validation "--metric" (m.to_string ++ " writes to the test file; pass --allow-writes"))
    | _, some w, true =>
      throw (.validation "--workload" (w.to_string
        ++ " includes write metrics; pass --allow-writes or select --metric explicitly"))
    | _, _, true => pure (workloads, metrics.filter (!·.writes_disk))
    | _, _, false => pure ([], (workloads.flatMap metrics_of).filter (!·.writes_disk))

def default_trial_ms (workloads : List Workload) (metrics : List Metric) : Int :=
  if metrics.any (workload_of · |>.on_disk) || workloads.any Workload.on_disk then 500 else 50

def thread_named (name : String) : Except CliError Int :=
  match stoi name with
  | some n => pure n
  | none => throw .stoi

def named_selection : Except CliError (List Workload × List Metric) := do
  let named ← (split_csv o.workloads_csv).mapM workload_named
  let metrics ← (split_csv o.metrics_csv).mapM metric_named
  if (with_all o.all named).isEmpty && metrics.isEmpty then
    throw (.validation "--workload" "no workloads selected (or --all/--metric)")
  else
    pure (with_all o.all named, metrics)

def cpus_named : Except CliError (List Int) := do
  let cpus ← (split_csv o.cpus_csv).mapM thread_named
  if !cpus.isEmpty && !o.pin then
    throw (.validation "--cpus" "requires --pin")
  else
    pure cpus

def run_config : Except CliError (RunConfig D) := do
  check_options o
  let named ← named_selection o
  let write_budget_bytes ← parse_size o.write_budget
  let explicit_selection := !named.2.isEmpty || o.workloads_csv ≠ ""
  let gated ← gate_writes o explicit_selection named.1 named.2
  let thread_counts ← (split_csv o.threads_csv).mapM thread_named
  let working_sets ← (split_csv o.ws_csv).mapM parse_size
  let cpus ← cpus_named o
  pure
    { workloads := gated.1
      metrics := gated.2
      thread_counts := thread_counts
      working_sets := working_sets
      trials := o.trials
      warmup_trials := o.warmup_trials
      warmup_ms := o.warmup_ms
      trial_ms := o.trial_ms.getD (default_trial_ms gated.1 gated.2)
      max_seconds := o.max_seconds
      cpus := cpus
      interleave := o.interleave
      canary_retries := o.canary_retries
      write_budget_bytes := write_budget_bytes }

example : split_csv "1, 4,,8 " = ["1", "4", "8"] := by decide

end Bench
