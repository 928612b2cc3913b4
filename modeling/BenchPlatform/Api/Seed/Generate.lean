import BenchPlatform.Api.Json
import BenchPlatform.Api.Seed.Model
import BenchPlatform.Api.Store.Placeholders
import Mathlib.Data.List.ProdSigma

/-!
This module contains how the seeder enumerates the configurations of its machines, splits them over runs and numbers
the trials, and when every trial is generated once.
-/

namespace Api
namespace Seed

open Store (goInt)
open Float64 (add sub mul div lt ofInt)

/--
`now` is the end of the window in nanoseconds, counted from the zero time.
-/
structure Options where
  machines : Int
  trials : Int
  seed : UInt64
  runsPerMachine : Int
  now : Int

def Defaults : Options where
  machines := 5
  trials := 100
  seed := 42
  runsPerMachine := 6
  now := 0

inductive Workload where
  | cpu_int
  | cpu_fp
  | cpu_hash
  | mem_bw
  | mem_latency
  | disk_seq
  | disk_rand
  deriving DecidableEq

inductive Metric where
  | cpu_int_ops
  | cpu_fp_ops
  | cpu_hash_ops
  | mem_read_bw
  | mem_write_bw
  | mem_copy_bw
  | mem_latency
  | disk_seq_read_bw
  | disk_seq_write_bw
  | disk_rand_read_iops
  | disk_rand_write_iops
  | disk_rand_read_p99_us
  deriving DecidableEq

structure Config where
  workload : Workload
  metric : Metric
  unit : String
  threads : Int
  workingSet : Int

def ThreadCounts : List Int :=
  [1, 2, 4, 8, 16]

def bandwidthSets : List Int :=
  [32 * 2 ^ 10, 256 * 2 ^ 10, 2 * 2 ^ 20, 8 * 2 ^ 20, 64 * 2 ^ 20, 512 * 2 ^ 20]

def latencySets : List Int :=
  [4 * 2 ^ 10, 32 * 2 ^ 10, 128 * 2 ^ 10, 512 * 2 ^ 10, 2 * 2 ^ 20, 8 * 2 ^ 20, 32 * 2 ^ 20, 256 * 2 ^ 20, 2 ^ 30]

def diskSets : List Int :=
  [2 ^ 30, 2 * 2 ^ 30, 4 * 2 ^ 30]

def sweep (workload : Workload) (metric : Metric) (unit : String) (sets : List Int) : List Config :=
  sets.flatMap fun ws => ThreadCounts.map fun t => { workload, metric, unit, threads := t, workingSet := ws }

def configs : List Config :=
  ([(.cpu_int, .cpu_int_ops), (.cpu_fp, .cpu_fp_ops), (.cpu_hash, .cpu_hash_ops)].flatMap
      fun m => sweep m.1 m.2 "ops/s" [0])
    ++ ([.mem_read_bw, .mem_write_bw, .mem_copy_bw].flatMap fun metric => sweep .mem_bw metric "GB/s" bandwidthSets)
    ++ sweep .mem_latency .mem_latency "ns" latencySets
    ++ ([(.disk_seq, .disk_seq_read_bw, "MB/s"), (.disk_seq, .disk_seq_write_bw, "MB/s"),
        (.disk_rand, .disk_rand_read_iops, "IOPS"), (.disk_rand, .disk_rand_write_iops, "IOPS"),
        (.disk_rand, .disk_rand_read_p99_us, "us")].flatMap fun m => sweep m.1 m.2.1 m.2.2 diskSets)

def ConfigCount : Int :=
  configs.length

def Options.rows (o : Options) : Int :=
  goInt (goInt (o.machines * ConfigCount) * o.trials)

/--
A random generator of `math/rand/v2`. `byte` is `byte(rng.UintN(256))`.
-/
structure Rand (G : Type) where
  newPCG : UInt64 → UInt64 → G
  normFloat64 : G → Float64 × G
  float64 : G → Float64 × G
  byte : G → UInt8 × G

def Profile.base (math : Math) (p : Profile) (c : Config) : Float64 :=
  match c.metric with
  | .cpu_int_ops => p.cpuThroughput p.intOps1 c.threads
  | .cpu_fp_ops => p.cpuThroughput p.fpOps1 c.threads
  | .cpu_hash_ops => p.cpuThroughput p.hashOps1 c.threads
  | .mem_read_bw => p.memBandwidth math c.workingSet c.threads .read
  | .mem_write_bw => p.memBandwidth math c.workingSet c.threads .write
  | .mem_copy_bw => p.memBandwidth math c.workingSet c.threads .copy
  | .mem_latency => mul (p.memLatency math c.workingSet) (add (lit 1) (mul (lit 0.035) (ofInt (c.threads - 1))))
  | .disk_seq_read_bw => Profile.diskSeqBandwidth p.seqReadMBs c.threads
  | .disk_seq_write_bw => Profile.diskSeqBandwidth p.seqWriteMBs c.threads
  | .disk_rand_read_iops => DiskRandIOPS p.randReadIOPS p.randReadHalfQD c.threads
  | .disk_rand_write_iops => DiskRandIOPS p.randWriteIOPS p.randWriteHalfQD c.threads
  | .disk_rand_read_p99_us => p.diskReadP99 c.threads

def Profile.sigma (p : Profile) (c : Config) : Float64 :=
  match c.metric with
  | .mem_latency => mul p.noiseSigma (lit 1.4)
  | .disk_rand_read_p99_us => mul p.noiseSigma (lit 2.2)
  | .disk_rand_write_iops => mul p.noiseSigma (lit 0.6)
  | _ => p.noiseSigma

section Pieces

variable {G : Type} (math : Math) (rand : Rand G)

def noisy (rng : G) (base sigma : Float64) (metric : Metric) : Float64 × G :=
  let (normal, rng) := rand.normFloat64 rng
  let v := mul base (math.exp (sub (mul normal sigma) (div (mul sigma sigma) (lit 2))))
  if metric = .disk_rand_read_p99_us then
    let (u, rng) := rand.float64 rng
    if lt u (lit 0.04) then
      let (u, rng) := rand.float64 rng
      (mul v (add (lit 1.6) (mul u (lit 2.4))), rng)
    else
      (v, rng)
  else
    (v, rng)

def trialDuration : Metric → Int
  | .disk_seq_read_bw | .disk_seq_write_bw | .disk_rand_read_iops | .disk_rand_write_iops
  | .disk_rand_read_p99_us => 500 * 10 ^ 6
  | _ => 50 * 10 ^ 6

def assign (p : List (String × Json)) (kvs : List (String × Json)) : List (String × Json) :=
  kvs ++ p.filter fun kv => kvs.all fun kv' => kv'.1 ≠ kv.1

def memMode : Metric → String
  | .mem_read_bw => "read"
  | .mem_write_bw => "write"
  | .mem_copy_bw => "copy"
  | _ => ""

/--
`json.Marshal` sorts the keys.
-/
def paramsFor (c : Config) (seed : UInt64) : Json :=
  let num (n : Int) : Json := .num (toString n)
  let p : List (String × Json) :=
    [("cold", .str "clflush"), ("pinned", .bool true), ("warmup_trials", num 5), ("trial_ms", num 50),
      ("seed", num seed.toNat)]
  let p :=
    match c.workload with
    | .cpu_int | .cpu_fp | .cpu_hash => assign p [("unit_of_work", .str "ops")]
    | .mem_bw =>
      assign p
        [("unit_of_work", .str "bytes"), ("buffer_bytes", num c.workingSet), ("mem_mode", .str (memMode c.metric)),
          ("huge_pages", .bool (2 * 2 ^ 20 ≤ c.workingSet))]
    | .mem_latency =>
      assign p
        [("unit_of_work", .str "loads"), ("chase_lines", num (c.workingSet / 64)), ("line_bytes", num 64),
          ("huge_pages", .bool (2 * 2 ^ 20 ≤ c.workingSet))]
    | .disk_seq =>
      assign p
        [("unit_of_work", .str "bytes"), ("trial_ms", num 500), ("block_bytes", num (2 ^ 20)),
          ("queue_depth", num c.threads), ("o_direct", .bool true), ("file_bytes", num c.workingSet)]
    | .disk_rand =>
      assign p
        [("unit_of_work", .str "ios"), ("trial_ms", num 500), ("block_bytes", num 4096),
          ("queue_depth", num c.threads), ("o_direct", .bool true),
          ("o_dsync", .bool (c.metric = Metric.disk_rand_write_iops)), ("file_bytes", num c.workingSet)]
  .obj (p.mergeSort fun kv kv' => kv.1 ≤ kv'.1)

def word (machine i : Nat) : UInt64 :=
  UInt64.ofNat machine <<< 32 ||| UInt64.ofNat i

def runID (seed : UInt64) (machine run : Nat) : List Char :=
  let rng := rand.newPCG (seed ^^^ 0x9e3779b97f4a7c15) (word machine run)
  let (b, _) := (List.range 16).foldl (fun (b, rng) _ =>
    let (x, rng) := rand.byte rng
    (b ++ [x], rng)) (([] : Bytes), rng)
  let b := b.modify 6 fun x => x &&& 0x0f ||| 0x40
  let b := b.modify 8 fun x => x &&& 0x3f ||| 0x80
  let part (i j : Nat) := encodeToString ((b.take j).drop i)
  part 0 4 ++ '-' :: part 4 6 ++ '-' :: part 6 8 ++ '-' :: part 8 10 ++ '-' :: part 10 16

def stamp (t : Int) : Int :=
  t / 10 ^ 3

end Pieces

structure Result where
  workload : Workload
  threadCount : Int
  workingSetBytes : Int
  metric : Metric
  value : Float64
  unit : String
  trial : Int
  timestamp : Int
  durationNs : Int
  params : Json

structure RunEnvelope where
  schemaVersion : Int
  runID : List Char
  startedAt : Int
  finishedAt : Int
  machine : Machine
  argv : List Bytes
  results : List Result

section Generate

variable {G : Type} (math : Math) (rand : Rand G) (sum256 : Bytes → Bytes)

def millisecond : Int := 10 ^ 6

def second : Int := 10 ^ 9

def hour : Int := 3600 * second

/--
`Time.Truncate`.
-/
def truncate (t d : Int) : Int :=
  t - t % d

structure Trials (G : Type) where
  time : Int
  rng : G
  results : List Result

def trialStep (o : Options) (c : Config) (base sigma : Float64) (s : Trials G) (trial : Nat) : Trials G :=
  let (value, rng) := noisy math rand s.rng base sigma c.metric
  let durationNs := trialDuration c.metric
  let time := s.time + (durationNs + 3 * millisecond)
  let result : Result := {
    workload := c.workload
    threadCount := c.threads
    workingSetBytes := c.workingSet
    metric := c.metric
    value
    unit := c.unit
    trial := trial
    timestamp := stamp time
    durationNs
    params := paramsFor c o.seed }
  { time, rng, results := s.results ++ [result] }

def configStep (o : Options) (mi : Nat) (p : Profile) (s : Int × List Result) (ci : Config × Nat)
    : Int × List Result :=
  let rng := rand.newPCG o.seed (word mi ci.2)
  let s' := (List.range o.trials.toNat).foldl (trialStep math rand o ci.1 (p.base math ci.1) (p.sigma ci.1))
    { time := s.1, rng, results := s.2 }
  (s'.time, s'.results)

/--
How many configurations a run has. The sum wraps.
-/
def perRun (o : Options) : Int :=
  (goInt (goInt (configs.length + o.runsPerMachine) - 1)).tdiv o.runsPerMachine

def profileOf (mi : Nat) : Profile :=
  Profiles.getD (mi % Profiles.length) server

def run (o : Options) (now : Int) (mi ri : Nat) : Option RunEnvelope :=
  let p := profileOf mi
  let start := goInt (ri * perRun o)
  let stop := min (goInt ((ri + 1) * perRun o)) configs.length
  if stop ≤ start then
    none
  else
    let daysAgo := 29 - (goInt (goInt (mi * o.runsPerMachine) + ri)).tmod 30
    let runStart := truncate (now - daysAgo * (24 * hour)) (24 * hour) + goInt (goInt (9 + ri) * hour)
    let cis := (configs.zipIdx.drop start.toNat).take (stop - start).toNat
    let s := cis.foldl (configStep math rand o mi p) (runStart, [])
    some {
      schemaVersion := 1
      runID := runID rand o.seed mi ri
      startedAt := stamp runStart
      finishedAt := stamp (s.1 + second)
      machine := p.machine sum256
      argv := [ascii "seed", ascii "--machines", formatInt o.machines, ascii "--trials", formatInt o.trials,
        ascii "--seed", formatInt o.seed.toNat]
      results := s.2 }

/--
`clock` is what `time.Now` says.
-/
def Generate (clock : Int) (o : Options) : List RunEnvelope :=
  if o.machines ≤ 0 ∨ o.trials ≤ 0 then
    []
  else
    let o := if o.runsPerMachine ≤ 0 then { o with runsPerMachine := 1 } else o
    let now := truncate (if o.now = 0 then clock else o.now) second
    (List.range o.machines.toNat).flatMap fun mi =>
      (List.range o.runsPerMachine.toNat).flatMap fun ri => (run math rand sum256 o now mi ri).toList

end Generate

structure Key where
  metric : Metric
  threadCount : Int
  workingSetBytes : Int
  trial : Int
  deriving DecidableEq

def Result.key (r : Result) : Key where
  metric := r.metric
  threadCount := r.threadCount
  workingSetBytes := r.workingSetBytes
  trial := r.trial

def Config.key (c : Config) (trial : Nat) : Key where
  metric := c.metric
  threadCount := c.threads
  workingSetBytes := c.workingSet
  trial := trial

section Trials

variable {G : Type} (math : Math) (rand : Rand G) (o : Options) (c : Config) (base sigma : Float64)

def rngAfter (rng : G) (t : Nat) : G :=
  (fun rng => (noisy math rand rng base sigma c.metric).2)^[t] rng

def valueOf (rng : G) (t : Nat) : Float64 :=
  (noisy math rand (rngAfter math rand c base sigma rng t) base sigma c.metric).1

def pace : Int :=
  trialDuration c.metric + 3 * millisecond

def resultOf (time : Int) (rng : G) (t : Nat) : Result where
  workload := c.workload
  threadCount := c.threads
  workingSetBytes := c.workingSet
  metric := c.metric
  value := valueOf math rand c base sigma rng t
  unit := c.unit
  trial := t
  timestamp := stamp (time + t * pace c + pace c)
  durationNs := trialDuration c.metric
  params := paramsFor c o.seed

theorem pace_pos : 0 < pace c := by
  unfold pace trialDuration millisecond
  split <;> decide

theorem stamp_mono {t t' : Int} (h : t ≤ t') : stamp t ≤ stamp t' :=
  Int.ediv_le_ediv (by decide) h

theorem foldl_trialStep (s : Trials G) (n : Nat)
    : (List.range n).foldl (trialStep math rand o c base sigma) s =
      { time := s.time + n * pace c
        rng := rngAfter math rand c base sigma s.rng n
        results := s.results ++ (List.range n).map (resultOf math rand o c base sigma s.time s.rng) } := by
  induction n with
  | zero => simp [rngAfter]
  | succ n ih =>
    rw [List.range_succ, List.foldl_append, ih, List.foldl_cons, List.foldl_nil, List.map_append, List.map_singleton,
      ← List.append_assoc]
    have htime : s.time + n * pace c + pace c = s.time + (n + 1 : Nat) * pace c := by
      push_cast
      ring
    have hrng : rngAfter math rand c base sigma s.rng (n + 1) =
        (noisy math rand (rngAfter math rand c base sigma s.rng n) base sigma c.metric).2 :=
      Function.iterate_succ_apply' _ _ _
    rw [hrng, ← htime]
    rfl

end Trials

section Configs

variable {G : Type} (math : Math) (rand : Rand G) (o : Options)

/--
The value of a trial, which depends on the seed, the machine, the configuration and the trial only.
-/
def value (seed : UInt64) (mi : Nat) (p : Profile) (c : Config) (ci : Nat) (t : Nat) : Float64 :=
  valueOf math rand c (p.base math c) (p.sigma c) (rand.newPCG seed (word mi ci)) t

def entriesOf (mi : Nat) (p : Profile) (cis : List (Config × Nat)) : List (Key × Float64) :=
  cis.flatMap fun ci =>
    (List.range o.trials.toNat).map fun t => (ci.1.key t, value math rand o.seed mi p ci.1 ci.2 t)

/--
From one state of the loop over the configurations to a later one.
-/
structure Appends (s s' : Int × List Result) (entries : List (Key × Float64)) : Prop where
  time : s.1 ≤ s'.1
  results : ∃ rs : List Result, s'.2 = s.2 ++ rs ∧ rs.map (fun r => (r.key, r.value)) = entries ∧
    ∀ r ∈ rs, stamp s.1 ≤ r.timestamp ∧ r.timestamp ≤ stamp s'.1

theorem Appends.refl (s : Int × List Result) : Appends s s [] where
  time := le_refl _
  results := ⟨[], (List.append_nil _).symm, List.map_nil, List.forall_mem_nil _⟩

theorem Appends.trans {s s' s'' : Int × List Result} {es es' : List (Key × Float64)} (h : Appends s s' es)
    (h' : Appends s' s'' es')
    : Appends s s'' (es ++ es') := by
  obtain ⟨rs, hresults, hentries, htimes⟩ := h.results
  obtain ⟨rs', hresults', hentries', htimes'⟩ := h'.results
  refine ⟨h.time.trans h'.time, rs ++ rs', ?_, ?_, ?_⟩
  . rw [hresults', hresults, List.append_assoc]
  . rw [List.map_append, hentries, hentries']
  . refine List.forall_mem_append.mpr ⟨fun r hr => ?_, fun r hr => ?_⟩
    . exact ⟨(htimes r hr).1, (htimes r hr).2.trans (stamp_mono h'.time)⟩
    . exact ⟨(stamp_mono h.time).trans (htimes' r hr).1, (htimes' r hr).2⟩

theorem configStep_appends (mi : Nat) (p : Profile) (s : Int × List Result) (ci : Config × Nat)
    : Appends s (configStep math rand o mi p s ci) (entriesOf math rand o mi p [ci]) := by
  have hpace := pace_pos ci.1
  unfold configStep
  dsimp only
  rw [foldl_trialStep]
  refine ⟨?_, _, rfl, ?_, ?_⟩
  . exact Int.le_add_of_nonneg_right (Int.mul_nonneg (Int.natCast_nonneg _) hpace.le)
  . rw [List.map_map]
    exact (List.flatMap_singleton _ _).symm
  . refine List.forall_mem_map.mpr fun t ht => ⟨stamp_mono ?_, stamp_mono ?_⟩
    . have hpast : 0 ≤ (t : Int) * pace ci.1 := Int.mul_nonneg (Int.natCast_nonneg _) hpace.le
      dsimp only
      omega
    . have hlt : (t : Int) + 1 ≤ o.trials.toNat := by
        have := List.mem_range.mp ht
        omega
      have hmul := Int.mul_le_mul_of_nonneg_right hlt hpace.le
      rw [Int.add_mul, Int.one_mul] at hmul
      dsimp only
      omega

theorem foldl_configStep (mi : Nat) (p : Profile) (cis : List (Config × Nat)) (s : Int × List Result)
    : Appends s (cis.foldl (configStep math rand o mi p) s) (entriesOf math rand o mi p cis) := by
  induction cis generalizing s with
  | nil => exact .refl s
  | cons ci cis ih =>
    have hentries : entriesOf math rand o mi p (ci :: cis) =
        entriesOf math rand o mi p [ci] ++ entriesOf math rand o mi p cis := by
      unfold entriesOf
      rw [← List.flatMap_append, List.singleton_append]
    rw [List.foldl_cons, hentries]
    exact (configStep_appends math rand o mi p s ci).trans (ih _)

end Configs

section Split

variable {o : Options}

theorem length_configs : configs.length = 225 := by
  decide +kernel

theorem goInt_of_range {n : Int} (h : -2 ^ 63 ≤ n) (h' : n < 2 ^ 63) : goInt n = n :=
  Int.bmod_eq_of_le (by omega) (by omega)

theorem goInt_lt (n : Int) : goInt n < 2 ^ 63 :=
  Int.bmod_lt (by decide)

theorem goInt_sub_one (n : Int) : goInt (goInt n - 1) = goInt (n - 1) :=
  Int.bmod_sub_bmod

theorem flatMap_slices {α : Type} (l : List α) (k n : Nat)
    : ((List.range n).flatMap fun i => (l.drop (i * k)).take k) = l.take (n * k) := by
  induction n with
  | zero => rw [List.range_zero, Nat.zero_mul, List.take_zero, List.flatMap_nil]
  | succ n ih =>
    rw [List.range_succ, List.flatMap_append, ih, List.flatMap_singleton, Nat.succ_mul, List.take_add]

/--
The runs have room for all configurations, and no index wraps.
-/
structure Splits (o : Options) (k : Nat) : Prop where
  perRun : perRun o = k
  pos : 0 < k
  room : configs.length ≤ o.runsPerMachine.toNat * k
  small : (o.runsPerMachine.toNat * k : Nat) < (2 ^ 63 : Int)

theorem exists_splits (hruns : 1 ≤ o.runsPerMachine) (hsum : configs.length + o.runsPerMachine - 1 < 2 ^ 63)
    : ∃ k, Splits o k := by
  obtain ⟨n, hn⟩ := Int.eq_ofNat_of_zero_le (Int.le_trans (by decide) hruns)
  have hpos : 0 < n := by omega
  have hsame : ((configs.length + n - 1 : Nat) : Int) = configs.length + o.runsPerMachine - 1 := by omega
  have hdiv : (configs.length + n - 1) / n * n ≤ configs.length + n - 1 := Nat.div_mul_le_self _ n
  have hmod : configs.length + n - 1 < (configs.length + n - 1) / n * n + n := Nat.lt_div_mul_add hpos
  rw [Nat.mul_comm] at hdiv hmod
  refine ⟨(configs.length + n - 1) / n, ?_, Nat.div_pos ?_ hpos, ?_, ?_⟩
  . unfold perRun
    rw [goInt_sub_one, ← hsame, goInt_of_range (by omega) (by omega), hn, Int.natCast_ediv]
    exact Int.tdiv_eq_ediv_of_nonneg (Int.natCast_nonneg _)
  . rw [length_configs]
    omega
  . rw [hn, Int.toNat_natCast]
    omega
  . rw [hn, Int.toNat_natCast]
    omega

theorem perRun_of_wraps (hruns : o.runsPerMachine < 2 ^ 63) (hsum : 2 ^ 63 ≤ configs.length + o.runsPerMachine - 1)
    : perRun o = 0 ∨ perRun o = -1 := by
  rw [length_configs] at hsum
  have hwrap : goInt (225 + o.runsPerMachine - 1) = 225 + o.runsPerMachine - 1 - 2 ^ 64 := by
    have hshift : goInt (225 + o.runsPerMachine - 1) = goInt (225 + o.runsPerMachine - 1 - (2 ^ 64 : Nat)) :=
      (Int.sub_bmod_right _ (2 ^ 64)).symm
    rw [hshift]
    exact goInt_of_range (by omega) (by omega)
  unfold perRun
  rw [goInt_sub_one, length_configs, Nat.cast_ofNat, hwrap]
  have hneg : 225 + o.runsPerMachine - 1 - 2 ^ 64 = -(2 ^ 64 - 224 - o.runsPerMachine) := by omega
  rw [hneg, Int.neg_tdiv, Int.tdiv_eq_ediv_of_nonneg (by omega)]
  have hlow : 0 ≤ (2 ^ 64 - 224 - o.runsPerMachine) / o.runsPerMachine := Int.ediv_nonneg (by omega) (by omega)
  have hhigh : (2 ^ 64 - 224 - o.runsPerMachine) / o.runsPerMachine < 2 := Int.ediv_lt_of_lt_mul (by omega) (by omega)
  omega

end Split

section Runs

variable {G : Type} {math : Math} {rand : Rand G} {sum256 : Bytes → Bytes} {o : Options} {now : Int} {mi ri k : Nat}

def RunEnvelope.entries (env : RunEnvelope) : List (Key × Float64) :=
  env.results.map fun r => (r.key, r.value)

/--
No time in a run is before its begin or after its end.
-/
structure RunEnvelope.Ordered (env : RunEnvelope) : Prop where
  bounds : env.startedAt ≤ env.finishedAt
  within : ∀ r ∈ env.results, env.startedAt ≤ r.timestamp ∧ r.timestamp ≤ env.finishedAt

def part (k ri : Nat) : List (Config × Nat) :=
  (configs.zipIdx.drop (ri * k)).take k

theorem entriesOf_ne_nil (math : Math) (rand : Rand G) (mi : Nat) (p : Profile) {cis : List (Config × Nat)}
    (htrials : 1 ≤ o.trials) (hcis : cis ≠ [])
    : entriesOf math rand o mi p cis ≠ [] := by
  obtain ⟨ci, hci⟩ := List.exists_mem_of_ne_nil _ hcis
  have hzero : 0 ∈ List.range o.trials.toNat := List.mem_range.mpr (by omega)
  exact List.ne_nil_of_mem (List.mem_flatMap.mpr ⟨ci, hci, List.mem_map_of_mem hzero⟩)

theorem run_cases (hsplits : Splits o k) (hri : ri < o.runsPerMachine.toNat)
    : run math rand sum256 o now mi ri = none ∧ part k ri = [] ∨
      ∃ env, run math rand sum256 o now mi ri = some env ∧ part k ri ≠ [] ∧
        env.machine = (profileOf mi).machine sum256 ∧
        env.entries = entriesOf math rand o mi (profileOf mi) (part k ri) ∧ env.Ordered := by
  have hle : (ri + 1) * k ≤ o.runsPerMachine.toNat * k := Nat.mul_le_mul_right k hri
  have hsmall := hsplits.small
  rw [Nat.succ_mul] at hle
  have hstart : goInt (ri * perRun o) = (ri * k : Nat) := by
    rw [hsplits.perRun, ← Int.natCast_mul]
    exact goInt_of_range (by omega) (by omega)
  have hstop : goInt ((ri + 1) * perRun o) = (ri * k + k : Nat) := by
    have hnext : ((ri : Int) + 1) * k = (ri * k + k : Nat) := by
      push_cast
      ring
    rw [hsplits.perRun, hnext]
    exact goInt_of_range (by omega) (by omega)
  have hlength : configs.zipIdx.length = configs.length := List.length_zipIdx
  unfold run
  dsimp only
  rw [hstart, hstop]
  split
  next hempty =>
    left
    refine ⟨rfl, ?_⟩
    unfold part
    rw [List.drop_of_length_le (by have := hsplits.pos; omega), List.take_nil]
  next hsome =>
    right
    have hpart : (configs.zipIdx.drop ((ri * k : Nat) : Int).toNat).take
        (min ((ri * k + k : Nat) : Int) configs.length - (ri * k : Nat)).toNat = part k ri := by
      unfold part
      rw [Int.toNat_natCast, List.take_eq_take_iff, List.length_drop, hlength]
      omega
    rw [hpart]
    refine ⟨_, rfl, ?_, rfl, ?_⟩
    . rw [← List.length_pos_iff]
      unfold part
      rw [List.length_take, List.length_drop, hlength]
      have hpos := hsplits.pos
      omega
    . obtain ⟨htime, rs, hresults, hentries, htimes⟩ := foldl_configStep math rand o mi (profileOf mi) (part k ri)
        (truncate (now - (29 - (goInt (goInt (mi * o.runsPerMachine) + ri)).tmod 30) * (24 * hour)) (24 * hour)
          + goInt (goInt (9 + ri) * hour), [])
      have hend : ∀ t : Int, t ≤ t + second := fun t => Int.le_add_of_nonneg_right (by decide)
      rw [List.nil_append] at hresults
      refine ⟨?_, stamp_mono (htime.trans (hend _)), ?_⟩
      . unfold RunEnvelope.entries
        rw [hresults]
        exact hentries
      . dsimp only
        rw [hresults]
        exact fun r hr => ⟨(htimes r hr).1, (htimes r hr).2.trans (stamp_mono (hend _))⟩

def entries (envs : List RunEnvelope) : List ((Bytes × Key) × Float64) :=
  envs.flatMap fun env => env.entries.map fun e => ((env.machine.hostname, e.1), e.2)

theorem entries_machine (hsplits : Splits o k)
    : entries ((List.range o.runsPerMachine.toNat).flatMap fun ri => (run math rand sum256 o now mi ri).toList) =
      (entriesOf math rand o mi (profileOf mi) configs.zipIdx).map
        fun e => (((profileOf mi).hostname, e.1), e.2) := by
  have hrun : ∀ ri ∈ List.range o.runsPerMachine.toNat, entries (run math rand sum256 o now mi ri).toList =
      (entriesOf math rand o mi (profileOf mi) (part k ri)).map fun e => (((profileOf mi).hostname, e.1), e.2) := by
    intro ri hri
    obtain ⟨hnone, hpart⟩ | ⟨env, hsome, _, hmachine, hentries, _⟩ := run_cases hsplits (List.mem_range.mp hri)
    . rw [hnone, hpart]
      rfl
    . rw [hsome]
      unfold entries
      rw [Option.toList_some, List.flatMap_singleton, hmachine, hentries]
      rfl
  have hall : (List.range o.runsPerMachine.toNat).flatMap (part k) = configs.zipIdx := by
    unfold part
    rw [flatMap_slices]
    exact List.take_of_length_le (by rw [List.length_zipIdx]; exact hsplits.room)
  unfold entries at hrun ⊢
  rw [List.flatMap_assoc, List.flatMap_congr hrun, ← List.map_flatMap, ← hall]
  unfold entriesOf
  rw [List.flatMap_assoc]

/--
What the command accepts, in an `int`.
-/
structure Options.Valid (o : Options) : Prop where
  machines : 1 ≤ o.machines ∧ o.machines ≤ 5
  trials : 1 ≤ o.trials ∧ o.trials < 2 ^ 63
  runsPerMachine : 1 ≤ o.runsPerMachine ∧ o.runsPerMachine < 2 ^ 63

theorem generate_eq (math : Math) (rand : Rand G) (sum256 : Bytes → Bytes) (clock : Int) (hvalid : o.Valid)
    : ∃ now, Generate math rand sum256 clock o = (List.range o.machines.toNat).flatMap fun mi =>
        (List.range o.runsPerMachine.toNat).flatMap fun ri => (run math rand sum256 o now mi ri).toList := by
  have hmachines := hvalid.machines
  have htrials := hvalid.trials
  have hruns := hvalid.runsPerMachine
  refine ⟨truncate (if o.now = 0 then clock else o.now) second, ?_⟩
  unfold Generate
  rw [if_neg (by omega), if_neg (by omega)]

theorem entries_generate {clock : Int} (hvalid : o.Valid) (hsplits : Splits o k)
    : entries (Generate math rand sum256 clock o) = (List.range o.machines.toNat).flatMap fun mi =>
        (entriesOf math rand o mi (profileOf mi) configs.zipIdx).map
          fun e => (((profileOf mi).hostname, e.1), e.2) := by
  obtain ⟨now, hgenerate⟩ := generate_eq math rand sum256 clock hvalid
  rw [hgenerate]
  unfold entries
  rw [List.flatMap_assoc]
  exact List.flatMap_congr fun mi _ => entries_machine hsplits

theorem generate_of_wraps {clock : Int} (hvalid : o.Valid)
    (hsum : 2 ^ 63 ≤ configs.length + o.runsPerMachine - 1)
    : Generate math rand sum256 clock o = [] := by
  have hruns := hvalid.runsPerMachine
  obtain ⟨now, hgenerate⟩ := generate_eq math rand sum256 clock hvalid
  have hrun : ∀ mi, ∀ ri ∈ List.range o.runsPerMachine.toNat, run math rand sum256 o now mi ri = none := by
    intro mi ri hri
    have hlt := List.mem_range.mp hri
    unfold run
    dsimp only
    rw [if_pos]
    obtain hzero | hminus := perRun_of_wraps hruns.2 hsum
    . rw [hzero, Int.mul_zero, Int.mul_zero]
      exact Int.min_le_left _ _
    . have hstart : goInt (ri * -1) = -ri := by
        rw [Int.mul_neg_one]
        exact goInt_of_range (by omega) (by omega)
      have hstop : goInt ((ri + 1) * -1) = -(ri + 1) := by
        rw [Int.mul_neg_one]
        exact goInt_of_range (by omega) (by omega)
      rw [hminus, hstart, hstop]
      omega
  rw [hgenerate]
  refine List.flatMap_eq_nil_iff.mpr fun mi _ => List.flatMap_eq_nil_iff.mpr fun ri hri => ?_
  rw [hrun mi ri hri]
  rfl

end Runs

section Cover

def point (x : Nat × Config × Nat) : Bytes × Key :=
  ((profileOf x.1).hostname, x.2.1.key x.2.2)

def Options.space (o : Options) : List (Nat × Config × Nat) :=
  List.range o.machines.toNat ×ˢ (configs ×ˢ List.range o.trials.toNat)

/--
What is generated is the space of the options, and nothing in it depends on anything but the seed.
-/
structure Covers {G : Type} (math : Math) (rand : Rand G) (sum256 : Bytes → Bytes) (clock : Int) (o : Options)
    : Prop where
  once : ∀ x ∈ o.space, ((entries (Generate math rand sum256 clock o)).map Prod.fst).count (point x) = 1
  only : ∀ e ∈ entries (Generate math rand sum256 clock o), ∃ x ∈ o.space, point x = e.1
  total : (((Generate math rand sum256 clock o).map fun env => env.results.length).sum : Nat) = o.rows
  distinct : ∀ env ∈ Generate math rand sum256 clock o, (env.results.map Result.key).Nodup
  filled : ∀ env ∈ Generate math rand sum256 clock o, env.results ≠ [] ∧ env.Ordered
  values : ∀ clock' o', o'.Valid → o'.seed = o.seed → ∀ p v v',
    (p, v) ∈ entries (Generate math rand sum256 clock o) →
      (p, v') ∈ entries (Generate math rand sum256 clock' o') → v = v'

variable {G : Type} {math : Math} {rand : Rand G} {sum256 : Bytes → Bytes} {clock : Int} {o : Options} {k : Nat}

def Options.places (o : Options) : List (Nat × (Config × Nat) × Nat) :=
  List.range o.machines.toNat ×ˢ (configs.zipIdx ×ˢ List.range o.trials.toNat)

def pointAt (x : Nat × (Config × Nat) × Nat) : Bytes × Key :=
  point (x.1, x.2.1.1, x.2.2)

def valueAt (math : Math) (rand : Rand G) (seed : UInt64) (x : Nat × (Config × Nat) × Nat) : Float64 :=
  value math rand seed x.1 (profileOf x.1) x.2.1.1 x.2.1.2 x.2.2

theorem product_eq {α β : Type} (l : List α) (l' : List β) : l ×ˢ l' = l.flatMap fun a => l'.map (Prod.mk a) := rfl

theorem entries_places (hvalid : o.Valid) (hsplits : Splits o k)
    : entries (Generate math rand sum256 clock o) =
      o.places.map fun x => (pointAt x, valueAt math rand o.seed x) := by
  rw [entries_generate hvalid hsplits]
  unfold Options.places entriesOf
  simp only [product_eq, List.map_flatMap, List.map_map]
  rfl

theorem mem_places {x : Nat × (Config × Nat) × Nat}
    : x ∈ o.places ↔ x.1 < o.machines.toNat ∧ x.2.1 ∈ configs.zipIdx ∧ x.2.2 < o.trials.toNat := by
  obtain ⟨mi, ci, t⟩ := x
  unfold Options.places
  rw [List.mem_product, List.mem_product, List.mem_range, List.mem_range]

theorem hostname_inj {mi mi' : Nat} (hmi : mi < 5) (hmi' : mi' < 5)
    (h : (profileOf mi).hostname = (profileOf mi').hostname)
    : mi = mi' := by
  have hall : ∀ i < 5, ∀ j < 5, (profileOf i).hostname = (profileOf j).hostname → i = j := by decide +kernel
  exact hall mi hmi mi' hmi' h

def Key.rank (key : Key) : Nat :=
  key.metric.ctorIdx * 2 ^ 40 + key.workingSetBytes.toNat * 2 ^ 5 + key.threadCount.toNat

theorem config_inj {ci ci' : Config × Nat} (hci : ci ∈ configs.zipIdx) (hci' : ci' ∈ configs.zipIdx)
    (h : ci.1.key 0 = ci'.1.key 0)
    : ci = ci' := by
  have hsorted : (configs.zipIdx.map fun ci => (ci.1.key 0).rank).IsChain (· < ·) := by decide +kernel
  have hnodup : (configs.zipIdx.map fun ci => (ci.1.key 0).rank).Nodup := hsorted.pairwise.nodup
  exact List.inj_on_of_nodup_map hnodup hci hci' (congrArg Key.rank h)

theorem pointAt_inj {o' : Options} (hvalid : o.Valid) (hvalid' : o'.Valid) {x y : Nat × (Config × Nat) × Nat}
    (hx : x ∈ o.places) (hy : y ∈ o'.places) (h : pointAt x = pointAt y)
    : x = y := by
  have hmachines := hvalid.machines
  have hmachines' := hvalid'.machines
  obtain ⟨mi, ci, t⟩ := x
  obtain ⟨mi', ci', t'⟩ := y
  obtain ⟨hmi, hci, _⟩ := mem_places.mp hx
  obtain ⟨hmi', hci', _⟩ := mem_places.mp hy
  obtain ⟨hhost, hkey⟩ := Prod.mk.inj h
  have htrial : (t : Int) = t' := congrArg Key.trial hkey
  have hconfig : ci.1.key 0 = ci'.1.key 0 := congrArg (fun key : Key => { key with trial := 0 }) hkey
  dsimp only at hmi hmi'
  have hmachine : mi = mi' := hostname_inj (by omega) (by omega) hhost
  have hplace : ci = ci' := config_inj hci hci' hconfig
  rw [hmachine, hplace, Int.ofNat_inj.mp htrial]

theorem places_nodup (hvalid : o.Valid) : (o.places.map pointAt).Nodup := by
  have hzip : configs.zipIdx.Nodup := by
    refine List.Nodup.of_map Prod.snd ?_
    rw [List.zipIdx_map_snd]
    exact List.nodup_range'
  have hplaces : o.places.Nodup := List.nodup_range.product (hzip.product List.nodup_range)
  exact hplaces.map_on fun x hx y hy h => pointAt_inj hvalid hvalid hx hy h

theorem length_places (hvalid : o.Valid) : (o.places.length : Int) = o.machines * ConfigCount * o.trials := by
  have hmachines := hvalid.machines
  have htrials := hvalid.trials
  unfold Options.places ConfigCount
  rw [List.length_product, List.length_product, List.length_range, List.length_range, List.length_zipIdx]
  push_cast
  rw [Int.toNat_of_nonneg (by omega), Int.toNat_of_nonneg (by omega), Int.mul_assoc]

theorem mem_space {x : Nat × Config × Nat} : x ∈ o.space ↔ ∃ y ∈ o.places, (y.1, y.2.1.1, y.2.2) = x := by
  obtain ⟨mi, c, t⟩ := x
  have hconfig : c ∈ configs ↔ ∃ ci ∈ configs.zipIdx, ci.1 = c := by
    rw [← List.mem_map, List.zipIdx_map_fst]
  unfold Options.space
  rw [List.mem_product, List.mem_product, List.mem_range, List.mem_range, hconfig]
  constructor
  . rintro ⟨hmi, ⟨ci, hci, rfl⟩, ht⟩
    exact ⟨(mi, ci, t), mem_places.mpr ⟨hmi, hci, ht⟩, rfl⟩
  . rintro ⟨⟨mi', ci, t'⟩, hy, heq⟩
    obtain ⟨hmi, hci, ht⟩ := mem_places.mp hy
    cases heq
    exact ⟨hmi, ⟨ci, hci, rfl⟩, ht⟩

theorem run_of_mem (hvalid : o.Valid) (hsplits : Splits o k) {env : RunEnvelope}
    (henv : env ∈ Generate math rand sum256 clock o)
    : env.results ≠ [] ∧ env.Ordered := by
  obtain ⟨now, hgenerate⟩ := generate_eq math rand sum256 clock hvalid
  rw [hgenerate] at henv
  obtain ⟨mi, _, henv⟩ := List.mem_flatMap.mp henv
  obtain ⟨ri, hri, henv⟩ := List.mem_flatMap.mp henv
  have hrun := Option.mem_toList.mp henv
  obtain ⟨hnone, _⟩ | ⟨env', hsome, hpart, _, hentries, hordered⟩ := run_cases hsplits (List.mem_range.mp hri)
  . rw [hnone] at hrun
    contradiction
  . obtain rfl : env' = env := Option.some.inj (hsome.symm.trans hrun)
    refine ⟨?_, hordered⟩
    have hne := entriesOf_ne_nil math rand mi (profileOf mi) hvalid.trials.1 hpart
    rw [← hentries] at hne
    exact mt List.map_eq_nil_iff.mpr hne

theorem length_entries (envs : List RunEnvelope)
    : (entries envs).length = (envs.map fun env => env.results.length).sum := by
  unfold entries RunEnvelope.entries
  simp only [List.length_flatMap, List.length_map]

theorem rows_eq (hvalid : o.Valid) : o.rows = goInt (o.machines * ConfigCount * o.trials) := by
  have hmachines := hvalid.machines
  unfold Options.rows ConfigCount
  rw [length_configs, goInt_of_range (n := o.machines * (225 : Nat)) (by omega) (by omega)]

theorem length_entries_eq (hvalid : o.Valid) (hsplits : Splits o k)
    : (((Generate math rand sum256 clock o).map fun env => env.results.length).sum : Nat) =
      o.machines * ConfigCount * o.trials := by
  rw [← length_entries, entries_places hvalid hsplits, List.length_map, length_places hvalid]

theorem points_eq (hvalid : o.Valid) (hsplits : Splits o k)
    : (entries (Generate math rand sum256 clock o)).map Prod.fst = o.places.map pointAt := by
  rw [entries_places hvalid hsplits, List.map_map]
  rfl

theorem keys_nodup (hvalid : o.Valid) (hsplits : Splits o k) {env : RunEnvelope}
    (henv : env ∈ Generate math rand sum256 clock o)
    : (env.results.map Result.key).Nodup := by
  have hnodup : ((entries (Generate math rand sum256 clock o)).map Prod.fst).Nodup := by
    rw [points_eq hvalid hsplits]
    exact places_nodup hvalid
  unfold entries at hnodup
  rw [List.map_flatMap, List.nodup_flatMap] at hnodup
  have hrun := hnodup.1 env henv
  unfold RunEnvelope.entries at hrun
  rw [List.map_map, List.map_map] at hrun
  exact List.Nodup.of_map (Prod.mk env.machine.hostname) (by rwa [List.map_map])

theorem mem_entries (hvalid : o.Valid) {e : (Bytes × Key) × Float64}
    (he : e ∈ entries (Generate math rand sum256 clock o))
    : ∃ x ∈ o.places, (pointAt x, valueAt math rand o.seed x) = e := by
  obtain hsum | hwraps := lt_or_ge (configs.length + o.runsPerMachine - 1) (2 ^ 63)
  . obtain ⟨k, hsplits⟩ := exists_splits hvalid.runsPerMachine.1 hsum
    rw [entries_places hvalid hsplits] at he
    exact List.mem_map.mp he
  . rw [generate_of_wraps hvalid hwraps] at he
    contradiction

theorem values_eq {clock' : Int} {o' : Options} (hvalid : o.Valid) (hvalid' : o'.Valid) (hseed : o'.seed = o.seed)
    {p : Bytes × Key} {v v' : Float64} (h : (p, v) ∈ entries (Generate math rand sum256 clock o))
    (h' : (p, v') ∈ entries (Generate math rand sum256 clock' o'))
    : v = v' := by
  obtain ⟨x, hx, heq⟩ := mem_entries hvalid h
  obtain ⟨y, hy, heq'⟩ := mem_entries hvalid' h'
  obtain ⟨hpoint, hv⟩ := Prod.mk.inj heq
  obtain ⟨hpoint', hv'⟩ := Prod.mk.inj heq'
  rw [← hv, ← hv', pointAt_inj hvalid hvalid' hx hy (hpoint.trans hpoint'.symm), hseed]

theorem covers_of_splits (hvalid : o.Valid) (hsplits : Splits o k)
    (hrows : o.machines * ConfigCount * o.trials < 2 ^ 63)
    : Covers math rand sum256 clock o where
  once := by
    intro x hx
    obtain ⟨y, hy, rfl⟩ := mem_space.mp hx
    rw [points_eq hvalid hsplits]
    exact List.count_eq_one_of_mem (places_nodup hvalid) (List.mem_map_of_mem hy)
  only := by
    intro e he
    obtain ⟨y, hy, rfl⟩ := mem_entries hvalid he
    exact ⟨_, mem_space.mpr ⟨y, hy, rfl⟩, rfl⟩
  total := by
    have hlow : 0 ≤ o.machines * ConfigCount * o.trials := by
      rw [← length_places hvalid]
      exact Int.natCast_nonneg _
    rw [length_entries_eq hvalid hsplits, rows_eq hvalid, goInt_of_range (by omega) hrows]
  distinct := fun _ => keys_nodup hvalid hsplits
  filled := fun _ => run_of_mem hvalid hsplits
  values := fun _ _ hvalid' hseed _ _ _ => values_eq hvalid hvalid' hseed

theorem not_covers_of_wraps (hvalid : o.Valid) (hwraps : 2 ^ 63 ≤ configs.length + o.runsPerMachine - 1)
    : ¬Covers math rand sum256 clock o := by
  intro hcovers
  have hmachines := hvalid.machines
  have htrials := hvalid.trials
  have hconfigs : configs ≠ [] := List.ne_nil_of_length_pos (by rw [length_configs]; decide)
  obtain ⟨c, hc⟩ := List.exists_mem_of_ne_nil configs hconfigs
  have hspace : (0, c, 0) ∈ o.space := by
    unfold Options.space
    rw [List.mem_product, List.mem_product, List.mem_range, List.mem_range]
    exact ⟨by omega, hc, by omega⟩
  have honce := hcovers.once _ hspace
  rw [generate_of_wraps hvalid hwraps] at honce
  contradiction

/--
The space is covered exactly unless the number of runs, added to that of the configurations, or the number of rows
wraps.
-/
theorem covers_iff (math : Math) (rand : Rand G) (sum256 : Bytes → Bytes) (clock : Int) (o : Options)
    (hvalid : o.Valid)
    : Covers math rand sum256 clock o ↔
      ConfigCount + o.runsPerMachine - 1 < 2 ^ 63 ∧ o.machines * ConfigCount * o.trials < 2 ^ 63 := by
  constructor
  . intro hcovers
    obtain hsum | hwraps := lt_or_ge (configs.length + o.runsPerMachine - 1) (2 ^ 63)
    . obtain ⟨k, hsplits⟩ := exists_splits hvalid.runsPerMachine.1 hsum
      have htotal := hcovers.total
      rw [length_entries_eq hvalid hsplits, rows_eq hvalid] at htotal
      exact ⟨hsum, htotal ▸ goInt_lt _⟩
    . exact absurd hcovers (not_covers_of_wraps hvalid hwraps)
  . rintro ⟨hsum, hrows⟩
    obtain ⟨k, hsplits⟩ := exists_splits hvalid.runsPerMachine.1 hsum
    exact covers_of_splits hvalid hsplits hrows

def still : Rand Unit where
  newPCG := fun _ _ => ()
  normFloat64 := fun rng => (lit 0, rng)
  float64 := fun rng => (lit 0, rng)
  byte := fun rng => (0, rng)

theorem covers_iff_defaults
    : Covers { exp := id, log2 := id } still Bench.sha256 0 Defaults := by
  have hvalid : Defaults.Valid := ⟨by decide, by decide, by decide⟩
  have hsum : ConfigCount + Defaults.runsPerMachine - 1 < 2 ^ 63 := by
    unfold ConfigCount
    rw [length_configs]
    decide
  have hrows : Defaults.machines * ConfigCount * Defaults.trials < 2 ^ 63 := by
    unfold ConfigCount
    rw [length_configs]
    decide
  exact (covers_iff { exp := id, log2 := id } still Bench.sha256 0 Defaults hvalid).mpr ⟨hsum, hrows⟩

/--
One machine and one trial over as many runs as an `int` can count.
-/
def endless : Options where
  machines := 1
  trials := 1
  seed := 42
  runsPerMachine := 2 ^ 63 - 1
  now := 0

theorem endless_not_covers
    : endless.Valid ∧ endless.rows = 225 ∧ Generate { exp := id, log2 := id } still Bench.sha256 0 endless = [] ∧
      ¬Covers { exp := id, log2 := id } still Bench.sha256 0 endless := by
  have hvalid : endless.Valid := ⟨by decide, by decide, by decide⟩
  have hwraps : 2 ^ 63 ≤ configs.length + endless.runsPerMachine - 1 := by
    rw [length_configs]
    decide
  have hrows : endless.rows = 225 := by
    rw [rows_eq hvalid]
    unfold ConfigCount
    rw [length_configs]
    decide
  exact ⟨hvalid, hrows, generate_of_wraps hvalid hwraps, not_covers_of_wraps hvalid hwraps⟩

end Cover

end Seed
end Api
