import BenchPlatform.Engine.SpinBarrier.Basic
import BenchPlatform.Engine.Histogram

/-!
This module contains a `ConfigSession` and its worker pool: the loop of `worker`, the coordinator's
`start`, `run_one_trial` and `stop`, and every interleaving of their steps. A step is one access to
something another thread can see (a barrier operation, a slot field, a histogram bucket, a flag)
or one reading of the clock.
-/

namespace Bench

/--
`ns_between`, on the values of a clock that counts nanoseconds.
-/
def nsBetween (a b : Nat) : BitVec 64 :=
  BitVec.ofNat 64 b - BitVec.ofNat 64 a

theorem nsBetween_toNat {a b : Nat} (hab : a ≤ b) (hb : b < 2 ^ 63)
    : (nsBetween a b).toNat = b - a := by
  simp only [nsBetween, BitVec.toNat_sub, BitVec.toNat_ofNat]
  omega

/--
What a worker publishes for the coordinator. `hist` points to one of the worker's two histograms.
-/
structure Slot where
  ops : BitVec 64
  batches : BitVec 64
  coldNs : BitVec 64
  preNs : BitVec 64
  start : Nat
  finish : Nat
  hist : Option Bool
  histUsed : Nat
  cpuStart : Int
  cpuEnd : Int
  assignedCpu : Int
  pinErrno : Int
  deriving DecidableEq

/--
What a worker produced in one trial: what its clock and `sched_getcpu` told it, the units that
each of its batches returned and how long each of its calls took.
-/
structure Trial where
  coldNs : BitVec 64
  preNs : BitVec 64
  cpuStart : Int
  cpuEnd : Int
  start : Nat
  finish : Nat
  units : List (BitVec 64)
  latencies : List Nat
  deriving DecidableEq

/--
The statements of `worker` that other threads can see or that read the clock, in order. Each is
named after what the next step does.
-/
inductive WorkerPoint where
  /-- The thread does not exist yet. -/
  | unborn
  | pin
  | setup
  | countDown
  | gateWait
  /-- The clock readings around `before_trial` and `cold.prepare`. -/
  | p0
  | beforeTrial
  | c0
  | c1
  | startBarrier
  | stopRequested
  | slotColdNs
  | slotPreNs
  | slotCpuStart
  | t0
  | runBatch
  | now
  | slotStart
  | slotEnd
  | slotOps
  | slotBatches
  | slotHist
  | slotHistUsed
  | slotCpuEnd
  | endBarrier
  /-- The loop is left, the workload and its histograms are about to be destroyed. -/
  | left
  deriving DecidableEq, Repr

/--
A worker: its program point, its local variables, its workload's histograms and its slot. The last
four fields are history: the CPU it started the trial on, what the batches of the trial in progress
returned and measured, and all trials that it finished.
-/
structure Worker where
  point : WorkerPoint
  ok : Bool
  gateSeen : BitVec 64
  hists : Histograms
  p0 : Nat
  c0 : Nat
  coldNs : BitVec 64
  preNs : BitVec 64
  t0 : Nat
  now : Nat
  ops : BitVec 64
  batches : BitVec 64
  slot : Slot
  cpuStart : Int
  units : List (BitVec 64)
  latencies : List Nat
  produced : List Trial

/--
The trial in progress of a worker that ends it on `cpuEnd`.
-/
def Worker.trial (w : Worker) (cpuEnd : Int) : Trial where
  coldNs := w.coldNs
  preNs := w.preNs
  cpuStart := w.cpuStart
  cpuEnd := cpuEnd
  start := w.t0
  finish := w.now
  units := w.units
  latencies := w.latencies

/--
What a step of a worker gets from outside: whether `setup` threw, the value of a system call, the
duration of a call inside `run_batch` (`none` when the batch is over) and the units of a batch.
-/
structure Outcome where
  threw : Bool
  value : Int
  latency : Option Nat
  units : BitVec 64

inductive CoordPoint where
  /-- `start`: the threads below `spawned` exist. -/
  | spawn
  | readyWait
  | checkFailure
  /-- Between two calls. -/
  | idle
  /-- `run_one_trial`, up to the two barriers. -/
  | openGate
  | startBarrier
  | endBarrier
  /-- `run_one_trial` after the end barrier: the slots, then `merge_latencies`. -/
  | readSlots (j : Nat)
  | mergeLatencies
  /-- `stop`. -/
  | requestStop (j : Nat)
  | stopGate
  | stopBarrier
  | join (j : Nat)
  | stopped
  /-- `stop` returned at once: there is no thread to stop. -/
  | empty
  deriving DecidableEq, Repr

/--
What the coordinator's caller or the system decides: to go on, to stop (at `spawn`: the thread
cannot be created), or which bucket of which slot `merge_latencies` looks at.
-/
inductive Choice (n : Nat) where
  | next
  | stop
  | bucket (j : Fin n) (b : Nat)

inductive SessionAction (n : Nat) where
  | tick (d : Nat)
  | worker (i : Fin n) (o : Outcome)
  | coord (c : Choice n)

/--
A session of `n` workers. `none` is the coordinator's place at the barriers. `histogram` says
whether the workload has a latency histogram, `spawned` how many threads exist, `slots` and `buckets`
what the coordinator has read of the trial it is evaluating.
-/
structure Session (n : Nat) where
  park : Bool
  histogram : Bool
  trialLen : Nat
  clock : Nat
  tRelease : Nat
  tDone : Nat
  startB : SpinBarrier (Option (Fin n))
  endB : SpinBarrier (Option (Fin n))
  ready : Nat
  failure : Bool
  gate : BitVec 64
  stop : Fin n → Bool
  spawned : Nat
  worker : Fin n → Worker
  coord : CoordPoint
  trials : Nat
  slots : Fin n → Option Slot
  buckets : Fin n → Nat → Option (BitVec 32)

def Worker.init (assignedCpu : Int) : Worker where
  point := .unborn
  ok := true
  gateSeen := 0
  hists := .init
  p0 := 0
  c0 := 0
  coldNs := 0
  preNs := 0
  t0 := 0
  now := 0
  ops := 0
  batches := 0
  slot :=
    { ops := 0, batches := 0, coldNs := 0, preNs := 0, start := 0, finish := 0, hist := none,
      histUsed := 0, cpuStart := -1, cpuEnd := -1, assignedCpu := assignedCpu, pinErrno := 0 }
  cpuStart := -1
  units := []
  latencies := []
  produced := []

namespace Session

variable {n : Nat}

def init (n : Nat) (park histogram : Bool) (trialLen : Nat) (assignedCpu : Fin n → Int)
    : Session n where
  park := park
  histogram := histogram
  trialLen := trialLen
  clock := 0
  tRelease := 0
  tDone := 0
  startB := .init (Option (Fin n)) (n + 1)
  endB := .init (Option (Fin n)) (n + 1)
  ready := n
  failure := false
  gate := 0
  stop := fun _ => false
  spawned := 0
  worker := fun i => .init (assignedCpu i)
  coord := .spawn
  trials := 0
  slots := fun _ => none
  buckets := fun _ _ => none

def setWorker (s : Session n) (i : Fin n) (w : Worker) : Session n :=
  { s with worker := Function.update s.worker i w }

/--
One atomic operation at the start barrier, whose completion function stamps `t_release`.
-/
def stepStart (s : Session n) (p : Option (Fin n)) : Session n :=
  { s with
    startB := s.startB.step p
    tRelease := if s.startB.stamping p then s.clock else s.tRelease }

/--
One atomic operation at the end barrier, whose completion function stamps `t_done`.
-/
def stepEnd (s : Session n) (p : Option (Fin n)) : Session n :=
  { s with
    endB := s.endB.step p
    tDone := if s.endB.stamping p then s.clock else s.tDone }

end Session

def Worker.step (s : Session n) (i : Fin n) (o : Outcome) (w : Worker) : Option Worker :=
  match w.point with
  | .unborn | .setup | .countDown | .startBarrier | .endBarrier | .left => none
  | .pin =>
    let errno := if w.slot.assignedCpu ≥ 0 then o.value else w.slot.pinErrno
    some { w with slot := { w.slot with pinErrno := errno }, point := .setup }
  | .gateWait =>
    let next := if w.ok then .p0 else .startBarrier
    if s.park then
      if s.gate = w.gateSeen then
        none
      else
        some { w with gateSeen := w.gateSeen + 1, point := next }
    else
      some { w with point := next }
  | .p0 => some { w with p0 := s.clock, point := .beforeTrial }
  | .beforeTrial =>
    let hists := if s.histogram then w.hists.beforeTrial else w.hists
    some { w with hists := hists, point := .c0 }
  | .c0 => some { w with c0 := s.clock, point := .c1 }
  | .c1 =>
    some { w with
      preNs := nsBetween w.p0 w.c0
      coldNs := nsBetween w.c0 s.clock
      point := .startBarrier }
  | .stopRequested => some { w with point := if s.stop i then .left else .slotColdNs }
  | .slotColdNs => some { w with slot := { w.slot with coldNs := w.coldNs }, point := .slotPreNs }
  | .slotPreNs => some { w with slot := { w.slot with preNs := w.preNs }, point := .slotCpuStart }
  | .slotCpuStart =>
    some { w with slot := { w.slot with cpuStart := o.value }, cpuStart := o.value, point := .t0 }
  | .t0 =>
    some { w with
      ops := 0
      batches := 0
      t0 := s.clock
      now := s.clock
      units := []
      latencies := []
      point := if w.ok then .runBatch else .slotStart }
  | .runBatch =>
    match o.latency with
    | some ns =>
      if s.histogram then
        some { w with hists := w.hists.record ns, latencies := w.latencies ++ [ns] }
      else
        none
    | none =>
      some { w with
        ops := w.ops + o.units
        batches := w.batches + 1
        units := w.units ++ [o.units]
        point := .now }
  | .now =>
    some { w with
      now := s.clock
      point := if s.clock - w.t0 < s.trialLen then .runBatch else .slotStart }
  | .slotStart => some { w with slot := { w.slot with start := w.t0 }, point := .slotEnd }
  | .slotEnd => some { w with slot := { w.slot with finish := w.now }, point := .slotOps }
  | .slotOps => some { w with slot := { w.slot with ops := w.ops }, point := .slotBatches }
  | .slotBatches =>
    some { w with
      slot := { w.slot with batches := w.batches }
      point := if s.histogram then .slotHist else .slotCpuEnd }
  | .slotHist =>
    some { w with slot := { w.slot with hist := some w.hists.cur }, point := .slotHistUsed }
  | .slotHistUsed =>
    some { w with slot := { w.slot with histUsed := w.hists.used w.hists.cur }, point := .slotCpuEnd }
  | .slotCpuEnd =>
    some { w with
      slot := { w.slot with cpuEnd := o.value }
      produced := w.produced ++ [w.trial o.value]
      point := .endBarrier }

namespace Session

/--
One step of worker `i`.
-/
def stepWorker (s : Session n) (i : Fin n) (o : Outcome) : Option (Session n) :=
  let w := s.worker i
  match w.point with
  | .setup =>
    some { s.setWorker i { w with ok := !o.threw, point := .countDown } with
      failure := s.failure || o.threw }
  | .countDown => some { s.setWorker i { w with point := .gateWait } with ready := s.ready - 1 }
  | .startBarrier =>
    if s.startB.returning (some i) then
      some ((s.stepStart (some i)).setWorker i { w with point := .stopRequested })
    else
      some (s.stepStart (some i))
  | .endBarrier =>
    if s.endB.returning (some i) then
      some ((s.stepEnd (some i)).setWorker i { w with point := .gateWait })
    else
      some (s.stepEnd (some i))
  | _ => (w.step s i o).map (s.setWorker i)

/--
The beginning of `stop`.
-/
def beginStop (s : Session n) : Session n :=
  { s with coord := if s.spawned = 0 then .empty else .requestStop 0 }

def openGate (s : Session n) : Session n :=
  { s with gate := if s.park then s.gate + 1 else s.gate }

def stepCoord (s : Session n) (c : Choice n) : Option (Session n) :=
  match s.coord with
  | .spawn =>
    if h : s.spawned < n then
      match c with
      -- the exception leaves `start`, and the destructor calls `stop`
      | .stop => some s.beginStop
      | _ =>
        some { s.setWorker ⟨s.spawned, h⟩ { s.worker ⟨s.spawned, h⟩ with point := .pin } with
          spawned := s.spawned + 1 }
    else
      some { s with coord := .readyWait }
  | .readyWait => if s.ready = 0 then some { s with coord := .checkFailure } else none
  | .checkFailure => some (if s.failure then s.beginStop else { s with coord := .idle })
  | .idle =>
    match c with
    | .stop => some s.beginStop
    | _ => some { s with coord := .openGate }
  | .openGate => some { s.openGate with coord := .startBarrier }
  | .startBarrier =>
    if s.startB.returning none then
      some { s.stepStart none with coord := .endBarrier }
    else
      some (s.stepStart none)
  | .endBarrier =>
    if s.endB.returning none then
      some { s.stepEnd none with trials := s.trials + 1, coord := .readSlots 0 }
    else
      some (s.stepEnd none)
  | .readSlots j =>
    if h : j < n then
      some { s with
        slots := Function.update s.slots ⟨j, h⟩ (some (s.worker ⟨j, h⟩).slot)
        coord := .readSlots (j + 1) }
    else
      some { s with coord := .mergeLatencies }
  | .mergeLatencies =>
    match c with
    | .bucket j b =>
      match (s.worker j).slot.hist with
      | some h =>
        if b < kLatencyHistogramSize then
          some { s with
            buckets := Function.update s.buckets j <|
              Function.update (s.buckets j) b (some ((s.worker j).hists.hist h b)) }
        else
          none
      | none => none
    -- what was read is in the results, the local variables go out of scope
    | _ => some { s with slots := fun _ => none, buckets := fun _ _ => none, coord := .idle }
  | .requestStop j =>
    if h : j < n ∧ j < s.spawned then
      some { s with
        stop := Function.update s.stop ⟨j, h.1⟩ true
        coord := .requestStop (j + 1) }
    else
      some { s with coord := .stopGate }
  | .stopGate => some { s.openGate with coord := .stopBarrier }
  | .stopBarrier =>
    if s.startB.returning none then
      some { s.stepStart none with coord := .join 0 }
    else
      some (s.stepStart none)
  | .join j =>
    if h : j < n ∧ j < s.spawned then
      if (s.worker ⟨j, h.1⟩).point = .left then
        some { s with coord := .join (j + 1) }
      else
        none
    else
      some { s with coord := .stopped }
  | .stopped | .empty => none

/--
One step of the session. Time points are 64-bit signed nanoseconds, so the clock stays below
`2 ^ 63`.
-/
def step (s : Session n) : SessionAction n → Option (Session n)
  | .tick d => if s.clock + d < 2 ^ 63 then some { s with clock := s.clock + d } else none
  | .worker i o => s.stepWorker i o
  | .coord c => s.stepCoord c

def run (s : Session n) (schedule : List (SessionAction n)) : Session n :=
  Trans.run step s schedule

end Session

end Bench
