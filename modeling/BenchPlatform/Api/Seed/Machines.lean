import BenchPlatform.Api.Float
import BenchPlatform.Api.Strings
import BenchPlatform.Engine.MachineId

/-!
This module contains the identity of a synthetic machine, and that the engine would give the machine the same one.
-/

namespace Api
namespace Seed

/--
A fictional machine: its description, and the parameters of the models that its numbers come from.
-/
structure Profile where
  hostname : Bytes
  cpuModel : Bytes
  physicalCores : Int64
  logicalCPUs : Int64
  l1dKB : Int64
  l2KB : Int64
  l3KB : Int64
  memoryBytes : Int64
  os : Bytes
  kernel : Bytes
  compiler : Bytes
  compilerFlags : Bytes
  virtualized : Bytes
  intOps1 : Float64
  fpOps1 : Float64
  hashOps1 : Float64
  contention : Float64
  noiseSigma : Float64
  clockGHz : Float64
  l1BW : Float64
  l2BW : Float64
  l3BW : Float64
  dramBW : Float64
  l1Ceiling : Float64
  l2Ceiling : Float64
  l3Ceiling : Float64
  dramCeiling : Float64
  l1Lat : Float64
  l2Lat : Float64
  l3Lat : Float64
  dramLat : Float64
  seqReadMBs : Float64
  seqWriteMBs : Float64
  randReadIOPS : Float64
  randReadHalfQD : Float64
  randWriteIOPS : Float64
  randWriteHalfQD : Float64
  readP99Us : Float64

/--
The text that is hashed. `formatInt` is what `%d` does.
-/
def Profile.key (p : Profile) : Bytes :=
  p.cpuModel ++ bar :: formatInt p.physicalCores.toInt ++ bar :: formatInt p.logicalCPUs.toInt
    ++ bar :: formatInt p.l3KB.toInt ++ bar :: formatInt p.memoryBytes.toInt ++ bar :: p.hostname

def hextable : List Char :=
  "0123456789abcdef".toList

/--
`hex.EncodeToString`.
-/
def encodeToString (src : Bytes) : List Char :=
  src.flatMap fun (v : UInt8) => [hextable.getD (v >>> 4).toNat '0', hextable.getD (v &&& 0x0f).toNat '0']

/--
`sum256` is `sha256.Sum256`.
-/
def machineID (sum256 : Bytes → Bytes) (p : Profile) : List Char :=
  encodeToString ((sum256 p.key).take 16)

structure Machine where
  id : List Char
  hostname : Bytes
  cpuModel : Bytes
  physicalCores : Int64
  logicalCPUs : Int64
  l1dKB : Int64
  l2KB : Int64
  l3KB : Int64
  memoryBytes : Int64
  os : Bytes
  kernel : Bytes
  compiler : Bytes
  compilerFlags : Bytes
  engineVersion : Bytes
  engineGitSHA : Bytes
  virtualized : Bytes

def Profile.machine (sum256 : Bytes → Bytes) (p : Profile) : Machine where
  id := machineID sum256 p
  hostname := p.hostname
  cpuModel := p.cpuModel
  physicalCores := p.physicalCores
  logicalCPUs := p.logicalCPUs
  l1dKB := p.l1dKB
  l2KB := p.l2KB
  l3KB := p.l3KB
  memoryBytes := p.memoryBytes
  os := p.os
  kernel := p.kernel
  compiler := p.compiler
  compilerFlags := p.compilerFlags
  engineVersion := ascii "seed"
  engineGitSHA := ascii "synthetic"
  virtualized := p.virtualized

def lit (q : Rat) : Float64 :=
  .ofRat false q

def server : Profile where
  hostname := ascii "synthetic-01"
  cpuModel := ascii "AMD EPYC 9554 64-Core Processor"
  physicalCores := 64
  logicalCPUs := 128
  l1dKB := 32
  l2KB := 1024
  l3KB := 262144
  memoryBytes := 549755813888
  os := ascii "Ubuntu 24.04.1 LTS"
  kernel := ascii "6.8.0-45-generic"
  compiler := ascii "g++ 13.2.0"
  compilerFlags := ascii "-O3 -march=native"
  virtualized := ascii "none"
  intOps1 := lit 3.9e9
  fpOps1 := lit 7.8e9
  hashOps1 := lit 1.3e8
  contention := lit 0.004
  noiseSigma := lit 0.010
  clockGHz := lit 3.75
  l1BW := lit 210
  l2BW := lit 155
  l3BW := lit 72
  dramBW := lit 24
  l1Ceiling := lit 5000
  l2Ceiling := lit 3600
  l3Ceiling := lit 1400
  dramCeiling := lit 420
  l1Lat := lit 0.9
  l2Lat := lit 3.1
  l3Lat := lit 17.0
  dramLat := lit 92
  seqReadMBs := lit 6800
  seqWriteMBs := lit 5200
  randReadIOPS := lit 780000
  randReadHalfQD := lit 12
  randWriteIOPS := lit 240000
  randWriteHalfQD := lit 8
  readP99Us := lit 95

def laptop : Profile where
  hostname := ascii "synthetic-02"
  cpuModel := ascii "Intel(R) Core(TM) i7-1370P"
  physicalCores := 14
  logicalCPUs := 20
  l1dKB := 48
  l2KB := 2048
  l3KB := 24576
  memoryBytes := 34359738368
  os := ascii "Fedora 40"
  kernel := ascii "6.10.9-200.fc40.x86_64"
  compiler := ascii "g++ 14.2.1"
  compilerFlags := ascii "-O3 -march=native"
  virtualized := ascii "none"
  intOps1 := lit 4.9e9
  fpOps1 := lit 9.6e9
  hashOps1 := lit 1.6e8
  contention := lit 0.035
  noiseSigma := lit 0.025
  clockGHz := lit 4.9
  l1BW := lit 265
  l2BW := lit 190
  l3BW := lit 84
  dramBW := lit 23
  l1Ceiling := lit 1500
  l2Ceiling := lit 900
  l3Ceiling := lit 300
  dramCeiling := lit 88
  l1Lat := lit 1.0
  l2Lat := lit 3.3
  l3Lat := lit 21.0
  dramLat := lit 108
  seqReadMBs := lit 3400
  seqWriteMBs := lit 2600
  randReadIOPS := lit 190000
  randReadHalfQD := lit 9
  randWriteIOPS := lit 62000
  randWriteHalfQD := lit 6
  readP99Us := lit 140

def cloud : Profile where
  hostname := ascii "synthetic-03"
  cpuModel := ascii "Intel(R) Xeon(R) Platinum 8375C (4 vCPU)"
  physicalCores := 2
  logicalCPUs := 4
  l1dKB := 48
  l2KB := 1280
  l3KB := 55296
  memoryBytes := 8589934592
  os := ascii "Amazon Linux 2023"
  kernel := ascii "6.1.109-118.189.amzn2023"
  compiler := ascii "g++ 11.4.1"
  compilerFlags := ascii "-O3 -march=x86-64-v3"
  virtualized := ascii "kvm"
  intOps1 := lit 3.1e9
  fpOps1 := lit 6.2e9
  hashOps1 := lit 1.0e8
  contention := lit 0.090
  noiseSigma := lit 0.040
  clockGHz := lit 2.9
  l1BW := lit 150
  l2BW := lit 105
  l3BW := lit 48
  dramBW := lit 15
  l1Ceiling := lit 420
  l2Ceiling := lit 260
  l3Ceiling := lit 120
  dramCeiling := lit 38
  l1Lat := lit 1.4
  l2Lat := lit 4.6
  l3Lat := lit 26.0
  dramLat := lit 135
  seqReadMBs := lit 1250
  seqWriteMBs := lit 640
  randReadIOPS := lit 64000
  randReadHalfQD := lit 7
  randWriteIOPS := lit 21000
  randWriteHalfQD := lit 5
  readP99Us := lit 310

def desktop : Profile where
  hostname := ascii "synthetic-04"
  cpuModel := ascii "Intel(R) Core(TM) i5-6500"
  physicalCores := 4
  logicalCPUs := 4
  l1dKB := 32
  l2KB := 256
  l3KB := 6144
  memoryBytes := 17179869184
  os := ascii "Debian GNU/Linux 12"
  kernel := ascii "6.1.0-25-amd64"
  compiler := ascii "g++ 12.2.0"
  compilerFlags := ascii "-O3 -march=native"
  virtualized := ascii "none"
  intOps1 := lit 2.4e9
  fpOps1 := lit 4.1e9
  hashOps1 := lit 6.5e7
  contention := lit 0.020
  noiseSigma := lit 0.015
  clockGHz := lit 3.2
  l1BW := lit 98
  l2BW := lit 62
  l3BW := lit 33
  dramBW := lit 12
  l1Ceiling := lit 390
  l2Ceiling := lit 240
  l3Ceiling := lit 120
  dramCeiling := lit 30
  l1Lat := lit 1.3
  l2Lat := lit 3.8
  l3Lat := lit 13.0
  dramLat := lit 74
  seqReadMBs := lit 520
  seqWriteMBs := lit 480
  randReadIOPS := lit 92000
  randReadHalfQD := lit 8
  randWriteIOPS := lit 28000
  randWriteHalfQD := lit 6
  readP99Us := lit 220

def hybrid : Profile where
  hostname := ascii "synthetic-05"
  cpuModel := ascii "Intel(R) Core(TM) Ultra 7 155H"
  physicalCores := 11
  logicalCPUs := 22
  l1dKB := 48
  l2KB := 2048
  l3KB := 24576
  memoryBytes := 16659374080
  os := ascii "Ubuntu 22.04.5 LTS (WSL2)"
  kernel := ascii "6.18.33.2-microsoft-standard-WSL2"
  compiler := ascii "g++ 13.4.0"
  compilerFlags := ascii "-O3 -march=native"
  virtualized := ascii "wsl2"
  intOps1 := lit 4.3e9
  fpOps1 := lit 8.4e9
  hashOps1 := lit 1.4e8
  contention := lit 0.055
  noiseSigma := lit 0.035
  clockGHz := lit 4.5
  l1BW := lit 240
  l2BW := lit 175
  l3BW := lit 70
  dramBW := lit 21
  l1Ceiling := lit 1300
  l2Ceiling := lit 800
  l3Ceiling := lit 260
  dramCeiling := lit 80
  l1Lat := lit 1.05
  l2Lat := lit 3.4
  l3Lat := lit 46.0
  dramLat := lit 160
  seqReadMBs := lit 2650
  seqWriteMBs := lit 1480
  randReadIOPS := lit 90000
  randReadHalfQD := lit 10
  randWriteIOPS := lit 600
  randWriteHalfQD := lit 4
  readP99Us := lit 275

def Profiles : List Profile :=
  [server, laptop, cloud, desktop, hybrid]

/--
The profile has the fields of the machine.
-/
structure Profile.Describes (p : Profile) (m : Bench.MachineFields) : Prop where
  cpuModel : p.cpuModel = m.cpu_model
  physicalCores : p.physicalCores.toInt = m.physical_cores.toInt
  logicalCPUs : p.logicalCPUs.toInt = m.logical_cpus.toInt
  l3KB : p.l3KB.toInt = m.l3_kb.toInt
  memoryBytes : p.memoryBytes.toInt = m.memory_bytes.toNat
  hostname : p.hostname = m.hostname

section Digits

theorem digitChar_byte {d : Nat} (h : d < 10) : d.digitChar.toNat.toUInt8 = (48 + d).toUInt8 := by
  interval_cases d <;> rfl

theorem bytes_toDigits (n : Nat)
    : Text.bytes (Nat.toDigits 10 n) = formatDigits (if n = 0 then [0] else Nat.digits 10 n) := by
  induction n using Nat.strongRecOn with
  | ind n ih =>
    by_cases hlt : n < 10
    . have hdigits : (if n = 0 then [0] else Nat.digits 10 n) = [n] := by
        by_cases hzero : n = 0
        . rw [if_pos hzero, hzero]
        . rw [if_neg hzero, Nat.digits_of_lt 10 n hzero hlt]
      rw [hdigits, Nat.toDigits_of_lt_base hlt]
      exact congrArg (fun b => [b]) (digitChar_byte hlt)
    . have hquotient : n / 10 ≠ 0 := by omega
      have hrest := ih (n / 10) (by omega)
      rw [if_neg hquotient] at hrest
      have hdigits : Nat.digits 10 n = n % 10 :: Nat.digits 10 (n / 10) := Nat.digits_def' (by decide) (by omega)
      rw [if_neg (by omega), hdigits, Nat.toDigits_of_base_le (by decide) (by omega)]
      unfold Text.bytes formatDigits at hrest ⊢
      rw [List.map_append, hrest, List.reverse_cons, List.map_append, List.map_singleton, List.map_singleton,
        digitChar_byte (Nat.mod_lt n (by decide))]

theorem format_int_eq (i : Int) : Bench.MachineFields.format_int i = formatInt i := by
  have hdigits := bytes_toDigits i.natAbs
  simp only [Int.natAbs_eq_zero] at hdigits
  unfold Bench.MachineFields.format_int formatInt Text.intDigits
  split
  . exact congrArg ((45 : UInt8) :: ·) hdigits
  . exact hdigits

end Digits

theorem key_eq {p : Profile} {m : Bench.MachineFields} (h : p.Describes m) : p.key = m.key := by
  unfold Profile.key Bench.MachineFields.key
  rw [h.cpuModel, h.physicalCores, h.logicalCPUs, h.l3KB, h.memoryBytes, h.hostname]
  simp only [format_int_eq]
  rfl

theorem take_flatMap {α β : Type} {f : α → List β} {k : Nat} (hf : ∀ x, (f x).length = k) (l : List α) (n : Nat)
    : (l.flatMap f).take (n * k) = (l.take n).flatMap f := by
  induction n generalizing l with
  | zero => simp
  | succ n ih =>
    cases l with
    | nil => simp
    | cons x l =>
      rw [List.flatMap_cons, List.take_succ_cons, List.flatMap_cons, ← ih l, List.take_append, hf,
        List.take_of_length_le (by rw [hf]; exact Nat.le_mul_of_pos_left k (Nat.succ_pos n))]
      congr 2
      rw [Nat.succ_mul, Nat.add_sub_cancel]

theorem encodeToString_take (data : Bytes)
    : encodeToString ((Bench.sha256 data).take 16) = (Bench.sha256_hex data).take 32 := by
  unfold encodeToString Bench.sha256_hex
  rw [← take_flatMap (k := 2) fun _ => rfl]
  rfl

/--
The text that is hashed tells machines apart, and a machine has one identity, whichever program gives it.
-/
theorem machineID_eq
    : (∀ m m' : Bench.MachineFields, Bench.MachineFields.bar ∉ m.hostname → Bench.MachineFields.bar ∉ m'.hostname →
        m.key = m'.key → m = m') ∧
      ∀ sum256 : Bytes → Bytes, (∀ data, sum256 data = Bench.sha256 data) →
        ∀ (p : Profile) (m : Bench.MachineFields), p.Describes m → machineID sum256 p = Bench.machine_id m := by
  refine ⟨fun m m' => Bench.MachineFields.key_inj, ?_⟩
  intro sum256 hsum p m hdescribes
  unfold machineID Bench.machine_id
  rw [key_eq hdescribes, hsum, encodeToString_take]

/--
The small cloud instance, as the engine would describe it, and a machine whose model has bars.
-/
def cloudMachine : Bench.MachineFields where
  cpu_model := ascii "Intel(R) Xeon(R) Platinum 8375C (4 vCPU)"
  physical_cores := 2
  logical_cpus := 4
  l3_kb := 55296
  memory_bytes := 8589934592
  hostname := ascii "synthetic-03"

def barredMachine : Bench.MachineFields :=
  { cloudMachine with cpu_model := ascii "Intel(R)|2" }

theorem machineID_eq_cloud
    : machineID Bench.sha256 cloud = Bench.machine_id cloudMachine ∧ cloudMachine.key ≠ barredMachine.key := by
  have hbar : Bench.MachineFields.bar ∉ cloudMachine.hostname := by decide
  have hdescribes : cloud.Describes cloudMachine := ⟨rfl, by decide, by decide, by decide, by decide, rfl⟩
  refine ⟨machineID_eq.2 Bench.sha256 (fun _ => rfl) cloud cloudMachine hdescribes, ?_⟩
  intro hkey
  have hsame : cloudMachine = barredMachine := machineID_eq.1 cloudMachine barredMachine hbar hbar hkey
  have hmodel := congrArg Bench.MachineFields.cpu_model hsame
  revert hmodel
  decide

end Seed
end Api
