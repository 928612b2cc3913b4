import BenchPlatform.Api.Seed.Machines

/-!
This module contains the models of how a machine behaves that the seeded numbers come from.
-/

namespace Api
namespace Seed

open Float64 (add sub mul div lt eq ofInt)

/--
The functions of `math` that are not arithmetic.
-/
structure Math where
  exp : Float64 → Float64
  log2 : Float64 → Float64

/--
`math.Min`.
-/
def minimum (x y : Float64) : Float64 :=
  match x, y with
  | .inf true, _ => .inf true
  | _, .inf true => .inf true
  | .nan, _ => .nan
  | _, .nan => .nan
  | .finite s 0 e, .finite _ 0 _ => if s then .finite s 0 e else y
  | _, _ => if lt x y then x else y

def amdahl (t1 : Float64) (n : Int) (s : Float64) : Float64 :=
  let fn := ofInt n
  div (mul t1 fn) (add (lit 1) (mul (sub fn (lit 1)) s))

def smtPenalty (n physical logical : Int) : Float64 :=
  if n ≤ physical then
    lit 1
  else if n ≤ logical then
    let excess := div (ofInt (n - physical)) (ofInt (max (logical - physical) 1))
    sub (lit 1) (mul (lit 0.28) excess)
  else
    lit 0.70

def DiskRandIOPS (cap halfQD : Float64) (qd : Int) : Float64 :=
  let q := ofInt qd
  div (mul cap q) (add q halfQD)

namespace Profile

variable (math : Math) (p : Profile)

def cpuThroughput (base : Float64) (n : Int) : Float64 :=
  mul (amdahl base n p.contention) (smtPenalty n p.physicalCores.toInt p.logicalCPUs.toInt)

def edge (kb : Int64) : Float64 :=
  math.log2 (mul (ofInt kb.toInt) (lit 1024))

def level (ws : Int) (l1 l2 l3 dram : Float64) : Float64 :=
  if ws ≤ 0 then
    l1
  else
    let lb := math.log2 (ofInt ws)
    let blend := fun a b edge =>
      let w := div (lit 1) (add (lit 1) (math.exp (div (sub lb edge).neg (lit 0.55))))
      add (mul a (sub (lit 1) w)) (mul b w)
    let v := blend l1 l2 (edge math p.l1dKB)
    let v := blend v l3 (edge math p.l2KB)
    blend v dram (edge math p.l3KB)

inductive Mode where
  | read
  | write
  | copy

def memBandwidth (ws n : Int) (mode : Mode) : Float64 :=
  let per := p.level math ws p.l1BW p.l2BW p.l3BW p.dramBW
  let ceiling := p.level math ws p.l1Ceiling p.l2Ceiling p.l3Ceiling p.dramCeiling
  let (per, ceiling) :=
    match mode with
    | .read => (per, ceiling)
    | .write =>
      -- a store to a line that is not resident fetches it first
      let resident :=
        div (lit 1) (add (lit 1) (math.exp (div (sub (math.log2 (ofInt ws)) (edge math p.l1dKB)) (lit 0.55))))
      (mul per (add (lit 0.34) (mul (lit 0.66) resident)), mul ceiling (lit 0.5))
    | .copy => (mul per (lit 0.55), mul ceiling (lit 0.52))
  let agg := mul (mul per (ofInt n)) (smtPenalty n p.physicalCores.toInt p.logicalCPUs.toInt)
  minimum agg ceiling

def memLatency (ws : Int) : Float64 :=
  let lat := p.level math ws p.l1Lat p.l2Lat p.l3Lat p.dramLat
  if ws > p.l3KB.toInt * 1024 then
    let decades := div (math.log2 (div (ofInt ws) (mul (ofInt p.l3KB.toInt) (lit 1024)))) (lit 10)
    mul lat (add (lit 1) (mul (lit 0.20) (minimum decades (lit 1))))
  else
    lat

def diskSeqBandwidth (ceiling : Float64) (qd : Int) : Float64 :=
  let q := ofInt qd
  mul ceiling (add (lit 0.42) (div (mul (lit 0.58) q) (add q (lit 2.2))))

def diskReadP99 (qd : Int) : Float64 :=
  mul p.readP99Us (add (lit 0.75) (mul (lit 0.25) (ofInt qd)))

end Profile
end Seed
end Api
