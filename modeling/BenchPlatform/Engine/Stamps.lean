import BenchPlatform.Lib.Calendar
import BenchPlatform.Lib.Digits

/-!
This module contains what a run is stamped with: its random id, and the time at the begin, at the end and at each
trial.
-/

namespace Bench

open Digits

def random_bits : UInt64 × UInt64 :=
  (0xFFFFFFFFFFFF0FFF, 0x3FFFFFFFFFFFFFFF)

def run_id_bits (hi lo : UInt64) : UInt64 × UInt64 :=
  (hi &&& random_bits.1 ||| 0x4000, lo &&& random_bits.2 ||| 0x8000000000000000)

def new_run_id (hi lo : UInt64) : String :=
  let (hi, lo) := run_id_bits hi lo
  String.ofList
    (padded 16 8 (hi >>> 32).toNat ++ '-' :: padded 16 4 (hi >>> 16 &&& 0xFFFF).toNat
      ++ '-' :: padded 16 4 (hi &&& 0xFFFF).toNat ++ '-' :: padded 16 4 (lo >>> 48).toNat
      ++ '-' :: padded 16 12 (lo &&& 0xFFFFFFFFFFFF).toNat)

example : new_run_id 0 0xFFFFFFFFFFFFFFFF = "00000000-0000-4000-bfff-ffffffffffff" := by decide

def kDayUs : Nat :=
  24 * 60 * 60 * 10 ^ 6

def kEpochDay : Nat :=
  719528

example : Calendar.date kEpochDay = { year := 1970, month := 1, day := 1 } := by decide

/--
The system clock counts nanoseconds, of which the stamp drops what is less than a microsecond.
-/
def utc_now_rfc3339 (now : Int) : String :=
  let us := (now / 1000 + kEpochDay * kDayUs).toNat
  let d := Calendar.date (us / kDayUs)
  let rest := us % kDayUs
  String.ofList
    (padded 10 4 d.year ++ '-' :: padded 10 2 d.month ++ '-' :: padded 10 2 d.day
      ++ 'T' :: padded 10 2 (rest / (60 * 60 * 10 ^ 6)) ++ ':' :: padded 10 2 (rest / (60 * 10 ^ 6) % 60)
      ++ ':' :: padded 10 2 (rest / 10 ^ 6 % 60) ++ '.' :: padded 10 6 (rest % 10 ^ 6) ++ ['Z'])

example : utc_now_rfc3339 951782400123456789 = "2000-02-29T00:00:00.123456Z" := by decide

end Bench
