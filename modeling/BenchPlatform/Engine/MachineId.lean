import BenchPlatform.Engine.Sha256
import BenchPlatform.Engine.Sysinfo
import BenchPlatform.Lib.Delimited

/-!
This module contains the identity of a machine, and that the text which is hashed for it tells machines apart.
-/

namespace Bench

open Text

/--
What a machine is identified by. Its strings are bytes.
-/
@[ext]
structure MachineFields where
  cpu_model : List UInt8
  physical_cores : Int32
  logical_cpus : Int32
  l3_kb : Int32
  memory_bytes : UInt64
  hostname : List UInt8

namespace MachineFields

def bar : UInt8 := '|'.toNat.toUInt8

/--
`std::format` of an integer.
-/
def format_int (i : Int) : List UInt8 :=
  bytes (intDigits i)

def key (m : MachineFields) : List UInt8 :=
  m.cpu_model ++ bar :: format_int m.physical_cores.toInt ++ bar :: format_int m.logical_cpus.toInt
    ++ bar :: format_int m.l3_kb.toInt ++ bar :: format_int m.memory_bytes.toNat ++ bar :: m.hostname

end MachineFields

def machine_id (m : MachineFields) : List Char :=
  (sha256_hex m.key).take 32

namespace MachineFields

theorem ascii_of_mem_intDigits {i : Int} {c : Char} (h : c ∈ intDigits i) : c.toNat < 128 := by
  obtain rfl | hdigit := mem_intDigits h
  . decide
  . have hnine : '9'.toNat = 57 := rfl
    have hle := (isDigit_range hdigit).2
    omega

theorem format_int_inj {i j : Int} (h : format_int i = format_int j) : i = j :=
  intDigits_inj (bytes_inj (fun _ => ascii_of_mem_intDigits) (fun _ => ascii_of_mem_intDigits) h)

theorem bar_not_mem_format_int {i : Int} : bar ∉ format_int i := by
  intro hmem
  obtain ⟨c, hc, hbar⟩ := List.mem_map.mp hmem
  have hnat : c.toNat = '|'.toNat := by
    rw [← toNat_toUInt8 (ascii_of_mem_intDigits hc), hbar]
    rfl
  obtain rfl | hdigit := mem_intDigits hc
  . revert hnat
    decide
  . have hle := (isDigit_range hdigit).2
    rw [hnat] at hle
    revert hle
    decide

/--
The text is taken apart from its end: the host name has no bar, and neither has a number. What is left in front of
the last number is the model, whatever it contains.
-/
theorem key_inj {m m' : MachineFields} (hm : bar ∉ m.hostname) (hm' : bar ∉ m'.hostname) (h : m.key = m'.key)
    : m = m' := by
  obtain ⟨h, hhostname⟩ := Delimited.append_cons_inj_last hm hm' h
  obtain ⟨h, hmemory⟩ := Delimited.append_cons_inj_last bar_not_mem_format_int bar_not_mem_format_int h
  obtain ⟨h, hl3⟩ := Delimited.append_cons_inj_last bar_not_mem_format_int bar_not_mem_format_int h
  obtain ⟨h, hlogical⟩ := Delimited.append_cons_inj_last bar_not_mem_format_int bar_not_mem_format_int h
  obtain ⟨hmodel, hphysical⟩ := Delimited.append_cons_inj_last bar_not_mem_format_int bar_not_mem_format_int h
  ext1
  . exact hmodel
  . exact Int32.toInt_inj.mp (format_int_inj hphysical)
  . exact Int32.toInt_inj.mp (format_int_inj hlogical)
  . exact Int32.toInt_inj.mp (format_int_inj hl3)
  . exact UInt64.toNat_inj.mp (Int.ofNat_inj.mp (format_int_inj hmemory))
  . exact hhostname

end MachineFields

end Bench
