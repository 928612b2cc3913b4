import BenchPlatform.Lib.Trans
import BenchPlatform.Engine.Metric
import Mathlib.Logic.Function.Iterate

/-!
This module contains `ensure_test_file` at the granularity of its system calls, over any history of calls
on one path that fail or are interrupted: when a call that returns leaves a file that the random fill has
written as a whole.
-/

namespace Bench

/--
The test file. `none` is a byte that nobody has written: a hole, or an extent that was only allocated.
-/
structure DiskFile where
  size : Nat
  content : Nat → Option (BitVec 8)

namespace DiskFile

def truncated : DiskFile where
  size := 0
  content := fun _ => none

def resize (f : DiskFile) (bytes : Nat) : DiskFile where
  size := bytes
  content := fun o => if o < bytes then f.content o else none

def pwrite (f : DiskFile) (off len : Nat) (data : Nat → BitVec 8) : DiskFile where
  size := max f.size (off + len)
  content := fun o => if off ≤ o ∧ o < off + len then some (data (o - off)) else f.content o

end DiskFile

def xorshift (x : BitVec 64) : BitVec 64 :=
  let x := x ^^^ (x <<< 13)
  let x := x ^^^ (x >>> 7)
  x ^^^ (x <<< 17)

def fill_words : Nat → BitVec 64 → List (BitVec 64) × BitVec 64
  | 0, x => ([], x)
  | n + 1, x =>
    let (words, last) := fill_words n (xorshift x)
    (xorshift x :: words, last)

def byte_of (word : BitVec 64) (i : Nat) : BitVec 8 :=
  (word >>> (8 * i)).setWidth 8

def buffer (words : List (BitVec 64)) (i : Nat) : BitVec 8 :=
  byte_of (words.getD (i / 8) 0) (i % 8)

/--
The arguments of a call. Both are 64-bit.
-/
structure FillCall where
  bytes : Nat
  seed : BitVec 64
  bytes_lt : bytes < 2 ^ 64

/--
The next system call of `ensure_test_file`, with its local variables.
-/
inductive FillPoint where
  /-- Not in a call: it failed, or it was interrupted. -/
  | outside
  /-- `exists` and `file_size`. -/
  | check (c : FillCall)
  /-- `open` with `O_TRUNC`. -/
  | create (c : FillCall)
  | fallocate (c : FillCall)
  | ftruncate (c : FillCall)
  /-- `open` with `O_DIRECT`. -/
  | reopen (c : FillCall)
  | alloc_buffer (c : FillCall)
  /-- `full_pwrite` of the block at `off`, of which `done` bytes are written. -/
  | pwrite (c : FillCall) (off done : Nat) (words : List (BitVec 64)) (x : BitVec 64) (written : Nat)
  | fdatasync (c : FillCall) (written : Nat)
  | returned (c : FillCall) (written : Nat)

/--
What a system call returns: whether it succeeded, and how many bytes `pwrite` has written.
-/
structure SysResult where
  ok : Bool
  size : Nat

inductive FillAction where
  | call (c : FillCall)
  | sys (r : SysResult)
  | kill

structure FillState where
  file : Option DiskFile
  point : FillPoint

def kFillWords : Nat :=
  kDiskSeqBlock / 8

def fill_loop (c : FillCall) (off : Nat) (x : BitVec 64) (written : Nat) : FillPoint :=
  if off < c.bytes then
    .pwrite c off 0 (fill_words kFillWords x).1 (fill_words kFillWords x).2 written
  else
    .fdatasync c written

namespace FillState

/--
A system call and what `ensure_test_file` does up to the next one. A size of more than 63 bits is no
`off_t`, and `fallocate` does not take an empty range.
-/
def sys (s : FillState) (r : SysResult) : Option FillState :=
  match s.point with
  | .outside | .returned _ _ => none
  | .check c =>
    let reuse := match s.file with
      | some f => r.ok && f.size = c.bytes
      | none => false
    some { s with point := if reuse then .returned c 0 else .create c }
  | .create c =>
    if r.ok then
      some { file := some .truncated, point := .fallocate c }
    else
      some { s with point := .outside }
  | .fallocate c =>
    if r.ok ∧ 0 < c.bytes ∧ c.bytes < 2 ^ 63 then
      some { file := s.file.map (·.resize c.bytes), point := .reopen c }
    else
      some { s with point := .ftruncate c }
  | .ftruncate c =>
    if r.ok ∧ c.bytes < 2 ^ 63 then
      some { file := s.file.map (·.resize c.bytes), point := .reopen c }
    else
      some { s with point := .outside }
  | .reopen c => some { s with point := if r.ok then .alloc_buffer c else .outside }
  | .alloc_buffer c => some { s with point := if r.ok then fill_loop c 0 (c.seed ||| 1) 0 else .outside }
  | .pwrite c off done words x written =>
    let len := min kDiskSeqBlock (c.bytes - off)
    if ¬r.ok ∨ r.size = 0 then
      some { s with point := .outside }
    else if done + r.size ≤ len then
      let file := s.file.map (·.pwrite (off + done) r.size fun i => buffer words (done + i))
      if done + r.size < len then
        some { file := file, point := .pwrite c off (done + r.size) words x written }
      else
        some { file := file, point := fill_loop c ((off + kDiskSeqBlock) % 2 ^ 64) x (written + len) }
    else
      none
  | .fdatasync c written => some { s with point := if r.ok then .returned c written else .outside }

def step (s : FillState) : FillAction → Option FillState
  | .call c =>
    match s.point with
    | .outside | .returned _ _ => some { s with point := .check c }
    | _ => none
  | .sys r => s.sys r
  | .kill => some { s with point := .outside }

def run (s : FillState) (history : List FillAction) : FillState :=
  Trans.run step s history

end FillState

def fill_byte (x : BitVec 64) (off : Nat) : BitVec 8 :=
  byte_of (xorshift^[off / 8 + 1] x) (off % 8)

namespace DiskFile

def FilledTo (f : DiskFile) (x : BitVec 64) (n : Nat) : Prop :=
  ∀ o, o < n → f.content o = some (fill_byte x o)

def Filled (f : DiskFile) : Prop :=
  ∃ seed : BitVec 64, f.FilledTo (seed ||| 1) f.size

theorem FilledTo.pwrite {f : DiskFile} {x : BitVec 64} {n len : Nat} {data : Nat → BitVec 8}
    (h : f.FilledTo x n) (hdata : ∀ i, i < len → data i = fill_byte x (n + i))
    : (f.pwrite n len data).FilledTo x (n + len) := by
  intro o ho
  unfold DiskFile.pwrite
  dsimp only
  split
  . rename_i hin
    rw [hdata (o - n) (by omega), Nat.add_sub_cancel' hin.1]
  . exact h o (by omega)

end DiskFile

theorem fill_words_snd (n : Nat) (x : BitVec 64) : (fill_words n x).2 = xorshift^[n] x := by
  induction n generalizing x with
  | zero => rfl
  | succ n ih => exact ih (xorshift x)

theorem fill_words_get {n i : Nat} (x : BitVec 64) (h : i < n)
    : (fill_words n x).1.getD i 0 = xorshift^[i + 1] x := by
  induction n generalizing x i with
  | zero => omega
  | succ n ih =>
    cases i with
    | zero => rfl
    | succ i => exact ih (xorshift x) (Nat.lt_of_succ_lt_succ h)

theorem buffer_fill_words {n off i : Nat} {x : BitVec 64} (hoff : 8 ∣ off) (h : i < 8 * n)
    : buffer (fill_words n (xorshift^[off / 8] x)).1 i = fill_byte x (off + i) := by
  obtain ⟨k, rfl⟩ := hoff
  unfold buffer fill_byte
  rw [fill_words_get _ (by omega), ← Function.iterate_add_apply]
  have hword : i / 8 + 1 + 8 * k / 8 = (8 * k + i) / 8 + 1 := by omega
  have hbyte : i % 8 = (8 * k + i) % 8 := by omega
  rw [hword, hbyte]

/--
The file has its size, but not yet its content.
-/
def Sized (file : Option DiskFile) (c : FillCall) : Prop :=
  c.bytes < 2 ^ 63 ∧ ∃ f, file = some f ∧ f.size = c.bytes

/--
The first `n` bytes are those of the fill of this call.
-/
def FilledTo (file : Option DiskFile) (c : FillCall) (n : Nat) : Prop :=
  c.bytes < 2 ^ 63 ∧ ∃ f, file = some f ∧ f.size = c.bytes ∧ f.FilledTo (c.seed ||| 1) n

/--
What a call that returned promises of the file.
-/
def Ready (file : Option DiskFile) (c : FillCall) : Prop :=
  ∃ f, file = some f ∧ f.size = c.bytes ∧ f.Filled

/--
The state of a block in the buffer: where it is, and what of it is written.
-/
structure BlockOk (c : FillCall) (off done : Nat) (words : List (BitVec 64)) (x : BitVec 64) : Prop where
  inside : off < c.bytes
  aligned : kDiskSeqBlock ∣ off
  unfinished : done < min kDiskSeqBlock (c.bytes - off)
  words : ∀ i, i < kDiskSeqBlock → buffer words i = fill_byte (c.seed ||| 1) (off + i)
  next : x = xorshift^[(off + kDiskSeqBlock) / 8] (c.seed ||| 1)

namespace FillState

def PointOk (file : Option DiskFile) : FillPoint → Prop
  | .outside | .check _ | .create _ => True
  | .fallocate _ | .ftruncate _ => ∃ f, file = some f
  | .reopen c | .alloc_buffer c => Sized file c
  | .pwrite c off done words x _ => BlockOk c off done words x ∧ FilledTo file c (off + done)
  | .fdatasync c _ => FilledTo file c c.bytes
  | .returned c _ => Ready file c

/--
What holds between two system calls as long as no call finds a file of its size that is not filled.
-/
def Inv (s : FillState) : Prop :=
  PointOk s.file s.point

theorem kDiskSeqBlock_eq : kDiskSeqBlock = 8 * kFillWords := by decide

theorem fill_loop_ok {file : Option DiskFile} {c : FillCall} {off written : Nat} {x : BitVec 64}
    (haligned : kDiskSeqBlock ∣ off) (hx : x = xorshift^[off / 8] (c.seed ||| 1))
    (hfilled : FilledTo file c (min off c.bytes))
    : PointOk file (fill_loop c off x written) := by
  have hblock : 0 < kDiskSeqBlock := by decide
  have height : 8 ∣ off := Nat.dvd_trans ⟨kFillWords, kDiskSeqBlock_eq⟩ haligned
  unfold fill_loop
  split
  . rename_i hoff
    rw [Nat.min_eq_left (Nat.le_of_lt hoff)] at hfilled
    refine ⟨⟨hoff, haligned, ?_, ?_, ?_⟩, hfilled⟩
    . exact Nat.lt_min.mpr ⟨hblock, by omega⟩
    . intro i hi
      rw [hx]
      exact buffer_fill_words height (by rwa [← kDiskSeqBlock_eq])
    . rw [fill_words_snd, hx, ← Function.iterate_add_apply]
      congr 1
      have := kDiskSeqBlock_eq
      omega
  . rename_i hoff
    rwa [Nat.min_eq_right (by omega)] at hfilled

def FindsFilled (s : FillState) : FillAction → Prop
  | .sys r => ∀ c f, s.point = .check c → s.file = some f → r.ok → f.size = c.bytes → f.Filled
  | _ => True

/--
A call that returned left a file of the size it was asked for, which the fill has written as a whole.
-/
def ReturnsReady (s : FillState) : Prop :=
  ∀ c written, s.point = .returned c written → Ready s.file c

variable {s s' : FillState}

theorem Inv.returnsReady (h : Inv s) : s.ReturnsReady := by
  intro c written hpoint
  unfold Inv at h
  rwa [hpoint] at h

theorem Sized.of_resize {file : Option DiskFile} {c : FillCall} (hbytes : c.bytes < 2 ^ 63)
    (h : ∃ f, file = some f)
    : Sized (file.map (·.resize c.bytes)) c := by
  obtain ⟨f, rfl⟩ := h
  exact ⟨hbytes, _, rfl, rfl⟩

theorem FilledTo.pwrite {file : Option DiskFile} {c : FillCall} {n len : Nat} {data : Nat → BitVec 8}
    (h : FilledTo file c n) (hlen : n + len ≤ c.bytes)
    (hdata : ∀ i, i < len → data i = fill_byte (c.seed ||| 1) (n + i))
    : FilledTo (file.map (·.pwrite n len data)) c (n + len) := by
  obtain ⟨hbytes, f, rfl, hsize, hfilled⟩ := h
  refine ⟨hbytes, _, rfl, ?_, hfilled.pwrite hdata⟩
  show max f.size (n + len) = c.bytes
  rw [hsize, Nat.max_eq_left hlen]

theorem sys_pwrite_inv {r : SysResult} {c : FillCall} {off done written : Nat}
    {words : List (BitVec 64)} {x : BitVec 64} (hpoint : s.point = .pwrite c off done words x written)
    (hinv : Inv s) (h : s.sys r = some s')
    : Inv s' := by
  unfold Inv at hinv
  rw [hpoint] at hinv
  obtain ⟨hblock, hfilled⟩ := hinv
  have hinside := hblock.inside
  have hbytes := hfilled.1
  simp only [sys, hpoint] at h
  split at h
  . rw [← Option.some.inj h]
    trivial
  . split at h
    . rename_i hle
      have hfile : FilledTo (s.file.map (·.pwrite (off + done) r.size fun i => buffer words (done + i))) c
          (off + done + r.size) := by
        apply FilledTo.pwrite hfilled
        . omega
        . intro i hi
          rw [hblock.words (done + i) (by omega), Nat.add_assoc]
      split at h
      . rename_i hlt
        rw [← Option.some.inj h]
        refine ⟨{ hblock with unfinished := hlt }, ?_⟩
        rwa [Nat.add_assoc] at hfile
      . rename_i hge
        rw [← Option.some.inj h]
        have hnowrap : (off + kDiskSeqBlock) % 2 ^ 64 = off + kDiskSeqBlock := by
          apply Nat.mod_eq_of_lt
          unfold kDiskSeqBlock
          omega
        apply fill_loop_ok
        . rw [hnowrap]
          exact Nat.dvd_add hblock.aligned (Nat.dvd_refl _)
        . rw [hnowrap]
          exact hblock.next
        . rw [hnowrap]
          have hall : off + done + r.size = min (off + kDiskSeqBlock) c.bytes := by omega
          rwa [hall] at hfile
    . cases h

theorem sys_inv {r : SysResult} (hinv : Inv s) (hok : s.FindsFilled (.sys r)) (h : s.sys r = some s')
    : Inv s' := by
  have hpoint := hinv
  unfold Inv at hpoint
  cases hp : s.point
  case pwrite => exact sys_pwrite_inv hp hinv h
  all_goals simp only [sys, hp] at h
  all_goals simp only [hp, PointOk] at hpoint
  case outside | returned => cases h
  case check c =>
    rw [← Option.some.inj h]
    cases hf : s.file with
    | none => trivial
    | some f =>
      by_cases hreuse : r.ok ∧ f.size = c.bytes
      . have hready : Ready s.file c := ⟨f, hf, hreuse.2, hok c f hp hf hreuse.1 hreuse.2⟩
        simpa [Inv, PointOk, hf, hreuse.1, hreuse.2] using hready
      . rw [not_and] at hreuse
        have : (r.ok && decide (f.size = c.bytes)) = false := by simpa using hreuse
        simp [Inv, PointOk, this]
  case create c =>
    split at h
    all_goals rw [← Option.some.inj h]
    . exact ⟨_, rfl⟩
    . trivial
  case fallocate c =>
    split at h
    all_goals rw [← Option.some.inj h]
    . rename_i hcond
      exact Sized.of_resize hcond.2.2 hpoint
    . exact hpoint
  case ftruncate c =>
    split at h
    all_goals rw [← Option.some.inj h]
    . rename_i hcond
      exact Sized.of_resize hcond.2 hpoint
    . trivial
  case reopen c =>
    rw [← Option.some.inj h]
    unfold Inv
    dsimp only
    split
    . exact hpoint
    . trivial
  case alloc_buffer c =>
    rw [← Option.some.inj h]
    unfold Inv
    dsimp only
    split
    . apply fill_loop_ok (Nat.dvd_zero _) rfl
      obtain ⟨hbytes, f, hf, hsize⟩ := hpoint
      exact ⟨hbytes, f, hf, hsize, fun o ho => absurd ho (by omega)⟩
    . trivial
  case fdatasync c written =>
    rw [← Option.some.inj h]
    unfold Inv
    dsimp only
    split
    . obtain ⟨_, f, hf, hsize, hfilled⟩ := hpoint
      exact ⟨f, hf, hsize, c.seed, by rwa [hsize]⟩
    . trivial

theorem step_inv {a : FillAction} (hinv : Inv s) (hok : s.FindsFilled a) (h : s.step a = some s')
    : Inv s' := by
  cases a with
  | call c =>
    simp only [step] at h
    split at h
    . rw [← Option.some.inj h]
      trivial
    . rw [← Option.some.inj h]
      trivial
    . cases h
  | sys r => exact sys_inv hinv hok h
  | kill =>
    simp only [step] at h
    rw [← Option.some.inj h]
    trivial

theorem findsFilled_of_returnsReady {a : FillAction} (h : s.step a = some s') (hready : s'.ReturnsReady)
    : s.FindsFilled a := by
  cases a with
  | sys r =>
    intro c f hp hf hok hsize
    simp only [step, sys, hp, hf, hok, hsize] at h
    have hreturned : s' = ⟨some f, .returned c 0⟩ := by simpa using h.symm
    obtain ⟨g, hg, _, hfilled⟩ := hready c 0 (by rw [hreturned])
    rw [hreturned] at hg
    injection hg with hfg
    rwa [hfg]
  | call c => trivial
  | kill => trivial

end FillState

/--
Over a history of calls that may fail or be interrupted at every system call, all calls that return leave
the file with its size and filled exactly if no call finds a file of its size that is not filled.
-/
theorem ensure_test_file_filled (file : Option DiskFile) (history : List FillAction)
    : Trans.Along FillState.step FillState.FindsFilled ⟨file, .outside⟩ history
      ↔ ∀ pre, pre <+: history → (FillState.run ⟨file, .outside⟩ pre).ReturnsReady := by
  have hinit : FillState.Inv ⟨file, .outside⟩ := trivial
  exact Trans.along_iff (fun _ _ _ hinv hok h => FillState.step_inv hinv hok h)
    (fun _ hinv => hinv.returnsReady)
    (fun _ _ _ _ h hready => FillState.findsFilled_of_returnsReady h hready) hinit history

/--
A call of 1 MiB is killed between `fallocate` and the first block. The next one finds the size right.
-/
def interruptedFill : FillState :=
  let c : FillCall := ⟨2 ^ 20, 7, by decide⟩
  FillState.run ⟨none, .outside⟩
    [.call c, .sys ⟨true, 0⟩, .sys ⟨true, 0⟩, .sys ⟨true, 0⟩, .kill, .call c, .sys ⟨true, 0⟩]

theorem interruptedFill_returned : ¬interruptedFill.ReturnsReady := by
  intro h
  obtain ⟨f, hf, hsize, seed, hfilled⟩ := h ⟨2 ^ 20, 7, by decide⟩ 0 rfl
  injection hf with hf
  have hpos : 0 < f.size := by
    rw [hsize]
    exact Nat.two_pow_pos 20
  have hbyte := hfilled 0 hpos
  rw [← hf] at hbyte
  cases hbyte

end Bench
