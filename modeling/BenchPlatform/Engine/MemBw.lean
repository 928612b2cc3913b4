import BenchPlatform.Engine.Buffer

/-!
This module contains the memory bandwidth workload: its buffer, the loops that walk it, and when all that they
touch belongs to the process.
-/

namespace Bench

open Hoare

/--
All bytes from `addr` on belong to the process.
-/
def Memory.has (mem : Memory) (addr len : Nat) : Bool :=
  (List.range len).all fun i => mem.allocated (addr + i)

def Memory.write (mem : Memory) (addr : Nat) (v : UInt64) : Memory :=
  { mem with words := fun a => if a = addr then v else mem.words a }

def check (addr len : Nat) : MemM Unit := do
  let mem ← get
  if mem.has addr len then
    pure ()
  else
    throw (.fault addr)

def load (addr : Nat) : MemM UInt64 := do
  check addr 8
  let mem ← get
  pure (mem.words addr)

def store (addr : Nat) (v : UInt64) : MemM Unit := do
  check addr 8
  modify fun mem => mem.write addr v

def check_aligned (addr : Nat) : MemM Unit :=
  if 32 ∣ addr then check addr 32 else throw (.fault addr)

/--
`_mm256_stream_si256`: four words at an address that must be aligned.
-/
def stream (addr : Nat) (v : Nat → UInt64) : MemM Unit := do
  check_aligned addr
  modify fun mem => (List.range 4).foldl (fun mem i => mem.write (addr + 8 * i) (v i)) mem

/--
`_mm256_loadu_si256`
-/
def loadu (addr : Nat) : MemM (Nat → UInt64) := do
  check addr 32
  let mem ← get
  pure fun i => mem.words (addr + 8 * i)

def consume (v : UInt64) : MemM Unit :=
  modify fun mem => { mem with sink := mem.sink + v }

namespace MemBwWorkload

def kMinBatchBytes : Nat :=
  4 * 2 ^ 20

inductive Mode where
  | read
  | write
  | copy
  deriving DecidableEq

def mode_of : Metric → Mode
  | .mem_write_bw => .write
  | .mem_copy_bw => .copy
  | _ => .read

def remainder (step words : Nat) : List Nat :=
  List.range' (words / step * step) (words % step)

def add_lane (s : Vector UInt64 8) (l : Fin 8) (x : UInt64) : Vector UInt64 8 :=
  s.set l (s[l] + x)

def add_eight (p i : Nat) (s : Vector UInt64 8) : MemM (Vector UInt64 8) :=
  (List.finRange 8).foldlM (fun s (l : Fin 8) => do
    let x ← load (p + 8 * (i + l.val))
    pure (add_lane s l x)) s

def sum_words (p words : Nat) : MemM UInt64 := do
  let s ← (List.range (words / 8)).foldlM (fun s j => add_eight p (j * 8) s) (Vector.replicate 8 0)
  let s0 ← (remainder 8 words).foldlM (fun s0 i => do
    let x ← load (p + 8 * i)
    pure (s0 + x)) (s.get 0)
  pure ((s0 + s.get 1) + (s.get 2 + s.get 3) + ((s.get 4 + s.get 5) + (s.get 6 + s.get 7)))

def total (s : Vector UInt64 8) : UInt64 :=
  (s.get 0 + s.get 1) + (s.get 2 + s.get 3) + ((s.get 4 + s.get 5) + (s.get 6 + s.get 7))

theorem get_eq_getElem (s : Vector UInt64 8) (l : Fin 8) : s.get l = s[l.val] :=
  rfl

def fill_words (p words : Nat) (v : UInt64) : MemM Unit :=
  (List.range words).forM fun i => store (p + 8 * i) v

def fill_words_nt (p words : Nat) (v : UInt64) : MemM Unit := do
  (List.range (words / 4)).forM fun j => stream (p + 8 * (j * 4)) fun _ => v
  (remainder 4 words).forM fun i => store (p + 8 * i) v

def copy_word (dst src i : Nat) : MemM Unit := do
  let x ← load (src + 8 * i)
  store (dst + 8 * i) x

def copy_words_nt (dst src words : Nat) : MemM Unit := do
  (List.range (words / 4)).forM fun j => do
    let x ← loadu (src + 8 * (j * 4))
    stream (dst + 8 * (j * 4)) x
  (remainder 4 words).forM (copy_word dst src)

/--
`memcpy` of a whole number of words.
-/
def memcpy (dst src bytes : Nat) : MemM Unit :=
  (List.range (bytes / 8)).forM (copy_word dst src)

end MemBwWorkload

/--
What a worker is set up with. Whether there are streaming stores is known when the engine is built.
-/
structure MemBwContext where
  metric : Metric
  working_set_bytes : Nat
  seed : UInt64
  thread_index : Nat
  non_temporal : Bool
  huge_pages : Bool
  have_non_temporal : Bool

structure MemBwWorkload where
  mode : MemBwWorkload.Mode
  bytes : Nat
  nt : Bool
  buf : Buffer
  fill : UInt64
  passes : Nat
  batch_bytes : Nat

namespace MemBwWorkload

def xorshift (x : UInt64) : UInt64 :=
  let x := x ^^^ (x <<< 13)
  let x := x ^^^ (x >>> 7)
  x ^^^ (x <<< 17)

def kGolden : UInt64 :=
  0x9E3779B97F4A7C15

def fill_random (p words : Nat) (x : UInt64) : MemM UInt64 :=
  (List.range words).foldlM (fun x i => do
    store (p + 8 * i) (xorshift x)
    pure (xorshift x)) x

def total_of (mode : Mode) (bytes : Nat) : Nat :=
  if mode = .copy then wrap (2 * bytes) else bytes

def setup (os : Os) (ctx : MemBwContext) : MemM MemBwWorkload :=
  let mode := mode_of ctx.metric
  let bytes := buffer_bytes_for ctx.working_set_bytes
  let total := total_of mode bytes
  if 2 ^ 64 - 1 < total then
    throw (.thrown "mem_bw: working set does not fit in a size_t")
  else do
    let buf ← alloc_buffer os total { huge_pages := ctx.huge_pages, first_touch := true }
    let x ← fill_random buf.data (total / 8) (ctx.seed ^^^ (kGolden * UInt64.ofNat (ctx.thread_index + 1)))
    let passes := max 1 (kMinBatchBytes / max bytes 1)
    pure
      { mode := mode
        bytes := bytes
        nt := ctx.non_temporal && ctx.have_non_temporal && mode ≠ .read
        buf := buf
        fill := x ||| 1
        passes := passes
        batch_bytes := wrap (passes * bytes) }

def read_pass (w : MemBwWorkload) (words : Nat) : MemM Unit := do
  let sum ← sum_words w.buf.data words
  consume sum

def write_pass (w : MemBwWorkload) (words p : Nat) : MemM Unit :=
  if w.nt then fill_words_nt w.buf.data words (w.fill + UInt64.ofNat p)
  else fill_words w.buf.data words (w.fill + UInt64.ofNat p)

def copy_pass (w : MemBwWorkload) (words : Nat) : MemM Unit :=
  if w.nt then copy_words_nt (w.buf.data + 8 * words) w.buf.data words
  else memcpy (w.buf.data + 8 * words) w.buf.data w.bytes

def consume_at (addr : Nat) : MemM Unit := do
  let x ← load addr
  consume x

def run_passes (w : MemBwWorkload) (words : Nat) : MemM Unit :=
  match w.mode with
  | .read => (List.range w.passes).forM fun _ => w.read_pass words
  | .write => do
    (List.range w.passes).forM fun p => w.write_pass words p
    consume_at w.buf.data
  | .copy => do
    (List.range w.passes).forM fun _ => w.copy_pass words
    consume_at (w.buf.data + 8 * words)

def run_batch (w : MemBwWorkload) : MemM Nat := do
  w.run_passes (w.bytes / 8)
  pure w.batch_bytes

end MemBwWorkload

section Accesses

variable {data total addr : Nat} {mem : Memory}

theorem Owned.has (h : Owned data total mem) {len : Nat} (hlo : data ≤ addr) (hhi : addr + len ≤ data + total)
    : mem.has addr len = true := by
  unfold Memory.has
  rw [List.all_eq_true]
  intro i hi
  have hi := List.mem_range.mp hi
  exact h _ (by omega) (by omega)

theorem check_rule {len : Nat} (hlo : data ≤ addr) (hhi : addr + len ≤ data + total)
    : Triple (Owned data total) (check addr len) (fun _ => Owned data total) fun _ _ => False := by
  apply Triple.bind (Q := fun mem st => Owned data total mem ∧ Owned data total st) (.get fun _ hst => ⟨hst, hst⟩)
  intro mem
  apply Triple.of_pure
  intro hmem
  rw [if_pos (hmem.has hlo hhi)]
  exact .pure fun _ hst => hst

theorem load_rule (hlo : data ≤ addr) (hhi : addr + 8 ≤ data + total)
    : Triple (Owned data total) (load addr) (fun _ => Owned data total) fun _ _ => False := by
  apply Triple.bind (check_rule hlo hhi)
  intro _
  apply Triple.bind (Q := fun _ => Owned data total) (.get fun _ hst => hst)
  exact fun _ => .pure fun _ hst => hst

theorem store_rule {v : UInt64} (hlo : data ≤ addr) (hhi : addr + 8 ≤ data + total)
    : Triple (Owned data total) (store addr v) (fun _ => Owned data total) fun _ _ => False := by
  apply Triple.bind (check_rule hlo hhi)
  exact fun _ => .modify fun _ hst => hst

theorem loadu_rule (hlo : data ≤ addr) (hhi : addr + 32 ≤ data + total)
    : Triple (Owned data total) (loadu addr) (fun _ => Owned data total) fun _ _ => False := by
  apply Triple.bind (check_rule hlo hhi)
  intro _
  apply Triple.bind (Q := fun _ => Owned data total) (.get fun _ hst => hst)
  exact fun _ => .pure fun _ hst => hst

theorem stream_rule {v : Nat → UInt64} (haligned : 32 ∣ addr) (hlo : data ≤ addr) (hhi : addr + 32 ≤ data + total)
    : Triple (Owned data total) (stream addr v) (fun _ => Owned data total) fun _ _ => False := by
  unfold stream check_aligned
  rw [if_pos haligned]
  apply Triple.bind (check_rule hlo hhi)
  exact fun _ => .modify fun _ hst => hst

theorem consume_rule {v : UInt64}
    : Triple (Owned data total) (consume v) (fun _ => Owned data total) fun _ _ => False :=
  .modify fun _ hst => hst

namespace MemBwWorkload

variable {p words : Nat}

theorem lt_of_mem_remainder {step i : Nat} (h : i ∈ remainder step words) : i < words := by
  unfold remainder at h
  have hi := List.mem_range'_1.mp h
  have hsplit := Nat.div_add_mod' words step
  omega

theorem sum_words_rule (hlo : data ≤ p) (hhi : p + 8 * words ≤ data + total)
    : Triple (Owned data total) (sum_words p words) (fun _ => Owned data total) fun _ _ => False := by
  apply Triple.bind (Q := fun _ => Owned data total)
  . apply Triple.foldlM
    intro s j hj
    have hj := List.mem_range.mp hj
    apply Triple.foldlM
    intro s l _
    have hl := l.isLt
    apply Triple.bind (load_rule (by omega) (by omega))
    exact fun _ => .pure fun _ hst => hst
  . intro s
    apply Triple.bind (Q := fun _ => Owned data total)
    . apply Triple.foldlM
      intro s0 i hi
      have hi := lt_of_mem_remainder hi
      apply Triple.bind (load_rule (by omega) (by omega))
      exact fun _ => .pure fun _ hst => hst
    . exact fun _ => .pure fun _ hst => hst

theorem fill_words_rule {v : UInt64} (hlo : data ≤ p) (hhi : p + 8 * words ≤ data + total)
    : Triple (Owned data total) (fill_words p words v) (fun _ => Owned data total) fun _ _ => False := by
  apply Triple.forM
  intro i hi
  have hi := List.mem_range.mp hi
  exact store_rule (by omega) (by omega)

theorem fill_words_nt_rule {v : UInt64} (haligned : 32 ∣ p) (hlo : data ≤ p) (hhi : p + 8 * words ≤ data + total)
    : Triple (Owned data total) (fill_words_nt p words v) (fun _ => Owned data total) fun _ _ => False := by
  apply Triple.bind (Q := fun _ => Owned data total)
  . apply Triple.forM
    intro j hj
    have hj := List.mem_range.mp hj
    exact stream_rule (by omega) (by omega) (by omega)
  . intro _
    apply Triple.forM
    intro i hi
    have hi := lt_of_mem_remainder hi
    exact store_rule (by omega) (by omega)

theorem copy_word_rule {dst src i : Nat} (hsrc : data ≤ src ∧ src + 8 * i + 8 ≤ data + total)
    (hdst : data ≤ dst ∧ dst + 8 * i + 8 ≤ data + total)
    : Triple (Owned data total) (copy_word dst src i) (fun _ => Owned data total) fun _ _ => False := by
  apply Triple.bind (load_rule (by omega) (by omega))
  exact fun _ => store_rule (by omega) (by omega)

theorem copy_words_nt_rule {dst src : Nat} (haligned : 32 ∣ dst) (hsrc : data ≤ src ∧ src + 8 * words ≤ data + total)
    (hdst : data ≤ dst ∧ dst + 8 * words ≤ data + total)
    : Triple (Owned data total) (copy_words_nt dst src words) (fun _ => Owned data total) fun _ _ => False := by
  apply Triple.bind (Q := fun _ => Owned data total)
  . apply Triple.forM
    intro j hj
    have hj := List.mem_range.mp hj
    apply Triple.bind (loadu_rule (by omega) (by omega))
    exact fun _ => stream_rule (by omega) (by omega) (by omega)
  . intro _
    apply Triple.forM
    intro i hi
    have hi := lt_of_mem_remainder hi
    exact copy_word_rule (by omega) (by omega)

theorem memcpy_rule {dst src bytes : Nat} (hsrc : data ≤ src ∧ src + bytes ≤ data + total)
    (hdst : data ≤ dst ∧ dst + bytes ≤ data + total)
    : Triple (Owned data total) (memcpy dst src bytes) (fun _ => Owned data total) fun _ _ => False := by
  apply Triple.forM
  intro i hi
  have hi := List.mem_range.mp hi
  exact copy_word_rule (by omega) (by omega)

theorem consume_at_rule (hlo : data ≤ addr) (hhi : addr + 8 ≤ data + total)
    : Triple (Owned data total) (consume_at addr) (fun _ => Owned data total) fun _ _ => False := by
  apply Triple.bind (load_rule hlo hhi)
  exact fun _ => consume_rule

theorem fill_random_rule {x : UInt64} (hlo : data ≤ p) (hhi : p + 8 * words ≤ data + total)
    : Triple (Owned data total) (fill_random p words x) (fun _ => Owned data total) fun _ _ => False := by
  apply Triple.foldlM
  intro x i hi
  have hi := List.mem_range.mp hi
  apply Triple.bind (store_rule (by omega) (by omega))
  exact fun _ => .pure fun _ hst => hst

/--
A pass reads or writes each byte of the working set once, and a copy needs as much again.
-/
def directions : Mode → Nat
  | .read | .write => 1
  | .copy => 2

theorem run_passes_rule {w : MemBwWorkload} (haligned : kPage ∣ w.buf.data) (hlines : kCacheLine ∣ w.bytes)
    (hsome : 0 < w.bytes) (htotal : directions w.mode * w.bytes = total)
    : Triple (Owned w.buf.data total) (w.run_passes (w.bytes / 8)) (fun _ => Owned w.buf.data total)
        fun _ _ => False := by
  have hpage : 4096 ∣ w.buf.data := haligned
  have hline : 64 ∣ w.bytes := hlines
  unfold run_passes
  cases hmode : w.mode with
  | read =>
    rw [hmode, directions] at htotal
    apply Triple.forM
    intro _ _
    apply Triple.bind (sum_words_rule (by omega) (by omega))
    exact fun _ => consume_rule
  | write =>
    rw [hmode, directions] at htotal
    apply Triple.bind (Q := fun _ => Owned w.buf.data total)
    . apply Triple.forM
      intro p _
      apply Triple.ite
      . exact fun _ => fill_words_nt_rule (by omega) (by omega) (by omega)
      . exact fun _ => fill_words_rule (by omega) (by omega)
    . exact fun _ => consume_at_rule (by omega) (by omega)
  | copy =>
    rw [hmode, directions] at htotal
    apply Triple.bind (Q := fun _ => Owned w.buf.data total)
    . apply Triple.forM
      intro _ _
      apply Triple.ite
      . exact fun _ => copy_words_nt_rule (by omega) (by omega) (by omega)
      . exact fun _ => memcpy_rule (by omega) (by omega)
    . exact fun _ => consume_at_rule (by omega) (by omega)

theorem run_batch_rule {w : MemBwWorkload} (haligned : kPage ∣ w.buf.data) (hlines : kCacheLine ∣ w.bytes)
    (hsome : 0 < w.bytes) (htotal : directions w.mode * w.bytes = total)
    : Triple (Owned w.buf.data total) (run_batch w) (fun n st => n = w.batch_bytes ∧ Owned w.buf.data total st)
        fun _ _ => False := by
  apply Triple.bind (run_passes_rule haligned hlines hsome htotal)
  exact fun _ => .pure fun _ hst => ⟨rfl, hst⟩

theorem fill_random_faults {x : UInt64} : Triple (fun _ => True) (fill_random p words x) (fun _ _ => True) Faulted := by
  apply Triple.foldlM
  intro x i _
  apply Triple.bind (Q := fun _ _ => True)
  . apply Triple.bind (Q := fun _ _ => True)
    . apply Triple.bind (Q := fun _ _ => True) (.get fun _ _ => trivial)
      intro mem
      apply Triple.ite
      . exact fun _ => .pure fun _ _ => trivial
      . exact fun _ => .throw fun _ _ => ⟨_, rfl⟩
    . exact fun _ => .modify fun _ _ => trivial
  . exact fun _ => .pure fun _ _ => trivial

end MemBwWorkload

end Accesses

namespace MemBwWorkload

/--
The size of the working set after rounding, and that of the buffer if it did not wrap.
-/
def bytes_of (ctx : MemBwContext) : Nat :=
  effective_working_set .mem_bw ctx.working_set_bytes

def needed (ctx : MemBwContext) : Nat :=
  directions (mode_of ctx.metric) * bytes_of ctx

/--
Either the workload is not set up and says so, or it has exactly the buffer that its passes walk, and all of
its batches walk nothing else and report what they walk. In a mapping, what is walked is judged by the pages that it is in.
-/
def Covered (os : Os) (ctx : MemBwContext) : Prop :=
  match setup os ctx .none with
  | .error (.thrown _) _ => True
  | .error (.fault _) _ => False
  | .ok w mem =>
    w.mode = mode_of ctx.metric ∧ w.bytes = bytes_of ctx ∧ 8 * (w.bytes / 8) = w.bytes
      ∧ w.buf.size = needed ctx ∧ w.batch_bytes = w.passes * w.bytes
      ∧ ∀ n, ∃ mem', times (run_batch w) n mem = .ok (List.replicate n w.batch_bytes) mem'

/--
The operating system does not have the memory that it is asked for.
-/
def Refused (os : Os) (ctx : MemBwContext) : Prop :=
  let total := total_of (mode_of ctx.metric) (bytes_of ctx)
  total ≠ 0 ∧ asked os total ctx.huge_pages = none

/--
The size of the buffer fits into 64 bits, and so does that of its mapping.
-/
def NoWrap (ctx : MemBwContext) : Prop :=
  needed ctx < 2 ^ 64 ∧ (ctx.huge_pages = true → needed ctx + kHugePage < 2 ^ 64)

variable {os : Os} {ctx : MemBwContext}

theorem buffer_bytes_spec (working_set : Nat)
    : 64 ≤ buffer_bytes_for working_set ∧ kCacheLine ∣ buffer_bytes_for working_set := by
  unfold buffer_bytes_for kDefaultWorkingSet kCacheLine
  dsimp only
  split
  . omega
  . omega

theorem buffer_bytes_of_lines {working_set : Nat} (hsome : 64 ≤ working_set) (hlines : kCacheLine ∣ working_set)
    : buffer_bytes_for working_set = working_set := by
  unfold kCacheLine at hlines
  unfold buffer_bytes_for kCacheLine
  rw [if_neg (by omega)]
  dsimp only
  omega

theorem bytes_of_lt (hlt : ctx.working_set_bytes < 2 ^ 64) : bytes_of ctx < 2 ^ 64 := by
  unfold bytes_of effective_working_set buffer_bytes_for kDefaultWorkingSet kCacheLine
  dsimp only
  split
  . omega
  . omega

theorem bytes_of_spec (ctx : MemBwContext) : 64 ≤ bytes_of ctx ∧ kCacheLine ∣ bytes_of ctx :=
  buffer_bytes_spec ctx.working_set_bytes

theorem wrap_lt_size {n : Nat} : wrap n < 2 ^ 64 := by
  unfold wrap
  exact Nat.mod_lt _ (by decide)

theorem total_lt (hlt : ctx.working_set_bytes < 2 ^ 64) : total_of (mode_of ctx.metric) (bytes_of ctx) < 2 ^ 64 := by
  unfold total_of
  split
  . exact wrap_lt_size
  . exact bytes_of_lt hlt

theorem total_eq (h : needed ctx < 2 ^ 64) : total_of (mode_of ctx.metric) (bytes_of ctx) = needed ctx := by
  unfold needed at h ⊢
  unfold total_of
  cases hmode : mode_of ctx.metric with
  | read => exact (Nat.one_mul _).symm
  | write => exact (Nat.one_mul _).symm
  | copy =>
    rw [hmode] at h
    exact wrap_of_lt h

def passes_of (bytes : Nat) : Nat :=
  max 1 (kMinBatchBytes / max bytes 1)

theorem batch_lt {bytes : Nat} (hlt : bytes < 2 ^ 64) : passes_of bytes * bytes < 2 ^ 64 := by
  unfold passes_of kMinBatchBytes
  rcases Nat.le_total (4 * 2 ^ 20 / max bytes 1) 1 with hone | hmore
  . rw [Nat.max_eq_left hone, Nat.one_mul]
    exact hlt
  . rw [Nat.max_eq_right hmore]
    calc 4 * 2 ^ 20 / max bytes 1 * bytes
        ≤ 4 * 2 ^ 20 / max bytes 1 * max bytes 1 := Nat.mul_le_mul_left _ (Nat.le_max_left _ _)
      _ ≤ 4 * 2 ^ 20 := Nat.div_mul_le_self _ _
      _ < 2 ^ 64 := by decide

def made (ctx : MemBwContext) (buf : Buffer) (x : UInt64) : MemBwWorkload where
  mode := mode_of ctx.metric
  bytes := bytes_of ctx
  nt := ctx.non_temporal && ctx.have_non_temporal && mode_of ctx.metric ≠ .read
  buf := buf
  fill := x ||| 1
  passes := passes_of (bytes_of ctx)
  batch_bytes := wrap (passes_of (bytes_of ctx) * bytes_of ctx)

theorem setup_rule {Q : Buffer → Memory → Prop} {R : MemBwWorkload → Memory → Prop} {E : Failure → Memory → Prop}
    (hlt : ctx.working_set_bytes < 2 ^ 64)
    (halloc : Triple (· = .none) (alloc_buffer os (total_of (mode_of ctx.metric) (bytes_of ctx))
      { huge_pages := ctx.huge_pages, first_touch := true }) Q E)
    (hfill : ∀ buf x, Triple (Q buf) (fill_random buf.data (total_of (mode_of ctx.metric) (bytes_of ctx) / 8) x)
      (fun x st => R (made ctx buf x) st) E)
    : Triple (· = .none) (setup os ctx) R E := by
  have hguard := total_lt hlt
  apply Triple.ite
  . intro hlarge
    exact absurd (show 2 ^ 64 - 1 < total_of (mode_of ctx.metric) (bytes_of ctx) from hlarge) (by omega)
  . intro _
    apply Triple.bind halloc
    intro buf
    apply Triple.bind (hfill buf _)
    exact fun x => .pure fun _ hst => hst

/--
A workload that has been set up with all of its buffer.
-/
structure Ready (ctx : MemBwContext) (w : MemBwWorkload) (mem : Memory) : Prop where
  mode : w.mode = mode_of ctx.metric
  bytes : w.bytes = bytes_of ctx
  size : w.buf.size = needed ctx
  batch_bytes : w.batch_bytes = w.passes * w.bytes
  aligned : kPage ∣ w.buf.data
  owned : Owned w.buf.data (needed ctx) mem

theorem needed_ne_zero (ctx : MemBwContext) : needed ctx ≠ 0 := by
  have hbytes := (bytes_of_spec ctx).1
  unfold needed directions
  split
  . omega
  . omega
  . omega

theorem granted_of_fits (hfits : needed ctx < 2 ^ 64) (h : ¬Refused os ctx)
    : (asked os (needed ctx) ctx.huge_pages).isSome := by
  rw [Option.isSome_iff_ne_none]
  intro hnone
  apply h
  unfold Refused
  rw [total_eq hfits]
  exact ⟨needed_ne_zero ctx, hnone⟩

theorem setup_ready (hlt : ctx.working_set_bytes < 2 ^ 64) (hfits : NoWrap ctx)
    (hgrant : (asked os (needed ctx) ctx.huge_pages).isSome)
    : Triple (· = .none) (setup os ctx) (Ready ctx) fun _ _ => False := by
  have htotal := total_eq hfits.1
  have halloc : Triple (· = .none)
      (alloc_buffer os (needed ctx) { huge_pages := ctx.huge_pages, first_touch := true })
      (fun buf st => buf.size = needed ctx ∧ kPage ∣ buf.data ∧ Owned buf.data (needed ctx) st) fun _ _ => False :=
    alloc_buffer_owned (needed_ne_zero ctx) hgrant hfits.2
  rw [← htotal] at halloc
  apply setup_rule hlt halloc
  intro buf x
  apply Triple.of_pure
  intro hsize
  apply Triple.of_pure
  intro haligned
  apply (fill_random_rule (Nat.le_refl _) (by omega)).weaken
  intro x st howned
  rw [htotal] at hsize howned
  exact ⟨rfl, rfl, hsize, wrap_of_lt (batch_lt (bytes_of_lt hlt)), haligned, howned⟩

theorem run_batch_ready {w : MemBwWorkload} {mem : Memory} (h : Ready ctx w mem) (n : Nat)
    : ∃ mem', times (run_batch w) n mem = .ok (List.replicate n w.batch_bytes) mem' := by
  obtain ⟨hsome, hlines⟩ := bytes_of_spec ctx
  rw [← h.bytes] at hsome hlines
  have htotal : directions w.mode * w.bytes = needed ctx := by
    rw [h.mode, h.bytes]
    rfl
  have hbatch := run_batch_rule h.aligned hlines (by omega) htotal
  have hall := Triple.times (I := fun _ => Owned w.buf.data (needed ctx)) (i := 0) (fun _ => hbatch) n
  obtain ⟨as, mem', hok, ⟨hlength, has⟩, -⟩ := hall.exists_ok h.owned
  rw [hok, List.eq_replicate_iff.mpr ⟨hlength, has⟩]
  exact ⟨mem', rfl⟩

theorem covered_of_ready (h : Triple (· = .none) (setup os ctx) (Ready ctx) fun _ _ => False) : Covered os ctx := by
  obtain ⟨w, mem, hok, hw⟩ := h.exists_ok rfl
  obtain ⟨hsome, hlines⟩ := bytes_of_spec ctx
  unfold Covered
  rw [hok]
  refine ⟨hw.mode, hw.bytes, ?_, hw.size, hw.batch_bytes, run_batch_ready hw⟩
  rw [hw.bytes]
  unfold kCacheLine at hlines
  omega

theorem covered_of_refused (hlt : ctx.working_set_bytes < 2 ^ 64) (h : Refused os ctx) : Covered os ctx := by
  have hsetup : Triple (· = .none) (setup os ctx) (fun _ _ => False) fun err _ => err = bad_alloc :=
    setup_rule hlt (alloc_buffer_refused h.1 h.2 |>.strengthen fun _ _ => trivial) fun _ _ _ hst => hst.elim
  have hst := hsetup .none rfl
  unfold Covered
  split at hst
  . exact hst.elim
  . rename_i err mem herror
    rw [herror, hst]
    trivial

theorem setup_granted (hlt : ctx.working_set_bytes < 2 ^ 64) (h : ¬Refused os ctx)
    : Triple (· = .none) (setup os ctx) (fun w _ => w.buf.size = total_of (mode_of ctx.metric) (bytes_of ctx))
        Faulted := by
  have hgrant : total_of (mode_of ctx.metric) (bytes_of ctx) ≠ 0 →
      (asked os (total_of (mode_of ctx.metric) (bytes_of ctx)) ctx.huge_pages).isSome := by
    intro hsome
    rw [Option.isSome_iff_ne_none]
    exact fun hnone => h ⟨hsome, hnone⟩
  apply setup_rule hlt (alloc_buffer_granted hgrant)
  intro buf x
  apply Triple.of_pure (P := fun _ => True) (p := buf.size = _) ?_ |>.strengthen fun _ hst => ⟨hst, trivial⟩
  intro hsize
  exact fill_random_faults.weaken fun _ _ _ => hsize

theorem covered_ok {R : MemBwWorkload → Memory → Prop} (h : Covered os ctx)
    (hsetup : Triple (· = .none) (setup os ctx) R Faulted)
    : ∃ w mem, R w mem ∧ w.buf.size = needed ctx := by
  have hst := hsetup .none rfl
  unfold Covered at h
  split at hst
  . rename_i w mem hok
    rw [hok] at h
    exact ⟨w, mem, hst, h.2.2.2.1⟩
  . rename_i err mem herror
    obtain ⟨addr, rfl⟩ := hst
    rw [herror] at h
    exact h.elim

theorem noWrap_of_covered (hlt : ctx.working_set_bytes < 2 ^ 64) (h : Covered os ctx) (hgranted : ¬Refused os ctx)
    : NoWrap ctx := by
  have hfits : needed ctx < 2 ^ 64 := by
    obtain ⟨w, mem, htotal, hsize⟩ := covered_ok h (setup_granted hlt hgranted)
    rw [← hsize, htotal]
    exact total_lt hlt
  refine ⟨hfits, fun hhuge => ?_⟩
  by_contra hwrap
  have htotal := total_eq hfits
  have halloc : Triple (· = .none)
      (alloc_buffer os (needed ctx) { huge_pages := ctx.huge_pages, first_touch := true }) (fun _ _ => False) Faulted :=
    alloc_buffer_of_wrap (granted_of_fits hfits hgranted) hhuge rfl hfits (Nat.le_of_not_lt hwrap)
  rw [← htotal] at halloc
  obtain ⟨w, mem, hnone, -⟩ := covered_ok h (setup_rule hlt halloc (R := fun _ _ => False) fun _ _ _ hst => hst.elim)
  exact hnone

/--
A workload is covered exactly if its memory is refused, or neither the size of its buffer nor that of the
mapping wraps. Its working set is not rounded any further than in the results.
-/
theorem covered_iff (os : Os) (ctx : MemBwContext) (hlt : ctx.working_set_bytes < 2 ^ 64)
    : (Covered os ctx ↔ Refused os ctx ∨ NoWrap ctx)
      ∧ effective_working_set .mem_bw (bytes_of ctx) = bytes_of ctx := by
  refine ⟨⟨?_, ?_⟩, buffer_bytes_of_lines (bytes_of_spec ctx).1 (bytes_of_spec ctx).2⟩
  . intro h
    by_cases hrefused : Refused os ctx
    . exact .inl hrefused
    . exact .inr (noWrap_of_covered hlt h hrefused)
  . intro h
    by_cases hrefused : Refused os ctx
    . exact covered_of_refused hlt hrefused
    . have hfits := h.resolve_left hrefused
      exact covered_of_ready (setup_ready hlt hfits (granted_of_fits hfits.1 hrefused))

def copy_of (working_set_bytes : Nat) : MemBwContext where
  metric := .mem_copy_bw
  working_set_bytes := working_set_bytes
  seed := 1
  thread_index := 0
  non_temporal := true
  huge_pages := false
  have_non_temporal := true

theorem covered_iff_page : Covered .low (copy_of kPage) :=
  (covered_iff .low (copy_of kPage) (by decide)).1.mpr (.inr ⟨by decide, nofun⟩)

/--
Twice the working set is zero modulo the size of a word, so that there is no buffer at all.
-/
theorem not_covered_half : ¬Covered .low (copy_of (2 ^ 63)) := by
  intro h
  have hbytes : bytes_of (copy_of (2 ^ 63)) = 2 ^ 63 := buffer_bytes_of_lines (by decide) (by decide)
  have htotal : total_of (mode_of (copy_of (2 ^ 63)).metric) (bytes_of (copy_of (2 ^ 63))) = 0 := by
    rw [hbytes]
    change wrap (2 * 2 ^ 63) = 0
    unfold wrap
    rfl
  have hgranted : ¬Refused .low (copy_of (2 ^ 63)) := fun hrefused => hrefused.1 htotal
  have hfits := (noWrap_of_covered (by decide) h hgranted).1
  unfold needed at hfits
  rw [hbytes] at hfits
  exact absurd hfits (by decide)

end MemBwWorkload

end Bench
