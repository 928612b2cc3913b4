import BenchPlatform.Engine.Metric
import BenchPlatform.Lib.Hoare

/-!
This module contains the buffers of the workloads: where their memory comes from, what is cut off a mapping
to align it, and what is left of it in the end.
-/

namespace Bench

open Hoare

def kPage : Nat :=
  4096

def kHugePage : Nat :=
  2 * 2 ^ 20

inductive Failure where
  | thrown (what : String)
  /-- The process is killed for an access to memory that it does not have, or that is not aligned. -/
  | fault (addr : Nat)
  deriving DecidableEq

/--
Where the operating system puts a mapping or a block of the heap, if there is room for it.
-/
structure Os where
  mmap : Nat → Option Nat
  posix_memalign : Nat → Option Nat
  mmap_zero : mmap 0 = none
  mmap_some : ∀ span start, mmap span = some start → 0 < start ∧ kPage ∣ start ∧ start + span ≤ 2 ^ 64
  posix_memalign_some : ∀ bytes start, posix_memalign bytes = some start →
    0 < start ∧ kPage ∣ start ∧ start + bytes ≤ 2 ^ 64

/--
The memory that a process has for its buffers: the pages that are mapped, the blocks of the heap with their
sizes, and the words at their addresses. The sink keeps what is computed from them.
-/
structure Memory where
  pages : Nat → Bool
  blocks : List (Nat × Nat)
  words : Nat → UInt64
  sink : UInt64

abbrev MemM : Type → Type :=
  EStateM Failure Memory

/--
The page has some of the bytes from `addr` on.
-/
def touches (page addr len : Nat) : Bool :=
  page * kPage < addr + len && addr < (page + 1) * kPage

namespace Memory

def none : Memory where
  pages := fun _ => false
  blocks := []
  words := fun _ => 0
  sink := 0

def allocated (mem : Memory) (addr : Nat) : Bool :=
  mem.pages (addr / kPage) || mem.blocks.any fun (start, bytes) => start ≤ addr && addr < start + bytes

def zero (mem : Memory) (start len : Nat) : Memory :=
  { mem with words := fun addr => if start ≤ addr ∧ addr < start + len then 0 else mem.words addr }

def map (mem : Memory) (start span : Nat) : Memory :=
  { mem.zero start span with pages := fun page => mem.pages page || touches page start span }

/--
`munmap` rejects an address that is not that of a page.
-/
def unmap (mem : Memory) (addr len : Nat) : Memory :=
  if kPage ∣ addr ∧ 0 < len then { mem with pages := fun page => mem.pages page && !touches page addr len }
  else mem

end Memory

@[irreducible]
def wrap (n : Nat) : Nat :=
  n % 2 ^ 64

@[irreducible]
def wrap_sub (n k : Nat) : Nat :=
  (n + 2 ^ 64 - k) % 2 ^ 64

structure Buffer where
  data : Nat
  size : Nat
  mapped : Nat
  huge_requested : Bool
  deriving DecidableEq

structure AllocOptions where
  huge_pages : Bool
  first_touch : Bool

namespace Buffer

def empty : Buffer :=
  { data := 0, size := 0, mapped := 0, huge_requested := false }

def emptied (buf : Buffer) : Buffer :=
  { buf with data := 0, size := 0, mapped := 0 }

def free (addr : Nat) : MemM Unit :=
  modify fun mem => { mem with blocks := mem.blocks.filter (·.1 ≠ addr) }

def munmap (addr len : Nat) : MemM Unit :=
  modify fun mem => mem.unmap addr len

def release_data (buf : Buffer) : MemM Unit :=
  if 0 < buf.mapped then munmap buf.data buf.mapped else free buf.data

def release (buf : Buffer) : MemM Buffer :=
  if buf.data = 0 then
    pure buf
  else do
    release_data buf
    pure buf.emptied

def move (other : Buffer) : Buffer × Buffer :=
  (other, other.emptied)

def assign (buf other : Buffer) : MemM (Buffer × Buffer) := do
  let _ ← buf.release
  pure other.move

end Buffer

def aligned_of (start : Nat) : Nat :=
  wrap (start + kHugePage - 1) / kHugePage * kHugePage

/--
The mapping without its first `head` bytes and without `tail` bytes from `stop` on.
-/
def Memory.cut (mem : Memory) (raw head stop tail : Nat) : Memory :=
  let mem := if 0 < head then mem.unmap raw head else mem
  if 0 < tail then mem.unmap stop tail else mem

def Memory.trim (mem : Memory) (raw span bytes : Nat) : Memory :=
  let aligned := aligned_of raw
  let head := wrap_sub aligned raw
  let tail := wrap_sub (wrap_sub span head) bytes
  mem.cut raw head (wrap (aligned + bytes)) tail

def bad_alloc : Failure :=
  .thrown "std::bad_alloc"

def map_huge (os : Os) (bytes : Nat) : MemM Buffer :=
  let span := wrap (bytes + kHugePage)
  match os.mmap span with
  | none => throw bad_alloc
  | some raw => do
    modify fun mem => (mem.map raw span).trim raw span bytes
    pure { data := aligned_of raw, size := bytes, mapped := bytes, huge_requested := true }

def alloc_heap (os : Os) (bytes : Nat) : MemM Buffer :=
  match os.posix_memalign bytes with
  | none => throw bad_alloc
  | some raw => do
    modify fun mem => { mem.zero raw bytes with blocks := (raw, bytes) :: mem.blocks }
    pure { data := raw, size := bytes, mapped := 0, huge_requested := false }

def alloc_memory (os : Os) (bytes : Nat) (opts : AllocOptions) : MemM Buffer :=
  if opts.huge_pages && kHugePage ≤ bytes then map_huge os bytes else alloc_heap os bytes

def touch (addr : Nat) : MemM Unit := do
  let mem ← get
  if mem.allocated addr then
    pure ()
  else
    throw (.fault addr)

def touch_pages (buf : Buffer) (bytes : Nat) (opts : AllocOptions) : MemM Unit :=
  if opts.first_touch && 0 < buf.mapped then
    (List.range ((bytes + 4095) / 4096)).forM fun j => touch (buf.data + 4096 * j)
  else
    pure ()

def alloc_buffer (os : Os) (bytes : Nat) (opts : AllocOptions) : MemM Buffer :=
  if bytes = 0 then
    pure .empty
  else do
    let buf ← alloc_memory os bytes opts
    touch_pages buf bytes opts
    pure buf

variable {os : Os} {bytes start : Nat} {opts : AllocOptions} {mem mem' : Memory} {buf : Buffer}

theorem release_move (other : Buffer) (mem : Memory)
    : other.move.2.release mem = .ok other.move.2 mem ∧ other.move.1.release mem = other.release mem :=
  ⟨rfl, rfl⟩

theorem kPage_eq : kPage = 4096 := rfl

theorem kHugePage_eq : kHugePage = 2097152 := rfl

theorem touches_iff {page addr len : Nat}
    : touches page addr len = true ↔ page * 4096 < addr + len ∧ addr < (page + 1) * 4096 := by
  unfold touches
  rw [Bool.and_eq_true, decide_eq_true_eq, decide_eq_true_eq]
  rfl

theorem unmap_pages {addr len page : Nat}
    : (mem.unmap addr len).pages page = true
      ↔ mem.pages page = true ∧ ¬(kPage ∣ addr ∧ 0 < len ∧ touches page addr len = true) := by
  unfold Memory.unmap
  split
  . rename_i h
    rw [Bool.and_eq_true, Bool.not_eq_true', ← Bool.not_eq_true]
    simp only [h.1, h.2, true_and]
  . rename_i h
    exact (and_iff_left fun hall => h ⟨hall.1, hall.2.1⟩).symm

theorem cut_pages {raw head stop tail page : Nat}
    : (mem.cut raw head stop tail).pages page = true
      ↔ (mem.pages page = true ∧ ¬(kPage ∣ raw ∧ 0 < head ∧ touches page raw head = true))
        ∧ ¬(kPage ∣ stop ∧ 0 < tail ∧ touches page stop tail = true) := by
  have hcut : (if 0 < head then mem.unmap raw head else mem).pages page = true
      ↔ mem.pages page = true ∧ ¬(kPage ∣ raw ∧ 0 < head ∧ touches page raw head = true) := by
    split
    . exact unmap_pages
    . rename_i hnone
      exact (and_iff_left fun hall => hnone hall.2.1).symm
  unfold Memory.cut
  dsimp only
  split
  . rw [unmap_pages, hcut]
  . rename_i hnone
    rw [hcut]
    exact (and_iff_left fun hall => hnone hall.2.1).symm

theorem trim_eq {raw span : Nat}
    : mem.trim raw span bytes
      = mem.cut raw (wrap_sub (aligned_of raw) raw) (wrap (aligned_of raw + bytes))
        (wrap_sub (wrap_sub span (wrap_sub (aligned_of raw) raw)) bytes) := rfl

theorem none_blocks : Memory.none.blocks = [] := rfl

theorem map_blocks {span : Nat} : (mem.map start span).blocks = mem.blocks := rfl

theorem unmap_blocks {addr len : Nat} : (mem.unmap addr len).blocks = mem.blocks := by
  unfold Memory.unmap
  split
  . rfl
  . rfl

theorem cut_blocks {raw head stop tail : Nat} : (mem.cut raw head stop tail).blocks = mem.blocks := by
  have hcut : (if 0 < head then mem.unmap raw head else mem).blocks = mem.blocks := by
    split
    . exact unmap_blocks
    . rfl
  unfold Memory.cut
  dsimp only
  split
  . rw [unmap_blocks, hcut]
  . exact hcut

theorem trim_blocks {raw span : Nat} : (mem.trim raw span bytes).blocks = mem.blocks := by
  rw [trim_eq, cut_blocks]

theorem wrap_of_lt {n : Nat} (h : n < 2 ^ 64) : wrap n = n := by
  unfold wrap
  exact Nat.mod_eq_of_lt h

theorem wrap_sub_of_le {n k : Nat} (hle : k ≤ n) (h : n < 2 ^ 64) : wrap_sub n k = n - k := by
  unfold wrap_sub
  omega

theorem exists_head (hpos : kPage ∣ start) (h : start + kHugePage ≤ 2 ^ 64)
    : ∃ head, aligned_of start = start + head ∧ head < kHugePage ∧ kPage ∣ head ∧ kHugePage ∣ start + head := by
  unfold aligned_of
  rw [kPage_eq] at *
  rw [kHugePage_eq] at *
  rw [wrap_of_lt (by omega)]
  exact ⟨(start + 2097152 - 1) / 2097152 * 2097152 - start, by omega, by omega, by omega, by omega⟩

theorem trim_of_fits (mem : Memory) (hsome : 0 < start) (hpos : kPage ∣ start) (hfits : start + (bytes + kHugePage) ≤ 2 ^ 64)
    : ∃ head, aligned_of start = start + head ∧ head < kHugePage ∧ kPage ∣ head ∧ kHugePage ∣ start + head
      ∧ mem.trim start (bytes + kHugePage) bytes
        = mem.cut start head (start + head + bytes) (kHugePage - head) := by
  obtain ⟨head, haligned, hlt, hdvd, hhuge⟩ := exists_head hpos (by omega)
  refine ⟨head, haligned, hlt, hdvd, hhuge, ?_⟩
  have hhead : wrap_sub (start + head) start = head := by
    rw [wrap_sub_of_le (by omega) (by omega), Nat.add_sub_cancel_left]
  have htail : wrap_sub (wrap_sub (bytes + kHugePage) head) bytes = kHugePage - head := by
    have hspan : wrap_sub (bytes + kHugePage) head = bytes + kHugePage - head :=
      wrap_sub_of_le (by omega) (by omega)
    rw [hspan, wrap_sub_of_le (by omega) (by omega)]
    omega
  rw [trim_eq, haligned, hhead, htail, wrap_of_lt (by omega)]

theorem touch_rule {addr : Nat} {E : Failure → Memory → Prop} (h : mem.allocated addr = false → E (.fault addr) mem)
    : Triple (· = mem) (touch addr) (fun _ st => mem.allocated addr = true ∧ st = mem) E := by
  apply Triple.bind (Q := fun mem' st => mem' = mem ∧ st = mem) (.get fun st hst => ⟨hst, hst⟩)
  intro mem'
  apply Triple.of_pure
  rintro rfl
  apply Triple.ite
  . exact fun howned => .pure fun _ hst => ⟨howned, hst⟩
  . intro hfree
    refine .throw ?_
    rintro st rfl
    exact h (eq_false_of_ne_true hfree)

theorem touch_pages_rule {E : Failure → Memory → Prop}
    (h : ∀ j, 4096 * j < bytes → mem.allocated (buf.data + 4096 * j) = false → E (.fault (buf.data + 4096 * j)) mem)
    : Triple (· = mem) (touch_pages buf bytes opts)
        (fun _ st => (opts.first_touch = true → 0 < buf.mapped →
          ∀ j, 4096 * j < bytes → mem.allocated (buf.data + 4096 * j) = true) ∧ st = mem) E := by
  apply Triple.ite
  . intro _
    apply (Triple.forM_all (R := fun j => mem.allocated (buf.data + 4096 * j) = true) ?_).weaken
    . intro _ st hst
      exact ⟨fun _ _ j hj => hst.1 j (List.mem_range.mpr (by omega)), hst.2⟩
    . intro j hj
      have hj := List.mem_range.mp hj
      exact touch_rule (h j (by omega))
  . intro hcond
    refine .pure fun _ hst => ⟨fun hfirst hmapped => absurd ?_ hcond, hst⟩
    rw [hfirst, Bool.true_and, decide_eq_true_eq]
    exact hmapped

/--
The mapped pages are those of the buffer, which is aligned, and none is left when it is released.
-/
def ExactlyMapped (os : Os) (bytes : Nat) (opts : AllocOptions) : Prop :=
  ∃ buf mem, alloc_buffer os bytes opts .none = .ok buf mem ∧ kHugePage ∣ buf.data
    ∧ (∀ page, mem.pages page = true ↔ touches page buf.data bytes = true)
    ∧ ∃ buf' mem', buf.release mem = .ok buf' mem' ∧ ∀ page, mem'.pages page = false

theorem alloc_memory_huge {raw : Nat} {E : Failure → Memory → Prop} (hhuge : opts.huge_pages = true)
    (hbytes : kHugePage ≤ bytes) (hraw : os.mmap (wrap (bytes + kHugePage)) = some raw)
    (hmem' : mem' = (mem.map raw (wrap (bytes + kHugePage))).trim raw (wrap (bytes + kHugePage)) bytes)
    : Triple (· = mem) (alloc_memory os bytes opts)
        (fun buf st => buf = { data := aligned_of raw, size := bytes, mapped := bytes, huge_requested := true }
          ∧ st = mem') E := by
  unfold alloc_memory
  rw [if_pos (by rw [hhuge, Bool.true_and, decide_eq_true_eq]; exact hbytes)]
  unfold map_huge
  dsimp only
  rw [hraw]
  apply Triple.bind (Q := fun _ st => st = mem')
  . refine .modify ?_
    rintro st rfl
    exact hmem'.symm
  . exact fun _ => .pure fun _ hst => ⟨rfl, hst⟩

theorem alloc_buffer_huge {raw : Nat} {E : Failure → Memory → Prop} (hhuge : opts.huge_pages = true)
    (hbytes : kHugePage ≤ bytes) (hraw : os.mmap (wrap (bytes + kHugePage)) = some raw)
    (hmem' : mem' = (mem.map raw (wrap (bytes + kHugePage))).trim raw (wrap (bytes + kHugePage)) bytes)
    (h : ∀ j, 4096 * j < bytes → mem'.allocated (aligned_of raw + 4096 * j) = false →
      E (.fault (aligned_of raw + 4096 * j)) mem')
    : Triple (· = mem) (alloc_buffer os bytes opts)
        (fun buf st => buf = { data := aligned_of raw, size := bytes, mapped := bytes, huge_requested := true }
          ∧ st = mem'
          ∧ (opts.first_touch = true → ∀ j, 4096 * j < bytes → mem'.allocated (aligned_of raw + 4096 * j) = true))
        E := by
  have hsome : 0 < bytes := by
    rw [kHugePage_eq] at hbytes
    omega
  unfold alloc_buffer
  rw [if_neg (by omega)]
  apply Triple.bind (alloc_memory_huge hhuge hbytes hraw hmem')
  intro buf
  apply Triple.of_pure
  rintro rfl
  apply Triple.bind (touch_pages_rule h)
  intro _
  apply Triple.of_pure
  intro htouched
  exact .pure fun _ hst => ⟨rfl, hst, fun hfirst => htouched hfirst hsome⟩

theorem map_none_pages {raw span page : Nat} : (Memory.none.map raw span).pages page = touches page raw span :=
  Bool.false_or _

theorem trim_exact (hsome : 0 < start) (hpos : kPage ∣ start) (hfits : start + (bytes + kHugePage) ≤ 2 ^ 64)
    (hdvd : kPage ∣ bytes) (page : Nat)
    : ((Memory.none.map start (bytes + kHugePage)).trim start (bytes + kHugePage) bytes).pages page = true
      ↔ touches page (aligned_of start) bytes = true := by
  obtain ⟨head, haligned, hlt, hhead, -, htrim⟩ :=
    trim_of_fits (Memory.none.map start (bytes + kHugePage)) hsome hpos hfits
  rw [htrim, cut_pages, map_none_pages, haligned]
  simp only [touches_iff]
  rw [kPage_eq] at *
  rw [kHugePage_eq] at *
  clear htrim haligned hfits
  omega

theorem trim_leaves (hsome : 0 < start) (hpos : kPage ∣ start) (hfits : start + (bytes + kHugePage) ≤ 2 ^ 64)
    (hdvd : ¬kPage ∣ bytes)
    : ∃ page, ((Memory.none.map start (bytes + kHugePage)).trim start (bytes + kHugePage) bytes).pages page = true
      ∧ touches page (aligned_of start) bytes = false := by
  obtain ⟨head, haligned, hlt, hhead, -, htrim⟩ :=
    trim_of_fits (Memory.none.map start (bytes + kHugePage)) hsome hpos hfits
  refine ⟨(start + head + bytes) / 4096 + 1, ?_, ?_⟩
  . rw [htrim, cut_pages, map_none_pages]
    simp only [touches_iff]
    rw [kPage_eq] at *
    rw [kHugePage_eq] at *
    clear htrim haligned hfits
    omega
  . rw [haligned, ← Bool.not_eq_true, touches_iff]
    omega

theorem cut_le {raw head stop tail page : Nat} (h : mem.pages page = false)
    : (mem.cut raw head stop tail).pages page = false := by
  rw [← Bool.not_eq_true, cut_pages, h]
  simp only [Bool.false_eq_true, false_and, not_false_eq_true]

theorem trim_le {raw span page : Nat} (h : mem.pages page = false) : (mem.trim raw span bytes).pages page = false := by
  rw [trim_eq]
  exact cut_le h

theorem wrap_lt (hlt : bytes < 2 ^ 64) (hwrap : 2 ^ 64 ≤ bytes + kHugePage) : wrap (bytes + kHugePage) < kHugePage := by
  unfold wrap
  rw [kHugePage_eq] at *
  omega

theorem trim_of_small {span data : Nat} (hpos : kPage ∣ start) (hspan : span < kHugePage)
    (hbytes : 2 * kHugePage ≤ bytes) (hdata : kHugePage ∣ data)
    : ∃ page, ((Memory.none.map start span).trim start span bytes).pages page = false
      ∧ touches page data bytes = true := by
  have hfirst : touches (data / 4096) data bytes = true := by
    rw [touches_iff]
    rw [kHugePage_eq] at *
    omega
  have hlast : touches (data / 4096 + 512) data bytes = true := by
    rw [touches_iff]
    rw [kHugePage_eq] at *
    omega
  cases hcase : touches (data / 4096) start span with
  | false => exact ⟨data / 4096, trim_le (map_none_pages.trans hcase), hfirst⟩
  | true =>
    have hbehind : touches (data / 4096 + 512) start span = false := by
      rw [touches_iff] at hcase
      rw [← Bool.not_eq_true, touches_iff]
      rw [kPage_eq] at hpos
      rw [kHugePage_eq] at hspan
      omega
    exact ⟨data / 4096 + 512, trim_le (map_none_pages.trans hbehind), hlast⟩

section Huge

variable {raw : Nat}

theorem exactlyMapped_of_fits (hhuge : opts.huge_pages = true) (hbytes : kHugePage ≤ bytes)
    (hraw : os.mmap (wrap (bytes + kHugePage)) = some raw) (hdvd : kPage ∣ bytes) (hfits : bytes + kHugePage < 2 ^ 64)
    : ExactlyMapped os bytes opts := by
  have hwrap : wrap (bytes + kHugePage) = bytes + kHugePage := wrap_of_lt hfits
  have hmmap := os.mmap_some _ _ hraw
  rw [hwrap] at hmmap
  obtain ⟨hsome, hpos, hend⟩ := hmmap
  have hexact := trim_exact hsome hpos hend hdvd
  obtain ⟨head, haligned, -, -, hhead⟩ := exists_head hpos (by omega)
  generalize hmem : (Memory.none.map raw (bytes + kHugePage)).trim raw (bytes + kHugePage) bytes = mem at hexact
  have hrule : Triple (· = .none) (alloc_buffer os bytes opts)
      (fun buf st => buf = { data := aligned_of raw, size := bytes, mapped := bytes, huge_requested := true }
        ∧ st = mem) fun _ _ => False := by
    refine (alloc_buffer_huge hhuge hbytes hraw (by rw [hwrap, hmem]) ?_).weaken fun _ _ hst => ⟨hst.1, hst.2.1⟩
    intro j hj hfree
    have htouched : touches ((aligned_of raw + 4096 * j) / 4096) (aligned_of raw) bytes = true := by
      rw [touches_iff]
      omega
    have hpage := (hexact _).mpr htouched
    rw [Memory.allocated, kPage_eq, hpage] at hfree
    cases hfree
  obtain ⟨buf, mem', halloc, rfl, rfl⟩ := hrule.exists_ok rfl
  have hdata : aligned_of raw ≠ 0 := by omega
  refine ⟨_, _, halloc, haligned ▸ hhead, hexact, ?_⟩
  refine ⟨Buffer.emptied ⟨aligned_of raw, bytes, bytes, true⟩, mem'.unmap (aligned_of raw) bytes, ?_, fun page => ?_⟩
  . unfold Buffer.release
    rw [if_neg hdata]
    unfold Buffer.release_data
    rw [if_pos (by rw [kHugePage_eq] at hbytes; dsimp only; omega)]
    rfl
  . rw [← Bool.not_eq_true, unmap_pages, hexact]
    rintro ⟨htouched, hkept⟩
    refine hkept ⟨?_, ?_, htouched⟩
    . rw [haligned]
      rw [kPage_eq] at *
      rw [kHugePage_eq] at hhead
      omega
    . rw [kHugePage_eq] at hbytes
      omega

theorem of_exactlyMapped (hhuge : opts.huge_pages = true) (hbytes : kHugePage ≤ bytes)
    (hraw : os.mmap (wrap (bytes + kHugePage)) = some raw) (h : ExactlyMapped os bytes opts)
    : kHugePage ∣ aligned_of raw
      ∧ ∀ page,
        ((Memory.none.map raw (wrap (bytes + kHugePage))).trim raw (wrap (bytes + kHugePage)) bytes).pages page = true
        ↔ touches page (aligned_of raw) bytes = true := by
  obtain ⟨buf, mem, halloc, hdata, hpages, -⟩ := h
  have hrule : Triple (· = .none) (alloc_buffer os bytes opts)
      (fun buf st => buf = { data := aligned_of raw, size := bytes, mapped := bytes, huge_requested := true }
        ∧ st = (Memory.none.map raw (wrap (bytes + kHugePage))).trim raw (wrap (bytes + kHugePage)) bytes)
      fun _ _ => True :=
    (alloc_buffer_huge hhuge hbytes hraw rfl fun _ _ _ => trivial).weaken fun _ _ hst => ⟨hst.1, hst.2.1⟩
  obtain ⟨rfl, rfl⟩ := hrule.of_ok rfl halloc
  exact ⟨hdata, hpages⟩

theorem not_exactlyMapped_of_not_dvd (hhuge : opts.huge_pages = true) (hbytes : kHugePage ≤ bytes)
    (hraw : os.mmap (wrap (bytes + kHugePage)) = some raw) (hdvd : ¬kPage ∣ bytes) (hfits : bytes + kHugePage < 2 ^ 64)
    : ¬ExactlyMapped os bytes opts := by
  intro h
  obtain ⟨-, hpages⟩ := of_exactlyMapped hhuge hbytes hraw h
  have hmmap := os.mmap_some _ _ hraw
  rw [wrap_of_lt hfits] at hmmap hpages
  obtain ⟨page, hleft, hbehind⟩ := trim_leaves hmmap.1 hmmap.2.1 hmmap.2.2 hdvd
  rw [hpages, hbehind] at hleft
  cases hleft

theorem not_exactlyMapped_of_wrap (hhuge : opts.huge_pages = true) (hlt : bytes < 2 ^ 64)
    (hraw : os.mmap (wrap (bytes + kHugePage)) = some raw) (hwrap : 2 ^ 64 ≤ bytes + kHugePage)
    : ¬ExactlyMapped os bytes opts := by
  intro h
  have hlarge : 2 * kHugePage ≤ bytes := by
    rw [kHugePage_eq] at *
    omega
  obtain ⟨hdata, hpages⟩ := of_exactlyMapped hhuge (by omega) hraw h
  have hpos := (os.mmap_some _ _ hraw).2.1
  obtain ⟨page, hfree, htouched⟩ := trim_of_small hpos (wrap_lt hlt hwrap) hlarge hdata
  rw [(hpages page).mpr htouched] at hfree
  cases hfree

end Huge

/--
A large buffer is mapped exactly if its size consists of whole pages and can be enlarged by a huge page in 64
bits.
-/
theorem exactlyMapped_iff (os : Os) (bytes : Nat) (opts : AllocOptions) (hhuge : opts.huge_pages = true)
    (hbytes : kHugePage ≤ bytes) (hlt : bytes < 2 ^ 64) (hmap : (os.mmap (wrap (bytes + kHugePage))).isSome)
    : ExactlyMapped os bytes opts ↔ kPage ∣ bytes ∧ bytes + kHugePage < 2 ^ 64 := by
  obtain ⟨raw, hraw⟩ := Option.isSome_iff_exists.mp hmap
  constructor
  . intro h
    have hfits : bytes + kHugePage < 2 ^ 64 := by
      by_contra hwrap
      exact not_exactlyMapped_of_wrap hhuge hlt hraw (Nat.le_of_not_lt hwrap) h
    refine ⟨?_, hfits⟩
    by_contra hdvd
    exact not_exactlyMapped_of_not_dvd hhuge hbytes hraw hdvd hfits h
  . exact fun h => exactlyMapped_of_fits hhuge hbytes hraw h.1 h.2

def Os.low : Os where
  mmap := fun span => if 0 < span ∧ kHugePage + span ≤ 2 ^ 64 then some kHugePage else none
  posix_memalign := fun bytes => if kHugePage + bytes ≤ 2 ^ 64 then some kHugePage else none
  mmap_zero := rfl
  mmap_some := by
    intro span start h
    split at h
    . rename_i hfits
      obtain rfl := Option.some.inj h
      exact ⟨by decide, by decide, hfits.2⟩
    . cases h
  posix_memalign_some := by
    intro bytes start h
    split at h
    . rename_i hfits
      obtain rfl := Option.some.inj h
      exact ⟨by decide, by decide, hfits⟩
    . cases h

theorem exactlyMapped_iff_two : ExactlyMapped .low (2 * kHugePage) { huge_pages := true, first_touch := true } :=
  (exactlyMapped_iff .low (2 * kHugePage) _ rfl (by decide) (by decide) (by decide +kernel)).mpr (by decide)

/--
A cache line more than a huge page: the page behind it is left mapped.
-/
theorem not_exactlyMapped_line
    : ¬ExactlyMapped .low (kHugePage + kCacheLine) { huge_pages := true, first_touch := true } := by
  have hraw : Os.low.mmap (wrap (kHugePage + kCacheLine + kHugePage)) = some kHugePage := by
    rw [wrap_of_lt (by decide)]
    decide
  exact not_exactlyMapped_of_not_dvd rfl (by decide) hraw (by decide) (by decide)

def Owned (data total : Nat) (mem : Memory) : Prop :=
  ∀ addr, data ≤ addr → addr < data + total → mem.allocated addr = true

def asked (os : Os) (bytes : Nat) (huge_pages : Bool) : Option Nat :=
  if huge_pages && kHugePage ≤ bytes then os.mmap (wrap (bytes + kHugePage)) else os.posix_memalign bytes

def Faulted (err : Failure) (_ : Memory) : Prop :=
  ∃ addr, err = .fault addr

section Allocation

theorem alloc_buffer_refused (hsome : bytes ≠ 0) (h : asked os bytes opts.huge_pages = none)
    : Triple (fun _ => True) (alloc_buffer os bytes opts) (fun _ _ => False) fun err _ => err = bad_alloc := by
  unfold alloc_buffer
  rw [if_neg hsome]
  apply Triple.bind (Q := fun _ _ => False)
  . unfold asked at h
    unfold alloc_memory
    split at h
    . rename_i hlarge
      rw [if_pos hlarge]
      unfold map_huge
      dsimp only
      rw [h]
      exact .throw fun _ _ => rfl
    . rename_i hsmall
      rw [if_neg hsmall]
      unfold alloc_heap
      rw [h]
      exact .throw fun _ _ => rfl
  . exact fun _ _ hst => hst.elim

theorem alloc_buffer_heap {raw : Nat} {E : Failure → Memory → Prop} (hsome : bytes ≠ 0)
    (hsmall : ¬(opts.huge_pages && kHugePage ≤ bytes) = true) (hraw : os.posix_memalign bytes = some raw)
    : Triple (· = mem) (alloc_buffer os bytes opts)
        (fun buf st => buf.size = bytes ∧ kPage ∣ buf.data ∧ Owned buf.data bytes st) E := by
  unfold alloc_buffer
  rw [if_neg hsome]
  apply Triple.bind (Q := fun buf st => buf = { data := raw, size := bytes, mapped := 0, huge_requested := false }
    ∧ st = { mem.zero raw bytes with blocks := (raw, bytes) :: mem.blocks })
  . unfold alloc_memory
    rw [if_neg hsmall]
    unfold alloc_heap
    rw [hraw]
    apply Triple.bind (Q := fun _ st => st = { mem.zero raw bytes with blocks := (raw, bytes) :: mem.blocks })
    . refine .modify ?_
      rintro st rfl
      rfl
    . exact fun _ => .pure fun _ hst => ⟨rfl, hst⟩
  . intro buf
    apply Triple.of_pure
    rintro rfl
    unfold touch_pages
    rw [if_neg (by simp)]
    refine .pure ?_
    rintro st rfl
    refine ⟨rfl, (os.posix_memalign_some _ _ hraw).2.1, fun addr hlo hhi => ?_⟩
    have hblock : (decide (raw ≤ addr) && decide (addr < raw + bytes)) = true := by
      rw [decide_eq_true (show raw ≤ addr from hlo), decide_eq_true (show addr < raw + bytes from hhi), Bool.and_true]
    unfold Memory.allocated
    rw [List.any_cons]
    simp only [hblock, Bool.true_or, Bool.or_true]

theorem trim_covers (hsome : 0 < start) (hpos : kPage ∣ start) (hfits : start + (bytes + kHugePage) ≤ 2 ^ 64)
    {page : Nat} (h : touches page (aligned_of start) bytes = true)
    : ((Memory.none.map start (bytes + kHugePage)).trim start (bytes + kHugePage) bytes).pages page = true := by
  obtain ⟨head, haligned, hlt, hhead, -, htrim⟩ :=
    trim_of_fits (Memory.none.map start (bytes + kHugePage)) hsome hpos hfits
  rw [haligned] at h
  rw [htrim, cut_pages, map_none_pages]
  simp only [touches_iff] at h ⊢
  rw [kPage_eq] at *
  rw [kHugePage_eq] at *
  clear htrim haligned hfits
  omega

theorem owned_window {raw : Nat} (hraw : os.mmap (wrap (bytes + kHugePage)) = some raw)
    (hfits : bytes + kHugePage < 2 ^ 64)
    : kPage ∣ aligned_of raw ∧ Owned (aligned_of raw) bytes
        ((Memory.none.map raw (wrap (bytes + kHugePage))).trim raw (wrap (bytes + kHugePage)) bytes) := by
  have hmmap := os.mmap_some _ _ hraw
  rw [wrap_of_lt hfits] at hmmap ⊢
  obtain ⟨hsome, hpos, hend⟩ := hmmap
  obtain ⟨head, haligned, -, hhead, -⟩ := exists_head hpos (by omega)
  refine ⟨by rw [haligned]; exact Nat.dvd_add hpos hhead, fun addr hlo hhi => ?_⟩
  have htouched : touches (addr / kPage) (aligned_of raw) bytes = true := by
    rw [touches_iff, kPage_eq]
    omega
  unfold Memory.allocated
  rw [trim_covers hsome hpos hend htouched, Bool.true_or]

theorem alloc_buffer_owned {E : Failure → Memory → Prop} (hsome : bytes ≠ 0)
    (h : (asked os bytes opts.huge_pages).isSome) (hfits : opts.huge_pages = true → bytes + kHugePage < 2 ^ 64)
    : Triple (· = .none) (alloc_buffer os bytes opts)
        (fun buf st => buf.size = bytes ∧ kPage ∣ buf.data ∧ Owned buf.data bytes st) E := by
  obtain ⟨raw, hraw⟩ := Option.isSome_iff_exists.mp h
  unfold asked at hraw
  split at hraw
  . rename_i hlarge
    rw [Bool.and_eq_true, decide_eq_true_eq] at hlarge
    obtain ⟨hdvd, howned⟩ := owned_window hraw (hfits hlarge.1)
    refine (alloc_buffer_huge hlarge.1 hlarge.2 hraw rfl ?_).weaken ?_
    . intro j hj hfree
      rw [howned _ (by omega) (by omega)] at hfree
      cases hfree
    . rintro buf st ⟨rfl, rfl, -⟩
      exact ⟨rfl, hdvd, howned⟩
  . rename_i hsmall
    exact alloc_buffer_heap hsome hsmall hraw

theorem alloc_buffer_granted (h : bytes ≠ 0 → (asked os bytes opts.huge_pages).isSome)
    : Triple (· = .none) (alloc_buffer os bytes opts) (fun buf _ => buf.size = bytes) Faulted := by
  by_cases hsome : bytes = 0
  . unfold alloc_buffer
    rw [if_pos hsome, hsome]
    exact .pure fun _ _ => rfl
  . obtain ⟨raw, hraw⟩ := Option.isSome_iff_exists.mp (h hsome)
    unfold asked at hraw
    split at hraw
    . rename_i hlarge
      rw [Bool.and_eq_true, decide_eq_true_eq] at hlarge
      refine (alloc_buffer_huge hlarge.1 hlarge.2 hraw rfl fun _ _ _ => ⟨_, rfl⟩).weaken ?_
      rintro buf st ⟨rfl, -⟩
      rfl
    . rename_i hsmall
      exact (alloc_buffer_heap hsome hsmall hraw).weaken fun _ _ hst => hst.1

theorem alloc_buffer_of_wrap (h : (asked os bytes opts.huge_pages).isSome) (hhuge : opts.huge_pages = true)
    (hfirst : opts.first_touch = true) (hlt : bytes < 2 ^ 64) (hwrap : 2 ^ 64 ≤ bytes + kHugePage)
    : Triple (· = .none) (alloc_buffer os bytes opts) (fun _ _ => False) Faulted := by
  obtain ⟨raw, hraw⟩ := Option.isSome_iff_exists.mp h
  have hlarge : 2 * kHugePage ≤ bytes := by
    rw [kHugePage_eq] at *
    omega
  unfold asked at hraw
  rw [if_pos (by rw [hhuge, Bool.true_and, decide_eq_true_eq]; omega)] at hraw
  refine (alloc_buffer_huge hhuge (by omega) hraw rfl fun _ _ _ => ⟨_, rfl⟩).weaken ?_
  rintro buf st ⟨-, -, htouched⟩
  have hdata : kHugePage ∣ aligned_of raw := Nat.dvd_mul_left _ _
  obtain ⟨page, hfree, hpage⟩ :=
    trim_of_small (os.mmap_some _ _ hraw).2.1 (wrap_lt hlt hwrap) hlarge hdata
  have hdvd : 4096 ∣ aligned_of raw := by
    rw [kHugePage_eq] at hdata
    omega
  rw [touches_iff] at hpage
  have hmapped := htouched hfirst (page - aligned_of raw / 4096) (by omega)
  unfold Memory.allocated at hmapped
  have hsame : (aligned_of raw + 4096 * (page - aligned_of raw / 4096)) / kPage = page := by
    rw [kPage_eq]
    omega
  rw [hsame, hfree, trim_blocks, map_blocks, Bool.false_or, none_blocks, List.any_nil] at hmapped
  cases hmapped

end Allocation

end Bench
