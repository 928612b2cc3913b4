import BenchPlatform.Engine.Metric
import BenchPlatform.Lib.Trans
import Mathlib.Algebra.BigOperators.Group.List.Basic
import Mathlib.Logic.Function.Basic

/-!
This module contains where the threads of a disk workload read and write in the test file, and how they
count what they have written.
-/

namespace Bench

def kDiskRandBlock : Nat :=
  4096

def open_for (path : String) (block file_bytes : Nat) : Except String Nat :=
  if file_bytes < block then
    throw s!"test file '{path}' is {file_bytes} bytes, smaller than one {block} byte block"
  else
    pure file_bytes

theorem le_of_open_for {path : String} {block file_bytes n : Nat} (h : open_for path block file_bytes = .ok n)
    : n = file_bytes ∧ block ≤ file_bytes := by
  unfold open_for at h
  split at h
  . cases h
  . injection h with h
    omega

/--
One of the sequential streams: the region of a thread, and where in it the next block is.
-/
structure DiskSeqWorkload where
  block : Nat
  region_off : Nat
  region_len : Nat
  pos : Nat
  deriving DecidableEq

namespace DiskSeqWorkload

def kBlocksPerBatch : Nat :=
  16

def region (block file_bytes thread_index thread_count : Nat) : DiskSeqWorkload :=
  let blocks := file_bytes / block
  let per := max 1 (blocks / max 1 thread_count)
  let region_off := min (thread_index * per) (if 0 < blocks then blocks - 1 else 0) * block
  let remaining_blocks := blocks - region_off / block
  { block := block, region_off := region_off, region_len := min per remaining_blocks * block, pos := 0 }

def setup (path : String) (file_bytes thread_index thread_count : Nat) : Except String DiskSeqWorkload := do
  let file_bytes ← open_for path kDiskSeqBlock file_bytes
  pure (region kDiskSeqBlock file_bytes thread_index thread_count)

def advance (w : DiskSeqWorkload) : DiskSeqWorkload :=
  let pos := w.pos + w.block
  { w with pos := if w.region_len < pos + w.block then 0 else pos }

def run : Nat → DiskSeqWorkload → List Nat × DiskSeqWorkload
  | 0, w => ([], w)
  | n + 1, w =>
    let (offsets, w') := run n w.advance
    ((w.region_off + w.pos) :: offsets, w')

def run_batch (w : DiskSeqWorkload) : List Nat × DiskSeqWorkload :=
  run kBlocksPerBatch w

def run_batches : Nat → DiskSeqWorkload → List Nat
  | 0, _ => []
  | n + 1, w => (run_batch w).1 ++ run_batches n (run_batch w).2

/--
The next block lies in the region, and the region in the file.
-/
structure Inside (block file_bytes : Nat) (w : DiskSeqWorkload) : Prop where
  same : w.block = block
  pos : w.pos + block ≤ w.region_len
  region : w.region_off + w.region_len ≤ file_bytes

variable {block file_bytes : Nat} {w : DiskSeqWorkload}

theorem Inside.region_of_thread (hpos : 0 < block) (h : block ≤ file_bytes)
    (thread_index thread_count : Nat)
    : Inside block file_bytes (DiskSeqWorkload.region block file_bytes thread_index thread_count) := by
  have hblocks : 0 < file_bytes / block := Nat.div_pos h hpos
  unfold DiskSeqWorkload.region
  dsimp only
  rw [if_pos hblocks, Nat.mul_div_cancel _ hpos]
  generalize hfirst : min _ (file_bytes / block - 1) = first
  generalize hper : max 1 _ = per
  have hlast : first ≤ file_bytes / block - 1 := hfirst ▸ Nat.min_le_right _ _
  have hone : 1 ≤ per := hper ▸ Nat.le_max_left _ _
  have hfit : first + min per (file_bytes / block - first) ≤ file_bytes / block := by omega
  have hsome : 1 ≤ min per (file_bytes / block - first) := by omega
  refine ⟨rfl, ?_, ?_⟩
  . rw [Nat.zero_add]
    exact Nat.le_mul_of_pos_left block hsome
  . rw [← Nat.add_mul]
    exact Nat.le_trans (Nat.mul_le_mul_right _ hfit) (Nat.div_mul_le_self _ _)

theorem Inside.advance (h : Inside block file_bytes w) : Inside block file_bytes w.advance where
  same := h.same
  pos := by
    have hsame := h.same
    have hpos := h.pos
    unfold DiskSeqWorkload.advance
    dsimp only
    split <;> omega
  region := h.region

theorem Inside.run (h : Inside block file_bytes w) (n : Nat)
    : (∀ off ∈ (run n w).1, off + block ≤ file_bytes) ∧ Inside block file_bytes (run n w).2 := by
  induction n generalizing w with
  | zero => exact ⟨nofun, h⟩
  | succ n ih =>
    obtain ⟨hoffsets, hinside⟩ := ih h.advance
    refine ⟨List.forall_mem_cons.mpr ⟨?_, hoffsets⟩, hinside⟩
    have hpos := h.pos
    have hregion := h.region
    omega

theorem Inside.run_batches (h : Inside block file_bytes w) (n : Nat)
    : ∀ off ∈ run_batches n w, off + block ≤ file_bytes := by
  induction n generalizing w with
  | zero => exact nofun
  | succ n ih =>
    obtain ⟨hoffsets, hinside⟩ := h.run kBlocksPerBatch
    exact List.forall_mem_append.mpr ⟨hoffsets, ih hinside⟩

theorem region_off_le_run (n : Nat)
    : (∀ off ∈ (run n w).1, w.region_off ≤ off) ∧ (run n w).2.region_off = w.region_off := by
  induction n generalizing w with
  | zero => exact ⟨nofun, rfl⟩
  | succ n ih =>
    obtain ⟨hoffsets, hsame⟩ := ih (w := w.advance)
    exact ⟨List.forall_mem_cons.mpr ⟨Nat.le_add_right _ _, hoffsets⟩, hsame⟩

theorem region_off_le_run_batches (n : Nat) : ∀ off ∈ run_batches n w, w.region_off ≤ off := by
  induction n generalizing w with
  | zero => exact nofun
  | succ n ih =>
    obtain ⟨hoffsets, hsame⟩ := region_off_le_run (w := w) kBlocksPerBatch
    have hrest := ih (w := (run_batch w).2)
    exact List.forall_mem_append.mpr ⟨hoffsets, fun off hoff => hsame ▸ hrest off hoff⟩

theorem Inside.run_batches_region (h : Inside block file_bytes w) {n off : Nat}
    (hoff : off ∈ DiskSeqWorkload.run_batches n w)
    : w.region_off ≤ off ∧ off + block ≤ w.region_off + w.region_len := by
  have hregion : Inside block (w.region_off + w.region_len) w := ⟨h.same, h.pos, Nat.le_refl _⟩
  exact ⟨region_off_le_run_batches n off hoff, hregion.run_batches n off hoff⟩

section Streams

variable {path : String} {n i j : Nat}

theorem setup_eq (h : kDiskSeqBlock ≤ file_bytes)
    : setup path file_bytes i n = .ok (DiskSeqWorkload.region kDiskSeqBlock file_bytes i n) := by
  unfold setup open_for
  rw [if_neg (Nat.not_lt.mpr h)]
  rfl

theorem region_apart (hpos : 0 < block) (hn : n ≤ file_bytes / block) (hij : i < j) (hj : j < n)
    : (DiskSeqWorkload.region block file_bytes i n).region_off
        + (DiskSeqWorkload.region block file_bytes i n).region_len
      ≤ (DiskSeqWorkload.region block file_bytes j n).region_off := by
  unfold DiskSeqWorkload.region
  dsimp only
  rw [Nat.max_eq_right (by omega : 1 ≤ n), if_pos (by omega : 0 < file_bytes / block), Nat.mul_div_cancel _ hpos]
  generalize hblocks : file_bytes / block = blocks at hn ⊢
  have hper : 1 ≤ blocks / n := Nat.div_pos hn (by omega)
  rw [Nat.max_eq_right hper]
  generalize hdiv : blocks / n = per at hper ⊢
  have hall : n * per ≤ blocks := hdiv ▸ Nat.mul_div_le blocks n
  have hnext : i * per + per ≤ j * per := by
    rw [← Nat.succ_mul]
    exact Nat.mul_le_mul_right per hij
  have hlast : j * per + per ≤ n * per := by
    rw [← Nat.succ_mul]
    exact Nat.mul_le_mul_right per hj
  rw [Nat.min_eq_left (by omega : i * per ≤ blocks - 1), Nat.min_eq_left (by omega : j * per ≤ blocks - 1),
    ← Nat.add_mul]
  apply Nat.mul_le_mul_right
  omega

theorem region_last (hpos : 0 < block) (h : block ≤ file_bytes) (hn : file_bytes / block < n)
    (hi : file_bytes / block - 1 ≤ i)
    : DiskSeqWorkload.region block file_bytes i n
      = { block := block, region_off := (file_bytes / block - 1) * block, region_len := block, pos := 0 } := by
  have hblocks : 0 < file_bytes / block := Nat.div_pos h hpos
  unfold DiskSeqWorkload.region
  dsimp only
  rw [Nat.max_eq_right (by omega : 1 ≤ n), if_pos hblocks, Nat.div_eq_of_lt hn, Nat.max_eq_left (Nat.zero_le 1),
    Nat.mul_one, Nat.min_eq_right hi, Nat.mul_div_cancel _ hpos, Nat.min_eq_left (by omega), Nat.one_mul]

def DisjointRegions (path : String) (file_bytes n : Nat) : Prop :=
  ∀ i < n, ∀ j < n, i ≠ j → ∀ w w', setup path file_bytes i n = .ok w → setup path file_bytes j n = .ok w' →
    ∀ byte, ¬(w.region_off ≤ byte ∧ byte < w.region_off + w.region_len
      ∧ w'.region_off ≤ byte ∧ byte < w'.region_off + w'.region_len)

/--
No block is ever read or written by two threads.
-/
def DisjointBlocks (path : String) (file_bytes n : Nat) : Prop :=
  ∀ i < n, ∀ j < n, i ≠ j → ∀ w w', setup path file_bytes i n = .ok w → setup path file_bytes j n = .ok w' →
    ∀ batches batches', ∀ off ∈ run_batches batches w, off ∉ run_batches batches' w'

theorem disjointRegions_of_le (h : kDiskSeqBlock ≤ file_bytes) (hn : n ≤ file_bytes / kDiskSeqBlock)
    : DisjointRegions path file_bytes n := by
  intro i hi j hj hij w w' hw hw' byte hbyte
  rw [setup_eq h] at hw hw'
  cases hw
  cases hw'
  obtain hlt | hlt := Nat.lt_or_gt_of_ne hij
  . have hapart := region_apart (by decide) hn hlt hj
    omega
  . have hapart := region_apart (by decide) hn hlt hi
    omega

/--
The regions of the threads are disjoint exactly as long as there is a block for every thread, and so are the
blocks that they ever read or write.
-/
theorem disjoint_streams_iff (path : String) (n : Nat) (h : kDiskSeqBlock ≤ file_bytes)
    : (DisjointRegions path file_bytes n ↔ n ≤ file_bytes / kDiskSeqBlock)
      ∧ (DisjointBlocks path file_bytes n ↔ n ≤ file_bytes / kDiskSeqBlock) := by
  have hpos : 0 < kDiskSeqBlock := by decide
  have hblocks : 0 < file_bytes / kDiskSeqBlock := Nat.div_pos h hpos
  -- the last two threads that fit, or do not
  have hlast : ∀ i, file_bytes / kDiskSeqBlock - 1 ≤ i → file_bytes / kDiskSeqBlock < n →
      setup path file_bytes i n = .ok ⟨kDiskSeqBlock, (file_bytes / kDiskSeqBlock - 1) * kDiskSeqBlock,
        kDiskSeqBlock, 0⟩ := by
    intro i hi hn
    rw [setup_eq h, region_last hpos h hn hi]
  refine ⟨⟨?_, disjointRegions_of_le h⟩, ?_, ?_⟩
  . intro hdisjoint
    by_contra hn
    have hn := Nat.lt_of_not_le hn
    apply hdisjoint (file_bytes / kDiskSeqBlock - 1) (by omega) (file_bytes / kDiskSeqBlock) hn (by omega) _ _
      (hlast _ (Nat.le_refl _) hn) (hlast _ (Nat.sub_le _ 1) hn) ((file_bytes / kDiskSeqBlock - 1) * kDiskSeqBlock)
    dsimp only
    omega
  . intro hdisjoint
    by_contra hn
    have hn := Nat.lt_of_not_le hn
    have hfirst : ∀ w : DiskSeqWorkload, w.region_off + w.pos ∈ run_batches 1 w :=
      fun w => List.mem_append_left _ List.mem_cons_self
    exact hdisjoint (file_bytes / kDiskSeqBlock - 1) (by omega) (file_bytes / kDiskSeqBlock) hn (by omega) _ _
      (hlast _ (Nat.le_refl _) hn) (hlast _ (Nat.sub_le _ 1) hn) 1 1 _ (hfirst _) (hfirst _)
  . intro hn i hi j hj hij w w' hw hw' batches batches' off hoff hoff'
    have hregions : DisjointRegions path file_bytes n := disjointRegions_of_le h hn
    have hregions := hregions i hi j hj hij w w' hw hw' off
    rw [setup_eq h] at hw hw'
    cases hw
    cases hw'
    have hin := (Inside.region_of_thread hpos h i n).run_batches_region hoff
    have hin' := (Inside.region_of_thread hpos h j n).run_batches_region hoff'
    omega

theorem disjoint_streams_iff_four
    : DisjointRegions "testfile" (8 * 2 ^ 20) 4 ∧ DisjointBlocks "testfile" (8 * 2 ^ 20) 4 := by
  have hsize : kDiskSeqBlock ≤ 8 * 2 ^ 20 := by decide
  have h := disjoint_streams_iff "testfile" 4 hsize
  exact ⟨h.1.mpr (by decide), h.2.mpr (by decide)⟩

/--
Two threads are given the same block, when there is only one.
-/
theorem one_block_not_disjoint : ¬DisjointRegions "testfile" (2 ^ 20) 2 := by
  intro h
  exact h 0 (by decide) 1 (by decide) (by decide) _ _ rfl rfl 0 (by decide)

end Streams

end DiskSeqWorkload

namespace DiskRandWorkload

def setup (path : String) (file_bytes : Nat) : Except String Nat := do
  let file_bytes ← open_for path kDiskRandBlock file_bytes
  pure (file_bytes / kDiskRandBlock)

def offset (block blocks rng : Nat) : Nat :=
  rng % blocks * block

theorem offset_inside {block file_bytes : Nat} (hpos : 0 < block) (h : block ≤ file_bytes) (rng : Nat)
    : offset block (file_bytes / block) rng + block ≤ file_bytes := by
  have hlt : rng % (file_bytes / block) < file_bytes / block := Nat.mod_lt rng (Nat.div_pos h hpos)
  unfold offset
  rw [← Nat.succ_mul]
  exact Nat.le_trans (Nat.mul_le_mul_right _ hlt) (Nat.div_mul_le_self _ _)

def kIosPerBatch : Nat :=
  32

end DiskRandWorkload

/--
A batch that a thread is in the middle of: the blocks that are left, and the bytes that it has moved.
-/
structure OpenBatch where
  left : Nat
  moved : Nat
  deriving DecidableEq

inductive WriteAction where
  /-- `run_batch` is called. -/
  | begin (thread : Nat)
  /-- `full_pwrite` has written a block. It throws unless it has written all of it. -/
  | pwrite (thread : Nat)
  /-- The last thing that `run_batch` does. -/
  | note_written (thread : Nat)
  deriving DecidableEq

/--
The threads of a pool that writes, with the counter that they share with all other pools. The batches
that they have completed are history: the thread, and the bytes it has moved. The 64 bits of the counter are enough for
fewer than 2 ^ 64 bytes.
-/
structure DiskWriters where
  bytes_written : Nat
  batch : Nat → Option OpenBatch
  completed : List (Nat × Nat)

namespace DiskWriters

def start (bytes_written : Nat) : DiskWriters where
  bytes_written := bytes_written
  batch := fun _ => none
  completed := []

def step (blocks block : Nat) (s : DiskWriters) : WriteAction → Option DiskWriters
  | .begin i =>
    match s.batch i with
    | none => some { s with batch := Function.update s.batch i (some ⟨blocks, 0⟩) }
    | some _ => none
  | .pwrite i =>
    match s.batch i with
    | none => none
    | some b =>
      if 0 < b.left then
        some { s with batch := Function.update s.batch i (some ⟨b.left - 1, b.moved + block⟩) }
      else
        none
  | .note_written i =>
    match s.batch i with
    | none => none
    | some b =>
      if b.left = 0 then
        some
          { bytes_written := s.bytes_written + b.moved
            batch := Function.update s.batch i none
            completed := s.completed ++ [(i, b.moved)] }
      else
        none

def shape (kind : Workload) : Nat × Nat :=
  if kind = .disk_seq then (DiskSeqWorkload.kBlocksPerBatch, kDiskSeqBlock)
  else (DiskRandWorkload.kIosPerBatch, kDiskRandBlock)

def run (kind : Workload) (bytes_written : Nat) (schedule : List WriteAction) : DiskWriters :=
  Trans.run (step (shape kind).1 (shape kind).2) (start bytes_written) schedule

variable {blocks block : Nat} {s s' : DiskWriters} {a : WriteAction}

theorem step_cases (h : step blocks block s a = some s')
    : s'.bytes_written = s.bytes_written ∧ s'.completed = s.completed
      ∨ ∃ i bytes, s'.bytes_written = s.bytes_written + bytes ∧ s'.completed = s.completed ++ [(i, bytes)] := by
  unfold step at h
  cases a with
  | begin i =>
    dsimp only at h
    split at h
    . rw [← Option.some.inj h]
      exact .inl ⟨rfl, rfl⟩
    . cases h
  | pwrite i =>
    dsimp only at h
    split at h
    . cases h
    . split at h
      . rw [← Option.some.inj h]
        exact .inl ⟨rfl, rfl⟩
      . cases h
  | note_written i =>
    dsimp only at h
    split at h
    . cases h
    . rename_i b _
      split at h
      . rw [← Option.some.inj h]
        exact .inr ⟨i, b.moved, rfl, rfl⟩
      . cases h

theorem run_counts (kind : Workload) (bytes_written : Nat) (schedule : List WriteAction)
    : (run kind bytes_written schedule).bytes_written
      = bytes_written + ((run kind bytes_written schedule).completed.map (·.2)).sum := by
  refine Trans.invariant (I := fun s : DiskWriters => s.bytes_written = bytes_written + (s.completed.map (·.2)).sum)
    ?_ ?_ schedule
  . intro s a s' hs h
    obtain ⟨hbytes, hcompleted⟩ | ⟨i, bytes, hbytes, hcompleted⟩ := step_cases h
    . rw [hbytes, hcompleted, hs]
    . rw [hbytes, hcompleted, hs, List.map_append, List.sum_append, List.map_singleton, List.sum_singleton,
        Nat.add_assoc]
  . rfl

end DiskWriters

end Bench
