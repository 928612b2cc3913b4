import BenchPlatform.Engine.DiskIo
import BenchPlatform.Lib.Hoare
import BenchPlatform.Lib.Program

/-!
This module contains how the disk workloads move their blocks: a block is read or written until all of it is
there, however little the kernel moves at a time, and a batch returns what it has moved.
-/

namespace Bench

open Hoare

/--
A call of `pread` or `pwrite`, with its answer.
-/
structure Call where
  off : Nat
  len : Nat
  n : Int
  deriving DecidableEq

/--
What the kernel answers. It may depend on all calls before.
-/
structure Kernel where
  pread : List Call → Nat → Nat → Int
  pwrite : List Call → Nat → Nat → Int
  fdatasync : List Call → Int
  errno : List Call → Int
  strerror : Int → String
  pread_le : ∀ calls off len, pread calls off len ≤ len
  pwrite_le : ∀ calls off len, pwrite calls off len ≤ len

/--
A thread of a disk workload, with the calls that it has made and the bytes that it has counted as written.
-/
structure DiskThread (W : Type) where
  workload : W
  calls : List Call
  noted : Nat

abbrev DiskM (W : Type) : Type → Type :=
  EStateM String (DiskThread W)

variable {W : Type} (k : Kernel)

def call (transfer : List Call → Nat → Nat → Int) (off len : Nat) : DiskM W Int := do
  let st ← get
  let n := transfer st.calls off len
  set { st with calls := st.calls ++ [(⟨off, len, n⟩ : Call)] }
  pure n

def full_transfer (transfer : List Call → Nat → Nat → Int) (refused : Nat → Int → Int → String)
    (off len done : Nat) : DiskM W Nat :=
  if done < len then do
    let n ← call transfer (off + done) (len - done)
    if n ≤ 0 then
      let st ← get
      throw (refused (off + done) n (k.errno st.calls))
    else
      full_transfer transfer refused off len (done + n.toNat)
  else
    pure done
termination_by len - done

def full_pread (off len : Nat) : DiskM W Nat :=
  full_transfer k k.pread (fun pos n err =>
    if n < 0 then s!"pread at {pos}: {k.strerror err}" else s!"pread at {pos}: unexpected end of file") off len 0

def full_pwrite (off len : Nat) : DiskM W Nat :=
  full_transfer k k.pwrite (fun pos _ err => s!"pwrite at {pos}: {k.strerror err}") off len 0

def full_move (writing : Bool) (off len : Nat) : DiskM W Nat :=
  if writing then full_pwrite k off len else full_pread k off len

def note_bytes (bytes : Nat) : DiskM W Unit :=
  modify fun st => { st with noted := st.noted + bytes }

/--
These calls have moved the first `done` bytes of a block, one after the other.
-/
inductive Moved (off len : Nat) : Nat → List Call → Prop where
  | none : Moved off len 0 []
  | call {done n : Nat} {calls : List Call} : Moved off len done calls → done < len → 0 < n → done + n ≤ len →
    Moved off len (done + n) (calls ++ [⟨off + done, len - done, n⟩])

/--
These calls have moved some of a block, and then one more has been answered with an error or the end of the file.
-/
def Refused (transfer : List Call → Nat → Nat → Int) (before : List Call) (off len : Nat) (calls : List Call)
    : Prop :=
  ∃ done moved n, calls = moved ++ [⟨off + done, len - done, n⟩] ∧ Moved off len done moved ∧ done < len
    ∧ n = transfer (before ++ moved) (off + done) (len - done) ∧ n ≤ 0

/--
These calls have moved the blocks at these offsets, one after the other.
-/
def MovedAll (block : Nat) (offsets : List Nat) (calls : List Call) : Prop :=
  ∃ parts, calls = parts.flatten ∧ List.Forall₂ (fun off part => Moved off block block part) offsets parts

section Moves

variable {transfer : List Call → Nat → Nat → Int} {refused : Nat → Int → Int → String}
  {off len done block : Nat} {calls before part : List Call} {offsets : List Nat}

theorem Moved.inside (h : Moved off len done calls) : ∀ c ∈ calls, off ≤ c.off ∧ c.off + c.len = off + len := by
  induction h with
  | none => exact nofun
  | call _ hlt _ _ ih =>
    refine List.forall_mem_append.mpr ⟨ih, ?_⟩
    rw [List.forall_mem_singleton]
    exact ⟨Nat.le_add_right _ _, by dsimp only; omega⟩

theorem Refused.inside (h : Refused transfer before off len calls)
    : ∀ c ∈ calls, off ≤ c.off ∧ c.off + c.len = off + len := by
  obtain ⟨done, moved, n, rfl, hmoved, hlt, -, -⟩ := h
  refine List.forall_mem_append.mpr ⟨hmoved.inside, ?_⟩
  rw [List.forall_mem_singleton]
  exact ⟨Nat.le_add_right _ _, by dsimp only; omega⟩

theorem MovedAll.inside (h : MovedAll block offsets calls)
    : ∀ c ∈ calls, ∃ off ∈ offsets, off ≤ c.off ∧ c.off + c.len = off + block := by
  obtain ⟨parts, rfl, hparts⟩ := h
  intro c hc
  obtain ⟨part, hpart, hc⟩ := List.mem_flatten.mp hc
  obtain ⟨off, hoff, hmoved⟩ := Program.exists_of_forall₂_right hparts hpart
  exact ⟨off, hoff, hmoved.inside c hc⟩

theorem MovedAll.nil : MovedAll block [] [] :=
  ⟨[], rfl, .nil⟩

theorem MovedAll.concat (h : MovedAll block offsets calls) (hpart : Moved off block block part)
    : MovedAll block (offsets ++ [off]) (calls ++ part) := by
  obtain ⟨parts, rfl, hparts⟩ := h
  refine ⟨parts ++ [part], by simp, List.rel_append hparts (.cons hpart .nil)⟩

theorem call_rule {w : W} {noted : Nat}
    : Triple (· = ⟨w, calls, noted⟩) (call transfer off len)
        (fun n st => n = transfer calls off len ∧ st = ⟨w, calls ++ [⟨off, len, n⟩], noted⟩) fun _ _ => False := by
  rintro st rfl
  exact ⟨rfl, rfl⟩

theorem full_transfer_rule (hle : ∀ calls off len, transfer calls off len ≤ len) {w : W} {noted : Nat}
    (hdone : done ≤ len) (hmoved : Moved off len done part)
    : Triple (· = ⟨w, before ++ part, noted⟩) (full_transfer k transfer refused off len done)
        (fun n st => n = len ∧ ∃ part, Moved off len len part ∧ st = ⟨w, before ++ part, noted⟩)
        fun _ st => ∃ part, Refused transfer before off len part ∧ st = ⟨w, before ++ part, noted⟩ := by
  induction hleft : len - done using Nat.strongRecOn generalizing done part with
  | ind left ih =>
    subst hleft
    rw [full_transfer]
    apply Triple.ite
    . intro hlt
      apply Triple.bind (call_rule.imp (fun _ h => h) (fun _ _ h => h) fun _ _ h => h.elim)
      intro n
      apply Triple.of_pure
      intro hn
      apply Triple.ite
      . intro hrefused
        rintro st rfl
        refine ⟨part ++ [⟨off + done, len - done, n⟩], ⟨done, part, n, rfl, hmoved, hlt, hn, hrefused⟩, ?_⟩
        rw [List.append_assoc]
      . intro hserved
        have hfits := hle (before ++ part) (off + done) (len - done)
        rw [← hn] at hfits
        have hnat : n = n.toNat := by omega
        have hnext := hmoved.call (n := n.toNat) hlt (by omega) (by omega)
        rw [← hnat] at hnext
        rw [List.append_assoc]
        exact ih (len - (done + n.toNat)) (by omega) (by omega) hnext rfl
    . intro hge
      obtain rfl : done = len := by omega
      exact .pure fun st hst => ⟨rfl, part, hmoved, hst⟩

def Kernel.serve (writing : Bool) : List Call → Nat → Nat → Int :=
  if writing then k.pwrite else k.pread

theorem move_rule (writing : Bool) {w : W} {noted : Nat}
    : Triple (· = ⟨w, before, noted⟩) (full_move k writing off len)
        (fun n st => n = len ∧ ∃ part, Moved off len len part ∧ st = ⟨w, before ++ part, noted⟩)
        fun _ st => ∃ part, Refused (k.serve writing) before off len part ∧ st = ⟨w, before ++ part, noted⟩ := by
  cases writing with
  | true => exact (full_transfer_rule k k.pwrite_le (Nat.zero_le _) .none).strengthen fun st hst => by simpa using hst
  | false => exact (full_transfer_rule k k.pread_le (Nat.zero_le _) .none).strengthen fun st hst => by simpa using hst

end Moves

/--
How a run ends that does not return: in the middle of a block, or when what has been written is to be synced.
-/
def Halted (writing : Bool) (block : Nat) (offset : Nat → Nat) (st : DiskThread W) : Prop :=
  ∃ j calls part, MovedAll block ((List.range j).map offset) calls ∧ st.calls = calls ++ part
    ∧ (Refused (k.serve writing) calls (offset j) block part
      ∨ part = [] ∧ writing = true ∧ k.fdatasync calls ≠ 0)

def Between (block : Nat) (offset : Nat → Nat) (nth : Nat → W) (noted j : Nat) (st : DiskThread W) : Prop :=
  ∃ calls, MovedAll block ((List.range j).map offset) calls ∧ st = ⟨nth j, calls, noted⟩

def noted_after (writing : Bool) (bytes : Nat) : Nat :=
  if writing then bytes else 0

theorem range_map_succ (offset : Nat → Nat) (j : Nat)
    : (List.range (j + 1)).map offset = (List.range j).map offset ++ [offset j] := by
  rw [List.range_succ, List.map_append, List.map_singleton]

namespace DiskSeqWorkload

variable (path : String) (writing : Bool)

def move_block : DiskM DiskSeqWorkload Nat := do
  let st ← get
  let w := st.workload
  let off := w.region_off + w.pos
  let moved ← full_move k writing off w.block
  modify fun st => { st with workload := w.advance }
  pure moved

def sync (moved : Nat) : DiskM DiskSeqWorkload Unit := do
  let st ← get
  if k.fdatasync st.calls ≠ 0 then
    throw s!"fdatasync '{path}': {k.strerror (k.errno st.calls)} ({k.errno st.calls})"
  else
    note_bytes moved

def run_batch_on : DiskM DiskSeqWorkload Nat := do
  let moved ← times (move_block k writing) kBlocksPerBatch
  if writing then
    sync k path moved.sum
  pure moved.sum

/--
The workload before its block number `j`, and where that block is.
-/
def nth (w : DiskSeqWorkload) (j : Nat) : DiskSeqWorkload :=
  { w with pos := j % (w.region_len / w.block) * w.block }

def offset (w : DiskSeqWorkload) (j : Nat) : Nat :=
  w.region_off + j % (w.region_len / w.block) * w.block

/--
The region is not empty and consists of whole blocks.
-/
structure Whole (w : DiskSeqWorkload) : Prop where
  block : 0 < w.block
  some : 0 < w.region_len
  whole : w.block ∣ w.region_len

theorem Whole.count_pos {w : DiskSeqWorkload} (h : w.Whole) : 0 < w.region_len / w.block :=
  Nat.div_pos (Nat.le_of_dvd h.some h.whole) h.block

theorem Whole.offset_inside {w : DiskSeqWorkload} (h : w.Whole) (j : Nat)
    : w.region_off ≤ w.offset j ∧ w.offset j + w.block ≤ w.region_off + w.region_len := by
  have hlt := Nat.mod_lt j h.count_pos
  have hfit := Nat.mul_le_mul_right w.block hlt
  rw [Nat.div_mul_cancel h.whole, Nat.succ_mul] at hfit
  unfold offset
  omega

theorem nth_zero {w : DiskSeqWorkload} (h : w.pos = 0) : w.nth 0 = w := by
  unfold nth
  rw [Nat.zero_mod, Nat.zero_mul, ← h]

theorem dvd_offset {w : DiskSeqWorkload} (h : w.block ∣ w.region_off) (j : Nat) : w.block ∣ w.offset j :=
  Nat.dvd_add h (Nat.dvd_mul_left _ _)

theorem mod_succ {count : Nat} (hcount : 0 < count) (j : Nat)
    : (j + 1) % count = if j % count + 1 = count then 0 else j % count + 1 := by
  rw [← Nat.mod_add_mod]
  split
  . rename_i hlast
    rw [hlast, Nat.mod_self]
  . have hlt := Nat.mod_lt j hcount
    exact Nat.mod_eq_of_lt (by omega)

theorem Whole.offset_succ {w : DiskSeqWorkload} (h : w.Whole) (j : Nat)
    : w.offset (j + 1)
      = if w.offset j + w.block = w.region_off + w.region_len then w.region_off else w.offset j + w.block := by
  have hlen := Nat.div_mul_cancel h.whole
  have hblock := h.block
  unfold offset
  rw [mod_succ h.count_pos]
  generalize w.region_len / w.block = count at hlen ⊢
  rw [← hlen, Nat.add_assoc, ← Nat.succ_mul]
  by_cases hlast : j % count + 1 = count
  . rw [if_pos hlast, if_pos (by rw [Nat.succ_eq_add_one, hlast]), Nat.zero_mul, Nat.add_zero]
  . rw [if_neg hlast, if_neg]
    intro hsame
    exact hlast (Nat.eq_of_mul_eq_mul_right hblock (Nat.add_left_cancel hsame))

theorem Whole.advance_nth {w : DiskSeqWorkload} (h : w.Whole) (j : Nat) : (w.nth j).advance = w.nth (j + 1) := by
  have hlen := Nat.div_mul_cancel h.whole
  have hblock := h.block
  have hlt := Nat.mod_lt j h.count_pos
  unfold advance nth
  dsimp only
  rw [mod_succ h.count_pos]
  generalize w.region_len / w.block = count at hlen hlt ⊢
  rw [← hlen, ← Nat.succ_mul, ← Nat.succ_mul]
  by_cases hlast : j % count + 1 = count
  . rw [if_pos (Nat.mul_lt_mul_of_pos_right (by omega) hblock), if_pos hlast, Nat.zero_mul]
  . rw [if_neg (Nat.not_lt.mpr (Nat.mul_le_mul_right _ (by omega))), if_neg hlast]

theorem region_whole {block file_bytes : Nat} (hpos : 0 < block) (h : block ≤ file_bytes) (i n : Nat)
    : (region block file_bytes i n).Whole ∧ block ∣ (region block file_bytes i n).region_off := by
  have hinside := Inside.region_of_thread hpos h i n
  refine ⟨⟨hpos, ?_, ?_⟩, ?_⟩
  . exact Nat.lt_of_lt_of_le hpos (Nat.le_trans (Nat.le_add_left _ _) hinside.pos)
  . exact Nat.dvd_mul_left _ _
  . exact Nat.dvd_mul_left _ _

section Runs

variable {w : DiskSeqWorkload} {noted : Nat}

theorem move_block_rule (h : w.Whole) (j : Nat)
    : Triple (Between w.block w.offset w.nth noted j) (move_block k writing)
        (fun n st => n = w.block ∧ Between w.block w.offset w.nth noted (j + 1) st)
        fun _ => Halted k writing w.block w.offset := by
  apply Triple.of_state
  rintro st ⟨calls, hcalls, rfl⟩
  apply Triple.bind (Q := fun st (st' : DiskThread DiskSeqWorkload) => st = ⟨w.nth j, calls, noted⟩ ∧ st' = st)
    (.get fun st hst => ⟨hst, rfl⟩)
  intro st
  apply Triple.of_pure
  rintro rfl
  apply Triple.bind ((move_rule k writing).imp (fun _ hst => hst) (fun _ _ hst => hst) ?_)
  . intro n
    apply Triple.of_pure
    rintro rfl
    apply Triple.bind (Q := fun _ => Between w.block w.offset w.nth noted (j + 1))
    . refine .modify ?_
      rintro st ⟨part, hpart, rfl⟩
      refine ⟨calls ++ part, ?_, ?_⟩
      . rw [range_map_succ]
        exact hcalls.concat hpart
      . rw [← h.advance_nth]
    . exact fun _ => .pure fun _ hst => ⟨rfl, hst⟩
  . rintro err st ⟨part, hpart, rfl⟩
    exact ⟨j, calls, part, hcalls, rfl, .inl hpart⟩

theorem sync_rule {j n : Nat}
    : Triple (Between w.block w.offset w.nth noted j) (sync k path n)
        (fun _ => Between w.block w.offset w.nth (noted + n) j) fun _ => Halted k true w.block w.offset := by
  apply Triple.of_state
  rintro st ⟨calls, hcalls, rfl⟩
  apply Triple.bind (Q := fun st (st' : DiskThread DiskSeqWorkload) => st = ⟨w.nth j, calls, noted⟩ ∧ st' = st)
    (.get fun st hst => ⟨hst, rfl⟩)
  intro st
  apply Triple.of_pure
  rintro rfl
  apply Triple.ite
  . intro hfailed
    refine .throw ?_
    rintro st rfl
    exact ⟨j, calls, [], hcalls, (List.append_nil _).symm, .inr ⟨rfl, rfl, hfailed⟩⟩
  . refine fun _ => .modify ?_
    rintro st rfl
    exact ⟨calls, hcalls, rfl⟩

theorem run_batch_on_rule (h : w.Whole) (b : Nat)
    : Triple (Between w.block w.offset w.nth (noted_after writing (b * (kBlocksPerBatch * w.block))) (kBlocksPerBatch * b))
        (run_batch_on k path writing)
        (fun units st => units = kBlocksPerBatch * w.block
          ∧ Between w.block w.offset w.nth (noted_after writing ((b + 1) * (kBlocksPerBatch * w.block)))
            (kBlocksPerBatch * (b + 1)) st)
        fun _ => Halted k writing w.block w.offset := by
  apply Triple.bind (Triple.times (fun j => move_block_rule k writing h j) kBlocksPerBatch)
  intro moved
  apply Triple.of_pure
  intro hmoved
  have hsum : moved.sum = kBlocksPerBatch * w.block := by
    rw [List.eq_replicate_iff.mpr hmoved, List.sum_replicate_nat]
  rw [hsum, ← Nat.mul_succ]
  cases writing with
  | true =>
    apply Triple.bind (sync_rule k path)
    refine fun _ => .pure fun st hst => ⟨rfl, ?_⟩
    unfold noted_after at hst ⊢
    rw [Nat.succ_mul]
    exact hst
  | false => exact .pure fun st hst => ⟨rfl, hst⟩

end Runs

end DiskSeqWorkload

/--
The state of the generator is the number of words that have been drawn from it.
-/
structure DiskRandWorkload where
  block : Nat
  blocks : Nat
  drawn : Nat

namespace DiskRandWorkload

variable (rng : Nat → Nat) (writing : Bool)

def next_offset : DiskM DiskRandWorkload Nat := do
  let st ← get
  let w := st.workload
  set { st with workload := { w with drawn := w.drawn + 1 } }
  pure (offset w.block w.blocks (rng w.drawn))

def move_block (block : Nat) : DiskM DiskRandWorkload Nat := do
  let off ← next_offset rng
  full_move k writing off block

def run_batch_on (block : Nat) : DiskM DiskRandWorkload Nat := do
  let moved ← times (move_block k rng writing block) kIosPerBatch
  if writing then
    note_bytes moved.sum
  pure kIosPerBatch

def nth (w : DiskRandWorkload) (j : Nat) : DiskRandWorkload :=
  { w with drawn := w.drawn + j }

def offsets (w : DiskRandWorkload) (j : Nat) : Nat :=
  offset w.block w.blocks (rng (w.drawn + j))

section Runs

variable {w : DiskRandWorkload} {noted : Nat}

theorem move_block_rule (j : Nat)
    : Triple (Between w.block (w.offsets rng) w.nth noted j) (move_block k rng writing w.block)
        (fun n st => n = w.block ∧ Between w.block (w.offsets rng) w.nth noted (j + 1) st)
        fun _ => Halted k writing w.block (w.offsets rng) := by
  apply Triple.of_state
  rintro st ⟨calls, hcalls, rfl⟩
  apply Triple.bind (Q := fun off st => off = w.offsets rng j ∧ st = ⟨w.nth (j + 1), calls, noted⟩)
  . rintro st rfl
    exact ⟨rfl, rfl⟩
  . intro off
    apply Triple.of_pure
    rintro rfl
    apply (move_rule k writing).imp (fun _ hst => hst)
    . rintro n st ⟨rfl, part, hpart, rfl⟩
      refine ⟨rfl, calls ++ part, ?_, rfl⟩
      rw [range_map_succ]
      exact hcalls.concat hpart
    . rintro err st ⟨part, hpart, rfl⟩
      exact ⟨j, calls, part, hcalls, rfl, .inl hpart⟩

theorem run_batch_on_rule (b : Nat)
    : Triple
        (Between w.block (w.offsets rng) w.nth
          (noted_after writing (b * (kIosPerBatch * w.block))) (kIosPerBatch * b))
        (run_batch_on k rng writing w.block)
        (fun units st => units = kIosPerBatch
          ∧ Between w.block (w.offsets rng) w.nth
            (noted_after writing ((b + 1) * (kIosPerBatch * w.block))) (kIosPerBatch * (b + 1)) st)
        fun _ => Halted k writing w.block (w.offsets rng) := by
  apply Triple.bind (Triple.times (fun j => move_block_rule k rng writing j) kIosPerBatch)
  intro moved
  apply Triple.of_pure
  intro hmoved
  have hsum : moved.sum = kIosPerBatch * w.block := by
    rw [List.eq_replicate_iff.mpr hmoved, List.sum_replicate_nat]
  rw [hsum, ← Nat.mul_succ]
  cases writing with
  | true =>
    apply Triple.bind (Q := fun _ => Between w.block (w.offsets rng) w.nth
      (noted_after true ((b + 1) * (kIosPerBatch * w.block))) (kIosPerBatch * b.succ))
    . refine .modify ?_
      rintro st ⟨calls, hcalls, rfl⟩
      refine ⟨calls, hcalls, ?_⟩
      unfold noted_after
      rw [Nat.succ_mul]
      rfl
    . exact fun _ => .pure fun _ hst => ⟨rfl, hst⟩
  | false => exact .pure fun st hst => ⟨rfl, hst⟩

end Runs

end DiskRandWorkload

/--
The kernel moves something of what lies before the limit whenever it is asked to.
-/
structure Kernel.Serves (writing : Bool) (limit : Nat) : Prop where
  moves : ∀ calls off len, 0 < len → off + len ≤ limit → 0 < k.serve writing calls off len
  syncs : ∀ calls, k.fdatasync calls = 0

def final {α : Type} : EStateM.Result String (DiskThread W) α → DiskThread W
  | .ok _ st => st
  | .error _ st => st

/--
All blocks of a run of batches start at a multiple of their size and lie in the range, and so does every call.
Batches that return have moved all of their blocks and say so.
-/
structure TransfersInside (writing : Bool) (block blocks units batches lo hi : Nat) (offset : Nat → Nat)
    (run : EStateM.Result String (DiskThread W) (List Nat)) : Prop where
  aligned : ∀ j, block ∣ offset j
  inside : ∀ j, lo ≤ offset j ∧ offset j + block ≤ hi
  calls : ∀ c ∈ (final run).calls, lo ≤ c.off ∧ c.off + c.len ≤ hi
  returned : ∀ returned st, run = .ok returned st → returned = List.replicate batches units
    ∧ MovedAll block ((List.range (blocks * batches)).map offset) st.calls
    ∧ st.noted = noted_after writing (batches * (blocks * block))
  failed : ∀ err st, run = .error err st → Halted k writing block offset st
  served : k.Serves writing hi → ∃ returned st, run = .ok returned st

variable {k}

theorem Halted.inside {writing : Bool} {block lo hi : Nat} {offset : Nat → Nat} {st : DiskThread W}
    (h : Halted k writing block offset st) (hoffset : ∀ j, lo ≤ offset j ∧ offset j + block ≤ hi)
    : ∀ c ∈ st.calls, lo ≤ c.off ∧ c.off + c.len ≤ hi := by
  obtain ⟨j, calls, part, hcalls, hst, hpart⟩ := h
  rw [hst]
  refine List.forall_mem_append.mpr ⟨fun c hc => ?_, fun c hc => ?_⟩
  . obtain ⟨off, hoff, hc⟩ := hcalls.inside c hc
    obtain ⟨i, _, rfl⟩ := List.mem_map.mp hoff
    have hi := hoffset i
    omega
  . obtain hpart | ⟨rfl, _⟩ := hpart
    . have hc := hpart.inside c hc
      have hj := hoffset j
      omega
    . cases hc

theorem Kernel.Serves.not_halted {writing : Bool} {block hi : Nat} {offset : Nat → Nat} {st : DiskThread W}
    (h : k.Serves writing hi) (hoffset : ∀ j, offset j + block ≤ hi)
    : ¬Halted k writing block offset st := by
  rintro ⟨j, calls, part, -, -, ⟨done, moved, n, -, -, hlt, hn, hrefused⟩ | ⟨-, -, hfailed⟩⟩
  . have hj := hoffset j
    have hserved := h.moves (calls ++ moved) (offset j + done) (block - done) (by omega) (by omega)
    omega
  . exact hfailed (h.syncs calls)

theorem TransfersInside.of_batches {writing : Bool} {block blocks units lo hi : Nat} {offset : Nat → Nat}
    {nth : Nat → W} {batch : DiskM W Nat} (haligned : ∀ j, block ∣ offset j)
    (hinside : ∀ j, lo ≤ offset j ∧ offset j + block ≤ hi)
    (hbatch : ∀ b, Triple (Between block offset nth (noted_after writing (b * (blocks * block))) (blocks * b)) batch
      (fun u st => u = units
        ∧ Between block offset nth (noted_after writing ((b + 1) * (blocks * block))) (blocks * (b + 1)) st)
      fun _ => Halted k writing block offset) (batches : Nat)
    : TransfersInside k writing block blocks units batches lo hi offset (times batch batches ⟨nth 0, [], 0⟩) := by
  have hstart : Between block offset nth (noted_after writing (0 * (blocks * block))) (blocks * 0) ⟨nth 0, [], 0⟩ := by
    refine ⟨[], .nil, ?_⟩
    unfold noted_after
    rw [Nat.zero_mul, ite_self]
    rfl
  have hrun := Triple.times hbatch batches ⟨nth 0, [], 0⟩ hstart
  cases hresult : times batch batches ⟨nth 0, [], 0⟩ with
  | ok returned st =>
    rw [hresult, Nat.zero_add] at hrun
    obtain ⟨hreturned, calls, hcalls, rfl⟩ := hrun
    refine ⟨haligned, hinside, ?_, ?_, nofun, fun _ => ⟨_, _, rfl⟩⟩
    . intro c hc
      obtain ⟨off, hoff, hc⟩ := hcalls.inside c hc
      obtain ⟨i, _, rfl⟩ := List.mem_map.mp hoff
      have hi := hinside i
      omega
    . rintro returned' st' ⟨rfl, rfl⟩
      exact ⟨List.eq_replicate_iff.mpr hreturned, hcalls, rfl⟩
  | error err st =>
    rw [hresult] at hrun
    refine ⟨haligned, hinside, hrun.inside hinside, nofun, ?_, ?_⟩
    . rintro err' st' ⟨rfl, rfl⟩
      exact hrun
    . exact fun hserves => absurd hrun (hserves.not_halted fun j => (hinside j).2)

/--
Where the disk workloads read and write: each thread of `disk_seq` walks its region from front to back and then
starts again, and `disk_rand` stays in the file, whatever is drawn.
-/
theorem disk_transfers_inside (k : Kernel) (path : String) (writing : Bool)
    (file_bytes thread_index thread_count batches : Nat) (rng : Nat → Nat) (drawn : Nat)
    : (kDiskSeqBlock ≤ file_bytes → ∃ w, DiskSeqWorkload.setup path file_bytes thread_index thread_count = .ok w
        ∧ 0 < w.region_len ∧ w.region_off + w.region_len ≤ file_bytes ∧ w.offset 0 = w.region_off
        ∧ (∀ j, w.offset (j + 1) = if w.offset j + kDiskSeqBlock = w.region_off + w.region_len then w.region_off
          else w.offset j + kDiskSeqBlock)
        ∧ TransfersInside k writing kDiskSeqBlock DiskSeqWorkload.kBlocksPerBatch
          (DiskSeqWorkload.kBlocksPerBatch * kDiskSeqBlock) batches w.region_off (w.region_off + w.region_len) w.offset
          (times (DiskSeqWorkload.run_batch_on k path writing) batches ⟨w, [], 0⟩))
      ∧ (kDiskRandBlock ≤ file_bytes → ∃ blocks, DiskRandWorkload.setup path file_bytes = .ok blocks
        ∧ TransfersInside k writing kDiskRandBlock DiskRandWorkload.kIosPerBatch DiskRandWorkload.kIosPerBatch
          batches 0 file_bytes (DiskRandWorkload.offsets rng ⟨kDiskRandBlock, blocks, drawn⟩)
          (times (DiskRandWorkload.run_batch_on k rng writing kDiskRandBlock) batches
            ⟨⟨kDiskRandBlock, blocks, drawn⟩, [], 0⟩)) := by
  constructor
  . intro h
    have hpos : 0 < kDiskSeqBlock := by decide
    have hinside := DiskSeqWorkload.Inside.region_of_thread hpos h thread_index thread_count
    obtain ⟨hwhole, hdvd⟩ := DiskSeqWorkload.region_whole hpos h thread_index thread_count
    refine ⟨_, DiskSeqWorkload.setup_eq h, hwhole.some, hinside.region, ?_, hwhole.offset_succ, ?_⟩
    . unfold DiskSeqWorkload.offset
      rw [Nat.zero_mod, Nat.zero_mul, Nat.add_zero]
    . have hbatches := TransfersInside.of_batches (DiskSeqWorkload.dvd_offset hdvd) hwhole.offset_inside
        (DiskSeqWorkload.run_batch_on_rule k path writing hwhole) batches
      rwa [DiskSeqWorkload.nth_zero rfl] at hbatches
  . intro h
    have hpos : 0 < kDiskRandBlock := by decide
    have hsetup : DiskRandWorkload.setup path file_bytes = .ok (file_bytes / kDiskRandBlock) := by
      unfold DiskRandWorkload.setup open_for
      rw [if_neg (Nat.not_lt.mpr h)]
      rfl
    refine ⟨_, hsetup, ?_⟩
    have hbatch := DiskRandWorkload.run_batch_on_rule (w := ⟨kDiskRandBlock, file_bytes / kDiskRandBlock, drawn⟩)
      k rng writing
    exact TransfersInside.of_batches (fun j => Nat.dvd_mul_left _ _)
      (fun j => ⟨Nat.zero_le _, DiskRandWorkload.offset_inside hpos h _⟩) hbatch batches

def Kernel.trickle : Kernel where
  pread := fun _ _ len => min 1000 len
  pwrite := fun _ _ len => min 1000 len
  fdatasync := fun _ => 0
  errno := fun _ => 0
  strerror := fun _ => ""
  pread_le := fun _ _ _ => Int.min_le_right _ _
  pwrite_le := fun _ _ _ => Int.min_le_right _ _

theorem disk_transfers_inside_trickle
    : ∃ w st, DiskSeqWorkload.setup "testfile" (3 * 2 ^ 20) 1 2 = .ok w
      ∧ times (DiskSeqWorkload.run_batch_on .trickle "testfile" true) 3 ⟨w, [], 0⟩
        = .ok (List.replicate 3 (16 * 2 ^ 20)) st := by
  have hserves : Kernel.trickle.Serves true (1 * 2 ^ 20 + 1 * 2 ^ 20) := by
    refine ⟨fun calls off len hlen _ => ?_, fun _ => rfl⟩
    change 0 < min (1000 : Int) len
    omega
  obtain ⟨w, hsetup, -, -, -, -, hinside⟩ :=
    (disk_transfers_inside .trickle "testfile" true (3 * 2 ^ 20) 1 2 3 (fun _ => 0) 0).1 (by decide)
  obtain rfl := Except.ok.inj hsetup
  obtain ⟨returned, st, hrun⟩ := hinside.served hserves
  refine ⟨_, st, hsetup, ?_⟩
  rw [hrun, (hinside.returned _ _ hrun).1]
  rfl

end Bench
