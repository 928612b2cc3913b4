import BenchPlatform.Engine.MemBw
import BenchPlatform.Lib.Program
import Mathlib.Algebra.BigOperators.Group.List.Basic
import Mathlib.Data.Fintype.Basic
import Mathlib.Tactic.FinCases

/-!
This module proves that the loops over memory that are unrolled or use streaming stores do what the plain
loops do, for any number of words.
-/

namespace Bench

open Hoare Program

namespace MemBwWorkload

def chunk (step j : Nat) : List Nat :=
  (List.range step).map fun l => j * step + l

theorem chunks_append_remainder (step words : Nat)
    : (List.range (words / step)).flatMap (chunk step) ++ remainder step words = List.range words := by
  have hchunks : ∀ n, (List.range n).flatMap (chunk step) = List.range (n * step) := by
    intro n
    induction n with
    | zero => rw [Nat.zero_mul, List.range_zero, List.flatMap_nil]
    | succ n ih =>
      rw [List.range_succ, List.flatMap_append, ih, Nat.succ_mul, List.range_add, List.flatMap_cons, List.flatMap_nil,
        List.append_nil]
      rfl
  unfold remainder
  calc (List.range (words / step)).flatMap (chunk step) ++ List.range' (words / step * step) (words % step)
      = List.range' 0 (words / step * step) ++ List.range' (0 + words / step * step) (words % step) := by
        rw [hchunks, List.range_eq_range', Nat.zero_add]
    _ = List.range words := by rw [List.range'_append_1, Nat.div_add_mod', List.range_eq_range']

section Accesses

variable {addr len : Nat} {mem : Memory}

theorem check_of_has (h : mem.has addr len = true) : check addr len mem = .ok () mem := by
  have hget : (get : MemM Memory) mem = .ok mem mem := rfl
  unfold check
  rw [bind_of_ok hget, if_pos h]
  rfl

theorem load_of_has (h : mem.has addr 8 = true) : load addr mem = .ok (mem.words addr) mem := by
  unfold load
  rw [bind_of_ok (check_of_has h)]
  rfl

theorem store_of_has {v : UInt64} (h : mem.has addr 8 = true) : store addr v mem = .ok () (mem.write addr v) := by
  unfold store
  rw [bind_of_ok (check_of_has h)]
  rfl

theorem loadu_of_has (h : mem.has addr 32 = true) : loadu addr mem = .ok (fun i => mem.words (addr + 8 * i)) mem := by
  unfold loadu
  rw [bind_of_ok (check_of_has h)]
  rfl

theorem stream_of_has {v : Nat → UInt64} (haligned : 32 ∣ addr) (h : mem.has addr 32 = true)
    : stream addr v mem = .ok () ((List.range 4).foldl (fun mem i => mem.write (addr + 8 * i) (v i)) mem) := by
  unfold stream check_aligned
  rw [if_pos haligned, bind_of_ok (check_of_has h)]
  rfl

end Accesses

section Sum

theorem total_add_lane (s : Vector UInt64 8) (l : Fin 8) (x : UInt64) : total (add_lane s l x) = total s + x := by
  unfold total add_lane
  simp only [get_eq_getElem]
  fin_cases l <;> simp <;> ac_rfl

variable {p words : Nat} {mem : Memory}

def sumOf (mem : Memory) (p : Nat) (is : List Nat) : Nat :=
  (is.map fun i => (mem.words (p + 8 * i)).toNat).sum

/--
The accumulators have the sum of some words, and the memory is as it was.
-/
def Summed (mem : Memory) (p : Nat) (is : List Nat) (s : Vector UInt64 8) (st : Memory) : Prop :=
  st = mem ∧ (total s).toNat = sumOf mem p is % 2 ^ 64

theorem Summed.add_lane {is : List Nat} {s : Vector UInt64 8} {st : Memory} (h : Summed mem p is s st) (l : Fin 8) (i : Nat)
    : Summed mem p (is ++ [i]) (add_lane s l (mem.words (p + 8 * i))) st := by
  refine ⟨h.1, ?_⟩
  unfold sumOf
  rw [total_add_lane, UInt64.toNat_add, h.2, List.map_append, List.sum_append, List.map_singleton, List.sum_singleton,
    Nat.mod_add_mod]
  rfl

theorem load_word {i : Nat} (howned : Owned p (8 * words) mem) (hi : i < words) {P : Memory → Prop}
    (hP : ∀ st, P st → st = mem)
    : Triple P (load (p + 8 * i)) (fun x st => x = mem.words (p + 8 * i) ∧ P st) fun _ _ => False := by
  intro st hst
  obtain rfl := hP st hst
  have hload : load (p + 8 * i) st = .ok (st.words (p + 8 * i)) st :=
    load_of_has (howned.has (by omega) (by omega))
  rw [hload]
  exact ⟨rfl, hst⟩

theorem add_eight_sum {j : Nat} (howned : Owned p (8 * words) mem) (hj : j < words / 8) (is : List Nat)
    (s : Vector UInt64 8)
    : Triple (Summed mem p is s) (add_eight p (j * 8) s) (Summed mem p (is ++ chunk 8 j)) fun _ _ => False := by
  have hlanes : (List.finRange 8).map (fun l => j * 8 + l.val) = chunk 8 j := rfl
  have hloop : Triple (Summed mem p (is ++ [].map fun l : Fin 8 => j * 8 + l.val) s) (add_eight p (j * 8) s)
      (Summed mem p (is ++ ([] ++ List.finRange 8).map fun l : Fin 8 => j * 8 + l.val)) fun _ _ => False := by
    apply Triple.foldlM_seen (I := fun pre => Summed mem p (is ++ pre.map fun l : Fin 8 => j * 8 + l.val))
    intro pre s l _
    have hl := l.isLt
    apply Triple.bind (load_word howned (by omega) fun _ hst => hst.1)
    intro x
    apply Triple.of_pure
    rintro rfl
    refine .pure fun _ hst => ?_
    rw [List.map_append, ← List.append_assoc]
    exact hst.add_lane l (j * 8 + l.val)
  rwa [List.map_nil, List.append_nil, List.nil_append, hlanes] at hloop

theorem sum_words_sum (howned : Owned p (8 * words) mem)
    : Triple (· = mem) (sum_words p words)
        (fun sum st => st = mem ∧ sum.toNat = sumOf mem p (List.range words) % 2 ^ 64) fun _ _ => False := by
  have hstart : ∀ st, st = mem → Summed mem p ([].flatMap (chunk 8)) (Vector.replicate 8 0) st :=
    fun _ hst => ⟨hst, rfl⟩
  apply Triple.strengthen _ hstart
  apply Triple.bind
  . apply Triple.foldlM_seen (I := fun pre => Summed mem p (pre.flatMap (chunk 8)))
    intro pre s j hj
    rw [List.flatMap_append, List.flatMap_cons, List.flatMap_nil, List.append_nil]
    exact add_eight_sum howned (List.mem_range.mp hj) _ s
  intro s
  rw [List.nil_append]
  have hfirst : s = s.set 0 (s.get 0) := by simp [get_eq_getElem]
  have htail : Triple (Summed mem p ((List.range (words / 8)).flatMap (chunk 8) ++ []) (s.set 0 (s.get 0)))
      ((remainder 8 words).foldlM (fun s0 i => do
        let x ← load (p + 8 * i)
        pure (s0 + x)) (s.get 0))
      (fun s0 => Summed mem p ((List.range (words / 8)).flatMap (chunk 8) ++ ([] ++ remainder 8 words)) (s.set 0 s0))
      fun _ _ => False := by
    apply Triple.foldlM_seen
      (I := fun pre s0 => Summed mem p ((List.range (words / 8)).flatMap (chunk 8) ++ pre) (s.set 0 s0))
    intro pre s0 i hi
    apply Triple.bind (load_word howned (lt_of_mem_remainder hi) fun _ hst => hst.1)
    intro x
    apply Triple.of_pure
    rintro rfl
    refine .pure fun _ hst => ?_
    have hset := hst.add_lane 0 i
    rw [List.append_assoc] at hset
    simpa [MemBwWorkload.add_lane] using hset
  rw [List.append_nil, ← hfirst, List.nil_append, chunks_append_remainder] at htail
  apply htail.bind
  intro s0
  refine .pure fun st hst => ⟨hst.1, ?_⟩
  have htotal := hst.2
  simpa [total, get_eq_getElem] using htotal

end Sum

end MemBwWorkload

namespace Memory

def filled (mem : Memory) (p : Nat) (f : Nat → UInt64) (is : List Nat) : Memory :=
  is.foldl (fun mem i => mem.write (p + 8 * i) (f i)) mem

variable {mem : Memory} {p addr : Nat} {f : Nat → UInt64} {is : List Nat}

theorem filled_cons {i : Nat} : mem.filled p f (i :: is) = (mem.write (p + 8 * i) (f i)).filled p f is := rfl

theorem filled_append {is' : List Nat} : mem.filled p f (is ++ is') = (mem.filled p f is).filled p f is' :=
  List.foldl_append

theorem filled_frame : (mem.filled p f is).pages = mem.pages ∧ (mem.filled p f is).blocks = mem.blocks
    ∧ (mem.filled p f is).sink = mem.sink := by
  induction is generalizing mem with
  | nil => exact ⟨rfl, rfl, rfl⟩
  | cons i is ih => exact ih

theorem filled_has {len : Nat} : (mem.filled p f is).has addr len = mem.has addr len := by
  unfold has allocated
  rw [filled_frame.1, filled_frame.2.1]

theorem filled_elsewhere (h : ∀ i ∈ is, addr ≠ p + 8 * i) : (mem.filled p f is).words addr = mem.words addr := by
  induction is generalizing mem with
  | nil => rfl
  | cons i is ih =>
    rw [List.forall_mem_cons] at h
    rw [filled_cons, ih h.2]
    exact if_neg h.1

theorem filled_words {i : Nat} (hi : i ∈ is) : (mem.filled p f is).words (p + 8 * i) = f i := by
  induction is generalizing mem with
  | nil => cases hi
  | cons j is ih =>
    rw [filled_cons]
    by_cases hagain : i ∈ is
    . exact ih hagain
    . obtain rfl : i = j := (List.mem_cons.mp hi).resolve_right hagain
      have hlast : ∀ k ∈ is, p + 8 * i ≠ p + 8 * k := by
        intro k hk heq
        obtain rfl : i = k := by omega
        exact hagain hk
      rw [filled_elsewhere hlast]
      exact if_pos rfl

end Memory

namespace MemBwWorkload

section Stores

variable {p words : Nat} {mem : Memory} {f : Nat → UInt64} {is : List Nat}

/--
Some words of an array have been written, and nothing else.
-/
def Filled (mem : Memory) (p words : Nat) (f : Nat → UInt64) (is : List Nat) (st : Memory) : Prop :=
  (∀ i ∈ is, i < words) ∧ st = mem.filled p f is

theorem Filled.has {st : Memory} (h : Filled mem p words f is st) {addr len : Nat} (hhas : mem.has addr len = true)
    : st.has addr len = true := by
  rw [h.2, Memory.filled_has, hhas]

theorem Filled.append {st : Memory} (h : Filled mem p words f is st) {is' : List Nat} (hbound : ∀ i ∈ is', i < words)
    : Filled mem p words f (is ++ is') (st.filled p f is') := by
  refine ⟨List.forall_mem_append.mpr ⟨h.1, hbound⟩, ?_⟩
  rw [Memory.filled_append, ← h.2]

theorem store_word (howned : Owned p (8 * words) mem) {i : Nat} (hi : i < words)
    : Triple (Filled mem p words f is) (store (p + 8 * i) (f i)) (fun _ => Filled mem p words f (is ++ [i]))
        fun _ _ => False := by
  intro st hst
  rw [store_of_has (hst.has (howned.has (by omega) (by omega)))]
  exact hst.append fun _ hmem => List.mem_singleton.mp hmem ▸ hi

theorem lt_of_mem_chunk {step i j : Nat} (hj : j < words / step) (hi : i ∈ chunk step j) : i < words := by
  obtain ⟨l, hl, rfl⟩ := List.mem_map.mp hi
  have hl := List.mem_range.mp hl
  calc j * step + l
      < j * step + step := by omega
    _ = (j + 1) * step := (Nat.succ_mul j step).symm
    _ ≤ words / step * step := Nat.mul_le_mul_right step hj
    _ ≤ words := Nat.div_mul_le_self words step

theorem stream_words (howned : Owned p (8 * words) mem) (haligned : 32 ∣ p) {j : Nat} (hj : j < words / 4)
    {v : Nat → UInt64} (hv : ∀ l < 4, v l = f (j * 4 + l))
    : Triple (Filled mem p words f is) (stream (p + 8 * (j * 4)) v) (fun _ => Filled mem p words f (is ++ chunk 4 j))
        fun _ _ => False := by
  intro st hst
  have hlanes : (List.range 4).foldl (fun mem l => mem.write (p + 8 * (j * 4) + 8 * l) (v l)) st
      = st.filled p f (chunk 4 j) := by
    unfold Memory.filled chunk
    rw [List.foldl_map]
    apply List.foldl_ext
    intro mem l hl
    rw [hv l (List.mem_range.mp hl), Nat.mul_add, Nat.add_assoc]
  rw [stream_of_has (by omega) (hst.has (howned.has (by omega) (by omega))), hlanes]
  exact hst.append fun _ => lt_of_mem_chunk hj

theorem copy_word_filled {src : Nat} (hdst : Owned p (8 * words) mem) (hsrc : Owned src (8 * words) mem)
    (hdisjoint : p + 8 * words ≤ src ∨ src + 8 * words ≤ p) {i : Nat} (hi : i < words)
    : Triple (Filled mem p words (fun i => mem.words (src + 8 * i)) is) (copy_word p src i)
        (fun _ => Filled mem p words (fun i => mem.words (src + 8 * i)) (is ++ [i])) fun _ _ => False := by
  intro st hst
  have hload : load (src + 8 * i) st = .ok (mem.words (src + 8 * i)) st := by
    have hsame : st.words (src + 8 * i) = mem.words (src + 8 * i) := by
      rw [hst.2]
      exact Memory.filled_elsewhere fun k hk => by have := hst.1 k hk; omega
    rw [load_of_has (hst.has (hsrc.has (by omega) (by omega))), hsame]
  unfold copy_word
  rw [bind_of_ok hload]
  exact store_word hdst hi st hst

theorem copy_chunk_filled {src : Nat} (hdst : Owned p (8 * words) mem) (hsrc : Owned src (8 * words) mem)
    (hdisjoint : p + 8 * words ≤ src ∨ src + 8 * words ≤ p) (haligned : 32 ∣ p) {j : Nat} (hj : j < words / 4)
    : Triple (Filled mem p words (fun i => mem.words (src + 8 * i)) is)
        (do let x ← loadu (src + 8 * (j * 4)); stream (p + 8 * (j * 4)) x)
        (fun _ => Filled mem p words (fun i => mem.words (src + 8 * i)) (is ++ chunk 4 j)) fun _ _ => False := by
  intro st hst
  rw [bind_of_ok (loadu_of_has (hst.has (hsrc.has (by omega) (by omega))))]
  apply stream_words hdst haligned hj _ st hst
  intro l hl
  rw [hst.2, Memory.filled_elsewhere fun k hk => by have := hst.1 k hk; omega, Nat.mul_add, Nat.add_assoc]

theorem plain_loop {body : Nat → MemM Unit}
    (hbody : ∀ is, ∀ i < words, Triple (Filled mem p words f is) (body i) (fun _ => Filled mem p words f (is ++ [i]))
      fun _ _ => False)
    : (List.range words).forM body mem = .ok () (mem.filled p f (List.range words)) := by
  have hloop : Triple (Filled mem p words f []) ((List.range words).forM body)
      (fun _ => Filled mem p words f ([] ++ List.range words)) fun _ _ => False :=
    .forM_seen (fun is i hi => hbody is i (List.mem_range.mp hi)) []
  have hstart : Filled mem p words f [] mem := ⟨nofun, rfl⟩
  obtain ⟨_, st, hok, hst⟩ := hloop.exists_ok hstart
  rw [hok, hst.2, List.nil_append]

theorem chunked_loop {step : Nat} {big small : Nat → MemM Unit}
    (hbig : ∀ is, ∀ j < words / step, Triple (Filled mem p words f is) (big j)
      (fun _ => Filled mem p words f (is ++ chunk step j)) fun _ _ => False)
    (hsmall : ∀ is, ∀ i < words, Triple (Filled mem p words f is) (small i)
      (fun _ => Filled mem p words f (is ++ [i])) fun _ _ => False)
    : (do (List.range (words / step)).forM big; (remainder step words).forM small : MemM Unit) mem
      = .ok () (mem.filled p f (List.range words)) := by
  have hchunks : Triple (Filled mem p words f ([].flatMap (chunk step))) ((List.range (words / step)).forM big)
      (fun _ => Filled mem p words f (([] ++ List.range (words / step)).flatMap (chunk step))) fun _ _ => False := by
    apply Triple.forM_seen (I := fun js => Filled mem p words f (js.flatMap (chunk step)))
    intro js j hj
    rw [List.flatMap_append, List.flatMap_singleton]
    exact hbig _ j (List.mem_range.mp hj)
  have hrest : ∀ _ : Unit, Triple (Filled mem p words f (([] ++ List.range (words / step)).flatMap (chunk step)))
      ((remainder step words).forM small)
      (fun _ => Filled mem p words f ((List.range (words / step)).flatMap (chunk step) ++ remainder step words))
      fun _ _ => False :=
    fun _ => .forM_seen (fun is i hi => hsmall is i (lt_of_mem_remainder hi)) _
  have hstart : Filled mem p words f ([].flatMap (chunk step)) mem := ⟨nofun, rfl⟩
  obtain ⟨_, st, hok, hst⟩ := (hchunks.bind hrest).exists_ok hstart
  rw [hok, hst.2, chunks_append_remainder]

end Stores

/--
The words of an array have been set, and nothing else has changed.
-/
structure SetTo (mem : Memory) (p words : Nat) (f : Nat → UInt64) (mem' : Memory) : Prop where
  array : ∀ i < words, mem'.words (p + 8 * i) = f i
  elsewhere : ∀ addr, (∀ i < words, addr ≠ p + 8 * i) → mem'.words addr = mem.words addr
  rest : mem'.pages = mem.pages ∧ mem'.blocks = mem.blocks ∧ mem'.sink = mem.sink

theorem setTo_filled {mem : Memory} {p words : Nat} {f : Nat → UInt64}
    : SetTo mem p words f (mem.filled p f (List.range words)) where
  array := fun _ hi => Memory.filled_words (List.mem_range.mpr hi)
  elsewhere := fun _ h => Memory.filled_elsewhere fun i hi => h i (List.mem_range.mp hi)
  rest := Memory.filled_frame

/--
The loops do what they should with arrays of any length. A process need not have anything but the arrays, and
any other access would then be a fault.
-/
theorem kernels_plain (mem : Memory) (words : Nat)
    : (∀ p, Owned p (8 * words) mem →
        ∃ sum, sum_words p words mem = .ok sum mem ∧ sum.toNat = sumOf mem p (List.range words) % 2 ^ 64)
      ∧ (∀ p v, Owned p (8 * words) mem → 32 ∣ p →
        ∃ mem', fill_words_nt p words v mem = .ok () mem' ∧ fill_words p words v mem = .ok () mem'
          ∧ SetTo mem p words (fun _ => v) mem')
      ∧ ∀ dst src, Owned dst (8 * words) mem → Owned src (8 * words) mem → 32 ∣ dst →
        (dst + 8 * words ≤ src ∨ src + 8 * words ≤ dst) →
        ∃ mem', copy_words_nt dst src words mem = .ok () mem' ∧ memcpy dst src (8 * words) mem = .ok () mem'
          ∧ SetTo mem dst words (fun i => mem.words (src + 8 * i)) mem' := by
  refine ⟨fun p howned => ?_, fun p v howned haligned => ?_, fun dst src hdst hsrc haligned hdisjoint => ?_⟩
  . obtain ⟨sum, st, hok, rfl, hsum⟩ := (sum_words_sum howned).exists_ok rfl
    exact ⟨sum, hok, hsum⟩
  . have hword : ∀ is, ∀ i < words, Triple (Filled mem p words (fun _ => v) is) (store (p + 8 * i) v)
        (fun _ => Filled mem p words (fun _ => v) (is ++ [i])) fun _ _ => False :=
      fun _ _ => store_word howned
    refine ⟨_, ?_, plain_loop hword, setTo_filled⟩
    exact chunked_loop (fun _ _ hj => stream_words howned haligned hj fun _ _ => rfl) hword
  . have hword : ∀ is, ∀ i < words, Triple (Filled mem dst words (fun i => mem.words (src + 8 * i)) is)
        (copy_word dst src i) (fun _ => Filled mem dst words (fun i => mem.words (src + 8 * i)) (is ++ [i]))
        fun _ _ => False :=
      fun _ _ => copy_word_filled hdst hsrc hdisjoint
    refine ⟨_, ?_, ?_, setTo_filled⟩
    . exact chunked_loop (fun _ _ => copy_chunk_filled hdst hsrc hdisjoint haligned) hword
    . unfold memcpy
      rw [Nat.mul_div_cancel_left words (by decide)]
      exact plain_loop hword

def twoBlocks : Memory :=
  { Memory.none with blocks := [(64, 104), (192, 104)], words := fun addr => UInt64.ofNat addr }

theorem kernels_plain_twoBlocks
    : (∃ sum, sum_words 64 13 twoBlocks = .ok sum twoBlocks
        ∧ sum.toNat = sumOf twoBlocks 64 (List.range 13) % 2 ^ 64)
      ∧ (∃ mem, fill_words_nt 64 13 7 twoBlocks = .ok () mem ∧ fill_words 64 13 7 twoBlocks = .ok () mem
        ∧ SetTo twoBlocks 64 13 (fun _ => 7) mem)
      ∧ ∃ mem, copy_words_nt 192 64 13 twoBlocks = .ok () mem ∧ memcpy 192 64 (8 * 13) twoBlocks = .ok () mem
        ∧ SetTo twoBlocks 192 13 (fun i => twoBlocks.words (64 + 8 * i)) mem := by
  have hfirst : Owned 64 (8 * 13) twoBlocks := by
    intro addr hlo hhi
    have hhi' : addr < 64 + 104 := hhi
    simp [Memory.allocated, twoBlocks, Memory.none, hlo, hhi']
  have hsecond : Owned 192 (8 * 13) twoBlocks := by
    intro addr hlo hhi
    have hhi' : addr < 192 + 104 := hhi
    simp [Memory.allocated, twoBlocks, Memory.none, hlo, hhi']
  obtain ⟨hsum, hfill, hcopy⟩ := kernels_plain twoBlocks 13
  exact ⟨hsum 64 hfirst, hfill 64 7 hfirst (by decide), hcopy 192 64 hsecond hfirst (by decide) (.inr (by decide))⟩

end MemBwWorkload
end Bench
