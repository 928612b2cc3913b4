import BenchPlatform.Engine.Buffer
import BenchPlatform.Lib.Cycle

/-!
This module contains the pointer chase of `mem_latency`: the shuffle that the order of the lines comes from,
the buffer that the order is written into, and the loads that follow it from batch to batch.
-/

namespace Bench

/--
The loop of the shuffle, from the index `i` down to 1. The generator has been asked `k` times.
-/
def sattolo_loop (rng : Nat → BitVec 64) : Nat → Nat → Array Nat → Array Nat
  | 0, _, a => a
  | i + 1, k, a => sattolo_loop rng i (k + 1) (a.swapIfInBounds (i + 1) ((rng k).toNat % (i + 1)))

/--
`rng` is what the generator gives, one number after the other.
-/
def sattolo_shuffle (a : Array Nat) (rng : Nat → BitVec 64) : Array Nat :=
  sattolo_loop rng (a.size - 1) 0 a

def follow (a : Array Nat) (i : Nat) : Nat :=
  a[i]?.getD i

def IsPermutation (a : Array Nat) : Prop :=
  a.toList.Perm (List.range a.size)

instance (a : Array Nat) : Decidable (IsPermutation a) :=
  inferInstanceAs (Decidable (List.Perm _ _))

structure IsCycle (a : Array Nat) : Prop where
  permutation : IsPermutation a
  single : Cycle.Single a.size (follow a)

section Shuffle

open Equiv Cycle

variable {rng : Nat → BitVec 64} {a : Array Nat}

/--
Where an element is put in, when the generator has been asked `k` times before the first of `m` steps.
-/
def drawn (rng : Nat → BitVec 64) (k m i : Nat) : Nat :=
  (rng (k + m - i)).toNat % i

theorem drawn_lt {k m i : Nat} (hi : 0 < i) : drawn rng k m i < i :=
  Nat.mod_lt _ hi

theorem getElem?_swapIfInBounds {i j : Nat} (hi : i < a.size) (hj : j < a.size) (x : Nat)
    : (a.swapIfInBounds i j)[x]? = a[swap i j x]? := by
  unfold Array.swapIfInBounds
  rw [dif_pos hi, dif_pos hj, Array.getElem?_swap]
  by_cases hxj : x = j
  . rw [if_pos hxj.symm, hxj, swap_apply_right, Array.getElem?_eq_getElem hi]
  . rw [if_neg (Ne.symm hxj)]
    by_cases hxi : x = i
    . rw [if_pos hxi.symm, hxi, swap_apply_left, Array.getElem?_eq_getElem hj]
    . rw [if_neg (Ne.symm hxi), swap_apply_of_ne_of_ne hxi hxj]

theorem getElem?_sattolo_loop {m k : Nat} (hm : m < a.size) (x : Nat)
    : (sattolo_loop rng m k a)[x]? = a[grown (drawn rng k m) m x]? := by
  induction m generalizing k a with
  | zero => rfl
  | succ m ih =>
    have hdraw : drawn rng k (m + 1) (m + 1) = (rng k).toNat % (m + 1) := by
      unfold drawn
      rw [Nat.add_sub_cancel]
    have hlt : (rng k).toNat % (m + 1) < m + 1 := Nat.mod_lt _ (Nat.succ_pos m)
    have hrest : drawn rng (k + 1) m = drawn rng k (m + 1) := by
      funext i
      unfold drawn
      rw [Nat.add_assoc, Nat.add_comm 1 m]
    rw [sattolo_loop, ih (by rw [Array.size_swapIfInBounds]; omega), hrest,
      getElem?_swapIfInBounds hm (hlt.trans hm), grown, hdraw, Perm.mul_apply]

theorem size_sattolo_loop {m k : Nat} : (sattolo_loop rng m k a).size = a.size := by
  induction m generalizing k a with
  | zero => rfl
  | succ m ih => rw [sattolo_loop, ih, Array.size_swapIfInBounds]

@[simp]
theorem size_sattolo_shuffle : (sattolo_shuffle a rng).size = a.size :=
  size_sattolo_loop

theorem isPermutation_sattolo_shuffle (h : IsPermutation a) : IsPermutation (sattolo_shuffle a rng) := by
  have hswap : ∀ (b : Array Nat) (i j : Nat), (b.swapIfInBounds i j).toList.Perm b.toList := by
    intro b i j
    unfold Array.swapIfInBounds
    split
    . split
      . exact (Array.swap_perm _ _).toList
      . rfl
    . rfl
  have hloop : ∀ (m k : Nat) (b : Array Nat), (sattolo_loop rng m k b).toList.Perm b.toList := by
    intro m
    induction m with
    | zero => exact fun _ _ => .refl _
    | succ m ih => exact fun k b => (ih _ _).trans (hswap _ _ _)
  unfold IsPermutation
  rw [size_sattolo_shuffle]
  exact (hloop _ _ _).trans h

theorem follow_sattolo_shuffle (x : Nat) (hx : x < a.size)
    : follow (sattolo_shuffle a rng) x
      = (a[grown (drawn rng 0 (a.size - 1)) (a.size - 1) x]?).getD x := by
  unfold follow sattolo_shuffle
  rw [getElem?_sattolo_loop (by omega)]

theorem follow_sattolo_range {n : Nat} (hn : 0 < n) (x : Nat) (hx : x < n)
    : follow (sattolo_shuffle (Array.range n) rng) x = grown (drawn rng 0 (n - 1)) (n - 1) x := by
  have hcycle := isCycleOn_grown (m := n - 1) (d := drawn rng 0 (n - 1)) fun _ hi => drawn_lt hi
  rw [Nat.sub_add_cancel hn] at hcycle
  have hlt : grown (drawn rng 0 (n - 1)) (n - 1) x < n :=
    Finset.mem_range.mp (Finset.mem_coe.mp
      (hcycle.1.mapsTo (Finset.mem_coe.mpr (Finset.mem_range.mpr hx))))
  rw [follow_sattolo_shuffle x (by rwa [Array.size_range]), Array.size_range]
  rw [Array.getElem?_eq_getElem (by rwa [Array.size_range]), Array.getElem_range, Option.getD_some]

theorem isPermutation_range (n : Nat) : IsPermutation (Array.range n) := by
  unfold IsPermutation
  rw [Array.toList_range, Array.size_range]

theorem single_sattolo_range (n : Nat) : Single n (follow (sattolo_shuffle (Array.range n) rng)) := by
  obtain rfl | hn := Nat.eq_zero_or_pos n
  . exact ⟨nofun, nofun⟩
  . have hcycle := isCycleOn_grown (m := n - 1) (d := drawn rng 0 (n - 1)) fun _ hi => drawn_lt hi
    rw [Nat.sub_add_cancel hn] at hcycle
    exact single_of_isCycleOn hcycle (follow_sattolo_range hn)

theorem exists_not_isCycle (hsize : a.size ≤ 2 ^ 64) {x : Nat} (hx : x < a.size) (hy : a[x] < a.size)
    (hne : x ≠ a[x])
    : ∃ rng, ¬IsCycle (sattolo_shuffle a rng) := by
  obtain ⟨d, hd, hgrown⟩ :=
    exists_grown_apply (m := a.size - 1) (x := x) (y := a[x]) (by omega) (by omega) hne
  -- the generator is asked for the last index first
  refine ⟨fun k => BitVec.ofNat 64 (d (a.size - 1 - k)), fun h => ?_⟩
  have hdrawn : grown (drawn (fun k => BitVec.ofNat 64 (d (a.size - 1 - k))) 0 (a.size - 1)) (a.size - 1)
      = grown d (a.size - 1) := by
    apply grown_congr
    intro i hi him
    have hlt := hd i hi
    change (BitVec.ofNat 64 (d (a.size - 1 - (0 + (a.size - 1) - i)))).toNat % i = d i
    rw [Nat.zero_add, Nat.sub_sub_self him, BitVec.toNat_ofNat, Nat.mod_eq_of_lt (by omega : d i < 2 ^ 64),
      Nat.mod_eq_of_lt hlt]
  have hsingle := h.single
  rw [size_sattolo_shuffle] at hsingle
  apply not_single_of_fixed hy (by omega) _ hsingle
  rw [follow_sattolo_shuffle _ hy, hdrawn, hgrown, Array.getElem?_eq_getElem hx, Option.getD_some]

/--
The shuffle makes a permutation of any permutation, but only the identity is made one single cycle whatever
is drawn.
-/
theorem sattolo_shuffle_cycle_iff (hsize : a.size ≤ 2 ^ 64) (h : IsPermutation a)
    : (∀ rng, IsPermutation (sattolo_shuffle a rng))
      ∧ ((∀ rng, IsCycle (sattolo_shuffle a rng)) ↔ a = Array.range a.size) := by
  refine ⟨fun _ => isPermutation_sattolo_shuffle h, ?_, ?_⟩
  . intro hall
    apply Array.ext
    . rw [Array.size_range]
    . intro x hx _
      rw [Array.getElem_range]
      by_contra hne
      have hy : a[x] < a.size := List.mem_range.mp (h.mem_iff.mp (Array.getElem_mem_toList hx))
      obtain ⟨rng, hnot⟩ := exists_not_isCycle hsize hx hy (Ne.symm hne)
      exact hnot (hall rng)
  . intro ha rng
    rw [ha]
    refine ⟨isPermutation_sattolo_shuffle (isPermutation_range a.size), ?_⟩
    rw [size_sattolo_shuffle, Array.size_range]
    exact single_sattolo_range a.size

theorem sattolo_shuffle_cycle_iff_three
    : IsPermutation #[1, 2, 0] ∧ ¬∀ rng, IsCycle (sattolo_shuffle #[1, 2, 0] rng) := by
  have h : IsPermutation #[1, 2, 0] := by decide
  refine ⟨h, fun hall => ?_⟩
  have hid := (sattolo_shuffle_cycle_iff (by decide) h).2.mp hall
  revert hid
  decide

/--
Two numbers that are exchanged are exchanged back.
-/
theorem exchanged_not_cycle
    : IsPermutation #[1, 0] ∧ ¬IsCycle (sattolo_shuffle #[1, 0] fun _ => 0) := by
  refine ⟨by decide, fun h => ?_⟩
  exact not_single_of_fixed (x := 0) (by decide) (by decide) (by decide) h.single

end Shuffle

/--
Words per cache line: the chase has one next index per line, in the line's first word.
-/
def kWordsPerLine : Nat :=
  kCacheLine / 8

/--
What an allocation of so many bytes gives: the words of the buffer, or nothing when it throws.
-/
structure Allocator where
  alloc_buffer : Nat → Option (Array Nat)
  size_words : ∀ bytes words, alloc_buffer bytes = some words → words.size * 8 = bytes

/--
The words that `alloc_buffer` makes accessible to a process without other buffers.
-/
def Allocator.ofOs (os : Os) (opts : AllocOptions) : Allocator where
  alloc_buffer bytes :=
    match Bench.alloc_buffer os bytes opts .none with
    | .ok buf mem =>
      if 8 ∣ bytes then some ((Array.range (bytes / 8)).map fun i => (mem.words (buf.data + 8 * i)).toNat) else none
    | .error _ _ => none
  size_words := by
    intro bytes words h
    split at h
    . split at h
      . rw [← Option.some.inj h, Array.size_map, Array.size_range]
        omega
      . cases h
    . cases h

theorem Allocator.isSome_ofOs {os : Os} {opts : AllocOptions} {bytes : Nat} (hsome : bytes ≠ 0) (hwords : 8 ∣ bytes)
    (h : (asked os bytes opts.huge_pages).isSome) (hfits : opts.huge_pages = true → bytes + kHugePage < 2 ^ 64)
    : ((ofOs os opts).alloc_buffer bytes).isSome := by
  have hrule : Hoare.Triple (· = .none) (Bench.alloc_buffer os bytes opts)
      (fun buf mem => buf.size = bytes ∧ kPage ∣ buf.data ∧ Owned buf.data bytes mem) fun _ _ => False :=
    alloc_buffer_owned hsome h hfits
  unfold ofOs
  dsimp only
  cases hrun : Bench.alloc_buffer os bytes opts .none with
  | ok buf mem =>
    dsimp only
    rw [if_pos hwords]
    rfl
  | error err mem => exact (hrule.of_error rfl hrun).elim

structure MemLatencyWorkload where
  words : Array Nat
  lines : Nat
  idx : Nat

namespace MemLatencyWorkload

def kBatchLoads : Nat :=
  2 ^ 16

def kGolden : BitVec 64 :=
  0x9E3779B97F4A7C15#64

def write (words : Array Nat) (i v : Nat) : Option (Array Nat) :=
  if h : i < words.size then some (words.set i v h) else none

/--
Line `i`'s first word holds the word index of line `order[i]`'s first word.
-/
def write_order (order : Array Nat) (lines : Nat) (words : Array Nat) : Option (Array Nat) :=
  (List.range lines).foldlM (fun words i => do
    let next ← order[i]?
    write words (i * kWordsPerLine) (next * kWordsPerLine)) words

/--
`rng seed` is what the generator of that seed gives. The outcome is none when it throws.
-/
def setup (os : Allocator) (rng : BitVec 64 → Nat → BitVec 64) (working_set : Nat) (seed : BitVec 64)
    (thread_index : Nat)
    : Option MemLatencyWorkload := do
  let bytes := buffer_bytes_for working_set
  guard (bytes < 2 ^ 64)
  let words ← os.alloc_buffer bytes
  let lines := bytes / kCacheLine
  let order := sattolo_shuffle (Array.range lines)
    (rng (seed ^^^ (kGolden * BitVec.ofNat 64 (thread_index + 1))))
  let words ← write_order order lines words
  some ⟨words, lines, 0⟩

/--
So many loads from an index on, with the words that are read and the index after them. A load outside of the
buffer is none.
-/
def chase (words : Array Nat) : Nat → Nat → Option (List Nat × Nat)
  | 0, idx => some ([], idx)
  | n + 1, idx => do
    let next ← words[idx]?
    let (loads, last) ← chase words n next
    some (idx :: loads, last)

def run_batch (w : MemLatencyWorkload) : Option (List Nat × MemLatencyWorkload) := do
  let (loads, idx) ← chase w.words kBatchLoads w.idx
  some (loads, { w with idx })

def run_batches (w : MemLatencyWorkload) : Nat → Option (List Nat × MemLatencyWorkload)
  | 0 => some ([], w)
  | n + 1 => do
    let (loads, w) ← run_batch w
    let (rest, w) ← run_batches w n
    some (loads ++ rest, w)

def next_line (w : MemLatencyWorkload) (line : Nat) : Option Nat :=
  w.words[line * kWordsPerLine]?.map (· / kWordsPerLine)

section Chase

open Cycle

variable {words order : Array Nat} {lines : Nat} {f : Nat → Nat}

/--
The words of a chase along `f`.
-/
def Follows (words : Array Nat) (lines : Nat) (f : Nat → Nat) : Prop :=
  ∀ line < lines, words[line * kWordsPerLine]? = some (f line * kWordsPerLine) ∧ f line < lines

theorem write_order_follows (horder : order.size = lines) (hbelow : ∀ line < lines, follow order line < lines)
    (hwords : words.size = lines * kWordsPerLine)
    : ∃ words', write_order order lines words = some words' ∧ words'.size = words.size
      ∧ Follows words' lines (follow order) := by
  have hprefix : ∀ m ≤ lines, ∃ words', write_order order m words = some words'
      ∧ words'.size = words.size
      ∧ ∀ line < m, words'[line * kWordsPerLine]? = some (follow order line * kWordsPerLine) := by
    intro m
    induction m with
    | zero => exact fun _ => ⟨words, rfl, rfl, nofun⟩
    | succ m ih =>
      intro hm
      obtain ⟨words', hrun, hsize, hlines⟩ := ih (Nat.le_of_succ_le hm)
      have hnext : order[m]? = some (follow order m) := by
        unfold follow
        rw [Array.getElem?_eq_getElem (by omega), Option.getD_some]
      have hin : m * kWordsPerLine < words'.size := by
        rw [hsize, hwords]
        exact Nat.mul_lt_mul_of_pos_right hm (by decide)
      refine ⟨words'.set (m * kWordsPerLine) (follow order m * kWordsPerLine) hin, ?_, ?_, ?_⟩
      . unfold write_order at hrun ⊢
        rw [List.range_succ, List.foldlM_append, hrun]
        simp [hnext, write, hin]
      . rw [Array.size_set, hsize]
      . intro line hline
        rw [Array.getElem?_set]
        by_cases hlm : m = line
        . rw [if_pos (by rw [hlm]), hlm]
        . have hne : m * kWordsPerLine ≠ line * kWordsPerLine := by
            intro heq
            exact hlm (Nat.eq_of_mul_eq_mul_right (by decide) heq)
          rw [if_neg hne, hlines line (by omega)]
  obtain ⟨words', hrun, hsize, hlines⟩ := hprefix lines le_rfl
  exact ⟨words', hrun, hsize, fun line hline => ⟨hlines line hline, hbelow line hline⟩⟩

theorem chase_follows (h : Follows words lines f) {x : Nat} (hx : x < lines) (n : Nat)
    : chase words n (x * kWordsPerLine)
        = some ((List.range n).map fun t => f^[t] x * kWordsPerLine, f^[n] x * kWordsPerLine)
      ∧ f^[n] x < lines := by
  induction n generalizing x with
  | zero => exact ⟨rfl, hx⟩
  | succ n ih =>
    obtain ⟨hload, hlt⟩ := h x hx
    obtain ⟨hrest, hlast⟩ := ih hlt
    refine ⟨?_, hlast⟩
    rw [chase, hload, Option.bind_eq_bind, Option.bind_some, hrest, List.range_succ_eq_map]
    simp [Function.comp_def]

theorem run_batches_follows {w : MemLatencyWorkload} (h : Follows w.words w.lines f) {x : Nat}
    (hx : x < w.lines) (hidx : w.idx = x * kWordsPerLine) (batches : Nat)
    : ∃ w', run_batches w batches
        = some ((List.range (batches * kBatchLoads)).map fun t => f^[t] x * kWordsPerLine, w') := by
  induction batches generalizing w x with
  | zero => exact ⟨w, by rw [Nat.zero_mul]; rfl⟩
  | succ n ih =>
    obtain ⟨hchase, hlt⟩ := chase_follows h hx kBatchLoads
    have hbatch : run_batch w = some ((List.range kBatchLoads).map fun t => f^[t] x * kWordsPerLine,
        { w with idx := f^[kBatchLoads] x * kWordsPerLine }) := by
      rw [run_batch, hidx, hchase]
      rfl
    obtain ⟨w', hrest⟩ := ih (w := { w with idx := f^[kBatchLoads] x * kWordsPerLine }) h hlt rfl
    have hlater : (fun t => f^[t] (f^[kBatchLoads] x) * kWordsPerLine)
        = (fun t => f^[t] x * kWordsPerLine) ∘ (kBatchLoads + ·) := by
      funext t
      rw [Function.comp_apply, Nat.add_comm kBatchLoads t, Function.iterate_add_apply]
    refine ⟨w', ?_⟩
    rw [run_batches, hbatch, Option.bind_eq_bind, Option.bind_some]
    dsimp only
    rw [hrest, Option.bind_some, hlater, Nat.succ_mul, Nat.add_comm (n * kBatchLoads), List.range_add,
      List.map_append, List.map_map]

/--
The loads of a chase over the whole buffer: each reads the first word of a line, and any so many loads as
there are lines visit every line exactly once.
-/
structure Covers (lines : Nat) (loads : List Nat) : Prop where
  first_words : ∀ idx ∈ loads, ∃ line < lines, idx = line * kWordsPerLine
  laps : ∀ start, start + lines ≤ loads.length →
    ((loads.drop start).take lines).Perm ((List.range lines).map (· * kWordsPerLine))

theorem covers_iterates {p : Equiv.Perm Nat} (hp : p.IsCycleOn (Finset.range lines))
    (hf : ∀ x < lines, f x = p x) {x : Nat} (hx : x < lines) (n : Nat)
    : Covers lines ((List.range n).map fun t => f^[t] x * kWordsPerLine) := by
  constructor
  . intro idx hidx
    obtain ⟨t, _, rfl⟩ := List.mem_map.mp hidx
    exact ⟨f^[t] x, (iterate_eq_pow hp hf hx t).2, rfl⟩
  . intro start hstart
    rw [List.length_map, List.length_range] at hstart
    have hwindow : (((List.range n).map fun t => f^[t] x * kWordsPerLine).drop start).take lines
        = ((List.range lines).map fun t => f^[start + t] x).map (· * kWordsPerLine) := by
      apply List.ext_getElem
      . simp only [List.length_take, List.length_drop, List.length_map, List.length_range]
        omega
      . intro i _ _
        simp
    rw [hwindow]
    exact (perm_window hp hf hx start).map _

theorem buffer_bytes_for_lt {working_set : Nat} (h : working_set < 2 ^ 64)
    : buffer_bytes_for working_set < 2 ^ 64 := by
  unfold buffer_bytes_for kCacheLine kMinLines kDefaultWorkingSet
  split
  . decide
  . dsimp only
    omega

theorem lines_pos (working_set : Nat) : 0 < buffer_bytes_for working_set / kCacheLine := by
  unfold buffer_bytes_for kMinLines
  rw [Nat.mul_div_cancel _ (by decide)]
  exact Nat.lt_of_lt_of_le (by decide) (Nat.le_max_left _ _)

theorem lines_mul (working_set : Nat)
    : buffer_bytes_for working_set / kCacheLine * kCacheLine = buffer_bytes_for working_set :=
  Nat.div_mul_cancel (Nat.dvd_mul_left _ _)

/--
After the setup the chase covers the whole buffer, in however many batches.
-/
theorem setup_covers (os : Allocator) (rng : BitVec 64 → Nat → BitVec 64) {working_set : Nat}
    (seed : BitVec 64) (thread_index : Nat) (hws : working_set < 2 ^ 64)
    (halloc : (os.alloc_buffer (buffer_bytes_for working_set)).isSome)
    : ∃ w next, setup os rng working_set seed thread_index = some w
      ∧ w.lines * kCacheLine = buffer_bytes_for working_set
      ∧ w.words.size = w.lines * kWordsPerLine
      ∧ (∀ line < w.lines, w.next_line line = some (next line))
      ∧ Single w.lines next
      ∧ ∀ batches, ∃ loads w', run_batches w batches = some (loads, w')
        ∧ loads.length = batches * kBatchLoads ∧ Covers w.lines loads := by
  obtain ⟨words, halloc⟩ := Option.isSome_iff_exists.mp halloc
  generalize hlines : buffer_bytes_for working_set / kCacheLine = lines
  have hpos : 0 < lines := hlines ▸ lines_pos working_set
  have hmul : lines * kCacheLine = buffer_bytes_for working_set := hlines ▸ lines_mul working_set
  generalize hdraws : rng (seed ^^^ (kGolden * BitVec.ofNat 64 (thread_index + 1))) = draws
  -- the order is one cycle, as the shuffle starts from the identity
  have hcycle := isCycleOn_grown (m := lines - 1) (d := drawn draws 0 (lines - 1))
    fun _ hi => drawn_lt hi
  rw [Nat.sub_add_cancel hpos] at hcycle
  have hfollow : ∀ x < lines, follow (sattolo_shuffle (Array.range lines) draws) x
      = grown (drawn draws 0 (lines - 1)) (lines - 1) x := follow_sattolo_range hpos
  have hsize : words.size = lines * kWordsPerLine := by
    have hbytes := os.size_words _ _ halloc
    rw [← hmul] at hbytes
    unfold kWordsPerLine kCacheLine at *
    omega
  have horder : (sattolo_shuffle (Array.range lines) draws).size = lines := by
    rw [size_sattolo_shuffle, Array.size_range]
  obtain ⟨words', hwrite, hsize', hfollows⟩ :=
    write_order_follows horder (single_sattolo_range lines).below hsize
  refine ⟨⟨words', lines, 0⟩, follow (sattolo_shuffle (Array.range lines) draws), ?_, hmul,
    hsize'.trans hsize, ?_, single_sattolo_range lines, ?_⟩
  . have hguard : (guard (buffer_bytes_for working_set < 2 ^ 64) : Option Unit) = some () :=
      if_pos (buffer_bytes_for_lt hws)
    unfold setup
    dsimp only
    rw [hguard, halloc, hlines, hdraws]
    simp [hwrite]
  . intro line hline
    unfold next_line
    dsimp only
    rw [(hfollows line hline).1, Option.map_some, Nat.mul_div_cancel _ (by decide)]
  . intro batches
    obtain ⟨w', hrun⟩ := run_batches_follows (w := ⟨words', lines, 0⟩) hfollows hpos (Nat.zero_mul _).symm
      batches
    exact ⟨_, w', hrun, by rw [List.length_map, List.length_range], covers_iterates hcycle hfollow hpos _⟩

theorem setup_covers_three_lines
    : ∃ w, setup (.ofOs .low { huge_pages := true, first_touch := true }) (fun _ k => BitVec.ofNat 64 (k + 1)) 200 5 0
        = some w
      ∧ w.lines = 3 ∧ ∃ loads w', run_batches w 1 = some (loads, w') ∧ Covers 3 loads := by
  obtain ⟨w, next, hrun, hlines, _, _, _, hcovers⟩ :=
    setup_covers (.ofOs .low { huge_pages := true, first_touch := true }) (fun _ k => BitVec.ofNat 64 (k + 1)) 5 0
      (show 200 < 2 ^ 64 by decide) (Allocator.isSome_ofOs (by decide) (by decide) (by decide) (by decide))
  have hthree : w.lines = 3 := Nat.eq_of_mul_eq_mul_right (by decide) hlines
  obtain ⟨loads, w', hbatch, _, h⟩ := hcovers 1
  exact ⟨w, hrun, hthree, loads, w', hbatch, hthree ▸ h⟩

end Chase

end MemLatencyWorkload

end Bench
