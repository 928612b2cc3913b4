import BenchPlatform.Api.Lttb.Over
import Mathlib.Algebra.Order.BigOperators.Group.List
import Mathlib.Algebra.Order.Floor.Semifield
import Mathlib.Data.Rat.Floor

/-!
This module contains the downsampling in exact arithmetic: which points it keeps, and that a lone spike is one
of them.
-/

namespace Api
namespace Lttb
namespace Over

variable {K : Type} [Field K] [LinearOrder K] [FloorRing K]

instance exact : Scalar K where
  add a b := a + b
  sub a b := a - b
  mul a b := a * b
  div a b := a / b
  neg a := -a
  lt a b := decide (a < b)
  ofInt n := n
  toInt x := if 0 ≤ x then ⌊x⌋ else ⌈x⌉

section Operations

variable (x y : K)

@[simp]
theorem add_exact : Scalar.add x y = x + y := rfl

@[simp]
theorem sub_exact : Scalar.sub x y = x - y := rfl

@[simp]
theorem mul_exact : Scalar.mul x y = x * y := rfl

@[simp]
theorem div_exact : Scalar.div x y = x / y := rfl

@[simp]
theorem neg_exact : Scalar.neg x = -x := rfl

@[simp]
theorem lt_exact : Scalar.lt x y = decide (x < y) := rfl

@[simp]
theorem ofInt_exact (n : Int) : (Scalar.ofInt n : K) = n := rfl

theorem toInt_exact {x : K} (h : 0 ≤ x) : Scalar.toInt x = ⌊x⌋ :=
  if_pos h

end Operations

/--
The first index of bucket `i`, when `N` points are put into `T` buckets after the first point.
-/
def border (N T i : Nat) : Nat :=
  i * N / T + 1

def centroid (next : List (Point K)) : Point K where
  x := (next.map (·.x)).sum / next.length
  y := (next.map (·.y)).sum / next.length

/--
The third vertex of the triangles of bucket `i`: the average of the next bucket, or the last point.
-/
def IsVertex (data : List (Point K)) (N T i : Nat) (c : Point K) : Prop :=
  if i + 1 = T then
    data[N + 1]? = some c
  else
    c = centroid ((data.take (border N T (i + 2))).drop (border N T (i + 1)))

/--
The first point of a bucket that spans a triangle of maximal area.
-/
structure FirstLargest (data : List (Point K)) (a c : Point K) (start stop best : Nat) : Prop where
  start_le : start ≤ best
  lt_stop : best < stop
  largest : ∀ q, data[best]? = some q → ∀ j p, start ≤ j → j < stop → data[j]? = some p →
    triangleArea a p c ≤ triangleArea a q c
  first : ∀ q, data[best]? = some q → ∀ j p, start ≤ j → j < best → data[j]? = some p →
    triangleArea a p c < triangleArea a q c

/--
The indices of the points that are kept: the first, one of each of `T` buckets, and the last.
-/
structure Sampled (data : List (Point K)) (N T : Nat) (idx : List Nat) : Prop where
  length : idx.length = T + 2
  first : idx[0]? = some 0
  last : idx[T + 1]? = some (N + 1)
  increasing : idx.Pairwise (· < ·)
  chosen : ∀ i < T, ∀ prev best, idx[i]? = some prev → idx[i + 1]? = some best →
    ∃ a c, data[prev]? = some a ∧ IsVertex data N T i c
      ∧ FirstLargest data a c (border N T i) (border N T (i + 1)) best

section Border

variable {N T i : Nat}

@[simp]
theorem border_zero : border N T 0 = 1 := by
  unfold border
  rw [Nat.zero_mul, Nat.zero_div]

theorem border_last (hT : 0 < T) : border N T T = N + 1 := by
  unfold border
  rw [Nat.mul_div_cancel_left _ hT]

theorem border_lt_succ (hT : 0 < T) (hle : T ≤ N) (i : Nat) : border N T i < border N T (i + 1) := by
  have hstep : i * N / T + 1 ≤ (i + 1) * N / T := by
    rw [← Nat.add_div_right _ hT, Nat.succ_mul]
    exact Nat.div_le_div_right (Nat.add_le_add_left hle _)
  exact Nat.succ_lt_succ hstep

theorem border_mono {j : Nat} (h : i ≤ j) : border N T i ≤ border N T j :=
  Nat.succ_le_succ (Nat.div_le_div_right (Nat.mul_le_mul_right _ h))

theorem one_le_border : 1 ≤ border N T i :=
  Nat.succ_le_succ (Nat.zero_le _)

theorem border_after (hT : 0 < T) (hle : T ≤ N) : N + 2 ≤ border N T (T + 1) := by
  have hlt := border_lt_succ hT hle T
  rw [border_last hT] at hlt
  exact hlt

variable [IsStrictOrderedRing K]

theorem cell_exact (N T i : Nat)
    : cell (Scalar.div (Scalar.ofInt N) (Scalar.ofInt T) : K) i = (border N T i : Int) := by
  have hnonneg : (0 : K) ≤ i * (N / T) :=
    mul_nonneg (Nat.cast_nonneg i) (div_nonneg (Nat.cast_nonneg N) (Nat.cast_nonneg T))
  have hfloor : ⌊(i : K) * (N / T)⌋ = ((i * N / T : Nat) : Int) := by
    rw [← Int.toNat_of_nonneg (Int.floor_nonneg.mpr hnonneg), Int.floor_toNat, ← mul_div_assoc,
      ← Nat.cast_mul, Nat.floor_div_eq_div]
  unfold cell
  rw [div_exact, ofInt_exact, ofInt_exact, ofInt_exact, mul_exact, Int.cast_natCast, Int.cast_natCast,
    Int.cast_natCast, toInt_exact hnonneg, hfloor]
  rfl

end Border

section Choice

theorem triangleArea_exact [IsStrictOrderedRing K] (a b c : Point K)
    : triangleArea a b c = |(a.x - c.x) * (b.y - a.y) - (a.x - b.x) * (c.y - a.y)| := by
  unfold triangleArea
  simp only [sub_exact, mul_exact, neg_exact, lt_exact, ofInt_exact, Int.cast_zero]
  generalize (a.x - c.x) * (b.y - a.y) - (a.x - b.x) * (c.y - a.y) = area
  by_cases h : area < 0
  . rw [if_pos (decide_eq_true h), abs_of_neg h]
  . rw [if_neg (by simpa using h), abs_of_nonneg (not_lt.mp h)]

theorem largest_spec (a c : Point K) (ps : List (Point K)) (j best : Int) (bestArea : K)
    : (largest a c ps j best bestArea = best ∧ ∀ p ∈ ps, triangleArea a p c ≤ bestArea)
      ∨ ∃ k, ∃ hk : k < ps.length, largest a c ps j best bestArea = j + k
        ∧ bestArea < triangleArea a ps[k] c
        ∧ (∀ p ∈ ps, triangleArea a p c ≤ triangleArea a ps[k] c)
        ∧ ∀ k' (hk' : k' < k), triangleArea a ps[k'] c < triangleArea a ps[k] c := by
  induction ps generalizing j best bestArea with
  | nil => exact .inl ⟨rfl, fun _ hp => absurd hp List.not_mem_nil⟩
  | cons p ps ih =>
    unfold largest
    dsimp only
    rw [lt_exact]
    by_cases hlt : bestArea < triangleArea a p c
    . right
      rw [if_pos (decide_eq_true hlt)]
      obtain ⟨hsame, hall⟩ | ⟨k, hk, heq, hlarger, hall, hfirst⟩ := ih (j + 1) j (triangleArea a p c)
      . refine ⟨0, Nat.succ_pos _, ?_, hlt, List.forall_mem_cons.mpr ⟨le_rfl, hall⟩, ?_⟩
        . rw [hsame, Nat.cast_zero, Int.add_zero]
        . exact fun k' hk' => absurd hk' (Nat.not_lt_zero k')
      . refine ⟨k + 1, Nat.succ_lt_succ hk, ?_, hlt.trans hlarger, ?_, ?_⟩
        . rw [heq, Nat.cast_succ]
          omega
        . exact List.forall_mem_cons.mpr ⟨hlarger.le, hall⟩
        . intro k' hk'
          cases k' with
          | zero => exact hlarger
          | succ k' => exact hfirst k' (Nat.lt_of_succ_lt_succ hk')
    . rw [if_neg (by simpa using hlt)]
      obtain ⟨hsame, hall⟩ | ⟨k, hk, heq, hlarger, hall, hfirst⟩ := ih (j + 1) best bestArea
      . exact .inl ⟨hsame, List.forall_mem_cons.mpr ⟨not_lt.mp hlt, hall⟩⟩
      . right
        have hsmaller : triangleArea a p c < triangleArea a ps[k] c := (not_lt.mp hlt).trans_lt hlarger
        refine ⟨k + 1, Nat.succ_lt_succ hk, ?_, hlarger, ?_, ?_⟩
        . rw [heq, Nat.cast_succ]
          omega
        . exact List.forall_mem_cons.mpr ⟨hsmaller.le, hall⟩
        . intro k' hk'
          cases k' with
          | zero => exact hsmaller
          | succ k' => exact hfirst k' (Nat.lt_of_succ_lt_succ hk')

theorem average_exact (last : Point K) (next : List (Point K))
    : average last next = if next = [] then last else centroid next := by
  have hsum : ∀ (f : Point K → K) (l : List (Point K)) (a : K),
      l.foldl (fun sum p => sum + f p) a = a + (l.map f).sum := by
    intro f l
    induction l with
    | nil => exact fun a => (add_zero a).symm
    | cons p l ih => exact fun a => by rw [List.foldl_cons, ih, List.map_cons, List.sum_cons, add_assoc]
  unfold average
  by_cases hnil : next = []
  . rw [if_pos (List.isEmpty_iff.mpr hnil), if_pos hnil]
  . rw [if_neg (fun h => hnil (List.isEmpty_iff.mp h)), if_neg hnil]
    simp only [add_exact, div_exact, ofInt_exact, Int.cast_zero, Int.cast_natCast, hsum, zero_add]
    rfl

omit [Field K] [LinearOrder K] [FloorRing K] in
theorem slice_eq {data : List (Point K)} {start stop : Nat} (hlt : start < stop) (hstop : stop ≤ data.length)
    : slice data start stop = some ((data.take stop).drop start) := by
  unfold slice
  rw [if_pos (by omega), if_pos (by omega), Int.toNat_natCast, Int.toNat_natCast]

theorem firstLargest_of_slice [IsStrictOrderedRing K] {data : List (Point K)} {a c : Point K} {start stop : Nat}
    (hlt : start < stop) (hstop : stop ≤ data.length)
    : ∃ best : Nat, largest a c ((data.take stop).drop start) start start (Scalar.ofInt (-1)) = best
      ∧ FirstLargest data a c start stop best := by
  have hlength : ((data.take stop).drop start).length = stop - start := by
    rw [List.length_drop, List.length_take]
    omega
  have helem : ∀ (j : Nat) (p : Point K), start ≤ j → j < stop → data[j]? = some p →
      ∃ h : j - start < ((data.take stop).drop start).length, ((data.take stop).drop start)[j - start] = p := by
    intro j p hlow hhigh hp
    refine ⟨by omega, ?_⟩
    rw [List.getElem_drop, List.getElem_take]
    obtain ⟨hj, hp⟩ := List.getElem?_eq_some_iff.mp hp
    rw [← hp]
    congr 1
    omega
  obtain ⟨_, hall⟩ | ⟨k, hk, heq, _, hall, hfirst⟩ :=
    largest_spec a c ((data.take stop).drop start) start start (Scalar.ofInt (-1))
  . -- an area is not negative
    have hne : (data.take stop).drop start ≠ [] := List.ne_nil_of_length_pos (by omega)
    have hneg := hall _ (List.head_mem hne)
    have hnonneg : 0 ≤ triangleArea a (((data.take stop).drop start).head hne) c := by
      rw [triangleArea_exact]
      exact abs_nonneg _
    rw [ofInt_exact, Int.cast_neg, Int.cast_one] at hneg
    exact absurd (hnonneg.trans hneg) (by norm_num)
  . refine ⟨start + k, ?_, by omega, by omega, ?_, ?_⟩
    . rw [heq, Nat.cast_add]
    . intro q hq j p hlow hhigh hp
      obtain ⟨_, hq⟩ := helem (start + k) q (by omega) (by omega) hq
      obtain ⟨hj, hp⟩ := helem j p hlow hhigh hp
      simp only [Nat.add_sub_cancel_left] at hq
      rw [← hp, ← hq]
      exact hall _ (List.getElem_mem hj)
    . intro q hq j p hlow hhigh hp
      obtain ⟨_, hq⟩ := helem (start + k) q (by omega) (by omega) hq
      obtain ⟨_, hp⟩ := helem j p hlow (by omega) hp
      simp only [Nat.add_sub_cancel_left] at hq
      rw [← hp, ← hq]
      exact hfirst _ (by omega)

end Choice

section Structure

variable [IsStrictOrderedRing K] {data : List (Point K)} {N T i : Nat}

abbrev every (N T : Nat) : K :=
  Scalar.div (Scalar.ofInt N) (Scalar.ofInt T)

theorem exists_bucket (hdata : data.length = N + 2) (hT : 0 < T) (hle : T ≤ N) (hi : i < T) (a : Point K)
    : ∃ (best : Nat) (c : Point K), bucket data (every N T) i a = some (best : Int) ∧ IsVertex data N T i c
      ∧ FirstLargest data a c (border N T i) (border N T (i + 1)) best := by
  have hlt := border_lt_succ hT hle i
  have hlt' : border N T (i + 1) < border N T (i + 2) := border_lt_succ hT hle (i + 1)
  have hlast : border N T (i + 1) ≤ N + 1 := border_last (N := N) hT ▸ border_mono hi
  have hne : data ≠ [] := List.ne_nil_of_length_pos (by omega)
  generalize hvertex : average (data.getLast hne)
    ((data.take (min (border N T (i + 2)) data.length)).drop (border N T (i + 1))) = c
  obtain ⟨best, hbest, hfirst⟩ := firstLargest_of_slice (a := a) (c := c) hlt (by omega : _ ≤ data.length)
  refine ⟨best, c, ?_, ?_, hfirst⟩
  . unfold bucket every
    dsimp only
    rw [cell_exact, cell_exact, cell_exact]
    have hstop : min ((border N T (i + 2) : Nat) : Int) data.length
        = ((min (border N T (i + 2)) data.length : Nat) : Int) := (Nat.cast_min _ _).symm
    have hstop' : min ((border N T (i + 1) : Nat) : Int) ((data.length : Int) - 1) = (border N T (i + 1) : Nat) := by
      omega
    rw [hstop, hstop', slice_eq (by omega) (by omega), slice_eq hlt (by omega),
      List.getLast?_eq_some_getLast hne]
    change some (largest a (average (data.getLast hne) _) _ _ _ _) = _
    rw [hvertex, hbest]
  . unfold IsVertex
    rw [average_exact, if_neg] at hvertex
    . by_cases hend : i + 1 = T
      . -- what is left of the next bucket is the last point
        rw [if_pos hend, ← hvertex]
        have hafter := border_after hT hle
        have hnext : i + 2 = T + 1 := by omega
        rw [hend, hnext, border_last hT, Nat.min_eq_right (by omega), List.take_length]
        have hsingle : data.drop (N + 1) = [data[N + 1]] := by
          rw [List.drop_eq_getElem_cons (by omega), List.drop_eq_nil_of_le (by omega)]
        rw [hsingle, List.getElem?_eq_getElem (by omega)]
        unfold centroid
        simp
      . rw [if_neg hend, ← hvertex]
        have hnext : border N T (i + 2) ≤ N + 1 := border_last (N := N) hT ▸ border_mono (by omega)
        rw [Nat.min_eq_left (by omega)]
    . apply List.ne_nil_of_length_pos
      rw [List.length_drop, List.length_take]
      omega

theorem exists_buckets (hdata : data.length = N + 2) (hT : 0 < T) (hle : T ≤ N) (left : Nat)
    (hi : i + left = T) {prev : Nat} {a : Point K} (ha : data[prev]? = some a)
    : ∃ inner, buckets data (every N T) left i a = some inner ∧ inner.length = left
      ∧ inner.Pairwise (· < ·) ∧ (∀ j ∈ inner, border N T i ≤ j ∧ j < N + 1)
      ∧ ∀ k < left, ∀ u v, (prev :: inner)[k]? = some u → (prev :: inner)[k + 1]? = some v →
        ∃ b c, data[u]? = some b ∧ IsVertex data N T (i + k) c
          ∧ FirstLargest data b c (border N T (i + k)) (border N T (i + k + 1)) v := by
  induction left generalizing i prev a with
  | zero => exact ⟨[], rfl, rfl, List.Pairwise.nil, nofun, nofun⟩
  | succ left ih =>
    obtain ⟨best, c, hbest, hvertex, hfirst⟩ := exists_bucket hdata hT hle (by omega : i < T) a
    have hlast : border N T (i + 1) ≤ N + 1 := border_last (N := N) hT ▸ border_mono (by omega)
    have hstart := hfirst.start_le
    have hstop := hfirst.lt_stop
    have hin : best < data.length := by omega
    obtain ⟨rest, hrest, hlength, hpairwise, hmem, hchosen⟩ :=
      ih (i := i + 1) (by omega) (List.getElem?_eq_getElem hin)
    refine ⟨best :: rest, ?_, ?_, ?_, ?_, ?_⟩
    . refine Option.bind_eq_some_iff.mpr ⟨_, hbest, Option.bind_eq_some_iff.mpr ⟨best, ?_,
        Option.bind_eq_some_iff.mpr ⟨_, List.getElem?_eq_getElem hin,
          Option.bind_eq_some_iff.mpr ⟨rest, hrest, rfl⟩⟩⟩⟩
      exact if_pos (Int.natCast_nonneg best)
    . rw [List.length_cons, hlength]
    . refine List.pairwise_cons.mpr ⟨fun j hj => ?_, hpairwise⟩
      exact Nat.lt_of_lt_of_le hstop (hmem j hj).1
    . refine List.forall_mem_cons.mpr ⟨⟨hstart, by omega⟩, fun j hj => ?_⟩
      have h := hmem j hj
      omega
    . intro k hk u v hu hv
      cases k with
      | zero =>
        cases Option.some.inj hu
        cases Option.some.inj hv
        exact ⟨a, c, ha, hvertex, hfirst⟩
      | succ k =>
        have h := hchosen k (by omega) u v hu hv
        rwa [Nat.add_assoc i 1 k, Nat.add_comm 1 k] at h

theorem exists_selected {threshold : Int} (hlow : 3 ≤ threshold) (hhigh : threshold < data.length)
    : ∃ idx, selected data threshold = some idx
      ∧ Sampled data (data.length - 2) (threshold.toNat - 2) idx := by
  obtain ⟨T, hT⟩ := Int.eq_ofNat_of_zero_le (by omega : 0 ≤ threshold - 2)
  obtain ⟨N, hN⟩ : ∃ N, data.length = N + 2 := ⟨data.length - 2, by omega⟩
  have hne : data ≠ [] := List.ne_nil_of_length_pos (by omega)
  have hhead : data[0]? = some (data.head hne) := by
    rw [← List.head?_eq_getElem?, List.head?_eq_some_head hne]
  obtain ⟨inner, hinner, hlength, hpairwise, hmem, hchosen⟩ :=
    exists_buckets hN (by omega : 0 < T) (by omega : T ≤ N) T (Nat.zero_add T) hhead
  have hTt : threshold.toNat - 2 = T := by omega
  have hNn : data.length - 2 = N := by omega
  rw [hTt, hNn]
  -- the indices but the last one
  have hget : ∀ i ≤ T, (0 :: (inner ++ [N + 1]))[i]? = (0 :: inner)[i]? := by
    intro i hi
    rw [← List.cons_append, List.getElem?_append_left (by rw [List.length_cons]; omega)]
  refine ⟨0 :: (inner ++ [N + 1]), ?_, ?_, rfl, ?_, ?_, ?_⟩
  . refine Option.bind_eq_some_iff.mpr ⟨_, List.head?_eq_some_head hne,
      Option.bind_eq_some_iff.mpr ⟨inner, ?_, by rw [hN]; rfl⟩⟩
    have hsub : (data.length : Int) - 2 = N := by omega
    rw [hT, hsub, Int.toNat_natCast]
    exact hinner
  . rw [List.length_cons, List.length_append, hlength, List.length_singleton]
  . rw [List.getElem?_cons_succ, List.getElem?_append_right (by omega), hlength, Nat.sub_self]
    rfl
  . refine List.pairwise_cons.mpr ⟨fun j hj => ?_, List.pairwise_append.mpr
      ⟨hpairwise, List.pairwise_singleton _ _, fun j hj k hk => ?_⟩⟩
    . obtain hj | hj := List.mem_append.mp hj
      . exact Nat.lt_of_lt_of_le Nat.one_pos (Nat.le_trans one_le_border (hmem j hj).1)
      . rw [List.mem_singleton.mp hj]
        exact Nat.succ_pos N
    . rw [List.mem_singleton.mp hk]
      exact (hmem j hj).2
  . intro i hi u v hu hv
    rw [hget i (by omega)] at hu
    rw [hget (i + 1) (by omega)] at hv
    have h := hchosen i hi u v hu hv
    rwa [Nat.zero_add] at h

omit [Field K] [LinearOrder K] [FloorRing K] [IsStrictOrderedRing K] in
theorem mapM_getElem? {idx : List Nat} (h : ∀ j ∈ idx, j < data.length)
    : ∃ out, idx.mapM (data[·]?) = some out ∧ idx.map (data[·]?) = out.map some := by
  induction idx with
  | nil => exact ⟨[], rfl, rfl⟩
  | cons j idx ih =>
    obtain ⟨hj, hidx⟩ := List.forall_mem_cons.mp h
    obtain ⟨out, hrun, hout⟩ := ih hidx
    refine ⟨data[j] :: out, ?_, ?_⟩
    . rw [List.mapM_cons, hrun, List.getElem?_eq_getElem hj]
      rfl
    . rw [List.map_cons, hout, List.getElem?_eq_getElem hj, List.map_cons]

omit [IsStrictOrderedRing K] in
theorem Sampled.lt_length {idx : List Nat} (h : Sampled data N T idx) : ∀ j ∈ idx, j ≤ N + 1 := by
  intro j hj
  obtain ⟨i, hi, rfl⟩ := List.getElem_of_mem hj
  have hlength := h.length
  obtain ⟨hlt, hlast⟩ := List.getElem?_eq_some_iff.mp h.last
  obtain rfl | hne := Nat.eq_or_lt_of_le (by omega : i ≤ T + 1)
  . exact hlast.le
  . exact (List.pairwise_iff_getElem.mp h.increasing _ _ hi hlt hne).le.trans hlast.le

/--
A series of more points than the threshold is reduced to the first point, the last point and the first largest
one of each bucket in between. No index outside of the series is read.
-/
theorem downsample_sampled (data : List (Point K)) {threshold : Int} (hlow : 3 ≤ threshold)
    (hhigh : threshold < data.length)
    : border (data.length - 2) (threshold.toNat - 2) 0 = 1
      ∧ border (data.length - 2) (threshold.toNat - 2) (threshold.toNat - 2) = data.length - 1
      ∧ (∀ i, border (data.length - 2) (threshold.toNat - 2) i < border (data.length - 2) (threshold.toNat - 2) (i + 1))
      ∧ ∃ idx out, Downsample data threshold = some out ∧ idx.map (data[·]?) = out.map some
        ∧ (out.length : Int) = threshold
        ∧ Sampled data (data.length - 2) (threshold.toNat - 2) idx := by
  obtain ⟨idx, hselected, hsampled⟩ := exists_selected hlow hhigh
  have hbounds : ∀ j ∈ idx, j < data.length := by
    intro j hj
    have h := hsampled.lt_length j hj
    omega
  obtain ⟨out, hrun, hout⟩ := mapM_getElem? hbounds
  refine ⟨border_zero, ?_, border_lt_succ (by omega) (by omega), idx, out, ?_, hout, ?_, hsampled⟩
  . rw [border_last (by omega)]
    omega
  . unfold Downsample
    rw [if_neg (by omega), hselected]
    exact hrun
  . have hlength := congrArg List.length hout
    rw [List.length_map, List.length_map, hsampled.length] at hlength
    omega

theorem downsample_sampled_four
    : ∃ idx out, Downsample [(⟨0, 0⟩ : Point ℚ), ⟨1, 5⟩, ⟨2, 1⟩, ⟨3, 0⟩] 3 = some out
      ∧ Sampled [(⟨0, 0⟩ : Point ℚ), ⟨1, 5⟩, ⟨2, 1⟩, ⟨3, 0⟩] 2 1 idx ∧ (out.length : Int) = 3 := by
  obtain ⟨_, _, _, idx, out, hout, _, hlength, hsampled⟩ :=
    downsample_sampled [(⟨0, 0⟩ : Point ℚ), ⟨1, 5⟩, ⟨2, 1⟩, ⟨3, 0⟩] (show (3 : Int) ≤ 3 by decide) (by decide)
  exact ⟨idx, out, hout, hsampled, hlength⟩

end Structure

section Spike

variable [IsStrictOrderedRing K] {data : List (Point K)} {N T i s : Nat} {c : K}

/--
All points but the one at `s` have the height `c`.
-/
def FlatBut (data : List (Point K)) (s : Nat) (c : K) : Prop :=
  ∀ j q, j ≠ s → data[j]? = some q → q.y = c

theorem exists_bucket_of {m : Nat} (hs : 1 ≤ s) (hm : s < border N T m)
    : ∃ i < m, border N T i ≤ s ∧ s < border N T (i + 1) := by
  induction m with
  | zero =>
    rw [border_zero] at hm
    omega
  | succ m ih =>
    by_cases hlt : s < border N T m
    . obtain ⟨i, hi, h⟩ := ih hlt
      exact ⟨i, Nat.lt_succ_of_lt hi, h⟩
    . exact ⟨m, Nat.lt_succ_self m, Nat.not_lt.mp hlt, hm⟩

omit [IsStrictOrderedRing K] in
theorem centroid_y {next : List (Point K)} (hne : next ≠ []) (h : ∀ q ∈ next, q.y = c)
    : (centroid next).y = c := by
  have hlength : (next.length : K) ≠ 0 := Nat.cast_ne_zero.mpr (List.length_pos_iff.mpr hne).ne'
  have hmap : next.map (·.y) = List.replicate next.length c :=
    List.eq_replicate_iff.mpr ⟨List.length_map _, fun y hy => by
      obtain ⟨q, hq, rfl⟩ := List.mem_map.mp hy
      exact h q hq⟩
  unfold centroid
  dsimp only
  rw [hmap, List.sum_replicate, nsmul_eq_mul, mul_div_cancel_left₀ c hlength]

omit [FloorRing K] in
theorem le_centroid_x {next : List (Point K)} (hne : next ≠ []) {x : K} (h : ∀ q ∈ next, x ≤ q.x)
    : x ≤ (centroid next).x := by
  have hlength : (0 : K) < next.length := Nat.cast_pos.mpr (List.length_pos_iff.mpr hne)
  have hsum := List.card_nsmul_le_sum (next.map (·.x)) x fun y hy => by
    obtain ⟨q, hq, rfl⟩ := List.mem_map.mp hy
    exact h q hq
  rw [List.length_map, nsmul_eq_mul] at hsum
  unfold centroid
  dsimp only
  rwa [le_div_iff₀ hlength, mul_comm]

theorem vertex_flat (hdata : data.length = N + 2) (hT : 0 < T) (hle : T ≤ N) (hi : i < T)
    (hx : data.Pairwise fun p q => p.x < q.x) (hflat : FlatBut data s c) (hs : s < border N T (i + 1))
    {v : Point K} (hv : IsVertex data N T i v) {u : Nat} {a : Point K} (hu : u < border N T (i + 1))
    (ha : data[u]? = some a)
    : a.x < v.x ∧ v.y = c := by
  have hbefore : ∀ (j : Nat) (q : Point K), border N T (i + 1) ≤ j → data[j]? = some q → a.x < q.x := by
    intro j q hj hq
    obtain ⟨hu', rfl⟩ := List.getElem?_eq_some_iff.mp ha
    obtain ⟨hj', rfl⟩ := List.getElem?_eq_some_iff.mp hq
    exact List.pairwise_iff_getElem.mp hx _ _ hu' hj' (by omega)
  unfold IsVertex at hv
  by_cases hend : i + 1 = T
  . rw [if_pos hend] at hv
    rw [hend, border_last hT] at hs hbefore
    exact ⟨hbefore _ _ le_rfl hv, hflat _ _ (by omega) hv⟩
  . rw [if_neg hend] at hv
    have hlt : border N T (i + 1) < border N T (i + 2) := border_lt_succ hT hle (i + 1)
    have hlast : border N T (i + 2) ≤ N + 1 := border_last (N := N) hT ▸ border_mono (by omega)
    have hne : (data.take (border N T (i + 2))).drop (border N T (i + 1)) ≠ [] := by
      apply List.ne_nil_of_length_pos
      rw [List.length_drop, List.length_take]
      omega
    have hmem : ∀ q ∈ (data.take (border N T (i + 2))).drop (border N T (i + 1)),
        ∃ j, border N T (i + 1) ≤ j ∧ data[j]? = some q := by
      intro q hq
      obtain ⟨k, hk, rfl⟩ := List.getElem_of_mem hq
      refine ⟨border N T (i + 1) + k, Nat.le_add_right _ _, ?_⟩
      rw [List.getElem_drop, List.getElem_take, List.getElem?_eq_getElem]
    rw [hv]
    constructor
    . have hin : border N T (i + 1) < data.length := by omega
      have hfirst := hbefore _ _ le_rfl (List.getElem?_eq_getElem hin)
      apply hfirst.trans_le
      apply le_centroid_x hne
      intro q hq
      obtain ⟨j, hj, hq⟩ := hmem q hq
      obtain ⟨hj', rfl⟩ := List.getElem?_eq_some_iff.mp hq
      obtain heq | hne := hj.eq_or_lt
      . simp only [heq, le_refl]
      . exact (List.pairwise_iff_getElem.mp hx _ _ hin hj' hne).le
    . apply centroid_y hne
      intro q hq
      obtain ⟨j, hj, hq⟩ := hmem q hq
      exact hflat j q (by omega) hq

theorem triangleArea_flat {a b v : Point K} (ha : a.y = c) (hv : v.y = c)
    : triangleArea a b v = |a.x - v.x| * |b.y - c| := by
  rw [triangleArea_exact, ha, hv, sub_self, mul_zero, sub_zero, abs_mul]

theorem spike_mem_selected {p : Point K} {idx : List Nat} (hdata : data.length = N + 2) (hT : 0 < T) (hle : T ≤ N)
    (hsampled : Sampled data N T idx) (hx : data.Pairwise fun p q => p.x < q.x) (hs : data[s]? = some p)
    (hspike : p.y ≠ c) (hflat : FlatBut data s c)
    : s ∈ idx := by
  have hlt : s < data.length := (List.getElem?_eq_some_iff.mp hs).1
  by_cases hfirst : s = 0
  . exact hfirst ▸ List.mem_of_getElem? hsampled.first
  by_cases hlast : s = N + 1
  . exact hlast ▸ List.mem_of_getElem? hsampled.last
  obtain ⟨i, hi, hge, hnext⟩ := exists_bucket_of (N := N) (T := T) (m := T) (s := s) (by omega)
    (by rw [border_last hT]; omega)
  have hlength := hsampled.length
  obtain ⟨u, hu⟩ : ∃ u, idx[i]? = some u := ⟨_, List.getElem?_eq_getElem (by omega)⟩
  obtain ⟨w, hw⟩ : ∃ w, idx[i + 1]? = some w := ⟨_, List.getElem?_eq_getElem (by omega)⟩
  -- what was chosen before is before the bucket
  have hbefore : u < border N T i := by
    cases i with
    | zero =>
      have hzero := hsampled.first
      rw [hu] at hzero
      cases Option.some.inj hzero
      rw [border_zero]
      exact Nat.one_pos
    | succ i =>
      obtain ⟨t, ht⟩ : ∃ t, idx[i]? = some t := ⟨_, List.getElem?_eq_getElem (by omega)⟩
      obtain ⟨_, _, _, _, h⟩ := hsampled.chosen i (by omega) t u ht hu
      exact h.lt_stop
  obtain ⟨a, v, ha, hv, h⟩ := hsampled.chosen i hi u w hu hw
  obtain ⟨hax, hvy⟩ := vertex_flat hdata hT hle hi hx hflat hnext hv (by omega) ha
  have hay := hflat u a (by omega) ha
  by_cases hws : w = s
  . exact hws ▸ List.mem_of_getElem? hw
  . have hin : w < data.length := by
      have hwlt := h.lt_stop
      have hend : border N T (i + 1) ≤ N + 1 := border_last (N := N) hT ▸ border_mono hi
      omega
    have hq := hflat w _ hws (List.getElem?_eq_getElem hin)
    have hmax := h.largest _ (List.getElem?_eq_getElem hin) s p hge hnext hs
    rw [triangleArea_flat hay hvy, triangleArea_flat hay hvy, hq, sub_self, abs_zero, mul_zero] at hmax
    have hpos : 0 < |a.x - v.x| * |p.y - c| :=
      mul_pos (abs_pos.mpr (sub_ne_zero.mpr hax.ne)) (abs_pos.mpr (sub_ne_zero.mpr hspike))
    exact absurd hmax (not_le.mpr hpos)

/--
A lone spike is kept, wherever it is.
-/
theorem spike_mem_downsample {p : Point K} {threshold : Int} (hlow : 3 ≤ threshold)
    (hx : data.Pairwise fun p q => p.x < q.x) (hs : data[s]? = some p) (hspike : p.y ≠ c)
    (hflat : FlatBut data s c)
    : ∃ out, Downsample data threshold = some out ∧ p ∈ out := by
  unfold Downsample
  by_cases hshort : threshold ≥ data.length ∨ threshold < 3
  . rw [if_pos hshort]
    exact ⟨data, rfl, List.mem_of_getElem? hs⟩
  . rw [if_neg hshort]
    obtain ⟨idx, hselected, hsampled⟩ := exists_selected hlow (by omega : threshold < data.length)
    have hbounds : ∀ j ∈ idx, j < data.length := by
      intro j hj
      have h := hsampled.lt_length j hj
      omega
    obtain ⟨out, hrun, hout⟩ := mapM_getElem? hbounds
    refine ⟨out, ?_, ?_⟩
    . rw [hselected]
      exact hrun
    . have hmem := spike_mem_selected (by omega) (by omega) (by omega) hsampled hx hs hspike hflat
      have hsome : some p ∈ out.map some := by
        rw [← hout, ← hs]
        exact List.mem_map_of_mem hmem
      obtain ⟨q, hq, heq⟩ := List.mem_map.mp hsome
      exact Option.some.inj heq ▸ hq

theorem spike_mem_downsample_four
    : ∃ out, Downsample [(⟨0, 2⟩ : Point ℚ), ⟨1, 2⟩, ⟨2, 5⟩, ⟨3, 2⟩] 3 = some out ∧ ⟨2, 5⟩ ∈ out := by
  have hflat : FlatBut [(⟨0, 2⟩ : Point ℚ), ⟨1, 2⟩, ⟨2, 5⟩, ⟨3, 2⟩] 2 2 := by
    rintro (_ | _ | _ | _ | j) q hj hq
    . exact (congrArg Point.y (Option.some.inj hq)).symm
    . exact (congrArg Point.y (Option.some.inj hq)).symm
    . exact absurd rfl hj
    . exact (congrArg Point.y (Option.some.inj hq)).symm
    . nomatch hq
  exact spike_mem_downsample (s := 2) (by decide) (by decide +kernel) rfl (by decide +kernel) hflat

end Spike

end Over
end Lttb
end Api
