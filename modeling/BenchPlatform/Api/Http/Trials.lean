import BenchPlatform.Api.Http.Analytics
import BenchPlatform.Api.Lttb
import BenchPlatform.Api.Model.Timestamp

/-!
This module contains the response of the trials endpoint: how a long series is downsampled, and how the
points that are left are mapped back to their rows.
-/

namespace Api
namespace Http

open Model

/--
A row of `Trials`. The trial comes from an `integer` column.
-/
structure TrialPoint where
  trial : Int
  value : Float64
  recordedAt : Time
  trial_bounds : -2 ^ 31 ≤ trial ∧ trial < 2 ^ 31
  deriving DecidableEq

structure TrialsResponse where
  machineID : Bytes
  metric : Bytes
  unit : String
  n : Nat
  downsample : Bytes
  points : List (Int × Float64 × String)

def padded (width n : Nat) : String :=
  let digits := (toString n).toList
  String.ofList (.replicate (width - digits.length) '0' ++ digits)

/--
`Format("2006-01-02T15:04:05.000000Z")` of a time in UTC.
-/
def formatMicros (t : Time) : String :=
  padded 4 t.year ++ "-" ++ padded 2 t.month ++ "-" ++ padded 2 t.day ++ "T" ++ padded 2 t.hour ++ ":"
    ++ padded 2 t.minute ++ ":" ++ padded 2 t.second ++ "." ++ padded 6 (t.nanosecond / 1000) ++ "Z"

def TrialPoint.row (p : TrialPoint) : Int × Float64 × String :=
  (p.trial, p.value, formatMicros p.recordedAt)

def series (points : List TrialPoint) : List Lttb.Point :=
  points.map fun p => { x := .ofInt p.trial, y := p.value }

def TrialPoint.isAt (x : Float64) (p : TrialPoint) : Bool :=
  (Float64.ofInt p.trial).eq x

/--
The first index from `j` on with a row at `x`, or the length.
-/
def seek (array : List TrialPoint) (x : Float64) (j : Nat) : Nat :=
  j + ((array.drop j).takeWhile fun p => !p.isAt x).length

/--
The rows that are found for the survivors. They are written over the first rows of the array that the
search goes on in.
-/
def survivors : List Lttb.Point → List TrialPoint → Nat → Nat → List TrialPoint
  | [], array, k, _ => array.take k
  | p :: out, array, k, j =>
    let j := seek array p.x j
    match array[j]? with
    | some row => survivors out (array.set k row) (k + 1) (j + 1)
    | none => survivors out array k j

/--
`none` is a panic.
-/
def buildTrialsResponse (f : MeasurementFilter) (points : List TrialPoint) (threshold : Int)
    (downsample : Bytes)
    : Option TrialsResponse := do
  let downsampled := 0 < threshold ∧ threshold < points.length
  let keep ←
    if downsampled then
      (Lttb.Downsample (series points) threshold).map fun out => survivors out points 0 0
    else
      some points
  return {
    machineID := f.machineID
    metric := f.metric
    unit := ((UnitOf.find? fun u => ascii u.1 = f.metric).map (·.2)).getD ""
    n := keep.length
    downsample := if downsampled then downsample else []
    points := keep.map (·.row) }

/--
The rows that are found for a list of `x` values in what is left of the rows.
-/
def matched : List Float64 → List TrialPoint → List TrialPoint
  | [], _ => []
  | x :: xs, rest =>
    match rest.dropWhile fun p => !p.isAt x with
    | [] => matched xs []
    | row :: rest => row :: matched xs rest

section Survivors

variable {array points : List TrialPoint} {x : Float64} {j k : Nat}

theorem drop_seek : array.drop (seek array x j) = (array.drop j).dropWhile fun p => !p.isAt x := by
  unfold seek
  rw [← List.drop_drop]
  generalize array.drop j = rest
  generalize (fun p : TrialPoint => !p.isAt x) = p
  calc
    rest.drop (rest.takeWhile p).length
      = (rest.takeWhile p ++ rest.dropWhile p).drop (rest.takeWhile p).length := by
        rw [List.takeWhile_append_dropWhile]
    _ = rest.dropWhile p := List.drop_left

theorem survivors_eq (out : List Lttb.Point) (hkj : k ≤ j)
    : survivors out array k j = array.take k ++ matched (out.map (·.x)) (array.drop j) := by
  induction out generalizing array k j with
  | nil => simp [survivors, matched]
  | cons p out ih =>
    unfold survivors
    rw [List.map_cons, matched, ← drop_seek]
    have hle : j ≤ seek array p.x j := Nat.le_add_right _ _
    generalize seek array p.x j = j' at hle
    cases hrow : array[j']? with
    | none =>
      have hdrop := List.drop_eq_nil_iff.mpr (List.getElem?_eq_none_iff.mp hrow)
      simp only [hrow, hdrop, ih (hkj.trans hle)]
    | some row =>
      obtain ⟨hlt, hget⟩ := List.getElem?_eq_some_iff.mp hrow
      have hk : k < (array.set k row).length := by
        rw [List.length_set]
        omega
      simp only [hrow, List.drop_eq_getElem_cons hlt, hget]
      rw [ih (by omega), List.drop_set_of_lt (by omega), List.take_succ_eq_append_getElem hk,
        List.getElem_set_self, List.take_set_of_le le_rfl, List.append_assoc]
      rfl

end Survivors

section Matched

variable {points : List TrialPoint} {idx : List Nat} {a b : Nat}

/--
There is no row between two selected ones with the trial number of the later one.
-/
def FirstOfTrial (points : List TrialPoint) (a b : Nat) : Prop :=
  ∀ m, a < m → m < b → (points[m]?).map (·.trial) ≠ (points[b]?).map (·.trial)

theorem isAt_iff {p q : TrialPoint} : p.isAt (.ofInt q.trial) ↔ p.trial = q.trial := by
  obtain ⟨trial, _, _, hlow, hhigh⟩ := p
  obtain ⟨trial', _, _, hlow', hhigh'⟩ := q
  unfold TrialPoint.isAt
  dsimp only
  rw [Float64.eq_ofInt (by omega) (by omega), decide_eq_true_eq]

theorem firstOfTrial_succ : FirstOfTrial points a (a + 1) := by
  intro m ham hm
  omega

theorem firstOfTrial_iff (hab : a + 1 < b)
    : FirstOfTrial points a b
      ↔ (points[a + 1]?).map (·.trial) ≠ (points[b]?).map (·.trial) ∧ FirstOfTrial points (a + 1) b := by
  constructor
  . intro h
    exact ⟨h (a + 1) (Nat.lt_succ_self a) hab, fun m ham => h m (Nat.lt_of_succ_lt ham)⟩
  . rintro ⟨hne, h⟩ m ham hm
    obtain rfl | hlt := Nat.eq_or_lt_of_le (Nat.succ_le_of_lt ham)
    . exact hne
    . exact h m hlt hm

theorem exists_found (hab : a < b) (hb : b < points.length)
    : ∃ g, ∃ _ : g < points.length,
        (points.drop (a + 1)).dropWhile (fun p => !p.isAt (.ofInt points[b].trial)) = points.drop g
        ∧ (FirstOfTrial points a b ↔ g = b) := by
  induction hd : b - (a + 1) generalizing a with
  | zero =>
    obtain rfl : b = a + 1 := by omega
    refine ⟨a + 1, hb, ?_, iff_of_true firstOfTrial_succ rfl⟩
    rw [List.drop_eq_getElem_cons hb, List.dropWhile_cons_of_neg]
    rw [Bool.not_eq_true', Bool.not_eq_false]
    exact isAt_iff.mpr rfl
  | succ d ih =>
    have ha : a + 1 < points.length := by omega
    have hiff : (points[a + 1]?).map (·.trial) ≠ (points[b]?).map (·.trial)
        ↔ points[a + 1].trial ≠ points[b].trial := by
      rw [List.getElem?_eq_getElem ha, List.getElem?_eq_getElem hb]
      exact not_congr Option.some_inj
    rw [firstOfTrial_iff (by omega), hiff, List.drop_eq_getElem_cons ha]
    by_cases heq : points[a + 1].trial = points[b].trial
    . refine ⟨a + 1, ha, ?_, iff_of_false (fun h => h.1 heq) (by omega)⟩
      rw [List.dropWhile_cons_of_neg, List.drop_eq_getElem_cons ha]
      rw [Bool.not_eq_true', Bool.not_eq_false]
      exact isAt_iff.mpr heq
    . obtain ⟨g, hg, hfound, hfirst⟩ := ih (a := a + 1) (by omega) (by omega)
      refine ⟨g, hg, ?_, ?_⟩
      . rw [List.dropWhile_cons_of_pos, hfound]
        rw [Bool.not_eq_true', ← Bool.not_eq_true]
        exact mt isAt_iff.mp heq
      . rw [← hfirst]
        exact and_iff_right heq

def rowsAt (points : List TrialPoint) (idx : List Nat) : List TrialPoint :=
  idx.filterMap (points[·]?)

theorem rowsAt_cons (idx : List Nat) (hb : b < points.length)
    : rowsAt points (b :: idx) = points[b] :: rowsAt points idx :=
  List.filterMap_cons_some (List.getElem?_eq_getElem hb)

def xs (points : List TrialPoint) (idx : List Nat) : List Float64 :=
  (rowsAt points idx).map fun p => .ofInt p.trial

theorem matched_cons (idx : List Nat) (hab : a < b) (hb : b < points.length)
    : ∃ g, ∃ _ : g < points.length,
        matched (xs points (b :: idx)) (points.drop (a + 1))
          = points[g] :: matched (xs points idx) (points.drop (g + 1))
        ∧ (FirstOfTrial points a b ↔ g = b) := by
  obtain ⟨g, hg, hfound, hfirst⟩ := exists_found hab hb
  refine ⟨g, hg, ?_, hfirst⟩
  unfold xs
  rw [rowsAt_cons _ hb, List.map_cons, matched, hfound, List.drop_eq_getElem_cons hg]

theorem matched_eq (hasc : (a :: idx).Pairwise (· < ·)) (hlt : ∀ i ∈ idx, i < points.length)
    (hchain : (a :: idx).IsChain (FirstOfTrial points))
    : matched (xs points idx) (points.drop (a + 1)) = rowsAt points idx := by
  induction idx generalizing a with
  | nil => rfl
  | cons b idx ih =>
    have hb := hlt b (List.mem_cons_self)
    obtain ⟨hfirst, hchain⟩ := List.isChain_cons_cons.mp hchain
    obtain ⟨hlt', hasc⟩ := List.pairwise_cons.mp hasc
    obtain ⟨g, hg, hmatched, hiff⟩ := matched_cons idx (hlt' b List.mem_cons_self) hb
    obtain rfl := hiff.mp hfirst
    rw [hmatched, rowsAt_cons _ hb, ih hasc (fun i hi => hlt i (List.mem_cons_of_mem _ hi)) hchain]

theorem chain_of_matched (hasc : (a :: idx).Pairwise (· < ·)) (hlt : ∀ i ∈ idx, i < points.length)
    (hnodup : (points.map (·.row)).Nodup)
    (h : (matched (xs points idx) (points.drop (a + 1))).map (·.row) = (rowsAt points idx).map (·.row))
    : (a :: idx).IsChain (FirstOfTrial points) := by
  induction idx generalizing a with
  | nil => exact List.isChain_singleton a
  | cons b idx ih =>
    have hb := hlt b (List.mem_cons_self)
    obtain ⟨hlt', hasc⟩ := List.pairwise_cons.mp hasc
    obtain ⟨g, hg, hmatched, hiff⟩ := matched_cons idx (hlt' b List.mem_cons_self) hb
    rw [hmatched, rowsAt_cons _ hb, List.map_cons, List.map_cons] at h
    obtain ⟨hrow, h⟩ := List.cons.inj h
    have hgb : g = b := by
      have hg' : g < (points.map (·.row)).length := by rwa [List.length_map]
      have hb' : b < (points.map (·.row)).length := by rwa [List.length_map]
      have hget : (points.map (·.row))[g] = (points.map (·.row))[b] := by
        rw [List.getElem_map, List.getElem_map]
        exact hrow
      exact hnodup.getElem_inj_iff.mp hget
    refine List.isChain_cons_cons.mpr ⟨hiff.mpr hgb, ?_⟩
    rw [hgb] at h
    exact ih hasc (fun i hi => hlt i (List.mem_cons_of_mem _ hi)) h

theorem length_rowsAt (hlt : ∀ i ∈ idx, i < points.length) : (rowsAt points idx).length = idx.length := by
  induction idx with
  | nil => rfl
  | cons b idx ih =>
    rw [rowsAt_cons _ (hlt b List.mem_cons_self), List.length_cons, List.length_cons,
      ih fun i hi => hlt i (List.mem_cons_of_mem _ hi)]

theorem mapM_series (points : List TrialPoint) (idx : List Nat) (hlt : ∀ i ∈ idx, i < points.length)
    : ∃ out, idx.mapM ((series points)[·]?) = some out ∧ out.map (·.x) = xs points idx := by
  induction idx with
  | nil => exact ⟨[], rfl, rfl⟩
  | cons b idx ih =>
    have hb := hlt b List.mem_cons_self
    obtain ⟨out, hout, hxs⟩ := ih fun i hi => hlt i (List.mem_cons_of_mem _ hi)
    have hget : (series points)[b]? = some { x := .ofInt points[b].trial, y := points[b].value } := by
      rw [series, List.getElem?_map, List.getElem?_eq_getElem hb]
      rfl
    refine ⟨{ x := .ofInt points[b].trial, y := points[b].value } :: out, ?_, ?_⟩
    . rw [List.mapM_cons, hget, hout]
      rfl
    . rw [List.map_cons, hxs, xs, xs, rowsAt_cons _ hb, List.map_cons]

end Matched

/--
The response has the rows at some indices, as many as the threshold, with the first and the last one.
-/
structure TrialsResponse.Exact (points : List TrialPoint) (threshold : Int) (idx : List Nat)
    (r : TrialsResponse) : Prop where
  rows : r.points = (rowsAt points idx).map (·.row)
  n : r.n = threshold
  first : r.points.head? = points.head?.map (·.row)
  last : r.points.getLast? = points.getLast?.map (·.row)

/--
The response has the selected rows if between two consecutive ones of them there is no row with the trial
number of the later one. If the rows of the series are all different then it has them in no other case.
-/
theorem buildTrialsResponse_selected (f : MeasurementFilter) (points : List TrialPoint) (threshold : Int)
    (downsample : Bytes) (hlow : 3 ≤ threshold) (hhigh : threshold < points.length)
    (hlen : points.length < 2 ^ 48)
    : ∃ idx r, Lttb.selected (series points) threshold = some idx ∧ idx.Pairwise (· < ·)
        ∧ buildTrialsResponse f points threshold downsample = some r
        ∧ (idx.IsChain (FirstOfTrial points) → r.Exact points threshold idx)
        ∧ ((points.map (·.row)).Nodup → r.Exact points threshold idx →
            idx.IsChain (FirstOfTrial points)) := by
  have hseries : (series points).length = points.length := List.length_map _
  obtain ⟨inner, hselected, hinner, hasc⟩ :=
    Lttb.exists_selected hlow (by rwa [hseries]) (by rwa [hseries])
  rw [hseries] at hselected hasc
  obtain ⟨hfirst, hascTail⟩ := List.pairwise_cons.mp hasc
  have hpos : 0 < points.length := by omega
  have hlt : ∀ i ∈ inner ++ [points.length - 1], i < points.length := by
    intro i hi
    obtain hi | hi := List.mem_append.mp hi
    . have h := (List.pairwise_append.mp hascTail).2.2 i hi _ (List.mem_singleton_self _)
      omega
    . rw [List.mem_singleton.mp hi]
      omega
  obtain ⟨out, hout, hxs⟩ := mapM_series points (0 :: (inner ++ [points.length - 1]))
    (by
      intro i hi
      obtain rfl | hi := List.mem_cons.mp hi
      . exact hpos
      . exact hlt i hi)
  have hdown : Lttb.Downsample (series points) threshold = some out := by
    unfold Lttb.Downsample
    rw [if_neg (by rw [hseries]; omega)]
    exact Option.bind_eq_some_iff.mpr ⟨_, hselected, hout⟩
  have hrows := rowsAt_cons (inner ++ [points.length - 1]) hpos
  have hkeep : survivors out points 0 0
      = points[0] :: matched (xs points (inner ++ [points.length - 1])) (points.drop 1) := by
    have hself : points.dropWhile (fun p => !p.isAt (.ofInt points[0].trial)) = points := by
      rw [List.dropWhile_eq_self_iff]
      intro _
      rw [Bool.not_eq_true', Bool.not_eq_false]
      exact isAt_iff.mpr rfl
    rw [survivors_eq out le_rfl, hxs, List.drop_zero, List.take_zero, List.nil_append, xs, hrows,
      List.map_cons, matched, hself]
    cases points with
    | nil => exact absurd hpos (Nat.lt_irrefl 0)
    | cons p ps => rfl
  obtain ⟨r, hr, hpoints, hn⟩ : ∃ r, buildTrialsResponse f points threshold downsample = some r
      ∧ r.points = (survivors out points 0 0).map (·.row) ∧ r.n = (survivors out points 0 0).length := by
    unfold buildTrialsResponse
    have hif : 0 < threshold ∧ threshold < points.length := ⟨by omega, hhigh⟩
    simp only [if_pos hif, hdown]
    exact ⟨_, rfl, rfl, rfl⟩
  refine ⟨_, r, hselected, hasc, hr, ?_, ?_⟩
  . intro hchain
    rw [matched_eq hasc hlt hchain, ← hrows] at hkeep
    rw [hkeep] at hpoints hn
    constructor
    . exact hpoints
    . rw [hn, hrows, List.length_cons, length_rowsAt hlt, List.length_append, List.length_singleton]
      omega
    . rw [hpoints, hrows, List.map_cons, List.head?_cons, List.head?_eq_getElem?,
        List.getElem?_eq_getElem hpos]
      rfl
    . have hlast : (points[points.length - 1]?).map (·.row) = points.getLast?.map (·.row) := by
        rw [List.getLast?_eq_getElem?]
      have hget := List.getElem?_eq_getElem (l := points) (i := points.length - 1) (by omega)
      rw [hpoints, ← hlast, ← List.cons_append, rowsAt, List.filterMap_append,
        List.filterMap_cons_some hget, List.filterMap_nil, List.map_append, List.map_singleton,
        List.getLast?_concat, hget]
      rfl
  . intro hnodup hexact
    apply chain_of_matched hasc hlt hnodup
    have h := hpoints.symm.trans hexact.rows
    rw [hkeep, hrows, List.map_cons, List.map_cons] at h
    exact (List.cons.inj h).2

def trialsFilter : MeasurementFilter where
  machineID := ascii "m"
  metric := ascii "cpu_int_ops"
  workload := []
  threadCount := none
  workingSetBytes := none
  limit := maxTrials

def trialAt (trial second value : Nat) (h : trial < 2 ^ 31) : TrialPoint where
  trial := trial
  value := .ofInt value
  recordedAt := ⟨2026, 1, 1, 0, 0, second, 0⟩
  trial_bounds := by omega

def oneRun : List TrialPoint :=
  [trialAt 0 0 5 (by decide), trialAt 1 1 3 (by decide), trialAt 2 2 9 (by decide),
    trialAt 3 3 4 (by decide)]

theorem buildTrialsResponse_selected_run
    : ∃ idx r, Lttb.selected (series oneRun) 3 = some idx ∧ idx.Pairwise (· < ·)
        ∧ buildTrialsResponse trialsFilter oneRun 3 (ascii "lttb:3") = some r
        ∧ (idx.IsChain (FirstOfTrial oneRun) → r.Exact oneRun 3 idx)
        ∧ ((oneRun.map (·.row)).Nodup → r.Exact oneRun 3 idx → idx.IsChain (FirstOfTrial oneRun)) :=
  buildTrialsResponse_selected trialsFilter oneRun 3 (ascii "lttb:3") (by decide) (by decide) (by decide)

def fourRuns : List TrialPoint :=
  [trialAt 0 0 5 (by decide), trialAt 0 1 3 (by decide), trialAt 0 2 9 (by decide),
    trialAt 0 3 4 (by decide)]

/--
The last row is found in the third one, which has the same trial number.
-/
theorem fourRuns_not_exact
    : ∃ idx r, Lttb.selected (series fourRuns) 3 = some idx
        ∧ buildTrialsResponse trialsFilter fourRuns 3 (ascii "lttb:3") = some r
        ∧ ¬ r.Exact fourRuns 3 idx := by
  have hidx : Lttb.selected (series fourRuns) 3 = some [0, 1, 3] := by decide +kernel
  have hvalues : (buildTrialsResponse trialsFilter fourRuns 3 (ascii "lttb:3")).map
      (fun r => r.points.map (·.2.1)) = some [.ofInt 5, .ofInt 3, .ofInt 9] := by
    decide +kernel
  obtain ⟨r, hr, hpoints⟩ := Option.map_eq_some_iff.mp hvalues
  refine ⟨_, r, hidx, hr, fun h => ?_⟩
  rw [h.rows] at hpoints
  revert hpoints
  decide +kernel

end Http
end Api
