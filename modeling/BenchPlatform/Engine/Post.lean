import BenchPlatform.Api.Model.FieldOrder
import BenchPlatform.Engine.Http

/-!
This module contains the upload of a run: the envelope is posted in parts that have some of the
results each and, but for the summary, the same header. The parts are first those of the plain numbers,
then what `std::size_t` makes of them.
-/

namespace Bench

open Api Api.Model

abbrev Object := List (String × Json)

def resultsOf (j : Object) : List Json :=
  match j.find? (·.1 = "results") with
  | some (_, .arr results) => results
  | _ => []

def setResults (results : List Json) (j : Object) : Object :=
  j.map fun m => if m.1 = "results" then (m.1, .arr results) else m

def eraseSummary (j : Object) : Object :=
  j.filter fun m => m.1 ≠ "summary"

def chunkCount (total chunk : Nat) : Nat :=
  if total = 0 then 1 else (total + chunk - 1) / chunk

/--
The elements from `c * chunk` on.
-/
def slice {α : Type} (chunk c : Nat) (l : List α) : List α :=
  (l.drop (c * chunk)).take (min (c * chunk + chunk) l.length - c * chunk)

/--
The body of the request number `c`. The summary rides along with the first one only.
-/
def part (j : Object) (chunk chunks c : Nat) : Object :=
  if 1 < chunks then
    let part := setResults (slice chunk c (resultsOf j)) j
    if 0 < c then eraseSummary part else part
  else
    j

def chunkSize (total chunk_results : Nat) : Nat :=
  if chunk_results = 0 then total else chunk_results

def requestCount (total chunk : Nat) : Nat :=
  if total = 0 then 1 else size_t (total + chunk - 1) / chunk

def requestResults {α : Type} (chunk c : Nat) (l : List α) : List α :=
  let first := size_t (c * chunk)
  let last := min (size_t (first + chunk)) l.length
  (l.drop first).take (last - first)

def request (j : Object) (chunk chunks c : Nat) : Object :=
  if 1 < chunks then
    let part := setResults (requestResults chunk c (resultsOf j)) j
    if 0 < c then eraseSummary part else part
  else
    j

def post_envelope (j : Object) (chunk_results : Nat) : List Object :=
  let total := (resultsOf j).length
  let chunk := chunkSize total chunk_results
  (List.range (requestCount total chunk)).map (request j chunk (requestCount total chunk))

/--
What became of a request: whether the transport failed, and whether the status was a success.
-/
structure PostResult where
  error : Bool
  ok : Bool

/--
The bodies that are sent up to the first that the transport fails for, and the exit code.
-/
def post_all (post : Nat → PostResult) : List Object → Nat → Nat → List Object × Nat
  | [], _, rc => ([], rc)
  | body :: bodies, c, rc =>
    if (post c).error then
      ([body], 1)
    else
      let (sent, rc) := post_all post bodies (c + 1) (if (post c).ok then rc else 1)
      (body :: sent, rc)

section

variable {α β : Type} {l : List α} {chunk chunks c : Nat}

theorem mem_of_mem_slice {a : α} (h : a ∈ slice chunk c l) : a ∈ l :=
  List.mem_of_mem_drop (List.mem_of_mem_take h)

theorem lt_chunkCount {total : Nat} (hchunk : 0 < chunk) (htotal : total ≠ 0)
    : c < chunkCount total chunk ↔ c * chunk < total := by
  rw [chunkCount, if_neg htotal, Nat.lt_div_iff_mul_lt hchunk]
  omega

theorem exists_slice {a : α} (hchunk : 0 < chunk) (ha : a ∈ l)
    : ∃ c, c < chunkCount l.length chunk ∧ a ∈ slice chunk c l := by
  obtain ⟨i, hi, rfl⟩ := List.mem_iff_getElem.mp ha
  have hle : i / chunk * chunk ≤ i := Nat.div_mul_le_self i chunk
  have hlt : i < i / chunk * chunk + chunk := Nat.lt_div_mul_add hchunk
  refine ⟨i / chunk, (lt_chunkCount hchunk (by omega)).mpr (by omega), ?_⟩
  unfold slice
  refine List.mem_iff_getElem.mpr ⟨i - i / chunk * chunk, ?_, ?_⟩
  . rw [List.length_take, List.length_drop]
    omega
  . rw [List.getElem_take, List.getElem_drop]
    congr 1
    omega

theorem forall₂_slice {R : α → β → Prop} {l' : List β} (h : List.Forall₂ R l l')
    : List.Forall₂ R (slice chunk c l) (slice chunk c l') := by
  unfold slice
  rw [h.length_eq]
  exact List.forall₂_take _ (List.forall₂_drop _ h)

theorem slice_ne_nil (hchunk : 0 < chunk) (hl : l ≠ []) (hc : c < chunkCount l.length chunk)
    : slice chunk c l ≠ [] := by
  have hlength : l.length ≠ 0 := mt List.length_eq_zero_iff.mp hl
  have hlt := (lt_chunkCount hchunk hlength).mp hc
  apply List.ne_nil_of_length_pos
  rw [slice, List.length_take, List.length_drop]
  omega

theorem slice_zero (hchunk : 0 < chunk) (hl : l ≠ []) (h : ¬1 < chunkCount l.length chunk)
    : slice chunk 0 l = l := by
  have hlength : l.length ≠ 0 := mt List.length_eq_zero_iff.mp hl
  rw [lt_chunkCount hchunk hlength] at h
  rw [slice, Nat.zero_mul, List.drop_zero, List.take_of_length_le]
  omega

theorem length_slice_le_min : (slice chunk c l).length ≤ min chunk l.length := by
  unfold slice
  rw [List.length_take, List.length_drop]
  omega

theorem length_slice_le : (slice chunk c l).length ≤ chunk := by
  unfold slice
  rw [List.length_take]
  omega

theorem flatMap_slice (chunk k : Nat) (l : List α)
    : (List.range k).flatMap (slice chunk · l) = l.take (k * chunk) := by
  induction k with
  | zero => simp
  | succ k ih =>
    have hslice : slice chunk k l = (l.drop (k * chunk)).take chunk := by
      unfold slice
      apply List.take_eq_take_iff.mpr
      rw [List.length_drop]
      omega
    rw [List.range_succ, List.flatMap_append, ih, List.flatMap_singleton, hslice, Nat.succ_mul,
      List.take_add]

theorem flatMap_slices (hchunk : 0 < chunk) (hl : l ≠ [])
    : (List.range (chunkCount l.length chunk)).flatMap (slice chunk · l) = l := by
  have hlength : l.length ≠ 0 := mt List.length_eq_zero_iff.mp hl
  rw [flatMap_slice, List.take_of_length_le]
  have := mt (lt_chunkCount hchunk hlength).mpr (lt_irrefl _)
  omega

end

section

variable {total chunk c : Nat}

theorem size_t_of_lt {n : Nat} (h : n < 2 ^ 64) : size_t n = n :=
  Nat.mod_eq_of_lt h

theorem requestCount_of_lt (h : total + chunk - 1 < 2 ^ 64)
    : requestCount total chunk = chunkCount total chunk := by
  unfold requestCount chunkCount
  rw [size_t_of_lt h]

theorem requestCount_of_le (htotal : total ≠ 0) (hsize : total ≤ 2 ^ 64) (hchunk : chunk < 2 ^ 64)
    (h : 2 ^ 64 ≤ total + chunk - 1)
    : requestCount total chunk = 0 := by
  have hwrap : size_t (total + chunk - 1) = total + chunk - 1 - 2 ^ 64 := by
    unfold size_t
    rw [Nat.mod_eq_sub_mod h, Nat.mod_eq_of_lt (by omega)]
  unfold requestCount
  rw [if_neg htotal, hwrap]
  exact Nat.div_eq_of_lt (by omega)

theorem requestResults_of_lt {α : Type} {l : List α} (hchunk : 0 < chunk) (hl : l ≠ [])
    (h : l.length + chunk - 1 < 2 ^ 64) (hc : c < chunkCount l.length chunk)
    : requestResults chunk c l = slice chunk c l := by
  have hlength : l.length ≠ 0 := mt List.length_eq_zero_iff.mp hl
  have hlt := (lt_chunkCount hchunk hlength).mp hc
  unfold requestResults slice
  dsimp only
  rw [size_t_of_lt (by omega : c * chunk < 2 ^ 64), size_t_of_lt (by omega)]

end

theorem post_envelope_eq {j : Object} {chunk_results chunk : Nat}
    (hchunk : chunk = chunkSize (resultsOf j).length chunk_results)
    (h : resultsOf j = [] ∨ (resultsOf j).length + chunk - 1 < 2 ^ 64)
    : post_envelope j chunk_results = (List.range (chunkCount (resultsOf j).length chunk)).map
      (part j chunk (chunkCount (resultsOf j).length chunk)) := by
  unfold post_envelope
  dsimp only
  rw [← hchunk]
  by_cases hne : resultsOf j = []
  . rw [hne]
    rfl
  . have hlt := h.resolve_left hne
    have hpos : 0 < chunk := by
      have := List.length_pos_of_ne_nil hne
      rw [hchunk]
      unfold chunkSize
      split <;> omega
    rw [requestCount_of_lt hlt]
    apply List.map_congr_left
    intro c hc
    unfold request part
    rw [requestResults_of_lt hpos hne hlt (List.mem_range.mp hc)]

/--
The keys that the API looks a run up by, and those that say what the run was.
-/
def sharedKeys : List String :=
  ["run_id", "machine", "started_at", "finished_at", "argv"]

/--
The requests have the results of the envelope among them, and what else belongs to a run each.
-/
structure Partition (j : Object) (chunk_results : Nat) (sent : List Object) : Prop where
  sends : sent ≠ []
  results : sent.flatMap resultsOf = resultsOf j
  size : chunk_results ≠ 0 → ∀ body ∈ sent, (resultsOf body).length ≤ chunk_results
  shared : ∀ body ∈ sent, ∀ key ∈ sharedKeys, body.find? (·.1 = key) = j.find? (·.1 = key)

section Parts

variable {j : Object} {results : List Json} {key : String} {chunk chunks c : Nat}

theorem find?_setResults (hkey : key ≠ "results")
    : (setResults results j).find? (·.1 = key) = j.find? (·.1 = key) := by
  induction j with
  | nil => rfl
  | cons m j ih =>
    have hcons : setResults results (m :: j)
        = (if m.1 = "results" then (m.1, .arr results) else m) :: setResults results j := rfl
    rw [hcons, List.find?_cons, List.find?_cons, ih]
    by_cases hm : m.1 = "results"
    . simp [hm, hkey.symm]
    . simp [hm]

theorem find?_eraseSummary (hkey : key ≠ "summary")
    : (eraseSummary j).find? (·.1 = key) = j.find? (·.1 = key) := by
  unfold eraseSummary
  rw [List.find?_filter]
  congr 1
  funext m
  by_cases hm : m.1 = key
  . simp [hm, hkey]
  . simp [hm]

theorem resultsOf_setResults (h : ∃ old, j.find? (·.1 = "results") = some ("results", .arr old))
    : resultsOf (setResults results j) = results := by
  have hfind : (setResults results j).find? (·.1 = "results") = some ("results", .arr results) := by
    obtain ⟨old, h⟩ := h
    induction j with
    | nil => cases h
    | cons m j ih =>
      have hcons : setResults results (m :: j)
          = (if m.1 = "results" then (m.1, .arr results) else m) :: setResults results j := rfl
      rw [hcons, List.find?_cons]
      rw [List.find?_cons] at h
      by_cases hm : m.1 = "results"
      . simp [hm]
      . simp only [hm, decide_false] at h
        simp only [hm, decide_false, if_false]
        exact ih h
  unfold resultsOf
  rw [hfind]

theorem resultsOf_eraseSummary : resultsOf (eraseSummary j) = resultsOf j := by
  unfold resultsOf
  rw [find?_eraseSummary (by decide)]

theorem find?_part (hresults : key ≠ "results") (hsummary : key ≠ "summary")
    : (part j chunk chunks c).find? (·.1 = key) = j.find? (·.1 = key) := by
  unfold part
  split
  . dsimp only
    split
    . rw [find?_eraseSummary hsummary, find?_setResults hresults]
    . rw [find?_setResults hresults]
  . rfl

theorem resultsOf_part (h : ∃ old, j.find? (·.1 = "results") = some ("results", .arr old))
    (hchunk : 0 < chunk) (hne : resultsOf j ≠ []) (hc : c < chunkCount (resultsOf j).length chunk)
    : resultsOf (part j chunk (chunkCount (resultsOf j).length chunk) c)
      = slice chunk c (resultsOf j) := by
  unfold part
  split
  . dsimp only
    split
    . rw [resultsOf_eraseSummary, resultsOf_setResults h]
    . rw [resultsOf_setResults h]
  . rename_i hsingle
    have hzero : c = 0 := by omega
    rw [hzero, slice_zero hchunk hne hsingle]

end Parts

theorem post_all_of_no_error {post : Nat → PostResult} (h : ∀ c, (post c).error = false)
    (bodies : List Object) (c rc : Nat)
    : (post_all post bodies c rc).1 = bodies := by
  induction bodies generalizing c rc with
  | nil => rfl
  | cons body bodies ih =>
    unfold post_all
    rw [if_neg (by simp [h])]
    exact congrArg (body :: ·) (ih _ _)

theorem partition_parts {j : Object} {chunk_results chunk : Nat}
    (hchunk : chunk = chunkSize (resultsOf j).length chunk_results)
    (h : ∃ old, j.find? (·.1 = "results") = some ("results", .arr old))
    : Partition j chunk_results ((List.range (chunkCount (resultsOf j).length chunk)).map
      (part j chunk (chunkCount (resultsOf j).length chunk))) := by
  have hshared : ∀ body ∈ (List.range (chunkCount (resultsOf j).length chunk)).map
      (part j chunk (chunkCount (resultsOf j).length chunk)), ∀ key ∈ sharedKeys,
      body.find? (·.1 = key) = j.find? (·.1 = key) := by
    intro body hbody key hkey
    obtain ⟨c, _, rfl⟩ := List.mem_map.mp hbody
    have hother : key ≠ "results" ∧ key ≠ "summary" := by
      simp only [sharedKeys, List.mem_cons, List.not_mem_nil, or_false] at hkey
      obtain rfl | rfl | rfl | rfl | rfl := hkey <;> decide
    exact find?_part hother.1 hother.2
  by_cases hne : resultsOf j = []
  . have hsingle : (List.range (chunkCount (resultsOf j).length chunk)).map
        (part j chunk (chunkCount (resultsOf j).length chunk)) = [j] := by
      rw [hne]
      rfl
    rw [hsingle] at hshared ⊢
    exact ⟨List.cons_ne_nil _ _, List.flatMap_singleton _ _, by simp [hne], hshared⟩
  . have hlength := List.length_pos_of_ne_nil hne
    have hpos : 0 < chunk := by
      rw [hchunk]
      unfold chunkSize
      split <;> omega
    have hresults : ∀ c ∈ List.range (chunkCount (resultsOf j).length chunk),
        resultsOf (part j chunk (chunkCount (resultsOf j).length chunk) c)
          = slice chunk c (resultsOf j) :=
      fun c hc => resultsOf_part h hpos hne (List.mem_range.mp hc)
    constructor
    . have hcount : 0 < chunkCount (resultsOf j).length chunk :=
        (lt_chunkCount hpos (Nat.ne_of_gt hlength)).mpr (by omega)
      intro hnil
      rw [List.map_eq_nil_iff, List.range_eq_nil] at hnil
      omega
    . rw [List.flatMap_map, List.flatMap_congr hresults]
      exact flatMap_slices hpos hne
    . intro hzero body hbody
      obtain ⟨c, hc, rfl⟩ := List.mem_map.mp hbody
      rw [hresults c hc]
      refine Nat.le_trans length_slice_le ?_
      rw [hchunk, chunkSize, if_neg hzero]
    . exact hshared

/--
If no request fails, the requests share out the envelope exactly if there are no results or the sum that
is rounded up fits into 64 bits.
-/
theorem post_envelope_partition_iff (j : Object) (results : List Json) (chunk_results : Nat)
    (post : Nat → PostResult) (hresults : j.find? (·.1 = "results") = some ("results", .arr results))
    (hsize : results.length < 2 ^ 64) (hchunk : chunk_results < 2 ^ 64)
    (hposts : ∀ c, (post c).error = false)
    : Partition j chunk_results (post_all post (post_envelope j chunk_results) 0 0).1
      ↔ results = [] ∨ results.length + chunkSize results.length chunk_results - 1 < 2 ^ 64 := by
  have hsame : resultsOf j = results := by
    unfold resultsOf
    rw [hresults]
  rw [post_all_of_no_error hposts]
  constructor
  . intro hpartition
    by_contra hwraps
    rw [not_or, not_lt] at hwraps
    have hlength := List.length_pos_of_ne_nil hwraps.1
    have hzero : requestCount results.length (chunkSize results.length chunk_results) = 0 := by
      apply requestCount_of_le (by omega) (le_of_lt hsize) _ hwraps.2
      unfold chunkSize
      split <;> omega
    apply hpartition.sends
    unfold post_envelope
    dsimp only
    rw [hsame, hzero]
    rfl
  . intro hfits
    rw [← hsame] at hfits
    rw [post_envelope_eq rfl hfits]
    exact partition_parts rfl ⟨results, hresults⟩

def twoResults : Object :=
  [("argv", .arr []), ("results", .arr [.num "1", .num "2"]), ("run_id", .str "r")]

theorem post_envelope_partition_two
    : Partition twoResults 1 (post_all (fun _ => ⟨false, true⟩) (post_envelope twoResults 1) 0 0).1 :=
  (post_envelope_partition_iff twoResults [.num "1", .num "2"] 1 _ rfl (by decide) (by decide)
    fun _ => rfl).mpr (.inr (by decide))

/--
Two results in parts of at most `2 ^ 64 - 1`: the sum is zero, and nothing is sent.
-/
theorem not_partition_wrapped
    : ¬Partition twoResults (2 ^ 64 - 1)
      (post_all (fun _ => ⟨false, true⟩) (post_envelope twoResults (2 ^ 64 - 1)) 0 0).1 :=
  fun h => h.sends (by decide)

end Bench
