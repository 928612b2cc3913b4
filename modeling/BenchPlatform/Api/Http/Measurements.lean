import BenchPlatform.Api.Http.Analytics
import BenchPlatform.Api.Store.Queries
import BenchPlatform.Lib.Trans

/-!
This module contains the listing of measurements by pages, and that a client that follows the cursors
is given all that there was when it began, once and in order, whatever is inserted meanwhile.
-/

namespace Api
namespace Http

open Store (Measurement Measurements ListMeasurements)

def maxPageLimit : Int := 10000

/--
A parameter that is an integer of at least `low` and at most `high`, if it is there. The message ends
with the value.
-/
def parseQuoted (v : Bytes) (low : Int) (high : Option Int) (message : String)
    : Except (List Part) (Option Int) :=
  if v = [] then
    .ok none
  else
    match parseInt v with
    | none => .error [.text message, .quoted v]
    | some n =>
      if n < low ∨ high.any (n > ·) then .error [.text message, .quoted v] else .ok (some n)

def checkKnown (valid : Bytes → Bool) (v : Bytes) (message : String) : Except (List Part) Bytes :=
  if v ≠ [] ∧ ¬valid v then .error [.text message, .quoted v] else .ok v

def readFilter (q : Values) : Except (List Part) Store.MeasurementFilter := do
  let workload ← checkKnown validWorkload (q.get "workload") "unknown workload "
  let metric ← checkKnown validMetric (q.get "metric") "unknown metric "
  let threadCount ← parseQuoted (q.get "thread_count") 1 none
    "thread_count must be a positive integer, got "
  let workingSetBytes ← parseQuoted (q.get "working_set_bytes") 0 none
    "working_set_bytes must be a non-negative integer, got "
  let limit ← parseQuoted (q.get "limit") 1 (some maxPageLimit)
    "limit must be between 1 and 10000, got "
  return { machineID := q.get "machine_id", runID := q.get "run_id", workload := workload,
           metric := metric, threadCount := threadCount, workingSetBytes := workingSetBytes,
           limit := limit.getD 100, cursor := 0 }

def parseMeasurementFilter (q : Values) : Except (List Part) Store.MeasurementFilter := do
  let f ← readFilter q
  let cursor ← parseQuoted (q.get "cursor") 0 none "cursor must be a non-negative integer, got "
  return { f with cursor := cursor.getD 0 }

/--
A page with where the next one starts. There is none if this is empty.
-/
structure MeasurementPage where
  measurements : List Measurement
  nextCursor : Bytes

def nextCursor (rows : List Measurement) (limit : Int) : Bytes :=
  match rows.getLast? with
  | some last => if (rows.length : Int) = limit then formatInt last.id else []
  | none => []

def handleListMeasurements (t : Measurements) (q : Values) : Except Rejection MeasurementPage :=
  match parseMeasurementFilter q with
  | .error message => .error (invalidQuery message)
  | .ok f =>
    match ListMeasurements t f with
    | .error _ =>
      .error { status := 500, code := "query_failed", message := [.text "could not read measurements"] }
    | .ok rows => .ok { measurements := rows, nextCursor := nextCursor rows f.limit }

/--
`Values.Set`.
-/
def Values.set (q : Values) (name : String) (v : Bytes) : Values :=
  fun n => if n = ascii name then [v] else q n

inductive Client where
  | asking (q : Values)
  | done
  | failed (r : Rejection)

structure Paging where
  table : Measurements
  returned : List Measurement
  client : Client

namespace Paging

inductive Action where
  | request
  | insert (m : Measurement) (hm : m.Storable)

def start (t : Measurements) (q : Values) : Paging where
  table := t
  returned := []
  client := .asking q

def request (s : Paging) : Option Paging :=
  match s.client with
  | .asking q =>
    match handleListMeasurements s.table q with
    | .ok page =>
      some { s with
        returned := s.returned ++ page.measurements
        client := if page.nextCursor = [] then .done else .asking (q.set "cursor" page.nextCursor) }
    | .error r => some { s with client := .failed r }
  | _ => none

def insert (m : Measurement) (hm : m.Storable) (s : Paging) : Option Paging :=
  if hid : m.id ∈ s.table.rows.map (·.id) then
    none
  else
    some { s with table := s.table.insert m hm hid }

def step (s : Paging) : Action → Option Paging
  | .request => s.request
  | .insert m hm => s.insert m hm

def run (s : Paging) (schedule : List Action) : Paging :=
  Trans.run step s schedule

/--
The last page has been read, or there is none.
-/
def Finished (s : Paging) : Prop :=
  ∀ q, s.client ≠ .asking q

end Paging

section Query

variable {q : Values} {f : Store.MeasurementFilter}

theorem get_set (name : String) (v : Bytes) : (q.set name v).get name = v := by
  simp [Values.get, Values.set]

theorem get_set_of_ne {name other : String} {v : Bytes} (h : ascii other ≠ ascii name)
    : (q.set name v).get other = q.get other := by
  simp [Values.get, Values.set, h]

theorem readFilter_set (v : Bytes) : readFilter (q.set "cursor" v) = readFilter q := by
  have hworkload : (q.set "cursor" v).get "workload" = q.get "workload" := get_set_of_ne (by decide)
  have hmetric : (q.set "cursor" v).get "metric" = q.get "metric" := get_set_of_ne (by decide)
  have hthreads : (q.set "cursor" v).get "thread_count" = q.get "thread_count" :=
    get_set_of_ne (by decide)
  have hws : (q.set "cursor" v).get "working_set_bytes" = q.get "working_set_bytes" :=
    get_set_of_ne (by decide)
  have hlimit : (q.set "cursor" v).get "limit" = q.get "limit" := get_set_of_ne (by decide)
  have hmachine : (q.set "cursor" v).get "machine_id" = q.get "machine_id" := get_set_of_ne (by decide)
  have hrun : (q.set "cursor" v).get "run_id" = q.get "run_id" := get_set_of_ne (by decide)
  unfold readFilter
  rw [hworkload, hmetric, hthreads, hws, hlimit, hmachine, hrun]

theorem parseQuoted_bounds {v : Bytes} {low : Int} {high : Option Int} {message : String} {n : Int}
    (h : parseQuoted v low high message = .ok (some n))
    : low ≤ n ∧ ∀ m, high = some m → n ≤ m := by
  unfold parseQuoted at h
  split at h
  . cases h
  . split at h
    . cases h
    . split at h
      . cases h
      . rename_i hbounds
        injection h with h
        injection h with h
        rw [← h]
        rw [not_or, not_lt] at hbounds
        refine ⟨hbounds.1, ?_⟩
        rintro m rfl
        simpa using hbounds.2

theorem one_le_limit (h : readFilter q = .ok f) : 1 ≤ f.limit := by
  obtain ⟨_, _, h⟩ := Program.except_bind_eq_ok.mp h
  obtain ⟨_, _, h⟩ := Program.except_bind_eq_ok.mp h
  obtain ⟨_, _, h⟩ := Program.except_bind_eq_ok.mp h
  obtain ⟨_, _, h⟩ := Program.except_bind_eq_ok.mp h
  obtain ⟨limit, hlimit, h⟩ := Program.except_bind_eq_ok.mp h
  injection h with h
  rw [← h]
  cases limit with
  | none => exact (by decide : (1 : Int) ≤ 100)
  | some n => exact (parseQuoted_bounds hlimit).1

theorem parseMeasurementFilter_set {n : Int} (h : parseMeasurementFilter q = .ok f) (hn : 0 ≤ n)
    (hlt : n < 2 ^ 63)
    : parseMeasurementFilter (q.set "cursor" (formatInt n)) = .ok { f with cursor := n } := by
  obtain ⟨g, hg, h⟩ := Program.except_bind_eq_ok.mp h
  obtain ⟨cursor, _, h⟩ := Program.except_bind_eq_ok.mp h
  injection h with h
  have hcursor : parseQuoted (formatInt n) 0 none "cursor must be a non-negative integer, got "
      = .ok (some n) := by
    unfold parseQuoted
    rw [if_neg (formatInt_ne_nil n), parseInt_formatInt hn hlt]
    simp [hn]
  unfold parseMeasurementFilter
  rw [readFilter_set, get_set, hcursor, ← h]
  exact Program.except_bind_eq_ok.mpr ⟨g, hg, rfl⟩

end Query

theorem nextCursor_cases (rows : List Measurement) (limit : Int)
    : nextCursor rows limit = [] ∧ (rows = [] ∨ (rows.length : Int) ≠ limit)
      ∨ ∃ last, rows.getLast? = some last ∧ (rows.length : Int) = limit
        ∧ nextCursor rows limit = formatInt last.id := by
  unfold nextCursor
  split
  . rename_i last hlast
    split
    . rename_i hfull
      exact .inr ⟨last, hlast, hfull, rfl⟩
    . rename_i hshort
      exact .inl ⟨rfl, .inr hshort⟩
  . rename_i hlast
    exact .inl ⟨rfl, .inl (List.getLast?_eq_none_iff.mp hlast)⟩

section Handler

variable {t : Measurements} {q : Values} {f : Store.MeasurementFilter}

theorem handleListMeasurements_ok {page : MeasurementPage} (hparse : parseMeasurementFilter q = .ok f)
    (h : handleListMeasurements t q = .ok page)
    : ListMeasurements t f = .ok page.measurements
      ∧ page.nextCursor = nextCursor page.measurements f.limit := by
  unfold handleListMeasurements at h
  rw [hparse] at h
  cases hlist : ListMeasurements t f with
  | ok rows =>
    simp only [hlist] at h
    injection h with h
    rw [← h]
    exact ⟨rfl, rfl⟩
  | error err =>
    simp only [hlist] at h
    cases h

theorem handleListMeasurements_error {r : Rejection} (hparse : parseMeasurementFilter q = .ok f)
    (h : handleListMeasurements t q = .error r) {m : Measurement} (hm : m.Storable)
    : ¬f.Matches m := by
  intro hmatches
  obtain ⟨rows, hlist⟩ := Store.ListMeasurements_of_matches hm hmatches t
  unfold handleListMeasurements at h
  simp only [hparse, hlist] at h
  cases h

end Handler

theorem pageSize_eq {q : Values} {f : Store.MeasurementFilter} (h : parseMeasurementFilter q = .ok f)
    : (f.pageSize : Int) = f.limit ∧ 0 < f.pageSize := by
  have hlimit : 1 ≤ f.limit := by
    obtain ⟨g, hg, h⟩ := Program.except_bind_eq_ok.mp h
    obtain ⟨cursor, _, h⟩ := Program.except_bind_eq_ok.mp h
    injection h with h
    rw [← h]
    exact (one_le_limit hg : 1 ≤ g.limit)
  unfold Store.MeasurementFilter.pageSize
  rw [if_neg (by omega)]
  omega

namespace Paging

variable {f : Store.MeasurementFilter} {rows : List Measurement} {s s' : Paging}

/--
How a client stands that began when the table had `rows`: what it has not been given comes after the
cursor it asks with.
-/
def ClientInv (f : Store.MeasurementFilter) (rows returned : List Measurement) : Client → Prop
  | .asking q =>
    ∃ c, 0 ≤ c ∧ parseMeasurementFilter q = .ok { f with cursor := c } ∧ (∀ m ∈ returned, m.id ≤ c)
      ∧ ∀ m ∈ rows, f.Matches m → m.id ≤ c → m ∈ returned
  | .done => ∀ m ∈ rows, f.Matches m → m ∈ returned
  | .failed _ => ∀ m ∈ rows, ¬f.Matches m

structure Inv (f : Store.MeasurementFilter) (rows : List Measurement) (s : Paging) : Prop where
  rows_subset : rows ⊆ s.table.rows
  returned_subset : s.returned ⊆ s.table.rows
  matching : ∀ m ∈ s.returned, f.Matches m
  increasing : (s.returned.map (·.id)).Pairwise (· < ·)
  client : ClientInv f rows s.returned s.client

theorem start_inv {t : Measurements} {q : Values} (hparse : parseMeasurementFilter q = .ok f)
    (hcursor : f.cursor = 0)
    : Inv f t.rows (start t q) where
  rows_subset := List.Subset.refl _
  returned_subset := List.nil_subset _
  matching := fun _ hm => absurd hm List.not_mem_nil
  increasing := .nil
  client := by
    refine ⟨0, le_refl 0, ?_, fun _ hm => absurd hm List.not_mem_nil, ?_⟩
    . rw [hparse, ← hcursor]
    . intro m hm _ hle
      exact absurd (t.storable m hm).id_pos (not_lt.mpr hle)

theorem returned_append {c : Int} {page : List Measurement}
    (hinv : Inv f rows s) (hle : ∀ m ∈ s.returned, m.id ≤ c) (hc : 0 ≤ c)
    (hlist : ListMeasurements s.table { f with cursor := c } = .ok page)
    : s.returned ++ page ⊆ s.table.rows ∧ (∀ m ∈ s.returned ++ page, f.Matches m)
      ∧ ((s.returned ++ page).map (·.id)).Pairwise (· < ·) := by
  have hpage : ∀ m ∈ page, m ∈ s.table.rows ∧ f.Matches m ∧ c < m.id := by
    intro m hm
    obtain ⟨hmem, hmatches, hcursor⟩ := Store.of_mem_listing hlist hm
    refine ⟨hmem, Store.matches_cursor.mp hmatches, ?_⟩
    obtain hpos | hzero := lt_or_eq_of_le hc
    . exact hcursor hpos
    . rw [← hzero]
      exact (s.table.storable m hmem).id_pos
  refine ⟨?_, ?_, ?_⟩
  . exact List.append_subset.mpr ⟨hinv.returned_subset, fun m hm => (hpage m hm).1⟩
  . exact List.forall_mem_append.mpr ⟨hinv.matching, fun m hm => (hpage m hm).2.1⟩
  . rw [List.map_append, List.pairwise_append]
    refine ⟨hinv.increasing, Store.listing_pairwise hlist, ?_⟩
    rintro _ hid _ hid'
    obtain ⟨m, hm, rfl⟩ := List.mem_map.mp hid
    obtain ⟨m', hm', rfl⟩ := List.mem_map.mp hid'
    exact lt_of_le_of_lt (hle m hm) (hpage m' hm').2.2

theorem client_after_page {q : Values} {c : Int} {page : List Measurement} (hinv : Inv f rows s)
    (hparse : parseMeasurementFilter q = .ok { f with cursor := c }) (hc : 0 ≤ c)
    (hle : ∀ m ∈ s.returned, m.id ≤ c) (hseen : ∀ m ∈ rows, f.Matches m → m.id ≤ c → m ∈ s.returned)
    (hlist : ListMeasurements s.table { f with cursor := c } = .ok page)
    : ClientInv f rows (s.returned ++ page)
        (if nextCursor page f.limit = [] then
          .done
        else
          .asking (q.set "cursor" (nextCursor page f.limit))) := by
  obtain ⟨hsize, hpos⟩ := pageSize_eq hparse
  have hor : ∀ m ∈ rows, f.Matches m → m ∈ s.returned ++ page
      ∨ page.length = ({ f with cursor := c } : Store.MeasurementFilter).pageSize
        ∧ ∀ b ∈ page, b.id ≤ m.id := by
    intro m hm hmatches
    rw [List.mem_append]
    by_cases hbefore : m.id ≤ c
    . exact .inl (.inl (hseen m hm hmatches hbefore))
    . have hnew := Store.mem_listing_or hlist (hinv.rows_subset hm) (Store.matches_cursor.mpr hmatches)
        fun _ => not_le.mp hbefore
      exact hnew.imp .inr id
  obtain ⟨hnil, hshort⟩ | ⟨last, hlast, hfull, hnext⟩ := nextCursor_cases page f.limit
  . rw [if_pos hnil]
    intro m hm hmatches
    obtain hmem | ⟨hlen, _⟩ := hor m hm hmatches
    . exact hmem
    . exfalso
      obtain rfl | hne := hshort
      . rw [← hlen] at hpos
        exact absurd hpos (lt_irrefl 0)
      . rw [hlen] at hne
        exact hne hsize
  . rw [hnext, if_neg (formatInt_ne_nil _)]
    have hlastmem : last ∈ page := List.mem_of_getLast? hlast
    obtain ⟨hsubset, _, hincreasing⟩ := returned_append hinv hle hc hlist
    have hstorable := s.table.storable last (hsubset (List.mem_append_right _ hlastmem))
    have hparse' := parseMeasurementFilter_set hparse (le_of_lt hstorable.id_pos) hstorable.id_lt
    refine ⟨last.id, le_of_lt hstorable.id_pos, hparse', ?_, ?_⟩
    . have hlast' : (s.returned ++ page).getLast? = some last := by
        rw [List.getLast?_append, hlast, Option.some_or]
      exact fun m hm => Keyset.le_getLast hincreasing hlast' hm
    . intro m hm hmatches hbefore
      obtain hmem | ⟨_, hafter⟩ := hor m hm hmatches
      . exact hmem
      . have hsame : m = last :=
          s.table.eq_of_id_eq (hinv.rows_subset hm) (hsubset (List.mem_append_right _ hlastmem))
            (le_antisymm hbefore (hafter last hlastmem))
        rw [hsame]
        exact List.mem_append_right _ hlastmem

theorem request_cases (h : s.request = some s')
    : ∃ q, s.client = .asking q
      ∧ ((∃ r, handleListMeasurements s.table q = .error r ∧ s' = { s with client := .failed r })
        ∨ ∃ page, handleListMeasurements s.table q = .ok page
          ∧ s' = { s with
            returned := s.returned ++ page.measurements
            client :=
              if page.nextCursor = [] then .done else .asking (q.set "cursor" page.nextCursor) }) := by
  unfold request at h
  split at h
  . rename_i q hq
    refine ⟨q, hq, ?_⟩
    split at h
    . rename_i page hpage
      exact .inr ⟨page, hpage, (Option.some.inj h).symm⟩
    . rename_i r hr
      exact .inl ⟨r, hr, (Option.some.inj h).symm⟩
  . cases h

theorem request_inv (hinv : Inv f rows s) (h : s.request = some s') : Inv f rows s' := by
  obtain ⟨q, hq, hcase⟩ := request_cases h
  have hclient := hinv.client
  rw [hq] at hclient
  obtain ⟨c, hc, hparse, hle, hseen⟩ := hclient
  obtain ⟨r, hr, rfl⟩ | ⟨page, hpage, rfl⟩ := hcase
  . refine ⟨hinv.rows_subset, hinv.returned_subset, hinv.matching, hinv.increasing, ?_⟩
    intro m hm hmatches
    exact handleListMeasurements_error hparse hr (s.table.storable m (hinv.rows_subset hm))
      (Store.matches_cursor.mpr hmatches)
  . obtain ⟨hlist, hnext⟩ := handleListMeasurements_ok hparse hpage
    obtain ⟨hsubset, hmatching, hincreasing⟩ := returned_append hinv hle hc hlist
    refine ⟨hinv.rows_subset, hsubset, hmatching, hincreasing, ?_⟩
    dsimp only
    rw [hnext]
    exact client_after_page hinv hparse hc hle hseen hlist

theorem insert_inv {m : Measurement} {hm : m.Storable} (hinv : Inv f rows s)
    (h : s.insert m hm = some s')
    : Inv f rows s' := by
  unfold insert at h
  split at h
  . cases h
  . rw [← Option.some.inj h]
    have hgrows : s.table.rows ⊆ s.table.rows ++ [m] := List.subset_append_left _ _
    exact {
      rows_subset := fun _ hmem => hgrows (hinv.rows_subset hmem)
      returned_subset := fun _ hmem => hgrows (hinv.returned_subset hmem)
      matching := hinv.matching
      increasing := hinv.increasing
      client := hinv.client
    }

theorem step_inv {a : Action} (hinv : Inv f rows s) (h : step s a = some s') : Inv f rows s' := by
  cases a with
  | request => exact request_inv hinv h
  | insert m hm => exact insert_inv hinv h

theorem run_inv (hinv : Inv f rows s) (schedule : List Action) : Inv f rows (run s schedule) :=
  Trans.invariant (fun _ _ _ => step_inv) hinv schedule

theorem request_progress (hinv : Inv f rows s) (h : s.request = some s')
    : s'.table = s.table ∧ (s'.Finished ∨ s.returned.length < s'.returned.length) := by
  obtain ⟨q, hq, ⟨r, _, rfl⟩ | ⟨page, hpage, rfl⟩⟩ := request_cases h
  . exact ⟨rfl, .inl nofun⟩
  . refine ⟨rfl, ?_⟩
    have hclient := hinv.client
    rw [hq] at hclient
    obtain ⟨c, _, hparse, _, _⟩ := hclient
    obtain ⟨_, hnext⟩ := handleListMeasurements_ok hparse hpage
    rw [hnext]
    obtain ⟨hnil, _⟩ | ⟨last, hlast, _, _⟩ := nextCursor_cases page.measurements f.limit
    . left
      intro q'
      dsimp only
      rw [if_pos hnil]
      exact nofun
    . right
      have hpos := List.length_pos_of_mem (List.mem_of_getLast? hlast)
      rw [List.length_append]
      omega

theorem finished_run (h : s.Finished) (n : Nat) : (run s (List.replicate n .request)).Finished := by
  induction n with
  | zero => exact h
  | succ n ih =>
    have hnone : s.request = none := by
      unfold request
      split
      . rename_i q hq
        exact absurd hq (h q)
      . rfl
    unfold run
    rw [List.replicate_succ, Trans.run_cons, Trans.next, step, hnone]
    exact ih

theorem finished_of_length (hinv : Inv f rows s) (n : Nat)
    (hn : s.table.rows.length < n + s.returned.length)
    : (run s (List.replicate n .request)).Finished := by
  induction n generalizing s with
  | zero =>
    have hnodup : s.returned.Nodup :=
      List.Nodup.of_map _ (hinv.increasing.imp fun h => ne_of_lt h)
    have hle := (List.subperm_of_subset hnodup hinv.returned_subset).length_le
    omega
  | succ n ih =>
    cases hs' : s.request with
    | none =>
      apply finished_run
      intro q hq
      unfold request at hs'
      rw [hq] at hs'
      dsimp only at hs'
      split at hs' <;> cases hs'
    | some s' =>
      have hnext : Trans.next step s .request = s' := Trans.next_of_some hs'
      have hinv' := request_inv hinv hs'
      obtain ⟨htable, hprogress⟩ := request_progress hinv hs'
      unfold run
      rw [List.replicate_succ, Trans.run_cons, hnext]
      obtain hfinished | hgrows := hprogress
      . exact finished_run hfinished n
      . apply ih hinv'
        rw [htable]
        omega

end Paging

open Paging in
/--
A client that follows the cursors of a listing, while rows are inserted between its requests, is given
rows that match the filter in the order of their ids, none twice. When no cursor comes any more it has
been given all rows that matched when it began, and this happens once rows are no longer inserted.
-/
theorem keyset_pages_complete (t : Measurements) (q : Values) (f : Store.MeasurementFilter)
    (hparse : parseMeasurementFilter q = .ok f) (hcursor : f.cursor = 0) (schedule : List Action)
    : let s := run (start t q) schedule
      (s.returned.map (·.id)).Pairwise (· < ·)
        ∧ (∀ m ∈ s.returned, m ∈ s.table.rows ∧ f.Matches m)
        ∧ (s.Finished → ∀ m ∈ t.rows, f.Matches m → m ∈ s.returned)
        ∧ ∀ n, s.table.rows.length < n → (run s (List.replicate n .request)).Finished := by
  intro s
  have hinv : Inv f t.rows s := run_inv (start_inv hparse hcursor) schedule
  refine ⟨hinv.increasing, fun m hm => ⟨hinv.returned_subset hm, hinv.matching m hm⟩, ?_, ?_⟩
  . intro hfinished m hm hmatches
    have hclient := hinv.client
    cases hc : s.client with
    | asking q' => exact absurd hc (hfinished q')
    | done =>
      rw [hc] at hclient
      exact hclient m hm hmatches
    | failed r =>
      rw [hc] at hclient
      exact absurd hmatches (hclient m hm)
  . exact fun n hn => finished_of_length hinv n (by omega)

section TwoPages

def measurementAt (id : Int) : Measurement where
  id := id
  row := {
    runID := List.Vector.replicate 32 0
    machineID := "m"
    workload := "cpu"
    metric := "cpu_alu"
    threadCount := 1
    workingSetBytes := 0
    trial := id
    value := .finite false 1 0
    unit := "ops_s"
    recordedAt := ⟨2026, 1, 1, 0, 0, 0, 0⟩
    durationNs := 1
    params := none
  }

def twoMeasurements : Measurements where
  rows := [measurementAt 1, measurementAt 2]
  unique := by decide
  storable := by
    intro m hm
    simp only [List.mem_cons, List.not_mem_nil, or_false] at hm
    obtain rfl | rfl := hm <;> constructor <;> decide

/--
Two rows by pages of one row, where only a third page that is empty says that there are no more.
-/
theorem keyset_pages_complete_two
    : let s := Paging.run (Paging.start twoMeasurements (Values.ofPairs [("limit", "1")]))
        (List.replicate 3 .request)
      s.Finished ∧ measurementAt 1 ∈ s.returned ∧ measurementAt 2 ∈ s.returned := by
  let f : Store.MeasurementFilter := ⟨[], [], [], [], none, none, 1, 0⟩
  have hparse : parseMeasurementFilter (Values.ofPairs [("limit", "1")]) = .ok f := by rfl
  have hstart := keyset_pages_complete twoMeasurements _ f hparse rfl []
  have hfinished := hstart.2.2.2 3 (by decide)
  have hrun := keyset_pages_complete twoMeasurements _ f hparse rfl (List.replicate 3 .request)
  have hmatches : ∀ m, f.Matches m := fun m => ⟨nofun, nofun, nofun, nofun, nofun, nofun⟩
  have hall := fun m hm => hrun.2.2.1 hfinished m hm (hmatches m)
  exact ⟨hfinished, hall _ List.mem_cons_self, hall _ (List.mem_cons_of_mem _ List.mem_cons_self)⟩

end TwoPages

end Http
end Api
