import BenchPlatform.Engine.Post
import BenchPlatform.Api.Store.History
import BenchPlatform.Api.Store.StreamAgrees
import Mathlib.Algebra.Ring.Nat

/-!
This module proves that an envelope that is uploaded in parts is stored as one that is uploaded whole,
in whatever order and however often the parts arrive. What the parts share is all that a run is stored
with; the transactions take turns on the row of the machine.
-/

namespace Api

namespace Model

open Json Program Bench

namespace RunEnvelope

def withSummary (x : Option (List Summary)) (env : RunEnvelope) : RunEnvelope :=
  { env with summary := x }

def SameButSummary (env env' : RunEnvelope) : Prop :=
  ∃ x, env' = env.withSummary x

variable {members : List (String × Json)} {env env' env'' : RunEnvelope}

theorem SameButSummary.refl : SameButSummary env env :=
  ⟨env.summary, rfl⟩

theorem decode_summary {f : Json.Field RunEnvelope} {v : Json} (hf : f ∈ headerFields)
    (hname : f.name = "summary") (h : f.decode v env = .ok env')
    : ∃ x, env' = env.withSummary x := by
  rw [← List.take_append_drop 6 headerFields, List.mem_append] at hf
  obtain hf | hf := hf
  . have hother : ∀ f ∈ headerFields.take 6, f.name ≠ "summary" := by decide
    exact absurd hname (hother f hf)
  . rw [List.mem_singleton.mp hf] at h
    obtain ⟨x, _, rfl⟩ := except_map_eq_ok.mp h
    exact ⟨x, rfl⟩

theorem commutes_withSummary {x : Option (List Summary)} {f : Json.Field RunEnvelope}
    (hf : f ∈ headerFields) (hname : f.name ≠ "summary")
    : ∀ v s, f.decode v (withSummary x s) = withSummary x <$> f.decode v s := by
  have hcommutes : Commutes (headerFields.take 6) (withSummary x) :=
    .cons (fun _ => rfl) (fun _ _ => rfl) <| .cons (fun _ => rfl) (fun _ _ => rfl) <|
      .cons (fun _ => rfl) (fun _ _ => rfl) <| .cons (fun _ => rfl) (fun _ _ => rfl) <|
      .cons (fun _ => rfl) (fun _ _ => rfl) <| .cons (fun _ => rfl) (fun _ _ => rfl) .nil
  rw [← List.take_append_drop 6 headerFields, List.mem_append] at hf
  obtain hf | hf := hf
  . exact hcommutes f hf
  . exact absurd (List.mem_singleton.mp hf ▸ rfl) hname

theorem ownedBy_summary : OwnedBy headerFields summary "summary" :=
  .other (fun _ _ => rfl) <| .other (fun _ _ => rfl) <| .other (fun _ _ => rfl) <|
    .other (fun _ _ => rfl) <| .other (fun _ _ => rfl) <| .other (fun _ _ => rfl) <| .own .nil

theorem decodeHeader_withSummary {x : Option (List Summary)}
    (hknown : ∀ m ∈ members, m.1 ∈ headerKeys)
    : decodeHeader (eraseSummary members) (env.withSummary x)
      = withSummary x <$> decodeHeader (eraseSummary members) env := by
  induction members generalizing env with
  | nil => rfl
  | cons member members ih =>
    rw [List.forall_mem_cons] at hknown
    unfold eraseSummary
    rw [List.filter_cons]
    split
    . rename_i hname
      obtain ⟨f, hf, hf', hfind⟩ := exists_find hknown.1
      unfold decodeHeader
      rw [List.foldlM_cons, List.foldlM_cons, decodeMember_eq (lookup_fields hfind),
        decodeMember_eq (lookup_fields hfind), commutes_withSummary hf (by simpa [hf'] using hname)]
      cases f.decode member.2 env with
      | error err => rfl
      | ok env₁ => exact ih hknown.2
    . exact ih hknown.2

theorem decodeHeader_eraseSummary (hknown : ∀ m ∈ members, m.1 ∈ headerKeys)
    (h : decodeHeader members env = .ok env')
    : decodeHeader (eraseSummary members) env = .ok (env'.withSummary env.summary) := by
  induction members generalizing env with
  | nil =>
    injection h with h
    subst h
    rfl
  | cons member members ih =>
    rw [List.forall_mem_cons] at hknown
    obtain ⟨f, hf, env₁, hname, hfind, hdecode, hrest⟩ := (decodeHeader_cons_eq_ok hknown.1).mp h
    have ih := ih hknown.2 hrest
    unfold eraseSummary
    rw [List.filter_cons]
    split
    . rename_i hkey
      have hsame : env₁.summary = env.summary :=
        ownedBy_summary f hf (by simpa [hname] using hkey) _ _ _ hdecode
      rw [hsame] at ih
      exact (decodeHeader_cons_eq_ok hknown.1).mpr ⟨f, hf, env₁, hname, hfind, hdecode, ih⟩
    . rename_i hkey
      obtain ⟨x, rfl⟩ := decode_summary hf (hname.trans (by simpa using hkey)) hdecode
      rw [decodeHeader_withSummary hknown.2] at ih
      obtain ⟨e, he, hsame⟩ := except_map_eq_ok.mp ih
      have hsummary : e.summary = env.summary := by
        refine decodeHeader_frame ownedBy_summary ?_ ?_ he
        . intro m hm
          exact hknown.2 m (List.mem_of_mem_filter hm)
        . simp [eraseSummary]
      refine he.trans (congrArg Except.ok ?_)
      calc e
        _ = (e.withSummary x).withSummary env.summary := by rw [← hsummary]; rfl
        _ = (env'.withSummary x).withSummary env.summary := by rw [hsame]; rfl

end RunEnvelope

namespace Layout

variable {o : Layout} {first env : RunEnvelope} {rs : List Result} {chunk chunks c : Nat}

def withElems (o : Layout) (elems : List Json) : Layout :=
  { o with elems := elems }

def withoutSummary (o : Layout) : Layout where
  before := eraseSummary o.before
  elems := o.elems
  after := eraseSummary o.after
  known := by
    intro m hm
    rw [eraseSummary, eraseSummary, ← List.filter_append] at hm
    exact o.known m (List.mem_of_mem_filter hm)
  unrepeated := by
    rw [eraseSummary, eraseSummary, ← List.filter_append]
    exact o.unrepeated.sublist (List.filter_sublist.map _)

/--
The layout of the request number `c`.
-/
def part (o : Layout) (chunk chunks c : Nat) : Layout :=
  if 1 < chunks then
    if 0 < c then (o.withElems (slice chunk c o.elems)).withoutSummary
    else o.withElems (slice chunk c o.elems)
  else
    o

theorem ne_results {m : String × Json} (h : m.1 ∈ RunEnvelope.headerKeys) : m.1 ≠ "results" :=
  fun hname => RunEnvelope.results_not_mem_headerKeys (hname ▸ h)

theorem resultsOf_members : resultsOf o.members = o.elems := by
  have hbefore : o.before.find? (·.1 = "results") = none := by
    simpa using fun m hm => ne_results (o.known_before m hm)
  unfold resultsOf members
  rw [List.find?_append, hbefore]
  rfl

theorem setResults_members {elems : List Json}
    : setResults elems o.members = (o.withElems elems).members := by
  have hkeep : ∀ ms : Object, (∀ m ∈ ms, m.1 ∈ RunEnvelope.headerKeys) → setResults elems ms = ms := by
    intro ms hms
    refine (List.map_congr_left ?_).trans (List.map_id ms)
    intro m hm
    exact if_neg (ne_results (hms m hm))
  unfold members
  change List.map _ _ = _
  rw [List.map_append, List.map_cons]
  exact congrArg₂ _ (hkeep _ o.known_before) (congrArg _ (hkeep _ o.known_after))

theorem eraseSummary_members : eraseSummary o.members = o.withoutSummary.members := by
  have hkey : decide (("results", Json.arr o.elems).1 ≠ "summary") = true :=
    decide_eq_true (by decide : "results" ≠ "summary")
  unfold members eraseSummary
  rw [List.filter_append, List.filter_cons, if_pos hkey]
  rfl

theorem part_members : Bench.part o.members chunk chunks c = (o.part chunk chunks c).members := by
  unfold Bench.part part
  rw [resultsOf_members, setResults_members]
  split
  . split
    . exact eraseSummary_members
    . rfl
  . rfl

theorem Decodes.slice (h : o.Decodes first env rs)
    : (o.withElems (slice chunk c o.elems)).Decodes first env (slice chunk c rs) where
  before := h.before
  results := mapM_eq_ok.mpr (forall₂_slice (mapM_eq_ok.mp h.results))
  after := h.after

theorem Decodes.withoutSummary (h : o.Decodes first env rs)
    : o.withoutSummary.Decodes (first.withSummary none) (env.withSummary none) rs where
  before := RunEnvelope.decodeHeader_eraseSummary o.known_before h.before
  results := h.results
  after := by
    change RunEnvelope.decodeHeader (eraseSummary o.after) _ = _
    rw [RunEnvelope.decodeHeader_withSummary o.known_after,
      RunEnvelope.decodeHeader_eraseSummary o.known_after h.after]
    rfl

theorem Decodes.part (h : o.Decodes first env rs) (hchunk : 0 < chunk) (hne : rs ≠ [])
    (hc : c < chunkCount rs.length chunk)
    : ∃ first' env', (o.part chunk (chunkCount rs.length chunk) c).Decodes first' env'
        (Bench.slice chunk c rs)
      ∧ first.SameButSummary first' ∧ env.SameButSummary env' := by
  unfold Layout.part
  split
  . split
    . exact ⟨_, _, h.slice.withoutSummary, ⟨none, rfl⟩, ⟨none, rfl⟩⟩
    . exact ⟨_, _, h.slice, .refl, .refl⟩
  . rename_i hsingle
    obtain rfl : c = 0 := by omega
    rw [slice_zero hchunk hne hsingle]
    exact ⟨first, env, h, .refl, .refl⟩

end Layout

end Model

namespace Store

open Model Program Bench

/--
The requests that upload an envelope, each with at most `maxResults` results.
-/
def bodies (o : Layout) (chunk : Nat) : List Body :=
  (post_envelope o.members chunk).map (.object · .closed)

/--
What becomes of the requests. A transaction begins with its machine, whose row it then keeps locked,
so it sees what has been committed by then, and the others wait for it to end.
-/
structure Uploads where
  db : Db
  waiting : List (Nat × Call)
  holder : Option (Nat × Call × Db)
  answered : List (Nat × IngestResult)

namespace Uploads

inductive Action where
  /-- One more request with the body number `c` is served. -/
  | arrive (c : Nat) (fault : Nat → Option GoError)
  | lock (k : Nat)
  /-- The transaction that has the lock ends. -/
  | finish

def init (db : Db) : Uploads where
  db := db
  waiting := []
  holder := none
  answered := []

def arrive (bodies : List Body) (maxResults : Int) (c : Nat) (fault : Nat → Option GoError)
    (s : Uploads) : Option Uploads :=
  match bodies[c]? with
  | none => none
  | some body =>
    let call : Call := { request := .stream body maxResults, fault := fault }
    some { s with waiting := s.waiting ++ [(c, call)] }

def lock (k : Nat) (s : Uploads) : Option Uploads :=
  match s.holder, s.waiting[k]? with
  | none, some (c, call) =>
    some { s with waiting := s.waiting.eraseIdx k, holder := some (c, call, s.db) }
  | _, _ => none

def finish (jsonb : Json → Bool) (s : Uploads) : Option Uploads :=
  match s.holder with
  | none => none
  | some (c, call, db) =>
    match call.request.ingest (connect jsonb call.fault db) with
    | .ok res w => some { s with db := w.db, holder := none, answered := s.answered ++ [(c, res)] }
    | .error _ _ => some { s with holder := none }

def step (jsonb : Json → Bool) (bodies : List Body) (maxResults : Int) (s : Uploads)
    : Action → Option Uploads
  | .arrive c fault => s.arrive bodies maxResults c fault
  | .lock k => s.lock k
  | .finish => s.finish jsonb

def run (jsonb : Json → Bool) (bodies : List Body) (maxResults : Int) (db : Db)
    (schedule : List Action) : Uploads :=
  Trans.run (step jsonb bodies maxResults) (init db) schedule

end Uploads

/--
The two results are those of one trial of one configuration.
-/
def SameKey (r r' : Result) : Prop :=
  r.metric = r'.metric ∧ r.threadCount = r'.threadCount ∧ r.workingSetBytes = r'.workingSetBytes
    ∧ r.trial = r'.trial

instance (r r' : Result) : Decidable (SameKey r r') :=
  inferInstanceAs (Decidable (_ ∧ _))

variable {o : Layout} {first env first' env' : RunEnvelope} {rs : List Result} {chunk c : Nat}
  {maxResults : Int} {jsonb : Json → Bool} {log : List Delivery}

theorem SameButSummary.encode (h : env.SameButSummary env')
    : encode jsonb env rs = encode jsonb env' rs := by
  obtain ⟨x, rfl⟩ := h
  rfl

theorem SameButSummary.handedEnv (hfirst : first.SameButSummary first')
    (henv : env.SameButSummary env')
    : (Layout.handedEnv first env).SameButSummary (Layout.handedEnv first' env') := by
  obtain ⟨x, rfl⟩ := hfirst
  unfold Layout.handedEnv
  by_cases hdone : headerDone first
  . rw [if_pos hdone, if_pos (by exact hdone)]
    exact ⟨x, rfl⟩
  . rw [if_neg hdone, if_neg (by exact hdone)]
    exact henv

theorem SameButSummary.validateHeader {n k : Nat} (h : env.SameButSummary env')
    (hvalid : env.validateHeader n = .ok ()) (hk : k ≠ 0)
    : env'.validateHeader k = .ok () := by
  obtain ⟨x, rfl⟩ := h
  obtain ⟨start, finish, hchecked, horder, _⟩ := RunEnvelope.validateHeader_eq_ok.mp hvalid
  exact RunEnvelope.validateHeader_eq_ok.mpr ⟨start, finish,
    ⟨hchecked.schemaVersion, hchecked.runID, hchecked.started, hchecked.finished, hchecked.machine⟩,
    horder, hk⟩

theorem stores_of_decodes (hmax : 0 < maxResults → (o.elems.length : Int) ≤ maxResults)
    (hdecodes : o.Decodes first env rs) (hvalid : ∀ r ∈ rs, r.Valid)
    (hheader : env.validateHeader rs.length = .ok ()) (hne : rs ≠ [])
    : (Request.stream (.object o.members .closed) maxResults).Stores (Layout.handedEnv first env) rs := by
  have hdelivers : Delivers (.object o.members .closed) maxResults env
      (deliveries (Layout.handedEnv first env) rs 0) :=
    (Layout.delivers_iff hmax).mpr ⟨first, rs, hdecodes, hvalid, hheader, rfl⟩
  obtain ⟨r, rs, rfl⟩ := List.exists_cons_of_ne_nil hne
  rw [deliveries_cons] at hdelivers
  have hstores := Request.Stores.stream hdelivers
  rwa [List.map_cons, map_result_deliveries] at hstores

theorem part_stores (hdecodes : o.Decodes first env rs) (hvalid : ∀ r ∈ rs, r.Valid)
    (hheader : env.validateHeader rs.length = .ok ()) (hne : rs ≠ []) (hchunk : 0 < chunk)
    (hmax : 0 < maxResults → (min chunk rs.length : Int) ≤ maxResults) (hc : c < chunkCount rs.length chunk)
    : ∃ env', (Layout.handedEnv first env).SameButSummary env'
      ∧ (Request.stream (.object (o.part chunk (chunkCount rs.length chunk) c).members .closed)
        maxResults).Stores env' (slice chunk c rs) := by
  obtain ⟨first', env', hpart, hfirst, henv⟩ := hdecodes.part hchunk hne hc
  have hsome := slice_ne_nil hchunk hne hc
  refine ⟨_, SameButSummary.handedEnv hfirst henv, stores_of_decodes ?_ hpart ?_ ?_ hsome⟩
  . have hle : (slice chunk c rs).length ≤ _ := length_slice_le_min
    rw [hpart.length] at hle
    omega
  . exact fun r hr => hvalid r (mem_of_mem_slice hr)
  . exact SameButSummary.validateHeader henv hheader (mt List.length_eq_zero_iff.mp hsome)

/--
The database after these requests have been answered one after the other.
-/
inductive Serial (jsonb : Json → Bool) (env : RunEnvelope) (rs : List Result) (chunk : Nat) (start : Db)
    : List (Nat × IngestResult) → Db → Prop where
  | none : Serial jsonb env rs chunk start [] start
  | answer {answered : List (Nat × IngestResult)} {db : Db} {c : Nat} {res : IngestResult} {e : Encoded}
    (h : Serial jsonb env rs chunk start answered db)
    (hencode : encode jsonb env (slice chunk c rs) = .ok e)
    (hinserted : res.inserted = (db.fresh e).length) :
    Serial jsonb env rs chunk start (answered ++ [(c, res)]) (db.store e)

section

variable {start db : Db} {answered : List (Nat × IngestResult)} {e e' : Encoded}

theorem Serial.measurements (h : Serial jsonb env rs chunk start answered db)
    : ∃ rows, db.measurements = start.measurements.insertAllIgnore rows
      ∧ ∀ row, row ∈ rows ↔ ∃ p ∈ answered, ∃ e, encode jsonb env (slice chunk p.1 rs) = .ok e
        ∧ row ∈ e.measurements := by
  induction h with
  | none => exact ⟨[], rfl, by simp⟩
  | @answer answered db c res e _ hencode _ ih =>
    obtain ⟨rows, hdb, hrows⟩ := ih
    refine ⟨rows ++ e.measurements, ?_, ?_⟩
    . rw [Table.insertAllIgnore_append, ← hdb]
      rfl
    . intro row
      rw [List.mem_append, hrows]
      simp [hencode, or_and_right, exists_or]

theorem encode_run_eq {rs' : List Result} (h : encode jsonb env rs = .ok e)
    (h' : encode jsonb env rs' = .ok e')
    : e.run = e'.run := by
  have hrows : ∀ r ∈ rs', ∃ row, rowOf jsonb env.runID env.machine.id r = .ok row := by
    obtain ⟨_, _, _, _, _, _, hrows⟩ := encode_eq_ok.mp h'
    exact fun r hr => exists_of_mapM hrows hr
  obtain ⟨e'', he'', hrun⟩ := encode_of_header h hrows
  cases he''.symm.trans h'
  exact hrun.symm

theorem Serial.runs (h : Serial jsonb env rs chunk start answered db)
    (hencode : encode jsonb env rs = .ok e)
    : db.runs = if answered = [] then start.runs else start.runs.insertIgnore e.run := by
  induction h with
  | none => rfl
  | @answer answered db c res e' _ hpart _ ih =>
    rw [if_neg (by simp)]
    change db.runs.insertIgnore e'.run = _
    rw [ih, encode_run_eq hpart hencode]
    split
    . rfl
    . exact Table.insertIgnore_twice

theorem Serial.inserted (h : Serial jsonb env rs chunk start answered db)
    : db.measurements.rows.length
      = start.measurements.rows.length + (answered.map (·.2.inserted)).sum := by
  induction h with
  | none => simp
  | answer _ _ hinserted ih =>
    rw [List.map_append, List.sum_append, List.map_singleton, List.sum_singleton, hinserted,
      ← Nat.add_assoc, ← ih]
    change (Table.insertAllIgnore _ _).rows.length = _
    rw [Table.rows_insertAllIgnore, List.length_append]
    rfl

end

namespace Uploads

/--
The call is one for the body number `c`.
-/
def Posts (bodies : List Body) (maxResults : Int) (c : Nat) (call : Call) : Prop :=
  ∃ body, bodies[c]? = some body ∧ call.request = .stream body maxResults

/--
Each body stores one part of the results, under the same header.
-/
def PartsOf (bodies : List Body) (maxResults : Int) (env : RunEnvelope) (rs : List Result)
    (chunk : Nat) : Prop :=
  ∀ c body, bodies[c]? = some body → ∃ env', env.SameButSummary env'
    ∧ (Request.stream body maxResults).Stores env' (slice chunk c rs)

/--
A transaction that has the lock sees what has been committed, so it is as if the requests that have
been answered had been served one after the other.
-/
structure InTurn (jsonb : Json → Bool) (bodies : List Body) (maxResults : Int) (env : RunEnvelope)
    (rs : List Result) (chunk : Nat) (start : Db) (s : Uploads) : Prop where
  waiting : ∀ p ∈ s.waiting, Posts bodies maxResults p.1 p.2
  holder : ∀ c call db, s.holder = some (c, call, db) → Posts bodies maxResults c call ∧ db = s.db
  serial : Serial jsonb env rs chunk start s.answered s.db

variable {bodies : List Body} {start : Db} {s s' : Uploads} {a : Action}

theorem holder_of_none {P : Nat → Call → Db → Prop} (h : s.holder = none)
    : ∀ c call db, s.holder = some (c, call, db) → P c call db := by
  intro c call db hsome
  rw [h] at hsome
  cases hsome

theorem InTurn.init : InTurn jsonb bodies maxResults env rs chunk start (init start) where
  waiting := fun _ hp => absurd hp List.not_mem_nil
  holder := holder_of_none rfl
  serial := .none

theorem Posts.ingest {call : Call} {w w' : World} {res : IngestResult}
    (hparts : PartsOf bodies maxResults env rs chunk) (h : Posts bodies maxResults c call)
    (hok : call.request.ingest w = .ok res w')
    : ∃ e, encode w.jsonb env (slice chunk c rs) = .ok e ∧ w'.db = w.db.store e
      ∧ res.inserted = (w.db.fresh e).length := by
  obtain ⟨body, hbody, hrequest⟩ := h
  obtain ⟨env', hsame, hstores⟩ := hparts c body hbody
  rw [hrequest] at hok
  obtain ⟨env'', rs', hstores', hall⟩ := Request.ingest_eq_ok.mp hok
  obtain ⟨rfl, rfl⟩ := hstores'.unique hstores
  obtain ⟨e, hencode, hdb, hres⟩ := ingest_iff.mp (ingestAll_eq_ok hall).1
  rw [← SameButSummary.encode hsame] at hencode
  exact ⟨e, hencode, hdb, congrArg IngestResult.inserted hres⟩

theorem InTurn.arrive {fault : Nat → Option GoError}
    (hs : InTurn jsonb bodies maxResults env rs chunk start s)
    (h : s.arrive bodies maxResults c fault = some s')
    : InTurn jsonb bodies maxResults env rs chunk start s' := by
  unfold Uploads.arrive at h
  split at h
  . cases h
  . rename_i body hbody
    injection h with h
    subst h
    refine ⟨?_, hs.holder, hs.serial⟩
    intro p hp
    obtain hp | hp := List.mem_append.mp hp
    . exact hs.waiting p hp
    . rw [List.mem_singleton.mp hp]
      exact ⟨body, hbody, rfl⟩

theorem InTurn.lock {k : Nat} (hs : InTurn jsonb bodies maxResults env rs chunk start s)
    (h : s.lock k = some s')
    : InTurn jsonb bodies maxResults env rs chunk start s' := by
  unfold Uploads.lock at h
  split at h
  . rename_i c call hholder hk
    injection h with h
    subst h
    refine ⟨fun p hp => hs.waiting p (List.mem_of_mem_eraseIdx hp), ?_, hs.serial⟩
    intro c' call' db h
    injection h with h
    cases h
    exact ⟨hs.waiting _ (List.mem_of_getElem? hk), rfl⟩
  . cases h

theorem InTurn.finish (hparts : PartsOf bodies maxResults env rs chunk)
    (hs : InTurn jsonb bodies maxResults env rs chunk start s) (h : s.finish jsonb = some s')
    : InTurn jsonb bodies maxResults env rs chunk start s' := by
  unfold Uploads.finish at h
  split at h
  . cases h
  . rename_i c call db hholder
    obtain ⟨hposts, rfl⟩ := hs.holder c call db hholder
    split at h
    . rename_i res w hok
      injection h with h
      subst h
      obtain ⟨e, hencode, hdb, hinserted⟩ := hposts.ingest hparts hok
      refine ⟨hs.waiting, holder_of_none rfl, ?_⟩
      dsimp only
      rw [hdb]
      exact hs.serial.answer hencode hinserted
    . injection h with h
      subst h
      exact ⟨hs.waiting, holder_of_none rfl, hs.serial⟩

theorem InTurn.run (hparts : PartsOf bodies maxResults env rs chunk) (schedule : List Action)
    : InTurn jsonb bodies maxResults env rs chunk start
      (run jsonb bodies maxResults start schedule) := by
  apply Trans.invariant
  . intro s a s' hs h
    cases a with
    | arrive c fault => exact hs.arrive h
    | lock k => exact hs.lock h
    | finish => exact hs.finish hparts h
  . exact .init

end Uploads

section

variable {start db : Db} {answered : List (Nat × IngestResult)} {e : Encoded}

theorem Serial.encoded {p : Nat × IngestResult} (h : Serial jsonb env rs chunk start answered db)
    (hp : p ∈ answered)
    : ∃ e, encode jsonb env (slice chunk p.1 rs) = .ok e := by
  induction h with
  | none => cases hp
  | @answer answered db c res e _ hencode _ ih =>
    obtain hp | hp := List.mem_append.mp hp
    . exact ih hp
    . rw [List.mem_singleton.mp hp]
      exact ⟨e, hencode⟩

theorem Serial.whole (h : Serial jsonb env rs chunk start answered db) (hchunk : 0 < chunk)
    (hne : rs ≠ [])
    (hall : ∀ c, c < chunkCount rs.length chunk → ∃ res, (c, res) ∈ answered)
    : ∃ e, encode jsonb env rs = .ok e ∧ ∀ row, row ∈ e.measurements
      ↔ ∃ p ∈ answered, ∃ e, encode jsonb env (slice chunk p.1 rs) = .ok e ∧ row ∈ e.measurements := by
  have hpart : ∀ r ∈ rs, ∃ p ∈ answered, ∃ e,
      encode jsonb env (slice chunk p.1 rs) = .ok e ∧ r ∈ slice chunk p.1 rs := by
    intro r hr
    obtain ⟨c, hc, hmem⟩ := exists_slice hchunk hr
    obtain ⟨res, hp⟩ := hall c hc
    obtain ⟨e, he⟩ := h.encoded hp
    exact ⟨_, hp, e, he, hmem⟩
  have hrows : ∀ r ∈ rs, ∃ row, rowOf jsonb env.runID env.machine.id r = .ok row := by
    intro r hr
    obtain ⟨_, _, e, he, hmem⟩ := hpart r hr
    obtain ⟨_, _, _, _, _, _, hrows⟩ := encode_eq_ok.mp he
    exact exists_of_mapM hrows hmem
  obtain ⟨r, hr⟩ := List.exists_mem_of_ne_nil rs hne
  obtain ⟨_, _, e₀, he₀, _⟩ := hpart r hr
  obtain ⟨e, he, _⟩ := encode_of_header he₀ hrows
  refine ⟨e, he, fun row => ?_⟩
  rw [mem_encode he]
  constructor
  . rintro ⟨r, hr, hrow⟩
    obtain ⟨p, hp, e', he', hmem⟩ := hpart r hr
    exact ⟨p, hp, e', he', (mem_encode he').mpr ⟨r, hmem, hrow⟩⟩
  . rintro ⟨p, _, e', he', hrow⟩
    obtain ⟨r, hr, hrow⟩ := (mem_encode he').mp hrow
    exact ⟨r, mem_of_mem_slice hr, hrow⟩

theorem encode_nodup (he : encode jsonb env rs = .ok e) (hkeys : rs.Pairwise fun r r' => ¬SameKey r r')
    : (e.measurements.map MeasurementRow.key).Nodup := by
  rw [encode_keys he]
  apply List.pairwise_map.mpr
  refine hkeys.imp ?_
  intro r r' hdiffer hsame
  injection hsame with _ hmetric hthreads hws htrial
  exact hdiffer ⟨hmetric, hthreads, hws, htrial⟩

end

theorem bodies_eq (hchunk : 0 < chunk) (hsize : o.elems.length + chunk - 1 < 2 ^ 64)
    : bodies o chunk = (List.range (chunkCount o.elems.length chunk)).map fun c =>
      .object (o.part chunk (chunkCount o.elems.length chunk) c).members .closed := by
  have hresults : resultsOf o.members = o.elems := Layout.resultsOf_members
  have heffective : chunk = chunkSize (resultsOf o.members).length chunk := by
    rw [chunkSize, if_neg (by omega)]
  unfold bodies
  rw [post_envelope_eq heffective (.inr (by rwa [hresults])), hresults, List.map_map]
  apply List.map_congr_left
  intro c _
  dsimp only [Function.comp_apply]
  rw [Layout.part_members]

theorem handedEnv_runID (hdecodes : o.Decodes first env rs)
    : (Layout.handedEnv first env).runID = env.runID := by
  unfold Layout.handedEnv
  split
  . rename_i hdone
    by_cases hkey : "run_id" ∈ o.keysBefore
    . exact hdecodes.seen RunEnvelope.ownedBy_runID hkey
    . exact absurd (hdecodes.unseen RunEnvelope.ownedBy_runID hkey) hdone.1
  . rfl

theorem whole_ingest (db : Db) {e : Encoded} (hdecodes : o.Decodes first env rs)
    (hvalid : ∀ r ∈ rs, r.Valid) (hheader : env.validateHeader rs.length = .ok ()) (hne : rs ≠ [])
    (hencode : encode jsonb (Layout.handedEnv first env) rs = .ok e)
    : ∃ res w, IngestStream (.object o.members .closed) 0 (connect jsonb (fun _ => none) db) = .ok res w
      ∧ w.db = db.store e ∧ res.inserted = (db.fresh e).length := by
  have hstores : (Request.stream (.object o.members .closed) 0).Stores (Layout.handedEnv first env) rs :=
    stores_of_decodes (by omega) hdecodes hvalid hheader hne
  have hingest : db.ingest jsonb (Layout.handedEnv first env) rs = .ok (_, db.store e) :=
    ingest_iff.mpr ⟨e, hencode, rfl, rfl⟩
  have hfault : (connect jsonb (fun _ => none) db).Faultless := fun _ => rfl
  obtain ⟨w, hok, hdb⟩ := (ingestAll_iff hfault).mpr hingest
  exact ⟨_, w, Request.ingest_eq_ok.mpr ⟨_, _, hstores, hok⟩, hdb, rfl⟩

theorem length_fresh {db : Db} {e : Encoded} (hencode : encode jsonb env rs = .ok e)
    (hnodup : (e.measurements.map MeasurementRow.key).Nodup)
    (hnew : ∀ m ∈ db.measurements.rows, parseUuid env.runID ≠ some m.runID)
    : (db.fresh e).length = rs.length := by
  obtain ⟨hid, _, _, hrefers⟩ := encode_refers hencode
  have hfresh : db.fresh e = e.measurements := by
    apply Table.firsts_eq_self _ hnodup
    intro row hrow hstored
    obtain ⟨m, hm, hkey⟩ := List.mem_map.mp hstored
    have hrunID : m.runID = e.run.id :=
      (congrArg MeasurementKey.runID hkey).trans (hrefers row hrow).1
    apply hnew m hm
    rw [hid, hrunID]
  have hlength := congrArg List.length (encode_keys hencode)
  rw [List.length_map, List.length_map] at hlength
  rw [hfresh, hlength]

/--
However the parts of an envelope arrive, and whichever of their commands fail: once each of them has
been answered the measurements and the runs are what the whole envelope would have made of them, and
so many rows have been inserted, all of them if there was none of this run before. The limit is an
`int` of 64 bits, and no array in memory has `2 ^ 63` elements.
-/
theorem chunks_store_envelope (jsonb : Json → Bool) (o : Layout) (chunk : Nat) (maxResults : Int)
    (db : Db) (schedule : List Uploads.Action) (env : RunEnvelope) (log : List Delivery)
    (hvalid : Delivers (.object o.members .closed) 0 env log) (hne : log ≠ [])
    (hkeys : (log.map (·.result)).Pairwise fun r r' => ¬SameKey r r') (hchunk : 1 ≤ chunk)
    (hmax : (chunk : Int) ≤ maxResults) (hint : maxResults < 2 ^ 63) (hsize : o.elems.length < 2 ^ 63)
    (hdelivered : ∀ c, c < (bodies o chunk).length → ∃ res,
      (c, res) ∈ (Uploads.run jsonb (bodies o chunk) maxResults db schedule).answered)
    : ∃ res w, IngestStream (.object o.members .closed) 0 (connect jsonb (fun _ => none) db) = .ok res w
      ∧ (Uploads.run jsonb (bodies o chunk) maxResults db schedule).db.measurements.rows.Perm
        w.db.measurements.rows
      ∧ (Uploads.run jsonb (bodies o chunk) maxResults db schedule).db.runs = w.db.runs
      ∧ ((Uploads.run jsonb (bodies o chunk) maxResults db schedule).answered.map (·.2.inserted)).sum
        = res.inserted
      ∧ ((∀ m ∈ db.measurements.rows, parseUuid env.runID ≠ some m.runID) →
        res.inserted = log.length) := by
  obtain ⟨first, rs, hdecodes, hvalid, hheader, hlog⟩ := (Layout.delivers_iff (by omega)).mp hvalid
  have hresults : log.map (·.result) = rs := by rw [hlog, map_result_deliveries]
  have hlength : log.length = rs.length := by rw [← hresults, List.length_map]
  rw [hresults] at hkeys
  have hrs : rs ≠ [] := by
    intro hnil
    rw [hnil, List.length_nil] at hlength
    exact hne (List.length_eq_zero_iff.mp hlength)
  have hfits : o.elems.length + chunk - 1 < 2 ^ 64 := by omega
  have hparts : Uploads.PartsOf (bodies o chunk) maxResults (Layout.handedEnv first env) rs chunk := by
    intro c body hbody
    rw [bodies_eq hchunk hfits, ← hdecodes.length, List.getElem?_map, Option.map_eq_some_iff] at hbody
    obtain ⟨c', hc', rfl⟩ := hbody
    obtain ⟨hlt, rfl⟩ := List.getElem?_eq_some_iff.mp hc'
    rw [List.getElem_range]
    exact part_stores hdecodes hvalid hheader hrs hchunk (by omega) (by simpa using hlt)
  have hserial : Serial jsonb (Layout.handedEnv first env) rs chunk db
      (Uploads.run jsonb (bodies o chunk) maxResults db schedule).answered
      (Uploads.run jsonb (bodies o chunk) maxResults db schedule).db :=
    (Uploads.InTurn.run hparts schedule).serial
  generalize Uploads.run jsonb (bodies o chunk) maxResults db schedule = final at hserial hdelivered
  have hall : ∀ c, c < chunkCount rs.length chunk → ∃ res, (c, res) ∈ final.answered := by
    intro c hc
    apply hdelivered
    rwa [bodies_eq hchunk hfits, List.length_map, List.length_range, ← hdecodes.length]
  have hanswered : final.answered ≠ [] := by
    intro hnil
    obtain ⟨r, hr⟩ := List.exists_mem_of_ne_nil rs hrs
    obtain ⟨c, hc, _⟩ := exists_slice hchunk hr
    obtain ⟨res, hp⟩ := hall c hc
    rw [hnil] at hp
    cases hp
  obtain ⟨e, hencode, hrows⟩ := hserial.whole hchunk hrs hall
  have hnodup := encode_nodup hencode hkeys
  obtain ⟨res, w, hok, hdb, hinserted⟩ := whole_ingest db hdecodes hvalid hheader hrs hencode
  obtain ⟨rows, hmeasurements, hmem⟩ := hserial.measurements
  have hperm : final.db.measurements.rows.Perm w.db.measurements.rows := by
    rw [hmeasurements, hdb]
    apply Table.perm_insertAllIgnore
    . intro row
      rw [hmem, hrows]
    . exact fun r hr r' hr' => List.inj_on_of_nodup_map hnodup hr hr'
  refine ⟨res, w, hok, hperm, ?_, ?_, ?_⟩
  . rw [hserial.runs hencode, hdb, if_neg hanswered]
    rfl
  . have hgrown := hserial.inserted
    have hstored : w.db.measurements.rows.length
        = db.measurements.rows.length + (db.fresh e).length := by
      rw [hdb]
      change (Table.insertAllIgnore _ _).rows.length = _
      rw [Table.rows_insertAllIgnore, List.length_append]
      rfl
    have hsame := hperm.length_eq
    omega
  . intro hnew
    rw [hinserted, hlength]
    apply length_fresh hencode hnodup
    rwa [handedEnv_runID hdecodes]

def trialResult (trial : String) : Json :=
  .obj [("workload", .str "cpu_int"), ("thread_count", .num "1"), ("working_set_bytes", .num "0"),
    ("metric", .str "cpu_int_ops"), ("value", .num "1"), ("unit", .str "ops/s"),
    ("trial", .num trial), ("timestamp", .str "2026-09-21T10:00:00Z"), ("duration_ns", .num "1")]

def twoTrials : Layout where
  before := [("argv", .arr []), ("finished_at", .str "2026-09-21T10:00:01Z"),
    ("machine", exampleMachine)]
  elems := [trialResult "0", trialResult "1"]
  after := [("run_id", .str "11111111-2222-4333-8444-555555555555"), ("schema_version", .num "1"),
    ("started_at", .str "2026-09-21T10:00:00Z"), ("summary", .arr [])]
  known := by decide
  unrepeated := by decide

/--
The second part is posted once more before the first one is served, and the commit of the first
attempt at that fails.
-/
def retriedUploads : List Uploads.Action :=
  [.arrive 1 fun _ => none, .lock 0, .arrive 0 fun n => if n = 7 then some .eof else none,
    .arrive 1 fun _ => none, .finish, .lock 0, .finish, .lock 0, .arrive 0 fun _ => none, .finish,
    .lock 0, .finish]

theorem chunks_store_envelope_twoTrials
    : ∃ env log res w, Delivers (.object twoTrials.members .closed) 0 env log ∧ log.length = 2
      ∧ IngestStream (.object twoTrials.members .closed) 0 (connect (fun _ => true) (fun _ => none)
        .empty) = .ok res w
      ∧ (Uploads.run (fun _ => true) (bodies twoTrials 1) 1 .empty retriedUploads).db.measurements.rows.Perm
        w.db.measurements.rows
      ∧ (Uploads.run (fun _ => true) (bodies twoTrials 1) 1 .empty retriedUploads).db.runs = w.db.runs
      ∧ ((Uploads.run (fun _ => true) (bodies twoTrials 1) 1 .empty
        retriedUploads).answered.map (·.2.inserted)).sum = 2 := by
  have haccepted : (match StreamRunEnvelope (.object twoTrials.members .closed) 0 (ofCallback record) []
      with
      | .ok _ log => decide (log.length = 2 ∧ (log.map (·.result)).Pairwise fun r r' => ¬SameKey r r')
      | .error _ _ => false) = true := by
    decide +kernel
  have hanswered : (Uploads.run (fun _ => true) (bodies twoTrials 1) 1 .empty
      retriedUploads).answered.map (·.1) = [1, 1, 0] := by
    decide +kernel
  split at haccepted
  . rename_i env log hdelivers
    obtain ⟨hlength, hkeys⟩ := of_decide_eq_true haccepted
    obtain ⟨res, w, hok, hperm, hruns, hinserted, hall⟩ := chunks_store_envelope (fun _ => true) twoTrials
      1 1 .empty retriedUploads env log hdelivers (by rintro rfl; cases hlength) hkeys le_rfl le_rfl
      (by decide) (by decide) (by
        intro c hc
        have hmem : c ∈ (Uploads.run (fun _ => true) (bodies twoTrials 1) 1 .empty
            retriedUploads).answered.map (·.1) := by
          rw [hanswered]
          have hbodies : (bodies twoTrials 1).length = 2 := by decide +kernel
          simp only [List.mem_cons]
          omega
        obtain ⟨p, hp, rfl⟩ := List.mem_map.mp hmem
        exact ⟨p.2, hp⟩)
    have hnone : ∀ m ∈ Db.empty.measurements.rows, parseUuid env.runID ≠ some m.runID :=
      fun m hm => absurd hm List.not_mem_nil
    exact ⟨env, log, res, w, hdelivers, hlength, hok, hperm, hruns,
      hinserted.trans ((hall hnone).trans hlength)⟩
  . cases haccepted

end Store
end Api
