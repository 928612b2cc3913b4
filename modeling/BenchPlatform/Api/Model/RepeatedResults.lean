import BenchPlatform.Api.Model.FieldOrder
import BenchPlatform.Api.Model.Validation

/-!
This module proves what the streaming decoder hands over of a document that has any keys any number of
times: of several arrays of results it buffers the last one only.
-/

namespace Api
namespace Model

open Program Json

def resultElems (members : List (String × Json)) : List Json :=
  members.flatMap fun m =>
    match m with
    | ("results", .arr elems) => elems
    | _ => []

/--
The arrays of results of a document, each with the header as it stands before it, and the header in
the end.
-/
def arraysOf : List (String × Json) → RunEnvelope
    → Except GoError (List (RunEnvelope × List Json) × RunEnvelope)
  | [], env => .ok ([], env)
  | (key, v) :: members, env =>
    if key = "results" then
      match v with
      | .arr elems => do
        let (arrays, final) ← arraysOf members env
        return ((env, elems) :: arrays, final)
      | v => v.mismatch "[]model.Result"
    else do
      let env ← decodeMember RunEnvelope.headerFields env (key, v)
      arraysOf members env

/--
The header is complete before every array that has elements, or nothing comes after it.
-/
def NoneLost {α : Type} : List (RunEnvelope × List α) → Prop
  | [] => True
  | a :: as => (a.2 ≠ [] → headerDone a.1 ∨ as = []) ∧ NoneLost as

/--
The header of an array that has elements, if it is complete, has the run and the machine that are
returned.
-/
def SameIDs (arrays : List (RunEnvelope × List Json)) (final : RunEnvelope) : Prop :=
  ∀ a ∈ arrays, a.2 ≠ [] → headerDone a.1 →
    a.1.runID = final.runID ∧ a.1.machine.id = final.machine.id

/--
What a document must satisfy for its results to be handed over as they should.
-/
def Steady (maxResults : Int) (members : List (String × Json)) : Prop :=
  ∀ arrays final, arraysOf members .zero = .ok (arrays, final) →
    NoneLost arrays ∧ SameIDs arrays final
    ∧ (0 < maxResults → ((resultElems members).length : Int) ≤ maxResults)

/--
One call for each element, in their order, within the limit, and each call sees the run and the
machine that are returned.
-/
structure Exact (members : List (String × Json)) (maxResults : Int) (env : RunEnvelope)
    (log : List Delivery) : Prop where
  results : (resultElems members).mapM (Result.decode · .zero) = .ok (log.map (·.result))
  bounded : 0 < maxResults → (log.length : Int) ≤ maxResults
  header : ∀ d ∈ log, headerDone d.env ∧ d.env.runID = env.runID
    ∧ d.env.machine.id = env.machine.id

section

variable {α : Type} {env final : RunEnvelope} {maxResults : Int} {log log' : List Delivery}
  {members : List (String × Json)} {s s' : Scan} {reads : List (RunEnvelope × List Result)}
  {arrays : List (RunEnvelope × List Json)}

def direct (a : RunEnvelope × List Result) : List Delivery :=
  if headerDone a.1 then deliveries a.1 a.2 0 else []

def pending : List (RunEnvelope × List Result) → List Result → List Result
  | [], buffered => buffered
  | a :: as, _ => pending as (if headerDone a.1 then [] else a.2)

theorem map_result_direct {a : RunEnvelope × List Result}
    : (direct a).map (·.result) = if headerDone a.1 then a.2 else [] := by
  unfold direct
  split
  . exact map_result_deliveries
  . rfl

theorem handed_cons {a : RunEnvelope × List Result} {buffered : List Result}
    : ((a :: reads).flatMap direct).map (·.result) ++ pending (a :: reads) buffered
      = if headerDone a.1 then
          a.2 ++ ((reads.flatMap direct).map (·.result) ++ pending reads [])
        else
          (reads.flatMap direct).map (·.result) ++ pending reads a.2 := by
  rw [List.flatMap_cons, List.map_append, map_result_direct, pending, List.append_assoc]
  split
  . rfl
  . exact List.nil_append _

theorem length_handed_le (reads : List (RunEnvelope × List Result)) (buffered : List Result)
    : ((reads.flatMap direct).map (·.result) ++ pending reads buffered).length
      ≤ buffered.length + (reads.flatMap (·.2)).length := by
  induction reads generalizing buffered with
  | nil => exact le_rfl
  | cons a as ih =>
    rw [handed_cons, List.flatMap_cons, List.length_append]
    split
    . have ih := ih []
      rw [List.length_nil] at ih
      rw [List.length_append]
      omega
    . have ih := ih a.2
      omega

theorem handed_eq_iff (reads : List (RunEnvelope × List Result)) (buffered : List Result)
    : (reads.flatMap direct).map (·.result) ++ pending reads buffered
        = buffered ++ reads.flatMap (·.2)
      ↔ (buffered ≠ [] → reads = []) ∧ NoneLost reads := by
  induction reads generalizing buffered with
  | nil => simp [pending, NoneLost]
  | cons a as ih =>
    by_cases hbuffered : buffered = []
    . rw [handed_cons, List.flatMap_cons, hbuffered, List.nil_append, NoneLost]
      split
      . rename_i hdone
        rw [List.append_right_inj]
        have ih := ih []
        rw [List.nil_append] at ih
        simp [ih, hdone]
      . rename_i hdone
        simp [ih, hdone]
    . -- what has been buffered is lost
      have hle : (((a :: as).flatMap direct).map (·.result) ++ pending (a :: as) buffered).length
          ≤ ((a :: as).flatMap (·.2)).length := by
        rw [handed_cons, List.flatMap_cons, List.length_append]
        split
        . have := length_handed_le as []
          rw [List.length_nil] at this
          rw [List.length_append]
          omega
        . exact length_handed_le as a.2
      constructor
      . intro h
        rw [h, List.length_append] at hle
        have := List.length_pos_iff.mpr hbuffered
        omega
      . rintro ⟨hnone, _⟩
        cases hnone hbuffered

theorem streamElems_le {elems : List Json} {i : Nat} {buffered : List Result}
    {found : Nat × List Result}
    (h : streamElems env maxResults (ofCallback record) elems i buffered log = .ok found log')
    (hne : elems ≠ []) (hmax : 0 < maxResults)
    : (i + elems.length : Int) ≤ maxResults := by
  induction elems generalizing i buffered log with
  | nil => exact absurd rfl hne
  | cons v vs ih =>
    have hlt : (i : Int) < maxResults := by
      by_contra hge
      have hcheck : checkMax maxResults i log = .error (.tooManyResults maxResults) log := by
        rw [checkMax, if_pos (by omega)]
        rfl
      rw [streamElems, bind_of_error hcheck] at h
      cases h
    rw [List.length_cons]
    by_cases hvs : vs = []
    . rw [hvs, List.length_nil]
      omega
    . obtain ⟨_, _, _, _, _, hrest⟩ := (streamElems_cons (fun _ => hlt)).mp h
      have := ih hrest hvs
      omega

/--
The elements of an array decode to these results, which come with the header as it was.
-/
structure Read (a : RunEnvelope × List Json) (r : RunEnvelope × List Result) : Prop where
  header : r.1 = a.1
  results : a.2.mapM (Result.decode · .zero) = .ok r.2

theorem Read.eq_nil {a : RunEnvelope × List Json} {r : RunEnvelope × List Result} (h : Read a r)
    : a.2 = [] ↔ r.2 = [] := by
  have hlength := (mapM_eq_ok.mp h.results).length_eq
  rw [← List.length_eq_zero_iff, ← List.length_eq_zero_iff, hlength]

theorem wantArray_ne_ok {tok : Token} {a : α}
    : (wantArray tok : EStateM GoError (List Delivery) α) log ≠ .ok a log' := by
  intro h
  obtain ⟨_, _, _, hthrow⟩ := bind_eq_ok.mp h
  cases hthrow

theorem streamMember_wantArray {tok : Token}
    (h : ((wrapError [.text "results"] (wantArray tok)) >>= fun (count, buffered) =>
      pure { s with count := count, buffered := buffered }) log = .ok s' log')
    : False := by
  obtain ⟨_, _, hwant, _⟩ := bind_eq_ok.mp h
  exact wantArray_ne_ok (wrapError_eq_ok.mp hwant)

theorem streamMember_arr {v : Json}
    (h : streamMember maxResults (ofCallback record) s ("results", v) log = .ok s' log')
    : ∃ elems rs, v = .arr elems ∧ Read (s.env, elems) (s.env, rs)
      ∧ s'.env = s.env ∧ log' = log ++ direct (s.env, rs)
      ∧ s'.buffered = if headerDone s.env then [] else rs := by
  cases v with
  | arr elems =>
    obtain ⟨found, helems, rfl⟩ := streamMember_results.mp h
    by_cases hnil : elems = []
    . subst hnil
      injection helems with hfound hlog
      subst hfound hlog
      exact ⟨[], [], rfl, ⟨rfl, rfl⟩, rfl, by simp [direct, deliveries], by simp⟩
    . have hmax := streamElems_le helems hnil
      obtain ⟨rs, hrs, _, _, hhandled⟩ := (streamElems_eq_ok hmax).mp helems
      refine ⟨elems, rs, rfl, ⟨rfl, hrs⟩, rfl, ?_⟩
      unfold Handled at hhandled
      unfold direct
      split at hhandled
      . rename_i hdone
        rw [if_pos hdone, if_pos hdone]
        exact ⟨hhandled.2, hhandled.1⟩
      . rename_i hdone
        rw [if_neg hdone, if_neg hdone, List.append_nil]
        exact ⟨hhandled.2, hhandled.1⟩
  | _ => exact absurd (streamMember_wantArray h) not_false

theorem streamBroken_ne_ok {at' : Broken}
    : streamBroken env maxResults (ofCallback record) at' log ≠ .ok () log' := by
  cases at' with
  | value err => nofun
  | object err => exact wantArray_ne_ok
  | array elems atElem err =>
    intro h
    obtain ⟨found, log₁, _, h₁⟩ := bind_eq_ok.mp h
    cases atElem with
    | false => cases h₁
    | true =>
      obtain ⟨_, _, _, hthrow⟩ := bind_eq_ok.mp h₁
      cases hthrow

theorem streamEnding_eq_ok {ending : Ending}
    (h : streamEnding maxResults (ofCallback record) s ending log = .ok () log')
    : ending = .closed ∧ log' = log := by
  cases ending with
  | closed =>
    injection h with _ hlog
    exact ⟨rfl, hlog.symm⟩
  | key err => cases h
  | value key at' =>
    exfalso
    unfold streamEnding at h
    dsimp only at h
    split at h
    . exact streamBroken_ne_ok (wrapError_eq_ok.mp h)
    . cases hfind : RunEnvelope.headerFields.find? (·.name = key) with
      | none =>
        rw [hfind] at h
        cases h
      | some f =>
        rw [hfind] at h
        cases at' <;> cases h

theorem streamMember_field {key : String} {v : Json} (hkey : key ≠ "results")
    (h : streamMember maxResults (ofCallback record) s (key, v) log = .ok s' log')
    : decodeMember RunEnvelope.headerFields s.env (key, v) = .ok s'.env ∧ log' = log
      ∧ s'.buffered = s.buffered := by
  unfold streamMember at h
  cases hfind : RunEnvelope.headerFields.find? (·.name = key) with
  | some f =>
    simp only [hkey, if_false, hfind] at h
    obtain ⟨env, log₁, hlift, hpure⟩ := bind_eq_ok.mp h
    obtain ⟨hdecode, hlog₁⟩ := liftResult_eq_ok.mp (wrapError_eq_ok.mp hlift)
    injection hpure with hs hlog
    subst hs
    refine ⟨?_, hlog.symm.trans hlog₁, rfl⟩
    unfold decodeMember lookup
    rw [hfind]
    exact except_mapError_eq_ok.mpr hdecode
  | none =>
    simp only [hkey, if_false, hfind] at h
    cases h

theorem streamMembers_reads
    (h : streamMembers maxResults (ofCallback record) members s log = .ok s' log')
    : ∃ arrays reads, arraysOf members s.env = .ok (arrays, s'.env) ∧ List.Forall₂ Read arrays reads
      ∧ log' = log ++ reads.flatMap direct ∧ s'.buffered = pending reads s.buffered := by
  induction members generalizing s log with
  | nil =>
    injection h with hs hlog
    subst hs hlog
    exact ⟨[], [], rfl, .nil, (List.append_nil _).symm, rfl⟩
  | cons member members ih =>
    obtain ⟨key, v⟩ := member
    obtain ⟨s₁, log₁, hmember, hrest⟩ := bind_eq_ok.mp h
    obtain ⟨arrays, reads, harrays, hreads, hlog, hbuffered⟩ := ih hrest
    unfold arraysOf
    by_cases hkey : key = "results"
    . subst hkey
      obtain ⟨elems, rs, rfl, hread, henv, hlog₁, hbuffered₁⟩ := streamMember_arr hmember
      rw [henv] at harrays
      refine ⟨(s.env, elems) :: arrays, (s.env, rs) :: reads, ?_, .cons hread hreads, ?_, ?_⟩
      . rw [if_pos rfl]
        exact except_bind_eq_ok.mpr ⟨_, harrays, rfl⟩
      . rw [hlog, hlog₁, List.flatMap_cons, List.append_assoc]
      . rw [hbuffered, hbuffered₁]
        rfl
    . obtain ⟨hdecode, rfl, hbuffered₁⟩ := streamMember_field hkey hmember
      refine ⟨arrays, reads, ?_, hreads, hlog, hbuffered.trans (congrArg _ hbuffered₁)⟩
      rw [if_neg hkey]
      exact except_bind_eq_ok.mpr ⟨_, hdecode, harrays⟩

theorem resultElems_eq (h : arraysOf members env = .ok (arrays, final))
    : resultElems members = arrays.flatMap (·.2) := by
  induction members generalizing env arrays with
  | nil =>
    injection h with h
    injection h with harrays _
    subst harrays
    rfl
  | cons member members ih =>
    obtain ⟨key, v⟩ := member
    unfold arraysOf at h
    unfold resultElems
    rw [List.flatMap_cons]
    split at h
    . rename_i hkey
      subst hkey
      split at h
      . obtain ⟨⟨arrays', final'⟩, hrest, hpure⟩ := except_bind_eq_ok.mp h
        injection hpure with hpure
        injection hpure with harrays hfinal
        subst harrays hfinal
        exact congrArg _ (ih hrest)
      . cases h
    . rename_i hkey
      obtain ⟨env', _, hrest⟩ := except_bind_eq_ok.mp h
      rw [← ih hrest]
      split
      . rename_i hmember
        injection hmember with hname _
        exact absurd hname hkey
      . rfl

theorem reads_results (h : List.Forall₂ Read arrays reads)
    : (arrays.flatMap (·.2)).mapM (Result.decode · .zero) = .ok (reads.flatMap (·.2)) := by
  induction h with
  | nil => rfl
  | cons hread _ ih => exact mapM_append_eq_ok.mpr ⟨_, _, hread.results, ih, rfl⟩

theorem noneLost_reads (h : List.Forall₂ Read arrays reads) : NoneLost arrays ↔ NoneLost reads := by
  induction h with
  | nil => rfl
  | cons hread hrest ih =>
    have hnil : ∀ {as : List (RunEnvelope × List Json)} {rs : List (RunEnvelope × List Result)},
        List.Forall₂ Read as rs → (as = [] ↔ rs = []) := by
      intro as rs hall
      rw [← List.length_eq_zero_iff, ← List.length_eq_zero_iff, hall.length_eq]
    rw [NoneLost, NoneLost, ih, hread.header, Ne, hread.eq_nil, hnil hrest]

theorem sameIDs_iff (h : List.Forall₂ Read arrays reads)
    : SameIDs arrays final ↔ ∀ d ∈ reads.flatMap direct,
      d.env.runID = final.runID ∧ d.env.machine.id = final.machine.id := by
  unfold SameIDs
  induction h with
  | nil => simp
  | @cons a r as rs hread hrest ih =>
    rw [List.forall_mem_cons, ih, List.flatMap_cons, List.forall_mem_append]
    apply and_congr_left'
    unfold direct
    rw [hread.header, Ne, hread.eq_nil]
    split
    . rename_i hdone
      constructor
      . intro hsame d hd
        rw [env_of_deliveries hd]
        apply hsame _ hdone
        rintro hnil
        rw [hnil] at hd
        cases hd
      . intro hsame hne _
        obtain ⟨x, xs, hx⟩ := List.exists_cons_of_ne_nil hne
        rw [hx, deliveries_cons] at hsame
        exact hsame _ List.mem_cons_self
    . rename_i hdone
      simp [hdone]

theorem headerDone_of_direct {d : Delivery} (h : d ∈ reads.flatMap direct) : headerDone d.env := by
  obtain ⟨r, _, hd⟩ := List.mem_flatMap.mp h
  unfold direct at hd
  split at hd
  . rename_i hdone
    rwa [env_of_deliveries hd]
  . cases hd

end

theorem delivers_steps {body : Body} {maxResults : Int} {env : RunEnvelope} {log : List Delivery}
    (h : Delivers body maxResults env log)
    : ∃ members s log', body = .object members .closed
      ∧ streamMembers maxResults (ofCallback record) members
        { env := .zero, count := 0, buffered := [] } [] = .ok s log'
      ∧ env = s.env ∧ log = log' ++ deliveries env s.buffered 0
      ∧ env.validateHeader s.count = .ok () := by
  cases body with
  | unreadable err => cases h
  | other tok =>
    obtain ⟨_, _, _, hthrow⟩ := bind_eq_ok.mp h
    cases hthrow
  | object members ending =>
    obtain ⟨s, log', hmembers, h₁⟩ := bind_eq_ok.mp h
    obtain ⟨_, log₁, hending, h₂⟩ := bind_eq_ok.mp h₁
    obtain ⟨_, log₂, hreplay, h₃⟩ := bind_eq_ok.mp h₂
    obtain ⟨_, log₃, hvalid, hpure⟩ := bind_eq_ok.mp h₃
    obtain ⟨hheader, hlog₃⟩ := liftResult_eq_ok.mp hvalid
    injection hpure with henv hlog
    obtain ⟨rfl, rfl⟩ := streamEnding_eq_ok hending
    rw [replay_record] at hreplay
    injection hreplay with _ hreplay
    subst henv
    exact ⟨members, s, log₁, rfl, hmembers, rfl, by rw [← hlog, hlog₃, hreplay], hheader⟩

/--
The results of a document that the decoder accepts are handed over as they should, if and only if the
document is steady.
-/
theorem exact_iff_steady (body : Body) (maxResults : Int) (env : RunEnvelope) (log : List Delivery)
    (h : Delivers body maxResults env log)
    : ∃ members, body = .object members .closed
      ∧ (Exact members maxResults env log ↔ Steady maxResults members) := by
  obtain ⟨members, s, log', rfl, hmembers, rfl, hlog, hheader⟩ := delivers_steps h
  refine ⟨members, rfl, ?_⟩
  obtain ⟨arrays, reads, harrays, hreads, hlog', hbuffered⟩ := streamMembers_reads hmembers
  rw [List.nil_append] at hlog'
  have helems := resultElems_eq harrays
  have hresults := reads_results hreads
  rw [← helems] at hresults
  have hlength := (mapM_eq_ok.mp hresults).length_eq
  -- what has been handed over
  have hhanded : log.map (·.result) = (reads.flatMap direct).map (·.result) ++ pending reads [] := by
    rw [hlog, hlog', List.map_append, map_result_deliveries, hbuffered]
  have hnone : log.map (·.result) = reads.flatMap (·.2) ↔ NoneLost arrays := by
    rw [hhanded, noneLost_reads hreads]
    have hiff := handed_eq_iff reads []
    rw [List.nil_append] at hiff
    simpa using hiff
  obtain ⟨_, _, hchecked, _⟩ := RunEnvelope.validateHeader_eq_ok.mp hheader
  constructor
  . intro hexact arrays' final harrays'
    cases harrays.symm.trans harrays'
    have hsame : log.map (·.result) = reads.flatMap (·.2) :=
      Except.ok.inj (hexact.results.symm.trans hresults)
    refine ⟨hnone.mp hsame, (sameIDs_iff hreads).mpr ?_, ?_⟩
    . intro d hd
      exact (hexact.header d (by rw [hlog, hlog']; exact List.mem_append_left _ hd)).2
    . intro hmax
      rw [hlength, ← hsame, List.length_map]
      exact hexact.bounded hmax
  . intro hsteady
    obtain ⟨hkept, hids, hbound⟩ := hsteady arrays s.env harrays
    have hsame := hnone.mpr hkept
    refine ⟨hresults.trans (congrArg Except.ok hsame.symm), ?_, ?_⟩
    . intro hmax
      rw [← List.length_map (f := (·.result)), hsame, ← hlength]
      exact hbound hmax
    . intro d hd
      rw [hlog, hlog'] at hd
      obtain hd | hd := List.mem_append.mp hd
      . exact ⟨headerDone_of_direct hd, (sameIDs_iff hreads).mp hids d hd⟩
      . rw [env_of_deliveries hd]
        exact ⟨hchecked.headerDone, rfl, rfl⟩

def trialOf (trial : String) : Json :=
  .obj [("workload", .str "cpu_int"), ("thread_count", .num "1"), ("working_set_bytes", .num "0"),
    ("metric", .str "cpu_int_ops"), ("value", .num "1"), ("unit", .str "ops/s"),
    ("trial", .num trial), ("timestamp", .str "2026-09-21T10:00:00Z"), ("duration_ns", .num "1")]

def twoArrays : List (String × Json) :=
  [("schema_version", .num "1"), ("started_at", .str "2026-09-21T10:00:00Z"),
    ("finished_at", .str "2026-09-21T10:00:01Z"), ("results", .arr [trialOf "0"]),
    ("results", .arr [trialOf "1"]), ("run_id", .str "11111111-2222-4333-8444-555555555555"),
    ("machine", .obj [("id", .str "ffffffffffffffffffffffffffffffff"), ("hostname", .str "h"),
      ("cpu_model", .str "c"), ("physical_cores", .num "1"), ("logical_cpus", .num "1"),
      ("l1d_kb", .num "0"), ("l2_kb", .num "0"), ("l3_kb", .num "0"), ("memory_bytes", .num "0"),
      ("os", .str "o"), ("kernel", .str "k"), ("compiler", .str "gcc"), ("compiler_flags", .str ""),
      ("engine_version", .str "1"), ("engine_git_sha", .str "0")])]

theorem delivers_twoArrays
    : ∃ env log, Delivers (.object twoArrays .closed) 10 env log ∧ log.length = 1 := by
  have haccepted : (match StreamRunEnvelope (.object twoArrays .closed) 10 (ofCallback record) [] with
      | .ok _ log => decide (log.length = 1)
      | .error _ _ => false) = true := by
    decide +kernel
  split at haccepted
  . rename_i env log hdelivers
    exact ⟨env, log, hdelivers, of_decide_eq_true haccepted⟩
  . cases haccepted

/--
The first array is forgotten.
-/
theorem twoArrays_not_exact
    : ¬∀ env log, Delivers (.object twoArrays .closed) 10 env log → Exact twoArrays 10 env log := by
  intro h
  obtain ⟨env, log, hdelivers, hlength⟩ := delivers_twoArrays
  have hresults := (mapM_eq_ok.mp (h env log hdelivers).results).length_eq
  rw [List.length_map, hlength] at hresults
  exact absurd hresults (by decide)

theorem exact_iff_steady_twoArrays
    : ∃ env log, Delivers (.object twoArrays .closed) 10 env log ∧ ∃ members,
        Body.object twoArrays .closed = .object members .closed
        ∧ (Exact members 10 env log ↔ Steady 10 members) := by
  obtain ⟨env, log, hdelivers, _⟩ := delivers_twoArrays
  exact ⟨env, log, hdelivers, exact_iff_steady _ 10 env log hdelivers⟩

end Model
end Api
