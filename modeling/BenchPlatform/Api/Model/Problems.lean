import BenchPlatform.Api.Model.RepeatedResults
import Mathlib.Data.List.Perm.Basic

/-!
This module compares the problems that the two validations of a rejected envelope report. The one of the whole
envelope reports all of them as far as there is room; the streaming decoder stops at the first result that has
some.
-/

namespace Api
namespace Model

open Program

/--
A validation that finds these problems, whatever has been found before, as long as there is room.
-/
def Adds (f : Problems → Problems) (msgs : List Message) : Prop :=
  ∀ p : Problems, p.length ≤ maxProblems → f p = (p ++ msgs).take maxProblems

/--
A validation that finds at most so many problems.
-/
def Finds (n : Nat) (f : Problems → Problems) : Prop :=
  ∃ msgs : List Message, msgs.length ≤ n ∧ Adds f msgs

section

variable {f g : Problems → Problems} {msgs msgs' : List Message} {n m : Nat}

theorem take_take_append {α : Type} (n : Nat) (xs ys : List α) : (xs.take n ++ ys).take n = (xs ++ ys).take n := by
  rw [List.take_append, List.take_append, List.take_take, Nat.min_self, List.length_take]
  congr 2
  omega

theorem Adds.comp (hf : Adds f msgs) (hg : Adds g msgs') : Adds (fun p => g (f p)) (msgs ++ msgs') := by
  intro p hp
  have htaken : ((p ++ msgs).take maxProblems).length ≤ maxProblems := List.length_take_le _ _
  change g (f p) = _
  rw [hf p hp, hg _ htaken, take_take_append, List.append_assoc]

theorem Adds.id : Adds (fun p => p) [] := by
  intro p hp
  rw [List.append_nil, List.take_of_length_le hp]

theorem adds_addf (msg : Message) : Adds (·.addf msg) [msg] := by
  intro p hp
  change p.addf msg = _
  unfold Problems.addf
  split
  . rename_i hroom
    rw [List.take_of_length_le (by rw [List.length_append, List.length_singleton]; omega)]
  . rename_i hfull
    rw [List.take_append_of_le_length (by omega), List.take_of_length_le hp]

theorem Finds.comp (hf : Finds n f) (hg : Finds m g) : Finds (n + m) fun p => g (f p) := by
  obtain ⟨msgs, hn, hf⟩ := hf
  obtain ⟨msgs', hm, hg⟩ := hg
  refine ⟨msgs ++ msgs', ?_, hf.comp hg⟩
  rw [List.length_append]
  omega

theorem Finds.adds (h : Finds n f) (hn : n ≤ maxProblems) : Adds f (f []) ∧ (f []).length ≤ n := by
  obtain ⟨msgs, hlength, hadds⟩ := h
  have hnil : f [] = msgs := by
    rw [hadds [] (Nat.zero_le _), List.nil_append, List.take_of_length_le (by omega)]
  rw [hnil]
  exact ⟨hadds, hlength⟩

theorem Finds.le (h : Finds n f) (hle : n ≤ m) : Finds m f := by
  obtain ⟨msgs, hn, hadds⟩ := h
  exact ⟨msgs, Nat.le_trans hn hle, hadds⟩

theorem Finds.congr (h : Finds n f) (heq : ∀ p, g p = f p) : Finds n g :=
  funext heq ▸ h

theorem finds_addf {msg : Message} : Finds 1 (·.addf msg) :=
  ⟨[msg], Nat.le_refl _, adds_addf msg⟩

theorem finds_check {ok : Prop} [Decidable ok] {msg : Message} : Finds 1 (·.check ok msg) := by
  unfold Problems.check
  by_cases h : ok
  . exact ⟨[], Nat.zero_le _, by simpa only [h, if_true] using Adds.id⟩
  . exact ⟨[msg], Nat.le_refl _, by simpa only [h, if_false] using adds_addf msg⟩

theorem finds_addErr {α : Type} {at' : Message} {x : Except GoError α} : Finds 1 (·.addErr at' x) := by
  cases x with
  | ok a => exact ⟨[], Nat.zero_le _, Adds.id⟩
  | error err => exact ⟨_, Nat.le_refl _, adds_addf _⟩

theorem finds_foldl {α : Type} {ok : α → Prop} [DecidablePred ok] {msg : α → Message} (l : List α)
    : Finds l.length fun p => l.foldl (fun p a => p.check (ok a) (msg a)) p := by
  induction l with
  | nil => exact ⟨[], Nat.le_refl _, Adds.id⟩
  | cons a l ih =>
    rw [List.length_cons, Nat.add_comm]
    exact finds_check.comp ih

theorem finds_machine (m : Machine) : Finds 14 m.validate :=
  finds_check.comp (finds_foldl m.required) |>.comp finds_check |>.comp finds_check |>.comp (finds_foldl m.caches)
    |>.comp finds_check

theorem finds_known (r : Result) (i : Nat) : Finds 8 (r.validateKnown i) :=
  finds_check.comp finds_check |>.comp finds_check |>.comp finds_check |>.comp finds_check |>.comp finds_check
    |>.comp finds_addErr |>.comp finds_check

theorem finds_result (r : Result) (i : Nat) : Finds 9 (r.validate i) := by
  have hworkload : Finds 1 (·.check (ValidWorkload r.workload)
      (Result.at' i "workload" ++ [.text ": unknown workload ", .quoted r.workload])) := finds_check
  unfold Result.validate
  by_cases hmetric : ValidMetric r.metric
  . exact (hworkload.comp (finds_known r i)).congr fun p => if_pos hmetric
  . exact (hworkload.comp finds_addf).le (by decide) |>.congr fun p => if_neg hmetric

theorem adds_result (r : Result) (i : Nat) : Adds (r.validate i) (r.validate i []) ∧ (r.validate i []).length ≤ 9 :=
  (finds_result r i).adds (by decide)

end

namespace RunEnvelope

def resultProblems (rs : List Result) (i : Nat) : List Message :=
  (rs.zipIdx i).flatMap fun (r, i) => r.validate i []

def headerProblems (e : RunEnvelope) : Problems :=
  let started := ParseTimestamp e.startedAt
  let finished := ParseTimestamp e.finishedAt
  let p := (e.validateIDs.addErr [.text "started_at"] started).addErr [.text "finished_at"] finished
  e.machine.validate (e.validateOrder started finished p)

def allProblems (e : RunEnvelope) : List Message :=
  e.headerProblems ++ resultProblems (e.results.getD []) 0

theorem adds_results (rs : List Result) (i : Nat) : Adds (validateResults rs i) (resultProblems rs i) := by
  induction rs generalizing i with
  | nil => exact .id
  | cons r rs ih => exact (adds_result r i).1.comp (ih (i + 1))

theorem finds_order (e : RunEnvelope) (started finished : Except GoError Time)
    : Finds 1 (e.validateOrder started finished) := by
  cases finished with
  | error err => exact Finds.le ⟨[], Nat.le_refl _, Adds.id⟩ (Nat.zero_le _)
  | ok finish => exact finds_check

def fieldProblems (e : RunEnvelope) : Problems :=
  (e.validateIDs.addErr [.text "started_at"] (ParseTimestamp e.startedAt)).addErr [.text "finished_at"]
    (ParseTimestamp e.finishedAt)

theorem fieldProblems_length (e : RunEnvelope) : e.fieldProblems.length ≤ 4 :=
  (finds_check.comp finds_check |>.comp finds_addErr |>.comp finds_addErr : Finds 4 _).adds (by decide) |>.2

theorem headerProblems_length (e : RunEnvelope) : e.headerProblems.length ≤ 19 :=
  (finds_check.comp finds_check |>.comp finds_addErr |>.comp finds_addErr |>.comp (finds_order e _ _)
    |>.comp (finds_machine e.machine) : Finds 19 _).adds (by decide) |>.2

theorem Validate_eq (e : RunEnvelope)
    : e.Validate = if e.allProblems = [] then .ok () else .error (.validation (e.allProblems.take maxProblems)) := by
  have hresults := adds_results (e.results.getD []) 0 e.headerProblems
    (Nat.le_trans e.headerProblems_length (by decide))
  have hvalidate : e.Validate = if validateResults (e.results.getD []) 0 e.headerProblems = [] then .ok ()
      else .error (.validation (validateResults (e.results.getD []) 0 e.headerProblems)) := rfl
  rw [hvalidate, hresults]
  change (if e.allProblems.take maxProblems = [] then _
    else Except.error (GoError.validation (e.allProblems.take maxProblems))) = _
  by_cases hnone : e.allProblems = []
  . rw [hnone, List.take_nil, if_pos rfl]
  . have htaken : e.allProblems.take maxProblems ≠ [] :=
      fun hnil => hnone ((List.take_eq_nil_iff.mp hnil).resolve_left (by decide))
    rw [if_neg hnone, if_neg htaken]

/--
A run that finishes before the zero time, where it started. The whole envelope does not compare with it.
-/
def ZeroStart (e : RunEnvelope) : Prop :=
  ∃ start finish, ParseTimestamp e.startedAt = .ok start ∧ ParseTimestamp e.finishedAt = .ok finish ∧ start.IsZero
    ∧ finish.Before start

def streamedOrder (e : RunEnvelope) (p : Problems) : Problems :=
  match ParseTimestamp e.startedAt, ParseTimestamp e.finishedAt with
  | .ok start, .ok finish =>
    p.check (¬finish.Before start)
      [.text ("finished_at " ++ e.finishedAt ++ " is before started_at " ++ e.startedAt)]
  | _, _ => p

theorem validateHeader_of_ne_zero {e : RunEnvelope} {n : Nat} (hn : n ≠ 0)
    : e.validateHeader n = if e.machine.validate (e.streamedOrder e.fieldProblems) = [] then .ok ()
      else .error (.validation (e.machine.validate (e.streamedOrder e.fieldProblems))) := by
  have hresults : ∀ (p : Problems) msg, p.check (n ≠ 0) msg = p := fun p msg => if_pos hn
  unfold validateHeader
  simp only [hresults]
  rfl

theorem check_congr {p : Problems} {a b : Prop} [Decidable a] [Decidable b] {msg : Message} (h : a ↔ b)
    : p.check a msg = p.check b msg := by
  unfold Problems.check
  by_cases hb : b
  . rw [if_pos hb, if_pos (h.mpr hb)]
  . rw [if_neg hb, if_neg (h.not.mpr hb)]

theorem streamedOrder_eq {e : RunEnvelope} (h : ¬e.ZeroStart) (p : Problems)
    : e.streamedOrder p = e.validateOrder (ParseTimestamp e.startedAt) (ParseTimestamp e.finishedAt) p := by
  unfold streamedOrder validateOrder
  cases hfinish : ParseTimestamp e.finishedAt with
  | error err =>
    cases ParseTimestamp e.startedAt with
    | error err => rfl
    | ok start => rfl
  | ok finish =>
    cases hstart : ParseTimestamp e.startedAt with
    | error err => exact (if_pos (.inl rfl)).symm
    | ok start =>
      have hsame : ¬finish.Before start ↔ start.IsZero ∨ ¬finish.Before start := by
        refine ⟨.inr, fun hor => ?_⟩
        obtain hzero | hbefore := hor
        . exact fun hbefore => h ⟨start, finish, hstart, hfinish, hzero, hbefore⟩
        . exact hbefore
      exact check_congr hsame

theorem streamed_of_zeroStart {e : RunEnvelope} (h : e.ZeroStart)
    : (e.machine.validate (e.streamedOrder e.fieldProblems)).length = e.headerProblems.length + 1 := by
  obtain ⟨start, finish, hstart, hfinish, hzero, hbefore⟩ := h
  have hfields := e.fieldProblems_length
  obtain ⟨hadds, hmachine⟩ := (finds_machine e.machine).adds (by decide)
  have hmax : maxProblems = 20 := rfl
  have hheader : e.headerProblems = e.machine.validate e.fieldProblems := by
    change e.machine.validate (e.validateOrder _ _ e.fieldProblems) = _
    rw [hstart, hfinish]
    exact congrArg e.machine.validate (if_pos (.inl hzero))
  generalize hmsg : Piece.text ("finished_at " ++ e.finishedAt ++ " is before started_at " ++ e.startedAt) = msg
  have hstreamed : e.streamedOrder e.fieldProblems = e.fieldProblems ++ [[msg]] := by
    unfold streamedOrder
    rw [hstart, hfinish]
    change e.fieldProblems.check (¬finish.Before start) _ = _
    rw [Problems.check, if_neg (not_not_intro hbefore), Problems.addf, if_pos (by omega), hmsg]
  have hlonger : (e.fieldProblems ++ [[msg]]).length = e.fieldProblems.length + 1 := List.length_append
  rw [hheader, hstreamed, hadds e.fieldProblems (by omega), hadds (e.fieldProblems ++ [[msg]]) (by omega)]
  simp only [List.length_take, List.length_append, List.length_cons, List.length_nil]
  omega

end RunEnvelope

section Streaming

variable {σ : Type} {fn : ResultFunc σ} {env : RunEnvelope} {maxResults : Int}

def Accepting (fn : ResultFunc σ) : Prop :=
  ∀ env i r s, ∃ s', fn env i r s = .ok () s'

theorem wrapError_of_error {α : Type} {msg : Message} {x : EStateM GoError σ α} {s s' : σ} {err : GoError}
    (h : x s = .error err s')
    : wrapError msg x s = .error (.wrap msg err) s' := by
  unfold wrapError EStateM.adaptExcept
  rw [h]

theorem readResult_eq {v : Json} {r : Result} (hdecode : Result.decode v .zero = .ok r) (i : Nat) (s : σ)
    : readResult v i s = if r.validate i [] = [] then .ok r s else .error (.validation (r.validate i [])) s := by
  have hread : wrapError (elemPath i) (liftResult (Result.decode v .zero)) s = .ok r s := by
    rw [wrapError_eq_ok, liftResult_eq_ok]
    exact ⟨hdecode, rfl⟩
  unfold readResult
  rw [bind_of_ok hread]
  by_cases hnone : r.validate i [] = []
  . simp only [hnone, if_true, pure_apply]
  . simp only [hnone, if_false]
    rfl

theorem checkMax_of_room {i : Nat} (hroom : 0 < maxResults → (i : Int) < maxResults) (s : σ)
    : checkMax maxResults i s = .ok () s := by
  unfold checkMax
  rw [if_neg (by omega)]
  rfl

theorem streamElems_of_valid (hfn : Accepting fn) {v : Json} {r : Result} {i : Nat}
    (hroom : 0 < maxResults → (i : Int) < maxResults) (hdecode : Result.decode v .zero = .ok r) (hvalid : r.Valid)
    (env : RunEnvelope) (vs : List Json) (buffered : List Result) (s : σ)
    : ∃ buffered' s', streamElems env maxResults fn (v :: vs) i buffered s
      = streamElems env maxResults fn vs (i + 1) buffered' s' := by
  have hread := readResult_eq hdecode i s
  rw [if_pos (Result.validate_eq_nil.mpr ⟨rfl, hvalid⟩)] at hread
  rw [streamElems, bind_of_ok (checkMax_of_room hroom s), bind_of_ok hread]
  split
  . obtain ⟨s', hcall⟩ := hfn env i r s
    exact ⟨buffered, s', bind_of_ok hcall⟩
  . exact ⟨buffered ++ [r], s, rfl⟩

theorem streamElems_of_invalid {v : Json} {vs : List Json} {r : Result} {i : Nat}
    (hroom : 0 < maxResults → (i : Int) < maxResults) (hdecode : Result.decode v .zero = .ok r) (hvalid : ¬r.Valid)
    (buffered : List Result) (s : σ)
    : streamElems env maxResults fn (v :: vs) i buffered s = .error (.validation (r.validate i [])) s := by
  have hread := readResult_eq hdecode i s
  rw [if_neg fun hnil => hvalid (Result.validate_eq_nil.mp hnil).2] at hread
  rw [streamElems, bind_of_ok (checkMax_of_room hroom s), bind_of_error hread]

theorem streamElems_valid (hfn : Accepting fn) (env : RunEnvelope) {elems : List Json} {rs : List Result}
    (hdecode : List.Forall₂ (fun v r => Result.decode v .zero = .ok r) elems rs) (hvalid : ∀ r ∈ rs, r.Valid) {i : Nat}
    (hroom : 0 < maxResults → (i + rs.length : Int) ≤ maxResults) (buffered : List Result) (s : σ)
    : ∃ buffered' s', streamElems env maxResults fn elems i buffered s = .ok (i + rs.length, buffered') s' := by
  induction hdecode generalizing i buffered s with
  | nil => exact ⟨buffered, s, rfl⟩
  | @cons v r vs rs hfirst hrest ih =>
    rw [List.forall_mem_cons] at hvalid
    rw [List.length_cons] at hroom ⊢
    obtain ⟨buffered', s', heq⟩ :=
      streamElems_of_valid (i := i) hfn (fun hmax => by have := hroom hmax; omega) hfirst hvalid.1 env vs buffered s
    obtain ⟨buffered'', s'', hvs⟩ :=
      ih (i := i + 1) hvalid.2 (fun hmax => by have := hroom hmax; omega) buffered' s'
    refine ⟨buffered'', s'', ?_⟩
    rw [heq, hvs, Nat.add_assoc, Nat.add_comm 1]

theorem streamElems_invalid (hfn : Accepting fn) (env : RunEnvelope) {elems : List Json} {pre post : List Result}
    {r : Result}
    (hdecode : List.Forall₂ (fun v r => Result.decode v .zero = .ok r) elems (pre ++ r :: post))
    (hpre : ∀ r ∈ pre, r.Valid) (hr : ¬r.Valid) {i : Nat}
    (hroom : 0 < maxResults → (i + elems.length : Int) ≤ maxResults) (buffered : List Result) (s : σ)
    : ∃ s', streamElems env maxResults fn elems i buffered s
      = .error (.validation (r.validate (i + pre.length) [])) s' := by
  induction pre generalizing elems i buffered s with
  | nil =>
    cases hdecode with
    | cons hfirst hrest =>
      rw [List.length_cons] at hroom
      exact ⟨s, streamElems_of_invalid (fun hmax => by have := hroom hmax; omega) hfirst hr buffered s⟩
  | cons r' pre ih =>
    cases hdecode with
    | @cons v _ vs _ hfirst hrest =>
      rw [List.forall_mem_cons] at hpre
      rw [List.length_cons] at hroom
      obtain ⟨buffered', s', heq⟩ := streamElems_of_valid (i := i) hfn
        (fun hmax => by have := hroom hmax; omega) hfirst hpre.1 env vs buffered s
      obtain ⟨s'', hvs⟩ :=
        ih (i := i + 1) hrest hpre.2 (fun hmax => by have := hroom hmax; omega) buffered' s'
      refine ⟨s'', ?_⟩
      rw [heq, hvs, List.length_cons, Nat.add_assoc, Nat.add_comm 1]

theorem replay_accepting (hfn : Accepting fn) (env : RunEnvelope) (rs : List Result) (i : Nat) (s : σ)
    : ∃ s', replay env fn rs i s = .ok () s' := by
  induction rs generalizing i s with
  | nil => exact ⟨s, rfl⟩
  | cons r rs ih =>
    obtain ⟨s', hcall⟩ := hfn env i r s
    rw [replay, bind_of_ok hcall]
    exact ih (i + 1) s'

theorem streamMembers_of_ok {members members' : List (String × Json)} {scan scan' : Scan} {s s' : σ}
    (h : streamMembers maxResults fn members scan s = .ok scan' s')
    : streamMembers maxResults fn (members ++ members') scan s = streamMembers maxResults fn members' scan' s' := by
  induction members generalizing scan s with
  | nil =>
    cases h
    rfl
  | cons member members ih =>
    rw [streamMembers, bind_eq_ok] at h
    obtain ⟨scan₁, s₁, hmember, hrest⟩ := h
    rw [List.cons_append, streamMembers, bind_of_ok hmember, ih hrest]

namespace Layout

variable {o : Layout} {first : RunEnvelope} {rs : List Result}

theorem streamMembers_members (h : o.Decodes first env rs) (s : σ)
    : streamMembers maxResults fn o.members { env := .zero, count := 0, buffered := [] } s
      = streamMembers maxResults fn (("results", .arr o.elems) :: o.after)
          { env := first, count := 0, buffered := [] } s :=
  streamMembers_of_ok ((streamMembers_header o.known_before).mpr ⟨first, h.before, rfl, rfl⟩)

theorem stream_of_valid (hfn : Accepting fn) (h : o.Decodes first env rs) (hvalid : ∀ r ∈ rs, r.Valid)
    (hmax : 0 < maxResults → (o.elems.length : Int) ≤ maxResults) (s : σ)
    : ∃ s', StreamRunEnvelope (.object o.members .closed) maxResults fn s
      = (do liftResult (env.validateHeader rs.length); return env : EStateM GoError σ RunEnvelope) s' := by
  have hlength := h.length
  obtain ⟨buffered, s₁, helems⟩ :=
    streamElems_valid (i := 0) hfn first (mapM_eq_ok.mp h.results) hvalid
      (fun hpos => by have := hmax hpos; omega) [] s
  obtain ⟨s₂, hreplay⟩ := replay_accepting hfn env buffered 0 s₁
  have hmember : streamMember maxResults fn { env := first, count := 0, buffered := [] } ("results", .arr o.elems) s
      = .ok { env := first, count := rs.length, buffered := buffered } s₁ := by
    have hresults : wrapError [.text "results"] (streamResults first maxResults fn (.arr o.elems)) s
        = .ok (rs.length, buffered) s₁ := by
      rw [wrapError_eq_ok]
      exact helems.trans (by rw [Nat.zero_add])
    unfold streamMember
    simp only [if_true, bind_of_ok hresults, pure_apply]
  have hmembers : streamMembers maxResults fn o.members { env := .zero, count := 0, buffered := [] } s
      = .ok { env := env, count := rs.length, buffered := buffered } s₁ := by
    rw [streamMembers_members h, streamMembers, bind_of_ok hmember]
    exact (streamMembers_header o.known_after).mpr ⟨env, h.after, rfl, rfl⟩
  have hending : streamEnding maxResults fn { env := env, count := rs.length, buffered := buffered } .closed s₁
      = .ok () s₁ := rfl
  refine ⟨s₂, ?_⟩
  unfold StreamRunEnvelope
  dsimp only
  rw [bind_of_ok hmembers, bind_of_ok hending, bind_of_ok hreplay]

theorem stream_of_invalid (hfn : Accepting fn) {pre post : List Result} {r : Result}
    (h : o.Decodes first env (pre ++ r :: post)) (hpre : ∀ r ∈ pre, r.Valid) (hr : ¬r.Valid)
    (hmax : 0 < maxResults → (o.elems.length : Int) ≤ maxResults) (s : σ)
    : ∃ s', StreamRunEnvelope (.object o.members .closed) maxResults fn s
      = .error (.wrap [.text "results"] (.validation (r.validate pre.length []))) s' := by
  obtain ⟨s₁, helems⟩ :=
    streamElems_invalid (i := 0) hfn first (mapM_eq_ok.mp h.results) hpre hr
      (fun hpos => by have := hmax hpos; omega) [] s
  rw [Nat.zero_add] at helems
  have hmember : streamMember maxResults fn { env := first, count := 0, buffered := [] } ("results", .arr o.elems) s
      = .error (.wrap [.text "results"] (.validation (r.validate pre.length []))) s₁ := by
    have hresults : wrapError [.text "results"] (streamResults first maxResults fn (.arr o.elems)) s
        = .error (.wrap [.text "results"] (.validation (r.validate pre.length []))) s₁ := wrapError_of_error helems
    unfold streamMember
    simp only [if_true, bind_of_error hresults]
  have hmembers : streamMembers maxResults fn o.members { env := .zero, count := 0, buffered := [] } s
      = .error (.wrap [.text "results"] (.validation (r.validate pre.length []))) s₁ := by
    rw [streamMembers_members h, streamMembers, bind_of_error hmember]
  refine ⟨s₁, ?_⟩
  unfold StreamRunEnvelope
  dsimp only
  rw [bind_of_error hmembers]

end Layout

/--
The streaming decoder rejects a body with some problems of the envelope: with all of them up to their order, as far
as there is room.
-/
def ReportsAll (e : RunEnvelope) (outcome : EStateM.Result GoError σ RunEnvelope) : Prop :=
  ∃ err s' q, ∃ all : List Message, outcome = .error err s' ∧ err.cause = .validation q ∧ all.Perm e.allProblems
    ∧ q = all.take maxProblems

/--
All that is wrong with an envelope is wrong with its header, and both validations compare its timestamps in the same
way, or it is wrong with one result.
-/
def InOnePlace (e : RunEnvelope) : Prop :=
  (∀ r ∈ e.results.getD [], r.Valid) ∧ ¬e.ZeroStart
    ∨ e.headerProblems = [] ∧ ∃ pre r post, e.results.getD [] = pre ++ r :: post ∧ ∀ r ∈ pre ++ post, r.Valid

namespace RunEnvelope

theorem resultProblems_eq_nil {rs : List Result} {i : Nat} : resultProblems rs i = [] ↔ ∀ r ∈ rs, r.Valid := by
  induction rs generalizing i with
  | nil => simp [resultProblems]
  | cons r rs ih =>
    have hcons : resultProblems (r :: rs) i = r.validate i [] ++ resultProblems rs (i + 1) := rfl
    rw [hcons, List.append_eq_nil_iff, ih, Result.validate_eq_nil, List.forall_mem_cons]
    simp only [true_and]

theorem resultProblems_append (rs rs' : List Result) (i : Nat)
    : resultProblems (rs ++ rs') i = resultProblems rs i ++ resultProblems rs' (i + rs.length) := by
  unfold resultProblems
  rw [List.zipIdx_append, List.flatMap_append]

theorem resultProblems_split {pre post : List Result} {r : Result} (hpre : ∀ r ∈ pre, r.Valid)
    : resultProblems (pre ++ r :: post) 0 = r.validate pre.length [] ++ resultProblems post (pre.length + 1) := by
  have hcons : resultProblems (r :: post) pre.length
      = r.validate pre.length [] ++ resultProblems post (pre.length + 1) := rfl
  rw [resultProblems_append, resultProblems_eq_nil.mpr hpre, List.nil_append, Nat.zero_add, hcons]

end RunEnvelope

theorem exists_first_invalid {rs : List Result} (h : ¬∀ r ∈ rs, r.Valid)
    : ∃ pre r post, rs = pre ++ r :: post ∧ (∀ r ∈ pre, r.Valid) ∧ ¬r.Valid := by
  classical
  push Not at h
  obtain ⟨r, hr, hvalid⟩ := h
  have hsome : (rs.find? fun r => ¬r.Valid).isSome := List.find?_isSome.mpr ⟨r, hr, decide_eq_true hvalid⟩
  obtain ⟨first, hfind⟩ := Option.isSome_iff_exists.mp hsome
  obtain ⟨hfirst, pre, post, heq, hpre⟩ := List.find?_eq_some_iff_append.mp hfind
  refine ⟨pre, first, post, heq, fun r hr => ?_, of_decide_eq_true hfirst⟩
  simpa using hpre r hr

theorem valid_of_split {pre post pre' post' : List Result} {r r' : Result} (hr : ¬r.Valid)
    (hsame : pre ++ r :: post = pre' ++ r' :: post') (hvalid : ∀ r ∈ pre' ++ post', r.Valid)
    : ∀ r ∈ post, r.Valid := by
  rw [List.forall_mem_append] at hvalid
  obtain ⟨mid, hmid, hrest⟩ | ⟨mid, hmid, hrest⟩ := List.append_eq_append_iff.mp hsame
  . cases mid with
    | nil =>
      injection hrest with _ hpost
      exact hpost ▸ hvalid.2
    | cons a mid =>
      injection hrest with hhead _
      exact absurd (hvalid.1 r (by simp [hmid, hhead])) hr
  . cases mid with
    | nil =>
      injection hrest with _ hpost
      exact hpost ▸ hvalid.2
    | cons a mid =>
      injection hrest with _ hpost
      exact absurd (hvalid.2 r (by simp [hpost])) hr

variable {e : RunEnvelope} {s : σ}

theorem reportsAll_header {n : Nat} (hn : n ≠ 0) (hheader : e.allProblems = env.headerProblems)
    (hnone : env.headerProblems ≠ [])
    : ReportsAll e ((do liftResult (env.validateHeader n); return env : EStateM GoError σ RunEnvelope) s)
      ↔ ¬env.ZeroStart := by
  have hlength := env.headerProblems_length
  have hmax : maxProblems = 20 := rfl
  generalize hp : env.machine.validate (env.streamedOrder env.fieldProblems) = p
  have hvalidate : p ≠ [] → env.validateHeader n = .error (.validation p) := by
    intro hne
    rw [RunEnvelope.validateHeader_of_ne_zero hn, hp, if_neg hne]
  constructor
  . rintro ⟨err, s', q, all, houtcome, hcause, hperm, hq⟩ hzero
    have hlonger := RunEnvelope.streamed_of_zeroStart hzero
    rw [hp] at hlonger
    have hne : p ≠ [] := List.ne_nil_of_length_pos (by omega)
    rw [hvalidate hne] at houtcome
    injection houtcome with herr _
    rw [← herr] at hcause
    injection hcause with hcause
    have hall := hperm.length_eq
    rw [hcause, hq, List.length_take, hall, hheader] at hlonger
    omega
  . intro hzero
    have hsame : p = env.headerProblems := by
      rw [← hp, RunEnvelope.streamedOrder_eq hzero]
      rfl
    refine ⟨.validation p, s, p, p, ?_, rfl, ?_, ?_⟩
    . rw [hvalidate (hsame ▸ hnone)]
      rfl
    . rw [hheader, hsame]
    . rw [List.take_of_length_le (by rw [hsame]; omega)]

theorem reportsAll_result {before after problems : Problems} (hall : e.allProblems = before ++ (problems ++ after))
    (hlength : problems.length ≤ 9) {msg : Message}
    : ReportsAll e (.error (.wrap msg (.validation problems)) s : EStateM.Result GoError σ RunEnvelope)
      ↔ before = [] ∧ after = [] := by
  have hmax : maxProblems = 20 := rfl
  constructor
  . rintro ⟨err, s', q, all, houtcome, hcause, hperm, hq⟩
    injection houtcome with herr _
    rw [← herr, GoError.cause_wrap] at hcause
    injection hcause with hcause
    have hcount := hperm.length_eq
    rw [hall, List.length_append, List.length_append] at hcount
    have htaken : problems.length = min maxProblems all.length := by rw [hcause, hq, List.length_take]
    exact ⟨List.eq_nil_of_length_eq_zero (by omega), List.eq_nil_of_length_eq_zero (by omega)⟩
  . rintro ⟨rfl, rfl⟩
    refine ⟨_, s, problems, problems, rfl, rfl, ?_, ?_⟩
    . rw [hall, List.nil_append, List.append_nil]
    . rw [List.take_of_length_le (by omega)]

/--
An envelope that is rejected as a whole is rejected with all of its problems. The streaming decoder reports the same
if and only if they are all in one place.
-/
theorem reportsAll_iff_inOnePlace (hfn : Accepting fn) (o : Layout) (e : RunEnvelope) (p : List Message)
    (hdecode : RunEnvelope.decode (.obj o.members) = .ok e) (hreject : e.Validate = .error (.validation p))
    (hne : o.elems ≠ []) (hmax : 0 < maxResults → (o.elems.length : Int) ≤ maxResults) (s : σ)
    : p = e.allProblems.take maxProblems
      ∧ (ReportsAll e (StreamRunEnvelope (.object o.members .closed) maxResults fn s) ↔ InOnePlace e) := by
  obtain ⟨first, env, rs, hdecodes, rfl⟩ := Layout.decode_eq_ok.mp hdecode
  have hrs : rs.length ≠ 0 := by
    rw [hdecodes.length]
    exact fun hzero => hne (List.eq_nil_of_length_eq_zero hzero)
  rw [RunEnvelope.Validate_eq] at hreject
  split at hreject
  . cases hreject
  rename_i hnone
  injection hreject with hreject
  injection hreject with hreject
  refine ⟨hreject.symm, ?_⟩
  have hall : (env.withResults rs).allProblems = env.headerProblems ++ RunEnvelope.resultProblems rs 0 := rfl
  by_cases hvalid : ∀ r ∈ rs, r.Valid
  . obtain ⟨s', hstream⟩ := Layout.stream_of_valid hfn hdecodes hvalid hmax s
    rw [RunEnvelope.resultProblems_eq_nil.mpr hvalid, List.append_nil] at hall
    have hheader : env.headerProblems ≠ [] := hall ▸ hnone
    rw [hstream, reportsAll_header hrs hall hheader]
    constructor
    . exact fun hzero => .inl ⟨hvalid, hzero⟩
    . rintro (⟨_, hzero⟩ | ⟨hheader', _⟩)
      . exact hzero
      . exact absurd hheader' hheader
  . obtain ⟨pre, r, post, rfl, hpre, hr⟩ := exists_first_invalid hvalid
    obtain ⟨s', hstream⟩ := Layout.stream_of_invalid hfn hdecodes hpre hr hmax s
    rw [RunEnvelope.resultProblems_split hpre] at hall
    rw [hstream, reportsAll_result hall (adds_result r pre.length).2, RunEnvelope.resultProblems_eq_nil]
    constructor
    . rintro ⟨hheader, hpost⟩
      exact .inr ⟨hheader, pre, r, post, rfl, List.forall_mem_append.mpr ⟨hpre, hpost⟩⟩
    . rintro (⟨hall', _⟩ | ⟨hheader, pre', r', post', hsame, hvalid'⟩)
      . exact absurd hall' hvalid
      . exact ⟨hheader, valid_of_split hr hsame hvalid'⟩

end Streaming

/--
An envelope in the order of the schema with a fault in its header and one in its only result.
-/
def twoFaults : Layout where
  before := [("schema_version", .num "2"), ("run_id", .str "11111111-2222-4333-8444-555555555555"),
    ("started_at", .str "2026-09-21T10:00:00Z"), ("finished_at", .str "2026-09-21T10:00:01Z"),
    ("machine", .obj [("id", .str "ffffffffffffffffffffffffffffffff"), ("hostname", .str "h"), ("cpu_model", .str "c"),
      ("physical_cores", .num "1"), ("logical_cpus", .num "1"), ("l1d_kb", .num "0"), ("l2_kb", .num "0"),
      ("l3_kb", .num "0"), ("memory_bytes", .num "0"), ("os", .str "o"), ("kernel", .str "k"), ("compiler", .str "gcc"),
      ("compiler_flags", .str ""), ("engine_version", .str "1"), ("engine_git_sha", .str "0")])]
  elems := [trialOf "-1"]
  after := []
  known := by decide
  unrepeated := by decide

theorem accepting_record : Accepting (ofCallback record) :=
  fun _ _ _ _ => ⟨_, rfl⟩

theorem twoFaults_rejected
    : ∃ e p, RunEnvelope.decode (.obj twoFaults.members) = .ok e ∧ e.Validate = .error (.validation p)
      ∧ e.allProblems.length = 2 := by
  have hrejected : (match RunEnvelope.decode (.obj twoFaults.members) with
      | .ok e => decide (e.allProblems.length = 2)
      | .error _ => false) = true := by
    decide +kernel
  split at hrejected
  . rename_i e hdecode
    have hlength : e.allProblems.length = 2 := of_decide_eq_true hrejected
    have hnone : e.allProblems ≠ [] := List.ne_nil_of_length_pos (by omega)
    exact ⟨e, _, hdecode, by rw [RunEnvelope.Validate_eq, if_neg hnone], hlength⟩
  . cases hrejected

/--
Only the fault of the result is reported.
-/
theorem twoFaults_not_reportsAll
    : ¬∀ e p, RunEnvelope.decode (.obj twoFaults.members) = .ok e → e.Validate = .error (.validation p) →
        ReportsAll e (StreamRunEnvelope (.object twoFaults.members .closed) 10 (ofCallback record) []) := by
  intro h
  obtain ⟨e, p, hdecode, hreject, hlength⟩ := twoFaults_rejected
  have hstopped : (match StreamRunEnvelope (.object twoFaults.members .closed) 10 (ofCallback record) [] with
      | .ok _ _ => false
      | .error err _ => match err.cause with
        | .validation q => decide (q.length = 1)
        | _ => false) = true := by
    decide +kernel
  obtain ⟨err, s', q, all, houtcome, hcause, hperm, hq⟩ := h e p hdecode hreject
  rw [houtcome] at hstopped
  dsimp only at hstopped
  rw [hcause] at hstopped
  have hone : q.length = 1 := of_decide_eq_true hstopped
  rw [hq, List.length_take, hperm.length_eq, hlength] at hone
  exact absurd hone (by decide)

theorem reportsAll_iff_inOnePlace_twoFaults
    : ∃ e p, RunEnvelope.decode (.obj twoFaults.members) = .ok e ∧ e.Validate = .error (.validation p)
      ∧ p = e.allProblems.take maxProblems
      ∧ (ReportsAll e (StreamRunEnvelope (.object twoFaults.members .closed) 10 (ofCallback record) [])
        ↔ InOnePlace e) := by
  obtain ⟨e, p, hdecode, hreject, _⟩ := twoFaults_rejected
  exact ⟨e, p, hdecode, hreject,
    reportsAll_iff_inOnePlace accepting_record twoFaults e p hdecode hreject (by decide) (by decide) []⟩

end Model
end Api
