import BenchPlatform.Wire.Sent

/-!
This module proves how the streaming decoder takes the documents that the engine writes: the run id
comes after the results, so all of them are read, checked and kept before the first is handed over.
-/

namespace Api
namespace Model

open Program Json

section

variable {σ : Type} {fn : ResultFunc σ} {env : RunEnvelope} {maxResults : Int} {v : Json} {i : Nat}

theorem returns_liftResult {α : Type} {x : Except GoError α}
    : Returns (σ := σ) (liftResult x) fun a => x = .ok a := by
  cases x with
  | ok b =>
    refine Returns.pure.congr fun a => ?_
    rw [Except.ok.injEq]
    exact eq_comm
  | error err =>
    refine Returns.throw.congr fun a => iff_of_false id ?_
    intro h
    cases h

theorem returns_checkMax : Returns (σ := σ) (checkMax maxResults i) fun _ => 0 < maxResults → i < maxResults := by
  unfold checkMax
  split
  . exact Returns.throw.congr fun _ => iff_of_false id (by omega)
  . exact Returns.pure.congr fun _ => iff_of_true rfl (by omega)

theorem returns_readResult
    : Returns (σ := σ) (readResult v i) fun r => Result.decode v .zero = .ok r ∧ r.Valid := by
  unfold readResult wrapError
  refine (returns_liftResult.adaptExcept.bind (Q := fun r r' => r' = r ∧ r.Valid) ?_).congr ?_
  . intro r _
    dsimp only
    split
    . rename_i hvalid
      have hr := (Result.validate_eq_nil.mp hvalid).2
      exact Returns.pure.congr fun r' => (and_iff_left hr).symm
    . rename_i hinvalid
      refine Returns.throw.congr fun r' => iff_of_false id ?_
      rintro ⟨_, hr⟩
      exact hinvalid (Result.validate_eq_nil.mpr ⟨rfl, hr⟩)
  . intro r'
    constructor
    . rintro ⟨r, hdecode, rfl, hr⟩
      exact ⟨hdecode, hr⟩
    . rintro ⟨hdecode, hr⟩
      exact ⟨r', hdecode, rfl, hr⟩

theorem returns_streamElems (hdone : ¬headerDone env) {vs : List Json} {buffered : List Result}
    : Returns (streamElems env maxResults fn vs i buffered) fun found =>
        (vs = [] ∨ maxResults ≤ 0 ∨ i + vs.length ≤ maxResults)
        ∧ ∃ rs, vs.mapM (Result.decode · .zero) = .ok rs ∧ (∀ r ∈ rs, r.Valid)
          ∧ found = (i + rs.length, buffered ++ rs) := by
  induction vs generalizing i buffered with
  | nil =>
    refine Returns.pure.congr fun found => ?_
    constructor
    . rintro rfl
      exact ⟨.inl rfl, [], rfl, fun r hr => absurd hr List.not_mem_nil, by simp⟩
    . rintro ⟨_, rs, hrs, _, rfl⟩
      injection hrs with hrs
      subst hrs
      simp
  | cons v vs ih =>
    have hkeeps : streamElems env maxResults fn (v :: vs) i buffered = (do
        checkMax maxResults i
        let r ← readResult v i
        streamElems env maxResults fn vs (i + 1) (buffered ++ [r])) := by
      rw [streamElems]
      simp only [if_neg hdone]
    rw [hkeeps]
    refine (returns_checkMax.bind fun _ _ => returns_readResult.bind fun r _ => ih).congr fun found => ?_
    simp only [List.length_cons, Nat.cast_add, Nat.cast_one, List.mapM_cons, except_bind_eq_ok]
    constructor
    . rintro ⟨_, hmax, r, ⟨hdecode, hr⟩, hroom, rs, hrs, hvalid, rfl⟩
      refine ⟨.inr ?_, r :: rs, ⟨r, hdecode, rs, hrs, rfl⟩, List.forall_mem_cons.mpr ⟨hr, hvalid⟩, ?_⟩
      . obtain rfl | hroom := hroom
        . rw [List.length_nil]
          omega
        . omega
      . rw [List.length_cons, List.append_assoc, List.singleton_append, Nat.add_assoc, Nat.add_comm 1]
    . rintro ⟨hroom, _, ⟨r, hdecode, rs, hrs, hpure⟩, hvalid, rfl⟩
      injection hpure with hpure
      subst hpure
      rw [List.forall_mem_cons] at hvalid
      have hroom := hroom.resolve_left (List.cons_ne_nil v vs)
      refine ⟨(), by omega, r, ⟨hdecode, hvalid.1⟩, .inr ?_, rs, hrs, hvalid.2, ?_⟩
      . omega
      . rw [List.length_cons, List.append_assoc, List.singleton_append, Nat.add_assoc, Nat.add_comm 1]

theorem returns_streamMember_header {s : Scan} {member : String × Json} (hkey : member.1 ∈ RunEnvelope.headerKeys)
    : Returns (streamMember maxResults fn s member) fun s' =>
        ∃ env, RunEnvelope.decodeHeader [member] s.env = .ok env ∧ s' = { s with env := env } := by
  obtain ⟨key, v⟩ := member
  obtain ⟨f, hf, hname, hfind⟩ := exists_find hkey
  have hne : key ≠ "results" := fun h => RunEnvelope.results_not_mem_headerKeys (h ▸ hkey)
  unfold streamMember wrapError
  dsimp only
  rw [if_neg hne, hfind]
  refine (returns_liftResult.adaptExcept.bind fun env _ => Returns.pure).congr fun s' => ?_
  simp only [RunEnvelope.decodeHeader_cons_eq_ok hkey]
  constructor
  . rintro ⟨env, henv, rfl⟩
    exact ⟨env, ⟨f, hf, env, hname, hfind, henv, rfl⟩, rfl⟩
  . rintro ⟨env, ⟨f', _, env₁, _, hfind', henv, hnil⟩, rfl⟩
    cases hfind.symm.trans hfind'
    injection hnil with hnil
    subst hnil
    exact ⟨env₁, henv, rfl⟩

theorem decodeHeader_append {members members' : List (String × Json)} {env env' : RunEnvelope}
    : RunEnvelope.decodeHeader (members ++ members') env = .ok env'
      ↔ ∃ env₁, RunEnvelope.decodeHeader members env = .ok env₁ ∧ RunEnvelope.decodeHeader members' env₁ = .ok env' := by
  unfold RunEnvelope.decodeHeader
  rw [List.foldlM_append, except_bind_eq_ok]

theorem decodeHeader_cons {member : String × Json} {members : List (String × Json)} {env env' : RunEnvelope}
    : RunEnvelope.decodeHeader (member :: members) env = .ok env'
      ↔ ∃ env₁, RunEnvelope.decodeHeader [member] env = .ok env₁ ∧ RunEnvelope.decodeHeader members env₁ = .ok env' := by
  rw [← List.singleton_append]
  exact decodeHeader_append

theorem returns_streamMembers_header {members : List (String × Json)} {s : Scan}
    (hknown : ∀ m ∈ members, m.1 ∈ RunEnvelope.headerKeys)
    : Returns (streamMembers maxResults fn members s) fun s' =>
        ∃ env, RunEnvelope.decodeHeader members s.env = .ok env ∧ s' = { s with env := env } := by
  induction members generalizing s with
  | nil =>
    refine Returns.pure.congr fun s' => ?_
    constructor
    . rintro rfl
      exact ⟨s'.env, rfl, rfl⟩
    . rintro ⟨env, henv, rfl⟩
      injection henv with henv
      rw [← henv]
  | cons member members ih =>
    rw [List.forall_mem_cons] at hknown
    refine ((returns_streamMember_header hknown.1).bind fun s₁ _ => ih hknown.2).congr fun s' => ?_
    constructor
    . rintro ⟨_, ⟨env₁, henv₁, rfl⟩, env, henv, rfl⟩
      exact ⟨env, decodeHeader_cons.mpr ⟨env₁, henv₁, henv⟩, rfl⟩
    . rintro ⟨env, henv, rfl⟩
      obtain ⟨env₁, henv₁, henv⟩ := decodeHeader_cons.mp henv
      exact ⟨_, ⟨env₁, henv₁, rfl⟩, env, henv, rfl⟩

theorem returns_streamMember_results {s : Scan} (hdone : ¬headerDone s.env) {vs : List Json}
    : Returns (streamMember maxResults fn s ("results", .arr vs)) fun s' =>
        (vs = [] ∨ maxResults ≤ 0 ∨ vs.length ≤ maxResults)
        ∧ ∃ rs, vs.mapM (Result.decode · .zero) = .ok rs ∧ (∀ r ∈ rs, r.Valid)
          ∧ s' = { s with count := rs.length, buffered := rs } := by
  unfold streamMember wrapError
  dsimp only
  rw [if_pos rfl]
  refine ((returns_streamElems hdone).adaptExcept.bind fun found _ => Returns.pure).congr fun s' => ?_
  simp only [Nat.cast_zero, zero_add, List.nil_append]
  constructor
  . rintro ⟨_, ⟨hroom, rs, hrs, hvalid, rfl⟩, rfl⟩
    exact ⟨hroom, rs, hrs, hvalid, rfl⟩
  . rintro ⟨hroom, rs, hrs, hvalid, rfl⟩
    exact ⟨_, ⟨hroom, rs, hrs, hvalid, rfl⟩, rfl⟩

theorem streamMembers_append_eq {members members' : List (String × Json)} {s : Scan}
    : streamMembers maxResults fn (members ++ members') s
      = streamMembers maxResults fn members s >>= streamMembers maxResults fn members' := by
  induction members generalizing s with
  | nil => rfl
  | cons member members ih =>
    rw [List.cons_append, streamMembers, streamMembers, bind_assoc]
    congr 1
    funext s₁
    exact ih

end

namespace Layout

variable {σ : Type} {fn : ResultFunc σ} {o : Layout} {maxResults : Int}

/--
The results stand before the run id or the machine.
-/
def Late (o : Layout) : Prop :=
  ∀ first, RunEnvelope.decodeHeader o.before .zero = .ok first → ¬headerDone first

theorem returns_streamMembers (hlate : o.Late)
    : Returns (streamMembers maxResults fn o.members { env := .zero, count := 0, buffered := [] }) fun s =>
        (o.elems = [] ∨ maxResults ≤ 0 ∨ o.elems.length ≤ maxResults)
        ∧ ∃ first env rs, o.Decodes first env rs ∧ (∀ r ∈ rs, r.Valid)
          ∧ s = { env := env, count := rs.length, buffered := rs } := by
  unfold members
  rw [streamMembers_append_eq]
  refine ((returns_streamMembers_header o.known_before).bind (Q := fun s s' =>
      (o.elems = [] ∨ maxResults ≤ 0 ∨ o.elems.length ≤ maxResults)
      ∧ ∃ rs env, o.elems.mapM (Result.decode · .zero) = .ok rs ∧ (∀ r ∈ rs, r.Valid)
        ∧ RunEnvelope.decodeHeader o.after s.env = .ok env
        ∧ s' = { env := env, count := rs.length, buffered := rs }) ?_).congr fun s' => ?_
  . rintro _ ⟨first, hfirst, rfl⟩
    have hresults : Returns (streamMember maxResults fn { env := first, count := 0, buffered := [] }
        ("results", .arr o.elems)) _ := returns_streamMember_results (hlate first hfirst)
    refine (hresults.bind fun s₁ _ => returns_streamMembers_header o.known_after).congr fun s' => ?_
    constructor
    . rintro ⟨_, ⟨hroom, rs, hrs, hvalid, rfl⟩, env, henv, rfl⟩
      exact ⟨hroom, rs, env, hrs, hvalid, henv, rfl⟩
    . rintro ⟨hroom, rs, env, hrs, hvalid, henv, rfl⟩
      exact ⟨_, ⟨hroom, rs, hrs, hvalid, rfl⟩, env, henv, rfl⟩
  . constructor
    . rintro ⟨_, ⟨first, hfirst, rfl⟩, hroom, rs, env, hrs, hvalid, henv, rfl⟩
      exact ⟨hroom, first, env, rs, ⟨hfirst, hrs, henv⟩, hvalid, rfl⟩
    . rintro ⟨hroom, first, env, rs, hdecodes, hvalid, rfl⟩
      exact ⟨_, ⟨first, hdecodes.before, rfl⟩, hroom, rs, env, hdecodes.results, hvalid, hdecodes.after, rfl⟩

/--
If the results stand before the run id or the machine, nothing is handed over before the whole envelope
has been read and every result has been checked. Then all results are, with the complete header.
-/
theorem Late.streamed (hlate : o.Late) (s : σ)
    : (∀ first env rs, o.Decodes first env rs → (∀ r ∈ rs, r.Valid) →
        (o.elems = [] ∨ maxResults ≤ 0 ∨ o.elems.length ≤ maxResults) →
        StreamRunEnvelope (.object o.members .closed) maxResults fn s
          = (do replay env fn rs 0; liftResult (env.validateHeader rs.length); return env) s)
      ∧ ((∀ first env rs, o.Decodes first env rs → (∀ r ∈ rs, r.Valid) →
          ¬(o.elems = [] ∨ maxResults ≤ 0 ∨ o.elems.length ≤ maxResults)) →
        ∃ err, StreamRunEnvelope (.object o.members .closed) maxResults fn s = .error err s) := by
  have hmembers : Returns
      (streamMembers maxResults fn o.members { env := .zero, count := 0, buffered := [] }) _ :=
    returns_streamMembers hlate
  constructor
  . intro first env rs hdecodes hvalid hroom
    have hscan := hmembers.returns ⟨hroom, first, env, rs, hdecodes, hvalid, rfl⟩ s
    exact bind_of_ok hscan
  . intro hnone
    have hfails : ∃ err, streamMembers maxResults fn o.members { env := .zero, count := 0, buffered := [] } s
        = .error err s := by
      apply hmembers.fails
      rintro _ ⟨hroom, first, env, rs, hdecodes, hvalid, _⟩
      exact hnone first env rs hdecodes hvalid hroom
    obtain ⟨err, herr⟩ := hfails
    exact ⟨err, bind_of_error herr⟩

end Layout

end Model
end Api

namespace Bench
namespace RunEnvelope

open Api Model

variable {format_double : Float64 → String} {run : RunEnvelope Float64}

theorem wire_late (hfits : run.Fits) : (run.wire format_double).Late := by
  intro f hf hdone
  obtain ⟨_, rfl⟩ := (decode_before hfits f).mp hf
  exact hdone.1 rfl

theorem wire_streamed (htext : ReadsBack format_double) (hfits : run.Fits)
    (hdoubles : ∀ x ∈ run.doubles, IsDouble x) (maxResults : Int) {σ : Type} (fn : ResultFunc σ) (s : σ)
    : (run.InInt64 → (∀ r ∈ run.results, (r.sent format_double received).Valid) →
        (run.results = [] ∨ maxResults ≤ 0 ∨ run.results.length ≤ maxResults) →
        StreamRunEnvelope (.object (run.wire format_double).members .closed) maxResults fn s
          = (do
            replay (run.sent received) fn (run.results.map (Result.sent format_double received)) 0
            liftResult ((run.sent received).validateHeader run.results.length)
            return run.sent received) s)
      ∧ (¬(run.InInt64 ∧ (∀ r ∈ run.results, (r.sent format_double received).Valid)
          ∧ (run.results = [] ∨ maxResults ≤ 0 ∨ run.results.length ≤ maxResults)) →
        ∃ err, StreamRunEnvelope (.object (run.wire format_double).members .closed) maxResults fn s
          = .error err s) := by
  obtain ⟨hwhole, hnone⟩ : _ ∧ (_ → ∃ err, StreamRunEnvelope _ maxResults fn s = .error err s) :=
    (wire_late hfits).streamed s
  have hroom : ((run.wire format_double).elems = [] ∨ maxResults ≤ 0
        ∨ (run.wire format_double).elems.length ≤ maxResults)
      ↔ run.results = [] ∨ maxResults ≤ 0 ∨ run.results.length ≤ maxResults := by
    unfold wire
    dsimp only
    rw [List.map_eq_nil_iff, List.length_map]
  rw [hroom] at hwhole hnone
  constructor
  . intro hint hvalid hsmall
    have hdecodes := (wire_decodes htext hfits hdoubles).mpr ⟨hint, rfl, rfl, rfl⟩
    rw [hwhole _ _ _ hdecodes (List.forall_mem_map.mpr hvalid) hsmall, List.length_map]
  . intro hnot
    apply hnone
    intro f env rs hdecodes hvalid hsmall
    obtain ⟨hint, _, _, rfl⟩ := (wire_decodes htext hfits hdoubles).mp hdecodes
    exact hnot ⟨hint, List.forall_mem_map.mp hvalid, hsmall⟩

end RunEnvelope
end Bench
