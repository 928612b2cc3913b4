import BenchPlatform.Api.Http.Ingest
import BenchPlatform.Api.Model.Conforms
import BenchPlatform.Api.Model.Problems
import BenchPlatform.Api.Store.Pending
import BenchPlatform.Api.Store.Blameless

/-!
This module proves which documents that break the rules of an envelope are answered as errors of the client: those that
the decoder refuses for something else than a `results` field that is no array, after it has handed over nothing that
cannot be stored.
-/

namespace Api

namespace Model

def Broken.error : Broken → ReadError
  | .value err | .object err | .array _ _ err => err

def Ending.error? : Ending → Option ReadError
  | .closed => none
  | .key err => some err
  | .value _ at' => some at'.error

def Body.error? : Body → Option ReadError
  | .unreadable err => some err
  | .other _ => none
  | .object _ ending => ending.error?

/--
The connection has not failed while the body was read.
-/
def Body.Received (body : Body) : Prop :=
  ∀ msg, body.error? ≠ some (.io msg)

def Body.members : Body → List (String × Json)
  | .object members _ => members
  | _ => []

def Scan.start : Scan where
  env := .zero
  count := 0
  buffered := []

end Model

namespace Http

open Model Store Program Hoare Json

/--
The texts by which `isDecodeError` knows an error of the decoder.
-/
def decodeTexts : List String :=
  ["unknown field", "run envelope:", "cannot unmarshal", "invalid character"]

def Clients (fmt : Format) (err : GoError) : Prop :=
  err.OfDocument ∨ ∃ s ∈ decodeTexts, mentions fmt err.message s = true

theorem contains_iff {needle cs : List Char} : contains needle cs = true ↔ needle <:+: cs := by
  induction cs with
  | nil => rw [contains, List.isEmpty_iff, List.infix_nil]
  | cons c cs ih => rw [contains, Bool.or_eq_true, List.isPrefixOf_iff_prefix, ih, List.infix_cons_iff]

section

variable {fmt : Format} {err : GoError} {msg : Message}

theorem Clients.wrap (h : Clients fmt err) : Clients fmt (.wrap msg err) := by
  obtain h | ⟨s, hs, h⟩ := h
  . exact .inl h
  . refine .inr ⟨s, hs, contains_iff.mpr ((contains_iff.mp h).trans ?_)⟩
    unfold Message.render
    rw [GoError.message, List.flatMap_append, List.flatMap_cons, ← List.append_assoc]
    exact (List.suffix_append _ _).isInfix

theorem Clients.of_text {s t : String} (hs : s ∈ decodeTexts) (ht : .text t ∈ err.message)
    (hin : s.toList <:+: t.toList)
    : Clients fmt err := by
  refine .inr ⟨s, hs, contains_iff.mpr (hin.trans ?_)⟩
  obtain ⟨pre, post, hsplit⟩ := List.append_of_mem ht
  rw [hsplit, Message.render, List.flatMap_append, List.flatMap_cons]
  exact ⟨_, _, List.append_assoc _ _ _⟩

theorem Clients.answered (h : Clients fmt err)
    : (writeIngestError fmt err).status = 400 ∨ (writeIngestError fmt err).status = 413 := by
  obtain h | ⟨s, hs, h⟩ := h
  . unfold GoError.OfDocument at h
    unfold writeIngestError isDecodeError
    cases hcause : err.cause <;> rw [hcause] at h <;> first
      | exact .inl rfl
      | exact .inr rfl
      | exact h.elim
  . have hdecode : isDecodeError fmt err = true := by
      unfold isDecodeError
      split
      . rfl
      . rfl
      . rfl
      . rfl
      . simp only [decodeTexts, List.mem_cons, List.not_mem_nil, or_false] at hs
        obtain rfl | rfl | rfl | rfl := hs <;> simp only [h, Bool.or_true, Bool.true_or]
    unfold writeIngestError
    split
    . exact .inr rfl
    . exact .inl rfl
    . rw [if_pos hdecode]
      exact .inl rfl

end

/--
What the JSON decoder makes of a value that does not fit.
-/
inductive Misfit : GoError → Prop where
  | type (value type struct : String) (path : List String) : Misfit (.unmarshalType value type struct path)
  | field (key : String) : Misfit (.new [.text "json: unknown field ", .quoted key])

abbrev Decodes {α : Type} (x : Except GoError α) : Prop :=
  Fails Misfit x

namespace Misfit

variable {err : GoError} {name : String}

theorem inField (h : Misfit err) : Misfit (err.inField name) := by
  cases h with
  | type value type struct path => exact .type ..
  | field key => exact .field key

theorem inStruct (h : Misfit err) : Misfit (err.inStruct name) := by
  cases h with
  | type value type struct path =>
    unfold GoError.inStruct
    split
    . exact .type ..
    . exact .type ..
  | field key => exact .field key

theorem clients {fmt : Format} (h : Misfit err) : Clients fmt err := by
  cases h with
  | type value type struct path => exact .inl trivial
  | field key => exact .of_text List.mem_cons_self List.mem_cons_self (contains_iff.mp (by decide))

end Misfit

namespace Decodes

variable {α σ : Type} {v : Json}

theorem clients {fmt : Format} {x : Except GoError α} (h : Decodes x) : Fails (Clients fmt) x :=
  fun err herr => (h err herr).clients

theorem mismatch {type : String} : Decodes (v.mismatch type : Except GoError α) :=
  .error (.type ..)

theorem string (v : Json) (old : String) : Decodes (decodeString v old) := by
  unfold decodeString
  split
  . exact .ok
  . exact .ok
  . exact mismatch

theorem int {type : String} (v : Json) (old : Int) : Decodes (decodeInt type v old) := by
  unfold decodeInt
  split
  . exact .ok
  . split
    . exact .ok
    . exact mismatch
  . exact mismatch

theorem float (v : Json) (old : Float64) : Decodes (decodeFloat v old) := by
  unfold decodeFloat
  split
  . exact .ok
  . split
    . exact .ok
    . exact mismatch
  . exact mismatch

theorem raw (v : Json) (old : Option Json) : Decodes (decodeRaw v old) :=
  .ok

theorem elems {decode : Json → α → Except GoError α} {zero : α} (h : ∀ v old, Decodes (decode v old))
    (vs : List Json) (old : List α)
    : Decodes (decodeElems decode zero vs old) := by
  induction vs generalizing old with
  | nil => exact .ok
  | cons v vs ih => exact (h v _).bind fun _ => (ih _).bind fun _ => .ok

theorem slice {type : String} {decode : Json → α → Except GoError α} {zero : α}
    (h : ∀ v old, Decodes (decode v old)) (v : Json) (old : Option (List α))
    : Decodes (decodeSlice type decode zero v old) := by
  unfold decodeSlice
  split
  . exact .ok
  . exact (elems h _ _).map
  . exact mismatch

theorem field {name : String} {get : σ → α} {put : σ → α → σ} {decode : Json → α → Except GoError α}
    (h : ∀ v old, Decodes (decode v old)) (v : Json) (s : σ)
    : Decodes ((Json.field name get put decode).decode v s) :=
  (h v _).map

theorem struct {name : String} {fields : List (Json.Field σ)} (h : ∀ f ∈ fields, ∀ v s, Decodes (f.decode v s))
    (v : Json) (s : σ)
    : Decodes (decodeStruct name fields v s) := by
  unfold decodeStruct
  split
  . exact .ok
  . refine (Fails.foldlM (fun s member => ?_) _ _).mapError fun _ => Misfit.inStruct
    unfold decodeMember
    split
    . rename_i f hlookup
      have hf : f ∈ fields := by
        obtain hfind | ⟨_, hfind⟩ := Option.or_eq_some_iff.mp hlookup
        . exact List.mem_of_find?_eq_some hfind
        . exact List.mem_of_find?_eq_some hfind
      exact (h f hf _ _).mapError fun _ => Misfit.inField
    . exact .error (.field _)
  . exact mismatch

theorem machine (v : Json) (old : Machine) : Decodes (Machine.decode v old) := by
  refine struct ?_ v old
  simp only [Machine.fields, List.forall_mem_cons]
  repeat' first
    | exact field string
    | exact field int
    | apply And.intro
  exact fun _ hf => absurd hf List.not_mem_nil

theorem result (v : Json) (old : Result) : Decodes (Result.decode v old) := by
  refine struct ?_ v old
  simp only [Result.fields, List.forall_mem_cons]
  repeat' first
    | exact field string
    | exact field int
    | exact field float
    | exact field raw
    | apply And.intro
  exact fun _ hf => absurd hf List.not_mem_nil

theorem summary (v : Json) (old : Summary) : Decodes (Summary.decode v old) := by
  refine struct ?_ v old
  simp only [Summary.fields, List.forall_mem_cons]
  repeat' first
    | exact field string
    | exact field int
    | exact field float
    | apply And.intro
  exact fun _ hf => absurd hf List.not_mem_nil

theorem header {f : Json.Field RunEnvelope} (h : f ∈ RunEnvelope.headerFields) (v : Json) (env : RunEnvelope)
    : Decodes (f.decode v env) := by
  revert f
  simp only [RunEnvelope.headerFields, List.forall_mem_cons]
  refine ⟨field int v env, field string v env, field string v env, field string v env, field machine v env,
    field (slice string) v env, field (slice summary) v env, ?_⟩
  exact fun _ hf => absurd hf List.not_mem_nil

end Decodes

/--
The decoder refuses a value as one that is no array.
-/
def NoArray : Json → Prop
  | .arr _ => False
  | v => ∃ got, (firstToken v).format = .ok got

/--
After these members comes a `results` field that is no array.
-/
inductive OtherAfter : List (String × Json) → Body → Prop where
  | member {pre post : List (String × Json)} {v : Json} {ending : Ending} (h : NoArray v)
    : OtherAfter pre (.object (pre ++ ("results", v) :: post) ending)
  | broken {pre : List (String × Json)} {err : ReadError}
    : OtherAfter pre (.object pre (.value "results" (.object err)))

/--
The decoder reads the document as far as a `results` field that is no array.
-/
def StopsAtOther (maxResults : Int) (body : Body) : Prop :=
  ∃ pre s log, OtherAfter pre body ∧ streamMembers maxResults (ofCallback record) pre Model.Scan.start [] = .ok s log

abbrev Refuses {α : Type} (fmt : Format) (x : EStateM GoError (List Delivery) α) : Prop :=
  Triple (fun _ => True) x (fun _ _ => True) fun err _ => Clients fmt err

section

variable {α : Type} {fmt : Format} {env : RunEnvelope} {maxResults : Int} {log log' : List Delivery} {err : GoError}
  {s : Model.Scan} {v : Json}

theorem refuses_lift {x : Except GoError α} (h : Fails (Clients fmt) x) : Refuses fmt (liftResult x) := by
  cases x with
  | ok a => exact .pure fun _ _ => trivial
  | error err => exact .throw fun _ _ => h err rfl

theorem Refuses.wrap {x : EStateM GoError (List Delivery) α} {msg : Message} (h : Refuses fmt x)
    : Refuses fmt (wrapError msg x) := by
  intro log _
  have hx := h log trivial
  unfold wrapError EStateM.adaptExcept
  cases hlog : x log with
  | ok a log' => trivial
  | error err log' =>
    rw [hlog] at hx
    exact hx.wrap

theorem refuses_max {i : Nat} : Refuses fmt (checkMax maxResults i) :=
  .ite (fun _ => .throw fun _ _ => .inl trivial) fun _ => .pure fun _ _ => trivial

theorem refuses_readResult (v : Json) (i : Nat) : Refuses fmt (readResult v i) := by
  refine .bind (refuses_lift (Decodes.result v _).clients).wrap fun res => ?_
  exact .ite (fun _ => .pure fun _ _ => trivial) fun _ => .throw fun _ _ => .inl trivial

theorem refuses_streamElems (vs : List Json) (i : Nat) (buffered : List Result)
    : Refuses fmt (streamElems env maxResults (ofCallback record) vs i buffered) := by
  induction vs generalizing i buffered with
  | nil => exact .pure fun _ _ => trivial
  | cons v vs ih =>
    refine .bind refuses_max fun _ => .bind (refuses_readResult v i) fun res => .ite (fun _ => ?_) fun _ => ih _ _
    exact .bind (Q := fun _ _ => True) (fun _ _ => trivial) fun _ => ih _ _

theorem wantArray_error {tok : Model.Token}
    (h : (wantArray tok : EStateM GoError (List Delivery) α) log = .error err log')
    : Clients fmt err ∨ ∃ got, tok.format = .ok got := by
  unfold wantArray at h
  cases hformat : tok.format with
  | ok got => exact .inr ⟨got, rfl⟩
  | error err' =>
    rw [hformat] at h
    injection h with herr _
    subst herr
    cases tok with
    | num literal =>
      unfold Model.Token.format at hformat
      dsimp only at hformat
      split at hformat
      . cases hformat
      . cases hformat
        exact .inl (.inl trivial)
    | _ => cases hformat

theorem streamResults_error (h : streamResults env maxResults (ofCallback record) v log = .error err log')
    : Clients fmt err ∨ NoArray v := by
  cases v with
  | arr elems => exact .inl ((refuses_streamElems elems 0 []).of_error trivial h)
  | _ => exact wantArray_error h

theorem clients_unknownField {key : String}
    : Clients fmt (.new (runEnvelope ++ [.text ": unknown field ", .quoted key])) :=
  .of_text List.mem_cons_self (List.mem_cons_of_mem _ List.mem_cons_self) (contains_iff.mp (by decide))

theorem streamMember_error {key : String}
    (h : streamMember maxResults (ofCallback record) s (key, v) log = .error err log')
    : Clients fmt err ∨ key = "results" ∧ NoArray v := by
  unfold streamMember at h
  dsimp only at h
  split at h
  . rename_i hkey
    obtain h | ⟨_, _, _, h⟩ := bind_eq_error.mp h
    . obtain ⟨err', hresults, rfl⟩ := adaptExcept_eq_error.mp h
      exact (streamResults_error hresults).imp (·.wrap) fun hother => ⟨hkey, hother⟩
    . cases h
  . cases hfind : RunEnvelope.headerFields.find? (·.name = key) with
    | none =>
      rw [hfind] at h
      cases h
      exact .inl clients_unknownField
    | some f =>
      rw [hfind] at h
      have hdecodes := Decodes.header (List.mem_of_find?_eq_some hfind) v s.env
      have hrefuses : Refuses fmt (wrapError [.text key] _) := (refuses_lift hdecodes.clients).wrap
      obtain h | ⟨_, _, _, h⟩ := bind_eq_error.mp h
      . exact .inl (hrefuses.of_error trivial h)
      . cases h

theorem streamMembers_error {members : List (String × Json)}
    (h : streamMembers maxResults (ofCallback record) members s log = .error err log')
    : Clients fmt err ∨ ∃ pre v post s' log'', members = pre ++ ("results", v) :: post ∧ NoArray v
      ∧ streamMembers maxResults (ofCallback record) pre s log = .ok s' log'' := by
  induction members generalizing s log with
  | nil => cases h
  | cons member members ih =>
    obtain ⟨key, v⟩ := member
    obtain h | ⟨s₁, log₁, hmember, h⟩ := bind_eq_error.mp h
    . obtain h | ⟨rfl, hother⟩ : Clients fmt err ∨ _ := streamMember_error h
      . exact .inl h
      . exact .inr ⟨[], v, members, s, log, rfl, hother, rfl⟩
    . obtain h | ⟨pre, v', post, s', log'', rfl, hother, hpre⟩ := ih h
      . exact .inl h
      . refine .inr ⟨(key, v) :: pre, v', post, s', log'', rfl, hother, ?_⟩
        rw [streamMembers, bind_of_ok hmember]
        exact hpre

theorem clients_readError {err : ReadError} (h : ∀ msg, some err ≠ some (.io msg)) : Clients fmt err.toGoError := by
  cases err with
  | io msg => exact absurd rfl (h msg)
  | _ => exact .inl trivial

theorem streamBroken_error {at' : Broken} (hreceived : ∀ msg, some at'.error ≠ some (.io msg))
    (h : streamBroken env maxResults (ofCallback record) at' log = .error err log')
    : Clients fmt err ∨ ∃ err', at' = .object err' := by
  cases at' with
  | value err' =>
    cases h
    exact .inl (clients_readError hreceived)
  | object err' => exact .inr ⟨err', rfl⟩
  | array elems atElem err' =>
    obtain h | ⟨found, log₁, _, h⟩ := bind_eq_error.mp h
    . exact .inl ((refuses_streamElems elems 0 []).of_error trivial h)
    . cases atElem with
      | false =>
        cases h
        exact .inl (clients_readError hreceived)
      | true =>
        obtain h | ⟨_, log₂, _, h⟩ := bind_eq_error.mp h
        . exact .inl (refuses_max.of_error trivial h)
        . cases h
          exact .inl (clients_readError hreceived).wrap

theorem streamEnding_error {ending : Ending} (hreceived : ∀ msg, ending.error? ≠ some (.io msg))
    (h : streamEnding maxResults (ofCallback record) s ending log = .error err log')
    : Clients fmt err ∨ ∃ err', ending = .value "results" (.object err') := by
  cases ending with
  | closed => cases h
  | key err' =>
    cases h
    exact .inl (clients_readError hreceived).wrap
  | value key at' =>
    unfold streamEnding at h
    dsimp only at h
    split at h
    . rename_i hkey
      subst hkey
      obtain ⟨err', hbroken, rfl⟩ := adaptExcept_eq_error.mp h
      obtain h | ⟨err', rfl⟩ : Clients fmt err' ∨ _ := streamBroken_error hreceived hbroken
      . exact .inl h.wrap
      . exact .inr ⟨err', rfl⟩
    . cases hfind : RunEnvelope.headerFields.find? (·.name = key) with
      | none =>
        rw [hfind] at h
        cases at' <;> cases h <;> exact .inl clients_unknownField
      | some f =>
        rw [hfind] at h
        cases at' <;> cases h <;> exact .inl (clients_readError hreceived).wrap

theorem refuses_header (env : RunEnvelope) (n : Nat) : Refuses fmt (liftResult (env.validateHeader n)) :=
  refuses_lift (.ite .ok (.error (.inl trivial)))

theorem clients_envelope {t : String} {msg : Message} (h : err.message = runEnvelope ++ .text t :: msg)
    (ht : [':'] <+: t.toList)
    : Clients fmt err := by
  refine .inr ⟨"run envelope:", by decide, contains_iff.mpr ?_⟩
  have hname : "run envelope:".toList = "run envelope".toList ++ [':'] := by decide
  obtain ⟨rest, ht⟩ := ht
  rw [h, hname]
  unfold Message.render
  rw [List.flatMap_append, List.flatMap_cons, Piece.render, ← ht, List.append_assoc]
  exact (List.prefix_append_right_inj _ |>.mpr (List.prefix_append _ _)).isInfix

/--
Of a body that has been received, the decoder refuses nothing for which the client is not named as the cause but a
`results` field that is no array.
-/
theorem stream_error {body : Body} (hreceived : body.Received)
    (h : StreamRunEnvelope body maxResults (ofCallback record) [] = .error err log)
    : Clients fmt err ∨ StopsAtOther maxResults body := by
  cases body with
  | unreadable err' =>
    cases h
    exact .inl (clients_envelope rfl (by decide))
  | other tok =>
    obtain h | ⟨got, _, _, h⟩ := bind_eq_error.mp h
    . obtain ⟨err', _, rfl⟩ := adaptExcept_eq_error.mp h
      exact .inl (clients_envelope rfl (by decide))
    . cases h
      exact .inl (clients_envelope rfl (by decide))
  | object members ending =>
    obtain h | ⟨s, log₁, hmembers, h⟩ := bind_eq_error.mp h
    . obtain h | ⟨pre, v, post, s', log', rfl, hother, hpre⟩ : Clients fmt err ∨ _ := streamMembers_error h
      . exact .inl h
      . exact .inr ⟨pre, s', log', .member hother, hpre⟩
    . obtain h | ⟨_, log₂, _, h⟩ := bind_eq_error.mp h
      . obtain h | ⟨err', rfl⟩ : Clients fmt err ∨ _ := streamEnding_error hreceived h
        . exact .inl h
        . exact .inr ⟨members, s, log₁, .broken, hmembers⟩
      . obtain h | ⟨_, log₃, _, h⟩ := bind_eq_error.mp h
        . rw [replay_record] at h
          cases h
        . obtain h | ⟨_, log₄, _, h⟩ := bind_eq_error.mp h
          . exact .inl ((refuses_header s.env s.count).of_error trivial h)
          . cases h

theorem streamMember_other (maxResults : Int) (s : Model.Scan) (log : List Delivery) (h : NoArray v)
    : ∃ err, streamMember maxResults (ofCallback record) s ("results", v) log = .error err log ∧ ¬err.OfDocument := by
  cases v with
  | arr elems => exact h.elim
  | _ =>
    obtain ⟨got, hformat⟩ := h
    refine ⟨.wrap [.text "results"] (.new (.text "want an array, got " :: got)), ?_, id⟩
    refine bind_of_error (adaptExcept_eq_error.mpr ⟨_, ?_, rfl⟩)
    unfold streamResults wantArray
    dsimp only
    rw [hformat]
    rfl

theorem StopsAtOther.refused {body : Body} (h : StopsAtOther maxResults body)
    : ∃ err log, StreamRunEnvelope body maxResults (ofCallback record) [] = .error err log ∧ ¬err.OfDocument := by
  obtain ⟨pre, s, log, hafter, hpre⟩ := h
  cases hafter with
  | @member post v ending hother =>
    obtain ⟨err, herror, hinternal⟩ := streamMember_other maxResults s log hother
    refine ⟨err, log, ?_, hinternal⟩
    exact bind_of_error ((streamMembers_of_ok hpre).trans (bind_of_error herror))
  | broken =>
    refine ⟨_, log, bind_eq_error.mpr (.inr ⟨s, log, hpre, bind_of_error rfl⟩), id⟩

end

/--
What the decoder hands over before it is done with the body or refuses it.
-/
def handedOver (maxResults : Int) (body : Body) : List Delivery :=
  final (StreamRunEnvelope body maxResults (ofCallback record) [])

/--
The decoder refuses the body for something else than a `results` field that is no array, and what it has handed over by
then can be stored.
-/
structure TurnedDown (jsonb : Json → Bool) (maxResults : Int) (body : Body) : Prop where
  refused : ∀ env log, ¬Delivers body maxResults env log
  array : ¬StopsAtOther maxResults body
  storable : Storable jsonb (handedOver maxResults body)

section

variable {fmt : Format} {maxResults : Int} {body : Body} {w w' : World} {err : GoError}

theorem ingest_of_stream_error {s : World × Option Ingestion}
    (h : StreamRunEnvelope body maxResults (handOver id) (w, none) = .error err s)
    : ∃ w', IngestStream body maxResults w = .error err w' := by
  obtain ⟨w', _ | ing⟩ := s
  . refine ⟨w', ?_⟩
    unfold IngestStream ingestStreamWith
    rw [h]
  . refine ⟨final (rollback w'), ?_⟩
    unfold IngestStream ingestStreamWith
    rw [h]
    rfl

theorem TurnedDown.ingest (fmt : Format) (h : TurnedDown w.jsonb maxResults body) (hreceived : body.Received)
    (hfault : w.Faultless)
    : ∃ err w', IngestStream body maxResults w = .error err w' ∧ Clients fmt err := by
  obtain ⟨s, hfeed⟩ := (feed_handOver_iff hfault).mpr h.storable
  unfold handedOver at hfeed
  cases hstream : StreamRunEnvelope body maxResults (ofCallback record) [] with
  | ok env log => exact absurd hstream (h.refused env log)
  | error err log =>
    rw [hstream] at hfeed
    obtain ⟨w', hingest⟩ := ingest_of_stream_error ((sends_stream body maxResults).eq_error _ _ _ _ _ log hstream hfeed)
    obtain hclients | hother : Clients fmt err ∨ _ := stream_error hreceived hstream
    . exact ⟨err, w', hingest, hclients⟩
    . exact absurd hother h.array

end

/--
The rules of an envelope: one JSON document that has the required fields and not too many results, and in which the
decoder and the checks of the package `model` find nothing wrong.
-/
structure Follows (maxResults : Int) (doc : Document) : Prop where
  alone : doc.trailing = false
  required : ∀ key ∈ Schema.runRequired, ∃ v, v ≠ .null ∧ (key, v) ∈ doc.body.members
  bounded : 0 < maxResults → ((resultElems doc.body.members).length : Int) ≤ maxResults
  accepted : ∃ env log, Delivers doc.body maxResults env log

/--
The response to a document that breaks the rules is the client's error.
-/
def Answered (fmt : Format) (maxResults : Int) (w : World) (doc : Document) : Prop :=
  ¬Follows maxResults doc →
    (handleIngestRun fmt doc.body maxResults w).1.status = 400
      ∨ (handleIngestRun fmt doc.body maxResults w).1.status = 413

end Http
end Api
