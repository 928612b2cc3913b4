import BenchPlatform.Api.Store.Chunks

/-!
This module contains the handler of `POST /v1/runs`: which status the outcome of an ingest is answered with, and the
service that answers one request after the other.
-/

namespace Api
namespace Http

open Model Store

/--
What `writeError` is called with.
-/
structure ErrorPayload where
  code : String
  message : Message
  details : List Message := []

structure IngestResponse where
  status : Nat
  body : IngestResult ⊕ ErrorPayload

/--
`strings.Contains` of a message as it is formatted.
-/
def mentions (fmt : Format) (msg : Message) (s : String) : Bool :=
  contains s.toList (msg.render fmt)

def isDecodeError (fmt : Format) (err : GoError) : Bool :=
  match err.cause with
  | .syntaxError _ | .unmarshalType .. | .eof | .unexpectedEOF => true
  | _ =>
    mentions fmt err.message "unknown field" || mentions fmt err.message "run envelope:"
      || mentions fmt err.message "cannot unmarshal" || mentions fmt err.message "invalid character"

def writeError (status : Nat) (code : String) (message : Message) (details : List Message) : IngestResponse where
  status := status
  body := .inr { code := code, message := message, details := details }

def writeIngestError (fmt : Format) (err : GoError) : IngestResponse :=
  match err.cause with
  | .tooManyResults max => writeError 413 "too_many_results" (GoError.tooManyResults max).message []
  | .validation problems =>
    writeError 400 "schema_violation"
      [.text "run envelope does not satisfy schema/benchmark-result.schema.json"] problems
  | _ =>
    if isDecodeError fmt err then
      writeError 400 "invalid_json" [.text "request body is not a valid run envelope"] [err.message]
    else
      writeError 500 "ingest_failed" [.text "could not store the run"] []

/--
The cached answers about the machine, which a success makes stale, are in `Api.Cache`.
-/
def handleIngestRun (fmt : Format) (body : Body) (maxRes : Int) (w : World) : IngestResponse × World :=
  match IngestStream body maxRes w with
  | .ok res w => ({ status := 200, body := .inl res }, w)
  | .error err w => (writeIngestError fmt err, w)

/--
The service at work, and its responses with the number of the part that each of them is for.
-/
structure Service where
  uploads : Uploads
  responses : List (Nat × IngestResponse)

namespace Service

def respond (fmt : Format) (jsonb : Json → Bool) (s : Uploads) : Uploads.Action → List (Nat × IngestResponse)
  | .finish =>
    match s.holder with
    | some (c, ⟨.stream body maxRes, fault⟩, db) =>
      [(c, (handleIngestRun fmt body maxRes (connect jsonb fault db)).1)]
    | _ => []
  | _ => []

def step (fmt : Format) (jsonb : Json → Bool) (bodies : List Body) (maxRes : Int) (s : Service) (a : Uploads.Action)
    : Option Service :=
  (s.uploads.step jsonb bodies maxRes a).map fun uploads =>
    { uploads := uploads, responses := s.responses ++ respond fmt jsonb s.uploads a }

def run (fmt : Format) (jsonb : Json → Bool) (bodies : List Body) (maxRes : Int) (db : Db)
    (schedule : List Uploads.Action)
    : Service :=
  Trans.run (step fmt jsonb bodies maxRes) { uploads := .init db, responses := [] } schedule

variable {fmt : Format} {jsonb : Json → Bool} {bodies : List Body} {maxRes : Int} {db : Db} {s s' : Service}
  {a : Uploads.Action} {w : World} {body : Body}

theorem status_writeIngestError (fmt : Format) (err : GoError)
    : (writeIngestError fmt err).status = 413 ∨ (writeIngestError fmt err).status = 400
      ∨ (writeIngestError fmt err).status = 500 := by
  unfold writeIngestError
  split
  . exact .inl rfl
  . exact .inr (.inl rfl)
  . split
    . exact .inr (.inl rfl)
    . exact .inr (.inr rfl)

theorem ingest_of_success (h : (handleIngestRun fmt body maxRes w).1.status < 300)
    : ∃ res w', IngestStream body maxRes w = .ok res w' := by
  unfold handleIngestRun at h
  cases hingest : IngestStream body maxRes w with
  | ok res w' => exact ⟨res, w', rfl⟩
  | error err w' =>
    rw [hingest] at h
    dsimp only at h
    have hstatus := status_writeIngestError fmt err
    omega

/--
The part of each success is one that has been stored.
-/
def Stored (s : Service) : Prop :=
  ∀ c r, (c, r) ∈ s.responses → r.status < 300 → ∃ res, (c, res) ∈ s.uploads.answered

theorem Stored.step (hs : s.Stored) (h : s.step fmt jsonb bodies maxRes a = some s') : s'.Stored := by
  obtain ⟨uploads, hstep, rfl⟩ := Option.map_eq_some_iff.mp h
  have hkept : ∀ p ∈ s.uploads.answered, p ∈ uploads.answered := by
    intro p hp
    cases a with
    | arrive c fault =>
      unfold Uploads.step Uploads.arrive at hstep
      dsimp only at hstep
      split at hstep
      . cases hstep
      . injection hstep with hstep
        exact hstep ▸ hp
    | lock k =>
      unfold Uploads.step Uploads.lock at hstep
      dsimp only at hstep
      split at hstep
      . injection hstep with hstep
        exact hstep ▸ hp
      . cases hstep
    | finish =>
      unfold Uploads.step Uploads.finish at hstep
      dsimp only at hstep
      split at hstep
      . cases hstep
      . split at hstep
        . injection hstep with hstep
          exact hstep ▸ List.mem_append_left _ hp
        . injection hstep with hstep
          exact hstep ▸ hp
  intro c r hr hsuccess
  obtain hr | hr := List.mem_append.mp hr
  . obtain ⟨res, hres⟩ := hs c r hr hsuccess
    exact ⟨res, hkept _ hres⟩
  . unfold respond at hr
    split at hr
    swap
    . cases hr
    split at hr
    swap
    . cases hr
    rename_i c' body maxRes' fault db' hholder
    obtain ⟨rfl, rfl⟩ := Prod.mk.inj (List.mem_singleton.mp hr)
    obtain ⟨res, w', hingest⟩ := ingest_of_success hsuccess
    refine ⟨res, ?_⟩
    unfold Uploads.step Uploads.finish at hstep
    dsimp only at hstep
    rw [hholder] at hstep
    unfold Request.ingest at hstep
    dsimp only at hstep
    rw [hingest] at hstep
    injection hstep with hstep
    exact hstep ▸ List.mem_append_right _ List.mem_cons_self

theorem run_stored (fmt : Format) (jsonb : Json → Bool) (bodies : List Body) (maxRes : Int) (db : Db)
    (schedule : List Uploads.Action)
    : (run fmt jsonb bodies maxRes db schedule).Stored
      ∧ ∃ actions, (run fmt jsonb bodies maxRes db schedule).uploads
        = Uploads.run jsonb bodies maxRes db actions := by
  constructor
  . exact Trans.invariant (fun _ _ _ hs h => hs.step h) (fun _ _ hr => absurd hr List.not_mem_nil) schedule
  . refine Trans.project Service.uploads ?_ schedule
    intro s a s' h
    obtain ⟨uploads, hstep, rfl⟩ := Option.map_eq_some_iff.mp h
    exact ⟨[a], (Trans.next_of_some hstep).symm⟩

end Service

end Http
end Api
