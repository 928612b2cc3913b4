import BenchPlatform.Api.Store.Ingest
import BenchPlatform.Api.Model.RepeatedResults

/-!
This module proves that an ingest that fails leaves the database as it was: nothing but the commit
writes to the tables, and no way out of a failed ingest goes through a successful commit.
-/

namespace Api
namespace Store

open Model Program

/--
The tables are those of `db`.
-/
def Holds (db : Db) (w : World) : Prop :=
  w.db = db

variable {db : Db} {α : Type}

theorem keeps_statement {run : (Json → Bool) → Tx → Except GoError (α × Tx)}
    : Keeps (Holds db) (statement run) := by
  intro w h
  unfold statement
  cases w.tx with
  | none => exact h
  | some tx =>
    dsimp only
    split <;> exact h

theorem keeps_onDb {run : (Json → Bool) → Db → Except GoError (α × Db)}
    : Keeps (Holds db) (onDb run) :=
  keeps_statement

theorem keeps_begin : Keeps (Holds db) begin := by
  intro w h
  unfold begin
  split <;> exact h

theorem keeps_rollbackToSavepoint : Keeps (Holds db) rollbackToSavepoint := by
  intro w h
  unfold rollbackToSavepoint
  split
  . exact h
  . split <;> exact h

theorem keeps_orRollback {x : StoreM α} (hx : Keeps (Holds db) x)
    : Keeps (Holds db) (orRollback x) := by
  intro w h
  have hx := hx w h
  unfold orRollback
  cases hw : x w <;> (rw [hw] at hx; exact hx)

theorem keeps_attempt {x : StoreM α} (hx : Keeps (Holds db) x) : Keeps (Holds db) (attempt x) := by
  intro w h
  have hx := hx w h
  unfold attempt
  cases hw : x w <;> (rw [hw] at hx; exact hx)

theorem keeps_liftResult {x : Except GoError α} : Keeps (Holds db) (liftResult x) := by
  cases x with
  | ok a => exact .pure
  | error err => exact .throw

theorem keeps_beginIngest {env : RunEnvelope} : Keeps (Holds db) (beginIngest env) :=
  .bind keeps_liftResult fun _ => .bind keeps_liftResult fun _ =>
    .bind (.adaptExcept keeps_begin) fun _ =>
      .bind (keeps_orRollback (.adaptExcept keeps_onDb)) fun _ =>
        .bind (keeps_orRollback (.adaptExcept keeps_onDb)) fun _ => .pure

theorem keeps_beginWith {mode : Bool → Bool} {env : RunEnvelope}
    : Keeps (Holds db) (beginWith mode env) :=
  .bind keeps_beginIngest fun _ => .pure

theorem keeps_flushDedup {ing : Ingestion} : Keeps (Holds db) ing.flushDedup :=
  .bind (.ite .pure (.adaptExcept keeps_statement)) fun _ =>
    .bind (.adaptExcept keeps_statement) fun _ => .bind (.adaptExcept keeps_statement) fun _ =>
      .bind (.adaptExcept keeps_statement) fun _ => .pure

theorem keeps_flushCopy {ing : Ingestion} : Keeps (Holds db) ing.flushCopy := by
  refine .bind (.adaptExcept keeps_statement) fun _ => .bind (keeps_attempt keeps_onDb) ?_
  intro copied
  cases copied with
  | ok n => exact .bind (.adaptExcept keeps_statement) fun _ => .pure
  | error err =>
    exact .ite (.bind (.adaptExcept keeps_rollbackToSavepoint) fun _ => keeps_flushDedup) .throw

theorem keeps_flush {ing : Ingestion} : Keeps (Holds db) ing.flush :=
  .ite .pure (.ite keeps_flushDedup keeps_flushCopy)

theorem keeps_add {ing : Ingestion} {r : Result} : Keeps (Holds db) (ing.add r) :=
  .bind keeps_liftResult fun _ => .ite keeps_flush .pure

theorem keeps_addAll {ing : Ingestion} {rs : List Result}
    : Keeps (Holds db) (Ingestion.addAll rs ing) := by
  induction rs generalizing ing with
  | nil => exact .pure
  | cons r rs ih => exact .bind keeps_add fun _ => ih

variable {w w' : World} {err : GoError}

theorem commit_error (h : Store.commit w = .error err w')
    : w'.db = w.db ∧ w'.tx = none := by
  unfold Store.commit at h
  cases htx : w.tx with
  | none =>
    rw [htx] at h
    injection h with _ h
    rw [← h]
    exact ⟨rfl, htx⟩
  | some tx =>
    rw [htx] at h
    dsimp only at h
    split at h
    . injection h with _ h
      rw [← h]
      exact ⟨rfl, rfl⟩
    . split at h
      . injection h with _ h
        rw [← h]
        exact ⟨rfl, rfl⟩
      . cases h

theorem orRollback_error {x : StoreM α} (h : orRollback x w = .error err w') : w'.tx = none := by
  unfold orRollback at h
  cases hx : x w with
  | ok a w₁ =>
    rw [hx] at h
    cases h
  | error err₁ w₁ =>
    rw [hx] at h
    injection h with _ h
    rw [← h]

theorem begin_error (h : begin w = .error err w') : w'.tx = w.tx := by
  unfold begin at h
  split at h
  . injection h with _ h
    rw [← h]
  . cases h

theorem wrapError_error {σ : Type} {msg : Message} {x : EStateM GoError σ α} {s s' : σ}
    (h : wrapError msg x s = .error err s')
    : ∃ err', x s = .error err' s' := by
  unfold wrapError EStateM.adaptExcept at h
  cases hx : x s with
  | ok a t =>
    rw [hx] at h
    cases h
  | error err' t =>
    rw [hx] at h
    injection h with _ h
    exact ⟨err', by rw [h]⟩

theorem liftResult_error {σ : Type} {x : Except GoError α} {s s' : σ}
    (h : liftResult x s = .error err s')
    : s' = s := by
  cases x with
  | ok a => cases h
  | error err =>
    injection h with _ h
    exact h.symm

theorem beginWith_error {mode : Bool → Bool} {env : RunEnvelope} (htx : w.tx = none)
    (h : beginWith mode env w = .error err w')
    : w'.tx = none := by
  obtain h | ⟨ing, w₁, _, h⟩ := bind_eq_error.mp h
  . obtain h | ⟨started, w₁, hlift, h⟩ := bind_eq_error.mp h
    . rw [liftResult_error h, htx]
    . cases hstart : ParseTimestamp env.startedAt
      all_goals rw [hstart] at hlift; cases hlift
      obtain h | ⟨finished, w₂, hlift, h⟩ := bind_eq_error.mp h
      . rw [liftResult_error h, htx]
      . cases hfinish : ParseTimestamp env.finishedAt
        all_goals rw [hfinish] at hlift; cases hlift
        obtain h | ⟨_, w₃, _, h⟩ := bind_eq_error.mp h
        . obtain ⟨err', h⟩ := wrapError_error h
          rw [begin_error h, htx]
        . obtain h | ⟨_, w₄, _, h⟩ := bind_eq_error.mp h
          . exact orRollback_error h
          . obtain h | ⟨_, w₅, _, h⟩ := bind_eq_error.mp h
            . exact orRollback_error h
            . cases h
  . cases h

theorem ingestionCommit_error {ing : Ingestion} (h : ing.commit w = .error err w')
    : w'.db = w.db ∧ w'.tx = none := by
  have hkeeps : Holds w.db (final (orRollback ing.flush w)) := keeps_orRollback keeps_flush w rfl
  obtain h | ⟨ing', w₁, hflush, h⟩ := bind_eq_error.mp h
  . rw [h] at hkeeps
    exact ⟨hkeeps, orRollback_error h⟩
  . rw [hflush] at hkeeps
    obtain h | ⟨_, w₂, _, h⟩ := bind_eq_error.mp h
    . obtain ⟨err', h⟩ := wrapError_error h
      obtain ⟨hdb, htx⟩ := commit_error h
      exact ⟨hdb.trans hkeeps, htx⟩
    . cases h

/--
What holds between two calls of the callback of `IngestStream`: without an ingest there is no
transaction.
-/
def NotWritten (start : World) (s : World × Option Ingestion) : Prop :=
  s.1.db = start.db ∧ (start.tx = none → s.2 = none → s.1.tx = none)

theorem keeps_handOver {start : World} {mode : Bool → Bool} {d : Delivery}
    : Keeps (NotWritten start) (handOver mode d.env d.index d.result) := by
  have hadd : ∀ (w : World) (ing : Ingestion), w.db = start.db →
      NotWritten start (final (addTo ing d.result (w, some ing))) := by
    intro w ing hdb
    have hkeeps : Holds start.db (final (ing.add d.result w)) := keeps_add w hdb
    cases hw : ing.add d.result w with
    | ok ing' w' =>
      rw [hw] at hkeeps
      rw [addTo_ok hw]
      exact ⟨hkeeps, fun _ => nofun⟩
    | error err w' =>
      rw [hw] at hkeeps
      rw [addTo_error hw]
      exact ⟨hkeeps, fun _ => nofun⟩
  rintro ⟨w, ing⟩ ⟨hdb, htx⟩
  cases ing with
  | some ing => exact hadd w ing hdb
  | none =>
    have hkeeps : Holds start.db (final (beginWith mode d.env w)) := keeps_beginWith w hdb
    cases hw : beginWith mode d.env w with
    | error err w₁ =>
      rw [hw] at hkeeps
      rw [handOver_error hw]
      exact ⟨hkeeps, fun hstart _ => beginWith_error (htx hstart rfl) hw⟩
    | ok ing w₁ =>
      rw [hw] at hkeeps
      rw [handOver_begin hw]
      exact hadd w₁ ing hkeeps

theorem ingestRun_error {env : RunEnvelope} (h : IngestRun env w = .error err w')
    : w'.db = w.db ∧ (w.tx = none → w'.tx = none) := by
  obtain h | ⟨_, w₁, hlift, h⟩ := bind_eq_error.mp h
  . rw [liftResult_error h]
    exact ⟨rfl, id⟩
  . cases hvalid : env.Validate
    all_goals rw [hvalid] at hlift; cases hlift
    split at h
    . injection h with _ h
      rw [← h]
      exact ⟨rfl, id⟩
    . have hbegin : Holds w.db (final (beginWith id env w)) := keeps_beginWith w rfl
      obtain h | ⟨ing, w₂, hing, h⟩ := bind_eq_error.mp h
      . rw [h] at hbegin
        exact ⟨hbegin, fun htx => beginWith_error htx h⟩
      . rw [hing] at hbegin
        have hadd : Holds w₂.db (final (orRollback (Ingestion.addAll (env.results.getD []) ing) w₂)) :=
          keeps_orRollback keeps_addAll w₂ rfl
        obtain h | ⟨ing', w₃, hing', h⟩ := bind_eq_error.mp h
        . rw [h] at hadd
          exact ⟨hadd.trans hbegin, fun _ => orRollback_error h⟩
        . rw [hing'] at hadd
          obtain ⟨hdb, htx⟩ := ingestionCommit_error h
          exact ⟨hdb.trans (hadd.trans hbegin), fun _ => htx⟩

theorem ingestStream_error {body : Body} {maxResults : Int}
    (h : IngestStream body maxResults w = .error err w')
    : w'.db = w.db ∧ (w.tx = none → w'.tx = none) := by
  have hkeeps : Keeps (NotWritten w) (StreamRunEnvelope body maxResults (handOver id)) :=
    (sends_stream body maxResults).keeps _ (fun d => handOver id d.env d.index d.result) _
      fun _ => keeps_handOver
  have hstream := hkeeps (w, none) ⟨rfl, fun htx _ => htx⟩
  unfold IngestStream ingestStreamWith at h
  split at h
  all_goals rename_i heq; rw [heq] at hstream; obtain ⟨hdb, htx⟩ := hstream
  . injection h with _ h
    subst h
    exact ⟨hdb, fun hopen => htx hopen rfl⟩
  . injection h with _ h
    subst h
    exact ⟨hdb, fun _ => rfl⟩
  . injection h with _ h
    subst h
    exact ⟨hdb, fun hopen => htx hopen rfl⟩
  . obtain ⟨hdb', htx'⟩ := ingestionCommit_error h
    exact ⟨hdb'.trans hdb, fun _ => htx'⟩

/--
If an ingest fails, for whatever reason, the tables are what they were, and no transaction is left
open.
-/
theorem ingest_error_unchanged
    : (∀ (body : Body) (maxResults : Int) (w w' : World) (err : GoError),
        IngestStream body maxResults w = .error err w' →
          w'.db = w.db ∧ (w.tx = none → w'.tx = none))
      ∧ ∀ (env : RunEnvelope) (w w' : World) (err : GoError), IngestRun env w = .error err w' →
          w'.db = w.db ∧ (w.tx = none → w'.tx = none) :=
  ⟨fun _ _ _ _ _ h => ingestStream_error h, fun _ _ _ _ h => ingestRun_error h⟩

def lostWorld : World where
  db := .empty
  tx := none
  commands := 0
  fault := fun n => if n = 6 then some .unexpectedEOF else none
  jsonb := fun _ => true

theorem ingest_error_unchanged_lost
    : ∃ err w', IngestStream (.object twoArrays .closed) 10 lostWorld = .error err w'
      ∧ w'.db = .empty ∧ w'.tx = none := by
  have hlost : returned (IngestStream (.object twoArrays .closed) 10 lostWorld) = none := by decide +kernel
  cases hingest : IngestStream (.object twoArrays .closed) 10 lostWorld with
  | ok res w' =>
    rw [hingest] at hlost
    cases hlost
  | error err w' =>
    obtain ⟨hdb, htx⟩ := ingest_error_unchanged.1 _ _ _ _ _ hingest
    exact ⟨err, w', rfl, hdb, htx rfl⟩

end Store
end Api
