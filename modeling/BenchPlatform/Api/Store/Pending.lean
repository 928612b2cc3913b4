import BenchPlatform.Api.Store.SetSemantics
import BenchPlatform.Api.Store.Encoded

/-!
This module proves what an ingest makes of results while more of them may come: what has been handed over is taken
exactly if its complete batches can be stored.
-/

namespace Api

namespace Store

open Model Program

/--
What has been handed over can be stored under the header that came with the first result: the results of the complete
batches can be encoded, and the time stamps of the others can be read.
-/
def Storable (jsonb : Json → Bool) : List Delivery → Prop
  | [] => True
  | first :: log =>
    ∃ early late, (first :: log).map (·.result) = early ++ late
      ∧ copyBatchRows ∣ early.length ∧ late.length < copyBatchRows ∧ (∃ e, encode jsonb first.env early = .ok e)
      ∧ ∃ rows, late.mapM (pendingRow first.env.runID first.env.machine.id) = .ok rows

/--
The batch is the rest that complete batches leave.
-/
def Batched (rs : List Result) (ing : Ingestion) : Prop :=
  ing.rows.length < copyBatchRows ∧ copyBatchRows ∣ rs.length - ing.rows.length

theorem le_of_dvd_of_lt {c a b n : Nat} (ha : c ∣ a) (hb : c ∣ b) (hle : a ≤ b + n) (hn : n < c) : a ≤ b := by
  obtain ⟨x, rfl⟩ := ha
  obtain ⟨y, rfl⟩ := hb
  apply Nat.mul_le_mul_left
  by_contra hlt
  have hsucc := Nat.mul_le_mul_left c (Nat.succ_le_of_lt (Nat.lt_of_not_le hlt))
  rw [Nat.mul_succ] at hsucc
  omega

section

variable {base : Db} {jsonb : Json → Bool} {runID machineID : String} {rs rs' : List Result} {w w' : World} {tx : Tx}
  {ing ing' : Ingestion} {r : Result}

theorem InFlight.rows_le (h : InFlight base jsonb runID machineID rs ing w tx) : ing.rows.length ≤ rs.length := by
  obtain ⟨early, late, _, rfl, _, hlate, _⟩ := h.rows
  rw [← (mapM_eq_ok.mp hlate).length_eq, List.length_append]
  exact Nat.le_add_left _ _

theorem Batched.add (hb : Batched rs ing) (h : InFlight base jsonb runID machineID rs ing w tx)
    (hok : ing.add r w = .ok ing' w')
    : Batched (rs ++ [r]) ing' := by
  have hle := h.rows_le
  obtain ⟨hlt, hdvd⟩ := hb
  unfold Ingestion.add at hok
  obtain ⟨ts, w₁, hlift, hbatch⟩ := bind_eq_ok.mp hok
  obtain ⟨hts, rfl⟩ := liftResult_eq_ok.mp hlift
  dsimp only at hbatch
  unfold Batched
  rw [List.length_append, List.length_singleton]
  split at hbatch
  . rename_i hfull
    obtain ⟨_, _, _, _, hrows⟩ := (h.push hts).flush hbatch
    rw [List.length_append, List.length_singleton] at hfull
    rw [hrows]
    refine ⟨by decide, ?_⟩
    have hcount : rs.length + 1 - ([] : List PendingRow).length = rs.length - ing.rows.length + copyBatchRows := by
      rw [List.length_nil]
      omega
    rw [hcount]
    exact Nat.dvd_add hdvd (Nat.dvd_refl _)
  . rename_i hroom
    injection hbatch with hing _
    subst hing
    rw [List.length_append, List.length_singleton] at hroom ⊢
    refine ⟨by omega, ?_⟩
    rwa [Nat.add_sub_add_right]

theorem Batched.addAll (hb : Batched rs ing) (h : InFlight base jsonb runID machineID rs ing w tx)
    (hok : Ingestion.addAll rs' ing w = .ok ing' w')
    : Batched (rs ++ rs') ing' := by
  induction rs' generalizing rs ing w tx with
  | nil =>
    injection hok with hing _
    subst hing
    rwa [List.append_nil]
  | cons r rs' ih =>
    obtain ⟨ing₁, w₁, hadd, hok⟩ := bind_eq_ok.mp hok
    obtain ⟨tx₁, n, rfl, h₁⟩ := h.add hadd
    have hrest := ih (hb.add h hadd) h₁ hok
    rwa [List.append_assoc] at hrest

/--
A result is taken if the batches that are complete with it can be stored.
-/
theorem InFlight.add_of_early (h : InFlight base jsonb runID machineID rs ing w tx) (hb : Batched rs ing)
    (hfault : w.Faultless) {early late : List Result} (hsplit : rs ++ r :: rs' = early ++ late)
    (hdvd : copyBatchRows ∣ early.length) (hlate : late.length < copyBatchRows)
    (hstore : CanStore base jsonb runID machineID early) (hts : ∃ ts, ParseTimestamp r.timestamp = .ok ts)
    : ∃ ing' w', ing.add r w = .ok ing' w' := by
  obtain ⟨ts, hts⟩ := hts
  have hle := h.rows_le
  have hlift : liftResult (ParseTimestamp r.timestamp) w = .ok ts w := liftResult_eq_ok.mpr ⟨hts, rfl⟩
  unfold Ingestion.add
  rw [bind_of_ok hlift]
  dsimp only
  split
  . rename_i hfull
    rw [List.length_append, List.length_singleton] at hfull
    have hcomplete : copyBatchRows ∣ (rs ++ [r]).length := by
      have hcount : (rs ++ [r]).length = rs.length - ing.rows.length + copyBatchRows := by
        have := hb.1
        rw [List.length_append, List.length_singleton]
        omega
      rw [hcount]
      exact Nat.dvd_add hb.2 (Nat.dvd_refl _)
    have hlength : (rs ++ [r]).length + rs'.length = early.length + late.length := by
      rw [← List.length_append, ← List.length_append, ← hsplit, ← List.append_cons]
    have hfront : rs ++ [r] <+: early := by
      have hrest : rs ++ [r] <+: early ++ late := by
        rw [← hsplit, List.append_cons rs r rs']
        exact List.prefix_append _ _
      apply List.prefix_of_prefix_length_le hrest (List.prefix_append _ _)
      exact le_of_dvd_of_lt hcomplete hdvd (by omega) hlate
    obtain ⟨rest, rfl⟩ := hfront
    exact (h.push hts).flush_total hfault hstore
  . exact ⟨_, _, rfl⟩

theorem InFlight.addAll_of_early (h : InFlight base jsonb runID machineID rs ing w tx) (hb : Batched rs ing)
    (hfault : w.Faultless) {early late : List Result} (hsplit : rs ++ rs' = early ++ late)
    (hdvd : copyBatchRows ∣ early.length) (hlate : late.length < copyBatchRows)
    (hstore : CanStore base jsonb runID machineID early) (hts : ∀ r ∈ rs', ∃ ts, ParseTimestamp r.timestamp = .ok ts)
    : ∃ ing' w', Ingestion.addAll rs' ing w = .ok ing' w' := by
  induction rs' generalizing rs ing w tx with
  | nil => exact ⟨ing, w, rfl⟩
  | cons r rs' ih =>
    rw [List.forall_mem_cons] at hts
    obtain ⟨ing₁, w₁, hadd⟩ := h.add_of_early hb hfault hsplit hdvd hlate hstore hts.1
    obtain ⟨tx₁, n, rfl, h₁⟩ := h.add hadd
    rw [List.append_cons] at hsplit
    obtain ⟨ing', w', hrest⟩ := ih h₁ (hb.add h hadd) (Faultless.on hfault) hsplit hts.2
    exact ⟨ing', w', bind_eq_ok.mpr ⟨_, _, hadd, hrest⟩⟩

end

theorem exists_time_of_rowOf {jsonb : Json → Bool} {runID machineID : String} {r : Result} {row : MeasurementRow}
    (h : rowOf jsonb runID machineID r = .ok row)
    : ∃ ts, ParseTimestamp r.timestamp = .ok ts := by
  obtain ⟨_, hpending, _⟩ := except_bind_eq_ok.mp h
  obtain ⟨ts, hts, _⟩ := except_bind_eq_ok.mp hpending
  exact ⟨ts, hts⟩

theorem exists_time_of_pendingRow {runID machineID : String} {r : Result} {row : PendingRow}
    (h : pendingRow runID machineID r = .ok row)
    : ∃ ts, ParseTimestamp r.timestamp = .ok ts := by
  obtain ⟨ts, hts, _⟩ := except_bind_eq_ok.mp h
  exact ⟨ts, hts⟩

/--
What has been handed over is taken exactly if it can be stored as far as its batches are complete.
-/
theorem feed_handOver_iff {log : List Delivery} {w : World} (hfault : w.Faultless)
    : (∃ s, feed (fun d => handOver id d.env d.index d.result) log (w, none) = .ok () s) ↔ Storable w.jsonb log := by
  cases log with
  | nil => exact ⟨fun _ => trivial, fun _ => ⟨(w, none), rfl⟩⟩
  | cons first log =>
    unfold Storable
    simp only [feed_handOver_begin]
    generalize (first :: log).map (·.result) = rs
    constructor
    . rintro ⟨_, ing, w₁, ing', w', hbegin, hadd, rfl⟩
      obtain ⟨k, base, tx, c, hbase, rfl, hflight⟩ := beginWith_eq_ok hbegin
      have hbatched : Batched [] ing := by
        obtain ⟨early, late, _, hnil, _, hlate, _⟩ := hflight.rows
        have hrows : ing.rows.length = 0 := Nat.le_zero.mp hflight.rows_le
        unfold Batched
        rw [hrows]
        exact ⟨by decide, Nat.dvd_zero _⟩
      have hdone := hbatched.addAll hflight hadd
      obtain ⟨tx', n, rfl, hflight'⟩ := hflight.addAll hadd
      obtain ⟨early, late, flushed, hsplit, hearly, hlate, _⟩ := hflight'.rows
      rw [List.nil_append] at hsplit hdone
      subst hsplit
      have hlength := (mapM_eq_ok.mp hlate).length_eq
      obtain ⟨hlt, hdvd⟩ := hdone
      rw [← hlength, List.length_append, Nat.add_sub_cancel] at hdvd
      refine ⟨early, late, rfl, hdvd, by omega, ?_, _, hlate⟩
      obtain ⟨started, hstarted, h₁⟩ := except_bind_eq_ok.mp hbase
      obtain ⟨finished, hfinished, h₂⟩ := except_bind_eq_ok.mp h₁
      obtain ⟨db, hmachine, hrun⟩ := except_bind_eq_ok.mp h₂
      obtain ⟨machine, hmachineRow, _⟩ := except_bind_eq_ok.mp hmachine
      obtain ⟨run, hrunRow, _⟩ := except_bind_eq_ok.mp hrun
      exact ⟨{ machine := machine, run := run, measurements := flushed },
        encode_eq_ok.mpr ⟨started, finished, hstarted, hfinished, hmachineRow, hrunRow, hearly⟩⟩
    . rintro ⟨early, late, rfl, hdvd, hlate, ⟨e, hencode⟩, rows, hrows⟩
      obtain ⟨⟨k, base⟩, hbase, hparts⟩ := except_bind_eq_ok.mp (ingest_iff.mpr ⟨e, hencode, rfl, rfl⟩ :
        w.db.ingest w.jsonb first.env early = .ok (_, w.db.store e))
      obtain ⟨stored, hstored, hparts⟩ := except_bind_eq_ok.mp hparts
      obtain ⟨r, hinsert, _⟩ := except_bind_eq_ok.mp hparts
      obtain ⟨ing, w₁, hbegin⟩ := beginWith_total hfault hbase
      obtain ⟨k', base', tx, c, hbase', rfl, hflight⟩ := beginWith_eq_ok hbegin
      rw [hbase] at hbase'
      cases hbase'
      have hbatched : Batched [] ing := by
        have hrows : ing.rows.length = 0 := Nat.le_zero.mp hflight.rows_le
        unfold Batched
        rw [hrows]
        exact ⟨by decide, Nat.dvd_zero _⟩
      have hts : ∀ r ∈ early ++ late, ∃ ts, ParseTimestamp r.timestamp = .ok ts := by
        intro r hr
        obtain hr | hr := List.mem_append.mp hr
        . obtain ⟨_, hrow⟩ := exists_of_mapM hstored hr
          exact exists_time_of_rowOf hrow
        . obtain ⟨_, hrow⟩ := exists_of_mapM hrows hr
          exact exists_time_of_pendingRow hrow
      obtain ⟨ing', w', hadd⟩ := hflight.addAll_of_early hbatched (Faultless.on hfault) (List.nil_append _) hdvd hlate
        ⟨stored, r, hstored, hinsert⟩ hts
      exact ⟨_, ing, _, ing', w', hbegin, hadd, rfl⟩

end Store
end Api
