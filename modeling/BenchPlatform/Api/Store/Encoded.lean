import BenchPlatform.Api.Store.RunArguments

/-!
This module proves that whether an ingest succeeds, and the rows that it inserts, depend on nothing
but what is ingested: the rows of one envelope refer to each other.
-/

namespace Api
namespace Store

open Model Program

section

variable {s : String} {u u' : Uuid} {cs rest : List Char} {digits : List Nat}

theorem filterMap_of_mapM {α β : Type} {f : α → Option β} {l : List α} {l' : List β}
    (h : l.mapM f = some l')
    : l.filterMap f = l' := by
  induction l generalizing l' with
  | nil => simpa using h
  | cons a l ih =>
    rw [List.mapM_cons] at h
    obtain ⟨b, hb, h⟩ := Option.bind_eq_some_iff.mp h
    obtain ⟨bs, hbs, hpure⟩ := Option.bind_eq_some_iff.mp h
    injection hpure with hpure
    subst hpure
    rw [List.filterMap_cons, hb, ih hbs]

theorem ofDigits?_eq_some (h : Uuid.ofDigits? digits = some u) : u.toList = digits := by
  unfold Uuid.ofDigits? at h
  split at h
  . injection h with h
    subst h
    rfl
  . cases h

theorem uuidBytes_digits {n : Nat} (h : uuidBytes n cs = some (digits, rest))
    : cs.filterMap hexValue? = digits ++ rest.filterMap hexValue? := by
  induction n generalizing cs digits with
  | zero =>
    injection h with h
    injection h with hdigits hrest
    subst hdigits hrest
    rfl
  | succ n ih =>
    match cs with
    | [] => cases h
    | [_] => cases h
    | a :: b :: cs =>
      unfold uuidBytes at h
      obtain ⟨x, hx, h⟩ := Option.bind_eq_some_iff.mp h
      obtain ⟨y, hy, h⟩ := Option.bind_eq_some_iff.mp h
      obtain ⟨⟨ds, cs'⟩, hrest, hpure⟩ := Option.bind_eq_some_iff.mp h
      injection hpure with hpure
      injection hpure with hdigits hcs
      subst hdigits hcs
      have hskip : cs.filterMap hexValue? = ds ++ cs'.filterMap hexValue? := by
        rw [← ih hrest]
        split
        . split
          . rw [List.filterMap_cons_none (by decide)]
          . rfl
        . rfl
      rw [List.filterMap_cons, hx, List.filterMap_cons, hy, hskip]
      rfl

theorem parseUuid_digits (h : parseUuid s = some u) : s.toList.filterMap hexValue? = u.toList := by
  -- the digits, and what follows them
  have hdigits : ∃ cs digits rest, uuidBytes 16 cs = some (digits, rest)
      ∧ s.toList.filterMap hexValue? = cs.filterMap hexValue?
      ∧ rest.filterMap hexValue? = [] ∧ u.toList = digits := by
    unfold parseUuid at h
    split at h
    . rename_i cs hcs
      cases hbytes : uuidBytes 16 cs with
      | none => simp [hbytes] at h
      | some r =>
        obtain ⟨digits, rest⟩ := r
        simp only [hbytes, Option.bind_eq_bind, Option.bind_some] at h
        split at h
        . rename_i hrest
          refine ⟨cs, digits, rest, hbytes, ?_, ?_, ofDigits?_eq_some h⟩
          . rw [hcs, List.filterMap_cons_none (by decide)]
          . rw [hrest]
            decide
        . cases h
    . cases hbytes : uuidBytes 16 s.toList with
      | none => simp [hbytes] at h
      | some r =>
        obtain ⟨digits, rest⟩ := r
        simp only [hbytes, Option.bind_eq_bind, Option.bind_some] at h
        split at h
        . rename_i hrest
          refine ⟨_, digits, rest, hbytes, rfl, ?_, ofDigits?_eq_some h⟩
          rw [hrest]
          rfl
        . cases h
  obtain ⟨cs, digits, rest, hbytes, hcs, hrest, hu⟩ := hdigits
  rw [hcs, uuidBytes_digits hbytes, hrest, List.append_nil, hu]

theorem take_append_sublist {l l' : List Char} {n m k : Nat} (h : l'.Sublist (l.drop m))
    (hle : n + k ≤ m)
    : ((l.drop n).take k ++ l').Sublist (l.drop n) := by
  have hdrop : l'.Sublist ((l.drop n).drop k) := by
    rw [List.drop_drop]
    exact h.trans (List.drop_sublist_drop_left l hle)
  have happend := hdrop.append_left ((l.drop n).take k)
  rwa [List.take_append_drop] at happend

theorem parseUuidBinary_digits (h : parseUuidBinary s = some u)
    : u.toList.Sublist (s.toList.filterMap hexValue?) := by
  unfold parseUuidBinary at h
  obtain ⟨digits, hdigits, hu⟩ := Option.bind_eq_some_iff.mp h
  rw [ofDigits?_eq_some hu, ← filterMap_of_mapM hdigits]
  apply List.Sublist.filterMap
  split
  . simp only [List.append_assoc]
    have h₁ := take_append_sublist (n := 19) (k := 4) (List.Sublist.refl (s.toList.drop 24))
      (by omega)
    have h₂ := take_append_sublist (n := 14) (k := 4) h₁ (by omega)
    have h₃ := take_append_sublist (n := 9) (k := 4) h₂ (by omega)
    exact take_append_sublist (n := 0) (k := 8) h₃ (by omega)
  . exact List.Sublist.refl _

theorem parseUuid_eq (h : parseUuid s = some u) (h' : parseUuidBinary s = some u') : u = u' := by
  have hsub := parseUuidBinary_digits h'
  rw [parseUuid_digits h] at hsub
  have hlist : u'.toList = u.toList := hsub.eq_of_length (by simp)
  exact List.Vector.toList_injective hlist.symm

end

structure Encoded where
  machine : MachineRow
  run : RunRow
  measurements : List MeasurementRow

def encode (jsonb : Json → Bool) (env : RunEnvelope) (rs : List Result) : Except GoError Encoded := do
  let started ← ParseTimestamp env.startedAt
  let finished ← ParseTimestamp env.finishedAt
  let machine ← encodeMachine env.machine started finished
  let run ← encodeRun jsonb env started finished (marshalArgv env.argv)
  let measurements ← rs.mapM (rowOf jsonb env.runID env.machine.id)
  return { machine := machine, run := run, measurements := measurements }

theorem MachineRow.merge_id (new old : MachineRow) : (new.merge old).id = old.id := rfl

def Db.store (db : Db) (e : Encoded) : Db where
  machines := db.machines.upsert e.machine e.machine.merge e.machine.merge_id
  runs := db.runs.insertIgnore e.run
  measurements := db.measurements.insertAllIgnore e.measurements

/--
The measurements of `e` that are new.
-/
def Db.fresh (db : Db) (e : Encoded) : List MeasurementRow :=
  Table.firsts MeasurementRow.key db.measurements.keys e.measurements

variable {db db' : Db} {jsonb : Json → Bool} {env : RunEnvelope} {rs : List Result}
  {res : IngestResult} {e : Encoded}

theorem encodeText_eq_ok {s t : String} : encodeText s = .ok t ↔ '\x00' ∉ s.toList ∧ t = s := by
  unfold encodeText
  split <;> simp [*, eq_comm]

theorem encodeMachine_fields {m : Machine} {started finished : Time} {row : MachineRow}
    (h : encodeMachine m started finished = .ok row)
    : row.id = m.id ∧ row.firstSeen = timestamptz started ∧ row.lastSeen = timestamptz finished := by
  obtain ⟨id, hid, h⟩ := except_bind_eq_ok.mp h
  obtain ⟨_, rfl⟩ := encodeText_eq_ok.mp hid
  -- the other columns do not matter
  iterate 12 obtain ⟨_, _, h⟩ := except_bind_eq_ok.mp h
  injection h with h
  subst h
  exact ⟨rfl, rfl, rfl⟩

theorem encodeRun_fields {started finished : Time} {argv : Json} {row : RunRow}
    (h : encodeRun jsonb env started finished argv = .ok row)
    : parseUuid env.runID = some row.id ∧ row.machineID = env.machine.id := by
  refine ⟨encodeRun_id h, ?_⟩
  obtain ⟨_, _, h₁⟩ := except_bind_eq_ok.mp h
  obtain ⟨id, hid, h₂⟩ := except_bind_eq_ok.mp h₁
  obtain ⟨_, rfl⟩ := encodeText_eq_ok.mp hid
  iterate 3 obtain ⟨_, _, h₂⟩ := except_bind_eq_ok.mp h₂
  injection h₂ with h₂
  subst h₂
  rfl

theorem encodeInt4_eq_ok {n k : Int} : encodeInt4 n = .ok k ↔ (-2 ^ 31 ≤ n ∧ n < 2 ^ 31) ∧ k = n := by
  unfold encodeInt4
  split
  . rename_i hrange
    rw [Except.ok.injEq]
    exact ⟨fun h => ⟨hrange, h.symm⟩, fun h => h.2.symm⟩
  . rename_i hrange
    exact ⟨nofun, fun h => absurd h.1 hrange⟩

theorem rowOf_fields {runID machineID : String} {r : Result} {row : MeasurementRow}
    (h : rowOf jsonb runID machineID r = .ok row)
    : parseUuidBinary runID = some row.runID ∧ row.machineID = machineID ∧ row.metric = r.metric
      ∧ row.threadCount = r.threadCount ∧ row.workingSetBytes = r.workingSetBytes
      ∧ row.trial = r.trial := by
  obtain ⟨pending, hpending, hencode⟩ := except_bind_eq_ok.mp h
  obtain ⟨ts, _, hpure⟩ := except_bind_eq_ok.mp hpending
  injection hpure with hpure
  subst hpure
  unfold PendingRow.encode at hencode
  dsimp only at hencode
  split at hencode
  swap
  . obtain ⟨_, herror, _⟩ := except_bind_eq_ok.mp hencode
    cases herror
  rename_i u hu
  obtain ⟨u', hok, h₁⟩ := except_bind_eq_ok.mp hencode
  injection hok with hok
  subst hok
  obtain ⟨_, hmachine, h₂⟩ := except_bind_eq_ok.mp h₁
  obtain ⟨_, _, h₃⟩ := except_bind_eq_ok.mp h₂
  obtain ⟨_, hmetric, h₄⟩ := except_bind_eq_ok.mp h₃
  obtain ⟨_, hthreads, h₅⟩ := except_bind_eq_ok.mp h₄
  obtain ⟨_, htrial, h₆⟩ := except_bind_eq_ok.mp h₅
  obtain ⟨_, _, h₇⟩ := except_bind_eq_ok.mp h₆
  obtain ⟨_, _, hpure⟩ := except_bind_eq_ok.mp h₇
  injection hpure with hpure
  subst hpure
  obtain ⟨_, rfl⟩ := encodeText_eq_ok.mp hmachine
  obtain ⟨_, rfl⟩ := encodeText_eq_ok.mp hmetric
  obtain ⟨_, rfl⟩ := encodeInt4_eq_ok.mp (Program.except_mapError_eq_ok.mp hthreads)
  obtain ⟨_, rfl⟩ := encodeInt4_eq_ok.mp (Program.except_mapError_eq_ok.mp htrial)
  exact ⟨hu, rfl, rfl, rfl, rfl, rfl⟩

theorem encode_eq_ok
    : encode jsonb env rs = .ok e ↔ ∃ started finished,
        ParseTimestamp env.startedAt = .ok started ∧ ParseTimestamp env.finishedAt = .ok finished
        ∧ encodeMachine env.machine started finished = .ok e.machine
        ∧ encodeRun jsonb env started finished (marshalArgv env.argv) = .ok e.run
        ∧ rs.mapM (rowOf jsonb env.runID env.machine.id) = .ok e.measurements := by
  unfold encode
  simp only [except_bind_eq_ok]
  constructor
  . rintro ⟨started, hstarted, finished, hfinished, machine, hmachine, run, hrun, rows, hrows, hpure⟩
    injection hpure with hpure
    subst hpure
    exact ⟨started, finished, hstarted, hfinished, hmachine, hrun, hrows⟩
  . rintro ⟨started, finished, hstarted, hfinished, hmachine, hrun, hrows⟩
    exact ⟨started, hstarted, finished, hfinished, _, hmachine, _, hrun, _, hrows, rfl⟩

theorem encode_refers (h : encode jsonb env rs = .ok e)
    : parseUuid env.runID = some e.run.id ∧ e.machine.id = env.machine.id
      ∧ e.run.machineID = env.machine.id
      ∧ ∀ row ∈ e.measurements, row.runID = e.run.id ∧ row.machineID = env.machine.id := by
  obtain ⟨started, finished, _, _, hmachine, hrun, hrows⟩ := encode_eq_ok.mp h
  obtain ⟨hid, hmachineID⟩ := encodeRun_fields hrun
  refine ⟨hid, (encodeMachine_fields hmachine).1, hmachineID, ?_⟩
  intro row hrow
  obtain ⟨r, _, hr⟩ := exists_of_mem_mapM hrows hrow
  obtain ⟨hbinary, hrowMachine, _⟩ := rowOf_fields hr
  exact ⟨(parseUuid_eq hid hbinary).symm, hrowMachine⟩

theorem mem_encode {row : MeasurementRow} (h : encode jsonb env rs = .ok e)
    : row ∈ e.measurements ↔ ∃ r ∈ rs, rowOf jsonb env.runID env.machine.id r = .ok row := by
  obtain ⟨started, finished, _, _, _, _, hrows⟩ := encode_eq_ok.mp h
  constructor
  . exact exists_of_mem_mapM hrows
  . rintro ⟨r, hr, hrow⟩
    exact mem_of_mapM hrows hr hrow

theorem encode_of_header {rs' : List Result} (h : encode jsonb env rs = .ok e)
    (hrows : ∀ r ∈ rs', ∃ row, rowOf jsonb env.runID env.machine.id r = .ok row)
    : ∃ e', encode jsonb env rs' = .ok e' ∧ e'.run = e.run := by
  obtain ⟨started, finished, hstarted, hfinished, hmachine, hrun, _⟩ := encode_eq_ok.mp h
  obtain ⟨rows, hrows⟩ := exists_mapM hrows
  exact ⟨{ e with measurements := rows },
    encode_eq_ok.mpr ⟨started, finished, hstarted, hfinished, hmachine, hrun, hrows⟩, rfl⟩

theorem Db.insertRun_store {started finished : Time} {argv : Json} {k : Nat}
    (hmachine : env.machine.id ∈ db.machines.keys)
    : db.insertRun jsonb env started finished argv = .ok (k, db') ↔ ∃ row,
        encodeRun jsonb env started finished argv = .ok row
        ∧ k = (if row.id ∈ db.runs.keys then 0 else 1)
        ∧ db' = { db with runs := db.runs.insertIgnore row } := by
  unfold Db.insertRun
  rw [except_bind_eq_ok]
  apply exists_congr
  intro row
  apply and_congr_right
  intro hrow
  have hmachine' : row.machineID ∈ db.machines.keys := (encodeRun_fields hrow).2 ▸ hmachine
  by_cases hmem : row.id ∈ db.runs.keys
  . rw [if_pos hmem, if_pos hmem, Table.insertIgnore_of_mem hmem]
    constructor
    . intro h
      injection h with h
      injection h with hk hdb
      exact ⟨hk.symm, hdb.symm⟩
    . rintro ⟨rfl, rfl⟩
      rfl
  . rw [if_neg hmem, if_neg hmem, if_neg (not_not.mpr hmachine')]
    constructor
    . intro h
      injection h with h
      injection h with hk hdb
      exact ⟨hk.symm, hdb.symm⟩
    . rintro ⟨rfl, rfl⟩
      rfl

theorem Db.insertMachine_store {m : Machine} {started finished : Time}
    : db.insertMachine m started finished = .ok db' ↔ ∃ row,
        encodeMachine m started finished = .ok row
        ∧ db' = { db with machines := db.machines.upsert row row.merge row.merge_id } := by
  unfold Db.insertMachine
  rw [except_bind_eq_ok]
  simp only [pure, Except.pure, Except.ok.injEq, eq_comm]

theorem ingest_iff
    : db.ingest jsonb env rs = .ok (res, db') ↔ ∃ e, encode jsonb env rs = .ok e ∧ db' = db.store e
        ∧ res =
          { runID := env.runID
            results := rs.length
            inserted := (db.fresh e).length
            skipped := rs.length - (db.fresh e).length
            duplicate := (db.fresh e).length = 0 ∧ 0 < rs.length
            machineID := env.machine.id } := by
  have hmachineThere : ∀ {started finished : Time} {row : MachineRow},
      encodeMachine env.machine started finished = .ok row →
      env.machine.id ∈ (db.machines.upsert row row.merge row.merge_id).keys := by
    intro started finished row hrow
    rw [Table.keys_upsert, Table.mem_keys_insertIgnore]
    exact .inr (encodeMachine_fields hrow).1.symm
  constructor
  . intro h
    obtain ⟨⟨k, base⟩, hbase, h₁⟩ := except_bind_eq_ok.mp h
    obtain ⟨started, hstarted, h₂⟩ := except_bind_eq_ok.mp hbase
    obtain ⟨finished, hfinished, h₃⟩ := except_bind_eq_ok.mp h₂
    obtain ⟨db₁, hmachine, hrun⟩ := except_bind_eq_ok.mp h₃
    obtain ⟨rows, hrows, h₄⟩ := except_bind_eq_ok.mp h₁
    obtain ⟨⟨n, db₂⟩, hinsert, hpure⟩ := except_bind_eq_ok.mp h₄
    obtain ⟨machine, hmachineRow, rfl⟩ := Db.insertMachine_store.mp hmachine
    obtain ⟨run, hrunRow, rfl, rfl⟩ := (Db.insertRun_store (hmachineThere hmachineRow)).mp hrun
    obtain ⟨_, rfl, rfl⟩ := insertIgnore_eq_ok.mp hinsert
    injection hpure with hpure
    injection hpure with hres hdb
    exact ⟨{ machine := machine, run := run, measurements := rows },
      encode_eq_ok.mpr ⟨started, finished, hstarted, hfinished, hmachineRow, hrunRow, hrows⟩,
      hdb.symm, hres.symm⟩
  . rintro ⟨e, hencode, rfl, rfl⟩
    obtain ⟨started, finished, hstarted, hfinished, hmachineRow, hrunRow, hrows⟩ :=
      encode_eq_ok.mp hencode
    have hmachine : db.insertMachine env.machine started finished = .ok _ :=
      Db.insertMachine_store.mpr ⟨_, hmachineRow, rfl⟩
    have hrun : Db.insertRun
        { db with machines := db.machines.upsert e.machine e.machine.merge e.machine.merge_id }
        jsonb env started finished (marshalArgv env.argv) = .ok (_, _) :=
      (Db.insertRun_store (hmachineThere hmachineRow)).mpr ⟨_, hrunRow, rfl, rfl⟩
    have hrefs : ∀ row ∈ db.fresh e,
        Db.References (db.store { e with measurements := [] }) row := by
      intro row hrow
      obtain ⟨_, hmachineID, _, hrefers⟩ := encode_refers hencode
      obtain ⟨hrunID, hrowMachine⟩ := hrefers row (Table.mem_of_mem_firsts hrow)
      constructor
      . rw [hrunID]
        exact Table.mem_keys_insertIgnore.mpr (.inr rfl)
      . rw [hrowMachine]
        exact hmachineThere hmachineRow
    have hinsert : (db.store { e with measurements := [] }).insertIgnore e.measurements = .ok (_, _) :=
      insertIgnore_eq_ok.mpr ⟨hrefs, rfl, rfl⟩
    exact except_bind_eq_ok.mpr ⟨_, except_bind_eq_ok.mpr ⟨_, hstarted, except_bind_eq_ok.mpr
      ⟨_, hfinished, except_bind_eq_ok.mpr ⟨_, hmachine, hrun⟩⟩⟩, except_bind_eq_ok.mpr
      ⟨_, hrows, except_bind_eq_ok.mpr ⟨_, hinsert, rfl⟩⟩⟩

end Store
end Api
