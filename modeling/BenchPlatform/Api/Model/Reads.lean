import BenchPlatform.Api.Schema
import BenchPlatform.Api.Model.FieldOrder
import Mathlib.Data.List.Nodup

/-!
This module proves what the decoder makes of the members of an object whose names are unique and those of the fields:
each field has the value of the member with its name, or keeps the value it had.
-/

namespace Api

namespace Json

variable {σ α : Type} {members : List (String × Json)} {name : String} {decode : Json → α → Except GoError α}
  {old new : α} {v w : Json}

/--
What a decoder of objects whose names are unique makes of the member with this name.
-/
inductive Reads (members : List (String × Json)) (name : String) (decode : Json → α → Except GoError α)
    (old new : α) : Prop where
  | absent (h : name ∉ members.map Prod.fst) (heq : new = old)
  | present (v : Json) (hv : (name, v) ∈ members) (h : decode v old = .ok new)

theorem eq_of_unique (hunique : (members.map Prod.fst).Nodup) (hv : (name, v) ∈ members) (hw : (name, w) ∈ members)
    : v = w :=
  (Prod.mk.inj (List.inj_on_of_nodup_map hunique hv hw rfl)).2

theorem Reads.property {p : Json → Prop} (h : Reads members name decode old new)
    (hunique : (members.map Prod.fst).Nodup) (hdecode : ∀ v, (name, v) ∈ members → decode v old = .ok new → p v)
    : ∀ v, (name, v) ∈ members → p v := by
  intro v hv
  cases h with
  | absent h => exact absurd (List.mem_map_of_mem hv) h
  | present w hw h =>
    rw [eq_of_unique hunique hv hw]
    exact hdecode w hw h

theorem Reads.required (h : Reads members name decode old new) (hne : new ≠ old) : name ∈ members.map Prod.fst := by
  cases h with
  | absent _ heq => exact absurd heq hne
  | present v hv => exact List.mem_map_of_mem hv

/--
A value that is not null, or that has changed what was there, has been decoded.
-/
theorem Reads.given {p : Json → Prop} (h : Reads members name decode old new)
    (hunique : (members.map Prod.fst).Nodup) (hnull : decode .null old = .ok old)
    (hgiven : new ≠ old ∨ (name, .null) ∉ members) (hdecode : ∀ v, decode v old = .ok new → v = .null ∨ p v)
    : ∀ v, (name, v) ∈ members → p v := by
  refine h.property hunique fun v hv hread => ?_
  obtain rfl | hp := hdecode v hread
  . rw [hnull] at hread
    injection hread with heq
    obtain hne | hnot := hgiven
    . exact absurd heq.symm hne
    . exact absurd hv hnot
  . exact hp

theorem integer_of_decode {type : String} {old n : Int} {p : Int → Prop} (h : decodeInt type v old = .ok n) (hp : p n)
    : v = .null ∨ Schema.integer p v := by
  cases v with
  | null => exact .inl rfl
  | num literal =>
    unfold decodeInt at h
    dsimp only at h
    split at h
    . rename_i n' hn
      injection h with heq
      subst heq
      obtain ⟨d, hd, hint⟩ := Decimal.parse_of_parseInt64 hn
      exact .inr ⟨d, n', hd, hint, hp⟩
    . cases h
  | _ => cases h

theorem string_of_decode {old s : String} {p : String → Prop} (h : decodeString v old = .ok s) (hp : p s)
    : v = .null ∨ Schema.string p v := by
  cases v with
  | null => exact .inl rfl
  | str s' =>
    injection h with heq
    subst heq
    exact .inr hp
  | _ => cases h

theorem number_of_decode {old x : Float64} (h : decodeFloat v old = .ok x) : v = .null ∨ Schema.number v := by
  cases v with
  | null => exact .inl rfl
  | num literal => exact .inr trivial
  | _ => cases h

theorem Reads.integer {type : String} {old new : Int} {p : Int → Prop} (h : Reads members name (decodeInt type) old new)
    (hunique : (members.map Prod.fst).Nodup) (hp : p new) (hgiven : new ≠ old ∨ (name, .null) ∉ members)
    : ∀ v, (name, v) ∈ members → Schema.integer p v :=
  h.given hunique rfl hgiven fun _ hread => integer_of_decode hread hp

theorem Reads.string {old new : String} {p : String → Prop} (h : Reads members name decodeString old new)
    (hunique : (members.map Prod.fst).Nodup) (hp : p new) (hgiven : new ≠ old ∨ (name, .null) ∉ members)
    : ∀ v, (name, v) ∈ members → Schema.string p v :=
  h.given hunique rfl hgiven fun _ hread => string_of_decode hread hp

theorem reads_of_decode {fields : List (Field σ)} {get : σ → α} {put : σ → α → σ} {s s' : σ}
    (hfind : fields.find? (·.name = name) = some (field name get put decode)) (hget : ∀ s x, get (put s x) = x)
    (howned : OwnedBy fields get name) (hknown : ∀ key ∈ members.map Prod.fst, key ∈ fields.map (·.name))
    (hunique : (members.map Prod.fst).Nodup) (h : members.foldlM (decodeMember fields) s = .ok s')
    : Reads members name decode (get s) (get s') := by
  induction members generalizing s with
  | nil =>
    cases h
    exact .absent List.not_mem_nil rfl
  | cons member members ih =>
    obtain ⟨key, v⟩ := member
    rw [List.map_cons, List.nodup_cons] at hunique
    rw [List.map_cons, List.forall_mem_cons] at hknown
    rw [List.foldlM_cons] at h
    obtain ⟨s₁, hmember, h⟩ := Program.except_bind_eq_ok.mp h
    obtain ⟨f, hf, hname, hfound⟩ := exists_find hknown.1
    have hlookup : lookup fields key = some f := by
      unfold lookup
      rw [hfound]
      rfl
    rw [decodeMember_eq hlookup] at hmember
    have hdecode := Program.except_mapError_eq_ok.mp hmember
    have hrest := ih hknown.2 hunique.2 h
    by_cases hkey : key = name
    . subst hkey
      rw [hfind] at hfound
      cases hfound
      obtain ⟨x, hx, rfl⟩ := Program.except_map_eq_ok.mp hdecode
      rw [hget] at hrest
      refine .present v List.mem_cons_self ?_
      cases hrest with
      | absent _ heq => rwa [heq]
      | present w hw => exact absurd (List.mem_map_of_mem hw) hunique.1
    . rw [howned f hf (hname ▸ hkey) v s s₁ hdecode] at hrest
      cases hrest with
      | absent habsent heq =>
        exact .absent (by rw [List.map_cons, List.mem_cons, not_or]; exact ⟨Ne.symm hkey, habsent⟩) heq
      | present w hw hdecoded => exact .present w (List.mem_cons_of_mem _ hw) hdecoded

end Json


namespace Model

open Program Json

/--
What `decodeStruct` reads of an object whose names are unique and spelled as in the schema.
-/
structure Machine.Reads (members : List (String × Json)) (m : Machine) : Prop where
  id : Json.Reads members "id" decodeString "" m.id
  hostname : Json.Reads members "hostname" decodeString "" m.hostname
  cpuModel : Json.Reads members "cpu_model" decodeString "" m.cpuModel
  physicalCores : Json.Reads members "physical_cores" (decodeInt "int") 0 m.physicalCores
  logicalCPUs : Json.Reads members "logical_cpus" (decodeInt "int") 0 m.logicalCPUs
  l1dKB : Json.Reads members "l1d_kb" (decodeInt "int") 0 m.l1dKB
  l2KB : Json.Reads members "l2_kb" (decodeInt "int") 0 m.l2KB
  l3KB : Json.Reads members "l3_kb" (decodeInt "int") 0 m.l3KB
  memoryBytes : Json.Reads members "memory_bytes" (decodeInt "int64") 0 m.memoryBytes
  os : Json.Reads members "os" decodeString "" m.os
  kernel : Json.Reads members "kernel" decodeString "" m.kernel
  compiler : Json.Reads members "compiler" decodeString "" m.compiler
  compilerFlags : Json.Reads members "compiler_flags" decodeString "" m.compilerFlags
  engineVersion : Json.Reads members "engine_version" decodeString "" m.engineVersion
  engineGitSHA : Json.Reads members "engine_git_sha" decodeString "" m.engineGitSHA
  virtualized : Json.Reads members "virtualized" decodeString "" m.virtualized

structure Result.Reads (members : List (String × Json)) (r : Result) : Prop where
  workload : Json.Reads members "workload" decodeString "" r.workload
  threadCount : Json.Reads members "thread_count" (decodeInt "int") 0 r.threadCount
  workingSetBytes : Json.Reads members "working_set_bytes" (decodeInt "int64") 0 r.workingSetBytes
  metric : Json.Reads members "metric" decodeString "" r.metric
  value : Json.Reads members "value" decodeFloat float0 r.value
  unit : Json.Reads members "unit" decodeString "" r.unit
  trial : Json.Reads members "trial" (decodeInt "int") 0 r.trial
  timestamp : Json.Reads members "timestamp" decodeString "" r.timestamp
  durationNs : Json.Reads members "duration_ns" (decodeInt "int64") 0 r.durationNs

structure RunEnvelope.Reads (members : List (String × Json)) (env : RunEnvelope) : Prop where
  schemaVersion : Json.Reads members "schema_version" (decodeInt "int") 0 env.schemaVersion
  runID : Json.Reads members "run_id" decodeString "" env.runID
  startedAt : Json.Reads members "started_at" decodeString "" env.startedAt
  finishedAt : Json.Reads members "finished_at" decodeString "" env.finishedAt
  machine : Json.Reads members "machine" Machine.decode .zero env.machine
  argv : Json.Reads members "argv" decodeArgv none env.argv

section

variable {members : List (String × Json)}

theorem machine_reads {m : Machine} (hunique : (members.map Prod.fst).Nodup)
    (hknown : ∀ key ∈ members.map Prod.fst, key ∈ Machine.fields.map (·.name))
    (h : members.foldlM (decodeMember Machine.fields) Machine.zero = .ok m)
    : m.Reads members := by
  have reads {α : Type} {name : String} (get : Machine → α) {put : Machine → α → Machine}
      {decode : Json → α → Except GoError α}
      (hfind : Machine.fields.find? (·.name = name) = some (field name get put decode))
      (howned : OwnedBy Machine.fields get name) (hget : ∀ s x, get (put s x) = x)
      : Json.Reads members name decode (get .zero) (get m) :=
    reads_of_decode hfind hget howned hknown hunique h
  refine ⟨reads Machine.id rfl ?_ fun _ _ => rfl, reads Machine.hostname rfl ?_ fun _ _ => rfl,
    reads Machine.cpuModel rfl ?_ fun _ _ => rfl, reads Machine.physicalCores rfl ?_ fun _ _ => rfl,
    reads Machine.logicalCPUs rfl ?_ fun _ _ => rfl, reads Machine.l1dKB rfl ?_ fun _ _ => rfl,
    reads Machine.l2KB rfl ?_ fun _ _ => rfl, reads Machine.l3KB rfl ?_ fun _ _ => rfl,
    reads Machine.memoryBytes rfl ?_ fun _ _ => rfl, reads Machine.os rfl ?_ fun _ _ => rfl,
    reads Machine.kernel rfl ?_ fun _ _ => rfl, reads Machine.compiler rfl ?_ fun _ _ => rfl,
    reads Machine.compilerFlags rfl ?_ fun _ _ => rfl, reads Machine.engineVersion rfl ?_ fun _ _ => rfl,
    reads Machine.engineGitSHA rfl ?_ fun _ _ => rfl, reads Machine.virtualized rfl ?_ fun _ _ => rfl⟩
  all_goals
    repeat first
      | exact .nil
      | refine .own ?_
      | refine .other (fun _ _ => rfl) ?_

theorem result_reads {r : Result} (hunique : (members.map Prod.fst).Nodup)
    (hknown : ∀ key ∈ members.map Prod.fst, key ∈ Result.fields.map (·.name))
    (h : members.foldlM (decodeMember Result.fields) Result.zero = .ok r)
    : r.Reads members := by
  have reads {α : Type} {name : String} (get : Result → α) {put : Result → α → Result}
      {decode : Json → α → Except GoError α}
      (hfind : Result.fields.find? (·.name = name) = some (field name get put decode))
      (howned : OwnedBy Result.fields get name) (hget : ∀ s x, get (put s x) = x)
      : Json.Reads members name decode (get .zero) (get r) :=
    reads_of_decode hfind hget howned hknown hunique h
  refine ⟨reads Result.workload rfl ?_ fun _ _ => rfl, reads Result.threadCount rfl ?_ fun _ _ => rfl,
    reads Result.workingSetBytes rfl ?_ fun _ _ => rfl, reads Result.metric rfl ?_ fun _ _ => rfl,
    reads Result.value rfl ?_ fun _ _ => rfl, reads Result.unit rfl ?_ fun _ _ => rfl,
    reads Result.trial rfl ?_ fun _ _ => rfl, reads Result.timestamp rfl ?_ fun _ _ => rfl,
    reads Result.durationNs rfl ?_ fun _ _ => rfl⟩
  all_goals
    repeat first
      | exact .nil
      | refine .own ?_
      | refine .other (fun _ _ => rfl) ?_

theorem envelope_reads {env : RunEnvelope} (hunique : (members.map Prod.fst).Nodup)
    (hknown : ∀ key ∈ members.map Prod.fst, key ∈ RunEnvelope.headerFields.map (·.name))
    (h : members.foldlM (decodeMember RunEnvelope.headerFields) RunEnvelope.zero = .ok env)
    : env.Reads members := by
  have reads {α : Type} {name : String} (get : RunEnvelope → α) {put : RunEnvelope → α → RunEnvelope}
      {decode : Json → α → Except GoError α}
      (hfind : RunEnvelope.headerFields.find? (·.name = name) = some (field name get put decode))
      (howned : OwnedBy RunEnvelope.headerFields get name) (hget : ∀ s x, get (put s x) = x)
      : Json.Reads members name decode (get .zero) (get env) :=
    reads_of_decode hfind hget howned hknown hunique h
  refine ⟨reads RunEnvelope.schemaVersion rfl ?_ fun _ _ => rfl, reads RunEnvelope.runID rfl ?_ fun _ _ => rfl,
    reads RunEnvelope.startedAt rfl ?_ fun _ _ => rfl, reads RunEnvelope.finishedAt rfl ?_ fun _ _ => rfl,
    reads RunEnvelope.machine rfl ?_ fun _ _ => rfl, reads RunEnvelope.argv rfl ?_ fun _ _ => rfl⟩
  all_goals
    repeat first
      | exact .nil
      | refine .own ?_
      | refine .other (fun _ _ => rfl) ?_

end

end Model
end Api
