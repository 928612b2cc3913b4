import BenchPlatform.Api.Model.Reads
import BenchPlatform.Api.Model.RepeatedResults

/-!
This module proves which of the documents that the decoder accepts obey the published schema: what it asks for beyond
the checks of the package.
-/

namespace Api

namespace Schema

def any (_ : Json) : Prop :=
  True

def given : Json → Prop
  | .null => False
  | _ => True

theorem given_of_integer {p : Int → Prop} {v : Json} (h : integer p v) : given v := by
  cases v with
  | num literal => trivial
  | _ => exact h.elim

theorem given_of_string {p : String → Prop} {v : Json} (h : string p v) : given v := by
  cases v with
  | str s => trivial
  | _ => exact h.elim

theorem given_of_number {v : Json} (h : number v) : given v := by
  cases v with
  | num literal => trivial
  | _ => exact h.elim

theorem eq_str_of_string {s : String} {v : Json} (h : string (· = s) v) : v = .str s := by
  cases v with
  | str s' => exact congrArg Json.str h
  | _ => exact h.elim

/--
The second list of properties has the same names and asks for less.
-/
abbrev Weaker : List (String × (Json → Prop)) → List (String × (Json → Prop)) → Prop :=
  List.Forall₂ fun p q => p.1 = q.1 ∧ ∀ v, p.2 v → q.2 v

theorem Weaker.names {props props' : List (String × (Json → Prop))} (h : Weaker props props')
    : props'.map Prod.fst = props.map Prod.fst := by
  induction h with
  | nil => rfl
  | cons hpq _ ih => rw [List.map_cons, List.map_cons, ih, hpq.1]

theorem Weaker.properties {props props' : List (String × (Json → Prop))} {members : List (String × Json)}
    (h : Weaker props props') (hprops : ∀ p ∈ props, ∀ v, (p.1, v) ∈ members → p.2 v)
    : ∀ q ∈ props', ∀ v, (q.1, v) ∈ members → q.2 v := by
  induction h with
  | nil => exact fun _ hq => absurd hq List.not_mem_nil
  | cons hpq _ ih =>
    rw [List.forall_mem_cons] at hprops ⊢
    exact ⟨fun v hv => hpq.2 v (hprops.1 v (hpq.1 ▸ hv)), ih hprops.2⟩

theorem Members.weaken {isClosed : Bool} {keys keys' : List String} {props props' : List (String × (Json → Prop))}
    {members : List (String × Json)} (h : Members isClosed keys props members) (hkeys : keys' ⊆ keys)
    (hprops : Weaker props props')
    : Members isClosed keys' props' members :=
  ⟨h.unique, fun key hkey => h.required key (hkeys hkey), hprops.properties h.properties, hprops.names ▸ h.closed⟩

/--
What the checks of the package `model` leave to the schema of a machine.
-/
def unchecked_machine : Json → Prop :=
  object true ["l1d_kb", "l2_kb", "l3_kb", "memory_bytes", "compiler_flags"]
    [("id", any), ("hostname", any), ("cpu_model", any), ("physical_cores", any), ("logical_cpus", any),
      ("l1d_kb", given), ("l2_kb", given), ("l3_kb", given), ("memory_bytes", given), ("os", any), ("kernel", any),
      ("compiler", any), ("compiler_flags", given), ("engine_version", any), ("engine_git_sha", any),
      ("virtualized", given)]

def unchecked_result : Json → Prop :=
  object true ["working_set_bytes", "value", "trial"]
    [("workload", any), ("thread_count", any), ("working_set_bytes", given), ("metric", any), ("value", given),
      ("unit", any), ("trial", given), ("timestamp", any), ("duration_ns", any), ("params", params)]

/--
The names of a result that the decoder takes are spelled as in the schema, not in upper case.
-/
def spelled_result : Json → Prop :=
  object true []
    [("workload", any), ("thread_count", any), ("working_set_bytes", any), ("metric", any), ("value", any),
      ("unit", any), ("trial", any), ("timestamp", any), ("duration_ns", any), ("params", any)]

def unchecked_run : Json → Prop :=
  object true ["argv"]
    [("schema_version", any), ("run_id", any), ("started_at", any), ("finished_at", any),
      ("machine", unchecked_machine), ("argv", array given), ("results", array unchecked_result),
      ("summary", array summary)]

def spelled_run : Json → Prop :=
  object false [] [("results", array spelled_result)]

end Schema

namespace Model

open Program Json

section Streaming

variable {maxResults : Int} {members : List (String × Json)} {s s' : Scan} {log log' : List Delivery}

theorem streamMembers_env (h : streamMembers maxResults (ofCallback record) members s log = .ok s' log')
    : (members.filter (·.1 ≠ "results")).foldlM (decodeMember RunEnvelope.headerFields) s.env = .ok s'.env := by
  induction members generalizing s log with
  | nil =>
    injection h with hs _
    subst hs
    rfl
  | cons member members ih =>
    obtain ⟨key, v⟩ := member
    obtain ⟨s₁, log₁, hmember, hrest⟩ := bind_eq_ok.mp h
    by_cases hkey : key = "results"
    . subst hkey
      obtain ⟨_, _, _, _, henv, _⟩ := streamMember_arr hmember
      rw [List.filter_cons_of_neg (by simp), ← henv]
      exact ih hrest
    . obtain ⟨hdecode, _⟩ := streamMember_field hkey hmember
      rw [List.filter_cons_of_pos (by simpa using hkey), List.foldlM_cons]
      exact except_bind_eq_ok.mpr ⟨_, hdecode, ih hrest⟩

theorem streamMember_valid {v : Json}
    (h : streamMember maxResults (ofCallback record) s ("results", v) log = .ok s' log')
    : ∃ elems, v = .arr elems ∧ ∀ x ∈ elems, ∃ r, Result.decode x .zero = .ok r ∧ r.Valid := by
  obtain ⟨elems, _, rfl, _⟩ := streamMember_arr h
  refine ⟨elems, rfl, ?_⟩
  obtain ⟨found, helems, _⟩ := streamMember_results.mp h
  intro x hx
  have hne : elems ≠ [] := List.ne_nil_of_mem hx
  obtain ⟨rs, hrs, hvalid, _⟩ := (streamElems_eq_ok (streamElems_le helems hne)).mp helems
  obtain ⟨r, hr⟩ := exists_of_mapM hrs hx
  exact ⟨r, hr, hvalid r (mem_of_mapM hrs hx hr)⟩

theorem streamMembers_valid (h : streamMembers maxResults (ofCallback record) members s log = .ok s' log')
    : ∀ v, ("results", v) ∈ members →
      ∃ elems, v = .arr elems ∧ ∀ x ∈ elems, ∃ r, Result.decode x .zero = .ok r ∧ r.Valid := by
  induction members generalizing s log with
  | nil => exact fun _ hv => absurd hv List.not_mem_nil
  | cons member members ih =>
    obtain ⟨s₁, log₁, hmember, hrest⟩ := bind_eq_ok.mp h
    intro v hv
    obtain rfl | hv := List.mem_cons.mp hv
    . exact streamMember_valid hmember
    . exact ih hrest v hv

theorem streamMember_known {key : String} {v : Json} (hkey : key ≠ "results")
    (h : streamMember maxResults (ofCallback record) s (key, v) log = .ok s' log')
    : key ∈ RunEnvelope.headerKeys := by
  unfold streamMember at h
  cases hfind : RunEnvelope.headerFields.find? (·.name = key) with
  | some f =>
    have hname : f.name = key := by simpa using List.find?_some hfind
    exact hname ▸ List.mem_map_of_mem (List.mem_of_find?_eq_some hfind)
  | none =>
    simp only [hkey, if_false, hfind] at h
    cases h

theorem streamMembers_known (h : streamMembers maxResults (ofCallback record) members s log = .ok s' log')
    : ∀ key ∈ members.map Prod.fst, key ≠ "results" → key ∈ RunEnvelope.headerKeys := by
  induction members generalizing s log with
  | nil => exact fun _ hkey => absurd hkey List.not_mem_nil
  | cons member members ih =>
    obtain ⟨s₁, log₁, hmember, hrest⟩ := bind_eq_ok.mp h
    rw [List.map_cons, List.forall_mem_cons]
    exact ⟨fun hkey => streamMember_known hkey hmember, ih hrest⟩

theorem streamMembers_count (h : streamMembers maxResults (ofCallback record) members s log = .ok s' log')
    (hknown : ∀ m ∈ members, m.1 ∈ RunEnvelope.headerKeys)
    : s'.count = s.count := by
  obtain ⟨_, _, rfl, _⟩ := (streamMembers_header hknown).mp h
  rfl

end Streaming

section

variable {members : List (String × Json)}

theorem machine_of_unchecked {m : Machine} (hreads : m.Reads members) (hvalid : m.Valid)
    (h : Schema.unchecked_machine (.obj members))
    : Schema.machine (.obj members) := by
  have hunique := h.unique
  have hrequired := hvalid.required
  have hcaches := hvalid.caches
  have hgiven := h.properties
  unfold Machine.required at hrequired
  unfold Machine.caches at hcaches
  simp only [List.forall_mem_cons] at hrequired hcaches hgiven
  obtain ⟨hhostname, hcpu, hos, hkernel, hcompiler, hversion, hsha, _⟩ := hrequired
  obtain ⟨hl1d, hl2, hl3, _⟩ := hcaches
  obtain ⟨_, _, _, _, _, hl1dGiven, hl2Given, hl3Given, hmemoryGiven, _, _, _, hflagsGiven, _, _, hvirtualizedGiven,
    _⟩ := hgiven
  have hid := hvalid.id_ne
  have hphysical : m.physicalCores ≠ 0 := Int.ne_of_gt hvalid.physicalCores
  have hlogical : m.logicalCPUs ≠ 0 := Int.ne_of_gt hvalid.logicalCPUs
  refine ⟨hunique, ?_, ?_, h.closed⟩
  . -- a field that is checked is not the zero value, so it has been read
    simp only [List.forall_mem_cons]
    exact ⟨hreads.id.required hid, hreads.hostname.required hhostname, hreads.cpuModel.required hcpu,
      hreads.physicalCores.required hphysical, hreads.logicalCPUs.required hlogical,
      h.required _ (by decide), h.required _ (by decide), h.required _ (by decide), h.required _ (by decide),
      hreads.os.required hos, hreads.kernel.required hkernel, hreads.compiler.required hcompiler,
      h.required _ (by decide), hreads.engineVersion.required hversion, hreads.engineGitSHA.required hsha,
      List.forall_mem_nil _⟩
  . simp only [List.forall_mem_cons]
    exact ⟨hreads.id.string hunique hvalid.id (.inl hid), hreads.hostname.string hunique hhostname (.inl hhostname),
      hreads.cpuModel.string hunique hcpu (.inl hcpu),
      hreads.physicalCores.integer hunique hvalid.physicalCores (.inl hphysical),
      hreads.logicalCPUs.integer hunique hvalid.logicalCPUs (.inl hlogical),
      hreads.l1dKB.integer hunique hl1d (.inr (hl1dGiven .null)),
      hreads.l2KB.integer hunique hl2 (.inr (hl2Given .null)), hreads.l3KB.integer hunique hl3 (.inr (hl3Given .null)),
      hreads.memoryBytes.integer hunique hvalid.memoryBytes (.inr (hmemoryGiven .null)),
      hreads.os.string hunique hos (.inl hos), hreads.kernel.string hunique hkernel (.inl hkernel),
      hreads.compiler.string hunique hcompiler (.inl hcompiler),
      hreads.compilerFlags.string hunique trivial (.inr (hflagsGiven .null)),
      hreads.engineVersion.string hunique hversion (.inl hversion),
      hreads.engineGitSHA.string hunique hsha (.inl hsha),
      hreads.virtualized.string hunique trivial (.inr (hvirtualizedGiven .null)), List.forall_mem_nil _⟩

theorem machine_iff {v : Json} {m : Machine} (hdecode : Machine.decode v .zero = .ok m) (hvalid : m.Valid)
    : Schema.machine v ↔ Schema.unchecked_machine v := by
  cases v with
  | null =>
    injection hdecode with hzero
    subst hzero
    exact absurd rfl hvalid.id_ne
  | obj members =>
    constructor
    . intro h
      refine Schema.Members.weaken h (by decide) ?_
      repeat first
        | exact .nil
        | refine .cons ⟨rfl, fun _ _ => trivial⟩ ?_
        | refine .cons ⟨rfl, fun _ => Schema.given_of_integer⟩ ?_
        | refine .cons ⟨rfl, fun _ => Schema.given_of_string⟩ ?_
    . intro h
      exact machine_of_unchecked (machine_reads h.unique (h.closed rfl) (except_mapError_eq_ok.mp hdecode)) hvalid h
  | _ => cases hdecode

theorem result_of_unchecked {r : Result} (hreads : r.Reads members) (hvalid : r.Valid)
    (h : Schema.unchecked_result (.obj members))
    : Schema.run_result (.obj members) := by
  have hunique := h.unique
  have hgiven := h.properties
  simp only [List.forall_mem_cons] at hgiven
  obtain ⟨_, _, hsizeGiven, _, hvalueGiven, _, htrialGiven, _, _, hparams, _⟩ := hgiven
  have hmetric : r.metric ∈ Metrics := List.contains_iff_mem.mp hvalid.metric
  have hworkload : r.workload ∈ Workloads := List.contains_iff_mem.mp hvalid.workload
  have hunit : r.unit ∈ ["ops/s", "GB/s", "ns", "MB/s", "IOPS", "us"] := by
    have hunits : ∀ m ∈ Metrics, mapGet UnitOf m ∈ ["ops/s", "GB/s", "ns", "MB/s", "IOPS", "us"] := by decide
    rw [hvalid.unitOf]
    exact hunits _ hmetric
  obtain ⟨t, ht⟩ := hvalid.timestamp
  have htimestamp := timestampRe_of_parsed ht
  have hmetricNe : r.metric ≠ "" := fun hnil => absurd (hnil ▸ hmetric) (by decide)
  have hworkloadNe : r.workload ≠ "" := fun hnil => absurd (hnil ▸ hworkload) (by decide)
  have hunitNe : r.unit ≠ "" := fun hnil => absurd (hnil ▸ hunit) (by decide)
  have htimestampNe : r.timestamp ≠ "" := by
    intro hnil
    rw [hnil] at htimestamp
    revert htimestamp
    decide
  have hthreads : r.threadCount ≠ 0 := Int.ne_of_gt hvalid.threadCount
  have hduration : r.durationNs ≠ 0 := Int.ne_of_gt hvalid.durationNs
  have hnumber : ∀ v, ("value", v) ∈ members → Schema.number v :=
    hreads.value.given hunique rfl (.inr (hvalueGiven .null)) fun _ => number_of_decode
  refine ⟨⟨⟨hunique, ?_, ?_, nofun⟩, ?_⟩, hunique, nofun, ?_, nofun⟩
  . simp only [List.forall_mem_cons]
    exact ⟨hreads.workload.required hworkloadNe, hreads.threadCount.required hthreads, h.required _ (by decide),
      hreads.metric.required hmetricNe, h.required _ (by decide), hreads.unit.required hunitNe,
      h.required _ (by decide), hreads.timestamp.required htimestampNe, hreads.durationNs.required hduration,
      List.forall_mem_nil _⟩
  . simp only [List.forall_mem_cons]
    exact ⟨hreads.workload.string hunique hworkload (.inl hworkloadNe),
      hreads.threadCount.integer hunique hvalid.threadCount (.inl hthreads),
      hreads.workingSetBytes.integer hunique hvalid.workingSetBytes (.inr (hsizeGiven .null)),
      hreads.metric.string hunique hmetric (.inl hmetricNe), hnumber,
      hreads.unit.string hunique hunit (.inl hunitNe),
      hreads.trial.integer hunique hvalid.trial (.inr (htrialGiven .null)),
      hreads.timestamp.string hunique htimestamp (.inl htimestampNe),
      hreads.durationNs.integer hunique hvalid.durationNs (.inl hduration), hparams, List.forall_mem_nil _⟩
  . intro c hc hcase
    have hof : ∀ c ∈ Schema.cases, mapGet UnitOf c.1 = c.2.1 ∧ mapGet WorkloadOf c.1 = c.2.2 := by decide
    have hname : c.1 = r.metric :=
      hreads.metric.string (p := (· = r.metric)) hunique rfl (.inl hmetricNe) _ hcase
    obtain ⟨hunitOf, hworkloadOf⟩ := hof c hc
    rw [hname] at hunitOf hworkloadOf
    refine List.forall_mem_cons.mpr ⟨fun v hv => ?_, List.forall_mem_singleton.mpr fun v hv => ?_⟩
    . have hstring := hreads.unit.string (p := (· = c.2.1)) hunique (hvalid.unitOf.trans hunitOf) (.inl hunitNe) v hv
      exact Schema.eq_str_of_string hstring
    . have hstring := hreads.workload.string (p := (· = c.2.2)) hunique (hvalid.workloadOf.trans hworkloadOf)
        (.inl hworkloadNe) v hv
      exact Schema.eq_str_of_string hstring
  . have hclosed := h.closed rfl
    simp only [List.forall_mem_cons]
    exact ⟨fun v hv => absurd (hclosed "schema_version" (List.mem_map_of_mem hv)) (by decide),
      fun v hv => absurd (hclosed "run_id" (List.mem_map_of_mem hv)) (by decide),
      fun v hv => absurd (hclosed "machine" (List.mem_map_of_mem hv)) (by decide), List.forall_mem_nil _⟩

theorem unchecked_of_result (h : Schema.run_result (.obj members)) (hspelled : Schema.spelled_result (.obj members))
    : Schema.unchecked_result (.obj members) := by
  obtain ⟨⟨hcore, _⟩, _⟩ := h
  refine ⟨hcore.unique, fun key hkey => hcore.required key ?_, ?_, hspelled.closed⟩
  . exact (by decide : ["working_set_bytes", "value", "trial"] ⊆ _) hkey
  . refine Schema.Weaker.properties ?_ hcore.properties
    repeat first
      | exact .nil
      | refine .cons ⟨rfl, fun _ => id⟩ ?_
      | refine .cons ⟨rfl, fun _ _ => trivial⟩ ?_
      | refine .cons ⟨rfl, fun _ => Schema.given_of_integer⟩ ?_
      | refine .cons ⟨rfl, fun _ => Schema.given_of_number⟩ ?_

theorem result_iff {v : Json} {r : Result} (hdecode : Result.decode v .zero = .ok r) (hvalid : r.Valid)
    : Schema.unchecked_result v ↔ Schema.run_result v ∧ Schema.spelled_result v := by
  cases v with
  | null =>
    injection hdecode with hzero
    subst hzero
    exact absurd hvalid.metric (by decide)
  | obj members =>
    constructor
    . intro h
      have hreads := result_reads h.unique (h.closed rfl) (except_mapError_eq_ok.mp hdecode)
      refine ⟨result_of_unchecked hreads hvalid h, h.unique, nofun, ?_, h.closed⟩
      simp [Schema.any]
    . rintro ⟨h, hspelled⟩
      exact unchecked_of_result h hspelled
  | _ => cases hdecode

/--
What the decoder has made sure of when it accepts an object.
-/
structure Taken (members : List (String × Json)) (env : RunEnvelope) : Prop where
  header : (members.filter (·.1 ≠ "results")).foldlM (decodeMember RunEnvelope.headerFields) .zero = .ok env
  known : ∀ key ∈ members.map Prod.fst, key ≠ "results" → key ∈ RunEnvelope.headerKeys
  results : ∀ v, ("results", v) ∈ members →
    ∃ elems, v = .arr elems ∧ ∀ x ∈ elems, ∃ r, Result.decode x .zero = .ok r ∧ r.Valid
  given : "results" ∈ members.map Prod.fst
  checked : ∃ start finish, env.Checked start finish

theorem taken_of_delivers {body : Body} {maxResults : Int} {env : RunEnvelope} {log : List Delivery}
    (h : Delivers body maxResults env log)
    : ∃ members, body = .object members .closed ∧ Taken members env := by
  obtain ⟨members, s, log', rfl, hmembers, rfl, _, hheader⟩ := delivers_steps h
  obtain ⟨start, finish, hchecked, _, hcount⟩ := RunEnvelope.validateHeader_eq_ok.mp hheader
  have hknown := streamMembers_known hmembers
  refine ⟨members, rfl, streamMembers_env hmembers, hknown, streamMembers_valid hmembers, ?_, start, finish, hchecked⟩
  by_contra hresults
  refine hcount (streamMembers_count hmembers fun m hm => ?_)
  exact hknown m.1 (List.mem_map_of_mem hm) fun hname => hresults (hname ▸ List.mem_map_of_mem hm)

theorem reads_of_filter {α : Type} {name : String} {decode : Json → α → Except GoError α} {old new : α}
    (hname : name ≠ "results") (h : Json.Reads (members.filter (·.1 ≠ "results")) name decode old new)
    : Json.Reads members name decode old new := by
  cases h with
  | absent hnot heq =>
    refine .absent (fun hmem => hnot ?_) heq
    obtain ⟨m, hm, rfl⟩ := List.mem_map.mp hmem
    exact List.mem_map_of_mem (List.mem_filter.mpr ⟨hm, decide_eq_true hname⟩)
  | present v hv hdecode => exact .present v (List.mem_filter.mp hv).1 hdecode

theorem Taken.reads {env : RunEnvelope} (h : Taken members env) (hunique : (members.map Prod.fst).Nodup)
    : env.Reads members := by
  have hreads : env.Reads (members.filter (·.1 ≠ "results")) := by
    refine envelope_reads (hunique.sublist (List.filter_sublist.map _)) (fun key hkey => ?_) h.header
    obtain ⟨m, hm, rfl⟩ := List.mem_map.mp hkey
    obtain ⟨hm, hname⟩ := List.mem_filter.mp hm
    exact h.known m.1 (List.mem_map_of_mem hm) (of_decide_eq_true hname)
  exact ⟨reads_of_filter (by decide) hreads.schemaVersion, reads_of_filter (by decide) hreads.runID,
    reads_of_filter (by decide) hreads.startedAt, reads_of_filter (by decide) hreads.finishedAt,
    reads_of_filter (by decide) hreads.machine, reads_of_filter (by decide) hreads.argv⟩

theorem argv_of_given {v : Json} {argv : Option (List String)} (hdecode : decodeArgv v none = .ok argv)
    (h : Schema.array Schema.given v)
    : Schema.array Schema.anyString v := by
  cases v with
  | arr elems =>
    obtain ⟨args, helems, _⟩ := except_map_eq_ok.mp hdecode
    rw [Option.getD_none, decodeElems_nil] at helems
    intro x hx
    obtain ⟨arg, harg⟩ := exists_of_mapM helems hx
    have hgiven := h x hx
    cases x with
    | null => exact hgiven.elim
    | str s => trivial
    | _ => cases harg
  | _ => exact h.elim

theorem run_of_unchecked {env : RunEnvelope} (htaken : Taken members env) (h : Schema.unchecked_run (.obj members))
    : Schema.run (.obj members) := by
  have hunique := h.unique
  have hreads := htaken.reads hunique
  obtain ⟨start, finish, hchecked⟩ := htaken.checked
  have hgiven := h.properties
  simp only [List.forall_mem_cons] at hgiven
  obtain ⟨_, _, _, _, hmachine, hargv, hresults, hsummary, _⟩ := hgiven
  have hstarted := timestampRe_of_parsed hchecked.started
  have hfinished := timestampRe_of_parsed hchecked.finished
  have hempty : ¬timestampRe "" := by decide
  have hversionNe : env.schemaVersion ≠ 0 := fun hzero => absurd (hzero.symm.trans hchecked.schemaVersion) (by decide)
  have hrunNe := hchecked.headerDone.1
  have hstartedNe : env.startedAt ≠ "" := fun hnil => hempty (hnil ▸ hstarted)
  have hfinishedNe : env.finishedAt ≠ "" := fun hnil => hempty (hnil ▸ hfinished)
  have hmachineNe : env.machine ≠ .zero := fun hzero => hchecked.headerDone.2 (congrArg Machine.id hzero)
  refine ⟨hunique, ?_, ?_, h.closed⟩
  . unfold Schema.runRequired
    simp only [List.forall_mem_cons]
    exact ⟨hreads.schemaVersion.required hversionNe, hreads.runID.required hrunNe,
      hreads.startedAt.required hstartedNe, hreads.finishedAt.required hfinishedNe, hreads.machine.required hmachineNe,
      h.required _ (by decide), htaken.given, List.forall_mem_nil _⟩
  . simp only [List.forall_mem_cons]
    refine ⟨hreads.schemaVersion.integer hunique hchecked.schemaVersion (.inl hversionNe),
      hreads.runID.string hunique hchecked.runID (.inl hrunNe),
      hreads.startedAt.string hunique hstarted (.inl hstartedNe),
      hreads.finishedAt.string hunique hfinished (.inl hfinishedNe),
      hreads.machine.property hunique fun v hv hdecode => (machine_iff hdecode hchecked.machine).mpr (hmachine v hv),
      hreads.argv.property hunique fun v hv hdecode => argv_of_given hdecode (hargv v hv), ?_, hsummary,
      List.forall_mem_nil _⟩
    intro v hv
    obtain ⟨elems, rfl, hvalid⟩ := htaken.results v hv
    intro x hx
    obtain ⟨r, hdecode, hr⟩ := hvalid x hx
    exact ((result_iff hdecode hr).mp (hresults _ hv x hx)).1

theorem spelled_of_unchecked {env : RunEnvelope} (htaken : Taken members env) (h : Schema.unchecked_run (.obj members))
    : Schema.spelled_run (.obj members) := by
  refine ⟨h.unique, nofun, List.forall_mem_singleton.mpr fun v hv => ?_, nofun⟩
  obtain ⟨elems, rfl, hvalid⟩ := htaken.results v hv
  intro x hx
  obtain ⟨r, hdecode, hr⟩ := hvalid x hx
  have hresults : Schema.array Schema.unchecked_result (.arr elems) :=
    h.properties ("results", Schema.array Schema.unchecked_result) (by simp) _ hv
  exact ((result_iff hdecode hr).mp (hresults x hx)).2

theorem unchecked_of_run {env : RunEnvelope} (htaken : Taken members env) (h : Schema.run (.obj members))
    (hspelled : Schema.spelled_run (.obj members))
    : Schema.unchecked_run (.obj members) := by
  have hunique := h.unique
  have hreads := htaken.reads hunique
  obtain ⟨start, finish, hchecked⟩ := htaken.checked
  have hprops := h.properties
  simp only [List.forall_mem_cons] at hprops
  obtain ⟨_, _, _, _, hmachine, hargv, hresults, hsummary, _⟩ := hprops
  have hnames := List.forall_mem_singleton.mp hspelled.properties
  refine ⟨hunique, List.forall_mem_singleton.mpr (h.required _ (by decide)), ?_, h.closed⟩
  simp only [List.forall_mem_cons]
  refine ⟨fun _ _ => trivial, fun _ _ => trivial, fun _ _ => trivial, fun _ _ => trivial,
    hreads.machine.property hunique fun v hv hdecode => (machine_iff hdecode hchecked.machine).mp (hmachine v hv), ?_,
    ?_, hsummary, List.forall_mem_nil _⟩
  . intro v hv
    have hstrings := hargv v hv
    cases v with
    | arr elems => exact fun x hx => Schema.given_of_string (hstrings x hx)
    | _ => exact hstrings.elim
  . intro v hv
    obtain ⟨elems, rfl, hvalid⟩ := htaken.results v hv
    intro x hx
    obtain ⟨r, hdecode, hr⟩ := hvalid x hx
    exact (result_iff hdecode hr).mpr ⟨hresults _ hv x hx, hnames _ hv x hx⟩

end

/--
Of the documents that the decoder accepts, those have right what the checks leave to the schema that obey the schema and
spell the names of their results as it does.
-/
theorem unchecked_iff_conforms {σ : Type} (fn : ResultFunc σ) (maxResults : Int) (doc : Document) (s s' : σ)
    (env : RunEnvelope) (haccepted : StreamRunEnvelope doc.body maxResults fn s = .ok env s')
    : doc.Satisfies Schema.unchecked_run ↔ doc.Satisfies Schema.run ∧ doc.Satisfies Schema.spelled_run := by
  have hstream : StreamRunEnvelope doc.body maxResults (ofCallback fun d => fn d.env d.index d.result) s = .ok env s' :=
    haccepted
  obtain ⟨log, hdelivers, _⟩ := stream_eq_ok.mp hstream
  obtain ⟨members, hbody, htaken⟩ := taken_of_delivers hdelivers
  unfold Document.Satisfies
  rw [hbody]
  constructor
  . rintro ⟨halone, members', hsame, h⟩
    cases hsame
    exact ⟨⟨halone, members, rfl, run_of_unchecked htaken h⟩, halone, members, rfl, spelled_of_unchecked htaken h⟩
  . rintro ⟨⟨halone, members', hsame, h⟩, _, members'', hsame', hspelled⟩
    cases hsame
    cases hsame'
    exact ⟨halone, members, rfl, unchecked_of_run htaken h hspelled⟩

/--
Whether the decoder refuses a body whatever becomes of its results.
-/
def refused (maxResults : Int) (body : Body) : Bool :=
  (returned (StreamRunEnvelope body maxResults (ofCallback record) [])).isNone

theorem delivers_of_not_refused {maxResults : Int} {body : Body} (h : refused maxResults body = false)
    : ∃ env log, Delivers body maxResults env log := by
  cases hstream : StreamRunEnvelope body maxResults (ofCallback record) [] with
  | ok env log => exact ⟨env, log, hstream⟩
  | error err log =>
    unfold refused at h
    rw [hstream] at h
    cases h

def postedMachine : List (String × Json) :=
  [("id", .str "ffffffffffffffffffffffffffffffff"), ("hostname", .str "h"), ("cpu_model", .str "c"),
    ("physical_cores", .num "1"), ("logical_cpus", .num "1"), ("l1d_kb", .num "0"), ("l2_kb", .num "0"),
    ("l3_kb", .num "0"), ("memory_bytes", .num "0"), ("os", .str "o"), ("kernel", .str "k"), ("compiler", .str "gcc"),
    ("compiler_flags", .str ""), ("engine_version", .str "1"), ("engine_git_sha", .str "0")]

def postedMembers (startedAt : String) (results : Json) : List (String × Json) :=
  [("schema_version", .num "1"), ("run_id", .str "11111111-2222-4333-8444-555555555555"),
    ("started_at", .str startedAt), ("finished_at", .str "2026-09-21T10:00:01Z"), ("machine", .obj postedMachine),
    ("argv", .arr []), ("results", results)]

def posted (startedAt : String) (results : Json) : Document where
  body := .object (postedMembers startedAt results) .closed
  trailing := false

/--
A document that obeys the schema. It is accepted also with more after it, without `argv`, and with a result that has no
`trial`.
-/
def complete : Document :=
  posted "2026-09-21T10:00:00Z" (.arr [trialOf "0"])

def withMore : Document :=
  { complete with trailing := true }

def withoutArgv : Document where
  body := .object ((postedMembers "2026-09-21T10:00:00Z" (.arr [trialOf "0"])).filter (·.1 ≠ "argv")) .closed
  trailing := false

def untried : List (String × Json) :=
  [("workload", .str "cpu_int"), ("thread_count", .num "1"), ("working_set_bytes", .num "0"),
    ("metric", .str "cpu_int_ops"), ("value", .num "1"), ("unit", .str "ops/s"),
    ("timestamp", .str "2026-09-21T10:00:00Z"), ("duration_ns", .num "1")]

def withoutTrial : Document :=
  posted "2026-09-21T10:00:00Z" (.arr [.obj untried])

theorem accepted_not_conforms
    : [withMore, withoutArgv, withoutTrial].Forall fun doc =>
      (∃ env log, Delivers doc.body 10 env log) ∧ ¬doc.Satisfies Schema.run := by
  refine ⟨⟨delivers_of_not_refused (by decide +kernel), ?_⟩, ⟨delivers_of_not_refused (by decide +kernel), ?_⟩,
    ⟨delivers_of_not_refused (by decide +kernel), ?_⟩⟩
  . rintro ⟨halone, _⟩
    cases halone
  . rintro ⟨_, members, hbody, h⟩
    cases hbody
    exact absurd (h.required "argv" (by decide)) (by decide)
  . rintro ⟨_, members, hbody, h⟩
    cases hbody
    have hresults : Schema.array Schema.run_result (.arr [.obj untried]) :=
      h.properties ("results", Schema.array Schema.run_result) (by simp) (.arr [.obj untried]) (by simp [postedMembers])
    exact absurd ((hresults _ List.mem_cons_self).1.1.required "trial" (by decide)) (by decide)

theorem unchecked_iff_conforms_complete : complete.Satisfies Schema.run := by
  have haccepted : ∃ env log, Delivers complete.body 10 env log := delivers_of_not_refused (by decide +kernel)
  obtain ⟨env, log, hdelivers⟩ := haccepted
  refine ((unchecked_iff_conforms (ofCallback record) 10 complete [] log env hdelivers).mp ⟨rfl, _, rfl, ?_⟩).1
  refine ⟨by decide, by decide, ?_, fun _ => by decide⟩
  simp only [List.forall_mem_cons]
  refine ⟨fun _ _ => trivial, fun _ _ => trivial, fun _ _ => trivial, fun _ _ => trivial, fun v hv => ?_,
    fun v hv => ?_, fun v hv => ?_, fun v hv => ?_, List.forall_mem_nil _⟩
  . obtain rfl : v = .obj postedMachine := by simpa [postedMembers] using hv
    refine ⟨by decide, by decide, ?_, fun _ => by decide⟩
    simp [Schema.any, Schema.given, postedMachine]
  . obtain rfl : v = .arr [] := by simpa [postedMembers] using hv
    exact fun _ hx => absurd hx List.not_mem_nil
  . obtain rfl : v = .arr [trialOf "0"] := by simpa [postedMembers] using hv
    refine List.forall_mem_singleton.mpr ⟨by decide, by decide, ?_, fun _ => by decide⟩
    simp [Schema.any, Schema.given]
  . exact absurd hv (by simp [postedMembers])

end Model
end Api
