import BenchPlatform.Api.Model.Deliveries

/-!
This module compares what the two decoders make of an envelope whose fields come in any order. Each
field writes its own part of the envelope, so what stands before the results is what the streaming
decoder knows when it reads them.
-/

namespace Api

namespace Json

variable {σ α β : Type} {fields : List (Field σ)} {key : String} {get : σ → α} {put : σ → α → σ}
  {decode : Json → α → Except GoError α} {v : Json} {s s' : σ}

/--
What is read with `get` is written by the field `key` only.
-/
def OwnedBy (fields : List (Field σ)) (get : σ → α) (key : String) : Prop :=
  ∀ f ∈ fields, f.name ≠ key → ∀ v s s', f.decode v s = .ok s' → get s' = get s

theorem field_frame {get' : σ → β} (hput : ∀ s x, get' (put s x) = get' s)
    (h : (field key get put decode).decode v s = .ok s')
    : get' s' = get' s := by
  change put s <$> decode v (get s) = .ok s' at h
  cases hdecode : decode v (get s) with
  | error err => simp [hdecode] at h
  | ok x =>
    rw [hdecode] at h
    injection h with h
    subst h
    exact hput s x

namespace OwnedBy

theorem nil {get : σ → α} : OwnedBy [] get key :=
  fun _ hf => absurd hf List.not_mem_nil

theorem own {get' : σ → β} (h : OwnedBy fields get' key)
    : OwnedBy (field key get put decode :: fields) get' key := by
  intro f hf hname
  obtain rfl | hf := List.mem_cons.mp hf
  . exact absurd rfl hname
  . exact h f hf hname

theorem other {name : String} {get' : σ → β} (hput : ∀ s x, get' (put s x) = get' s)
    (h : OwnedBy fields get' key)
    : OwnedBy (field name get put decode :: fields) get' key := by
  intro f hf hname
  obtain rfl | hf := List.mem_cons.mp hf
  . exact fun _ _ _ => field_frame hput
  . exact h f hf hname

end OwnedBy

/--
No field reads or writes what `g` changes.
-/
def Commutes (fields : List (Field σ)) (g : σ → σ) : Prop :=
  ∀ f ∈ fields, ∀ v s, f.decode v (g s) = g <$> f.decode v s

namespace Commutes

variable {g : σ → σ}

theorem nil : Commutes [] g :=
  fun _ hf => absurd hf List.not_mem_nil

theorem cons (hget : ∀ s, get (g s) = get s) (hput : ∀ s x, put (g s) x = g (put s x))
    (h : Commutes fields g)
    : Commutes (field key get put decode :: fields) g := by
  intro f hf v s
  obtain rfl | hf := List.mem_cons.mp hf
  . change put (g s) <$> decode v (get (g s)) = g <$> put s <$> decode v (get s)
    rw [hget]
    cases decode v (get s) with
    | error err => rfl
    | ok x => exact congrArg Except.ok (hput s x)
  . exact h f hf v s

end Commutes

theorem lookup_append {fields' : List (Field σ)} {f : Field σ}
    (h : fields.find? (·.name = key) = some f)
    : lookup (fields ++ fields') key = some f := by
  unfold lookup
  rw [List.find?_append, h]
  rfl

theorem exists_find (h : key ∈ fields.map (·.name))
    : ∃ f ∈ fields, f.name = key ∧ fields.find? (·.name = key) = some f := by
  obtain ⟨f, hf, hname⟩ := List.mem_map.mp h
  have hsome : (fields.find? (·.name = key)).isSome :=
    List.find?_isSome.mpr ⟨f, hf, decide_eq_true hname⟩
  obtain ⟨f', hf'⟩ := Option.isSome_iff_exists.mp hsome
  have hname' : f'.name = key := by simpa using List.find?_some hf'
  exact ⟨f', List.mem_of_find?_eq_some hf', hname', hf'⟩

theorem decodeElems_nil {zero : α} {vs : List Json}
    : decodeElems decode zero vs [] = vs.mapM (decode · zero) := by
  induction vs with
  | nil => rfl
  | cons v vs ih =>
    rw [decodeElems, List.mapM_cons, List.tail_nil, ih]
    rfl

end Json

namespace Model

open Program Json

namespace RunEnvelope

def headerKeys : List String :=
  headerFields.map (·.name)

def decodeHeader (members : List (String × Json)) (env : RunEnvelope) : Except GoError RunEnvelope :=
  members.foldlM (decodeMember fields) env

variable {members : List (String × Json)} {env env' : RunEnvelope}

theorem lookup_fields {key : String} {f : Json.Field RunEnvelope}
    (hfind : headerFields.find? (·.name = key) = some f)
    : lookup fields key = some f :=
  lookup_append hfind

theorem decodeHeader_cons_eq_ok {member : String × Json} (hkey : member.1 ∈ headerKeys)
    : decodeHeader (member :: members) env = .ok env' ↔ ∃ f ∈ headerFields, ∃ env₁,
        f.name = member.1 ∧ headerFields.find? (·.name = member.1) = some f
        ∧ f.decode member.2 env = .ok env₁ ∧ decodeHeader members env₁ = .ok env' := by
  obtain ⟨f, hf, hname, hfind⟩ := exists_find hkey
  unfold decodeHeader
  rw [List.foldlM_cons, except_bind_eq_ok]
  simp only [decodeMember_eq (lookup_fields hfind), except_mapError_eq_ok]
  constructor
  . rintro ⟨env₁, hdecode, hrest⟩
    exact ⟨f, hf, env₁, hname, hfind, hdecode, hrest⟩
  . rintro ⟨f', _, env₁, _, hfind', hdecode, hrest⟩
    rw [hfind] at hfind'
    cases hfind'
    exact ⟨env₁, hdecode, hrest⟩

theorem decodeHeader_frame {α : Type} {get : RunEnvelope → α} {key : String}
    (howned : OwnedBy headerFields get key) (hknown : ∀ m ∈ members, m.1 ∈ headerKeys)
    (hkey : key ∉ members.map Prod.fst) (h : decodeHeader members env = .ok env')
    : get env' = get env := by
  induction members generalizing env with
  | nil =>
    injection h with h
    rw [h]
  | cons member members ih =>
    rw [List.forall_mem_cons] at hknown
    rw [List.map_cons, List.mem_cons, not_or] at hkey
    obtain ⟨f, hf, env₁, hname, _, hdecode, hrest⟩ := (decodeHeader_cons_eq_ok hknown.1).mp h
    have hstep : get env₁ = get env := by
      apply howned f hf _ _ _ _ hdecode
      rw [hname]
      exact Ne.symm hkey.1
    rw [ih hknown.2 hkey.2 hrest, hstep]

theorem ownedBy_runID : OwnedBy headerFields runID "run_id" :=
  .other (fun _ _ => rfl) <| .own <| .other (fun _ _ => rfl) <| .other (fun _ _ => rfl) <|
    .other (fun _ _ => rfl) <| .other (fun _ _ => rfl) <| .other (fun _ _ => rfl) .nil

theorem ownedBy_startedAt : OwnedBy headerFields startedAt "started_at" :=
  .other (fun _ _ => rfl) <| .other (fun _ _ => rfl) <| .own <| .other (fun _ _ => rfl) <|
    .other (fun _ _ => rfl) <| .other (fun _ _ => rfl) <| .other (fun _ _ => rfl) .nil

theorem ownedBy_finishedAt : OwnedBy headerFields finishedAt "finished_at" :=
  .other (fun _ _ => rfl) <| .other (fun _ _ => rfl) <| .other (fun _ _ => rfl) <| .own <|
    .other (fun _ _ => rfl) <| .other (fun _ _ => rfl) <| .other (fun _ _ => rfl) .nil

theorem ownedBy_machine : OwnedBy headerFields machine "machine" :=
  .other (fun _ _ => rfl) <| .other (fun _ _ => rfl) <| .other (fun _ _ => rfl) <|
    .other (fun _ _ => rfl) <| .own <| .other (fun _ _ => rfl) <| .other (fun _ _ => rfl) .nil

theorem ownedBy_argv : OwnedBy headerFields argv "argv" :=
  .other (fun _ _ => rfl) <| .other (fun _ _ => rfl) <| .other (fun _ _ => rfl) <|
    .other (fun _ _ => rfl) <| .other (fun _ _ => rfl) <| .own <| .other (fun _ _ => rfl) .nil

theorem ownedBy_results : OwnedBy headerFields results "results" :=
  .other (fun _ _ => rfl) <| .other (fun _ _ => rfl) <| .other (fun _ _ => rfl) <|
    .other (fun _ _ => rfl) <| .other (fun _ _ => rfl) <| .other (fun _ _ => rfl) <|
    .other (fun _ _ => rfl) .nil

theorem results_not_mem_headerKeys : "results" ∉ headerKeys := by
  decide

def withResults (rs : List Result) (env : RunEnvelope) : RunEnvelope :=
  { env with results := some rs }

theorem commutes_withResults {rs : List Result} : Commutes headerFields (withResults rs) :=
  .cons (fun _ => rfl) (fun _ _ => rfl) <| .cons (fun _ => rfl) (fun _ _ => rfl) <|
    .cons (fun _ => rfl) (fun _ _ => rfl) <| .cons (fun _ => rfl) (fun _ _ => rfl) <|
    .cons (fun _ => rfl) (fun _ _ => rfl) <| .cons (fun _ => rfl) (fun _ _ => rfl) <|
    .cons (fun _ => rfl) (fun _ _ => rfl) .nil

theorem decodeHeader_withResults {rs : List Result} (hknown : ∀ m ∈ members, m.1 ∈ headerKeys)
    : decodeHeader members (env.withResults rs) = withResults rs <$> decodeHeader members env := by
  induction members generalizing env with
  | nil => rfl
  | cons member members ih =>
    rw [List.forall_mem_cons] at hknown
    obtain ⟨f, hf, _, hfind⟩ := exists_find hknown.1
    unfold decodeHeader
    rw [List.foldlM_cons, List.foldlM_cons, decodeMember_eq (lookup_fields hfind),
      decodeMember_eq (lookup_fields hfind), commutes_withResults f hf]
    cases f.decode member.2 env with
    | error err => rfl
    | ok env₁ => exact ih hknown.2

end RunEnvelope

/--
An envelope whose keys are spelled correctly and not repeated, with an array of results somewhere
between the fields of the header.
-/
structure Layout where
  before : List (String × Json)
  elems : List Json
  after : List (String × Json)
  known : ∀ m ∈ before ++ after, m.1 ∈ RunEnvelope.headerKeys
  unrepeated : ((before ++ after).map Prod.fst).Nodup

namespace Layout

def members (o : Layout) : List (String × Json) :=
  o.before ++ ("results", .arr o.elems) :: o.after

def keysBefore (o : Layout) : List String :=
  o.before.map Prod.fst

/--
What the parts of an envelope decode to: `first` is the header as it is before the results.
-/
structure Decodes (o : Layout) (first env : RunEnvelope) (rs : List Result) : Prop where
  before : RunEnvelope.decodeHeader o.before .zero = .ok first
  results : o.elems.mapM (Result.decode · .zero) = .ok rs
  after : RunEnvelope.decodeHeader o.after first = .ok env

variable {o : Layout} {first env : RunEnvelope} {rs : List Result}

theorem known_before (o : Layout) : ∀ m ∈ o.before, m.1 ∈ RunEnvelope.headerKeys :=
  fun m hm => o.known m (List.mem_append_left _ hm)

theorem known_after (o : Layout) : ∀ m ∈ o.after, m.1 ∈ RunEnvelope.headerKeys :=
  fun m hm => o.known m (List.mem_append_right _ hm)

theorem Decodes.seen {α : Type} {get : RunEnvelope → α} {key : String} (h : o.Decodes first env rs)
    (howned : OwnedBy RunEnvelope.headerFields get key) (hkey : key ∈ o.keysBefore)
    : get first = get env := by
  have hafter : key ∉ o.after.map Prod.fst := by
    have hnodup := o.unrepeated
    rw [List.map_append, List.nodup_append] at hnodup
    intro hmem
    exact hnodup.2.2 key hkey key hmem rfl
  exact (RunEnvelope.decodeHeader_frame howned o.known_after hafter h.after).symm

theorem Decodes.unseen {α : Type} {get : RunEnvelope → α} {key : String}
    (h : o.Decodes first env rs) (howned : OwnedBy RunEnvelope.headerFields get key)
    (hkey : key ∉ o.keysBefore)
    : get first = get .zero :=
  RunEnvelope.decodeHeader_frame howned o.known_before hkey h.before

theorem Decodes.unique {first' env' : RunEnvelope} {rs' : List Result}
    (h : o.Decodes first env rs) (h' : o.Decodes first' env' rs')
    : first = first' ∧ env = env' ∧ rs = rs' := by
  have hbefore := h.before.symm.trans h'.before
  cases hbefore
  have hafter := h.after.symm.trans h'.after
  cases hafter
  have hresults := h.results.symm.trans h'.results
  cases hresults
  exact ⟨rfl, rfl, rfl⟩

theorem Decodes.length (h : o.Decodes first env rs) : rs.length = o.elems.length :=
  (mapM_eq_ok.mp h.results).length_eq.symm

theorem decode_eq_ok {env' : RunEnvelope}
    : RunEnvelope.decode (.obj o.members) = .ok env'
      ↔ ∃ first env rs, o.Decodes first env rs ∧ env' = env.withResults rs := by
  have hkey : "results" ∉ o.before.map Prod.fst := by
    intro hmem
    obtain ⟨m, hm, hname⟩ := List.mem_map.mp hmem
    exact RunEnvelope.results_not_mem_headerKeys (hname ▸ o.known_before m hm)
  have hresults : ∀ e e' : RunEnvelope, e.results = none →
      (decodeMember RunEnvelope.fields e ("results", .arr o.elems) = .ok e'
        ↔ (e.withResults ·) <$> o.elems.mapM (Result.decode · .zero) = .ok e') := by
    intro e e' he
    refine except_mapError_eq_ok.trans ?_
    change (fun x => { e with results := x }) <$> some <$> decodeElems _ _ _ (e.results.getD [])
      = _ ↔ _
    rw [he, Option.getD_none, decodeElems_nil]
    cases o.elems.mapM (Result.decode · .zero) <;> rfl
  refine except_mapError_eq_ok.trans ?_
  rw [members, List.foldlM_append, except_bind_eq_ok]
  simp only [List.foldlM_cons, except_bind_eq_ok]
  constructor
  . rintro ⟨first, hbefore, e, hmember, hafter⟩
    have hnone : first.results = none :=
      RunEnvelope.decodeHeader_frame RunEnvelope.ownedBy_results o.known_before hkey hbefore
    rw [hresults first e hnone] at hmember
    obtain ⟨rs, hrs, rfl⟩ := except_map_eq_ok.mp hmember
    change RunEnvelope.decodeHeader o.after (first.withResults rs) = _ at hafter
    rw [RunEnvelope.decodeHeader_withResults o.known_after] at hafter
    obtain ⟨env, henv, rfl⟩ := except_map_eq_ok.mp hafter
    exact ⟨first, env, rs, ⟨hbefore, hrs, henv⟩, rfl⟩
  . rintro ⟨first, env, rs, hdecodes, rfl⟩
    have hnone : first.results = none :=
      RunEnvelope.decodeHeader_frame RunEnvelope.ownedBy_results o.known_before hkey
        hdecodes.before
    refine ⟨first, hdecodes.before, first.withResults rs, ?_, ?_⟩
    . rw [hresults first _ hnone]
      exact except_map_eq_ok.mpr ⟨rs, hdecodes.results, rfl⟩
    . change RunEnvelope.decodeHeader o.after (first.withResults rs) = _
      rw [RunEnvelope.decodeHeader_withResults o.known_after]
      exact except_map_eq_ok.mpr ⟨env, hdecodes.after, rfl⟩

end Layout

section

variable {env : RunEnvelope} {maxResults : Int} {rs : List Result} {log log' : List Delivery}

/--
The calls for some results, from the index `i` on.
-/
def deliveries (env : RunEnvelope) (rs : List Result) (i : Nat) : List Delivery :=
  (rs.zipIdx i).map fun (r, i) => { env := env, index := i, result := r }

theorem deliveries_cons {r : Result} {i : Nat}
    : deliveries env (r :: rs) i
      = { env := env, index := i, result := r } :: deliveries env rs (i + 1) := rfl

theorem map_result_deliveries {i : Nat} : (deliveries env rs i).map (·.result) = rs := by
  induction rs generalizing i with
  | nil => rfl
  | cons r rs ih => rw [deliveries_cons, List.map_cons, ih]

theorem env_of_deliveries {d : Delivery} {i : Nat} (h : d ∈ deliveries env rs i) : d.env = env := by
  obtain ⟨_, _, rfl⟩ := List.mem_map.mp h
  rfl

theorem replay_record {i : Nat}
    : replay env (ofCallback record) rs i log = .ok () (log ++ deliveries env rs i) := by
  induction rs generalizing i log with
  | nil => exact congrArg _ (List.append_nil log).symm
  | cons r rs ih =>
    have hcall : ofCallback record env i r log
        = .ok () (log ++ [{ env := env, index := i, result := r }]) := rfl
    rw [replay, bind_of_ok hcall, ih, deliveries_cons, List.append_assoc, List.singleton_append]

theorem readResult_eq_ok {v : Json} {i : Nat} {r : Result}
    : readResult v i log = .ok r log' ↔ (Result.decode v .zero = .ok r ∧ r.Valid) ∧ log' = log := by
  unfold readResult
  simp only [bind_eq_ok, wrapError_eq_ok, liftResult_eq_ok]
  constructor
  . rintro ⟨r', _, ⟨hdecode, rfl⟩, h⟩
    split at h
    . rename_i hvalid
      injection h with hr hlog
      subst hr hlog
      exact ⟨⟨hdecode, (Result.validate_eq_nil.mp hvalid).2⟩, rfl⟩
    . cases h
  . rintro ⟨⟨hdecode, hvalid⟩, rfl⟩
    refine ⟨r, _, ⟨hdecode, rfl⟩, ?_⟩
    rw [if_pos (Result.validate_eq_nil.mpr ⟨rfl, hvalid⟩)]
    rfl

/--
What becomes of the results of a whole array: they are handed over or buffered, all of them.
-/
def Handled (env : RunEnvelope) (rs : List Result) (i : Nat) (buffered buffered' : List Result)
    (log log' : List Delivery) : Prop :=
  if headerDone env then
    buffered' = buffered ∧ log' = log ++ deliveries env rs i
  else
    buffered' = buffered ++ rs ∧ log' = log

theorem handled_nil {i : Nat} {buffered buffered' : List Result}
    : Handled env [] i buffered buffered' log log' ↔ buffered' = buffered ∧ log' = log := by
  simp [Handled, deliveries]

theorem streamElems_cons {v : Json} {vs : List Json} {i : Nat} {buffered : List Result}
    {found : Nat × List Result} (hmax : 0 < maxResults → (i : Int) < maxResults)
    : streamElems env maxResults (ofCallback record) (v :: vs) i buffered log = .ok found log'
      ↔ ∃ r buffered₁ log₁, (Result.decode v .zero = .ok r ∧ r.Valid)
        ∧ Handled env [r] i buffered buffered₁ log log₁
        ∧ streamElems env maxResults (ofCallback record) vs (i + 1) buffered₁ log₁
          = .ok found log' := by
  have hcheck : checkMax maxResults i log = .ok () log := by
    rw [checkMax, if_neg (by omega)]
    rfl
  rw [streamElems, bind_of_ok hcheck, bind_eq_ok]
  simp only [readResult_eq_ok]
  unfold Handled
  by_cases hdone : headerDone env
  . have hcall : ∀ r, ofCallback record env i r log = .ok () (log ++ deliveries env [r] i) :=
      fun _ => rfl
    simp only [hdone, if_true]
    constructor
    . rintro ⟨r, _, ⟨hr, rfl⟩, h⟩
      rw [bind_of_ok (hcall r)] at h
      exact ⟨r, _, _, hr, ⟨rfl, rfl⟩, h⟩
    . rintro ⟨r, _, _, hr, ⟨rfl, rfl⟩, h⟩
      refine ⟨r, _, ⟨hr, rfl⟩, ?_⟩
      rwa [bind_of_ok (hcall r)]
  . simp only [hdone, if_false]
    constructor
    . rintro ⟨r, _, ⟨hr, rfl⟩, h⟩
      exact ⟨r, _, _, hr, ⟨rfl, rfl⟩, h⟩
    . rintro ⟨r, _, _, hr, ⟨rfl, rfl⟩, h⟩
      exact ⟨r, _, ⟨hr, rfl⟩, h⟩

theorem handled_cons {r : Result} {i : Nat} {buffered buffered' : List Result}
    : Handled env (r :: rs) i buffered buffered' log log' ↔ ∃ buffered₁ log₁,
        Handled env [r] i buffered buffered₁ log log₁
        ∧ Handled env rs (i + 1) buffered₁ buffered' log₁ log' := by
  have hlog : log ++ deliveries env (r :: rs) i
      = log ++ deliveries env [r] i ++ deliveries env rs (i + 1) := by
    rw [deliveries_cons, List.append_assoc]
    rfl
  have hbuffered : buffered ++ r :: rs = buffered ++ [r] ++ rs := by
    rw [List.append_assoc, List.singleton_append]
  unfold Handled
  split
  . rw [hlog]
    constructor
    . rintro ⟨rfl, rfl⟩
      exact ⟨_, _, ⟨rfl, rfl⟩, rfl, rfl⟩
    . rintro ⟨_, _, ⟨rfl, rfl⟩, rfl, rfl⟩
      exact ⟨rfl, rfl⟩
  . rw [hbuffered]
    constructor
    . rintro ⟨rfl, rfl⟩
      exact ⟨_, _, ⟨rfl, rfl⟩, rfl, rfl⟩
    . rintro ⟨_, _, ⟨rfl, rfl⟩, rfl, rfl⟩
      exact ⟨rfl, rfl⟩

theorem streamElems_eq_ok {elems : List Json} {i : Nat} {buffered : List Result}
    {found : Nat × List Result} (hmax : 0 < maxResults → (i + elems.length : Int) ≤ maxResults)
    : streamElems env maxResults (ofCallback record) elems i buffered log = .ok found log'
      ↔ ∃ rs, elems.mapM (Result.decode · .zero) = .ok rs ∧ (∀ r ∈ rs, r.Valid)
        ∧ found.1 = i + rs.length ∧ Handled env rs i buffered found.2 log log' := by
  induction elems generalizing i buffered log with
  | nil =>
    rw [streamElems]
    constructor
    . intro h
      injection h with hfound hlog
      subst hfound hlog
      exact ⟨[], rfl, by simp, rfl, handled_nil.mpr ⟨rfl, rfl⟩⟩
    . rintro ⟨rs, hrs, _, hcount, hhandled⟩
      injection hrs with hrs
      subst hrs
      obtain ⟨hbuffered, rfl⟩ := handled_nil.mp hhandled
      obtain ⟨count, buffered'⟩ := found
      cases hcount
      cases hbuffered
      rfl
  | cons v vs ih =>
    rw [List.length_cons] at hmax
    rw [streamElems_cons (by omega)]
    simp only [List.mapM_cons, except_bind_eq_ok]
    constructor
    . rintro ⟨r, buffered₁, log₁, ⟨hdecode, hvalid⟩, hfirst, h⟩
      obtain ⟨rs, hrs, hall, hcount, hrest⟩ := (ih (by omega)).mp h
      refine ⟨r :: rs, ⟨r, hdecode, rs, hrs, rfl⟩, List.forall_mem_cons.mpr ⟨hvalid, hall⟩, ?_,
        handled_cons.mpr ⟨_, _, hfirst, hrest⟩⟩
      rw [hcount, List.length_cons]
      omega
    . rintro ⟨_, ⟨r, hdecode, rs, hrs, hpure⟩, hall, hcount, hhandled⟩
      injection hpure with hpure
      subst hpure
      rw [List.forall_mem_cons] at hall
      rw [List.length_cons] at hcount
      obtain ⟨buffered₁, log₁, hfirst, hrest⟩ := handled_cons.mp hhandled
      refine ⟨r, buffered₁, log₁, ⟨hdecode, hall.1⟩, hfirst, (ih (by omega)).mpr ?_⟩
      exact ⟨rs, hrs, hall.2, by omega, hrest⟩

theorem streamMembers_append {members members' : List (String × Json)} {s s' : Scan}
    : streamMembers maxResults (ofCallback record) (members ++ members') s log = .ok s' log'
      ↔ ∃ s₁ log₁, streamMembers maxResults (ofCallback record) members s log = .ok s₁ log₁
        ∧ streamMembers maxResults (ofCallback record) members' s₁ log₁ = .ok s' log' := by
  induction members generalizing s log with
  | nil => simp [streamMembers]
  | cons member members ih =>
    rw [List.cons_append, streamMembers, streamMembers, bind_eq_ok]
    simp only [ih, bind_eq_ok]
    constructor
    . rintro ⟨s₁, log₁, hmember, s₂, log₂, hrest, h⟩
      exact ⟨s₂, log₂, ⟨s₁, log₁, hmember, hrest⟩, h⟩
    . rintro ⟨s₂, log₂, ⟨s₁, log₁, hmember, hrest⟩, h⟩
      exact ⟨s₁, log₁, hmember, s₂, log₂, hrest, h⟩

theorem streamMember_results {elems : List Json} {s s' : Scan}
    : streamMember maxResults (ofCallback record) s ("results", .arr elems) log = .ok s' log'
      ↔ ∃ found, streamElems s.env maxResults (ofCallback record) elems 0 [] log = .ok found log'
        ∧ s' = { s with count := found.1, buffered := found.2 } := by
  unfold streamMember
  simp only [if_true, bind_eq_ok, wrapError_eq_ok, pure_apply]
  constructor
  . rintro ⟨found, _, h, hpure⟩
    injection hpure with hs hlog
    subst hs hlog
    exact ⟨found, h, rfl⟩
  . rintro ⟨found, h, rfl⟩
    exact ⟨found, _, h, rfl⟩

theorem streamMembers_header {σ : Type} {fn : ResultFunc σ} {st st' : σ} {members : List (String × Json)}
    {s s' : Scan}
    (hknown : ∀ m ∈ members, m.1 ∈ RunEnvelope.headerKeys)
    : streamMembers maxResults fn members s st = .ok s' st'
      ↔ ∃ env, RunEnvelope.decodeHeader members s.env = .ok env ∧ s' = { s with env := env }
        ∧ st' = st := by
  induction members generalizing s st with
  | nil =>
    constructor
    . intro h
      injection h with hs hst
      subst hs hst
      exact ⟨s.env, rfl, rfl, rfl⟩
    . rintro ⟨_, h, rfl, rfl⟩
      injection h with h
      subst h
      rfl
  | cons member members ih =>
    rw [List.forall_mem_cons] at hknown
    obtain ⟨key, v⟩ := member
    have hkey : key ≠ "results" := fun h => RunEnvelope.results_not_mem_headerKeys (h ▸ hknown.1)
    rw [streamMembers, bind_eq_ok]
    simp only [ih hknown.2, RunEnvelope.decodeHeader_cons_eq_ok hknown.1]
    unfold streamMember
    constructor
    . rintro ⟨s₁, st₁, hmember, env, henv, rfl, rfl⟩
      obtain ⟨f, hf, hname, hfind⟩ := exists_find hknown.1
      simp only [hkey, if_false, hfind, bind_eq_ok, wrapError_eq_ok, liftResult_eq_ok] at hmember
      obtain ⟨env₁, _, ⟨hdecode, rfl⟩, hpure⟩ := hmember
      injection hpure with hs hst
      subst hs hst
      exact ⟨env, ⟨f, hf, env₁, hname, hfind, hdecode, henv⟩, rfl, rfl⟩
    . rintro ⟨env, ⟨f, hf, env₁, hname, hfind, hdecode, henv⟩, rfl, rfl⟩
      refine ⟨{ s with env := env₁ }, _, ?_, env, henv, rfl, rfl⟩
      simp only [hkey, if_false, hfind, bind_eq_ok, wrapError_eq_ok, liftResult_eq_ok]
      exact ⟨env₁, _, ⟨hdecode, rfl⟩, rfl⟩

end

namespace Layout

variable {o : Layout} {maxResults : Int} {env : RunEnvelope} {log : List Delivery}

def handedEnv (first env : RunEnvelope) : RunEnvelope :=
  if headerDone first then first else env

theorem streamMembers_eq_ok {s : Scan}
    (hmax : 0 < maxResults → (o.elems.length : Int) ≤ maxResults)
    : streamMembers maxResults (ofCallback record) o.members
        { env := .zero, count := 0, buffered := [] } [] = .ok s log
      ↔ ∃ first rs, o.Decodes first s.env rs ∧ (∀ r ∈ rs, r.Valid) ∧ s.count = rs.length
        ∧ Handled first rs 0 [] s.buffered [] log := by
  unfold members
  simp only [streamMembers_append, streamMembers_header o.known_before, streamMembers, bind_eq_ok,
    streamMember_results, streamMembers_header o.known_after]
  constructor
  . rintro ⟨_, _, ⟨first, hfirst, rfl, rfl⟩, _, _, ⟨found, helems, rfl⟩, env, henv, rfl, rfl⟩
    obtain ⟨rs, hrs, hvalid, hcount, hhandled⟩ :=
      (streamElems_eq_ok (fun h => by have := hmax h; omega)).mp helems
    exact ⟨first, rs, ⟨hfirst, hrs, henv⟩, hvalid, hcount.trans (Nat.zero_add _), hhandled⟩
  . rintro ⟨first, rs, hdecodes, hvalid, hcount, hhandled⟩
    refine ⟨_, _, ⟨first, hdecodes.before, rfl, rfl⟩, _, _, ⟨(s.count, s.buffered), ?_, rfl⟩, s.env,
      hdecodes.after, rfl, rfl⟩
    apply (streamElems_eq_ok (fun h => by have := hmax h; omega)).mpr
    exact ⟨rs, hdecodes.results, hvalid, hcount.trans (Nat.zero_add _).symm, hhandled⟩

theorem replay_handled {first : RunEnvelope} {rs buffered : List Result}
    (h : Handled first rs 0 [] buffered [] log)
    : replay env (ofCallback record) buffered 0 log
      = .ok () (deliveries (handedEnv first env) rs 0) := by
  unfold Handled at h
  unfold handedEnv
  rw [replay_record]
  split at h
  . rename_i hdone
    obtain ⟨rfl, rfl⟩ := h
    rw [if_pos hdone, List.nil_append]
    exact congrArg _ (List.append_nil _)
  . rename_i hdone
    obtain ⟨rfl, rfl⟩ := h
    rw [if_neg hdone, List.nil_append]

theorem exists_handled (first : RunEnvelope) (rs : List Result)
    : ∃ buffered log, Handled first rs 0 [] buffered [] log := by
  unfold Handled
  split <;> exact ⟨_, _, rfl, rfl⟩

theorem delivers_iff (hmax : 0 < maxResults → (o.elems.length : Int) ≤ maxResults)
    : Delivers (.object o.members .closed) maxResults env log
      ↔ ∃ first rs, o.Decodes first env rs ∧ (∀ r ∈ rs, r.Valid)
        ∧ env.validateHeader rs.length = .ok () ∧ log = deliveries (handedEnv first env) rs 0 := by
  unfold Delivers StreamRunEnvelope
  simp only [bind_eq_ok, streamMembers_eq_ok hmax, liftResult_eq_ok]
  constructor
  . rintro ⟨s, log₁, ⟨first, rs, hdecodes, hvalid, hcount, hhandled⟩, _, log₂, hending, _, log₃,
      hreplay, _, _, ⟨hheader, rfl⟩, hreturn⟩
    cases hending
    cases hreturn
    rw [replay_handled hhandled] at hreplay
    cases hreplay
    rw [hcount] at hheader
    exact ⟨first, rs, hdecodes, hvalid, hheader, rfl⟩
  . rintro ⟨first, rs, hdecodes, hvalid, hheader, rfl⟩
    obtain ⟨buffered, log₁, hhandled⟩ := exists_handled first rs
    refine ⟨⟨env, rs.length, buffered⟩, log₁, ⟨first, rs, hdecodes, hvalid, rfl, hhandled⟩, (), log₁,
      rfl, (), _, replay_handled hhandled, (), _, ⟨hheader, rfl⟩, rfl⟩

end Layout
end Model
end Api
