import BenchPlatform.Api.Http.Analytics
import BenchPlatform.Lib.Delimited

/-!
This module settles when the cache key of an analytics request determines what the handler loads:
the key writes the sorted values of a parameter without escaping them, while the handler uses the
first value only.
-/

namespace Api
namespace Http

/--
A request whose key shows the values that the handler uses: no value contains what the key writes in
front of a value, and of every parameter that the handler reads the first value is sorted first and
contains no comma.
-/
def Canonical (e : Endpoint) (q : Values) : Prop :=
  ∀ name ∈ e.params,
    (∀ v ∈ q (ascii name), ∀ n ∈ e.names, ¬Delimited.mark bar equals (ascii n) <:+: v)
      ∧ (e.unread q ≠ some name →
        ∀ v ∈ (q (ascii name)).head?, comma ∉ v ∧ ∀ w ∈ (q (ascii name)).tail, v ≤ w)

theorem canonical_of_bar_notMem {e : Endpoint} {q : Values}
    (hbar : ∀ name ∈ e.params, ∀ v ∈ q (ascii name), bar ∉ v)
    (hread : ∀ name ∈ e.params, ∀ v ∈ (q (ascii name)).head?,
      comma ∉ v ∧ ∀ w ∈ (q (ascii name)).tail, v ≤ w)
    : Canonical e q := by
  intro name hname
  refine ⟨?_, fun _ => hread name hname⟩
  intro v hv n _ hmark
  exact hbar name hname v hv (hmark.subset (by simp [Delimited.mark]))

/--
The fields of a key: the parameters that the query has, with their sorted values.
-/
def keyFields (q : Values) : List Bytes → List (Bytes × Bytes)
  | [] => []
  | name :: names =>
    if q name = [] then
      keyFields q names
    else
      (name, [comma].intercalate (sortStrings (q name))) :: keyFields q names

theorem flatMap_keyField (q : Values) (names : List Bytes)
    : names.flatMap (keyField q) = Delimited.render bar equals (keyFields q names) := by
  induction names with
  | nil => rfl
  | cons name names ih =>
    rw [List.flatMap_cons, ih, keyFields, keyField]
    cases hq : q name with
    | nil => simp
    | cons v vs => simp [Delimited.render]

theorem mem_keyFields {q : Values} {names : List Bytes} {f : Bytes × Bytes}
    (h : f ∈ keyFields q names)
    : f.1 ∈ names ∧ f.2 = [comma].intercalate (sortStrings (q f.1)) := by
  induction names with
  | nil => cases h
  | cons name names ih =>
    simp only [keyFields] at h
    split at h
    . exact ⟨List.mem_cons_of_mem _ (ih h).1, (ih h).2⟩
    . obtain rfl | h := List.mem_cons.mp h
      . exact ⟨List.mem_cons_self, rfl⟩
      . exact ⟨List.mem_cons_of_mem _ (ih h).1, (ih h).2⟩

theorem values_of_keyFields {q r : Values} {names : List Bytes} (hnodup : names.Nodup)
    (h : keyFields q names = keyFields r names) {name : Bytes} (hname : name ∈ names)
    : (q name = [] ↔ r name = [])
      ∧ [comma].intercalate (sortStrings (q name)) = [comma].intercalate (sortStrings (r name)) := by
  induction names with
  | nil => cases hname
  | cons n names ih =>
    obtain ⟨hnot, hnodup⟩ := List.nodup_cons.mp hnodup
    have hne : ∀ (q : Values) v fs, keyFields q names ≠ (n, v) :: fs := by
      intro q v fs heq
      have hmem : (n, v) ∈ keyFields q names := by
        rw [heq]
        exact List.mem_cons_self
      exact hnot (mem_keyFields hmem).1
    simp only [keyFields] at h
    by_cases hq : q n = [] <;> by_cases hr : r n = []
    all_goals simp only [hq, hr, if_true, if_false] at h
    . obtain rfl | hname := List.mem_cons.mp hname
      . simp [hq, hr]
      . exact ih hnodup h hname
    . exact absurd h (hne q _ _)
    . exact absurd h.symm (hne r _ _)
    . injection h with hfield h
      injection hfield with _ hvalue
      obtain rfl | hname := List.mem_cons.mp hname
      . exact ⟨iff_of_false hq hr, hvalue⟩
      . exact ih hnodup h hname

/--
What the names in the keys of an endpoint are like.
-/
structure GoodNames (e : Endpoint) : Prop where
  nodup : (sortStrings (e.params.map ascii)).Nodup
  params : e.params ⊆ e.names
  bar : ∀ n ∈ e.names.map ascii, bar ∉ n ∧ equals ∉ n ∧ comma ∉ n
  machines : ascii "machines" ∉ e.params.map ascii

theorem goodNames (e : Endpoint) : GoodNames e := by
  cases e <;> constructor <;> decide

theorem mem_sortStrings {names : List String} {name : Bytes}
    : name ∈ sortStrings (names.map ascii) ↔ ∃ n ∈ names, ascii n = name := by
  simp [sortStrings, List.mem_insertionSort]

variable {e : Endpoint} {q r : Values} {endpoint : String}

theorem mark_not_infix_join {n : Bytes} {vs : List Bytes} (hn : comma ∉ n)
    (hvs : ∀ v ∈ vs, ¬Delimited.mark bar equals n <:+: v)
    : ¬Delimited.mark bar equals n <:+: [comma].intercalate vs := by
  intro h
  obtain ⟨v, hv, h⟩ := Delimited.exists_infix_of_infix_intercalate
    (by simpa [Delimited.mark, hn] using ⟨by decide, by decide⟩) (by simp [Delimited.mark]) h
  exact hvs v hv h

theorem keyFields_of_canonical (hq : Canonical e q) {f : Bytes × Bytes}
    (hf : f ∈ keyFields q (sortStrings (e.params.map ascii)))
    : f.1 ∈ e.names.map ascii ∧ f.1 ≠ ascii "machines"
      ∧ ∀ n ∈ e.names.map ascii, ¬Delimited.mark bar equals n <:+: f.2 := by
  obtain ⟨hname, hvalue⟩ := mem_keyFields hf
  obtain ⟨n, hn, heq⟩ := mem_sortStrings.mp hname
  have hgood := goodNames e
  have hmem : f.1 ∈ e.params.map ascii := List.mem_map.mpr ⟨n, hn, heq⟩
  refine ⟨List.map_subset _ hgood.params hmem, ?_, ?_⟩
  . intro h
    rw [h] at hmem
    exact hgood.machines hmem
  . intro n' hn'
    rw [hvalue, ← heq]
    apply mark_not_infix_join (hgood.bar n' hn').2.2
    intro v hv
    obtain ⟨m, hm, rfl⟩ := List.mem_map.mp hn'
    exact (hq n hn).1 v ((List.mem_insertionSort _).mp hv) m hm

/--
The two requests have the same first value of every parameter that one of them reads.
-/
def SameReads (e : Endpoint) (q r : Values) : Prop :=
  ∀ name ∈ e.params, e.unread q ≠ some name → e.unread r ≠ some name → q.get name = r.get name

theorem get_of_cacheKey {t t' : Bytes} (lasts : List Bytes) (hq : Canonical e q)
    (hr : Canonical e r) (hlasts : lasts ⊆ e.names.map ascii)
    (hmachines : ∀ n ∈ lasts, n = ascii "machines") (ht : Delimited.Follows bar equals lasts t)
    (ht' : Delimited.Follows bar equals lasts t')
    (h : cacheKey endpoint q e.params ++ t = cacheKey endpoint r e.params ++ t')
    : SameReads e q r ∧ t = t' := by
  have hgood := goodNames e
  have hfields : ∀ {q : Values}, Canonical e q →
      ∀ f ∈ keyFields q (sortStrings (e.params.map ascii)), f.1 ∈ e.names.map ascii
        ∧ f.1 ∉ lasts ∧ ∀ n ∈ e.names.map ascii, ¬Delimited.mark bar equals n <:+: f.2 := by
    intro q hq f hf
    obtain ⟨hmem, hne, hmark⟩ := keyFields_of_canonical hq hf
    exact ⟨hmem, fun hl => hne (hmachines _ hl), hmark⟩
  simp only [cacheKey, List.append_assoc, flatMap_keyField] at h
  have h := List.append_cancel_left h
  obtain ⟨heq, htt⟩ := Delimited.render_inj
    (fun n hn => ⟨(hgood.bar n hn).1, (hgood.bar n hn).2.1⟩) (by decide) hlasts (hfields hq)
    (hfields hr) ht ht' h
  refine ⟨?_, htt⟩
  intro name hname hreadq hreadr
  have hmem : ascii name ∈ sortStrings (e.params.map ascii) := mem_sortStrings.mpr ⟨name, hname, rfl⟩
  obtain ⟨hnil, hvalues⟩ := values_of_keyFields hgood.nodup heq hmem
  have hq := (hq name hname).2 hreadq
  have hr := (hr name hname).2 hreadr
  simp only [Values.get]
  cases hqv : q (ascii name) with
  | nil => simp [hnil.mp hqv]
  | cons v vs =>
    cases hrv : r (ascii name) with
    | nil => simp [hnil.mpr hrv] at hqv
    | cons w ws =>
      rw [hqv, List.tail_cons] at hq
      rw [hrv, List.tail_cons] at hr
      obtain ⟨hv, hle⟩ := hq v rfl
      obtain ⟨hw, hle'⟩ := hr w rfl
      -- the first value is sorted first
      rw [hqv, hrv, sortStrings, sortStrings, List.insertionSort_cons_of_forall_rel _ hle,
        List.insertionSort_cons_of_forall_rel _ hle'] at hvalues
      simpa using Delimited.head_of_intercalate hv hw hvalues

theorem unread_ne {name : String} (hthreads : name ≠ "thread_count")
    (hset : name ≠ "working_set_bytes")
    : e.unread q ≠ some name := by
  unfold Endpoint.unread
  split <;> simp [Ne.symm hthreads, Ne.symm hset]

theorem SameReads.get (h : SameReads e q r) (name : String) (hname : name ∈ e.params)
    (hthreads : name ≠ "thread_count") (hset : name ≠ "working_set_bytes")
    : q.get name = r.get name :=
  h name hname (unread_ne hthreads hset) (unread_ne hthreads hset)

theorem pinOther_congr (h : SameReads e q r) (he : e ≠ .trials) {g : GroupBy}
    (hq : parseGroupBy (q.get "group_by") = .ok g) (hr : parseGroupBy (r.get "group_by") = .ok g)
    (f : MeasurementFilter)
    : pinOther q f g = pinOther r f g := by
  have hparams : "thread_count" ∈ e.params ∧ "working_set_bytes" ∈ e.params := by
    cases e <;> decide
  have hunread : ∀ {q : Values}, parseGroupBy (q.get "group_by") = .ok g →
      e.unread q = match g with
        | .threadCount => some "thread_count"
        | .workingSetBytes => some "working_set_bytes" := by
    intro q hq
    cases e with
    | trials => exact absurd rfl he
    | aggregates => cases g <;> simp [Endpoint.unread, hq]
    | compare => cases g <;> simp [Endpoint.unread, hq]
  cases g with
  | threadCount =>
    have := h "working_set_bytes" hparams.2 (by simp [hunread hq]) (by simp [hunread hr])
    simp only [pinOther, parseWorkingSetBytes, this]
  | workingSetBytes =>
    have := h "thread_count" hparams.1 (by simp [hunread hq]) (by simp [hunread hr])
    simp only [pinOther, parseThreadCount, this]

theorem readAggregates_congr (h : SameReads .aggregates q r)
    : readAggregates q = readAggregates r := by
  have hmachine := h.get "machine_id" (by decide) (by decide) (by decide)
  have hmetric := h.get "metric" (by decide) (by decide) (by decide)
  have hworkload := h.get "workload" (by decide) (by decide) (by decide)
  have hgroup := h.get "group_by" (by decide) (by decide) (by decide)
  unfold readAggregates requireFilters
  rw [hmachine, hmetric, hworkload, hgroup]
  cases hg : parseGroupBy (r.get "group_by") with
  | error message => rfl
  | ok g =>
    have hpin := pinOther_congr h (by decide) (hgroup ▸ hg) hg
    simp only [Except.mapError, bind, Except.bind, hpin]

theorem readCompareFilter_congr (h : SameReads .compare q r)
    : readCompareFilter q = readCompareFilter r := by
  have hmetric := h.get "metric" (by decide) (by decide) (by decide)
  have hworkload := h.get "workload" (by decide) (by decide) (by decide)
  have hgroup := h.get "group_by" (by decide) (by decide) (by decide)
  unfold readCompareFilter
  rw [hmetric, hworkload, hgroup]
  cases hg : parseGroupBy (r.get "group_by") with
  | error message => rfl
  | ok g =>
    have hpin := pinOther_congr h (by decide) (hgroup ▸ hg) hg
    simp only [Except.mapError, bind, Except.bind, hpin]

theorem readTrials_congr (h : SameReads .trials q r) : readTrials q = readTrials r := by
  have hall : ∀ name ∈ trialsParams, q.get name = r.get name := by
    intro name hname
    exact h name hname (by simp [Endpoint.unread]) (by simp [Endpoint.unread])
  simp only [trialsParams, List.forall_mem_cons] at hall
  obtain ⟨hmachine, hmetric, hworkload, hthreads, hset, hlimit, hdown, -⟩ := hall
  unfold readTrials requireFilters parseThreadCount parseWorkingSetBytes
  rw [hmachine, hmetric, hworkload, hthreads, hset, hlimit, hdown]

theorem readMachines_ok {machines : List Bytes} (h : readMachines q = .ok machines)
    : machines ≠ [] ∧ ∀ m ∈ machines, comma ∉ m := by
  simp only [readMachines] at h
  split at h
  . cases h
  . split at h
    . cases h
    . rename_i hlen _
      injection h with h
      subst h
      constructor
      . intro hnil
        simp [hnil] at hlen
      . intro m hm hcomma
        obtain ⟨v, hv, rfl⟩ := List.mem_map.mp (List.mem_of_mem_filter hm)
        exact Delimited.notMem_of_mem_splitOn hv (mem_of_mem_trimSpace hcomma)

theorem handleAggregates_ok {x : Request} (h : handleAggregates q = .ok x)
    : ∃ f g, readAggregates q = .ok (f, g)
      ∧ x = { key := cacheKey "agg" q aggregatesParams, machines := [f.machineID],
              load := .aggregates f g } := by
  unfold handleAggregates at h
  cases hread : readAggregates q with
  | error err => rw [hread] at h; cases h
  | ok fg =>
    obtain ⟨f, g⟩ := fg
    rw [hread] at h
    injection h with h
    exact ⟨f, g, rfl, h.symm⟩

theorem handleTrials_ok {x : Request} (h : handleTrials q = .ok x)
    : ∃ f t, readTrials q = .ok (f, t)
      ∧ x = { key := cacheKey "trials" q trialsParams, machines := [f.machineID],
              load := .trials f t (q.get "downsample") } := by
  unfold handleTrials at h
  cases hread : readTrials q with
  | error err => rw [hread] at h; cases h
  | ok ft =>
    obtain ⟨f, t⟩ := ft
    rw [hread] at h
    injection h with h
    exact ⟨f, t, rfl, h.symm⟩

theorem handleCompare_ok {x : Request} (h : handleCompare q = .ok x)
    : ∃ machines f g, readMachines q = .ok machines ∧ readCompareFilter q = .ok (f, g)
      ∧ x =
        { key := cacheKey "cmp" q compareParams
            ++ bar :: (ascii "machines" ++ equals :: [comma].intercalate machines)
          machines := machines
          load := .compare machines f g } := by
  unfold handleCompare at h
  simp only at h
  split at h
  . cases h
  . cases hmachines : readMachines q with
    | error err => rw [hmachines] at h; cases h
    | ok machines =>
      cases hread : readCompareFilter q with
      | error err => rw [hmachines, hread] at h; cases h
      | ok fg =>
        obtain ⟨f, g⟩ := fg
        rw [hmachines, hread] at h
        injection h with h
        exact ⟨machines, f, g, rfl, rfl, h.symm⟩

/--
Two canonical requests that an endpoint accepts under the same key make it load the same thing.
-/
theorem request_eq_of_key_eq (e : Endpoint) (q r : Values) (x y : Request) (hq : Canonical e q)
    (hr : Canonical e r) (hx : e.handle q = .ok x) (hy : e.handle r = .ok y) (hkey : x.key = y.key)
    : x = y := by
  cases e with
  | aggregates =>
    obtain ⟨f, g, hread, rfl⟩ := handleAggregates_ok hx
    obtain ⟨f', g', hread', rfl⟩ := handleAggregates_ok hy
    obtain ⟨hsame, -⟩ := get_of_cacheKey [] hq hr (by simp)
      (by simp) (.inl rfl) (.inl rfl) (congrArg (· ++ []) hkey)
    rw [readAggregates_congr hsame, hread'] at hread
    cases hread
    exact Request.ext hkey rfl rfl
  | compare =>
    obtain ⟨ms, f, g, hms, hread, rfl⟩ := handleCompare_ok hx
    obtain ⟨ms', f', g', hms', hread', rfl⟩ := handleCompare_ok hy
    have hfollows : ∀ x, Delimited.Follows bar equals [ascii "machines"]
        (bar :: (ascii "machines" ++ equals :: x)) := by
      intro x
      exact .inr ⟨_, List.mem_singleton_self _, x, by simp [Delimited.mark]⟩
    obtain ⟨hsame, hjoin⟩ := get_of_cacheKey [ascii "machines"] hq hr (by decide) (by simp) (hfollows _) (hfollows _)
      hkey
    have hjoin := (Delimited.append_cons_inj (by decide) (by decide) (List.cons.inj hjoin).2).2
    obtain ⟨hne, hcomma⟩ := readMachines_ok hms
    obtain ⟨hne', hcomma'⟩ := readMachines_ok hms'
    have hmachines : ms = ms' := by
      rw [← List.splitOn_intercalate comma hcomma hne, hjoin,
        List.splitOn_intercalate comma hcomma' hne']
    rw [readCompareFilter_congr hsame, hread'] at hread
    cases hread
    subst hmachines
    exact Request.ext hkey rfl rfl
  | trials =>
    obtain ⟨f, t, hread, rfl⟩ := handleTrials_ok hx
    obtain ⟨f', t', hread', rfl⟩ := handleTrials_ok hy
    obtain ⟨hsame, -⟩ := get_of_cacheKey [] hq hr (by simp)
      (by simp) (.inl rfl) (.inl rfl) (congrArg (· ++ []) hkey)
    have hdown := hsame.get "downsample" (by decide) (by decide) (by decide)
    rw [readTrials_congr hsame, hread'] at hread
    cases hread
    exact Request.ext hkey rfl (by rw [hdown])

/--
The values after the first may come in any order.
-/
theorem request_eq_of_key_eq_reordered
    : ∃ x y,
      handleAggregates (Values.ofPairs [("machine_id", "a"), ("machine_id", "c"),
        ("machine_id", "b"), ("metric", "cpu_int_ops")]) = .ok x
      ∧ handleAggregates (Values.ofPairs [("metric", "cpu_int_ops"), ("machine_id", "a"),
        ("machine_id", "b"), ("machine_id", "c")]) = .ok y
      ∧ x = y :=
  ⟨_, _, rfl, rfl, request_eq_of_key_eq .aggregates
    (Values.ofPairs [("machine_id", "a"), ("machine_id", "c"), ("machine_id", "b"),
      ("metric", "cpu_int_ops")])
    (Values.ofPairs [("metric", "cpu_int_ops"), ("machine_id", "a"), ("machine_id", "b"),
      ("machine_id", "c")])
    _ _ (canonical_of_bar_notMem (by decide) (by decide))
    (canonical_of_bar_notMem (by decide) (by decide)) rfl rfl (by decide)⟩

/--
The same values in another order: one key, two machines.
-/
theorem key_eq_of_swapped
    : ¬∀ (e : Endpoint) (q r : Values) (x y : Request), e.handle q = .ok x → e.handle r = .ok y →
        x.key = y.key → x.load = y.load := by
  intro h
  have := h .aggregates
    (Values.ofPairs [("machine_id", "a"), ("machine_id", "b"), ("metric", "cpu_int_ops")])
    (Values.ofPairs [("machine_id", "b"), ("machine_id", "a"), ("metric", "cpu_int_ops")])
    _ _ rfl rfl (by decide)
  revert this
  decide

end Http
end Api
