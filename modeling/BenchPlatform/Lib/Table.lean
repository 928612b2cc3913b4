import Mathlib.Data.List.Nodup
import Mathlib.Data.List.TakeWhile

/-!
This module contains tables with a unique key, as lists of rows, together with what the ways of
inserting rows into such a table have to do with each other.
-/

variable {κ : Type*} {ρ : Type*}

/--
The rows of a table in the order of their insertion. No two rows have the same key.
-/
@[ext]
structure Table (key : ρ → κ) where
  rows : List ρ
  nodup : (rows.map key).Nodup

namespace Table

variable {key : ρ → κ}

def empty : Table key where
  rows := []
  nodup := List.nodup_nil

def keys (t : Table key) : List κ :=
  t.rows.map key

variable [DecidableEq κ]

def find? (t : Table key) (k : κ) : Option ρ :=
  t.rows.find? (key · = k)

/--
`INSERT ... ON CONFLICT DO NOTHING` of one row.
-/
def insertIgnore (t : Table key) (r : ρ) : Table key :=
  if h : key r ∈ t.keys then
    t
  else
    { rows := t.rows ++ [r]
      nodup := by
        rw [List.map_append, List.map_singleton]
        exact List.nodup_append.mpr ⟨t.nodup, List.nodup_singleton _, by
          intro k hk k' hk' heq
          rw [List.mem_singleton] at hk'
          exact h (by rw [← hk', ← heq]; exact hk)⟩ }

/--
`INSERT ... SELECT ... ON CONFLICT DO NOTHING`.
-/
def insertAllIgnore (t : Table key) (rs : List ρ) : Table key :=
  rs.foldl insertIgnore t

/--
`COPY`: all the rows, or nothing when a key would not be unique.
-/
def copy (t : Table key) (rs : List ρ) : Option (Table key) :=
  if h : ((t.rows ++ rs).map key).Nodup then
    some { rows := t.rows ++ rs, nodup := h }
  else
    none

/--
`INSERT ... ON CONFLICT DO UPDATE` of one row: a row with the same key becomes `merge` of it.
-/
def upsert (t : Table key) (r : ρ) (merge : ρ → ρ) (hmerge : ∀ old, key (merge old) = key old)
    : Table key :=
  if key r ∈ t.keys then
    { rows := t.rows.map fun old => if key old = key r then merge old else old
      nodup := by
        have : key ∘ (fun old => if key old = key r then merge old else old) = key := by
          funext old
          dsimp only [Function.comp_apply]
          split
          . exact hmerge old
          . rfl
        rw [List.map_map, this]
        exact t.nodup }
  else
    t.insertIgnore r

def firsts (key : ρ → κ) (seen : List κ) : List ρ → List ρ
  | [] => []
  | r :: rs => if key r ∈ seen then firsts key seen rs else r :: firsts key (key r :: seen) rs

variable {t t' : Table key} {seen : List κ} {r : ρ} {rs : List ρ}

@[simp]
theorem insertAllIgnore_nil : t.insertAllIgnore [] = t := rfl

theorem insertAllIgnore_append (t : Table key) (rs rs' : List ρ)
    : t.insertAllIgnore (rs ++ rs') = (t.insertAllIgnore rs).insertAllIgnore rs' :=
  List.foldl_append

theorem insertIgnore_of_mem (h : key r ∈ t.keys) : t.insertIgnore r = t :=
  dif_pos h

theorem rows_insertIgnore (h : key r ∉ t.keys) : (t.insertIgnore r).rows = t.rows ++ [r] := by
  rw [insertIgnore, dif_neg h]

theorem keys_insertIgnore (h : key r ∉ t.keys) : (t.insertIgnore r).keys = t.keys ++ [key r] := by
  unfold keys
  rw [rows_insertIgnore h, List.map_append]
  rfl

omit [DecidableEq κ] in
theorem eq_of_key_eq {r' : ρ} (hr : r ∈ t.rows) (hr' : r' ∈ t.rows) (h : key r = key r') : r = r' :=
  List.inj_on_of_nodup_map t.nodup hr hr' h

theorem firsts_congr {seen' : List κ} (h : ∀ k, k ∈ seen ↔ k ∈ seen')
    : firsts key seen rs = firsts key seen' rs := by
  induction rs generalizing seen seen' with
  | nil => rfl
  | cons r rs ih =>
    simp only [firsts, h]
    split
    . exact ih h
    . rw [ih]
      intro k
      simp [h]

theorem rows_insertAllIgnore (t : Table key) (rs : List ρ)
    : (t.insertAllIgnore rs).rows = t.rows ++ firsts key t.keys rs := by
  induction rs generalizing t with
  | nil => simp [firsts]
  | cons r rs ih =>
    rw [insertAllIgnore, List.foldl_cons, ← insertAllIgnore, ih, firsts]
    by_cases h : key r ∈ t.keys
    . rw [insertIgnore_of_mem h, if_pos h]
    . have hseen : firsts key (t.insertIgnore r).keys rs = firsts key (key r :: t.keys) rs := by
        apply firsts_congr
        intro k
        rw [keys, rows_insertIgnore h, List.map_append]
        simp [keys, or_comm]
      rw [hseen, rows_insertIgnore h, if_neg h, List.append_assoc, List.singleton_append]

theorem firsts_append (t : Table key) (rs rs' : List ρ)
    : firsts key t.keys (rs ++ rs')
      = firsts key t.keys rs ++ firsts key (t.insertAllIgnore rs).keys rs' := by
  have h := congrArg Table.rows (insertAllIgnore_append t rs rs')
  simp only [rows_insertAllIgnore, List.append_assoc] at h
  exact List.append_cancel_left h

theorem length_firsts_le : (firsts key seen rs).length ≤ rs.length := by
  induction rs generalizing seen with
  | nil => simp [firsts]
  | cons r rs ih =>
    simp only [firsts]
    split
    . exact Nat.le_succ_of_le ih
    . exact Nat.succ_le_succ ih

theorem mem_firsts
    : r ∈ firsts key seen rs ↔ key r ∉ seen ∧ rs.find? (key · = key r) = some r := by
  induction rs generalizing seen with
  | nil => simp [firsts]
  | cons x rs ih =>
    by_cases hx : key x = key r
    . by_cases hseen : key r ∈ seen
      . simp [firsts, hx, hseen, ih]
      . simp [firsts, hx, hseen, ih, eq_comm]
    . have hne : key r ≠ key x := Ne.symm hx
      simp only [firsts]
      split
      . simp [ih, hx]
      . have hrx : r ≠ x := fun h => hx (by rw [h])
        simp [ih, hx, hrx, hne]

theorem mem_of_mem_firsts (h : r ∈ firsts key seen rs) : r ∈ rs :=
  List.mem_of_find?_eq_some (mem_firsts.mp h).2

theorem nodup_firsts : ((firsts key seen rs).map key).Nodup := by
  induction rs generalizing seen with
  | nil => simp [firsts]
  | cons r rs ih =>
    simp only [firsts]
    split
    . exact ih
    . rw [List.map_cons, List.nodup_cons]
      refine ⟨?_, ih⟩
      intro h
      obtain ⟨r', hr', heq⟩ := List.mem_map.mp h
      have := (mem_firsts.mp hr').1
      simp [heq] at this

theorem firsts_eq_self (hnew : ∀ r ∈ rs, key r ∉ seen) (hnodup : (rs.map key).Nodup)
    : firsts key seen rs = rs := by
  induction rs generalizing seen with
  | nil => rfl
  | cons r rs ih =>
    rw [List.map_cons, List.nodup_cons] at hnodup
    rw [firsts, if_neg (hnew r List.mem_cons_self), ih _ hnodup.2]
    intro r' hr' hmem
    obtain heq | hmem := List.mem_cons.mp hmem
    . exact hnodup.1 (heq ▸ List.mem_map_of_mem hr')
    . exact hnew r' (List.mem_cons_of_mem _ hr') hmem

theorem copy_eq_some (h : t.copy rs = some t')
    : t' = t.insertAllIgnore rs ∧ firsts key t.keys rs = rs := by
  unfold copy at h
  split at h
  . rename_i hnodup
    rw [List.map_append, List.nodup_append] at hnodup
    obtain ⟨_, hrs, hdisjoint⟩ := hnodup
    have hfirsts : firsts key t.keys rs = rs := by
      apply firsts_eq_self _ hrs
      intro r hr hmem
      exact hdisjoint _ hmem _ (List.mem_map_of_mem hr) rfl
    refine ⟨?_, hfirsts⟩
    injection h with h
    subst h
    apply Table.ext
    rw [rows_insertAllIgnore, hfirsts]
  . cases h

theorem keys_subset_insertAllIgnore : t.keys ⊆ (t.insertAllIgnore rs).keys := by
  intro k hk
  rw [keys, rows_insertAllIgnore, List.map_append]
  exact List.mem_append_left _ hk

@[simp]
theorem find?_eq_none {k : κ} : t.find? k = none ↔ k ∉ t.keys := by
  simp [find?, keys, List.find?_eq_none]

theorem keys_upsert {merge : ρ → ρ} {hmerge : ∀ old, key (merge old) = key old}
    : (t.upsert r merge hmerge).keys = (t.insertIgnore r).keys := by
  unfold upsert
  split
  . rename_i h
    rw [insertIgnore_of_mem h]
    unfold keys
    rw [List.map_map]
    apply List.map_congr_left
    intro old _
    dsimp only [Function.comp_apply]
    split
    . exact hmerge old
    . rfl
  . rfl

theorem mem_keys_insertIgnore {k : κ} : k ∈ (t.insertIgnore r).keys ↔ k ∈ t.keys ∨ k = key r := by
  by_cases h : key r ∈ t.keys
  . rw [insertIgnore_of_mem h]
    constructor
    . exact .inl
    . rintro (hk | rfl)
      . exact hk
      . exact h
  . rw [keys_insertIgnore h, List.mem_append, List.mem_singleton]

theorem mem_rows_insertIgnore {x : ρ} (h : x ∈ t.rows) : x ∈ (t.insertIgnore r).rows := by
  by_cases hr : key r ∈ t.keys
  . rwa [insertIgnore_of_mem hr]
  . rw [rows_insertIgnore hr]
    exact List.mem_append_left _ h

theorem exists_firsts (hr : r ∈ rs) (hnew : key r ∉ seen) : ∃ f ∈ firsts key seen rs, key f = key r := by
  have hsome : (rs.find? (key · = key r)).isSome :=
    List.find?_isSome.mpr ⟨r, hr, decide_eq_true rfl⟩
  obtain ⟨f, hf⟩ := Option.isSome_iff_exists.mp hsome
  have hkey : key f = key r := by simpa using List.find?_some hf
  refine ⟨f, mem_firsts.mpr ?_, hkey⟩
  rw [hkey]
  exact ⟨hnew, hf⟩

theorem mem_keys_insertAllIgnore {k : κ}
    : k ∈ (t.insertAllIgnore rs).keys ↔ k ∈ t.keys ∨ ∃ r ∈ rs, key r = k := by
  induction rs generalizing t with
  | nil => simp
  | cons r rs ih =>
    change k ∈ ((t.insertIgnore r).insertAllIgnore rs).keys ↔ _
    rw [ih, mem_keys_insertIgnore, List.exists_mem_cons_iff, or_assoc, eq_comm]

theorem mem_rows_insertAllIgnore {x : ρ} (hinj : ∀ r ∈ rs, ∀ r' ∈ rs, key r = key r' → r = r')
    : x ∈ (t.insertAllIgnore rs).rows ↔ x ∈ t.rows ∨ x ∈ rs ∧ key x ∉ t.keys := by
  rw [rows_insertAllIgnore, List.mem_append]
  apply or_congr_right
  constructor
  . intro hx
    exact ⟨mem_of_mem_firsts hx, (mem_firsts.mp hx).1⟩
  . rintro ⟨hx, hnew⟩
    obtain ⟨f, hf, hkey⟩ := exists_firsts hx hnew
    rwa [← hinj f (mem_of_mem_firsts hf) x hx hkey]

theorem perm_insertAllIgnore {rs' : List ρ} (hmem : ∀ r, r ∈ rs ↔ r ∈ rs')
    (hinj : ∀ r ∈ rs', ∀ r' ∈ rs', key r = key r' → r = r')
    : (t.insertAllIgnore rs).rows.Perm (t.insertAllIgnore rs').rows := by
  have hinj' : ∀ r ∈ rs, ∀ r' ∈ rs, key r = key r' → r = r' :=
    fun r hr r' hr' => hinj r ((hmem r).mp hr) r' ((hmem r').mp hr')
  rw [List.perm_ext_iff_of_nodup (List.Nodup.of_map _ (Table.nodup _))
    (List.Nodup.of_map _ (Table.nodup _))]
  intro x
  rw [mem_rows_insertAllIgnore hinj, mem_rows_insertAllIgnore hinj', hmem]

theorem insertIgnore_twice : (t.insertIgnore r).insertIgnore r = t.insertIgnore r :=
  insertIgnore_of_mem (mem_keys_insertIgnore.mpr (.inr rfl))

theorem insertAllIgnore_of_subset (h : ∀ r ∈ rs, key r ∈ t.keys) : t.insertAllIgnore rs = t := by
  induction rs with
  | nil => rfl
  | cons r rs ih =>
    rw [List.forall_mem_cons] at h
    change (t.insertIgnore r).insertAllIgnore rs = t
    rw [insertIgnore_of_mem h.1, ih h.2]

theorem upsert_eq_self (merge : ρ → ρ) (hmerge : ∀ old, key (merge old) = key old)
    (h : key r ∈ t.keys)
    : t.upsert r merge hmerge = t ↔ ∀ old ∈ t.rows, key old = key r → merge old = old := by
  rw [upsert, if_pos h, Table.ext_iff]
  dsimp only
  nth_rewrite 2 [← List.map_id t.rows]
  rw [List.map_inj_left]
  constructor
  . intro hmap old hold hkey
    have := hmap old hold
    rwa [if_pos hkey] at this
  . intro hall old hold
    split
    . exact hall old hold ‹_›
    . rfl

theorem exists_upsert_of_mem (r : ρ) (merge : ρ → ρ) (hmerge : ∀ old, key (merge old) = key old) {old : ρ}
    (h : old ∈ t.rows)
    : ∃ x ∈ (t.upsert r merge hmerge).rows, key x = key old ∧ (x = old ∨ x = merge old) := by
  unfold upsert
  split
  . refine ⟨_, List.mem_map_of_mem h, ?_⟩
    split
    . exact ⟨hmerge old, .inr rfl⟩
    . exact ⟨rfl, .inl rfl⟩
  . exact ⟨old, mem_rows_insertIgnore h, rfl, .inl rfl⟩

theorem exists_upsert_self (t : Table key) (r : ρ) (merge : ρ → ρ)
    (hmerge : ∀ old, key (merge old) = key old)
    : ∃ x ∈ (t.upsert r merge hmerge).rows, key x = key r ∧ (x = r ∨ ∃ old, x = merge old) := by
  unfold upsert
  split
  . rename_i hmem
    obtain ⟨old, hold, hkey⟩ := List.mem_map.mp hmem
    refine ⟨_, List.mem_map_of_mem hold, ?_⟩
    rw [if_pos hkey]
    exact ⟨(hmerge old).trans hkey, .inr ⟨old, rfl⟩⟩
  . rename_i hnew
    refine ⟨r, ?_, rfl, .inl rfl⟩
    rw [rows_insertIgnore hnew]
    exact List.mem_append_right _ (List.mem_singleton_self r)

end Table
