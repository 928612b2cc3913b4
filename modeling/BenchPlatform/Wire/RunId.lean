import BenchPlatform.Api.Store.Encoded
import BenchPlatform.Engine.Stamps
import BenchPlatform.Wire.Patterns

/-!
This module proves that the API lets every id of the engine through, and that whoever reads the canonical text of a
UUID tells the runs of the engine apart as well as their random numbers do.
-/

namespace Api
namespace Model

theorem isLowerHex_iff {c : Char} : isLowerHex c = true ↔ ∃ d, d < 16 ∧ c = Nat.digitChar d := by
  have hdecimal : ∀ d, d < 10 → (Nat.digitChar d).toNat = 48 + d := by decide
  have hletter : ∀ d, d < 16 → 10 ≤ d → (Nat.digitChar d).toNat = 87 + d := by decide
  constructor
  . intro h
    simp only [isLowerHex, isDigit, Bool.or_eq_true, decide_eq_true_eq] at h
    obtain ⟨hlow, hhigh⟩ | ⟨hlow, hhigh⟩ := h
    . have hlow : 48 ≤ c.toNat := hlow
      have hhigh : c.toNat ≤ 57 := hhigh
      refine ⟨c.toNat - 48, by omega, Char.toNat_inj.mp ?_⟩
      rw [hdecimal _ (by omega)]
      omega
    . have hlow : 97 ≤ c.toNat := hlow
      have hhigh : c.toNat ≤ 102 := hhigh
      refine ⟨c.toNat - 87, by omega, Char.toNat_inj.mp ?_⟩
      rw [hletter _ (by omega) (by omega)]
      omega
  . rintro ⟨d, hd, rfl⟩
    revert d
    decide

end Model

namespace Store

open Model

def hyphenated : List (List Nat) → List Char
  | [] => []
  | [ds] => ds.map Nat.digitChar
  | ds :: groups => ds.map Nat.digitChar ++ '-' :: hyphenated groups

def uuidGroups (ds : List Nat) : List (List Nat) :=
  [ds.take 8, (ds.drop 8).take 4, (ds.drop 12).take 4, (ds.drop 16).take 4, ds.drop 20]

/--
The canonical text of a UUID is read as its digits.
-/
def ReadsCanonical (read : String → Option Uuid) : Prop :=
  ∀ (s : String) (ds : List Nat) (hlength : ds.length = 32), (∀ d ∈ ds, d < 16) →
    s.toList = hyphenated (uuidGroups ds) → read s = some ⟨ds, hlength⟩

section

variable {ds : List Nat} {rest : List Char} {k n : Nat}

theorem hexValue?_digitChar {d : Nat} (h : d < 16) : hexValue? (Nat.digitChar d) = some d := by
  revert d
  decide

theorem mapM_hexValue? (h : ∀ d ∈ ds, d < 16) : (ds.map Nat.digitChar).mapM hexValue? = some ds := by
  induction ds with
  | nil => rfl
  | cons d ds ih =>
    rw [List.forall_mem_cons] at h
    rw [List.map_cons, List.mapM_cons, hexValue?_digitChar h.1, ih h.2]
    rfl

theorem digitChar_ne_hyphen {d : Nat} (h : d < 16) : Nat.digitChar d ≠ '-' := by
  revert d
  decide

theorem uuidBytes_byte {a b : Nat} {cs : List Char} (ha : a < 16) (hb : b < 16) (hcs : ∀ c ∈ cs.head?, c ≠ '-')
    : uuidBytes (n + 1) (Nat.digitChar a :: Nat.digitChar b :: cs)
      = (uuidBytes n cs).map fun r => (a :: b :: r.1, r.2) := by
  rw [uuidBytes, hexValue?_digitChar ha, hexValue?_digitChar hb]
  . dsimp only [Option.bind_eq_bind, Option.bind_some]
    rw [Option.map_eq_bind]
    rfl
  . rintro rest rfl
    exact hcs '-' rfl rfl

theorem uuidBytes_hyphen {a b : Nat} (ha : a < 16) (hb : b < 16) (hn : n % 2 = 0 ∧ 0 < n)
    : uuidBytes (n + 1) (Nat.digitChar a :: Nat.digitChar b :: '-' :: rest)
      = (uuidBytes n rest).map fun r => (a :: b :: r.1, r.2) := by
  rw [uuidBytes, hexValue?_digitChar ha, hexValue?_digitChar hb]
  dsimp only [Option.bind_eq_bind, Option.bind_some]
  rw [if_pos hn, Option.map_eq_bind]
  rfl

theorem uuidBytes_group {after after' : List Char}
    (hafter : ∀ a b, a < 16 → b < 16 → uuidBytes (n + 1) (Nat.digitChar a :: Nat.digitChar b :: after)
      = (uuidBytes n after').map fun r => (a :: b :: r.1, r.2))
    (hlength : ds.length = 2 * (k + 1)) (hlt : ∀ d ∈ ds, d < 16)
    : uuidBytes (n + k + 1) (ds.map Nat.digitChar ++ after)
      = (uuidBytes n after').map fun r => (ds ++ r.1, r.2) := by
  induction k generalizing ds with
  | zero =>
    obtain ⟨a, b, rfl⟩ := List.length_eq_two.mp hlength
    exact hafter a b (hlt a (by simp)) (hlt b (by simp))
  | succ k ih =>
    match ds, hlength with
    | a :: b :: ds, hlength =>
      simp only [List.forall_mem_cons] at hlt
      obtain ⟨ha, hb, hlt⟩ := hlt
      have hrest : ds.length = 2 * (k + 1) := by
        rw [List.length_cons, List.length_cons] at hlength
        omega
      have hhead : ∀ c ∈ (ds.map Nat.digitChar ++ after).head?, c ≠ '-' := by
        obtain ⟨d, ds, rfl⟩ := List.exists_cons_of_length_pos (by omega : 0 < ds.length)
        intro c hc
        cases hc
        exact digitChar_ne_hyphen (hlt d List.mem_cons_self)
      have hstep := uuidBytes_byte (n := n + k + 1) ha hb hhead
      rw [ih hrest hlt, Option.map_map] at hstep
      exact hstep

theorem length_flatten_mod {groups : List (List Nat)} (hgroups : ∀ ds ∈ groups, ds.length % 4 = 0 ∧ ds ≠ [])
    : groups.flatten.length % 4 = 0 := by
  induction groups with
  | nil => rfl
  | cons ds groups ih =>
    rw [List.forall_mem_cons] at hgroups
    have ih := ih hgroups.2
    rw [List.flatten_cons, List.length_append]
    omega

theorem uuidBytes_hyphenated {groups : List (List Nat)}
    (hgroups : ∀ ds ∈ groups, ds.length % 4 = 0 ∧ ds ≠ []) (hlt : ∀ ds ∈ groups, ∀ d ∈ ds, d < 16)
    (hlength : groups.flatten.length = 2 * n)
    : uuidBytes n (hyphenated groups) = some (groups.flatten, []) := by
  induction groups generalizing n with
  | nil =>
    obtain rfl : n = 0 := by
      rw [List.flatten_nil, List.length_nil] at hlength
      omega
    rfl
  | cons ds groups ih =>
    rw [List.forall_mem_cons] at hgroups hlt
    rw [List.flatten_cons, List.length_append] at hlength
    have hpos := List.length_pos_of_ne_nil hgroups.1.2
    have hgroup : ds.length = 2 * (ds.length / 2 - 1 + 1) := by omega
    have hcount : n = groups.flatten.length / 2 + (ds.length / 2 - 1) + 1 := by omega
    have ih := ih (n := groups.flatten.length / 2) hgroups.2 hlt.2 (by omega)
    rw [hcount]
    cases groups with
    | nil =>
      have hend : ∀ a b, a < 16 → b < 16 → uuidBytes (0 + 1) (Nat.digitChar a :: Nat.digitChar b :: [])
          = (uuidBytes 0 []).map fun r => (a :: b :: r.1, r.2) :=
        fun a b ha hb => uuidBytes_byte ha hb fun c hc => by cases hc
      have hlast := uuidBytes_group hend hgroup hlt.1
      rw [List.append_nil] at hlast
      rw [List.flatten_cons, List.flatten_nil, List.append_nil]
      refine hlast.trans ?_
      rw [uuidBytes, Option.map_some, List.append_nil]
    | cons ds' groups =>
      have hmultiple : (ds' :: groups).flatten.length / 2 % 2 = 0 ∧ 0 < (ds' :: groups).flatten.length / 2 := by
        have hmod := length_flatten_mod hgroups.2
        have hsome := List.length_pos_of_ne_nil (hgroups.2 ds' List.mem_cons_self).2
        rw [List.flatten_cons, List.length_append] at hmod ⊢
        omega
      refine (uuidBytes_group (fun a b ha hb => uuidBytes_hyphen ha hb hmultiple) hgroup hlt.1).trans ?_
      rw [ih]
      rfl

theorem flatten_uuidGroups (ds : List Nat) : (uuidGroups ds).flatten = ds := by
  have hnext : ∀ i, (ds.drop i).take 4 ++ ds.drop (i + 4) = ds.drop i := by
    intro i
    rw [← List.drop_drop, List.take_append_drop]
  unfold uuidGroups
  simp only [List.flatten_cons, List.flatten_nil, List.append_nil]
  rw [hnext 16, hnext 12, hnext 8, List.take_append_drop]

theorem readsCanonical_parseUuid : ReadsCanonical parseUuid := by
  intro s ds hlength hlt hs
  have hgroups : ∀ g ∈ uuidGroups ds, g.length % 4 = 0 ∧ g ≠ [] := by
    have hsome : ∀ g : List Nat, g.length ≠ 0 → g ≠ [] := fun g hg hnil => hg (congrArg List.length hnil)
    unfold uuidGroups
    simp only [List.forall_mem_cons, List.not_mem_nil, false_imp_iff, forall_const, and_true]
    refine ⟨⟨?_, hsome _ ?_⟩, ⟨?_, hsome _ ?_⟩, ⟨?_, hsome _ ?_⟩, ⟨?_, hsome _ ?_⟩, ?_, hsome _ ?_⟩ <;>
      simp [hlength]
  have hdigits : ∀ g ∈ uuidGroups ds, ∀ d ∈ g, d < 16 := by
    intro g hg d hd
    apply hlt
    rw [← flatten_uuidGroups ds]
    exact List.mem_flatten.mpr ⟨g, hg, hd⟩
  have hbytes : uuidBytes 16 s.toList = some (ds, []) := by
    rw [hs, uuidBytes_hyphenated (n := 16) hgroups hdigits (by rw [flatten_uuidGroups, hlength]),
      flatten_uuidGroups]
  unfold parseUuid
  dsimp only
  split
  . rename_i cs hcs
    rw [hcs] at hbytes
    cases cs <;> cases hbytes
  . rw [hbytes]
    exact dif_pos hlength

theorem without_hyphens {A B C D E : List Char} (hA : A.length = 8) (hB : B.length = 4) (hC : C.length = 4)
    (hD : D.length = 4)
    : ∀ l, l = A ++ '-' :: (B ++ '-' :: (C ++ '-' :: (D ++ '-' :: E))) →
      l.take 8 ++ (l.drop 9).take 4 ++ (l.drop 14).take 4 ++ (l.drop 19).take 4 ++ l.drop 24
        = A ++ (B ++ (C ++ (D ++ E))) := by
  rintro _ rfl
  have hdrop : ∀ {X : List Char} {m n : Nat}, X.length = m → m ≤ n → X.drop n = [] :=
    fun hX hle => List.drop_eq_nil_of_le (hX.trans_le hle)
  simp [List.drop_append, hA, hB, hC, hD, hdrop hA, hdrop hB, hdrop hC, hdrop hD]

theorem readsCanonical_parseUuidBinary : ReadsCanonical parseUuidBinary := by
  intro s ds hlength hlt hs
  have hjoined := flatten_uuidGroups ds
  simp only [uuidGroups, List.flatten_cons, List.flatten_nil, List.append_nil] at hjoined
  have hall : s.toList.length = 36 := by
    rw [hs]
    simp [uuidGroups, hyphenated, hlength]
  have hgroups := without_hyphens (A := (ds.take 8).map Nat.digitChar)
    (B := ((ds.drop 8).take 4).map Nat.digitChar) (C := ((ds.drop 12).take 4).map Nat.digitChar)
    (D := ((ds.drop 16).take 4).map Nat.digitChar) (E := (ds.drop 20).map Nat.digitChar)
    (by simp [hlength]) (by simp [hlength]) (by simp [hlength]) (by simp [hlength]) s.toList (by
      rw [hs]
      simp [uuidGroups, hyphenated])
  unfold parseUuidBinary
  dsimp only
  rw [if_pos hall, hgroups]
  simp only [← List.map_append]
  rw [hjoined, mapM_hexValue? hlt]
  exact dif_pos hlength

end

theorem uuid_eq_iff {ds' : List Nat} {h : ds.length = 32} {h' : ds'.length = 32}
    : some (⟨ds', h'⟩ : Uuid) = some ⟨ds, h⟩ ↔ ds' = ds := by
  rw [Option.some_inj]
  exact Subtype.mk_eq_mk

/--
What the pattern asks of a run id: the digits that say the version and the variant are at their places.
-/
structure UuidText (ds : List Nat) : Prop where
  length : ds.length = 32
  digits : ∀ d ∈ ds, d < 16
  version : ∃ d, ds[12]? = some d ∧ 1 ≤ d ∧ d ≤ 8
  variant : ∃ d, ds[16]? = some d ∧ 8 ≤ d ∧ d ≤ 11

theorem isVersion_digitChar {d : Nat} (h : d < 16)
    : ('1' ≤ Nat.digitChar d ∧ Nat.digitChar d ≤ '8') ↔ 1 ≤ d ∧ d ≤ 8 := by
  revert d
  decide

theorem isVariant_digitChar {d : Nat} (h : d < 16)
    : ['8', '9', 'a', 'b'].contains (Nat.digitChar d) = true ↔ 8 ≤ d ∧ d ≤ 11 := by
  revert d
  decide

theorem uuidGroups_append {A B C D E : List Nat} (hA : A.length = 8) (hB : B.length = 4) (hC : C.length = 4)
    (hD : D.length = 4)
    : uuidGroups (A ++ (B ++ (C ++ (D ++ E)))) = [A, B, C, D, E] := by
  have hdrop : ∀ {X : List Nat} {m n : Nat}, X.length = m → m ≤ n → X.drop n = [] :=
    fun hX hle => List.drop_eq_nil_of_le (hX.trans_le hle)
  unfold uuidGroups
  simp [List.drop_append, hA, hB, hC, hD, hdrop hA, hdrop hB, hdrop hC]

theorem uuidRe_of_hyphenated {s : String} {ds : List Nat} (h : UuidText ds)
    (hs : s.toList = hyphenated (uuidGroups ds))
    : uuidRe s = true := by
  obtain ⟨hlength, hlt, ⟨x, hx, hversion⟩, y, hy, hvariant⟩ := h
  have hgroup : ∀ {n : Nat} {g : List Nat}, g.length = n → (∀ d ∈ g, d ∈ ds) →
      matchClasses (.replicate n isLowerHex) (g.map Nat.digitChar) = true := by
    intro n g hn hg
    refine matchClasses_replicate.mpr ⟨by rw [List.length_map, hn], ?_⟩
    exact List.forall_mem_map.mpr fun d hd => isLowerHex_iff.mpr ⟨d, hlt d (hg d hd), rfl⟩
  have hsome : ∀ {i d : Nat}, ds[i]? = some d → ds.drop i = d :: ds.drop (i + 1) := by
    intro i d hd
    obtain ⟨hi, rfl⟩ := List.getElem?_eq_some_iff.mp hd
    exact List.drop_eq_getElem_cons hi
  have hx16 := hlt x (List.mem_of_getElem? hx)
  have hy16 := hlt y (List.mem_of_getElem? hy)
  have hthird : ((ds.drop 12).take 4).map Nat.digitChar
      = Nat.digitChar x :: ((ds.drop 13).take 3).map Nat.digitChar := by
    rw [hsome hx]
    rfl
  have hfourth : ((ds.drop 16).take 4).map Nat.digitChar
      = Nat.digitChar y :: ((ds.drop 17).take 3).map Nat.digitChar := by
    rw [hsome hy]
    rfl
  have hmem : ∀ {i n : Nat}, ∀ d ∈ (ds.drop i).take n, d ∈ ds :=
    fun d hd => List.mem_of_mem_drop (List.mem_of_mem_take hd)
  have hsame : s.toList = (ds.take 8).map Nat.digitChar ++ '-' :: ((ds.drop 8).take 4).map Nat.digitChar
      ++ '-' :: (Nat.digitChar x :: ((ds.drop 13).take 3).map Nat.digitChar)
      ++ '-' :: (Nat.digitChar y :: ((ds.drop 17).take 3).map Nat.digitChar)
      ++ '-' :: (ds.drop 20).map Nat.digitChar := by
    rw [hs, ← hthird, ← hfourth]
    simp [uuidGroups, hyphenated]
  have hhyphen : ∀ {classes : List (Char → Bool)} {cs : List Char}, matchClasses classes cs = true →
      matchClasses ((· == '-') :: classes) ('-' :: cs) = true :=
    fun h => matchClasses_cons.mpr ⟨_, _, rfl, rfl, h⟩
  unfold uuidRe
  rw [hsame]
  refine matchClasses_append.mpr ⟨_, _, rfl, matchClasses_append.mpr ⟨_, _, rfl, matchClasses_append.mpr ⟨_, _, rfl,
    matchClasses_append.mpr ⟨_, _, rfl, ?_, hhyphen ?_⟩, hhyphen ?_⟩, hhyphen ?_⟩, hhyphen ?_⟩
  . exact hgroup (by simp [hlength]) fun d hd => List.mem_of_mem_take hd
  . exact hgroup (by simp [hlength]) hmem
  . refine matchClasses_cons.mpr ⟨_, _, rfl, decide_eq_true ((isVersion_digitChar hx16).mpr hversion), ?_⟩
    exact hgroup (by simp [hlength]) hmem
  . refine matchClasses_cons.mpr ⟨_, _, rfl, (isVariant_digitChar hy16).mpr hvariant, ?_⟩
    exact hgroup (by simp [hlength]) hmem
  . exact hgroup (by simp [hlength]) fun d hd => List.mem_of_mem_drop hd

end Store
end Api

namespace Bench

open Api Store Digits

section

variable {hi lo hi' lo' : UInt64}

def run_id_digits (hi lo : UInt64) : List Nat :=
  fixed 16 16 (run_id_bits hi lo).1.toNat ++ fixed 16 16 (run_id_bits hi lo).2.toNat

theorem uuidGroups_run_id
    : uuidGroups (run_id_digits hi lo) = [
        fixed 16 8 ((run_id_bits hi lo).1.toNat / 16 ^ 8),
        fixed 16 4 ((run_id_bits hi lo).1.toNat / 16 ^ 4),
        fixed 16 4 (run_id_bits hi lo).1.toNat,
        fixed 16 4 ((run_id_bits hi lo).2.toNat / 16 ^ 12),
        fixed 16 12 (run_id_bits hi lo).2.toNat] := by
  have hdigits : run_id_digits hi lo
      = fixed 16 8 ((run_id_bits hi lo).1.toNat / 16 ^ 8) ++ (fixed 16 4 ((run_id_bits hi lo).1.toNat / 16 ^ 4)
        ++ (fixed 16 4 (run_id_bits hi lo).1.toNat ++ (fixed 16 4 ((run_id_bits hi lo).2.toNat / 16 ^ 12)
          ++ fixed 16 12 (run_id_bits hi lo).2.toNat))) := by
    unfold run_id_digits
    rw [fixed_append 4 12, ← List.append_assoc (fixed 16 4 _) (fixed 16 4 _), fixed_append 4 4,
      ← List.append_assoc, fixed_append 8 8]
  rw [hdigits]
  exact uuidGroups_append length_fixed length_fixed length_fixed length_fixed

theorem toList_new_run_id : (new_run_id hi lo).toList = hyphenated (uuidGroups (run_id_digits hi lo)) := by
  have hhex : ∀ {w n : Nat}, n < 16 ^ (w + 1) → padded 16 (w + 1) n = (fixed 16 (w + 1) n).map Nat.digitChar :=
    fun hn => padded_eq (by decide) hn
  unfold new_run_id
  rw [uuidGroups_run_id, String.toList_ofList]
  generalize (run_id_bits hi lo) = bits
  obtain ⟨H, L⟩ := bits
  have hH := H.toNat_lt
  have hL := L.toNat_lt
  have h₁ : (H >>> 32).toNat = H.toNat / 16 ^ 8 := by
    rw [UInt64.toNat_shiftRight, Nat.shiftRight_eq_div_pow]
    rfl
  have h₂ : (H >>> 16 &&& 0xFFFF).toNat = H.toNat / 16 ^ 4 % 16 ^ 4 := by
    rw [UInt64.toNat_and, UInt64.toNat_shiftRight, Nat.shiftRight_eq_div_pow]
    exact Nat.and_two_pow_sub_one_eq_mod _ 16
  have h₃ : (H &&& 0xFFFF).toNat = H.toNat % 16 ^ 4 := by
    rw [UInt64.toNat_and]
    exact Nat.and_two_pow_sub_one_eq_mod _ 16
  have h₄ : (L >>> 48).toNat = L.toNat / 16 ^ 12 := by
    rw [UInt64.toNat_shiftRight, Nat.shiftRight_eq_div_pow]
    rfl
  have h₅ : (L &&& 0xFFFFFFFFFFFF).toNat = L.toNat % 16 ^ 12 := by
    rw [UInt64.toNat_and]
    exact Nat.and_two_pow_sub_one_eq_mod _ 48
  dsimp only
  rw [h₁, h₂, h₃, h₄, h₅, hhex (by omega), hhex (Nat.mod_lt _ (by decide)), hhex (Nat.mod_lt _ (by decide)),
    hhex (by omega), hhex (Nat.mod_lt _ (by decide)), fixed_mod, fixed_mod, fixed_mod]
  simp [hyphenated]

theorem run_id_hi : (run_id_bits hi lo).1.toNat = (hi &&& random_bits.1).toNat ||| 0x4000 :=
  UInt64.toNat_or _ _

theorem run_id_lo : (run_id_bits hi lo).2.toNat = (lo &&& random_bits.2).toNat ||| 0x8000000000000000 :=
  UInt64.toNat_or _ _

theorem uuidText_run_id : UuidText (run_id_digits hi lo) := by
  have hhi := (run_id_bits hi lo).1.toNat_lt
  constructor
  . unfold run_id_digits
    rw [List.length_append, length_fixed, length_fixed]
  . intro d hd
    obtain hd | hd := List.mem_append.mp hd
    . exact lt_of_mem_fixed (by decide) hd
    . exact lt_of_mem_fixed (by decide) hd
  . refine ⟨4, ?_, by decide⟩
    unfold run_id_digits
    rw [List.getElem?_append_left (by rw [length_fixed]; decide), getElem?_fixed (by decide), run_id_hi,
      UInt64.toNat_and]
    congr 1
    change ((_ &&& 0xFFFFFFFFFFFF0FFF) ||| 0x4000) / 2 ^ 12 % 2 ^ 4 = 4
    rw [Nat.or_div_two_pow, Nat.and_div_two_pow, Nat.or_mod_two_pow, Nat.and_mod_two_pow]
    exact congrArg (· ||| 4) (Nat.and_zero _)
  . have hlow : lo.toNat / 2 ^ 60 % 2 ^ 4 &&& 3 < 4 := Nat.lt_succ_of_le Nat.and_le_right
    refine ⟨(lo.toNat / 2 ^ 60 % 2 ^ 4 &&& 3) ||| 8, ?_, ?_⟩
    . unfold run_id_digits
      rw [List.getElem?_append_right (by rw [length_fixed]), length_fixed, getElem?_fixed (by decide),
        run_id_lo, UInt64.toNat_and]
      congr 1
      change ((_ &&& 0x3FFFFFFFFFFFFFFF) ||| 0x8000000000000000) / 2 ^ 60 % 2 ^ 4 = _
      rw [Nat.or_div_two_pow, Nat.and_div_two_pow, Nat.or_mod_two_pow, Nat.and_mod_two_pow]
    . generalize lo.toNat / 2 ^ 60 % 2 ^ 4 &&& 3 = x at hlow
      revert x
      decide

theorem uuidRe_new_run_id : Model.uuidRe (new_run_id hi lo) = true :=
  uuidRe_of_hyphenated uuidText_run_id toList_new_run_id

theorem run_id_bits_inj : run_id_bits hi lo = run_id_bits hi' lo'
    ↔ hi &&& random_bits.1 = hi' &&& random_bits.1 ∧ lo &&& random_bits.2 = lo' &&& random_bits.2 := by
  have hmasked : ∀ x m k : UInt64, k &&& m = 0 → (x &&& m ||| k) &&& m = x &&& m := by
    intro x m k hk
    have hsplit : (x &&& m ||| k) &&& m = (x &&& m) &&& m ||| k &&& m :=
      UInt64.toBitVec_inj.mp BitVec.and_or_distrib_right
    rw [hsplit, hk, UInt64.and_assoc, UInt64.and_self, UInt64.or_zero]
  constructor
  . intro h
    have hhi := congrArg (·.1 &&& random_bits.1) h
    have hlo := congrArg (·.2 &&& random_bits.2) h
    dsimp only [run_id_bits] at hhi hlo
    rw [hmasked _ _ _ (by decide), hmasked _ _ _ (by decide)] at hhi hlo
    exact ⟨hhi, hlo⟩
  . rintro ⟨hhi, hlo⟩
    unfold run_id_bits
    rw [hhi, hlo]

end

/--
Every id of the engine is let through, and the server and the driver, which read canonical text, take the runs of two
ids for the same one only if all 122 random bits are the same.
-/
theorem run_id_stored (server driver : String → Option Uuid) (hserver : ReadsCanonical server)
    (hdriver : ReadsCanonical driver) (hi lo : UInt64)
    : Model.uuidRe (new_run_id hi lo) = true
      ∧ ∃ u, server (new_run_id hi lo) = some u ∧ driver (new_run_id hi lo) = some u
        ∧ ∀ hi' lo', server (new_run_id hi' lo') = some u
          ↔ hi' &&& random_bits.1 = hi &&& random_bits.1 ∧ lo' &&& random_bits.2 = lo &&& random_bits.2 := by
  have hread : ∀ {read : String → Option Uuid}, ReadsCanonical read → ∀ hi lo,
      read (new_run_id hi lo) = some ⟨run_id_digits hi lo, uuidText_run_id.length⟩ :=
    fun hcanonical hi lo => hcanonical _ _ _ uuidText_run_id.digits toList_new_run_id
  refine ⟨uuidRe_new_run_id, _, hread hserver hi lo, hread hdriver hi lo, ?_⟩
  intro hi' lo'
  rw [hread hserver hi' lo', ← run_id_bits_inj]
  refine uuid_eq_iff.trans ?_
  constructor
  . intro h
    unfold run_id_digits at h
    obtain ⟨hhi, hlo⟩ := List.append_inj h (by rw [length_fixed, length_fixed])
    have hlt : ∀ x : UInt64, x.toNat < 16 ^ 16 := fun x => x.toNat_lt
    exact Prod.ext (UInt64.toNat_inj.mp ((fixed_inj (hlt _) (hlt _)).mp hhi))
      (UInt64.toNat_inj.mp ((fixed_inj (hlt _) (hlt _)).mp hlo))
  . intro h
    unfold run_id_digits
    rw [h]

theorem run_id_stored_zero
    : ∃ u, parseUuid (new_run_id 0 0) = some u ∧ parseUuidBinary (new_run_id 0 0) = some u := by
  obtain ⟨-, u, hserver, hdriver, -⟩ :=
    run_id_stored parseUuid parseUuidBinary readsCanonical_parseUuid readsCanonical_parseUuidBinary 0 0
  exact ⟨u, hserver, hdriver⟩

end Bench
