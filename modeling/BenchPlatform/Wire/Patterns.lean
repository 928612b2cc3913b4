import BenchPlatform.Api.Model.Timestamp
import BenchPlatform.Engine.Validate

/-!
This module proves that the engine and the API mean the same by their patterns: run ids, machine ids and
timestamps.
-/

namespace Api
namespace Model

section

variable {classes classes' : List (Char → Bool)} {p : Char → Bool} {cs : List Char} {n : Nat}

theorem matchClasses_cons
    : matchClasses (p :: classes) cs = true ↔ ∃ c rest, cs = c :: rest ∧ p c = true ∧ matchClasses classes rest := by
  cases cs with
  | nil => simp [matchClasses]
  | cons c rest => simp [matchClasses]

theorem matchClasses_append
    : matchClasses (classes ++ classes') cs = true
      ↔ ∃ l l', cs = l ++ l' ∧ matchClasses classes l ∧ matchClasses classes' l' := by
  induction classes generalizing cs with
  | nil =>
    constructor
    . intro h
      exact ⟨[], cs, rfl, rfl, h⟩
    . rintro ⟨l, l', rfl, hl, hl'⟩
      cases l with
      | nil => exact hl'
      | cons c l => cases hl
  | cons p classes ih =>
    rw [List.cons_append, matchClasses_cons]
    constructor
    . rintro ⟨c, rest, rfl, hp, hrest⟩
      obtain ⟨l, l', rfl, hl, hl'⟩ := ih.mp hrest
      exact ⟨c :: l, l', rfl, matchClasses_cons.mpr ⟨c, l, rfl, hp, hl⟩, hl'⟩
    . rintro ⟨l, l', rfl, hl, hl'⟩
      obtain ⟨c, rest, rfl, hp, hrest⟩ := matchClasses_cons.mp hl
      exact ⟨c, rest ++ l', rfl, hp, ih.mpr ⟨rest, l', rfl, hrest, hl'⟩⟩

theorem matchClasses_replicate
    : matchClasses (.replicate n p) cs = true ↔ cs.length = n ∧ ∀ c ∈ cs, p c = true := by
  induction n generalizing cs with
  | zero => cases cs <;> simp [matchClasses]
  | succ n ih =>
    rw [List.replicate_succ, matchClasses_cons]
    simp only [ih]
    cases cs with
    | nil => simp
    | cons c cs => simp [and_left_comm]

end

end Model
end Api

namespace Bench

open Api.Model Validate

theorem all_match_eq (classes : List (Char → Bool)) (s : List Char)
    : all_match classes s = matchClasses classes s := by
  induction classes generalizing s with
  | nil => cases s <;> rfl
  | cons c classes ih =>
    cases s with
    | nil => rfl
    | cons x s =>
      rw [matchClasses, ← ih s]
      unfold all_match
      rw [List.length_cons, List.length_cons, List.zip_cons_cons, List.all_cons, Bool.beq_eq_decide_eq,
        Bool.beq_eq_decide_eq]
      simp [Bool.and_left_comm]

theorem digit_eq : digit = isDigit := by
  funext c
  simp [digit, isDigit, Bool.decide_and]

theorem hex_eq : hex = isLowerHex := by
  funext c
  simp [hex, isLowerHex, isDigit, Bool.decide_and]

theorem kMachineId_eq (s : String) : kMachineId s = machineIDRe s := by
  unfold kMachineId machineIDRe
  rw [all_match_eq, hex_eq]

theorem kUuid_eq (s : String) : kUuid s = uuidRe s := by
  have hvariant : (fun c : Char => c == '8' || c == '9' || c == 'a' || c == 'b')
      = fun c => ['8', '9', 'a', 'b'].contains c := by
    funext c
    rw [Bool.eq_iff_iff]
    simp [or_assoc]
  have hversion : (fun c : Char => decide ('1' ≤ c) && decide (c ≤ '8'))
      = fun c => decide ('1' ≤ c ∧ c ≤ '8') := by
    funext c
    rw [Bool.decide_and]
  unfold kUuid uuidRe
  rw [all_match_eq, hex_eq, hvariant, hversion]

theorem fraction_iff (cs : List Char)
    : (2 ≤ cs.length && cs.length ≤ 10 && cs.dropLast.all isDigit && cs.getLast? == some 'Z')
      = decide (1 ≤ (cs.takeWhile isDigit).length ∧ (cs.takeWhile isDigit).length ≤ 9
        ∧ cs.dropWhile isDigit = ['Z']) := by
  rw [Bool.eq_iff_iff]
  simp only [Bool.and_eq_true, decide_eq_true_eq, beq_iff_eq]
  constructor
  . rintro ⟨⟨⟨hmin, hmax⟩, hdigits⟩, hlast⟩
    have hne : cs ≠ [] := by
      rintro rfl
      cases hlast
    rw [List.getLast?_eq_some_getLast hne, Option.some.injEq] at hlast
    have hsplit : cs.dropLast ++ ['Z'] = cs := by
      rw [← hlast]
      exact List.dropLast_append_getLast hne
    have hall : ∀ c ∈ cs.dropLast, isDigit c = true := List.all_eq_true.mp hdigits
    have htake : (cs.dropLast ++ ['Z']).takeWhile isDigit = cs.dropLast := by
      rw [List.takeWhile_append_of_pos hall]
      exact List.append_nil _
    have hdrop : (cs.dropLast ++ ['Z']).dropWhile isDigit = ['Z'] := by
      rw [List.dropWhile_append_of_pos hall]
      rfl
    rw [hsplit] at htake hdrop
    rw [htake, hdrop, List.length_dropLast]
    exact ⟨by omega, by omega, rfl⟩
  . rintro ⟨hmin, hmax, hrest⟩
    have hsplit := List.takeWhile_append_dropWhile (p := isDigit) (l := cs)
    rw [hrest] at hsplit
    have hlength := congrArg List.length hsplit
    rw [List.length_append, List.length_singleton] at hlength
    refine ⟨⟨⟨by omega, by omega⟩, ?_⟩, ?_⟩
    . rw [← hsplit, List.dropLast_concat]
      exact List.all_takeWhile
    . rw [← hsplit, List.getLast?_concat]

theorem kTimestamp_eq (s : String) : kTimestamp s = timestampRe s := by
  unfold kTimestamp timestampRe
  dsimp only
  rw [all_match_eq, digit_eq]
  congr 1
  generalize s.toList.drop 19 = cs
  split
  . rfl
  . exact fraction_iff _
  . rename_i hz hdot
    unfold fractionRe
    split
    . exact absurd rfl hz
    . exact absurd rfl (hdot _)
    . rfl

end Bench
