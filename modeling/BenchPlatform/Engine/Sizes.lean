import BenchPlatform.Engine.Cli
import Mathlib.Data.List.TakeWhile

/-!
This module contains which sizes are read exactly from the command line: a number with a suffix is read
as that many bytes as long as they can be counted in 64 bits.
-/

namespace Bench

/--
What a suffix stands for. Its case does not matter.
-/
def multiplier (suffix : List Char) : Option Nat :=
  let upper := String.ofList (suffix.map Char.toUpper)
  if upper ∈ ["", "B"] then some 1
  else if upper ∈ ["K", "KB", "KIB"] then some (2 ^ 10)
  else if upper ∈ ["M", "MB", "MIB"] then some (2 ^ 20)
  else if upper ∈ ["G", "GB", "GIB"] then some (2 ^ 30)
  else none

/--
The text is the decimal number `n` with a suffix that stands for `m`.
-/
def SizeText (s : String) (n m : Nat) : Prop :=
  ∃ digits suffix, s.toList = digits ++ suffix ∧ digits ≠ [] ∧ (∀ c ∈ digits, c.isDigit = true)
    ∧ n = decimal digits ∧ multiplier suffix = some m

/--
The text is read as what it says, or is refused.
-/
structure ReadExactly (s : String) : Prop where
  accepted : ∀ v, parse_size s = .ok v → ∃ n m, SizeText s n m
  value : ∀ n m v, SizeText s n m → parse_size s = .ok v → v = n * m
  too_large : ∀ n m, SizeText s n m → 2 ^ 64 ≤ n * m → ∃ e, parse_size s = .error e
  nonzero : ∀ n m, SizeText s n m → n * m ≠ 0 → parse_size s ≠ .ok 0

theorem toUpper_of_isDigit {c : Char} (h : c.isDigit = true) : c.toUpper = c := by
  unfold Char.toUpper
  rw [dif_neg]
  intro hlower
  simp only [Char.isDigit, Bool.and_eq_true, decide_eq_true_eq] at h
  have hle := UInt32.le_iff_toNat_le.mp h.2
  have hlower := UInt32.le_iff_toNat_le.mp hlower.1
  simp at hle hlower
  omega

theorem not_isDigit_of_multiplier {suffix : List Char} {m : Nat} (h : multiplier suffix = some m)
    : ∀ c ∈ suffix, c.isDigit = false := by
  have hupper : String.ofList (suffix.map Char.toUpper)
      ∈ ["", "B", "K", "KB", "KIB", "M", "MB", "MIB", "G", "GB", "GIB"] := by
    unfold multiplier at h
    dsimp only at h
    generalize String.ofList _ = upper at h ⊢
    by_contra hnot
    simp only [List.mem_cons, List.not_mem_nil, or_false, not_or] at h hnot
    simp [hnot] at h
  have hletters : ∀ t ∈ ["", "B", "K", "KB", "KIB", "M", "MB", "MIB", "G", "GB", "GIB"],
      ∀ c ∈ t.toList, c.isDigit = false := by simp
  have hupper := hletters _ hupper
  rw [String.toList_ofList] at hupper
  intro c hc
  by_contra hdigit
  have hdigit := eq_true_of_ne_false hdigit
  have hsame := hupper c.toUpper (List.mem_map_of_mem hc)
  rw [toUpper_of_isDigit hdigit, hdigit] at hsame
  cases hsame

theorem takeWhile_of_sizeText {digits suffix : List Char} {m : Nat} (hdigits : ∀ c ∈ digits, c.isDigit = true)
    (h : multiplier suffix = some m)
    : (digits ++ suffix).takeWhile Char.isDigit = digits ∧ (digits ++ suffix).dropWhile Char.isDigit = suffix := by
  have hsuffix := not_isDigit_of_multiplier h
  rw [List.takeWhile_append_of_pos hdigits, List.dropWhile_append_of_pos hdigits]
  cases suffix with
  | nil => exact ⟨List.append_nil _, rfl⟩
  | cons c suffix =>
    have hc := hsuffix c List.mem_cons_self
    rw [List.takeWhile_cons_of_neg (by simp [hc]), List.dropWhile_cons_of_neg (by simp [hc])]
    exact ⟨List.append_nil _, rfl⟩

theorem parse_size_of_sizeText {s : String} {n m : Nat} (h : SizeText s n m)
    : parse_size s
      = if n < 2 ^ 64 then .ok (n * m % 2 ^ 64) else .error (.validation "size" ("not a number: " ++ s)) := by
  obtain ⟨digits, suffix, hs, hne, hdigits, rfl, hm⟩ := h
  have hsplit := takeWhile_of_sizeText hdigits hm
  unfold parse_size
  rw [hs, hsplit.1, hsplit.2]
  dsimp only
  by_cases hlt : decimal digits < 2 ^ 64
  . rw [if_pos hlt, if_neg (not_or.mpr ⟨hne, not_le.mpr hlt⟩)]
    unfold multiplier at hm
    dsimp only at hm
    generalize String.ofList _ = upper at hm ⊢
    simp only [List.mem_cons, List.not_mem_nil, or_false] at hm
    split at hm
    . rename_i hb
      rw [if_pos hb]
      obtain rfl := Option.some.inj hm
      rw [Nat.mul_one, Nat.mod_eq_of_lt hlt]
      rfl
    . rename_i hb
      rw [if_neg hb]
      split at hm
      . rename_i hk
        rw [if_pos hk, ← Option.some.inj hm]
        rfl
      . rename_i hk
        rw [if_neg hk]
        split at hm
        . rename_i hmega
          rw [if_pos hmega, ← Option.some.inj hm]
          rfl
        . rename_i hmega
          rw [if_neg hmega]
          split at hm
          . rename_i hgiga
            rw [if_pos hgiga, ← Option.some.inj hm]
            rfl
          . cases hm
  . rw [if_neg hlt, if_pos (.inr (not_lt.mp hlt))]
    rfl

theorem sizeText_of_parse_size {s : String} {v : Nat} (h : parse_size s = .ok v) : ∃ n m, SizeText s n m := by
  unfold parse_size at h
  dsimp only at h
  split at h
  . cases h
  . rename_i hnumber
    have hm : ∃ m, multiplier (s.toList.dropWhile Char.isDigit) = some m := by
      unfold multiplier
      dsimp only
      generalize String.ofList _ = upper at h ⊢
      simp only [List.mem_cons, List.not_mem_nil, or_false]
      split at h
      . rename_i hb
        exact ⟨_, if_pos hb⟩
      . rename_i hb
        rw [if_neg hb]
        split at h
        . rename_i hk
          exact ⟨_, if_pos hk⟩
        . rename_i hk
          rw [if_neg hk]
          split at h
          . rename_i hmega
            exact ⟨_, if_pos hmega⟩
          . rename_i hmega
            rw [if_neg hmega]
            split at h
            . rename_i hgiga
              exact ⟨_, if_pos hgiga⟩
            . cases h
    obtain ⟨m, hm⟩ := hm
    refine ⟨_, m, _, _, (List.takeWhile_append_dropWhile).symm, fun hnil => hnumber (.inl hnil), ?_, rfl, hm⟩
    exact fun c hc => List.mem_takeWhile_imp hc

/--
A text is read exactly if its number is too large by itself, or if it can still be counted in 64 bits with its
suffix.
-/
theorem readExactly_iff (s : String)
    : ReadExactly s ↔ ∀ n m, SizeText s n m → n < 2 ^ 64 → n * m < 2 ^ 64 := by
  constructor
  . intro h n m hs hn
    by_contra hlarge
    obtain ⟨e, he⟩ := h.too_large n m hs (not_lt.mp hlarge)
    rw [parse_size_of_sizeText hs, if_pos hn] at he
    cases he
  . intro h
    have hvalue : ∀ n m v, SizeText s n m → parse_size s = .ok v → v = n * m := by
      intro n m v hs hv
      rw [parse_size_of_sizeText hs] at hv
      split at hv
      . rename_i hn
        rw [← Except.ok.inj hv, Nat.mod_eq_of_lt (h n m hs hn)]
      . cases hv
    constructor
    . exact fun v hv => sizeText_of_parse_size hv
    . exact hvalue
    . intro n m hs hlarge
      rw [parse_size_of_sizeText hs, if_neg]
      . exact ⟨_, rfl⟩
      . exact fun hn => not_lt.mpr hlarge (h n m hs hn)
    . intro n m hs hne hzero
      exact hne (hvalue n m 0 hs hzero).symm

/--
Sixteen exbibytes are read as nothing.
-/
theorem not_readExactly : ¬ReadExactly "17179869184G" := by
  intro h
  have hs : SizeText "17179869184G" (2 ^ 34) (2 ^ 30) :=
    ⟨"17179869184".toList, ['G'], by simp, by simp, by simp, by decide +kernel, by decide +kernel⟩
  exact h.nonzero _ _ hs (by decide) (by decide +kernel)

example : parse_size "64Mib" = .ok (64 * 2 ^ 20) := by decide +kernel

end Bench
