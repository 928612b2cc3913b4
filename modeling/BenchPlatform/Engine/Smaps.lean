import BenchPlatform.Lib.Delimited
import BenchPlatform.Lib.Text
import Mathlib.Algebra.Ring.Nat

/-!
This module contains how the engine finds out how much of a buffer is backed by huge pages: it looks for the mapping
of an address in `/proc/self/smaps`.
-/

namespace Bench

open Text

def lstrip (s : List Char) : List Char :=
  s.dropWhile fun c => c = ' ' || c = '\t'

def smaps_header (line : List Char) : Option (Nat × Nat) :=
  match fromChars 16 (2 ^ 64) line with
  | some (lo, '-' :: rest) => (fromChars 16 (2 ^ 64) rest).map fun (hi, _) => (lo, hi)
  | _ => none

def smaps_scan (target : Nat) : Bool → List (List Char) → Nat
  | _, [] => 0
  | in_mapping, line :: ls =>
    match smaps_header line with
    | some (lo, hi) => smaps_scan target (lo ≤ target && target < hi) ls
    | none =>
      if in_mapping && "AnonHugePages:".toList.isPrefixOf line then
        match fromChars 10 (2 ^ 64) (lstrip (line.drop 14)) with
        | some (kb, _) => kb * 2 ^ 10 % 2 ^ 64
        | none => 0
      else
        smaps_scan target in_mapping ls

def smaps_anon_huge_bytes (smaps : Option (List Char)) (addr : Nat) : Nat :=
  match smaps with
  | none => 0
  | some text => smaps_scan addr false (lines text)

structure SmapsField where
  name : List Char
  rest : List Char
  plain : ∀ c ∈ name, c.isAlphanum = true ∨ c = '_'
  one_line : '\n' ∉ rest

def SmapsField.text (f : SmapsField) : List Char :=
  f.name ++ ':' :: f.rest

/--
The line with the huge pages of a mapping. The kernel counts their bytes in 64 bits.
-/
structure HugePages where
  gap : List Char
  kb : Nat
  blank : ∀ c ∈ gap, c = ' ' ∨ c = '\t'
  fits : 1024 * kb < 2 ^ 64

def HugePages.text (h : HugePages) : List Char :=
  "AnonHugePages".toList ++ ':' :: (h.gap ++ (Nat.toDigits 10 h.kb ++ " kB".toList))

/--
A mapping: its header and its fields, of which one may be about huge pages. What comes after the range in the header
does not begin with a digit.
-/
structure Mapping where
  start : List Char
  finish : List Char
  rest : List Char
  before : List SmapsField
  huge : Option HugePages
  after : List SmapsField
  start_hex : start ≠ [] ∧ (∀ c ∈ start, isDigit 16 c = true) ∧ value 16 start < 2 ^ 64
  finish_hex : finish ≠ [] ∧ (∀ c ∈ finish, isDigit 16 c = true) ∧ value 16 finish < 2 ^ 64
  rest_ends : Ends 16 rest
  one_line : '\n' ∉ rest
  others : ∀ f ∈ before ++ after, f.name ≠ "AnonHugePages".toList

namespace Mapping

def header (m : Mapping) : List Char :=
  m.start ++ '-' :: (m.finish ++ m.rest)

def lines (m : Mapping) : List (List Char) :=
  m.header :: (m.before.map SmapsField.text ++ (m.huge.toList.map HugePages.text ++ m.after.map SmapsField.text))

def contains (m : Mapping) (addr : Nat) : Bool :=
  value 16 m.start ≤ addr && addr < value 16 m.finish

end Mapping

structure Smaps where
  maps : List Mapping
  disjoint : maps.Pairwise fun m m' => ∀ addr, m.contains addr = true → m'.contains addr = false

def Smaps.text (d : Smaps) : List Char :=
  (d.maps.flatMap Mapping.lines).flatMap (· ++ ['\n'])

section

variable {addr : Nat} {in_mapping : Bool} {ls : List (List Char)}

theorem head_dropWhile_digits {name rest : List Char} (hdash : '-' ∉ name)
    : ∀ c ∈ ((name ++ ':' :: rest).dropWhile (isDigit 16)).head?, c ≠ '-' := by
  induction name with
  | nil =>
    have hcolon : isDigit 16 ':' ≠ true := by decide
    rw [List.nil_append, List.dropWhile_cons_of_neg hcolon]
    rintro c ⟨⟩
    decide
  | cons a name ih =>
    rw [List.mem_cons, not_or] at hdash
    rw [List.cons_append]
    by_cases ha : isDigit 16 a = true
    . rw [List.dropWhile_cons_of_pos ha]
      exact ih hdash.2
    . rw [List.dropWhile_cons_of_neg ha]
      rintro c ⟨⟩
      exact Ne.symm hdash.1

theorem smaps_header_none {line : List Char} (h : ∀ c ∈ (line.dropWhile (isDigit 16)).head?, c ≠ '-')
    : smaps_header line = none := by
  unfold smaps_header
  split
  next lo rest hnumber =>
    have hrest : line.dropWhile (isDigit 16) = '-' :: rest := fromChars_rest hnumber
    rw [hrest] at h
    exact absurd rfl (h '-' rfl)
  next => rfl

theorem SmapsField.not_mem_name (f : SmapsField) {c : Char} (hplain : ¬(c.isAlphanum = true ∨ c = '_'))
    : c ∉ f.name :=
  fun hmem => hplain (f.plain c hmem)

theorem smaps_header_field (f : SmapsField) : smaps_header f.text = none :=
  smaps_header_none (head_dropWhile_digits (f.not_mem_name (by decide)))

theorem smaps_header_huge (h : HugePages) : smaps_header h.text = none :=
  smaps_header_none (head_dropWhile_digits (by decide))

theorem smaps_header_mapping (m : Mapping) : smaps_header m.header = some (value 16 m.start, value 16 m.finish) := by
  have hdash : Ends 16 ('-' :: (m.finish ++ m.rest)) := by
    rintro c ⟨⟩
    decide
  have hstart := fromChars_append m.start_hex.2.1 hdash m.start_hex.1 m.start_hex.2.2
  have hfinish := fromChars_append m.finish_hex.2.1 m.rest_ends m.finish_hex.1 m.finish_hex.2.2
  unfold smaps_header Mapping.header
  rw [hstart]
  exact congrArg (Option.map fun hi => (value 16 m.start, hi.1)) hfinish

theorem isPrefixOf_field {f : SmapsField} (h : f.name ≠ "AnonHugePages".toList)
    : "AnonHugePages:".toList.isPrefixOf f.text = false := by
  have hsplit : "AnonHugePages:".toList = "AnonHugePages".toList ++ [':'] := by decide
  rw [Bool.eq_false_iff]
  intro hstarts
  rw [List.isPrefixOf_iff_prefix, hsplit] at hstarts
  obtain ⟨post, hpost⟩ := hstarts
  rw [List.append_assoc, List.singleton_append] at hpost
  obtain ⟨hname, _⟩ := Delimited.append_cons_inj (by decide) (f.not_mem_name (by decide)) hpost
  exact h hname.symm

theorem fromChars_huge (h : HugePages)
    : fromChars 10 (2 ^ 64) (lstrip (h.text.drop 14)) = some (h.kb, " kB".toList) := by
  have hdrop : h.text.drop 14 = h.gap ++ (Nat.toDigits 10 h.kb ++ " kB".toList) := rfl
  have hends : Ends 10 " kB".toList := by
    rintro c ⟨⟩
    decide
  have hblank : ∀ c ∈ h.gap, decide (c = ' ' ∨ c = '\t') = true := fun c hc => decide_eq_true (h.blank c hc)
  have hsolid : ∀ c ∈ (Nat.toDigits 10 h.kb ++ " kB".toList).head?, decide (c = ' ' ∨ c = '\t') = false := by
    rw [List.head?_append_of_ne_nil _ Nat.toDigits_ne_nil]
    intro c hc
    have hdigit := isDigit_toDigits c (List.mem_of_mem_head? hc)
    rw [decide_eq_false_iff_not]
    rintro (rfl | rfl) <;> revert hdigit <;> decide
  have hstrip : lstrip (h.text.drop 14) = Nat.toDigits 10 h.kb ++ " kB".toList := by
    rw [hdrop]
    unfold lstrip
    simp only [← Bool.decide_or]
    exact dropWhile_blanks hblank hsolid
  have hfits : value 10 (Nat.toDigits 10 h.kb) < 2 ^ 64 := by
    rw [value_toDigits]
    have := h.fits
    omega
  rw [hstrip, fromChars_append isDigit_toDigits hends Nat.toDigits_ne_nil hfits, value_toDigits]

section Scan

/-!
What one line does to the scan.
-/

theorem smaps_scan_header (m : Mapping)
    : smaps_scan addr in_mapping (m.header :: ls) = smaps_scan addr (m.contains addr) ls := by
  rw [smaps_scan, smaps_header_mapping]
  rfl

theorem smaps_scan_field {f : SmapsField} (h : f.name ≠ "AnonHugePages".toList)
    : smaps_scan addr in_mapping (f.text :: ls) = smaps_scan addr in_mapping ls := by
  rw [smaps_scan, smaps_header_field]
  dsimp only
  rw [isPrefixOf_field h, Bool.and_false]
  exact if_neg Bool.false_ne_true

theorem smaps_scan_huge (h : HugePages)
    : smaps_scan addr in_mapping (h.text :: ls) =
      if in_mapping = true then 1024 * h.kb else smaps_scan addr in_mapping ls := by
  have hstarts : "AnonHugePages:".toList.isPrefixOf h.text = true := rfl
  have hkb : h.kb * 2 ^ 10 % 2 ^ 64 = 1024 * h.kb := by
    have hfits := h.fits
    omega
  rw [smaps_scan, smaps_header_huge]
  dsimp only
  rw [hstarts, fromChars_huge, Bool.and_true]
  dsimp only
  rw [hkb]

theorem smaps_scan_fields {fs : List SmapsField} (h : ∀ f ∈ fs, f.name ≠ "AnonHugePages".toList)
    : smaps_scan addr in_mapping (fs.map SmapsField.text ++ ls) = smaps_scan addr in_mapping ls := by
  induction fs with
  | nil => rfl
  | cons f fs ih =>
    rw [List.forall_mem_cons] at h
    rw [List.map_cons, List.cons_append, smaps_scan_field h.1, ih h.2]

theorem smaps_scan_outside {m : Mapping} (h : m.contains addr = false)
    : smaps_scan addr in_mapping (m.lines ++ ls) = smaps_scan addr false ls := by
  have hbefore : ∀ f ∈ m.before, f.name ≠ "AnonHugePages".toList :=
    fun f hf => m.others f (List.mem_append_left _ hf)
  have hafter : ∀ f ∈ m.after, f.name ≠ "AnonHugePages".toList :=
    fun f hf => m.others f (List.mem_append_right _ hf)
  unfold Mapping.lines
  rw [List.cons_append, smaps_scan_header, h, List.append_assoc, smaps_scan_fields hbefore, List.append_assoc]
  cases m.huge with
  | none => exact smaps_scan_fields hafter
  | some huge =>
    rw [Option.toList_some, List.map_singleton, List.singleton_append, smaps_scan_huge, if_neg Bool.false_ne_true]
    exact smaps_scan_fields hafter

theorem smaps_scan_inside {m : Mapping} (h : m.contains addr = true)
    : smaps_scan addr in_mapping (m.lines ++ ls) = m.huge.elim (smaps_scan addr true ls) (1024 * ·.kb) := by
  have hbefore : ∀ f ∈ m.before, f.name ≠ "AnonHugePages".toList :=
    fun f hf => m.others f (List.mem_append_left _ hf)
  have hafter : ∀ f ∈ m.after, f.name ≠ "AnonHugePages".toList :=
    fun f hf => m.others f (List.mem_append_right _ hf)
  unfold Mapping.lines
  rw [List.cons_append, smaps_scan_header, h, List.append_assoc, smaps_scan_fields hbefore, List.append_assoc]
  cases m.huge with
  | none => exact smaps_scan_fields hafter
  | some huge =>
    rw [Option.toList_some, List.map_singleton, List.singleton_append, smaps_scan_huge, if_pos rfl]
    rfl

theorem smaps_scan_nowhere {maps : List Mapping} (h : ∀ m ∈ maps, m.contains addr = false)
    : smaps_scan addr in_mapping (maps.flatMap Mapping.lines) = 0 := by
  induction maps generalizing in_mapping with
  | nil => rfl
  | cons m maps ih =>
    rw [List.forall_mem_cons] at h
    rw [List.flatMap_cons, smaps_scan_outside h.1, ih h.2]

theorem smaps_scan_maps {maps : List Mapping}
    (hdisjoint : maps.Pairwise fun m m' => ∀ a, m.contains a = true → m'.contains a = false)
    : smaps_scan addr in_mapping (maps.flatMap Mapping.lines) =
      ((maps.find? (·.contains addr)).bind (·.huge)).elim 0 (1024 * ·.kb) := by
  induction maps generalizing in_mapping with
  | nil => rfl
  | cons m maps ih =>
    rw [List.pairwise_cons] at hdisjoint
    rw [List.flatMap_cons]
    cases hm : m.contains addr with
    | false => rw [smaps_scan_outside hm, ih hdisjoint.2, List.find?_cons_of_neg (by simp [hm])]
    | true =>
      have hothers : ∀ m' ∈ maps, m'.contains addr = false := fun m' hm' => hdisjoint.1 m' hm' addr hm
      have hfind : (m :: maps).find? (·.contains addr) = some m := List.find?_cons_of_pos hm
      rw [smaps_scan_inside hm, smaps_scan_nowhere hothers, hfind, Option.bind_some]

end Scan

section Lines

theorem newline_not_mem_digits {digits : List Char} (h : ∀ c ∈ digits, isDigit 16 c = true) : '\n' ∉ digits := by
  intro hmem
  have hdigit := h _ hmem
  revert hdigit
  decide

theorem SmapsField.newline_not_mem (f : SmapsField) : '\n' ∉ f.text := by
  unfold SmapsField.text
  rw [List.mem_append, List.mem_cons, not_or, not_or]
  exact ⟨f.not_mem_name (by decide), by decide, f.one_line⟩

theorem HugePages.newline_not_mem (h : HugePages) : '\n' ∉ h.text := by
  have hgap : '\n' ∉ h.gap := by
    intro hmem
    have hblank := h.blank _ hmem
    revert hblank
    decide
  have hdigits : '\n' ∉ Nat.toDigits 10 h.kb := by
    intro hmem
    have hdigit := isDigit_toDigits _ hmem
    revert hdigit
    decide
  have hname : '\n' ∉ "AnonHugePages".toList := by decide
  have hunit : '\n' ∉ " kB".toList := by decide
  unfold HugePages.text
  simp only [List.mem_append, List.mem_cons, not_or]
  exact ⟨hname, by decide, hgap, hdigits, hunit⟩

theorem Mapping.newline_not_mem (m : Mapping) : ∀ line ∈ m.lines, '\n' ∉ line := by
  have hheader : '\n' ∉ m.header := by
    unfold Mapping.header
    simp only [List.mem_append, List.mem_cons, not_or]
    exact ⟨newline_not_mem_digits m.start_hex.2.1, by decide, newline_not_mem_digits m.finish_hex.2.1, m.one_line⟩
  have hfields : ∀ fs : List SmapsField, ∀ line ∈ fs.map SmapsField.text, '\n' ∉ line := by
    intro fs
    exact List.forall_mem_map.mpr fun f _ => f.newline_not_mem
  have hhuge : ∀ line ∈ m.huge.toList.map HugePages.text, '\n' ∉ line :=
    List.forall_mem_map.mpr fun h _ => h.newline_not_mem
  exact List.forall_mem_cons.mpr ⟨hheader, List.forall_mem_append.mpr
    ⟨hfields m.before, List.forall_mem_append.mpr ⟨hhuge, hfields m.after⟩⟩⟩

theorem Smaps.lines_text (d : Smaps) : Text.lines d.text = d.maps.flatMap Mapping.lines := by
  have hlines : ∀ line ∈ d.maps.flatMap Mapping.lines, '\n' ∉ line := by
    intro line hline
    obtain ⟨m, _, hm⟩ := List.mem_flatMap.mp hline
    exact m.newline_not_mem line hm
  have hread := lines_terminated hlines (List.not_mem_nil (a := '\n'))
  rw [List.append_nil, if_pos rfl, List.append_nil] at hread
  exact hread

end Lines

/--
The huge pages of the mapping with the address are found, wherever it is in the file. No other line than a header is
taken for one.
-/
theorem smaps_anon_huge_bytes_mapping
    : (∀ (d : Smaps) (addr : Nat), smaps_anon_huge_bytes (some d.text) addr =
        ((d.maps.find? (·.contains addr)).bind (·.huge)).elim 0 (1024 * ·.kb)) ∧
      (∀ f : SmapsField, smaps_header f.text = none) ∧ ∀ h : HugePages, smaps_header h.text = none := by
  refine ⟨?_, smaps_header_field, smaps_header_huge⟩
  intro d addr
  unfold smaps_anon_huge_bytes
  dsimp only
  rw [d.lines_text, smaps_scan_maps d.disjoint]

def two_mappings : Smaps where
  maps := [
    { start := "400000".toList, finish := "600000".toList, rest := " r-xp 00000000 08:01 17  /usr/bin/bench".toList,
      before := [⟨"Size".toList, " 2048 kB".toList, List.forall_iff_forall_mem.mp (by decide), by decide⟩],
      huge := none, after := [],
      start_hex := ⟨by decide, List.forall_iff_forall_mem.mp (by decide), by decide⟩,
      finish_hex := ⟨by decide, List.forall_iff_forall_mem.mp (by decide), by decide⟩,
      rest_ends := fun _ hc => Option.some.inj hc ▸ rfl, one_line := by decide, others := by decide },
    { start := "600000".toList, finish := "A00000".toList, rest := " rw-p 00000000 00:00 0".toList,
      before := [⟨"Size".toList, " 4096 kB".toList, List.forall_iff_forall_mem.mp (by decide), by decide⟩],
      huge := some { gap := [' '], kb := 2048, blank := List.forall_iff_forall_mem.mp (by decide), fits := by decide },
      after := [⟨"VmFlags".toList, " rd wr mr".toList, List.forall_iff_forall_mem.mp (by decide), by decide⟩],
      start_hex := ⟨by decide, List.forall_iff_forall_mem.mp (by decide), by decide⟩,
      finish_hex := ⟨by decide, List.forall_iff_forall_mem.mp (by decide), by decide⟩,
      rest_ends := fun _ hc => Option.some.inj hc ▸ rfl, one_line := by decide, others := by decide }]
  disjoint := by
    refine List.pairwise_pair.mpr fun addr hcontains => ?_
    have hbefore : addr < value 16 "600000".toList := of_decide_eq_true (Bool.and_eq_true_iff.mp hcontains).2
    exact Bool.and_eq_false_iff.mpr (.inl (decide_eq_false (Nat.not_le.mpr hbefore)))

theorem smaps_anon_huge_bytes_mapping_second
    : smaps_anon_huge_bytes (some two_mappings.text) 0x600000 = 2097152
      ∧ smaps_anon_huge_bytes (some two_mappings.text) 0x5fffff = 0 :=
  ⟨(smaps_anon_huge_bytes_mapping.1 two_mappings _).trans (by decide),
    (smaps_anon_huge_bytes_mapping.1 two_mappings _).trans (by decide)⟩

end

end Bench
