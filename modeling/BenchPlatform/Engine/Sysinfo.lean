import BenchPlatform.Engine.Cli
import BenchPlatform.Lib.Text
import Mathlib.Data.Finset.Card
import Mathlib.Data.Int.Order.Basic

/-!
This module contains how the engine counts the processors and cores of a machine, and that it counts them right
however they are listed.
-/

namespace Bench

open Text

def isBlank (c : Char) : Bool :=
  c = ' ' || c = '\t' || c = '\r' || c = '\n'

def split_kv (line : List Char) : Option (List Char × List Char) :=
  (find line ':' 0).map fun c => (trim isBlank (line.take c), trim isBlank (line.drop (c + 1)))

structure CpuInfo where
  model : List Char
  physical_cores : Int32
  logical_cpus : Int32
  flags : List (List Char)
  deriving DecidableEq

/--
What is known after some lines: the cores of the blocks that are complete, and what the current block says.
-/
structure CpuScan where
  info : CpuInfo
  cores : Finset (Int × Int)
  phys : Int
  core : Int
  deriving DecidableEq

namespace CpuScan

def start : CpuScan where
  info := { model := [], physical_cores := 0, logical_cpus := 0, flags := [] }
  cores := ∅
  phys := 0
  core := -1

def flush_block (s : CpuScan) : CpuScan :=
  { s with cores := if 0 ≤ s.core then insert (s.phys, s.core) s.cores else s.cores, phys := 0, core := -1 }

def wordsOf (s : List Char) : List (List Char) :=
  (s.splitOnP isspace).filter (· ≠ [])

def scan_field (s : CpuScan) (key val : List Char) : Option CpuScan :=
  if key = "processor".toList then
    some { s with info := { s.info with logical_cpus := s.info.logical_cpus + 1 } }
  else if key = "physical id".toList then
    (stoi (String.ofList val)).map fun i => { s with phys := i }
  else if key = "core id".toList then
    (stoi (String.ofList val)).map fun i => { s with core := i }
  else if key = "model name".toList ∧ s.info.model = [] then
    some { s with info := { s.info with model := val } }
  else if key = "flags".toList ∧ s.info.flags = [] then
    some { s with info := { s.info with flags := wordsOf val } }
  else
    some s

def scan_line (s : CpuScan) (line : List Char) : Option CpuScan :=
  if trim isBlank line = [] then some s.flush_block
  else
    match split_kv line with
    | none => some s
    | some (key, val) => s.scan_field key val

def finish (s : CpuScan) : CpuInfo :=
  { s.info with
    physical_cores := if s.cores = ∅ then s.info.logical_cpus else Int32.ofNat s.cores.card }

end CpuScan

def parse_cpuinfo (text : List Char) : Option CpuInfo := do
  let s ← (lines text).foldlM CpuScan.scan_line .start
  return s.flush_block.finish

structure Gaps where
  before : List Char
  left : List Char
  right : List Char
  after : List Char
  blank : ∀ c ∈ before ++ left ++ right ++ after, c = ' ' ∨ c = '\t' ∨ c = '\r'

def Gaps.line (g : Gaps) (key val : List Char) : List Char :=
  (g.before ++ key ++ g.left) ++ ':' :: (g.right ++ val ++ g.after)

structure CpuValue where
  text : List Char
  trimmed : Trimmed isBlank text
  one_line : '\n' ∉ text

def cpuKeys : List (List Char) :=
  ["processor".toList, "physical id".toList, "core id".toList, "model name".toList, "flags".toList]

/--
A line of a block. What the other lines are does not matter as long as they do not have one of the keys.
-/
inductive CpuLine where
  | processor (g : Gaps) (val : CpuValue)
  | physical_id (g : Gaps) (i : Int) (range : -2 ^ 31 ≤ i ∧ i < 2 ^ 31)
  | core_id (g : Gaps) (i : Int) (range : -2 ^ 31 ≤ i ∧ i < 2 ^ 31)
  | model_name (g : Gaps) (val : CpuValue)
  | flags (g : Gaps) (val : CpuValue)
  | other (text : List Char) (some : ∃ c ∈ text, isBlank c = false) (one_line : '\n' ∉ text)
    (other_key : ':' ∈ text → trim isBlank (text.takeWhile (· ≠ ':')) ∉ cpuKeys)

namespace CpuLine

def text : CpuLine → List Char
  | .processor g val => g.line "processor".toList val.text
  | .physical_id g i _ => g.line "physical id".toList (intDigits i)
  | .core_id g i _ => g.line "core id".toList (intDigits i)
  | .model_name g val => g.line "model name".toList val.text
  | .flags g val => g.line "flags".toList val.text
  | .other text _ _ _ => text

def effect (s : CpuScan) : CpuLine → CpuScan
  | .processor _ _ => { s with info := { s.info with logical_cpus := s.info.logical_cpus + 1 } }
  | .physical_id _ i _ => { s with phys := i }
  | .core_id _ i _ => { s with core := i }
  | .model_name _ val => if s.info.model = [] then { s with info := { s.info with model := val.text } } else s
  | .flags _ val => if s.info.flags = [] then { s with info := { s.info with flags := CpuScan.wordsOf val.text } } else s
  | .other _ _ _ _ => s

end CpuLine

section Numbers

theorem decimal_toDigits (n : Nat) : decimal (Nat.toDigits 10 n) = n := by
  have hsame : ∀ (l : List Char) (init : Nat),
      l.foldl (fun n c => n * 10 + (c.toNat - '0'.toNat)) init = Nat.ofDigitChars 10 l init := by
    intro l
    induction l with
    | nil => exact fun init => Nat.ofDigitChars_nil.symm
    | cons c l ih =>
      intro init
      rw [List.foldl_cons, Nat.ofDigitChars_cons, ih, Nat.mul_comm]
  unfold decimal
  rw [hsame, Nat.ofDigitChars_ten_toDigits]

theorem isDigit_of_mem {n : Nat} {c : Char} (h : c ∈ Nat.toDigits 10 n) : c.isDigit = true :=
  Nat.isDigit_of_mem_toDigits (by decide) (by decide) h

theorem isDigit_range {c : Char} (h : c.isDigit = true) : '0'.toNat ≤ c.toNat ∧ c.toNat ≤ '9'.toNat := by
  have hrange : '0' ≤ c ∧ c ≤ '9' := by
    simpa [Char.isDigit, Char.le_def] using h
  exact hrange

theorem not_isspace_of_isDigit {c : Char} (h : c.isDigit = true) : isspace c = false := by
  obtain ⟨hlo, _⟩ := isDigit_range h
  have hzero : '0'.toNat = 48 := rfl
  have hreturn : '\r'.toNat = 13 := rfl
  unfold isspace
  rw [Bool.or_eq_false_iff, Bool.and_eq_false_iff]
  refine ⟨decide_eq_false ?_, .inr (decide_eq_false fun hle => ?_)⟩
  . rintro rfl
    exact absurd hlo (by decide)
  . have hle : c.toNat ≤ '\r'.toNat := hle
    omega

theorem takeWhile_toDigits (n : Nat) : (Nat.toDigits 10 n).takeWhile Char.isDigit = Nat.toDigits 10 n :=
  List.takeWhile_eq_self_iff.mpr fun _ h => isDigit_of_mem h

theorem stoi_intDigits {i : Int} (h : -2 ^ 31 ≤ i ∧ i < 2 ^ 31) : stoi (String.ofList (intDigits i)) = some i := by
  have hne : Nat.toDigits 10 i.natAbs ≠ [] := Nat.toDigits_ne_nil
  unfold stoi intDigits
  rw [String.toList_ofList]
  by_cases hneg : i < 0
  . have hspace : ('-' :: Nat.toDigits 10 i.natAbs).dropWhile isspace = '-' :: Nat.toDigits 10 i.natAbs :=
      List.dropWhile_cons_of_neg (by decide)
    have habs : -(i.natAbs : Int) = i := by omega
    rw [if_pos hneg, hspace]
    simp only [takeWhile_toDigits, decimal_toDigits, if_true, if_neg hne, habs, if_pos h]
  . obtain ⟨c, cs, hcs⟩ := List.exists_cons_of_ne_nil hne
    have hc : c.isDigit = true := isDigit_of_mem (hcs ▸ List.mem_cons_self)
    have hspace : (c :: cs).dropWhile isspace = c :: cs :=
      List.dropWhile_cons_of_neg (by rw [not_isspace_of_isDigit hc]; decide)
    have habs : (i.natAbs : Int) = i := by omega
    have hminus : c ≠ '-' := by
      rintro rfl
      exact absurd hc (by decide)
    have hplus : c ≠ '+' := by
      rintro rfl
      exact absurd hc (by decide)
    rw [if_neg hneg, hcs, hspace]
    dsimp only
    split
    . exact absurd (List.cons.inj ‹_›).1 hminus
    . exact absurd (List.cons.inj ‹_›).1 hplus
    . rw [← hcs]
      simp only [takeWhile_toDigits, decimal_toDigits, Bool.false_eq_true, if_false, if_neg hne, habs, if_pos h]

end Numbers

namespace Gaps

variable {g : Gaps} {key val : List Char}

theorem isBlank_of_gap {c : Char} (h : c = ' ' ∨ c = '\t' ∨ c = '\r') : isBlank c = true := by
  obtain rfl | rfl | rfl := h <;> rfl

theorem blanks (g : Gaps)
    : ((∀ c ∈ g.before, isBlank c = true) ∧ ∀ c ∈ g.left, isBlank c = true)
      ∧ (∀ c ∈ g.right, isBlank c = true) ∧ ∀ c ∈ g.after, isBlank c = true := by
  have hall : ∀ c ∈ g.before ++ g.left ++ g.right ++ g.after, isBlank c = true :=
    fun c hc => isBlank_of_gap (g.blank c hc)
  simp only [List.forall_mem_append] at hall
  exact ⟨hall.1.1, hall.1.2, hall.2⟩

theorem not_mem (g : Gaps) {c : Char} (hc : c ≠ ' ' ∧ c ≠ '\t' ∧ c ≠ '\r')
    : ((c ∉ g.before ∧ c ∉ g.left) ∧ c ∉ g.right) ∧ c ∉ g.after := by
  have hnone : c ∉ g.before ++ g.left ++ g.right ++ g.after := by
    intro h
    obtain h | h | h := g.blank c h
    . exact hc.1 h
    . exact hc.2.1 h
    . exact hc.2.2 h
  simpa only [List.mem_append, not_or] using hnone

theorem split_kv_line (hkey : Trimmed isBlank key) (hcolon : ':' ∉ key) (hval : Trimmed isBlank val)
    : split_kv (g.line key val) = some (key, val) := by
  obtain ⟨⟨hbefore, hleft⟩, hright, hafter⟩ := g.blanks
  obtain ⟨⟨⟨hcbefore, hcleft⟩, _⟩, _⟩ := g.not_mem (c := ':') (by decide)
  have hfirst : ':' ∉ g.before ++ key ++ g.left := by simp [hcbefore, hcolon, hcleft]
  have hdrop : (g.line key val).drop ((g.before ++ key ++ g.left).length + 1) = g.right ++ val ++ g.after := by
    unfold line
    rw [← List.drop_drop, List.drop_left]
    rfl
  have htake : (g.line key val).take (g.before ++ key ++ g.left).length = g.before ++ key ++ g.left := List.take_left
  have hfind : find (g.line key val) ':' 0 = some (g.before ++ key ++ g.left).length := find_append hfirst
  unfold split_kv
  rw [hfind, Option.map_some, htake, hdrop, trim_append hbefore hleft hkey, trim_append hright hafter hval]

theorem line_not_blank : trim isBlank (g.line key val) ≠ [] := by
  intro h
  have hcolon := trim_eq_nil.mp h ':' (by simp [line])
  exact absurd hcolon (by decide)

theorem line_one_line (hkey : '\n' ∉ key) (hval : '\n' ∉ val) : '\n' ∉ g.line key val := by
  obtain ⟨⟨⟨hbefore, hleft⟩, hright⟩, hafter⟩ := g.not_mem (c := '\n') (by decide)
  simp [line, hbefore, hleft, hright, hafter, hkey, hval]

end Gaps

theorem mem_intDigits {i : Int} {c : Char} (h : c ∈ intDigits i) : c = '-' ∨ c.isDigit = true := by
  unfold intDigits at h
  split at h
  . obtain rfl | h := List.mem_cons.mp h
    . exact .inl rfl
    . exact .inr (isDigit_of_mem h)
  . exact .inr (isDigit_of_mem h)

theorem trimmed_intDigits (i : Int) : Trimmed isBlank (intDigits i) := by
  have hnot : ∀ c ∈ intDigits i, isBlank c = false := by
    intro c hc
    cases hblank : isBlank c with
    | false => rfl
    | true =>
      have hcases : c = ' ' ∨ c = '\t' ∨ c = '\r' ∨ c = '\n' := by simpa [isBlank, or_assoc] using hblank
      obtain rfl | hdigit := mem_intDigits hc
      . simp at hcases
      . obtain rfl | rfl | rfl | rfl := hcases <;> exact absurd hdigit (by decide)
  exact ⟨fun c hc => hnot c (List.mem_of_mem_head? hc), fun c hc => hnot c (List.mem_of_mem_getLast? hc)⟩

theorem split_kv_of_mem {text : List Char} (h : ':' ∈ text)
    : ∃ key val, split_kv text = some (key, val) ∧ key = trim isBlank (text.takeWhile (· ≠ ':')) := by
  obtain ⟨pre, post, rfl, hpre⟩ := List.eq_append_cons_of_mem h
  have htake : (pre ++ ':' :: post).takeWhile (· ≠ ':') = pre := by
    rw [List.takeWhile_append_of_pos (by simpa using fun c hc => ne_of_mem_of_not_mem hc hpre)]
    simp
  refine ⟨trim isBlank pre, trim isBlank ((pre ++ ':' :: post).drop (pre.length + 1)), ?_, by rw [htake]⟩
  unfold split_kv
  rw [find_append hpre, Option.map_some, List.take_left]

theorem scan_field_other {s : CpuScan} {key val : List Char} (h : key ∉ cpuKeys) : s.scan_field key val = some s := by
  unfold cpuKeys at h
  simp only [List.mem_cons, List.not_mem_nil, or_false, not_or] at h
  obtain ⟨hprocessor, hphysical, hcore, hmodel, hflags⟩ := h
  unfold CpuScan.scan_field
  rw [if_neg hprocessor, if_neg hphysical, if_neg hcore, if_neg fun h => hmodel h.1, if_neg fun h => hflags h.1]

namespace CpuLine

theorem scan_text (l : CpuLine) (s : CpuScan) : s.scan_line l.text = some (l.effect s) := by
  have hfield : ∀ (g : Gaps) (key val : List Char), Trimmed isBlank key → ':' ∉ key → Trimmed isBlank val →
      s.scan_line (g.line key val) = s.scan_field key val := by
    intro g key val hkey hcolon hval
    unfold CpuScan.scan_line
    rw [if_neg Gaps.line_not_blank, Gaps.split_kv_line hkey hcolon hval]
  cases l with
  | processor g val => exact hfield g _ _ (by decide) (by decide) val.trimmed
  | physical_id g i hrange =>
    refine (hfield g _ _ (by decide) (by decide) (trimmed_intDigits i)).trans ?_
    unfold CpuScan.scan_field
    rw [if_neg (by decide), if_pos rfl, stoi_intDigits hrange]
    rfl
  | core_id g i hrange =>
    refine (hfield g _ _ (by decide) (by decide) (trimmed_intDigits i)).trans ?_
    unfold CpuScan.scan_field
    rw [if_neg (by decide), if_neg (by decide), if_pos rfl, stoi_intDigits hrange]
    rfl
  | model_name g val =>
    refine (hfield g _ _ (by decide) (by decide) val.trimmed).trans ?_
    rw [effect]
    unfold CpuScan.scan_field
    rw [if_neg (by decide), if_neg (by decide), if_neg (by decide)]
    by_cases hmodel : s.info.model = []
    . rw [if_pos ⟨rfl, hmodel⟩, if_pos hmodel]
    . rw [if_neg fun h => hmodel h.2, if_neg fun h => absurd h.1 (by decide), if_neg hmodel]
  | flags g val =>
    refine (hfield g _ _ (by decide) (by decide) val.trimmed).trans ?_
    rw [effect]
    unfold CpuScan.scan_field
    rw [if_neg (by decide), if_neg (by decide), if_neg (by decide), if_neg fun h => absurd h.1 (by decide)]
    by_cases hflags : s.info.flags = []
    . rw [if_pos ⟨rfl, hflags⟩, if_pos hflags]
    . rw [if_neg fun h => hflags h.2, if_neg hflags]
  | other text hsome hone hother =>
    have hblank : trim isBlank text ≠ [] := by
      intro h
      obtain ⟨c, hc, hnot⟩ := hsome
      rw [trim_eq_nil.mp h c hc] at hnot
      cases hnot
    change s.scan_line text = some s
    unfold CpuScan.scan_line
    rw [if_neg hblank]
    by_cases hcolon : ':' ∈ text
    . obtain ⟨key, val, hsplit, hkey⟩ := split_kv_of_mem hcolon
      have hnone := hother hcolon
      rw [← hkey] at hnone
      rw [hsplit]
      exact scan_field_other hnone
    . have hsplit : split_kv text = none := by
        unfold split_kv
        rw [find_eq_none (by rwa [List.drop_zero])]
        rfl
      rw [hsplit]

theorem text_one_line (l : CpuLine) : '\n' ∉ l.text := by
  have hint : ∀ i, '\n' ∉ intDigits i := by
    intro i h
    obtain h | h := mem_intDigits h
    . exact absurd h (by decide)
    . exact absurd h (by decide)
  cases l with
  | processor g val => exact Gaps.line_one_line (by decide) val.one_line
  | physical_id g i hrange => exact Gaps.line_one_line (by decide) (hint i)
  | core_id g i hrange => exact Gaps.line_one_line (by decide) (hint i)
  | model_name g val => exact Gaps.line_one_line (by decide) val.one_line
  | flags g val => exact Gaps.line_one_line (by decide) val.one_line
  | other text hsome hone hother => exact hone

def physical? : CpuLine → Option Int
  | .physical_id _ i _ => some i
  | _ => none

def core? : CpuLine → Option Int
  | .core_id _ i _ => some i
  | _ => none

def model? : CpuLine → Option (List Char)
  | .model_name _ val => if val.text = [] then none else some val.text
  | _ => none

def isProcessor : CpuLine → Bool
  | .processor _ _ => true
  | _ => false

theorem model?_ne_nil {l : CpuLine} {name : List Char} (h : l.model? = some name) : name ≠ [] := by
  cases l with
  | model_name g val =>
    rw [model?] at h
    split at h
    . cases h
    . rename_i hne
      exact Option.some.inj h ▸ hne
  | _ => cases h

end CpuLine

/--
What the lines of a block say, in any order. A key that it does not have is not there; the last one counts if there
are more.
-/
structure CpuBlock where
  lines : List CpuLine

namespace CpuBlock

def physical (b : CpuBlock) : Int :=
  (b.lines.filterMap CpuLine.physical?).getLast?.getD 0

def core (b : CpuBlock) : Option Int :=
  (b.lines.filterMap CpuLine.core?).getLast?

def pair? (b : CpuBlock) : Option (Int × Int) :=
  (b.core.filter (0 ≤ ·)).map fun core => (b.physical, core)

def model? (b : CpuBlock) : Option (List Char) :=
  (b.lines.filterMap CpuLine.model?).head?

def processors (b : CpuBlock) : Nat :=
  b.lines.countP CpuLine.isProcessor

def effect (s : CpuScan) (b : CpuBlock) : CpuScan :=
  b.lines.foldl CpuLine.effect s

end CpuBlock

section Blocks

variable {s : CpuScan} {b : CpuBlock}

theorem getLast?_cons_getD {α : Type} (a d : α) (l : List α) : (a :: l).getLast?.getD d = l.getLast?.getD a := by
  rw [List.getLast?_cons, Option.getD_some]

structure After (s : CpuScan) (ls : List CpuLine) (t : CpuScan) : Prop where
  phys : t.phys = (ls.filterMap CpuLine.physical?).getLast?.getD s.phys
  core : t.core = (ls.filterMap CpuLine.core?).getLast?.getD s.core
  cores : t.cores = s.cores
  logical : t.info.logical_cpus = s.info.logical_cpus + Int32.ofNat (ls.countP CpuLine.isProcessor)
  model : t.info.model = if s.info.model = [] then (ls.filterMap CpuLine.model?).head?.getD [] else s.info.model

theorem effect_spec (l : CpuLine) (s : CpuScan)
    : (l.effect s).phys = l.physical?.getD s.phys ∧ (l.effect s).core = l.core?.getD s.core
      ∧ (l.effect s).cores = s.cores
      ∧ (l.effect s).info.logical_cpus = s.info.logical_cpus + (if l.isProcessor then 1 else 0)
      ∧ (l.effect s).info.model = if s.info.model = [] then l.model?.getD [] else s.info.model := by
  cases l with
  | processor g val => simp [CpuLine.effect, CpuLine.physical?, CpuLine.core?, CpuLine.isProcessor, CpuLine.model?]
  | physical_id g i hrange =>
    simp [CpuLine.effect, CpuLine.physical?, CpuLine.core?, CpuLine.isProcessor, CpuLine.model?]
  | core_id g i hrange =>
    simp [CpuLine.effect, CpuLine.physical?, CpuLine.core?, CpuLine.isProcessor, CpuLine.model?]
  | model_name g val =>
    rw [CpuLine.effect, CpuLine.model?]
    by_cases hmodel : s.info.model = []
    . by_cases hval : val.text = [] <;> simp [hmodel, hval, CpuLine.physical?, CpuLine.core?, CpuLine.isProcessor]
    . simp [hmodel, CpuLine.physical?, CpuLine.core?, CpuLine.isProcessor]
  | flags g val =>
    rw [CpuLine.effect]
    split <;> simp [CpuLine.physical?, CpuLine.core?, CpuLine.isProcessor, CpuLine.model?]
  | other text hsome hone hother =>
    simp [CpuLine.effect, CpuLine.physical?, CpuLine.core?, CpuLine.isProcessor, CpuLine.model?]

theorem last_cons {α β : Type} (f : α → Option β) (a : α) (l : List α) (d : β)
    : ((a :: l).filterMap f).getLast?.getD d = (l.filterMap f).getLast?.getD ((f a).getD d) := by
  rw [List.filterMap_cons]
  cases f a with
  | none => rfl
  | some b => exact getLast?_cons_getD b d _

theorem after_foldl (ls : List CpuLine) (s : CpuScan) : After s ls (ls.foldl CpuLine.effect s) := by
  induction ls generalizing s with
  | nil =>
    refine ⟨rfl, rfl, rfl, ?_, ?_⟩
    . simp
    . simp
  | cons l ls ih =>
    obtain ⟨hphys, hcore, hcores, hlogical, hmodel⟩ := effect_spec l s
    have hrest := ih (l.effect s)
    rw [List.foldl_cons]
    refine ⟨?_, ?_, ?_, ?_, ?_⟩
    . rw [hrest.phys, hphys, last_cons]
    . rw [hrest.core, hcore, last_cons]
    . rw [hrest.cores, hcores]
    . rw [hrest.logical, hlogical, List.countP_cons, Int32.add_assoc, Int32.ofNat_add, Int32.add_comm (Int32.ofNat _)]
      split <;> rfl
    . rw [hrest.model, hmodel, List.filterMap_cons]
      cases hnamed : l.model? with
      | none =>
        by_cases hnil : s.info.model = [] <;> simp [hnil]
      | some name =>
        have hname : name ≠ [] := CpuLine.model?_ne_nil hnamed
        by_cases hnil : s.info.model = [] <;> simp [hnil, hname]

theorem after_effect (b : CpuBlock) (s : CpuScan) : After s b.lines (b.effect s) :=
  after_foldl b.lines s

theorem scan_block (b : CpuBlock) (s : CpuScan)
    : (b.lines.map CpuLine.text).foldlM CpuScan.scan_line s = some (b.effect s) := by
  unfold CpuBlock.effect
  induction b.lines generalizing s with
  | nil => rfl
  | cons l ls ih =>
    rw [List.map_cons, List.foldlM_cons, CpuLine.scan_text]
    exact ih _

theorem flush_flush (s : CpuScan) : s.flush_block.flush_block = s.flush_block := by
  simp [CpuScan.flush_block]

theorem scan_blank {l : List Char} (h : ∀ c ∈ l, isBlank c = true) (s : CpuScan) : s.scan_line l = some s.flush_block :=
  if_pos (trim_eq_nil.mpr h)

theorem scan_blanks {ls : List (List Char)} (h : ∀ l ∈ ls, ∀ c ∈ l, isBlank c = true) (s : CpuScan)
    : ls.foldlM CpuScan.scan_line s = some (if ls = [] then s else s.flush_block) := by
  induction ls generalizing s with
  | nil => rfl
  | cons l ls ih =>
    rw [List.forall_mem_cons] at h
    rw [List.foldlM_cons, scan_blank h.1]
    refine (ih h.2 _).trans ?_
    rw [flush_flush, ite_self, if_neg (List.cons_ne_nil _ _)]

def CpuScan.Fresh (s : CpuScan) : Prop :=
  s.phys = 0 ∧ s.core = -1

theorem flush_fresh (s : CpuScan) : s.flush_block.Fresh :=
  ⟨rfl, rfl⟩

theorem flush_of_fresh (h : s.Fresh) : s.flush_block = s := by
  obtain ⟨hphys, hcore⟩ := h
  unfold CpuScan.flush_block
  rw [if_neg (by rw [hcore]; decide)]
  cases s
  cases hphys
  cases hcore
  rfl

end Blocks

/--
Blocks, each with the blank lines after it. At least one is between two blocks. The text need not end with a newline.
-/
structure Cpuinfo where
  parts : List (CpuBlock × List (List Char))
  blank : ∀ p ∈ parts, ∀ l ∈ p.2, ∀ c ∈ l, c = ' ' ∨ c = '\t' ∨ c = '\r'
  separated : ∀ p ∈ parts.dropLast, p.2 ≠ []
  terminated : Bool

namespace Cpuinfo

def linesOf (parts : List (CpuBlock × List (List Char))) : List (List Char) :=
  parts.flatMap fun p => p.1.lines.map CpuLine.text ++ p.2

def text (d : Cpuinfo) : List Char :=
  let t := (linesOf d.parts).flatMap (· ++ ['\n'])
  if d.terminated then t else t.dropLast

def blocks (d : Cpuinfo) : List CpuBlock :=
  d.parts.map Prod.fst

def processors (d : Cpuinfo) : Nat :=
  (d.blocks.map CpuBlock.processors).sum

def cores (d : Cpuinfo) : Finset (Int × Int) :=
  (d.blocks.filterMap CpuBlock.pair?).toFinset

def model (d : Cpuinfo) : List Char :=
  (d.blocks.findSome? CpuBlock.model?).getD []

variable {parts : List (CpuBlock × List (List Char))} {s : CpuScan}

theorem scan_parts (hblank : ∀ p ∈ parts, ∀ l ∈ p.2, ∀ c ∈ l, isBlank c = true)
    (hseparated : ∀ p ∈ parts.dropLast, p.2 ≠ []) (hfresh : s.Fresh)
    : ∃ t, (linesOf parts).foldlM CpuScan.scan_line s = some t
      ∧ t.flush_block = (parts.map Prod.fst).foldl (fun s b => (b.effect s).flush_block) s := by
  induction parts generalizing s with
  | nil => exact ⟨s, rfl, flush_of_fresh hfresh⟩
  | cons p parts ih =>
    obtain ⟨b, blanks⟩ := p
    rw [List.forall_mem_cons] at hblank
    have hfirst : ∀ rest : List (List Char), (b.lines.map CpuLine.text ++ blanks ++ rest).foldlM CpuScan.scan_line s
        = rest.foldlM CpuScan.scan_line (if blanks = [] then b.effect s else (b.effect s).flush_block) := by
      intro rest
      rw [List.append_assoc, List.foldlM_append, scan_block]
      change (blanks ++ rest).foldlM CpuScan.scan_line (b.effect s) = _
      rw [List.foldlM_append, scan_blanks hblank.1]
      rfl
    change ∃ t, ((b.lines.map CpuLine.text ++ blanks) ++ linesOf parts).foldlM CpuScan.scan_line s = some t
      ∧ t.flush_block = (parts.map Prod.fst).foldl _ (b.effect s).flush_block
    rw [hfirst]
    by_cases hnone : blanks = []
    . -- only the last block may have no blank line after it
      have hlast : parts = [] := by
        by_contra hne
        obtain ⟨p, parts, rfl⟩ := List.exists_cons_of_ne_nil hne
        exact hseparated (b, blanks) List.mem_cons_self hnone
      subst hlast
      rw [if_pos hnone]
      exact ⟨b.effect s, rfl, rfl⟩
    . rw [if_neg hnone]
      apply ih hblank.2 _ (flush_fresh _)
      intro p hp
      apply hseparated p
      cases parts with
      | nil => cases hp
      | cons q parts => exact List.mem_cons_of_mem _ hp

structure Total (s : CpuScan) (blocks : List CpuBlock) (t : CpuScan) : Prop where
  cores : t.cores = s.cores ∪ (blocks.filterMap CpuBlock.pair?).toFinset
  logical : t.info.logical_cpus = s.info.logical_cpus + Int32.ofNat (blocks.map CpuBlock.processors).sum
  model : t.info.model = if s.info.model = [] then (blocks.findSome? CpuBlock.model?).getD [] else s.info.model

theorem flush_cores {b : CpuBlock} (hfresh : s.Fresh)
    : (b.effect s).flush_block.cores = s.cores ∪ b.pair?.toList.toFinset := by
  have hafter := after_effect b s
  have hphys : (b.effect s).phys = b.physical := by
    rw [hafter.phys, hfresh.1]
    rfl
  have hcore : (b.effect s).core = b.core.getD (-1) := by
    rw [hafter.core, hfresh.2]
    rfl
  have hcores : (b.effect s).cores = s.cores := hafter.cores
  unfold CpuScan.flush_block CpuBlock.pair?
  rw [hphys, hcore, hcores]
  dsimp only
  cases b.core with
  | none => simp
  | some core =>
    rw [Option.getD_some]
    by_cases hcore : 0 ≤ core
    . have hfilter : (some core).filter (fun core : Int => decide (0 ≤ core)) = some core := if_pos (decide_eq_true hcore)
      rw [if_pos hcore, hfilter, Finset.insert_eq, Finset.union_comm]
      rfl
    . simp [hcore, Option.filter]

theorem model?_ne_nil {b : CpuBlock} {name : List Char} (h : b.model? = some name) : name ≠ [] := by
  obtain ⟨l, _, hl⟩ := List.mem_filterMap.mp (List.mem_of_mem_head? h)
  exact CpuLine.model?_ne_nil hl

theorem total_blocks (blocks : List CpuBlock) (hfresh : s.Fresh)
    : Total s blocks (blocks.foldl (fun s b => (b.effect s).flush_block) s) := by
  induction blocks generalizing s with
  | nil =>
    refine ⟨?_, ?_, ?_⟩
    . simp
    . simp
    . simp
  | cons b blocks ih =>
    have hafter := after_effect b s
    have hrest := ih (flush_fresh (b.effect s))
    rw [List.foldl_cons]
    refine ⟨?_, ?_, ?_⟩
    . rw [hrest.cores, flush_cores hfresh, List.filterMap_cons, Finset.union_assoc]
      cases b.pair? with
      | none => simp
      | some pair => simp
    . have hlogical : (b.effect s).flush_block.info.logical_cpus
          = s.info.logical_cpus + Int32.ofNat b.processors := hafter.logical
      rw [hrest.logical, hlogical, List.map_cons, List.sum_cons, Int32.ofNat_add, Int32.add_assoc]
    . have hmodel : (b.effect s).flush_block.info.model
          = if s.info.model = [] then b.model?.getD [] else s.info.model := hafter.model
      rw [hrest.model, hmodel, List.findSome?_cons]
      cases hnamed : b.model? with
      | none =>
        by_cases hnil : s.info.model = [] <;> simp [hnil]
      | some name =>
        have hname : name ≠ [] := model?_ne_nil hnamed
        by_cases hnil : s.info.model = [] <;> simp [hnil, hname]

theorem parse_text {ls : List (List Char)} (hls : ∀ l ∈ ls, '\n' ∉ l) (terminated : Bool)
    : parse_cpuinfo (if terminated then ls.flatMap (· ++ ['\n']) else (ls.flatMap (· ++ ['\n'])).dropLast)
      = (ls.foldlM CpuScan.scan_line .start).map fun s => s.flush_block.finish := by
  have hparse : ∀ text, parse_cpuinfo text
      = ((lines text).foldlM CpuScan.scan_line .start).map fun s => s.flush_block.finish := by
    intro text
    unfold parse_cpuinfo
    cases (lines text).foldlM CpuScan.scan_line .start <;> rfl
  rw [hparse]
  cases terminated with
  | true =>
    have hread : lines (ls.flatMap (· ++ ['\n']) ++ []) = ls ++ if ([] : List Char) = [] then [] else [[]] :=
      lines_terminated hls List.not_mem_nil
    rw [List.append_nil, if_pos rfl, List.append_nil] at hread
    rw [if_pos rfl, hread]
  | false =>
    rw [if_neg Bool.false_ne_true]
    obtain rfl | ⟨init, last, rfl⟩ := List.eq_nil_or_concat ls
    . rfl
    . rw [List.concat_eq_append] at hls ⊢
      rw [List.forall_mem_append, List.forall_mem_singleton] at hls
      have hdrop : ((init ++ [last]).flatMap (· ++ ['\n'])).dropLast = init.flatMap (· ++ ['\n']) ++ last := by
        rw [List.flatMap_append, List.flatMap_singleton, ← List.append_assoc, List.dropLast_concat]
      rw [hdrop, lines_terminated hls.1 hls.2]
      by_cases hnil : last = []
      . -- an empty last line would flush once more
        have hblank : ∀ s : CpuScan, s.scan_line last = some s.flush_block := by
          rw [hnil]
          exact scan_blank nofun
        rw [if_pos hnil, List.append_nil, List.foldlM_append]
        cases init.foldlM CpuScan.scan_line .start with
        | none => rfl
        | some s =>
          change _ = ((s.scan_line last).bind pure).map _
          rw [hblank]
          exact congrArg (fun s => some (CpuScan.finish s)) (flush_flush s).symm
      . rw [if_neg hnil]

/--
However the processors are listed, they and their cores are counted as they should be.
-/
theorem parse_cpuinfo_text (d : Cpuinfo)
    : ∃ info, parse_cpuinfo d.text = some info
      ∧ info.logical_cpus = Int32.ofNat d.processors
      ∧ info.physical_cores = (if d.cores = ∅ then Int32.ofNat d.processors else Int32.ofNat d.cores.card)
      ∧ info.model = d.model := by
  have hblank : ∀ p ∈ d.parts, ∀ l ∈ p.2, ∀ c ∈ l, isBlank c = true :=
    fun p hp l hl c hc => Gaps.isBlank_of_gap (d.blank p hp l hl c hc)
  have hlines : ∀ l ∈ linesOf d.parts, '\n' ∉ l := by
    intro l hl
    obtain ⟨p, hp, hl⟩ := List.mem_flatMap.mp hl
    obtain hl | hl := List.mem_append.mp hl
    . obtain ⟨line, _, rfl⟩ := List.mem_map.mp hl
      exact line.text_one_line
    . intro hnewline
      obtain h | h | h := d.blank p hp l hl _ hnewline
      . exact absurd h (by decide)
      . exact absurd h (by decide)
      . exact absurd h (by decide)
  obtain ⟨t, hscan, hflush⟩ := scan_parts hblank d.separated (s := .start) ⟨rfl, rfl⟩
  have htotal := total_blocks d.blocks (s := .start) ⟨rfl, rfl⟩
  have hfinal : t.flush_block = d.blocks.foldl (fun s b => (b.effect s).flush_block) .start := hflush
  rw [← hfinal] at htotal
  have hlogical : t.flush_block.info.logical_cpus = Int32.ofNat d.processors := by
    rw [htotal.logical]
    exact Int32.zero_add _
  have hcores : t.flush_block.cores = d.cores := by
    rw [htotal.cores]
    exact Finset.empty_union _
  have hmodel : t.flush_block.info.model = d.model := htotal.model
  refine ⟨t.flush_block.finish, ?_, hlogical, ?_, hmodel⟩
  . unfold text
    rw [parse_text hlines, hscan]
    rfl
  . unfold CpuScan.finish
    rw [hcores, hlogical]

def kernel_gaps : Gaps where
  before := []
  left := ['\t']
  right := [' ']
  after := []
  blank := List.forall_iff_forall_mem.mp (by decide)

def block_of (n : CpuValue) (core : Int) (range : -2 ^ 31 ≤ core ∧ core < 2 ^ 31) : CpuBlock where
  lines := [.processor kernel_gaps n, .model_name kernel_gaps ⟨"A CPU".toList, by decide, by decide⟩,
    .other "cpu MHz\t\t: 2000.000".toList ⟨'c', by decide, rfl⟩ (by decide) (by decide),
    .physical_id kernel_gaps 0 (by decide), .core_id kernel_gaps core range]

/--
Three processors on two cores, with one or two empty lines in between and no line break at the end.
-/
def three_processors : Cpuinfo where
  parts := [(block_of ⟨"0".toList, by decide, by decide⟩ 0 (by decide), [[]]),
    (block_of ⟨"1".toList, by decide, by decide⟩ 1 (by decide), [[], [' ']]),
    (block_of ⟨"2".toList, by decide, by decide⟩ 1 (by decide), [])]
  blank := by simp
  separated := by decide
  terminated := false

theorem parse_cpuinfo_text_three
    : ∃ info, parse_cpuinfo three_processors.text = some info
      ∧ info.logical_cpus = 3 ∧ info.physical_cores = 2 ∧ info.model = "A CPU".toList := by
  obtain ⟨info, hinfo, hlogical, hphysical, hmodel⟩ := parse_cpuinfo_text three_processors
  exact ⟨info, hinfo, hlogical, hphysical.trans (by decide), hmodel⟩

end Cpuinfo

end Bench
