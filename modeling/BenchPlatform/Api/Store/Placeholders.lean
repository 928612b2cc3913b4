import BenchPlatform.Api.Strings

/-!
This module contains the numbered placeholders in the text of a statement: how Postgres reads them and
how `shiftPlaceholders` renumbers them.
-/

namespace Api
namespace Store

def dollar : UInt8 := 36

def isDigit (b : UInt8) : Bool :=
  48 ≤ b && b ≤ 57

/--
What a number may be followed by: nothing, or a byte that does not continue it.
-/
def Ends (v : Bytes) : Prop :=
  ∀ b ∈ v.head?, isDigit b = false

/--
What the text of a statement consists of. A parameter is a `$` with the digits after it.
-/
inductive Token where
  | byte (b : UInt8)
  | placeholder (k : Nat)
  deriving DecidableEq

/--
What is being read: a text, a `$`, or a parameter with the value of its digits so far.
-/
inductive Scan where
  | text
  | dollar
  | number (k : Nat)

def Scan.flush : Scan → List Token
  | .text => []
  | .dollar => [.byte Store.dollar]
  | .number k => [.placeholder k]

def Scan.value? : Scan → Option Nat
  | .text => none
  | .dollar => some 0
  | .number k => some k

def tokensFrom (s : Scan) : Bytes → List Token
  | [] => s.flush
  | b :: v =>
    if b = dollar then
      s.flush ++ tokensFrom .dollar v
    else
      match s.value?, isDigit b with
      | some k, true => tokensFrom (.number (k * 10 + (b.toNat - 48))) v
      | _, _ => s.flush ++ .byte b :: tokensFrom .text v

def tokens (v : Bytes) : List Token :=
  tokensFrom .text v

/--
The parameters among the tokens, each with the bytes between it and the one before.
-/
def slotsFrom (lead : Bytes) : List Token → List (Bytes × Nat)
  | [] => []
  | .byte b :: ts => slotsFrom (lead ++ [b]) ts
  | .placeholder k :: ts => (lead, k) :: slotsFrom [] ts

def slots (v : Bytes) : List (Bytes × Nat) :=
  slotsFrom [] (tokens v)

def placeholders (v : Bytes) : List Nat :=
  (slots v).map (·.2)

/--
`int` has 64 bits.
-/
def goInt (n : Int) : Int :=
  n.bmod (2 ^ 64)

def scanNumber (num : Int) : Bytes → Int × Nat
  | [] => (num, 0)
  | b :: v =>
    if isDigit b then
      let (num, j) := scanNumber (goInt (num * 10 + (b.toNat - 48))) v
      (num, j + 1)
    else
      (num, 0)

/--
The outer loop, which first skips the digits of the number that it has just written.
-/
def shiftFrom (n : Int) : Nat → Bytes → Bytes
  | _, [] => []
  | skip + 1, _ :: v => shiftFrom n skip v
  | 0, b :: v =>
    if b ≠ dollar then
      b :: shiftFrom n 0 v
    else
      let (num, j) := scanNumber 0 v
      if num = 0 then
        b :: shiftFrom n 0 v
      else
        dollar :: (formatInt (goInt (num + n)) ++ shiftFrom n j v)

/--
Renumbers `$1`, `$2` and so on by `n`, so that a condition built independently can be appended after
arguments that are already numbered.
-/
def shiftPlaceholders (cond : Bytes) (n : Int) : Bytes :=
  shiftFrom n 0 cond

/--
A parameter with another number. There is no `$0`, which is left as it is.
-/
def Token.shift (n : Nat) : Token → Token
  | .byte b => .byte b
  | .placeholder 0 => .placeholder 0
  | .placeholder (k + 1) => .placeholder (k + 1 + n)

def render (ps : List (Bytes × Nat)) (tail : Bytes) : Bytes :=
  match ps with
  | [] => tail
  | (lead, k) :: ps => lead ++ dollar :: (formatInt k ++ render ps tail)

theorem isDigit_iff {b : UInt8} : isDigit b = true ↔ 48 ≤ b ∧ b ≤ 57 := by
  simp [isDigit]

theorem ne_dollar_of_isDigit {b : UInt8} (h : isDigit b = true) : b ≠ dollar := by
  rintro rfl
  cases h

theorem parseDigits_cons {acc k : Nat} {b : UInt8} {v : Bytes} (h : parseDigits acc (b :: v) = some k)
    : isDigit b = true ∧ parseDigits (acc * 10 + (b.toNat - 48)) v = some k := by
  rw [parseDigits] at h
  split at h
  . next hb => exact ⟨isDigit_iff.mpr hb, h⟩
  . cases h

theorem parseDigits_of_isDigit {ds : Bytes} (h : ∀ b ∈ ds, isDigit b = true) (acc : Nat)
    : ∃ k, parseDigits acc ds = some k := by
  induction ds generalizing acc with
  | nil => exact ⟨acc, rfl⟩
  | cons b ds ih =>
    rw [List.forall_mem_cons] at h
    rw [parseDigits, if_pos (isDigit_iff.mp h.1)]
    exact ih h.2 _

theorem le_of_parseDigits {ds : Bytes} {acc k : Nat} (h : parseDigits acc ds = some k) : acc ≤ k := by
  induction ds generalizing acc with
  | nil =>
    injection h with h
    exact h.le
  | cons b ds ih =>
    have := ih (parseDigits_cons h).2
    omega

theorem parseDigits_formatInt (k : Nat) : parseDigits 0 (formatInt k) = some k := by
  unfold formatInt
  rw [if_neg (Int.not_lt.mpr (Int.natCast_nonneg k)), Int.natAbs_natCast]
  by_cases hzero : k = 0
  . rw [if_pos (by exact_mod_cast hzero), hzero]
    decide
  . rw [if_neg (by exact_mod_cast hzero),
      parseDigits_formatDigits fun d hd => Nat.digits_lt_base (by decide) hd, Nat.ofDigits_digits]

theorem exists_digits (v : Bytes)
    : ∃ ds rest k, v = ds ++ rest ∧ parseDigits 0 ds = some k ∧ Ends rest := by
  have hdigits : ∀ b ∈ v.takeWhile isDigit, isDigit b = true := List.all_eq_true.mp List.all_takeWhile
  obtain ⟨k, hk⟩ := parseDigits_of_isDigit hdigits 0
  refine ⟨v.takeWhile isDigit, v.dropWhile isDigit, k, List.takeWhile_append_dropWhile.symm, hk, ?_⟩
  intro b hb
  have := List.head?_dropWhile_not isDigit v
  rw [Option.mem_def.mp hb] at this
  simpa using this

theorem goInt_of_lt {k : Nat} (h : k < 2 ^ 63) : goInt k = k :=
  Int.bmod_eq_of_le (by omega) (by omega)

theorem scanNumber_digits {ds rest : Bytes} {acc k : Nat} (h : parseDigits acc ds = some k)
    (hk : k < 2 ^ 63) (hrest : Ends rest)
    : scanNumber acc (ds ++ rest) = ((k : Int), ds.length) := by
  induction ds generalizing acc with
  | nil =>
    injection h with h
    cases rest with
    | nil => rw [h]; rfl
    | cons b rest =>
      rw [List.nil_append, scanNumber, hrest b rfl, h]
      rfl
  | cons b ds ih =>
    obtain ⟨hb, h⟩ := parseDigits_cons h
    have hle := le_of_parseDigits h
    have hnum : goInt ((acc : Int) * 10 + (b.toNat - 48)) = ((acc * 10 + (b.toNat - 48) : Nat) : Int) := by
      have hlow : 48 ≤ b.toNat := (isDigit_iff.mp hb).1
      rw [← goInt_of_lt (Nat.lt_of_le_of_lt hle hk)]
      push_cast [hlow]
      rfl
    rw [List.cons_append, scanNumber, if_pos hb, hnum, ih h]
    rfl

theorem tokensFrom_of_ends {s : Scan} {rest : Bytes} (hrest : Ends rest)
    : tokensFrom s rest = s.flush ++ tokensFrom .text rest := by
  cases rest with
  | nil =>
    rw [tokensFrom, tokensFrom]
    exact (List.append_nil _).symm
  | cons b rest =>
    rw [tokensFrom, tokensFrom]
    split
    . rfl
    . rw [hrest b rfl]
      cases s <;> rfl

theorem tokensFrom_digits {ds rest : Bytes} {acc k : Nat} (h : parseDigits acc ds = some k)
    (hrest : Ends rest)
    : tokensFrom (.number acc) (ds ++ rest) = .placeholder k :: tokensFrom .text rest := by
  induction ds generalizing acc with
  | nil =>
    injection h with h
    rw [List.nil_append, tokensFrom_of_ends hrest, h]
    rfl
  | cons b ds ih =>
    obtain ⟨hb, h⟩ := parseDigits_cons h
    rw [List.cons_append, tokensFrom, if_neg (ne_dollar_of_isDigit hb), hb]
    exact ih h

theorem tokens_cons {b : UInt8} (h : b ≠ dollar) (v : Bytes) : tokens (b :: v) = .byte b :: tokens v := by
  rw [tokens, tokensFrom, if_neg h]
  rfl

theorem tokens_dollar (v : Bytes) : tokens (dollar :: v) = tokensFrom .dollar v := by
  rw [tokens, tokensFrom, if_pos rfl]
  rfl

theorem tokens_dollar_ends {rest : Bytes} (hrest : Ends rest)
    : tokens (dollar :: rest) = .byte dollar :: tokens rest := by
  rw [tokens_dollar, tokensFrom_of_ends hrest]
  rfl

theorem tokens_parameter {ds rest : Bytes} {k : Nat} (hne : ds ≠ []) (h : parseDigits 0 ds = some k)
    (hrest : Ends rest)
    : tokens (dollar :: (ds ++ rest)) = .placeholder k :: tokens rest := by
  rw [tokens_dollar]
  cases ds with
  | nil => exact absurd rfl hne
  | cons b ds =>
    obtain ⟨hb, h⟩ := parseDigits_cons h
    rw [List.cons_append, tokensFrom, if_neg (ne_dollar_of_isDigit hb), hb]
    exact tokensFrom_digits h hrest

theorem tokens_append {lead : Bytes} (h : dollar ∉ lead) (rest : Bytes)
    : tokens (lead ++ rest) = lead.map .byte ++ tokens rest := by
  induction lead with
  | nil => rfl
  | cons b lead ih =>
    rw [List.mem_cons, not_or] at h
    rw [List.cons_append, tokens_cons (Ne.symm h.1), ih h.2]
    rfl

section Shift

variable {n : Int}

theorem shiftFrom_skip (ds rest : Bytes) : shiftFrom n ds.length (ds ++ rest) = shiftFrom n 0 rest := by
  induction ds with
  | nil => rfl
  | cons b ds ih => exact ih

theorem shiftFrom_cons {b : UInt8} (h : b ≠ dollar) (v : Bytes)
    : shiftFrom n 0 (b :: v) = b :: shiftFrom n 0 v := by
  rw [shiftFrom, if_pos h]

theorem shiftFrom_append {lead : Bytes} (h : dollar ∉ lead) (rest : Bytes)
    : shiftFrom n 0 (lead ++ rest) = lead ++ shiftFrom n 0 rest := by
  induction lead with
  | nil => rfl
  | cons b lead ih =>
    rw [List.mem_cons, not_or] at h
    rw [List.cons_append, shiftFrom_cons (Ne.symm h.1), ih h.2]
    rfl

theorem shiftFrom_dollar {v : Bytes} {num : Int} {j : Nat} (h : scanNumber 0 v = (num, j))
    : shiftFrom n 0 (dollar :: v)
      = if num = 0 then
          dollar :: shiftFrom n 0 v
        else
          dollar :: (formatInt (goInt (num + n)) ++ shiftFrom n j v) := by
  rw [shiftFrom, if_neg (fun hne => hne rfl), h]

theorem ends_shiftFrom {v : Bytes} (h : Ends v) : Ends (shiftFrom n 0 v) := by
  cases v with
  | nil => exact h
  | cons b v =>
    by_cases hb : b = dollar
    . subst hb
      rw [shiftFrom_dollar rfl]
      split
      . exact h
      . exact h
    . rw [shiftFrom_cons hb]
      exact h

theorem dollar_not_mem_of_parseDigits {ds : Bytes} {acc k : Nat} (h : parseDigits acc ds = some k)
    : dollar ∉ ds := by
  induction ds generalizing acc with
  | nil => exact List.not_mem_nil
  | cons b ds ih =>
    obtain ⟨hb, h⟩ := parseDigits_cons h
    rw [List.mem_cons, not_or]
    exact ⟨(ne_dollar_of_isDigit hb).symm, ih h⟩

theorem shiftFrom_parameter {n : Nat} {ds rest : Bytes} {k : Nat} (h : parseDigits 0 ds = some k)
    (hpos : 0 < k) (hk : k + n < 2 ^ 63) (hrest : Ends rest)
    : shiftFrom n 0 (dollar :: (ds ++ rest))
      = dollar :: (formatInt (k + n : Nat) ++ shiftFrom n 0 rest) := by
  rw [shiftFrom_dollar (scanNumber_digits h (by omega) hrest), if_neg (by omega), shiftFrom_skip,
    ← Int.natCast_add, goInt_of_lt hk]

theorem shiftFrom_zero {ds rest : Bytes} (h : parseDigits 0 ds = some 0) (hrest : Ends rest)
    : shiftFrom n 0 (dollar :: (ds ++ rest)) = dollar :: (ds ++ shiftFrom n 0 rest) := by
  rw [shiftFrom_dollar (scanNumber_digits h (by decide) hrest), if_pos Int.natCast_zero,
    shiftFrom_append (dollar_not_mem_of_parseDigits h)]

end Shift

theorem mem_slotsFrom {k : Nat} {ts : List Token} (h : .placeholder k ∈ ts) (lead : Bytes)
    : k ∈ (slotsFrom lead ts).map (·.2) := by
  induction ts generalizing lead with
  | nil => cases h
  | cons t ts ih =>
    cases t with
    | byte b =>
      obtain h | h := List.mem_cons.mp h
      . cases h
      . exact ih h (lead ++ [b])
    | placeholder j =>
      rw [slotsFrom, List.map_cons, List.mem_cons]
      obtain h | h := List.mem_cons.mp h
      . injection h with h
        exact .inl h
      . exact .inr (ih h [])

theorem mem_placeholders {k : Nat} {v : Bytes} (h : .placeholder k ∈ tokens v) : k ∈ placeholders v :=
  mem_slotsFrom h []

theorem tokens_shiftPlaceholders {v : Bytes} {n : Nat} (h : ∀ k ∈ placeholders v, k + n < 2 ^ 63)
    : tokens (shiftPlaceholders v n) = (tokens v).map (Token.shift n) := by
  replace h : ∀ k, .placeholder k ∈ tokens v → k + n < 2 ^ 63 :=
    fun k hk => h k (mem_placeholders hk)
  unfold shiftPlaceholders
  -- on the length, since the digits after a `$` are taken together
  induction hlen : v.length using Nat.strong_induction_on generalizing v with
  | _ len ih =>
    cases v with
    | nil => rfl
    | cons b v =>
      by_cases hb : b = dollar
      . subst hb
        obtain ⟨ds, rest, k, rfl, hds, hrest⟩ := exists_digits v
        have hshort : rest.length < len := by
          rw [← hlen, List.length_cons, List.length_append]
          omega
        have hends := ends_shiftFrom (n := n) hrest
        by_cases hne : ds = []
        . subst hne
          injection hds with hzero
          rw [List.nil_append, tokens_dollar_ends hrest] at h ⊢
          have hkeep : shiftFrom n 0 (dollar :: ([] ++ rest)) = dollar :: ([] ++ shiftFrom n 0 rest) :=
            shiftFrom_zero rfl hrest
          rw [List.nil_append, List.nil_append] at hkeep
          rw [hkeep, tokens_dollar_ends hends,
            ih _ hshort (fun k hk => h k (List.mem_cons_of_mem _ hk)) rfl]
          rfl
        . rw [tokens_parameter hne hds hrest] at h ⊢
          have hrec := ih _ hshort (fun k hk => h k (List.mem_cons_of_mem _ hk)) rfl
          cases k with
          | zero =>
            rw [shiftFrom_zero hds hrest, tokens_parameter hne hds hends, hrec]
            rfl
          | succ k =>
            have hk := h (k + 1) List.mem_cons_self
            rw [shiftFrom_parameter hds (Nat.succ_pos k) hk hrest,
              tokens_parameter (formatInt_ne_nil _) (parseDigits_formatInt _) hends, hrec]
            rfl
      . rw [tokens_cons hb] at h ⊢
        have hshort : v.length < len := by
          rw [← hlen, List.length_cons]
          omega
        rw [shiftFrom_cons hb, tokens_cons hb,
          ih _ hshort (fun k hk => h k (List.mem_cons_of_mem _ hk)) rfl]
        rfl

/--
A piece of a text between two parameters.
-/
structure Plain (v : Bytes) : Prop where
  no_dollar : dollar ∉ v
  ends : Ends v

instance (v : Bytes) : Decidable (Ends v) :=
  inferInstanceAs (Decidable (∀ b ∈ v.head?, isDigit b = false))

instance (v : Bytes) : Decidable (Plain v) :=
  decidable_of_iff (dollar ∉ v ∧ Ends v) ⟨fun h => ⟨h.1, h.2⟩, fun h => ⟨h.no_dollar, h.ends⟩⟩

theorem Ends.append {v : Bytes} (hv : Ends v) (hne : v ≠ []) (w : Bytes) : Ends (v ++ w) := by
  obtain ⟨b, v, rfl⟩ := List.exists_cons_of_ne_nil hne
  exact hv

theorem Plain.append {v w : Bytes} (hv : Plain v) (hw : Plain w) : Plain (v ++ w) where
  no_dollar := by
    rw [List.mem_append, not_or]
    exact ⟨hv.no_dollar, hw.no_dollar⟩
  ends := by
    by_cases hne : v = []
    . rw [hne]
      exact hw.ends
    . exact hv.ends.append hne w

theorem slotsFrom_bytes (lead v : Bytes) (ts : List Token)
    : slotsFrom lead (v.map .byte ++ ts) = slotsFrom (lead ++ v) ts := by
  induction v generalizing lead with
  | nil => rw [List.append_nil]; rfl
  | cons b v ih =>
    rw [List.map_cons, List.cons_append, slotsFrom, ih, List.append_assoc]
    rfl

variable {ps : List (Bytes × Nat)} {tail : Bytes}

theorem ends_render (hps : ∀ p ∈ ps, Plain p.1) (htail : Plain tail) : Ends (render ps tail) := by
  cases ps with
  | nil => exact htail.ends
  | cons p ps =>
    obtain ⟨lead, k⟩ := p
    have hlead := (hps _ List.mem_cons_self).ends
    cases lead with
    | nil =>
      intro b hb
      injection hb with hb
      rw [← hb]
      rfl
    | cons b lead => exact hlead

theorem slots_render (hps : ∀ p ∈ ps, Plain p.1) (htail : Plain tail) : slots (render ps tail) = ps := by
  unfold slots
  induction ps with
  | nil =>
    rw [render, ← List.append_nil tail, tokens_append htail.no_dollar, slotsFrom_bytes]
    rfl
  | cons p ps ih =>
    obtain ⟨lead, k⟩ := p
    rw [List.forall_mem_cons] at hps
    rw [render, tokens_append hps.1.no_dollar, slotsFrom_bytes,
      tokens_parameter (formatInt_ne_nil _) (parseDigits_formatInt _) (ends_render hps.2 htail),
      slotsFrom, ih hps.2]
    rfl

theorem slotsFrom_append (lead lead' : Bytes) (ts : List Token)
    : slotsFrom (lead ++ lead') ts = (slotsFrom lead' ts).modifyHead fun p => (lead ++ p.1, p.2) := by
  induction ts generalizing lead' with
  | nil => rfl
  | cons t ts ih =>
    cases t with
    | byte b =>
      rw [slotsFrom, List.append_assoc]
      exact ih (lead' ++ [b])
    | placeholder k => rfl

theorem slots_append {head : Bytes} (hhead : dollar ∉ head) (v : Bytes)
    : slots (head ++ v) = (slots v).modifyHead fun p => (head ++ p.1, p.2) := by
  have := slotsFrom_append head [] (tokens v)
  rw [List.append_nil] at this
  rw [slots, tokens_append hhead, slotsFrom_bytes, List.nil_append, this]
  rfl

theorem render_append (ps qs : List (Bytes × Nat)) (tail : Bytes)
    : render (ps ++ qs) tail = render ps (render qs tail) := by
  induction ps with
  | nil => rfl
  | cons p ps ih =>
    obtain ⟨lead, k⟩ := p
    rw [List.cons_append, render, ih]
    rfl

theorem shiftPlaceholders_render {n : Nat} (hps : ∀ p ∈ ps, Plain p.1) (htail : Plain tail)
    (hpos : ∀ p ∈ ps, 0 < p.2) (hlt : ∀ p ∈ ps, p.2 + n < 2 ^ 63)
    : shiftPlaceholders (render ps tail) n = render (ps.map fun p => (p.1, p.2 + n)) tail := by
  unfold shiftPlaceholders
  induction ps with
  | nil =>
    have := shiftFrom_append (n := n) htail.no_dollar []
    rwa [List.append_nil, shiftFrom, List.append_nil] at this
  | cons p ps ih =>
    obtain ⟨lead, k⟩ := p
    rw [List.forall_mem_cons] at hps hpos hlt
    rw [render, shiftFrom_append hps.1.no_dollar,
      shiftFrom_parameter (parseDigits_formatInt k) hpos.1 hlt.1 (ends_render hps.2 htail),
      ih hps.2 hpos.2 hlt.2]
    rfl

example : shiftPlaceholders (ascii "thread_count = $9 AND id > $12") 3
    = ascii "thread_count = $12 AND id > $15" := by decide

end Store
end Api
