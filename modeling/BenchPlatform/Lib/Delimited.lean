import Mathlib.Data.List.Basic

/-!
This module contains strings that are put together from named fields with two delimiters, and when
such a string can be taken apart in one way only.
-/

namespace Delimited

variable {α : Type*} {bar eq sep : α}

/--
Each field is written as `bar`, its name, `eq` and its value.
-/
def render (bar eq : α) : List (List α × List α) → List α
  | [] => []
  | (name, value) :: fields => bar :: (name ++ eq :: (value ++ render bar eq fields))

theorem append_cons_inj {a b x y : List α} (ha : sep ∉ a) (hb : sep ∉ b)
    (h : a ++ sep :: x = b ++ sep :: y)
    : a = b ∧ x = y := by
  induction a generalizing b with
  | nil =>
    cases b with
    | nil => simpa using h
    | cons c b =>
      injection h with hc _
      simp [hc] at hb
  | cons c a ih =>
    cases b with
    | nil =>
      injection h with hc _
      simp [hc] at ha
    | cons d b =>
      injection h with hc h
      subst hc
      obtain ⟨rfl, rfl⟩ := ih (List.not_mem_of_not_mem_cons ha) (List.not_mem_of_not_mem_cons hb) h
      exact ⟨rfl, rfl⟩

theorem append_cons_inj_last {a b x y : List α} (hx : sep ∉ x) (hy : sep ∉ y)
    (h : a ++ sep :: x = b ++ sep :: y)
    : a = b ∧ x = y := by
  have hreverse : x.reverse ++ sep :: a.reverse = y.reverse ++ sep :: b.reverse := by
    simpa using congrArg List.reverse h
  obtain ⟨hxy, hab⟩ := append_cons_inj (by simpa using hx) (by simpa using hy) hreverse
  exact ⟨List.reverse_injective hab, List.reverse_injective hxy⟩

def mark (bar eq : α) (name : List α) : List α :=
  bar :: (name ++ [eq])

/--
What follows a value: nothing, or a field with one of the names.
-/
def Follows (bar eq : α) (names : List (List α)) (t : List α) : Prop :=
  t = [] ∨ ∃ name ∈ names, ∃ x, t = mark bar eq name ++ x

variable {names : List (List α)}

theorem eq_nil_of_follows {v d t t' : List α} (hnames : ∀ name ∈ names, bar ∉ name)
    (hbar : bar ≠ eq) (hv : ∀ name ∈ names, ¬mark bar eq name <:+: v ++ d)
    (ht : Follows bar eq names t) (ht' : Follows bar eq names t') (h : t = d ++ t')
    : d = [] := by
  cases d with
  | nil => rfl
  | cons c d =>
    obtain rfl | ⟨name, hname, x, rfl⟩ := ht
    . cases h
    . exfalso
      simp only [mark, List.cons_append, List.append_assoc, List.cons.injEq] at h
      obtain ⟨rfl, h⟩ := h
      obtain ⟨e, hd, hx⟩ | ⟨e, hn, ht⟩ := List.append_eq_append_iff.mp
        ((List.append_assoc name [eq] x).trans h)
      . -- the mark lies in the value
        apply hv name hname
        rw [hd]
        exact ⟨v, e, by simp [mark]⟩
      . -- the mark goes beyond the value, where the next field begins
        obtain rfl | ⟨name', _, y, rfl⟩ := ht'
        . obtain ⟨rfl, rfl⟩ := List.append_eq_nil_iff.mp ht.symm
          apply hv name hname
          exact ⟨v, [], by simp [mark, hn]⟩
        . cases e with
          | nil =>
            apply hv name hname
            exact ⟨v, [], by simp [mark, hn]⟩
          | cons b e =>
            injection ht with hb _
            have hmem : b ∈ name ++ [eq] := by simp [hn]
            rw [← hb, List.mem_append, List.mem_singleton] at hmem
            obtain hmem | hmem := hmem
            . exact hnames name hname hmem
            . exact hbar hmem

theorem value_inj {v w t t' : List α} (hnames : ∀ name ∈ names, bar ∉ name) (hbar : bar ≠ eq)
    (hv : ∀ name ∈ names, ¬mark bar eq name <:+: v)
    (hw : ∀ name ∈ names, ¬mark bar eq name <:+: w) (ht : Follows bar eq names t)
    (ht' : Follows bar eq names t') (h : v ++ t = w ++ t')
    : v = w ∧ t = t' := by
  obtain ⟨d, rfl, hd⟩ | ⟨d, rfl, hd⟩ := List.append_eq_append_iff.mp h
  . have := eq_nil_of_follows hnames hbar hw ht ht' hd
    subst this
    simpa using hd
  . have := eq_nil_of_follows hnames hbar hv ht' ht hd
    subst this
    simpa using hd.symm

theorem follows_render {fs : List (List α × List α)} {t : List α} (hfs : ∀ f ∈ fs, f.1 ∈ names)
    (ht : Follows bar eq names t)
    : Follows bar eq names (render bar eq fs ++ t) := by
  cases fs with
  | nil => exact ht
  | cons f fs => exact .inr ⟨f.1, hfs f List.mem_cons_self, _, by simp [render, mark]; rfl⟩

/--
A list of fields can be read back from what is written if no value contains the mark of a field. A
last field with one of the names in `lasts` may follow, whose value is arbitrary.
-/
theorem render_inj {fs gs : List (List α × List α)} {lasts : List (List α)}
    {t t' : List α}
    (hnames : ∀ name ∈ names, bar ∉ name ∧ eq ∉ name) (hbar : bar ≠ eq) (hlasts : lasts ⊆ names)
    (hfs : ∀ f ∈ fs, f.1 ∈ names ∧ f.1 ∉ lasts ∧ ∀ name ∈ names, ¬mark bar eq name <:+: f.2)
    (hgs : ∀ g ∈ gs, g.1 ∈ names ∧ g.1 ∉ lasts ∧ ∀ name ∈ names, ¬mark bar eq name <:+: g.2)
    (ht : Follows bar eq lasts t) (ht' : Follows bar eq lasts t')
    (h : render bar eq fs ++ t = render bar eq gs ++ t')
    : fs = gs ∧ t = t' := by
  -- a field is not taken for the last one
  have hne : ∀ {g : List α × List α} {gs x t}, g.1 ∈ names → g.1 ∉ lasts →
      Follows bar eq lasts t → t ≠ render bar eq (g :: gs) ++ x := by
    intro g gs x t hg hgl ht heq
    obtain rfl | ⟨name, hname, y, rfl⟩ := ht
    . cases heq
    . simp only [render, mark, List.cons_append, List.append_assoc, List.cons.injEq,
        true_and] at heq
      have := (append_cons_inj (hnames name (hlasts hname)).2 (hnames _ hg).2 heq).1
      subst this
      exact hgl hname
  have hmono : ∀ {t}, Follows bar eq lasts t → Follows bar eq names t := by
    rintro t (rfl | ⟨name, hname, x, rfl⟩)
    . exact .inl rfl
    . exact .inr ⟨name, hlasts hname, x, rfl⟩
  induction fs generalizing gs with
  | nil =>
    cases gs with
    | nil => exact ⟨rfl, h⟩
    | cons g gs =>
      obtain ⟨hmem, hgl, _⟩ := hgs g List.mem_cons_self
      exact absurd h (hne hmem hgl ht)
  | cons f fs ih =>
    obtain ⟨hmem, hfl, hval⟩ := hfs f List.mem_cons_self
    cases gs with
    | nil => exact absurd h.symm (hne hmem hfl ht')
    | cons g gs =>
      obtain ⟨hmem', _, hval'⟩ := hgs g List.mem_cons_self
      simp only [render, List.cons_append, List.append_assoc] at h
      injection h with _ h
      obtain ⟨hn, h⟩ := append_cons_inj (hnames _ hmem).2 (hnames _ hmem').2 h
      have hfs' := fun f hf => hfs f (List.mem_cons_of_mem _ hf)
      have hgs' := fun g hg => hgs g (List.mem_cons_of_mem _ hg)
      obtain ⟨hv, h⟩ := value_inj (fun name h => (hnames name h).1) hbar hval hval'
        (follows_render (fun f hf => (hfs' f hf).1) (hmono ht))
        (follows_render (fun g hg => (hgs' g hg).1) (hmono ht')) h
      obtain ⟨rfl, htt⟩ := ih hfs' hgs' h
      rw [Prod.ext hn hv]
      exact ⟨rfl, htt⟩

theorem notMem_of_mem_splitOn [BEq α] [LawfulBEq α] {l xs : List α} (h : l ∈ xs.splitOn sep)
    : sep ∉ l := by
  induction xs generalizing l with
  | nil =>
    simp at h
    simp [h]
  | cons x xs ih =>
    rw [List.splitOn_cons_eq_if_modifyHead] at h
    split at h
    . obtain rfl | h := List.mem_cons.mp h
      . simp
      . exact ih h
    . rename_i hx
      cases hsplit : xs.splitOn sep with
      | nil => simp [hsplit] at h
      | cons m ms =>
        rw [hsplit, List.modifyHead_cons] at h
        obtain rfl | h := List.mem_cons.mp h
        . have := ih (l := m) (by simp [hsplit])
          simp only [beq_iff_eq] at hx
          simp [this, Ne.symm hx]
        . exact ih (by simp [hsplit, h])

theorem exists_infix_of_infix_intercalate {m : List α} {ls : List (List α)} (hm : sep ∉ m)
    (hne : m ≠ []) (h : m <:+: [sep].intercalate ls)
    : ∃ l ∈ ls, m <:+: l := by
  induction ls with
  | nil => exact absurd (List.infix_nil.mp h) hne
  | cons l ls ih =>
    cases ls with
    | nil => exact ⟨l, by simp, by simpa using h⟩
    | cons l' ls =>
      obtain ⟨p, s, h⟩ := h
      rw [List.intercalate_cons_cons, List.append_assoc l, List.singleton_append] at h
      obtain ⟨e, hl, _⟩ | ⟨e, hpm, hs⟩ := List.append_eq_append_iff.mp h
      . exact ⟨l, List.mem_cons_self, p, e, hl.symm⟩
      . cases e with
        | nil => exact ⟨l, List.mem_cons_self, p, [], by simpa using hpm⟩
        | cons c e =>
          injection hs with hc hs
          subst hc
          obtain ⟨f, _, hf⟩ | ⟨f, _, hf⟩ := List.append_eq_append_iff.mp hpm
          . simp [hf] at hm
          . cases f with
            | nil =>
              rw [List.nil_append] at hf
              simp [← hf] at hm
            | cons d f =>
              injection hf with _ hf
              obtain ⟨k, hk, hin⟩ := ih ⟨f, s, by rw [hs, hf]; rfl⟩
              exact ⟨k, List.mem_cons_of_mem _ hk, hin⟩

theorem head_of_intercalate {v w : List α} {vs ws : List (List α)} (hv : sep ∉ v) (hw : sep ∉ w)
    (h : [sep].intercalate (v :: vs) = [sep].intercalate (w :: ws))
    : v = w := by
  have hcons : ∀ (v : List α) vs, ∃ rest, [sep].intercalate (v :: vs) ++ [sep] = v ++ sep :: rest := by
    intro v vs
    cases vs with
    | nil => exact ⟨[], by simp⟩
    | cons u vs => exact ⟨_, by rw [List.intercalate_cons_cons, List.append_assoc, List.append_assoc]; rfl⟩
  obtain ⟨r, hr⟩ := hcons v vs
  obtain ⟨s, hs⟩ := hcons w ws
  apply (append_cons_inj hv hw _).1
  . exact r
  . exact s
  . rw [← hr, ← hs, h]

end Delimited
