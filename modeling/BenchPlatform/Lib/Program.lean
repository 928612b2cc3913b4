import Mathlib.Data.List.Forall2

/-!
This module contains rules for programs that may fail and keep their state when they do: when a
composed program returns, and what its steps leave alone. Programs that hand items to a callback are
determined by the items that they hand over.
-/

namespace Program

variable {ε ε' σ α β ι κ : Type}

theorem except_bind_eq_ok {x : Except ε α} {f : α → Except ε β} {b : β}
    : (x >>= f) = .ok b ↔ ∃ a, x = .ok a ∧ f a = .ok b := by
  cases x <;> simp [bind, Except.bind]

theorem except_map_eq_ok {x : Except ε α} {f : α → β} {b : β}
    : f <$> x = .ok b ↔ ∃ a, x = .ok a ∧ f a = b := by
  cases x <;> simp [Functor.map, Except.map]

theorem except_mapError_eq_ok {f : ε → ε'} {x : Except ε α} {a : α}
    : x.mapError f = .ok a ↔ x = .ok a := by
  cases x <;> simp [Except.mapError]

theorem mapM_eq_ok {f : α → Except ε β} {l : List α} {l' : List β}
    : l.mapM f = .ok l' ↔ List.Forall₂ (fun a b => f a = .ok b) l l' := by
  induction l generalizing l' with
  | nil => simp [pure, Except.pure, eq_comm]
  | cons a l ih =>
    rw [List.mapM_cons, List.forall₂_cons_left_iff, except_bind_eq_ok]
    simp only [except_bind_eq_ok, ih, pure, Except.pure, Except.ok.injEq]
    constructor
    . rintro ⟨b, hb, l', hl, rfl⟩
      exact ⟨b, l', hb, hl, rfl⟩
    . rintro ⟨b, l', hb, hl, rfl⟩
      exact ⟨b, hb, l', hl, rfl⟩

theorem exists_of_forall₂_right {R : α → β → Prop} {l : List α} {l' : List β} {b : β}
    (h : List.Forall₂ R l l') (hb : b ∈ l')
    : ∃ a ∈ l, R a b := by
  induction h with
  | nil => cases hb
  | cons hab _ ih =>
    obtain rfl | hb := List.mem_cons.mp hb
    . exact ⟨_, List.mem_cons_self, hab⟩
    . obtain ⟨a, ha, hr⟩ := ih hb
      exact ⟨a, List.mem_cons_of_mem _ ha, hr⟩

theorem forall₂_trans {γ : Type} {R : α → β → Prop} {S : β → γ → Prop} {T : α → γ → Prop}
    (h : ∀ a b c, R a b → S b c → T a c) {l : List α} {l' : List β} {l'' : List γ}
    (hl : List.Forall₂ R l l') (hl' : List.Forall₂ S l' l'')
    : List.Forall₂ T l l'' := by
  induction hl generalizing l'' with
  | nil =>
    cases hl'
    exact .nil
  | cons hab _ ih =>
    cases hl' with
    | cons hbc hrest => exact .cons (h _ _ _ hab hbc) (ih hrest)

theorem exists_of_mem_mapM {f : α → Except ε β} {l : List α} {l' : List β} {b : β}
    (h : l.mapM f = .ok l') (hb : b ∈ l')
    : ∃ a ∈ l, f a = .ok b := by
  have hall := mapM_eq_ok.mp h
  clear h
  induction hall with
  | nil => cases hb
  | cons hab _ ih =>
    obtain rfl | hb := List.mem_cons.mp hb
    . exact ⟨_, List.mem_cons_self, hab⟩
    . obtain ⟨a, ha, hf⟩ := ih hb
      exact ⟨a, List.mem_cons_of_mem _ ha, hf⟩

theorem mem_of_mapM {f : α → Except ε β} {l : List α} {l' : List β} {a : α} {b : β}
    (h : l.mapM f = .ok l') (ha : a ∈ l) (hb : f a = .ok b)
    : b ∈ l' := by
  have hall := mapM_eq_ok.mp h
  clear h
  induction hall with
  | nil => cases ha
  | cons hhead _ ih =>
    obtain rfl | ha := List.mem_cons.mp ha
    . cases hhead.symm.trans hb
      exact List.mem_cons_self
    . exact List.mem_cons_of_mem _ (ih ha)

theorem exists_of_mapM {f : α → Except ε β} {l : List α} {l' : List β} {a : α}
    (h : l.mapM f = .ok l') (ha : a ∈ l)
    : ∃ b, f a = .ok b := by
  have hall := mapM_eq_ok.mp h
  clear h
  induction hall with
  | nil => cases ha
  | cons hhead _ ih =>
    obtain rfl | ha := List.mem_cons.mp ha
    . exact ⟨_, hhead⟩
    . exact ih ha

theorem exists_mapM {f : α → Except ε β} {l : List α} (h : ∀ a ∈ l, ∃ b, f a = .ok b)
    : ∃ l', l.mapM f = .ok l' := by
  induction l with
  | nil => exact ⟨[], rfl⟩
  | cons a l ih =>
    rw [List.forall_mem_cons] at h
    obtain ⟨b, hb⟩ := h.1
    obtain ⟨l', hl'⟩ := ih h.2
    exact ⟨b :: l', mapM_eq_ok.mpr (.cons hb (mapM_eq_ok.mp hl'))⟩

theorem mapM_map_eq_ok {γ : Type} {f : α → Except ε β} {g : γ → α} {k : γ → β} {l : List γ}
    (h : ∀ c ∈ l, f (g c) = .ok (k c))
    : (l.map g).mapM f = .ok (l.map k) := by
  rw [mapM_eq_ok, List.forall₂_map_left_iff, List.forall₂_map_right_iff]
  exact List.forall₂_same.mpr h

theorem mapM_append_eq_ok {f : α → Except ε β} {l₁ l₂ : List α} {l' : List β}
    : (l₁ ++ l₂).mapM f = .ok l'
      ↔ ∃ l₁' l₂', l₁.mapM f = .ok l₁' ∧ l₂.mapM f = .ok l₂' ∧ l' = l₁' ++ l₂' := by
  rw [List.mapM_append]
  simp only [except_bind_eq_ok, pure, Except.pure, Except.ok.injEq]
  constructor
  . rintro ⟨l₁', h₁, l₂', h₂, rfl⟩
    exact ⟨l₁', l₂', h₁, h₂, rfl⟩
  . rintro ⟨l₁', l₂', h₁, h₂, rfl⟩
    exact ⟨l₁', h₁, l₂', h₂, rfl⟩

theorem mapM_bind_eq_ok {γ : Type} {f : α → Except ε β} {g : β → Except ε γ} {l : List α}
    {l' : List γ}
    : l.mapM (fun a => f a >>= g) = .ok l' ↔ ∃ m, l.mapM f = .ok m ∧ m.mapM g = .ok l' := by
  induction l generalizing l' with
  | nil => simp [pure, Except.pure]
  | cons a l ih =>
    simp only [List.mapM_cons, except_bind_eq_ok, ih]
    constructor
    . rintro ⟨c, ⟨b, hf, hg⟩, cs, ⟨m, hfs, hgs⟩, hpure⟩
      refine ⟨b :: m, ⟨b, hf, m, hfs, rfl⟩, ?_⟩
      rw [List.mapM_cons]
      exact except_bind_eq_ok.mpr ⟨c, hg, except_bind_eq_ok.mpr ⟨cs, hgs, hpure⟩⟩
    . rintro ⟨m', ⟨b, hf, m, hfs, hm⟩, h⟩
      injection hm with hm
      subst hm
      rw [List.mapM_cons] at h
      obtain ⟨c, hg, h⟩ := except_bind_eq_ok.mp h
      obtain ⟨cs, hgs, hpure⟩ := except_bind_eq_ok.mp h
      exact ⟨c, ⟨b, hf, hg⟩, cs, ⟨m, hfs, hgs⟩, hpure⟩

/--
The errors of an outcome satisfy `P`.
-/
def Fails (P : ε → Prop) (x : Except ε α) : Prop :=
  ∀ err, x = .error err → P err

namespace Fails

variable {P : ε → Prop} {P' : ε' → Prop} {x y : Except ε α}

theorem ok {a : α} : Fails P (.ok a : Except ε α) := by
  intro err h
  cases h

theorem error {err : ε} (h : P err) : Fails P (.error err : Except ε α) := by
  intro err' heq
  cases heq
  exact h

theorem bind {f : α → Except ε β} (hx : Fails P x) (hf : ∀ a, Fails P (f a)) : Fails P (x >>= f) := by
  intro err h
  cases x with
  | ok a => exact hf a err h
  | error err' =>
    cases h
    exact hx err rfl

theorem map {f : α → β} (hx : Fails P x) : Fails P (f <$> x) := by
  intro err h
  cases x with
  | ok a => cases h
  | error err' =>
    cases h
    exact hx err rfl

theorem mapError {f : ε → ε'} (hx : Fails P x) (h : ∀ err, P err → P' (f err)) : Fails P' (x.mapError f) := by
  intro err heq
  cases x with
  | ok a => cases heq
  | error err' =>
    cases heq
    exact h err' (hx err' rfl)

theorem any : Fails (fun _ => True) x :=
  fun _ _ => trivial

theorem ite {c : Prop} [Decidable c] (hx : Fails P x) (hy : Fails P y) : Fails P (if c then x else y) := by
  split
  . exact hx
  . exact hy

theorem mapM {f : α → Except ε β} (h : ∀ a, Fails P (f a)) (l : List α) : Fails P (l.mapM f) := by
  induction l with
  | nil => exact ok
  | cons a l ih =>
    rw [List.mapM_cons]
    exact (h a).bind fun _ => ih.bind fun _ => ok

theorem foldlM {f : α → β → Except ε α} (h : ∀ a b, Fails P (f a b)) (l : List β) (a : α) : Fails P (l.foldlM f a) := by
  induction l generalizing a with
  | nil => exact ok
  | cons b l ih =>
    rw [List.foldlM_cons]
    exact (h a b).bind fun _ => ih _

end Fails

theorem bind_eq_ok {x : EStateM ε σ α} {f : α → EStateM ε σ β} {s s' : σ} {b : β}
    : (x >>= f) s = .ok b s' ↔ ∃ a t, x s = .ok a t ∧ f a t = .ok b s' := by
  change EStateM.bind x f s = _ ↔ _
  unfold EStateM.bind
  cases x s <;> simp

theorem bind_eq_error {x : EStateM ε σ α} {f : α → EStateM ε σ β} {s s' : σ} {err : ε}
    : (x >>= f) s = .error err s'
      ↔ x s = .error err s' ∨ ∃ a t, x s = .ok a t ∧ f a t = .error err s' := by
  change EStateM.bind x f s = _ ↔ _
  unfold EStateM.bind
  cases x s <;> simp

theorem bind_of_ok {x : EStateM ε σ α} {f : α → EStateM ε σ β} {s t : σ} {a : α} (h : x s = .ok a t)
    : (x >>= f) s = f a t := by
  change EStateM.bind x f s = _
  rw [EStateM.bind, h]

theorem bind_of_error {x : EStateM ε σ α} {f : α → EStateM ε σ β} {s t : σ} {err : ε}
    (h : x s = .error err t)
    : (x >>= f) s = .error err t := by
  change EStateM.bind x f s = _
  rw [EStateM.bind, h]

theorem bind_congr_ok {x : EStateM ε σ α} {f g : α → EStateM ε σ β} {s : σ}
    (h : ∀ a t, x s = .ok a t → f a t = g a t)
    : (x >>= f) s = (x >>= g) s := by
  cases hx : x s with
  | ok a t => rw [bind_of_ok hx, bind_of_ok hx, h a t hx]
  | error err t => rw [bind_of_error hx, bind_of_error hx]

theorem bind_congr_left {x y : EStateM ε σ α} {f : α → EStateM ε σ β} {s : σ} (h : x s = y s)
    : (x >>= f) s = (y >>= f) s := by
  change EStateM.bind x f s = EStateM.bind y f s
  rw [EStateM.bind, EStateM.bind, h]

@[simp]
theorem pure_apply {s : σ} {a : α} : (pure a : EStateM ε σ α) s = .ok a s := rfl

@[simp]
theorem throw_apply {s : σ} {err : ε} : (throw err : EStateM ε σ α) s = .error err s := rfl

theorem adaptExcept_eq_ok {x : EStateM ε σ α} {f : ε → ε'} {s s' : σ} {a : α}
    : x.adaptExcept f s = .ok a s' ↔ x s = .ok a s' := by
  unfold EStateM.adaptExcept
  cases x s <;> simp

theorem adaptExcept_eq_error {x : EStateM ε σ α} {f : ε → ε'} {s s' : σ} {err' : ε'}
    : x.adaptExcept f s = .error err' s' ↔ ∃ err, x s = .error err s' ∧ f err = err' := by
  unfold EStateM.adaptExcept
  cases x s <;> simp [and_comm]

def final : EStateM.Result ε σ α → σ
  | .ok _ s => s
  | .error _ s => s

def returned : EStateM.Result ε σ α → Option α
  | .ok a _ => some a
  | .error _ _ => none

theorem returned_eq_some {r : EStateM.Result ε σ α} {a : α}
    : returned r = some a ↔ ∃ s, r = .ok a s := by
  cases r <;> simp [returned]

/--
`x` returns what `P` says or fails, and leaves the state as it is.
-/
structure Returns (x : EStateM ε σ α) (P : α → Prop) : Prop where
  eq_ok : ∀ s a s', x s = .ok a s' ↔ P a ∧ s' = s
  eq_error : ∀ s err s', x s = .error err s' → s' = s

namespace Returns

variable {x : EStateM ε σ α} {P : α → Prop}

theorem pure {a : α} : Returns (Pure.pure a : EStateM ε σ α) (· = a) where
  eq_ok s b s' := by
    rw [pure_apply, EStateM.Result.ok.injEq]
    exact and_congr eq_comm eq_comm
  eq_error s err s' h := by
    rw [pure_apply] at h
    cases h

theorem throw {err : ε} : Returns (MonadExcept.throw err : EStateM ε σ α) fun _ => False where
  eq_ok s a s' := by
    constructor
    . intro h
      rw [throw_apply] at h
      cases h
    . intro h
      exact h.1.elim
  eq_error s err' s' h := by
    rw [throw_apply] at h
    injection h with _ hs
    exact hs.symm

theorem bind {f : α → EStateM ε σ β} {Q : α → β → Prop} (hx : Returns x P)
    (hf : ∀ a, P a → Returns (f a) (Q a))
    : Returns (x >>= f) fun b => ∃ a, P a ∧ Q a b where
  eq_ok s b s' := by
    rw [bind_eq_ok]
    simp only [hx.eq_ok]
    constructor
    . rintro ⟨a, _, ⟨ha, rfl⟩, hb⟩
      obtain ⟨hb, hs⟩ := ((hf a ha).eq_ok _ b s').mp hb
      exact ⟨⟨a, ha, hb⟩, hs⟩
    . rintro ⟨⟨a, ha, hb⟩, hs⟩
      exact ⟨a, s, ⟨ha, rfl⟩, ((hf a ha).eq_ok s b s').mpr ⟨hb, hs⟩⟩
  eq_error s err s' h := by
    obtain h | ⟨a, t, hok, h⟩ := bind_eq_error.mp h
    . exact hx.eq_error s err s' h
    . obtain ⟨ha, ht⟩ := (hx.eq_ok s a t).mp hok
      rw [(hf a ha).eq_error t err s' h, ht]

theorem adaptExcept {f : ε → ε} (hx : Returns x P) : Returns (x.adaptExcept f) P where
  eq_ok s a s' := by
    rw [adaptExcept_eq_ok]
    exact hx.eq_ok s a s'
  eq_error s err s' h := by
    unfold EStateM.adaptExcept at h
    cases hs : x s with
    | ok a t =>
      rw [hs] at h
      cases h
    | error err' t =>
      rw [hs] at h
      injection h with _ ht
      rw [← ht]
      exact hx.eq_error s err' t hs

theorem congr {Q : α → Prop} (hx : Returns x P) (h : ∀ a, P a ↔ Q a) : Returns x Q where
  eq_ok s a s' := by
    rw [← h a]
    exact hx.eq_ok s a s'
  eq_error := hx.eq_error

theorem fails (hx : Returns x P) (h : ∀ a, ¬P a) (s : σ) : ∃ err, x s = .error err s := by
  cases hs : x s with
  | ok a t => exact absurd ((hx.eq_ok s a t).mp hs).1 (h a)
  | error err t => exact ⟨err, by rw [hx.eq_error s err t hs]⟩

theorem returns (hx : Returns x P) {a : α} (h : P a) (s : σ) : x s = .ok a s :=
  (hx.eq_ok s a s).mpr ⟨h, rfl⟩

end Returns

/--
Wherever `P` holds it still holds when `x` has run.
-/
def Keeps (P : σ → Prop) (x : EStateM ε σ α) : Prop :=
  ∀ s, P s → P (final (x s))

namespace Keeps

variable {P : σ → Prop}

theorem pure {a : α} : Keeps P (pure a : EStateM ε σ α) :=
  fun _ h => h

theorem throw {err : ε} : Keeps P (throw err : EStateM ε σ α) :=
  fun _ h => h

theorem bind {x : EStateM ε σ α} {f : α → EStateM ε σ β} (hx : Keeps P x) (hf : ∀ a, Keeps P (f a))
    : Keeps P (x >>= f) := by
  intro s h
  have hx := hx s h
  cases hs : x s with
  | ok a t =>
    rw [bind_of_ok hs]
    rw [hs] at hx
    exact hf a t hx
  | error err t =>
    rw [bind_of_error hs]
    rw [hs] at hx
    exact hx

theorem adaptExcept {x : EStateM ε σ α} {f : ε → ε'} (hx : Keeps P x)
    : Keeps P (x.adaptExcept f) := by
  intro s h
  have hx := hx s h
  unfold EStateM.adaptExcept
  cases hs : x s <;> (rw [hs] at hx; exact hx)

theorem ite {c : Prop} [Decidable c] {x y : EStateM ε σ α} (hx : Keeps P x) (hy : Keeps P y)
    : Keeps P (if c then x else y) := by
  split
  . exact hx
  . exact hy

end Keeps

abbrev Callback (ε ι σ : Type) : Type :=
  ι → EStateM ε σ Unit

abbrev Sender (ε ι α : Type) : Type 1 :=
  ∀ σ : Type, Callback ε ι σ → EStateM ε σ α

def record : Callback ε ι (List ι) :=
  fun i log => .ok () (log ++ [i])

def feed (fn : Callback ε ι σ) : List ι → EStateM ε σ Unit
  | [] => pure ()
  | i :: is => do
    fn i
    feed fn is

theorem feed_append_eq_ok {fn : Callback ε ι σ} {is js : List ι} {s s' : σ}
    : feed fn (is ++ js) s = .ok () s' ↔ ∃ t, feed fn is s = .ok () t ∧ feed fn js t = .ok () s' := by
  induction is generalizing s with
  | nil => simp [feed]
  | cons i is ih =>
    simp only [List.cons_append, feed, bind_eq_ok, ih]
    constructor
    . rintro ⟨_, t, hi, t', his, hjs⟩
      exact ⟨t', ⟨_, t, hi, his⟩, hjs⟩
    . rintro ⟨t', ⟨_, t, hi, his⟩, hjs⟩
      exact ⟨_, t, hi, t', his, hjs⟩

@[simp]
theorem feed_record {is log : List ι}
    : feed (record : Callback ε ι (List ι)) is log = .ok () (log ++ is) := by
  induction is generalizing log with
  | nil => simp [feed]
  | cons i is ih =>
    have hcall : (record i : EStateM ε (List ι) Unit) log = .ok () (log ++ [i]) := rfl
    rw [feed, bind_of_ok hcall, ih, List.append_assoc, List.singleton_append]

theorem feed_append_eq_error {fn : Callback ε ι σ} {is js : List ι} {s s' : σ} {err : ε}
    : feed fn (is ++ js) s = .error err s' ↔ feed fn is s = .error err s'
      ∨ ∃ t, feed fn is s = .ok () t ∧ feed fn js t = .error err s' := by
  induction is generalizing s with
  | nil => simp [feed]
  | cons i is ih =>
    simp only [List.cons_append, feed, bind_eq_ok, bind_eq_error, ih]
    constructor
    . rintro (hi | ⟨a, t, hi, his | ⟨t', his, hjs⟩⟩)
      . exact .inl (.inl hi)
      . exact .inl (.inr ⟨a, t, hi, his⟩)
      . exact .inr ⟨t', ⟨a, t, hi, his⟩, hjs⟩
    . rintro ((hi | ⟨a, t, hi, his⟩) | ⟨t', ⟨a, t, hi, his⟩, hjs⟩)
      . exact .inl hi
      . exact .inr ⟨a, t, hi, .inl his⟩
      . exact .inr ⟨a, t, hi, .inr ⟨t', his, hjs⟩⟩

/--
A sender does what it does with `record` if its callback accepts the items that are handed over to it. Otherwise it
fails as the callback does, up to what `c` does not see of an error.
-/
structure Sends (c : ε → κ) (x : Sender ε ι α) : Prop where
  eq_ok : ∀ (σ : Type) (fn : Callback ε ι σ) s a s',
    x σ fn s = .ok a s' ↔ ∃ log, x _ record [] = .ok a log ∧ feed fn log s = .ok () s'
  eq_error : ∀ (σ : Type) (fn : Callback ε ι σ) s err s' log,
    x _ record [] = .error err log → feed fn log s = .ok () s' → x σ fn s = .error err s'
  stops : ∀ (σ : Type) (fn : Callback ε ι σ) s err s',
    feed fn (final (x _ record [])) s = .error err s' → ∃ err', c err' = c err ∧ x σ fn s = .error err' s'
  keeps : ∀ (σ : Type) (fn : Callback ε ι σ) (P : σ → Prop), (∀ i, Keeps P (fn i)) → Keeps P (x σ fn)

namespace Sends

variable {c : ε → κ}

theorem pure {a : α} : Sends c ((fun _ _ => pure a) : Sender ε ι α) where
  eq_ok := by
    intro σ fn s b s'
    simp only [pure_apply, EStateM.Result.ok.injEq]
    constructor
    . rintro ⟨rfl, rfl⟩
      exact ⟨[], ⟨rfl, rfl⟩, rfl⟩
    . rintro ⟨_, ⟨rfl, rfl⟩, h⟩
      injection h with _ h
      exact ⟨rfl, h⟩
  eq_error := by
    intro σ fn s err s' log h
    cases h
  stops := by
    intro σ fn s err s' h
    cases h
  keeps := fun _ _ _ _ => Keeps.pure

theorem throw {err : ε} : Sends c ((fun _ _ => throw err) : Sender ε ι α) where
  eq_ok := by simp
  eq_error := by
    intro σ fn s err' s' log h hfeed
    injection h with herr hlog
    subst herr hlog
    injection hfeed with _ hs
    subst hs
    rfl
  stops := by
    intro σ fn s err' s' h
    cases h
  keeps := fun _ _ _ _ => Keeps.throw

theorem call {i : ι} : Sends c ((fun _ fn => fn i) : Sender ε ι Unit) where
  eq_ok := by
    intro σ fn s a s'
    constructor
    . intro h
      refine ⟨[i], rfl, ?_⟩
      rw [feed, bind_of_ok h]
      rfl
    . rintro ⟨log, hlog, h⟩
      injection hlog with _ hlog
      subst hlog
      obtain ⟨_, t, hi, h⟩ := bind_eq_ok.mp h
      injection h with _ h
      subst h
      exact hi
  eq_error := by
    intro σ fn s err s' log h
    cases h
  stops := by
    intro σ fn s err s' h
    obtain h | ⟨_, t, _, h⟩ := bind_eq_error.mp h
    . exact ⟨err, rfl, h⟩
    . cases h
  keeps := fun _ _ _ hfn => hfn i

theorem record_from {x : Sender ε ι α} (hx : Sends c x) (log : List ι)
    : (∀ a log', x _ record [] = .ok a log' → x _ record log = .ok a (log ++ log'))
      ∧ ∀ err log', x _ record [] = .error err log' → x _ record log = .error err (log ++ log') :=
  ⟨fun _ log' h => (hx.eq_ok ..).mpr ⟨log', h, feed_record⟩, fun _ log' h => hx.eq_error _ _ _ _ _ log' h feed_record⟩

theorem bind {x : Sender ε ι α} {f : α → Sender ε ι β} (hx : Sends c x) (hf : ∀ a, Sends c (f a))
    : Sends c fun σ fn => x σ fn >>= fun a => f a σ fn where
  eq_ok := by
    intro σ fn s b s'
    simp only [bind_eq_ok]
    constructor
    . rintro ⟨a, t, hxs, hfs⟩
      obtain ⟨log, hlog, hfeed⟩ := (hx.eq_ok ..).mp hxs
      obtain ⟨log', hlog', hfeed'⟩ := ((hf a).eq_ok ..).mp hfs
      exact ⟨log ++ log', ⟨a, log, hlog, ((hf a).record_from log).1 _ _ hlog'⟩,
        feed_append_eq_ok.mpr ⟨t, hfeed, hfeed'⟩⟩
    . rintro ⟨log'', ⟨a, log, hlog, hrest⟩, hfeed⟩
      obtain ⟨log', hlog', hrecord⟩ := ((hf a).eq_ok ..).mp hrest
      rw [feed_record] at hrecord
      injection hrecord with _ hrecord
      subst hrecord
      obtain ⟨t, hfeed, hfeed'⟩ := feed_append_eq_ok.mp hfeed
      exact ⟨a, t, (hx.eq_ok ..).mpr ⟨log, hlog, hfeed⟩, ((hf a).eq_ok ..).mpr ⟨log', hlog', hfeed'⟩⟩
  eq_error := by
    intro σ fn s err s' log'' h hfeed
    obtain h | ⟨a, log, hlog, hrest⟩ := bind_eq_error.mp h
    . exact bind_of_error (hx.eq_error σ fn s err s' log'' h hfeed)
    . cases hsecond : f a _ record [] with
      | ok b log' =>
        rw [((hf a).record_from log).1 b log' hsecond] at hrest
        cases hrest
      | error err' log' =>
        rw [((hf a).record_from log).2 err' log' hsecond] at hrest
        injection hrest with herr hlog''
        subst herr hlog''
        obtain ⟨t, hfeed, hfeed'⟩ := feed_append_eq_ok.mp hfeed
        rw [bind_of_ok ((hx.eq_ok σ fn s a t).mpr ⟨log, hlog, hfeed⟩)]
        exact (hf a).eq_error σ fn t err' s' log' hsecond hfeed'
  stops := by
    intro σ fn s err s' h
    cases hfirst : x _ record [] with
    | error err₁ log =>
      rw [bind_of_error hfirst] at h
      obtain ⟨err', hsame, hstop⟩ := hx.stops σ fn s err s' (hfirst ▸ h)
      exact ⟨err', hsame, bind_of_error hstop⟩
    | ok a log =>
      have hrest : final (f a _ record log) = log ++ final (f a _ record []) := by
        cases hsecond : f a _ record [] with
        | ok b log' => rw [((hf a).record_from log).1 b log' hsecond, final, final]
        | error err' log' => rw [((hf a).record_from log).2 err' log' hsecond, final, final]
      rw [bind_of_ok hfirst, hrest] at h
      obtain h | ⟨t, hfeed, h⟩ := feed_append_eq_error.mp h
      . obtain ⟨err', hsame, hstop⟩ := hx.stops σ fn s err s' (hfirst ▸ h)
        exact ⟨err', hsame, bind_of_error hstop⟩
      . obtain ⟨err', hsame, hstop⟩ := (hf a).stops σ fn t err s' h
        refine ⟨err', hsame, ?_⟩
        rw [bind_of_ok ((hx.eq_ok σ fn s a t).mpr ⟨log, hfirst, hfeed⟩)]
        exact hstop
  keeps := fun σ fn P hfn =>
    Keeps.bind (hx.keeps σ fn P hfn) fun a => (hf a).keeps σ fn P hfn

theorem adaptExcept {x : Sender ε ι α} {f : ε → ε} (hc : ∀ err, c (f err) = c err) (hx : Sends c x)
    : Sends c fun σ fn => (x σ fn).adaptExcept f where
  eq_ok := by
    intro σ fn s a s'
    simp only [adaptExcept_eq_ok]
    exact hx.eq_ok σ fn s a s'
  eq_error := by
    intro σ fn s err s' log h hfeed
    obtain ⟨err', hfails, rfl⟩ := adaptExcept_eq_error.mp h
    exact adaptExcept_eq_error.mpr ⟨err', hx.eq_error σ fn s err' s' log hfails hfeed, rfl⟩
  stops := by
    intro σ fn s err s' h
    have hfinal : final ((x _ record).adaptExcept f []) = final (x _ record []) := by
      unfold EStateM.adaptExcept
      cases x _ record [] <;> rfl
    obtain ⟨err', hsame, hstop⟩ := hx.stops σ fn s err s' (hfinal ▸ h)
    exact ⟨f err', (hc err').trans hsame, adaptExcept_eq_error.mpr ⟨err', hstop, rfl⟩⟩
  keeps := fun σ fn P hfn => Keeps.adaptExcept (hx.keeps σ fn P hfn)

theorem ite {p : Prop} [Decidable p] {x y : Sender ε ι α} (hx : Sends c x) (hy : Sends c y)
    : Sends c fun σ fn => if p then x σ fn else y σ fn := by
  split
  . exact hx
  . exact hy

end Sends

end Program
