import Mathlib.Data.List.Forall2

/-!
This module contains rules of pre- and postconditions for programs that may fail: for their parts one
after the other, for branches, for loops that are given up after a number of rounds, and for programs
that are run for each element of a list or so many times.
-/

namespace Hoare

variable {ε σ α β γ : Type}

/--
Wherever `P` holds the program returns with `Q` or fails with `E`.
-/
def Triple (P : σ → Prop) (x : EStateM ε σ α) (Q : α → σ → Prop) (E : ε → σ → Prop) : Prop :=
  ∀ s, P s → match x s with
    | .ok a t => Q a t
    | .error err t => E err t

/--
Runs a round after the other until one of them has a result, or until the rounds are used up.
-/
def loop (gaveUp : ε) (round : α → EStateM ε σ (α ⊕ β)) : Nat → α → EStateM ε σ β
  | 0, _ => throw gaveUp
  | fuel + 1, a => do
    match ← round a with
    | .inl a => loop gaveUp round fuel a
    | .inr b => pure b

def times (x : EStateM ε σ α) : Nat → EStateM ε σ (List α)
  | 0 => pure []
  | n + 1 => do
    let as ← times x n
    let a ← x
    pure (as ++ [a])

namespace Triple

variable {P P' : σ → Prop} {Q Q' : α → σ → Prop} {E E' : ε → σ → Prop} {x : EStateM ε σ α}

theorem of_ok (h : Triple P x Q E) {s t : σ} {a : α} (hs : P s) (hok : x s = .ok a t) : Q a t := by
  have hx := h s hs
  rwa [hok] at hx

theorem of_error (h : Triple P x Q E) {s t : σ} {err : ε} (hs : P s) (herror : x s = .error err t)
    : E err t := by
  have hx := h s hs
  rwa [herror] at hx

theorem exists_ok (h : Triple P x Q fun _ _ => False) {s : σ} (hs : P s)
    : ∃ a t, x s = .ok a t ∧ Q a t := by
  have hx := h s hs
  cases hxs : x s with
  | ok a t =>
    rw [hxs] at hx
    exact ⟨a, t, rfl, hx⟩
  | error err t =>
    rw [hxs] at hx
    exact hx.elim

theorem imp (h : Triple P x Q E) (hpre : ∀ s, P' s → P s) (hpost : ∀ a s, Q a s → Q' a s)
    (herror : ∀ err s, E err s → E' err s)
    : Triple P' x Q' E' := by
  intro s hs
  have hx := h s (hpre s hs)
  cases hxs : x s with
  | ok a t =>
    rw [hxs] at hx
    exact hpost a t hx
  | error err t =>
    rw [hxs] at hx
    exact herror err t hx

theorem strengthen (h : Triple P x Q E) (hpre : ∀ s, P' s → P s) : Triple P' x Q E :=
  h.imp hpre (fun _ _ h => h) fun _ _ h => h

theorem weaken (h : Triple P x Q E) (hpost : ∀ a s, Q a s → Q' a s) : Triple P x Q' E :=
  h.imp (fun _ h => h) hpost fun _ _ h => h

theorem of_pure {p : Prop} (h : p → Triple P x Q E) : Triple (fun s => p ∧ P s) x Q E :=
  fun s hs => h hs.1 s hs.2

theorem of_exists {P : γ → σ → Prop} (h : ∀ c, Triple (P c) x Q E) : Triple (fun s => ∃ c, P c s) x Q E :=
  fun s ⟨c, hs⟩ => h c s hs

theorem and_pure {p : Prop} (h : Triple P x Q E) (hp : p) : Triple P x (fun a s => p ∧ Q a s) E :=
  h.weaken fun _ _ hq => ⟨hp, hq⟩

theorem and (h : Triple P x Q E) (h' : Triple P' x Q' fun _ _ => True)
    : Triple (fun s => P s ∧ P' s) x (fun a s => Q a s ∧ Q' a s) E := by
  intro s hs
  have hx := h s hs.1
  have hx' := h' s hs.2
  cases hxs : x s with
  | ok a t =>
    rw [hxs] at hx hx'
    exact ⟨hx, hx'⟩
  | error err t =>
    rw [hxs] at hx
    exact hx

theorem pure {a : α} (h : ∀ s, P s → Q a s) : Triple P (pure a : EStateM ε σ α) Q E :=
  fun s hs => h s hs

theorem throw {err : ε} (h : ∀ s, P s → E err s) : Triple P (throw err : EStateM ε σ α) Q E :=
  fun s hs => h s hs

theorem get {Q : σ → σ → Prop} (h : ∀ s, P s → Q s s)
    : Triple P (MonadStateOf.get : EStateM ε σ σ) Q E :=
  fun s hs => h s hs

theorem modify {f : σ → σ} {Q : Unit → σ → Prop} (h : ∀ s, P s → Q () (f s))
    : Triple P (modify f : EStateM ε σ Unit) Q E :=
  fun s hs => h s hs

theorem bind {f : α → EStateM ε σ β} {R : β → σ → Prop} (hx : Triple P x Q E)
    (hf : ∀ a, Triple (Q a) (f a) R E)
    : Triple P (x >>= f) R E := by
  intro s hs
  have hx := hx s hs
  change match EStateM.bind x f s with
    | .ok a t => R a t
    | .error err t => E err t
  unfold EStateM.bind
  cases hxs : x s with
  | ok a t =>
    rw [hxs] at hx
    exact hf a t hx
  | error err t =>
    rw [hxs] at hx
    exact hx

theorem ite {c : Prop} [Decidable c] {y : EStateM ε σ α} (hx : c → Triple P x Q E)
    (hy : ¬c → Triple P y Q E)
    : Triple P (if c then x else y) Q E := by
  split
  . exact hx ‹_›
  . exact hy ‹_›

/--
What a round preserves holds when a round has a result. The loop is given up only if the measure that
its rounds decrease is not smaller than their number.
-/
theorem loop {gaveUp : ε} {round : α → EStateM ε σ (α ⊕ β)} {I : α → σ → Prop} {R : β → σ → Prop}
    {μ : α → Nat}
    (hround : ∀ a, Triple (I a) (round a) (Sum.elim (fun a' s => μ a' < μ a ∧ I a' s) R) E)
    {fuel : Nat} {a : α} (hgaveUp : fuel ≤ μ a → ∀ s, E gaveUp s)
    : Triple (I a) (loop gaveUp round fuel a) R E := by
  induction fuel generalizing a with
  | zero => exact throw fun s _ => hgaveUp (Nat.zero_le _) s
  | succ fuel ih =>
    apply bind (hround a)
    rintro (a' | b)
    . apply of_pure
      intro hlt
      exact ih fun hle => hgaveUp (Nat.lt_of_le_of_lt hle hlt)
    . exact pure fun _ h => h

theorem loop_inv {gaveUp : ε} {round : α → EStateM ε σ (α ⊕ β)} {I : α → σ → Prop} {R : β → σ → Prop}
    (hround : ∀ a, Triple (I a) (round a) (Sum.elim I R) E) (hgaveUp : ∀ a s, I a s → E gaveUp s) {fuel : Nat} {a : α}
    : Triple (I a) (Hoare.loop gaveUp round fuel a) R E := by
  induction fuel generalizing a with
  | zero => exact throw (hgaveUp a)
  | succ fuel ih =>
    apply bind (hround a)
    rintro (a' | b)
    . exact ih
    . exact pure fun _ h => h

/--
Programs for the elements of a list, each of which has a result as it should. The invariant may depend
on the elements that have had their turn.
-/
theorem mapM {I : List β → σ → Prop} {f : β → EStateM ε σ α} {R : β → α → Prop} {l : List β}
    (h : ∀ pre b, b ∈ l → Triple (I pre) (f b) (fun a s => R b a ∧ I (pre ++ [b]) s) E)
    (pre : List β)
    : Triple (I pre) (l.mapM f) (fun as s => List.Forall₂ R l as ∧ I (pre ++ l) s) E := by
  induction l generalizing pre with
  | nil =>
    rw [List.append_nil]
    exact pure fun _ hs => ⟨.nil, hs⟩
  | cons b l ih =>
    rw [List.mapM_cons]
    apply bind (h pre b List.mem_cons_self)
    intro a
    apply of_pure
    intro ha
    apply bind (ih (fun pre b hb => h pre b (List.mem_cons_of_mem _ hb)) (pre ++ [b]))
    intro as
    apply of_pure
    intro has
    rw [List.append_assoc]
    exact pure fun _ hs => ⟨.cons ha has, hs⟩

/--
Programs for the elements of a list that all keep a property. What each of them shows of its element holds of
all of them.
-/
theorem forM_all {f : β → EStateM ε σ PUnit} {R : β → Prop} {l : List β}
    (h : ∀ b ∈ l, Triple P (f b) (fun _ s => R b ∧ P s) E)
    : Triple P (l.forM f) (fun _ s => (∀ b ∈ l, R b) ∧ P s) E := by
  induction l with
  | nil => exact pure fun _ hs => ⟨nofun, hs⟩
  | cons b l ih =>
    apply bind (h b List.mem_cons_self)
    intro _
    apply of_pure
    intro hb
    apply (ih fun b hb => h b (List.mem_cons_of_mem _ hb)).weaken
    exact fun _ _ hs => ⟨List.forall_mem_cons.mpr ⟨hb, hs.1⟩, hs.2⟩

theorem forM {f : β → EStateM ε σ PUnit} {l : List β} (h : ∀ b ∈ l, Triple P (f b) (fun _ => P) E)
    : Triple P (l.forM f) (fun _ => P) E := by
  have hall : Triple P (l.forM f) (fun _ s => (∀ b ∈ l, True) ∧ P s) E :=
    forM_all fun b hb => (h b hb).and_pure trivial
  exact hall.weaken fun _ _ hs => hs.2

theorem foldlM {f : α → β → EStateM ε σ α} {l : List β} (h : ∀ a, ∀ b ∈ l, Triple P (f a b) (fun _ => P) E) (a : α)
    : Triple P (l.foldlM f a) (fun _ => P) E := by
  induction l generalizing a with
  | nil => exact pure fun _ hs => hs
  | cons b l ih =>
    rw [List.foldlM_cons]
    apply bind (h a b List.mem_cons_self)
    exact fun a => ih (fun a b hb => h a b (List.mem_cons_of_mem _ hb)) a

/--
Programs for the elements of a list. The invariant may depend on the elements that have had their turn.
-/
theorem forM_seen {I : List β → σ → Prop} {f : β → EStateM ε σ PUnit} {l : List β}
    (h : ∀ pre, ∀ b ∈ l, Triple (I pre) (f b) (fun _ => I (pre ++ [b])) E) (pre : List β)
    : Triple (I pre) (l.forM f) (fun _ => I (pre ++ l)) E := by
  induction l generalizing pre with
  | nil =>
    rw [List.append_nil]
    exact pure fun _ hs => hs
  | cons b l ih =>
    rw [List.append_cons pre b l]
    apply bind (h pre b List.mem_cons_self)
    exact fun _ => ih (fun pre b hb => h pre b (List.mem_cons_of_mem _ hb)) (pre ++ [b])

theorem foldlM_seen {I : List β → α → σ → Prop} {f : α → β → EStateM ε σ α} {l : List β}
    (h : ∀ pre a, ∀ b ∈ l, Triple (I pre a) (f a b) (I (pre ++ [b])) E) (pre : List β) (a : α)
    : Triple (I pre a) (l.foldlM f a) (I (pre ++ l)) E := by
  induction l generalizing pre a with
  | nil =>
    rw [List.append_nil]
    exact pure fun _ hs => hs
  | cons b l ih =>
    rw [List.foldlM_cons, List.append_cons pre b l]
    apply bind (h pre a b List.mem_cons_self)
    exact fun a => ih (fun pre a b hb => h pre a b (List.mem_cons_of_mem _ hb)) (pre ++ [b]) a

/--
A program that is run so many times. The invariant may depend on how often it has been.
-/
theorem times {I : Nat → σ → Prop} {R : α → Prop} {i : Nat}
    (h : ∀ j, Triple (I j) x (fun a s => R a ∧ I (j + 1) s) E) (n : Nat)
    : Triple (I i) (times x n) (fun as s => (as.length = n ∧ ∀ a ∈ as, R a) ∧ I (i + n) s) E := by
  induction n with
  | zero => exact pure fun _ hs => ⟨⟨rfl, nofun⟩, hs⟩
  | succ n ih =>
    apply bind ih
    intro as
    apply of_pure
    rintro ⟨hlength, has⟩
    apply bind (h (i + n))
    intro a
    apply of_pure
    intro ha
    refine pure fun _ hs => ⟨⟨?_, List.forall_mem_append.mpr ⟨has, List.forall_mem_singleton.mpr ha⟩⟩, hs⟩
    rw [List.length_append, hlength, List.length_singleton]

theorem of_state (h : ∀ s, P s → Triple (· = s) x Q E) : Triple P x Q E :=
  fun s hs => h s hs s rfl

end Triple

/--
What a program gives when it returns, whatever state it starts in.
-/
def Gives (x : EStateM ε σ α) (Q : α → Prop) : Prop :=
  Triple (fun _ => True) x (fun a _ => Q a) fun _ _ => True

namespace Gives

variable {Q Q' : α → Prop} {R : β → Prop} {x : EStateM ε σ α}

theorem of_ok (h : Gives x Q) {s t : σ} {a : α} (hok : x s = .ok a t) : Q a :=
  Triple.of_ok h trivial hok

theorem any : Gives x fun _ => True := by
  intro s _
  cases x s <;> trivial

theorem pure {a : α} (h : Q a) : Gives (pure a : EStateM ε σ α) Q :=
  Triple.pure fun _ _ => h

theorem throw {err : ε} : Gives (throw err : EStateM ε σ α) Q :=
  Triple.throw fun _ _ => trivial

theorem bind {f : α → EStateM ε σ β} (hx : Gives x Q) (hf : ∀ a, Q a → Gives (f a) R) : Gives (x >>= f) R := by
  apply Triple.bind hx
  intro a s ha
  exact hf a ha s trivial

theorem ite {c : Prop} [Decidable c] {y : EStateM ε σ α} (hx : c → Gives x Q) (hy : ¬c → Gives y Q)
    : Gives (if c then x else y) Q :=
  Triple.ite hx hy

theorem loop {gaveUp : ε} {round : α → EStateM ε σ (α ⊕ β)} (hround : ∀ a, Q a → Gives (round a) (Sum.elim Q R))
    {fuel : Nat} {a : α} (ha : Q a)
    : Gives (Hoare.loop gaveUp round fuel a) R := by
  have hloop : Triple (fun _ => Q a) (Hoare.loop gaveUp round fuel a) (fun b _ => R b) fun _ _ => True := by
    refine Triple.loop_inv (I := fun a _ => Q a) (fun a s ha => ?_) fun _ _ _ => trivial
    have hr := hround a ha s trivial
    cases hs : round a s with
    | ok r t =>
      rw [hs] at hr
      cases r <;> exact hr
    | error err t => trivial
  exact hloop.strengthen fun _ _ => ha

theorem mapM {f : β → EStateM ε σ α} {l : List β} (h : ∀ b ∈ l, Gives (f b) Q)
    : Gives (l.mapM f) fun as => ∀ a ∈ as, Q a := by
  induction l with
  | nil => exact pure fun a ha => absurd ha List.not_mem_nil
  | cons b l ih =>
    rw [List.forall_mem_cons] at h
    rw [List.mapM_cons]
    apply bind h.1
    intro a ha
    apply bind (ih h.2)
    intro as has
    exact pure (List.forall_mem_cons.mpr ⟨ha, has⟩)

end Gives

end Hoare
