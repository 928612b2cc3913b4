import BenchPlatform.Engine.Socket
import BenchPlatform.Lib.Trans

/-!
This module contains the client of the engine and the connections over which it posts the parts of a run, with every
call of the system free to fail and the servers free to write anything at any time. Whatever they do, an upload that
ends well has sent each part as a whole and got a success in answer.
-/

namespace Bench

structure Transport where
  url : Url
  version : List Char
  timeout_ms : Int
  texts : List (List Char)

def Transport.request (t : Transport) (c : Nat) : List Char :=
  request_text t.version t.url (t.texts[c]?.getD [])

structure Link where
  part : Nat
  /-- What the client has handed over to its system. -/
  sent : List Char := []
  /-- What the server has handed over to its system. -/
  answer : List Char := []
  closed : Bool := false
  /-- So much of it the client has read. -/
  read : Nat := 0

/--
The server has closed the connection after a response with this status.
-/
def Link.Responded (l : Link) (status : Int) : Prop :=
  l.closed = true ∧ ∃ chunked payload, read_response l.answer = .response status chunked payload

/--
The client that posts one part after the other, and its connections with the newest first.
-/
structure Exchange where
  part : Nat
  rc : Nat
  post : Post
  exit : Option Nat
  links : List Link

namespace Exchange

inductive Action where
  /-- The system answers the call that the client has made. -/
  | client (a : Answer)
  /-- The client goes on to the next part. -/
  | next
  /-- A server writes something. -/
  | write (i : Nat) (text : List Char)
  /-- A server closes the connection, or is gone. -/
  | close (i : Nat)

def init (t : Transport) : Exchange where
  part := 0
  rc := 0
  post := .resolving
  exit := if t.texts = [] then some 0 else none
  links := []

/--
What an answer of the client's system means for the connections: bytes are taken in the order of the request and
given in the order in which they were written, and the end is reported once everything has been read.
-/
def kernel (t : Transport) (s : Exchange) (a : Answer) : Option (List Link) :=
  match s.post, a, s.links with
  | .connecting _ .connect, .done, links => some ({ part := s.part } :: links)
  | .connecting _ .so_error, .done, links => some ({ part := s.part } :: links)
  | .sending _ (.send sent), .count n, l :: links =>
    if n ≤ (t.request s.part).length - sent then
      some ({ l with sent := l.sent ++ ((t.request s.part).drop sent).take n } :: links)
    else
      none
  | .receiving _ (.recv _), .bytes text, l :: links =>
    if text = [] then
      if l.closed ∧ l.read = l.answer.length then some (l :: links) else none
    else if text.length ≤ 16384 ∧ text <+: l.answer.drop l.read then
      some ({ l with read := l.read + text.length } :: links)
    else
      none
  | _, _, links => some links

def client (t : Transport) (a : Answer) (s : Exchange) : Option Exchange := do
  let post ← s.post.step (String.ofList t.url.host) t.timeout_ms (t.request s.part) a
  let links ← s.kernel t a
  return { s with post := post, links := links }

/--
The rest of the loop over the parts in `post_envelope`.
-/
def next (t : Transport) (s : Exchange) : Option Exchange :=
  match s.post with
  | .returned res =>
    if res.error ≠ "" then
      some { s with exit := some 1 }
    else
      let rc := if res.ok then s.rc else 1
      let exit := if s.part + 1 < t.texts.length then none else some rc
      some { s with part := s.part + 1, rc := rc, post := .resolving, exit := exit }
  | _ => none

def server (i : Nat) (f : Link → Link) (s : Exchange) : Option Exchange :=
  s.links[i]?.map fun l => { s with links := s.links.set i (f l) }

def write (text : List Char) (l : Link) : Link :=
  if l.closed then l else { l with answer := l.answer ++ text }

def close (l : Link) : Link :=
  { l with closed := true }

def step (t : Transport) (s : Exchange) : Action → Option Exchange
  | .client a => if s.exit = none then s.client t a else none
  | .next => if s.exit = none then s.next t else none
  | .write i text => s.server i (write text)
  | .close i => s.server i close

def run (t : Transport) (schedule : List Action) : Exchange :=
  Trans.run (step t) (init t) schedule

end Exchange

/--
The request has been sent as a whole, and answered with this status.
-/
structure Link.Answered (t : Transport) (c : Nat) (status : Int) (l : Link) : Prop where
  part : l.part = c
  sent : l.sent = t.request c
  responded : l.Responded status

/--
What holds of a connection, whatever has been done with it.
-/
structure Link.Inv (t : Transport) (l : Link) : Prop where
  sent : l.sent <+: t.request l.part
  read : l.read ≤ l.answer.length

/--
A connection only adds to what has been sent and written, and nothing is written once it is closed.
-/
structure Link.Evolves (l l' : Link) : Prop where
  part : l'.part = l.part
  sent : l.sent <+: l'.sent
  answer : l.answer <+: l'.answer
  closed : l.closed = true → l'.closed = true ∧ l'.answer = l.answer

/--
The server leaves to the client what is the client's.
-/
structure Link.Unaffected (l l' : Link) : Prop extends l.Evolves l' where
  same_sent : l'.sent = l.sent
  read : l'.read = l.read

def Sending.sent : Sending → Nat
  | .poll sent | .send sent => sent

def Receiving.out : Receiving → List Char
  | .poll out | .recv out => out

section Links

variable {t : Transport} {l l' : Link} {c : Nat} {status : Int} {text : List Char}

theorem Link.Evolves.refl : l.Evolves l :=
  ⟨rfl, List.prefix_rfl, List.prefix_rfl, fun h => ⟨h, rfl⟩⟩

theorem Link.Unaffected.refl : l.Unaffected l :=
  ⟨.refl, rfl, rfl⟩

theorem Link.Answered.evolve (h : l.Answered t c status) (hevolves : l.Evolves l') (hinv : l'.Inv t)
    : l'.Answered t c status where
  part := hevolves.part.trans h.part
  sent := by
    have hbegins := hinv.sent
    rw [hevolves.part, h.part] at hbegins
    apply hbegins.eq_of_length_le
    rw [← h.sent]
    exact hevolves.sent.length_le
  responded := by
    obtain ⟨hclosed, hresponse⟩ := h.responded
    obtain ⟨hclosed', hsame⟩ := hevolves.closed hclosed
    rw [← hsame] at hresponse
    exact ⟨hclosed', hresponse⟩

theorem unaffected_write : l.Unaffected (Exchange.write text l) := by
  unfold Exchange.write
  split
  . exact .refl
  . rename_i hopen
    exact ⟨⟨rfl, List.prefix_rfl, List.prefix_append _ _, fun h => absurd h hopen⟩, rfl, rfl⟩

theorem unaffected_close : l.Unaffected (Exchange.close l) :=
  ⟨⟨rfl, List.prefix_rfl, List.prefix_rfl, fun _ => ⟨rfl, rfl⟩⟩, rfl, rfl⟩

theorem Link.Inv.unaffected (h : l.Inv t) (hsame : l.Unaffected l') : l'.Inv t where
  sent := by
    rw [hsame.same_sent, hsame.part]
    exact h.sent
  read := by
    rw [hsame.read]
    exact Nat.le_trans h.read hsame.answer.length_le

end Links

namespace Exchange

/--
The client knows what it has sent and read on its newest connection, and takes a status only from what a server has
written on one.
-/
def Client (t : Transport) (s : Exchange) : Prop :=
  match s.post with
  | .sending _ call =>
    ∃ l ls, s.links = l :: ls ∧ l.part = s.part ∧ l.sent = (t.request s.part).take call.sent ∧ l.read = 0
  | .receiving _ call =>
    ∃ l ls, s.links = l :: ls ∧ l.part = s.part ∧ l.sent = t.request s.part ∧ call.out = l.answer.take l.read
  | .decoding status _ => ∃ l ∈ s.links, l.Answered t s.part status
  | .returned res => res.error = "" → ∃ l ∈ s.links, l.Answered t s.part res.status
  | _ => True

/--
The part has been sent as a whole on one of the connections, and answered.
-/
def Answered (t : Transport) (s : Exchange) (c : Nat) : Prop :=
  ∃ status, ∃ l ∈ s.links, l.Answered t c status

def Taken (t : Transport) (s : Exchange) (c : Nat) : Prop :=
  ∃ status, (200 ≤ status ∧ status < 300) ∧ ∃ l ∈ s.links, l.Answered t c status

structure Inv (t : Transport) (s : Exchange) : Prop where
  links : ∀ l ∈ s.links, l.Inv t
  parts : ∀ l ∈ s.links, l.part ≤ s.part
  client : s.Client t
  before : ∀ c, c < s.part → s.Answered t c
  through : s.rc = 0 → ∀ c, c < s.part → s.Taken t c
  exited : s.exit = some 0 → ∀ c, c < t.texts.length → s.Taken t c

variable {t : Transport} {s s' : Exchange} {l l' : Link} {c rest : Nat} {error : String} {links : List Link}

theorem Inv.init : (init t).Inv t where
  links := fun _ hl => absurd hl List.not_mem_nil
  parts := fun _ hl => absurd hl List.not_mem_nil
  client := trivial
  before := fun _ hc => absurd hc (Nat.not_lt_zero _)
  through := fun _ _ hc => absurd hc (Nat.not_lt_zero _)
  exited := by
    intro hexit c hc
    unfold Exchange.init at hexit
    dsimp only at hexit
    split at hexit
    . rename_i hnil
      rw [hnil] at hc
      exact absurd hc (Nat.not_lt_zero _)
    . cases hexit

theorem client_next_address (rest : Nat) (herror : error ≠ "") (hpost : s.post = .next_address rest error)
    : s.Client t := by
  unfold Client
  rw [hpost]
  cases rest with
  | zero => exact fun h => absurd h herror
  | succ rest => trivial

theorem kernel_links (hs : s.Inv t) {a : Answer} (h : s.kernel t a = some links)
    : (∀ l ∈ links, l.Inv t ∧ l.part ≤ s.part) ∧ ∀ l ∈ s.links, ∃ l' ∈ links, l.Evolves l' := by
  have hclient := hs.client
  have hsame : (∀ l ∈ s.links, l.Inv t ∧ l.part ≤ s.part) ∧ ∀ l ∈ s.links, ∃ l' ∈ s.links, l.Evolves l' :=
    ⟨fun l hl => ⟨hs.links l hl, hs.parts l hl⟩, fun l hl => ⟨l, hl, .refl⟩⟩
  have hopened : (∀ l ∈ ({ part := s.part } : Link) :: s.links, l.Inv t ∧ l.part ≤ s.part)
      ∧ ∀ l ∈ s.links, ∃ l' ∈ ({ part := s.part } : Link) :: s.links, l.Evolves l' :=
    ⟨List.forall_mem_cons.mpr ⟨⟨⟨List.nil_prefix, Nat.le_refl _⟩, Nat.le_refl _⟩, hsame.1⟩,
      fun l hl => ⟨l, List.mem_cons_of_mem _ hl, .refl⟩⟩
  have hreplace : ∀ (l l' : Link) ls, s.links = l :: ls → l'.Inv t → l.Evolves l' →
      (∀ k ∈ l' :: ls, k.Inv t ∧ k.part ≤ s.part) ∧ ∀ k ∈ s.links, ∃ k' ∈ l' :: ls, k.Evolves k' := by
    intro l l' ls hlinks hinv hevolves
    rw [hlinks] at hsame ⊢
    rw [List.forall_mem_cons, List.forall_mem_cons] at hsame
    constructor
    . exact List.forall_mem_cons.mpr ⟨⟨hinv, hevolves.part ▸ hsame.1.1.2⟩, hsame.1.2⟩
    . exact List.forall_mem_cons.mpr ⟨⟨l', List.mem_cons_self, hevolves⟩,
        fun k hk => ⟨k, List.mem_cons_of_mem _ hk, .refl⟩⟩
  unfold kernel at h
  split at h
  . injection h with h
    rw [← h]
    exact hopened
  . injection h with h
    rw [← h]
    exact hopened
  . rename_i rest sent n l ls hpost hlinks
    unfold Client at hclient
    rw [hpost] at hclient
    obtain ⟨l₁, ls₁, hhead, hpart, hsent, _⟩ := hclient
    obtain ⟨rfl, rfl⟩ := List.cons.inj (hlinks.symm.trans hhead)
    have hinv := hs.links l (hlinks ▸ List.mem_cons_self)
    split at h
    . injection h with h
      rw [← h]
      refine hreplace l _ ls hlinks ⟨?_, hinv.read⟩
        ⟨rfl, List.prefix_append _ _, List.prefix_rfl, fun hclosed => ⟨hclosed, rfl⟩⟩
      dsimp only
      rw [hsent, hpart]
      exact (List.take_add ..) ▸ List.take_prefix _ _
    . cases h
  . rename_i rest out text l ls hpost hlinks
    have hinv := hs.links l (hlinks ▸ List.mem_cons_self)
    split at h
    . split at h
      . injection h with h
        rw [← h, ← hlinks]
        exact hsame
      . cases h
    . split at h
      . rename_i htext
        injection h with h
        rw [← h]
        refine hreplace l _ ls hlinks ⟨hinv.sent, ?_⟩
          ⟨rfl, List.prefix_rfl, List.prefix_rfl, fun hclosed => ⟨hclosed, rfl⟩⟩
        have hle := htext.2.length_le
        have hread := hinv.read
        rw [List.length_drop] at hle
        change l.read + text.length ≤ l.answer.length
        omega
      . cases h
  . injection h with h
    rw [← h]
    exact hsame

theorem append_ne_empty {text : String} (h : text ≠ "") (more : String) : text ++ more ≠ "" :=
  fun hempty => h (String.append_eq_empty_iff.mp hempty).1

theorem connected_of_empty {timeout_ms : Int} {call : Connecting} {a : Answer}
    (h : connect_with_timeout timeout_ms call a = some (.inr ""))
    : a = .done ∧ (call = .connect ∨ call = .so_error) := by
  have hne : ∀ text more, text ≠ "" → some (.inr (text ++ more)) ≠ (some (.inr "") : Option (Connecting ⊕ String)) :=
    fun text more htext heq => append_ne_empty htext more (Sum.inr.inj (Option.some.inj heq))
  unfold connect_with_timeout at h
  split at h
  . exact ⟨rfl, .inl rfl⟩
  . split at h
    . cases h
    . exact absurd h (hne _ _ (by decide))
  . exact absurd h (hne _ _ (append_ne_empty (by decide) _))
  . exact absurd h (hne _ _ (by decide))
  . cases h
  . exact absurd h (hne _ _ (by decide))
  . exact absurd h (hne _ _ (by decide))
  . exact ⟨rfl, .inr rfl⟩
  . cases h

theorem send_all_cases {timeout_ms : Int} {data : List Char} {call : Sending} {a : Answer} {r : Sending ⊕ String}
    (h : send_all timeout_ms data call a = some r)
    : (∃ n, a = .count n ∧ call = .send call.sent ∧ r = send_rest data (call.sent + n))
      ∨ (∀ n, a = .count n → call ≠ .send call.sent)
        ∧ ((∃ error, error ≠ "" ∧ r = .inr error) ∨ r = .inl (.send call.sent) ∨ r = send_rest data call.sent) := by
  unfold send_all at h
  split at h
  . injection h with h
    exact .inr ⟨fun n hn => Answer.noConfusion hn, .inl ⟨_, append_ne_empty (append_ne_empty (by decide) _) _, h.symm⟩⟩
  . refine .inr ⟨fun n hn => Answer.noConfusion hn, ?_⟩
    split at h <;> injection h with h
    . exact .inr (.inr h.symm)
    . exact .inl ⟨_, append_ne_empty (by decide) _, h.symm⟩
  . injection h with h
    exact .inr ⟨fun n hn => Answer.noConfusion hn, .inr (.inl h.symm)⟩
  . refine .inr ⟨fun n hn => Answer.noConfusion hn, ?_⟩
    split at h <;> injection h with h
    . exact .inr (.inr h.symm)
    . exact .inl ⟨_, append_ne_empty (by decide) _, h.symm⟩
  . injection h with h
    exact .inl ⟨_, rfl, rfl, h.symm⟩
  . cases h

theorem recv_all_cases {timeout_ms : Int} {call : Receiving} {a : Answer} {r : Receiving ⊕ (String × List Char)}
    (h : recv_all timeout_ms call a = some r)
    : (∃ text, a = .bytes text ∧ call = .recv call.out
        ∧ r = if text = [] then .inr ("", call.out) else .inl (.poll (call.out ++ text)))
      ∨ (∀ text, a = .bytes text → call ≠ .recv call.out)
        ∧ ((∃ error out, error ≠ "" ∧ r = .inr (error, out)) ∨ ∃ call', r = .inl call' ∧ call'.out = call.out) := by
  unfold recv_all at h
  split at h
  . injection h with h
    exact .inr ⟨fun n hn => Answer.noConfusion hn,
      .inl ⟨_, _, append_ne_empty (append_ne_empty (by decide) _) _, h.symm⟩⟩
  . refine .inr ⟨fun n hn => Answer.noConfusion hn, ?_⟩
    split at h <;> injection h with h
    . exact .inr ⟨_, h.symm, rfl⟩
    . exact .inl ⟨_, _, append_ne_empty (by decide) _, h.symm⟩
  . injection h with h
    exact .inr ⟨fun n hn => Answer.noConfusion hn, .inr ⟨_, h.symm, rfl⟩⟩
  . refine .inr ⟨fun n hn => Answer.noConfusion hn, ?_⟩
    split at h <;> injection h with h
    . exact .inr ⟨_, h.symm, rfl⟩
    . exact .inl ⟨_, _, append_ne_empty (by decide) _, h.symm⟩
  . exact .inl ⟨_, rfl, rfl, (Option.some.inj ((apply_ite some _ _ _).trans h)).symm⟩
  . cases h

theorem kernel_sending {call : Sending} {a : Answer} (hpost : s.post = .sending rest call)
    (h : ∀ n, a = .count n → call ≠ .send call.sent) (hlinks : s.kernel t a = some links)
    : links = s.links := by
  unfold kernel at hlinks
  rw [hpost] at hlinks
  cases call with
  | poll sent => exact (Option.some.inj hlinks).symm
  | send sent =>
    cases a with
    | count n => exact absurd rfl (h n rfl)
    | _ => exact (Option.some.inj hlinks).symm

theorem kernel_receiving {call : Receiving} {a : Answer} (hpost : s.post = .receiving rest call)
    (h : ∀ text, a = .bytes text → call ≠ .recv call.out) (hlinks : s.kernel t a = some links)
    : links = s.links := by
  unfold kernel at hlinks
  rw [hpost] at hlinks
  cases call with
  | poll out => exact (Option.some.inj hlinks).symm
  | recv out =>
    cases a with
    | bytes text => exact absurd rfl (h text rfl)
    | _ => exact (Option.some.inj hlinks).symm

theorem client_send_rest {ls : List Link} {sent : Nat} (hpart : l.part = s.part)
    (hsent : l.sent = (t.request s.part).take sent) (hread : l.read = 0)
    : Client t { s with post := .sent rest (send_rest (t.request s.part) sent), links := l :: ls } := by
  unfold send_rest
  split
  . exact ⟨l, ls, rfl, hpart, hsent, hread⟩
  . rename_i hall
    refine ⟨l, ls, rfl, hpart, ?_, ?_⟩
    . rw [hsent]
      exact List.take_of_length_le (Nat.not_lt.mp hall)
    . rw [hread]
      rfl

theorem client_connecting {call : Connecting} {a : Answer} {r : Connecting ⊕ String}
    (hpost : s.post = .connecting rest call) (hr : connect_with_timeout t.timeout_ms call a = some r)
    (hlinks : s.kernel t a = some links)
    : Client t { s with post := .connected (t.request s.part) rest r, links := links } := by
  cases r with
  | inl call => trivial
  | inr error =>
    by_cases herror : error = ""
    . subst herror
      obtain ⟨rfl, hcall⟩ := connected_of_empty hr
      have hopened : links = { part := s.part } :: s.links := by
        unfold kernel at hlinks
        rw [hpost] at hlinks
        obtain rfl | rfl := hcall <;> exact (Option.some.inj hlinks).symm
      have hsame : Post.connected (t.request s.part) rest (.inr "")
          = .sent rest (send_rest (t.request s.part) 0) := by
        rw [Post.connected, if_pos rfl]
        unfold send_rest
        by_cases hne : 0 < (t.request s.part).length
        . rw [if_pos hne]
          rfl
        . rw [if_neg hne]
          rfl
      rw [hsame, hopened]
      exact client_send_rest rfl rfl rfl
    . apply client_next_address rest herror
      exact if_neg herror

theorem client_sending (hs : s.Inv t) {call : Sending} {a : Answer} {r : Sending ⊕ String}
    (hpost : s.post = .sending rest call) (hr : send_all t.timeout_ms (t.request s.part) call a = some r)
    (hlinks : s.kernel t a = some links)
    : Client t { s with post := .sent rest r, links := links } := by
  have hclient := hs.client
  unfold Client at hclient
  rw [hpost] at hclient
  obtain ⟨l, ls, hhead, hpart, hsent, hread⟩ := hclient
  obtain ⟨n, rfl, hcall, rfl⟩ | ⟨hother, hr⟩ := send_all_cases hr
  . unfold kernel at hlinks
    rw [hpost, hcall, hhead] at hlinks
    dsimp only at hlinks
    split at hlinks
    . injection hlinks with hlinks
      rw [← hlinks]
      refine client_send_rest (by exact hpart) ?_ (by exact hread)
      dsimp only
      rw [hsent]
      exact List.take_add.symm
    . cases hlinks
  . rw [kernel_sending hpost hother hlinks, hhead]
    obtain ⟨error, herror, rfl⟩ | rfl | rfl := hr
    . apply client_next_address rest herror
      exact if_neg herror
    . exact ⟨l, ls, rfl, hpart, hsent, hread⟩
    . exact client_send_rest hpart hsent hread

theorem error_ne_empty {raw : List Char} {text : String} (h : read_response raw = .error text) : text ≠ "" := by
  unfold read_response at h
  dsimp only at h
  (repeat' split at h) <;> cases h <;> decide

theorem client_received {ls : List Link} (hclosed : l.closed = true) (hpart : l.part = s.part)
    (hsent : l.sent = t.request s.part)
    : Client t { s with post := .received rest l.answer, links := l :: ls } := by
  have hresponse : ∀ status chunked payload, read_response l.answer = .response status chunked payload →
      ∃ k ∈ l :: ls, k.Answered t s.part status :=
    fun status chunked payload h => ⟨l, List.mem_cons_self, ⟨hpart, hsent, hclosed, chunked, payload, h⟩⟩
  cases hread : read_response l.answer with
  | undefined =>
    unfold Client Post.received
    rw [hread]
    trivial
  | error text =>
    have hne := error_ne_empty hread
    apply client_next_address rest hne
    unfold Post.received
    rw [hread]
  | response status chunked payload =>
    unfold Client Post.received
    rw [hread]
    cases chunked with
    | true => exact hresponse _ _ _ hread
    | false => exact fun _ => hresponse _ _ _ hread

theorem client_receiving (hs : s.Inv t) {call : Receiving} {a : Answer} {r : Receiving ⊕ (String × List Char)}
    (hpost : s.post = .receiving rest call) (hr : recv_all t.timeout_ms call a = some r)
    (hlinks : s.kernel t a = some links)
    : Client t { s with post := .read rest r, links := links } := by
  have hclient := hs.client
  unfold Client at hclient
  rw [hpost] at hclient
  obtain ⟨l, ls, hhead, hpart, hsent, hout⟩ := hclient
  obtain ⟨text, rfl, hcall, rfl⟩ | ⟨hother, hr⟩ := recv_all_cases hr
  . unfold kernel at hlinks
    rw [hpost, hcall, hhead] at hlinks
    dsimp only at hlinks
    by_cases htext : text = []
    . rw [if_pos htext] at hlinks ⊢
      split at hlinks
      . rename_i hclosed
        injection hlinks with hlinks
        rw [hout, hclosed.2, List.take_length, ← hlinks]
        exact client_received hclosed.1 hpart hsent
      . cases hlinks
    . rw [if_neg htext] at hlinks ⊢
      split at hlinks
      . rename_i hbytes
        injection hlinks with hlinks
        rw [← hlinks]
        refine ⟨_, ls, rfl, hpart, hsent, ?_⟩
        change call.out ++ text = l.answer.take (l.read + text.length)
        rw [hout, List.take_add, ← List.prefix_iff_eq_take.mp hbytes.2]
      . cases hlinks
  . rw [kernel_receiving hpost hother hlinks, hhead]
    obtain ⟨error, out, herror, rfl⟩ | ⟨call', rfl, hcall'⟩ := hr
    . apply client_next_address rest herror
      exact if_neg herror
    . exact ⟨l, ls, rfl, hpart, hsent, hcall'.trans hout⟩

theorem client_inv (hs : s.Inv t) {a : Answer} (h : s.client t a = some s') : s'.Inv t := by
  obtain ⟨post, hpost, hrest⟩ := Option.bind_eq_some_iff.mp h
  obtain ⟨links, hlinks, hsome⟩ := Option.bind_eq_some_iff.mp hrest
  injection hsome with hsome
  obtain ⟨hinv, hevolves⟩ := kernel_links hs hlinks
  have hkept : ∀ c status, (∃ l ∈ s.links, l.Answered t c status) → ∃ l ∈ links, l.Answered t c status := by
    rintro c status ⟨l, hl, hanswered⟩
    obtain ⟨l', hl', hl''⟩ := hevolves l hl
    exact ⟨l', hl', hanswered.evolve hl'' (hinv l' hl').1⟩
  have hclient : Client t { s with post := post, links := links } := by
    have hold := hs.client
    unfold Post.step at hpost
    split at hpost
    . injection hpost with hpost
      exact client_next_address _ (by decide : "no address to connect to" ≠ "") hpost.symm
    . injection hpost with hpost
      refine client_next_address 0 (append_ne_empty (append_ne_empty (append_ne_empty ?_ _) _) _) hpost.symm
      decide
    . injection hpost with hpost
      rw [← hpost]
      trivial
    . injection hpost with hpost
      exact client_next_address _ (append_ne_empty (by decide) _) hpost.symm
    . rename_i hcall
      obtain ⟨r, hr, rfl⟩ := Option.map_eq_some_iff.mp hpost
      exact client_connecting hcall hr hlinks
    . rename_i hcall
      obtain ⟨r, hr, rfl⟩ := Option.map_eq_some_iff.mp hpost
      exact client_sending hs hcall hr hlinks
    . rename_i hcall
      obtain ⟨r, hr, rfl⟩ := Option.map_eq_some_iff.mp hpost
      exact client_receiving hs hcall hr hlinks
    . rename_i hcall
      obtain ⟨body, _, rfl⟩ := Option.map_eq_some_iff.mp hpost
      unfold Client at hold
      rw [hcall] at hold
      have hsame : links = s.links := by
        unfold kernel at hlinks
        rw [hcall] at hlinks
        exact (Option.some.inj hlinks).symm
      rw [hsame]
      exact fun _ => hold
    . cases hpost
  rw [← hsome]
  constructor
  . exact fun l hl => (hinv l hl).1
  . exact fun l hl => (hinv l hl).2
  . exact hclient
  . intro c hc
    obtain ⟨status, hl⟩ := hs.before c hc
    exact ⟨status, hkept c status hl⟩
  . intro hrc c hc
    obtain ⟨status, hstatus, hl⟩ := hs.through hrc c hc
    exact ⟨status, hstatus, hkept c status hl⟩
  . intro hexit c hc
    obtain ⟨status, hstatus, hl⟩ := hs.exited hexit c hc
    exact ⟨status, hstatus, hkept c status hl⟩

theorem next_inv (hs : s.Inv t) (h : s.next t = some s') : s'.Inv t := by
  unfold next at h
  split at h
  swap
  . cases h
  rename_i res hpost
  have hclient := hs.client
  unfold Client at hclient
  rw [hpost] at hclient
  split at h
  . injection h with h
    rw [← h]
    exact { hs with exited := fun hexit => absurd (Option.some.inj hexit) Nat.one_ne_zero }
  . rename_i herror
    obtain ⟨l, hl, hanswered⟩ := hclient (not_not.mp herror)
    injection h with h
    have hthrough : (if res.ok then s.rc else 1) = 0 → ∀ c, c < s.part + 1 → s.Taken t c := by
      intro hrc c hc
      split at hrc
      . rename_i hok
        obtain hc | rfl := Nat.lt_succ_iff_lt_or_eq.mp hc
        . exact hs.through hrc c hc
        . exact ⟨res.status, (of_decide_eq_true hok).2, l, hl, hanswered⟩
      . cases hrc
    rw [← h]
    constructor
    . exact hs.links
    . exact fun l hl => Nat.le_succ_of_le (hs.parts l hl)
    . trivial
    . intro c hc
      obtain hc | rfl := Nat.lt_succ_iff_lt_or_eq.mp hc
      . exact hs.before c hc
      . exact ⟨res.status, l, hl, hanswered⟩
    . exact hthrough
    . intro hexit c hc
      dsimp only at hexit
      split at hexit
      . cases hexit
      . rename_i hlast
        exact hthrough (Option.some.inj hexit) c (by omega)

theorem server_inv (hs : s.Inv t) {i : Nat} {f : Link → Link} (hf : ∀ l : Link, l.Unaffected (f l))
    (h : s.server i f = some s')
    : s'.Inv t := by
  obtain ⟨l, hl, rfl⟩ := Option.map_eq_some_iff.mp h
  have hmem : l ∈ s.links := List.mem_of_getElem? hl
  have hlinks : ∀ k ∈ s.links.set i (f l), k.Inv t ∧ k.part ≤ s.part := by
    intro k hk
    obtain hk | rfl := List.mem_or_eq_of_mem_set hk
    . exact ⟨hs.links k hk, hs.parts k hk⟩
    . exact ⟨(hs.links l hmem).unaffected (hf l), (hf l).part ▸ hs.parts l hmem⟩
  have hkept : ∀ (j : Nat) (k : Link), s.links[j]? = some k →
      ∃ k' : Link, (s.links.set i (f l))[j]? = some k' ∧ k.Unaffected k' := by
    intro j k hk
    by_cases hij : i = j
    . subst hij
      obtain rfl := Option.some.inj (hl.symm.trans hk)
      obtain ⟨hi, _⟩ := List.getElem?_eq_some_iff.mp hl
      exact ⟨f l, List.getElem?_set_self hi, hf l⟩
    . exact ⟨k, (List.getElem?_set_ne hij).trans hk, .refl⟩
  have hanswered : ∀ c status, (∃ k ∈ s.links, k.Answered t c status) →
      ∃ k ∈ s.links.set i (f l), k.Answered t c status := by
    rintro c status ⟨k, hk, hdone⟩
    obtain ⟨j, hj⟩ := List.mem_iff_getElem?.mp hk
    obtain ⟨k', hk', hkk⟩ := hkept j k hj
    have hk' := List.mem_of_getElem? hk'
    exact ⟨k', hk', hdone.evolve hkk.toEvolves (hlinks k' hk').1⟩
  have hhead : ∀ k ks, s.links = k :: ks → ∃ k' ks', s.links.set i (f l) = k' :: ks' ∧ k.Unaffected k' := by
    intro k ks hcons
    obtain ⟨k', hk', hkk⟩ := hkept 0 k (by rw [hcons]; rfl)
    obtain ⟨ks', hks'⟩ := List.head?_eq_some_iff.mp ((List.head?_eq_getElem? ..).trans hk')
    exact ⟨k', ks', hks', hkk⟩
  constructor
  . exact fun k hk => (hlinks k hk).1
  . exact fun k hk => (hlinks k hk).2
  . have hclient := hs.client
    unfold Client at hclient ⊢
    dsimp only
    cases hcall : s.post with
    | sending rest call =>
      rw [hcall] at hclient
      obtain ⟨k, ks, hcons, hpart, hsent, hzero⟩ := hclient
      obtain ⟨k', ks', hcons', hsame⟩ := hhead k ks hcons
      exact ⟨k', ks', hcons', hsame.part.trans hpart, hsame.same_sent.trans hsent, hsame.read.trans hzero⟩
    | receiving rest call =>
      rw [hcall] at hclient
      obtain ⟨k, ks, hcons, hpart, hsent, hout⟩ := hclient
      obtain ⟨k', ks', hcons', hsame⟩ := hhead k ks hcons
      refine ⟨k', ks', hcons', hsame.part.trans hpart, hsame.same_sent.trans hsent, ?_⟩
      obtain ⟨more, hmore⟩ := hsame.answer
      have hread := (hs.links k (hcons ▸ List.mem_cons_self)).read
      rw [hout, hsame.read, ← hmore, List.take_append_of_le_length hread]
    | decoding status payload =>
      rw [hcall] at hclient
      exact hanswered _ _ hclient
    | returned res =>
      rw [hcall] at hclient
      exact fun herror => hanswered _ _ (hclient herror)
    | _ => trivial
  . intro c hc
    obtain ⟨status, hk⟩ := hs.before c hc
    exact ⟨status, hanswered c status hk⟩
  . intro hrc c hc
    obtain ⟨status, hstatus, hk⟩ := hs.through hrc c hc
    exact ⟨status, hstatus, hanswered c status hk⟩
  . intro hexit c hc
    obtain ⟨status, hstatus, hk⟩ := hs.exited hexit c hc
    exact ⟨status, hstatus, hanswered c status hk⟩

theorem step_inv (hs : s.Inv t) {a : Action} (h : step t s a = some s') : s'.Inv t := by
  cases a with
  | client a =>
    rw [step] at h
    split at h
    . exact client_inv hs h
    . cases h
  | next =>
    rw [step] at h
    split at h
    . exact next_inv hs h
    . cases h
  | write i text => exact server_inv hs (fun _ => unaffected_write) h
  | close i => exact server_inv hs (fun _ => unaffected_close) h

theorem run_inv (t : Transport) (schedule : List Action) : (run t schedule).Inv t :=
  Trans.invariant (fun _ _ _ hs h => step_inv hs h) .init schedule

end Exchange

/--
Whatever the servers write and whichever calls fail: if the upload ends well, each part has been sent as a whole on one
of the connections, and a success was all that came back on it. At any time, what has been sent on a connection is the
begin of the request for its part, and each earlier part has been sent as a whole and answered before.
-/
theorem exchange_answered (t : Transport) (schedule : List Exchange.Action)
    : ((Exchange.run t schedule).exit = some 0 → ∀ c, c < t.texts.length → (Exchange.run t schedule).Taken t c)
      ∧ ∀ l ∈ (Exchange.run t schedule).links, l.sent <+: t.request l.part
        ∧ ∀ c, c < l.part → (Exchange.run t schedule).Answered t c := by
  have hinv := Exchange.run_inv t schedule
  refine ⟨hinv.exited, fun l hl => ⟨(hinv.links l hl).sent, fun c hc => ?_⟩⟩
  exact hinv.before c (Nat.lt_of_lt_of_le hc (hinv.parts l hl))

end Bench
