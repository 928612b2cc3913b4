import BenchPlatform.Api.Strings
import Mathlib.Data.List.Infix
import Mathlib.Logic.Function.Basic

/-!
This module contains the layers around the handlers: recorders, the recovery from a panic and the compression, and
that a client which undoes the compression gets what the other clients get.
-/

namespace Api
namespace Http

abbrev Header := String → List Bytes

namespace Header

def get (h : Header) (name : String) : Bytes :=
  (h name).headD []

def set (h : Header) (name : String) (v : Bytes) : Header :=
  Function.update h name [v]

def del (h : Header) (name : String) : Header :=
  Function.update h name []

def add (h : Header) (name : String) (v : Bytes) : Header :=
  Function.update h name (h name ++ [v])

variable {h : Header} {name name' : String} {v : Bytes}

@[simp]
theorem get_set_self : (h.set name v).get name = v := by
  unfold get set
  rw [Function.update_self]
  rfl

@[simp]
theorem get_set_of_ne (hne : name' ≠ name) : (h.set name v).get name' = h.get name' := by
  unfold get set
  rw [Function.update_of_ne hne]

@[simp]
theorem get_del_of_ne (hne : name' ≠ name) : (h.del name).get name' = h.get name' := by
  unfold get del
  rw [Function.update_of_ne hne]

@[simp]
theorem get_del_self : (h.del name).get name = [] := by
  unfold get del
  rw [Function.update_self]
  rfl

@[simp]
theorem get_add_of_ne (hne : name' ≠ name) : (h.add name v).get name' = h.get name' := by
  unfold get add
  rw [Function.update_of_ne hne]

end Header

/--
The response of `net/http`: what the handler has in the header, the status and the header that were sent, the declared
length, how much has been written, and the body. Every status here is one that allows a body.
-/
structure Conn where
  header : Header
  sent : Option (Nat × Header)
  contentLength : Option Nat
  written : Nat
  body : Bytes

namespace Conn

def parseLength (cl : Bytes) : Option Nat :=
  match parseInt cl with
  | some (.ofNat n) => some n
  | _ => none

def writeHeader (status : Nat) (c : Conn) : Conn :=
  if c.sent.isSome then
    c
  else
    let cl := c.header.get "Content-Length"
    let h := if cl = [] ∨ (parseLength cl).isSome then c.header else c.header.del "Content-Length"
    { c with sent := some (status, h), contentLength := parseLength cl }

def write (b : Bytes) (c : Conn) : Nat × Conn :=
  let c := c.writeHeader 200
  if b = [] then
    (0, c)
  else
    let c := { c with written := c.written + b.length }
    if ∃ n ∈ c.contentLength, n < c.written then (0, c) else (b.length, { c with body := c.body ++ b })

end Conn

/--
An `http.ResponseWriter` whose state is in `σ`.
-/
structure ResponseWriter (σ : Type) where
  header : σ → Header
  setHeader : Header → σ → σ
  writeHeader : Nat → σ → σ
  write : Bytes → σ → Nat × σ

def conn : ResponseWriter Conn where
  header c := c.header
  setHeader h c := { c with header := h }
  writeHeader := Conn.writeHeader
  write := Conn.write

structure Recorder where
  status : Nat
  written : Nat

def recorder {σ : Type} (w : ResponseWriter σ) : ResponseWriter (Recorder × σ) where
  header s := w.header s.2
  setHeader h s := (s.1, w.setHeader h s.2)
  writeHeader status s := if s.1.status = 0 then ({ s.1 with status }, w.writeHeader status s.2) else s
  write b s :=
    let r := if s.1.status = 0 then { s.1 with status := 200 } else s.1
    let (n, t) := w.write b s.2
    (n, ({ r with written := r.written + n }, t))

def Handler : Type 1 :=
  (σ : Type) → ResponseWriter σ → σ → Bool × σ

def Middleware : Type 1 :=
  Handler → Handler

def Chain (h : Handler) (mw : List Middleware) : Handler :=
  mw.foldr (fun m h => m h) h

def WithRequestID (id : Bytes) : Middleware := fun next σ w s =>
  next σ w (w.setHeader ((w.header s).set "X-Request-Id" id) s)

def WithLogging : Middleware := fun next σ w s =>
  let (panicked, s') := next (Recorder × σ) (recorder w) ({ status := 0, written := 0 }, s)
  (panicked, s'.2)

def writeJSON {σ : Type} (w : ResponseWriter σ) (status : Nat) (body : Bytes) (s : σ) : σ :=
  let s := w.setHeader ((w.header s).set "Content-Type" (ascii "application/json; charset=utf-8")) s
  (w.write body (w.writeHeader status s)).2

def internalError : Bytes :=
  ascii "\x7b\"error\":\x7b\"code\":\"internal\",\"message\":\"the request could not be completed\"\x7d\x7d\n"

def WithRecovery : Middleware := fun next σ w s =>
  let (panicked, s') := next (Recorder × σ) (recorder w) ({ status := 0, written := 0 }, s)
  let s' := if panicked ∧ s'.1.status = 0 then writeJSON (recorder w) 500 internalError s' else s'
  (false, s'.2)

/--
All that a compressor writes on when it is given some pieces and then closed.
-/
def deflated {S : Type} (write : Bytes → S → S × List Bytes) (close : S → List Bytes) : List Bytes → S → Bytes
  | [], z => (close z).flatten
  | b :: bs, z => (write b z).2.flatten ++ deflated write close bs (write b z).1

/--
`compress/gzip`. A writer that is reset is as good as new, and what has been written and closed can be read back.
-/
structure Gzip where
  State : Type
  new : State
  reset : State → State
  write : Bytes → State → State × List Bytes
  close : State → List Bytes
  gunzip : Bytes → Option Bytes
  reset_eq : ∀ z, reset z = new
  gunzip_eq : ∀ bs, gunzip (deflated write close bs new) = some bs.flatten

structure GzipWriter (g : Gzip) where
  gz : g.State
  on : Bool
  header : Bool

section Gzip

variable {σ : Type} (g : Gzip) (w : ResponseWriter σ)

def emit (bs : List Bytes) (s : σ) : σ :=
  bs.foldl (fun s b => (w.write b s).2) s

def worthwhile (cl : Bytes) : Bool :=
  cl = [] || 3 < cl.length

def GzipWriter.writeHeader (status : Nat) (s : GzipWriter g × σ) : GzipWriter g × σ :=
  if s.1.header then
    (s.1, w.writeHeader status s.2)
  else if worthwhile ((w.header s.2).get "Content-Length") then
    let h := ((w.header s.2).set "Content-Encoding" (ascii "gzip")).del "Content-Length"
    ({ s.1 with header := true, on := true }, w.writeHeader status (w.setHeader h s.2))
  else
    ({ s.1 with header := true }, w.writeHeader status s.2)

def gzipWriter : ResponseWriter (GzipWriter g × σ) where
  header s := w.header s.2
  setHeader h s := (s.1, w.setHeader h s.2)
  writeHeader := GzipWriter.writeHeader g w
  write b s :=
    let s := if s.1.header then s else GzipWriter.writeHeader g w 200 s
    if s.1.on then
      let (gz, bs) := g.write b s.1.gz
      (b.length, ({ s.1 with gz }, emit w bs s.2))
    else
      let (n, t) := w.write b s.2
      (n, (s.1, t))

/--
`z` is the compressor that the pool hands out.
-/
def WithGzip (z : g.State) (acceptEncoding : Bytes) : Middleware := fun next σ w s =>
  if ascii "gzip" <:+: acceptEncoding then
    let s := w.setHeader ((w.header s).add "Vary" (ascii "Accept-Encoding")) s
    let gw : GzipWriter g := { gz := g.reset z, on := false, header := false }
    let (panicked, s') := next (GzipWriter g × σ) (gzipWriter g w) (gw, s)
    (panicked, if s'.1.on then emit w (g.close s'.1.gz) s'.2 else s'.2)
  else
    next σ w s

end Gzip

structure Status where
  code : Nat
  valid : 200 ≤ code ∧ code ≤ 999
  bodied : code ≠ 204 ∧ code ≠ 304

inductive Act where
  | contentLength (v : Bytes)
  | writeHeader (status : Status)
  | write (b : Bytes)

def Act.apply {σ : Type} (w : ResponseWriter σ) (s : σ) : Act → σ
  | .contentLength v => w.setHeader ((w.header s).set "Content-Length" v) s
  | .writeHeader status => w.writeHeader status.code s
  | .write b => (w.write b s).2

/--
What a handler does to the response, and whether it panics in the end.
-/
structure Behaviour where
  acts : List Act
  panics : Bool

def Behaviour.serve (b : Behaviour) : Handler := fun _ w s =>
  (b.panics, b.acts.foldl (Act.apply w) s)

structure Response where
  status : Nat
  header : Header
  body : Bytes

def Conn.response (c : Conn) : Response :=
  let (status, header) := (c.writeHeader 200).sent.getD (200, c.header)
  { status, header, body := c.body }

def Conn.fresh : Conn where
  header := fun _ => []
  sent := none
  contentLength := none
  written := 0
  body := []

def respond (h : Handler) : Response :=
  (h Conn conn Conn.fresh).2.response

/--
The stack without and with the compression. The deadlines do not touch the response.
-/
def plainStack (id : Bytes) (h : Handler) : Handler :=
  Chain h [WithRequestID id, WithLogging, WithRecovery]

def gzipStack (g : Gzip) (z : g.State) (id acceptEncoding : Bytes) (h : Handler) : Handler :=
  Chain h [WithRequestID id, WithLogging, WithRecovery, WithGzip g z acceptEncoding]

section Simulation

variable {σ τ : Type} {w : ResponseWriter σ} {w' : ResponseWriter τ} {R : σ → τ → Prop}

/--
Two writers that cannot be told apart by what is sent through them.
-/
structure Simulates (w : ResponseWriter σ) (w' : ResponseWriter τ) (R : σ → τ → Prop) : Prop where
  header : ∀ {s t}, R s t → w.header s = w'.header t
  setHeader : ∀ {s t} h, R s t → R (w.setHeader h s) (w'.setHeader h t)
  writeHeader : ∀ {s t} status, status ≠ 0 → R s t → R (w.writeHeader status s) (w'.writeHeader status t)
  write : ∀ {s t} b, R s t → R (w.write b s).2 (w'.write b t).2

theorem Simulates.foldl_apply (h : Simulates w w' R) (acts : List Act) {s : σ} {t : τ} (hs : R s t)
    : R (acts.foldl (Act.apply w) s) (acts.foldl (Act.apply w') t) := by
  induction acts generalizing s t with
  | nil => exact hs
  | cons act acts ih =>
    apply ih
    cases act with
    | contentLength v =>
      unfold Act.apply
      rw [h.header hs]
      exact h.setHeader _ hs
    | writeHeader status =>
      have hpos : status.code ≠ 0 := by
        have := status.valid
        omega
      exact h.writeHeader _ hpos hs
    | write b => exact h.write b hs

theorem Simulates.writeJSON (h : Simulates w w' R) {status : Nat} (hstatus : status ≠ 0) (body : Bytes) {s : σ} {t : τ}
    (hs : R s t)
    : R (writeJSON w status body s) (writeJSON w' status body t) := by
  unfold Http.writeJSON
  rw [h.header hs]
  exact h.write _ (h.writeHeader _ hstatus (h.setHeader _ hs))

theorem Simulates.emit (h : Simulates w w' R) (bs : List Bytes) {s : σ} {t : τ} (hs : R s t)
    : R (emit w bs s) (emit w' bs t) := by
  induction bs generalizing s t with
  | nil => exact hs
  | cons b bs ih => exact ih (h.write b hs)

theorem Simulates.gzipWriter (g : Gzip) (h : Simulates w w' R)
    : Simulates (gzipWriter g w) (gzipWriter g w') fun s t => s.1 = t.1 ∧ R s.2 t.2 := by
  have hwriteHeader : ∀ {s : GzipWriter g × σ} {t : GzipWriter g × τ} (status : Nat), status ≠ 0 →
      s.1 = t.1 ∧ R s.2 t.2 →
      (GzipWriter.writeHeader g w status s).1 = (GzipWriter.writeHeader g w' status t).1 ∧
        R (GzipWriter.writeHeader g w status s).2 (GzipWriter.writeHeader g w' status t).2 := by
    rintro ⟨gw, s⟩ ⟨_, t⟩ status hstatus ⟨rfl, hs⟩
    unfold GzipWriter.writeHeader
    dsimp only
    rw [h.header hs]
    split
    . exact ⟨rfl, h.writeHeader _ hstatus hs⟩
    . split
      . exact ⟨rfl, h.writeHeader _ hstatus (h.setHeader _ hs)⟩
      . exact ⟨rfl, h.writeHeader _ hstatus hs⟩
  constructor
  case header => exact fun hs => h.header hs.2
  case setHeader => exact fun header hs => ⟨hs.1, h.setHeader header hs.2⟩
  case writeHeader => exact fun status hstatus hs => hwriteHeader status hstatus hs
  case write =>
    intro s t b hs
    have hstart : (if s.1.header then s else GzipWriter.writeHeader g w 200 s).1 =
          (if t.1.header then t else GzipWriter.writeHeader g w' 200 t).1 ∧
        R (if s.1.header then s else GzipWriter.writeHeader g w 200 s).2
          (if t.1.header then t else GzipWriter.writeHeader g w' 200 t).2 := by
      rw [hs.1]
      split
      . exact hs
      . exact hwriteHeader 200 (by decide) hs
    unfold Http.gzipWriter
    dsimp only
    generalize (if s.1.header then s else GzipWriter.writeHeader g w 200 s) = s' at hstart ⊢
    generalize (if t.1.header then t else GzipWriter.writeHeader g w' 200 t) = t' at hstart ⊢
    obtain ⟨gw, s'⟩ := s'
    obtain ⟨gw', t'⟩ := t'
    obtain ⟨rfl, hs'⟩ := hstart
    dsimp only
    split
    . exact ⟨rfl, h.emit _ hs'⟩
    . exact ⟨rfl, h.write b hs'⟩

end Simulation

section Recorders

theorem Conn.writeHeader_of_sent {c : Conn} {status : Nat} (h : c.sent.isSome) : c.writeHeader status = c :=
  if_pos h

theorem Conn.writeHeader_isSome (c : Conn) (status : Nat) : (c.writeHeader status).sent.isSome := by
  unfold Conn.writeHeader
  split
  . assumption
  . rfl

theorem Conn.write_isSome (c : Conn) (b : Bytes) : (c.write b).2.sent.isSome := by
  have hsome := c.writeHeader_isSome 200
  unfold Conn.write
  dsimp only
  split
  . exact hsome
  . split <;> exact hsome

/--
Both recorders know whether a header has been sent.
-/
structure Synced (s : Recorder × Recorder × Conn) (c : Conn) : Prop where
  conn : s.2.2 = c
  same : s.1.status = s.2.1.status
  zero : s.1.status = 0 ↔ c.sent = none

theorem simulates_recorders : Simulates (recorder (recorder conn)) conn Synced := by
  constructor
  case header =>
    intro s t hs
    exact congrArg Conn.header hs.conn
  case setHeader =>
    rintro s _ h ⟨rfl, hsame, hzero⟩
    exact ⟨rfl, hsame, hzero⟩
  case writeHeader =>
    rintro ⟨r, l, c⟩ _ status hstatus ⟨rfl, hsame, hzero⟩
    dsimp only at hsame hzero
    unfold recorder
    dsimp only
    by_cases hr : r.status = 0
    . have hsent : (c.writeHeader status).sent ≠ none := Option.isSome_iff_ne_none.mp (c.writeHeader_isSome status)
      rw [if_pos hr, if_pos (hsame ▸ hr)]
      exact ⟨rfl, rfl, fun h => absurd h hstatus, fun h => absurd h hsent⟩
    . have hsent : c.sent.isSome := Option.isSome_iff_ne_none.mpr (mt hzero.mpr hr)
      have hsuperfluous : conn.writeHeader status c = c := Conn.writeHeader_of_sent hsent
      rw [if_neg hr, hsuperfluous]
      exact ⟨rfl, hsame, hzero⟩
  case write =>
    rintro ⟨r, l, c⟩ _ b ⟨rfl, hsame, hzero⟩
    have hsent : (c.write b).2.sent ≠ none := Option.isSome_iff_ne_none.mp (c.write_isSome b)
    dsimp only at hsame hzero
    unfold recorder
    dsimp only
    rw [hsame]
    by_cases hl : l.status = 0
    . rw [if_pos hl, if_pos hl]
      exact ⟨rfl, rfl, fun h => absurd h (Nat.succ_ne_zero 199), fun h => absurd h hsent⟩
    . rw [if_neg hl, if_neg hl]
      exact ⟨rfl, hsame, fun h => absurd (hsame ▸ h) hl, fun h => absurd h hsent⟩

def recovered (panicked : Bool) (c : Conn) : Conn :=
  if panicked ∧ c.sent = none then writeJSON conn 500 internalError c else c

def Conn.start (id : Bytes) : Conn :=
  { Conn.fresh with header := Conn.fresh.header.set "X-Request-Id" id }

def Recorder.zero : Recorder where
  status := 0
  written := 0

theorem synced_start (id : Bytes) : Synced (.zero, .zero, Conn.start id) (Conn.start id) :=
  ⟨rfl, rfl, fun _ => rfl, fun _ => rfl⟩

theorem recovered_synced {s : Recorder × Recorder × Conn} {c : Conn} (hs : Synced s c) (panicked : Bool)
    : (if panicked ∧ s.1.status = 0 then writeJSON (recorder (recorder conn)) 500 internalError s else s).2.2 =
      recovered panicked c := by
  unfold recovered
  simp only [hs.zero]
  split
  . exact (simulates_recorders.writeJSON (by decide) internalError hs).conn
  . exact hs.conn

theorem respond_synced {h : Handler} {id : Bytes} {panicked : Bool} {c : Conn}
    (hpanicked : (h _ (recorder (recorder conn)) (.zero, .zero, Conn.start id)).1 = panicked)
    (hsynced : Synced (h _ (recorder (recorder conn)) (.zero, .zero, Conn.start id)).2 c)
    : respond (plainStack id h) = (recovered panicked c).response := by
  have hrecovered := recovered_synced hsynced panicked
  rw [← hrecovered, ← hpanicked]
  rfl

theorem respond_plain (id : Bytes) (b : Behaviour)
    : respond (plainStack id b.serve) =
      (recovered b.panics (b.acts.foldl (Act.apply conn) (Conn.start id))).response :=
  respond_synced rfl (simulates_recorders.foldl_apply b.acts (synced_start id))

def GzipWriter.fresh (g : Gzip) : GzipWriter g where
  gz := g.new
  on := false
  header := false

def vary (c : Conn) : Conn :=
  { c with header := c.header.add "Vary" (ascii "Accept-Encoding") }

def closed {σ : Type} (g : Gzip) (w : ResponseWriter σ) (s : GzipWriter g × σ) : σ :=
  if s.1.on then emit w (g.close s.1.gz) s.2 else s.2

theorem Simulates.closed {σ τ : Type} {w : ResponseWriter σ} {w' : ResponseWriter τ} {R : σ → τ → Prop} (g : Gzip)
    (h : Simulates w w' R) {s : GzipWriter g × σ} {t : GzipWriter g × τ} (hs : s.1 = t.1 ∧ R s.2 t.2)
    : R (closed g w s) (closed g w' t) := by
  unfold Http.closed
  rw [hs.1]
  split
  . exact h.emit _ hs.2
  . exact hs.2

theorem withGzip_serve {σ : Type} (g : Gzip) (z : g.State) (b : Behaviour) {acceptEncoding : Bytes}
    (haccept : ascii "gzip" <:+: acceptEncoding) (w : ResponseWriter σ) (s : σ)
    : WithGzip g z acceptEncoding b.serve σ w s =
      (b.panics, closed g w (b.acts.foldl (Act.apply (gzipWriter g w))
        (.fresh g, w.setHeader ((w.header s).add "Vary" (ascii "Accept-Encoding")) s))) := by
  unfold WithGzip
  rw [if_pos haccept, g.reset_eq]
  rfl

theorem respond_gzip (g : Gzip) (z : g.State) (id : Bytes) (b : Behaviour) {acceptEncoding : Bytes}
    (haccept : ascii "gzip" <:+: acceptEncoding)
    : respond (gzipStack g z id acceptEncoding b.serve) =
      (recovered b.panics
        (closed g conn (b.acts.foldl (Act.apply (gzipWriter g conn)) (.fresh g, vary (Conn.start id))))).response := by
  have hvary :=
    simulates_recorders.setHeader ((Conn.start id).header.add "Vary" (ascii "Accept-Encoding")) (synced_start id)
  have hrun := (simulates_recorders.gzipWriter g).foldl_apply b.acts
    (show (GzipWriter.fresh g, _).1 = (GzipWriter.fresh g, _).1 ∧ Synced _ _ from ⟨rfl, hvary⟩)
  refine respond_synced (h := WithGzip g z acceptEncoding b.serve) ?_ ?_
  . rw [withGzip_serve g z b haccept]
  . rw [withGzip_serve g z b haccept]
    exact simulates_recorders.closed g hrun

end Recorders

/--
The length that the header declares when it is sent, explicitly or by the first write.
-/
def firstLength : List Act → Bytes → Option Bytes
  | [], _ => none
  | .contentLength v :: acts, _ => firstLength acts v
  | .writeHeader _ :: _, cl => some cl
  | .write _ :: _, cl => some cl

def writes : List Act → List Bytes
  | [] => []
  | .contentLength _ :: acts => writes acts
  | .writeHeader _ :: acts => writes acts
  | .write b :: acts => b :: writes acts

section Phases

variable {g : Gzip} {s : GzipWriter g × Conn} {c : Conn} {b : Bytes} {bs : List Bytes} {limit : Option Nat}

theorem Conn.write_eq (hsent : c.sent.isSome)
    : (c.write b).2 =
      if b = [] then c
      else if ∃ n ∈ c.contentLength, n < c.written + b.length then { c with written := c.written + b.length }
      else { c with written := c.written + b.length, body := c.body ++ b } := by
  unfold Conn.write
  rw [Conn.writeHeader_of_sent hsent]
  dsimp only
  split
  . rfl
  . split <;> rfl

theorem Conn.write_unlimited (hsent : c.sent.isSome) (hlimit : c.contentLength = none)
    : (c.write b).2 = { c with written := c.written + b.length, body := c.body ++ b } := by
  have hfits : ¬∃ n ∈ c.contentLength, n < c.written + b.length := by
    rw [hlimit]
    rintro ⟨n, ⟨⟩, _⟩
  rw [Conn.write_eq hsent, if_neg hfits]
  split
  next hnil => rw [hnil, List.length_nil, Nat.add_zero, List.append_nil]
  next => rfl

theorem emit_unlimited (hsent : c.sent.isSome) (hlimit : c.contentLength = none)
    : emit conn bs c = { c with written := c.written + bs.flatten.length, body := c.body ++ bs.flatten } := by
  induction bs generalizing c with
  | nil =>
    unfold emit
    rw [List.foldl_nil, List.flatten_nil, List.length_nil, Nat.add_zero, List.append_nil]
  | cons b bs ih =>
    have hstep : emit conn (b :: bs) c = emit conn bs (c.write b).2 := rfl
    rw [hstep, Conn.write_unlimited hsent hlimit, List.flatten_cons, List.length_append, ← List.append_assoc,
      ← Nat.add_assoc]
    exact ih hsent hlimit

/--
What a response has kept of what was written to it.
-/
structure Kept (limit : Option Nat) (bytes : Bytes) (c : Conn) : Prop where
  contentLength : c.contentLength = limit
  written : c.written = bytes.length
  whole : (∀ n ∈ limit, bytes.length ≤ n) → c.body = bytes
  short : ∀ n ∈ limit, c.body.length ≤ n

theorem Kept.write {bytes : Bytes} (h : Kept limit bytes c) (hsent : c.sent.isSome) (b : Bytes)
    : Kept limit (bytes ++ b) (c.write b).2 := by
  rw [Conn.write_eq hsent, h.contentLength, h.written]
  split
  next hnil =>
    rw [hnil, List.append_nil]
    exact h
  next =>
    split
    next hexceeds =>
      obtain ⟨n, hn, hlt⟩ := hexceeds
      refine ⟨rfl, List.length_append.symm, fun hwhole => ?_, h.short⟩
      have hle := hwhole n hn
      rw [List.length_append] at hle
      omega
    next hfits =>
      have hle : ∀ n ∈ limit, (bytes ++ b).length ≤ n := by
        intro n hn
        rw [List.length_append]
        exact Nat.not_lt.mp fun hlt => hfits ⟨n, hn, hlt⟩
      have hbody : c.body = bytes := by
        refine h.whole fun n hn => ?_
        have := hle n hn
        rw [List.length_append] at this
        omega
      refine ⟨rfl, List.length_append.symm, fun _ => ?_, fun n hn => ?_⟩
      . exact congrArg (· ++ b) hbody
      . have := hle n hn
        rwa [← hbody] at this

/--
The same header has been sent but for the fields that compression is about.
-/
structure SentAs (encoding : Bytes) (s : GzipWriter g × Conn) (c : Conn) : Prop where
  header : s.1.header = true
  plain : c.sent.isSome
  gzip : s.2.sent.isSome
  status : s.2.sent.map Prod.fst = c.sent.map Prod.fst
  encoding : ∀ x ∈ s.2.sent, x.2.get "Content-Encoding" = encoding

structure Identical (s : GzipWriter g × Conn) (c : Conn) : Prop extends SentAs [] s c where
  off : s.1.on = false
  contentLength : s.2.contentLength = c.contentLength
  written : s.2.written = c.written
  body : s.2.body = c.body

/--
The compressor has been given all that was written.
-/
structure Compressed (limit : Option Nat) (bs : List Bytes) (s : GzipWriter g × Conn) (c : Conn) : Prop
    extends SentAs (ascii "gzip") s c where
  on : s.1.on = true
  unlimited : s.2.contentLength = none
  emitted : ∀ bs', s.2.body ++ deflated g.write g.close bs' s.1.gz = deflated g.write g.close (bs ++ bs') g.new
  kept : Kept limit bs.flatten c

theorem SentAs.writeHeader {encoding : Bytes} (h : SentAs encoding s c) (status : Nat)
    : GzipWriter.writeHeader g conn status s = s ∧ c.writeHeader status = c := by
  have hsuperfluous : conn.writeHeader status s.2 = s.2 := Conn.writeHeader_of_sent h.gzip
  unfold GzipWriter.writeHeader
  rw [if_pos h.header, hsuperfluous]
  exact ⟨rfl, Conn.writeHeader_of_sent h.plain⟩

theorem write_off (hheader : s.1.header = true) (hoff : s.1.on = false)
    : ((gzipWriter g conn).write b s).2 = (s.1, (s.2.write b).2) := by
  unfold gzipWriter
  dsimp only
  rw [if_pos hheader, if_neg (by rw [hoff]; exact Bool.false_ne_true)]
  rfl

theorem write_on (hheader : s.1.header = true) (hon : s.1.on = true)
    : ((gzipWriter g conn).write b s).2 =
      ({ s.1 with gz := (g.write b s.1.gz).1 }, emit conn (g.write b s.1.gz).2 s.2) := by
  unfold gzipWriter
  dsimp only
  rw [if_pos hheader, if_pos hon]

theorem Identical.apply (h : Identical s c) (act : Act)
    : Identical (act.apply (gzipWriter g conn) s) (act.apply conn c) := by
  cases act with
  | contentLength v =>
    exact ⟨⟨h.header, h.plain, h.gzip, h.status, h.encoding⟩, h.off, h.contentLength, h.written, h.body⟩
  | writeHeader status =>
    obtain ⟨hgzip, hplain⟩ := h.toSentAs.writeHeader status.code
    change Identical (GzipWriter.writeHeader g conn status.code s) (c.writeHeader status.code)
    rw [hgzip, hplain]
    exact h
  | write b =>
    change Identical ((gzipWriter g conn).write b s).2 (c.write b).2
    rw [write_off h.header h.off, Conn.write_eq h.gzip, Conn.write_eq h.plain, h.contentLength, h.written, h.body]
    split
    . exact h
    . split
      . exact ⟨⟨h.header, h.plain, h.gzip, h.status, h.encoding⟩, h.off, rfl, rfl, rfl⟩
      . exact ⟨⟨h.header, h.plain, h.gzip, h.status, h.encoding⟩, h.off, rfl, rfl, rfl⟩

theorem Identical.run (h : Identical s c) (acts : List Act)
    : Identical (acts.foldl (Act.apply (gzipWriter g conn)) s) (acts.foldl (Act.apply conn) c) := by
  induction acts generalizing s c with
  | nil => exact h
  | cons act acts ih => exact ih (h.apply act)

theorem Compressed.write (h : Compressed limit bs s c) (b : Bytes)
    : Compressed limit (bs ++ [b]) ((gzipWriter g conn).write b s).2 (c.write b).2 := by
  rw [write_on h.header h.on, emit_unlimited h.gzip h.unlimited]
  have hsent : (c.write b).2.sent = c.sent := by
    rw [Conn.write_eq h.plain]
    split
    . rfl
    . split <;> rfl
  have hkept := h.kept.write h.plain b
  refine ⟨⟨h.header, ?_, h.gzip, ?_, h.encoding⟩, h.on, h.unlimited, ?_, ?_⟩
  . rw [hsent]
    exact h.plain
  . rw [hsent]
    exact h.status
  . intro bs'
    have hgiven : bs ++ [b] ++ bs' = bs ++ b :: bs' := List.append_assoc bs [b] bs'
    rw [hgiven, ← h.emitted (b :: bs')]
    exact List.append_assoc _ _ _
  . rwa [List.flatten_append, List.flatten_singleton]

theorem Compressed.run (h : Compressed limit bs s c) (acts : List Act)
    : Compressed limit (bs ++ writes acts) (acts.foldl (Act.apply (gzipWriter g conn)) s)
      (acts.foldl (Act.apply conn) c) := by
  induction acts generalizing s c bs with
  | nil =>
    rw [writes, List.append_nil]
    exact h
  | cons act acts ih =>
    rw [List.foldl_cons, List.foldl_cons]
    cases act with
    | contentLength v =>
      exact ih ⟨⟨h.header, h.plain, h.gzip, h.status, h.encoding⟩, h.on, h.unlimited, h.emitted,
        h.kept.contentLength, h.kept.written, h.kept.whole, h.kept.short⟩
    | writeHeader status =>
      obtain ⟨hgzip, hplain⟩ := h.toSentAs.writeHeader status.code
      change Compressed limit (bs ++ writes acts)
        (acts.foldl (Act.apply (gzipWriter g conn)) (GzipWriter.writeHeader g conn status.code s))
        (acts.foldl (Act.apply conn) (c.writeHeader status.code))
      rw [hgzip, hplain]
      exact ih h
    | write b =>
      have hrest := ih (h.write b)
      rw [List.append_assoc, List.singleton_append] at hrest
      exact hrest

/--
Nothing has been sent yet, and `cl` is the length in the header.
-/
structure Unsent (cl : Bytes) (s : GzipWriter g × Conn) (c : Conn) : Prop where
  fresh : s.1 = .fresh g
  plain : c.sent = none
  gzip : s.2.sent = none
  length : c.header.get "Content-Length" = cl
  lengthGzip : s.2.header.get "Content-Length" = cl
  encoding : s.2.header.get "Content-Encoding" = []
  written : c.written = 0 ∧ s.2.written = 0
  body : c.body = [] ∧ s.2.body = []

theorem Conn.writeHeader_unsent (hsent : c.sent = none) (status : Nat)
    : ∃ h, c.writeHeader status =
        { c with sent := some (status, h), contentLength := Conn.parseLength (c.header.get "Content-Length") } ∧
      h.get "Content-Encoding" = c.header.get "Content-Encoding" := by
  unfold Conn.writeHeader
  rw [hsent, if_neg (by decide)]
  refine ⟨_, rfl, ?_⟩
  split
  . rfl
  . exact Header.get_del_of_ne (by decide)

theorem Unsent.writeHeader {cl : Bytes} (h : Unsent cl s c) (status : Nat)
    : if worthwhile cl then
        Compressed (Conn.parseLength cl) [] (GzipWriter.writeHeader g conn status s) (c.writeHeader status)
      else Identical (GzipWriter.writeHeader g conn status s) (c.writeHeader status) := by
  obtain ⟨gw, d⟩ := s
  obtain ⟨hfresh, hplain, hgzip, hlength, hlengthGzip, hencoding, hwritten, hbody⟩ := h
  dsimp only at hfresh hgzip hlengthGzip hencoding hwritten hbody
  subst hfresh hlengthGzip
  obtain ⟨hdr, hc, _⟩ := Conn.writeHeader_unsent hplain status
  have hfirst : GzipWriter.writeHeader g conn status (.fresh g, d) =
      if worthwhile (d.header.get "Content-Length") then
        ({ gz := g.new, on := true, header := true }, Conn.writeHeader status
          { d with header := (d.header.set "Content-Encoding" (ascii "gzip")).del "Content-Length" })
      else ({ gz := g.new, on := false, header := true }, d.writeHeader status) := rfl
  rw [hfirst, hc, hlength]
  by_cases hworth : worthwhile (d.header.get "Content-Length") = true
  . simp only [if_pos hworth]
    obtain ⟨hdr', hd, hencoding'⟩ := Conn.writeHeader_unsent
      (c := { d with header := (d.header.set "Content-Encoding" (ascii "gzip")).del "Content-Length" }) hgzip status
    have hencoded : hdr'.get "Content-Encoding" = ascii "gzip" := by
      rw [hencoding', Header.get_del_of_ne (by decide), Header.get_set_self]
    rw [hd, Header.get_del_self]
    refine ⟨⟨rfl, rfl, rfl, rfl, ?_⟩, rfl, rfl, fun bs' => ?_, rfl, ?_, fun _ => ?_, fun n _ => ?_⟩
    . rintro x ⟨⟩
      exact hencoded
    . dsimp only
      rw [hbody.2]
      rfl
    . exact hwritten.1
    . exact hbody.1
    . dsimp only
      rw [hbody.1]
      exact Nat.zero_le n
  . simp only [if_neg hworth]
    obtain ⟨hdr', hd, hencoding'⟩ := Conn.writeHeader_unsent hgzip status
    rw [hd]
    refine ⟨⟨rfl, rfl, rfl, rfl, ?_⟩, rfl, rfl, ?_, ?_⟩
    . rintro x ⟨⟩
      exact hencoding'.trans hencoding
    . exact hwritten.2.trans hwritten.1.symm
    . exact hbody.2.trans hbody.1.symm

theorem Conn.write_writeHeader (c : Conn) (b : Bytes) : (c.writeHeader 200).write b = c.write b := by
  unfold Conn.write
  rw [Conn.writeHeader_of_sent (c.writeHeader_isSome 200)]

theorem write_writeHeader (hheader : s.1.header = false) (b : Bytes)
    : (gzipWriter g conn).write b (GzipWriter.writeHeader g conn 200 s) = (gzipWriter g conn).write b s := by
  have hafter : (GzipWriter.writeHeader g conn 200 s).1.header = true := by
    unfold GzipWriter.writeHeader
    rw [hheader, if_neg Bool.false_ne_true]
    split <;> rfl
  unfold gzipWriter
  dsimp only
  rw [if_pos hafter, hheader, if_neg Bool.false_ne_true]

/--
Where the two responses are in the end, by the length that was declared when the header was sent.
-/
def Reached (g : Gzip) (acts : List Act) (sent : Option Bytes) (s : GzipWriter g × Conn) (c : Conn) : Prop :=
  match sent with
  | none => ∃ cl, Unsent cl s c
  | some cl => if worthwhile cl then Compressed (Conn.parseLength cl) (writes acts) s c else Identical s c

theorem Unsent.run {cl : Bytes} (h : Unsent cl s c) (acts : List Act)
    : Reached g acts (firstLength acts cl) (acts.foldl (Act.apply (gzipWriter g conn)) s)
      (acts.foldl (Act.apply conn) c) := by
  induction acts generalizing s c cl with
  | nil => exact ⟨cl, h⟩
  | cons act acts ih =>
    rw [List.foldl_cons, List.foldl_cons]
    cases act with
    | contentLength v =>
      refine ih ⟨h.fresh, h.plain, h.gzip, Header.get_set_self, Header.get_set_self, ?_, h.written, h.body⟩
      exact (Header.get_set_of_ne (by decide)).trans h.encoding
    | writeHeader status =>
      have hdecided := h.writeHeader status.code
      unfold Reached firstLength
      dsimp only
      split at hdecided
      next hworth =>
        rw [if_pos hworth]
        exact hdecided.run acts
      next hworth =>
        rw [if_neg hworth]
        exact hdecided.run acts
    | write b =>
      have hheader : s.1.header = false := by
        rw [h.fresh]
        rfl
      have hdecided := h.writeHeader 200
      have happly : Act.apply (gzipWriter g conn) s (.write b) =
          ((gzipWriter g conn).write b (GzipWriter.writeHeader g conn 200 s)).2 := by
        rw [write_writeHeader hheader]
        rfl
      have hplain : Act.apply conn c (.write b) = ((c.writeHeader 200).write b).2 := by
        rw [Conn.write_writeHeader]
        rfl
      unfold Reached firstLength
      dsimp only
      rw [happly, hplain]
      split at hdecided
      next hworth =>
        rw [if_pos hworth]
        exact (hdecided.write b).run acts
      next hworth =>
        rw [if_neg hworth]
        exact (hdecided.apply (.write b)).run acts

theorem Conn.response_of_sent {x : Nat × Header} (h : c.sent = some x)
    : c.response = { status := x.1, header := x.2, body := c.body } := by
  unfold Conn.response
  rw [Conn.writeHeader_of_sent (by rw [h]; rfl), h]
  rfl

theorem recovered_of_sent (panicked : Bool) (hsent : c.sent.isSome) : recovered panicked c = c := by
  unfold recovered
  rw [if_neg]
  rintro ⟨_, hnone⟩
  rw [hnone] at hsent
  contradiction

theorem SentAs.response {encoding : Bytes} (h : SentAs encoding s c) (panicked : Bool) {d : Conn}
    (hd : d.sent = s.2.sent)
    : (recovered panicked d).response.status = (recovered panicked c).response.status ∧
      (recovered panicked d).response.header.get "Content-Encoding" = encoding ∧
      (recovered panicked d).response.body = d.body ∧ (recovered panicked c).response.body = c.body := by
  obtain ⟨x, hx⟩ := Option.isSome_iff_exists.mp h.gzip
  obtain ⟨y, hy⟩ := Option.isSome_iff_exists.mp h.plain
  have hsent : d.sent = some x := hd.trans hx
  have hstatus := h.status
  rw [hx, hy] at hstatus
  rw [recovered_of_sent panicked (by rw [hsent]; rfl), recovered_of_sent panicked h.plain, Conn.response_of_sent hsent,
    Conn.response_of_sent hy]
  exact ⟨Option.some.inj hstatus, h.encoding x hx, rfl, rfl⟩

theorem writeJSON_unsent (hsent : c.sent = none) (hwritten : c.written = 0) (hbody : c.body = [])
    : ∃ h, (writeJSON conn 500 internalError c).sent = some (500, h) ∧
      h.get "Content-Encoding" = c.header.get "Content-Encoding" ∧
      (writeJSON conn 500 internalError c).body =
        if internalError = [] then []
        else if ∃ n ∈ Conn.parseLength (c.header.get "Content-Length"), n < internalError.length then []
        else internalError := by
  obtain ⟨h, hfirst, hencoding⟩ := Conn.writeHeader_unsent
    (c := { c with header := c.header.set "Content-Type" (ascii "application/json; charset=utf-8") }) hsent 500
  have hjson : writeJSON conn 500 internalError c = (Conn.write internalError (Conn.writeHeader 500
      { c with header := c.header.set "Content-Type" (ascii "application/json; charset=utf-8") })).2 := rfl
  rw [Header.get_set_of_ne (by decide)] at hencoding
  rw [hjson, hfirst, Conn.write_eq rfl, hwritten, Nat.zero_add, hbody, List.nil_append,
    Header.get_set_of_ne (by decide)]
  refine ⟨h, ?_, hencoding, ?_⟩
  . split
    . rfl
    . split <;> rfl
  . split
    . rfl
    . split <;> rfl

theorem Unsent.response {cl : Bytes} (h : Unsent cl s c) (panicked : Bool)
    : (recovered panicked s.2).response.status = (recovered panicked c).response.status ∧
      (recovered panicked s.2).response.header.get "Content-Encoding" = [] ∧
      (recovered panicked s.2).response.body = (recovered panicked c).response.body := by
  cases panicked with
  | false =>
    have hskip : ∀ d : Conn, recovered false d = d := fun d => if_neg (by simp)
    obtain ⟨x, hx, hencoding⟩ := Conn.writeHeader_unsent h.gzip 200
    obtain ⟨y, hy, _⟩ := Conn.writeHeader_unsent h.plain 200
    rw [hskip, hskip]
    unfold Conn.response
    rw [hx, hy]
    exact ⟨rfl, hencoding.trans h.encoding, h.body.2.trans h.body.1.symm⟩
  | true =>
    have herror : ∀ d : Conn, d.sent = none → recovered true d = writeJSON conn 500 internalError d :=
      fun d hd => if_pos ⟨rfl, hd⟩
    obtain ⟨x, hx, hencoding, hbody⟩ := writeJSON_unsent h.gzip h.written.2 h.body.2
    obtain ⟨y, hy, _, hbody'⟩ := writeJSON_unsent h.plain h.written.1 h.body.1
    rw [herror _ h.gzip, herror _ h.plain, Conn.response_of_sent hx, Conn.response_of_sent hy, hbody, hbody', h.length,
      h.lengthGzip]
    exact ⟨rfl, hencoding.trans h.encoding, rfl⟩

end Phases

def Behaviour.compressed (b : Behaviour) : Bool :=
  (firstLength b.acts []).any worthwhile

/--
The declared length is long enough, and the handler writes more than it says.
-/
def Behaviour.overruns (b : Behaviour) : Bool :=
  (firstLength b.acts []).any fun cl =>
    worthwhile cl && (Conn.parseLength cl).any (· < (writes b.acts).flatten.length)

def Response.undone (g : Gzip) (r : Response) : Option Bytes :=
  if r.header.get "Content-Encoding" = ascii "gzip" then g.gunzip r.body else some r.body

section Transparency

variable {g : Gzip} {b : Behaviour} {p r : Response}

/--
What a client notices of the compression.
-/
structure Transparent (g : Gzip) (b : Behaviour) (p r : Response) : Prop where
  status : r.status = p.status
  body : r.undone g = some p.body ↔ b.overruns = false
  encoding : r.header.get "Content-Encoding" = ascii "gzip" ↔ b.compressed = true
  complete : b.compressed = true → (g.gunzip r.body).isSome

theorem Transparent.of_identical (hcompressed : b.compressed = false) (hstatus : r.status = p.status)
    (hencoding : r.header.get "Content-Encoding" = []) (hbody : r.body = p.body)
    : Transparent g b p r := by
  have hnot : ([] : Bytes) ≠ ascii "gzip" := by decide
  have hfits : b.overruns = false := by
    unfold Behaviour.overruns
    unfold Behaviour.compressed at hcompressed
    cases hsent : firstLength b.acts [] with
    | none => rfl
    | some cl =>
      rw [hsent, Option.any_some] at hcompressed
      rw [Option.any_some, hcompressed, Bool.false_and]
  refine ⟨hstatus, ?_, ?_, ?_⟩
  . unfold Response.undone
    rw [hencoding, if_neg hnot, hbody]
    exact iff_of_true rfl hfits
  . rw [hencoding, hcompressed]
    exact iff_of_false hnot Bool.false_ne_true
  . rw [hcompressed]
    exact fun h => absurd h Bool.false_ne_true

theorem unsent_start (g : Gzip) (id : Bytes)
    : Unsent [] (GzipWriter.fresh g, vary (Conn.start id)) (Conn.start id) where
  fresh := rfl
  plain := rfl
  gzip := rfl
  length := Header.get_set_of_ne (by decide)
  lengthGzip := (Header.get_add_of_ne (by decide)).trans (Header.get_set_of_ne (by decide))
  encoding := (Header.get_add_of_ne (by decide)).trans (Header.get_set_of_ne (by decide))
  written := ⟨rfl, rfl⟩
  body := ⟨rfl, rfl⟩

theorem Kept.body_iff {limit : Option Nat} {bytes : Bytes} {c : Conn} (h : Kept limit bytes c)
    : c.body = bytes ↔ limit.any (· < bytes.length) = false := by
  cases limit with
  | none => exact iff_of_true (h.whole fun n hn => nomatch hn) rfl
  | some n =>
    rw [Option.any_some, decide_eq_false_iff_not, Nat.not_lt]
    constructor
    . rintro rfl
      exact h.short n rfl
    . intro hle
      refine h.whole fun m hm => ?_
      rw [Option.mem_some.mp hm] at hle
      exact hle

theorem transparent_of_reached {s : GzipWriter g × Conn} {c : Conn}
    (h : Reached g b.acts (firstLength b.acts []) s c)
    : Transparent g b (recovered b.panics c).response (recovered b.panics (closed g conn s)).response := by
  unfold Reached at h
  cases hsent : firstLength b.acts [] with
  | none =>
    rw [hsent] at h
    obtain ⟨cl, hunsent⟩ := h
    have hclosed : closed g conn s = s.2 := by
      unfold closed
      rw [hunsent.fresh]
      exact if_neg Bool.false_ne_true
    have hcompressed : b.compressed = false := by
      unfold Behaviour.compressed
      rw [hsent]
      rfl
    obtain ⟨hstatus, hencoding, hbody⟩ := hunsent.response b.panics
    rw [hclosed]
    exact .of_identical hcompressed hstatus hencoding hbody
  | some cl =>
    rw [hsent] at h
    dsimp only at h
    split at h
    next hworth =>
      have hclosed : closed g conn s = emit conn (g.close s.1.gz) s.2 := if_pos h.on
      obtain ⟨hstatus, hencoding, hbody, hplain⟩ := h.toSentAs.response b.panics
        (show (closed g conn s).sent = s.2.sent by rw [hclosed, emit_unlimited h.gzip h.unlimited])
      have hstream : (closed g conn s).body = deflated g.write g.close (writes b.acts) g.new := by
        have hemitted := h.emitted []
        rw [List.append_nil] at hemitted
        rw [hclosed, emit_unlimited h.gzip h.unlimited]
        exact hemitted
      have hundone : g.gunzip (closed g conn s).body = some (writes b.acts).flatten := by
        rw [hstream, g.gunzip_eq]
      have hcompressed : b.compressed = true := by
        unfold Behaviour.compressed
        rw [hsent]
        exact hworth
      refine ⟨hstatus, ?_, iff_of_true hencoding hcompressed, fun _ => ?_⟩
      . unfold Response.undone Behaviour.overruns
        rw [hencoding, if_pos rfl, hbody, hundone, hplain, hsent, Option.any_some, hworth, Bool.true_and,
          ← h.kept.body_iff, Option.some_inj]
        exact eq_comm
      . rw [hbody, hundone]
        rfl
    next hworth =>
      have hclosed : closed g conn s = s.2 := if_neg (by rw [h.off]; exact Bool.false_ne_true)
      have hcompressed : b.compressed = false := by
        unfold Behaviour.compressed
        rw [hsent]
        exact Bool.eq_false_iff.mpr hworth
      obtain ⟨hstatus, hencoding, hbody, hplain⟩ := h.toSentAs.response b.panics (show s.2.sent = s.2.sent from rfl)
      rw [hclosed]
      exact .of_identical hcompressed hstatus hencoding (hbody.trans (h.body.trans hplain.symm))

theorem transparent_stacks (g : Gzip) (z : g.State) (id acceptEncoding : Bytes) (b : Behaviour)
    (haccept : ascii "gzip" <:+: acceptEncoding)
    : Transparent g b (respond (plainStack id b.serve)) (respond (gzipStack g z id acceptEncoding b.serve)) := by
  rw [respond_plain, respond_gzip g z id b haccept]
  exact transparent_of_reached ((unsent_start g id).run b.acts)

/--
A client that undoes the compression gets the status and the body that the other clients get, unless a handler writes
more than it has declared, in which case only the compressed body has all of it. What was left in the pool does not
matter.
-/
theorem gzip_transparent (g : Gzip) (z : g.State) (id acceptEncoding : Bytes) (b : Behaviour)
    (haccept : ascii "gzip" <:+: acceptEncoding)
    : Transparent g b (respond (plainStack id b.serve)) (respond (gzipStack g z id acceptEncoding b.serve)) ∧
      ∀ z', respond (gzipStack g z' id acceptEncoding b.serve) = respond (gzipStack g z id acceptEncoding b.serve) := by
  refine ⟨transparent_stacks g z id acceptEncoding b haccept, fun z' => ?_⟩
  rw [respond_gzip g z id b haccept, respond_gzip g z' id b haccept]

end Transparency

/-!
A compressor that keeps everything until it is closed, and then stores each byte in a block of its own.
-/

namespace Stored

def crc32 (bs : Bytes) : UInt32 :=
  let shift (c : UInt32) : UInt32 := if c &&& 1 = 1 then c >>> 1 ^^^ 0xEDB88320 else c >>> 1
  ~~~bs.foldl (fun c b => (List.range 8).foldl (fun c _ => shift c) (c ^^^ b.toUInt32)) 0xFFFFFFFF

def le32 (x : UInt32) : Bytes :=
  [x.toUInt8, (x >>> 8).toUInt8, (x >>> 16).toUInt8, (x >>> 24).toUInt8]

def head : Bytes :=
  [0x1f, 0x8b, 8, 0, 0, 0, 0, 0, 4, 0xff]

def trailer (bs : Bytes) : Bytes :=
  le32 (crc32 bs) ++ le32 (UInt32.ofNat bs.length)

def blocks : Bytes → Bytes
  | [] => [1, 0, 0, 0xff, 0xff]
  | b :: bs => 0 :: 1 :: 0 :: 0xfe :: 0xff :: b :: blocks bs

def pack (bs : Bytes) : Bytes :=
  head ++ (blocks bs ++ trailer bs)

def unblocks : Bytes → Option (Bytes × Bytes)
  | 0 :: 1 :: 0 :: 0xfe :: 0xff :: b :: rest => (unblocks rest).map fun (bs, tail) => (b :: bs, tail)
  | 1 :: 0 :: 0 :: 0xff :: 0xff :: tail => some ([], tail)
  | _ => none

def unpack (s : Bytes) : Option Bytes :=
  if s.take head.length = head then
    (unblocks (s.drop head.length)).bind fun (bs, tail) => if tail = trailer bs then some bs else none
  else
    none

theorem unblocks_blocks (bs tail : Bytes) : unblocks (blocks bs ++ tail) = some (bs, tail) := by
  induction bs with
  | nil => rfl
  | cons b bs ih =>
    have hnext : unblocks (blocks (b :: bs) ++ tail) = (unblocks (blocks bs ++ tail)).map fun (bs, tail) => (b :: bs, tail) :=
      rfl
    rw [hnext, ih]
    rfl

theorem unpack_pack (bs : Bytes) : unpack (pack bs) = some bs := by
  unfold unpack pack
  rw [List.take_left, List.drop_left, if_pos rfl, unblocks_blocks]
  exact if_pos rfl

def write (b z : Bytes) : Bytes × List Bytes :=
  (z ++ b, [])

def close (z : Bytes) : List Bytes :=
  [pack z]

theorem deflated_eq (bs : List Bytes) (z : Bytes) : deflated write close bs z = pack (z ++ bs.flatten) := by
  induction bs generalizing z with
  | nil => rw [deflated, close, List.flatten_singleton, List.flatten_nil, List.append_nil]
  | cons b bs ih => rw [deflated, write, ih, List.flatten_nil, List.nil_append, List.flatten_cons, List.append_assoc]

end Stored

def stored : Gzip where
  State := Bytes
  new := []
  reset _ := []
  write := Stored.write
  close := Stored.close
  gunzip := Stored.unpack
  reset_eq _ := rfl
  gunzip_eq bs := by rw [Stored.deflated_eq, List.nil_append, Stored.unpack_pack]

theorem gzip_transparent_panic
    : let b : Behaviour := { acts := [.write (ascii "partial"), .contentLength (ascii "5")], panics := true }
      Transparent stored b (respond (plainStack [] b.serve))
        (respond (gzipStack stored (ascii "left") [] (ascii "gzip, br") b.serve)) :=
  (gzip_transparent stored (ascii "left") [] (ascii "gzip, br") _ (by decide)).1

/--
A handler that sends a compressed stream itself, and one that writes a byte too much.
-/
def packed : Behaviour where
  acts := [.contentLength (ascii "23"), .write (Stored.pack [])]
  panics := false

def overlong : Behaviour where
  acts := [.contentLength (ascii "1000"), .write (List.replicate 1001 65)]
  panics := false

theorem gzip_not_transparent
    : ¬((respond (gzipStack stored [] [] (ascii "gzip") packed.serve)).header.get "Content-Encoding" = ascii "gzip" ↔
        (stored.gunzip (respond (gzipStack stored [] [] (ascii "gzip") packed.serve)).body).isSome) ∧
      (respond (gzipStack stored [] [] (ascii "gzip") overlong.serve)).undone stored ≠
        some (respond (plainStack [] overlong.serve)).body := by
  constructor
  . decide +kernel
  . intro hbody
    have hfits := (transparent_stacks stored [] [] (ascii "gzip") overlong (by decide)).body.mp hbody
    have hwrites : writes overlong.acts = [List.replicate 1001 65] := rfl
    unfold Behaviour.overruns at hfits
    rw [hwrites, List.flatten_singleton, List.length_replicate] at hfits
    revert hfits
    decide +kernel

end Http
end Api
