import BenchPlatform.Engine.Socket
import BenchPlatform.Lib.Trans

/-!
This module proves what the client reads from a response that a server has written: always its status, and its body
if the one spelling of the header field that the client knows stands in the headers exactly when the body is in
chunks.
-/

namespace Bench

open Text Search

def chars (data : List UInt8) : List Char :=
  data.map fun b => Char.ofNat b.toNat

theorem bytes_chars (data : List UInt8) : Text.bytes (chars data) = data := by
  unfold Text.bytes chars
  rw [List.map_map]
  refine (List.map_congr_left fun b _ => ?_).trans (List.map_id data)
  have hb : b.toNat < 256 := b.toNat_lt
  have hvalid : b.toNat.isValidChar := .inl (by omega)
  have hsame : (Char.ofNat b.toNat).toNat = b.toNat := by
    unfold Char.ofNat
    rw [dif_pos hvalid]
    rfl
  rw [Function.comp_apply, hsame]
  exact UInt8.ofNat_toNat

/--
A response as a server writes it: a status line, the lines of the header fields, and a body as it is or in chunks.
-/
structure Reply where
  status : Nat
  reason : List Char
  fields : List (List Char)
  body : List UInt8 ⊕ ChunkedBody
  status_range : 100 ≤ status ∧ status < 1000
  reason_plain : '\r' ∉ reason
  fields_plain : ∀ f ∈ fields, f ≠ [] ∧ '\r' ∉ f ∧ '\n' ∉ f

namespace Reply

def status_line (r : Reply) : List Char :=
  "HTTP/1.1 ".toList ++ (Nat.toDigits 10 r.status ++ ' ' :: r.reason)

def payload (r : Reply) : List Char :=
  r.body.elim chars fun b => chars b.encode

def after_status (r : Reply) : List Char :=
  r.fields.flatMap (· ++ line_break) ++ (line_break ++ r.payload)

def encode (r : Reply) : List Char :=
  r.status_line ++ '\r' :: '\n' :: r.after_status

def content (r : Reply) : List UInt8 :=
  r.body.elim id fun b => b.chunks.flatMap Chunk.data

def chunkCount (r : Reply) : Nat :=
  r.body.elim (fun _ => 0) fun b => b.chunks.length

/--
What the client takes for the header fields. Without a field the length of the headers wraps, and they reach to the
end of the body.
-/
def head (r : Reply) : List (List Char) :=
  if r.fields = [] then [r.payload] else r.fields

/--
The client takes the body for one in chunks: the field has exactly one blank after the colon.
-/
def Announces (r : Reply) : Prop :=
  ∃ line ∈ r.head, "transfer-encoding: chunked".toList <:+: lower line

end Reply

section Lines

variable {line first rest pat payload : List Char} {fields : List (List Char)}

theorem search_blank_line (hline : '\r' ∉ line) (hrest : rest.head? ≠ some '\r')
    : search blank_line (line ++ '\r' :: '\n' :: rest)
      = (search blank_line rest).map (· + (line.length + 2)) := by
  have hcr : ¬blank_line <+: '\r' :: '\n' :: rest := by
    intro hbegins
    obtain ⟨_, hbegins⟩ := List.cons_prefix_cons.mp hbegins
    obtain ⟨_, hbegins⟩ := List.cons_prefix_cons.mp hbegins
    obtain ⟨s, hs⟩ := hbegins
    apply hrest
    rw [← hs]
    rfl
  have hlf : ¬blank_line <+: '\n' :: rest := fun hbegins =>
    absurd (List.cons_prefix_cons.mp hbegins).1 (by decide)
  have hskip : search blank_line (line ++ '\r' :: '\n' :: rest)
      = (search blank_line ('\r' :: '\n' :: rest)).map (· + line.length) :=
    search_skip hline
  refine hskip.trans ?_
  rw [search_cons hcr, search_cons hlf, Option.map_map, Option.map_map]
  congr 1
  funext n
  exact (by omega : n + 1 + 1 + line.length = n + (line.length + 2))

theorem search_headers_end (hfirst : '\r' ∉ first) (hfields : ∀ f ∈ fields, f ≠ [] ∧ '\r' ∉ f ∧ '\n' ∉ f)
    : search blank_line (first ++ '\r' :: '\n' :: (fields.flatMap (· ++ line_break) ++ (line_break ++ payload)))
      = some (first.length + (fields.flatMap (· ++ line_break)).length) := by
  induction fields generalizing first with
  | nil => exact search_append hfirst
  | cons f fields ih =>
    rw [List.forall_mem_cons] at hfields
    obtain ⟨⟨hne, hcr, _⟩, hfields⟩ := hfields
    obtain ⟨c, f, rfl⟩ := List.exists_cons_of_ne_nil hne
    have hhead : c ≠ '\r' := fun h => hcr (h ▸ List.mem_cons_self)
    have hrest : (((c :: f) ++ line_break) ++ (fields.flatMap (· ++ line_break) ++ (line_break ++ payload))).head?
        ≠ some '\r' :=
      fun h => hhead (Option.some.inj h)
    have hih := ih hcr hfields
    have hsplit : (c :: f) ++ line_break ++ (fields.flatMap (· ++ line_break) ++ (line_break ++ payload))
        = (c :: f) ++ '\r' :: '\n' :: (fields.flatMap (· ++ line_break) ++ (line_break ++ payload)) :=
      List.append_assoc _ _ _
    rw [List.flatMap_cons, List.append_assoc (_ ++ _), search_blank_line hfirst hrest, hsplit, hih, Option.map_some,
      List.length_append, List.length_append]
    congr 1
    exact (by omega : ∀ a b l : Nat, a + b + (l + 2) = l + (a + 2 + b)) _ _ _

theorem infix_lines_iff (hne : pat ≠ []) (hcr : '\r' ∉ pat) (hlf : '\n' ∉ pat)
    : pat <:+: lower (fields.flatMap (· ++ line_break)) ↔ ∃ f ∈ fields, pat <:+: lower f := by
  induction fields with
  | nil => simpa [lower] using hne
  | cons f fields ih =>
    have hlower : lower ((f :: fields).flatMap (· ++ line_break))
        = lower f ++ '\r' :: '\n' :: lower (fields.flatMap (· ++ line_break)) := by
      rw [List.flatMap_cons]
      unfold lower
      rw [List.map_append, List.map_append, List.append_assoc]
      rfl
    rw [hlower, infix_append_cons hcr, infix_cons_of_not_mem hlf, ih]
    simp only [List.mem_cons, exists_eq_or_imp]

end Lines

theorem from_chars_int_toDigits {n : Nat} (hn : n < 2 ^ 31) (hrest : Ends 10 rest)
    : from_chars_int (Nat.toDigits 10 n ++ rest) = some n := by
  have hread : fromChars 10 (2 ^ 31) (Nat.toDigits 10 n ++ rest) = some (n, rest) := by
    rw [fromChars_append isDigit_toDigits hrest Nat.toDigits_ne_nil (by rwa [value_toDigits]), value_toDigits]
  obtain ⟨c, digits, hdigits⟩ := List.exists_cons_of_ne_nil (Nat.toDigits_ne_nil (b := 10) (n := n))
  have hminus : c ≠ '-' := by
    intro h
    apply minus_not_mem_toDigits (n := n)
    rw [hdigits, h]
    exact List.mem_cons_self
  rw [hdigits, List.cons_append] at hread ⊢
  unfold from_chars_int
  split
  . rename_i heq
    exact absurd (List.cons.inj heq).1 hminus
  . rw [hread]
    rfl

namespace Reply

variable (r : Reply)

theorem status_line_eq
    : r.status_line
      = ['H', 'T', 'T', 'P', '/', '1', '.', '1'] ++ ' ' :: (Nat.toDigits 10 r.status ++ ' ' :: r.reason) := by
  have hversion : "HTTP/1.1 ".toList = ['H', 'T', 'T', 'P', '/', '1', '.', '1', ' '] := rfl
  unfold status_line
  rw [hversion]
  rfl

theorem status_line_plain : '\r' ∉ r.status_line := by
  intro h
  rw [status_line_eq, List.mem_append, List.mem_cons (a := '\r') (b := ' '), List.mem_append] at h
  obtain h | h | h | h := h
  . revert h
    decide
  . cases h
  . have hdigit := isDigit_toDigits '\r' h
    revert hdigit
    decide
  . obtain h | h := List.mem_cons.mp h
    . cases h
    . exact r.reason_plain h

theorem read_status (rest : List Char)
    : read_response (r.status_line ++ '\r' :: '\n' :: rest)
      = .response r.status (response_chunked (r.status_line ++ '\r' :: '\n' :: rest) r.status_line.length)
        (response_payload (r.status_line ++ '\r' :: '\n' :: rest)) := by
  have hend : search line_break (r.status_line ++ '\r' :: '\n' :: rest) = some r.status_line.length :=
    search_append r.status_line_plain
  have hspace : find (r.status_line ++ '\r' :: '\n' :: rest) ' ' 0 = some 8 := by
    rw [status_line_eq, List.append_assoc]
    exact find_append (by decide)
  have hfront : ∀ t, (r.status_line ++ t).drop (8 + 1) = Nat.toDigits 10 r.status ++ ' ' :: r.reason ++ t := by
    intro t
    rw [status_line_eq]
    rfl
  have hlength : r.status_line.length - (8 + 1) = (Nat.toDigits 10 r.status ++ ' ' :: r.reason).length := by
    rw [status_line_eq]
    rfl
  have hstatus : from_chars_int (((r.status_line ++ '\r' :: '\n' :: rest).drop (8 + 1)).take
      (r.status_line.length - (8 + 1))) = some (r.status : Int) := by
    have hends : Ends 10 (' ' :: r.reason) := by
      intro c hc
      rw [← Option.some.inj hc]
      decide
    rw [hfront, hlength, List.take_left]
    exact from_chars_int_toDigits (Nat.lt_trans r.status_range.2 (by decide)) hends
  have hhttp : "HTTP/1.".toList.isPrefixOf (r.status_line ++ '\r' :: '\n' :: rest) = true := by
    have hbegins : "HTTP/1.".toList = ['H', 'T', 'T', 'P', '/', '1', '.'] := rfl
    rw [hbegins, status_line_eq]
    rfl
  have hne : (r.status : Int) ≠ 0 := by
    have := r.status_range
    omega
  have hlt : ¬r.status_line.length < 8 + 1 := by
    rw [status_line_eq]
    exact Nat.not_lt.mpr (Nat.le_add_left 9 _)
  have hnil : r.status_line ++ '\r' :: '\n' :: rest ≠ [] := by simp
  unfold read_response
  rw [if_neg hnil, hend]
  dsimp only
  rw [hhttp, if_neg (not_not.mpr rfl), hspace]
  dsimp only
  rw [if_neg hlt, hstatus, Option.getD_some, if_neg hne]

theorem read_prefix {p : List Char} (h : p <+: r.encode)
    : (∃ text, text ≠ "" ∧ read_response p = .error text)
      ∨ read_response p = .response r.status (response_chunked p r.status_line.length) (response_payload p) := by
  obtain ⟨hnone, _⟩ | ⟨p', _, rfl⟩ := search_pair r.status_line_plain h
  . left
    unfold read_response
    split
    . exact ⟨_, by decide, rfl⟩
    . unfold line_break
      rw [hnone]
      exact ⟨_, by decide, rfl⟩
  . exact .inr (r.read_status p')

theorem headers_end
    : search blank_line r.encode = some (r.status_line.length + (r.fields.flatMap (· ++ line_break)).length) :=
  search_headers_end r.status_line_plain r.fields_plain

theorem encode_eq
    : r.encode = r.status_line ++ line_break ++ r.fields.flatMap (· ++ line_break) ++ line_break ++ r.payload := by
  simp [encode, after_status, line_break]

theorem response_payload_encode : response_payload r.encode = r.payload := by
  have hlength : r.status_line.length + (r.fields.flatMap (· ++ line_break)).length + 4
      = (r.status_line ++ line_break ++ r.fields.flatMap (· ++ line_break) ++ line_break).length := by
    simp only [List.length_append, line_break, List.length_cons, List.length_nil]
    omega
  unfold response_payload
  rw [r.headers_end]
  dsimp only
  rw [hlength, encode_eq, List.drop_left]

theorem drop_status_line : r.encode.drop (r.status_line.length + 2) = r.after_status := by
  have hline : r.status_line.length + 2 = (r.status_line ++ line_break).length := by
    rw [List.length_append]
    rfl
  have hsplit : r.encode = r.status_line ++ line_break ++ r.after_status := by
    rw [List.append_assoc]
    rfl
  rw [hline, hsplit, List.drop_left]

theorem response_headers_encode (hsize : r.encode.length < 2 ^ 64)
    : (r.fields = [] ∧ response_headers r.encode r.status_line.length = lower (line_break ++ r.payload))
      ∨ ∃ init, r.fields.flatMap (· ++ line_break) = init ++ line_break
        ∧ response_headers r.encode r.status_line.length = lower init := by
  have htotal := congrArg List.length r.encode_eq
  simp only [List.length_append, line_break, List.length_cons, List.length_nil] at htotal
  unfold response_headers
  rw [r.headers_end, drop_status_line]
  dsimp only
  obtain hnil | ⟨fields, f, hfields⟩ := List.eq_nil_or_concat r.fields
  . left
    have hafter : r.after_status = line_break ++ r.payload := by
      unfold after_status
      rw [hnil]
      rfl
    have hlength := congrArg List.length hafter
    rw [hnil] at htotal ⊢
    simp only [List.flatMap_nil, List.length_nil, List.length_append, line_break, List.length_cons] at htotal hlength ⊢
    refine ⟨trivial, ?_⟩
    rw [List.take_of_length_le, hafter]
    . rfl
    . unfold size_t
      omega
  . right
    have hinit : r.fields.flatMap (· ++ line_break) = (fields.flatMap (· ++ line_break) ++ f) ++ line_break := by
      rw [hfields, List.concat_eq_append, List.flatMap_append, List.flatMap_singleton, List.append_assoc]
    have hlength := congrArg List.length hinit
    rw [List.length_append] at hlength
    simp only [line_break, List.length_cons, List.length_nil] at hlength htotal
    refine ⟨_, hinit, ?_⟩
    have hcount : size_t (2 ^ 64 + (r.status_line.length + (r.fields.flatMap (· ++ line_break)).length)
        - r.status_line.length - 2) = (fields.flatMap (· ++ line_break) ++ f).length := by
      simp only [line_break]
      unfold size_t
      omega
    rw [hcount]
    unfold after_status
    rw [hinit, List.append_assoc, List.take_left]

theorem response_chunked_encode (hsize : r.encode.length < 2 ^ 64)
    : response_chunked r.encode r.status_line.length = true ↔ r.Announces := by
  have hcr : '\r' ∉ "transfer-encoding: chunked".toList := by decide +kernel
  have hlf : '\n' ∉ "transfer-encoding: chunked".toList := by decide +kernel
  have hne : "transfer-encoding: chunked".toList ≠ [] := by decide +kernel
  unfold response_chunked Announces head
  rw [search_isSome_iff]
  obtain ⟨hnil, hheaders⟩ | ⟨init, hinit, hheaders⟩ := r.response_headers_encode hsize
  . have hlower : lower (line_break ++ r.payload) = '\r' :: '\n' :: lower r.payload := rfl
    rw [hheaders, hlower, infix_cons_of_not_mem hcr, infix_cons_of_not_mem hlf, if_pos hnil]
    simp
  . have hfields : r.fields ≠ [] := by
      intro hnil
      rw [hnil] at hinit
      exact List.append_ne_nil_of_right_ne_nil init (List.cons_ne_nil _ _) hinit.symm
    have hlower : lower (r.fields.flatMap (· ++ line_break)) = lower init ++ '\r' :: '\n' :: [] := by
      rw [hinit]
      exact List.map_append
    have hlines : _ <:+: lower (r.fields.flatMap (· ++ line_break)) ↔ ∃ f ∈ r.fields, _ <:+: lower f :=
      infix_lines_iff hne hcr hlf
    rw [hlower, infix_append_cons hcr, infix_cons_of_not_mem hlf, List.infix_nil, or_iff_left hne] at hlines
    rw [hheaders, if_neg hfields]
    exact hlines

theorem received_eq (hsize : r.encode.length < 2 ^ 64) (rest : Nat)
    : (r.Announces → Post.received rest r.encode = .decoding r.status (Text.bytes r.payload))
      ∧ (¬r.Announces → Post.received rest r.encode = .returned { status := r.status, body := Text.bytes r.payload }) := by
  have hread : read_response r.encode
      = .response r.status (response_chunked r.encode r.status_line.length) r.payload := by
    have hstatus := r.read_status r.after_status
    change read_response r.encode = .response _ (response_chunked r.encode _) (response_payload r.encode) at hstatus
    rw [hstatus, r.response_payload_encode]
  have hchunked := r.response_chunked_encode hsize
  unfold Post.received
  rw [hread]
  constructor
  . intro hannounces
    rw [hchunked.mpr hannounces]
  . intro hnot
    rw [Bool.eq_false_of_not_eq_true (mt hchunked.mp hnot)]

theorem received_encode (hsize : r.encode.length < 2 ^ 64) (hframed : r.Announces ↔ r.body.isRight) (host : String)
    (timeout_ms : Int) (request : List Char) (rest fuel : Nat) (hfuel : r.chunkCount < fuel)
    : Trans.next (Post.step host timeout_ms request) (Post.received rest r.encode) (.rounds fuel)
      = .returned { status := r.status, body := r.content } := by
  obtain ⟨hchunked, hwhole⟩ := r.received_eq hsize rest
  have hlength : r.payload.length ≤ r.encode.length := by
    rw [encode_eq, List.length_append]
    exact Nat.le_add_left _ _
  unfold payload content chunkCount at *
  cases hbody : r.body with
  | inl data =>
    rw [hbody] at hframed hwhole
    rw [hwhole (by simpa using hframed)]
    dsimp only [Sum.elim_inl, id]
    rw [bytes_chars]
    rfl
  | inr body =>
    rw [hbody] at hlength hfuel hframed hchunked
    have hdecode : decode_chunked fuel body.encode = some (body.chunks.flatMap Chunk.data) := by
      apply decode_chunked_encode body _ fuel hfuel
      dsimp only [Sum.elim_inr, chars] at hlength
      rw [List.length_map] at hlength
      omega
    rw [hchunked (hframed.mpr rfl)]
    dsimp only [Sum.elim_inr]
    rw [bytes_chars]
    apply Trans.next_of_some
    rw [Post.step, hdecode]
    rfl

theorem content_lt_encode (b : ChunkedBody) : (b.chunks.flatMap Chunk.data).length < b.encode.length := by
  have hchunks : ∀ chunks : List Chunk,
      (chunks.flatMap Chunk.data).length ≤ (chunks.flatMap Chunk.encode).length := by
    intro chunks
    induction chunks with
    | nil => exact Nat.le_refl _
    | cons c chunks ih =>
      simp only [List.flatMap_cons, List.length_append, Chunk.encode]
      omega
  have hle := hchunks b.chunks
  simp only [ChunkedBody.encode, SizeLine.encode, List.length_append, crlf, List.length_cons, List.length_nil]
  omega

theorem received_unannounced (hsize : r.encode.length < 2 ^ 64) (hnot : ¬r.Announces) {b : ChunkedBody}
    (hbody : r.body = .inr b) (rest : Nat)
    : Post.received rest r.encode = .returned { status := r.status, body := b.encode } ∧ b.encode ≠ r.content := by
  constructor
  . rw [(r.received_eq hsize rest).2 hnot]
    unfold payload
    rw [hbody]
    dsimp only [Sum.elim_inr]
    rw [bytes_chars]
  . intro hsame
    have hlt := content_lt_encode b
    unfold content at hsame
    rw [hbody] at hsame
    exact absurd (congrArg List.length hsame) hlt.ne'

theorem received_prefix {p : List Char} (h : p <+: r.encode) (rest : Nat)
    : (∃ text, text ≠ "" ∧ Post.received rest p = Post.next_address rest text)
      ∨ (∃ payload, Post.received rest p = .decoding r.status payload)
      ∨ ∃ body, Post.received rest p = .returned { status := r.status, body := body } := by
  unfold Post.received
  obtain ⟨text, hne, herror⟩ | hresponse := r.read_prefix h
  . rw [herror]
    exact .inl ⟨text, hne, rfl⟩
  . rw [hresponse]
    cases response_chunked p r.status_line.length with
    | true => exact .inr (.inl ⟨_, rfl⟩)
    | false => exact .inr (.inr ⟨_, rfl⟩)

theorem response_payload_prefix {p : List Char} (h : p <+: r.encode) : response_payload p <+: r.payload := by
  rw [← r.response_payload_encode]
  unfold response_payload
  cases hend : search blank_line p with
  | none => exact List.nil_prefix
  | some k =>
    rw [search_front h hend]
    exact h.drop _

/--
A response whose headers are complete is not taken for one in chunks unless the whole one is.
-/
theorem response_chunked_prefix {p : List Char} (h : p <+: r.encode) {k line_end : Nat}
    (hend : search blank_line p = some k) (hchunked : response_chunked p line_end = true)
    : response_chunked r.encode line_end = true := by
  unfold response_chunked at hchunked ⊢
  have hheaders : response_headers p line_end <+: response_headers r.encode line_end := by
    unfold response_headers
    rw [hend, search_front h hend]
    exact ((h.drop _).take _).map _
  exact search_isSome_iff.mpr ((search_isSome_iff.mp hchunked).trans hheaders.isInfix)

/--
The chunks of a response that breaks off are read to the end, as those of the whole response are.
-/
theorem decoding_ends (hsize : r.encode.length < 2 ^ 64) (hframed : r.Announces ↔ r.body.isRight) {p : List Char}
    (h : p <+: r.encode) {rest fuel : Nat} (hfuel : r.chunkCount < fuel) {status : Int} {payload : List UInt8}
    (heq : Post.received rest p = .decoding status payload)
    : (decode_chunked fuel payload).isSome := by
  have hpayload := r.response_payload_prefix h
  unfold Post.received at heq
  obtain ⟨text, _, herror⟩ | hresponse := r.read_prefix h
  . rw [herror] at heq
    cases rest <;> cases heq
  rw [hresponse] at heq
  cases hchunked : response_chunked p r.status_line.length with
  | false =>
    rw [hchunked] at heq
    cases heq
  | true =>
    rw [hchunked] at heq
    injection heq with _ heq
    subst heq
    cases hend : search blank_line p with
    | none =>
      -- nothing comes after headers that do not end
      obtain ⟨fuel, rfl⟩ := Nat.exists_eq_succ_of_ne_zero (Nat.ne_zero_of_lt hfuel)
      unfold response_payload
      rw [hend]
      rfl
    | some k =>
      have hannounces : r.Announces :=
        (r.response_chunked_encode hsize).mp (r.response_chunked_prefix h hend hchunked)
      obtain ⟨b, hbody⟩ := Sum.isRight_iff.mp (hframed.mp hannounces)
      unfold payload at hpayload
      unfold chunkCount at hfuel
      rw [hbody] at hpayload hfuel
      have hprefix : Text.bytes (response_payload p) <+: b.encode := by
        rw [← bytes_chars b.encode]
        exact hpayload.map _
      apply decode_chunked_prefix b _ hprefix hfuel
      have hlength := congrArg List.length r.encode_eq
      unfold payload chars at hlength
      rw [hbody] at hlength
      simp only [Sum.elim_inr, List.length_append, List.length_map] at hlength
      omega

theorem not_decoding (hsize : r.encode.length < 2 ^ 64) (hframed : r.Announces ↔ r.body.isRight) {p : List Char}
    (h : p <+: r.encode) {host : String} {timeout_ms : Int} {request : List Char} {rest fuel : Nat}
    (hfuel : r.chunkCount < fuel) {status : Int} {payload : List UInt8}
    : Trans.next (Post.step host timeout_ms request) (Post.received rest p) (.rounds fuel) ≠ .decoding status payload := by
  intro hnext
  obtain ⟨text, _, heq⟩ | ⟨payload, heq⟩ | ⟨body, heq⟩ := r.received_prefix h rest
  . rw [heq] at hnext
    cases rest <;> cases hnext
  . obtain ⟨body, hbody⟩ := Option.isSome_iff_exists.mp (r.decoding_ends hsize hframed h hfuel heq)
    have hstep : Post.step host timeout_ms request (.decoding r.status payload) (.rounds fuel)
        = some (.returned { status := r.status, body := body }) := by
      rw [Post.step, hbody]
      rfl
    rw [heq, Trans.next_of_some hstep] at hnext
    cases hnext
  . rw [heq] at hnext
    cases hnext

/--
The client gets the status and the body of a response that a server has written if it finds the field for chunks
exactly when they are there; chunks that it does not find announced come back with their framing. If the connection
ends before the response does, the behaviour is still defined, what the client returns has the status that the server
meant or an error, and in the first case the client does come to an end.
-/
theorem reply_read_back (hsize : r.encode.length < 2 ^ 64) (host : String) (timeout_ms : Int) (request : List Char)
    (rest : Nat)
    : ((r.Announces ↔ r.body.isRight) → ∀ fuel, r.chunkCount < fuel →
        Trans.next (Post.step host timeout_ms request) (Post.received rest r.encode) (.rounds fuel)
            = .returned { status := r.status, body := r.content }
          ∧ ∀ p, p <+: r.encode → ∀ status payload,
            Trans.next (Post.step host timeout_ms request) (Post.received rest p) (.rounds fuel) ≠ .decoding status payload)
      ∧ (¬r.Announces → ∀ b, r.body = .inr b →
        Post.received rest r.encode = .returned { status := r.status, body := b.encode } ∧ b.encode ≠ r.content)
      ∧ ∀ p, p <+: r.encode → Post.received rest p ≠ .undefined ∧ ∀ fuel res,
        Trans.next (Post.step host timeout_ms request) (Post.received rest p) (.rounds fuel) = .returned res →
        res.error = "" → res.status = r.status := by
  refine ⟨fun hframed fuel hfuel => ⟨r.received_encode hsize hframed host timeout_ms request rest fuel hfuel, ?_⟩,
    fun hnot b hbody => r.received_unannounced hsize hnot hbody rest, ?_⟩
  . intro p hp status payload
    exact r.not_decoding hsize hframed hp hfuel
  intro p hp
  obtain ⟨text, hne, heq⟩ | ⟨payload, heq⟩ | ⟨body, heq⟩ := r.received_prefix hp rest
  . rw [heq]
    cases rest with
    | zero =>
      refine ⟨Post.noConfusion, fun fuel res hres hok => ?_⟩
      injection hres with hres
      rw [← hres] at hok
      exact absurd hok hne
    | succ rest =>
      exact ⟨Post.noConfusion, fun fuel res hres => Post.noConfusion hres⟩
  . rw [heq]
    refine ⟨Post.noConfusion, fun fuel res hres _ => ?_⟩
    cases hdecode : decode_chunked fuel payload with
    | none =>
      have hstep : Post.step host timeout_ms request (.decoding r.status payload) (.rounds fuel) = none := by
        rw [Post.step, hdecode]
        rfl
      rw [Trans.next, hstep] at hres
      cases hres
    | some body =>
      have hstep : Post.step host timeout_ms request (.decoding r.status payload) (.rounds fuel)
          = some (.returned { status := r.status, body := body }) := by
        rw [Post.step, hdecode]
        rfl
      rw [Trans.next_of_some hstep] at hres
      injection hres with hres
      rw [← hres]
  . rw [heq]
    refine ⟨Post.noConfusion, fun fuel res hres _ => ?_⟩
    injection hres with hres
    rw [← hres]

end Reply

def taken_reply : Reply where
  status := 200
  reason := "OK".toList
  fields := ["Content-Type: application/json".toList, "Transfer-Encoding: chunked".toList]
  body := .inr wikipedia
  status_range := by decide
  reason_plain := by decide +kernel
  fields_plain := by decide +kernel

theorem taken_reply_announces : taken_reply.Announces :=
  ⟨_, List.mem_cons_of_mem _ List.mem_cons_self, by decide +kernel⟩

theorem reply_read_back_taken
    : Trans.next (Post.step "h" 1000 []) (Post.received 0 taken_reply.encode) (.rounds 3)
      = .returned { status := 200, body := [87, 105, 107, 105, 112, 13, 10, 49, 13, 10, 101, 100, 105, 97] } :=
  ((taken_reply.reply_read_back (by decide +kernel) "h" 1000 [] 0).1 (iff_of_true taken_reply_announces rfl) 3
    (by decide)).1

end Bench
