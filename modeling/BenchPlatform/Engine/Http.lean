import BenchPlatform.Lib.Orbit

/-!
This module contains how the engine reads a chunked HTTP body: that it gets back what was encoded, and for
which bodies it comes to an end.
-/

namespace Bench

/--
What `std::size_t` keeps of a number.
-/
def size_t (n : Nat) : Nat :=
  n % 2 ^ 64

def hex_digit (b : UInt8) : Option Nat :=
  if 48 ≤ b ∧ b ≤ 57 then some (b.toNat - 48)
  else if 65 ≤ b ∧ b ≤ 70 then some (b.toNat - 55)
  else if 97 ≤ b ∧ b ≤ 102 then some (b.toNat - 87)
  else none

def hex_value (digits : List UInt8) : Nat :=
  digits.foldl (fun n b => n * 16 + (hex_digit b).getD 0) 0

/--
`std::from_chars` in base 16 for a `std::size_t`: the digits at the front, of which there must be one, and
whose value must fit.
-/
def from_chars (text : List UInt8) : Option Nat :=
  let digits := text.takeWhile fun b => (hex_digit b).isSome
  if digits = [] then none else if hex_value digits < 2 ^ 64 then some (hex_value digits) else none

def find_crlf : List UInt8 → Option Nat
  | [] => none
  | [_] => none
  | a :: b :: rest => if a = 13 ∧ b = 10 then some 0 else (find_crlf (b :: rest)).map (· + 1)

/--
The chunk header at a position, if the loop goes on from there: the end of its line and the length.
-/
def chunk_header (body : List UInt8) (pos : Nat) : Option (Nat × Nat) :=
  if pos < body.length then
    match (find_crlf (body.drop pos)).map (pos + ·) with
    | none => none
    | some eol =>
      match from_chars ((body.drop pos).take (eol - pos)) with
      | none => none
      | some len => if len = 0 then none else some (eol, len)
  else
    none

/--
The loop of `decode_chunked`. Memory is not bounded, so `out` can grow as long as the loop goes on.
-/
def decode_loop (body : List UInt8) : Nat → Nat → List UInt8 → Option (List UInt8)
  | 0, _, _ => none
  | fuel + 1, pos, out =>
    match chunk_header body pos with
    | none => some out
    | some (eol, len) =>
      let pos := eol + 2
      let out := out ++ (body.drop pos).take (min len (body.length - pos))
      -- skip the chunk and its trailing CRLF
      decode_loop body fuel (size_t (pos + len + 2)) out

/--
`decode_chunked` with so much fuel.
-/
def decode_chunked (fuel : Nat) (body : List UInt8) : Option (List UInt8) :=
  decode_loop body fuel 0 []

def next_header (body : List UInt8) (pos : Nat) : Option Nat :=
  (chunk_header body pos).map fun (eol, len) => size_t (eol + 2 + len + 2)

theorem decode_loop_isSome_iff {body : List UInt8} {fuel pos : Nat} {out : List UInt8}
    : (decode_loop body fuel pos out).isSome ↔ Orbit.orbit (next_header body) pos fuel = none := by
  induction fuel generalizing pos out with
  | zero => exact iff_of_false nofun nofun
  | succ fuel ih =>
    rw [Orbit.orbit_succ, decode_loop, next_header]
    cases chunk_header body pos with
    | none => exact iff_of_true rfl rfl
    | some h => exact ih

theorem next_header_finite (body : List UInt8) : {pos | (next_header body pos).isSome}.Finite := by
  apply (Set.finite_lt_nat body.length).subset
  intro pos (hpos : (next_header body pos).isSome)
  by_contra hge
  have hnone : next_header body pos = none := by
    unfold next_header chunk_header
    rw [if_neg (show ¬pos < body.length from hge)]
    rfl
  rw [hnone] at hpos
  cases hpos

theorem chunk_header_le {body : List UInt8} {pos eol len : Nat} (h : chunk_header body pos = some (eol, len))
    : pos ≤ eol := by
  unfold chunk_header at h
  split at h
  . split at h
    . cases h
    . rename_i e heol
      obtain ⟨k, _, hk⟩ := Option.map_eq_some_iff.mp heol
      split at h
      . cases h
      . split at h
        . cases h
        . injection h with h
          injection h with h
          omega
  . cases h

theorem next_header_of_lt {body : List UInt8} {pos eol len : Nat}
    (h : chunk_header body pos = some (eol, len)) (hlt : eol + 2 + len + 2 < 2 ^ 64)
    : next_header body pos = some (eol + 2 + len + 2) := by
  unfold next_header
  rw [h, Option.map_some]
  exact congrArg some (Nat.mod_eq_of_lt hlt)

theorem le_of_reaches {body : List UInt8} {p q : Nat} (hreach : Orbit.Reaches (next_header body) p q)
    (hnowrap : ∀ r eol len, Orbit.Reaches (next_header body) p r →
      chunk_header body r = some (eol, len) → eol + 2 + len + 2 < 2 ^ 64)
    : p ≤ q := by
  induction hreach with
  | refl => exact Nat.le_refl _
  | tail hreach hstep ih =>
    obtain ⟨⟨eol, len⟩, hheader, _⟩ := Option.map_eq_some_iff.mp hstep
    have hlt := hnowrap _ eol len hreach hheader
    have hle := chunk_header_le hheader
    have hnext := Option.some.inj ((next_header_of_lt hheader hlt).symm.trans hstep)
    omega

/--
The loop ends exactly if no header that it comes to wraps around to a place from which it comes to the
same header again.
-/
theorem decode_chunked_terminates_iff (body : List UInt8)
    : (∃ fuel out, decode_chunked fuel body = some out)
      ↔ ∀ pos eol len, Orbit.Reaches (next_header body) 0 pos → chunk_header body pos = some (eol, len) →
        2 ^ 64 ≤ eol + 2 + len + 2 →
        ¬Orbit.Reaches (next_header body) (size_t (eol + 2 + len + 2)) pos := by
  constructor
  . rintro ⟨fuel, out, hout⟩ pos eol len hreach hheader _ hback
    have hstep : next_header body pos = some (size_t (eol + 2 + len + 2)) := by
      unfold next_header
      rw [hheader]
      rfl
    have hsome : (decode_loop body fuel 0 []).isSome := Option.isSome_iff_exists.mpr ⟨out, hout⟩
    exact Orbit.orbit_ne_none hreach hstep hback fuel (decode_loop_isSome_iff.mp hsome)
  . intro hwraps
    by_contra hforever
    have horbit : ∀ n, Orbit.orbit (next_header body) 0 n ≠ none := by
      intro n hn
      obtain ⟨out, hout⟩ := Option.isSome_iff_exists.mp (decode_loop_isSome_iff.mpr hn)
      exact hforever ⟨n, out, hout⟩
    obtain ⟨b, c, hreach, hstep, hback⟩ := Orbit.exists_cycle (next_header_finite body) horbit
    have hnowrap : ∀ r eol len, Orbit.Reaches (next_header body) b r →
        chunk_header body r = some (eol, len) → eol + 2 + len + 2 < 2 ^ 64 := by
      intro r eol len hr hheader
      by_contra hge
      have hnext : next_header body r = some (size_t (eol + 2 + len + 2)) := by
        unfold next_header
        rw [hheader]
        rfl
      have hreturn := Orbit.reaches_back hstep hback (hr.tail hnext)
      exact hwraps r eol len (hreach.trans hr) hheader (not_lt.mp hge) (hreturn.trans hr)
    obtain ⟨⟨eol, len⟩, hheader, _⟩ := Option.map_eq_some_iff.mp hstep
    have hlt := hnowrap b eol len .refl hheader
    have hle := chunk_header_le hheader
    have hnext := Option.some.inj ((next_header_of_lt hheader hlt).symm.trans hstep)
    have := le_of_reaches hback fun r eol len hr => hnowrap r eol len (.head hstep hr)
    omega

def loopingBody : List UInt8 :=
  "ffffffffffffffec\r\n".toList.map fun c => c.toNat.toUInt8

theorem loopingBody_never_ends : ¬∃ fuel out, decode_chunked fuel loopingBody = some out := by
  rintro ⟨fuel, out, hout⟩
  have hnext : next_header loopingBody 0 = some 0 := by decide +kernel
  have hsome : (decode_loop loopingBody fuel 0 []).isSome := Option.isSome_iff_exists.mpr ⟨out, hout⟩
  exact Orbit.orbit_ne_none .refl hnext .refl fuel (decode_loop_isSome_iff.mp hsome)

def crlf : List UInt8 :=
  [13, 10]

/--
The size line of a chunk: hex digits of either case, with leading zeros or not, and an extension.
-/
structure SizeLine where
  digits : List UInt8
  extension : List UInt8
  digits_ne : digits ≠ []
  digits_hex : ∀ b ∈ digits, (hex_digit b).isSome
  extension_eq : extension = [] ∨ ∃ text, extension = 59 :: text
  extension_crlf : ¬crlf <:+: extension

def SizeLine.encode (l : SizeLine) : List UInt8 :=
  l.digits ++ l.extension ++ crlf

structure Chunk where
  line : SizeLine
  data : List UInt8
  data_ne : data ≠ []
  size_eq : hex_value line.digits = data.length

def Chunk.encode (c : Chunk) : List UInt8 :=
  c.line.encode ++ c.data ++ crlf

/--
A body of chunks with the last one, whose size is zero, and the trailer.
-/
structure ChunkedBody where
  chunks : List Chunk
  last : SizeLine
  last_eq : hex_value last.digits = 0
  trailer : List UInt8

def ChunkedBody.encode (b : ChunkedBody) : List UInt8 :=
  b.chunks.flatMap Chunk.encode ++ b.last.encode ++ b.trailer

theorem find_crlf_append {line : List UInt8} (h : ¬crlf <:+: line) (rest : List UInt8)
    : find_crlf (line ++ crlf ++ rest) = some line.length := by
  induction line with
  | nil => rfl
  | cons a line ih =>
    have htail : ¬crlf <:+: line := fun hin => h (hin.trans (List.suffix_cons a line).isInfix)
    have hnot : ∀ b more, line ++ crlf ++ rest = b :: more → ¬(a = 13 ∧ b = 10) := by
      rintro b more heq ⟨rfl, rfl⟩
      cases line with
      | nil => simp [crlf] at heq
      | cons b' line =>
        injection heq with hb _
        apply h
        rw [hb]
        exact ⟨[], line, rfl⟩
    cases heq : line ++ crlf ++ rest with
    | nil => simp [crlf] at heq
    | cons b more =>
      rw [List.cons_append, List.cons_append, heq, find_crlf, if_neg (hnot b more heq), ← heq, ih htail]
      rfl

namespace SizeLine

variable (l : SizeLine)

theorem takeWhile_eq
    : ((l.digits ++ l.extension).takeWhile fun b => (hex_digit b).isSome) = l.digits := by
  have hnone : (l.extension.takeWhile fun b => (hex_digit b).isSome) = [] := by
    obtain h | ⟨text, h⟩ := l.extension_eq
    . rw [h]
      rfl
    . rw [h]
      rfl
  rw [List.takeWhile_append_of_pos (by simpa using l.digits_hex), hnone, List.append_nil]

theorem from_chars_eq {n : Nat} (hvalue : hex_value l.digits = n) (hlt : n < 2 ^ 64)
    : from_chars (l.digits ++ l.extension) = some n := by
  unfold from_chars
  dsimp only
  rw [l.takeWhile_eq, if_neg l.digits_ne, hvalue, if_pos hlt]

theorem crlf_not_in : ¬crlf <:+: l.digits ++ l.extension := by
  have hdigits : 13 ∉ l.digits := fun h => absurd (l.digits_hex 13 h) (by decide)
  revert hdigits
  generalize l.digits = digits
  intro hdigits
  induction digits with
  | nil => exact l.extension_crlf
  | cons b digits ih =>
    rw [List.mem_cons, not_or] at hdigits
    rw [List.cons_append, List.infix_cons_iff]
    rintro (h | h)
    . obtain ⟨rest, h⟩ := h
      injection h with hb _
      exact hdigits.1 hb
    . exact ih hdigits.2 h

theorem chunk_header_eq {front rest : List UInt8} {n : Nat} (hvalue : hex_value l.digits = n)
    (hlt : n < 2 ^ 64)
    : chunk_header (front ++ (l.encode ++ rest)) front.length
      = if n = 0 then none else some (front.length + (l.digits ++ l.extension).length, n) := by
  have hpos : front.length < (front ++ (l.encode ++ rest)).length := by
    simp only [List.length_append, encode, crlf, List.length_cons]
    omega
  unfold chunk_header
  rw [if_pos hpos, List.drop_left, encode, find_crlf_append l.crlf_not_in, Option.map_some]
  dsimp only
  rw [Nat.add_sub_cancel_left, List.append_assoc, List.take_left, l.from_chars_eq hvalue hlt]

theorem length_encode : l.encode.length = (l.digits ++ l.extension).length + 2 := by
  unfold encode
  rw [List.length_append]
  rfl

end SizeLine

theorem decode_loop_chunks (chunks : List Chunk) {last : SizeLine} (hlast : hex_value last.digits = 0)
    (trailer front out : List UInt8) {fuel : Nat} (hfuel : chunks.length < fuel)
    (hsize : (front ++ (chunks.flatMap Chunk.encode ++ (last.encode ++ trailer))).length < 2 ^ 64)
    : decode_loop (front ++ (chunks.flatMap Chunk.encode ++ (last.encode ++ trailer))) fuel front.length out
      = some (out ++ chunks.flatMap Chunk.data) := by
  obtain ⟨fuel, rfl⟩ := Nat.exists_eq_succ_of_ne_zero (Nat.ne_zero_of_lt hfuel)
  induction chunks generalizing front out fuel with
  | nil =>
    rw [List.flatMap_nil, List.nil_append, decode_loop,
      last.chunk_header_eq hlast (by decide), if_pos rfl]
    exact congrArg some (List.append_nil _).symm
  | cons c chunks ih =>
    have hbody : front ++ ((c :: chunks).flatMap Chunk.encode ++ (last.encode ++ trailer))
        = front ++ c.encode ++ (chunks.flatMap Chunk.encode ++ (last.encode ++ trailer)) := by
      rw [List.flatMap_cons]
      simp only [List.append_assoc]
    rw [hbody] at hsize ⊢
    have hfuel' : chunks.length < fuel := Nat.lt_of_succ_lt_succ hfuel
    obtain ⟨fuel, rfl⟩ := Nat.exists_eq_succ_of_ne_zero (Nat.ne_zero_of_lt hfuel')
    have hrest := ih (front ++ c.encode) (out ++ c.data) hsize fuel hfuel'
    generalize chunks.flatMap Chunk.encode ++ (last.encode ++ trailer) = rest at hsize hrest ⊢
    have hsplit : front ++ c.encode ++ rest = front ++ (c.line.encode ++ (c.data ++ crlf ++ rest)) := by
      unfold Chunk.encode
      simp only [List.append_assoc]
    have hlength : (front ++ c.encode ++ rest).length
        = front.length + c.line.encode.length + c.data.length + 2 + rest.length := by
      rw [hsplit]
      simp only [List.length_append, crlf, List.length_cons, List.length_nil]
      omega
    have hheader : chunk_header (front ++ c.encode ++ rest) front.length
        = some (front.length + (c.line.digits ++ c.line.extension).length, c.data.length) := by
      rw [hsplit, c.line.chunk_header_eq c.size_eq (by omega), if_neg]
      exact mt List.length_eq_zero_iff.mp c.data_ne
    have hline := c.line.length_encode
    have hnext : size_t (front.length + (c.line.digits ++ c.line.extension).length + 2 + c.data.length + 2)
        = (front ++ c.encode).length := by
      rw [size_t, Nat.mod_eq_of_lt (by omega)]
      unfold Chunk.encode
      simp only [List.length_append, crlf, List.length_cons, List.length_nil] at hline ⊢
      omega
    have hdata : ((front ++ c.encode ++ rest).drop
          (front.length + (c.line.digits ++ c.line.extension).length + 2)).take
          (min c.data.length ((front ++ c.encode ++ rest).length
            - (front.length + (c.line.digits ++ c.line.extension).length + 2)))
        = c.data := by
      have hfront : front.length + (c.line.digits ++ c.line.extension).length + 2
          = (front ++ c.line.encode).length := by
        simp only [List.length_append] at hline ⊢
        omega
      rw [hfront, Nat.min_eq_left, hsplit, ← List.append_assoc, List.drop_left, List.append_assoc,
        List.take_left]
      rw [hlength, List.length_append]
      omega
    rw [decode_loop, hheader]
    dsimp only
    rw [hdata, hnext, List.flatMap_cons, ← List.append_assoc]
    exact hrest

/--
`decode_chunked` gives back what was encoded if it fits into a string, with one round for each chunk and
one more.
-/
theorem decode_chunked_encode (b : ChunkedBody) (hsize : b.encode.length < 2 ^ 64) (fuel : Nat)
    (hfuel : b.chunks.length < fuel)
    : decode_chunked fuel b.encode = some (b.chunks.flatMap Chunk.data) := by
  have hbody : b.encode = [] ++ (b.chunks.flatMap Chunk.encode ++ (b.last.encode ++ b.trailer)) := by
    unfold ChunkedBody.encode
    rw [List.nil_append, List.append_assoc]
  rw [hbody] at hsize ⊢
  exact decode_loop_chunks b.chunks b.last_eq b.trailer [] [] hfuel hsize

theorem find_crlf_prefix {p s : List UInt8} (h : p <+: s) {k : Nat} (hfind : find_crlf p = some k)
    : find_crlf s = some k ∧ k ≤ p.length := by
  obtain ⟨r, rfl⟩ := h
  induction p generalizing k with
  | nil => cases hfind
  | cons a p ih =>
    cases p with
    | nil => cases hfind
    | cons b p =>
      rw [List.cons_append, List.cons_append, find_crlf]
      rw [find_crlf] at hfind
      split at hfind
      . rename_i hcrlf
        rw [if_pos hcrlf]
        exact ⟨hfind, by rw [← Option.some.inj hfind]; exact Nat.zero_le _⟩
      . rename_i hcrlf
        obtain ⟨k, hk, rfl⟩ := Option.map_eq_some_iff.mp hfind
        obtain ⟨hfound, hle⟩ := ih hk
        rw [if_neg hcrlf]
        rw [List.cons_append] at hfound
        rw [hfound]
        exact ⟨rfl, Nat.succ_le_succ hle⟩

theorem chunk_header_prefix {p s : List UInt8} (h : p <+: s) {pos : Nat} {header : Nat × Nat}
    (hheader : chunk_header p pos = some header)
    : chunk_header s pos = some header := by
  unfold chunk_header at hheader
  split at hheader
  . rename_i hpos
    split at hheader
    . cases hheader
    . rename_i eol heol
      obtain ⟨k, hk, rfl⟩ := Option.map_eq_some_iff.mp heol
      obtain ⟨hfound, hle⟩ := find_crlf_prefix (h.drop pos) hk
      have htext : (s.drop pos).take (pos + k - pos) = (p.drop pos).take (pos + k - pos) := by
        obtain ⟨r, hr⟩ := h.drop pos
        rw [← hr, List.take_append_of_le_length (by omega)]
      unfold chunk_header
      rw [if_pos (hpos.trans_le h.length_le), hfound, Option.map_some]
      dsimp only
      rw [htext]
      exact hheader
  . cases hheader

/--
Of a body that is cut off nothing is read after the chunk in which it ends.
-/
theorem decode_chunked_prefix (b : ChunkedBody) (hsize : b.encode.length < 2 ^ 64) {p : List UInt8} (h : p <+: b.encode)
    {fuel : Nat} (hfuel : b.chunks.length < fuel)
    : (decode_chunked fuel p).isSome := by
  have hwhole : Orbit.orbit (next_header b.encode) 0 fuel = none :=
    decode_loop_isSome_iff.mp (Option.isSome_iff_exists.mpr ⟨_, decode_chunked_encode b hsize fuel hfuel⟩)
  refine decode_loop_isSome_iff.mpr (Orbit.orbit_eq_none_of_le (fun pos next hnext => ?_) hwhole)
  obtain ⟨header, hheader, hstep⟩ := Option.map_eq_some_iff.mp hnext
  exact Option.map_eq_some_iff.mpr ⟨header, chunk_header_prefix h hheader, hstep⟩

/--
`4 CRLF Wiki CRLF 00A;x CRLF p CRLF 1 CRLF edia CRLF 0 CRLF CRLF`: the second chunk looks like framing.
-/
def wikipedia : ChunkedBody where
  chunks := [
    { line := ⟨[52], [], by decide, by decide +kernel, .inl rfl, by decide⟩
      data := [87, 105, 107, 105], data_ne := by decide, size_eq := by decide },
    { line := ⟨[48, 48, 65], [59, 120], by decide, by decide +kernel, .inr ⟨[120], rfl⟩, by decide⟩
      data := [112, 13, 10, 49, 13, 10, 101, 100, 105, 97], data_ne := by decide, size_eq := by decide }]
  last := ⟨[48], [], by decide, by decide +kernel, .inl rfl, by decide⟩
  last_eq := by decide
  trailer := crlf

theorem decode_chunked_wikipedia
    : decode_chunked 3 wikipedia.encode
      = some [87, 105, 107, 105, 112, 13, 10, 49, 13, 10, 101, 100, 105, 97] :=
  decode_chunked_encode wikipedia (by decide) 3 (by decide)

end Bench
