import BenchPlatform.Engine.Http
import BenchPlatform.Engine.Url
import BenchPlatform.Lib.Search

/-!
This module contains the client that posts a request over a socket: one step for each call of the system, in
the order in which it tries the addresses of the host. A text has one character for each byte.
-/

namespace Bench

open Text Search

structure HttpResponse where
  /-- Zero when the request never completed. -/
  status : Int := 0
  body : List UInt8 := []
  /-- Not empty when the request failed before a status line. -/
  error : String := ""
  deriving DecidableEq

def HttpResponse.ok (res : HttpResponse) : Bool :=
  res.error = "" ∧ 200 ≤ res.status ∧ res.status < 300

inductive Errno where
  | eintr
  /-- `EAGAIN` and `EWOULDBLOCK` are the same number. -/
  | eagain
  | einprogress
  | other (text : String)
  deriving DecidableEq

def strerror : Errno → String
  | .eintr => "Interrupted system call"
  | .eagain => "Resource temporarily unavailable"
  | .einprogress => "Operation now in progress"
  | .other text => text

inductive Answer where
  /-- `getaddrinfo` has found so many addresses. -/
  | resolved (addresses : Nat)
  /-- `socket`, `connect` or `getsockopt` went well. -/
  | done
  | failed (errno : Errno)
  /-- `poll` has nothing to report in time. -/
  | timed_out
  | ready
  /-- `getsockopt` went well, the connection did not. -/
  | so_error (err : Errno)
  /-- `send` has taken so many bytes. -/
  | count (n : Nat)
  /-- `recv` has read these bytes. None is the end. -/
  | bytes (text : List Char)
  /-- The decoder has had time for so many rounds. -/
  | rounds (fuel : Nat)

section Calls

variable (timeout_ms : Int)

inductive Connecting where
  | connect
  | poll
  | so_error

def connect_with_timeout : Connecting → Answer → Option (Connecting ⊕ String)
  | .connect, .done => some (.inr "")
  | .connect, .failed errno =>
    if errno = .einprogress then some (.inl .poll) else some (.inr ("connect: " ++ strerror errno))
  | .poll, .timed_out => some (.inr ("connect: timed out after " ++ toString timeout_ms ++ " ms"))
  | .poll, .failed errno => some (.inr ("poll: " ++ strerror errno))
  | .poll, .ready => some (.inl .so_error)
  | .so_error, .failed errno => some (.inr ("getsockopt: " ++ strerror errno))
  | .so_error, .so_error err => some (.inr ("connect: " ++ strerror err))
  | .so_error, .done => some (.inr "")
  | _, _ => none

inductive Sending where
  | poll (sent : Nat)
  | send (sent : Nat)

def send_rest (data : List Char) (sent : Nat) : Sending ⊕ String :=
  if sent < data.length then .inl (.poll sent) else .inr ""

def send_all (data : List Char) : Sending → Answer → Option (Sending ⊕ String)
  | .poll _, .timed_out => some (.inr ("send: timed out after " ++ toString timeout_ms ++ " ms"))
  | .poll sent, .failed errno =>
    if errno = .eintr then some (send_rest data sent) else some (.inr ("poll: " ++ strerror errno))
  | .poll sent, .ready => some (.inl (.send sent))
  | .send sent, .failed errno =>
    if errno = .eintr ∨ errno = .eagain then some (send_rest data sent)
    else some (.inr ("send: " ++ strerror errno))
  | .send sent, .count n => some (send_rest data (sent + n))
  | _, _ => none

inductive Receiving where
  | poll (out : List Char)
  | recv (out : List Char)

def recv_all : Receiving → Answer → Option (Receiving ⊕ (String × List Char))
  | .poll out, .timed_out => some (.inr ("read: timed out after " ++ toString timeout_ms ++ " ms", out))
  | .poll out, .failed errno =>
    if errno = .eintr then some (.inl (.poll out)) else some (.inr ("poll: " ++ strerror errno, out))
  | .poll out, .ready => some (.inl (.recv out))
  | .recv out, .failed errno =>
    if errno = .eintr ∨ errno = .eagain then some (.inl (.poll out))
    else some (.inr ("read: " ++ strerror errno, out))
  | .recv out, .bytes text =>
    -- orderly close: the whole response is in `out`
    if text = [] then some (.inr ("", out)) else some (.inl (.poll (out ++ text)))
  | _, _ => none

end Calls

def line_break : List Char :=
  ['\r', '\n']

def blank_line : List Char :=
  ['\r', '\n', '\r', '\n']

def lower (s : List Char) : List Char :=
  s.map Char.toLower

/--
`std::from_chars` for an `int`, which has a sign or not. What follows the digits is left.
-/
def from_chars_int (s : List Char) : Option Int :=
  match s with
  | '-' :: s => (fromChars 10 (2 ^ 31 + 1) s).map fun n => -(n.1 : Int)
  | s => (fromChars 10 (2 ^ 31) s).map fun n => (n.1 : Int)

inductive Received where
  /-- `std::from_chars` gets a range that ends before it begins. -/
  | undefined
  | error (text : String)
  | response (status : Int) (chunked : Bool) (payload : List Char)
  deriving DecidableEq

/--
The headers in lower case, which reach to the end if they do not end or there are none.
-/
def response_headers (raw : List Char) (line_end : Nat) : List Char :=
  match search blank_line raw with
  | none => lower (raw.drop (line_end + 2))
  | some headers_end => lower ((raw.drop (line_end + 2)).take (size_t (2 ^ 64 + headers_end - line_end - 2)))

def response_payload (raw : List Char) : List Char :=
  match search blank_line raw with
  | none => []
  | some headers_end => raw.drop (headers_end + 4)

def response_chunked (raw : List Char) (line_end : Nat) : Bool :=
  (search "transfer-encoding: chunked".toList (response_headers raw line_end)).isSome

/--
How `post_json` takes apart what it has read.
-/
def read_response (raw : List Char) : Received :=
  if raw = [] then
    .error "empty response"
  else
    match search line_break raw with
    | none => .error "malformed response: no status line"
    | some line_end =>
      if ¬"HTTP/1.".toList.isPrefixOf raw then
        .error "malformed response: no status line"
      else
        match find raw ' ' 0 with
        | none => .error "malformed response: no status code"
        | some sp =>
          if line_end < sp + 1 then
            .undefined
          else
            let status := (from_chars_int ((raw.drop (sp + 1)).take (line_end - (sp + 1)))).getD 0
            if status = 0 then
              .error "malformed response: no status code"
            else
              .response status (response_chunked raw line_end) (response_payload raw)

/--
Where `post_json` is, with the number of addresses that are still left.
-/
inductive Post where
  | resolving
  | opening (rest : Nat)
  | connecting (rest : Nat) (call : Connecting)
  | sending (rest : Nat) (call : Sending)
  | receiving (rest : Nat) (call : Receiving)
  | decoding (status : Int) (payload : List UInt8)
  | returned (res : HttpResponse)
  | undefined

namespace Post

def next_address (rest : Nat) (last_error : String) : Post :=
  match rest with
  | 0 => .returned { error := last_error }
  | rest + 1 => .opening rest

/--
What becomes of a response. A body in chunks is decoded first.
-/
def received (rest : Nat) (raw : List Char) : Post :=
  match read_response raw with
  | .undefined => .undefined
  | .error text => next_address rest text
  | .response status true payload => .decoding status (Text.bytes payload)
  | .response status false payload => .returned { status := status, body := Text.bytes payload }

def connected (request : List Char) (rest : Nat) : Connecting ⊕ String → Post
  | .inl call => .connecting rest call
  | .inr error =>
    if error = "" then
      match send_rest request 0 with
      | .inl call => .sending rest call
      | .inr _ => .receiving rest (.poll [])
    else
      next_address rest error

def sent (rest : Nat) : Sending ⊕ String → Post
  | .inl call => .sending rest call
  | .inr error => if error = "" then .receiving rest (.poll []) else next_address rest error

def read (rest : Nat) : Receiving ⊕ (String × List Char) → Post
  | .inl call => .receiving rest call
  | .inr (error, raw) => if error = "" then received rest raw else next_address rest error

/--
`post_json` from one answer of the system to the next call.
-/
def step (host : String) (timeout_ms : Int) (request : List Char) : Post → Answer → Option Post
  | .resolving, .resolved addresses => some (next_address addresses "no address to connect to")
  | .resolving, .failed errno =>
    some (.returned { error := "resolve " ++ host ++ ": " ++ strerror errno })
  | .opening rest, .done => some (.connecting rest .connect)
  | .opening rest, .failed errno => some (next_address rest ("socket: " ++ strerror errno))
  | .connecting rest call, a => (connect_with_timeout timeout_ms call a).map (connected request rest)
  | .sending rest call, a => (send_all timeout_ms request call a).map (sent rest)
  | .receiving rest call, a => (recv_all timeout_ms call a).map (read rest)
  | .decoding status payload, .rounds fuel =>
    (decode_chunked fuel payload).map fun body => .returned { status := status, body := body }
  | _, _ => none

end Post

end Bench
