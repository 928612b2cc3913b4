import BenchPlatform.Lib.Text
import Mathlib.Algebra.Ring.Nat

/-!
This module contains how the engine takes a URL apart, and that nothing of a URL gets lost on the way to the
request that is sent to it.
-/

namespace Bench

open Text

structure Url where
  host : List Char
  port : Nat
  path : List Char
  deriving DecidableEq

def host_header (url : Url) : List Char :=
  if find url.host ':' 0 ≠ none then '[' :: url.host ++ "]:".toList ++ Nat.toDigits 10 url.port
  else url.host ++ ':' :: Nat.toDigits 10 url.port

def start_line (url : Url) : List Char :=
  "POST ".toList ++ url.path ++ " HTTP/1.1\r\n".toList

def host_line (header : List Char) : List Char :=
  "Host: ".toList ++ header ++ "\r\n".toList

def other_lines (version body : List Char) : List Char :=
  "User-Agent: bench/".toList ++ version ++ "\r\n".toList
    ++ "Content-Type: application/json\r\n".toList
    ++ "Content-Length: ".toList ++ Nat.toDigits 10 body.length ++ "\r\n".toList
    ++ "Connection: close\r\n".toList
    ++ "\r\n".toList

/--
What `post_json` sends.
-/
def request_text (version : List Char) (url : Url) (body : List Char) : List Char :=
  start_line url ++ host_line (host_header url) ++ other_lines version body ++ body

/--
A host as it is written in a URL. An IPv6 literal has at least one colon.
-/
inductive UrlHost where
  | name (s : List Char) (some : s ≠ []) (plain : ∀ c ∈ s, c ≠ '/' ∧ c ≠ ':' ∧ c ≠ '[' ∧ c ≠ ']')
  | ipv6 (s : List Char) (colon : ':' ∈ s) (plain : ∀ c ∈ s, c ≠ '/' ∧ c ≠ '[' ∧ c ≠ ']')

namespace UrlHost

def bare : UrlHost → List Char
  | .name s _ _ | .ipv6 s _ _ => s

def written : UrlHost → List Char
  | .name s _ _ => s
  | .ipv6 s _ _ => '[' :: s ++ [']']

end UrlHost

structure UrlParts where
  host : UrlHost
  port : Option Nat
  path : Option (List Char)
  port_range : ∀ p ∈ port, 1 ≤ p ∧ p ≤ 65535
  path_slash : ∀ s ∈ path, s.head? = some '/'

namespace UrlParts

def writtenPort (u : UrlParts) : List Char :=
  u.port.elim [] fun p => ':' :: Nat.toDigits 10 p

def text (u : UrlParts) : List Char :=
  "http://".toList ++ (u.host.written ++ u.writtenPort ++ u.path.getD [])

def url (u : UrlParts) : Url where
  host := u.host.bare
  port := u.port.getD 80
  path := u.path.getD ['/']

end UrlParts

section

end

end Bench
