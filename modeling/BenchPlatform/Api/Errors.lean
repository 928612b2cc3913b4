import BenchPlatform.Api.Number

/-!
This module contains the errors of the API: their messages, how they wrap each other and what
`errors.As` finds in them.
-/

namespace Api

/--
A piece of a message: fixed text, or a value with the verb that formats it.
-/
inductive Piece where
  | text (s : String)
  | quoted (s : String)
  | int (n : Int)
  | float (f : Float64)
  deriving DecidableEq

abbrev Message := List Piece

/--
What the messages need of `strconv` and `unicode`: which characters are printable, and the shortest
decimal form of a `float64`.
-/
structure Format where
  isPrint : Char → Bool
  formatFloat : Float64 → String

def hexDigit (n : Nat) : Char :=
  if n < 10 then Char.ofNat (48 + n) else Char.ofNat (87 + n)

def hexDigits (n : Nat) : Nat → List Char
  | 0 => []
  | width + 1 => hexDigits (n / 16) width ++ [hexDigit (n % 16)]

/--
One character of `strconv.Quote`.
-/
def quoteChar (isPrint : Char → Bool) (c : Char) : List Char :=
  if c = '"' ∨ c = '\\' then
    ['\\', c]
  else if isPrint c then
    [c]
  else
    match c.toNat with
    | 7 => ['\\', 'a']
    | 8 => ['\\', 'b']
    | 12 => ['\\', 'f']
    | 10 => ['\\', 'n']
    | 13 => ['\\', 'r']
    | 9 => ['\\', 't']
    | 11 => ['\\', 'v']
    | n =>
      if n < 32 ∨ n = 127 then '\\' :: 'x' :: hexDigits n 2
      else if n < 0x10000 then '\\' :: 'u' :: hexDigits n 4
      else '\\' :: 'U' :: hexDigits n 8

def quote (isPrint : Char → Bool) (s : String) : List Char :=
  '"' :: (s.toList.flatMap (quoteChar isPrint) ++ ['"'])

def Piece.render (fmt : Format) : Piece → List Char
  | .text s => s.toList
  | .quoted s => quote fmt.isPrint s
  | .int n => (toString n).toList
  | .float f => (fmt.formatFloat f).toList

def Message.render (fmt : Format) (msg : Message) : List Char :=
  msg.flatMap (Piece.render fmt)

/--
`strings.Contains`.
-/
def contains (needle : List Char) : List Char → Bool
  | [] => needle.isEmpty
  | c :: cs => needle.isPrefixOf (c :: cs) || contains needle cs

/--
The errors of an ingest. `wrap` is `fmt.Errorf` with `%w` at the end, after a colon. An `UnmarshalTypeError` in a field
has the struct of the field and the path to it.
-/
inductive GoError where
  | new (msg : Message)
  | wrap (msg : Message) (err : GoError)
  | syntaxError (msg : String)
  | unmarshalType (value type : String) (struct : String := "") (path : List String := [])
  | eof
  | unexpectedEOF
  | tooManyResults (max : Int)
  | validation (problems : List Message)
  | pg (code : String) (msg : Message)
  deriving DecidableEq

namespace GoError

/--
`Error()`.
-/
def message : GoError → Message
  | .new msg => msg
  | .wrap msg err => msg ++ .text ": " :: err.message
  | .syntaxError msg => [.text msg]
  | .unmarshalType value type struct path =>
    if struct = "" ∧ path = [] then
      [.text "json: cannot unmarshal ", .text value, .text " into Go value of type ", .text type]
    else
      [.text "json: cannot unmarshal ", .text value, .text " into Go struct field ", .text struct, .text ".",
        .text (".".intercalate path), .text " of type ", .text type]
  | .eof => [.text "EOF"]
  | .unexpectedEOF => [.text "unexpected EOF"]
  | .tooManyResults max =>
    [.text "a run envelope may carry at most ", .int max, .text " results; chunk the run"]
  | .validation [problem] => problem
  | .validation problems =>
    .int problems.length :: .text " problems: " :: [Piece.text "; "].intercalate problems
  | .pg code msg => .text "ERROR: " :: msg ++ [.text " (SQLSTATE ", .text code, .text ")"]

def inField (name : String) : GoError → GoError
  | .unmarshalType value type struct path => .unmarshalType value type struct (name :: path)
  | err => err

def inStruct (name : String) : GoError → GoError
  | .unmarshalType value type "" (key :: path) => .unmarshalType value type name (key :: path)
  | err => err

/--
What the wrappers are around: the only error in the chain that `errors.As` can match.
-/
def cause : GoError → GoError
  | .wrap _ err => err.cause
  | err => err

@[simp]
theorem cause_wrap {msg : Message} {err : GoError} : (wrap msg err).cause = err.cause := rfl

/--
The SQLSTATE of a `*pgconn.PgError` in the chain.
-/
def pgCode? (err : GoError) : Option String :=
  match err.cause with
  | .pg code _ => some code
  | _ => none

end GoError

example : Message.render ⟨fun _ => true, fun _ => ""⟩
    (GoError.wrap [.text "results[", .int 3, .text "]"] .eof).message = "results[3]: EOF".toList := by
  decide

example : Message.render ⟨fun _ => true, fun _ => ""⟩
    ((GoError.unmarshalType "string" "int").inField "trial" |>.inStruct "Result").message
      = "json: cannot unmarshal string into Go struct field Result.trial of type int".toList := by
  decide

example : quote (fun c => 32 ≤ c.toNat ∧ c.toNat < 127) "a\n\"\x01é"
    = "\"a\\n\\\"\\x01\\u00e9\"".toList := by
  decide

end Api
