import QueryGate.Json.Reader
import QueryGate.Number.Written
import QueryGate.Text.Basic

/-!
# JSON5

JSON as people write it: with comments, with names that need no quotes, with single quotes, with a
comma behind the last element, and with numbers that have a sign, a point at either end or
hexadecimal digits. A text is brought to plain JSON tokens and these are read as always.
-/
namespace QueryGate.Json.Relaxed

/-- A token of JSON, or a name, whose meaning depends on where it stands. -/
inductive Word where
  | token (token : Token)
  | name (text : String)

def isBreak (c : Char) : Bool := c == '\n' || c == '\r' || c == '\u2028' || c == '\u2029'
def isSpace (c : Char) : Bool := (Text.isBlank c && c != '\u0085') || c == '\ufeff'

inductive Comment where
  | none
  | line
  | block
  deriving DecidableEq

def skip : Comment → List Char → Option (List Char)
  | .none, '/' :: '/' :: rest => skip .line rest
  | .none, '/' :: '*' :: rest => skip .block rest
  | .none, c :: rest => if isSpace c then skip .none rest else some (c :: rest)
  | .line, c :: rest => skip (if isBreak c then .none else .line) rest
  | .block, '*' :: '/' :: rest => skip .none rest
  | .block, _ :: rest => skip .block rest
  | .block, [] => Option.none
  | _, [] => some []

def escapes : List (Char × Char) :=
  [('b', '\x08'), ('f', '\x0c'), ('n', '\n'), ('r', '\r'), ('t', '\t'), ('v', '\x0b'), ('0', '\x00')]

def escaped? (c : Char) : Option Char :=
  match escapes.lookup c with
  | some d => some d
  | none => if c.isDigit || c == 'x' || c == 'u' then none else some c

/-- The elements of a string up to its closing quote, and what follows it. A line break behind a
backslash is dropped. -/
def stringPieces? (quote : Char) : List Char → Option (List (Token.Piece Char) × List Char)
  | [] => none
  | '\\' :: 'u' :: a :: b :: c :: d :: rest => do
    let n ← Token.hexUnit? a b c d
    let (more, rest) ← stringPieces? quote rest
    return (.unit n :: more, rest)
  | '\\' :: 'x' :: a :: b :: rest => do
    let n ← Token.hexUnit? '0' '0' a b
    let (more, rest) ← stringPieces? quote rest
    return (.plain (Char.ofNat n) :: more, rest)
  | '\\' :: '\r' :: '\n' :: rest => stringPieces? quote rest
  | '\\' :: c :: rest =>
    if isBreak c then stringPieces? quote rest
    else do
      let d ← escaped? c
      let (more, rest) ← stringPieces? quote rest
      return (.plain d :: more, rest)
  | c :: rest =>
    if c = quote then some ([], rest)
    else if c = '\n' ∨ c = '\r' then none
    else do
      let (more, rest) ← stringPieces? quote rest
      return (.plain c :: more, rest)

/-- The value of a number without its sign. A whole number has at most 64 bits, or 32 where it is
hexadecimal and then has no sign. -/
def number? (s : List Char) : Option Json :=
  let (negative, body) := Number.splitSign s
  let signed := body.length < s.length
  match body with
  | '0' :: x :: digits =>
    if x = 'x' ∨ x = 'X' then
      if signed then none
      else ((Number.natural? 16 digits).filter (· < twoTo 32)).map fun n => .int n
    else if x.isDigit then none
    else decimal? s
  | _ => if body = "Infinity".toList then some (.float (.infinite negative)) else decimal? s
where
  decimal? (s : List Char) : Option Json :=
    if s.all fun c => c.isDigit || c == '+' || c == '-' then
      (Number.signedWord? 10 s).map .int
    else ((Number.decimal? s).filter (!·.isInfinite)).map .float

def isNumberChar (c : Char) : Bool := c.isAlphanum || c == '+' || c == '-' || c == '.'
def beginsNumber (c : Char) : Bool := c.isDigit || c == '+' || c == '-' || c == '.'

def beginsName (c : Char) : Bool :=
  c.isAlpha || c == '_' || c == '$' || (c.toNat > 0x7F && !isSpace c)

def isNameChar (c : Char) : Bool := beginsName c || c.isDigit

def next? : List Char → Option (Word × List Char)
  | [] => none
  | '\x7b' :: rest => some (.token .beginObject, rest)
  | '\x7d' :: rest => some (.token .endObject, rest)
  | '[' :: rest => some (.token .beginArray, rest)
  | ']' :: rest => some (.token .endArray, rest)
  | ',' :: rest => some (.token .comma, rest)
  | ':' :: rest => some (.token .colon, rest)
  | c :: rest =>
    if c = '"' ∨ c = '\'' then do
      let (pieces, rest) ← stringPieces? c rest
      let body ← Token.joinUnits? ([·]) pieces
      return (.token (.string (some (String.ofList body))), rest)
    else if beginsNumber c then
      let (run, rest) := (c :: rest).span isNumberChar
      (number? run).map fun n => (.token (.number (some n)), rest)
    else if beginsName c then
      let (run, rest) := (c :: rest).span isNameChar
      some (.name (String.ofList run), rest)
    else none

def words? : (rounds : Nat) → List Char → Option (List Word)
  | 0, _ => none
  | rounds + 1, s => do
    let s ← skip .none s
    if s.isEmpty then return []
    let (word, rest) ← next? s
    return word :: (← words? rounds rest)

def literals : List (String × Json.Token) :=
  [("null", .null), ("true", .bool true), ("false", .bool false),
   ("Infinity", .number (some (.float (.infinite false))))]

def endsValue : Token → Bool
  | .endObject | .endArray | .null | .bool _ | .number _ | .string _ => true
  | _ => false

def closes : Word → Bool
  | .token .endObject | .token .endArray => true
  | _ => false

/-- Drops a comma behind the last element, and gives each name its meaning: in front of a colon it
is a string, elsewhere a literal. -/
def plain? : (afterValue : Bool) → List Word → Option (List Lexeme)
  | _, [] => some []
  | _, .name s :: .token .colon :: rest => do
    return ⟨.string (some s), [], []⟩ :: ⟨.colon, [], []⟩ :: (← plain? false rest)
  | _, .name s :: rest => do
    let token ← literals.lookup s
    return ⟨token, [], []⟩ :: (← plain? true rest)
  | afterValue, .token .comma :: next :: rest => do
    let more ← plain? false (next :: rest)
    return if afterValue && closes next then more else ⟨.comma, [], []⟩ :: more
  | _, .token t :: rest => do return ⟨t, [], []⟩ :: (← plain? (endsValue t) rest)

def read? (text : String) : Option Json := do
  let s := text.toList
  let lexemes ← plain? false (← words? (s.length + 1) s)
  match Reader.value true lexemes.length lexemes with
  | some (j, []) => some j
  | _ => none

end QueryGate.Json.Relaxed
