import QueryGate.GraphQL.Value
import QueryGate.Text.Basic
import QueryGate.Text.Shown

/-!
# GraphQL tokens

A text is cut into names, numbers, strings and marks. Blanks, commas and comments stand between
them. Reading stops at the end of the text or at the first place where no token starts; at most
fifty brackets may be open at once, so one more is no token.
-/
namespace QueryGate.GraphQL

inductive Token where
  | mark (c : Char)
  | spread
  | name (s : String)
  | int (n : Int)
  | float (x : Binary64)
  | string (s : String)
  /-- A block string whose indentation ends inside a character. It has no value, and reading it
  breaks off with a message. -/
  | torn (message : String)
  deriving DecidableEq, Repr

structure Position where
  line : Nat
  column : Nat
  deriving DecidableEq, Repr

structure Lexeme where
  token : Token
  position : Position
  deriving DecidableEq, Repr

structure Lexemes where
  items : List Lexeme
  stop : Position
  complete : Bool
  deriving DecidableEq, Repr

namespace Position

def start : Position := ⟨1, 1⟩

def advance (p : Position) (c : Char) : Position :=
  if c = '\n' then ⟨p.line + 1, 1⟩ else ⟨p.line, p.column + 1⟩

def after (p : Position) (consumed : List Char) : Position := consumed.foldl advance p

def text (p : Position) : String := toString p.line ++ ":" ++ toString p.column

end Position

namespace Token

def maxOpenBrackets : Nat := 50

def isMark (c : Char) : Bool := "!$:=@|&()[]\x7b\x7d".toList.contains c
def opens (c : Char) : Bool := c == '(' || c == '[' || c == '\x7b'
def closes (c : Char) : Bool := c == ')' || c == ']' || c == '\x7d'

def startsName (c : Char) : Bool := c == '_' || c.isAlpha
def continuesName (c : Char) : Bool := startsName c || c.isDigit

def endsNumber (c : Char) : Bool :=
  c == ' ' || c == '\n' || c == '\r' || c == '\t' || c == ',' || c == '#' || isMark c

/-- Skips what may stand between tokens. A tab counts as eight columns, a carriage return and a byte
order mark as none, and neither does the text of a comment; either line end closes a comment. -/
def skip (comment : Bool) (p : Position) : List Char → Position × List Char
  | [] => (p, [])
  | c :: rest =>
    if comment then
      if c = '\n' ∨ c = '\r' then skip false ⟨p.line + 1, 1⟩ rest else skip true p rest
    else if c = ' ' ∨ c = ',' then skip false ⟨p.line, p.column + 1⟩ rest
    else if c = '\t' then skip false ⟨p.line, p.column + 8⟩ rest
    else if c = '\n' then skip false ⟨p.line + 1, 1⟩ rest
    else if c = '\r' ∨ c = '\ufeff' then skip false p rest
    else if c = '#' then skip true p rest
    else (p, c :: rest)

/-! Numbers -/

def splitLast (kind : Char → Bool) : List Char → Option (List Char × List Char)
  | [] => none
  | c :: rest =>
    match splitLast kind rest with
    | some (before, behind) => some (c :: before, behind)
    | none => if kind c then some ([], rest) else none

def isDigits (s : List Char) : Bool := s.all Char.isDigit

/-- A whole number has no zero at its front unless it is zero. -/
def isWhole (s : List Char) : Bool :=
  s == ['0'] || s == ['-', '0'] ||
    (match s with
     | [] => false
     | '0' :: _ => false
     | '-' :: '0' :: _ => false
     | ['-'] => false
     | _ :: rest => isDigits rest)

def isFraction (s : List Char) : Bool := !s.isEmpty && isDigits s

/-- The power of ten has a sign, or starts with a digit from one to eight. -/
def isPower (s : List Char) : Bool :=
  match s with
  | [] => false
  | c :: rest => (c == '-' || c == '+' || ('1' ≤ c && c ≤ '8')) && isDigits rest

def natOfDigits (ds : List Char) : Nat :=
  ds.foldl (fun n c => 10 * n + (c.toNat - '0'.toNat)) 0

def unsigned (s : List Char) : Bool × List Char :=
  match s with
  | '-' :: ds => (true, ds)
  | ds => (false, ds)

/-- The power of ten that a text denotes; a sign alone denotes none. -/
def power? (s : List Char) : Option Int :=
  let (negative, ds) :=
    match s with
    | '-' :: ds => (true, ds)
    | '+' :: ds => (false, ds)
    | ds => (false, ds)
  if ds.isEmpty then none
  else some (if negative then -(natOfDigits ds : Int) else natOfDigits ds)

def minInt : Int := -(twoTo 63 : Int)
def maxInt : Int := (twoTo 63 : Int) - 1

def int? (s : List Char) : Option Token :=
  if isWhole s then
    let (negative, ds) := unsigned s
    let n : Int := if negative then -(natOfDigits ds : Int) else natOfDigits ds
    if minInt ≤ n ∧ n ≤ maxInt then some (.int n) else none
  else none

def float? (whole : List Char) (fraction power : Option (List Char)) : Option Token := do
  guard (isWhole whole && fraction.all isFraction && power.all isPower)
  let (negative, ds) := unsigned whole
  let places := fraction.getD []
  let e ← (power.map power?).getD (some 0)
  return .float (.ofDecimal negative (natOfDigits (ds ++ places)) (e - places.length))

def isExponentMark (c : Char) : Bool := c == 'e' || c == 'E'

def number? (s : List Char) : Option Token :=
  match splitLast isExponentMark s with
  | none =>
    match splitLast (· == '.') s with
    | none => int? s
    | some (whole, fraction) => float? whole (some fraction) none
  | some (mantissa, power) =>
    if power.contains '.' then none
    else
      match splitLast (· == '.') mantissa with
      | none => float? mantissa none (some power)
      | some (whole, fraction) => float? whole (some fraction) (some power)

/-! Strings -/

/-- The body of a quoted string and what follows its closing quote. A line feed ends no string. -/
def stringBody : List Char → Option (List Char × List Char)
  | [] => none
  | '"' :: rest => some ([], rest)
  | '\\' :: c :: rest =>
    if c = '\n' then none
    else (stringBody rest).map fun (body, rest) => ('\\' :: c :: body, rest)
  | c :: rest =>
    if c = '\n' then none else (stringBody rest).map fun (body, rest) => (c :: body, rest)

def hexValue? (c : Char) : Option Nat :=
  if '0' ≤ c ∧ c ≤ '9' then some (c.toNat - '0'.toNat)
  else if 'a' ≤ c ∧ c ≤ 'f' then some (c.toNat - 'a'.toNat + 10)
  else if 'A' ≤ c ∧ c ≤ 'F' then some (c.toNat - 'A'.toNat + 10)
  else none

/-- The scalar value of four characters. A plus sign may stand in place of the first digit. -/
def codePoint? (a b c d : Char) : Option Char := do
  let a ← if a = '+' then some 0 else hexValue? a
  let b ← hexValue? b
  let c ← hexValue? c
  let d ← hexValue? d
  let n := 4096 * a + 256 * b + 16 * c + d
  if 0xD800 ≤ n ∧ n < 0xE000 then none else some (Char.ofNat n)

/-- The character of an escape. The letter b stands for U+0010. -/
def escape? (c : Char) : Option Char :=
  if c = '"' ∨ c = '\\' ∨ c = '/' then some c
  else if c = 'b' then some '\x10'
  else if c = 'f' then some '\x0c'
  else if c = 'n' then some '\n'
  else if c = 'r' then some '\r'
  else if c = 't' then some '\t'
  else none

def unescape? : List Char → Option (List Char)
  | [] => some []
  | '\\' :: 'u' :: a :: b :: c :: d :: rest => do
    let x ← codePoint? a b c d
    return x :: (← unescape? rest)
  | '\\' :: c :: rest => do
    let x ← escape? c
    return x :: (← unescape? rest)
  | c :: rest => do return c :: (← unescape? rest)

/-! Block strings -/

/-- The body of a block string and what follows its closing quotes. Three quotes behind a backslash
belong to the body. -/
def blockBody (escaped : Bool) : List Char → Option (List Char × List Char)
  | [] => none
  | '"' :: '"' :: '"' :: rest =>
    if escaped then (blockBody false rest).map fun (body, rest) => ('"' :: '"' :: '"' :: body, rest)
    else some ([], rest)
  | c :: rest => (blockBody (c == '\\') rest).map fun (body, rest) => (c :: body, rest)

/-- The lines of a text. A line end at its end starts no further line, and a carriage return before
a line end belongs to it. -/
def lines (s : List Char) : List (List Char) :=
  let parts := Text.pieces '\n' s
  let ended := parts.dropLast.map fun line =>
    if line.getLast? == some '\r' then line.dropLast else line
  match parts.getLast? with
  | some (c :: last) => ended ++ [c :: last]
  | _ => ended

def byteLength : List Char → Nat
  | [] => 0
  | c :: rest => c.utf8Size + byteLength rest

def isBlankLine (line : List Char) : Bool := line.all Text.isBlank

def indent (line : List Char) : Nat := byteLength (line.takeWhile Text.isBlank)

def commonIndent? (lines : List (List Char)) : Option Nat :=
  ((lines.filter (!isBlankLine ·)).map indent).min?

def dropBytes (line : List Char) (n : Nat) : (done : Nat) → List Char → Except String (List Char)
  | _, [] => .ok []
  | done, c :: rest =>
    if done = n then .ok (c :: rest)
    else if done + c.utf8Size ≤ n then dropBytes line n (done + c.utf8Size) rest
    else
      .error ("byte index " ++ toString n ++ " is not a char boundary; it is inside '" ++
        String.singleton c ++ "' (bytes " ++ toString done ++ ".." ++ toString (done + c.utf8Size) ++
        ") of `" ++ String.ofList line ++ "`")

def unindent (n : Option Nat) (line : List Char) : Except String (List Char) :=
  match n with
  | none => .ok line
  | some n => if byteLength line < n then .ok line else dropBytes line n 0 line

def unescapeQuotes : List Char → List Char
  | [] => []
  | '\\' :: '"' :: '"' :: '"' :: rest => '"' :: '"' :: '"' :: unescapeQuotes rest
  | c :: rest => c :: unescapeQuotes rest

def dropBlankEnds (lines : List (List Char)) : List (List Char) :=
  ((lines.dropWhile isBlankLine).reverse.dropWhile isBlankLine).reverse

/-- The lines of a block string: blank lines at either end are dropped, and every line but the very
first loses the indentation that all of those have in common. -/
def blockLines (ls : List (List Char)) : Except String (List (List Char)) := do
  let n := commonIndent? (ls.drop 1)
  match ls with
  | [] => return []
  | first :: others =>
    if isBlankLine first then (dropBlankEnds others).mapM (unindent n)
    else
      let cut ← (others.reverse.dropWhile isBlankLine).reverse.mapM (unindent n)
      return first :: cut

def blockValue (body : List Char) : Except String (List Char) := do
  let ls ← blockLines (lines body)
  return Text.joinPieces '\n' (ls.map unescapeQuotes)

def block (body : List Char) : Token :=
  match blockValue body with
  | .ok s => .string (String.ofList s)
  | .error message => .torn message

/-! Tokens -/

def next? (s : List Char) : Option (Token × List Char × List Char) :=
  match s with
  | [] => none
  | '.' :: '.' :: '.' :: rest => some (.spread, ['.', '.', '.'], rest)
  | '"' :: '"' :: '"' :: rest => do
    let (body, rest) ← blockBody false rest
    return (block body, '"' :: '"' :: '"' :: body ++ ['"', '"', '"'], rest)
  | '"' :: rest => do
    let (body, rest) ← stringBody rest
    let value ← unescape? body
    return (.string (String.ofList value), '"' :: body ++ ['"'], rest)
  | c :: rest =>
    if isMark c then some (.mark c, [c], rest)
    else if startsName c then
      let (tail, rest) := rest.span continuesName
      some (.name (String.ofList (c :: tail)), c :: tail, rest)
    else if c = '-' ∨ c.isDigit then do
      let (tail, rest) := rest.span (!endsNumber ·)
      let token ← number? (c :: tail)
      return (token, c :: tail, rest)
    else none

/-- How many more brackets may be opened after a token, if it may come at all. -/
def bracketsLeft? (left : Nat) : Token → Option Nat
  | .mark c =>
    if opens c then if left = 0 then none else some (left - 1)
    else if closes c then some (left + 1)
    else some left
  | _ => some left

/-- Reads tokens until none starts. Each takes at least one character, so as many rounds as there
are characters are enough. -/
def scanFrom : (rounds left : Nat) → Position → List Char → Lexemes
  | 0, _, p, s => ⟨[], p, s.isEmpty⟩
  | rounds + 1, left, p, s =>
    let (p, s) := skip false p s
    match next? s with
    | none => ⟨[], p, s.isEmpty⟩
    | some (token, consumed, rest) =>
      match bracketsLeft? left token with
      | none => ⟨[], p, false⟩
      | some left =>
        let more := scanFrom rounds left (p.after consumed) rest
        { more with items := ⟨token, p⟩ :: more.items }

end Token

def scan (text : String) : Lexemes :=
  let s := text.toList
  Token.scanFrom (s.length + 1) Token.maxOpenBrackets .start s

end QueryGate.GraphQL
