import QueryGate.Json.Basic
import QueryGate.Text.Basic

/-!
# JSON tokens

A text is cut into tokens, byte by byte, up to its end or to the first byte that starts none. A
number or a string can have the right form and still have no value: a number that is too large, a
string that is not encoded in UTF-8 or that has half of a surrogate pair.

A whole number that fits a signed or an unsigned 64-bit word is read exactly. Any other number is
read in two roundings: its leading digits, as many as fit an unsigned word, become the nearest
binary64 number, and that is multiplied or divided by the binary64 number nearest to the power of
ten. A number that is too large is refused.
-/
namespace QueryGate.Json

def wordLimit : Nat := twoTo 64

structure NumberText where
  negative : Bool
  whole : List Char
  fraction : Option (List Char)
  power : Option (Bool × List Char)
  deriving Repr, DecidableEq

def digitValue (c : Char) : Nat := c.toNat - '0'.toNat

def natOfDigits (ds : List Char) : Nat := ds.foldl (fun n c => 10 * n + digitValue c) 0

/-- Takes in digits as long as the value fits a word, and counts those that are left. -/
def takeDigits (start : Nat) : List Char → Nat × Nat
  | [] => (start, 0)
  | c :: rest =>
    let next := 10 * start + digitValue c
    if next < wordLimit then takeDigits next rest else (start, rest.length + 1)

def scaled? (negative : Bool) (value : Nat) (power : Int) : Option Binary64 :=
  let x := Binary64.ofNat value
  let signed (y : Binary64) : Option Binary64 :=
    if y.isInfinite then none else some (if negative then y.neg else y)
  let scale (e : Int) : Binary64 := Binary64.ofDecimal false 1 e
  if 0 ≤ power then
    if power ≤ 308 then signed (x.mul (scale power))
    else if value = 0 then signed x
    else none
  else if -308 ≤ power then signed (x.div (scale (-power)))
  else
    -- Two such divisions leave nothing of a word.
    let y := x.div (scale 308)
    if -616 ≤ power then signed (y.div (scale (-308 - power))) else signed (Binary64.zero false)

def NumberText.value? (n : NumberText) : Option Json :=
  let (word, unread) := takeDigits 0 n.whole
  match n.fraction, n.power with
  | none, none =>
    if unread > 0 then (scaled? n.negative word unread).map .float
    else if !n.negative then some (.int word)
    else if word = 0 || word > twoTo 63 then (scaled? true word 0).map .float
    else some (.int (-word))
  | fraction, power =>
    let digits := fraction.getD []
    let (value, dropped) := takeDigits word digits
    let shift : Int := unread - (digits.length - dropped : Nat)
    let shift :=
      match power with
      | none => shift
      | some (negative, ds) => if negative then shift - natOfDigits ds else shift + natOfDigits ds
    (scaled? n.negative value shift).map .float

open Text (charOf)

inductive Token where
  | beginObject
  | endObject
  | beginArray
  | endArray
  | comma
  | colon
  | null
  | bool (value : Bool)
  | number (value : Option Json)
  | string (value : Option String)

structure Lexeme where
  token : Token
  start : List UInt8
  rest : List UInt8

structure Lexemes where
  items : List Lexeme
  rest : List UInt8

structure Position where
  line : Nat
  column : Nat
  deriving DecidableEq, Repr

namespace Position

def advance (p : Position) (b : UInt8) : Position :=
  if charOf b = '\n' then ⟨p.line + 1, 0⟩ else ⟨p.line, p.column + 1⟩

def ofRest (text rest : List UInt8) : Position :=
  (text.take (text.length - rest.length)).foldl advance ⟨1, 0⟩

end Position

def isSpace (b : UInt8) : Bool :=
  let c := charOf b
  c == ' ' || c == '\n' || c == '\t' || c == '\r'

namespace Token

@[match_pattern] abbrev quote : UInt8 := 0x22
@[match_pattern] abbrev backslash : UInt8 := 0x5C
@[match_pattern] abbrev unitMark : UInt8 := 0x75

def stringBody : List UInt8 → Option (List UInt8 × List UInt8)
  | [] => none
  | quote :: rest => some ([], rest)
  | backslash :: b :: rest =>
    (stringBody rest).map fun (body, rest) => (backslash :: b :: body, rest)
  | b :: rest =>
    if b < 0x20 then none else (stringBody rest).map fun (body, rest) => (b :: body, rest)

def hexValue? (c : Char) : Option Nat :=
  if '0' ≤ c ∧ c ≤ '9' then some (c.toNat - '0'.toNat)
  else if 'a' ≤ c ∧ c ≤ 'f' then some (c.toNat - 'a'.toNat + 10)
  else if 'A' ≤ c ∧ c ≤ 'F' then some (c.toNat - 'A'.toNat + 10)
  else none

def hexUnit? (a b c d : Char) : Option Nat := do
  let a ← hexValue? a
  let b ← hexValue? b
  let c ← hexValue? c
  let d ← hexValue? d
  return 4096 * a + 256 * b + 16 * c + d

def shortEscape? (c : Char) : Option Char :=
  if c = '"' ∨ c = '\\' ∨ c = '/' then some c
  else if c = 'b' then some '\x08'
  else if c = 'f' then some '\x0c'
  else if c = 'n' then some '\n'
  else if c = 'r' then some '\r'
  else if c = 't' then some '\t'
  else none

/-- One element of a string: what it is written in, or a 16-bit unit that was escaped. -/
inductive Piece (α : Type) where
  | plain (x : α)
  | unit (n : Nat)

def stringPieces? : List UInt8 → Option (List (Piece UInt8))
  | [] => some []
  | backslash :: unitMark :: a :: b :: c :: d :: rest => do
    let n ← hexUnit? (charOf a) (charOf b) (charOf c) (charOf d)
    return .unit n :: (← stringPieces? rest)
  | backslash :: b :: rest => do
    let c ← shortEscape? (charOf b)
    return .plain c.toUInt8 :: (← stringPieces? rest)
  | b :: rest => do return .plain b :: (← stringPieces? rest)

def isHighSurrogate (n : Nat) : Bool := 0xD800 ≤ n && n < 0xDC00
def isLowSurrogate (n : Nat) : Bool := 0xDC00 ≤ n && n < 0xE000

/-- Joins surrogate pairs and writes units as characters. Half of a pair is no character. -/
def joinUnits? {α : Type} (encode : Char → List α) : List (Piece α) → Option (List α)
  | [] => some []
  | .plain x :: rest => (joinUnits? encode rest).map (x :: ·)
  | .unit n :: rest =>
    if isLowSurrogate n then none
    else if isHighSurrogate n then
      match rest with
      | .unit m :: rest =>
        if isLowSurrogate m then
          let c := Char.ofNat (0x10000 + 1024 * (n - 0xD800) + (m - 0xDC00))
          (joinUnits? encode rest).map (encode c ++ ·)
        else none
      | _ => none
    else (joinUnits? encode rest).map (encode (Char.ofNat n) ++ ·)

def stringValue? (pieces : List (Piece UInt8)) : Option String :=
  (joinUnits? String.utf8EncodeChar pieces).bind Text.ofUtf8?

def digitsOf (s : List UInt8) : List Char × List UInt8 :=
  let (ds, rest) := s.span fun b => (charOf b).isDigit
  (ds.map charOf, rest)

def someDigits? (s : List UInt8) : Option (List Char × List UInt8) :=
  let (ds, rest) := digitsOf s
  if ds.isEmpty then none else some (ds, rest)

def splitOff (c : Char) : List UInt8 → Bool × List UInt8
  | [] => (false, [])
  | b :: rest => if charOf b = c then (true, rest) else (false, b :: rest)

def fraction? (s : List UInt8) : Option (Option (List Char) × List UInt8) :=
  match splitOff '.' s with
  | (true, rest) => (someDigits? rest).map fun (ds, rest) => (some ds, rest)
  | (false, rest) => some (none, rest)

def power? (s : List UInt8) : Option (Option (Bool × List Char) × List UInt8) :=
  match s with
  | b :: rest =>
    if charOf b = 'e' ∨ charOf b = 'E' then
      let (negative, rest) :=
        match splitOff '-' rest with
        | (true, rest) => (true, rest)
        | (false, rest) => (false, (splitOff '+' rest).2)
      (someDigits? rest).map fun (ds, rest) => (some (negative, ds), rest)
    else some (none, s)
  | [] => some (none, [])

/-- A zero at the front stands alone. -/
def number? (s : List UInt8) : Option (NumberText × List UInt8) := do
  let (negative, rest) := splitOff '-' s
  let (whole, rest) ← someDigits? rest
  if whole.length > 1 && whole.head? == some '0' then none
  let (fraction, rest) ← fraction? rest
  let (power, rest) ← power? rest
  return (⟨negative, whole, fraction, power⟩, rest)

def next? : List UInt8 → Option (Token × List UInt8)
  | [] => none
  | b :: rest =>
    match charOf b with
    | '\x7b' => some (.beginObject, rest)
    | '\x7d' => some (.endObject, rest)
    | '[' => some (.beginArray, rest)
    | ']' => some (.endArray, rest)
    | ',' => some (.comma, rest)
    | ':' => some (.colon, rest)
    | 'n' => ((Text.utf8 "ull").isPrefixOf? rest).map (.null, ·)
    | 't' => ((Text.utf8 "rue").isPrefixOf? rest).map (.bool true, ·)
    | 'f' => ((Text.utf8 "alse").isPrefixOf? rest).map (.bool false, ·)
    | '"' => do
      let (body, rest) ← stringBody rest
      let pieces ← stringPieces? body
      return (.string (stringValue? pieces), rest)
    | _ => do
      let (n, rest) ← number? (b :: rest)
      return (.number n.value?, rest)

/-- Reads tokens until none starts. Each takes at least one byte, so as many rounds as there are
bytes are enough. -/
def scanFrom : Nat → List UInt8 → Lexemes
  | 0, s => ⟨[], s⟩
  | rounds + 1, s =>
    let s := s.dropWhile isSpace
    match next? s with
    | none => ⟨[], s⟩
    | some (token, rest) =>
      let more := scanFrom rounds rest
      ⟨⟨token, s, rest⟩ :: more.items, more.rest⟩

end Token

def scan (text : List UInt8) : Lexemes := Token.scanFrom (text.length + 1) text

end QueryGate.Json
