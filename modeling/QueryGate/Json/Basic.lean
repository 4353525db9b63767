import QueryGate.Number.Decimal
import QueryGate.Record

/-!
# JSON values

Whole numbers within 64 bits stay exact; every other number is a binary64 number. An object that was
read has its members in increasing order of their names; one that is built for output may keep
another order. The text of a value is compact: no space is written between tokens, and in a string
only the quote, the backslash and the control characters below U+0020 are escaped.
-/
namespace QueryGate

inductive Json where
  | null
  | bool (value : Bool)
  | int (value : Int)
  | float (value : Binary64)
  | string (value : String)
  | array (items : List Json)
  | object (members : List (String × Json))
  deriving Inhabited

namespace Json

def text? : Json → Option String
  | .string s => some s
  | _ => none

def isNull : Json → Bool
  | .null => true
  | _ => false

def member? (name : String) : Json → Option Json
  | .object members => Record.get? members name
  | _ => none

def ofEntries (entries : List (String × Json)) : Json := .object (Record.ofEntries entries)

/-- Numbers from 10^(-5) up to, but not including, 10^16 are written positionally. -/
def numberStyle : NumberStyle where
  tie := .even
  positional e := -5 ≤ e && e < 16
  pointZero := true
  plusSign := true

def hexDigit (n : Nat) : Char := Nat.digitChar (n % 16)

def escaped (c : Char) : List Char :=
  if c = '"' then ['\\', '"']
  else if c = '\\' then ['\\', '\\']
  else if c = '\x08' then ['\\', 'b']
  else if c = '\x0c' then ['\\', 'f']
  else if c = '\n' then ['\\', 'n']
  else if c = '\r' then ['\\', 'r']
  else if c = '\t' then ['\\', 't']
  else if c.toNat < 0x20 then
    ['\\', 'u', '0', '0', hexDigit (c.toNat / 16), hexDigit c.toNat]
  else [c]

def quoted (s : String) : List Char := '"' :: s.toList.flatMap escaped ++ ['"']

mutual

def chars : Json → List Char
  | .null => "null".toList
  | .bool true => "true".toList
  | .bool false => "false".toList
  | .int n => (toString n).toList
  | .float x => (x.text numberStyle).toList
  | .string s => quoted s
  | .array items => '[' :: itemChars items ++ [']']
  | .object members => '{' :: memberChars members ++ ['}']

def itemChars : List Json → List Char
  | [] => []
  | [item] => chars item
  | item :: rest => chars item ++ ',' :: itemChars rest

def memberChars : List (String × Json) → List Char
  | [] => []
  | [(name, value)] => quoted name ++ ':' :: chars value
  | (name, value) :: rest => quoted name ++ ':' :: chars value ++ ',' :: memberChars rest

end

def text (j : Json) : String := String.ofList j.chars

end Json

end QueryGate
