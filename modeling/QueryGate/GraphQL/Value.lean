import QueryGate.Number.Decimal
import QueryGate.Record

/-!
# GraphQL input values

Values as they stand in arguments and defaults, the directives that hold them, and type references,
with their compact text. Between the items of a list or an object only a comma is written.
-/
namespace QueryGate.GraphQL

inductive Value where
  | variable (name : String)
  | int (n : Int)
  | float (x : Binary64)
  | string (s : String)
  | boolean (b : Bool)
  | null
  | enum (name : String)
  | list (items : List Value)
  | object (fields : List (String × Value))
  deriving Inhabited

abbrev Argument := String × Value

structure Directive where
  name : String
  arguments : List Argument

inductive TypeRef where
  | named (name : String)
  | list (item : TypeRef)
  | nonNull (inner : TypeRef)
  deriving DecidableEq, Repr

structure VariableDefinition where
  name : String
  type : TypeRef
  default : Option Value

/-- A fractional number is written positionally from 10^(-4) up to, but not including, 10^16. -/
def numberStyle : NumberStyle where
  tie := .up
  positional e := -4 ≤ e && e < 16
  pointZero := true
  plusSign := false

/-- Control characters, those from U+0080 to U+009F included. -/
def isControl (c : Char) : Bool := c.toNat < 0x20 || (0x7F ≤ c.toNat && c.toNat < 0xA0)

def hexDigit (n : Nat) : Char := Nat.digitChar (n % 16)

def escaped (c : Char) : List Char :=
  if c = '"' then ['\\', '"']
  else if c = '\\' then ['\\', '\\']
  else if c = '\n' then ['\\', 'n']
  else if c = '\r' then ['\\', 'r']
  else if c = '\t' then ['\\', 't']
  else if isControl c then ['\\', 'u', '0', '0', hexDigit (c.toNat / 16), hexDigit c.toNat]
  else [c]

def quoted (s : List Char) : List Char := '"' :: s.flatMap escaped ++ ['"']

def joined (separator : Char) : List (List Char) → List Char
  | [] => []
  | [t] => t
  | t :: rest => t ++ separator :: joined separator rest

namespace Value

mutual

def chars : Value → List Char
  | .variable name => '$' :: name.toList
  | .int n => (toString n).toList
  | .float x => (x.text numberStyle).toList
  | .string s => quoted s.toList
  | .boolean true => "true".toList
  | .boolean false => "false".toList
  | .null => "null".toList
  | .enum name => name.toList
  | .list items => '[' :: joined ',' (itemChars items) ++ [']']
  | .object fields => '\x7b' :: joined ',' (fieldChars fields) ++ ['\x7d']

def itemChars : List Value → List (List Char)
  | [] => []
  | item :: rest => item.chars :: itemChars rest

def fieldChars : List (String × Value) → List (List Char)
  | [] => []
  | (name, value) :: rest => (name.toList ++ ':' :: value.chars) :: fieldChars rest

end

def text (v : Value) : String := String.ofList v.chars

def string? : Value → Option String
  | .string s => some s
  | _ => none

mutual

def variableNames : Value → List String
  | .variable name => [name]
  | .list items => itemVariables items
  | .object fields => fieldVariables fields
  | _ => []

def itemVariables : List Value → List String
  | [] => []
  | item :: rest => item.variableNames ++ itemVariables rest

def fieldVariables : List (String × Value) → List String
  | [] => []
  | (_, value) :: rest => value.variableNames ++ fieldVariables rest

end

end Value

namespace Argument

def chars (a : Argument) : List Char := a.1.toList ++ ':' :: a.2.chars

def listChars (arguments : List Argument) : List Char :=
  if arguments.isEmpty then [] else '(' :: joined ',' (arguments.map chars) ++ [')']

def variableNames (arguments : List Argument) : List String := arguments.flatMap (·.2.variableNames)

end Argument

namespace Directive

def chars (d : Directive) : List Char := '@' :: d.name.toList ++ Argument.listChars d.arguments

def text (d : Directive) : String := String.ofList d.chars

def variableNames (directives : List Directive) : List String :=
  directives.flatMap fun d => Argument.variableNames d.arguments

end Directive

namespace TypeRef

def baseName : TypeRef → String
  | .named name => name
  | .list item => item.baseName
  | .nonNull inner => inner.baseName

def isList : TypeRef → Bool
  | .named _ => false
  | .list _ => true
  | .nonNull inner => inner.isList

def isNonNull : TypeRef → Bool
  | .nonNull _ => true
  | _ => false

def chars : TypeRef → List Char
  | .named name => name.toList
  | .list item => '[' :: item.chars ++ [']']
  | .nonNull inner => inner.chars ++ ['!']

def text (t : TypeRef) : String := String.ofList t.chars

end TypeRef

namespace VariableDefinition

def chars (v : VariableDefinition) : List Char :=
  '$' :: v.name.toList ++ ':' :: v.type.chars ++
    (match v.default with
     | none => []
     | some value => '=' :: value.chars)

end VariableDefinition

/-! Values are compared node by node; the comparison decides equality. -/

namespace Value

mutual

def same : Value → Value → Bool
  | .variable a, .variable b => a == b
  | .int a, .int b => a == b
  | .float a, .float b => a == b
  | .string a, .string b => a == b
  | .boolean a, .boolean b => a == b
  | .null, .null => true
  | .enum a, .enum b => a == b
  | .list a, .list b => sameItems a b
  | .object a, .object b => sameFields a b
  | _, _ => false

def sameItems : List Value → List Value → Bool
  | [], [] => true
  | a :: as, b :: bs => same a b && sameItems as bs
  | _, _ => false

def sameFields : List (String × Value) → List (String × Value) → Bool
  | [], [] => true
  | (k, a) :: as, (l, b) :: bs => k == l && same a b && sameFields as bs
  | _, _ => false

end

mutual

theorem same_iff : ∀ a b : Value, same a b = true ↔ a = b
  | .variable a, b => by cases b <;> simp [same]
  | .int a, b => by cases b <;> simp [same]
  | .float a, b => by cases b <;> simp [same]
  | .string a, b => by cases b <;> simp [same]
  | .boolean a, b => by cases b <;> simp [same]
  | .null, b => by cases b <;> simp [same]
  | .enum a, b => by cases b <;> simp [same]
  | .list a, b => by cases b <;> simp [same, sameItems_iff a]
  | .object a, b => by cases b <;> simp [same, sameFields_iff a]

theorem sameItems_iff : ∀ as bs : List Value, sameItems as bs = true ↔ as = bs
  | [], bs => by cases bs <;> simp [sameItems]
  | a :: as, bs => by cases bs <;> simp [sameItems, same_iff a, sameItems_iff as]

theorem sameFields_iff : ∀ as bs : List (String × Value), sameFields as bs = true ↔ as = bs
  | [], bs => by cases bs <;> simp [sameFields]
  | (k, a) :: as, bs => by
    cases bs with
    | nil => simp [sameFields]
    | cons b bs => simp [sameFields, same_iff a, sameFields_iff as, Prod.ext_iff]

end

end Value

instance : DecidableEq Value := fun a b => decidable_of_iff _ (Value.same_iff a b)

deriving instance DecidableEq for Directive, VariableDefinition

end QueryGate.GraphQL
