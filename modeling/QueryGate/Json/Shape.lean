import QueryGate.Json.Basic
import QueryGate.Text.Shown

/-!
# Shapes of JSON values

Reading a value of a known shape either succeeds or says what was found in place of what was
expected. A structure is read from an object, or from an array that lists its fields in order.
-/
namespace QueryGate.Json

inductive ShapeError where
  | mismatch (found : Json) (expected : String)
  | outOfRange (found : Int) (expected : String)
  | wrongMemberCount
  | tooLong (length : Nat)
  | wrongLength (length : Nat) (expected : String)
  | unknownField (name : String) (known : List String)
  | unknownVariant (name : String) (known : List String)
  | missingField (name : String)

def found : Json → String
  | .null => "null"
  | .bool b => "boolean `" ++ toString b ++ "`"
  | .int n => "integer `" ++ toString n ++ "`"
  | .float x => "floating point `" ++ x.text numberStyle ++ "`"
  | .string s => "string " ++ Text.shown s
  | .array _ => "sequence"
  | .object _ => "map"

def alternatives (names : List String) : String :=
  let quoted := names.map fun n => "`" ++ n ++ "`"
  match quoted with
  | [] => "there are no fields"
  | [a] => "expected " ++ a
  | [a, b] => "expected " ++ a ++ " or " ++ b
  | many => "expected one of " ++ String.intercalate ", " many

def ShapeError.message : ShapeError → String
  | .mismatch j expected => "invalid type: " ++ j.found ++ ", expected " ++ expected
  | .outOfRange n expected => "invalid value: integer `" ++ toString n ++ "`, expected " ++ expected
  | .wrongMemberCount => "invalid value: map, expected map with a single key"
  | .tooLong n => "invalid length " ++ toString n ++ ", expected fewer elements in array"
  | .wrongLength n expected => "invalid length " ++ toString n ++ ", expected " ++ expected
  | .unknownField name known => "unknown field `" ++ name ++ "`, " ++ alternatives known
  | .unknownVariant name known => "unknown variant `" ++ name ++ "`, " ++ alternatives known
  | .missingField name => "missing field `" ++ name ++ "`"

abbrev Shape (α : Type) := Json → Except ShapeError α

namespace Shape

def text : Shape String
  | .string s => .ok s
  | j => .error (.mismatch j "a string")

def flag : Shape Bool
  | .bool b => .ok b
  | j => .error (.mismatch j "a boolean")

def optional {α : Type} (shape : Shape α) : Shape (Option α)
  | .null => .ok none
  | j => (shape j).map some

def list : Shape (List Json)
  | .array items => .ok items
  | j => .error (.mismatch j "a sequence")

def any : Shape Json := .ok

def fields {σ : Type} (known : List (String × (Json → σ → Except ShapeError σ))) (closed : Bool)
    (s : σ) : List (String × Json) → Except ShapeError σ
  | [] => .ok s
  | (name, value) :: rest =>
    match known.lookup name with
    | some field => do fields known closed (← field value s) rest
    | none =>
      if closed then .error (.unknownField name (known.map (·.1))) else fields known closed s rest

/-- A structure that starts from `s` and takes in what the value holds. A closed structure has no
other fields than the known ones. -/
def fieldsOf {σ : Type} (title : String)
    (known : List (String × (Json → σ → Except ShapeError σ))) (closed : Bool) (s : σ) : Shape σ
  | .object members => fields known closed s members
  | .array items => do
    let s ← fields known closed s ((known.map (·.1)).zip items)
    if items.length > known.length then .error (.tooLong items.length) else .ok s
  | j => .error (.mismatch j title)

end Shape

end QueryGate.Json
