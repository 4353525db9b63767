import QueryGate.Json.Shape
import QueryGate.Settings.Dialect

/-!
# Settings in JSON

Values are taken as they are: a number is no text and a text is no flag.
-/
namespace QueryGate.Settings

open Json (Shape ShapeError)

def portOf : Shape Nat
  | .int n =>
    if 0 ≤ n ∧ n < 65536 then .ok n.toNat else .error (.outOfRange n "u16")
  | j => .error (.mismatch j "u16")

def nullOf : Shape Unit
  | .null => .ok ()
  | j => .error (.mismatch j "unit")

def choiceOf (names : List String) : Shape String
  | .string s => if names.contains s then .ok s else .error (.unknownVariant s names)
  | .object [(s, value)] => do
    if !names.contains s then throw (.unknownVariant s names)
    nullOf value
    return s
  | .object _ => .error .wrongMemberCount
  | j => .error (.mismatch j "string or map")

def sourceNames : List String := ["file"]

def sourceName : Shape Unit
  | .string s => if sourceNames.contains s then .ok () else .error (.unknownVariant s sourceNames)
  | j => .error (.mismatch j "variant identifier")

def sourcePath : Shape SchemaSource
  | .string s => .ok ⟨s⟩
  | j => .error (.mismatch j "path string")

/-- The name of the source comes before everything else that can be wrong. -/
def sourceOf : Shape SchemaSource
  | .object members => do
    match Record.get? members "source" with
    | none => throw (.missingField "source")
    | some name => sourceName name
    match Record.get? members "path" with
    | none => throw (.missingField "path")
    | some path => sourcePath path
  | .array items => do
    match items with
    | [] => throw (.missingField "source")
    | name :: rest =>
      sourceName name
      match rest with
      | [] => throw (.wrongLength 0 "struct variant SchemaSource::File with 1 element")
      | [path] => sourcePath path
      | path :: _ =>
        let _ ← sourcePath path
        throw (.wrongLength rest.length "1 element in sequence")
  | j => .error (.mismatch j "internally tagged enum SchemaSource")

def strict : Dialect Json ShapeError where
  text := Shape.text
  flag := Shape.flag
  port := portOf
  optionalText := Shape.optional Shape.text
  choice _ := choiceOf
  fields title known s := Shape.fieldsOf title known true s
  source := sourceOf

end QueryGate.Settings
