import QueryGate.Json.Reader
import QueryGate.Json.Shape

/-!
# Request parameters

The query, the operation name and the variables of a request, read from a JSON value or from JSON
text. What is wrong with a text is reported for the first place that is wrong.
-/
namespace QueryGate

structure Params where
  query : Option String
  operationName : Option String
  variableValues : Option Json
  deriving Inhabited

inductive ParamsError where
  | malformed
  | wrongShape (error : Json.ShapeError) (position : Json.Position)
  | duplicateField (name : String) (position : Json.Position)

namespace ParamsError

def located (message : String) (p : Json.Position) : String :=
  message ++ " at line " ++ toString p.line ++ " column " ++ toString p.column

def message : ParamsError → String
  | .malformed => "JSON syntax error"
  | .wrongShape e p => located e.message p
  | .duplicateField name p => located ("duplicate field `" ++ name ++ "`") p

end ParamsError

namespace Params

open Json (Lexeme Token ShapeError)

def empty : Params := ⟨none, none, none⟩

def title : String := "struct GraphQLParams"

def shape : Json.Shape Params :=
  Json.Shape.fieldsOf title
    [("query", fun j p => do return { p with query := ← Json.Shape.optional .text j }),
     ("operationName",
      fun j p => do return { p with operationName := ← Json.Shape.optional .text j }),
     ("variables", fun j p => do return { p with variableValues := ← Json.Shape.optional .any j })]
    false empty

def toJson (p : Params) : Json :=
  .object [("query", (p.query.map .string).getD .null),
    ("operationName", (p.operationName.map .string).getD .null),
    ("variables", p.variableValues.getD .null)]

/-! Reading from text -/

inductive Fault where
  | malformed
  | wrongShape (error : ShapeError) (rest : List UInt8)
  | duplicateField (name : String) (rest : List UInt8)

abbrev Reader (α : Type) := List Lexeme → Except Fault (α × List Lexeme)

/-- A value that is refused is located behind it; an array or object in front of it. -/
def refuse {α : Type} (l : Lexeme) (expected : String) : Except Fault α :=
  let error (found : Json) (rest : List UInt8) :=
    Except.error (Fault.wrongShape (.mismatch found expected) rest)
  match l.token with
  | .null => error .null l.rest
  | .bool b => error (.bool b) l.rest
  | .number (some n) => error n l.rest
  | .string (some s) => error (.string s) l.rest
  | .beginArray => error (.array []) l.start
  | .beginObject => error (.object []) l.start
  | _ => .error .malformed

def optionalText : Reader (Option String)
  | [] => .error .malformed
  | l :: rest =>
    match l.token with
    | .null => .ok (none, rest)
    | .string (some s) => .ok (some s, rest)
    | _ => refuse l "a string"

def optionalValue : Reader (Option Json) := fun ls =>
  match Json.Reader.value true (Json.maxNesting - 1) ls with
  | none => .error .malformed
  | some (.null, rest) => .ok (none, rest)
  | some (j, rest) => .ok (some j, rest)

def skipped : Reader Unit := fun ls =>
  match Json.Reader.value false ls.length ls with
  | none => .error .malformed
  | some (_, rest) => .ok ((), rest)

def fieldNames : List String := ["query", "operationName", "variables"]

def field (p : Params) (name : String) : Reader Params := fun ls =>
  if name = "query" then do
    let (x, rest) ← optionalText ls
    return ({ p with query := x }, rest)
  else if name = "operationName" then do
    let (x, rest) ← optionalText ls
    return ({ p with operationName := x }, rest)
  else if name = "variables" then do
    let (x, rest) ← optionalValue ls
    return ({ p with variableValues := x }, rest)
  else do
    let ((), rest) ← skipped ls
    return (p, rest)

/-- A repeated field is located behind the blanks that follow its name, and behind a closing brace
if that comes next. -/
def repeated {α : Type} (name : String) (stop : List UInt8) : List Lexeme → Except Fault α
  | [] => .error (.duplicateField name stop)
  | l :: _ =>
    match l.token with
    | .endObject => .error (.duplicateField name l.rest)
    | _ => .error (.duplicateField name l.start)

/-- The members of an object from the first name on. `stop` is what follows the last token. -/
def members (stop : List UInt8) : (rounds : Nat) → (seen : List String) → Params → Reader Params
  | 0, _, _, _ => .error .malformed
  | rounds + 1, seen, p, ls =>
    match ls with
    | ⟨.string (some name), _, _⟩ :: rest =>
      if seen.contains name then repeated name stop rest
      else
        match rest with
        | ⟨.colon, _, _⟩ :: rest => do
          let (p, rest) ← field p name rest
          match rest with
          | ⟨.comma, _, _⟩ :: rest =>
            let seen := if fieldNames.contains name then name :: seen else seen
            members stop rounds seen p rest
          | ⟨.endObject, _, _⟩ :: rest => return (p, rest)
          | _ => .error .malformed
        | _ => .error .malformed
    | _ => .error .malformed

def elements (p : Params) : List String → Reader Params
  | [], _ => .error .malformed
  | name :: names, ls => do
    let (p, rest) ← field p name ls
    match rest with
    | ⟨.endArray, _, _⟩ :: rest => return (p, rest)
    | ⟨.comma, _, _⟩ :: rest => elements p names rest
    | _ => .error .malformed

def all (stop : List UInt8) : Reader Params
  | [] => .error .malformed
  | l :: rest =>
    match l.token, rest with
    | .beginObject, ⟨.endObject, _, _⟩ :: rest => .ok (empty, rest)
    | .beginObject, rest => members stop rest.length [] empty rest
    | .beginArray, ⟨.endArray, _, _⟩ :: rest => .ok (empty, rest)
    | .beginArray, rest => elements empty fieldNames rest
    | _, _ => refuse l title

def Fault.located (text : List UInt8) : Fault → ParamsError
  | .malformed => .malformed
  | .wrongShape e rest => .wrongShape e (.ofRest text rest)
  | .duplicateField name rest => .duplicateField name (.ofRest text rest)

def decode (body : List UInt8) : Except ParamsError Params :=
  let lexemes := Json.scan body
  match all lexemes.rest lexemes.items with
  | .ok (p, []) => if lexemes.rest.isEmpty then .ok p else .error .malformed
  | .ok _ => .error .malformed
  | .error fault => .error (fault.located body)

def read (text : String) : Except ParamsError Params := decode text

end Params

end QueryGate
