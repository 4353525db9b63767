import QueryGate.GraphQL.Grammar

/-!
# Type system documents

Type definitions and extensions as they are written, and the rules that read them. What no lookup in
a schema needs (descriptions, arguments, members of unions and enumerations, directive definitions)
is checked for its form and dropped.
-/
namespace QueryGate.GraphQL

inductive TypeKind where
  | scalar
  | object
  | interface
  | union
  | enum
  | input
  deriving DecidableEq, Repr

structure FieldDefinition where
  name : String
  type : TypeRef
  directives : List Directive

/-- A type. Only objects and interfaces have output fields; only they name interfaces. -/
structure TypeDefinition where
  kind : TypeKind
  name : String
  interfaces : List String
  directives : List Directive
  fields : List FieldDefinition

inductive TypeSystemDefinition where
  | schema (query mutation subscription : Option String)
  | type (t : TypeDefinition)
  | extension (t : TypeDefinition)
  | directive (name : String)

namespace TypeKind

def ofWord? (s : String) : Option TypeKind :=
  if s = "scalar" then some .scalar
  else if s = "type" then some .object
  else if s = "interface" then some .interface
  else if s = "union" then some .union
  else if s = "enum" then some .enum
  else if s = "input" then some .input
  else none

end TypeKind

namespace Rule

variable {α : Type}

def startsWithString : List Token → Bool
  | .string _ :: _ => true
  | .torn _ :: _ => true
  | _ => false

def string : Rule String
  | .string s :: rest => .ok (s, rest)
  | .torn message :: _ => .error (.torn message)
  | ts => .error (.stuck ts)

def description : Rule (Option String) := optional startsWithString string

def manyAfter (c : Char) (rule : Rule α) : Rule (List α) :=
  many (startsWithMark c) fun ts => do
    let ((), rest) ← mark c ts
    rule rest

def separated (c : Char) (rule : Rule α) : Rule (List α) := fun ts => do
  let (_, rest) ← optional (startsWithMark c) (mark c) ts
  let (x, rest) ← rule rest
  let (xs, rest) ← manyAfter c rule rest
  return (x :: xs, rest)

def inputValue : Rule String := fun ts => do
  let (_, rest) ← description ts
  let (word, rest) ← name rest
  let ((), rest) ← mark ':' rest
  let (_, rest) ← type rest
  let (_, rest) ← default rest
  let (_, rest) ← directives rest
  return (word, rest)

def fieldDefinition : Rule FieldDefinition := fun ts => do
  let (_, rest) ← description ts
  let (word, rest) ← name rest
  let (_, rest) ← optional (startsWithMark '(') (between '(' ')' inputValue) rest
  let ((), rest) ← mark ':' rest
  let (t, rest) ← type rest
  let (ds, rest) ← directives rest
  return (⟨word, t, ds⟩, rest)

def enumValue : Rule String := fun ts => do
  let (_, rest) ← description ts
  let (word, rest) ← name rest
  let (_, rest) ← directives rest
  return (word, rest)

def interfaces : Rule (List String) := fun ts => do
  let ((), rest) ← keyword "implements" ts
  separated '&' name rest

def body (rule : Rule α) : Rule (Option (List α)) :=
  optional (startsWithMark '\x7b') (between '\x7b' '\x7d' rule)

/-- A type of a kind, and whether it says anything besides its name that an extension may add. An
interface is not extended by interfaces alone. -/
def typeOfKind (kind : TypeKind) : Rule (TypeDefinition × Bool) := fun ts => do
  let (word, rest) ← name ts
  match kind with
  | .scalar =>
    let (ds, rest) ← directives rest
    return ((⟨kind, word, [], ds, []⟩, !ds.isEmpty), rest)
  | .object | .interface =>
    let (is, rest) ← optional (startsWithName "implements") interfaces rest
    let (ds, rest) ← directives rest
    let (fields, rest) ← body fieldDefinition rest
    let adds := !ds.isEmpty || fields.isSome || (kind == .object && is.isSome)
    return ((⟨kind, word, is.getD [], ds, fields.getD []⟩, adds), rest)
  | .union =>
    let (ds, rest) ← directives rest
    let (members, rest) ← optional (startsWithMark '=') (fun ts => do
      let ((), rest) ← mark '=' ts
      separated '|' name rest) rest
    return ((⟨kind, word, [], ds, []⟩, !ds.isEmpty || members.isSome), rest)
  | .enum =>
    let (ds, rest) ← directives rest
    let (values, rest) ← body enumValue rest
    return ((⟨kind, word, [], ds, []⟩, !ds.isEmpty || values.isSome), rest)
  | .input =>
    let (ds, rest) ← directives rest
    let (values, rest) ← body inputValue rest
    return ((⟨kind, word, [], ds, []⟩, !ds.isEmpty || values.isSome), rest)

def locations : List String :=
  ["QUERY", "MUTATION", "SUBSCRIPTION", "FIELD", "FRAGMENT_DEFINITION", "FRAGMENT_SPREAD",
   "INLINE_FRAGMENT", "VARIABLE_DEFINITION", "SCHEMA", "SCALAR", "OBJECT", "FIELD_DEFINITION",
   "ARGUMENT_DEFINITION", "INTERFACE", "UNION", "ENUM", "ENUM_VALUE", "INPUT_OBJECT",
   "INPUT_FIELD_DEFINITION"]

def startsLocation : List Token → Bool
  | .name s :: _ => locations.contains s
  | _ => false

def location : Rule String := fun ts => if startsLocation ts then name ts else .error (.stuck ts)

def directiveDefinition : Rule String := fun ts => do
  let ((), rest) ← mark '@' ts
  let (word, rest) ← name rest
  let (_, rest) ← optional (startsWithMark '(') (between '(' ')' inputValue) rest
  let (_, rest) ← optional (startsWithName "repeatable") (keyword "repeatable") rest
  let ((), rest) ← keyword "on" rest
  let (_, rest) ←
    optional (fun ts => startsWithMark '|' ts || startsLocation ts) (separated '|' location) rest
  return (word, rest)

def rootType : Rule (String × String) := fun ts => do
  let (operation, rest) ← name ts
  let ((), rest) ← mark ':' rest
  let (t, rest) ← name rest
  return ((operation, t), rest)

def areRootTypes (entries : List (String × String)) : Bool :=
  let operations := entries.map (·.1)
  operations.all (["query", "mutation", "subscription"].contains ·) && operations.Nodup

/-- A schema block; a block with other root types is refused at its keyword. -/
def schemaDefinition (keyword : List Token) : Rule TypeSystemDefinition := fun ts => do
  let (_, rest) ← directives ts
  let ((), rest) ← mark '\x7b' rest
  let (entries, rest) ← upTo '\x7d' rootType rest
  if areRootTypes entries then
    let root (operation : String) := entries.lookup operation
    return (.schema (root "query") (root "mutation") (root "subscription"), rest)
  else .error (.stuck keyword)

/-- An extension; one that adds nothing is refused at the keyword of its kind. -/
def typeExtension : Rule TypeSystemDefinition := fun ts =>
  match ts with
  | .name word :: rest =>
    match TypeKind.ofWord? word with
    | none => .error (.stuck ts)
    | some kind => do
      let ((t, adds), rest) ← typeOfKind kind rest
      if adds then return (.extension t, rest) else .error (.stuck ts)
  | ts => .error (.stuck ts)

def describedDefinition : Rule TypeSystemDefinition := fun ts =>
  match ts with
  | .name word :: rest =>
    if word = "directive" then do
      let (d, rest) ← directiveDefinition rest
      return (.directive d, rest)
    else
      match TypeKind.ofWord? word with
      | none => .error (.stuck ts)
      | some kind => do
        let ((t, _), rest) ← typeOfKind kind rest
        return (.type t, rest)
  | ts => .error (.stuck ts)

def typeSystemDefinition : Rule TypeSystemDefinition := fun ts =>
  if startsWithName "schema" ts then schemaDefinition ts (ts.drop 1)
  else if startsWithName "extend" ts then typeExtension (ts.drop 1)
  else do
    let (_, rest) ← description ts
    describedDefinition rest

end Rule

def TypeSystemDefinition.readAll (text : String) : Except TextError (List TypeSystemDefinition) :=
  GraphQL.readAll Rule.typeSystemDefinition text

end QueryGate.GraphQL
