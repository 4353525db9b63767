import QueryGate.GraphQL.Grammar

/-!
# Executable documents

Operations and fragments as they are written, and the rules that read them. A spread names a
fragment; an inline fragment carries its selections itself.
-/
namespace QueryGate.GraphQL

inductive OperationKind where
  | query
  | mutation
  | subscription
  deriving DecidableEq, Repr

inductive Selection where
  | field (aliasName : Option String) (name : String) (arguments : List Argument)
      (directives : List Directive) (selections : List Selection)
  | inline (typeCondition : Option String) (directives : List Directive)
      (selections : List Selection)
  | spread (fragment : String) (directives : List Directive)

structure OperationDefinition where
  kind : OperationKind
  name : Option String
  variableDefinitions : List VariableDefinition
  directives : List Directive
  selections : List Selection

structure FragmentDefinition where
  name : String
  typeCondition : String
  directives : List Directive
  selections : List Selection

inductive Definition where
  | operation (o : OperationDefinition)
  | fragment (f : FragmentDefinition)

structure Document where
  definitions : List Definition

namespace OperationKind

def word : OperationKind → String
  | .query => "query"
  | .mutation => "mutation"
  | .subscription => "subscription"

def ofWord? (s : String) : Option OperationKind :=
  if s = "query" then some .query
  else if s = "mutation" then some .mutation
  else if s = "subscription" then some .subscription
  else none

end OperationKind

namespace Document

def operations (d : Document) : List OperationDefinition :=
  d.definitions.filterMap fun
    | .operation o => some o
    | .fragment _ => none

def fragments (d : Document) : List FragmentDefinition :=
  d.definitions.filterMap fun
    | .operation _ => none
    | .fragment f => some f

/-- Of several fragments with one name the last one counts. -/
def fragment? (d : Document) (name : String) : Option FragmentDefinition :=
  d.fragments.reverse.find? (·.name == name)

end Document

namespace Rule

/-- What three dots may be followed by. The word `on` always starts a type condition. -/
def startsInline (ts : List Token) : Bool :=
  startsWithName "on" ts || startsWithMark '@' ts || startsWithMark '\x7b' ts

def aliased : Rule String := fun ts => do
  let ((), rest) ← mark ':' ts
  name rest

def typeCondition : Rule String := fun ts => do
  let ((), rest) ← keyword "on" ts
  name rest

def selection (inner : Rule (List Selection)) : Rule Selection := fun ts =>
  match ts with
  | .spread :: rest =>
    if startsInline rest then do
      let (condition, rest) ← optional (startsWithName "on") typeCondition rest
      let (ds, rest) ← directives rest
      let (selections, rest) ← inner rest
      return (.inline condition ds selections, rest)
    else do
      let (fragment, rest) ← name rest
      let (ds, rest) ← directives rest
      return (.spread fragment ds, rest)
  | ts => do
    let (first, rest) ← name ts
    let (second, rest) ← optional (startsWithMark ':') aliased rest
    let (args, rest) ← arguments rest
    let (ds, rest) ← directives rest
    let (selections, rest) ← optional (startsWithMark '\x7b') inner rest
    let selections := selections.getD []
    match second with
    | none => return (.field none first args ds selections, rest)
    | some field => return (.field (some first) field args ds selections, rest)

def selectionSet : (depth : Nat) → Rule (List Selection)
  | 0, ts => .error (.stuck ts)
  | depth + 1, ts => between '\x7b' '\x7d' (selection (selectionSet depth)) ts

def selections : Rule (List Selection) := fun ts => selectionSet (ts.length + 1) ts

def variableDefinition : Rule VariableDefinition := fun ts => do
  let ((), rest) ← mark '$' ts
  let (word, rest) ← name rest
  let ((), rest) ← mark ':' rest
  let (t, rest) ← type rest
  let (value, rest) ← default rest
  return (⟨word, t, value⟩, rest)

def fragmentDefinition : Rule FragmentDefinition := fun ts => do
  let ((), rest) ← keyword "fragment" ts
  let (word, rest) ← name rest
  let (condition, rest) ← typeCondition rest
  let (ds, rest) ← directives rest
  let (body, rest) ← selections rest
  return (⟨word, condition, ds, body⟩, rest)

def operationDefinition (kind : OperationKind) : Rule OperationDefinition := fun ts => do
  let (word, rest) ← optional startsWithAnyName name ts
  let (definitions, rest) ← optional (startsWithMark '(') (between '(' ')' variableDefinition) rest
  let (ds, rest) ← directives rest
  let (body, rest) ← selections rest
  return (⟨kind, word, definitions.getD [], ds, body⟩, rest)

def definition : Rule Definition := fun ts =>
  match ts with
  | .name word :: rest =>
    match OperationKind.ofWord? word with
    | some kind => do
      let (o, rest) ← operationDefinition kind rest
      return (.operation o, rest)
    | none => do
      let (f, rest) ← fragmentDefinition ts
      return (.fragment f, rest)
  | ts => do
    let (body, rest) ← selections ts
    return (.operation ⟨.query, none, [], [], body⟩, rest)

end Rule

def Document.read (text : String) : Except TextError Document :=
  (readAll Rule.definition text).map Document.mk

end QueryGate.GraphQL
