import QueryGate.GraphQL.Document
import QueryGate.Operation.Basic

/-!
# From documents to operations

The selected operation of a document is resolved field by field. Each spread becomes an inline
fragment on the type of the fragment it names; a second plain spread of a fragment among the same
selections selects nothing new and is left out. Every selection that is met counts against a limit.
-/
namespace QueryGate

open GraphQL (Document FragmentDefinition OperationDefinition OperationKind Selection TextError)

structure ExpandOptions where
  /-- Whether spreads may be replaced; otherwise a spread is an error. -/
  spreads : Bool
  maxSelections : Nat
  deriving DecidableEq, Repr

inductive OperationError where
  | malformed (error : TextError)
  | noOperation
  | operationNotFound (name : String)
  | ambiguousOperation
  | unknownFragment (name : String)
  | cyclicFragment (name : String)
  | spreadNotAllowed (name : String)
  | limitExceeded (limit : Nat)
  | missingRootType (kind : OperationKind)
  deriving DecidableEq, Repr

namespace ExpandOptions

def standard : ExpandOptions := ⟨true, 10000⟩

end ExpandOptions

structure Expansion where
  schema : Schema
  document : Document
  options : ExpandOptions

namespace Expansion

def fragmentFor (e : Expansion) (visiting : List String) (name : String) :
    Except OperationError FragmentDefinition :=
  if !e.options.spreads then .error (.spreadNotAllowed name)
  else
    match e.document.fragment? name with
    | none => .error (.unknownFragment name)
    | some f => if visiting.contains f.name then .error (.cyclicFragment name) else .ok f

mutual

/-- Resolves a selection below a type, with `left` further selections to go before the limit.
`enter` expands the body of a fragment, and `seen` holds the fragments spread so far among the
selections that it belongs to. -/
def node (e : Expansion)
    (enter : FragmentDefinition → Nat → Except OperationError (List Node × Nat))
    (visiting : List String) (parent : Option String) (seen : List String) (left : Nat) :
    Selection → Except OperationError (Option Node × List String × Nat)
  | .field aliasName name arguments directives selections => do
    let info := e.schema.fieldOrUnknown parent name
    let (children, left) ← nodes e enter visiting info.output [] left selections
    return (some (.field ⟨name, aliasName, arguments, directives, info, info.isList⟩ children),
      seen, left)
  | .inline condition directives selections => do
    let (children, left) ← nodes e enter visiting (condition.or parent) [] left selections
    return (some (.fragment ⟨condition, directives⟩ children), seen, left)
  | .spread name directives => do
    let f ← e.fragmentFor visiting name
    if directives.isEmpty && seen.contains name then return (none, seen, left)
    else
      let (children, left) ← enter f left
      return (some (.fragment ⟨some f.typeCondition, directives⟩ children),
        if directives.isEmpty then name :: seen else seen, left)

/-- Resolves selections one after the other. Each of them counts, also one that adds nothing. -/
def nodes (e : Expansion)
    (enter : FragmentDefinition → Nat → Except OperationError (List Node × Nat))
    (visiting : List String) (parent : Option String) (seen : List String) (left : Nat) :
    List Selection → Except OperationError (List Node × Nat)
  | [] => .ok ([], left)
  | selection :: rest =>
    match left with
    | 0 => .error (.limitExceeded e.options.maxSelections)
    | left + 1 => do
      let (found, seen, left) ← node e enter visiting parent seen left selection
      let (more, left) ← nodes e enter visiting parent seen left rest
      return (found.toList ++ more, left)

end

/-- Expands the body of a fragment. At most `depth` more fragments can be entered; when all of a
document have been, any further spread is cyclic and is refused before its body is looked at. -/
def enter (e : Expansion) : (depth : Nat) → (visiting : List String) → FragmentDefinition → Nat →
    Except OperationError (List Node × Nat)
  | 0, _, f, _ => .error (.cyclicFragment f.name)
  | depth + 1, visiting, f, left =>
    let visiting := f.name :: visiting
    e.nodes (e.enter depth visiting) visiting (some f.typeCondition) [] left f.selections

end Expansion

namespace Operation

def select (operations : List OperationDefinition) (name : Option String) :
    Except OperationError OperationDefinition :=
  match name with
  | some name =>
    match operations.find? (·.name == some name) with
    | some o => .ok o
    | none => .error (.operationNotFound name)
  | none =>
    match operations with
    | [] => .error .noOperation
    | [o] => .ok o
    | _ => .error .ambiguousOperation

def ofDefinition (e : Expansion) (o : OperationDefinition) : Except OperationError Operation :=
  match e.schema.root? o.kind with
  | none => .error (.missingRootType o.kind)
  | some root => do
    let enter := e.enter e.document.fragments.length []
    let (nodes, _) ← e.nodes enter [] (some root) [] e.options.maxSelections o.selections
    return ⟨o.kind, o.name, root, o.variableDefinitions, o.directives, nodes⟩

/-- The operation that a query text and an operation name ask for. An empty name is no name. -/
def read (text : String) (name : Option String) (schema : Schema) (options : ExpandOptions) :
    Except OperationError Operation := do
  match Document.read text with
  | .error e => .error (.malformed e)
  | .ok document =>
    let o ← select document.operations (name.filter (!·.isEmpty))
    ofDefinition ⟨schema, document, options⟩ o

end Operation

namespace OperationError

def message : OperationError → String
  | .malformed (.unexpected p) =>
    "Syntax error: query parse error: Parse error at " ++ p.text
  | .malformed (.torn message) => message
  | .noOperation => "Document does not contain any operation"
  | .operationNotFound name => "Operation '" ++ name ++ "' is not defined in the document"
  | .ambiguousOperation =>
    "An operation name is required when the document contains multiple operations"
  | .unknownFragment name => "Unknown fragment '" ++ name ++ "'"
  | .cyclicFragment name => "Fragment '" ++ name ++ "' spreads itself"
  | .spreadNotAllowed name =>
    "Fragment spread '..." ++ name ++ "' requires fragment de-referencing"
  | .limitExceeded limit =>
    "Operation expands to more than " ++ toString limit ++ " selections"
  | .missingRootType kind => "Schema does not define a " ++ kind.word ++ " root type"

end OperationError

end QueryGate
