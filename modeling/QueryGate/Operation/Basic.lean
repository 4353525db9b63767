import QueryGate.GraphQL.Value
import QueryGate.Json.Basic
import QueryGate.Schema
import QueryGate.Text.Basic

/-!
# Operations

The operation of a request with every field resolved against the schema. It is a tree of fields and
inline fragments; spreads of named fragments have been replaced by inline ones.
-/
namespace QueryGate

open GraphQL (Argument Directive OperationKind VariableDefinition)

/-- A field without the selections below it. -/
structure Field where
  name : String
  aliasName : Option String
  arguments : List Argument
  directives : List Directive
  info : FieldInfo
  /-- The response holds a list at the key of the field. -/
  isList : Bool
  deriving DecidableEq

structure Fragment where
  typeCondition : Option String
  directives : List Directive
  deriving DecidableEq

inductive Node where
  | field (head : Field) (children : List Node)
  | fragment (head : Fragment) (children : List Node)

structure Operation where
  kind : OperationKind
  name : Option String
  root : String
  variableDefinitions : List VariableDefinition
  directives : List Directive
  nodes : List Node

namespace Field

def key (f : Field) : String := f.aliasName.getD f.name

def variableNames (f : Field) : List String :=
  Argument.variableNames f.arguments ++ Directive.variableNames f.directives

end Field

namespace Fragment

def variableNames (f : Fragment) : List String := Directive.variableNames f.directives

end Fragment

namespace Node

mutual

def variableNames : Node → List String
  | .field head children => head.variableNames ++ listVariables children
  | .fragment head children => head.variableNames ++ listVariables children

def listVariables : List Node → List String
  | [] => []
  | node :: rest => node.variableNames ++ listVariables rest

end

mutual

def same : Node → Node → Bool
  | .field f cs, .field g ds => f == g && sameList cs ds
  | .fragment f cs, .fragment g ds => f == g && sameList cs ds
  | _, _ => false

def sameList : List Node → List Node → Bool
  | [], [] => true
  | a :: as, b :: bs => same a b && sameList as bs
  | _, _ => false

end

mutual

theorem same_iff : ∀ a b : Node, same a b = true ↔ a = b
  | .field f cs, b => by cases b <;> simp [same, sameList_iff cs]
  | .fragment f cs, b => by cases b <;> simp [same, sameList_iff cs]

theorem sameList_iff : ∀ as bs : List Node, sameList as bs = true ↔ as = bs
  | [], bs => by cases bs <;> simp [sameList]
  | a :: as, bs => by cases bs <;> simp [sameList, same_iff a, sameList_iff as]

end

instance : DecidableEq Node := fun a b => decidable_of_iff _ (same_iff a b)

end Node

deriving instance DecidableEq for Operation

namespace Operation

def isEmpty (o : Operation) : Bool := o.nodes.isEmpty

end Operation

/-! Paths to fields

A path names a place in a response by the keys that lead to it, joined by dots. A segment may carry
a type behind a colon, which tells fields of different types apart and is no part of the key. -/

structure Path where
  property : String
  deriving DecidableEq, Repr, Inhabited

namespace Path

def separator : Char := '.'
def typeMark : Char := ':'

def keyChars (segment : List Char) : List Char := segment.takeWhile (· != typeMark)

def keys (p : Path) : List String :=
  (Text.pieces separator p.property.toList).map fun segment => String.ofList (keyChars segment)

/-- The path of a key below another path; the root has an empty property. -/
def child (parent : String) (key : String) (type : Option String) : String :=
  let stem := if parent.isEmpty then key else parent ++ "." ++ key
  match type with
  | none => stem
  | some t => stem ++ ":" ++ t

def toJson (p : Path) : Json := .object [("property", .string p.property)]

end Path

end QueryGate
