import QueryGate.GraphQL.Document
import QueryGate.GraphQL.TypeSystem

/-!
# Annotated schemas

A schema is what its definitions and extensions contribute to the types, in the order of the text.
Directives become annotations, which rules about access look at. Of a field that a type declares
more than once the last declaration counts; annotations add up.
-/
namespace QueryGate

open GraphQL (Directive FieldDefinition TypeDefinition TypeRef TypeSystemDefinition Value)

structure Annotation where
  name : String
  body : Option String
  deriving DecidableEq, Repr

namespace Annotation

def listTexts? : Value → Option (List String)
  | .list items => items.mapM (·.string?)
  | _ => none

/-- The body of a directive with a single string is that string, with a single list of strings the
items joined by commas, and otherwise the text of its arguments. -/
def bodyOf : List GraphQL.Argument → Option String
  | [] => none
  | [(name, value)] =>
    match value.string?, listTexts? value with
    | some s, _ => some s
    | none, some texts => some (String.intercalate "," texts)
    | none, none => some (String.ofList (GraphQL.Argument.chars (name, value)))
  | arguments => some (String.ofList (GraphQL.joined ',' (arguments.map GraphQL.Argument.chars)))

def ofDirective (d : Directive) : Annotation := ⟨d.name, bodyOf d.arguments⟩

end Annotation

/-- What a schema says about a field; all of it is empty for a field that the schema does not
describe. -/
structure FieldInfo where
  parent : Option String
  output : Option String
  isList : Bool
  isNonNull : Bool
  annotations : List Annotation
  typeAnnotations : List Annotation
  deriving DecidableEq, Repr

namespace FieldInfo

def unknown : FieldInfo := ⟨none, none, false, false, [], []⟩

/-- The annotation of a name, on the field first and then on its output type. -/
def annotation? (i : FieldInfo) (name : String) : Option Annotation :=
  (i.annotations ++ i.typeAnnotations).find? (·.name == name)

def isAnnotated (i : FieldInfo) (name : String) : Bool := (i.annotation? name).isSome

end FieldInfo

structure Contribution where
  type : String
  annotations : List Annotation
  fields : List FieldDefinition

structure Schema where
  query : String
  mutation : Option String
  subscription : Option String
  contributions : List Contribution

inductive SchemaError where
  | malformed (error : GraphQL.TextError)
  | missingQueryType
  deriving DecidableEq, Repr

namespace Contribution

def ofType (t : TypeDefinition) : Contribution :=
  ⟨t.name, t.directives.map Annotation.ofDirective, t.fields⟩

/-- A definition of any kind contributes; of the extensions only those of objects and interfaces. -/
def ofDefinition? : TypeSystemDefinition → Option Contribution
  | .type t => some (ofType t)
  | .extension t =>
    match t.kind with
    | .object | .interface => some (ofType t)
    | _ => none
  | _ => none

end Contribution

namespace Schema

def declaredRoots (definitions : List TypeSystemDefinition) :
    Option String × Option String × Option String :=
  (definitions.reverse.findSome? fun
    | .schema query mutation subscription => some (query, mutation, subscription)
    | _ => none).getD (none, none, none)

def contributionsOf (definitions : List TypeSystemDefinition) : List Contribution :=
  definitions.filterMap Contribution.ofDefinition?

def declares (contributions : List Contribution) (type : String) : Bool :=
  contributions.any (·.type == type)

/-- The root type of an operation is the declared one, or else the type of the usual name. -/
def rootOr (declared : Option String) (contributions : List Contribution) (usual : String) :
    Option String :=
  declared.or (if declares contributions usual then some usual else none)

def ofDefinitions (definitions : List TypeSystemDefinition) : Except SchemaError Schema :=
  let (query, mutation, subscription) := declaredRoots definitions
  let contributions := contributionsOf definitions
  match rootOr query contributions "Query" with
  | none => .error .missingQueryType
  | some query =>
    .ok
      { query
        mutation := rootOr mutation contributions "Mutation"
        subscription := rootOr subscription contributions "Subscription"
        contributions }

def read (text : String) : Except SchemaError Schema := do
  match TypeSystemDefinition.readAll text with
  | .ok definitions => ofDefinitions definitions
  | .error e => .error (.malformed e)

def annotationsOf (s : Schema) (type : String) : List Annotation :=
  (s.contributions.filter (·.type == type)).flatMap (·.annotations)

def fieldsOf (s : Schema) (type : String) : List FieldDefinition :=
  (s.contributions.filter (·.type == type)).flatMap (·.fields)

def field? (s : Schema) (type name : String) : Option FieldInfo :=
  ((s.fieldsOf type).reverse.find? (·.name == name)).map fun f =>
    let output := f.type.baseName
    { parent := some type
      output := some output
      isList := f.type.isList
      isNonNull := f.type.isNonNull
      annotations := f.directives.map Annotation.ofDirective
      typeAnnotations := s.annotationsOf output }

def fieldOrUnknown (s : Schema) (type : Option String) (name : String) : FieldInfo :=
  (type.bind (s.field? · name)).getD .unknown

def root? (s : Schema) : GraphQL.OperationKind → Option String
  | .query => some s.query
  | .mutation => s.mutation
  | .subscription => s.subscription

end Schema

namespace SchemaError

def message : SchemaError → String
  | .malformed (.unexpected p) =>
    "Failed to parse schema SDL: schema parse error: Parse error at " ++ p.text
  | .malformed (.torn message) => message
  | .missingQueryType => "Schema does not define a query root type"

end SchemaError

end QueryGate
