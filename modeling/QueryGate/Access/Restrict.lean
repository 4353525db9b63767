import QueryGate.Operation.Basic

/-!
# Fields that pass a test

The paths of the fields that pass a test, in document order and each once; the walk goes on below a
field whatever the test says about it. And the restriction of an operation, in which only the fields
that pass stay: a field that fails takes everything below it along, and what is left without any
selection goes as well. Variable definitions stay as long as they are used.
-/
namespace QueryGate

open GraphQL (Directive)

/-- A property of a field together with the selections below it. -/
abbrev FieldTest := Field → List Node → Bool

namespace FieldTest

def negate (t : FieldTest) : FieldTest := fun field children => !t field children

def annotated (name : String) : FieldTest := fun field _ => field.info.isAnnotated name

def annotatedAny (names : List String) : FieldTest := fun field _ =>
  names.any field.info.isAnnotated

def granted (name : String) (check : Option String → Bool) : FieldTest := fun field _ =>
  match field.info.annotation? name with
  | some annotation => check annotation.body
  | none => true

end FieldTest

namespace Node

/-- The type that marks the fields of an inline fragment. A condition that is the type of the
enclosing selections tells nothing apart. -/
def markedType (parent type : Option String) (f : Fragment) : Option String :=
  match f.typeCondition with
  | some t => if some t = parent then type else some t
  | none => type

mutual

/-- The properties of the fields at and below a node that pass a test, with repetitions. `stem` is
the path of the enclosing field, `parent` its output type, and `type` marks the fields of the
fragments in between. -/
def properties (test : FieldTest) (stem : String) (parent type : Option String) :
    Node → List String
  | .field head children =>
    let property := Path.child stem head.key type
    let below := listProperties test property head.info.output none children
    if test head children then property :: below else below
  | .fragment head children =>
    listProperties test stem parent (markedType parent type head) children

def listProperties (test : FieldTest) (stem : String) (parent type : Option String) :
    List Node → List String
  | [] => []
  | node :: rest =>
    node.properties test stem parent type ++ listProperties test stem parent type rest

end

end Node

def Operation.paths (o : Operation) (test : FieldTest) : List Path :=
  (Node.listProperties test "" (some o.root) none o.nodes).eraseDups.map Path.mk

namespace Node

mutual

def restrict (keep : FieldTest) : Node → Option Node
  | .field head children =>
    if keep head children then
      if children.isEmpty then some (.field head [])
      else
        let kept := restrictList keep children
        if kept.isEmpty then none else some (.field head kept)
    else none
  | .fragment head children =>
    let kept := restrictList keep children
    if kept.isEmpty then none else some (.fragment head kept)

def restrictList (keep : FieldTest) : List Node → List Node
  | [] => []
  | node :: rest =>
    match node.restrict keep with
    | some kept => kept :: restrictList keep rest
    | none => restrictList keep rest

end

end Node

namespace Operation

def usedVariables (o : Operation) : List String :=
  Directive.variableNames o.directives ++ Node.listVariables o.nodes

def pruneVariables (o : Operation) : Operation :=
  { o with variableDefinitions := o.variableDefinitions.filter (o.usedVariables.contains ·.name) }

def restrict (o : Operation) (keep : FieldTest) : Operation :=
  pruneVariables { o with nodes := Node.restrictList keep o.nodes }

end Operation

end QueryGate
