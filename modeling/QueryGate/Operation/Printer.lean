import QueryGate.Operation.Basic

/-!
# Compact operation text

Selections are separated by a single space and nothing else is spaced out. A query without a name,
variables and directives is written as its selections alone.
-/
namespace QueryGate

open GraphQL (Argument Directive VariableDefinition joined)

namespace Field

def chars (f : Field) : List Char :=
  (match f.aliasName with
   | none => []
   | some a => a.toList ++ [':']) ++
    f.name.toList ++ Argument.listChars f.arguments ++ f.directives.flatMap Directive.chars

end Field

namespace Fragment

def chars (f : Fragment) : List Char :=
  "...".toList ++
    (match f.typeCondition with
     | none => []
     | some t => "on ".toList ++ t.toList) ++
    f.directives.flatMap Directive.chars

end Fragment

namespace Node

def inBraces (texts : List (List Char)) : List Char := '\x7b' :: joined ' ' texts ++ ['\x7d']

mutual

/-- A field shows its selections only if it has some; an inline fragment always does. -/
def chars : Node → List Char
  | .field head children =>
    head.chars ++ (if children.isEmpty then [] else inBraces (listChars children))
  | .fragment head children => head.chars ++ inBraces (listChars children)

def listChars : List Node → List (List Char)
  | [] => []
  | node :: rest => node.chars :: listChars rest

end

end Node

namespace Operation

def isShorthand (o : Operation) : Bool :=
  o.kind == .query && o.name.isNone && o.variableDefinitions.isEmpty && o.directives.isEmpty

def headerChars (o : Operation) : List Char :=
  o.kind.word.toList ++
    (match o.name with
     | none => []
     | some n => ' ' :: n.toList) ++
    (if o.variableDefinitions.isEmpty then []
     else '(' :: joined ',' (o.variableDefinitions.map VariableDefinition.chars) ++ [')']) ++
    o.directives.flatMap Directive.chars

def chars (o : Operation) : List Char :=
  (if o.isShorthand then [] else o.headerChars) ++ Node.inBraces (Node.listChars o.nodes)

/-- The text of an operation. The same operation can be read from it again if none of its values is
a float and its brackets are not nested too deep. -/
def text (o : Operation) : String := String.ofList o.chars

end Operation

end QueryGate
