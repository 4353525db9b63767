import QueryGate.Operation.Basic
import QueryGate.Params

/-!
# Requests

An incoming request has headers, named slots with parameters, and the place where the gate puts what
is to be executed: a query, or the denial of one.
-/
namespace QueryGate

structure Notice where
  message : String
  paths : List Path

structure GuardedQuery where
  query : String
  variableValues : Option Json
  operationName : Option String
  warnings : List Notice
  /-- The paths at which the response gets nulls. -/
  nullPaths : Option (List Path)

/-- Every requested field was withheld. The query selects nothing. -/
structure DeniedQuery where
  query : String
  errors : List Notice

inductive Context where
  | query (q : GuardedQuery)
  | denied (d : DeniedQuery)

structure Header where
  name : String
  value : List UInt8
  deriving DecidableEq

structure Request where
  headers : List Header
  slots : Record Params
  context : Option Context

namespace Notice

def toJson (n : Notice) : Json :=
  .object [("message", .string n.message), ("path", .array (n.paths.map (.string ·.property)))]

end Notice

namespace Context

def toJson : Context → Json
  | .query q => .object
      ([("query", .string q.query)] ++
        q.variableValues.toList.map (("variables", ·)) ++
        q.operationName.toList.map (("operationName", .string ·)) ++
        (if q.warnings.isEmpty then []
         else [("warnings", .array (q.warnings.map Notice.toJson))]))
  | .denied d => .object
      [("query", .string d.query), ("errors", .array (d.errors.map Notice.toJson))]

def nullPaths? : Context → Option (List Path)
  | .query q => q.nullPaths
  | .denied _ => none

end Context

namespace Request

def fresh : Request := ⟨[], [], none⟩

def setParams (r : Request) (slot : String) (p : Params) : Request :=
  { r with slots := Record.insert slot p r.slots }

def params? (r : Request) (slot : String) : Option Params := Record.get? r.slots slot

def header? (r : Request) (name : String) : Option (List UInt8) :=
  (r.headers.find? (·.name == name)).map (·.value)

end Request

end QueryGate
