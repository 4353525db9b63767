import QueryGate.Json.Shape
import QueryGate.Operation.Basic

/-!
# Response payloads

Fields that were withheld from an operation come back as explicit nulls: every object that a path
leads to receives the next key of the path with the value null, unless it has that key already.
Lists on the way are passed through at any nesting, and nothing that is present changes.
-/
namespace QueryGate

namespace Json

mutual

/-- Completes a value along the keys of one path. -/
def complete (keys : List String) : Json → Json
  | .array items => .array (completeItems keys items)
  | .object members =>
    match keys with
    | [] => .object members
    | key :: rest =>
      if members.any (·.1 == key) then .object (completeMember key rest members)
      else .object (Record.insert key .null members)
  | other => other

def completeItems (keys : List String) : List Json → List Json
  | [] => []
  | item :: rest => complete keys item :: completeItems keys rest

def completeMember (key : String) (keys : List String) :
    List (String × Json) → List (String × Json)
  | [] => []
  | (name, value) :: rest =>
    (name, if name == key then complete keys value else value) :: completeMember key keys rest

end

def fillNulls (paths : List Path) (data : Json) : Json :=
  paths.foldl (fun data p => complete p.keys data) data

end Json

structure Payload where
  data : Option Json
  errors : Option (List Json)
  extensions : Option Json

namespace Payload

def fillNulls (paths : List Path) (p : Payload) : Payload :=
  { p with data := p.data.map (Json.fillNulls paths) }

def shape : Json.Shape Payload :=
  Json.Shape.fieldsOf "struct ResponsePayload"
    [("data", fun j p => do return { p with data := ← Json.Shape.optional .any j }),
     ("errors", fun j p => do return { p with errors := ← Json.Shape.optional .list j }),
     ("extensions", fun j p => do return { p with extensions := ← Json.Shape.optional .any j })]
    false ⟨none, none, none⟩

def toJson (p : Payload) : Json :=
  .object (p.data.toList.map (("data", ·)) ++ p.errors.toList.map (("errors", .array ·)) ++
    p.extensions.toList.map (("extensions", ·)))

end Payload

end QueryGate
