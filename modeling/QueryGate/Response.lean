import QueryGate.Operation.Expand
import QueryGate.Params

/-!
# Responses

The outgoing response of an exchange and the errors that are written into it. An error is answered
with a list of one message, which ends with what caused it.
-/
namespace QueryGate

structure Response where
  status : Nat
  headers : Record String
  body : Option String
  deriving DecidableEq, Repr

inductive GateError where
  | accessDenied
  | malformedBody (cause : ParamsError)
  | missingOperation
  | malformedOperation (cause : OperationError)
  | unexpected (message : String)

namespace Response

def fresh : Response := ⟨200, [], none⟩

def isSent (r : Response) : Bool := r.body.isSome

def contentType : String := "content-type"

def sendJson (r : Response) (status : Nat) (body : Json) : Response :=
  { r with
    status
    headers := Record.insert contentType "application/json" r.headers
    body := some body.text }

end Response

namespace GateError

def status : GateError → Nat
  | .accessDenied => 403
  | .malformedBody _ | .missingOperation => 400
  | .malformedOperation _ | .unexpected _ => 500

def causedBy (message cause : String) : String := message ++ "\ncaused by: " ++ cause

def message : GateError → String
  | .accessDenied => "Access denied."
  | .malformedBody cause => causedBy "Failed to parse GraphQL request payload" cause.message
  | .missingOperation => "Request does not contain a GraphQL operation"
  | .malformedOperation cause => causedBy "Failed to parse GraphQL operation" cause.message
  | .unexpected message => "Unexpected error: " ++ message

def toJson (e : GateError) : Json :=
  .object [("errors", .array [.object [("message", .string e.message)]])]

end GateError

namespace Response

def sendErrorWithStatus (r : Response) (status : Nat) (e : GateError) : Response :=
  r.sendJson status e.toJson

def sendError (r : Response) (e : GateError) : Response := r.sendErrorWithStatus e.status e

end Response

end QueryGate
