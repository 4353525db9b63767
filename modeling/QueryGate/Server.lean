import QueryGate.Gate.Process
import QueryGate.Settings.Basic
import QueryGate.Token.Authenticator

/-!
# The server

A server that shows what the gate makes of a request in place of executing it. It answers on two
paths: that of the endpoint, and one that tells that the server is alive.
-/
namespace QueryGate

inductive ServerError where
  | token (cause : TokenSetupError)
  | gate (cause : SetupError)
  deriving DecidableEq, Repr

structure Server where
  gate : Gate User
  settings : Settings

structure Incoming where
  method : String
  path : String
  headers : List Header
  body : List UInt8

structure Answer where
  status : Nat
  contentType : Option String
  body : String
  deriving DecidableEq, Repr

namespace ServerError

def message : ServerError → String
  | .token cause => "failed to configure jwt authentication: " ++ cause.message
  | .gate cause => "failed to configure field guard: " ++ cause.message

end ServerError

namespace Server

/-- Without a secret nobody is authenticated. -/
def authenticatorOf (s : TokenSettings) (now : Nat) : Except TokenSetupError (Authenticator User) :=
  if s.isEnabled then do return (← TokenAuthenticator.ofSettings s).authenticator now
  else .ok fun _ => .anonymous

/-- The rules on fields: either annotation requires authentication, and the body of the role
annotation lists the roles that permit a field. -/
def rulesOf (names : AnnotationNames) : AccessRules User :=
  { authentication := some (FieldTest.annotatedAny [names.authenticated, names.role])
    authorization := some fun u => FieldTest.granted names.role u.satisfies }

def ofSettings (schema : Schema) (s : Settings) (now : Nat) : Except ServerError Server :=
  match authenticatorOf s.jwt now with
  | .error e => .error (.token e)
  | .ok authenticator =>
    let gate := (Gate.start schema authenticator).withPolicy s.access
    match { gate with rules := rulesOf s.access.annotations }.checked with
    | .error e => .error (.gate e)
    | .ok gate => .ok ⟨gate, s⟩

/-- What stands for the execution of an operation: the context that was attached to the request. -/
def report (c : Context) : Json :=
  .object
    (("graphql", c.toJson) ::
      c.nullPaths?.toList.map fun paths => ("nullifiedPaths", .array (paths.map Path.toJson)))

/-- Answers with the attached context, unless an answer was given already. -/
def dryRun (x : Exchange) : Exchange :=
  if x.response.isSent then x
  else
    match x.request.context with
    | some c => { x with response := x.response.sendJson 200 (report c) }
    | none => { x with response := x.response.sendError .missingOperation }

def run (s : Server) (headers : List Header) (body : List UInt8) : Response :=
  match Params.decode body with
  | .error e => Response.fresh.sendError (.malformedBody e)
  | .ok params =>
    let request := { Request.fresh with headers }.setParams s.gate.options.paramsSlot params
    let next (x : Exchange) : Id Exchange := dryRun x
    (s.gate.handle next ⟨request, .fresh⟩).run.2.response

def healthPath : String := "/health"

def barePath (path : String) : String := String.ofList (path.toList.takeWhile (· != '?'))

def answer (s : Server) (i : Incoming) : Answer :=
  let path := barePath i.path
  if path = s.settings.http.endpoint ∧ i.method = "POST" then
    let r := s.run i.headers i.body
    ⟨r.status, some "application/json", r.body.getD ""⟩
  else if path = healthPath then ⟨200, none, ""⟩
  else ⟨404, none, ""⟩

end Server

end QueryGate
