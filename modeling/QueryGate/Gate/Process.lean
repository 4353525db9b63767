import QueryGate.Gate.Setup
import QueryGate.Response

/-!
# Processing requests

The gate reads the operation of a request, decides what its caller may see of it, and attaches to
the request what is to be executed. What goes wrong on the way is answered with an error.
-/
namespace QueryGate

structure Exchange where
  request : Request
  response : Response

inductive Outcome where
  | passThrough
  | attached
  | responded
  deriving DecidableEq, Repr

namespace Gate

variable {User : Type}

def emptyQuery : String := "query\x7b\x7d"

def deniedMessage : String := "Access denied."

def withheldMessage : String :=
  "Some requested fields were removed because the caller is not allowed to see them."

def queryText? (p : Params) : Option String := p.query.filter (!Text.isAllBlank ·)

def guarded (g : Gate User) (p : Params) (query : String) (withheld : List Path) : Context :=
  .query
    { query
      variableValues := p.variableValues
      operationName := p.operationName
      warnings := if withheld.isEmpty then [] else [⟨withheldMessage, withheld⟩]
      nullPaths := if !withheld.isEmpty && g.options.nullify then some withheld else none }

def printed (g : Gate User) (o : Operation) : Except GateError String :=
  match g.printer o with
  | .ok text => .ok text
  | .error crash => .error (.unexpected crash.message)

def contextOf (g : Gate User) (p : Params) (query : String) (o : Operation)
    (restrictedPaths : List Path) : Verdict → Except GateError Context
  | .unrestricted => return g.guarded p query []
  | .granted => return g.guarded p (← g.printed o) []
  | .rejected _ => .error .accessDenied
  | .filtered rest withheld =>
    if rest.isEmpty then
      return .denied ⟨emptyQuery, [⟨deniedMessage, restrictedPaths⟩]⟩
    else return g.guarded p (← g.printed rest) withheld

def readOperation (g : Gate User) (p : Params) (query : String) : Except GateError Operation :=
  match g.reader query p.operationName g.schema g.options.expansion with
  | .ok o => .ok o
  | .error (.error e) => .error (.malformedOperation e)
  | .error (.crash c) => .error (.unexpected c.message)

/-- What is to be executed for a request, if it carries a query. Without partial access a caller
has to be authenticated. -/
def context (g : Gate User) (r : Request) : Except GateError (Option Context) :=
  match r.params? g.options.paramsSlot with
  | none => .ok none
  | some p =>
    match queryText? p with
    | none => .ok none
    | some query => do
      let o ← g.readOperation p query
      let restrictedPaths := g.rules.restrictedPaths o
      let user := (g.authenticator.run r).user?
      if !g.options.partialAccess && user.isNone then throw .accessDenied
      let verdict := g.rules.decide o restrictedPaths user g.options.partialAccess
      return some (← g.contextOf p query o restrictedPaths verdict)

def process (g : Gate User) (x : Exchange) : Outcome × Exchange :=
  match g.context x.request with
  | .ok (some context) =>
    (.attached, { x with request := { x.request with context := some context } })
  | .ok none => (.passThrough, x)
  | .error e => (.responded, { x with response := x.response.sendError e })

/-- Takes a request through the gate and hands it to the next handler, which is left out after an
error unless the gate is to continue even then. -/
def handle {m : Type → Type} [Monad m] (g : Gate User) (next : Exchange → m Exchange)
    (x : Exchange) : m (Outcome × Exchange) := do
  let (outcome, x) := g.process x
  if outcome != .responded || g.options.continueAfterResponse then
    return (outcome, ← next x)
  else return (outcome, x)

end Gate

end QueryGate
