import QueryGate.Access.Verdict
import QueryGate.Identity
import QueryGate.Operation.Expand
import QueryGate.Operation.Printer
import QueryGate.Settings.Basic

/-!
# Setting up a gate

A gate is set up with a schema, an authenticator, rules and options, and with a reader and a printer
of operations, which may fail or crash. A setup that cannot work is refused.
-/
namespace QueryGate

inductive ReadFault where
  | error (e : OperationError)
  | crash (c : Crash)

abbrev OperationReader :=
  String → Option String → Schema → ExpandOptions → Except ReadFault Operation

abbrev OperationPrinter := Operation → Except Crash String

structure GateOptions where
  paramsSlot : String
  partialAccess : Bool
  nullify : Bool
  continueAfterResponse : Bool
  expansion : ExpandOptions
  deriving DecidableEq, Repr

structure Gate (User : Type) where
  schema : Schema
  authenticator : Authenticator User
  reader : OperationReader
  printer : OperationPrinter
  rules : AccessRules User
  options : GateOptions

inductive SetupError where
  | emptyParamsSlot
  | authorizationWithoutAuthentication
  deriving DecidableEq, Repr

namespace ReadFault

/-- A string that has no value makes the reader break off. -/
def ofError : OperationError → ReadFault
  | .malformed (.torn message) => .crash (.text message)
  | e => .error e

end ReadFault

namespace OperationReader

def standard : OperationReader := fun text name schema options =>
  (Operation.read text name schema options).mapError ReadFault.ofError

end OperationReader

namespace OperationPrinter

def compact : OperationPrinter := fun o => .ok o.text

end OperationPrinter

namespace GateOptions

def ofPolicy (p : AccessPolicy) (expansion : ExpandOptions) : GateOptions :=
  { paramsSlot := p.paramsSlot
    partialAccess := p.partialAccess
    nullify := p.nullify
    continueAfterResponse := p.continueAfterResponse
    expansion }

end GateOptions

namespace SetupError

def message : SetupError → String
  | .emptyParamsSlot => "The parameter slot name must not be empty"
  | .authorizationWithoutAuthentication =>
    "authorization_fields requires authentication_fields to be configured"

end SetupError

namespace Gate

variable {User : Type}

def start (schema : Schema) (authenticator : Authenticator User) : Gate User :=
  { schema, authenticator
    reader := .standard
    printer := .compact
    rules := .empty
    options := .ofPolicy {} .standard }

def requireAuthentication (g : Gate User) (test : FieldTest) : Gate User :=
  { g with rules := { g.rules with authentication := some test } }

def requireAuthorization (g : Gate User) (permitted : User → FieldTest) : Gate User :=
  { g with rules := { g.rules with authorization := some permitted } }

/-- Takes over all options of a policy; how operations are expanded stays as it was. -/
def withPolicy (g : Gate User) (p : AccessPolicy) : Gate User :=
  { g with options := .ofPolicy p g.options.expansion }

/-- The gate itself, if it can work. An authenticated caller must be required before anything is
asked of that caller. -/
def checked (g : Gate User) : Except SetupError (Gate User) :=
  if g.options.paramsSlot.isEmpty then .error .emptyParamsSlot
  else if g.rules.authorization.isSome && g.rules.authentication.isNone then
    .error .authorizationWithoutAuthentication
  else .ok g

end Gate

end QueryGate
