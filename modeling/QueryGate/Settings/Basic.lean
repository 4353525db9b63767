import QueryGate.Json.Basic
import QueryGate.Text.Basic
import QueryGate.Text.LowerCase

/-!
# Settings

What the gate and its server are configured with, and the values that hold when nothing is said. The
name of a level or a format of log records is read in any case and with blanks around it.
-/
namespace QueryGate

inductive LogLevel where
  | trace
  | debug
  | info
  | warn
  | error
  deriving DecidableEq, Repr

inductive LogFormat where
  | prettyTree
  | prettyCompact
  | json
  deriving DecidableEq, Repr

namespace LogLevel

def all : List LogLevel := [.trace, .debug, .info, .warn, .error]

def name : LogLevel → String
  | .trace => "trace"
  | .debug => "debug"
  | .info => "info"
  | .warn => "warn"
  | .error => "error"

def ofName? (s : String) : Option LogLevel := all.find? (·.name == s)

def read? (s : String) : Option LogLevel := ofName? (Text.lower (Text.trim s))

def invalid (s : String) : String := "Invalid log level: " ++ s

end LogLevel

namespace LogFormat

def all : List LogFormat := [.prettyTree, .prettyCompact, .json]

def name : LogFormat → String
  | .prettyTree => "pretty-tree"
  | .prettyCompact => "pretty-compact"
  | .json => "json"

def ofName? (s : String) : Option LogFormat := all.find? (·.name == s)

def read? (s : String) : Option LogFormat := ofName? (Text.lower (Text.trim s))

def invalid (s : String) : String := "Invalid log format: " ++ s

end LogFormat

structure LogSettings where
  level : LogLevel := .debug
  format : LogFormat := .prettyCompact
  /-- A complete filter, which takes precedence over the level. -/
  filter : Option String := none
  deriving DecidableEq, Repr

structure HttpSettings where
  host : String := "127.0.0.1"
  port : Nat := 4000
  endpoint : String := "/graphql"
  deriving DecidableEq, Repr

structure SchemaSource where
  path : String := "schema.graphql"
  deriving DecidableEq, Repr

structure AnnotationNames where
  authenticated : String := "authenticated"
  role : String := "hasRole"
  deriving DecidableEq, Repr

structure AccessPolicy where
  paramsSlot : String := "params"
  partialAccess : Bool := true
  nullify : Bool := false
  continueAfterResponse : Bool := false
  annotations : AnnotationNames := {}
  deriving DecidableEq, Repr

structure TokenSettings where
  /-- Without a secret every caller is anonymous. -/
  secret : Option String := none
  header : String := "authorization"
  scheme : String := "Bearer "
  rolesClaim : String := "roles"
  deriving DecidableEq, Repr

structure Settings where
  log : LogSettings := {}
  http : HttpSettings := {}
  schema : SchemaSource := {}
  access : AccessPolicy := {}
  jwt : TokenSettings := {}
  deriving DecidableEq, Repr

namespace LogSettings

def envFilter (s : LogSettings) : String := s.filter.getD s.level.name

end LogSettings

namespace HttpSettings

def address (s : HttpSettings) : String := s.host ++ ":" ++ toString s.port

end HttpSettings

namespace TokenSettings

def secret? (s : TokenSettings) : Option String := s.secret.filter (!·.isEmpty)

def isEnabled (s : TokenSettings) : Bool := s.secret?.isSome

end TokenSettings

namespace Settings

def optional (name : String) (value : Option String) : List (String × Json) :=
  value.toList.map fun s => (name, .string s)

def toJson (s : Settings) : Json :=
  .object
    [("log", .object
      ([("level", .string s.log.level.name), ("format", .string s.log.format.name)] ++
        optional "filter" s.log.filter)),
     ("http", .object
      [("host", .string s.http.host), ("port", .int s.http.port),
       ("graphql_endpoint", .string s.http.endpoint)]),
     ("schema", .object [("source", .string "file"), ("path", .string s.schema.path)]),
     ("access", .object
      [("params_slot", .string s.access.paramsSlot),
       ("partial_access", .bool s.access.partialAccess),
       ("nullify_unauthorized_fields", .bool s.access.nullify),
       ("continue_after_response", .bool s.access.continueAfterResponse),
       ("annotations", .object
        [("authenticated", .string s.access.annotations.authenticated),
         ("role", .string s.access.annotations.role)])]),
     ("jwt", .object
      (optional "secret" s.jwt.secret ++
        [("header", .string s.jwt.header), ("prefix", .string s.jwt.scheme),
         ("roles_claim", .string s.jwt.rolesClaim)]))]

end Settings

end QueryGate
