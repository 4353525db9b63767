import QueryGate.Settings.Basic

/-!
# Reading settings

Settings are read in the same way from different kinds of values. A dialect says how one kind of
value is read as a text, a flag and so on; the fields of the settings and their names are the same
in all of them.
-/
namespace QueryGate

/-- How values of a kind `V` are read; `E` says why one cannot be. -/
structure Dialect (V E : Type) where
  text : V → Except E String
  flag : V → Except E Bool
  port : V → Except E Nat
  optionalText : V → Except E (Option String)
  /-- One of some names, which belong to a titled enumeration. -/
  choice : (title : String) → (names : List String) → V → Except E String
  /-- A titled structure with no other fields than the given ones, starting from a value. -/
  fields : {σ : Type} → (title : String) → List (String × (V → σ → Except E σ)) → σ → V → Except E σ
  /-- A structure whose member `source` names the kind of its other members. -/
  source : V → Except E SchemaSource

namespace Dialect

variable {V E : Type} (d : Dialect V E)

def textField {σ : Type} (set : String → σ → σ) : V → σ → Except E σ :=
  fun v s => return set (← d.text v) s

def flagField {σ : Type} (set : Bool → σ → σ) : V → σ → Except E σ :=
  fun v s => return set (← d.flag v) s

def log : V → Except E LogSettings :=
  d.fields "struct LoggingConfig"
    [("level", fun v s => do
        let name ← d.choice "LogLevel" (LogLevel.all.map (·.name)) v
        return { s with level := (LogLevel.ofName? name).getD s.level }),
     ("format", fun v s => do
        let name ← d.choice "LogFormat" (LogFormat.all.map (·.name)) v
        return { s with format := (LogFormat.ofName? name).getD s.format }),
     ("filter", fun v s => return { s with filter := ← d.optionalText v })]
    {}

def http : V → Except E HttpSettings :=
  d.fields "struct HttpServerConfig"
    [("host", d.textField fun x s => { s with host := x }),
     ("port", fun v s => return { s with port := ← d.port v }),
     ("graphql_endpoint", d.textField fun x s => { s with endpoint := x })]
    {}

def annotations : V → Except E AnnotationNames :=
  d.fields "struct AnnotationsConfig"
    [("authenticated", d.textField fun x s => { s with authenticated := x }),
     ("role", d.textField fun x s => { s with role := x })]
    {}

def access : V → Except E AccessPolicy :=
  d.fields "struct AccessPolicyConfig"
    [("params_slot", d.textField fun x s => { s with paramsSlot := x }),
     ("partial_access", d.flagField fun x s => { s with partialAccess := x }),
     ("nullify_unauthorized_fields", d.flagField fun x s => { s with nullify := x }),
     ("continue_after_response", d.flagField fun x s => { s with continueAfterResponse := x }),
     ("annotations", fun v s => return { s with annotations := ← d.annotations v })]
    {}

def jwt : V → Except E TokenSettings :=
  d.fields "struct JwtAuthConfig"
    [("secret", fun v s => return { s with secret := ← d.optionalText v }),
     ("header", d.textField fun x s => { s with header := x }),
     ("prefix", d.textField fun x s => { s with scheme := x }),
     ("roles_claim", d.textField fun x s => { s with rolesClaim := x })]
    {}

def settings : V → Except E Settings :=
  d.fields "struct FieldGuardConfig"
    [("log", fun v s => return { s with log := ← d.log v }),
     ("http", fun v s => return { s with http := ← d.http v }),
     ("schema", fun v s => return { s with schema := ← d.source v }),
     ("access", fun v s => return { s with access := ← d.access v }),
     ("jwt", fun v s => return { s with jwt := ← d.jwt v })]
    {}

end Dialect

end QueryGate
