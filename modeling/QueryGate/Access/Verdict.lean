import QueryGate.Access.Restrict

/-!
# Access rules and verdicts

Two predicates on fields say which fields require an authenticated caller, and which of them a given
caller may see. The verdict on an operation is what a caller may see of it, given the paths of its
fields that require authentication.
-/
namespace QueryGate

structure AccessRules (User : Type) where
  /-- The fields that require authentication. -/
  authentication : Option FieldTest
  /-- The fields that an authenticated caller is permitted. -/
  authorization : Option (User → FieldTest)

namespace AccessRules

variable {User : Type}

def empty : AccessRules User := ⟨none, none⟩

def unauthorized (restricted : FieldTest) (permitted : FieldTest) : FieldTest :=
  fun field children => restricted field children && !permitted field children

end AccessRules

inductive Verdict where
  /-- No selected field is restricted. -/
  | unrestricted
  /-- The caller may see every restricted field. -/
  | granted
  /-- Some fields are withheld; the operation is what remains. -/
  | filtered (operation : Operation) (withheld : List Path)
  /-- Fields would have to be withheld, but an operation is served as a whole or not at all. -/
  | rejected (paths : List Path)
  deriving DecidableEq

namespace AccessRules

variable {User : Type}

def restrictedPaths (rules : AccessRules User) (o : Operation) : List Path :=
  match rules.authentication with
  | some restricted => o.paths restricted
  | none => []

/-- Decides what a caller may see. Authentication alone is enough when nothing is said about
authorization, and a caller that is not authenticated sees no restricted field. -/
def decide (rules : AccessRules User) (o : Operation) (restrictedPaths : List Path)
    (user : Option User) (partialAccess : Bool) : Verdict :=
  match rules.authentication with
  | none => .unrestricted
  | some restricted =>
    if restrictedPaths.isEmpty then .unrestricted
    else
      match user, rules.authorization with
      | some user, some permitted =>
        let test := unauthorized restricted (permitted user)
        let withheld := o.paths test
        if withheld.isEmpty then .granted
        else if partialAccess then .filtered (o.restrict test.negate) withheld
        else .rejected withheld
      | some _, none => .granted
      | none, _ => .filtered (o.restrict restricted.negate) restrictedPaths

end AccessRules

end QueryGate
