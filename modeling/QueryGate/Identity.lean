import QueryGate.Gate.Request
import QueryGate.Text.Basic

/-!
# Callers

An authenticator names the caller of a request, says that there is none, fails, or crashes. A caller
counts as authenticated only in the first case. An authenticated caller has roles and perhaps a
subject. A role annotation lists, separated by commas, the roles of which a caller needs one.
-/
namespace QueryGate

structure User where
  subject : Option String
  roles : List String
  deriving DecidableEq, Repr

namespace User

def hasRole (u : User) (role : String) : Bool := u.roles.contains role

/-- The roles that the body of an annotation lists. Blanks around a role do not count, and neither
does an empty role. -/
def listedRoles (body : String) : List String :=
  ((Text.split ',' body).map Text.trim).filter (!·.isEmpty)

/-- An annotation without a body asks for an authenticated caller only. -/
def satisfies (u : User) : Option String → Bool
  | none => true
  | some body => (listedRoles body).any u.hasRole

end User

inductive Crash where
  | text (message : String)
  | silent
  deriving DecidableEq, Repr

inductive AuthenticationError where
  | invalidCredentials (reason : String)
  | crashed (message : String)
  | other (message : String)
  deriving DecidableEq, Repr

inductive Attempt (User : Type) where
  | user (u : User)
  | anonymous
  | failed (error : AuthenticationError)
  | crashed (crash : Crash)

inductive Authentication (User : Type) where
  | authenticated (u : User)
  | anonymous
  | failed (error : AuthenticationError)

abbrev Authenticator (User : Type) := Request → Attempt User

namespace Crash

def message : Crash → String
  | .text message => message
  | .silent => "unknown panic"

end Crash

namespace AuthenticationError

def message : AuthenticationError → String
  | .invalidCredentials reason => "Invalid credentials: " ++ reason
  | .crashed message => "Authenticator panicked: " ++ message
  | .other message => message

end AuthenticationError

variable {User : Type}

/-- A crash is a failure like any other. -/
def Authenticator.run (a : Authenticator User) (r : Request) : Authentication User :=
  match a r with
  | .user u => .authenticated u
  | .anonymous => .anonymous
  | .failed e => .failed e
  | .crashed c => .failed (.crashed c.message)

namespace Authentication

def user? : Authentication User → Option User
  | .authenticated u => some u
  | _ => none

end Authentication

end QueryGate
