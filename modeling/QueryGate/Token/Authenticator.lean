import QueryGate.Identity
import QueryGate.Settings.Basic
import QueryGate.Token.Signed

/-!
# Authentication by tokens

The caller of a request is the one that the token in a header names. A request without the header
comes from an anonymous caller.
-/
namespace QueryGate

inductive TokenSetupError where
  | missingSecret
  | invalidHeaderName (name : String)
  deriving DecidableEq, Repr

namespace TokenSetupError

def message : TokenSetupError → String
  | .missingSecret => "jwt authentication is enabled but no secret is configured"
  | .invalidHeaderName name =>
    "invalid token header name '" ++ name ++ "': invalid HTTP header name"

end TokenSetupError

structure TokenAuthenticator where
  secret : List UInt8
  /-- In lower case. -/
  header : String
  scheme : String
  rolesClaim : String

namespace TokenAuthenticator

def isHeaderChar (c : Char) : Bool :=
  c.isAlphanum || "!#$%&'*+-.^_`|~".toList.contains c

def isHeaderName (s : String) : Bool := !s.isEmpty && s.toList.all isHeaderChar

/-- Sets up an authenticator. The secret is looked at first. -/
def ofSettings (s : TokenSettings) : Except TokenSetupError TokenAuthenticator :=
  match s.secret? with
  | none => .error .missingSecret
  | some secret =>
    if isHeaderName s.header then
      .ok ⟨secret.toUTF8.toList, s.header.toLower, s.scheme, s.rolesClaim⟩
    else .error (.invalidHeaderName s.header)

def isHeaderText (b : UInt8) : Bool := b == 9 || (32 ≤ b && b < 127)

def textOf? (value : List UInt8) : Option (List Char) :=
  if value.all isHeaderText then some (value.map fun b => Char.ofNat b.toNat) else none

def stripFront? : (front s : List Char) → Option (List Char)
  | [], s => some s
  | c :: front, d :: s => if c = d then stripFront? front s else none
  | _ :: _, [] => none

def token (a : TokenAuthenticator) (value : List UInt8) : Except String (List Char) :=
  match textOf? value with
  | none => .error "token header value is not valid ascii"
  | some s =>
    match stripFront? a.scheme.toList s with
    | none => .error ("token is missing the expected '" ++ a.scheme ++ "' prefix")
    | some token => .ok (Text.trimChars token)

def rolesOf : Option Json → List String
  | some (.string role) => [role]
  | some (.array items) => items.filterMap Json.text?
  | _ => []

def userOf (a : TokenAuthenticator) (claims : SignedToken.Claims) : User :=
  ⟨(Record.get? claims "sub").bind Json.text?, rolesOf (Record.get? claims a.rolesClaim)⟩

def identify (a : TokenAuthenticator) (now : Nat) (value : List UInt8) : Except String User := do
  let token ← a.token value
  match SignedToken.verify a.secret now token with
  | .ok claims => return a.userOf claims
  | .error e => throw ("failed to decode token: " ++ e.message)

def authenticator (a : TokenAuthenticator) (now : Nat) : Authenticator User := fun r =>
  match r.header? a.header with
  | none => .anonymous
  | some value =>
    match a.identify now value with
    | .ok u => .user u
    | .error reason => .failed (.invalidCredentials reason)

end TokenAuthenticator

end QueryGate
