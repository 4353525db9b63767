import QueryGate.Json.Reader
import QueryGate.Token.Sha256

/-!
# Signed tokens

A token has three parts between dots: a header, the claims, and a code over the first two under a
shared secret. A token is taken apart from behind, and what is wrong with it is said in the order of
the checks: form, header, algorithm, signature, claims, expiry, audience.
-/
namespace QueryGate

/-! Base64 for URLs

Bytes written with the alphabet that is safe in URLs, without padding. Only the one written form of
some bytes is accepted: bits that are left over at the end are zero. -/

namespace Base64Url

def digit? (c : Char) : Option Nat :=
  if 'A' ≤ c ∧ c ≤ 'Z' then some (c.toNat - 'A'.toNat)
  else if 'a' ≤ c ∧ c ≤ 'z' then some (c.toNat - 'a'.toNat + 26)
  else if '0' ≤ c ∧ c ≤ '9' then some (c.toNat - '0'.toNat + 52)
  else if c = '-' then some 62
  else if c = '_' then some 63
  else none

def decodeDigits : List Nat → Option (List UInt8)
  | [] => some []
  | [_] => none
  | [a, b] =>
    if b % 16 = 0 then some [UInt8.ofNat (4 * a + b / 16)] else none
  | [a, b, c] =>
    if c % 4 = 0 then
      some [UInt8.ofNat (4 * a + b / 16), UInt8.ofNat (16 * (b % 16) + c / 4)]
    else none
  | a :: b :: c :: d :: rest =>
    (decodeDigits rest).map fun bytes =>
      UInt8.ofNat (4 * a + b / 16) :: UInt8.ofNat (16 * (b % 16) + c / 4) ::
        UInt8.ofNat (64 * (c % 4) + d) :: bytes

def decode? (s : List Char) : Option (List UInt8) := do decodeDigits (← s.mapM digit?)

end Base64Url

inductive TokenError where
  | invalidToken
  | base64
  | json
  | invalidAlgorithm
  | invalidSignature
  | missingExpiry
  | expired
  | invalidAudience
  deriving DecidableEq, Repr

namespace TokenError

def message : TokenError → String
  | .invalidToken => "InvalidToken"
  | .base64 => "Base64 error"
  | .json => "JSON error"
  | .invalidAlgorithm => "InvalidAlgorithm"
  | .invalidSignature => "InvalidSignature"
  | .missingExpiry => "Missing required claim: exp"
  | .expired => "ExpiredSignature"
  | .invalidAudience => "InvalidAudience"

end TokenError

namespace SignedToken

abbrev Claims := Record Json

def splitLast : List Char → Option (List Char × List Char)
  | [] => none
  | c :: rest =>
    match splitLast rest with
    | some (before, behind) => some (c :: before, behind)
    | none => if c = '.' then some ([], rest) else none

def decodePart (s : List Char) : Except TokenError (List UInt8) :=
  match Base64Url.decode? s with
  | some bytes => .ok bytes
  | none => .error .base64

def membersOf (bytes : List UInt8) : Except TokenError (List (String × Json)) :=
  match Json.readMembers? bytes with
  | some members => .ok members
  | none => .error .json

/-! Headers -/

def algorithms : List String :=
  ["HS256", "HS384", "HS512", "ES256", "ES384", "RS256", "RS384", "RS512", "PS256", "PS384",
   "PS512", "EdDSA"]

def textMembers : List String :=
  ["typ", "cty", "jku", "kid", "x5u", "x5t", "x5t#S256", "enc", "zip", "url", "nonce"]

def listMembers : List String := ["crit", "x5c"]

def isText : Json → Bool
  | .string _ => true
  | _ => false

def isTextList : Json → Bool
  | .array items => items.all isText
  | _ => false

/-- The registered members have a type each, and may be null except for the algorithm. Any other
member is a text. -/
def isHeaderMember (name : String) (value : Json) : Bool :=
  if name = "alg" then
    match value with
    | .string s => algorithms.contains s
    | _ => false
  else if textMembers.contains name then value.isNull || isText value
  else if listMembers.contains name then value.isNull || isTextList value
  else isText value

def registered : List String := "alg" :: textMembers ++ listMembers

def algorithm (members : List (String × Json)) : Except TokenError String :=
  let names := (members.map (·.1)).filter registered.contains
  if !names.Nodup || !members.all (fun m => isHeaderMember m.1 m.2) then .error .json
  else
    match members.lookup "alg" with
    | some (.string s) => .ok s
    | _ => .error .json

/-! Claims -/

def validated : List String := ["exp", "nbf", "sub", "iss", "aud"]

/-- A claim that cannot even be skipped over. -/
def isUnreadable (name : String) (value : Json) : Bool :=
  match value with
  | .array items => name = "sub" || ((name = "exp" || name = "nbf") && !items.isEmpty)
  | .object members => name = "sub" || ((name = "exp" || name = "nbf") && !members.isEmpty)
  | _ => false

def wordLimit : Nat := twoTo 64

/-- A time in whole seconds. A fraction is rounded. -/
def seconds? : Json → Option Nat
  | .int n => if 0 ≤ n ∧ n < wordLimit then some n.toNat else none
  | .float x =>
    if x.isZero then some 0
    else if x.isNegative then none
    else
      match x.round? with
      | some n => if n < wordLimit then some n.toNat else none
      | none => none
  | _ => none

def namesAudience : Json → Bool
  | .string _ => true
  | j => isTextList j

def leeway : Nat := 60

/-- Checks the claims at a time. No audience is expected, so a token that names one is refused. -/
def check (now : Nat) (members : List (String × Json)) : Except TokenError Claims := do
  let names := (members.map (·.1)).filter validated.contains
  if !names.Nodup || members.any (fun m => isUnreadable m.1 m.2) then throw .json
  let claims := Record.ofEntries members
  match (Record.get? claims "exp").bind seconds? with
  | none => throw .missingExpiry
  | some expiry => if expiry + leeway < now then throw .expired
  match Record.get? claims "aud" with
  | some audience => if namesAudience audience then throw .invalidAudience
  | none => pure ()
  return claims

def verify (secret : List UInt8) (now : Nat) (token : List Char) : Except TokenError Claims := do
  let some (message, signature) := splitLast token | throw .invalidToken
  let some (header, payload) := splitLast message | throw .invalidToken
  let alg ← algorithm (← membersOf (← decodePart header))
  if alg ≠ "HS256" then throw .invalidAlgorithm
  let signature ← decodePart signature
  if signature ≠ Sha256.hmac secret (String.ofList message).toUTF8.toList then
    throw .invalidSignature
  check now (← membersOf (← decodePart payload))

end SignedToken

end QueryGate
