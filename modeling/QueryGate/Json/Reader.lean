import QueryGate.Json.Token

/-!
# Reading JSON values

A value is read from the tokens of a text. The nesting of brackets is bounded. A value that is only
skipped must have the right form, but its numbers and strings need no value.
-/
namespace QueryGate.Json

def maxNesting : Nat := 127

namespace Reader

variable {α : Type}

def elements (element : List Lexeme → Option (α × List Lexeme)) (closes : Token → Bool) :
    Nat → List Lexeme → Option (List α × List Lexeme)
  | 0, _ => none
  | rounds + 1, ls => do
    let (x, rest) ← element ls
    match rest with
    | [] => none
    | ⟨.comma, _, _⟩ :: rest =>
      let (xs, rest) ← elements element closes rounds rest
      return (x :: xs, rest)
    | l :: rest => if closes l.token then return ([x], rest) else none

def closesArray : Token → Bool
  | .endArray => true
  | _ => false

def closesObject : Token → Bool
  | .endObject => true
  | _ => false

def member (value : List Lexeme → Option (Json × List Lexeme)) (strict : Bool) :
    List Lexeme → Option ((String × Json) × List Lexeme)
  | ⟨.string name, _, _⟩ :: ⟨.colon, _, _⟩ :: rest => do
    if strict && name.isNone then none
    let (v, rest) ← value rest
    return ((name.getD "", v), rest)
  | _ => none

/-- A value in which at most `depth` brackets are open at once. A value that is not read strictly is
only skipped. -/
def value (strict : Bool) : (depth : Nat) → List Lexeme → Option (Json × List Lexeme)
  | _, [] => none
  | depth, l :: rest =>
    match l.token, depth with
    | .null, _ => some (.null, rest)
    | .bool b, _ => some (.bool b, rest)
    | .number none, _ => if strict then none else some (.null, rest)
    | .number (some n), _ => some (n, rest)
    | .string none, _ => if strict then none else some (.null, rest)
    | .string (some s), _ => some (.string s, rest)
    | .beginArray, depth + 1 =>
      match rest with
      | ⟨.endArray, _, _⟩ :: rest => some (.array [], rest)
      | rest => do
        let (items, rest) ← elements (value strict depth) closesArray rest.length rest
        return (.array items, rest)
    | .beginObject, depth + 1 =>
      match rest with
      | ⟨.endObject, _, _⟩ :: rest => some (.object [], rest)
      | rest => do
        let item := member (value strict depth) strict
        let (entries, rest) ← elements item closesObject rest.length rest
        return (.ofEntries entries, rest)
    | _, _ => none

end Reader

def read? (text : List UInt8) (nesting : Nat := maxNesting) : Option Json :=
  let lexemes := scan text
  match Reader.value true nesting lexemes.items with
  | some (j, []) => if lexemes.rest.isEmpty then some j else none
  | _ => none

def readMembers? (text : List UInt8) : Option (List (String × Json)) :=
  let lexemes := scan text
  let read :=
    match lexemes.items with
    | ⟨.beginObject, _, _⟩ :: ⟨.endObject, _, _⟩ :: rest => some ([], rest)
    | ⟨.beginObject, _, _⟩ :: rest =>
      Reader.elements (Reader.member (Reader.value true (maxNesting - 1)) true)
        Reader.closesObject rest.length rest
    | _ => none
  match read with
  | some (members, []) => if lexemes.rest.isEmpty then some members else none
  | _ => none

end QueryGate.Json
