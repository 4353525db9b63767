import QueryGate.Yaml.Scalar
import QueryGate.Yaml.Token

/-!
# Reading YAML

A text is a sequence of documents. The structure of a document is shown by indentation: the keys of
a map and the dashes of a list stand in one column, and what belongs to them stands further to the
right. Inside brackets the indentation plays no part.
-/
namespace QueryGate.Yaml

inductive Node where
  | scalar (value : Scalar)
  | list (items : List Node)
  | map (entries : List (Scalar × Node))

inductive ReadError where
  | malformed
  | duplicateKey (key : Scalar) (place : Place)
  | unnamedKey (key : Scalar)
  | notNumber (value : Scalar)
  | manyDocuments (count : Nat)

def Place.text (p : Place) : String :=
  "at byte " ++ toString p.index ++ " line " ++ toString p.line ++ " column " ++
    toString (p.column + 1)

def ReadError.message : ReadError → String
  | .malformed => "malformed text"
  | .duplicateKey key p => key.shown ++ ": duplicated key in mapping " ++ p.text
  | .unnamedKey key =>
    "Cannot parse " ++ key.shown ++ " because it is an unsupported hash key type"
  | .notNumber s => "Parsing " ++ s.key?.getD "" ++ " as floating point number failed"
  | .manyDocuments n => "Got " ++ toString n ++ " YAML documents, expected 1"

abbrev Reader (α : Type) := List Lexeme → Except ReadError (α × List Lexeme)

namespace Reader

def ofToken (quoted : Bool) (text : String) : Node :=
  .scalar (if quoted then .text text else .ofPlain text)

def beginsNode : Token → Bool
  | .scalar .. | .entry | .beginList | .beginMap => true
  | _ => false

/-- Where the reading of a value is complete: at a scalar itself, at the bracket that closes a value
in brackets, and else at the next token. -/
def completion (node : Node) (ls rest : List Lexeme) : Place :=
  let next := (rest.head?.map Lexeme.place).getD .start
  let first := (ls.head?.map Lexeme.place).getD next
  match node, ls.head?.map Lexeme.token with
  | .scalar _, some (.scalar ..) => first
  | _, some .beginList | _, some .beginMap =>
    ((ls[ls.length - rest.length - 1]?).map (·.place)).getD next
  | _, _ => next

def noteKey (seen : List Scalar) (key : Scalar) (place : Place) : Except ReadError (List Scalar) :=
  if seen.contains key then .error (.duplicateKey key place) else .ok (key :: seen)

/-! ### Inside brackets -/

def elements {α σ : Type} (element : σ → Reader (α × σ)) (close : Token) :
    (rounds : Nat) → σ → Reader (List α)
  | 0, _, _ => .error .malformed
  | _, _, [] => .error .malformed
  | rounds + 1, s, l :: ls =>
    if l.token = close then .ok ([], ls)
    else do
      let ((x, s), rest) ← element s (l :: ls)
      match rest with
      | [] => throw .malformed
      | l :: rest =>
        if l.token = .comma then
          let (xs, rest) ← elements element close rounds s rest
          return (x :: xs, rest)
        else if l.token = close then return ([x], rest)
        else throw .malformed

/-- An entry of a map in brackets. Its value may be left out, with or without the colon. -/
def bracketEntry (value : Reader Node) (seen : List Scalar) :
    Reader ((Scalar × Node) × List Scalar)
  | ⟨.scalar quoted text, _⟩ :: rest => do
    let key := if quoted then Scalar.text text else .ofPlain text
    let (node, at_, rest) ←
      match rest with
      | ⟨.colon, _⟩ :: rest =>
        if (rest.head?.map fun l => beginsNode l.token).getD false then do
          let (node, after) ← value rest
          pure (node, completion node rest after, after)
        else pure (.scalar .null, completion (.scalar .null) [] rest, rest)
      | rest => pure (.scalar .null, completion (.scalar .null) [] rest, rest)
    return (((key, node), ← noteKey seen key at_), rest)
  | _ => .error .malformed

def bracketed : (depth : Nat) → Reader Node
  | _, ⟨.scalar quoted text, _⟩ :: rest => .ok (ofToken quoted text, rest)
  | depth + 1, ⟨.beginList, _⟩ :: rest => do
    let item (_ : Unit) : Reader (Node × Unit) := fun ls => do
      let (node, rest) ← bracketed depth ls
      return ((node, ()), rest)
    let (items, rest) ← elements item .endList rest.length () rest
    return (.list items, rest)
  | depth + 1, ⟨.beginMap, _⟩ :: rest => do
    let (entries, rest) ← elements (bracketEntry (bracketed depth)) .endMap rest.length [] rest
    return (.map entries, rest)
  | _, _ => .error .malformed

/-! ### By indentation -/

def isKey : List Lexeme → Bool
  | ⟨.scalar .., p⟩ :: ⟨.colon, q⟩ :: _ => p.line == q.line
  | _ => false

/-- The lines that an unquoted scalar goes on with, all of them behind the column of what it belongs
to, and its last line. -/
def continued (column : Int) : (line : Nat) → List Lexeme → List Char × List Lexeme
  | _, [] => ([], [])
  | line, l :: rest =>
    match l.token with
    | .scalar false text =>
      if line < l.place.line ∧ column < l.place.column ∧ !isKey (l :: rest) then
        let (more, rest) := continued column l.place.line rest
        (breaks (l.place.line - line) ++ text.toList ++ more, rest)
      else ([], l :: rest)
    | _ => ([], l :: rest)

def inline (column : Int) : Reader Node
  | ⟨.scalar false text, p⟩ :: rest =>
    let (more, rest) := continued column p.line rest
    .ok (ofToken false (text ++ String.ofList more), rest)
  | ls => bracketed ls.length ls

def dashed (value : (column : Int) → Reader Node) (column : Nat) : (rounds : Nat) → Reader (List Node)
  | 0, ls => .ok ([], ls)
  | rounds + 1, ls =>
    match ls with
    | ⟨.entry, p⟩ :: rest =>
      if p.column = column then do
        let (node, rest) ←
          match rest with
          | l :: _ =>
            if beginsNode l.token ∧ column < l.place.column then value column rest
            else pure (.scalar .null, rest)
          | [] => pure (.scalar .null, rest)
        let (more, rest) ← dashed value column rounds rest
        return (node :: more, rest)
      else .ok ([], ls)
    | ls => .ok ([], ls)

/-- What stands behind the colon of a key: a value on the same line, which begins no list and no
map, or a value below it. Dashes may stand in the column of the key. -/
def behindKey (value : (column : Int) → Reader Node) (column line : Nat) : Reader Node
  | [] => .ok (.scalar .null, [])
  | l :: rest =>
    if !beginsNode l.token then .ok (.scalar .null, l :: rest)
    else if l.place.line = line then
      if l.token = .entry ∨ isKey (l :: rest) then .error .malformed else inline column (l :: rest)
    else if column < l.place.column then value column (l :: rest)
    else if l.place.column = column ∧ l.token = .entry then value ((column : Int) - 1) (l :: rest)
    else .ok (.scalar .null, l :: rest)

def keyed (value : (column : Int) → Reader Node) (column : Nat) :
    (rounds : Nat) → (seen : List Scalar) → Reader (List (Scalar × Node))
  | 0, _, ls => .ok ([], ls)
  | rounds + 1, seen, ls =>
    match ls with
    | ⟨.scalar quoted text, p⟩ :: ⟨.colon, q⟩ :: rest =>
      if p.column = column ∧ p.line = q.line then do
        let key := if quoted then Scalar.text text else .ofPlain text
        let (node, after) ← behindKey value column q.line rest
        let seen ← noteKey seen key (completion node rest after)
        let (more, rest) ← keyed value column rounds seen after
        return ((key, node) :: more, rest)
      else .ok ([], ls)
    | ls => .ok ([], ls)

def block : (depth : Nat) → (column : Int) → Reader Node
  | 0, _, _ => .error .malformed
  | _, _, [] => .error .malformed
  | depth + 1, column, l :: rest =>
    let ls := l :: rest
    if l.token = .entry then do
      let (items, rest) ← dashed (block depth) l.place.column ls.length ls
      return (.list items, rest)
    else if isKey ls then do
      let (entries, rest) ← keyed (block depth) l.place.column ls.length [] ls
      return (.map entries, rest)
    else inline column ls

/-! ### Documents -/

def beginsContent (ls : List Lexeme) : Bool := (ls.head?.map fun l => beginsNode l.token).getD false

/-- The documents of a text. A document that follows another one directly begins with its mark. -/
def documents : (rounds : Nat) → (marked : Bool) → List Lexeme → Except ReadError (List Node)
  | 0, _, _ => .error .malformed
  | _, _, [] => .error .malformed
  | rounds + 1, marked, l :: ls =>
    match l.token with
    | .stop => .ok []
    | .endDocument => documents rounds false ls
    | token =>
      if token = .beginDocument ∨ !marked then do
        let content := if token = .beginDocument then ls else l :: ls
        let (node, rest) ←
          if beginsContent content then block content.length (-1) content
          else pure (.scalar .null, content)
        return node :: (← documents rounds true rest)
      else .error .malformed

end Reader

def readAll (text : String) : Except ReadError (List Node) :=
  match scan? text with
  | none => .error .malformed
  | some ls => Reader.documents (ls.length + 1) false ls

/-- The only document of a text. A text without any is an empty map. -/
def read (text : String) : Except ReadError Node := do
  match ← readAll text with
  | [] => return .map []
  | [node] => return node
  | many => throw (.manyDocuments many.length)

namespace Node

mutual

def toJson : Node → Except ReadError Json
  | .scalar s =>
    match s.toJson? with
    | some j => .ok j
    | none => .error (.notNumber s)
  | .list items => do return .array (← itemsToJson items)
  | .map entries => do return .ofEntries (← entriesToJson entries)

def itemsToJson : List Node → Except ReadError (List Json)
  | [] => .ok []
  | item :: rest => do
    let j ← item.toJson
    return j :: (← itemsToJson rest)

def entriesToJson : List (Scalar × Node) → Except ReadError (List (String × Json))
  | [] => .ok []
  | (key, node) :: rest => do
    match key.key? with
    | none => throw (.unnamedKey key)
    | some name =>
      let j ← node.toJson
      return (name, j) :: (← entriesToJson rest)

end

end Node

def readJson (text : String) : Except ReadError Json := do (← read text).toJson

end QueryGate.Yaml
