import QueryGate.Number.Written
import QueryGate.Text.Basic

/-!
# YAML tokens

A text is cut into scalars and marks, each with the place where it begins. Comments and blanks
between them are dropped. Anchors, tags, blocks of raw text and complex keys are not part of the
language that is read here.
-/
namespace QueryGate.Yaml

structure Place where
  index : Nat
  line : Nat
  column : Nat
  deriving DecidableEq, Repr

def Place.start : Place := ⟨0, 1, 0⟩

def Place.advance (p : Place) (c : Char) : Place :=
  if c = '\n' then ⟨p.index + 1, p.line + 1, 0⟩ else ⟨p.index + 1, p.line, p.column + 1⟩

def Place.atRest (p : Place) (s rest : List Char) : Place :=
  (s.take (s.length - rest.length)).foldl advance p

inductive Token where
  | scalar (quoted : Bool) (text : String)
  | entry
  | colon
  | comma
  | beginList
  | endList
  | beginMap
  | endMap
  | beginDocument
  | endDocument
  | stop
  deriving DecidableEq, Repr

structure Lexeme where
  token : Token
  place : Place
  deriving DecidableEq, Repr

def isBlank (c : Char) : Bool := c == ' ' || c == '\t'
def isSpace (c : Char) : Bool := isBlank c || c == '\n'

def isBracketMark (c : Char) : Bool := c == ',' || c == '[' || c == ']' || c == '\x7b' || c == '\x7d'

def isReserved (c : Char) : Bool := "&*!|>%@\x60#".contains c || isBracketMark c

def normalizeBreaks : List Char → List Char
  | [] => []
  | '\r' :: '\n' :: rest => '\n' :: normalizeBreaks rest
  | c :: rest => (if c = '\r' then '\n' else c) :: normalizeBreaks rest

/-- Whether a mark that has to be followed by a blank may stand here. -/
def endsMark : List Char → Bool
  | [] => true
  | c :: _ => isSpace c

def skip (inComment : Bool) : List Char → List Char
  | [] => []
  | c :: rest =>
    if inComment then skip (c != '\n') rest
    else if isSpace c then skip false rest
    else if c = '#' then skip true rest
    else c :: rest

/-! ### Scalars -/

/-- Line breaks within a scalar: a single one is a blank, and of several the first is dropped. -/
def breaks : Nat → List Char
  | 1 => [' ']
  | n => List.replicate (n - 1) '\n'

def foldLines : (n : Nat) → List (List Char) → List Char
  | _, [] => []
  | n, [line] => breaks n ++ line
  | n, line :: more =>
    if line.isEmpty then foldLines (n + 1) more else breaks n ++ line ++ foldLines 1 more

def trimStart (s : List Char) : List Char := s.dropWhile isBlank
def trimEnd (s : List Char) : List Char := (s.reverse.dropWhile isBlank).reverse

/-- A quoted scalar over several lines has no blanks around its line breaks. -/
def fold (s : List Char) : List Char :=
  match Text.pieces '\n' s with
  | [] => []
  | [line] => line
  | line :: more =>
    let inner := more.dropLast.map fun l => trimEnd (trimStart l)
    let last := more.getLast?.toList.map trimStart
    trimEnd line ++ foldLines 1 (inner ++ last)

def singleQuoted : List Char → Option (List Char × List Char)
  | [] => none
  | '\'' :: '\'' :: rest => (singleQuoted rest).map fun (body, rest) => ('\'' :: body, rest)
  | '\'' :: rest => some ([], rest)
  | c :: rest => (singleQuoted rest).map fun (body, rest) => (c :: body, rest)

/-- The characters up to the closing quote, with their escapes. A line break behind a backslash is
dropped together with the blanks on either side. -/
def doubleQuoted : List Char → Option (List Char × List Char)
  | [] => none
  | '"' :: rest => some ([], rest)
  | '\\' :: '\n' :: rest =>
    (doubleQuoted rest).map fun (body, rest) => (body.dropWhile isBlank, rest)
  | '\\' :: c :: rest => (doubleQuoted rest).map fun (body, rest) => ('\\' :: c :: body, rest)
  | c :: rest => (doubleQuoted rest).map fun (body, rest) => (c :: body, rest)

def shortEscapes : List (Char × Char) :=
  [('0', '\x00'), ('a', '\x07'), ('b', '\x08'), ('t', '\t'), ('\t', '\t'), ('n', '\n'),
   ('v', '\x0b'), ('f', '\x0c'), ('r', '\r'), ('e', '\x1b'), (' ', ' '), ('"', '"'), ('/', '/'),
   ('\\', '\\'), ('N', '\u0085'), ('_', '\u00a0'), ('L', '\u2028'), ('P', '\u2029')]

def hexLengths : List (Char × Nat) := [('x', 2), ('u', 4), ('U', 8)]

def charOfHex? (digits : List Char) : Option Char := do
  let n ← Number.natural? 16 digits
  if n.isValidChar then some (Char.ofNat n) else none

def unescape? : (rounds : Nat) → List Char → Option (List Char)
  | 0, s => if s.isEmpty then some [] else none
  | _, [] => some []
  | rounds + 1, '\\' :: c :: rest =>
    match shortEscapes.lookup c, hexLengths.lookup c with
    | some d, _ => (unescape? rounds rest).map (d :: ·)
    | none, some n =>
      if rest.length < n then none
      else do
        let d ← charOfHex? (rest.take n)
        return d :: (← unescape? rounds (rest.drop n))
    | none, none => none
  | rounds + 1, c :: rest => (unescape? rounds rest).map (c :: ·)

def endsKey (inside : Bool) : List Char → Bool
  | [] => true
  | c :: _ => isSpace c || (inside && isBracketMark c)

def plainRun (inside : Bool) : List Char → List Char × List Char
  | [] => ([], [])
  | c :: rest =>
    let ends := c == '\n' || (c == ':' && endsKey inside rest) || (inside && isBracketMark c) ||
      (isBlank c && rest.head? == some '#')
    if ends then ([], c :: rest)
    else
      let (run, rest) := plainRun inside rest
      (c :: run, rest)

def startsPlain (inside : Bool) : List Char → Bool
  | [] => false
  | c :: rest =>
    if c == '-' then !endsMark rest
    else if c == '?' || c == ':' then !endsMark rest && !inside
    else !isReserved c

/-! ### Marks -/

def isDocumentMark (p : Place) (mark rest : List Char) : Bool :=
  p.column == 0 && mark.isPrefixOf rest && endsMark (rest.drop mark.length)

/-- The first token of a text that does not begin with a blank. Inside brackets a colon needs no
blank behind it where one of them follows, nor directly behind a quoted scalar or a bracket. -/
def next? (inside adjacent : Bool) (p : Place) (s : List Char) : Option (Token × List Char) :=
  if isDocumentMark p ['-', '-', '-'] s then some (.beginDocument, s.drop 3)
  else if isDocumentMark p ['.', '.', '.'] s then some (.endDocument, s.drop 3)
  else
    match s with
    | '[' :: rest => some (.beginList, rest)
    | '\x7b' :: rest => some (.beginMap, rest)
    | ']' :: rest => if inside then some (.endList, rest) else none
    | '\x7d' :: rest => if inside then some (.endMap, rest) else none
    | ',' :: rest => if inside then some (.comma, rest) else none
    | '\'' :: rest => do
      let (body, rest) ← singleQuoted rest
      return (.scalar true (String.ofList (fold body)), rest)
    | '"' :: rest => do
      let (body, rest) ← doubleQuoted rest
      let body ← unescape? (body.length + 1) (fold body)
      return (.scalar true (String.ofList body), rest)
    | c :: rest =>
      if c == '-' && endsMark rest then if inside then none else some (.entry, rest)
      else if c == ':' && (endsKey inside rest || (inside && adjacent)) then some (.colon, rest)
      else if startsPlain inside s then
        let (run, rest) := plainRun inside s
        some (.scalar false (String.ofList (trimEnd run)), rest)
      else none
    | [] => none

def Token.isClosed : Token → Bool
  | .scalar quoted _ => quoted
  | .endList | .endMap => true
  | _ => false

def Token.depth (depth : Nat) : Token → Nat
  | .beginList | .beginMap => depth + 1
  | .endList | .endMap => depth - 1
  | _ => depth

/-- Reads tokens to the end of the text, where `depth` brackets are open. Each token takes at least
one character, so as many rounds as there are characters are enough. -/
def scanFrom : (rounds depth : Nat) → (adjacent : Bool) → Place → List Char → Option (List Lexeme)
  | 0, _, _, _, _ => none
  | rounds + 1, depth, adjacent, p, s =>
    let start := skip false s
    let q := p.atRest s start
    if start.isEmpty then some [⟨.stop, q⟩]
    else do
      let (token, rest) ← next? (0 < depth) (adjacent && p == q) q start
      let more ← scanFrom rounds (token.depth depth) token.isClosed (q.atRest start rest) rest
      return ⟨token, q⟩ :: more

def scan? (text : String) : Option (List Lexeme) :=
  let s := normalizeBreaks text.toList
  scanFrom (s.length + 1) 0 false .start s

end QueryGate.Yaml
