import QueryGate.GraphQL.Token

/-!
# Reading by grammar rules

A rule takes tokens off the front of a list or is stuck at the token where it cannot continue. This
module has the rules for values, directives and types, which both documents and schemas use. Nested
rules take the depth that is left; no text is nested deeper than it has tokens. A chain of rules
succeeds if every one does, and its value is then the value of its last step.
-/
namespace QueryGate

variable {ε α β : Type}

@[simp] theorem ok_bind (x : α) (f : α → Except ε β) : (Except.ok x >>= f) = f x := rfl

@[simp] theorem pure_eq_ok (x : α) : (pure x : Except ε α) = .ok x := rfl

theorem bind_eq_ok_iff {first : Except ε α} {next : α → Except ε β} {y : β} :
    first >>= next = .ok y ↔ ∃ x, first = .ok x ∧ next x = .ok y := by
  constructor
  · intro hchain
    cases first with
    | error => cases hchain
    | ok x => exact ⟨x, rfl, hchain⟩
  · rintro ⟨x, rfl, hnext⟩
    exact hnext

theorem exists_ok_of_any {x : Except ε α} {p : α → Bool} (h : x.toOption.any p = true) :
    ∃ y, x = .ok y ∧ p y = true := by
  cases x with
  | error => cases h
  | ok y => exact ⟨y, rfl, h⟩

end QueryGate

namespace QueryGate.GraphQL

inductive Failure where
  /-- No rule continues at the first of these tokens. -/
  | stuck (rest : List Token)
  /-- Reading broke off at a string that has no value. -/
  | torn (message : String)
  deriving DecidableEq, Repr

abbrev Rule (α : Type) := List Token → Except Failure (α × List Token)

namespace Rule

variable {α β : Type}

def stuck : Rule α := fun ts => .error (.stuck ts)

def name : Rule String
  | .name s :: rest => .ok (s, rest)
  | ts => .error (.stuck ts)

def keyword (word : String) : Rule Unit
  | .name s :: rest => if s = word then .ok ((), rest) else .error (.stuck (.name s :: rest))
  | ts => .error (.stuck ts)

def mark (c : Char) : Rule Unit
  | .mark d :: rest => if d = c then .ok ((), rest) else .error (.stuck (.mark d :: rest))
  | ts => .error (.stuck ts)

def startsWithMark (c : Char) : List Token → Bool
  | .mark d :: _ => d == c
  | _ => false

def startsWithName (word : String) : List Token → Bool
  | .name s :: _ => s == word
  | _ => false

def startsWithAnyName : List Token → Bool
  | .name _ :: _ => true
  | _ => false

def optional (starts : List Token → Bool) (rule : Rule α) : Rule (Option α) := fun ts =>
  if starts ts then do
    let (x, rest) ← rule ts
    return (some x, rest)
  else .ok (none, ts)

def manyFrom (starts : List Token → Bool) (rule : Rule α) : (rounds : Nat) → Rule (List α)
  | 0, ts => .error (.stuck ts)
  | rounds + 1, ts =>
    if starts ts then do
      let (x, rest) ← rule ts
      let (xs, rest) ← manyFrom starts rule rounds rest
      return (x :: xs, rest)
    else .ok ([], ts)

def many (starts : List Token → Bool) (rule : Rule α) : Rule (List α) := fun ts =>
  manyFrom starts rule (ts.length + 1) ts

def upTo (close : Char) (rule : Rule α) : Rule (List α) := fun ts => do
  let (xs, rest) ← many (!startsWithMark close ·) rule ts
  let ((), rest) ← mark close rest
  return (xs, rest)

def someUpTo (close : Char) (rule : Rule α) : Rule (List α) := fun ts => do
  let (x, rest) ← rule ts
  let (xs, rest) ← Rule.upTo close rule rest
  return (x :: xs, rest)

def between (opening close : Char) (rule : Rule α) : Rule (List α) := fun ts => do
  let ((), rest) ← mark opening ts
  someUpTo close rule rest

def entry (inner : Rule Value) : Rule (String × Value) := fun ts => do
  let (key, rest) ← name ts
  let ((), rest) ← mark ':' rest
  let (v, rest) ← inner rest
  return ((key, v), rest)

/-- A value; a constant has no variables in it. -/
def value (constant : Bool) : (depth : Nat) → Rule Value
  | _, [] => .error (.stuck [])
  | depth, t :: rest =>
    match t, depth with
    | .name s, _ =>
      .ok (if s = "true" then .boolean true
        else if s = "false" then .boolean false
        else if s = "null" then .null
        else .enum s, rest)
    | .int n, _ => .ok (.int n, rest)
    | .float x, _ => .ok (.float x, rest)
    | .string s, _ => .ok (.string s, rest)
    | .torn message, _ => .error (.torn message)
    | .mark '$', _ =>
      if constant then .error (.stuck (t :: rest))
      else do
        let (s, rest) ← name rest
        return (.variable s, rest)
    | .mark '[', depth + 1 => do
      let (items, rest) ← Rule.upTo ']' (value constant depth) rest
      return (.list items, rest)
    | .mark '\x7b', depth + 1 => do
      let (fields, rest) ← Rule.upTo '\x7d' (entry (value constant depth)) rest
      return (.object (Record.ofEntries fields), rest)
    | _, _ => .error (.stuck (t :: rest))

def anyValue : Rule Value := fun ts => value false (ts.length + 1) ts
def constant : Rule Value := fun ts => value true (ts.length + 1) ts

def argument : Rule Argument := entry anyValue

def arguments : Rule (List Argument) := fun ts => do
  let (found, rest) ← optional (startsWithMark '(') (between '(' ')' argument) ts
  return (found.getD [], rest)

def directive : Rule Directive := fun ts => do
  let ((), rest) ← mark '@' ts
  let (word, rest) ← name rest
  let (args, rest) ← arguments rest
  return (⟨word, args⟩, rest)

def directives : Rule (List Directive) := many (startsWithMark '@') directive

def nullable (item : Rule TypeRef) : Rule TypeRef := fun ts =>
  if startsWithMark '[' ts then do
    let ((), rest) ← mark '[' ts
    let (t, rest) ← item rest
    let ((), rest) ← mark ']' rest
    return (.list t, rest)
  else do
    let (word, rest) ← name ts
    return (.named word, rest)

def typeAt : (depth : Nat) → Rule TypeRef
  | 0, ts => .error (.stuck ts)
  | depth + 1, ts => do
    let (inner, rest) ← nullable (typeAt depth) ts
    let (bang, rest) ← optional (startsWithMark '!') (mark '!') rest
    return (if bang.isSome then .nonNull inner else inner, rest)

def type : Rule TypeRef := fun ts => typeAt (ts.length + 1) ts

def default : Rule (Option Value) :=
  optional (startsWithMark '=') fun ts => do
    let ((), rest) ← mark '=' ts
    constant rest

end Rule

/-- Why a text does not follow its grammar. -/
inductive TextError where
  | unexpected (position : Position)
  | torn (message : String)
  deriving DecidableEq, Repr

def Lexemes.positionOf (l : Lexemes) (rest : List Token) : Position :=
  ((l.items.drop (l.items.length - rest.length)).head?.map (·.position)).getD l.stop

def readAll {α : Type} (rule : Rule α) (text : String) : Except TextError (List α) :=
  let lexemes := scan text
  let tokens := lexemes.items.map (·.token)
  let definitions : Rule (List α) := fun ts => do
    let (x, rest) ← rule ts
    let (xs, rest) ← Rule.many (!·.isEmpty) rule rest
    return (x :: xs, rest)
  match definitions tokens with
  | .ok (xs, _) => if lexemes.complete then .ok xs else .error (.unexpected lexemes.stop)
  | .error (.stuck rest) => .error (.unexpected (lexemes.positionOf rest))
  | .error (.torn message) => .error (.torn message)

end QueryGate.GraphQL
