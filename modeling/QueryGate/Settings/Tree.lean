import QueryGate.Json.Basic
import QueryGate.Number.Written

/-!
# Trees of settings

The settings of several sources are merged into one tree before they are read. A value knows the
file that it comes from. Tables are merged entry by entry, so that a later source replaces single
values; any other value is replaced as a whole.
-/
namespace QueryGate

inductive Setting.Scalar where
  | null
  | flag (value : Bool)
  | int (value : Int)
  | float (value : Binary64)
  | text (value : String)
  deriving DecidableEq, Repr

inductive Setting where
  | leaf (origin : Option String) (value : Setting.Scalar)
  | list (origin : Option String) (items : List Setting)
  | table (origin : Option String) (entries : List (String × Setting))
  deriving Inhabited

namespace Setting

def origin : Setting → Option String
  | .leaf o _ | .list o _ | .table o _ => o

def null : Setting := .leaf none .null
def text (s : String) : Setting := .leaf none (.text s)

mutual

def ofJson (origin : Option String) : Json → Setting
  | .null => .leaf origin .null
  | .bool b => .leaf origin (.flag b)
  | .int n => .leaf origin (.int n)
  | .float x => .leaf origin (.float x)
  | .string s => .leaf origin (.text s)
  | .array items => .list origin (ofItems origin items)
  | .object members => .table origin (ofMembers origin members)

def ofItems (origin : Option String) : List Json → List Setting
  | [] => []
  | j :: rest => ofJson origin j :: ofItems origin rest

def ofMembers (origin : Option String) : List (String × Json) → Record Setting
  | [] => []
  | (name, j) :: rest => (name, ofJson origin j) :: ofMembers origin rest

end

/-- The value as a table, and anything but a table as an empty one. -/
def asTable : Setting → Option String × Record Setting
  | .table o entries => (o, entries)
  | _ => (none, [])

def asList : Setting → Option String × List Setting
  | .list o items => (o, items)
  | _ => (none, [])

def lookup? (name : String) (s : Setting) : Option Setting := Record.get? s.asTable.2 name

def modifyEntry (name : String) (f : Setting → Setting) (s : Setting) : Setting :=
  .table s.asTable.1 (Record.insert name (f ((s.lookup? name).getD null)) s.asTable.2)

theorem lookup?_modifyEntry_self (name : String) (f : Setting → Setting) (s : Setting) :
    (modifyEntry name f s).lookup? name = some (f ((s.lookup? name).getD null)) :=
  Record.get?_insert_self ..

theorem lookup?_modifyEntry_of_ne {name other : String} (h : other ≠ name)
    (f : Setting → Setting) (s : Setting) :
    (modifyEntry name f s).lookup? other = s.lookup? other :=
  Record.get?_insert_of_ne h ..

mutual

/-- Merges a value into an old one. Tables from files lose their origin, since their entries can
come from several. An empty table leaves what is there, unless that is null. -/
def merge (old : Setting) : Setting → Setting
  | .table _ entries =>
    let start :=
      match old with
      | .leaf _ .null => .table none []
      | old => old
    mergeEntries start entries
  | new => new

def mergeEntries (old : Setting) : Record Setting → Setting
  | [] => old
  | (name, value) :: rest =>
    let merged := modifyEntry name (fun entry => merge entry value) old
    mergeEntries merged rest

end

/-! ### Paths of keys -/

inductive Step where
  | key (name : String)
  | index (i : Int)
  deriving DecidableEq, Repr

/-- Changes one item of a list, which grows at its end, or at its front for an index that counts too
far back from the end. -/
def modifyItem (i : Int) (f : Setting → Setting) (s : Setting) : Setting :=
  let (o, items) := s.asList
  let size : Int := items.length
  let (items, at_) :=
    if 0 ≤ i then (items ++ List.replicate (i + 1 - size).toNat null, i.toNat)
    else (List.replicate (-i - size).toNat null ++ items, (size + i).toNat)
  .list o (items.modify at_ f)

def setAt : List Step → (new old : Setting) → Setting
  | [], new, old => merge old new
  | .key name :: path, new, old => modifyEntry name (setAt path new) old
  | .index i :: path, new, old => modifyItem i (setAt path new) old

def isKeyChar (c : Char) : Bool := c.isAlphanum || c == '_' || c == '-'

def skipBlanks (s : List Char) : List Char := s.dropWhile fun c => c == ' ' || c == '\t'

def index? (s : List Char) : Option (Int × List Char) := do
  let (run, rest) := (skipBlanks s).span fun c => c.isDigit || c == '-'
  let i ← Number.signedWord? 10 run
  match skipBlanks rest with
  | ']' :: rest => some (i, rest)
  | _ => none

def steps? : (rounds : Nat) → List Char → Option (List Step)
  | _, [] => some []
  | 0, _ => none
  | rounds + 1, '.' :: rest => do
    let (key, rest) := rest.span isKeyChar
    if key.isEmpty then none
    return .key (String.ofList key) :: (← steps? rounds rest)
  | rounds + 1, '[' :: rest => do
    let (i, rest) ← index? rest
    return .index i :: (← steps? rounds rest)
  | _, _ => none

/-- A key at the top of a file is a path of keys and indices. One that has no such form stands for
itself. -/
def path (key : String) : List Step :=
  let (first, rest) := key.toList.span isKeyChar
  if first.isEmpty then [.key key]
  else
    match steps? rest.length rest with
    | some steps => .key (String.ofList first) :: steps
    | none => [.key key]

def mergeSource (s : Setting) (source : Record Setting) : Setting :=
  source.foldl (fun s e => setAt (path e.1) e.2 s) s

def empty : Setting := .table none []

end Setting

end QueryGate
