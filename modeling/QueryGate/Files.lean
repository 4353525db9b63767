import QueryGate.Text.Basic

/-!
# Paths and files

A path is a text with slashes between the names on the way to a file. The files of a directory are
given with their absolute paths; a directory exists where a file or another directory lies in it.
Reading a path says what is found there or why nothing is.
-/
namespace QueryGate

namespace FilePath

def isAbsolute (p : String) : Bool := p.toList.head? == some '/'

def isSlash (c : Char) : Bool := c == '/'

def join (directory p : String) : String :=
  if isAbsolute p then p
  else if directory.isEmpty || directory.toList.getLast? == some '/' then directory ++ p
  else directory ++ "/" ++ p

/-- A reversed path without the slashes and dots that name nothing at its end. -/
def trimReversed : List Char → List Char
  | '/' :: rest => if rest.isEmpty then ['/'] else trimReversed rest
  | '.' :: '/' :: rest => if rest.isEmpty then ['/'] else trimReversed rest
  | s => s

def ofReversed (s : List Char) : String := String.ofList s.reverse

def parent? (p : String) : Option String :=
  match trimReversed p.toList.reverse with
  | [] | ['/'] => none
  | s => some (ofReversed (trimReversed (s.dropWhile (!isSlash ·))))

def fileName? (p : String) : Option String :=
  let name := ofReversed ((trimReversed p.toList.reverse).takeWhile (!isSlash ·))
  if name = "" ∨ name = "." ∨ name = ".." then none else some name

def fileExtension (name : String) : String :=
  let s := name.toList.reverse
  let extension := s.takeWhile (· != '.')
  if extension.length + 1 < s.length then ofReversed extension else ""

def appendExtension? (p extension : String) : Option String := do
  let _ ← fileName? p
  return ofReversed (trimReversed p.toList.reverse) ++ "." ++ extension

def names (p : String) : List String :=
  (Text.split '/' p).filter fun n => n != "" && n != "."

def relativeTo (directory p : String) : String :=
  let above := names directory
  let all := names p
  if above.isPrefixOf all then String.intercalate "/" (all.drop above.length) else p

end FilePath

/-- Files by the names on the way to them, and a directory that exists even if it is empty. -/
structure FileTree where
  directory : List String
  files : List (List String × String)

inductive FileError where
  | notFound
  | notDirectory
  | isDirectory
  deriving DecidableEq, Repr

def FileError.message : FileError → String
  | .notFound => "No such file or directory (os error 2)"
  | .notDirectory => "Not a directory (os error 20)"
  | .isDirectory => "Is a directory (os error 21)"

namespace FileTree

def ofFiles (directory : String) (files : List (String × String)) : FileTree :=
  { directory := FilePath.names directory
    files := files.map fun f => (FilePath.names (FilePath.join directory f.1), f.2) }

def text? (t : FileTree) (at_ : List String) : Option String := t.files.lookup at_

def isDirectory (t : FileTree) (at_ : List String) : Bool :=
  at_.isPrefixOf t.directory ||
    t.files.any fun f => at_.isPrefixOf f.1 && at_.length < f.1.length

/-- Where a path leads, step by step. Every name on the way but the last one has to be a directory.
-/
def walk (t : FileTree) : (at_ : List String) → List String → Except FileError (List String)
  | at_, [] => if (t.text? at_).isSome || t.isDirectory at_ then .ok at_ else .error .notFound
  | at_, name :: rest =>
    if t.isDirectory at_ then
      walk t
        (if name = "" ∨ name = "." then at_ else if name = ".." then at_.dropLast else at_ ++ [name])
        rest
    else if (t.text? at_).isSome then .error .notDirectory
    else .error .notFound

def read (t : FileTree) (p : String) : Except FileError String := do
  let at_ ← t.walk [] (Text.split '/' p)
  match t.text? at_ with
  | some text => return text
  | none => throw .isDirectory

def isFile (t : FileTree) (p : String) : Bool := (t.read p).toOption.isSome

end FileTree

end QueryGate
