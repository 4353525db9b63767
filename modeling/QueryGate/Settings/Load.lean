import QueryGate.Files
import QueryGate.Json.Reader
import QueryGate.Json.Relaxed
import QueryGate.Settings.Lenient
import QueryGate.Yaml.Reader

/-!
# Loading settings

Settings are read from one named file, or from the files of the default names that there are, of
which a later one takes precedence over an earlier one, and last of all from the environment. A
relative path in them starts from the directory of the named file, or else from the working
directory. A variable of the environment whose text has the wrong form is an error.
-/
namespace QueryGate

abbrev Environment := List (String × String)

namespace Environment

structure Variable where
  name : String
  settings? : String → Option (List (String × Setting))

def textVariable (name key : String) : Variable := ⟨name, fun s => some [(key, .text s)]⟩

def flagVariable (name key : String) : Variable where
  name := name
  settings? s :=
    if s = "true" then some [(key, .leaf none (.flag true))]
    else if s = "false" then some [(key, .leaf none (.flag false))]
    else none

def known : List Variable :=
  [⟨"LOG_LEVEL", fun s => (LogLevel.read? s).map fun l => [("log.level", .text l.name)]⟩,
   ⟨"LOG_FORMAT", fun s => (LogFormat.read? s).map fun f => [("log.format", .text f.name)]⟩,
   textVariable "LOG_FILTER" "log.filter",
   ⟨"PORT", fun s => (Number.word? s.toList).map fun n => [("http.port", .leaf none (.int n))]⟩,
   textVariable "HOST" "http.host",
   ⟨"SCHEMA_FILE_PATH", fun s => some [("schema.source", .text "file"), ("schema.path", .text s)]⟩,
   flagVariable "PARTIAL_ACCESS" "access.partial_access",
   flagVariable "NULLIFY_UNAUTHORIZED_FIELDS" "access.nullify_unauthorized_fields",
   textVariable "PARAMS_SLOT" "access.params_slot",
   textVariable "JWT_SECRET" "jwt.secret"]

def settingsOf (env : Environment) : List Variable → Except String (List (String × Setting))
  | [] => .ok []
  | v :: rest =>
    match env.lookup v.name with
    | none => settingsOf env rest
    | some s =>
      match v.settings? s with
      | none => .error v.name
      | some given => do return given ++ (← settingsOf env rest)

def settings (env : Environment) : Except String (List (String × Setting)) :=
  settingsOf env known

end Environment

inductive FileFormat where
  | json
  | yaml
  | json5
  deriving DecidableEq, Repr

namespace FileFormat

def extensions : List (String × FileFormat) :=
  [("json", .json), ("yaml", .yaml), ("yml", .yaml), ("json5", .json5)]

def ofPath? (p : String) : Option FileFormat :=
  (FilePath.fileName? p).bind fun name => extensions.lookup (FilePath.fileExtension name)

end FileFormat

inductive LoadError where
  | variable (name : String)
  | notFound (path : String)
  | unsupported (path : String)
  | unreadable (reason : String) (origin : Option String)
  | setting (error : SettingError)

def LoadError.message : LoadError → String
  | .variable name =>
    "Failed to load the environment variables: Failed to parse environment variable " ++ name
  | .notFound path => failed ("configuration file \"" ++ path ++ "\" not found")
  | .unsupported path =>
    failed ("configuration file \"" ++ path ++ "\" is not of a supported file format")
  | .unreadable reason origin => failed (reason ++ SettingError.originText origin)
  | .setting error => failed error.message
where
  failed (reason : String) : String := "Failed to load configuration: " ++ reason

namespace Settings

def readText (format : FileFormat) (text : String) : Except String Json :=
  let orMalformed (j : Option Json) : Except String Json :=
    match j with
    | some j => .ok j
    | none => .error "malformed text"
  match format with
  | .json => orMalformed (Json.read? text)
  | .json5 => orMalformed (Json.Relaxed.read? text)
  | .yaml => (Yaml.readJson text).mapError (·.message)

def readEntries (format : FileFormat) (origin : Option String) (text : String) :
    Except LoadError (List (String × Setting)) := do
  let j ← (readText format text).mapError fun reason => .unreadable reason origin
  match Setting.ofJson origin j with
  | .table _ entries => return entries
  | other => throw (.unreadable (SettingError.mismatch other.foundValue "a map" "" origin).message
      origin)

def resolve (directory : String) (s : Settings) : Settings :=
  { s with schema := ⟨FilePath.join directory s.schema.path⟩ }

/-- The settings that hold when some sources are merged one after the other. -/
def ofSources (directory : String) (sources : List (List (String × Setting))) :
    Except LoadError Settings := do
  let tree := sources.foldl Setting.mergeSource .empty
  return (← (lenient.settings tree).mapError .setting).resolve directory

def ofYaml (directory text : String) : Except LoadError Settings := do
  ofSources directory [← readEntries .yaml none text]

def findFile (t : FileTree) (directory path : String) : Except LoadError (String × FileFormat) :=
  let whole := FilePath.join directory path
  if t.isFile whole then
    match FileFormat.ofPath? whole with
    | some format => .ok (whole, format)
    | none => .error (.unsupported whole)
  else
    let extended := FileFormat.extensions.findSome? fun (extension, format) => do
      let p ← FilePath.appendExtension? whole extension
      if t.isFile p then some (p, format) else none
    match extended with
    | some found => .ok found
    | none => .error (.notFound path)

/-- A mark of the byte order in front of a text is no part of it. -/
def dropMark (text : String) : String :=
  match text.toList with
  | '\ufeff' :: rest => String.ofList rest
  | _ => text

def readFile (t : FileTree) (directory : String) (file : String × FileFormat) :
    Except LoadError (List (String × Setting)) :=
  match t.read file.1 with
  | .ok text =>
    readEntries file.2 (some (FilePath.relativeTo directory file.1)) (dropMark text)
  | .error _ => .error (.notFound file.1)

def defaultNames : List String :=
  ["field-guard.config.yaml", "field-guard.config.yml", "field-guard.config.json",
   "field-guard.config.json5"]

def rootOf (directory : String) (path : Option String) : String :=
  match path.bind FilePath.parent? with
  | some parent => FilePath.join directory parent
  | none => directory

/-- The files that are read: the named one, which has to be there, or those of the default names. -/
def filesOf (t : FileTree) (directory : String) (path : Option String) :
    Except LoadError (List (String × FileFormat)) :=
  match path with
  | some p => (findFile t directory p).map fun file => [file]
  | none => .ok (defaultNames.filterMap fun name => (findFile t directory name).toOption)

def load (t : FileTree) (directory : String) (path : Option String) (env : Environment) :
    Except LoadError Settings := do
  let overrides ← env.settings.mapError .variable
  let files ← filesOf t directory path
  let sources ← files.mapM (readFile t directory)
  ofSources (rootOf directory path) (sources ++ [overrides])

end Settings

namespace SchemaSource

def read (t : FileTree) (s : SchemaSource) : Except String String :=
  (t.read s.path).mapError fun e =>
    "Failed to read schema file '" ++ s.path ++ "': " ++ e.message

end SchemaSource

end QueryGate
