import QueryGate.Json.Shape
import QueryGate.Number.Decimal
import QueryGate.Settings.Dialect
import QueryGate.Settings.Tree

/-!
# Settings in files

Values of files and of the environment are converted where that makes sense: a number or a flag is
also a text, a text such as `yes` is also a flag, and a number is rounded to a port. What cannot be
converted is refused with the key and, where it is a single value, with its file.
-/
namespace QueryGate

inductive SettingError where
  /-- A value in place of what was expected, with its file where the message names it. -/
  | mismatch (found expected key : String) (origin : Option String)
  | missing (key : String)
  | invalid (message key : String)

namespace SettingError

def keyText (key : String) : String := if key.isEmpty then "" else " for key `" ++ key ++ "`"
def originText (origin : Option String) : String := (origin.map (" in " ++ ·)).getD ""

def message : SettingError → String
  | .mismatch found expected key origin =>
    "invalid type: " ++ found ++ ", expected " ++ expected ++ keyText key ++ originText origin
  | .missing key => "missing configuration field " ++ "\"" ++ key ++ "\""
  | .invalid text key => text ++ keyText key

/-- The key of a value inside another one. A key that begins with an index has no dot in front. -/
def addKey (name key : String) : String :=
  if key.isEmpty || key.toList.head? == some '[' then name ++ key else name ++ "." ++ key

def addIndex (i : Nat) (key : String) : String := "[" ++ toString i ++ "]" ++ key

def mapKey (f : String → String) : SettingError → SettingError
  | .mismatch found expected key origin => .mismatch found expected (f key) origin
  | .missing key => .missing (f key)
  | .invalid text key => .invalid text (f key)

def atKey (name : String) : SettingError → SettingError := mapKey (addKey name)
def atIndex (i : Nat) : SettingError → SettingError := mapKey (addIndex i)

end SettingError

namespace Setting

def plainStyle : NumberStyle := ⟨.up, fun _ => true, false, false⟩

def pointedStyle : NumberStyle := { plainStyle with pointZero := true }

def named (whole : Int → String) (style : NumberStyle) : Setting → String
  | .leaf _ .null => "unit value"
  | .leaf _ (.flag b) => "boolean `" ++ toString b ++ "`"
  | .leaf _ (.int n) => whole n
  | .leaf _ (.float x) => "floating point `" ++ x.text style ++ "`"
  | .leaf _ (.text s) => "string " ++ Text.shown s
  | .list .. => "sequence"
  | .table .. => "map"

def foundValue : Setting → String :=
  named
    (fun n => (if n < twoTo 63 then "64-bit integer `" else "64-bit unsigned integer `") ++
      toString n ++ "`")
    plainStyle

def found : Setting → String := named (fun n => "integer `" ++ toString n ++ "`") pointedStyle

def unconvertible {α : Type} (s : Setting) (expected : String) : Except SettingError α :=
  .error (.mismatch s.foundValue expected "" s.origin)

def unexpected {α : Type} (s : Setting) (expected : String) : Except SettingError α :=
  .error (.mismatch s.found expected "" none)

/-! ### Single values -/

def readText (s : Setting) : Except SettingError String :=
  match s with
  | .leaf _ (.text t) => .ok t
  | .leaf _ (.flag b) => .ok (toString b)
  | .leaf _ (.int n) => .ok (toString n)
  | .leaf _ (.float x) => .ok (x.text plainStyle)
  | _ => s.unconvertible "a string"

/-- Words for flags. The digits count only where a flag is wanted. -/
def onWords : List String := ["true", "on", "yes"]
def offWords : List String := ["false", "off", "no"]

def readFlag (s : Setting) : Except SettingError Bool :=
  match s with
  | .leaf _ (.flag b) => .ok b
  | .leaf _ (.int n) => .ok (n != 0)
  | .leaf _ (.float x) => .ok !x.isZero
  | .leaf origin (.text t) =>
    let word := Text.lower t
    if onWords.contains word || word == "1" then .ok true
    else if offWords.contains word || word == "0" then .ok false
    else (Setting.leaf origin (.text word)).unconvertible "a boolean"
  | _ => s.unconvertible "a boolean"

def greatestWord : Nat := twoTo 64 - 1

def wordOfFloat (x : Binary64) : Nat :=
  match x.round? with
  | some n => min n.toNat greatestWord
  | none => if x.isNegative then 0 else greatestWord

def readWord (s : Setting) : Except SettingError Nat :=
  match s with
  | .leaf _ (.flag b) => .ok b.toNat
  | .leaf _ (.int n) =>
    if 0 ≤ n then .ok n.toNat else s.unconvertible "an unsigned 64 bit or less integer"
  | .leaf _ (.float x) => .ok (wordOfFloat x)
  | .leaf _ (.text t) =>
    let word := Text.lower t
    if onWords.contains word then .ok 1
    else if offWords.contains word then .ok 0
    else
      match Number.word? t.toList with
      | some n => .ok n
      | none => s.unconvertible "an integer"
  | _ => s.unconvertible "an integer"

def readPort (s : Setting) : Except SettingError Nat := do
  let n ← s.readWord
  if n < twoTo 16 then return n
  else throw (.mismatch ("64-bit unsigned integer `" ++ toString n ++ "`")
    "an unsigned 16 bit integer" "" none)

def readOptionalText : Setting → Except SettingError (Option String)
  | .leaf _ .null => .ok none
  | s => s.readText.map some

/-- One of some names, or a table with one of them as its only key. -/
def readChoice (title : String) (names : List String) (s : Setting) : Except SettingError String :=
  let select (name : String) : Except SettingError String :=
    if names.contains name then .ok name
    else .error (.invalid ("enum " ++ title ++ " does not have variant constructor " ++ name) "")
  match s with
  | .leaf _ (.text name) => select name
  | .table _ [(name, _)] => select name
  | _ => .error (.invalid ("value of enum " ++ title ++
      " should be represented by either string or table with exactly one key") "")

/-! ### Structures -/

abbrev Field (σ : Type) := Setting → σ → Except SettingError σ

def readEntries {σ : Type} (known : List (String × Field σ)) (start : σ) :
    Record Setting → Except SettingError σ
  | [] => .ok start
  | (name, value) :: rest =>
    match known.lookup name with
    | some field => do
      readEntries known (← (field value start).mapError (SettingError.atKey name)) rest
    | none =>
      .error (.invalid ("unknown field `" ++ name ++ "`, " ++
        Json.alternatives (known.map (·.1))) "")

def readItems {σ : Type} (i : Nat) (start : σ) :
    List (String × Field σ) → List Setting → Except SettingError σ
  | (_, field) :: known, value :: rest => do
    readItems (i + 1) (← (field value start).mapError (SettingError.atIndex i)) known rest
  | _, _ => .ok start

def readFields {σ : Type} (title : String) (known : List (String × Field σ)) (start : σ)
    (s : Setting) : Except SettingError σ :=
  match s with
  | .table _ entries => readEntries known start entries
  | .list _ items => readItems 0 start known items
  | s => s.unexpected title

/-! ### The source of the schema -/

def sourceNames : List String := ["file"]

def readSourceName (s : Setting) : Except SettingError Unit :=
  match s with
  | .leaf _ (.text name) =>
    if sourceNames.contains name then .ok ()
    else .error (.invalid ("unknown variant `" ++ name ++ "`, " ++ Json.alternatives sourceNames) "")
  | s => s.unexpected "variant identifier"

/-- A path is a text as it stands, since its kind is known only from the name of the source. -/
def readSourcePath (s : Setting) : Except SettingError SchemaSource :=
  match s with
  | .leaf _ (.text path) => .ok ⟨path⟩
  | s => s.unexpected "path string"

def readSource (s : Setting) : Except SettingError SchemaSource :=
  match s with
  | .table _ entries => do
    match Record.get? entries "source" with
    | none => throw (.missing "source")
    | some name => (readSourceName name).mapError (SettingError.atKey "source")
    match Record.get? entries "path" with
    | none => throw (.missing "path")
    | some path => readSourcePath path
  | .list _ [] => .error (.missing "source")
  | .list _ (name :: rest) => do
    (readSourceName name).mapError (SettingError.atIndex 0)
    let wrongLength (expected : String) : SettingError :=
      .invalid ("invalid length " ++ toString rest.length ++ ", expected " ++ expected) ""
    match rest with
    | [] => throw (wrongLength "struct variant SchemaSource::File with 1 element")
    | [path] => readSourcePath path
    | path :: _ =>
      let _ ← readSourcePath path
      throw (wrongLength "1 element in sequence")
  | s => s.unexpected "internally tagged enum SchemaSource"

end Setting

namespace Settings

def lenient : Dialect Setting SettingError where
  text := Setting.readText
  flag := Setting.readFlag
  port := Setting.readPort
  optionalText := Setting.readOptionalText
  choice := Setting.readChoice
  fields := Setting.readFields
  source := Setting.readSource

end Settings

end QueryGate
