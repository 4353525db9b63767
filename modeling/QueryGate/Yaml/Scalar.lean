import QueryGate.Json.Basic
import QueryGate.Number.Written
import QueryGate.Text.Shown

/-!
# YAML scalars

What a scalar that is written without quotes denotes: null, a truth value, a whole number of 64
bits, another number, or else its own text. A number that is not whole is kept as it is written.
-/
namespace QueryGate.Yaml

inductive Scalar where
  | null
  | bool (value : Bool)
  | int (value : Int)
  | real (written : String)
  | text (value : String)
  deriving DecidableEq, Repr

namespace Scalar

def nullNames : List String := ["", "~", "null"]
def trueNames : List String := ["true", "True", "TRUE"]
def falseNames : List String := ["false", "False", "FALSE"]

def specialNames : List String :=
  [".inf", ".Inf", ".INF", "+.inf", "+.Inf", "+.INF", "-.inf", "-.Inf", "-.INF", ".nan",
    ".NaN", ".NAN"]

def int? : List Char → Option Int
  | '0' :: 'x' :: rest => Number.signedWord? 16 rest
  | '0' :: 'o' :: rest => Number.signedWord? 8 rest
  | '+' :: rest => Number.signedWord? 10 rest
  | s => Number.signedWord? 10 s

def ofPlain (s : String) : Scalar :=
  if nullNames.contains s then .null
  else if trueNames.contains s then .bool true
  else if falseNames.contains s then .bool false
  else
    match int? s.toList with
    | some n => .int n
    | none =>
      if specialNames.contains s || (Number.decimal? s.toList).isSome then .real s else .text s

def key? : Scalar → Option String
  | .null => none
  | .bool b => some (toString b)
  | .int n => some (toString n)
  | .real s => some s
  | .text s => some s

def shown : Scalar → String
  | .null => "Null"
  | .bool b => "Boolean(" ++ toString b ++ ")"
  | .int n => "Integer(" ++ toString n ++ ")"
  | .real s => "Real(" ++ Text.shown s ++ ")"
  | .text s => "String(" ++ Text.shown s ++ ")"

def toJson? : Scalar → Option Json
  | .null => some .null
  | .bool b => some (.bool b)
  | .int n => some (.int n)
  | .real s => (Number.decimal? s.toList).map .float
  | .text s => some (.string s)

end Scalar

end QueryGate.Yaml
