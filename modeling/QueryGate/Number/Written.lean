import QueryGate.Number.Binary64

/-!
# Reading written numbers

Whole numbers in some base and decimal numbers with a point and a power of ten. A sign of either
kind may stand in front. A decimal number needs a digit before or behind its point.
-/
namespace QueryGate.Number

def digit? (base : Nat) (c : Char) : Option Nat :=
  let value :=
    if '0' ≤ c ∧ c ≤ '9' then some (c.toNat - '0'.toNat)
    else if 'a' ≤ c ∧ c ≤ 'z' then some (c.toNat - 'a'.toNat + 10)
    else if 'A' ≤ c ∧ c ≤ 'Z' then some (c.toNat - 'A'.toNat + 10)
    else none
  value.filter (· < base)

def digits? (base : Nat) : List Char → (start : Nat) → Option Nat
  | [], n => some n
  | c :: rest, n => do digits? base rest (base * n + (← digit? base c))

def natural? (base : Nat) (s : List Char) : Option Nat :=
  if s.isEmpty then none else digits? base s 0

def splitSign : List Char → Bool × List Char
  | '-' :: rest => (true, rest)
  | '+' :: rest => (false, rest)
  | s => (false, s)

def integer? (base : Nat) (s : List Char) : Option Int :=
  let (negative, rest) := splitSign s
  (natural? base rest).map fun n => if negative then -n else n

def word? (s : List Char) : Option Nat :=
  let rest :=
    match s with
    | '+' :: rest => rest
    | s => s
  (natural? 10 rest).filter (· < twoTo 64)

def signedWord? (base : Nat) (s : List Char) : Option Int :=
  (integer? base s).filter fun n => -(twoTo 63 : Int) ≤ n ∧ n < twoTo 63

def power? : List Char → Option Int
  | [] => some 0
  | c :: rest => if c = 'e' ∨ c = 'E' then integer? 10 rest else none

def decimal? (s : List Char) : Option Binary64 := do
  let (negative, rest) := splitSign s
  let (whole, rest) := rest.span Char.isDigit
  let (fraction, rest) :=
    match rest with
    | '.' :: rest => rest.span Char.isDigit
    | rest => ([], rest)
  let coefficient ← natural? 10 (whole ++ fraction)
  return .ofDecimal negative coefficient ((← power? rest) - fraction.length)

end QueryGate.Number
