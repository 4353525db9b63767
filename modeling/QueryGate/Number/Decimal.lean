import QueryGate.Number.Binary64

/-!
# Decimal text of binary64 numbers

A number is written with the fewest digits that read back as the same number, and among those with
the digits nearest to it. The reals that round to `m * 2 ^ q` form an interval, with its ends when
`m` is even; for 1, 2, ... 17 digits the two neighbours of the number on the grid of that many
digits are tried, and the first grid with a neighbour in the interval is taken.
-/
namespace QueryGate

structure Decimal where
  coefficient : Nat
  exponent : Int
  deriving DecidableEq, Repr

inductive Tie where
  | even
  | up
  deriving DecidableEq, Repr

/-- How a number is written down. A positional text shows every place; otherwise one digit stands
before the point and the power of ten behind the mark. -/
structure NumberStyle where
  tie : Tie
  /-- Whether a number whose first digit has this power of ten is written positionally. -/
  positional : Int → Bool
  /-- Whether a positional whole number ends in a point and a zero. -/
  pointZero : Bool
  /-- Whether a power of ten that is not negative has a sign. -/
  plusSign : Bool

namespace Decimal

/-- The interval of the reals that round to a number, in units of a quarter of its last place. -/
structure Interval where
  low : Nat
  high : Nat
  closed : Bool

def interval (m : Nat) (q : Int) : Interval :=
  { low := 4 * m - (if m = twoTo 52 ∧ q > Binary64.leastExponent then 1 else 2)
    high := 4 * m + 2
    closed := m % 2 == 0 }

def Interval.contains (i : Interval) (scale x unit : Nat) : Bool :=
  if i.closed then i.low * unit ≤ x * scale && x * scale ≤ i.high * unit
  else i.low * unit < x * scale && x * scale < i.high * unit

/-- The power of ten of the first digit of `m * 2 ^ q`, where `m` is positive. No number is as small
as 10^(-330). -/
def leadingPower (m : Nat) (q : Int) : Int :=
  let scaled := m * tenTo 330 * twoTo q.toNat / twoTo (-q).toNat
  (Binary64.digitCount scaled : Int) - 331

def neighbour? (tie : Tie) (m : Nat) (q g : Int) : Option Decimal :=
  let i := interval m q
  let e := q - 2
  let scale := tenTo g.toNat * twoTo (-e).toNat
  let unit := tenTo (-g).toNat * twoTo e.toNat
  let value := 4 * m * unit
  let c := value / scale
  match i.contains scale c unit, i.contains scale (c + 1) unit with
  | false, false => none
  | true, false => some ⟨c, g⟩
  | false, true => some ⟨c + 1, g⟩
  | true, true =>
    let middle := (2 * c + 1) * scale
    if 2 * value < middle then some ⟨c, g⟩
    else if middle < 2 * value then some ⟨c + 1, g⟩
    else
      match tie with
      | .up => some ⟨c + 1, g⟩
      | .even => some ⟨c + c % 2, g⟩

/-- Seventeen digits tell any two numbers apart, so the search ends with a result. -/
def shortest (tie : Tie) (m : Nat) (q : Int) : Decimal :=
  let lead := leadingPower m q
  ((List.range 17).findSome? fun (n : Nat) => neighbour? tie m q (lead - n)).getD ⟨0, 0⟩

def significant (d : Decimal) : List Char × Int :=
  let digits := Nat.toDigits 10 d.coefficient
  ((digits.reverse.dropWhile (· == '0')).reverse, d.exponent + digits.length - 1)

def zeros (n : Int) : List Char := List.replicate n.toNat '0'

def positionalText (digits : List Char) (lead : Int) (pointZero : Bool) : List Char :=
  if lead < 0 then '0' :: '.' :: zeros (-lead - 1) ++ digits
  else
    let whole := digits.take (lead.toNat + 1)
    let fraction := digits.drop (lead.toNat + 1)
    let whole := whole ++ zeros (lead + 1 - digits.length)
    if fraction.isEmpty then if pointZero then whole ++ ['.', '0'] else whole
    else whole ++ '.' :: fraction

def scientificText (digits : List Char) (lead : Int) (plusSign : Bool) : List Char :=
  let mantissa :=
    match digits with
    | first :: second :: rest => first :: '.' :: second :: rest
    | digits => digits
  let sign := if lead < 0 then ['-'] else if plusSign then ['+'] else []
  mantissa ++ 'e' :: sign ++ Nat.toDigits 10 lead.natAbs

def text (d : Decimal) (style : NumberStyle) : List Char :=
  let (digits, lead) := d.significant
  if style.positional lead then positionalText digits lead style.pointZero
  else scientificText digits lead style.plusSign

end Decimal

def Binary64.text (x : Binary64) (style : NumberStyle) : String :=
  let body :=
    match x with
    | .infinite _ => ['i', 'n', 'f']
    | .finite _ m q =>
      if m = 0 then if style.pointZero then ['0', '.', '0'] else ['0']
      else (Decimal.shortest style.tie m q).text style
  String.ofList (if x.isNegative then '-' :: body else body)

end QueryGate
