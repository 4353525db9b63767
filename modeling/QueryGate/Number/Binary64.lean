/-!
# Binary64 numbers

A number is a sign and an exact magnitude `significand * 2 ^ exponent`, or an infinity. In its
normal form the significand has 53 bits, or the exponent is the least one, -1074. The result of an
operation is the number nearest to the exact result, a tie going to the even significand.
-/
namespace QueryGate

def twoTo (n : Nat) : Nat := Nat.pow 2 n
def tenTo (n : Nat) : Nat := Nat.pow 10 n

theorem twoTo_pos (n : Nat) : 0 < twoTo n := Nat.pow_pos (by decide)
theorem tenTo_pos (n : Nat) : 0 < tenTo n := Nat.pow_pos (by decide)

inductive Binary64 where
  | finite (negative : Bool) (significand : Nat) (exponent : Int)
  | infinite (negative : Bool)
  deriving DecidableEq, Repr, Inhabited

namespace Binary64

def leastExponent : Int := -1074
def greatestExponent : Int := 971

def zero (negative : Bool) : Binary64 := .finite negative 0 leastExponent

/-- The quotient rounded to the nearest natural number, a tie going to the even one. -/
def roundDiv (num den : Nat) : Nat :=
  let q := num / den
  let twice := 2 * (num % den)
  if twice < den then q
  else if den < twice then q + 1
  else q + q % 2

def floorLog2 (num den : Nat) : Int :=
  let e : Int := (num.log2 : Int) - den.log2
  if den * twoTo e.toNat ≤ num * twoTo (-e).toNat then e else e - 1

def ofRatio (negative : Bool) (num den : Nat) : Binary64 :=
  if num = 0 then zero negative
  else
    let q := max (floorLog2 num den - 52) leastExponent
    let m := roundDiv (num * twoTo (-q).toNat) (den * twoTo q.toNat)
    let carry := m = twoTo 53
    let m := if carry then twoTo 52 else m
    let q := if carry then q + 1 else q
    if q > greatestExponent then .infinite negative else .finite negative m q

def ofNat (n : Nat) : Binary64 := ofRatio false n 1

def digitCount (n : Nat) : Nat := (Nat.toDigits 10 n).length

/-- The number nearest to `coefficient * 10 ^ exponent`. Beyond 10^310 everything is infinite, and
below 10^(-330) everything is zero, so the powers that are computed stay small. -/
def ofDecimal (negative : Bool) (coefficient : Nat) (exponent : Int) : Binary64 :=
  if coefficient = 0 then zero negative
  else
    let magnitude := exponent + digitCount coefficient
    if magnitude > 310 then .infinite negative
    else if magnitude < -330 then zero negative
    else ofRatio negative (coefficient * tenTo exponent.toNat) (tenTo (-exponent).toNat)

def isNegative : Binary64 → Bool
  | .finite s _ _ => s
  | .infinite s => s

def isInfinite : Binary64 → Bool
  | .finite .. => false
  | .infinite _ => true

def isZero : Binary64 → Bool
  | .finite _ m _ => m == 0
  | .infinite _ => false

def neg : Binary64 → Binary64
  | .finite s m q => .finite (!s) m q
  | .infinite s => .infinite (!s)

/-- The product of two numbers, the second of which is finite and not zero. -/
def mul : Binary64 → Binary64 → Binary64
  | .finite s m q, .finite t n r =>
    let e := q + r
    ofRatio (s != t) (m * n * twoTo e.toNat) (twoTo (-e).toNat)
  | x, y => .infinite (x.isNegative != y.isNegative)

def div : Binary64 → Binary64 → Binary64
  | .finite s m q, .finite t n r =>
    let e := q - r
    ofRatio (s != t) (m * twoTo e.toNat) (n * twoTo (-e).toNat)
  | x, y => .infinite (x.isNegative != y.isNegative)

def round? : Binary64 → Option Int
  | .finite s m q =>
    let den := twoTo (-q).toNat
    let n : Int := (2 * (m * twoTo q.toNat : Nat) + den) / (2 * den)
    some (if s then -n else n)
  | .infinite _ => none

theorem roundDiv_near (num den : Nat) (h : 0 < den) :
    2 * num ≤ 2 * den * roundDiv num den + den ∧ 2 * den * roundDiv num den ≤ 2 * num + den := by
  have hdiv := Nat.div_add_mod num den
  have hlt := Nat.mod_lt num h
  simp only [roundDiv]
  generalize num / den = q at *
  generalize num % den = r at *
  have hq : 2 * den * q = 2 * (den * q) := Nat.mul_assoc ..
  have hq1 : 2 * den * (q + 1) = 2 * (den * q) + 2 * den := by rw [Nat.mul_add, hq, Nat.mul_one]
  split
  · omega
  · split
    · omega
    · rcases Nat.mod_two_eq_zero_or_one q with h0 | h1
      · rw [h0, Nat.add_zero]; omega
      · rw [h1]; omega

end Binary64

end QueryGate
