import PackageExports.Text.Basic

/-!
# Numbers in 64-bit binary floating point

A finite number is a sign, a mantissa below 2⁵³ and a power of two that is at least -1074, the mantissa being as
large as that allows; so each number has one form. `Binary64.ofRatio` rounds a quotient to the nearest number, a tie
to the even mantissa.

Main definitions: `Binary64`, `Binary64.ofRatio`, `Binary64.ofDecimal`, `Binary64.toInt?`, `Binary64.add`.
-/

namespace PackageExports

/-- A number in 64-bit binary floating point. -/
inductive Binary64 where
  | nan
  | infinite (negative : Bool)
  | finite (negative : Bool) (mantissa : Nat) (exponent : Int)
deriving DecidableEq, Inhabited

/-- The whole number nearest to `n / d`, the even one of two equally near. -/
def roundedQuotient (n d : Nat) : Nat :=
  let q := n / d
  let r := n % d
  if d < 2 * r ∨ (2 * r = d ∧ q % 2 = 1) then q + 1 else q

/-- How many decimal digits a natural number has, one for zero. -/
def decimalLength (n : Nat) : Nat :=
  (Nat.toDigits 10 n).length

namespace Binary64

def leastExponent : Int :=
  -1074

def greatestExponent : Int :=
  971

def zero (negative : Bool) : Binary64 :=
  .finite negative 0 leastExponent

/-- The rounded quotient of `num / den` by a power of two. -/
def scaledMantissa (num den : Nat) (exponent : Int) : Nat :=
  if exponent < 0 then roundedQuotient (num * Nat.pow 2 exponent.natAbs) den
  else roundedQuotient num (den * Nat.pow 2 exponent.natAbs)

/-- The exponent at which `num / den` has a mantissa of 53 bits, or the least one. -/
def exponentFor (num den : Nat) : Int :=
  let guess : Int := (Nat.log2 num : Int) - (Nat.log2 den : Int) - 52
  let short :=
    if guess < 0 then num * Nat.pow 2 guess.natAbs < den * Nat.pow 2 52 else num < den * Nat.pow 2 (52 + guess.natAbs)
  max leastExponent (if short then guess - 1 else guess)

/-- The number nearest to `num / den`, for a positive `den`. -/
def ofRatio (negative : Bool) (num den : Nat) : Binary64 :=
  if num = 0 then zero negative
  else
    let exponent := exponentFor num den
    let mantissa := scaledMantissa num den exponent
    let (mantissa, exponent) := if mantissa = Nat.pow 2 53 then (Nat.pow 2 52, exponent + 1) else (mantissa, exponent)
    if greatestExponent < exponent then .infinite negative else .finite negative mantissa exponent

/-- The number nearest to `digits · 10 ^ exponent`; exponents far out of range are not expanded. -/
def ofDecimal (negative : Bool) (digits : Nat) (exponent : Int) : Binary64 :=
  let magnitude := (decimalLength digits : Int) + exponent
  if digits = 0 ∨ magnitude < -330 then zero negative
  else if 310 < magnitude then .infinite negative
  else if exponent < 0 then ofRatio negative digits (Nat.pow 10 exponent.natAbs)
  else ofRatio negative (digits * Nat.pow 10 exponent.natAbs) 1

def ofInt (n : Int) : Binary64 :=
  ofRatio (n < 0) n.natAbs 1

def ratio (mantissa : Nat) (exponent : Int) : Nat × Nat :=
  if exponent < 0 then (mantissa, Nat.pow 2 exponent.natAbs) else (mantissa * Nat.pow 2 exponent.natAbs, 1)

/-- The integer that a finite number is, if it is one. -/
def toInt? : Binary64 → Option Int
  | .finite negative mantissa exponent =>
    let (num, den) := ratio mantissa exponent
    if num % den = 0 then some (if negative then -((num / den : Nat) : Int) else (num / den : Nat)) else none
  | _ => none

def neg : Binary64 → Binary64
  | .nan => .nan
  | .infinite negative => .infinite !negative
  | .finite negative mantissa exponent => .finite (!negative) mantissa exponent

def mul : Binary64 → Binary64 → Binary64
  | .finite s m e, .finite t n f =>
    let (a, b) := ratio m e
    let (c, d) := ratio n f
    ofRatio (s != t) (a * c) (b * d)
  | .infinite s, .infinite t => .infinite (s != t)
  | .infinite s, .finite t n _ => if n = 0 then .nan else .infinite (s != t)
  | .finite s m _, .infinite t => if m = 0 then .nan else .infinite (s != t)
  | .nan, _ | _, .nan => .nan

/-- The number nearest to a sum; a sum of zero is negative only if both of its terms are. -/
def add : Binary64 → Binary64 → Binary64
  | .finite s m e, .finite t n f =>
    let (a, b) := ratio m e
    let (c, d) := ratio n f
    let signed (negative : Bool) (k : Nat) : Int := if negative then -(k : Int) else k
    let sum := signed s (a * d) + signed t (c * b)
    ofRatio (if sum = 0 then s && t else sum < 0) sum.natAbs (b * d)
  | .infinite s, .infinite t => if s = t then .infinite s else .nan
  | .infinite s, .finite _ _ _ => .infinite s
  | .finite _ _ _, .infinite t => .infinite t
  | .nan, _ | _, .nan => .nan

def isPositive : Binary64 → Bool
  | .nan => false
  | .infinite negative => !negative
  | .finite negative mantissa _ => !negative && mantissa != 0

/-- Whether a number is zero, of either sign. -/
def isZero : Binary64 → Bool
  | .finite _ mantissa _ => mantissa == 0
  | _ => false

end Binary64

end PackageExports
