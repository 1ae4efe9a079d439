import PackageExports.Decimal.Binary64

/-!
# Shortest decimals

A number is written with the fewest decimal digits that read back as the same number; of several such decimals the
nearest is taken. `Binary64.text` lays the digits out: positionally where the first digit stands for at least 10⁻⁴
and less than 10¹⁶, else with a power of ten of at least two digits.

Main definitions: `Binary64.shortest`, `Binary64.text`.
-/

namespace PackageExports.Binary64

/-- A positive number with the reals that round to it: all three bounds have the denominator `unit`. -/
structure Interval where
  low : Nat
  value : Nat
  high : Nat
  unit : Nat
  /-- Whether the bounds themselves round to the number. -/
  closed : Bool

/-- The interval of the reals that round to `mantissa · 2 ^ exponent`. -/
def interval (mantissa : Nat) (exponent : Int) : Interval :=
  -- below a power of two the next number is half as far away
  let below := if mantissa = Nat.pow 2 52 ∧ leastExponent < exponent then 1 else 2
  let power := Nat.pow 2 (exponent - 2).natAbs
  let (scale, unit) := if exponent < 2 then (1, power) else (power, 1)
  ⟨(4 * mantissa - below) * scale, 4 * mantissa * scale, (4 * mantissa + 2) * scale, unit, mantissa % 2 = 0⟩

/-- The position of the decimal point before the first digit: the least `p` with `num / den < 10 ^ p`. -/
def pointPosition (num den : Nat) : Int :=
  let guess : Int := (decimalLength num : Int) - decimalLength den
  let below :=
    if guess < 0 then num * Nat.pow 10 guess.natAbs < den else num < den * Nat.pow 10 guess.natAbs
  if below then guess else guess + 1

/-- A decimal with at most `count` digits inside the interval, the nearest to the value, as its digits and the power
of ten of the last one. -/
def decimalWithin? (i : Interval) (point : Int) (count : Nat) : Option (Nat × Int) :=
  let scale : Int := point - count
  let (up, down) := if scale < 0 then (1, Nat.pow 10 scale.natAbs) else (Nat.pow 10 scale.natAbs, 1)
  let grid := i.unit * up
  let floor := i.value * down / grid
  let inside (d : Nat) : Bool :=
    if i.closed then i.low * down ≤ d * grid && d * grid ≤ i.high * down
    else i.low * down < d * grid && d * grid < i.high * down
  let twice := 2 * i.value * down
  let middle := (2 * floor + 1) * grid
  match inside floor, inside (floor + 1) with
  | true, true =>
    some (if twice < middle ∨ (twice = middle ∧ floor % 2 = 0) then (floor, scale) else (floor + 1, scale))
  | true, false => some (floor, scale)
  | false, true => some (floor + 1, scale)
  | false, false => none

/-- The fewest digits that read back as `mantissa · 2 ^ exponent`, with the position of the decimal point. -/
def shortest (mantissa : Nat) (exponent : Int) : Text × Int :=
  let i := interval mantissa exponent
  let point := pointPosition i.value i.unit
  match (List.range 17).findSome? fun n => decimalWithin? i point (n + 1) with
  | some (digits, scale) =>
    let text := Text.ofNat digits
    (Text.trimEnd '0' text, scale + text.length)
  | none => ([], 0)

/-- Digits with a decimal point at a given position before the first of them. -/
def layout (digits : Text) (point : Int) : Text :=
  let zeros (n : Nat) : Text := List.replicate n (CodePoint.ofChar '0')
  if -3 ≤ point ∧ point ≤ 16 then
    if point ≤ 0 then "0." ++ zeros point.natAbs ++ digits
    else if digits.length ≤ point.natAbs then digits ++ zeros (point.natAbs - digits.length) ++ ".0"
    else digits.take point.natAbs ++ "." ++ digits.drop point.natAbs
  else
    let power := point - 1
    let magnitude := Text.ofNat power.natAbs
    let fraction : Text := if digits.length = 1 then [] else '.' :: digits.drop 1
    let sign : Text := if power < 0 then "-" else "+"
    digits.take 1 ++ fraction ++ "e" ++ sign ++ (if magnitude.length = 1 then "0" ++ magnitude else magnitude)

/-- The shortest decimal of a finite number, `nan`, `inf` or `-inf`. -/
def text : Binary64 → Text
  | .nan => "nan"
  | .infinite negative => if negative then "-inf" else "inf"
  | .finite negative mantissa exponent =>
    let unsigned : Text :=
      if mantissa = 0 then "0.0"
      else
        let (digits, point) := shortest mantissa exponent
        layout digits point
    if negative then '-' :: unsigned else unsigned

end PackageExports.Binary64
