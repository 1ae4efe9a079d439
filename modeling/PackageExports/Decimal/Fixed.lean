import PackageExports.Decimal.Binary64

/-!
# Decimals with six places

`Binary64.sixPlaces` writes a number with six digits after the point, rounded to nearest, a tie to the even digit.
-/

namespace PackageExports

/-- A quotient with six digits after the decimal point. -/
def sixPlacesOfRatio (num den : Nat) : Text :=
  let millionths := Text.ofNat (roundedQuotient (num * 1000000) den)
  let padded : Text := List.replicate (7 - millionths.length) (CodePoint.ofChar '0') ++ millionths
  padded.take (padded.length - 6) ++ "." ++ padded.drop (padded.length - 6)

/-- A number with six digits after the decimal point, `nan`, `inf` or `-inf`. -/
def Binary64.sixPlaces : Binary64 → Text
  | .nan => "nan"
  | .infinite negative => if negative then "-inf" else "inf"
  | .finite negative mantissa exponent =>
    let (num, den) := ratio mantissa exponent
    if negative then '-' :: sixPlacesOfRatio num den else sixPlacesOfRatio num den

end PackageExports
