import PackageExports.Text.Printable

/-!
# Quoted text

A text between single quotation marks, or between double ones if it holds single ones only. What cannot be printed is
escaped.

Main definitions: `Text.quoted`.
-/

namespace PackageExports.Text

/-- A number in base sixteen with at least `width` digits. -/
def ofHex (width n : Nat) : Text :=
  let digits := (Nat.toDigits 16 n).map CodePoint.ofChar
  List.replicate (width - digits.length) (CodePoint.ofChar '0') ++ digits

/-- How a code point stands between quotation marks. -/
def quotedPoint (quotation c : CodePoint) : Text :=
  if c = quotation ∨ c = '\\' then ['\\', c]
  else if c = '\n' then "\\n"
  else if c = '\r' then "\\r"
  else if c = '\t' then "\\t"
  else if c.isPrintable then [c]
  else if c.val < 0x100 then "\\x" ++ ofHex 2 c.val
  else if c.val < 0x10000 then "\\u" ++ ofHex 4 c.val
  else "\\U" ++ ofHex 8 c.val

def quoted (t : Text) : Text :=
  let quotation : CodePoint :=
    if t.contains (CodePoint.ofChar '\'') && !t.contains (CodePoint.ofChar '"') then '"' else '\''
  quotation :: t.flatMap (quotedPoint quotation) ++ [quotation]

end PackageExports.Text
