import PackageExports.Text.Basic

/-!
# Letters that differ in case only

Names are compared without regard to case by folding each code point to the ASCII letter it is a form of. Four
letters outside ASCII have such a form: long s, the dotted capital and the dotless small i, and the Kelvin sign.
-/

namespace PackageExports

/-- The small ASCII letter of which `c` is a form, or `c` itself. -/
def CodePoint.fold (c : CodePoint) : CodePoint :=
  if c.isUpper then c.toLower
  else if c.val = 0x17F then 's'
  else if c.val = 0x130 ∨ c.val = 0x131 then 'i'
  else if c.val = 0x212A then 'k'
  else c

def Text.fold (t : Text) : Text :=
  t.map CodePoint.fold

end PackageExports
