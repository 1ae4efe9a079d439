import PackageExports.Text.Basic

/-!
# White space

`CodePoint.isSpace` is the Unicode class of white space, and `CodePoint.isBlank` takes in the four information
separators as well. The zero width space and the byte order mark are in neither.
-/

namespace PackageExports.CodePoint

def isSpace (c : CodePoint) : Bool :=
  (9 ≤ c.val && c.val ≤ 13) || c.val == 32 || c.val == 0x85 || c.val == 0xA0 || c.val == 0x1680 ||
    (0x2000 ≤ c.val && c.val ≤ 0x200A) || c.val == 0x2028 || c.val == 0x2029 || c.val == 0x202F ||
    c.val == 0x205F || c.val == 0x3000

/-- White space or an information separator. -/
def isBlank (c : CodePoint) : Bool :=
  c.isSpace || (28 ≤ c.val && c.val ≤ 31)

end PackageExports.CodePoint

namespace PackageExports.Text

def trimSpace (t : Text) : Text :=
  ((t.dropWhile CodePoint.isSpace).reverse.dropWhile CodePoint.isSpace).reverse

end PackageExports.Text
