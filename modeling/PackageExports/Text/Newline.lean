import PackageExports.Text.Basic

/-!
# Line ends

Files are read with every line end as a line feed: `Text.unifyNewlines` turns a carriage return, alone or before a
line feed, into one line feed.
-/

namespace PackageExports.Text

/-- `unifyNewlines` where the flag says whether a carriage return was just read. -/
def unifyNewlinesAfter (afterReturn : Bool) : Text → Text
  | [] => []
  | c :: rest =>
    if c = '\r' then '\n' :: unifyNewlinesAfter true rest
    else if c = '\n' ∧ afterReturn then unifyNewlinesAfter false rest
    else c :: unifyNewlinesAfter false rest

/-- The text with each of its three kinds of line end written as a line feed. -/
def unifyNewlines (t : Text) : Text :=
  unifyNewlinesAfter false t

end PackageExports.Text
