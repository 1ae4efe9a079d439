import PackageExports.Proofs.CleanPaths
import PackageExports.Script.Specifier

/-!
# Specifiers and what they name

A specifier is taken apart at its slashes: the first piece of it names the package, or the first two do if it begins with
`@`, and the rest is the path. Nothing is lost, so that a specifier can be told from the package and the path. The path
is in its normal form unless the name of the package is followed by one slash and nothing else.

Main results: `PackageImport.exists_pieces`, `PackageImport.specifier_told`.
-/

namespace PackageExports

namespace Text

variable {t first : Text} {rest : List Text}

lemma startsWith_of_splitOn (h : splitOn '/' t = first :: rest) (hfirst : first ≠ []) (c : CodePoint) :
    startsWith first [c] = startsWith t [c] := by
  cases t with
  | nil =>
    obtain ⟨rfl, -⟩ := List.cons.inj h
    exact absurd rfl hfirst
  | cons x t =>
    rw [splitOn] at h
    split_ifs at h
    · obtain ⟨rfl, -⟩ := List.cons.inj h
      exact absurd rfl hfirst
    · split at h <;> obtain ⟨rfl, -⟩ := List.cons.inj h <;> rfl

end Text

namespace PackageImport

variable {specifier : Text} {i : PackageImport}

/-- A path in its normal form: the package itself, or a path with something after `./`. -/
def IsNormal (path : Text) : Prop :=
  path = "." ∨ ∃ rest : Text, rest ≠ [] ∧ path = "./" ++ rest

/-- The pieces of a specifier that name the package, and those that are left. -/
lemma exists_pieces (h : ofSpecifier? specifier = some i) : ∃ names rest : List Text,
    Text.splitOn '/' specifier = names ++ rest ∧
      names.length = (if Text.startsWith specifier "@" then 2 else 1) ∧
      i = ⟨Text.joinWith "/" names, if rest = [] then "." else "./" ++ Text.joinWith "/" rest⟩ := by
  unfold ofSpecifier? at h
  simp only [List.isEmpty_iff] at h
  obtain ⟨first, rest, hsplit⟩ := List.exists_cons_of_ne_nil (Text.splitOn_ne_nil (CodePoint.ofChar '/') specifier)
  rw [hsplit] at h ⊢
  dsimp only at h
  by_cases hskipped : first = [] ∨ Text.startsWith first "." = true
  · rw [if_pos hskipped] at h
    cases h
  have hbegin : Text.startsWith first "@" = Text.startsWith specifier "@" :=
    Text.startsWith_of_splitOn hsplit (fun hnil => hskipped (.inl hnil)) _
  rw [if_neg hskipped, hbegin] at h
  by_cases hscope : Text.startsWith specifier "@" = true
  · rw [if_pos hscope] at h ⊢
    cases rest with
    | nil => cases h
    | cons second rest =>
      dsimp only at h
      by_cases hsecond : second = []
      · rw [if_pos hsecond] at h
        cases h
      · rw [if_neg hsecond] at h
        exact ⟨[first, second], rest, rfl, rfl, (Option.some.inj h).symm⟩
  · rw [if_neg hscope] at h ⊢
    exact ⟨[first], rest, rfl, rfl, (Option.some.inj h).symm⟩

lemma path_cases (h : ofSpecifier? specifier = some i) : i.path = "." ∨ ∃ rest : Text, i.path = "./" ++ rest := by
  obtain ⟨names, rest, -, -, rfl⟩ := exists_pieces h
  by_cases hrest : rest = []
  · exact .inl (if_pos hrest)
  · exact .inr ⟨Text.joinWith "/" rest, if_neg hrest⟩

/-- A specifier is the name of the package and the path without its point. -/
lemma package_append_path (h : ofSpecifier? specifier = some i) : i.package ++ i.path.drop 1 = specifier := by
  obtain ⟨names, rest, hsplit, hlength, rfl⟩ := exists_pieces h
  have hnames : names ≠ [] := by
    rintro rfl
    split_ifs at hlength
  rw [← Text.joinWith_splitOn specifier, hsplit]
  by_cases hrest : rest = []
  · rw [hrest, List.append_nil]
    exact List.append_nil _
  · rw [Text.joinWith_append _ hnames hrest, if_neg hrest, List.append_assoc]
    rfl

lemma count_package (h : ofSpecifier? specifier = some i) :
    i.package.count (CodePoint.ofChar '/') = if Text.startsWith specifier "@" then 1 else 0 := by
  obtain ⟨names, rest, hsplit, hlength, rfl⟩ := exists_pieces h
  have hnames : names ≠ [] := by
    rintro rfl
    split_ifs at hlength
  obtain ⟨front, last, rfl⟩ := (List.eq_nil_or_concat' names).resolve_left hnames
  have hslash : ∀ name ∈ front ++ [last], CodePoint.ofChar '/' ∉ name := by
    intro name hname
    exact Text.notMem_of_mem_splitOn (hsplit ▸ List.mem_append_left rest hname)
  rw [List.length_append, List.length_singleton] at hlength
  dsimp only
  rw [Text.count_joinWith hslash]
  split_ifs at hlength ⊢ <;> omega

lemma isNormal_below (rest : Text) : IsNormal ("./" ++ rest) ↔ rest ≠ [] := by
  constructor
  · rintro (hroot | ⟨other, hother, heq⟩)
    · cases hroot
    · rwa [List.append_cancel_left heq]
  · exact fun hrest => .inr ⟨rest, hrest, rfl⟩

lemma isNormal_iff (h : ofSpecifier? specifier = some i) :
    IsNormal i.path ↔ specifier ≠ i.package ++ Text.ofString "/" := by
  have hparts := package_append_path h
  rw [← hparts, Ne, List.append_cancel_left_eq]
  rcases path_cases h with hpath | ⟨rest, hpath⟩ <;> rw [hpath]
  · exact iff_of_true (.inl rfl) (by decide)
  · have hdrop : (Text.ofString "./" ++ rest).drop 1 = Text.ofString "/" ++ rest := rfl
    rw [isNormal_below, hdrop, List.append_right_eq_self]

/-- A specifier can be told from what it names: it is the name of the package and the path without its point. The name
holds one slash if the specifier begins with `@`, and none otherwise; the path is that of the package itself or starts
with `./`, and then something follows unless the specifier is the name of the package and a slash. -/
theorem specifier_told (h : ofSpecifier? specifier = some i) :
    i.package ++ i.path.drop 1 = specifier ∧
      i.package.count (CodePoint.ofChar '/') = (if Text.startsWith specifier "@" then 1 else 0) ∧
      (i.path = "." ∨ ∃ rest : Text, i.path = "./" ++ rest) ∧
      (IsNormal i.path ↔ specifier ≠ i.package ++ Text.ofString "/") ∧
      ∀ other, ofSpecifier? other = some i → other = specifier := by
  refine ⟨package_append_path h, count_package h, path_cases h, isNormal_iff h, fun other hother => ?_⟩
  rw [← package_append_path hother, package_append_path h]

/-- A path in a scoped package. -/
theorem specifier_told_button :
    ofSpecifier? "@scope/ui/lib/Button" = some ⟨"@scope/ui", "./lib/Button"⟩ ∧
      (Text.ofString "@scope/ui").count (CodePoint.ofChar '/') = 1 ∧ IsNormal "./lib/Button" := by
  have hspecifier : ofSpecifier? "@scope/ui/lib/Button" = some ⟨"@scope/ui", "./lib/Button"⟩ := by decide
  obtain ⟨-, hcount, -, hnormal, -⟩ := specifier_told hspecifier
  exact ⟨hspecifier, hcount, hnormal.mpr (by decide)⟩

/-- A slash after the name of a package gives a path that is not in its normal form. -/
theorem trailing_slash_not_normal :
    ofSpecifier? "process/" = some ⟨"process", "./"⟩ ∧ ¬IsNormal (Text.ofString "./") := by
  have hspecifier : ofSpecifier? "process/" = some ⟨"process", "./"⟩ := by decide
  exact ⟨hspecifier, fun hnormal => (isNormal_iff hspecifier).mp hnormal rfl⟩

end PackageImport

end PackageExports
