import PackageExports.Proofs.Detection
import PackageExports.Proofs.FoundFiles

/-!
# Detected builds are found again

The path that both entry points of a package share, without the mark of either build, is expanded to the two entry points
themselves: what tells the builds apart in detection is put back in the place where it was.

Main results: `Expansion.candidates_erased`, `Expansion.expand_erased`.
-/

namespace PackageExports

open PackageExports.Path (IsSegment IsClean IsInner)

namespace BuildPattern

/-- A row without the first place at which it differs from another one. -/
def dropDifference : List Text → List Text → List Text
  | a :: as, b :: bs => if a = b then a :: dropDifference as bs else as
  | as, _ => as

/-- What stands in a row at the first place at which it differs from another one. -/
def difference : List Text → List Text → Text
  | a :: as, b :: bs => if a = b then difference as bs else a
  | _, _ => []

def letters (name : Text) : Text :=
  name.takeWhile fun c => c.fold.isLower

/-- The mark by which the build of an entry point is told apart from that of another one: a directory, an extension or a
word at the start of the file name. -/
def mark (kind : PatternKind) (path other : Text) : Text :=
  match kind with
  | .byDirectory => difference (Text.splitOn '/' (Relative.bare path)) (Text.splitOn '/' (Relative.bare other))
  | .byExtension => (Written.splitSuffix (Relative.bare path)).2
  | .byNameStart => letters (Written.split (Relative.bare path)).2

/-- Which module system a mark stands for. -/
def flavorOf (kind : PatternKind) (mark : Text) : Flavor :=
  match kind with
  | .byExtension => .ofExtension mark
  | _ => .ofWord mark

/-- The names of an entry point without the mark of its build. -/
def erasedNames (kind : PatternKind) (names others : List Text) : List Text :=
  match kind with
  | .byDirectory => dropDifference names others
  | .byExtension => names.dropLast ++ [(Written.splitName (names.getLast?.getD [])).1 ++ ".js"]
  | .byNameStart => names.dropLast ++ [(names.getLast?.getD []).drop ((letters (names.getLast?.getD [])).length + 1)]

/-- An entry point without the mark of its build: the directory is left out, the extension is `.js`, or the word at the
start of the file name is left out with what separates it. -/
def erased (kind : PatternKind) (path other : Text) : Text :=
  "./" ++ Text.joinWith "/"
    (erasedNames kind (Text.splitOn '/' (Relative.bare path)) (Text.splitOn '/' (Relative.bare other)))

lemma dropDifference_append (front back : List Text) {a b : Text} (h : a ≠ b) :
    dropDifference (front ++ a :: back) (front ++ b :: back) = front ++ back := by
  induction front with
  | nil => exact if_neg h
  | cons x front ih =>
    rw [List.cons_append, List.cons_append, dropDifference, if_pos rfl, ih]
    rfl

lemma difference_append (front back : List Text) {a b : Text} (h : a ≠ b) :
    difference (front ++ a :: back) (front ++ b :: back) = a := by
  induction front with
  | nil => exact if_neg h
  | cons x front ih => rw [List.cons_append, List.cons_append, difference, if_pos rfl, ih]

lemma nameStart?_eq_some {name word separator rest : Text} (h : nameStart? name = some (word, separator, rest)) :
    name = word ++ separator ++ rest ∧ word = letters name ∧ separator.length = 1 := by
  unfold nameStart? at h
  dsimp only at h
  split_ifs at h
  split at h
  · rename_i c after hdrop
    obtain ⟨-, hsome⟩ := Option.ite_none_right_eq_some.mp h
    obtain ⟨rfl, hpair⟩ := Prod.mk.inj (Option.some.inj hsome)
    obtain ⟨rfl, rfl⟩ := Prod.mk.inj hpair
    refine ⟨?_, rfl, rfl⟩
    have hwhole := List.takeWhile_append_dropWhile (p := fun c : CodePoint => c.fold.isLower) (l := name)
    rw [Text.drop_length_takeWhile] at hdrop
    rw [hdrop] at hwhole
    rw [List.append_assoc]
    exact hwhole.symm
  · cases h

lemma drop_nameStart {name word separator rest : Text} (h : nameStart? name = some (word, separator, rest)) :
    name.drop ((letters name).length + 1) = rest := by
  obtain ⟨hname, hword, hone⟩ := nameStart?_eq_some h
  have hlength : (letters name).length + 1 = (word ++ separator).length := by
    rw [List.length_append, hword, hone]
  rw [hlength]
  conv_lhs => rw [hname]
  exact List.drop_left

lemma separator_ne_nil {name word separator rest : Text} (h : nameStart? name = some (word, separator, rest)) :
    separator ≠ [] := by
  rintro rfl
  obtain ⟨-, -, hone⟩ := nameStart?_eq_some h
  cases hone

end BuildPattern

namespace Relative

variable {path : Text}

lemma bare_eq_joinWith (path : Text) : bare path = Text.joinWith "/" (Text.splitOn '/' (bare path)) :=
  (Text.joinWith_splitOn _).symm

end Relative

namespace Expansion

open BuildPattern

lemma joinParts_joinWith (rows : List (List Text)) (h : ∀ row ∈ rows, ∀ name ∈ row, IsSegment name) :
    joinParts (rows.map (Text.joinWith "/")) = Text.joinWith "/" rows.flatten := by
  unfold joinParts
  induction rows with
  | nil => rfl
  | cons row rest ih =>
    obtain ⟨hrow, hrest⟩ := List.forall_mem_cons.mp h
    rw [List.map_cons, List.flatten_cons]
    by_cases hempty : row = []
    · rw [hempty, List.nil_append, ← ih hrest, List.filter_cons_of_neg (by decide)]
    · have hkept := joinWith_of_segments hempty hrow
      rw [List.filter_cons_of_pos (by simpa using hkept)]
      by_cases hothers : rest.flatten = []
      · have hnone : (rest.map (Text.joinWith "/")).filter (fun part => decide (part ≠ [] ∧ part ≠ ".")) = [] := by
          rw [List.filter_eq_nil_iff]
          intro part hpart
          obtain ⟨other, hother, rfl⟩ := List.mem_map.mp hpart
          rw [List.flatten_eq_nil_iff.mp hothers other hother]
          decide
        rw [hnone, hothers, List.append_nil]
        rfl
      · have hsegments : ∀ name ∈ rest.flatten, IsSegment name := by
          intro name hname
          obtain ⟨other, hother, hmem⟩ := List.mem_flatten.mp hname
          exact hrest other hother name hmem
        have hkeptRest : (rest.map (Text.joinWith "/")).filter (fun part => decide (part ≠ [] ∧ part ≠ ".")) ≠ [] := by
          intro hnil
          have hjoined := ih hrest
          rw [hnil] at hjoined
          exact (joinWith_of_segments hothers hsegments).1 hjoined.symm
        rw [Text.joinWith_cons _ _ hkeptRest, ih hrest, Text.joinWith_append _ hempty hothers]

lemma bare_base (front : List Text) :
    Relative.bare (Text.joinWith "/" ("." :: front)) =
      if front = [] then Text.ofString "." else Text.joinWith "/" front := by
  split_ifs with hempty
  · rw [hempty]
    decide
  · rw [Text.joinWith_cons _ _ hempty]
    exact Relative.bare_start _

lemma belowBase_joinWith {front back : List Text} (hfront : ∀ name ∈ front, IsSegment name) (hback : back ≠ []) :
    belowBase (Text.joinWith "/" (front ++ back)) [Relative.bare (Text.joinWith "/" ("." :: front)),
      Relative.bare (Text.joinWith "/" ("." :: front))] = Text.joinWith "/" back := by
  rw [bare_base, belowBase]
  split_ifs with hempty
  · rw [hempty]
    rfl
  · have hkept := joinWith_of_segments hempty hfront
    have hdrop : Text.dropStart? (Text.joinWith "/" front ++ "/") (Text.joinWith "/" (front ++ back)) =
        some (Text.joinWith "/" back) := by
      rw [Text.dropStart?_eq_some, Text.joinWith_append _ hempty hback]
    rw [List.filter_cons_of_pos (by simpa using hkept), List.findSome?_cons, hdrop]
    rfl

lemma joinParts_base {front back : List Text} {word : Text} (hfront : ∀ name ∈ front, IsSegment name)
    (hword : IsSegment word) (hback : ∀ name ∈ back, IsSegment name) :
    joinParts [Relative.bare (Text.joinWith "/" ("." :: front)), word, Text.joinWith "/" back] =
      Text.joinWith "/" (front ++ word :: back) := by
  have hparts := joinParts_joinWith [front, [word], back] (by
    intro row hrow
    simp only [List.mem_cons, List.not_mem_nil, or_false] at hrow
    rcases hrow with rfl | rfl | rfl
    · exact hfront
    · exact fun name hname => List.mem_singleton.mp hname ▸ hword
    · exact hback)
  have hflatten : [front, [word], back].flatten = front ++ word :: back := by simp
  rw [hflatten] at hparts
  rw [← hparts, bare_base]
  split_ifs with hempty
  · rw [hempty]
    rfl
  · rfl

lemma candidates_byDirectory {front back : List Text} {cjsWord esmWord : Text}
    (hfront : ∀ name ∈ front, IsSegment name) (hback : ∀ name ∈ back, IsSegment name) (hne : back ≠ [])
    (hcjs : IsSegment cjsWord) (hesm : IsSegment esmWord) :
    candidates .byDirectory ⟨Text.joinWith "/" ("." :: front), cjsWord, []⟩
        ⟨Text.joinWith "/" ("." :: front), esmWord, []⟩ (Text.joinWith "/" (front ++ back)) =
      (Text.joinWith "/" (front ++ cjsWord :: back), Text.joinWith "/" (front ++ esmWord :: back)) := by
  unfold candidates
  dsimp only
  rw [belowBase_joinWith hfront hne, joinParts_base hfront hcjs hback, joinParts_base hfront hesm hback]

lemma joinParts_pair {front : List Text} {name : Text} (hfront : ∀ name ∈ front, IsSegment name)
    (hname : IsSegment name) : joinParts [Text.joinWith "/" front, name] = Text.joinWith "/" (front ++ [name]) := by
  have hparts := joinParts_joinWith [front, [name]] (by
    intro row hrow
    simp only [List.mem_cons, List.not_mem_nil, or_false] at hrow
    rcases hrow with rfl | rfl
    · exact hfront
    · exact fun other hother => List.mem_singleton.mp hother ▸ hname)
  have hflatten : [front, [name]].flatten = front ++ [name] := by simp
  rwa [hflatten] at hparts

lemma candidates_byExtension {front : List Text} {stem : Text} (hfront : ∀ name ∈ front, IsSegment name)
    (hstem : IsSegment stem) (hsplit : (Written.splitName (stem ++ ".js")).1 = stem) (cjs esm : BuildSide) :
    candidates .byExtension cjs esm (Text.joinWith "/" (front ++ [stem ++ ".js"])) =
      (Text.joinWith "/" (front ++ [stem ++ cjs.marker]), Text.joinWith "/" (front ++ [stem ++ esm.marker])) := by
  have hname : IsSegment (stem ++ ".js") := hstem.append (by decide)
  unfold candidates
  dsimp only
  rw [Written.split_joinWith (fun name h => ⟨(hfront name h).1, (hfront name h).2.2⟩) hname.2.2]
  dsimp only
  rw [hsplit, joinParts_pair hfront hstem, Text.joinWith_concat_append, Text.joinWith_concat_append]

lemma candidates_byNameStart {front : List Text} {rest : Text} {cjs esm : BuildSide}
    (hfront : ∀ name ∈ front, IsSegment name) (hrest : IsSegment rest) (hcjs : cjs.separator ≠ [])
    (hesm : esm.separator ≠ []) (hcjsName : IsSegment (cjs.marker ++ cjs.separator ++ rest))
    (hesmName : IsSegment (esm.marker ++ esm.separator ++ rest)) :
    candidates .byNameStart cjs esm (Text.joinWith "/" (front ++ [rest])) =
      (Text.joinWith "/" (front ++ [cjs.marker ++ cjs.separator ++ rest]),
        Text.joinWith "/" (front ++ [esm.marker ++ esm.separator ++ rest])) := by
  have hmarked (side : BuildSide) (hseparator : side.separator ≠ [])
      (hname : IsSegment (side.marker ++ side.separator ++ rest)) :
      markedName side (Text.joinWith "/" front) rest =
        Text.joinWith "/" (front ++ [side.marker ++ side.separator ++ rest]) := by
    rw [markedName, if_neg (by simpa using hseparator), joinParts_pair hfront hname]
  unfold candidates
  dsimp only
  rw [Written.split_joinWith (fun name h => ⟨(hfront name h).1, (hfront name h).2.2⟩) hrest.2.2]
  dsimp only
  rw [hmarked cjs hcjs hcjsName, hmarked esm hesm hesmName]

end Expansion

namespace Written

lemma splitName_of_stem {dots chars extension : Text} {c : CodePoint} (hdots : ∀ d ∈ dots, d = CodePoint.ofChar '.')
    (hc : c ≠ CodePoint.ofChar '.') (hextension : CodePoint.ofChar '.' ∉ extension) :
    splitName (dots ++ c :: chars ++ CodePoint.ofChar '.' :: extension) =
      (dots ++ c :: chars, CodePoint.ofChar '.' :: extension) := by
  have hleading : Text.leading '.' (dots ++ c :: chars ++ CodePoint.ofChar '.' :: extension) = dots.length := by
    rw [Text.leading, List.append_assoc, List.takeWhile_append_of_pos (by simpa using hdots)]
    simp [hc]
  have hcut : Text.splitAtLast? '.' (c :: chars ++ CodePoint.ofChar '.' :: extension) = some (c :: chars, extension) :=
    Text.splitAtLast?_eq_some.mpr ⟨rfl, hextension⟩
  rw [splitName, hleading, List.append_assoc, List.drop_left, List.take_left, hcut]

lemma exists_stem {name : Text} (h : (splitName name).2 ≠ []) :
    ∃ dots chars extension c, (∀ d ∈ dots, d = CodePoint.ofChar '.') ∧ c ≠ CodePoint.ofChar '.' ∧
      CodePoint.ofChar '.' ∉ extension ∧ name = dots ++ c :: chars ++ CodePoint.ofChar '.' :: extension := by
  unfold splitName at h
  dsimp only at h
  split at h
  · rename_i stem suffix hcut
    obtain ⟨hdrop, hsuffix⟩ := Text.splitAtLast?_eq_some.mp hcut
    have hwhole := List.takeWhile_append_dropWhile (p := fun c => c == CodePoint.ofChar '.') (l := name)
    have hhead := List.head?_dropWhile_not (fun c => c == CodePoint.ofChar '.') name
    rw [Text.leading, Text.drop_length_takeWhile] at hdrop
    rw [hdrop] at hwhole hhead
    cases stem with
    | nil => simp at hhead
    | cons c chars =>
      refine ⟨name.takeWhile fun c => c == CodePoint.ofChar '.', chars, suffix, c, ?_, ?_, hsuffix, ?_⟩
      · intro d hd
        simpa using List.mem_takeWhile_imp hd
      · simpa using hhead
      · rw [List.append_assoc]
        exact hwhole.symm
  · exact absurd rfl h

/-- A name with an extension keeps its stem when the extension is replaced. -/
lemma stem_spec {name : Text} (h : (splitName name).2 ≠ []) (hslash : CodePoint.ofChar '/' ∉ name) :
    IsSegment (splitName name).1 ∧ name = (splitName name).1 ++ (splitName name).2 ∧
      (splitName ((splitName name).1 ++ ".js")).1 = (splitName name).1 := by
  obtain ⟨dots, chars, extension, c, hdots, hc, hextension, rfl⟩ := exists_stem h
  have hnoDot : CodePoint.ofChar '.' ∉ Text.ofString "js" := by decide
  have hscript : splitName (dots ++ c :: chars ++ ".js") = (dots ++ c :: chars, Text.ofString ".js") :=
    splitName_of_stem hdots hc hnoDot
  rw [splitName_of_stem hdots hc hextension]
  dsimp only
  rw [hscript]
  refine ⟨⟨by simp, ?_, fun hmem => hslash (List.mem_append_left _ hmem)⟩, rfl, rfl⟩
  intro hdot
  rcases List.append_eq_singleton_iff.mp hdot with ⟨-, hchars⟩ | ⟨-, hnil⟩
  · exact hc (List.cons.inj hchars).1
  · cases hnil

end Written

/-- The names of a path, the last of them by itself. -/
structure Relative.Row (path : Text) (front : List Text) (last : Text) : Prop where
  names : Text.splitOn '/' (bare path) = front ++ [last]
  front : ∀ name ∈ front, IsSegment name
  last : IsSegment last

namespace Relative

lemma IsTidy.exists_row {path : Text} (h : IsTidy path) : ∃ front last, Row path front last := by
  obtain ⟨front, last, hrow, -⟩ := Text.exists_splitOn (bare path)
  have hsegments : ∀ name ∈ front ++ [last], IsSegment name := hrow ▸ h
  exact ⟨front, last, hrow, fun name hname => hsegments name (by simp [hname]), hsegments last (by simp)⟩

lemma IsProper.exists_row {path : Text} (h : IsProper path) : ∃ front last, Row path front last :=
  IsTidy.exists_row h.isSegment

variable {path other : Text} {front others : List Text} {last otherLast : Text}

lemma Row.bare_eq (h : Row path front last) : bare path = Text.joinWith "/" (front ++ [last]) := by
  rw [← h.names, Text.joinWith_splitOn]

lemma Row.dotted_eq (h : Row path front last) : dotted path = Text.joinWith "/" ((Text.ofString "." :: front) ++ [last]) := by
  rw [Relative.dotted_eq, h.bare_eq, List.cons_append, Text.joinWith_cons _ _ (by simp)]
  rfl

lemma Row.parts (h : Row path front last) :
    ∀ name ∈ Text.ofString "." :: front, name ≠ [] ∧ CodePoint.ofChar '/' ∉ name := by
  intro name hname
  rcases List.mem_cons.mp hname with rfl | hname
  · decide
  · exact ⟨(h.front name hname).1, (h.front name hname).2.2⟩

lemma Row.split_dotted (h : Row path front last) :
    Written.split (dotted path) = (Text.joinWith "/" (Text.ofString "." :: front), last) := by
  rw [h.dotted_eq, Written.split_joinWith h.parts h.last.2.2]

lemma Row.split_bare (h : Row path front last) :
    Written.split (bare path) = (Text.joinWith "/" front, last) := by
  rw [h.bare_eq, Written.split_joinWith (fun name hname => h.parts name (List.mem_cons_of_mem _ hname)) h.last.2.2]

lemma Row.front_inj (h : Row path front last) (h' : Row other others otherLast)
    (heq : Text.joinWith "/" (Text.ofString "." :: front) = Text.joinWith "/" (Text.ofString "." :: others)) :
    front = others := by
  have hrows := Text.joinWith_inj (List.cons_ne_nil _ _) (List.cons_ne_nil _ _) (fun name hname => (h.parts name hname).2)
    (fun name hname => (h'.parts name hname).2) heq
  exact (List.cons.inj hrows).2

lemma Row.append_inj (h : Row path front last) (h' : Row other others otherLast) {a b : Text}
    (ha : CodePoint.ofChar '/' ∉ a) (hb : CodePoint.ofChar '/' ∉ b)
    (heq : Text.joinWith "/" ((Text.ofString "." :: front) ++ [a]) =
      Text.joinWith "/" ((Text.ofString "." :: others) ++ [b])) :
    front = others ∧ a = b := by
  have hslash {row : List Text} {x : Text} (hrow : ∀ name ∈ row, name ≠ [] ∧ CodePoint.ofChar '/' ∉ name)
      (hx : CodePoint.ofChar '/' ∉ x) : ∀ name ∈ row ++ [x], CodePoint.ofChar '/' ∉ name := by
    intro name hname
    rcases List.mem_append.mp hname with hname | hname
    · exact (hrow name hname).2
    · exact List.mem_singleton.mp hname ▸ hx
  have hrows := Text.joinWith_inj (by simp) (by simp) (hslash h.parts ha) (hslash h'.parts hb) heq
  obtain ⟨hfront, hlast⟩ := List.append_inj' hrows rfl
  exact ⟨(List.cons.inj hfront).2, (List.cons.inj hlast).1⟩

end Relative

open BuildPattern Expansion

section Erased

variable {main module : Text} (side : Side)

lemma candidates_erased_byDirectory {front back : List Text} {mainWord moduleWord mainName moduleName : Text}
    (hmain : Relative.IsProper main) (hmodule : Relative.IsProper module)
    (hmainSplit : Text.splitOn '/' (Relative.dotted main) = front ++ mainWord :: back ++ [mainName])
    (hmoduleSplit : Text.splitOn '/' (Relative.dotted module) = front ++ moduleWord :: back ++ [moduleName])
    (hne : mainWord ≠ moduleWord) (hnames : (Path.ofText main).name = (Path.ofText module).name) :
    mark .byDirectory main module = mainWord ∧ mark .byDirectory module main = moduleWord ∧
      candidates .byDirectory
        (side.arrange ⟨Text.joinWith "/" front, mainWord, []⟩ ⟨Text.joinWith "/" front, moduleWord, []⟩).1
        (side.arrange ⟨Text.joinWith "/" front, mainWord, []⟩ ⟨Text.joinWith "/" front, moduleWord, []⟩).2
        (Relative.bare (erased .byDirectory main module)) =
          side.arrange (Relative.bare main) (Relative.bare module) := by
  have hmainSegments := hmain.isSegment
  have hmoduleSegments := hmodule.isSegment
  have hmainText := Relative.bare_eq_joinWith main
  have hmoduleText := Relative.bare_eq_joinWith module
  rw [Path.name, Path.name, Relative.IsTidy.ofText hmain.isSegment, Relative.IsTidy.ofText hmodule.isSegment] at hnames
  rw [Relative.splitOn_dotted] at hmainSplit hmoduleSplit
  cases front with
  | nil =>
    obtain ⟨rfl, -⟩ := List.cons.inj hmainSplit
    obtain ⟨rfl, -⟩ := List.cons.inj hmoduleSplit
    exact absurd rfl hne
  | cons first front =>
    obtain rfl : Text.ofString "." = first := (List.cons.inj hmainSplit).1
    have hmainParts : Text.splitOn '/' (Relative.bare main) = front ++ mainWord :: back ++ [mainName] :=
      (List.cons.inj hmainSplit).2
    have hmoduleParts : Text.splitOn '/' (Relative.bare module) = front ++ moduleWord :: back ++ [moduleName] :=
      (List.cons.inj hmoduleSplit).2
    have hsame : mainName = moduleName := by
      rw [hmainParts, hmoduleParts] at hnames
      dsimp only at hnames
      rwa [List.getLast?_concat, List.getLast?_concat] at hnames
    have hmainRow : Text.splitOn '/' (Relative.bare main) = front ++ mainWord :: (back ++ [mainName]) := by
      rw [hmainParts, List.append_assoc]
      rfl
    have hmoduleRow : Text.splitOn '/' (Relative.bare module) = front ++ moduleWord :: (back ++ [mainName]) := by
      rw [hmoduleParts, hsame, List.append_assoc]
      rfl
    rw [hmainRow] at hmainSegments hmainText
    rw [hmoduleRow] at hmoduleSegments hmoduleText
    have hfront : ∀ name ∈ front, IsSegment name := fun name h => hmainSegments name (by simp [h])
    have hback : ∀ name ∈ back ++ [mainName], IsSegment name := by
      intro name h
      exact hmainSegments name (List.mem_append_right _ (List.mem_cons_of_mem _ h))
    have hmainWord : IsSegment mainWord := hmainSegments mainWord (by simp)
    have hmoduleWord : IsSegment moduleWord := hmoduleSegments moduleWord (by simp)
    refine ⟨?_, ?_, ?_⟩
    · rw [mark, hmainRow, hmoduleRow, difference_append _ _ hne]
    · rw [mark, hmainRow, hmoduleRow, difference_append _ _ hne.symm]
    · rw [erased, Relative.bare_start, erasedNames, hmainRow, hmoduleRow, dropDifference_append _ _ hne, hmainText,
        hmoduleText]
      cases side with
      | first => exact candidates_byDirectory hfront hback (by simp) hmainWord hmoduleWord
      | second => exact candidates_byDirectory hfront hback (by simp) hmoduleWord hmainWord

lemma candidates_erased_byExtension {base mainExtension moduleExtension : Text} (hmain : Relative.IsProper main)
    (hmodule : Relative.IsProper module)
    (hmainSplit : Written.splitSuffix (Relative.dotted main) = (base, mainExtension))
    (hmoduleSplit : Written.splitSuffix (Relative.dotted module) = (base, moduleExtension))
    (hmainExtension : mainExtension ≠ []) (hmoduleExtension : moduleExtension ≠ []) :
    mark .byExtension main module = mainExtension ∧ mark .byExtension module main = moduleExtension ∧
      candidates .byExtension (side.arrange ⟨base, mainExtension, []⟩ ⟨base, moduleExtension, []⟩).1
        (side.arrange ⟨base, mainExtension, []⟩ ⟨base, moduleExtension, []⟩).2
        (Relative.bare (erased .byExtension main module)) =
          side.arrange (Relative.bare main) (Relative.bare module) := by
  obtain ⟨front, last, hmainRow⟩ := hmain.exists_row
  obtain ⟨others, other, hmoduleRow⟩ := hmodule.exists_row
  rw [hmainRow.dotted_eq, Written.splitSuffix_joinWith _ hmainRow.last.2.2] at hmainSplit
  rw [hmoduleRow.dotted_eq, Written.splitSuffix_joinWith _ hmoduleRow.last.2.2] at hmoduleSplit
  obtain ⟨rfl, rfl⟩ := Prod.mk.inj hmainSplit
  obtain ⟨hbase, rfl⟩ := Prod.mk.inj hmoduleSplit
  obtain ⟨hstem, hlast, hscript⟩ := Written.stem_spec hmainExtension hmainRow.last.2.2
  obtain ⟨hotherStem, hother, -⟩ := Written.stem_spec hmoduleExtension hmoduleRow.last.2.2
  obtain ⟨rfl, hsame⟩ := hmoduleRow.append_inj hmainRow hotherStem.2.2 hstem.2.2 hbase
  have hmainText : Relative.bare main =
      Text.joinWith "/" (others ++ [(Written.splitName last).1 ++ (Written.splitName last).2]) := by
    rw [← hlast, hmainRow.bare_eq]
  have hmoduleText : Relative.bare module =
      Text.joinWith "/" (others ++ [(Written.splitName last).1 ++ (Written.splitName other).2]) := by
    rw [← hsame, ← hother, hmoduleRow.bare_eq]
  refine ⟨?_, ?_, ?_⟩
  · rw [mark, hmainRow.bare_eq, Written.splitSuffix_joinWith _ hmainRow.last.2.2]
  · rw [mark, hmoduleRow.bare_eq, Written.splitSuffix_joinWith _ hmoduleRow.last.2.2]
  · rw [erased, Relative.bare_start, erasedNames, hmainRow.names, List.dropLast_concat, List.getLast?_concat,
      Option.getD_some, candidates_byExtension hmainRow.front hstem hscript, hmainText, hmoduleText]
    cases side <;> rfl

lemma candidates_erased_byNameStart {directory mainName moduleName mainWord mainSeparator moduleWord moduleSeparator
    rest : Text} (hmain : Relative.IsProper main) (hmodule : Relative.IsProper module)
    (hmainSplit : Written.split (Relative.dotted main) = (directory, mainName))
    (hmoduleSplit : Written.split (Relative.dotted module) = (directory, moduleName))
    (hmainStart : nameStart? mainName = some (mainWord, mainSeparator, rest))
    (hmoduleStart : nameStart? moduleName = some (moduleWord, moduleSeparator, rest))
    (herased : Relative.IsProper (erased .byNameStart main module)) :
    mark .byNameStart main module = mainWord ∧ mark .byNameStart module main = moduleWord ∧
      candidates .byNameStart
        (side.arrange ⟨directory, mainWord, mainSeparator⟩ ⟨directory, moduleWord, moduleSeparator⟩).1
        (side.arrange ⟨directory, mainWord, mainSeparator⟩ ⟨directory, moduleWord, moduleSeparator⟩).2
        (Relative.bare (erased .byNameStart main module)) =
          side.arrange (Relative.bare main) (Relative.bare module) := by
  obtain ⟨front, last, hmainRow⟩ := hmain.exists_row
  obtain ⟨others, other, hmoduleRow⟩ := hmodule.exists_row
  rw [hmainRow.split_dotted] at hmainSplit
  rw [hmoduleRow.split_dotted] at hmoduleSplit
  obtain ⟨rfl, rfl⟩ := Prod.mk.inj hmainSplit
  obtain ⟨hdirectory, rfl⟩ := Prod.mk.inj hmoduleSplit
  obtain rfl : others = front := hmoduleRow.front_inj hmainRow hdirectory
  obtain ⟨hlast, hmainWord, -⟩ := nameStart?_eq_some hmainStart
  obtain ⟨hother, hmoduleWord, -⟩ := nameStart?_eq_some hmoduleStart
  have hshared : Relative.bare (erased .byNameStart main module) = Text.joinWith "/" (others ++ [rest]) := by
    rw [erased, Relative.bare_start, erasedNames, hmainRow.names, List.dropLast_concat, List.getLast?_concat,
      Option.getD_some, drop_nameStart hmainStart]
  have hrest : IsSegment rest := by
    have hslash : ∀ name ∈ others ++ [rest], CodePoint.ofChar '/' ∉ name := by
      intro name hname
      rcases List.mem_append.mp hname with hname | hname
      · exact (hmainRow.front name hname).2.2
      · obtain rfl := List.mem_singleton.mp hname
        intro hmem
        exact hmainRow.last.2.2 (hlast ▸ List.mem_append_right _ hmem)
    have hproper := herased.isSegment
    rw [hshared, Text.splitOn_joinWith (by simp) hslash] at hproper
    exact hproper rest (by simp)
  have hmainSide : IsSegment (mainWord ++ mainSeparator ++ rest) := hlast ▸ hmainRow.last
  have hmoduleSide : IsSegment (moduleWord ++ moduleSeparator ++ rest) := hother ▸ hmoduleRow.last
  have hmainSeparator := separator_ne_nil hmainStart
  have hmoduleSeparator := separator_ne_nil hmoduleStart
  refine ⟨?_, ?_, ?_⟩
  · rw [mark, hmainRow.split_bare, hmainWord]
  · rw [mark, hmoduleRow.split_bare, hmoduleWord]
  · rw [hshared, hmainRow.bare_eq, hmoduleRow.bare_eq]
    conv_rhs => rw [hlast, hother]
    cases side with
    | first =>
      exact candidates_byNameStart hmainRow.front hrest hmainSeparator hmoduleSeparator hmainSide hmoduleSide
    | second =>
      exact candidates_byNameStart hmainRow.front hrest hmoduleSeparator hmainSeparator hmoduleSide hmainSide

/-- The two builds of the path that two entry points share are these entry points. -/
theorem candidates_erased {kind : PatternKind} {cjs esm : BuildSide} (hmain : Relative.IsProper main)
    (hmodule : Relative.IsProper module) (hpattern : detect (some main) (some module) = .dual kind cjs esm)
    (hnames : kind = .byDirectory → (Path.ofText main).name = (Path.ofText module).name)
    (herased : Relative.IsProper (erased kind main module)) :
    ∃ side, Flavor.cjsSide? (flavorOf kind (mark kind main module)) (flavorOf kind (mark kind module main)) = some side ∧
      candidates kind cjs esm (Relative.bare (erased kind main module)) =
        side.arrange (Relative.bare main) (Relative.bare module) := by
  obtain ⟨mainPath, modulePath, hmainPath, hmodulePath, hdetected⟩ := detected_of_detect hpattern
  obtain rfl := Option.some.inj hmainPath
  obtain rfl := Option.some.inj hmodulePath
  cases hdetected with
  | @byDirectory _ _ _ _ _ _ side hmainSplit hmoduleSplit hne hside =>
    obtain ⟨hmark, hother, hcandidates⟩ :=
      candidates_erased_byDirectory side hmain hmodule hmainSplit hmoduleSplit hne (hnames rfl)
    rw [hmark, hother]
    exact ⟨side, hside, hcandidates⟩
  | @byExtension _ _ _ side hmainSplit hmoduleSplit hside =>
    have hextension {extension : Text} (h : Flavor.ofExtension extension ≠ .unknown) : extension ≠ [] := by
      rintro rfl
      exact absurd (Flavor.mem_extensions h) (by decide)
    obtain ⟨hknown, hknown'⟩ := Flavor.known_of_cjsSide? hside
    obtain ⟨hmark, hother, hcandidates⟩ := candidates_erased_byExtension side hmain hmodule hmainSplit
      hmoduleSplit (hextension hknown) (hextension hknown')
    rw [hmark, hother]
    exact ⟨side, hside, hcandidates⟩
  | @byNameStart _ _ _ _ _ _ _ _ side hmainSplit hmoduleSplit hmainStart hmoduleStart hside =>
    obtain ⟨hmark, hother, hcandidates⟩ := candidates_erased_byNameStart side hmain hmodule hmainSplit
      hmoduleSplit hmainStart hmoduleStart herased
    rw [hmark, hother]
    exact ⟨side, hside, hcandidates⟩

/-- Detection and expansion agree: if two entry points show two builds, then the path that they share is expanded to the
entry points themselves, the CommonJS one under `require` and the other one under `import`. -/
theorem expand_erased (fs : FileSystem) (package : Text) {main module : Text} {kind : PatternKind} {cjs esm : BuildSide}
    (hmain : Relative.IsProper main) (hmodule : Relative.IsProper module)
    (hpattern : detect (some main) (some module) = .dual kind cjs esm)
    (hnames : kind = .byDirectory → (Path.ofText main).name = (Path.ofText module).name)
    (herased : Relative.IsProper (erased kind main module))
    (hmainFile : fs.isFile (Path.ofText package / main).text = true)
    (hmoduleFile : fs.isFile (Path.ofText package / module).text = true) :
    ∃ side conditions,
      Flavor.cjsSide? (flavorOf kind (mark kind main module)) (flavorOf kind (mark kind module main)) = some side ∧
      expand fs (Path.ofText package) (.dual kind cjs esm) (erased kind main module)
        ({} : Settings).sourceDirectories = .ok (some conditions) ∧
      conditions.required = some (Relative.dotted (side.arrange main module).1) ∧
      conditions.imported = some (Relative.dotted (side.arrange main module).2) := by
  have hpackage := Path.isClean_ofText package
  obtain ⟨side, hside, hcandidates⟩ := candidates_erased hmain hmodule hpattern hnames herased
  have harrange : side.arrange (Relative.bare main) (Relative.bare module) =
      (Relative.bare (side.arrange main module).1, Relative.bare (side.arrange main module).2) := by
    cases side <;> rfl
  rw [harrange] at hcandidates
  obtain ⟨hcjs, hesm⟩ := side.forall_arrange
    (P := fun path => resolve? fs (Path.ofText package) extensions (Relative.bare path) =
      .ok (some (Relative.dotted path)))
    (resolve?_of_isTidy hpackage hmain.isSegment hmainFile) (resolve?_of_isTidy hpackage hmodule.isSegment hmoduleFile)
  have hrow := Relative.bare_eq_joinWith (erased kind main module)
  have hnonempty := Text.splitOn_ne_nil (CodePoint.ofChar '/') (Relative.bare (erased kind main module))
  have hinner : IsInner (Relative.bare (erased kind main module)) := by
    rw [hrow]
    exact Path.isInner_joinWith hnonempty herased.isSegment
  have hkept := joinWith_of_segments hnonempty herased.isSegment
  rw [← hrow] at hkept
  have hextensions : ∀ e ∈ extensions, CodePoint.ofChar '/' ∉ e := by decide
  have hsources : ∀ directory ∈ ({} : Settings).sourceDirectories, IsInner directory := by decide
  obtain ⟨ownFile, hown⟩ := exists_resolve? fs hpackage hinner hextensions
  obtain ⟨source, hsource⟩ := SourceFile.exists_find? fs hpackage (Path.anchor_eq_relative.mp hinner.1) hsources
    ({} : Settings).buildDirectories
  obtain ⟨file, hfile⟩ : ∃ file, (ownFile <|> some (Relative.dotted (side.arrange main module).2) <|>
      some (Relative.dotted (side.arrange main module).1)) = some file := by
    cases ownFile <;> exact ⟨_, rfl⟩
  refine ⟨side, _, hside, expand_eq_some.mpr ⟨hkept, _, _, ownFile, file, source, ?_, ?_, hown, hfile, hsource, rfl⟩,
    rfl, rfl⟩
  · rw [hcandidates]
    exact hcjs
  · rw [hcandidates]
    exact hesm

end Erased

/-- A package whose two builds are in the directories `lib/cjs` and `lib/esm`. -/
def twoBuilds : FileSystem :=
  ((((FileSystem.empty.put ["lib"] .directory).put ["lib", "cjs"] .directory).put ["lib", "esm"] .directory).put
    ["lib", "cjs", "index.js"] (.file [])).put ["lib", "esm", "index.js"] (.file [])

/-- The path `./lib/index.js` of that package is expanded to its two entry points. -/
theorem expand_erased_twoBuilds : ∃ cjs esm conditions,
    detect (some "./lib/cjs/index.js") (some "lib/esm/index.js") = .dual .byDirectory cjs esm ∧
      expand twoBuilds (Path.ofText ".") (.dual .byDirectory cjs esm) "./lib/index.js"
        ({} : Settings).sourceDirectories = .ok (some conditions) ∧
      conditions.required = some "./lib/cjs/index.js" ∧ conditions.imported = some "./lib/esm/index.js" := by
  have hpattern : detect (some "./lib/cjs/index.js") (some "lib/esm/index.js") =
      .dual .byDirectory ⟨"./lib", "cjs", []⟩ ⟨"./lib", "esm", []⟩ := by decide
  obtain ⟨side, conditions, hside, hexpand, hrequired, himported⟩ :=
    expand_erased twoBuilds "." (by decide) (by decide) hpattern (fun _ => by decide) (by decide) (by decide +kernel)
      (by decide +kernel)
  have hfirst : Flavor.cjsSide? (flavorOf .byDirectory (mark .byDirectory "./lib/cjs/index.js" "lib/esm/index.js"))
      (flavorOf .byDirectory (mark .byDirectory "lib/esm/index.js" "./lib/cjs/index.js")) = some .first := by decide
  obtain rfl : Side.first = side := Option.some.inj (hfirst.symm.trans hside)
  exact ⟨_, _, conditions, hpattern, hexpand, hrequired, himported⟩

end PackageExports
