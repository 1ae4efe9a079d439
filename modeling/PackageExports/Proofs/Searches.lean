import PackageExports.Proofs.ExtensionBuilds
import PackageExports.Proofs.LevelPaths

/-!
# Searches

A search goes through its directories and ends at the first in which the name is there, as a file with an extension or as
a directory with an index file. It fails only where an index file was found that is not seen from the package.

Main results: `SearchPlan.outcome_of_search`, `SearchPlan.exists_search`.
-/

namespace PackageExports

open PackageExports.Path (IsSegment IsClean)

namespace Written

variable {a b name : Text}

lemma segments_join (hb : (Path.ofText b).anchor = .relative) :
    (Path.ofText (join a b)).segments = (Path.ofText a).segments ++ (Path.ofText b).segments := by
  have hslash : Text.startsWith b "/" = false := by
    rw [Path.anchor_eq_relative] at hb
    rw [Bool.eq_false_iff]
    intro hstart
    obtain ⟨rest, rfl⟩ := List.isPrefixOf_iff_prefix.mp hstart
    exact hb rfl
  unfold join
  by_cases ha : a = []
  · rw [if_pos (.inr (List.isEmpty_iff.mpr ha)), ha]
    rfl
  rw [if_neg (by simp [hslash, ha])]
  by_cases hend : Text.endsWith a "/" = true
  · obtain ⟨front, rfl⟩ := List.isSuffixOf_iff_suffix.mp hend
    have hfront : (Path.ofText (front ++ "/")).segments = (Path.ofText front).segments := by
      have hslashed := Path.segments_slash front []
      rw [List.append_nil] at hslashed
      rw [hslashed]
      exact List.append_nil _
    rw [if_pos hend, hfront]
    exact Path.segments_slash front b
  · rw [if_neg hend]
    exact Path.segments_slash a b

lemma anchor_join (ha : (Path.ofText a).anchor = .relative) (hb : (Path.ofText b).anchor = .relative) :
    (Path.ofText (join a b)).anchor = .relative := by
  unfold join
  split_ifs with hnext
  · exact hb
  · exact Path.anchor_append ha hb
  · exact Path.anchor_slash (fun hnil => hnext (.inr (List.isEmpty_iff.mpr hnil))) ha b

lemma isSegment_stem (h : IsSegment name) : IsSegment (splitName name).1 := by
  by_cases hsuffix : (splitName name).2 = []
  · rwa [splitName_of_nil hsuffix]
  · exact (stem_spec hsuffix h.2.2).1

lemma join_joinWith {front back : List Text} (hfront : ∀ name ∈ front, IsSegment name)
    (hback : ∀ name ∈ back, IsSegment name) (hne : back ≠ []) :
    join (Text.joinWith "/" front) (Text.joinWith "/" back) = Text.joinWith "/" (front ++ back) := by
  have hslash : ¬Text.startsWith (Text.joinWith "/" back) "/" = true := by
    have hanchor := Path.anchor_eq_relative.mp (Path.anchor_joinWith hback)
    intro hstart
    obtain ⟨rest, hrest⟩ := List.isPrefixOf_iff_prefix.mp hstart
    rw [← hrest] at hanchor
    exact hanchor rfl
  rcases List.eq_nil_or_concat' front with rfl | ⟨before, last, rfl⟩
  · exact if_pos (.inr rfl)
  obtain ⟨hlast, -, hnoSlash⟩ := hfront last (by simp)
  obtain ⟨chars, c, rfl⟩ := (List.eq_nil_or_concat' last).resolve_left hlast
  have hend : Text.joinWith "/" (before ++ [chars ++ [c]]) = Text.joinWith "/" (before ++ [chars]) ++ [c] :=
    (Text.joinWith_concat_append before chars [c]).symm
  have hnotEnd : ¬Text.endsWith (Text.joinWith "/" (before ++ [chars ++ [c]])) "/" = true := by
    intro hslashEnd
    obtain ⟨rest, hrest⟩ := List.isSuffixOf_iff_suffix.mp hslashEnd
    rw [hend] at hrest
    obtain ⟨-, hc⟩ := List.append_inj' hrest rfl
    rw [← (List.cons.inj hc).1] at hnoSlash
    exact hnoSlash (List.mem_append_right _ List.mem_cons_self)
  rw [join, if_neg (by simp [hslash, hend]), if_neg hnotEnd, Text.joinWith_append _ (by simp) hne]

lemma div_join (package : Path) (ha : (Path.ofText a).anchor = .relative) (hb : (Path.ofText b).anchor = .relative) :
    package / join a b = package / a / b := by
  rw [Path.joinText_eq package (anchor_join ha hb), segments_join hb, Path.joinText_eq package ha,
    Path.joinText_eq _ hb, List.append_assoc]

end Written

namespace SearchPlan

variable {plan : SearchPlan} {fs : FileSystem} {package top : Path} {directory name target : Text} {tried : List Text}
  {directories : List Text} {found : Discovery}

/-- The extension with which a name is a file in a directory of a package. -/
def extensionIn? (plan : SearchPlan) (fs : FileSystem) (package : Path) (directory name : Text) : Option Text :=
  plan.extensions.find? fun extension => fs.isFile (package / Written.join directory (name ++ extension)).text

/-- The extension with which there is an index file in a directory. -/
def indexExtension? (plan : SearchPlan) (fs : FileSystem) (top : Path) : Option Text :=
  if fs.isDirectory top.text then
    plan.extensions.find? fun extension => fs.isFile (top / (Text.ofString "index" ++ extension)).text
  else none

/-- A name is no file in a directory with any extension, and no directory with an index file. -/
def IsAbsent (plan : SearchPlan) (fs : FileSystem) (package : Path) (directory name : Text) : Prop :=
  plan.extensionIn? fs package directory name = none ∧
    (plan.tryIndexFiles = true → plan.indexExtension? fs (package / Written.join directory name) = none)

/-- What a search for a name in a row of directories ends with. -/
inductive Outcome (plan : SearchPlan) (fs : FileSystem) (package : Path) (directory name : Text)
    (directories : List Text) : Discovery → Prop
  | nowhere (tried : List Text)
      (habsent : ∀ searched ∈ directories, plan.IsAbsent fs package (plan.searchPath searched directory) name) :
      Outcome plan fs package directory name directories { kind := .nowhere, tried }
  | byExtension (tried : List Text) {before after : List Text} {searched extension : Text}
      (hdirectories : directories = before ++ searched :: after)
      (habsent : ∀ other ∈ before, plan.IsAbsent fs package (plan.searchPath other directory) name)
      (hextension : plan.extensionIn? fs package (plan.searchPath searched directory) name = some extension) :
      Outcome plan fs package directory name directories {
        kind := .byExtension
        file := some (Written.join (plan.searchPath searched directory) (name ++ extension))
        tried
        extension := some extension }
  | byIndex (tried : List Text) {before after : List Text} {searched extension file : Text} {top : Path}
      (hdirectories : directories = before ++ searched :: after)
      (habsent : ∀ other ∈ before, plan.IsAbsent fs package (plan.searchPath other directory) name)
      (hnone : plan.extensionIn? fs package (plan.searchPath searched directory) name = none)
      (hindex : plan.tryIndexFiles = true)
      (htop : top = package / Written.join (plan.searchPath searched directory) name)
      (hextension : plan.indexExtension? fs top = some extension)
      (hseen : seenFrom package (top / (Text.ofString "index" ++ extension)) = .ok file) :
      Outcome plan fs package directory name directories {
        kind := .byIndex
        file := some file
        tried
        extension := some ((top / (Text.ofString "index" ++ extension)).name.drop 5) }

/-- What comes of the directories after one in which the name is absent. -/
lemma Outcome.later {searched : Text}
    (habsent : plan.IsAbsent fs package (plan.searchPath searched directory) name)
    (h : Outcome plan fs package directory name directories found) :
    Outcome plan fs package directory name (searched :: directories) found := by
  cases h with
  | nowhere tried hrest => exact .nowhere tried (List.forall_mem_cons.mpr ⟨habsent, hrest⟩)
  | byExtension tried hdirectories hrest hextension =>
    exact .byExtension tried (congrArg (searched :: ·) hdirectories) (List.forall_mem_cons.mpr ⟨habsent, hrest⟩)
      hextension
  | byIndex tried hdirectories hrest hnone hindex htop hextension hseen =>
    exact .byIndex tried (congrArg (searched :: ·) hdirectories) (List.forall_mem_cons.mpr ⟨habsent, hrest⟩)
      hnone hindex htop hextension hseen

/-- The first candidate that is a file has the first extension with which there is a file. -/
lemma extensionIn?_eq (plan : SearchPlan) (fs : FileSystem) (package : Path) (directory name : Text) :
    plan.extensionIn? fs package directory name =
      ((plan.candidates directory name).findIdx? fun (candidate, _) => fs.isFile (package / candidate).text).bind
        fun index => plan.extensions[index]? := by
  rw [extensionIn?, List.find?_eq_bind_findIdx?_getElem?, candidates, List.findIdx?_map]
  rfl

lemma mem_of_indexExtension? {extension : Text} (h : plan.indexExtension? fs top = some extension) :
    extension ∈ plan.extensions :=
  List.mem_of_find?_eq_some (Option.ite_none_right_eq_some.mp h).2

lemma anchor_index (extension : Text) : (Path.ofText (Text.ofString "index" ++ extension)).anchor = .relative :=
  Path.anchor_eq_relative.mpr fun hslash => absurd (Option.some.inj hslash) (by decide)

lemma indexFile?_eq (hclean : top.IsClean) :
    Probe.indexFile? fs top.text plan.extensions =
      (plan.indexExtension? fs top).map fun extension => top / (Text.ofString "index" ++ extension) := by
  have hrow : plan.extensions.map (Probe.indexWith top.text) =
      plan.extensions.map fun extension => top / (Text.ofString "index" ++ extension) :=
    List.map_congr_left fun extension _ => by rw [Probe.indexWith, Path.ofText_text hclean]
  rw [Probe.indexFile?, indexExtension?, hrow, Probe.firstFile?, List.find?_map]
  split_ifs <;> rfl

lemma indexIn?_eq (hclean : top.IsClean) :
    plan.indexIn? fs package top =
      match plan.indexExtension? fs top with
      | some extension => (seenFrom package (top / (Text.ofString "index" ++ extension))).map fun seen =>
          some (seen, (top / (Text.ofString "index" ++ extension)).name.drop 5)
      | none => .ok none := by
  rw [indexIn?, indexFile?_eq hclean]
  cases plan.indexExtension? fs top <;> rfl

/-- A search that does not fail ends with the first directory in which the name is there. -/
theorem outcome_of_search (hpackage : package.IsClean)
    (h : plan.search fs package directory name tried directories = .ok found) :
    Outcome plan fs package directory name directories found := by
  induction directories generalizing tried with
  | nil =>
    obtain rfl := Except.ok.inj h
    exact .nowhere tried (by simp)
  | cons searched rest ih =>
    have hfirst := extensionIn?_eq plan fs package (plan.searchPath searched directory) name
    unfold search at h
    dsimp only at h
    split at h
    · rename_i index hindex
      obtain ⟨hlt, -⟩ := List.findIdx?_eq_some_iff_getElem.mp hindex
      rw [candidates, List.length_map] at hlt
      rw [hindex, Option.bind_some, List.getElem?_eq_getElem hlt] at hfirst
      have hcandidate : (plan.candidates (plan.searchPath searched directory) name)[index]?.getD ([], []) =
          (Written.join (plan.searchPath searched directory) (name ++ plan.extensions[index]), plan.extensions[index]) := by
        rw [candidates, List.getElem?_map, List.getElem?_eq_getElem hlt]
        rfl
      rw [hcandidate] at h
      obtain rfl := Except.ok.inj h
      exact .byExtension _ (List.nil_append _).symm (by simp) hfirst
    · rename_i hindex
      rw [hindex] at hfirst
      split_ifs at h with htry
      · have hclean := Path.isClean_div hpackage (Written.join (plan.searchPath searched directory) name)
        rw [indexIn?_eq hclean] at h
        cases hextension : plan.indexExtension? fs (package / Written.join (plan.searchPath searched directory) name) with
        | none =>
          rw [hextension] at h
          exact (ih h).later ⟨hfirst, fun _ => hextension⟩
        | some extension =>
          rw [hextension] at h
          dsimp only at h
          cases hseen : seenFrom package
              (package / Written.join (plan.searchPath searched directory) name / (Text.ofString "index" ++ extension)) with
          | error failure =>
            rw [hseen] at h
            cases h
          | ok file =>
            rw [hseen] at h
            obtain rfl := Except.ok.inj h
            exact .byIndex _ (List.nil_append _).symm (by simp) hfirst htry rfl hextension hseen
      · exact (ih h).later ⟨hfirst, fun hindex => absurd hindex htry⟩

section Relative

variable (hpackage : package.IsClean)

lemma exists_seen (package : Path) {path : Text} (hpath : (Path.ofText path).anchor = .relative) (extension : Text) :
    ∃ seen, seenFrom package (package / path / (Text.ofString "index" ++ extension)) = .ok seen := by
  rw [Path.joinText_eq _ (anchor_index extension), Path.joinText_eq _ hpath, List.append_assoc]
  exact ⟨_, Path.seenFrom_below _⟩

lemma anchor_searchPath (plan : SearchPlan) {searched : Text} (hsearched : (Path.ofText searched).anchor = .relative)
    (hdirectory : (Path.ofText directory).anchor = .relative) :
    (Path.ofText (plan.searchPath searched directory)).anchor = .relative := by
  unfold searchPath
  split_ifs
  · exact hsearched
  · exact hdirectory
  · exact Written.anchor_join hsearched hdirectory

include hpackage

lemma exists_search (plan : SearchPlan) (fs : FileSystem) (hdirectory : (Path.ofText directory).anchor = .relative)
    (hname : (Path.ofText name).anchor = .relative) (tried : List Text)
    (hdirectories : ∀ searched ∈ directories, (Path.ofText searched).anchor = .relative) :
    ∃ found, plan.search fs package directory name tried directories = .ok found := by
  induction directories generalizing tried with
  | nil => exact ⟨_, rfl⟩
  | cons searched rest ih =>
    obtain ⟨hsearched, hrest⟩ := List.forall_mem_cons.mp hdirectories
    have hpath := Written.anchor_join (plan.anchor_searchPath hsearched hdirectory) hname
    unfold search
    dsimp only
    split
    · exact ⟨_, rfl⟩
    split_ifs
    · rw [indexIn?_eq (Path.isClean_div hpackage _)]
      cases plan.indexExtension? fs (package / Written.join (plan.searchPath searched directory) name) with
      | none => exact ih _ hrest
      | some extension =>
        obtain ⟨seen, hseen⟩ := exists_seen package hpath extension
        dsimp only
        rw [hseen]
        exact ⟨_, rfl⟩
    · exact ih _ hrest

lemma exists_indexBelow (plan : SearchPlan) (fs : FileSystem) {bare : Text} (hbare : (Path.ofText bare).anchor = .relative)
    (hdirectories : ∀ searched ∈ directories, (Path.ofText searched).anchor = .relative) :
    ∃ found, plan.indexBelow? fs package bare directories = .ok found ∧
      (found = none ↔ ∀ searched ∈ directories, plan.indexExtension? fs (package / searched / bare) = none) := by
  induction directories with
  | nil => exact ⟨none, rfl, by simp⟩
  | cons searched rest ih =>
    obtain ⟨hsearched, hrest⟩ := List.forall_mem_cons.mp hdirectories
    have hpath := Written.anchor_join hsearched hbare
    unfold indexBelow?
    rw [indexIn?_eq (Path.isClean_div (Path.isClean_div hpackage _) _)]
    cases hextension : plan.indexExtension? fs (package / searched / bare) with
    | none =>
      obtain ⟨found, hfound, hnone⟩ := ih hrest
      exact ⟨found, hfound, by rw [hnone, List.forall_mem_cons, and_iff_right hextension]⟩
    | some extension =>
      obtain ⟨seen, hseen⟩ := exists_seen package hpath extension
      rw [Written.div_join package hsearched hbare] at hseen
      dsimp only
      rw [hseen]
      refine ⟨some seen, rfl, ?_⟩
      simp [hextension]

end Relative

/-- The path as it is written, which has a suffix, leads to a file. -/
def IsExact (fs : FileSystem) (package : Path) (target : Text) : Prop :=
  (Written.splitSuffix (Relative.bare target)).2 ≠ [] ∧ fs.isFile (package / Relative.bare target).text = true

lemma discover_of_isExact (h : IsExact fs package target) :
    plan.discover fs package target = .ok {
      kind := .exact
      file := some (Relative.bare target)
      tried := [Relative.bare target]
      extension := some (Written.splitSuffix (Relative.bare target)).2 } :=
  if_pos (by simpa [IsExact, List.isEmpty_iff] using h)

lemma splitTarget_eq (t : Text) :
    splitTarget t = ((Written.split t).1, (Written.splitName (Written.split t).2).1) := by
  have hcut : Written.cutAtLastSlash (Written.split t).2 = ([], (Written.split t).2) := by
    rw [Written.cutAtLastSlash, Text.splitAtLast?_eq_none.mpr (Written.notMem_split t)]
  have hsuffix : (Written.splitSuffix (Written.split t).2).1 = (Written.splitName (Written.split t).2).1 := by
    unfold Written.splitSuffix
    rw [hcut]
    rfl
  exact congrArg ((Written.split t).1, ·) hsuffix

lemma discover_of_not_isExact (h : ¬IsExact fs package target) :
    plan.discover fs package target =
      plan.search fs package (Written.split (Relative.bare target)).1
        (Written.splitName (Written.split (Relative.bare target)).2).1 [] plan.directories := by
  rw [discover]
  dsimp only
  rw [if_neg (by simpa [IsExact, List.isEmpty_iff] using h), splitTarget_eq]

/-- What is found in relative directories for a relative path that is not there as it is written. -/
theorem exists_discover (hpackage : package.IsClean)
    (hdirectories : ∀ searched ∈ plan.directories, (Path.ofText searched).anchor = .relative)
    (htarget : (Path.ofText (Relative.bare target)).anchor = .relative) (hexact : ¬IsExact fs package target) :
    ∃ found, plan.discover fs package target = .ok found ∧
      Outcome plan fs package (Written.split (Relative.bare target)).1
        (Written.splitName (Written.split (Relative.bare target)).2).1 plan.directories found := by
  obtain ⟨found, hfound⟩ := exists_search hpackage plan fs
    (Path.anchor_of_start (Written.prefix_directory _) htarget)
    (Path.anchor_of_notMem (Expansion.notMem_stem (Relative.bare target))) [] hdirectories
  exact ⟨found, (discover_of_not_isExact hexact).trans hfound, outcome_of_search hpackage hfound⟩

end SearchPlan

end PackageExports
