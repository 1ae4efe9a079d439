import PackageExports.Proofs.FoundNames
import PackageExports.Proofs.Variations

/-!
# Directories as modules

A directory with an index file below one of the directories that are searched is found by its path from there. By its path
from the package it is found if its last name has no suffix. The directory that is searched is itself not found by its
path, for as the last resort a path is only taken below the directories, and so is a path whose suffix was dropped.

Main results: `SearchPlan.exists_resolve`, `SearchPlan.directory_resolves`.
-/

namespace PackageExports

open PackageExports.Path (IsSegment IsClean)

lemma Written.join_ne_nil (path : Text) {next : Text} (h : next ≠ []) : Written.join path next ≠ [] := by
  unfold join
  split_ifs <;> simp [h]

lemma Path.seen_ne_nil {package p : Path} {seen : Text} (hp : p.IsClean) (h : SearchPlan.seenFrom package p = .ok seen) :
    seen ≠ [] := by
  obtain ⟨rest, rfl, rfl⟩ := seenFrom_eq_ok.mp h
  exact text_ne_nil fun segment hsegment => hp segment (List.mem_append_right _ hsegment)

lemma FileSystem.not_isFile_of_isDirectory {fs : FileSystem} {path : Text} (h : fs.isDirectory path = true) :
    ¬fs.isFile path = true := by
  rw [isDirectory, decide_eq_true_iff] at h
  simp [isFile, h]

namespace SearchPlan

variable {plan : SearchPlan} {fs : FileSystem} {package top : Path} {directory name target : Text}
  {directories : List Text} {found : Discovery}

/-- A directory with an index file that the plan takes for one. -/
def HoldsIndex (plan : SearchPlan) (fs : FileSystem) (top : Path) : Prop :=
  fs.isDirectory top.text = true ∧
    ∃ extension ∈ plan.extensions, fs.isFile (top / (Text.ofString "index" ++ extension)).text = true

/-- There is nothing where a path is looked for, and it is no directory with an index file below a directory that is
searched. -/
def IsMissing (plan : SearchPlan) (fs : FileSystem) (package : Path) (bare : Text) : Prop :=
  (∀ searched ∈ plan.directories,
    plan.IsAbsent fs package (plan.searchPath searched (splitTarget bare).1) (splitTarget bare).2) ∧
  ∀ searched ∈ plan.directories, ¬plan.HoldsIndex fs (package / searched / bare)

lemma indexExtension?_eq_none : plan.indexExtension? fs top = none ↔ ¬plan.HoldsIndex fs top := by
  rw [indexExtension?, HoldsIndex]
  split_ifs with hdirectory <;> simp [hdirectory]

lemma Outcome.kind_eq_nowhere (h : Outcome plan fs package directory name directories found) :
    found.kind = .nowhere ↔
      ∀ searched ∈ directories, plan.IsAbsent fs package (plan.searchPath searched directory) name := by
  cases h with
  | nowhere tried habsent => exact ⟨fun _ => habsent, fun _ => rfl⟩
  | @byExtension tried before after searched extension hrow hbefore hextension =>
    refine ⟨(nomatch ·), fun habsent => ?_⟩
    have hnone := (habsent searched (by simp [hrow])).1
    rw [hextension] at hnone
    cases hnone
  | @byIndex tried before after searched extension file top hrow hbefore hown hindex htop hextension hseen =>
    refine ⟨(nomatch ·), fun habsent => ?_⟩
    have hnone := (habsent searched (by simp [hrow])).2 hindex
    rw [← htop, hextension] at hnone
    cases hnone

lemma Outcome.exists_file (hpackage : package.IsClean) (hname : name ≠ [])
    (h : Outcome plan fs package directory name directories found) (hkind : found.kind ≠ .nowhere) :
    ∃ file, found.file = some file ∧ file ≠ [] := by
  cases h with
  | nowhere => exact absurd rfl hkind
  | byExtension => exact ⟨_, rfl, Written.join_ne_nil _ (by simp [hname])⟩
  | byIndex _ _ _ _ _ htop _ hseen =>
    subst htop
    exact ⟨_, rfl, Path.seen_ne_nil (Path.isClean_div (Path.isClean_div hpackage _) _) hseen⟩

lemma resolve?_of_file {file : Text} (h : plan.discover fs package target = .ok found) (hfile : found.file = some file)
    (hne : file ≠ []) : plan.resolve? fs package target = .ok (some file) := by
  have hkept : found.file.filter (!·.isEmpty) = some file := by
    rw [hfile]
    exact Option.filter_some_pos (by simpa using hne)
  unfold resolve?
  rw [h]
  dsimp only [bind, Except.bind]
  rw [hkept]
  rfl

lemma resolve?_of_none (h : plan.discover fs package target = .ok found) (hfile : found.file = none) :
    plan.resolve? fs package target = plan.indexBelow? fs package (Relative.bare target) plan.directories := by
  unfold resolve?
  rw [h]
  dsimp only [bind, Except.bind]
  rw [hfile]
  rfl

/-- Resolving a relative path does not fail, and it ends with nothing if and only if the path is not there as it is written
and missing everywhere else. -/
theorem exists_resolve (plan : SearchPlan) (fs : FileSystem) {target : Text} (hpackage : package.IsClean)
    (hdirectories : ∀ searched ∈ plan.directories, (Path.ofText searched).anchor = .relative)
    (htarget : (Path.ofText (Relative.bare target)).anchor = .relative)
    (hname : (splitTarget (Relative.bare target)).2 ≠ []) :
    ∃ found, plan.resolve? fs package target = .ok found ∧
      (found = none ↔ ¬IsExact fs package target ∧ plan.IsMissing fs package (Relative.bare target)) := by
  by_cases hexact : IsExact fs package target
  · have hne : Relative.bare target ≠ [] := by
      intro hempty
      rw [IsExact, hempty] at hexact
      exact hexact.1 rfl
    exact ⟨_, resolve?_of_file (discover_of_isExact hexact) rfl hne, by simp [hexact]⟩
  obtain ⟨found, hfound, hends⟩ := exists_discover hpackage hdirectories htarget hexact
  have hsplit := splitTarget_eq (Relative.bare target)
  rw [hsplit] at hname
  have habsent := hends.kind_eq_nowhere
  by_cases hkind : found.kind = .nowhere
  · have hfile : found.file = none := by
      cases hends with
      | nowhere => rfl
      | byExtension => cases hkind
      | byIndex => cases hkind
    obtain ⟨below, hbelow, hnone⟩ := exists_indexBelow hpackage plan fs htarget hdirectories
    refine ⟨below, (resolve?_of_none hfound hfile).trans hbelow, ?_⟩
    rw [hnone, and_iff_right hexact, IsMissing, hsplit, and_iff_right (habsent.mp hkind)]
    simp only [indexExtension?_eq_none]
  · obtain ⟨file, hfile, hne⟩ := hends.exists_file hpackage hname hkind
    refine ⟨some file, resolve?_of_file hfound hfile hne, (iff_of_false (by simp) fun hmissing => hkind ?_)⟩
    have hall := hmissing.2.1
    rw [hsplit] at hall
    exact habsent.mpr hall

section Rows

variable {row names : List Text}

lemma splitTarget_joinWith {front : List Text} {last : Text} (hfront : ∀ name ∈ front, IsSegment name)
    (hlast : IsSegment last) :
    splitTarget (Text.joinWith "/" (front ++ [last])) = (Text.joinWith "/" front, (Written.splitName last).1) := by
  have hparts : ∀ name ∈ front, name ≠ [] ∧ CodePoint.ofChar '/' ∉ name :=
    fun name hname => ⟨(hfront name hname).1, (hfront name hname).2.2⟩
  rw [splitTarget_eq, Written.split_joinWith hparts hlast.2.2]

lemma exists_resolve_row (plan : SearchPlan) (fs : FileSystem) (hpackage : package.IsClean)
    (hdirectories : ∀ searched ∈ plan.directories, (Path.ofText searched).anchor = .relative) (hne : row ≠ [])
    (hrow : ∀ name ∈ row, IsSegment name) :
    ∃ found, plan.resolve? fs package (Text.ofString "./" ++ Text.joinWith "/" row) = .ok found ∧
      (found = none ↔ ¬IsExact fs package (Text.ofString "./" ++ Text.joinWith "/" row) ∧
        plan.IsMissing fs package (Text.joinWith "/" row)) := by
  obtain ⟨front, last, rfl⟩ := (List.eq_nil_or_concat' row).resolve_left hne
  have hlast : IsSegment last := hrow last (by simp)
  have hbare := Relative.bare_start (Text.joinWith "/" (front ++ [last]))
  have hanchor := Path.anchor_joinWith hrow
  have hname : (splitTarget (Text.joinWith "/" (front ++ [last]))).2 ≠ [] := by
    rw [splitTarget_joinWith (fun name hname => hrow name (by simp [hname])) hlast]
    exact (Written.isSegment_stem hlast).1
  rw [← hbare] at hanchor hname
  obtain ⟨found, hfound, hnone⟩ := exists_resolve plan fs hpackage hdirectories hanchor hname
  rw [hbare] at hnone
  exact ⟨found, hfound, hnone⟩

/-- A path that starts with the directory that is searched is looked for where it is. -/
lemma searchPath_own (hkeeps : plan.keepsStructure = true) (hne : row ≠ [])
    (hrow : ∀ name ∈ row ++ names, IsSegment name) :
    plan.searchPath (Text.joinWith "/" row) (Text.joinWith "/" (row ++ names)) = Text.joinWith "/" (row ++ names) := by
  have hwritten : Text.joinWith "/" (row ++ names) ≠ [] := by
    intro hempty
    have hsegments := Path.segments_joinWith hrow
    rw [hempty] at hsegments
    exact hne (List.append_eq_nil_iff.mp hsegments.symm).1
  have hstarts : Text.joinWith "/" (row ++ names) = Text.joinWith "/" row ∨
      Text.startsWith (Text.joinWith "/" (row ++ names)) (Text.joinWith "/" row ++ "/") = true := by
    by_cases hnames : names = []
    · exact .inl (by rw [hnames, List.append_nil])
    · right
      rw [Text.joinWith_append _ hne hnames]
      exact List.isPrefixOf_iff_prefix.mpr (List.prefix_append _ _)
  rw [searchPath, if_neg (by simp [hkeeps, hwritten]), if_pos hstarts]

/-- A directory with an index file below a directory that is searched is found by its path from there. By its path from the
package it is not found if and only if this has no name from there, or one with a suffix, and is missing elsewhere. -/
theorem directory_resolves (hpackage : package.IsClean) (htry : plan.tryIndexFiles = true)
    (hkeeps : plan.keepsStructure = true)
    (hdirectories : ∀ searched ∈ plan.directories, (Path.ofText searched).anchor = .relative)
    (hdirectory : directory ∈ plan.directories) (hnames : ∀ name ∈ names, IsSegment name)
    (hindex : plan.HoldsIndex fs (package / directory / Text.joinWith "/" names)) :
    (names ≠ [] →
      ∃ file, plan.resolve? fs package (Text.ofString "./" ++ Text.joinWith "/" names) = .ok (some file)) ∧
    ∀ row, row ≠ [] → (∀ name ∈ row, IsSegment name) → directory = Text.joinWith "/" row →
      ∃ found, plan.resolve? fs package (Text.ofString "./" ++ Text.joinWith "/" (row ++ names)) = .ok found ∧
        (found = none ↔ (names = [] ∨ (Written.splitName (names.getLast?.getD [])).2 ≠ []) ∧
          plan.IsMissing fs package (Text.joinWith "/" (row ++ names))) := by
  constructor
  · intro hne
    obtain ⟨found, hfound, hnone⟩ := exists_resolve_row plan fs hpackage hdirectories hne hnames
    cases found with
    | some file => exact ⟨file, hfound⟩
    | none => exact absurd hindex ((hnone.mp rfl).2.2 directory hdirectory)
  · rintro row hne hrow rfl
    have hwhole : ∀ name ∈ row ++ names, IsSegment name := List.forall_mem_append.mpr ⟨hrow, hnames⟩
    have htop : package / Text.joinWith "/" row / Text.joinWith "/" names = package / Text.joinWith "/" (row ++ names) := by
      rw [Path.div_joinWith _ hrow, Path.div_joinWith _ hnames, Path.div_joinWith _ hwhole, List.append_assoc]
    rw [htop] at hindex
    obtain ⟨found, hfound, hnone⟩ := exists_resolve_row plan fs hpackage hdirectories
      (List.append_ne_nil_of_left_ne_nil hne names) hwhole
    refine ⟨found, hfound, ?_⟩
    have hnotExact : ¬IsExact fs package (Text.ofString "./" ++ Text.joinWith "/" (row ++ names)) := by
      intro hexact
      have hfile := hexact.2
      rw [Relative.bare_start] at hfile
      exact FileSystem.not_isFile_of_isDirectory hindex.1 hfile
    rw [hnone, and_iff_right hnotExact, iff_and_self]
    intro hmissing
    by_contra hfree
    obtain ⟨hsome, hsuffix⟩ := not_or.mp hfree
    obtain ⟨front, last, rfl⟩ := (List.eq_nil_or_concat' names).resolve_left hsome
    rw [List.getLast?_concat, Option.getD_some, not_not] at hsuffix
    have hlast : IsSegment last := hnames last (by simp)
    have hfront : ∀ name ∈ row ++ front, IsSegment name :=
      fun name hname => hwhole name (by rw [← List.append_assoc]; exact List.mem_append_left _ hname)
    have habsent := (hmissing.1 _ hdirectory).2 htry
    have hjoin : Written.join (Text.joinWith "/" (row ++ front)) last = Text.joinWith "/" (row ++ front ++ [last]) :=
      Written.join_joinWith hfront (List.forall_mem_singleton.mpr hlast) (List.cons_ne_nil _ _)
    rw [← List.append_assoc, splitTarget_joinWith hfront hlast, Written.splitName_of_nil hsuffix] at habsent
    dsimp only at habsent
    rw [searchPath_own hkeeps hne hfront, hjoin] at habsent
    rw [← List.append_assoc] at hindex
    exact indexExtension?_eq_none.mp habsent hindex

/-- The directory with an index file is found by its path from the build and from the package. -/
theorem directory_resolves_forms : ∃ file other,
    javascript.resolve? packageWithForms (Path.ofText ".") "./forms" = .ok (some file) ∧
      javascript.resolve? packageWithForms (Path.ofText ".") "./lib/forms" = .ok (some other) := by
  have hindex : javascript.HoldsIndex packageWithForms
      (Path.ofText "." / Text.ofString "lib" / Text.joinWith "/" ["forms"]) :=
    ⟨by decide +kernel, ".mjs", by decide, by decide +kernel⟩
  obtain ⟨hshort, hlong⟩ := directory_resolves (Path.isClean_ofText ".") (by rfl) (by rfl) (by decide) (by decide)
    (by decide) hindex
  obtain ⟨file, hfile⟩ := hshort (by decide)
  obtain ⟨found, hfound, hnone⟩ := hlong ["lib"] (by decide) (by decide) rfl
  cases found with
  | some other => exact ⟨file, other, hfile, hfound⟩
  | none => exact absurd (hnone.mp rfl).1 (by decide)

/-- A package with an index file right in its build, and with one in a directory whose name has a suffix. -/
def packageWithConfig : FileSystem :=
  (((FileSystem.empty.put ["lib"] .directory).put ["lib", "index.js"] (.file [])).put ["lib", "foo.config"] .directory).put
    ["lib", "foo.config", "index.js"] (.file [])

/-- Neither is found by its path from the package, though both directories have an index file. -/
theorem build_directory_not_found :
    modules.HoldsIndex packageWithConfig (Path.ofText "." / Text.ofString "lib") ∧
      modules.resolve? packageWithConfig (Path.ofText ".") "./lib" = .ok none ∧
      modules.HoldsIndex packageWithConfig (Path.ofText "." / Text.ofString "lib/foo.config") ∧
      modules.resolve? packageWithConfig (Path.ofText ".") "./lib/foo.config" = .ok none :=
  ⟨⟨by decide +kernel, ".js", by decide, by decide +kernel⟩, ok_of_toOption (by decide +kernel),
    ⟨by decide +kernel, ".js", by decide, by decide +kernel⟩, ok_of_toOption (by decide +kernel)⟩

end Rows

end SearchPlan

end PackageExports
