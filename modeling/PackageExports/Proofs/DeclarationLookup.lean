import PackageExports.Declaration
import PackageExports.Proofs.DualBuilds
import PackageExports.Proofs.Predictions
import PackageExports.Proofs.Searches

/-!
# Declarations that are found

All paths at which a declaration is looked for end in the name of the file, without its extension, and `.d.ts`. What is
found is therefore a declaration of that name; it counts as exact if and only if it stands beside the file, where the
declaration beside a file is looked for.

Main results: `Declaration.IsNamed.place_eq`, `Declaration.lookup_is_sound`.
-/

namespace PackageExports

open PackageExports.Path (IsSegment)

namespace Relative

variable {front : List Text} {path last : Text}

lemma bare_of_isTidy (h : IsTidy path) : bare (bare path) = bare path :=
  bare_of_splitOn h

lemma splitExtension_joinWith (front : List Text) (hlast : CodePoint.ofChar '/' ∉ last) :
    (splitExtension (Text.joinWith "/" (front ++ [last]))).1 =
      Text.joinWith "/" (front ++ [(splitExtension last).1]) := by
  have hown : Written.cutAtLastSlash last = ([], last) := Written.cutAtLastSlash_joinWith [] hlast
  have hjoin (stem : Text) : Text.joinWith "/" (front ++ [[]]) ++ stem = Text.joinWith "/" (front ++ [stem]) :=
    Text.joinWith_concat_append front [] stem
  rw [splitExtension, splitExtension, Written.cutAtLastSlash_joinWith front hlast, hown]
  dsimp only
  cases cutExtension? declarationExtensions last with
  | some cut => exact hjoin cut.1
  | none =>
    cases Text.splitAtLast? '.' last with
    | none => rfl
    | some cut =>
      dsimp only
      split_ifs
      · rfl
      · exact hjoin cut.1

lemma splitExtension_ne_nil (hlast : last ≠ []) (hslash : CodePoint.ofChar '/' ∉ last) :
    (splitExtension last).1 ≠ [] := by
  have hown : Written.cutAtLastSlash last = ([], last) := Written.cutAtLastSlash_joinWith [] hslash
  rw [splitExtension, hown]
  dsimp only
  cases hcut : cutExtension? declarationExtensions last with
  | some cut => exact (cutExtension?_spec hcut).2.2
  | none =>
    cases Text.splitAtLast? '.' last with
    | none => exact hlast
    | some cut =>
      dsimp only
      split_ifs with hempty
      · exact hlast
      · simpa using hempty

lemma splitExtension_fileName {name : Text} (hname : name ≠ []) (hslash : CodePoint.ofChar '/' ∉ name) :
    (splitExtension (Declaration.fileName name)).1 = name := by
  have hnoSlash : CodePoint.ofChar '/' ∉ Declaration.fileName name :=
    mt List.mem_append.mp (not_or.mpr ⟨hslash, by decide⟩)
  have hown : Written.cutAtLastSlash (Declaration.fileName name) = ([], Declaration.fileName name) :=
    Written.cutAtLastSlash_joinWith [] hnoSlash
  have hcut : cutExtension? declarationExtensions (Declaration.fileName name) = some (name, Text.ofString ".d.ts") := by
    rw [cutExtension?, declarationExtensions, List.findSome?_cons, Declaration.fileName, Text.dropEnd?_append]
    dsimp only
    rw [if_neg (by simpa using hname)]
  rw [splitExtension, hown]
  dsimp only
  rw [hcut]
  rfl

end Relative

namespace Declaration

variable {fs : FileSystem} {package : Path} {file path name directory : Text} {builds : List Text}

/-! ### Names of declarations -/

/-- A path whose last name is that of the declaration of a base name. -/
def IsNamed (name path : Text) : Prop :=
  ∃ front, path = Text.joinWith "/" (front ++ [fileName name])

lemma isNamed_join (directory name : Text) : IsNamed name (Written.join directory (fileName name)) := by
  unfold Written.join
  split_ifs with halone hslash
  · exact ⟨[], rfl⟩
  · obtain ⟨top, rfl⟩ := List.isSuffixOf_iff_suffix.mp hslash
    exact ⟨[top], rfl⟩
  · exact ⟨[directory], rfl⟩

lemma IsNamed.suffix (h : IsNamed name path) : Text.endsWith path ".d.ts" = true := by
  obtain ⟨front, rfl⟩ := h
  rw [Text.endsWith, List.isSuffixOf_iff_suffix, fileName, ← Text.joinWith_concat_append]
  exact List.suffix_append _ _

lemma IsNamed.place_eq (h : IsNamed name path) (hname : name ≠ []) (hslash : CodePoint.ofChar '/' ∉ name) :
    (place path).2 = name := by
  obtain ⟨front, rfl⟩ := h
  have hnoSlash : CodePoint.ofChar '/' ∉ fileName name := mt List.mem_append.mp (not_or.mpr ⟨hslash, by decide⟩)
  rw [place, Relative.splitExtension_joinWith front hnoSlash, Relative.splitExtension_fileName hname hslash,
    Written.split, Written.cutAtLastSlash_joinWith front hslash]

lemma isNamed_of_mem_elsewhere (h : path ∈ elsewhere directory name builds) : IsNamed name path := by
  obtain ⟨top, -, hpath⟩ := List.mem_flatMap.mp h
  cases hbelow : below? top directory with
  | none =>
    rw [hbelow] at hpath
    cases hpath
  | some rest =>
    rw [hbelow] at hpath
    obtain ⟨other, -, rfl⟩ := List.mem_map.mp hpath
    exact isNamed_join _ name

/-- If there is a build directory, then there is a place where a compiler would put a declaration. -/
lemma exists_expected (source : Text) (hbuilds : builds ≠ []) :
    ∃ path, expected source builds = .ok path ∧ IsNamed (place (Relative.bare source)).2 path := by
  unfold expected
  dsimp only
  split_ifs
  · exact ⟨_, rfl, isNamed_join _ _⟩
  cases sourceDirectories.findSome? (below? · (place (Relative.bare source)).1) with
  | none => exact ⟨_, rfl, isNamed_join _ _⟩
  | some rest =>
    cases builds with
    | nil => exact absurd rfl hbuilds
    | cons first others => exact ⟨_, rfl, isNamed_join _ _⟩

/-! ### The declaration beside a file -/

lemma place_of_row {front : List Text} {last : Text} (h : Relative.Row file front last) :
    place (Relative.bare file) = (Text.joinWith "/" front, (Relative.splitExtension last).1) := by
  have hslash : CodePoint.ofChar '/' ∉ (Relative.splitExtension last).1 :=
    fun hmem => h.last.2.2 ((Relative.prefix_splitExtension last).subset hmem)
  rw [place, h.bare_eq, Relative.splitExtension_joinWith front h.last.2.2]
  exact Written.split_joinWith (fun name hname => ⟨(h.front name hname).1, (h.front name hname).2.2⟩) hslash

lemma baseName_spec (hfile : Relative.IsTidy file) :
    (place (Relative.bare file)).2 ≠ [] ∧ CodePoint.ofChar '/' ∉ (place (Relative.bare file)).2 := by
  obtain ⟨front, last, hrow⟩ := hfile.exists_row
  rw [place_of_row hrow]
  exact ⟨Relative.splitExtension_ne_nil hrow.last.1 hrow.last.2.2,
    fun hmem => hrow.last.2.2 ((Relative.prefix_splitExtension last).subset hmem)⟩

lemma sibling_eq (hfile : Relative.IsTidy file) :
    Written.join (place (Relative.bare file)).1 (fileName (place (Relative.bare file)).2) =
      fileName (Relative.splitExtension (Relative.bare file)).1 := by
  obtain ⟨hne, hslash⟩ := baseName_spec hfile
  obtain ⟨front, last, hrow⟩ := hfile.exists_row
  rw [place_of_row hrow] at hne hslash ⊢
  have hsegment : IsSegment (fileName (Relative.splitExtension last).1) := by
    refine ⟨?_, ?_, mt List.mem_append.mp (not_or.mpr ⟨hslash, by decide⟩)⟩
    · exact fun hnil => hne (List.append_eq_nil_iff.mp hnil).1
    · intro hdot
      rcases List.append_eq_singleton_iff.mp hdot with ⟨-, hdot⟩ | ⟨-, hdot⟩
      · cases hdot
      · cases hdot
  have hjoin : Written.join (Text.joinWith "/" front) (fileName (Relative.splitExtension last).1) =
      Text.joinWith "/" (front ++ [fileName (Relative.splitExtension last).1]) :=
    Written.join_joinWith hrow.front (List.forall_mem_singleton.mpr hsegment) (List.cons_ne_nil _ _)
  rw [hjoin, hrow.bare_eq, Relative.splitExtension_joinWith front hrow.last.2.2]
  exact (Text.joinWith_concat_append front _ _).symm

lemma beside?_eq_own (fs : FileSystem) (package : Path) (hend : Text.endsWith (Relative.bare file) ".d.ts" = true) :
    beside? fs package file =
      if fs.isFile (package / Relative.bare file).text then some ("./" ++ Relative.bare file) else none := by
  rw [beside?, if_pos hend]

/-- The declaration beside a file that is none itself is looked for where the look-up starts. -/
lemma beside?_eq_sibling (fs : FileSystem) (package : Path) (hfile : Relative.IsTidy file)
    (hend : ¬Text.endsWith (Relative.bare file) ".d.ts" = true) {sibling : Text}
    (hsibling : Written.join (place (Relative.bare file)).1 (fileName (place (Relative.bare file)).2) = sibling) :
    beside? fs package file = if fs.isFile (package / sibling).text then some ("./" ++ sibling) else none := by
  rw [beside?, if_neg hend, ← hsibling, sibling_eq hfile]

/-! ### What is found -/

/-- The places other than beside a file at which its declaration may be. -/
def Candidate (file : Text) (builds : List Text) (path : Text) : Prop :=
  path ∈ elsewhere (place (Relative.bare file)).1 (place (Relative.bare file)).2 builds ∨
    expected (Relative.bare file) builds = .ok path

/-- A declaration that agrees with itself, with the tree and with the declaration beside the file. -/
structure IsSound (fs : FileSystem) (package : Path) (file : Text) (builds : List Text) (d : Declaration) : Prop where
  found_iff_file : d.found = true ↔ ∃ path, d.file = some path
  found_iff_kind : d.found = true ↔ d.kind ≠ .absent
  isFile : ∀ path, d.file = some path → fs.isFile (package / path).text = true
  isDeclaration : ∀ path, d.file = some path → Text.endsWith path ".d.ts" = true
  baseName : ∀ path, d.file = some path → (place path).2 = (place (Relative.bare file)).2
  exact_iff : d.kind = .exact ↔ ∃ target, beside? fs package file = some target
  beside : d.kind = .exact → ∃ path, d.file = some path ∧ beside? fs package file = some ("./" ++ path)
  complete : d.found = false → Text.endsWith (Relative.bare file) ".d.ts" = false →
    ∀ path, Candidate file builds path → fs.isFile (package / path).text ≠ true

variable {kind : MappingKind} {source : Option Text}

lemma isSound_found (hfile : fs.isFile (package / path).text = true) (hend : Text.endsWith path ".d.ts" = true)
    (hname : (place path).2 = (place (Relative.bare file)).2) (hkind : kind ≠ .absent)
    (hbeside : beside? fs package file = if kind = .exact then some ("./" ++ path) else none) :
    IsSound fs package file builds { found := true, kind, file := some path, source } where
  found_iff_file := ⟨fun _ => ⟨path, rfl⟩, fun _ => rfl⟩
  found_iff_kind := ⟨fun _ => hkind, fun _ => rfl⟩
  isFile := fun _ hpath => Option.some.inj hpath ▸ hfile
  isDeclaration := fun _ hpath => Option.some.inj hpath ▸ hend
  baseName := fun _ hpath => Option.some.inj hpath ▸ hname
  exact_iff := by
    rw [hbeside]
    constructor
    · exact fun hexact => ⟨_, if_pos hexact⟩
    · exact fun ⟨_, htarget⟩ => (Option.ite_none_right_eq_some.mp htarget).1
  beside := fun hexact => ⟨path, rfl, hbeside.trans (if_pos hexact)⟩
  complete := (nomatch ·)

lemma isSound_absent (hbeside : beside? fs package file = none)
    (hfree : Text.endsWith (Relative.bare file) ".d.ts" = false →
      ∀ path, Candidate file builds path → fs.isFile (package / path).text ≠ true) :
    IsSound fs package file builds { found := false, kind := .absent, file := none, source } where
  found_iff_file := ⟨(nomatch ·), fun ⟨_, hpath⟩ => nomatch hpath⟩
  found_iff_kind := ⟨(nomatch ·), fun h => absurd rfl h⟩
  isFile := fun _ hpath => nomatch hpath
  isDeclaration := fun _ hpath => nomatch hpath
  baseName := fun _ hpath => nomatch hpath
  exact_iff := ⟨(nomatch ·), fun ⟨_, htarget⟩ => nomatch hbeside.symm.trans htarget⟩
  beside := (nomatch ·)
  complete := fun _ => hfree

lemma isSound_last
    (hfound : fs.isFile (package / path).text = true →
      IsSound fs package file builds { found := true, kind, file := some path, source })
    (hfree : fs.isFile (package / path).text ≠ true →
      IsSound fs package file builds { found := false, kind := .absent, file := none, source }) :
    IsSound fs package file builds {
      found := fs.isFile (package / path).text
      kind := if fs.isFile (package / path).text then kind else .absent
      file := if fs.isFile (package / path).text then some path else none
      source } := by
  by_cases hfile : fs.isFile (package / path).text = true
  · simpa only [hfile, if_true] using hfound hfile
  · simpa only [hfile, Bool.false_eq_true, if_false] using hfree hfile

/-- Looking for the declaration of a path without needless parts gives a result as soon as there is a build directory.
Whether a declaration is found, the declaration itself and how it belongs to the file agree; it is a file with the base
name of the path; it is exact if and only if it is the one beside the file; and if there is none, then no candidate is a
file. -/
theorem lookup_is_sound (fs : FileSystem) (package : Path) (hfile : Relative.IsTidy file) (hbuilds : builds ≠ []) :
    ∃ d, find fs package file builds = .ok d ∧ IsSound fs package file builds d := by
  unfold find
  dsimp only
  by_cases hend : Text.endsWith (Relative.bare file) ".d.ts" = true
  · have hbeside := beside?_eq_own fs package hend
    rw [if_pos hend]
    refine ⟨_, rfl, isSound_last (fun hown => ?_) fun hfree => ?_⟩
    · exact isSound_found hown hend rfl (nomatch ·) (hbeside.trans (if_pos hown))
    · exact isSound_absent (hbeside.trans (if_neg hfree)) fun hother => absurd (hend.symm.trans hother) (by decide)
  rw [if_neg hend]
  obtain ⟨hname, hslash⟩ := baseName_spec hfile
  have hbeside := beside?_eq_sibling fs package hfile hend rfl
  have hfound {path : Text} {kind : MappingKind} (hpath : IsNamed (place (Relative.bare file)).2 path)
      (hfile : fs.isFile (package / path).text = true) (hkind : kind ≠ .absent)
      (hbeside : beside? fs package file = if kind = .exact then some ("./" ++ path) else none) :
      IsSound fs package file builds { found := true, kind, file := some path, source := some (Relative.bare file) } :=
    isSound_found hfile hpath.suffix (hpath.place_eq hname hslash) hkind hbeside
  set sibling := Written.join (place (Relative.bare file)).1 (fileName (place (Relative.bare file)).2)
  by_cases hown : fs.isFile (package / sibling).text = true
  · rw [if_pos hown] at hbeside ⊢
    exact ⟨_, rfl, hfound (isNamed_join _ _) hown (nomatch ·) hbeside⟩
  rw [if_neg hown] at hbeside ⊢
  cases helsewhere : (elsewhere (place (Relative.bare file)).1 (place (Relative.bare file)).2 builds).find?
      fun path : Text => fs.isFile (package / path).text with
  | some other =>
    have hnamed := isNamed_of_mem_elsewhere (List.mem_of_find?_eq_some helsewhere)
    have hother : fs.isFile (package / other).text = true :=
      List.find?_some (p := fun path : Text => fs.isFile (package / path).text) helsewhere
    exact ⟨_, rfl, hfound hnamed hother (nomatch ·) hbeside⟩
  | none =>
    obtain ⟨emitted, hemitted, hnamed⟩ := exists_expected (Relative.bare file) hbuilds
    rw [Relative.bare_of_isTidy hfile] at hnamed
    refine ⟨_, bind_ok_iff.mpr ⟨emitted, hemitted, rfl⟩, isSound_last (fun hfile => ?_) fun hfree => ?_⟩
    · exact hfound hnamed hfile (nomatch ·) hbeside
    · refine isSound_absent hbeside fun _ path hpath => ?_
      rcases hpath with hmem | hexpected
      · exact List.find?_eq_none.mp helsewhere path hmem
      · rwa [← Except.ok.inj (hemitted.symm.trans hexpected)]

/-- A package whose only declaration is not beside the script that it belongs to. -/
def packageWithTypes : FileSystem :=
  (FileSystem.empty.put ["types"] .directory).put ["types", "jquery.min.d.ts"] (.file [])

/-- The declaration is found in the other build directory, and is not exact. -/
theorem lookup_is_sound_jquery : ∃ d,
    find packageWithTypes (Path.ofText ".") "./lib/jquery.min.js" ["lib", "types"] = .ok d ∧
      d.found = true ∧ d.file = some "types/jquery.min.d.ts" ∧
      (place "types/jquery.min.d.ts").2 = (place "lib/jquery.min.js").2 ∧
      ¬∃ target, beside? packageWithTypes (Path.ofText ".") "./lib/jquery.min.js" = some target := by
  have hparts : (find packageWithTypes (Path.ofText ".") "./lib/jquery.min.js" ["lib", "types"]).toOption.map
      (fun d => (d.kind, d.file)) = some (.inferred, some (Text.ofString "types/jquery.min.d.ts")) := by decide +kernel
  obtain ⟨d, hfind, hsound⟩ := lookup_is_sound packageWithTypes (Path.ofText ".")
    (show Relative.IsTidy (Text.ofString "./lib/jquery.min.js") by decide)
    (List.cons_ne_nil (Text.ofString "lib") [Text.ofString "types"])
  rw [hfind] at hparts
  obtain ⟨hkind, hfile⟩ := Prod.mk.inj (Option.some.inj hparts)
  refine ⟨d, hfind, hsound.found_iff_file.mpr ⟨_, hfile⟩, hfile, hsound.baseName _ hfile, ?_⟩
  rw [← hsound.exact_iff, hkind]
  decide

end Declaration

end PackageExports
