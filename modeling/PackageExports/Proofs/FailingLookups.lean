import PackageExports.Proofs.DeclarationLookup
import PackageExports.Proofs.OwnFiles
import PackageExports.Proofs.StrippedDirectories

/-!
# Look-ups that fail

To find nothing is a result. The source of a path, a file in a build directory and the usual targets always give one.
The declaration of a path in a source directory is expected in the first build directory, which fails if there is none.
A source that is looked for with nothing but a point as its name may be found beside the source directory, and is then
not seen from it. These are the only two ways to fail.

Main results: `Declaration.exists_find_iff`, `EntryRequest.exists_prediction_iff`, `EntryRequest.lookups_return_iff`.
-/

namespace PackageExports

open PackageExports.Path (IsSegment IsClean IsInner)

lemma Relative.isTidy_of_ne {path : Text} (hpath : path = "." ∨ IsTidy path) (hdot : bare path ≠ ".") :
    IsTidy path := by
  refine hpath.resolve_left ?_
  rintro rfl
  exact hdot rfl

namespace Declaration

variable {fs : FileSystem} {package : Path} {path top directory last : Text} {builds : List Text}

/-- Whether a path lies in a directory whose files are sources. -/
def LiesInSource (path : Text) : Prop :=
  ∃ top ∈ sourceDirectories, SourceFile.liesIn top (Relative.bare path) = true

instance (path : Text) : Decidable (LiesInSource path) :=
  inferInstanceAs (Decidable (∃ top ∈ sourceDirectories, _))

lemma exists_below?_iff (hlast : CodePoint.ofChar '/' ∉ last) :
    (∃ rest, below? top directory = some rest) ↔ SourceFile.liesIn top (directory ++ "/" ++ last) = true := by
  rw [SourceFile.liesIn_iff, below?]
  split_ifs with hsame
  · rw [hsame]
    exact ⟨fun _ => ⟨last, rfl⟩, fun _ => ⟨[], rfl⟩⟩
  simp only [Text.dropStart?_eq_some]
  constructor
  · rintro ⟨rest, rfl⟩
    exact ⟨rest ++ "/" ++ last, by simp only [List.append_assoc]⟩
  · rintro ⟨rest, hrest⟩
    rw [List.append_assoc, List.append_assoc] at hrest
    rcases List.append_eq_append_iff.mp hrest with ⟨more, htop, hlater⟩ | ⟨more, hdirectory, hlater⟩
    · -- the slash after `top` would be one of `last`
      cases more with
      | nil => exact absurd ((List.append_nil directory).symm.trans htop.symm) hsame
      | cons c more =>
        have hmore : last = more ++ ("/" ++ rest) := (List.cons.inj hlater).2
        exact absurd (hmore ▸ List.mem_append_right _ List.mem_cons_self) hlast
    · cases more with
      | nil => exact absurd (hdirectory.trans (List.append_nil top)) hsame
      | cons c more =>
        obtain ⟨rfl, -⟩ := List.cons.inj hlater
        exact ⟨more, by rw [hdirectory, List.append_assoc]; rfl⟩

lemma exists_sourceBelow_iff (hpath : path = "." ∨ Relative.IsTidy path) :
    (∃ rest, sourceDirectories.findSome? (below? · (place (Relative.bare path)).1) = some rest) ↔
      LiesInSource path := by
  have hall : (∃ rest, sourceDirectories.findSome? (below? · (place (Relative.bare path)).1) = some rest) ↔
      ∃ top ∈ sourceDirectories, ∃ rest, below? top (place (Relative.bare path)).1 = some rest := by
    rw [← Option.isSome_iff_exists, List.findSome?_isSome_iff]
    simp only [Option.isSome_iff_exists]
  rw [hall, LiesInSource]
  refine exists_congr fun top => and_congr_right fun htop => ?_
  rcases hpath with rfl | htidy
  · have hnone : ∀ top ∈ sourceDirectories, below? top (place (Relative.bare ".")).1 = none ∧
        SourceFile.liesIn top (Relative.bare ".") = false := by decide
    obtain ⟨hbelow, hlies⟩ := hnone top htop
    simp [hbelow, hlies]
  obtain ⟨front, last, hrow⟩ := htidy.exists_row
  rw [place_of_row hrow, hrow.bare_eq]
  by_cases hfront : front = []
  · have hbelow : ∀ top ∈ sourceDirectories, below? top (Text.joinWith "/" []) = none := by decide
    subst hfront
    refine iff_of_false (fun ⟨_, hrest⟩ => nomatch (hbelow top htop).symm.trans hrest) fun hlies => ?_
    obtain ⟨rest, hrest⟩ := SourceFile.liesIn_iff.mp hlies
    change last = top ++ "/" ++ rest at hrest
    have hmem : CodePoint.ofChar '/' ∈ top ++ "/" ++ rest := by simp [Text.ofString]
    exact absurd (hrest ▸ hmem) hrow.last.2.2
  · have hjoin : Text.joinWith "/" (front ++ [last]) = Text.joinWith "/" front ++ "/" ++ last :=
      Text.joinWith_append _ hfront (List.cons_ne_nil _ _)
    rw [hjoin]
    exact exists_below?_iff hrow.last.2.2

/-! ### Where a declaration is expected -/

lemma exists_expected_iff (hpath : path = "." ∨ Relative.IsTidy path) :
    (∃ target, expected path builds = .ok target) ↔ ¬(builds = [] ∧ LiesInSource path) := by
  by_cases hbuilds : builds = []
  · subst hbuilds
    rw [← exists_sourceBelow_iff hpath]
    have hnone : ¬([] : List Text).any (fun top => (below? top (place (Relative.bare path)).1).isSome) = true := by
      simp
    unfold expected
    dsimp only
    rw [if_neg hnone]
    cases sourceDirectories.findSome? (below? · (place (Relative.bare path)).1) with
    | none => simp
    | some rest => simp
  · obtain ⟨target, htarget, -⟩ := exists_expected path hbuilds
    exact ⟨fun _ hnone => hbuilds hnone.1, fun _ => ⟨target, htarget⟩⟩

lemma exists_find_iff_expected (fs : FileSystem) (package : Path) (path : Text) (builds : List Text) :
    (∃ d, find fs package path builds = .ok d) ↔
      Text.endsWith (Relative.bare path) ".d.ts" = true ∨
      fs.isFile (package / Written.join (place (Relative.bare path)).1
        (fileName (place (Relative.bare path)).2)).text = true ∨
      (∃ other, (elsewhere (place (Relative.bare path)).1 (place (Relative.bare path)).2 builds).find?
        (fun path : Text => fs.isFile (package / path).text) = some other) ∨
      ∃ target, expected (Relative.bare path) builds = .ok target := by
  unfold find
  dsimp only
  by_cases hend : Text.endsWith (Relative.bare path) ".d.ts" = true
  · rw [if_pos hend]
    exact ⟨fun _ => .inl hend, fun _ => ⟨_, rfl⟩⟩
  rw [if_neg hend, or_iff_right hend]
  set sibling := Written.join (place (Relative.bare path)).1 (fileName (place (Relative.bare path)).2)
  by_cases hown : fs.isFile (package / sibling).text = true
  · rw [if_pos hown]
    exact ⟨fun _ => .inl hown, fun _ => ⟨_, rfl⟩⟩
  rw [if_neg hown, or_iff_right hown]
  cases (elsewhere (place (Relative.bare path)).1 (place (Relative.bare path)).2 builds).find?
      fun path : Text => fs.isFile (package / path).text with
  | some other => exact ⟨fun _ => .inl ⟨other, rfl⟩, fun _ => ⟨_, rfl⟩⟩
  | none =>
    rw [or_iff_right (fun ⟨_, hother⟩ => nomatch hother)]
    constructor
    · rintro ⟨d, hd⟩
      obtain ⟨target, htarget, -⟩ := bind_ok_iff.mp hd
      exact ⟨target, htarget⟩
    · rintro ⟨target, htarget⟩
      exact ⟨_, bind_ok_iff.mpr ⟨target, htarget, rfl⟩⟩

lemma expected_bare (hpath : path = "." ∨ Relative.IsTidy path) (builds : List Text) :
    expected (Relative.bare path) builds = expected path builds := by
  have hbare : Relative.bare (Relative.bare path) = Relative.bare path := by
    rcases hpath with rfl | htidy
    · rfl
    · exact Relative.bare_of_isTidy htidy
  rw [expected, expected, hbare]

/-- Looking for a declaration fails only for a source that has none beside it, and only if there is no build directory
in which its declaration would be expected. -/
lemma exists_find_iff (fs : FileSystem) (package : Path) (hpath : path = "." ∨ Relative.IsTidy path) :
    (∃ d, find fs package path builds = .ok d) ↔
      ¬(builds = [] ∧ LiesInSource path ∧ Text.endsWith (Relative.bare path) ".d.ts" = false ∧
        beside? fs package path = none) := by
  rw [exists_find_iff_expected, expected_bare hpath, exists_expected_iff hpath]
  by_cases hsource : builds = [] ∧ LiesInSource path
  · obtain ⟨rfl, hlies⟩ := hsource
    have htidy : Relative.IsTidy path := by
      refine Relative.isTidy_of_ne hpath fun hdot => ?_
      rw [LiesInSource, hdot] at hlies
      exact absurd hlies (by decide)
    by_cases hend : Text.endsWith (Relative.bare path) ".d.ts" = true
    · simp [hend]
    · rw [beside?_eq_sibling fs package htidy hend rfl]
      simp [hend, hlies, elsewhere]
  · constructor
    · exact fun _ hfails => hsource ⟨hfails.1, hfails.2.1⟩
    · exact fun _ => .inr (.inr (.inr hsource))

end Declaration

namespace EntryRequest

variable {fs : FileSystem} {r : EntryRequest} {directory extension : Text} {rest : List Text}

/-! ### Sources beside a source directory -/

/-- A directory for which the first file that is found is not in it, but has its name with an extension. -/
def IsBeside (fs : FileSystem) (package : Path) (directory : Text) : Prop :=
  ∃ extension ∈ [Text.ofString ".ts", ".tsx"],
    Probe.fileOrIndex? fs (package / directory).text [".ts", ".tsx"] =
      some (Probe.withExtension (package / directory).text extension)

/-- Directories of which the first one for which a file is found has it beside itself. -/
inductive StopsBeside (fs : FileSystem) (package : Path) : List Text → Prop
  | first {directory : Text} {rest : List Text} : IsBeside fs package directory →
      StopsBeside fs package (directory :: rest)
  | later {directory : Text} {rest : List Text} :
      Probe.fileOrIndex? fs (package / directory).text [".ts", ".tsx"] = none → StopsBeside fs package rest →
      StopsBeside fs package (directory :: rest)

lemma not_seenFrom_beside (hpackage : r.package.IsClean) (hdirectory : IsInner directory) (hextension : extension ≠ [])
    (hslash : CodePoint.ofChar '/' ∉ extension) (seen : Text) :
    SearchPlan.seenFrom (r.package / directory) (Probe.withExtension (r.package / directory).text extension) ≠
      .ok seen := by
  intro hseen
  obtain ⟨rest, hrest, -⟩ := Path.seenFrom_eq_ok.mp hseen
  obtain ⟨front, last, hlast⟩ := (List.eq_nil_or_concat' (Path.ofText directory).segments).resolve_left hdirectory.2
  rw [Probe.withExtension_below hpackage hdirectory.1 hslash hlast, Path.joinText_eq _ hdirectory.1, hlast] at hrest
  have hsegments := congrArg Path.segments hrest
  dsimp only at hsegments
  rw [List.append_assoc, List.append_assoc, List.append_right_inj, List.append_right_inj] at hsegments
  have hname : last ++ extension = last := (List.cons.inj hsegments).1
  exact hextension (List.append_right_eq_self.mp hname)

lemma predictionBelow_point (hstem : r.outputStem = ".") (directory : Text) :
    predictionBelow fs r directory =
      (SearchPlan.foundFrom (r.package / directory)
        (Probe.fileOrIndex? fs (r.package / directory).text [".ts", ".tsx"])).map
          fun found => found.map (predictedConditions r directory) := by
  have hpoint : r.package / directory / Text.ofString "." = r.package / directory := by
    rw [Path.joinText_eq _ (by decide)]
    exact congrArg (Path.mk _) (List.append_nil _)
  rw [predictionBelow, hstem, hpoint]
  rfl

lemma exists_predictionBelow_iff (fs : FileSystem) (hpackage : r.package.IsClean) (hdirectory : IsInner directory)
    (hstem : r.outputStem = ".") :
    (∃ found, predictionBelow fs r directory = .ok found) ↔ ¬IsBeside fs r.package directory := by
  have hextensions : ∀ extension ∈ [Text.ofString ".ts", ".tsx"],
      extension ≠ [] ∧ CodePoint.ofChar '/' ∉ extension := by decide
  rw [predictionBelow_point hstem]
  constructor
  · rintro ⟨found, hfound⟩ ⟨extension, hmem, hbeside⟩
    obtain ⟨hne, hslash⟩ := hextensions extension hmem
    rw [hbeside] at hfound
    obtain ⟨_, hseen, -⟩ := map_ok_iff.mp hfound
    obtain ⟨seen, hseen, -⟩ := map_ok_iff.mp hseen
    exact not_seenFrom_beside hpackage hdirectory hne hslash seen hseen
  · intro hinside
    cases hfound : Probe.fileOrIndex? fs (r.package / directory).text [".ts", ".tsx"] with
    | none => exact ⟨none, rfl⟩
    | some p =>
      obtain ⟨extension, hmem, rfl | rfl⟩ := Probe.tried_of_fileOrIndex? hfound
      · exact absurd ⟨extension, hmem, hfound⟩ hinside
      · obtain ⟨-, hslash⟩ := hextensions extension hmem
        have hindex : Probe.indexWith (r.package / directory).text extension =
            ⟨(r.package / directory).anchor, (r.package / directory).segments ++ ["index" ++ extension]⟩ :=
          Probe.indexWith_text (Path.isClean_div hpackage directory) hslash
        rw [SearchPlan.foundFrom, hindex, Path.seenFrom_below]
        exact ⟨_, rfl⟩

lemma predictionBelow_eq_none (hstem : r.outputStem = ".") (directory : Text) :
    predictionBelow fs r directory = .ok none ↔
      Probe.fileOrIndex? fs (r.package / directory).text [".ts", ".tsx"] = none := by
  rw [predictionBelow_point hstem, ← SearchPlan.foundFrom_eq_none (r.package / directory), map_ok_iff]
  constructor
  · rintro ⟨seen, hseen, hnone⟩
    rw [hseen, Option.map_eq_none_iff.mp hnone]
  · exact fun hnone => ⟨none, hnone, rfl⟩

lemma stopsBeside_cons {package : Path} : StopsBeside fs package (directory :: rest) ↔
    IsBeside fs package directory ∨
      Probe.fileOrIndex? fs (package / directory).text [".ts", ".tsx"] = none ∧ StopsBeside fs package rest := by
  constructor
  · intro hstops
    cases hstops with
    | first hbeside => exact .inl hbeside
    | later hfree hlater => exact .inr ⟨hfree, hlater⟩
  · rintro (hbeside | ⟨hfree, hlater⟩)
    · exact .first hbeside
    · exact .later hfree hlater

/-- With nothing but a point as its name, a source is looked for in one directory after the other until there is a file
for one of them. -/
lemma exists_predictionIn_iff (fs : FileSystem) (hpackage : r.package.IsClean) (hstem : r.outputStem = ".")
    {directories : List Text} (hdirectories : ∀ directory ∈ directories, IsInner directory) :
    (∃ found, predictionIn fs r directories = .ok found) ↔ ¬StopsBeside fs r.package directories := by
  induction directories with
  | nil => exact ⟨fun _ => (nomatch ·), fun _ => ⟨none, rfl⟩⟩
  | cons directory rest ih =>
    obtain ⟨hdirectory, hrest⟩ := List.forall_mem_cons.mp hdirectories
    have hbelow := exists_predictionBelow_iff fs hpackage hdirectory hstem
    rw [stopsBeside_cons, not_or, ← hbelow, ← predictionBelow_eq_none hstem, predictionIn]
    cases hfirst : predictionBelow fs r directory with
    | error cause =>
      refine iff_of_false ?_ ?_
      · rintro ⟨found, hfound⟩
        cases hfound
      · rintro ⟨⟨found, hfound⟩, -⟩
        cases hfound
    | ok first =>
      rw [and_iff_right ⟨first, rfl⟩]
      cases first with
      | none =>
        rw [and_iff_right rfl]
        exact ih hrest
      | some cs =>
        refine iff_of_true ⟨some cs, rfl⟩ ?_
        rintro ⟨hnone, -⟩
        cases hnone

lemma exists_prediction_iff (fs : FileSystem) (hpackage : r.package.IsClean)
    (hpath : r.path = "." ∨ Relative.IsTidy r.path) (hsources : ∀ directory ∈ r.sourceDirectories, IsInner directory) :
    (∃ found, prediction fs r = .ok found) ↔
      ¬(r.outputStem = "." ∧ StopsBeside fs r.package r.sourceDirectories) := by
  by_cases hstem : r.outputStem = "."
  · rw [prediction, exists_predictionIn_iff fs hpackage hstem hsources, and_iff_right hstem]
  · have hinner : IsInner r.outputStem :=
      isInner_dropCompiled (segments_subpath fun _ hdot => Relative.isTidy_of_ne hpath hdot) hstem
    exact iff_of_true (exists_prediction fs hpackage hinner) fun hfails => hstem hfails.1

/-! ### All look-ups -/

/-- Which look-ups for a path give a result. -/
structure LookupsReturn (fs : FileSystem) (r : EntryRequest) : Prop where
  source : ∃ source, SourceFile.find? fs r.package r.path r.sourceDirectories r.buildDirectories = .ok source
  exactMatch : ∃ found, exactMatch fs r = .ok found
  assumption : ∃ cs, (assumption fs r).result = .ok cs
  expected : (∃ target, Declaration.expected r.path r.buildDirectories = .ok target) ↔
    ¬(r.buildDirectories = [] ∧ Declaration.LiesInSource r.path)
  declaration : (∃ d, Declaration.find fs r.package r.path r.buildDirectories = .ok d) ↔
    ¬(r.buildDirectories = [] ∧ Declaration.LiesInSource r.path ∧
      Text.endsWith (Relative.bare r.path) ".d.ts" = false ∧ Declaration.beside? fs r.package r.path = none)
  prediction : (∃ found, prediction fs r = .ok found) ↔
    ¬(r.outputStem = "." ∧ StopsBeside fs r.package r.sourceDirectories)

/-- Each look-up for a path without needless parts, with directories that lead to a name, gives a result, apart from two
cases: the declaration of a path in a source directory if there is no build directory, and the source of a path of which
nothing but a point is left if a source is found beside the directory. -/
theorem lookups_return_iff (fs : FileSystem) (hpackage : r.package.IsClean)
    (hpath : r.path = "." ∨ Relative.IsTidy r.path) (hbuilds : ∀ directory ∈ r.buildDirectories, IsInner directory)
    (hsources : ∀ directory ∈ r.sourceDirectories, IsInner directory) : LookupsReturn fs r := by
  have houtput : IsInner r.outputDirectory := by
    unfold outputDirectory
    split
    · decide
    · decide
    · rename_i directory _ hnamed
      exact hbuilds directory (mem_of_namedDirectory hnamed)
  refine ⟨?_, ?_, ?_, Declaration.exists_expected_iff hpath, Declaration.exists_find_iff fs r.package hpath,
    exists_prediction_iff fs hpackage hpath hsources⟩
  · have hhead : (Relative.bare r.path).head? ≠ some (CodePoint.ofChar '/') := by
      rcases hpath with hself | htidy
      · rw [hself]
        decide
      · exact Path.anchor_eq_relative.mp (Path.anchor_of_splitOn htidy)
    rw [← SourceFile.find?_bare]
    exact SourceFile.exists_find? fs hpackage hhead hsources r.buildDirectories
  · exact exists_exactMatch fs hpackage hsources hbuilds
      (isInner_subpath fun _ hdot => Relative.isTidy_of_ne hpath hdot)
  · obtain ⟨cs, hcs, -⟩ := exists_assumption fs hpackage hsources (houtput.append r.outputStem)
    exact ⟨cs, hcs⟩

/-- A source in a package that is not built. -/
def unbuiltSource : EntryRequest where
  path := "./src/a.ts"
  package := Path.ofText "."
  buildDirectories := []
  sourceDirectories := ["src"]

/-- A declaration of the source is not expected anywhere, but its own source is looked for. -/
theorem lookups_return_iff_unbuilt :
    (∃ source, SourceFile.find? .empty (Path.ofText ".") "./src/a.ts" ["src"] [] = .ok source) ∧
      (∃ found, prediction .empty unbuiltSource = .ok found) ∧
      ¬∃ target, Declaration.expected "./src/a.ts" [] = .ok target := by
  have htidy : Relative.IsTidy unbuiltSource.path := by decide
  have hsources : ∀ directory ∈ unbuiltSource.sourceDirectories, IsInner directory := by decide
  have hreturn := lookups_return_iff .empty (Path.isClean_ofText ".") (.inr htidy)
    (fun directory hdirectory => nomatch hdirectory) hsources
  refine ⟨hreturn.source, hreturn.prediction.mpr fun hfails => absurd hfails.1 (by decide), fun hexpected => ?_⟩
  exact hreturn.expected.mp hexpected ⟨rfl, by decide⟩

/-- Neither the declaration of a source without a build directory nor the source of a script whose name is a point can
be looked for, though both paths are tidy. -/
theorem lookups_fail_unbuilt :
    Relative.IsTidy "./src/a.ts" ∧ Relative.IsTidy "./..js" ∧
      Declaration.expected "./src/a.ts" [] = .error .noBuildDirectory ∧
      Declaration.find .empty (Path.ofText ".") "./src/a.ts" [] = .error .noBuildDirectory ∧
      prediction (FileSystem.empty.put ["src.ts"] (.file [])) { path := "./..js", package := Path.ofText "." } =
        .error (.cause (.outside (Path.ofText "src.ts") (Path.ofText "src"))) := by
  decide +kernel

end EntryRequest

end PackageExports
