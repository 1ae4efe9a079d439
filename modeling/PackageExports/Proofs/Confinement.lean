import PackageExports.Proofs.LevelPaths

/-!
# Confinement to the package

Everything that is looked for on behalf of an imported path is below the package, as long as the path leads down and
goes on leading down where it is cut. Then targets are found without an error, and they depend on nothing outside of the
package. A path with an empty segment or a point after its build directory escapes.

Main results: `FileSystem.AgreeBelow.find?_eq`, `EntryRequest.conditions_confined`.
-/

namespace PackageExports

open FileSystem (IsName Stays)
open PackageExports.Path (IsSegment IsClean IsInner IsInside IsDown)
open Text (Level LevelFront)

/-! ### Results that coincide -/

/-- Two computations that give the same value, and no error. -/
def Coincide {ε α : Type} (x y : Except ε α) : Prop :=
  ∃ a, x = .ok a ∧ y = .ok a

namespace Coincide

variable {ε α β : Type} {x y : Except ε α}

lemma ok (a : α) : Coincide (.ok a : Except ε α) (.ok a) :=
  ⟨a, rfl, rfl⟩

lemma eq (h : Coincide x y) : y = x := by
  obtain ⟨a, rfl, rfl⟩ := h
  rfl

lemma bind {f g : α → Except ε β} (h : Coincide x y) (hfg : ∀ a, x = .ok a → Coincide (f a) (g a)) :
    Coincide (x >>= f) (y >>= g) := by
  obtain ⟨a, rfl, rfl⟩ := h
  exact hfg a rfl

lemma map (h : Coincide x y) (f : α → β) : Coincide (x.map f) (y.map f) := by
  obtain ⟨a, rfl, rfl⟩ := h
  exact ok (f a)

lemma findSomeM? {search search' : α → Except ε (Option β)} {places : List α}
    (h : ∀ a ∈ places, Coincide (search a) (search' a)) :
    Coincide (places.findSomeM? search) (places.findSomeM? search') := by
  obtain ⟨found, hfound⟩ := exists_findSomeM? fun a ha => (h a ha).imp fun _ hboth => hboth.1
  exact ⟨found, hfound, (findSomeM?_congr fun a ha => (h a ha).eq).trans hfound⟩

end Coincide

/-! ### Looking for files -/

namespace Probe

variable {base : Text} {extensions names : List Text}

lemma notMem_of_extensions (hextensions : ∀ e ∈ extensions, e = [] ∨ IsName e) :
    ∀ e ∈ extensions, CodePoint.ofChar '/' ∉ e := by
  intro e he
  rcases hextensions e he with rfl | hname
  · exact List.not_mem_nil
  · exact hname.2.2.2

lemma NamesTried.eq_or (h : NamesTried base extensions names) (hextensions : ∀ e ∈ extensions, e = [] ∨ IsName e) :
    names = (Path.ofText base).segments ∨
      ∃ front last, names = front ++ [last] ∧ front <+: (Path.ofText base).segments ∧ IsName last := by
  obtain ⟨extension, hextension, rfl | ⟨front, last, hlast, rfl⟩⟩ := h
  · have hslash := notMem_of_extensions hextensions extension hextension
    exact .inr ⟨_, _, rfl, List.prefix_rfl, FileSystem.IsName.append (by decide) hslash⟩
  · rcases hextensions extension hextension with rfl | hname
    · rw [List.append_nil]
      exact .inl hlast.symm
    · have hclean : IsSegment last := Path.isClean_ofText base last (by rw [hlast]; simp)
      obtain ⟨hne, hdot, hslash⟩ := hclean.append hname.2.2.2
      have hfront : front <+: (Path.ofText base).segments := hlast ▸ List.prefix_append front [last]
      exact .inr ⟨front, _, rfl, hfront, hne, hdot, Text.append_ne_up last hname, hslash⟩

/-- What is tried for a path leads out or up only if the path does. -/
lemma NamesTried.inside (h : NamesTried base extensions names) (hextensions : ∀ e ∈ extensions, e = [] ∨ IsName e) :
    (∀ name ∈ names, IsSegment name) ∧ (Stays 0 (Path.ofText base).segments → Stays 0 names) ∧
      (Level base → Text.ofString ".." ∉ names) := by
  have hclean := Path.isClean_ofText base
  rw [Text.level_iff]
  rcases h.eq_or hextensions with rfl | ⟨front, last, rfl, hfront, hlast⟩
  · exact ⟨hclean, id, id⟩
  · have hup : Text.ofString ".." ∉ [last] := by
      rw [List.mem_singleton]
      exact hlast.2.2.1.symm
    refine ⟨?_, fun hstays => ?_, fun hlevel => ?_⟩
    · rw [List.forall_mem_append, List.forall_mem_singleton]
      exact ⟨fun name hname => hclean name (hfront.subset hname), Path.isSegment_of_isName hlast⟩
    · obtain ⟨more, hmore⟩ := hfront
      rw [← hmore] at hstays
      exact hstays.of_append.append hup
    · rw [List.mem_append, not_or]
      exact ⟨fun hmem => hlevel (hfront.subset hmem), hup⟩

end Probe

/-- Two file systems in which the same is found by ways that start with a path and do not lead out of there. -/
def FileSystem.AgreeBelow (fs after : FileSystem) (package : Path) : Prop :=
  ∀ rest, (∀ name ∈ rest, IsSegment name) → Stays 0 rest →
    after.kind? (Path.text ⟨package.anchor, package.segments ++ rest⟩) =
      fs.kind? (Path.text ⟨package.anchor, package.segments ++ rest⟩)

namespace FileSystem

variable {fs after : FileSystem} {package : Path}

lemma AgreeBelow.refl (fs : FileSystem) (package : Path) : AgreeBelow fs fs package :=
  fun _ _ _ => rfl

/-- Files outside of a package do not matter for what is found by ways that do not lead out of it. -/
lemma FilesApart.agreeBelow {base : Location} (h : FilesApart fs after base) (hlinks : fs.UnlinkedBelow base)
    (hbase : fs.entryAt? base = some .directory) (hpackage : package.IsClean)
    (hfind : fs.find package.text = .ok base) : AgreeBelow fs after package :=
  fun _ hrest hstays => h.kind?_below hlinks hbase hpackage hfind hrest hstays

namespace AgreeBelow

variable {base : Text} {extensions : List Text} (h : AgreeBelow fs after package)

include h

lemma kind?_eq (hbase : IsInside base) : after.kind? (package / base).text = fs.kind? (package / base).text := by
  rw [Path.joinText_eq package hbase.1.1]
  exact h _ (Path.isClean_ofText base) hbase.2

lemma isFile_eq (hbase : IsInside base) : after.isFile (package / base).text = fs.isFile (package / base).text := by
  rw [isFile, isFile, h.kind?_eq hbase]

variable (hpackage : package.IsClean) (hbase : IsInside base) (hextensions : ∀ e ∈ extensions, e = [] ∨ IsName e)

include hpackage hbase hextensions

lemma isFile_tried {p : Path} (hp : Probe.Tried (package / base).text extensions p) :
    after.isFile p.text = fs.isFile p.text := by
  obtain ⟨names, hnames, rfl⟩ := hp.names hpackage hbase.1 (Probe.notMem_of_extensions hextensions)
  obtain ⟨hclean, hstays, -⟩ := hnames.inside hextensions
  rw [isFile, isFile, h names hclean (hstays hbase.2)]

lemma fileOrIndex?_eq :
    Probe.fileOrIndex? after (package / base).text extensions =
      Probe.fileOrIndex? fs (package / base).text extensions :=
  Probe.fileOrIndex?_congr fun _ hp => h.isFile_tried hpackage hbase hextensions hp

lemma fileBeforeIndex?_eq :
    Probe.fileBeforeIndex? after (package / base).text extensions =
      Probe.fileBeforeIndex? fs (package / base).text extensions := by
  refine Probe.fileBeforeIndex?_congr (fun _ hp => h.isFile_tried hpackage hbase hextensions hp) fun _ _ _ => ?_
  rw [isDirectory, isDirectory, h.kind?_eq hbase]

end AgreeBelow

end FileSystem

namespace Path

lemma joinText_slash (package : Path) {t rest : Text} (h : IsInner t) (hrest : (ofText rest).anchor = .relative) :
    package / t / rest = package / (t ++ "/" ++ rest) := by
  rw [joinText_eq package h.1, joinText_eq _ hrest, joinText_eq package (h.append rest).1, segments_slash,
    List.append_assoc]

end Path

namespace Probe

variable {fs : FileSystem} {root : Path} {base file : Text} {extensions : List Text}

lemma level_found (hroot : root.IsClean) (hbase : IsDown base) (hextensions : ∀ e ∈ extensions, e = [] ∨ IsName e)
    (h : SearchPlan.foundFrom root (fileOrIndex? fs (root / base).text extensions) = .ok (some file)) :
    (Path.ofText file).anchor = .relative ∧ Level file := by
  obtain ⟨names, hnames, rfl⟩ := names_of_foundFrom hroot hbase.1 (notMem_of_extensions hextensions) h
  obtain ⟨hclean, -, hup⟩ := hnames.inside hextensions
  rw [Text.level_iff, Path.ofText_text (p := ⟨.relative, names⟩) hclean]
  exact ⟨rfl, hup hbase.2⟩

end Probe

namespace FileSystem.AgreeBelow

variable {fs after : FileSystem} {package : Path} (h : AgreeBelow fs after package)

include h

/-! ### Sources and declarations -/

/-- The source of a level path is found in the package or nowhere. -/
theorem find?_coincide (hpackage : package.IsClean) {path : Text} (hpath : (Path.ofText path).anchor = .relative)
    (hlevel : Level path) {sources : List Text} (hsources : ∀ directory ∈ sources, IsDown directory)
    (builds : List Text) :
    Coincide (SourceFile.find? fs package ("./" ++ path) sources builds)
      (SourceFile.find? after package ("./" ++ path) sources builds) := by
  have hinside := SourceFile.isInside_candidates (Path.anchor_eq_relative.mp hpath) hlevel hsources builds
  rw [SourceFile.find?, SourceFile.find?, SourceFile.firstSource?_eq, SourceFile.firstSource?_eq]
  refine .findSomeM? fun base hbase => ?_
  unfold SourceFile.resolve?
  rw [h.fileBeforeIndex?_eq hpackage (hinside base hbase) (by decide)]
  have hbelow : ∀ p ∈ Probe.fileBeforeIndex? fs (package / base).text SourceFile.extensions,
      ∃ rest, p = ⟨package.anchor, package.segments ++ rest⟩ :=
    fun p hp => (Probe.tried_of_fileBeforeIndex? hp).below hpackage (hinside base hbase).1 (by decide)
  obtain ⟨seen, hseen⟩ := Probe.exists_foundFrom hbelow
  exact Coincide.map ⟨seen, hseen, hseen⟩ _

lemma beside?_eq {file : Text} (hanchor : (Path.ofText (Relative.bare file)).anchor = .relative)
    (hlevel : Level file) : Declaration.beside? after package file = Declaration.beside? fs package file := by
  have hcandidate := Declaration.isDown_candidate hanchor (Relative.level_bare.mpr hlevel)
  unfold Declaration.beside?
  dsimp only
  rw [h.isFile_eq hcandidate.isInside]

/-! ### Two builds -/

variable (hpackage : package.IsClean)

include hpackage

lemma resolve?_coincide {base : Text} (hbase : IsDown base) {extensions : List Text}
    (hextensions : ∀ e ∈ extensions, e = [] ∨ IsName e) :
    Coincide (Expansion.resolve? fs package extensions base) (Expansion.resolve? after package extensions base) := by
  obtain ⟨file, hfile⟩ :=
    Expansion.exists_resolve? fs hpackage hbase.1 (Probe.notMem_of_extensions hextensions)
  refine ⟨file, hfile, ?_⟩
  rw [← hfile, Expansion.resolve?, Expansion.resolve?, h.fileOrIndex?_eq hpackage hbase.isInside hextensions]

omit hpackage in
lemma typesOf?_eq {path file : Text} (hpath : IsDown path)
    (hanchor : (Path.ofText (Relative.bare file)).anchor = .relative) (hlevel : Level file) :
    Expansion.typesOf? after package path file = Expansion.typesOf? fs package path file := by
  have hstem := Relative.prefix_dropCompiled path
  have hdeclaration : IsDown (Declaration.fileName (Relative.dropCompiled path)) :=
    Path.isDown_append (Path.anchor_of_start hstem hpath.1.1) (Text.levelFront_of_start hstem hpath.2.levelFront)
      Declaration.isName_ending
  unfold Expansion.typesOf?
  dsimp only
  rw [h.isFile_eq hdeclaration.isInside, h.beside?_eq hanchor hlevel]

omit h in
lemma level_resolve? {base file : Text} (hbase : IsDown base)
    (hfound : Expansion.resolve? fs package Expansion.extensions base = .ok (some file)) :
    (Path.ofText (Relative.bare file)).anchor = .relative ∧ Level file := by
  obtain ⟨-, seen, hseen, rfl⟩ := Expansion.resolve?_eq_some.mp hfound
  obtain ⟨hanchor, hlevel⟩ := Probe.level_found hpackage hbase (by decide) hseen
  rw [Relative.bare_start]
  exact ⟨hanchor, (Text.level_slash (a := ".")).mpr ⟨by decide, hlevel⟩⟩

/-- The targets of a path in two builds are found in the package or nowhere. -/
theorem expand_coincide {pattern : BuildPattern} (hpattern : pattern.IsLevel) {path : Text}
    (hpath : pattern = .single ∨ Relative.bare path = [] ∨ Relative.bare path = "." ∨ IsDown (Relative.bare path))
    {sources : List Text}
    (hsources : ∀ directory ∈ sources, IsDown directory) :
    Coincide (Expansion.expand fs package pattern path sources)
      (Expansion.expand after package pattern path sources) := by
  cases pattern with
  | single => exact .ok none
  | dual kind cjs esm =>
    unfold Expansion.expand
    dsimp only
    by_cases hnone : Relative.bare path = [] ∨ Relative.bare path = "."
    · rw [if_pos hnone, if_pos hnone]
      exact .ok none
    have hdown : IsDown (Relative.bare path) :=
      (or_assoc.mpr (hpath.resolve_left (by simp))).resolve_left hnone
    obtain ⟨hcjs, hesm⟩ := Expansion.isDown_candidates hpattern.1 hpattern.2 hdown.1.1 hdown.2 kind
    rw [if_neg hnone, if_neg hnone]
    refine (h.resolve?_coincide hpackage hcjs (by decide)).bind fun cjsFile hcjsFile => ?_
    refine (h.resolve?_coincide hpackage hesm (by decide)).bind fun esmFile hesmFile => ?_
    refine (h.resolve?_coincide hpackage hdown (by decide)).bind fun ownFile hownFile => ?_
    cases hfile : ownFile <|> esmFile <|> cjsFile with
    | none => exact .ok none
    | some file =>
      obtain ⟨hanchor, hlevel⟩ : (Path.ofText (Relative.bare file)).anchor = .relative ∧ Level file := by
        rcases Expansion.eq_of_first hfile with rfl | rfl | rfl
        · exact level_resolve? hpackage hdown hownFile
        · exact level_resolve? hpackage hesm hesmFile
        · exact level_resolve? hpackage hcjs hcjsFile
      refine (h.find?_coincide hpackage hdown.1.1 hdown.2 hsources _).bind fun source _ => ?_
      rw [h.typesOf?_eq hdown hanchor hlevel]
      exact .ok _

end FileSystem.AgreeBelow

namespace EntryRequest

variable {fs after : FileSystem} {r : EntryRequest}

/-- The directories and builds of a package are named by relative paths that go down from it. -/
structure Ordinary (r : EntryRequest) : Prop where
  package : r.package.IsClean
  pattern : r.pattern.IsLevel
  builds : ∀ directory ∈ r.buildDirectories, IsDown (Relative.bare directory)
  sources : ∀ directory ∈ r.sourceDirectories, IsDown directory

/-- A level path goes down to a name, and so does what is cut from it: the path below its build directory, with and
without the extension. -/
structure LeadsDown (r : EntryRequest) : Prop where
  level : Level r.path
  path : r.pattern = .single ∨ Relative.bare r.path = [] ∨ Relative.bare r.path = "." ∨ IsInner (Relative.bare r.path)
  subpath : IsInner r.subpath
  stem : IsInner r.outputStem

/-! ### What is cut from a path -/

lemma level_subpath (h : Level r.path) : Level r.subpath := by
  have hindex : Level "index" := by decide
  have hclean : Level r.cleanPath := by
    rcases cleanPath_cases r with hclean | hclean
    · rwa [hclean]
    · rwa [Text.level_iff, hclean, ← Text.level_iff]
  match hnamed : r.namedDirectory with
  | none => rwa [subpath, hnamed]
  | some [] => rwa [subpath, hnamed]
  | some (c :: chars) =>
    rcases subpath_cases hnamed (List.cons_ne_nil _ _) with hsubpath | hsubpath
    · rwa [hsubpath]
    · exact Text.level_iff.mpr fun hmem => Text.level_iff.mp h (hsubpath.subset hmem)

lemma LeadsDown.isDown_subpath (h : LeadsDown r) : IsDown r.subpath :=
  ⟨h.subpath, level_subpath h.level⟩

lemma LeadsDown.levelFront_stem (h : LeadsDown r) : LevelFront r.outputStem :=
  Text.levelFront_of_start (Relative.prefix_dropCompiled _) h.isDown_subpath.2.levelFront

lemma mem_of_namedDirectory {directory : Text} (h : r.namedDirectory = some directory) :
    directory ∈ r.buildDirectories := by
  obtain ⟨hmem, hhead⟩ := Option.ite_none_right_eq_some.mp h
  exact Option.some.inj hhead ▸ hmem

lemma mem_searchRoots {directory relative : Text} (h : (directory, relative) ∈ r.searchRoots) :
    directory ∈ r.buildDirectories ∧ relative = r.subpath := by
  unfold searchRoots at h
  match hnamed : r.namedDirectory with
  | none | some [] =>
    rw [hnamed] at h
    obtain ⟨other, hother, heq⟩ := List.mem_map.mp h
    obtain ⟨rfl, rfl⟩ := Prod.mk.inj heq
    exact ⟨hother, by rw [subpath, hnamed]⟩
  | some (c :: chars) =>
    rw [hnamed] at h
    obtain ⟨rfl, rfl⟩ := Prod.mk.inj (List.mem_singleton.mp h)
    exact ⟨mem_of_namedDirectory hnamed, rfl⟩

lemma Ordinary.isDown_outputDirectory (h : Ordinary r) : IsDown (Relative.bare r.outputDirectory) := by
  unfold outputDirectory
  split
  · decide
  · decide
  · rename_i directory hne hnamed
    exact h.builds directory (mem_of_namedDirectory hnamed)

lemma level_compiledFile {file : Text} (h : Level file) : Level (compiledFile file) := by
  unfold compiledFile
  cases hcut : cutTypeScript? file with
  | none => exact h
  | some cut =>
    obtain ⟨stem, lineEnd⟩ := cut
    obtain ⟨hline, extension, -, rfl⟩ := cutTypeScript?_eq_some hcut
    have hstem : stem <+: stem ++ extension ++ lineEnd := ⟨_, (List.append_assoc _ _ _).symm⟩
    have hname : IsName (".js" ++ lineEnd) := by
      rcases hline with rfl | rfl <;> decide
    dsimp only
    rw [List.append_assoc]
    exact (Text.levelFront_of_start hstem h.levelFront).append hname

/-! ### Strategies -/

section Confined

variable (hagree : fs.AgreeBelow after r.package) (hr : Ordinary r) (hpath : LeadsDown r)

include hagree hr

lemma target_coincide {directory file : Text} (hdirectory : IsDown directory) (hfile : Level file) :
    Coincide (SourceFile.find? fs r.package ("./" ++ directory ++ "/" ++ file) r.sourceDirectories r.buildDirectories)
      (SourceFile.find? after r.package ("./" ++ directory ++ "/" ++ file) r.sourceDirectories r.buildDirectories) := by
  have htarget : Text.ofString "./" ++ directory ++ "/" ++ file = "./" ++ (directory ++ "/" ++ file) := by
    simp only [List.append_assoc]
  rw [htarget]
  exact hagree.find?_coincide hr.package (hdirectory.1.append file).1 (Text.level_slash.mpr ⟨hdirectory.2, hfile⟩)
    hr.sources r.buildDirectories

lemma builtConditions_coincide {directory file : Text} (hdirectory : IsDown (Relative.bare directory))
    (hfile : Level file) :
    Coincide (builtConditions fs r directory file) (builtConditions after r directory file) := by
  have hdown := Relative.isDown_of_bare hdirectory
  have hanchor : (Path.ofText (Relative.bare (directory ++ "/" ++ file))).anchor = .relative := by
    rw [Relative.bare_slash hdirectory.1]
    exact (hdirectory.1.append file).1
  unfold builtConditions
  rw [hagree.beside?_eq hanchor (Text.level_slash.mpr ⟨hdown.2, hfile⟩)]
  exact (target_coincide hagree hr hdown (level_compiledFile hfile)).bind fun _ _ => .ok _

lemma foundFrom_coincide {directory relative : Text} (hdirectory : IsDown directory) (hinner : IsInner relative)
    (hrelative : LevelFront relative) {extensions : List Text} (hextensions : ∀ e ∈ extensions, e = [] ∨ IsName e) :
    Coincide
      (SearchPlan.foundFrom (r.package / directory)
        (Probe.fileOrIndex? fs (r.package / directory / relative).text extensions))
      (SearchPlan.foundFrom (r.package / directory)
        (Probe.fileOrIndex? after (r.package / directory / relative).text extensions)) := by
  have hroot := Path.isClean_joinText hr.package hdirectory.1.1
  have hfiles : Probe.fileOrIndex? after (r.package / directory / relative).text extensions =
      Probe.fileOrIndex? fs (r.package / directory / relative).text extensions := by
    rw [Path.joinText_slash r.package hdirectory.1 hinner.1]
    exact hagree.fileOrIndex?_eq hr.package (hdirectory.slash hrelative) hextensions
  have hbelow : ∀ p ∈ Probe.fileOrIndex? fs (r.package / directory / relative).text extensions,
      ∃ rest, p = ⟨(r.package / directory).anchor, (r.package / directory).segments ++ rest⟩ :=
    fun p hp => (Probe.tried_of_fileOrIndex? hp).below hroot hinner (Probe.notMem_of_extensions hextensions)
  obtain ⟨seen, hseen⟩ := Probe.exists_foundFrom hbelow
  rw [hfiles]
  exact ⟨seen, hseen, hseen⟩

include hpath

lemma exactMatchBelow_coincide {directory : Text} (hdirectory : IsDown (Relative.bare directory)) :
    Coincide (exactMatchBelow fs r directory r.subpath) (exactMatchBelow after r directory r.subpath) := by
  have hdown := hpath.isDown_subpath
  have htop := Relative.isDown_of_bare hdirectory
  have hroot := Path.isClean_joinText hr.package htop.1.1
  refine (foundFrom_coincide hagree hr htop hdown.1 hdown.2.levelFront (by decide)).bind fun found hfound => ?_
  cases found with
  | none => exact .ok none
  | some file =>
    obtain ⟨-, hfile⟩ := Probe.level_found hroot hdown (by decide) hfound
    exact (builtConditions_coincide hagree hr hdirectory hfile).bind fun _ _ => .ok _

lemma exactMatch_coincide : Coincide (exactMatch fs r) (exactMatch after r) := by
  rw [exactMatch, exactMatch, exactMatchIn_eq, exactMatchIn_eq]
  refine .findSomeM? fun root hroot => ?_
  obtain ⟨hdirectory, hrelative⟩ := mem_searchRoots hroot
  rw [hrelative]
  exact exactMatchBelow_coincide hagree hr hpath (hr.builds _ hdirectory)

lemma expansion_coincide : Coincide (expansion fs r) (expansion after r) := by
  have hdown : r.pattern = .single ∨ Relative.bare r.path = [] ∨ Relative.bare r.path = "." ∨
      IsDown (Relative.bare r.path) :=
    hpath.path.imp_right fun h => h.imp_right fun h => h.imp_right fun h => ⟨h, Relative.level_bare.mpr hpath.level⟩
  exact hagree.expand_coincide hr.package hr.pattern hdown hr.sources

lemma prediction_coincide : Coincide (prediction fs r) (prediction after r) := by
  rw [prediction, prediction, predictionIn_eq, predictionIn_eq]
  refine .findSomeM? fun directory hdirectory => ?_
  exact (foundFrom_coincide hagree hr (hr.sources _ hdirectory) hpath.stem hpath.levelFront_stem (by decide)).bind
    fun _ _ => .ok _

lemma assumption_confined : assumption after r = assumption fs r ∧ ∃ cs, (assumption fs r).result = .ok cs := by
  have hlevel : Level (r.outputStem ++ ".js") := hpath.levelFront_stem.append (by decide)
  have hsource := target_coincide hagree hr (Relative.isDown_of_bare hr.isDown_outputDirectory) hlevel
  rw [← List.append_assoc] at hsource
  obtain ⟨source, hbefore, hafter⟩ := hsource
  constructor
  · unfold assumption
    dsimp only
    rw [hbefore, hafter]
  · let base : Text := "./" ++ r.outputDirectory ++ "/" ++ r.outputStem
    refine ⟨{ source, types := some (base ++ ".d.ts"), otherwise := some (base ++ ".js") }, ?_⟩
    unfold assumption
    dsimp only
    rw [hbefore]
    rfl

lemma apply_confined (s : Strategy) :
    apply after r s = apply fs r s ∧ ∃ found, (apply fs r s).result = .ok found := by
  have hstrategy {x y : Except Failure (Option Conditions)} (h : Coincide x y) :
      Attempt.ofExcept y = Attempt.ofExcept x ∧ ∃ found, (Attempt.ofExcept x).result = .ok found := by
    obtain ⟨found, rfl, rfl⟩ := h
    exact ⟨rfl, found, rfl⟩
  cases s with
  | exactMatch => exact hstrategy (exactMatch_coincide hagree hr hpath)
  | expansion => exact hstrategy (expansion_coincide hagree hr hpath)
  | prediction => exact hstrategy (prediction_coincide hagree hr hpath)
  | assumption =>
    obtain ⟨heq, cs, hcs⟩ := assumption_confined hagree hr hpath
    refine ⟨congrArg (some <$> ·) heq, some cs, ?_⟩
    rw [apply, Attempt.result_map, hcs]
    rfl

lemma conditions_agree (strategies : List Strategy) :
    r.conditions after strategies = r.conditions fs strategies ∧
      ∃ cs, (r.conditions fs strategies).result = .ok cs := by
  induction strategies with
  | nil => exact assumption_confined hagree hr hpath
  | cons s rest ih =>
    obtain ⟨hrest, cs, hcs⟩ := ih
    obtain ⟨happly, found, hfound⟩ := apply_confined hagree hr hpath s
    constructor
    · rw [conditions, conditions, happly, hrest]
    · rw [conditions, Attempt.result_bind, hfound]
      cases found with
      | none => exact ⟨cs, hcs⟩
      | some first => exact ⟨first, rfl⟩

end Confined

/-! ### Ordinary paths -/

lemma isInner_of_segments {t : Text} (h : ∀ segment ∈ Text.splitOn '/' t, IsSegment segment) : IsInner t := by
  rw [← Text.joinWith_splitOn t]
  exact Path.isInner_joinWith (Text.splitOn_ne_nil _ _) h

lemma isInner_of_names {t : Text} (h : ∀ name ∈ Text.splitOn '/' t, IsName name) : IsInner t :=
  isInner_of_segments fun name hname => Path.isSegment_of_isName (h name hname)

/-- What is left of a row of segments without an extension goes to a name, unless it is but a point. -/
lemma isInner_dropCompiled {t : Text} (h : ∀ segment ∈ Text.splitOn '/' t, IsSegment segment)
    (hstem : Relative.dropCompiled t ≠ ".") : IsInner (Relative.dropCompiled t) := by
  have hne : Relative.dropCompiled t ≠ [] := by
    unfold Relative.dropCompiled
    cases hcut : Relative.cutExtension? Relative.compiledExtensions t with
    | none =>
      rintro rfl
      exact (h [] List.mem_cons_self).1 rfl
    | some cut => exact (Relative.cutExtension?_spec hcut).2.2
  have hstart := Relative.prefix_dropCompiled t
  refine ⟨Path.anchor_of_start hstart (isInner_of_segments h).1, ?_⟩
  obtain ⟨after, hwhole⟩ := hstart
  obtain ⟨front, last, hrow, hslash⟩ := Text.exists_splitOn (Relative.dropCompiled t)
  obtain ⟨first, more, -, hsplit⟩ := Text.splitOn_append_text hrow after
  rw [hwhole] at hsplit
  cases front with
  | nil =>
    have hlast : Relative.dropCompiled t = last := by
      rw [← Text.joinWith_splitOn (Relative.dropCompiled t), hrow]
      rfl
    rw [hlast] at hne hstem ⊢
    rw [Path.ofText_of_isSegment ⟨hne, hstem, hslash⟩]
    exact List.cons_ne_nil _ _
  | cons name front =>
    obtain ⟨hname, hdot, -⟩ := h name (by rw [hsplit]; exact List.mem_cons_self)
    have hmem : name ∈ (Path.ofText (Relative.dropCompiled t)).segments := by
      refine List.mem_filter.mpr ⟨by rw [hrow]; exact List.mem_cons_self, ?_⟩
      simpa [hname] using hdot
    exact List.ne_nil_of_mem hmem

lemma cleanPath_of_isTidy (h : Relative.IsTidy r.path) : r.cleanPath = Relative.bare r.path := by
  have hend : (Relative.bare r.path).getLast? ≠ some (CodePoint.ofChar '/') := by
    intro hlast
    obtain ⟨front, hfront⟩ := List.getLast?_eq_some_iff.mp hlast
    have hmem : [] ∈ Text.splitOn '/' (Relative.bare r.path) := by
      have hsplit := Text.splitOn_append (CodePoint.ofChar '/') front []
      rw [hfront, hsplit]
      exact List.mem_append_right _ List.mem_cons_self
    exact (h [] hmem).1 rfl
  have hne : Relative.bare r.path ≠ [] := by
    intro hempty
    rw [Relative.IsTidy, hempty] at h
    exact absurd h (by decide)
  have hdot : Relative.bare r.path ≠ "." := by
    intro hdot
    rw [Relative.IsTidy, hdot] at h
    exact absurd h (by decide)
  unfold cleanPath
  dsimp only
  rw [Text.trimEnd_of_getLast? hend, if_neg (not_or.mpr ⟨hne, hdot⟩)]

lemma names_cleanPath (h : Relative.IsProper r.path) : ∀ name ∈ Text.splitOn '/' r.cleanPath, IsName name := by
  rw [cleanPath_of_isTidy h.isSegment]
  exact h

/-- What holds of the pieces of a clean path, and of the name of an index file, holds of the pieces of what is below its
build directory. -/
lemma forall_mem_subpath {P : Text → Prop} (hindex : P "index") (hclean : ∀ piece ∈ Text.splitOn '/' r.cleanPath, P piece) :
    ∀ piece ∈ Text.splitOn '/' r.subpath, P piece := by
  match hnamed : r.namedDirectory with
  | none | some [] => rwa [subpath, hnamed]
  | some (c :: chars) =>
    rcases subpath_of_named hnamed (List.cons_ne_nil _ _) with hrest | hwhole
    · have hpieces : Text.splitOn '/' "index" = [Text.ofString "index"] := by decide
      rw [hrest, hpieces]
      exact List.forall_mem_singleton.mpr hindex
    · rw [hwhole, Text.splitOn_slash] at hclean
      exact fun piece hpiece => hclean piece (List.mem_append_right _ hpiece)

lemma names_subpath (hclean : ∀ name ∈ Text.splitOn '/' r.cleanPath, IsName name) :
    ∀ name ∈ Text.splitOn '/' r.subpath, IsName name :=
  forall_mem_subpath (by decide) hclean

/-- A path that has only names between its slashes leads down, unless nothing but a point is left of it without its
build directory and the extension. -/
theorem leadsDown_of_isProper (h : Relative.IsProper r.path) (hstem : r.outputStem ≠ ".") : LeadsDown r where
  level := h.isDown.2
  path := .inr (.inr (.inr (isInner_of_names h)))
  subpath := isInner_of_names (names_subpath (names_cleanPath h))
  stem := isInner_dropCompiled
    (fun name hname => Path.isSegment_of_isName (names_subpath (names_cleanPath h) name hname)) hstem

/-- A path that leads down gets targets by any strategies, in every file system, and they are the same whatever files
there are outside of the package: no file there can be found, and none can make the search fail. -/
theorem conditions_confined (hr : Ordinary r) (hpath : LeadsDown r) (fs : FileSystem) (strategies : List Strategy) :
    (∃ cs, (r.conditions fs strategies).result = .ok cs) ∧
      ∀ after base, fs.find r.package.text = .ok base → fs.entryAt? base = some .directory → fs.UnlinkedBelow base →
        fs.FilesApart after base → r.conditions after strategies = r.conditions fs strategies := by
  refine ⟨(conditions_agree (.refl fs r.package) hr hpath strategies).2, ?_⟩
  intro after base hfind hbase hlinks hapart
  exact (conditions_agree (hapart.agreeBelow hlinks hbase hr.package hfind) hr hpath strategies).1

/-- A package with one file. -/
def alone : FileSystem :=
  ((FileSystem.empty.put ["pkg"] .directory).put ["pkg", "lib"] .directory).put ["pkg", "lib", "x.js"] (.file [])

/-- The package with a file beside it. -/
def accompanied : FileSystem :=
  alone.put ["x.js"] (.file [])

def downRequest : EntryRequest where
  path := "./lib/x"
  package := Path.ofText "/pkg"
  pattern := BuildPattern.detect (some "./lib/cjs/index.js") (some "./lib/esm/index.js")

/-- The same path with an empty segment after the build directory. -/
def outRequest : EntryRequest where
  path := "./lib//x"
  package := Path.ofText "/pkg"

lemma isTree_alone : alone.IsTree :=
  ((FileSystem.isTree_empty.put (by decide) (by decide) (by simp)).put (by decide) (by decide) (by simp)).put
    (by decide) (by decide) (by simp)

lemma filesApart_accompanied : alone.FilesApart accompanied ["pkg"] := by
  have hfree : alone.entryAt? ["x.js"] = none := by decide +kernel
  refine FileSystem.filesApart_put ⟨by decide, fun entry hentry => ?_⟩ (by decide) []
  rw [hfree] at hentry
  cases hentry

lemma ordinary_downRequest : Ordinary downRequest where
  package := Path.isClean_ofText "/pkg"
  pattern := by
    have hpattern : BuildPattern.detect (some "./lib/cjs/index.js") (some "./lib/esm/index.js") =
        .dual .byDirectory ⟨"./lib", "cjs", []⟩ ⟨"./lib", "esm", []⟩ := by decide +kernel
    rw [downRequest, hpattern]
    exact BuildPattern.isLevel_detect hpattern (by decide)
  builds := by decide
  sources := by decide

lemma ordinary_outRequest : Ordinary outRequest where
  package := Path.isClean_ofText "/pkg"
  pattern := trivial
  builds := by decide
  sources := by decide

/-- A file beside the package does not change the targets of a path that leads down. -/
theorem conditions_confined_lib :
    (∃ cs, (downRequest.conditions alone Strategy.expansionFirst).result = .ok cs) ∧
      downRequest.conditions accompanied Strategy.expansionFirst =
        downRequest.conditions alone Strategy.expansionFirst := by
  have hpath : LeadsDown downRequest := leadsDown_of_isProper (by decide) (by decide)
  obtain ⟨hfound, hsame⟩ := conditions_confined ordinary_downRequest hpath alone Strategy.expansionFirst
  have hfind : alone.find downRequest.package.text = .ok ["pkg"] := ok_of_toOption (by decide +kernel)
  have hbase : alone.entryAt? ["pkg"] = some .directory := by decide +kernel
  exact ⟨hfound, hsame accompanied ["pkg"] hfind hbase (fun location target _ => isTree_alone.unlinked location target)
    filesApart_accompanied⟩

/-- A path with an empty segment after its build directory is followed from the root, and it ends in an error if there
is a file. -/
theorem conditions_escape :
    Ordinary outRequest ∧ Level outRequest.path ∧ alone.FilesApart accompanied ["pkg"] ∧
      (∃ cs, (outRequest.conditions alone Strategy.standard).result = .ok cs) ∧
      (outRequest.conditions accompanied Strategy.standard).result =
        .error (.cause (.outside (Path.ofText "/x.js") (Path.ofText "/pkg/lib"))) := by
  have hfound : (outRequest.conditions alone Strategy.standard).result.toOption =
      some { types := some "./lib//x.d.ts", otherwise := some "./lib//x.js" } := by decide +kernel
  refine ⟨ordinary_outRequest, by decide, filesApart_accompanied, ⟨_, ok_of_toOption hfound⟩, ?_⟩
  decide +kernel

end EntryRequest

end PackageExports
