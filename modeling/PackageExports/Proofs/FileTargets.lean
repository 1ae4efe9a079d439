import PackageExports.Proofs.DirectoryBuilds
import PackageExports.Proofs.ExtensionBuilds
import PackageExports.Proofs.Predictions

/-!
# Targets that are there

What is found for a path is named by its way from the package, and the name leads back to it. So in a package with two
builds a path has no targets but files of the package, under whichever condition they are. It has none at all exactly if
neither build has a file for the path and the path does not lead to one itself.

Main results: `Probe.sees_of_foundFrom`, `SourceFile.hasTarget_find?`, `Declaration.hasTarget_beside?`,
`Expansion.expand_targets_there`.
-/

namespace PackageExports

open PackageExports.Path (IsSegment IsClean IsInner)

/-- A path as seen from a package that leads to a file. -/
def FileSystem.HasTarget (fs : FileSystem) (package : Path) (target : Text) : Prop :=
  fs.isFile (package / target).text = true

instance (fs : FileSystem) (package : Path) (target : Text) : Decidable (fs.HasTarget package target) :=
  inferInstanceAs (Decidable (_ = _))

/-- A file as it is seen from a package: its way from there, without a point in front. -/
structure FileSystem.Sees (fs : FileSystem) (package : Path) (seen : Text) : Prop where
  anchor : (Path.ofText seen).anchor = .relative
  bare : Relative.bare seen = seen
  file : fs.HasTarget package seen

/-! ### What is found -/

namespace Path

variable {package p : Path} {t seen : Text}

/-- A relative path leads to the same place with a point in front. -/
lemma div_start (package : Path) (h : (ofText t).anchor = .relative) :
    package / (Text.ofString "./" ++ t) = package / t := by
  have hsegments : (ofText ("./" ++ t)).segments = (ofText t).segments := by
    rw [← Relative.segments_bare, Relative.bare_start]
  rw [joinText_eq package rfl, joinText_eq package h, hsegments]

lemma bare_text {names : List Text} (h : ∀ name ∈ names, IsSegment name) :
    Relative.bare (text ⟨.relative, names⟩) = text ⟨.relative, names⟩ := by
  by_cases hnames : names = []
  · rw [hnames]
    rfl
  · have htext : text ⟨.relative, names⟩ = Text.joinWith "/" names := if_neg (by simp [hnames])
    rw [htext, Relative.bare_joinWith h]

lemma sees_of_seenFrom {fs : FileSystem} (hp : p.IsClean) (hfile : fs.isFile p.text = true)
    (h : SearchPlan.seenFrom package p = .ok seen) : fs.Sees package seen := by
  have hback := div_dotted_of_seenFrom hp h
  obtain ⟨names, rfl, rfl⟩ := seenFrom_eq_ok.mp h
  have hnames : ∀ name ∈ names, IsSegment name := fun name hname => hp name (List.mem_append_right _ hname)
  have hanchor : (ofText (text ⟨.relative, names⟩)).anchor = .relative := by
    rw [ofText_text (p := ⟨.relative, names⟩) hnames]
  refine ⟨hanchor, bare_text hnames, ?_⟩
  rw [FileSystem.HasTarget, ← div_start package hanchor, hback]
  exact hfile

end Path

lemma FileSystem.Sees.start {fs : FileSystem} {package : Path} {seen : Text} (h : fs.Sees package seen) :
    fs.HasTarget package ("./" ++ seen) := by
  rw [HasTarget, Path.div_start package h.anchor]
  exact h.file

namespace Probe

variable {fs : FileSystem} {package p : Path} {base seen : Text} {extensions : List Text}

lemma isClean_of_tried (h : Tried base extensions p) : p.IsClean := by
  obtain ⟨extension, -, rfl | rfl⟩ := h
  · exact Path.isClean_ofText _
  · exact Path.isClean_div (Path.isClean_ofText base) _

lemma sees_of_foundFrom {found : Option Path} (hfound : ∀ p ∈ found, Tried base extensions p ∧ fs.isFile p.text = true)
    (h : SearchPlan.foundFrom package found = .ok (some seen)) : fs.Sees package seen := by
  obtain ⟨p, hp, hseen⟩ := SearchPlan.foundFrom_eq_some.mp h
  obtain ⟨htried, hfile⟩ := hfound p hp
  exact Path.sees_of_seenFrom (isClean_of_tried htried) hfile hseen

end Probe

namespace SourceFile

variable {fs : FileSystem} {package : Path} {base source target : Text} {sources builds : List Text}

lemma hasTarget_resolve? (h : resolve? fs package base = .ok (some source)) : fs.HasTarget package source := by
  obtain ⟨seen, hfound, rfl⟩ := resolve?_eq_some.mp h
  have hsees := Probe.sees_of_foundFrom
    (fun p hp => ⟨Probe.tried_of_fileBeforeIndex? hp, Probe.isFile_of_fileBeforeIndex? hp⟩) hfound
  rw [Relative.dotted_eq, hsees.bare]
  exact hsees.start

lemma hasTarget_find? (h : find? fs package target sources builds = .ok (some source)) :
    fs.HasTarget package source := by
  obtain ⟨base, -, hresolve⟩ := exists_resolve?_of_find? h
  exact hasTarget_resolve? hresolve

end SourceFile

namespace Declaration

variable {fs : FileSystem} {package : Path} {file target : Text}

lemma hasTarget_beside? (hanchor : (Path.ofText (Relative.bare file)).anchor = .relative)
    (h : beside? fs package file = some target) : fs.HasTarget package target := by
  have hcandidate : (Path.ofText (if Text.endsWith (Relative.bare file) ".d.ts" then Relative.bare file
      else fileName (Relative.splitExtension (Relative.bare file)).1)).anchor = .relative := by
    split_ifs
    · exact hanchor
    · exact Path.anchor_append (Path.anchor_of_start (Relative.prefix_splitExtension _) hanchor) (by decide)
  obtain ⟨hfile, htarget⟩ := Option.ite_none_right_eq_some.mp h
  obtain rfl := Option.some.inj htarget
  rw [FileSystem.HasTarget, Path.div_start package hcandidate]
  exact hfile

end Declaration

/-! ### Two builds -/

namespace Expansion

variable {fs : FileSystem} {package : Path} {base path file target : Text} {sources : List Text} {cs : Conditions}
  {kind : PatternKind} {cjs esm : BuildSide}

/-- A path, with one of the extensions of compiled files or with an index file below it, leads to a file. -/
def LeadsToFile (fs : FileSystem) (package : Path) (base : Text) : Prop :=
  ∃ p, Probe.Tried (package / base).text extensions p ∧ fs.isFile p.text = true

lemma exists_seen {extensions : List Text} (h : resolve? fs package extensions base = .ok (some target)) :
    ∃ seen, target = "./" ++ seen ∧ fs.Sees package seen := by
  obtain ⟨-, seen, hfound, rfl⟩ := resolve?_eq_some.mp h
  exact ⟨seen, rfl, Probe.sees_of_foundFrom
    (fun p hp => ⟨Probe.tried_of_fileOrIndex? hp, Probe.isFile_of_fileOrIndex? hp⟩) hfound⟩

lemma hasTarget_resolve? {extensions : List Text} (h : resolve? fs package extensions base = .ok (some target)) :
    fs.HasTarget package target := by
  obtain ⟨seen, rfl, hseen⟩ := exists_seen h
  exact hseen.start

lemma resolve?_eq_none (hbase : base ≠ []) :
    resolve? fs package extensions base = .ok none ↔ ¬LeadsToFile fs package base := by
  have hnone : ¬LeadsToFile fs package base ↔ Probe.fileOrIndex? fs (package / base).text extensions = none := by
    rw [Probe.fileOrIndex?_eq_none, LeadsToFile, not_exists]
    exact forall_congr' fun p => not_and
  rw [resolve?, if_neg (by simpa using hbase), hnone, ← SearchPlan.foundFrom_eq_none package, map_ok_iff]
  simp only [Option.map_eq_none_iff, exists_eq_right]

lemma hasTarget_typesOf? (hpath : (Path.ofText path).anchor = .relative)
    (hfile : (Path.ofText (Relative.bare file)).anchor = .relative) (h : typesOf? fs package path file = some target) :
    fs.HasTarget package target := by
  unfold typesOf? at h
  dsimp only at h
  split_ifs at h with hdeclaration
  · obtain rfl := Option.some.inj h
    have hanchor : (Path.ofText (Declaration.fileName (Relative.dropCompiled path))).anchor = .relative :=
      Path.anchor_append (Path.anchor_of_start (Relative.prefix_dropCompiled path) hpath) (by decide)
    rw [FileSystem.HasTarget, Path.div_start package hanchor]
    exact hdeclaration
  · exact Declaration.hasTarget_beside? hfile h

lemma hasTarget_expand (hpath : (Path.ofText (Relative.bare path)).anchor = .relative)
    (h : expand fs package (.dual kind cjs esm) path sources = .ok (some cs)) {c : Condition}
    (htarget : cs.target? c = some target) : fs.HasTarget package target := by
  obtain ⟨-, cjsFile, esmFile, ownFile, file, source, hcjs, hesm, hown, hfile, hsource, rfl⟩ := expand_eq_some.mp h
  have hresolved : ∃ base, resolve? fs package extensions base = .ok (some file) := by
    rcases eq_of_first hfile with rfl | rfl | rfl
    · exact ⟨_, hown⟩
    · exact ⟨_, hesm⟩
    · exact ⟨_, hcjs⟩
  obtain ⟨base, hresolved⟩ := hresolved
  obtain ⟨hmem, -⟩ := Option.filter_eq_some_iff.mp htarget
  cases c with
  | source =>
    obtain rfl : source = some target := hmem
    exact SourceFile.hasTarget_find? hsource
  | types =>
    obtain ⟨seen, rfl, hseen⟩ := exists_seen hresolved
    dsimp only [targets] at hmem
    refine hasTarget_typesOf? hpath ?_ hmem
    rw [Relative.bare_start]
    exact hseen.anchor
  | imported =>
    obtain rfl : esmFile = some target := hmem
    exact hasTarget_resolve? hesm
  | required =>
    obtain rfl : cjsFile = some target := hmem
    exact hasTarget_resolve? hcjs
  | browser => cases hmem
  | otherwise =>
    obtain rfl : file = target := Option.some.inj hmem
    exact hasTarget_resolve? hresolved

/-- A path that is no name of the package has no targets if nothing is found in either build or at the path itself. -/
lemma expand_eq_none (hne : Relative.bare path ≠ []) (hdot : Relative.bare path ≠ ".") :
    expand fs package (.dual kind cjs esm) path sources = .ok none ↔
      resolve? fs package extensions (candidates kind cjs esm (Relative.bare path)).1 = .ok none ∧
      resolve? fs package extensions (candidates kind cjs esm (Relative.bare path)).2 = .ok none ∧
      resolve? fs package extensions (Relative.bare path) = .ok none := by
  unfold expand
  dsimp only
  rw [if_neg (not_or.mpr ⟨hne, hdot⟩)]
  constructor
  · intro h
    obtain ⟨cjsFile, hcjs, h⟩ := bind_ok_iff.mp h
    obtain ⟨esmFile, hesm, h⟩ := bind_ok_iff.mp h
    obtain ⟨ownFile, hown, h⟩ := bind_ok_iff.mp h
    cases hfile : ownFile <|> esmFile <|> cjsFile with
    | none =>
      obtain ⟨rfl, rfl, rfl⟩ := eq_none_of_first hfile
      exact ⟨hcjs, hesm, hown⟩
    | some file =>
      rw [hfile] at h
      obtain ⟨source, -, hsome⟩ := bind_ok_iff.mp h
      cases hsome
  · rintro ⟨hcjs, hesm, hown⟩
    rw [hcjs, hesm, hown]
    rfl

lemma isInner_candidates_detect {main module : Option Text} (hmain : ∀ entry ∈ main, Relative.IsTidy entry)
    (hpattern : BuildPattern.detect main module = .dual kind cjs esm)
    (hpath : (Path.ofText path).anchor = .relative) :
    IsInner (candidates kind cjs esm path).1 ∧ IsInner (candidates kind cjs esm path).2 := by
  obtain ⟨mainPath, modulePath, rfl, -, hdetected⟩ := BuildPattern.detected_of_detect hpattern
  obtain ⟨hcjs, hesm⟩ := hdetected.isMarked
  refine isInner_candidates hcjs hesm hpath ?_
  rintro rfl
  exact hdetected.anchor_base (hmain mainPath rfl)

/-- In a package whose entry points show two builds, the first of them tidy, the targets of a relative path are files of
the package, under all conditions. The path has no targets exactly if neither its place in one of the builds nor the
path itself leads to a file. Where the path goes to a name, and the source directories do, looking for the targets does
not fail. -/
theorem expand_targets_there (fs : FileSystem) (hpackage : package.IsClean) {main module : Text}
    (hmain : Relative.IsTidy main)
    (hpattern : BuildPattern.detect (some main) (some module) = .dual kind cjs esm) (hne : Relative.bare path ≠ [])
    (hdot : Relative.bare path ≠ ".") (hslash : (Relative.bare path).head? ≠ some (CodePoint.ofChar '/'))
    (sources : List Text) :
    (∀ cs, expand fs package (.dual kind cjs esm) path sources = .ok (some cs) →
      ∀ c target, cs.target? c = some target → fs.HasTarget package target) ∧
    (expand fs package (.dual kind cjs esm) path sources = .ok none ↔
      ¬LeadsToFile fs package (candidates kind cjs esm (Relative.bare path)).1 ∧
      ¬LeadsToFile fs package (candidates kind cjs esm (Relative.bare path)).2 ∧
      ¬LeadsToFile fs package (Relative.bare path)) ∧
    (IsInner (Relative.bare path) → (∀ directory ∈ sources, IsInner directory) →
      ∃ found, expand fs package (.dual kind cjs esm) path sources = .ok found) := by
  have hpath := Path.anchor_eq_relative.mpr hslash
  obtain ⟨hcjs, hesm⟩ := isInner_candidates_detect (fun _ hentry => Option.some.inj hentry ▸ hmain) hpattern hpath
  refine ⟨fun cs h c target htarget => hasTarget_expand hpath h htarget, ?_, fun hinner hsources => ?_⟩
  · rw [expand_eq_none hne hdot, resolve?_eq_none (kept_of_isInner hcjs).1, resolve?_eq_none (kept_of_isInner hesm).1,
      resolve?_eq_none hne]
  · obtain ⟨found, hfound, -⟩ := exists_expand fs hpackage kind cjs esm path hinner hcjs hesm hsources
    exact ⟨found, hfound⟩

/-- Two builds of a module with its source and one declaration. -/
def documented : FileSystem :=
  ((((((((FileSystem.empty.put ["lib"] .directory).put ["lib", "cjs"] .directory).put ["lib", "esm"] .directory).put
    ["src"] .directory).put ["lib", "cjs", "utils.js"] (.file [])).put ["lib", "esm", "utils.js"] (.file [])).put
    ["lib", "esm", "utils.d.ts"] (.file [])).put ["src", "utils.ts"] (.file []))

/-- All targets that the module has are there, and it has one of each kind. -/
theorem expand_targets_there_utils :
    Relative.IsTidy "./lib/cjs/index.js" ∧
      expand documented (Path.ofText ".") (BuildPattern.detect (some "./lib/cjs/index.js")
        (some "./lib/esm/index.js")) "./lib/utils" ["src"] =
        .ok (some { source := some "./src/utils.ts", types := some "./lib/esm/utils.d.ts",
                    imported := some "./lib/esm/utils.js", required := some "./lib/cjs/utils.js",
                    otherwise := some "./lib/esm/utils.js" }) ∧
      documented.HasTarget (Path.ofText ".") "./src/utils.ts" ∧
      documented.HasTarget (Path.ofText ".") "./lib/esm/utils.d.ts" ∧
      documented.HasTarget (Path.ofText ".") "./lib/esm/utils.js" ∧
      documented.HasTarget (Path.ofText ".") "./lib/cjs/utils.js" := by
  have hpattern : BuildPattern.detect (some "./lib/cjs/index.js") (some "./lib/esm/index.js") =
      .dual .byDirectory ⟨"./lib", "cjs", []⟩ ⟨"./lib", "esm", []⟩ := by decide +kernel
  have hexpand : (expand documented (Path.ofText ".") (.dual .byDirectory ⟨"./lib", "cjs", []⟩ ⟨"./lib", "esm", []⟩)
      "./lib/utils" ["src"]).toOption =
      some (some { source := some "./src/utils.ts", types := some "./lib/esm/utils.d.ts",
                   imported := some "./lib/esm/utils.js", required := some "./lib/cjs/utils.js",
                   otherwise := some "./lib/esm/utils.js" }) := by decide +kernel
  have hthere := (expand_targets_there documented (Path.isClean_ofText ".") (by decide) hpattern (by decide) (by decide)
    (by decide) ["src"]).1 _ (ok_of_toOption hexpand)
  rw [hpattern]
  exact ⟨by decide, ok_of_toOption hexpand, hthere .source _ (by decide), hthere .types _ (by decide),
    hthere .imported _ (by decide), hthere .required _ (by decide)⟩

end Expansion

end PackageExports
