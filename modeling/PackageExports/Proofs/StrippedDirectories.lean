import PackageExports.Proofs.FileTargets

/-!
# Sources without a build directory

The source of a script is looked for in each source directory under the path of the script without its build directory.
Which build directory that is goes by their order alone: the first of them in which the script lies. If this is the one
below which the script has the path of its source, then some source is found, whatever else there is. If the first one
lies further out, the source may be missed.

Main results: `SourceFile.find?_eq_none`, `SourceFile.stripped_source_found`.
-/

namespace PackageExports

open PackageExports.Path (IsSegment IsClean IsInner)

/-! ### Extensions of written paths -/

lemma Text.leading_append {c d : CodePoint} (hd : d ≠ c) (front rest : Text) :
    leading c (front ++ d :: rest) = leading c front := by
  induction front with
  | nil => simp [leading, hd]
  | cons e front ih =>
    by_cases he : e = c
    · simpa [leading, he] using ih
    · simp [leading, he]

namespace Path

variable {package : Path} {front last extension : Text}

lemma ofText_append (hlast : IsSegment last) (hslash : CodePoint.ofChar '/' ∉ extension) (front : Text) :
    ofText (front ++ "/" ++ last ++ extension) =
      ⟨(ofText (front ++ "/" ++ last)).anchor, (ofText front).segments ++ [last ++ extension]⟩ := by
  have hsegments :
      (ofText (front ++ "/" ++ last ++ extension)).segments = (ofText front).segments ++ [last ++ extension] := by
    rw [List.append_assoc, segments_slash, ofText_of_isSegment (hlast.append hslash)]
  have hanchor : (ofText (front ++ "/" ++ last ++ extension)).anchor = (ofText (front ++ "/" ++ last)).anchor := by
    obtain ⟨c, chars, rfl⟩ := List.exists_cons_of_ne_nil hlast.1
    have hc : c ≠ CodePoint.ofChar '/' := fun hc => hlast.2.2 (hc ▸ List.mem_cons_self)
    have hleading := Text.leading_append hc (front ++ Text.ofString "/")
    simp only [ofText, anchorOf]
    rw [List.append_assoc (front ++ Text.ofString "/"), List.cons_append, hleading, hleading]
  rw [← hsegments, ← hanchor]

end Path

namespace Probe

variable {package : Path} {last extension : Text}

lemma withExtension_div (hpackage : package.IsClean) (hlast : IsSegment last)
    (hslash : CodePoint.ofChar '/' ∉ extension) (front : Text) :
    withExtension (package / (front ++ "/" ++ last)).text extension =
      package / (front ++ "/" ++ last ++ extension) := by
  have hsegments : (Path.ofText (front ++ "/" ++ last)).segments = (Path.ofText front).segments ++ [last] := by
    rw [Path.segments_slash, Path.ofText_of_isSegment hlast]
  have hadded := Path.ofText_append hlast hslash front
  by_cases hanchor : (Path.ofText (front ++ "/" ++ last)).anchor = .relative
  · rw [withExtension_below hpackage hanchor hslash hsegments, Path.joinText_eq package (by rw [hadded]; exact hanchor),
      hadded]
  · have hown : package / (front ++ "/" ++ last) = Path.ofText (front ++ "/" ++ last) := if_neg hanchor
    have hother : package / (front ++ "/" ++ last ++ extension) = Path.ofText (front ++ "/" ++ last ++ extension) :=
      if_neg (by rw [hadded]; exact hanchor)
    rw [hown, hother, withExtension, Path.text_append hsegments, hadded, Path.ofText_text]
    rw [← hadded]
    exact Path.isClean_ofText _

lemma fileBeforeIndex?_ne_none {fs : FileSystem} {base : Text} {extensions : List Text}
    (hextension : extension ∈ extensions) (hfile : fs.isFile (withExtension base extension).text = true) :
    fileBeforeIndex? fs base extensions ≠ none := by
  have hplain : withExtensions? fs base extensions ≠ none :=
    fun hnone => firstFile?_map_eq_none.mp hnone extension hextension hfile
  obtain ⟨p, hp⟩ := Option.ne_none_iff_exists'.mp hplain
  rw [fileBeforeIndex?, hp]
  exact Option.some_ne_none p

end Probe

namespace SourceFile

variable {fs : FileSystem} {package : Path} {sources builds : List Text} {directory rest : Text}

/-! ### Where nothing is found -/

lemma resolve?_eq_none {base : Text} :
    resolve? fs package base = .ok none ↔ Probe.fileBeforeIndex? fs (package / base).text extensions = none := by
  rw [resolve?, ← SearchPlan.foundFrom_eq_none package, map_ok_iff]
  simp only [Option.map_eq_none_iff, exists_eq_right]

lemma find?_eq_none {target : Text} : find? fs package target sources builds = .ok none ↔
    ∀ base ∈ candidates target sources builds, Probe.fileBeforeIndex? fs (package / base).text extensions = none := by
  unfold find?
  induction candidates target sources builds with
  | nil => exact ⟨fun _ => List.forall_mem_nil _, fun _ => rfl⟩
  | cons base bases ih =>
    rw [List.forall_mem_cons, ← resolve?_eq_none, ← ih]
    constructor
    · intro h
      obtain ⟨found, hfound, hrest⟩ := bind_ok_iff.mp h
      cases found with
      | none => exact ⟨hfound, hrest⟩
      | some source => cases hrest
    · rintro ⟨hfirst, hrest⟩
      exact bind_ok_iff.mpr ⟨none, hfirst, hrest⟩

/-! ### The build directory of a path -/

def liesIn (directory path : Text) : Bool :=
  Text.startsWith path (directory ++ "/")

def directoryOf? (directories : List Text) (path : Text) : Option Text :=
  directories.find? fun directory => liesIn directory path

lemma liesIn_iff {path : Text} : liesIn directory path = true ↔ ∃ rest, path = directory ++ "/" ++ rest := by
  rw [liesIn, Text.startsWith, List.isPrefixOf_iff_prefix]
  exact exists_congr fun rest => eq_comm

lemma dropBuildDirectory_of_first (h : directoryOf? builds (directory ++ "/" ++ rest) = some directory) :
    dropBuildDirectory builds (directory ++ "/" ++ rest) = rest := by
  have hcut : builds.findSome? (fun other => Text.dropStart? (other ++ "/") (directory ++ "/" ++ rest)) = some rest := by
    induction builds with
    | nil => cases h
    | cons other builds ih =>
      rw [directoryOf?, List.find?_cons] at h
      rw [List.findSome?_cons]
      cases hlies : liesIn other (directory ++ "/" ++ rest) with
      | true =>
        rw [hlies] at h
        obtain rfl := Option.some.inj h
        rw [Text.dropStart?_eq_some.mpr rfl]
      | false =>
        have hnone : Text.dropStart? (other ++ "/") (directory ++ "/" ++ rest) = none := by
          rw [Option.eq_none_iff_forall_ne_some]
          intro cut hdrop
          rw [liesIn_iff.mpr ⟨cut, Text.dropStart?_eq_some.mp hdrop⟩] at hlies
          cases hlies
        rw [hlies] at h
        rw [hnone]
        exact ih h
  rw [dropBuildDirectory, hcut, Option.getD_some]

/-- Where no directory lies in another one, a path lies in one of them at most. -/
lemma directoryOf?_of_apart (hmem : directory ∈ builds)
    (hapart : ∀ a ∈ builds, ∀ b ∈ builds, liesIn a (b ++ "/") = true → a = b) (rest : Text) :
    directoryOf? builds (directory ++ "/" ++ rest) = some directory := by
  have hsome : (directoryOf? builds (directory ++ "/" ++ rest)).isSome = true := by
    rw [directoryOf?, List.find?_isSome]
    exact ⟨directory, hmem, liesIn_iff.mpr ⟨rest, rfl⟩⟩
  obtain ⟨other, hother⟩ := Option.isSome_iff_exists.mp hsome
  have hlies : liesIn other (directory ++ "/" ++ rest) = true :=
    List.find?_some (p := fun other => liesIn other (directory ++ "/" ++ rest)) hother
  have hmemOther := List.mem_of_find?_eq_some hother
  obtain ⟨cut, hcut⟩ := liesIn_iff.mp hlies
  -- both directories are at the start of the path, so that one of them lies in the other one
  rcases List.append_eq_append_iff.mp hcut with ⟨more, hin, -⟩ | ⟨more, hin, -⟩
  · rw [hother, ← hapart directory hmem other hmemOther (liesIn_iff.mpr ⟨more, hin⟩)]
  · rw [hother, hapart other hmemOther directory hmem (liesIn_iff.mpr ⟨more, hin⟩)]

/-! ### Sources of scripts -/

lemma mem_candidates_script {names : List Text} (hne : names ≠ []) (hnames : ∀ name ∈ names, IsSegment name)
    (hfirst : directoryOf? builds (directory ++ "/" ++ Text.joinWith "/" names) = some directory) {source : Text}
    (hsource : source ∈ sources) :
    source ++ "/" ++ Text.joinWith "/" names ∈
      candidates ("./" ++ directory ++ "/" ++ Text.joinWith "/" names ++ ".js") sources builds := by
  have hdotted : Relative.dotted ("./" ++ directory ++ "/" ++ Text.joinWith "/" names ++ ".js") =
      "./" ++ (directory ++ "/" ++ Text.joinWith "/" names) ++ ".js" := by
    simp only [List.append_assoc]
    rw [Relative.dotted_eq, Relative.bare_start]
  have hstem : Relative.dropCompiled ("./" ++ (directory ++ "/" ++ Text.joinWith "/" names) ++ ".js") =
      "./" ++ (directory ++ "/" ++ Text.joinWith "/" names) :=
    Relative.dropCompiled_script (List.cons_ne_nil _ _) (by decide)
  have hkept := (Expansion.joinWith_of_segments hne hnames).1
  unfold candidates
  dsimp only
  rw [hdotted, hstem, Relative.bare_start, dropBuildDirectory_of_first hfirst, if_neg (by simpa using hkept)]
  exact List.mem_append_right _ (List.mem_map_of_mem hsource)

lemma fileBeforeIndex?_script (hpackage : package.IsClean) {names : List Text} (hne : names ≠ [])
    (hnames : ∀ name ∈ names, IsSegment name)
    (hfile : fs.HasTarget package (directory ++ "/" ++ Text.joinWith "/" names ++ ".ts")) :
    Probe.fileBeforeIndex? fs (package / (directory ++ "/" ++ Text.joinWith "/" names)).text extensions ≠ none := by
  obtain ⟨front, last, rfl⟩ := (List.eq_nil_or_concat' names).resolve_left hne
  have hlast := hnames last (by simp)
  have hwritten : ∃ before : Text, directory ++ "/" ++ Text.joinWith "/" (front ++ [last]) = before ++ "/" ++ last := by
    by_cases hfront : front = []
    · exact ⟨directory, by rw [hfront]; rfl⟩
    · refine ⟨directory ++ "/" ++ Text.joinWith "/" front, ?_⟩
      rw [Text.joinWith_append _ hfront (List.cons_ne_nil _ _)]
      simp only [List.append_assoc]
      rfl
  obtain ⟨before, hbefore⟩ := hwritten
  rw [hbefore] at hfile ⊢
  refine Probe.fileBeforeIndex?_ne_none (by decide : Text.ofString ".ts" ∈ extensions) ?_
  rw [Probe.withExtension_div hpackage hlast (by decide)]
  exact hfile

/-- A script whose path below a build directory is the path of TypeScript in a source directory has a source, if the
build directory is the first one in which the script lies; it always is if no build directory lies in another one. With
relative directories the source is a file of the package. -/
theorem stripped_source_found (hpackage : package.IsClean) {names : List Text} (hne : names ≠ [])
    (hnames : ∀ name ∈ names, IsSegment name) (hdirectory : directory ∈ builds)
    (hfirst : directoryOf? builds (directory ++ "/" ++ Text.joinWith "/" names) = some directory ∨
      ∀ a ∈ builds, ∀ b ∈ builds, liesIn a (b ++ "/") = true → a = b)
    {source : Text} (hsource : source ∈ sources)
    (hfile : fs.HasTarget package (source ++ "/" ++ Text.joinWith "/" names ++ ".ts")) :
    find? fs package ("./" ++ directory ++ "/" ++ Text.joinWith "/" names ++ ".js") sources builds ≠ .ok none ∧
      (IsInner directory → (∀ source ∈ sources, IsInner source) → ∃ file,
        find? fs package ("./" ++ directory ++ "/" ++ Text.joinWith "/" names ++ ".js") sources builds =
          .ok (some file) ∧ fs.HasTarget package file) := by
  have hlies := hfirst.elim id fun hapart => directoryOf?_of_apart hdirectory hapart _
  have hfound : find? fs package ("./" ++ directory ++ "/" ++ Text.joinWith "/" names ++ ".js") sources builds ≠
      .ok none := by
    intro hnone
    exact fileBeforeIndex?_script hpackage hne hnames hfile
      (find?_eq_none.mp hnone _ (mem_candidates_script hne hnames hlies hsource))
  refine ⟨hfound, fun hinner hsources => ?_⟩
  have hpath : (Path.ofText (directory ++ "/" ++ (Text.joinWith "/" names ++ ".js"))).anchor = .relative :=
    (hinner.append _).1
  obtain ⟨found, hresult⟩ := exists_find? fs hpackage (Path.anchor_eq_relative.mp hpath) hsources builds
  rw [← List.append_assoc, ← List.append_assoc, ← List.append_assoc] at hresult
  cases found with
  | none => exact absurd hresult hfound
  | some file => exact ⟨file, hresult, hasTarget_find? hresult⟩

/-- A package with one source. -/
def sourceOnly : FileSystem :=
  (FileSystem.empty.put ["src"] .directory).put ["src", "a.ts"] (.file [])

/-- The source of a script is found if the inner one of two build directories comes first. -/
theorem stripped_source_found_inner : ∃ file,
    find? sourceOnly (Path.ofText ".") "./dist/esm/a.js" ["src"] ["dist/esm", "dist"] = .ok (some file) ∧
      sourceOnly.HasTarget (Path.ofText ".") file := by
  have hfirst : directoryOf? ["dist/esm", "dist"] ("dist/esm" ++ "/" ++ Text.joinWith "/" ["a"]) = some "dist/esm" := by
    decide
  have hfile : sourceOnly.HasTarget (Path.ofText ".") ("src" ++ "/" ++ Text.joinWith "/" ["a"] ++ ".ts") := by
    decide +kernel
  exact (stripped_source_found (Path.isClean_ofText ".") (List.cons_ne_nil _ _) (by decide) (by decide) (.inl hfirst)
    (List.mem_singleton_self _) hfile).2 (by decide) (by decide)

/-- It is missed if the outer one comes first. -/
theorem stripped_source_missed :
    Text.ofString "dist/esm" ∈ [Text.ofString "dist", "dist/esm"] ∧
      sourceOnly.HasTarget (Path.ofText ".") "src/a.ts" ∧
      find? sourceOnly (Path.ofText ".") "./dist/esm/a.js" ["src"] ["dist", "dist/esm"] = .ok none := by
  have hnone : (find? sourceOnly (Path.ofText ".") "./dist/esm/a.js" ["src"] ["dist", "dist/esm"]).toOption =
      some none := by decide +kernel
  exact ⟨by decide, by decide +kernel, ok_of_toOption hnone⟩

end SourceFile

end PackageExports
