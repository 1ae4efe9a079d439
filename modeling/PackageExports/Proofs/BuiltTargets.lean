import PackageExports.Proofs.FileTargets

/-!
# Targets in build directories

A path that is found in a build directory has the file there as its target, or the script to which TypeScript there is
compiled. What ends like TypeScript is taken for that: the target of a declaration is a script that nothing is compiled
to, and so is the target of a file with a line end after its extension. Both happen only for paths that end that way
themselves.

Main results: `EntryRequest.ending_of_found`, `EntryRequest.exactMatch_refers`.
-/

namespace PackageExports

open PackageExports.Path (IsSegment IsClean IsInner)

/-- A target means a file: the file is there, or a file is there of which the target is the compiled script. -/
inductive FileSystem.Refers (fs : FileSystem) (package : Path) (target : Text) : Prop
  | own (hfile : fs.HasTarget package target)
  | compiled {stem extension : Text} (hextension : extension ∈ [Text.ofString ".ts", ".tsx"])
      (hfile : fs.HasTarget package (stem ++ extension)) (hdeclaration : ¬Text.ofString ".d.ts" <:+ stem ++ extension)
      (htarget : target = stem ++ ".js")

/-! ### Directories -/

namespace Relative

variable {directory file : Text}

/-- A directory whose files have relative paths, with `./` in front and without: it is neither empty nor absolute. -/
def IsDirectory (directory : Text) : Prop :=
  (Path.ofText (bare (directory ++ "/"))).anchor = .relative

instance (directory : Text) : Decidable (IsDirectory directory) :=
  inferInstanceAs (Decidable (_ = _))

lemma bare_below (directory file : Text) : bare (directory ++ "/" ++ file) = bare (directory ++ "/") ++ file := by
  cases hdrop : Text.dropStart? "./" (directory ++ "/") with
  | some rest =>
    rw [Text.dropStart?_eq_some.mp hdrop, List.append_assoc, bare_start, bare_start]
  | none =>
    have hwhole : Text.dropStart? "./" (directory ++ "/" ++ file) = none := by
      rw [Option.eq_none_iff_forall_ne_some]
      intro rest hrest
      have hstarts := Text.dropStart?_eq_some.mp hrest
      match directory with
      | [] => exact absurd (List.cons.inj hstarts).1 (by decide)
      | c :: directory =>
        -- the point and the slash stand in front of the file
        have hfront : Text.ofString "./" <+: c :: directory ++ "/" := by
          refine List.prefix_of_prefix_length_le (List.prefix_append _ rest) (hstarts ▸ List.prefix_append _ file) ?_
          rw [List.length_append]
          exact Nat.le_add_left 1 directory.length |> Nat.succ_le_succ
        obtain ⟨rest, hfront⟩ := hfront
        rw [Text.dropStart?_eq_some.mpr hfront.symm] at hdrop
        cases hdrop
    rw [bare, hwhole, bare, hdrop]
    rfl

namespace IsDirectory

variable (h : IsDirectory directory)

include h

lemma anchor : (Path.ofText directory).anchor = .relative := by
  rw [Path.anchor_eq_relative]
  intro hhead
  cases directory with
  | nil => cases hhead
  | cons c directory =>
    obtain rfl := Option.some.inj hhead
    exact Path.anchor_eq_relative.mp h rfl

lemma anchor_below (hfile : (Path.ofText file).anchor = .relative) :
    (Path.ofText (bare (directory ++ "/" ++ file))).anchor = .relative := by
  rw [bare_below]
  exact Path.anchor_append h hfile

end IsDirectory

end Relative

lemma FileSystem.Sees.below {fs : FileSystem} {package : Path} {directory seen : Text}
    (h : fs.Sees (package / directory) seen) (hdirectory : (Path.ofText directory).anchor = .relative) :
    fs.HasTarget package ("./" ++ directory ++ "/" ++ seen) := by
  have hsegments : (Path.ofText ("./" ++ directory ++ "/" ++ seen)).segments =
      (Path.ofText directory).segments ++ (Path.ofText seen).segments := by
    rw [Path.segments_slash, ← Relative.segments_bare, Relative.bare_start]
  have hjoin : package / ("./" ++ directory ++ "/" ++ seen) = package / directory / seen := by
    rw [Path.joinText_eq package rfl, hsegments, Path.joinText_eq _ h.anchor, Path.joinText_eq package hdirectory,
      List.append_assoc]
  rw [HasTarget, hjoin]
  exact h.file

namespace EntryRequest

variable {fs : FileSystem} {r : EntryRequest} {cs : Conditions} {directory relative file front ending : Text}

/-! ### Endings -/

lemma segments_subpath (hpath : Relative.bare r.path ≠ [] → Relative.bare r.path ≠ "." → Relative.IsTidy r.path) :
    ∀ segment ∈ Text.splitOn '/' r.subpath, IsSegment segment := by
  refine forall_mem_subpath (by decide) ?_
  by_cases hself : Relative.bare r.path = [] ∨ Relative.bare r.path = "."
  · have hindex : r.cleanPath = "index" := by
      rcases hself with hempty | hdot
      · rw [cleanPath, hempty]
        rfl
      · rw [cleanPath, hdot]
        rfl
    rw [hindex]
    decide
  · obtain ⟨hne, hdot⟩ := not_or.mp hself
    rw [cleanPath_of_isTidy (hpath hne hdot)]
    exact hpath hne hdot

lemma isInner_subpath (hpath : Relative.bare r.path ≠ [] → Relative.bare r.path ≠ "." → Relative.IsTidy r.path) :
    IsInner r.subpath :=
  isInner_of_segments (segments_subpath hpath)

lemma ending_of_found (hpackage : r.package.IsClean) (hinner : IsInner relative)
    (hroot : (directory, relative) ∈ r.searchRoots)
    (hfound : FoundBelow fs (r.package / directory) relative exactExtensions file)
    (hslash : CodePoint.ofChar '/' ∉ ending) (hend : ending <:+ file) :
    ∃ last : Text, (last = "index" ∨ (Path.ofText r.path).name = last) ∧
      ∃ extension ∈ exactExtensions, ending <:+ last ++ extension := by
  have hclean := Path.isClean_div hpackage directory
  obtain ⟨names, hnames, rfl⟩ := Probe.names_of_foundFrom hclean hinner (by decide) hfound
  obtain ⟨row, last, hstem, extension, hextension, rfl⟩ := Probe.namesTried_iff.mp hnames
  have htext : Path.text ⟨.relative, row ++ [last ++ extension]⟩ = Text.joinWith "/" (row ++ [last ++ extension]) :=
    if_neg (by simp)
  rw [htext] at hend
  refine ⟨last, ?_, extension, hextension, Text.suffix_joinWith hslash hend⟩
  cases hstem with
  | index => exact .inl rfl
  | own hlast =>
    rcases searchRoots_cases hroot with rfl | ⟨before, hsegments⟩
    · obtain rfl : Text.ofString "index" = last := (List.append_eq_singleton_iff.mp hlast.symm).elim
        (fun h => (List.singleton_inj.mp h.2).symm) fun h => absurd h.2 (List.cons_ne_nil _ _)
      exact .inl rfl
    · right
      rw [hlast, ← List.append_assoc] at hsegments
      rw [Path.name, ← hsegments, List.getLast?_concat]
      rfl

lemma point_of_declaration {t : Text} (h : Text.ofString ".d.ts" <:+ t ++ ".ts") : Text.ofString ".d" <:+ t := by
  obtain ⟨before, hwhole⟩ := h
  have hsplit : before ++ Text.ofString ".d" ++ ".ts" = t ++ ".ts" := (List.append_assoc _ _ _).trans hwhole
  exact ⟨before, List.append_cancel_right hsplit⟩

/-- Only a path that ends like a declaration leads to one. -/
lemma declaration_of_found (hpackage : r.package.IsClean) (hinner : IsInner relative)
    (hroot : (directory, relative) ∈ r.searchRoots)
    (hfound : FoundBelow fs (r.package / directory) relative exactExtensions file)
    (hend : Text.ofString ".d.ts" <:+ file) :
    Text.ofString ".d" <:+ (Path.ofText r.path).name ∨ Text.ofString ".d.ts" <:+ (Path.ofText r.path).name := by
  obtain ⟨last, hlast, extension, hextension, hsuffix⟩ :=
    ending_of_found hpackage hinner hroot hfound (by decide) hend
  have hname : Text.ofString ".d" <:+ last ∨ Text.ofString ".d.ts" <:+ last := by
    have hother : ∀ e ∈ exactExtensions,
        e = [] ∨ e = ".ts" ∨ ¬Text.ofString ".d.ts" <:+ e ∧ ¬e <:+ Text.ofString ".d.ts" := by
      decide
    rcases hother extension hextension with rfl | rfl | hneither
    · exact .inr (by rwa [List.append_nil] at hsuffix)
    · exact .inl (point_of_declaration hsuffix)
    · exact absurd hsuffix (Text.not_suffix_append last hneither)
  rcases hlast with rfl | rfl
  · exact absurd hname (by decide)
  · exact hname

lemma lineEnd_of_found (hpackage : r.package.IsClean) (hinner : IsInner relative)
    (hroot : (directory, relative) ∈ r.searchRoots)
    (hfound : FoundBelow fs (r.package / directory) relative exactExtensions file)
    (hend : Text.ofString "\n" <:+ file) : Text.ofString "\n" <:+ (Path.ofText r.path).name := by
  obtain ⟨last, hlast, extension, hextension, hsuffix⟩ :=
    ending_of_found hpackage hinner hroot hfound (by decide) hend
  have hname : Text.ofString "\n" <:+ last := by
    have hother : ∀ e ∈ exactExtensions, e = [] ∨ ¬Text.ofString "\n" <:+ e ∧ ¬e <:+ Text.ofString "\n" := by decide
    rcases hother extension hextension with rfl | hneither
    · rwa [List.append_nil] at hsuffix
    · exact absurd hsuffix (Text.not_suffix_append last hneither)
  rcases hlast with rfl | rfl
  · exact absurd hname (by decide)
  · exact hname

/-! ### What is found -/

lemma refers_typeScript {package : Path} {stem extension : Text} (hextension : extension ∈ [Text.ofString ".ts", ".tsx"])
    (hfile : fs.HasTarget package (stem ++ extension)) :
    fs.Refers package (stem ++ ".js") ∨ Text.ofString ".d.ts" <:+ stem ++ extension ∧
      ∃ before, fs.HasTarget package (before ++ ".d.ts") ∧ stem ++ ".js" = before ++ ".d.js" := by
  by_cases hdeclaration : Text.ofString ".d.ts" <:+ stem ++ extension
  · right
    have hother : ¬Text.ofString ".d.ts" <:+ Text.ofString ".tsx" ∧ ¬Text.ofString ".tsx" <:+ Text.ofString ".d.ts" := by
      decide
    rcases List.mem_pair.mp hextension with rfl | rfl
    · obtain ⟨before, rfl⟩ := point_of_declaration hdeclaration
      rw [List.append_assoc] at hfile
      exact ⟨hdeclaration, before, hfile, List.append_assoc _ _ _⟩
    · exact absurd hdeclaration (Text.not_suffix_append _ hother)
  · exact .inl (.compiled hextension hfile hdeclaration rfl)

/-- What a file of a directory is compiled to means the file, unless the file is a declaration or has a line end after
its extension. -/
lemma refers_compiledFile {package : Path} (hfile : fs.HasTarget package (front ++ "/" ++ file)) :
    fs.Refers package (front ++ "/" ++ compiledFile file) ∨
      (Text.ofString ".d.ts" <:+ file ∧ ∃ stem, fs.HasTarget package (stem ++ ".d.ts") ∧
        front ++ "/" ++ compiledFile file = stem ++ ".d.js") ∨
      Text.ofString "\n" <:+ file ∧ ∃ stem, ∃ extension ∈ [Text.ofString ".ts", ".tsx"],
        fs.HasTarget package (stem ++ extension ++ "\n") ∧
          front ++ "/" ++ compiledFile file = stem ++ ".js" ++ "\n" := by
  unfold compiledFile
  cases hcut : cutTypeScript? file with
  | none => exact .inl (.own hfile)
  | some cut =>
    obtain ⟨stem, lineEnd⟩ := cut
    obtain ⟨rfl | rfl, extension, hextension, rfl⟩ := cutTypeScript?_eq_some hcut
    · dsimp only
      rw [List.append_nil] at hfile ⊢
      rw [List.append_nil, ← List.append_assoc]
      rw [← List.append_assoc] at hfile
      refine (refers_typeScript hextension hfile).imp_right fun ⟨hend, htarget⟩ => .inl ⟨?_, htarget⟩
      rw [List.append_assoc front, List.append_assoc] at hend
      exact Text.suffix_of_suffix_append (by decide) hend
    · refine .inr (.inr ⟨List.suffix_append _ _, front ++ "/" ++ stem, extension, hextension, ?_, ?_⟩)
      · simpa only [List.append_assoc] using hfile
      · simp only [List.append_assoc]

/-- The targets of a path that is found in a build directory. Source and declaration are there. The target means a file
that is there, with two exceptions: a path that ends like a declaration may have the target `.d.js`, and one with a line
end at its end the target `.js` with a line end. -/
theorem exactMatch_refers (hpackage : r.package.IsClean)
    (hbuilds : ∀ directory ∈ r.buildDirectories, Relative.IsDirectory directory)
    (hpath : Relative.bare r.path ≠ [] → Relative.bare r.path ≠ "." → Relative.IsTidy r.path)
    (h : exactMatch fs r = .ok (some cs)) :
    (∀ target ∈ cs.source, fs.HasTarget r.package target) ∧ (∀ target ∈ cs.types, fs.HasTarget r.package target) ∧
    ∃ target, cs.otherwise = some target ∧
      (fs.Refers r.package target ∨
        ((Text.ofString ".d" <:+ (Path.ofText r.path).name ∨ Text.ofString ".d.ts" <:+ (Path.ofText r.path).name) ∧
          ∃ stem, fs.HasTarget r.package (stem ++ ".d.ts") ∧ target = stem ++ ".d.js") ∨
        Text.ofString "\n" <:+ (Path.ofText r.path).name ∧
          ∃ stem, ∃ extension ∈ [Text.ofString ".ts", ".tsx"],
            fs.HasTarget r.package (stem ++ extension ++ "\n") ∧ target = stem ++ ".js" ++ "\n") := by
  obtain ⟨⟨directory, relative⟩, hroot, file, hfound, hbuilt⟩ := exactMatchIn_eq_some h
  obtain ⟨hmem, hrelative⟩ := mem_searchRoots hroot
  have hinner : IsInner relative := hrelative ▸ isInner_subpath hpath
  have hdirectory := hbuilds directory hmem
  have hsees : fs.Sees (r.package / directory) file := Probe.sees_of_foundFrom
    (fun p hp => ⟨Probe.tried_of_fileOrIndex? hp, Probe.isFile_of_fileOrIndex? hp⟩) hfound
  obtain ⟨source, hsource, hcs⟩ := bind_ok_iff.mp hbuilt
  obtain rfl := Except.ok.inj hcs
  refine ⟨?_, ?_, _, rfl, ?_⟩
  · rintro target rfl
    exact SourceFile.hasTarget_find? hsource
  · intro target htypes
    dsimp only at htypes
    exact Declaration.hasTarget_beside? (hdirectory.anchor_below hsees.anchor) htypes
  · refine (refers_compiledFile (hsees.below hdirectory.anchor)).imp_right (.imp ?_ ?_)
    · exact fun ⟨hend, htarget⟩ => ⟨declaration_of_found hpackage hinner hroot hfound hend, htarget⟩
    · exact fun ⟨hend, htarget⟩ => ⟨lineEnd_of_found hpackage hinner hroot hfound hend, htarget⟩

/-- A build directory with a module that is not compiled yet, its declaration, and declarations of types only. -/
def declared : FileSystem :=
  ((((FileSystem.empty.put ["lib"] .directory).put ["lib", "utils.ts"] (.file [])).put
    ["lib", "utils.d.ts"] (.file [])).put ["lib", "types.d.ts"] (.file []))

def moduleRequest : EntryRequest where
  path := "./lib/utils"
  package := Path.ofText "."

def typesRequest : EntryRequest where
  path := "./lib/types.d.ts"
  package := Path.ofText "."

/-- The target of a module that is not compiled means its TypeScript. -/
theorem exactMatch_refers_utils : ∃ cs, exactMatch declared moduleRequest = .ok (some cs) ∧
    cs.otherwise = some "./lib/utils.js" ∧ declared.Refers moduleRequest.package "./lib/utils.js" ∧
    cs.types = some "./lib/utils.d.ts" ∧ declared.HasTarget moduleRequest.package "./lib/utils.d.ts" := by
  have hmatch : (exactMatch declared moduleRequest).toOption = some (some {
      types := some "./lib/utils.d.ts", imported := some "./lib/utils.js", otherwise := some "./lib/utils.js" }) := by
    decide +kernel
  obtain ⟨-, htypes, target, hotherwise, hrefers⟩ := exactMatch_refers (Path.isClean_ofText ".") (by decide)
    (fun _ _ => by decide) (ok_of_toOption hmatch)
  obtain rfl := Option.some.inj hotherwise
  refine ⟨_, ok_of_toOption hmatch, rfl, ?_, rfl, htypes _ rfl⟩
  rcases hrefers with hrefers | ⟨hname, -⟩ | ⟨hname, -⟩
  · exact hrefers
  · exact absurd hname (by decide)
  · exact absurd hname (by decide)

/-- The target of declarations of types means no file. -/
theorem exactMatch_dangles : ∃ cs, exactMatch declared typesRequest = .ok (some cs) ∧
    cs.otherwise = some "./lib/types.d.js" ∧ ¬declared.Refers typesRequest.package "./lib/types.d.js" := by
  have hmatch : (exactMatch declared typesRequest).toOption = some (some {
      types := some "./lib/types.d.ts", imported := some "./lib/types.d.js",
      otherwise := some "./lib/types.d.js" }) := by decide +kernel
  refine ⟨_, ok_of_toOption hmatch, rfl, fun hrefers => ?_⟩
  cases hrefers with
  | own hfile => exact absurd hfile (by decide +kernel)
  | @compiled stem extension hextension hfile hdeclaration htarget =>
    have hsplit : Text.ofString "./lib/types.d" ++ ".js" = stem ++ ".js" := htarget
    obtain rfl := List.append_cancel_right hsplit
    rcases List.mem_pair.mp hextension with rfl | rfl
    · exact hdeclaration (by decide)
    · exact absurd hfile (by decide +kernel)

end EntryRequest

end PackageExports
