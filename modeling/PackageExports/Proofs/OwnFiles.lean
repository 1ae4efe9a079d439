import PackageExports.Proofs.BuiltTargets
import PackageExports.Proofs.Predictions

/-!
# Files by their own paths

A script that is there is the target of its own path if the first name of the path is a build directory. A build
directory of several names is not recognized at the start of a path. Then the path is looked for below the build
directories, and every target that is found, predicted or assumed that way is longer than the path. Only where there are
two builds the file is its own target after all, if nothing is in the build directories.

Main results: `EntryRequest.exists_exactMatch`, `EntryRequest.IsScript.length_lt_built`, `EntryRequest.own_default_iff`.
-/

namespace PackageExports

open PackageExports.Path (IsSegment IsClean IsInner)

/-- What is tried for a path is not shorter than the path without what it does not need. -/
lemma Probe.Stem.length_le {base last : Text} {front : List Text} (h : Stem base front last) :
    (Text.joinWith "/" (Path.ofText base).segments).length ≤ (Text.joinWith "/" (front ++ [last])).length := by
  cases h with
  | own hbase => rw [hbase]
  | index =>
    by_cases hempty : (Path.ofText base).segments = []
    · rw [hempty]
      exact Nat.zero_le _
    · rw [Text.joinWith_append _ hempty (List.cons_ne_nil _ _), List.append_assoc, List.length_append]
      exact Nat.le_add_right _ _

namespace EntryRequest

variable {fs : FileSystem} {r : EntryRequest} {cs : Conditions} {directory relative file : Text}

/-! ### Looking for targets does not fail -/

section Found

variable (fs) (hpackage : r.package.IsClean)

include hpackage

variable (hsources : ∀ directory ∈ r.sourceDirectories, IsInner directory)

section Sources

include hsources

lemma exists_builtConditions (hdirectory : IsInner directory) (file : Text) :
    ∃ cs, builtConditions fs r directory file = .ok cs := by
  have hsource (compiled : Text) : ∃ source, SourceFile.find? fs r.package ("./" ++ directory ++ "/" ++ compiled)
      r.sourceDirectories r.buildDirectories = .ok source := by
    have htarget : Text.ofString "./" ++ directory ++ "/" ++ compiled = "./" ++ (directory ++ "/" ++ compiled) := by
      simp only [List.append_assoc]
    rw [htarget]
    exact SourceFile.exists_find? fs hpackage (Path.anchor_eq_relative.mp (hdirectory.append compiled).1) hsources _
  refine Exists.elim ?_ fun source hfound => ⟨_, bind_ok_iff.mpr ⟨source, hfound, rfl⟩⟩
  exact hsource _

lemma exists_exactMatchBelow (hdirectory : IsInner directory) (hrelative : IsInner relative) :
    ∃ found, exactMatchBelow fs r directory relative = .ok found := by
  have hroot := Path.isClean_joinText hpackage hdirectory.1
  have hbelow : ∀ p ∈ Probe.fileOrIndex? fs (r.package / directory / relative).text exactExtensions,
      ∃ rest, p = ⟨(r.package / directory).anchor, (r.package / directory).segments ++ rest⟩ :=
    fun p hp => (Probe.tried_of_fileOrIndex? hp).below hroot hrelative (by decide)
  obtain ⟨seen, hseen⟩ := Probe.exists_foundFrom hbelow
  cases seen with
  | none => exact ⟨none, bind_ok_iff.mpr ⟨none, hseen, rfl⟩⟩
  | some file =>
    obtain ⟨cs, hcs⟩ := exists_builtConditions fs hpackage hsources hdirectory file
    refine ⟨some cs, bind_ok_iff.mpr ⟨some file, hseen, ?_⟩⟩
    dsimp only
    rw [hcs]
    rfl

lemma exists_exactMatch (hbuilds : ∀ directory ∈ r.buildDirectories, IsInner directory) (hpath : IsInner r.subpath) :
    ∃ found, exactMatch fs r = .ok found := by
  rw [exactMatch, exactMatchIn_eq]
  refine exists_findSomeM? fun root hroot => ?_
  obtain ⟨hmem, hrelative⟩ := mem_searchRoots hroot
  exact exists_exactMatchBelow fs hpackage hsources (hbuilds _ hmem) (hrelative ▸ hpath)

end Sources

lemma exists_prediction (hstem : IsInner r.outputStem) : ∃ found, prediction fs r = .ok found := by
  rw [prediction, predictionIn_eq]
  refine exists_findSomeM? fun directory _ => ?_
  have hbelow : ∀ p ∈ Probe.fileOrIndex? fs (r.package / directory / r.outputStem).text [".ts", ".tsx"],
      ∃ rest, p = ⟨(r.package / directory).anchor, (r.package / directory).segments ++ rest⟩ :=
    fun p hp => (Probe.tried_of_fileOrIndex? hp).below (Path.isClean_div hpackage directory) hstem (by decide)
  obtain ⟨seen, hseen⟩ := Probe.exists_foundFrom hbelow
  unfold predictionBelow
  exact ⟨_, bind_ok_iff.mpr ⟨seen, hseen, rfl⟩⟩

lemma exists_assumption (hsources : ∀ directory ∈ r.sourceDirectories, IsInner directory)
    (houtput : IsInner (r.outputDirectory ++ "/" ++ r.outputStem)) :
    ∃ cs, (assumption fs r).result = .ok cs ∧
      cs.otherwise = some ("./" ++ r.outputDirectory ++ "/" ++ r.outputStem ++ ".js") := by
  have htarget : Text.ofString "./" ++ r.outputDirectory ++ "/" ++ r.outputStem ++ ".js" =
      "./" ++ (r.outputDirectory ++ "/" ++ r.outputStem ++ ".js") := by
    simp only [List.append_assoc]
  have hanchor : (Path.ofText (r.outputDirectory ++ "/" ++ r.outputStem ++ ".js")).anchor = .relative :=
    Path.anchor_append houtput.1 rfl
  obtain ⟨source, hsource⟩ :=
    SourceFile.exists_find? fs hpackage (Path.anchor_eq_relative.mp hanchor) hsources r.buildDirectories
  rw [← htarget] at hsource
  let base : Text := "./" ++ r.outputDirectory ++ "/" ++ r.outputStem
  refine ⟨{ source, types := some (base ++ ".d.ts"), otherwise := some (base ++ ".js") }, ?_, rfl⟩
  unfold assumption
  dsimp only
  rw [hsource]
  rfl

end Found

lemma length_le_compiledFile (file : Text) : file.length ≤ (compiledFile file).length + 1 := by
  unfold compiledFile
  cases hcut : cutTypeScript? file with
  | none => exact Nat.le_succ _
  | some cut =>
    obtain ⟨-, extension, hextension, hfile⟩ := cutTypeScript?_eq_some hcut
    have hlengths : ∀ e ∈ [Text.ofString ".ts", ".tsx"], e.length ≤ (Text.ofString ".js").length + 1 := by decide
    have hlength := hlengths extension hextension
    rw [hfile]
    simp only [List.length_append]
    omega

/-! ### Scripts by their paths -/

/-- A path of a script in a directory: the first name, those between, and the last one before its extension. -/
structure IsScript (r : EntryRequest) (head : Text) (front : List Text) (last extension : Text) : Prop where
  path : r.path = Relative.ofNames (head :: front ++ [last ++ extension])
  names : ∀ name ∈ head :: front ++ [last ++ extension], IsSegment name
  extension : extension ∈ Relative.scriptExtensions

namespace IsScript

variable {head last extension : Text} {front : List Text} (h : IsScript r head front last extension)

include h

lemma below : ∀ name ∈ front ++ [last ++ extension], IsSegment name :=
  (List.forall_mem_cons.mp h.names).2

lemma isSegment_head : IsSegment head :=
  h.names head List.mem_cons_self

lemma isInner_head : IsInner head := by
  rw [IsInner, Path.ofText_of_isSegment h.isSegment_head]
  exact ⟨rfl, List.cons_ne_nil _ _⟩

lemma bare_path : Relative.bare r.path = Text.joinWith "/" (head :: front ++ [last ++ extension]) := by
  rw [h.path, Relative.ofNames, Relative.bare_start]

lemma isTidy : Relative.IsTidy r.path := by
  rw [Relative.IsTidy, h.bare_path, Text.splitOn_joinWith (by simp) fun name hname => (h.names name hname).2.2]
  exact h.names

lemma cleanPath_eq : r.cleanPath = Text.joinWith "/" (head :: front ++ [last ++ extension]) := by
  rw [cleanPath_of_isTidy h.isTidy, h.bare_path]

lemma cleanPath_head : r.cleanPath = head ++ "/" ++ Text.joinWith "/" (front ++ [last ++ extension]) := by
  rw [h.cleanPath_eq, List.cons_append, Text.joinWith_cons _ _ (by simp)]

lemma path_clean : r.path = "./" ++ r.cleanPath := by
  rw [h.cleanPath_eq]
  exact h.path

lemma namedDirectory_eq : r.namedDirectory = if head ∈ r.buildDirectories then some head else none := by
  have hhead : r.cleanPath.takeWhile (· != CodePoint.ofChar '/') = head := by
    have hslash : ∀ c ∈ head, (c != CodePoint.ofChar '/') = true := by
      intro c hc
      rw [bne_iff_ne]
      rintro rfl
      exact h.isSegment_head.2.2 hc
    rw [h.cleanPath_head, List.append_assoc, List.takeWhile_append_of_pos hslash]
    exact List.append_nil head
  unfold namedDirectory
  rw [hhead]

lemma searchRoots_of_mem (hmem : head ∈ r.buildDirectories) :
    r.searchRoots = [(head, Text.joinWith "/" (front ++ [last ++ extension]))] := by
  have hnamed : r.namedDirectory = some head := by rw [h.namedDirectory_eq, if_pos hmem]
  have hdrop : r.cleanPath.drop (head.length + 1) = Text.joinWith "/" (front ++ [last ++ extension]) := by
    rw [h.cleanPath_head]
    exact List.drop_left' (by rw [List.length_append]; rfl)
  have hne := (Expansion.joinWith_of_segments (by simp) h.below).1
  obtain ⟨c, chars, rfl⟩ := List.exists_cons_of_ne_nil h.isSegment_head.1
  rw [searchRoots, subpath, hnamed]
  dsimp only
  rw [hdrop, if_neg (by simpa using hne)]

lemma exactMatch_own (hpackage : r.package.IsClean) (hsources : ∀ directory ∈ r.sourceDirectories, IsInner directory)
    (hmem : head ∈ r.buildDirectories) (hfile : fs.HasTarget r.package r.path) :
    ∃ cs, exactMatch fs r = .ok (some cs) ∧ cs.otherwise = some r.path := by
  have hanchor := Path.anchor_joinWith h.below
  have hroot := Path.isClean_joinText hpackage h.isInner_head.1
  have hplace : r.package / head / Text.joinWith "/" (front ++ [last ++ extension]) = r.package / r.path := by
    rw [Path.joinText_slash r.package h.isInner_head hanchor, ← h.cleanPath_head, h.path_clean, Path.div_start]
    rw [h.cleanPath_eq]
    exact Path.anchor_joinWith h.names
  rw [FileSystem.HasTarget, ← hplace] at hfile
  have hfirst := Probe.fileOrIndex?_of_isFile hroot h.below hfile [".js", ".ts", ".jsx", ".tsx", ".mjs", ".cjs"]
  have hseen : r.package / head / Text.joinWith "/" (front ++ [last ++ extension]) =
      ⟨(r.package / head).anchor, (r.package / head).segments ++ (front ++ [last ++ extension])⟩ := by
    rw [Path.joinText_eq _ hanchor, Path.segments_joinWith h.below]
  have htext : Path.text ⟨.relative, front ++ [last ++ extension]⟩ = Text.joinWith "/" (front ++ [last ++ extension]) :=
    if_neg (by simp)
  have hcut : cutTypeScript? (Text.joinWith "/" (front ++ [last ++ extension])) = none := by
    rw [← Text.joinWith_concat_append, cutTypeScript?_script _ h.extension]
  obtain ⟨cs, hcs⟩ := exists_builtConditions fs hpackage hsources h.isInner_head
    (Text.joinWith "/" (front ++ [last ++ extension]))
  refine ⟨cs, ?_, ?_⟩
  · rw [exactMatch_of_first (h.searchRoots_of_mem hmem) (hfirst.trans (congrArg some hseen)), htext, hcs]
    rfl
  · rw [otherwise_of_built hcs, compiledFile, hcut, h.path_clean, h.cleanPath_head]
    simp only [List.append_assoc]

/-! ### Targets elsewhere -/

section Unnamed

variable (hmem : head ∉ r.buildDirectories)

include hmem

lemma namedDirectory_eq_none : r.namedDirectory = none := by
  rw [h.namedDirectory_eq, if_neg hmem]

lemma outputDirectory_eq : r.outputDirectory = "lib" := by
  rw [outputDirectory, h.namedDirectory_eq_none hmem]

lemma subpath_eq : r.subpath = Text.joinWith "/" (head :: front ++ [last ++ extension]) := by
  rw [subpath, h.namedDirectory_eq_none hmem]
  exact h.cleanPath_eq

lemma outputStem_eq : r.outputStem = Text.joinWith "/" (head :: front ++ [last]) := by
  have hne : Text.joinWith "/" (head :: front ++ [last]) ≠ [] := by
    rw [List.cons_append, Text.joinWith_cons _ _ (by simp)]
    simp [h.isSegment_head.1]
  rw [outputStem, h.subpath_eq hmem, ← Text.joinWith_concat_append, Relative.dropCompiled_script hne h.extension]

lemma path_stem : r.path = "./" ++ r.outputStem ++ extension := by
  rw [h.outputStem_eq hmem, h.path, Relative.ofNames, ← Text.joinWith_concat_append, List.append_assoc]

lemma segments_stem : (Path.ofText r.outputStem).segments = head :: front ++ [last] ∨
    (Path.ofText r.outputStem).segments = head :: front ∧ last.length ≤ 1 := by
  have hfront : ∀ name ∈ head :: front, IsSegment name := fun name hname =>
    h.names name (List.mem_append_left _ hname)
  have hslash : CodePoint.ofChar '/' ∉ last := fun hmem =>
    (h.names (last ++ extension) (by simp)).2.2 (List.mem_append_left _ hmem)
  rw [h.outputStem_eq hmem]
  by_cases hlast : last = [] ∨ last = "."
  · right
    rw [Text.joinWith_append _ (List.cons_ne_nil _ _) (List.cons_ne_nil _ _), Path.segments_slash,
      Path.segments_joinWith hfront]
    rcases hlast with rfl | rfl
    · exact ⟨List.append_nil _, Nat.zero_le _⟩
    · exact ⟨List.append_nil _, Nat.le_refl _⟩
  · left
    obtain ⟨hne, hdot⟩ := not_or.mp hlast
    exact Path.segments_joinWith (List.forall_mem_append.mpr ⟨hfront, List.forall_mem_singleton.mpr ⟨hne, hdot, hslash⟩⟩)

lemma isInner_stem : IsInner r.outputStem := by
  refine ⟨?_, ?_⟩
  · rw [h.outputStem_eq hmem, List.cons_append, Text.joinWith_cons _ _ (by simp)]
    exact (h.isInner_head.append _).1
  · rcases h.segments_stem hmem with hsegments | ⟨hsegments, -⟩
    · rw [hsegments]
      exact List.cons_ne_nil _ _
    · rw [hsegments]
      exact List.cons_ne_nil _ _

lemma length_stem_le :
    r.outputStem.length ≤ (Text.joinWith "/" (Path.ofText r.outputStem).segments).length + 2 := by
  rcases h.segments_stem hmem with hsegments | ⟨hsegments, hlast⟩
  · rw [hsegments, h.outputStem_eq hmem]
    exact Nat.le_add_right _ _
  · have hslash : (Text.ofString "/").length = 1 := rfl
    rw [hsegments, h.outputStem_eq hmem, Text.joinWith_append _ (List.cons_ne_nil _ _) (List.cons_ne_nil _ _),
      List.length_append, List.length_append, hslash]
    have hsingle : Text.joinWith "/" [last] = last := rfl
    rw [hsingle]
    omega

lemma length_path_le : r.path.length ≤ r.outputStem.length + 6 := by
  have hextension : ∀ e ∈ Relative.scriptExtensions, e.length ≤ 4 := by decide
  have hstart : (Text.ofString "./").length = 2 := rfl
  have hlength := hextension extension h.extension
  rw [h.path_stem hmem, List.length_append, List.length_append, hstart]
  omega

/-- What is found in a build directory is not where the path is. -/
lemma length_lt_built (hpackage : r.package.IsClean) (hdirectory : IsInner directory)
    (hroot : (directory, relative) ∈ r.searchRoots)
    (hfound : FoundBelow fs (r.package / directory) relative exactExtensions file) :
    r.path.length < (Text.ofString "./" ++ directory ++ "/" ++ compiledFile file).length := by
  obtain ⟨-, hrelative⟩ := mem_searchRoots hroot
  rw [h.subpath_eq hmem] at hrelative
  have hsegments : (Path.ofText relative).segments = head :: front ++ [last ++ extension] := by
    rw [hrelative, Path.segments_joinWith h.names]
  have hinner : IsInner relative := hrelative ▸ Path.isInner_joinWith (by simp) h.names
  have hclean := Path.isClean_joinText hpackage hdirectory.1
  obtain ⟨names, hnames, rfl⟩ := Probe.names_of_foundFrom hclean hinner (by decide) hfound
  obtain ⟨row, name, hstem, e, -, rfl⟩ := Probe.namesTried_iff.mp hnames
  have htext : Path.text ⟨.relative, row ++ [name ++ e]⟩ = Text.joinWith "/" (row ++ [name]) ++ e := by
    rw [Text.joinWith_concat_append]
    exact if_neg (by simp)
  have hlonger := hstem.length_le
  have hcompiled := length_le_compiledFile (Path.text ⟨.relative, row ++ [name ++ e]⟩)
  have hne : directory.length ≠ 0 := fun hzero => hdirectory.2 (by rw [List.length_eq_zero_iff.mp hzero]; rfl)
  have hstart : (Text.ofString "./").length = 2 := rfl
  have hslash : (Text.ofString "/").length = 1 := rfl
  rw [htext, List.length_append] at hcompiled
  rw [hsegments] at hlonger
  rw [htext, h.path, Relative.ofNames]
  simp only [List.length_append, hstart, hslash]
  omega

lemma length_lt_predicted (hpackage : r.package.IsClean) (hfound : prediction fs r = .ok (some cs)) :
    ∃ target, cs.otherwise = some target ∧ r.path.length < target.length := by
  obtain ⟨row, name, hstem, hotherwise, -⟩ := prediction_names hpackage (h.isInner_stem hmem) hfound
  refine ⟨_, hotherwise, ?_⟩
  have hlonger := hstem.length_le
  have hstemLength := h.length_stem_le hmem
  have hpath := h.length_path_le hmem
  have hbase : (Text.ofString "./" ++ "lib" ++ "/").length = 6 := rfl
  have hscript : (Text.ofString ".js").length = 3 := rfl
  rw [← Relative.ofNames_append, h.outputDirectory_eq hmem, List.length_append, List.length_append, hbase, hscript]
  omega

lemma length_lt_assumed :
    r.path.length < (Text.ofString "./" ++ r.outputDirectory ++ "/" ++ r.outputStem ++ ".js").length := by
  have hpath := h.length_path_le hmem
  have hbase : (Text.ofString "./" ++ "lib" ++ "/").length = 6 := rfl
  have hscript : (Text.ofString ".js").length = 3 := rfl
  rw [h.outputDirectory_eq hmem, List.length_append, List.length_append, hbase, hscript]
  omega

/-- If a path that does not start with a build directory is in none of them, and there are no two builds, then its target
is somewhere else. -/
lemma exists_elsewhere (hpackage : r.package.IsClean)
    (hsources : ∀ directory ∈ r.sourceDirectories, IsInner directory) (hsingle : r.pattern = .single)
    (hnone : exactMatch fs r = .ok none) :
    ∃ cs, (r.conditions fs Strategy.standard).result = .ok cs ∧
      ∃ target, cs.otherwise = some target ∧ r.path.length < target.length := by
  have hexpansion : expansion fs r = .ok none := by
    rw [expansion, hsingle]
    rfl
  have hstem := h.isInner_stem hmem
  obtain ⟨found, hfound⟩ := exists_prediction fs hpackage hstem
  cases found with
  | some cs =>
    refine ⟨cs, ?_, h.length_lt_predicted hmem hpackage hfound⟩
    rw [Strategy.standard, conditions_of_none (s := .exactMatch) hnone, conditions_of_none (s := .expansion) hexpansion,
      conditions_of_some (s := .prediction) hfound]
  | none =>
    have houtput : IsInner (r.outputDirectory ++ "/" ++ r.outputStem) := by
      rw [h.outputDirectory_eq hmem]
      exact Path.IsInner.append (by decide) _
    obtain ⟨cs, hassumed, hotherwise⟩ := exists_assumption fs hpackage hsources houtput
    have hlast : (apply fs r .assumption).result = .ok (some cs) := by
      rw [apply, Attempt.result_map, hassumed]
      rfl
    refine ⟨cs, ?_, _, hotherwise, h.length_lt_assumed hmem⟩
    rw [Strategy.standard, conditions_of_none (s := .exactMatch) hnone, conditions_of_none (s := .expansion) hexpansion,
      conditions_of_none (s := .prediction) hfound, conditions_of_some hlast]

end Unnamed

lemma expansion_own {main module : Option Text} (hpackage : r.package.IsClean)
    (hsources : ∀ directory ∈ r.sourceDirectories, IsInner directory) (hmain : ∀ entry ∈ main, Relative.IsTidy entry)
    (hpattern : r.pattern = BuildPattern.detect main module) (hdual : r.pattern.isDual = true)
    (hfile : fs.HasTarget r.package r.path) : ∃ cs, expansion fs r = .ok (some cs) ∧ cs.otherwise = some r.path := by
  cases hkind : r.pattern with
  | single =>
    rw [hkind] at hdual
    cases hdual
  | dual kind cjs esm =>
    rw [hkind] at hpattern
    have hinner : IsInner (Relative.bare r.path) := isInner_of_segments h.isTidy
    obtain ⟨hcjs, hesm⟩ := Expansion.isInner_candidates_detect hmain hpattern.symm hinner.1
    obtain ⟨found, hfound, -⟩ :=
      Expansion.exists_expand fs hpackage kind cjs esm r.path hinner hcjs hesm hsources
    obtain ⟨cs, rfl, hotherwise⟩ := Expansion.otherwise_of_isFile hpackage h.isTidy hfile hfound
    refine ⟨cs, by rw [expansion, hkind, hfound], ?_⟩
    rw [hotherwise, Relative.dotted_eq, h.bare_path]
    exact congrArg some h.path.symm

end IsScript

/-- A script below a build directory, of whatever names: looking for its path gives targets, and its own path is the one
without a condition exactly if the first name of the path is a build directory, too, or if there are two builds and
nothing is found for the path below any build directory. For a build directory of one name it always is. -/
theorem own_default_iff {head last extension : Text} {more rest : List Text}
    (hscript : IsScript r head (more ++ rest) last extension)
    (hdirectory : Text.joinWith "/" (head :: more) ∈ r.buildDirectories) (hpackage : r.package.IsClean)
    (hbuilds : ∀ directory ∈ r.buildDirectories, IsInner directory)
    (hsources : ∀ directory ∈ r.sourceDirectories, IsInner directory) {main module : Option Text}
    (hmain : ∀ entry ∈ main, Relative.IsTidy entry) (hpattern : r.pattern = BuildPattern.detect main module)
    (hfile : fs.HasTarget r.package r.path) :
    ∃ cs, (r.conditions fs Strategy.standard).result = .ok cs ∧
      (cs.otherwise = some r.path ↔
        head ∈ r.buildDirectories ∨ r.pattern.isDual = true ∧ exactMatch fs r = .ok none) ∧
      (more = [] → cs.otherwise = some r.path) := by
  have hlonger {cs : Conditions} {target : Text} (hotherwise : cs.otherwise = some target)
      (hlength : r.path.length < target.length) : cs.otherwise ≠ some r.path := by
    intro hsame
    rw [Option.some.inj (hotherwise.symm.trans hsame)] at hlength
    exact hlength.false
  by_cases hmem : head ∈ r.buildDirectories
  · obtain ⟨cs, hmatch, hotherwise⟩ := hscript.exactMatch_own hpackage hsources hmem hfile
    exact ⟨cs, conditions_of_some hmatch, iff_of_true hotherwise (.inl hmem), fun _ => hotherwise⟩
  have hmore : more ≠ [] := by
    rintro rfl
    exact hmem hdirectory
  have hsubpath : IsInner r.subpath := by
    rw [hscript.subpath_eq hmem]
    exact Path.isInner_joinWith (by simp) hscript.names
  obtain ⟨found, hfound⟩ := exists_exactMatch fs hpackage hsources hbuilds hsubpath
  cases found with
  | some cs =>
    obtain ⟨⟨directory, relative⟩, hroot, file, hbelow, hbuilt⟩ := exactMatchIn_eq_some hfound
    have hlength := hscript.length_lt_built hmem hpackage (hbuilds directory (mem_searchRoots hroot).1) hroot hbelow
    refine ⟨cs, conditions_of_some hfound, iff_of_false (hlonger (otherwise_of_built hbuilt) hlength) ?_,
      fun hempty => absurd hempty hmore⟩
    rintro (hhead | ⟨-, hnone⟩)
    · exact hmem hhead
    · rw [hfound] at hnone
      cases hnone
  | none =>
    cases hdual : r.pattern.isDual with
    | true =>
      obtain ⟨cs, hexpansion, hotherwise⟩ :=
        hscript.expansion_own hpackage hsources hmain hpattern hdual hfile
      refine ⟨cs, ?_, iff_of_true hotherwise (.inr ⟨rfl, hfound⟩), fun hempty => absurd hempty hmore⟩
      rw [Strategy.standard, conditions_of_none (s := .exactMatch) hfound,
        conditions_of_some (s := .expansion) hexpansion]
    | false =>
      have hsingle : r.pattern = .single := by
        cases hkind : r.pattern with
        | single => rfl
        | dual kind cjs esm =>
          rw [hkind] at hdual
          cases hdual
      obtain ⟨cs, hcs, target, hotherwise, hlength⟩ :=
        hscript.exists_elsewhere hmem hpackage hsources hsingle hfound
      refine ⟨cs, hcs, iff_of_false (hlonger hotherwise hlength) ?_, fun hempty => absurd hempty hmore⟩
      rintro (hhead | ⟨htwo, -⟩)
      · exact hmem hhead
      · cases htwo

/-- A package with a script in a directory of a build directory. -/
def nested : FileSystem :=
  (((FileSystem.empty.put ["dist"] .directory).put ["dist", "esm"] .directory).put ["dist", "esm", "a.js"] (.file []))

def nestedRequest (builds : List Text) : EntryRequest where
  path := "./dist/esm/a.js"
  package := Path.ofText "."
  buildDirectories := builds

/-- The script is found by its path if the first directory is a build directory, too. -/
theorem own_default_nested : ∃ cs,
    ((nestedRequest ["dist/esm", "dist"]).conditions nested Strategy.standard).result = .ok cs ∧
      cs.otherwise = some "./dist/esm/a.js" := by
  have hscript : IsScript (nestedRequest ["dist/esm", "dist"]) "dist" ([Text.ofString "esm"] ++ []) "a" ".js" :=
    ⟨rfl, by decide, by decide⟩
  have hpattern : (nestedRequest ["dist/esm", "dist"]).pattern = BuildPattern.detect none none := rfl
  have hfile : nested.HasTarget (nestedRequest ["dist/esm", "dist"]).package "./dist/esm/a.js" := by decide +kernel
  obtain ⟨cs, hcs, hown, -⟩ := own_default_iff hscript List.mem_cons_self (Path.isClean_ofText ".") (by decide)
    (by decide) (fun _ hentry => by cases hentry) hpattern hfile
  exact ⟨cs, hcs, hown.mpr (.inl (by decide))⟩

/-- The script is not found by its path if only its own directory is a build directory. -/
theorem own_default_lost : Text.ofString "dist/esm" ∈ (nestedRequest ["dist/esm"]).buildDirectories ∧
    nested.HasTarget (nestedRequest ["dist/esm"]).package (nestedRequest ["dist/esm"]).path ∧
    ∃ cs, ((nestedRequest ["dist/esm"]).conditions nested Strategy.standard).result = .ok cs ∧
      cs.otherwise = some "./lib/dist/esm/a.js" ∧
      ¬nested.HasTarget (nestedRequest ["dist/esm"]).package "./lib/dist/esm/a.js" := by
  have hfound : ((nestedRequest ["dist/esm"]).conditions nested Strategy.standard).result.toOption = some {
      types := some "./lib/dist/esm/a.d.ts", otherwise := some "./lib/dist/esm/a.js" } := by decide +kernel
  exact ⟨List.mem_cons_self, by decide +kernel, _, ok_of_toOption hfound, rfl, by decide +kernel⟩

end EntryRequest

end PackageExports
