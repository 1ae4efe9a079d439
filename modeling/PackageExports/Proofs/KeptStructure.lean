import PackageExports.Proofs.LevelPaths
import PackageExports.Proofs.SampledFiles

/-!
# Builds that keep the structure of the sources

A build keeps the structure of the sources if each sampled file of a source directory has a script at the same place of
a build directory. So a sampled file that is no source counts as well, and a source that is not sampled does not.

Main results: `BuildLayout.exists_layout`, `BuildLayout.keepsStructureOf_iff`, `BuildLayout.structure_kept_iff`.
-/

namespace PackageExports

open FileSystem (CanExist IsName LeadsToTree NamedBelow IsFileAt)

namespace BuildLayout

variable {fs : FileSystem} {package : Path} {base : Location} {sources builds names : List Text} {source : Text}

def scriptName (name : Text) : Text :=
  (Written.splitName name).1 ++ ".js"

/-- Whether a file has the name of a source, and not that of a declaration. -/
def isSource (names : List Text) : Bool :=
  Text.endsWithAny (names.getLast?.getD []) sourceEndings && !Text.endsWith (names.getLast?.getD []) ".d.ts"

/-- A build directory has a script at the place of a file of a source directory. -/
def Mirrored (fs : FileSystem) (base : Location) (builds names : List Text) : Prop :=
  ∃ build ∈ builds, fs.IsFileAt (base ++ [build] ++ names.dropLast ++ [scriptName (names.getLast?.getD [])])

/-- There are source directories and build directories, and all sources have a script at the same place. -/
structure SourcesMirrored (fs : FileSystem) (base : Location) (layout : BuildLayout) : Prop where
  sources : layout.sourceDirectories ≠ []
  builds : layout.buildDirectories ≠ []
  mirrored : ∀ source ∈ layout.sourceDirectories, ∀ names, fs.IsFileAt (base ++ [source] ++ names) →
    isSource names = true → Mirrored fs base layout.buildDirectories names

def sampled (fs : FileSystem) (package : Path) (source : Text) : List (List Text) :=
  sample fs (package.child source) (depthLimit fs) [] sampleSize

/-! ### Detecting a layout -/

lemma joinText_usual (package : Path) {build : Text} (h : build ∈ usualBuildDirectories) :
    package / build = ⟨package.anchor, package.segments ++ [build]⟩ := by
  have husual : ∀ build ∈ usualBuildDirectories, Path.ofText build = ⟨.relative, [build]⟩ := by decide
  exact (congrArg package.join (husual build h)).trans (if_pos rfl)

lemma exists_allBelow (fs : FileSystem) (hbelow : FileCache.AreBelow package builds) :
    ∃ declarations, Declaration.allBelow fs package builds = .ok declarations ∧
      ∀ declaration ∈ declarations, ∃ build ∈ builds, ∃ names,
        SearchPlan.seenFrom package ((package / build).join ⟨.relative, names⟩) = .ok declaration := by
  obtain ⟨rows, hrows, hmem⟩ := exists_mapM_rows
    (fun build => (fs.filesBelow (package / build).text fun _ => true).filter fun names =>
      Text.endsWith (names.getLast?.getD []) ".d.ts")
    fun build hbuild names _ => hbelow.exists_seen hbuild names
  refine ⟨Text.sort rows.flatten, bind_ok_iff.mpr ⟨rows, hrows, rfl⟩, fun declaration hdeclaration => ?_⟩
  obtain ⟨build, hbuild, names, -, hseen⟩ := (hmem declaration).mp (Text.mem_sort.mp hdeclaration)
  exact ⟨build, hbuild, names, hseen⟩

/-- The directories of the detected layout in which types are described, given the declarations that were found. -/
def typesLayout (fs : FileSystem) (package : Path) (declarations : List Text) : TypesLayout :=
  let options := CompilerOptions.ofMembers (fs.readCompilerSettings package).value
  { hasDeclarations := !declarations.isEmpty
    declarationDirectory := options.declarations <|> (byFrequency (declarations.map firstSegment)).head?
    outputDirectory := options.output
    rootDirectory := options.root }

/-- A layout is always detected. -/
theorem exists_layout (fs : FileSystem) (package : Path) :
    ∃ layout, (detect fs package).result = .ok layout ∧ layout.buildDirectories = buildDirectoriesOf fs package ∧
      layout.sourceDirectories = sourceDirectoriesOf fs package ∧
      layout.keepsStructure =
        keepsStructureOf fs package (sourceDirectoriesOf fs package) (buildDirectoriesOf fs package) ∧
      ∃ declarations, layout.types = typesLayout fs package declarations ∧
        ∀ declaration ∈ declarations, ∃ build ∈ layout.buildDirectories, ∃ names,
          SearchPlan.seenFrom package ((package / build).join ⟨.relative, names⟩) = .ok declaration := by
  have hbelow : FileCache.AreBelow package (buildDirectoriesOf fs package) := fun build hbuild =>
    ⟨[build], joinText_usual package (List.mem_filter.mp hbuild).1⟩
  obtain ⟨declarations, hdeclarations, hseen⟩ := exists_allBelow fs hbelow
  unfold detect typesLayoutOf
  simp only [Attempt.result_bind, Attempt.result_ofExcept, Attempt.result_lift, Attempt.result_pure, hdeclarations]
  exact ⟨_, rfl, rfl, rfl, rfl, declarations, rfl, hseen⟩

/-! ### Scripts at the same place -/

lemma isName_scriptName {name : Text} (h : IsName name) : IsName (scriptName name) := by
  have hslash : CodePoint.ofChar '/' ∉ (Written.splitName name).1 := fun hmem =>
    h.2.2.2 ((Written.prefix_splitName name).subset hmem)
  have hlength : 3 ≤ (scriptName name).length := by
    rw [scriptName, List.length_append]
    exact Nat.le_add_left _ _
  have hlong (t : Text) (ht : t.length < 3) : scriptName name ≠ t := by
    rintro rfl
    exact absurd hlength (Nat.not_le.mpr ht)
  refine ⟨hlong [] (by decide), hlong "." (by decide), hlong ".." (by decide), ?_⟩
  rw [scriptName, List.mem_append, not_or]
  exact ⟨hslash, by decide⟩

lemma directory_of_source (h : fs.LeadsToTree package base) (hsource : source ∈ sourceDirectoriesOf fs package) :
    CanExist source ∧ fs.entryAt? (base ++ [source]) = some .directory := by
  have husual : ∀ source ∈ usualSourceDirectories, CanExist source := by decide
  obtain ⟨hmem, hlisted⟩ := List.mem_filter.mp hsource
  have hname := husual source hmem
  exact ⟨hname, (h.isDirectory_iff (List.forall_mem_singleton.mpr hname)).mp (Bool.and_eq_true_iff.mp hlisted).1⟩

section Tree

variable (h : fs.LeadsToTree package base) (hnamed : fs.NamedBelow base)

include h hnamed

lemma isFileAt_of_mem_sampled (hsource : CanExist source ∧ fs.entryAt? (base ++ [source]) = some .directory)
    (hmem : names ∈ sampled fs package source) : fs.IsFileAt (base ++ [source] ++ names) := by
  have htop := h.below (List.forall_mem_singleton.mpr hsource.1) hsource.2
  refine isFileAt_of_mem_sample htop (hnamed.below [source]) ?_ hmem
  rw [List.append_nil]
  exact hsource.2

/-- If there are no more files and empty directories in a source directory than are looked at, all its files are. -/
lemma mem_sampled_iff (hsource : CanExist source ∧ fs.entryAt? (base ++ [source]) = some .directory)
    (hfew : FewEnds fs (base ++ [source]) sampleSize) :
    names ∈ sampled fs package source ↔ fs.IsFileAt (base ++ [source] ++ names) :=
  mem_sample_iff (h.below (List.forall_mem_singleton.mpr hsource.1) hsource.2) (hnamed.below [source]) hfew
    (lt_depthLimit fs)

/-- A script is found for a file if and only if there is one at the same place of a build directory. -/
lemma any_isFile_iff (hbuilds : ∀ build ∈ builds, build ∈ usualBuildDirectories) {last : Text}
    (hfront : ∀ name ∈ names, IsName name) (hlast : IsName last) :
    (builds.any fun build =>
      fs.isFile (package / build / ((Written.splitSuffix (Text.joinWith "/" (names ++ [last]))).1 ++ ".js")).text) =
        true ↔ Mirrored fs base builds (names ++ [last]) := by
  have hnames : ∀ name ∈ names ++ [scriptName last], IsName name :=
    List.forall_mem_append.mpr ⟨hfront, List.forall_mem_singleton.mpr (isName_scriptName hlast)⟩
  have hsegments : ∀ name ∈ names ++ [scriptName last], Path.IsSegment name := fun name hname =>
    Path.isSegment_of_isName (hnames name hname)
  have hscript : (Written.splitSuffix (Text.joinWith "/" (names ++ [last]))).1 ++ Text.ofString ".js" =
      Text.joinWith "/" (names ++ [scriptName last]) := by
    rw [Written.splitSuffix_joinWith names hlast.2.2.2]
    exact Text.joinWith_concat_append names _ _
  have hpath : ∀ build ∈ builds, package / build / Text.joinWith "/" (names ++ [scriptName last]) =
      ⟨package.anchor, package.segments ++ (build :: (names ++ [scriptName last]))⟩ := by
    intro build hbuild
    rw [joinText_usual package (hbuilds build hbuild), Path.joinText_eq _ (Path.anchor_joinWith hsegments),
      Path.segments_joinWith hsegments, List.append_assoc]
    rfl
  have husual : ∀ build ∈ usualBuildDirectories, IsName build := by decide
  rw [List.any_eq_true, Mirrored, List.dropLast_concat, List.getLast?_concat, Option.getD_some, hscript]
  refine exists_congr fun build => and_congr_right fun hbuild => ?_
  have hbuildName : IsName build := husual build (hbuilds build hbuild)
  rw [hpath build hbuild, h.isFile_named_iff hnamed (List.forall_mem_cons.mpr ⟨hbuildName, hnames⟩), List.append_cons,
    ← List.append_assoc]

/-- The structure is kept if and only if there are source and build directories and all sampled files have a script at
the same place. -/
theorem keepsStructureOf_iff (hbuilds : ∀ build ∈ builds, build ∈ usualBuildDirectories)
    (hsources : ∀ source ∈ sources, CanExist source ∧ fs.entryAt? (base ++ [source]) = some .directory) :
    keepsStructureOf fs package sources builds = true ↔
      sources ≠ [] ∧ builds ≠ [] ∧ ∀ source ∈ sources, ∀ names ∈ sampled fs package source,
        Mirrored fs base builds names := by
  have hmirrored : ∀ source ∈ sources, ∀ names ∈ sampled fs package source,
      ((builds.any fun build =>
        fs.isFile (package / build / ((Written.splitSuffix (Text.joinWith "/" names)).1 ++ ".js")).text) = true ↔
        Mirrored fs base builds names) := by
    intro source hsource names hnames
    have hfile := isFileAt_of_mem_sampled h hnamed (hsources source hsource) hnames
    obtain rfl | ⟨front, last, rfl⟩ := List.eq_nil_or_concat' names
    · rw [List.append_nil] at hfile
      exact absurd hfile (not_isFileAt (hsources source hsource).2)
    · obtain ⟨content, hentry⟩ := hfile
      have hexist := (hnamed.below [source]) _ _ hentry
      exact any_isFile_iff h hnamed hbuilds (fun name hname => (hexist name (List.mem_append_left _ hname)).1)
        (hexist last (by simp)).1
  rw [keepsStructureOf, Bool.and_eq_true, Bool.and_eq_true, Bool.not_eq_true', List.isEmpty_eq_false_iff,
    Bool.not_eq_true', List.isEmpty_eq_false_iff, and_assoc, List.all_eq_true]
  refine and_congr_right fun _ => and_congr_right fun _ => forall₂_congr fun source hsource => ?_
  rw [List.all_eq_true]
  exact forall₂_congr (hmirrored source hsource)

lemma exists_layout_kept :
    ∃ layout, (detect fs package).result = .ok layout ∧ layout.buildDirectories = buildDirectoriesOf fs package ∧
      layout.sourceDirectories = sourceDirectoriesOf fs package ∧
      (layout.keepsStructure = true ↔ layout.sourceDirectories ≠ [] ∧ layout.buildDirectories ≠ [] ∧
        ∀ source ∈ layout.sourceDirectories, ∀ names ∈ sampled fs package source,
          Mirrored fs base layout.buildDirectories names) := by
  obtain ⟨layout, hdetected, hbuilds, hsources, hstructure, -⟩ := exists_layout fs package
  refine ⟨layout, hdetected, hbuilds, hsources, ?_⟩
  rw [hstructure, hbuilds, hsources]
  exact keepsStructureOf_iff h hnamed (fun build hbuild => (List.mem_filter.mp hbuild).1)
    fun source hsource => directory_of_source h hsource

/-- A layout is always detected, and by it the structure is kept if and only if all sampled files have a script at the
same place. Sampled files are files, and all files are sampled if in a source directory there are no more files and empty
directories than are looked at. So what is detected tells whether all sources have a script if and only if, where they
all have one, so has each sampled file that is no source, and where all sampled files have one, so has each source that
is not sampled. -/
theorem structure_kept_iff :
    ∃ layout, (detect fs package).result = .ok layout ∧ layout.buildDirectories = buildDirectoriesOf fs package ∧
      layout.sourceDirectories = sourceDirectoriesOf fs package ∧
      (layout.keepsStructure = true ↔ layout.sourceDirectories ≠ [] ∧ layout.buildDirectories ≠ [] ∧
        ∀ source ∈ layout.sourceDirectories, ∀ names ∈ sampled fs package source,
          Mirrored fs base layout.buildDirectories names) ∧
      (∀ source ∈ layout.sourceDirectories, ∀ names,
        (names ∈ sampled fs package source → fs.IsFileAt (base ++ [source] ++ names)) ∧
        (FewEnds fs (base ++ [source]) sampleSize → fs.IsFileAt (base ++ [source] ++ names) →
          names ∈ sampled fs package source)) ∧
      ((layout.keepsStructure = true ↔ SourcesMirrored fs base layout) ↔
        (SourcesMirrored fs base layout → ∀ source ∈ layout.sourceDirectories, ∀ names ∈ sampled fs package source,
          isSource names = false → Mirrored fs base layout.buildDirectories names) ∧
        (layout.keepsStructure = true → ∀ source ∈ layout.sourceDirectories, ∀ names,
          fs.IsFileAt (base ++ [source] ++ names) → isSource names = true → names ∉ sampled fs package source →
          Mirrored fs base layout.buildDirectories names)) := by
  obtain ⟨layout, hdetected, hbuilds, hsources, hkept⟩ := exists_layout_kept h hnamed
  have hdirectory : ∀ source ∈ layout.sourceDirectories,
      CanExist source ∧ fs.entryAt? (base ++ [source]) = some .directory := by
    rw [hsources]
    exact fun source hsource => directory_of_source h hsource
  have hfiles : ∀ source ∈ layout.sourceDirectories, ∀ names ∈ sampled fs package source,
      fs.IsFileAt (base ++ [source] ++ names) := fun source hsource names hmem =>
    isFileAt_of_mem_sampled h hnamed (hdirectory source hsource) hmem
  refine ⟨layout, hdetected, hbuilds, hsources, hkept, fun source hsource names => ⟨hfiles source hsource names,
    fun hfew => (mem_sampled_iff h hnamed (hdirectory source hsource) hfew).mpr⟩, ?_, ?_⟩
  · intro hright
    exact ⟨fun hmirrored source hsource names hmem _ => (hkept.mp (hright.mpr hmirrored)).2.2 source hsource names hmem,
      fun hkeeps source hsource names hfile hname _ => (hright.mp hkeeps).mirrored source hsource names hfile hname⟩
  -- sampled sources are asked for in both ways, so only the other sampled files and the other sources can differ
  · rintro ⟨hothers, hskipped⟩
    constructor
    · intro hkeeps
      obtain ⟨hsome, hbuilt, hsampled⟩ := hkept.mp hkeeps
      refine ⟨hsome, hbuilt, fun source hsource names hfile hname => ?_⟩
      by_cases hmem : names ∈ sampled fs package source
      · exact hsampled source hsource names hmem
      · exact hskipped hkeeps source hsource names hfile hname hmem
    · intro hmirrored
      refine hkept.mpr ⟨hmirrored.sources, hmirrored.builds, fun source hsource names hmem => ?_⟩
      cases hname : isSource names with
      | true => exact hmirrored.mirrored source hsource names (hfiles source hsource names hmem) hname
      | false => exact hothers hmirrored source hsource names hmem hname

end Tree

lemma mem_of_isFileAt {location : Location} (hfile : fs.IsFileAt location) :
    ∃ content, (location, Entry.file content) ∈ fs.entries := by
  obtain ⟨content, hentry⟩ := hfile
  have hne : location ≠ [] := by
    rintro rfl
    cases hentry
  exact ⟨content, FileSystem.mem_entries hne hentry⟩

/-- A package with a source and its script. -/
def scriptedPackage : FileSystem :=
  (((FileSystem.empty.put ["src"] .directory).put ["src", "index.ts"] (.file [])).put ["lib"] .directory).put
    ["lib", "index.js"] (.file [])

/-- The source has a script, and so the structure is kept. -/
theorem structure_kept_iff_scripted :
    ∃ layout, (detect scriptedPackage (Path.ofText ".")).result = .ok layout ∧
      SourcesMirrored scriptedPackage [] layout ∧ layout.keepsStructure = true := by
  have htree : scriptedPackage.LeadsToTree (Path.ofText ".") [] := FileSystem.leadsToTree_here rfl (by decide +kernel)
  have hnamed : scriptedPackage.NamedBelow [] := FileSystem.namedBelow_here (by decide +kernel)
  obtain ⟨layout, hdetected, hbuilds, hsources, -, hsampled, hright⟩ := structure_kept_iff htree hnamed
  have hsource : Text.ofString "src" ∈ sourceDirectoriesOf scriptedPackage (Path.ofText ".") :=
    (mem_directoriesWith htree (by decide)).mpr ⟨by decide, .inl ⟨"index.ts", [], by decide +kernel, by decide⟩⟩
  have hbuild : Text.ofString "lib" ∈ buildDirectoriesOf scriptedPackage (Path.ofText ".") :=
    (mem_directoriesWith htree (by decide)).mpr ⟨by decide, .inl ⟨"index.js", [], by decide +kernel, by decide⟩⟩
  rw [← hsources] at hsource
  rw [← hbuilds] at hbuild
  have hscript : ∀ source ∈ layout.sourceDirectories, ∀ names, scriptedPackage.IsFileAt ([] ++ [source] ++ names) →
      Mirrored scriptedPackage [] layout.buildDirectories names := by
    intro source hmem names hfile
    rw [hsources] at hmem
    have husual := (List.mem_filter.mp hmem).1
    have honly : ∀ entry ∈ scriptedPackage.entries, entry.2 = .directory ∨ entry.1 = ["src", "index.ts"] ∨
        ∀ source ∈ usualSourceDirectories, entry.1.head? ≠ some source := by decide +kernel
    obtain ⟨content, hentry⟩ := mem_of_isFileAt hfile
    rcases honly _ hentry with hdirectory | hplace | hother
    · cases hdirectory
    · obtain ⟨-, rfl⟩ := List.cons.inj hplace
      exact ⟨"lib", hbuild, [], by decide +kernel⟩
    · exact absurd rfl (hother source husual)
  have hmirrored : SourcesMirrored scriptedPackage [] layout :=
    ⟨List.ne_nil_of_mem hsource, List.ne_nil_of_mem hbuild, fun source hmem names hfile _ =>
      hscript source hmem names hfile⟩
  refine ⟨layout, hdetected, hmirrored, (hright.mpr ⟨fun _ source hmem names hnames _ => ?_,
    fun _ source hmem names hfile _ _ => hscript source hmem names hfile⟩).mpr hmirrored⟩
  exact hscript source hmem names ((hsampled source hmem names).1 hnames)

/-- A package with a source, a style sheet beside it, and the script of the source. -/
def styledPackage : FileSystem :=
  ((((FileSystem.empty.put ["src"] .directory).put ["src", "a.ts"] (.file [])).put ["src", "b.css"] (.file [])).put
    ["lib"] .directory).put ["lib", "a.js"] (.file [])

/-- A package with a source that has no script, behind five empty directories. -/
def roomyPackage : FileSystem :=
  ((((((((FileSystem.empty.put ["src"] .directory).put ["src", "a"] .directory).put ["src", "b"] .directory).put
    ["src", "c"] .directory).put ["src", "d"] .directory).put ["src", "e"] .directory).put
    ["src", "x.ts"] (.file [])).put ["lib"] .directory).put ["lib", "y.js"] (.file [])

lemma styled_not_kept :
    ∃ layout, (detect styledPackage (Path.ofText ".")).result = .ok layout ∧
      (∀ source ∈ layout.sourceDirectories, FewFiles styledPackage ([] ++ [source]) sampleSize) ∧
      SourcesMirrored styledPackage [] layout ∧ layout.keepsStructure = false := by
  have htree : styledPackage.LeadsToTree (Path.ofText ".") [] := FileSystem.leadsToTree_here rfl (by decide +kernel)
  have hnamed : styledPackage.NamedBelow [] := FileSystem.namedBelow_here (by decide +kernel)
  obtain ⟨layout, hdetected, hbuilds, hsources, hkept⟩ := exists_layout_kept htree hnamed
  have hsource : Text.ofString "src" ∈ sourceDirectoriesOf styledPackage (Path.ofText ".") :=
    (mem_directoriesWith htree (by decide)).mpr ⟨by decide, .inl ⟨"a.ts", [], by decide +kernel, by decide⟩⟩
  have hbuild : Text.ofString "lib" ∈ buildDirectoriesOf styledPackage (Path.ofText ".") :=
    (mem_directoriesWith htree (by decide)).mpr ⟨by decide, .inl ⟨"a.js", [], by decide +kernel, by decide⟩⟩
  rw [← hsources] at hsource
  rw [← hbuilds] at hbuild
  have hfew (source : Text) : FewEnds styledPackage ([] ++ [source]) sampleSize :=
    fewEnds_of_length (List.cons_ne_nil _ _) (by decide +kernel)
  refine ⟨layout, hdetected, fun source _ => (hfew source).fewFiles,
    ⟨List.ne_nil_of_mem hsource, List.ne_nil_of_mem hbuild, fun source hmem names hfile hname => ?_⟩, ?_⟩
  · rw [hsources] at hmem
    have honly : ∀ entry ∈ styledPackage.entries, entry.2 = .directory ∨ entry.1 = ["src", "a.ts"] ∨
        isSource entry.1.tail = false ∨ ∀ source ∈ usualSourceDirectories, entry.1.head? ≠ some source := by
      decide +kernel
    obtain ⟨content, hentry⟩ := mem_of_isFileAt hfile
    rcases honly _ hentry with hdirectory | hplace | hother | hother
    · cases hdirectory
    · obtain ⟨-, rfl⟩ := List.cons.inj hplace
      exact ⟨"lib", hbuild, [], by decide +kernel⟩
    · exact absurd hname (Bool.eq_false_iff.mp hother)
    · exact absurd rfl (hother source (List.mem_filter.mp hmem).1)
  · refine Bool.eq_false_iff.mpr fun hkeeps => ?_
    have hsheet : [Text.ofString "b.css"] ∈ sampled styledPackage (Path.ofText ".") "src" :=
      (mem_sampled_iff htree hnamed ⟨by decide, by decide +kernel⟩ (hfew "src")).mpr ⟨[], by decide +kernel⟩
    obtain ⟨build, -, hscript⟩ := (hkept.mp hkeeps).2.2 "src" hsource _ hsheet
    have hnone : ∀ entry ∈ styledPackage.entries, entry.1.tail ≠ [scriptName "b.css"] := by decide +kernel
    obtain ⟨content, hentry⟩ := mem_of_isFileAt hscript
    exact hnone _ hentry rfl

/-- The directories without files use up the sample of the sources, so that the script beside them is not in it. -/
lemma sampled_roomyPackage : sampled roomyPackage (Path.ofText ".") "src" = [] := by
  have htree : roomyPackage.LeadsToTree (Path.ofText ".") [] := FileSystem.leadsToTree_here rfl (by decide +kernel)
  have hnamed : roomyPackage.NamedBelow [] := FileSystem.namedBelow_here (by decide +kernel)
  have hsource : ∀ name ∈ [Text.ofString "src"], FileSystem.CanExist name := by decide
  have htop := htree.below hsource (by decide +kernel)
  have hlisted : roomyPackage.entries.keys.filterMap (FileSystem.nameIn? ["src"]) =
      [Text.ofString "a", "b", "c", "d", "e", "x.ts"] := by decide +kernel
  have hsorted : Text.sort [Text.ofString "a", "b", "c", "d", "e", "x.ts"] =
      [Text.ofString "a", "b", "c", "d", "e", "x.ts"] := List.mergeSort_of_pairwise (by decide)
  have hlist : roomyPackage.list (((Path.ofText ".").child "src").join ⟨.relative, []⟩).text =
      [Text.ofString "a", "b", "c", "d", "e", "x.ts"] :=
    (FileSystem.list_of_find htop.found).trans ((congrArg Text.sort hlisted).trans hsorted)
  have hempty : ∀ name ∈ [Text.ofString "a", "b", "c", "d", "e"],
      roomyPackage.entryAt? [Text.ofString "src", name] = some .directory ∧
        ∀ location ∈ roomyPackage.entries.keys, location.dropLast ≠ [Text.ofString "src", name] := by decide +kernel
  refine sample_of_empties htop (hnamed.below ["src"]) fun name hname => ?_
  rw [hlist] at hname
  obtain ⟨hthere, hnone⟩ := hempty name hname
  refine ⟨hthere, fun other => Option.eq_none_iff_forall_ne_some.mpr fun found hfound => ?_⟩
  exact hnone _ ((FileSystem.exists_entry_iff (List.cons_ne_nil _ _)).mp ⟨found, hfound⟩) rfl

lemma roomy_kept :
    ∃ layout, (detect roomyPackage (Path.ofText ".")).result = .ok layout ∧
      (∀ source ∈ layout.sourceDirectories, FewFiles roomyPackage ([] ++ [source]) sampleSize) ∧
      ¬SourcesMirrored roomyPackage [] layout ∧ layout.keepsStructure = true := by
  have htree : roomyPackage.LeadsToTree (Path.ofText ".") [] := FileSystem.leadsToTree_here rfl (by decide +kernel)
  have hnamed : roomyPackage.NamedBelow [] := FileSystem.namedBelow_here (by decide +kernel)
  obtain ⟨layout, hdetected, hbuilds, hsources, hkept⟩ := exists_layout_kept htree hnamed
  have hsource : Text.ofString "src" ∈ sourceDirectoriesOf roomyPackage (Path.ofText ".") :=
    (mem_directoriesWith htree (by decide)).mpr ⟨by decide, .inl ⟨"x.ts", [], by decide +kernel, by decide⟩⟩
  have hbuild : Text.ofString "lib" ∈ buildDirectoriesOf roomyPackage (Path.ofText ".") :=
    (mem_directoriesWith htree (by decide)).mpr ⟨by decide, .inl ⟨"y.js", [], by decide +kernel, by decide⟩⟩
  rw [← hsources] at hsource
  rw [← hbuilds] at hbuild
  refine ⟨layout, hdetected, fun source _ rows hnodup hfiles => ?_, fun hmirrored => ?_,
    hkept.mpr ⟨List.ne_nil_of_mem hsource, List.ne_nil_of_mem hbuild, fun source hmem names hnames => ?_⟩⟩
  · have hplaces : ∀ entry ∈ roomyPackage.entries,
        entry.2 = .directory ∨ entry.1 ∈ [[Text.ofString "src", "x.ts"], ["lib", "y.js"]] := by decide +kernel
    have hrows : ∀ names ∈ rows, [] ++ [source] ++ names ∈ [[Text.ofString "src", "x.ts"], ["lib", "y.js"]] := by
      intro names hmem
      obtain ⟨content, hentry⟩ := mem_of_isFileAt (hfiles names hmem)
      exact (hplaces _ hentry).resolve_left (by simp)
    exact (length_le_of_places hnodup hrows).trans (by decide)
  · obtain ⟨build, -, hscript⟩ := hmirrored.mirrored "src" hsource ["x.ts"] ⟨[], by decide +kernel⟩ (by decide)
    have hnone : ∀ entry ∈ roomyPackage.entries, entry.1.tail ≠ [scriptName "x.ts"] := by decide +kernel
    obtain ⟨content, hentry⟩ := mem_of_isFileAt hscript
    exact hnone _ hentry rfl
  · rw [hsources] at hmem
    obtain ⟨hexists, hdirectory⟩ := directory_of_source htree hmem
    have honly : ∀ source ∈ usualSourceDirectories, [source] ∈ roomyPackage.entries.keys → source = "src" := by
      decide +kernel
    obtain rfl := honly source (List.mem_filter.mp hmem).1
      ((FileSystem.exists_entry_iff (List.cons_ne_nil _ _)).mp ⟨_, hdirectory⟩)
    rw [sampled_roomyPackage] at hnames
    cases hnames

/-- A style sheet beside the sources makes the structure count as not kept, though all sources have a script. Empty
directories in front of a source make it count as kept, though the source has none. -/
theorem structure_by_samples :
    (styledPackage.LeadsToTree (Path.ofText ".") [] ∧ styledPackage.NamedBelow [] ∧
      ∃ layout, (detect styledPackage (Path.ofText ".")).result = .ok layout ∧
        (∀ source ∈ layout.sourceDirectories, FewFiles styledPackage ([] ++ [source]) sampleSize) ∧
        SourcesMirrored styledPackage [] layout ∧ layout.keepsStructure = false) ∧
    (roomyPackage.LeadsToTree (Path.ofText ".") [] ∧ roomyPackage.NamedBelow [] ∧
      ∃ layout, (detect roomyPackage (Path.ofText ".")).result = .ok layout ∧
        (∀ source ∈ layout.sourceDirectories, FewFiles roomyPackage ([] ++ [source]) sampleSize) ∧
        ¬SourcesMirrored roomyPackage [] layout ∧ layout.keepsStructure = true) :=
  ⟨⟨FileSystem.leadsToTree_here rfl (by decide +kernel), FileSystem.namedBelow_here (by decide +kernel),
    styled_not_kept⟩, FileSystem.leadsToTree_here rfl (by decide +kernel),
    FileSystem.namedBelow_here (by decide +kernel), roomy_kept⟩

end BuildLayout

end PackageExports
