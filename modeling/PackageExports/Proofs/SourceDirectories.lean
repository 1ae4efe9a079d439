import PackageExports.Proofs.CanonicalExports
import PackageExports.Proofs.FoundFiles

/-!
# Where sources are looked for

The source of a compiled file is looked for below the source directories, under the path of the file without its build
directory. A file found in a build directory and a file that is taken to be in one have their sources looked for by the
build directories of the settings. The entries of a manifest, the files that browsers replace and the paths of a package
that is built twice have theirs looked for by the usual build directories, whatever the settings are. Both are the same
for a path whose first segment is a build directory for either of them or for neither.

Main results: `SourceFile.cutAlike_iff`, `Assembly.sources_by_directories`.
-/

namespace PackageExports

namespace SourceFile

variable {fs : FileSystem} {package : Path} {target path : Text} {sources builds others : List Text}

/-- The path of a compiled file below its build directory, without extension. -/
def cutStem (builds : List Text) (target : Text) : Text :=
  dropBuildDirectory builds (Relative.bare (Relative.dropCompiled (Relative.dotted target)))

/-- Whether the same is cut from the path of a compiled file for either of two lists of build directories. -/
def CutAlike (builds others : List Text) (target : Text) : Prop :=
  cutStem builds target = cutStem others target

instance (builds others : List Text) (target : Text) : Decidable (CutAlike builds others target) :=
  inferInstanceAs (Decidable (_ = _))

def firstOf (fs : FileSystem) (package : Path) (sources builds : List Text) :
    List Text → Except Failure (Option Text)
  | [] => .ok none
  | target :: rest => do
    match ← find? fs package target sources builds with
    | some source => return some source
    | none => firstOf fs package sources builds rest

lemma CutAlike.refl (builds : List Text) (target : Text) : CutAlike builds builds target := rfl

lemma CutAlike.find?_eq (h : CutAlike builds others target) (fs : FileSystem) (package : Path) (sources : List Text) :
    find? fs package target sources builds = find? fs package target sources others := by
  have hcut : dropBuildDirectory builds (Relative.bare (Relative.dropCompiled (Relative.dotted target))) =
      dropBuildDirectory others (Relative.bare (Relative.dropCompiled (Relative.dotted target))) := h
  rw [find?, find?, candidates, candidates, hcut]

lemma firstOf_eq {targets : List Text} (h : ∀ target ∈ targets, CutAlike builds others target) (fs : FileSystem)
    (package : Path) (sources : List Text) :
    firstOf fs package sources builds targets = firstOf fs package sources others targets := by
  induction targets with
  | nil => rfl
  | cons target rest ih =>
    obtain ⟨htarget, hrest⟩ := List.forall_mem_cons.mp h
    rw [firstOf, firstOf, htarget.find?_eq, ih hrest]

lemma find?_bare (fs : FileSystem) (package : Path) (path : Text) (sources builds : List Text) :
    find? fs package ("./" ++ Relative.bare path) sources builds = find? fs package path sources builds := by
  have hdotted : Relative.dotted ("./" ++ Relative.bare path) = Relative.dotted path := by
    rw [← Relative.dotted_eq]
    exact if_pos (Relative.startsWith_dotted path)
  rw [find?, find?, candidates, candidates, hdotted]

/-! ### What is cut -/

lemma dropBuildDirectory_of_notMem (hpath : CodePoint.ofChar '/' ∉ path) (builds : List Text) :
    dropBuildDirectory builds path = path := by
  have hnone : builds.findSome? (fun directory => Text.dropStart? (directory ++ "/") path) = none := by
    rw [List.findSome?_eq_none_iff]
    intro directory _
    rw [Option.eq_none_iff_forall_ne_some]
    intro rest hrest
    rw [Text.dropStart?_eq_some] at hrest
    exact hpath (hrest ▸ List.mem_append_left _ (List.mem_append_right _ List.mem_cons_self))
  rw [dropBuildDirectory, hnone, Option.getD_none]

/-- Only the directory that is the first segment of a path is cut from it. -/
lemma dropBuildDirectory_slash (hbuilds : ∀ directory ∈ builds, CodePoint.ofChar '/' ∉ directory) {head : Text}
    (hhead : CodePoint.ofChar '/' ∉ head) (rest : Text) :
    dropBuildDirectory builds (head ++ "/" ++ rest) = if head ∈ builds then rest else head ++ "/" ++ rest := by
  have hcut {directory cut : Text} (hdirectory : directory ∈ builds)
      (h : Text.dropStart? (directory ++ "/") (head ++ "/" ++ rest) = some cut) : directory = head ∧ cut = rest := by
    rw [Text.dropStart?_eq_some] at h
    have hpieces := congrArg (Text.splitOn '/') h
    have hslash (a b : Text) : a ++ "/" ++ b = a ++ CodePoint.ofChar '/' :: b := by rw [List.append_assoc]; rfl
    rw [hslash, hslash, Text.splitOn_append, Text.splitOn_append, Text.splitOn_of_notMem hhead,
      Text.splitOn_of_notMem (hbuilds directory hdirectory)] at hpieces
    obtain ⟨rfl, -⟩ := List.cons.inj hpieces
    exact ⟨rfl, (List.append_cancel_left h).symm⟩
  split_ifs with hmem
  · have hsome : (builds.findSome? fun directory =>
        Text.dropStart? (directory ++ "/") (head ++ "/" ++ rest)).isSome = true := by
      rw [List.findSome?_isSome_iff]
      exact ⟨head, hmem, by rw [Text.dropStart?_eq_some.mpr rfl]; rfl⟩
    obtain ⟨cut, hfound⟩ := Option.isSome_iff_exists.mp hsome
    obtain ⟨directory, hdirectory, hdrop⟩ := List.exists_of_findSome?_eq_some hfound
    rw [dropBuildDirectory, hfound, Option.getD_some, (hcut hdirectory hdrop).2]
  · have hnone : builds.findSome? (fun directory =>
        Text.dropStart? (directory ++ "/") (head ++ "/" ++ rest)) = none := by
      rw [List.findSome?_eq_none_iff]
      intro directory hdirectory
      rw [Option.eq_none_iff_forall_ne_some]
      intro cut hdrop
      exact hmem ((hcut hdirectory hdrop).1 ▸ hdirectory)
    rw [dropBuildDirectory, hnone, Option.getD_none]

/-- Nothing is cut from a path of one segment. -/
lemma cutAlike_of_notMem
    (hstem : CodePoint.ofChar '/' ∉ Relative.bare (Relative.dropCompiled (Relative.dotted target))) :
    CutAlike builds others target := by
  rw [CutAlike, cutStem, cutStem, dropBuildDirectory_of_notMem hstem, dropBuildDirectory_of_notMem hstem]

/-- The same is cut from a path if its first segment is a build directory for both lists or for neither. -/
lemma cutAlike_iff (hbuilds : ∀ directory ∈ builds, CodePoint.ofChar '/' ∉ directory)
    (hothers : ∀ directory ∈ others, CodePoint.ofChar '/' ∉ directory) {head rest : Text}
    (hhead : CodePoint.ofChar '/' ∉ head)
    (hstem : Relative.bare (Relative.dropCompiled (Relative.dotted target)) = head ++ "/" ++ rest) :
    CutAlike builds others target ↔ (head ∈ builds ↔ head ∈ others) := by
  have hne : rest ≠ head ++ "/" ++ rest := by
    intro heq
    have hlength := congrArg List.length heq
    simp only [List.length_append] at hlength
    have hslash : (Text.ofString "/").length = 1 := rfl
    omega
  rw [CutAlike, cutStem, cutStem, hstem, dropBuildDirectory_slash hbuilds hhead, dropBuildDirectory_slash hothers hhead]
  by_cases hb : head ∈ builds <;> by_cases ho : head ∈ others
  · simp only [hb, ho]
  · simp only [hb, ho, if_true, if_false, hne, iff_false, not_true]
  · simp only [hb, ho, if_true, if_false, hne.symm, iff_true]
  · simp only [hb, ho]

end SourceFile

/-- The source that an export names. -/
def Json.sourceTarget? : Json → Option Text
  | .object members =>
    match Keyed.get? (Text.ofString "source") members with
    | some (.string target) => some target
    | _ => none
  | _ => none

namespace Conditions

variable {cs : Conditions}

lemma sourceTarget?_toExport (h : ∀ target ∈ cs.source, Relative.IsDotted target) :
    cs.toExport.sourceTarget? = cs.source := by
  have htarget : cs.target? .source = cs.source := by
    cases hsource : cs.source with
    | none => rw [target?, hsource, Option.filter_none]
    | some source =>
      have hne := (h source hsource).ne_nil
      rw [target?, hsource, Option.filter_some, if_pos (by simpa using hne)]
  have hget := get?_members cs .source
  rw [htarget] at hget
  unfold toExport
  split
  · rename_i other hsingle
    rw [hsingle] at hget
    cases hsource : cs.source with
    | none => rfl
    | some source =>
      rw [hsource] at hget
      cases hget
  · rw [toJson_eq, Json.sourceTarget?]
    have hread := congrArg (fun found : Option Json => match found with | some (.string t) => some t | _ => none) hget
    refine hread.trans ?_
    cases cs.source <;> rfl

end Conditions

open SourceFile (CutAlike firstOf find?)

namespace Baseline

variable {fs : FileSystem} {package : Path} {m : Manifest} {sources : List Text} {cs : Conditions}

/-- The entries of a manifest that are compiled files, in the order in which their sources are looked for. -/
def entries (m : Manifest) : List Text :=
  (BrowserTargets.entryPath m.main).toList ++ (BrowserTargets.entryPath m.module).toList

lemma sourceOfFirst_eq (targets : List Text) :
    sourceOfFirst fs package sources targets =
      firstOf fs package sources ({} : Settings).buildDirectories targets := by
  induction targets with
  | nil => rfl
  | cons target rest ih =>
    rw [sourceOfFirst, ih]
    rfl

lemma sourceTarget?_rootExport (h : cs.Dotted) : (rootExport cs).sourceTarget? = cs.source := by
  unfold rootExport
  split_ifs with hempty
  · rw [Conditions.isEmpty, List.isEmpty_iff] at hempty
    rw [← Conditions.sourceTarget?_toExport h.source, Conditions.toExport, hempty, Conditions.toJson_eq, hempty]
    rfl
  · exact Conditions.sourceTarget?_toExport h.source

lemma IsRoot.firstOf_eq {replacement : Option Text} (h : IsRoot fs package m sources replacement cs)
    (hnamed : namedSource? fs package m = none) :
    firstOf fs package sources ({} : Settings).buildDirectories (entries m) = .ok cs.source := by
  rw [← sourceOfFirst_eq]
  exact h.source hnamed

lemma source_replaced {found : Exports} (h : exports fs package m sources = .ok found) :
    ∀ entry ∈ found, entry.1 ≠ "." →
      find? fs package entry.1 sources ({} : Settings).buildDirectories = .ok entry.2.sourceTarget? := by
  intro entry hentry hne
  cases follows_of_exports h entry hentry with
  | root => exact absurd rfl hne
  | replaced _ hreplaced =>
    obtain ⟨source, hsource, rfl⟩ := replaced_eq_ok.mp hreplaced
    rw [Conditions.sourceTarget?_toExport]
    · exact hsource
    · rintro target rfl
      exact SourceFile.isDotted_find? hsource

end Baseline

namespace EntryRequest

variable {fs : FileSystem} {r : EntryRequest} {cs : Conditions}

lemma source_expansion (h : expansion fs r = .ok (some cs)) :
    find? fs r.package r.path r.sourceDirectories ({} : Settings).buildDirectories = .ok cs.source := by
  rw [expansion] at h
  cases hpattern : r.pattern with
  | single =>
    rw [hpattern] at h
    cases h
  | dual kind cjs esm =>
    rw [hpattern] at h
    obtain ⟨-, cjsFile, esmFile, ownFile, file, source, -, -, -, -, hsource, rfl⟩ := Expansion.expand_eq_some.mp h
    rw [SourceFile.find?_bare] at hsource
    exact hsource

lemma source_exactMatch (h : exactMatch fs r = .ok (some cs)) :
    ∃ target, cs.otherwise = some target ∧
      find? fs r.package target r.sourceDirectories r.buildDirectories = .ok cs.source := by
  obtain ⟨root, -, file, -, hbuilt⟩ := exactMatchIn_eq_some h
  obtain ⟨source, hsource, hcs⟩ := bind_ok_iff.mp hbuilt
  obtain rfl := Except.ok.inj hcs
  exact ⟨_, rfl, hsource⟩

lemma source_assumption (h : (assumption fs r).result = .ok cs) :
    ∃ target, cs.otherwise = some target ∧
      find? fs r.package target r.sourceDirectories r.buildDirectories = .ok cs.source := by
  obtain ⟨source, hsource, rfl⟩ := assumption_eq_ok.mp h
  exact ⟨_, rfl, hsource⟩

end EntryRequest

lemma Conditions.sourceTarget?_of_find? {fs : FileSystem} {package : Path} {target : Text} {sources builds : List Text}
    {cs : Conditions} (h : find? fs package target sources builds = .ok cs.source) :
    find? fs package target sources builds = .ok cs.toExport.sourceTarget? := by
  rw [sourceTarget?_toExport]
  · exact h
  · intro source hsource
    rw [Option.mem_def.mp hsource] at h
    exact SourceFile.isDotted_find? h

namespace Assembly

/-- The sources in the exports of a package that names none are the ones found by any list of build directories that
cuts from a path what the usual one does: for the package itself with the entries of its manifest, for the files that
browsers replace, and for the paths of a package that is built twice. For a path that is found in a build directory, or
is taken to be in one, the source is the one found by the build directories of the settings, whatever they are. -/
theorem sources_by_directories (fs : FileSystem) (a : Assembly) :
    (∀ start, a.manifest.exports = none → a.start fs = .ok start →
      ∃ root replacements, start = (Text.ofString ".", root) :: replacements ∧
        Keyed.keys replacements =
          (BrowserTargets.ofField a.manifest.browser a.manifest.main a.manifest.module).files.keys ∧
        (∀ builds, Baseline.namedSource? fs a.package a.manifest = none →
          (∀ entry ∈ Baseline.entries a.manifest, CutAlike builds ({} : Settings).buildDirectories entry) →
          firstOf fs a.package a.settings.sourceDirectories builds (Baseline.entries a.manifest) =
            .ok root.sourceTarget?) ∧
        ∀ builds file value, (file, value) ∈ replacements → CutAlike builds ({} : Settings).buildDirectories file →
          find? fs a.package file a.settings.sourceDirectories builds = .ok value.sourceTarget?) ∧
    (∀ builds path cs, (a.request path).expansion fs = .ok (some cs) →
      CutAlike builds ({} : Settings).buildDirectories path →
        find? fs a.package path a.settings.sourceDirectories builds = .ok cs.toExport.sourceTarget?) ∧
    ∀ path cs, (a.request path).exactMatch fs = .ok (some cs) ∨ ((a.request path).assumption fs).result = .ok cs →
      ∃ target, cs.otherwise = some target ∧
        find? fs a.package target a.settings.sourceDirectories a.settings.buildDirectories =
          .ok cs.toExport.sourceTarget? := by
  refine ⟨?_, ?_, ?_⟩
  · intro start hnone hstart
    rw [Assembly.start, hnone] at hstart
    obtain ⟨conditions, replacements, hroot, rfl, hkeys⟩ := Baseline.exports_ok hstart
    have htargets := BrowserTargets.replaces_ofField a.manifest.browser a.manifest.main a.manifest.module
    have hroot := Baseline.isRoot_of_root hroot
    refine ⟨_, replacements, rfl, hkeys, ?_, ?_⟩
    · intro builds hnamed hcut
      rw [SourceFile.firstOf_eq hcut, Baseline.sourceTarget?_rootExport (hroot.dotted htargets.root)]
      exact hroot.firstOf_eq hnamed
    · intro builds file value hmem hcut
      rw [hcut.find?_eq]
      refine Baseline.source_replaced hstart (file, value) (List.mem_cons_of_mem _ hmem) ?_
      rintro rfl
      have hkey : Text.ofString "." ∈ Keyed.keys replacements := List.mem_map_of_mem hmem
      rw [hkeys] at hkey
      have hdot : Text.startsWith (Text.ofString ".") "./" = true :=
        (BrowserTargets.dotted_ofField a.manifest.browser a.manifest.main a.manifest.module).dotted _ hkey
      exact absurd hdot (by decide)
  · intro builds path cs h hcut
    rw [hcut.find?_eq]
    exact Conditions.sourceTarget?_of_find? (EntryRequest.source_expansion h)
  · intro path cs h
    obtain ⟨target, htarget, hsource⟩ := h.elim EntryRequest.source_exactMatch EntryRequest.source_assumption
    exact ⟨target, htarget, Conditions.sourceTarget?_of_find? hsource⟩

/-- A package that is built twice below one directory, which the settings name; browsers leave out one of its files. -/
def builtBelow (directory : Text) : Assembly where
  package := Path.ofText "."
  manifest := {
    main := some ("./" ++ directory ++ "/cjs/index.js")
    module := some ("./" ++ directory ++ "/esm/index.js")
    browser := some (.table [("./" ++ directory ++ "/dom.js", none)]) }
  usage := { package := "p", importPaths := [] }
  settings := { buildDirectories := [directory] }

def filesBelow (directory : Text) : FileSystem :=
  (((((((((FileSystem.empty.put ["src"] .directory).put ["src", "cjs"] .directory).put ["src", "cjs", "index.ts"]
    (.file [])).put ["src", "dom.ts"] (.file [])).put ["src", "utils.ts"] (.file [])).put [directory] .directory).put
    [directory, "cjs"] .directory).put [directory, "esm"] .directory).put [directory, "cjs", "utils.js"]
    (.file [])).put [directory, "esm", "utils.js"] (.file [])

/-- A package that is built in one of the usual directories has all its sources named. -/
theorem sources_by_directories_lib :
    ∃ root value cs,
      (builtBelow "lib").start (filesBelow "lib") = .ok [(Text.ofString ".", root), ("./lib/dom.js", value)] ∧
      ((builtBelow "lib").request "./lib/utils").expansion (filesBelow "lib") = .ok (some cs) ∧
      firstOf (filesBelow "lib") (Path.ofText ".") ["src", "source"] ["lib"]
        [Text.ofString "./lib/cjs/index.js", "./lib/esm/index.js"] = .ok root.sourceTarget? ∧
      find? (filesBelow "lib") (Path.ofText ".") "./lib/dom.js" ["src", "source"] ["lib"] = .ok value.sourceTarget? ∧
      find? (filesBelow "lib") (Path.ofText ".") "./lib/utils" ["src", "source"] ["lib"] =
        .ok cs.toExport.sourceTarget? ∧
      root.sourceTarget? = some "./src/cjs/index.ts" := by
  have hstarts : ((builtBelow "lib").start (filesBelow "lib")).toOption.map
      (fun start => start.map fun entry => (entry.1, entry.2.sourceTarget?)) =
        some [(Text.ofString ".", some (Text.ofString "./src/cjs/index.ts")),
          ("./lib/dom.js", some "./src/dom.ts")] := by decide +kernel
  have hexpands : (((builtBelow "lib").request "./lib/utils").expansion (filesBelow "lib")).toOption.map
      Option.isSome = some true := by decide +kernel
  obtain ⟨start, hstart, hsources⟩ := Option.map_eq_some_iff.mp hstarts
  obtain ⟨expanded, hexpand, hsome⟩ := Option.map_eq_some_iff.mp hexpands
  obtain ⟨cs, rfl⟩ := Option.isSome_iff_exists.mp hsome
  obtain ⟨hmanifest, hexpansion, -⟩ := sources_by_directories (filesBelow "lib") (builtBelow "lib")
  obtain ⟨root, replacements, rfl, hkeys, hroot, hfiles⟩ := hmanifest start rfl (ok_of_toOption hstart)
  obtain ⟨hfirst, hrest⟩ := List.cons.inj hsources
  obtain ⟨⟨file, value⟩, rfl, hfile⟩ := List.map_eq_singleton_iff.mp hrest
  obtain ⟨rfl, -⟩ := Prod.mk.inj hfile
  exact ⟨root, value, cs, ok_of_toOption hstart, ok_of_toOption hexpand, hroot ["lib"] (by decide +kernel) (by decide),
    hfiles ["lib"] _ _ List.mem_cons_self (by decide), hexpansion ["lib"] _ cs (ok_of_toOption hexpand) (by decide),
    (Prod.mk.inj hfirst).2⟩

/-- A package that is built in another directory has none of these sources named, though the directory is in the
settings and they are found by it. -/
theorem sources_unnamed_of_directory :
    ∃ root value cs,
      (builtBelow "custom").start (filesBelow "custom") = .ok [(Text.ofString ".", root), ("./custom/dom.js", value)] ∧
      ((builtBelow "custom").request "./custom/utils").expansion (filesBelow "custom") = .ok (some cs) ∧
      (firstOf (filesBelow "custom") (Path.ofText ".") ["src", "source"] ["custom"]
        [Text.ofString "./custom/cjs/index.js", "./custom/esm/index.js"] = .ok (some "./src/cjs/index.ts") ∧
        root.sourceTarget? = none) ∧
      (find? (filesBelow "custom") (Path.ofText ".") "./custom/dom.js" ["src", "source"] ["custom"] =
        .ok (some "./src/dom.ts") ∧ value.sourceTarget? = none) ∧
      (find? (filesBelow "custom") (Path.ofText ".") "./custom/utils" ["src", "source"] ["custom"] =
        .ok (some "./src/utils.ts") ∧ cs.toExport.sourceTarget? = none) := by
  have hstarts : ((builtBelow "custom").start (filesBelow "custom")).toOption.map
      (fun start => start.map fun entry => (entry.1, entry.2.sourceTarget?)) =
        some [(Text.ofString ".", none), ("./custom/dom.js", none)] := by decide +kernel
  have hexpands : (((builtBelow "custom").request "./custom/utils").expansion (filesBelow "custom")).toOption.map
      (Option.map fun cs => cs.toExport.sourceTarget?) = some (some none) := by decide +kernel
  obtain ⟨start, hstart, hsources⟩ := Option.map_eq_some_iff.mp hstarts
  obtain ⟨expanded, hexpand, hsource⟩ := Option.map_eq_some_iff.mp hexpands
  obtain ⟨cs, rfl, hnone⟩ := Option.map_eq_some_iff.mp hsource
  obtain ⟨⟨key, root⟩, rest, rfl, hroot, hrest⟩ := List.map_eq_cons_iff.mp hsources
  obtain ⟨⟨file, value⟩, rfl, hfile⟩ := List.map_eq_singleton_iff.mp hrest
  obtain ⟨rfl, hroot⟩ := Prod.mk.inj hroot
  obtain ⟨rfl, hfile⟩ := Prod.mk.inj hfile
  exact ⟨root, value, cs, ok_of_toOption hstart, ok_of_toOption hexpand,
    ⟨ok_of_toOption (by decide +kernel), hroot⟩, ⟨ok_of_toOption (by decide +kernel), hfile⟩,
    ⟨ok_of_toOption (by decide +kernel), hnone⟩⟩

end Assembly

end PackageExports
