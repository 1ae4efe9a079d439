import PackageExports.Proofs.ExportsMap
import PackageExports.Proofs.TextLists

/-!
# What is added to the exports

Without a batch, the exports of a package are those that were there, as they were, and after them one for each
recorded path that had none. The export of the package itself that follows from a manifest stays: a file that browsers
replace is written with `./` in front, and a recorded path that has an export is not pending.

Main results: `Baseline.follows_of_exports`, `Baseline.exports_ok`, `Assembly.extend_eq_ok`, `Assembly.exports_keep_start`.
-/

namespace PackageExports

lemma Relative.startsWith_dotted (path : Text) : Text.startsWith (dotted path) "./" = true := by
  unfold dotted
  split_ifs with h
  · exact h
  · exact List.isPrefixOf_iff_prefix.mpr (List.prefix_append _ _)

namespace BrowserTargets

/-- The files that browsers replace are different ones, each with `./` in front. -/
structure Dotted (found : BrowserTargets) : Prop where
  nodup : found.files.keys.Nodup
  dotted : ∀ file ∈ found.files.keys, Text.startsWith file "./" = true

lemma Dotted.step {main module : Option Text} {found : BrowserTargets} (h : found.Dotted) {entry : Text × Option Text}
    (hentry : Text.startsWith entry.1 "./" = true) : (step main module found entry).Dotted := by
  obtain ⟨path, target⟩ := entry
  unfold BrowserTargets.step
  dsimp only at hentry ⊢
  split_ifs
  · exact h
  · exact ⟨h.nodup, h.dotted⟩
  · refine ⟨Keyed.nodup_keys_insert path target h.nodup, fun file hfile => ?_⟩
    rcases Keyed.mem_keys_insert.mp hfile with rfl | hfile
    · exact hentry
    · exact h.dotted file hfile

lemma Dotted.foldl {main module : Option Text} {entries : List (Text × Option Text)}
    (hentries : ∀ entry ∈ entries, Text.startsWith entry.1 "./" = true) {found : BrowserTargets} (h : found.Dotted) :
    (entries.foldl (BrowserTargets.step main module) found).Dotted := by
  induction entries generalizing found with
  | nil => exact h
  | cons entry rest ih =>
    obtain ⟨hentry, hrest⟩ := List.forall_mem_cons.mp hentries
    exact ih hrest (h.step hentry)

lemma dotted_ofField (field : Option BrowserField) (main module : Option Text) :
    (ofField field main module).Dotted := by
  have hnone (root : Option Text) : Dotted { root } := ⟨List.nodup_nil, fun _ h => absurd h List.not_mem_nil⟩
  rcases field with _ | (target | targets)
  · exact hnone none
  · exact hnone _
  · apply Dotted.foldl _ (hnone _)
    intro entry hentry
    obtain ⟨p, -, rfl⟩ := List.mem_map.mp hentry
    exact Relative.startsWith_dotted p.1

end BrowserTargets

namespace Baseline

variable {fs : FileSystem} {package : Path} {m : Manifest} {sources : List Text}

def rootExport (conditions : Conditions) : Json :=
  if conditions.isEmpty then usualRoot else conditions.toExport

lemma foldlM_replaced {files : Keyed Text (Option Text)} {start found : Exports} (hnodup : files.keys.Nodup)
    (hnew : ∀ file ∈ files.keys, file ∉ start.keys)
    (h : files.foldlM (fun found (p : Text × Option Text) => do
      let conditions ← replaced fs package sources p.1 p.2
      return Keyed.insert p.1 conditions.toExport found) start = .ok found) :
    ∃ replacements, found = start ++ replacements ∧ Keyed.keys replacements = files.keys := by
  induction files generalizing start with
  | nil =>
    obtain rfl := Except.ok.inj h
    exact ⟨[], (List.append_nil _).symm, rfl⟩
  | cons file rest ih =>
    obtain ⟨hfile, hrest⟩ := List.nodup_cons.mp hnodup
    obtain ⟨hfirst, hothers⟩ := List.forall_mem_cons.mp hnew
    rw [List.foldlM_cons] at h
    obtain ⟨next, hnext, h⟩ := bind_ok_iff.mp h
    obtain ⟨cs, -, hinserted⟩ := bind_ok_iff.mp hnext
    obtain rfl := Except.ok.inj hinserted
    have hinsert := Keyed.insert_of_notMem cs.toExport hfirst
    have hlater : ∀ other ∈ Keyed.keys rest, other ∉ Keyed.keys (Keyed.insert file.1 cs.toExport start) := by
      intro other hother hmem
      rcases Keyed.mem_keys_insert.mp hmem with rfl | hmem
      · exact hfile hother
      · exact hothers other hother hmem
    obtain ⟨replacements, rfl, hkeys⟩ := ih hrest hlater h
    refine ⟨(file.1, cs.toExport) :: replacements, ?_, congrArg (file.1 :: ·) hkeys⟩
    rw [hinsert, List.append_assoc]
    rfl

/-! ### What follows from a manifest -/

lemma requiredOf_eq_some {main target : Text} (h : requiredOf fs package main = .ok (some target)) :
    main = target ∧ ModuleKind.detect fs package target ≠ .ok .esm := by
  unfold requiredOf at h
  split at h
  · cases h
  · rename_i kind hkind hdetect
    obtain rfl := Option.some.inj (Except.ok.inj h)
    exact ⟨rfl, fun hesm => hkind (Except.ok.inj (hdetect.symm.trans hesm))⟩
  · cases h

variable (fs package sources) in
lemma sourceOfFirst_eq_findSomeM? (entries : List Text) :
    sourceOfFirst fs package sources entries =
      entries.findSomeM? fun entry => SourceFile.find? fs package entry sources ({} : Settings).buildDirectories := by
  induction entries with
  | nil => rfl
  | cons entry rest ih =>
    rw [sourceOfFirst, List.findSomeM?_cons, ih]
    congr
    funext found
    cases found <;> rfl

lemma root_eq (browser : Option Text) :
    root fs package m browser sources =
      (match BrowserTargets.entryPath m.main with
        | some file => requiredOf fs package file
        | none => .ok none).bind fun required =>
      (match namedSource? fs package m with
        | some source => Except.ok (some source)
        | none => sourceOfFirst fs package sources
          ((BrowserTargets.entryPath m.main).toList ++ (BrowserTargets.entryPath m.module).toList)).bind fun source =>
      .ok { source, types := BrowserTargets.entryPath m.typesField, imported := BrowserTargets.entryPath m.module,
            required, browser, otherwise := BrowserTargets.entryPath m.main } := by
  unfold root
  cases BrowserTargets.entryPath m.main <;> cases namedSource? fs package m <;> rfl

/-- The targets of the package itself, one field for each: under `require` stands `main` unless it is an ES module, and
the source that the manifest names goes before that of an entry. -/
structure IsRoot (fs : FileSystem) (package : Path) (m : Manifest) (sources : List Text) (replacement : Option Text)
    (cs : Conditions) : Prop where
  named : ∀ source ∈ namedSource? fs package m, cs.source = some source
  source : namedSource? fs package m = none → sourceOfFirst fs package sources
    ((BrowserTargets.entryPath m.main).toList ++ (BrowserTargets.entryPath m.module).toList) = .ok cs.source
  types : cs.types = BrowserTargets.entryPath m.typesField
  imported : cs.imported = BrowserTargets.entryPath m.module
  required : ∀ target ∈ cs.required,
    BrowserTargets.entryPath m.main = some target ∧ ModuleKind.detect fs package target ≠ .ok .esm
  browser : cs.browser = replacement
  otherwise : cs.otherwise = BrowserTargets.entryPath m.main

theorem isRoot_of_root {replacement : Option Text} {cs : Conditions}
    (h : root fs package m replacement sources = .ok cs) : IsRoot fs package m sources replacement cs := by
  rw [root_eq] at h
  obtain ⟨required, hrequired, h⟩ := bind_ok_iff.mp h
  obtain ⟨source, hsource, hcs⟩ := bind_ok_iff.mp h
  obtain rfl := Except.ok.inj hcs
  refine ⟨?_, ?_, rfl, rfl, ?_, rfl, rfl⟩
  · intro named hnamed
    rw [Option.mem_def.mp hnamed] at hsource
    exact (Except.ok.inj hsource).symm
  · intro hnone
    rwa [hnone] at hsource
  · rintro target rfl
    cases hmain : BrowserTargets.entryPath m.main with
    | none =>
      rw [hmain] at hrequired
      cases hrequired
    | some main =>
      rw [hmain] at hrequired
      obtain ⟨rfl, hdetect⟩ := requiredOf_eq_some hrequired
      exact ⟨rfl, hdetect⟩

lemma replaced_eq_ok {file : Text} {replacement : Option Text} {cs : Conditions} :
    replaced fs package sources file replacement = .ok cs ↔ ∃ source,
      SourceFile.find? fs package file sources ({} : Settings).buildDirectories = .ok source ∧
        cs = { source, browser := replacement, otherwise := some file } := by
  constructor
  · intro h
    obtain ⟨source, hsource, hcs⟩ := bind_ok_iff.mp h
    exact ⟨source, hsource, (Except.ok.inj hcs).symm⟩
  · rintro ⟨source, hsource, rfl⟩
    exact bind_ok_iff.mpr ⟨source, hsource, rfl⟩

/-- The entries that follow from a manifest: that of the package itself, and those of the files that browsers
replace. -/
inductive Follows (fs : FileSystem) (package : Path) (m : Manifest) (sources : List Text) : Text × Json → Prop
  | root {cs : Conditions}
      (h : IsRoot fs package m sources (BrowserTargets.ofField m.browser m.main m.module).root cs) :
      Follows fs package m sources (Text.ofString ".", rootExport cs)
  | replaced {file : Text} {replacement : Option Text} {cs : Conditions}
      (hfile : (file, replacement) ∈ (BrowserTargets.ofField m.browser m.main m.module).files)
      (h : replaced fs package sources file replacement = .ok cs) :
      Follows fs package m sources (file, cs.toExport)

theorem follows_of_exports {found : Exports} (h : exports fs package m sources = .ok found) :
    ∀ entry ∈ found, Follows fs package m sources entry := by
  unfold exports at h
  obtain ⟨conditions, hroot, hfold⟩ := bind_ok_iff.mp h
  refine foldlM_preserves (P := fun found : Exports => ∀ entry ∈ found, Follows fs package m sources entry)
    ?_ ?_ hfold
  · intro entry hentry
    obtain rfl := List.mem_singleton.mp hentry
    exact .root (isRoot_of_root hroot)
  · intro file hmem exports next hexports hnext entry hentry
    obtain ⟨cs, hreplaced, hinserted⟩ := bind_ok_iff.mp hnext
    obtain rfl := Except.ok.inj hinserted
    rcases Keyed.mem_insert hentry with rfl | hentry
    · exact .replaced hmem hreplaced
    · exact hexports entry hentry

/-- The exports that follow from a manifest: that of the package itself, and then one for each file that browsers
replace. -/
theorem exports_ok {found : Exports} (h : exports fs package m sources = .ok found) :
    ∃ conditions replacements,
      root fs package m (BrowserTargets.ofField m.browser m.main m.module).root sources = .ok conditions ∧
        found = (Text.ofString ".", rootExport conditions) :: replacements ∧
        Keyed.keys replacements = (BrowserTargets.ofField m.browser m.main m.module).files.keys := by
  unfold exports at h
  dsimp only at h
  have hdotted := BrowserTargets.dotted_ofField m.browser m.main m.module
  set browser := BrowserTargets.ofField m.browser m.main m.module
  obtain ⟨conditions, hroot, hfold⟩ := bind_ok_iff.mp h
  have hnew : ∀ file ∈ browser.files.keys, file ∉ Keyed.keys [(Text.ofString ".", rootExport conditions)] := by
    intro file hfile hmem
    obtain rfl := List.mem_singleton.mp hmem
    have hdot : Text.startsWith (Text.ofString ".") "./" = true := hdotted.dotted _ hfile
    exact absurd hdot (by decide)
  obtain ⟨replacements, rfl, hkeys⟩ := foldlM_replaced hdotted.nodup hnew hfold
  exact ⟨conditions, replacements, hroot, rfl, hkeys⟩

end Baseline

namespace Assembly

variable (fs : FileSystem) (a : Assembly)

/-- The pending paths are the recorded ones without an export, without their later repetitions. -/
lemma pending_value (exports : Exports) (usage : UsageRecord) :
    (pending exports usage).value = Text.dedup (usage.importPaths.filter fun path => !exports.hasKey path) := by
  rw [pending, pendingFrom_value, Text.dedup, List.foldl_filter]
  congr 1
  funext found path
  by_cases hfound : path ∈ found <;> cases hkey : exports.hasKey path <;> simp [hfound]

/-- Exports are found for several paths if they are found for each by itself, and they go to the end. -/
theorem extend_eq_ok {start found : Exports} {paths : List Text} (hnodup : paths.Nodup)
    (hnew : ∀ path ∈ paths, path ∉ start.keys) :
    (extend fs a start paths).result = .ok found ↔
      (∀ path ∈ paths, (exportAt? fs a path).isSome) ∧ found = start ++ paths.filterMap (exportAt? fs a) := by
  induction paths generalizing start with
  | nil => simpa [extend] using eq_comm
  | cons path rest ih =>
    obtain ⟨hpath, hrest⟩ := List.nodup_cons.mp hnodup
    obtain ⟨hfirst, hothers⟩ := List.forall_mem_cons.mp hnew
    rw [extend, Attempt.result_bind, List.forall_mem_cons, List.filterMap_cons, exportAt?]
    cases hvalue : (exportOf fs a path).result with
    | error failure => simp [Except.bind]
    | ok value =>
      have hlater : ∀ other ∈ rest, other ∉ Keyed.keys (Keyed.insert path value start) := by
        intro other hother hmem
        rcases Keyed.mem_keys_insert.mp hmem with rfl | hmem
        · exact hpath hother
        · exact hothers other hother hmem
      have hext := ih hrest hlater
      rw [Keyed.insert_of_notMem value hfirst, List.append_assoc] at hext
      rw [Except.bind, Keyed.insert_of_notMem value hfirst, hext]
      simp

lemma filterMap_exportAt? {paths : List Text} (h : ∀ path ∈ paths, (exportAt? fs a path).isSome) :
    Keyed.keys (paths.filterMap (exportAt? fs a)) = paths := by
  induction paths with
  | nil => rfl
  | cons path rest ih =>
    obtain ⟨hpath, hrest⟩ := List.forall_mem_cons.mp h
    obtain ⟨entry, hentry⟩ := Option.isSome_iff_exists.mp hpath
    have hkey : entry.1 = path := ((exportAt?_eq_some fs a).mp hentry).1
    rw [List.filterMap_cons, hentry, Keyed.keys, List.map_cons, hkey]
    exact congrArg (path :: ·) (ih hrest)

/-- The sequential assembly gives exports if there is a start and all pending paths have exports. -/
theorem exports_eq_ok {found : Exports} :
    (exports fs a).result = .ok found ↔ ∃ start, a.start fs = .ok start ∧
      (∀ path ∈ (pending start a.usage).value, (exportAt? fs a path).isSome) ∧
        found = start ++ (pending start a.usage).value.filterMap (exportAt? fs a) := by
  rw [exports, Attempt.result_bind, Attempt.result_ofExcept]
  cases a.start fs with
  | error e => simp [Except.bind]
  | ok start =>
    have hnew : ∀ path ∈ (pending start a.usage).value, path ∉ start.keys := by
      intro path hpath
      exact Keyed.hasKey_eq_false.mp (mem_pending.mp hpath).2
    simp only [Except.bind, Attempt.result_bind, Attempt.result_lift]
    rw [extend_eq_ok fs a (nodup_pending _ _) hnew]
    simp

/-- The exports of a package are those that were there, unchanged and in their order, and after them one for each
recorded path that had none, with the value that the path gets by itself. The export of the package itself that
follows from a manifest without exports is among them. -/
theorem exports_keep_start {found : Exports} (h : (a.exports fs).result = .ok found) :
    ∃ start added, found = start ++ added ∧
      (∀ value, a.manifest.exports = some value → start = Exports.ofJson value) ∧
      (a.manifest.exports = none →
        Baseline.exports fs a.package a.manifest a.settings.sourceDirectories = .ok start) ∧
      Keyed.keys added = Text.dedup (a.usage.importPaths.filter fun path => !start.hasKey path) ∧
      (∀ entry ∈ added, (a.exportOf fs entry.1).result = .ok entry.2) ∧
      (a.manifest.exports = none → ∃ conditions,
        Baseline.root fs a.package a.manifest
          (BrowserTargets.ofField a.manifest.browser a.manifest.main a.manifest.module).root
          a.settings.sourceDirectories = .ok conditions ∧
        found.get? (Text.ofString ".") = some (Baseline.rootExport conditions)) := by
  obtain ⟨start, hstart, hall, rfl⟩ := (exports_eq_ok fs a).mp h
  have hbaseline : a.manifest.exports = none →
      Baseline.exports fs a.package a.manifest a.settings.sourceDirectories = .ok start := by
    intro hnone
    rwa [Assembly.start, hnone] at hstart
  refine ⟨start, _, rfl, ?_, hbaseline, ?_, ?_, ?_⟩
  · intro value hvalue
    rw [Assembly.start, hvalue] at hstart
    exact (Except.ok.inj hstart).symm
  · rw [filterMap_exportAt? fs a hall, pending_value]
  · intro entry hentry
    obtain ⟨path, -, hsome⟩ := List.mem_filterMap.mp hentry
    obtain ⟨rfl, hvalue⟩ := (exportAt?_eq_some fs a).mp hsome
    exact hvalue
  · intro hnone
    obtain ⟨conditions, replacements, hroot, rfl, -⟩ := Baseline.exports_ok (hbaseline hnone)
    exact ⟨conditions, hroot, by rw [List.cons_append, Keyed.get?, if_pos rfl]⟩

/-- A package without exports in which browsers replace two files; one of them is recorded, and a new path twice. -/
def replacedFiles : Assembly where
  package := ⟨.relative, ["p"]⟩
  manifest := { browser := some (.table [("x.js", none), ("./y.js", some "z.js")]) }
  usage := { package := "p", importPaths := [".", "./x.js", "./a", "./a"] }

/-- The new path gets an export after the replaced files, once. -/
theorem exports_keep_start_replaced : ∃ found start added,
    (replacedFiles.exports FileSystem.empty).result = .ok found ∧ found = start ++ added ∧
      Keyed.keys start = [Text.ofString ".", "./x.js", "./y.js"] ∧ Keyed.keys added = [Text.ofString "./a"] := by
  have hreturns : ((replacedFiles.exports FileSystem.empty).result.toOption).isSome = true := by decide +kernel
  have hbefore : ((Baseline.exports FileSystem.empty replacedFiles.package replacedFiles.manifest
      replacedFiles.settings.sourceDirectories).toOption.map Keyed.keys) =
        some [Text.ofString ".", "./x.js", "./y.js"] := by decide +kernel
  cases hresult : (replacedFiles.exports FileSystem.empty).result with
  | error e =>
    rw [hresult] at hreturns
    cases hreturns
  | ok found =>
    obtain ⟨start, added, hsplit, -, hbaseline, hadded, -, -⟩ := exports_keep_start _ _ hresult
    rw [hbaseline rfl] at hbefore
    have hstart : Keyed.keys start = [Text.ofString ".", "./x.js", "./y.js"] := Option.some.inj hbefore
    have hnew : (fun path => !start.hasKey path) = fun path => !decide (path ∈ Keyed.keys start) := by
      funext path
      rw [Bool.eq_iff_iff]
      simp [Keyed.hasKey_eq_false]
    rw [hnew, hstart] at hadded
    exact ⟨found, start, added, rfl, hsplit, hstart, hadded.trans (by decide +kernel)⟩

end Assembly

end PackageExports
