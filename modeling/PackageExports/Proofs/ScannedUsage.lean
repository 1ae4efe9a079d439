import PackageExports.Proofs.ScanRun
import PackageExports.Proofs.UsageFile

/-!
# What a scan records

A scan adds to the usage file what its scripts import, and nothing else: the records that fit stay, new names come after
them, and the paths of each name are those recorded before and those found now.

Main results: `UsageScan.gathered_spec`, `UsageScan.usage_file_is_union`.
-/

namespace PackageExports.UsageScan

variable (s : UsageScan)

/-- A scanned script asks for a path of a package whose imports count. -/
def Finds (fs : FileSystem) (i : PackageImport) : Prop :=
  ∃ path ∈ s.sourcesIn fs, ∃ source, fs.readTextReplacing path.text = .ok source ∧
    ∃ specifier ∈ Script.specifiers path source, PackageImport.ofSpecifier? specifier = some i ∧
      (s.namesIn fs = [] ∨ i.package ∈ s.namesIn fs)

lemma mem_importsOf {path : Path} {names : List Text} {source : Text} {i : PackageImport} :
    i ∈ Usage.importsOf path names source ↔
      ∃ specifier ∈ Script.specifiers path source, PackageImport.ofSpecifier? specifier = some i ∧
        (names = [] ∨ i.package ∈ names) := by
  unfold Usage.importsOf
  simp [List.mem_filter, List.mem_filterMap, ← exists_and_right, and_assoc]

variable {s} {fs : FileSystem}

lemma importsIn_ok {path : Path} {source : Text} (h : fs.readTextReplacing path.text = .ok source)
    (names : List Text) : (Usage.importsIn fs path names).result = .ok (Usage.importsOf path names source) := by
  unfold Usage.importsIn
  rw [h]
  rfl

/-- The imports of a script that is read, and none of one that is not. -/
lemma mem_value_searching {path : Path} {i : PackageImport} :
    (∃ imports, (Batch.resultOf s.settings.batch (s.searching fs) path).value = some imports ∧ i ∈ imports) ↔
      ∃ source, fs.readTextReplacing path.text = .ok source ∧
        i ∈ Usage.importsOf path (s.namesIn fs) source := by
  have hvalue : (Batch.resultOf s.settings.batch (s.searching fs) path).value =
      (Usage.importsIn fs path (s.namesIn fs)).result.toOption := by
    have hoperation := Batch.ofAttempt_value (Usage.importsIn fs path (s.namesIn fs))
    unfold Batch.resultOf searching
    rw [hoperation]
    cases (Usage.importsIn fs path (s.namesIn fs)).result <;> rfl
  rw [hvalue]
  unfold Usage.importsIn
  cases hread : fs.readTextReplacing path.text with
  | ok source => simp [Except.toOption]
  | error e => cases e <;> simp [Except.toOption, Attempt.note, Except.map]

lemma mem_found {results : List (ItemResult (List PackageImport))}
    (h : (Batch.run s.settings.batch (s.searching fs) (s.sourcesIn fs)).result = .ok results) (i : PackageImport) :
    i ∈ (results.filterMap (·.value)).flatten ↔ s.Finds fs i := by
  rw [(Batch.run_result _ _ _).1 results h, List.mem_flatten]
  constructor
  · rintro ⟨imports, himports, hi⟩
    obtain ⟨result, hresult, hvalue⟩ := List.mem_filterMap.mp himports
    obtain ⟨path, hpath, rfl⟩ := List.mem_map.mp hresult
    obtain ⟨source, hsource, hmem⟩ := mem_value_searching.mp ⟨imports, hvalue, hi⟩
    exact ⟨path, hpath, source, hsource, mem_importsOf.mp hmem⟩
  · rintro ⟨path, hpath, source, hsource, hmem⟩
    obtain ⟨imports, hvalue, hi⟩ := mem_value_searching.mpr ⟨source, hsource, mem_importsOf.mpr hmem⟩
    exact ⟨imports, List.mem_filterMap.mpr ⟨_, List.mem_map_of_mem hpath, hvalue⟩, hi⟩

/-- What a scan is to save is the union of what was recorded and what its scripts import. -/
theorem gathered_spec {merged : Usage} {results : List (ItemResult (List PackageImport))}
    (h : s.gathered fs = .ok (merged, results)) :
    ∃ ranges, (fs.dependencies s.directory).result = .ok ranges ∧
      Usage.Union (Usage.recordedIn fs s.usageFile.text) (s.Finds fs) ranges merged := by
  obtain ⟨usage, ranges, husage, hranges, hresults, rfl⟩ := s.gathered_eq_ok.mp h
  refine ⟨ranges, hranges, ?_⟩
  obtain rfl := Usage.recordedIn_of_loadExisting husage
  obtain ⟨hkeys, hpaths⟩ := Usage.recordedIn_spec fs s.usageFile.text
  have hfinds : s.Finds fs = (· ∈ (results.filterMap (·.value)).flatten) :=
    funext fun i => propext (mem_found hresults i).symm
  have hmerge := Usage.union_merge ranges (results.filterMap (·.value)).flatten hkeys hpaths
  unfold Usage.merge at hmerge ⊢
  rw [List.foldl_flatten] at hmerge
  rw [hfinds]
  exact hmerge

/-- Looking for version ranges fails only where a name is too long. -/
lemma dependencies_ok {directory : Path} {there : Bool}
    (h : fs.check (directory.child Package.manifestName).text none = .ok there) :
    ∃ ranges, (fs.dependencies directory).result = .ok ranges := by
  unfold FileSystem.dependencies
  rw [Attempt.result_bind, Attempt.ofAccess, Attempt.result_ofExcept, h]
  cases there with
  | false => exact ⟨[], rfl⟩
  | true =>
    simp only [Except.mapError, Except.bind, if_true]
    cases fs.readManifest (directory.child Package.manifestName) with
    | ok members => exact ⟨_, rfl⟩
    | error c => exact ⟨_, rfl⟩

lemma gathered_ok {there present : Bool} (husage : fs.check s.usageFile.text none = .ok there)
    (hmanifest : fs.check (s.directory.child Package.manifestName).text none = .ok present)
    (hscripts : ∀ path ∈ s.sourcesIn fs, ∃ imports, (Usage.importsIn fs path (s.namesIn fs)).result = .ok imports) :
    ∃ merged results, s.gathered fs = .ok (merged, results) ∧ (Batch.failures results).length = 0 := by
  obtain ⟨ranges, hranges⟩ := dependencies_ok hmanifest
  have hfailure : ∀ path ∈ s.sourcesIn fs,
      (Batch.resultOf s.settings.batch (s.searching fs) path).failure = none := by
    intro path hpath
    obtain ⟨imports, himports⟩ := hscripts path hpath
    have hoperation := Batch.ofAttempt_value (Usage.importsIn fs path (s.namesIn fs))
    rw [himports] at hoperation
    unfold Batch.resultOf searching
    rw [hoperation]
  have hrun := (Batch.run_result s.settings.batch (s.searching fs) (s.sourcesIn fs)).2 (.inr hfailure)
  set results := (s.sourcesIn fs).map (Batch.resultOf s.settings.batch (s.searching fs)) with hresults
  have hnone : (Batch.failures results).length = 0 := by
    rw [List.length_eq_zero_iff, Batch.failures, List.filterMap_eq_nil_iff]
    intro result hresult
    obtain ⟨path, hpath, rfl⟩ := List.mem_map.mp hresult
    rw [hfailure path hpath, Option.map_none]
  exact ⟨_, results, s.gathered_eq_ok.mpr ⟨_, ranges, Usage.loadExisting_ok husage, hranges, hrun, rfl⟩, hnone⟩

lemma gathered_of_no_sources {there present : Bool} (husage : fs.check s.usageFile.text none = .ok there)
    (hmanifest : fs.check (s.directory.child Package.manifestName).text none = .ok present)
    (hsources : s.sourcesMet fs = []) : s.gathered fs = .ok (Usage.recordedIn fs s.usageFile.text, []) := by
  obtain ⟨ranges, hranges⟩ := dependencies_ok hmanifest
  have hrun : (Batch.run s.settings.batch (s.searching fs) (s.sourcesIn fs)).result = .ok [] := by
    rw [s.sourcesIn_eq_nil hsources]
    exact (Batch.run_result _ _ _).2 (.inr (by simp))
  exact s.gathered_eq_ok.mpr ⟨_, ranges, Usage.loadExisting_ok husage, hranges, hrun, rfl⟩

/-- The members of a usage file that hold what was recorded and what was found, and nothing else. -/
structure IsUnion (recorded : Usage) (found : PackageImport → Prop) (ranges : Keyed Text Text)
    (members : Json.Members) : Prop where
  names : ∃ added, Keyed.keys members = recorded.keys ++ added ∧ added.Nodup ∧
    ∀ name, name ∈ added ↔ name ∉ recorded.keys ∧ ∃ path, found ⟨name, path⟩
  records : ∀ name value, (name, value) ∈ members → ∃ range paths,
    value = UsageRecord.written (((recorded.get? name).map (·.package)).getD name) range paths ∧
      Text.Ascending paths ∧
      (∀ path, path ∈ paths ↔ (∃ before, recorded.get? name = some before ∧ path ∈ before.importPaths) ∨
        found ⟨name, path⟩) ∧
      ((∃ path, found ⟨name, path⟩) → range = ((recorded.get? name).bind UsageRecord.writtenRange <|>
        (ranges.get? name).filter (!·.isEmpty))) ∧
      ((¬∃ path, found ⟨name, path⟩) → range = (recorded.get? name).bind UsageRecord.writtenRange)

lemma isUnion_of_union {recorded merged : Usage} {found : PackageImport → Prop} {ranges : Keyed Text Text}
    (h : Usage.Union recorded found ranges merged) :
    IsUnion recorded found ranges (merged.map fun p => (p.1, p.2.toJson)) := by
  have hkeys : Keyed.keys (merged.map fun p => (p.1, p.2.toJson)) = merged.keys := by
    rw [Keyed.keys, List.map_map]
    rfl
  refine ⟨hkeys ▸ h.names, ?_⟩
  intro name value hmember
  obtain ⟨⟨key, record⟩, hrecord, heq⟩ := List.mem_map.mp hmember
  obtain ⟨rfl, rfl⟩ := Prod.mk.inj heq
  have hunion := h.records _ record hrecord
  refine ⟨record.writtenRange, Text.sort record.importPaths, ?_, .sort hunion.nodup, fun path => ?_,
    hunion.rangeFound, hunion.rangeKept⟩
  · rw [← hunion.package, ← UsageRecord.toJson_eq]
  · rw [Text.mem_sort, hunion.paths path]

/-- A scan whose usage is encoded and written leaves the union of what was recorded and what its scripts import. -/
theorem usage_file_is_union (s : UsageScan) (w : World) {there present : Bool}
    (husage : w.files.check s.usageFile.text none = .ok there)
    (hmanifest : w.files.check (s.directory.child Package.manifestName).text none = .ok present)
    (hscripts : ∀ path ∈ s.sourcesIn w.files,
      ∃ imports, (Usage.importsIn w.files path (s.namesIn w.files)).result = .ok imports) :
    ∃ ranges members, (w.files.dependencies s.directory).result = .ok ranges ∧
      IsUnion (Usage.recordedIn w.files s.usageFile.text) (s.Finds w.files) ranges members ∧
      ((Utf8.encode? (Json.object members).pretty).isSome → (∃ after, w.files.write s.usageFile.text [] = .ok after) →
        ∃ report w', s.run.outcome w = (.ok report, w') ∧ report.failedFiles = 0 ∧
          Usage.readValue w'.files s.usageFile.text = .ok (.object members)) := by
  obtain ⟨merged, results, hgathered, hfailures⟩ := gathered_ok husage hmanifest hscripts
  obtain ⟨ranges, hranges, hunion⟩ := gathered_spec hgathered
  refine ⟨ranges, _, hranges, isUnion_of_union hunion, fun hencodes ⟨after, hwritable⟩ => ?_⟩
  obtain ⟨bytes, hencode⟩ := Option.isSome_iff_exists.mp hencodes
  obtain ⟨w', hrun, hwrite⟩ := run_of_gathered s hgathered hencode hwritable
  have hkept : merged.toJson.Kept := Usage.kept_toJson (hunion.nodup_keys (Usage.recordedIn_spec _ _).1)
  exact ⟨_, w', hrun, hfailures, Usage.readValue_of_encode (FileSystem.read_write hwrite) hencode hkept⟩

/-- A usage file with a path that is a lone surrogate. -/
def surrogateBytes : List UInt8 :=
  (Utf8.encode? "\x7b\"a\": \x7b\"importPaths\": [\"\\ud800\"]\x7d\x7d").getD []

def surrogateFiles : FileSystem :=
  FileSystem.empty.put ["usage.json"] (.file surrogateBytes)

def surrogateScan : UsageScan where
  directory := ⟨.relative, []⟩
  usageFile := ⟨.relative, ["usage.json"]⟩

lemma surrogateScan_gathered :
    ∃ merged, surrogateScan.gathered surrogateFiles = .ok (merged, []) ∧ Utf8.encode? merged.toJson.pretty = none := by
  have husage : surrogateFiles.check surrogateScan.usageFile.text none = .ok true := by decide +kernel
  have hmanifest : surrogateFiles.check (surrogateScan.directory.child Package.manifestName).text none = .ok false := by
    decide +kernel
  have hsources : surrogateScan.sourcesMet surrogateFiles = [] := by decide +kernel
  exact ⟨_, gathered_of_no_sources husage hmanifest hsources, by decide +kernel⟩

lemma surrogateScan_outcome : ∃ given, surrogateScan.run.outcome ⟨surrogateFiles, []⟩ =
    (.error (.cause .notEncodable), ⟨surrogateFiles.put ["usage.json"] (.file []), given⟩) := by
  obtain ⟨merged, hgathered, hencode⟩ := surrogateScan_gathered
  obtain ⟨given, hrun⟩ := outcome_run surrogateScan ⟨surrogateFiles, []⟩
  have hfind : surrogateFiles.find surrogateScan.usageFile.text = .ok ["usage.json"] := by decide +kernel
  have hentry : surrogateFiles.entryAt? ["usage.json"] = some (.file surrogateBytes) := by decide +kernel
  have hwrite := FileSystem.write_present hfind hentry
  obtain ⟨r, files, hwritten, hsave⟩ := outcome_save surrogateScan.usageFile merged ⟨surrogateFiles, given⟩
  refine ⟨given, ?_⟩
  rw [hrun, hgathered]
  dsimp only
  rw [Action.outcome_bind, hsave]
  cases hwritten with
  | refused hrefused =>
    rw [hwrite] at hrefused
    cases hrefused
  | emptied hempty =>
    rw [hwrite] at hempty
    rw [← Except.ok.inj hempty]
    rfl
  | done h =>
    rw [hencode] at h
    cases h

/-- A usage file and a script beside it. -/
def scriptFiles : FileSystem :=
  (FileSystem.empty.put ["usage.json"]
      (.file ((Utf8.encode? "\x7b\"a\": \x7b\"importPaths\": [\"./x\", \".\"]\x7d\x7d").getD []))).put ["b.ts"]
    (.file ((Utf8.encode? "import 'b'").getD []))

/-- A usage file with a record without paths. -/
def recordFiles : FileSystem :=
  FileSystem.empty.put ["usage.json"] (.file ((Utf8.encode? "\x7b\"a\": \x7b\x7d\x7d").getD []))

lemma members_of_recordFiles {ranges : Keyed Text Text} {members : Json.Members}
    (h : IsUnion (Usage.recordedIn recordFiles surrogateScan.usageFile.text) (surrogateScan.Finds recordFiles) ranges
      members) : members = [(Text.ofString "a", UsageRecord.written "a" none [])] := by
  have hrecorded : Usage.recordedIn recordFiles surrogateScan.usageFile.text =
      [(Text.ofString "a", { package := "a" })] := by
    decide +kernel
  have hsources : surrogateScan.sourcesIn recordFiles = [] := sourcesIn_eq_nil _ (by decide +kernel)
  have hnone (i : PackageImport) : ¬surrogateScan.Finds recordFiles i := by
    rintro ⟨path, hpath, -⟩
    rw [hsources] at hpath
    cases hpath
  obtain ⟨⟨added, hkeys, -, hadded⟩, hrecords⟩ := h
  obtain rfl : added = [] := List.eq_nil_iff_forall_not_mem.mpr fun name hname =>
    have ⟨_, path, hfinds⟩ := (hadded name).mp hname
    hnone _ hfinds
  rw [hrecorded] at hkeys hrecords
  match members, hkeys with
  | [(name, value)], hkeys =>
    obtain rfl := (List.cons.inj hkeys).1
    obtain ⟨range, paths, rfl, -, hpaths, -, hkept⟩ := hrecords _ value List.mem_cons_self
    obtain rfl : paths = [] := List.eq_nil_iff_forall_not_mem.mpr fun path hpath => by
      rcases (hpaths path).mp hpath with ⟨before, hbefore, hmem⟩ | hfinds
      · obtain rfl := Option.some.inj hbefore
        cases hmem
      · exact hnone _ hfinds
    rw [hkept fun ⟨path, hfinds⟩ => hnone _ hfinds]
    rfl

/-- The scan of a script beside a usage file, and that of a usage file alone. -/
theorem usage_file_is_union_script :
    (∃ ranges members, (scriptFiles.dependencies surrogateScan.directory).result = .ok ranges ∧
      IsUnion (Usage.recordedIn scriptFiles surrogateScan.usageFile.text) (surrogateScan.Finds scriptFiles) ranges
        members) ∧
      ∃ report w', surrogateScan.run.outcome ⟨recordFiles, []⟩ = (.ok report, w') ∧ report.failedFiles = 0 ∧
        Usage.readValue w'.files surrogateScan.usageFile.text =
          .ok (.object [(Text.ofString "a", UsageRecord.written "a" none [])]) := by
  constructor
  · have husage : scriptFiles.check surrogateScan.usageFile.text none = .ok true := by decide +kernel
    have hmanifest : scriptFiles.check (surrogateScan.directory.child Package.manifestName).text none = .ok false := by
      decide +kernel
    have hread : ∀ names ∈ scriptFiles.entries.keys,
        (scriptFiles.readTextReplacing (surrogateScan.directory.join ⟨.relative, names⟩).text).isOk = true := by
      decide +kernel
    obtain ⟨ranges, members, hranges, hunion, -⟩ :=
      usage_file_is_union surrogateScan ⟨scriptFiles, []⟩ husage hmanifest fun path hpath => by
        obtain ⟨names, hnames, rfl⟩ := List.mem_map.mp hpath
        obtain ⟨location, hfind, -, hkey, -⟩ := FileSystem.mem_filesBelow.mp (List.mem_filter.mp hnames).1
        have htop : scriptFiles.find surrogateScan.directory.text = .ok [] := by decide +kernel
        obtain rfl := Except.ok.inj (htop.symm.trans hfind)
        have hok := hread names hkey
        cases hsource : scriptFiles.readTextReplacing (surrogateScan.directory.join ⟨.relative, names⟩).text with
        | ok source => exact ⟨_, importsIn_ok hsource _⟩
        | error e =>
          rw [hsource] at hok
          cases hok
    exact ⟨ranges, members, hranges, hunion⟩
  · have husage : recordFiles.check surrogateScan.usageFile.text none = .ok true := by decide +kernel
    have hmanifest : recordFiles.check (surrogateScan.directory.child Package.manifestName).text none = .ok false := by
      decide +kernel
    have hsources : surrogateScan.sourcesIn recordFiles = [] := sourcesIn_eq_nil _ (by decide +kernel)
    have hwritable : (recordFiles.write surrogateScan.usageFile.text []).isOk = true := by decide +kernel
    obtain ⟨ranges, members, -, hunion, hrun⟩ :=
      usage_file_is_union surrogateScan ⟨recordFiles, []⟩ husage hmanifest fun path hpath => by
        rw [hsources] at hpath
        cases hpath
    obtain rfl := members_of_recordFiles hunion
    refine hrun (by decide +kernel) ?_
    dsimp only
    cases hwrite : recordFiles.write surrogateScan.usageFile.text [] with
    | ok after => exact ⟨after, rfl⟩
    | error e =>
      rw [hwrite] at hwritable
      cases hwritable

/-- A record of a path without an encoding does not outlive the scan, and an empty version range is not written. -/
theorem surrogate_record_is_lost :
    (∃ e w', surrogateScan.run.outcome ⟨surrogateFiles, []⟩ = (.error e, w') ∧
      (Usage.recordedIn surrogateFiles surrogateScan.usageFile.text).keys = ["a"] ∧
        w'.files.read surrogateScan.usageFile.text = .ok []) ∧
      Usage.toJson (Usage.merge [] [("b", [])] [⟨"b", "."⟩]) =
        .object [("b", UsageRecord.written "b" none ["."])] := by
  constructor
  · obtain ⟨given, houtcome⟩ := surrogateScan_outcome
    have hempty : (surrogateFiles.put ["usage.json"] (.file [])).read surrogateScan.usageFile.text = .ok [] := by
      decide +kernel
    exact ⟨_, _, houtcome, by decide +kernel, hempty⟩
  · have hmerge : Usage.merge [] [("b", [])] [⟨"b", "."⟩] =
        [(Text.ofString "b", { package := "b", versionRequirement := some [], importPaths := ["."] })] := by decide
    have hsort : Text.sort [Text.ofString "."] = [Text.ofString "."] := List.mergeSort_singleton _
    rw [hmerge, Usage.toJson, List.map_singleton]
    dsimp only
    rw [UsageRecord.toJson_eq, hsort]
    rfl

end PackageExports.UsageScan
