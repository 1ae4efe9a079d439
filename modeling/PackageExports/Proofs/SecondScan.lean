import PackageExports.Proofs.NewFiles
import PackageExports.Proofs.ScannedUsage

/-!
# A second scan changes nothing

What a scan saves is read back with its paths in order and without empty version ranges. The imports that were found add
nothing to it: their names are there, and so are their paths. The usage file itself is no script and no manifest, so a
second scan finds the same imports, and it writes the bytes that are there.

Main results: `Usage.toJson_of_reread`, `UsageScan.gathered_again`, `UsageScan.second_scan_changes_nothing`.
-/

namespace PackageExports

namespace UsageRecord

lemma writtenRange_reread (r : UsageRecord) : r.reread.writtenRange = r.writtenRange := by
  change (r.versionRequirement.filter _).filter _ = r.versionRequirement.filter _
  rw [Option.filter_filter]
  simp only [Bool.and_self]

/-- Imports that a record has from the start add nothing to what is written. -/
lemma Union.toJson_reread {name : Text} {range : Option Text} {old : Option UsageRecord} {found : Text → Prop}
    {r again : UsageRecord} (h : Union name range old found r) (hagain : Union name range (some r.reread) found again) :
    again.toJson = r.toJson := by
  have hpackage : again.package = r.package := hagain.package
  have hpaths (path : Text) : path ∈ again.importPaths ↔ path ∈ r.importPaths := by
    rw [hagain.paths path]
    constructor
    · rintro (⟨before, hbefore, hpath⟩ | hfound)
      · obtain rfl := Option.some.inj hbefore
        exact Text.mem_sort.mp hpath
      · exact (h.paths path).mpr (.inr hfound)
    · intro hpath
      exact .inl ⟨r.reread, rfl, Text.mem_sort.mpr hpath⟩
  have hsorted : Text.sort again.importPaths = Text.sort r.importPaths := by
    refine (Text.Ascending.sort hagain.nodup).eq_of_mem_iff (Text.Ascending.sort h.nodup) fun path => ?_
    rw [Text.mem_sort, Text.mem_sort, hpaths path]
  have hrange : again.writtenRange = r.writtenRange := by
    by_cases hfound : ∃ path, found path
    · rw [hagain.rangeFound hfound, Option.bind_some, writtenRange_reread, h.rangeFound hfound]
      cases old.bind writtenRange <;> cases range.filter (!·.isEmpty) <;> rfl
    · rw [hagain.rangeKept hfound, Option.bind_some, writtenRange_reread]
  rw [toJson_eq, toJson_eq, hpackage, hsorted, hrange]

end UsageRecord

namespace Usage

/-- Usage that holds what was found is written as it was, once it was read back and the same was found again. -/
theorem toJson_of_reread {old merged again : Usage} {found : PackageImport → Prop} {ranges : Keyed Text Text}
    (hold : old.keys.Nodup) (h : Union old found ranges merged)
    (hagain : Union (merged.map fun p => (p.1, p.2.reread)) found ranges again) :
    again.keys = merged.keys ∧ again.toJson = merged.toJson := by
  have hreread : Keyed.keys (merged.map fun p => (p.1, p.2.reread)) = merged.keys := by
    rw [Keyed.keys, List.map_map]
    rfl
  have hkeys : again.keys = merged.keys := by
    obtain ⟨first, hfirst, -, hmem⟩ := h.names
    obtain ⟨added, hadded, -, hnew⟩ := hagain.names
    rw [hreread] at hadded hnew
    have hnone : added = [] := by
      rw [List.eq_nil_iff_forall_not_mem]
      intro name hname
      obtain ⟨hnot, hfound⟩ := (hnew name).mp hname
      rw [hfirst, List.mem_append, not_or] at hnot
      exact hnot.2 ((hmem name).mpr ⟨hnot.1, hfound⟩)
    rw [hadded, hnone, List.append_nil]
  refine ⟨hkeys, ?_⟩
  have hrecords : ∀ name a b, (name, a) ∈ again → (name, b) ∈ merged → a.toJson = b.toJson := by
    intro name a b ha hb
    have hget := Keyed.get?_of_mem (h.nodup_keys hold) hb
    have hunion := hagain.records name a ha
    rw [Keyed.get?_map, hget] at hunion
    exact (h.records name b hb).toJson_reread hunion
  exact congrArg Json.object (Keyed.map_congr_of_keys UsageRecord.toJson hkeys hrecords)

lemma importsIn_placed {fs : FileSystem} {location : Location} (hfree : fs.TakesFile location) (content : List UInt8)
    {path : Path} (hne : (fs.put location (.file content)).find path.text ≠ .ok location) (names : List Text) :
    (importsIn (fs.put location (.file content)) path names).result = (importsIn fs path names).result := by
  unfold importsIn FileSystem.readTextReplacing
  rcases FileSystem.read_placed hfree content hne with hread | ⟨hmissing, hread⟩
  · rw [hread]
  · rw [hread, hmissing]
    rfl

end Usage

namespace UsageScan

variable {s : UsageScan} {fs : FileSystem} {location : Location}

/-- Whether a scan would take a file at a location for a script: it is below the scanned directory, no directory on the
way is ignored, and its name has an ending that is scanned. -/
def Scans (s : UsageScan) (fs : FileSystem) (location : Location) : Prop :=
  ∃ root front name, fs.find s.directory.text = .ok root ∧ location = root ++ (front ++ [name]) ∧
    (∀ directory ∈ front, directory ∉ s.settings.scanIgnore) ∧
      Text.endsWithAny name Usage.declarationEndings = false ∧ Text.endsWithAny name s.settings.scanExtensions = true

section Put

variable (hfree : fs.TakesFile location) (hlinks : fs.Unlinked) (content : List UInt8)

include hfree hlinks

lemma sourcesIn_put (hscan : ¬s.Scans fs location) :
    s.sourcesIn (fs.put location (.file content)) = s.sourcesIn fs := by
  unfold sourcesIn Usage.sourcesBelow
  dsimp only
  rw [FileSystem.filter_filesBelow_put hfree hlinks content]
  intro base names hbase hlocation hne henters
  obtain ⟨front, name, rfl⟩ := (List.eq_nil_or_concat' names).resolve_left hne
  rw [List.getLast?_concat, Option.getD_some, Bool.and_eq_false_imp]
  intro hdeclaration
  rw [Bool.not_eq_true'] at hdeclaration
  rw [List.dropLast_concat] at henters
  by_contra hending
  refine hscan ⟨base, front, name, hbase, hlocation, fun directory hdirectory => ?_, hdeclaration, by simpa using hending⟩
  simpa using henters directory hdirectory

lemma find_source_ne (htree : fs.IsTree) (hscan : ¬s.Scans fs location) {path : Path} (hpath : path ∈ s.sourcesIn fs) :
    (fs.put location (.file content)).find path.text ≠ .ok location := by
  intro hfind
  obtain ⟨names, hnames, rfl⟩ := List.mem_map.mp hpath
  obtain ⟨hnames, hkeep⟩ := List.mem_filter.mp hnames
  obtain ⟨base, hbase, -, hkey, hmeets⟩ := FileSystem.mem_filesBelow.mp hnames
  have hne : names ≠ [] := by
    rintro rfl
    cases hmeets
  have hproper : ∀ name ∈ names, FileSystem.IsName name := fun name hname =>
    htree.named _ hkey name (List.mem_append_right _ hname)
  have hafter : (fs.put location (.file content)).Unlinked := hlinks.put hfree.ne_nil fun target h => by cases h
  have hlocation := hafter.find_join hne hproper (FileSystem.find_put_of_ok hfree content hbase) hfind
  obtain ⟨front, name, rfl⟩ := (List.eq_nil_or_concat' names).resolve_left hne
  rw [List.getLast?_concat, Option.getD_some, Bool.and_eq_true, Bool.not_eq_true'] at hkeep
  have henters := FileSystem.enters_of_meetsFile hmeets
  rw [List.dropLast_concat] at henters
  refine hscan ⟨base, front, name, hbase, hlocation, fun directory hdirectory => ?_, hkeep.1, hkeep.2⟩
  simpa using henters directory hdirectory

variable (hlast : location.getLast? ≠ some Package.manifestName)

include hlast

lemma resultOf_put (htree : fs.IsTree) (hscan : ¬s.Scans fs location) {path : Path} (hpath : path ∈ s.sourcesIn fs) :
    Batch.resultOf s.settings.batch (s.searching (fs.put location (.file content))) path =
      Batch.resultOf s.settings.batch (s.searching fs) path := by
  have hnames : s.namesIn (fs.put location (.file content)) = s.namesIn fs :=
    Package.namesBelow_put hfree hlinks content hlast _ _ _
  have hne := find_source_ne hfree hlinks content htree hscan hpath
  unfold Batch.resultOf searching
  dsimp only
  rw [Batch.ofAttempt_value, Batch.ofAttempt_value, hnames, Usage.importsIn_placed hfree content hne]

lemma run_put (htree : fs.IsTree) (hscan : ¬s.Scans fs location) {results : List (ItemResult (List PackageImport))}
    (h : (Batch.run s.settings.batch (s.searching fs) (s.sourcesIn fs)).result = .ok results)
    (hfailed : (Batch.failures results).length = 0) :
    (Batch.run s.settings.batch (s.searching (fs.put location (.file content)))
      (s.sourcesIn (fs.put location (.file content)))).result = .ok results := by
  have hresults := (Batch.run_result _ _ _).1 results h
  have hsame : (s.sourcesIn fs).map (Batch.resultOf s.settings.batch (s.searching (fs.put location (.file content)))) =
      results := by
    rw [hresults]
    exact List.map_congr_left fun path hpath => resultOf_put hfree hlinks content hlast htree hscan hpath
  have hnone : ∀ path ∈ s.sourcesIn fs,
      (Batch.resultOf s.settings.batch (s.searching (fs.put location (.file content))) path).failure = none := by
    intro path hpath
    have hmem := hsame ▸ List.mem_map_of_mem hpath
    rw [List.length_eq_zero_iff, Batch.failures, List.filterMap_eq_nil_iff] at hfailed
    exact Option.map_eq_none_iff.mp (hfailed _ hmem)
  rw [sourcesIn_put hfree hlinks content hscan, (Batch.run_result _ _ _).2 (.inr hnone), hsame]

end Put

/-- After what a scan gathered was saved, a scan gathers what is written the same. -/
theorem gathered_again (htree : fs.IsTree) {after : FileSystem} {merged : Usage}
    {results : List (ItemResult (List PackageImport))} {bytes : List UInt8}
    (h : s.gathered fs = .ok (merged, results)) (hfailed : (Batch.failures results).length = 0)
    (hencode : Utf8.encode? merged.toJson.pretty = some bytes) (hwrite : fs.write s.usageFile.text bytes = .ok after)
    (hfind : after.find s.usageFile.text = .ok location) (hlast : location.getLast? ≠ some Package.manifestName)
    (hscan : ¬s.Scans fs location) :
    ∃ again, s.gathered after = .ok (again, results) ∧ s.reportOf after again results = s.reportOf fs merged results ∧
      again.toJson = merged.toJson := by
  have hread := FileSystem.read_write hwrite
  obtain ⟨place, rfl, hfree, hplace⟩ := FileSystem.placed_of_write hwrite
  obtain rfl : place = location := Except.ok.inj (hplace.symm.trans hfind)
  obtain ⟨-, ranges, -, hranges, hresults, -⟩ := s.gathered_eq_ok.mp h
  have hdependencies := (Package.dependencies_put hfree htree.unlinked bytes hlast s.directory).trans hranges
  have hcheck : (fs.put place (.file bytes)).check s.usageFile.text none = .ok true := by
    rw [FileSystem.check, hfind]
    rfl
  have hrun := run_put hfree htree.unlinked bytes hlast htree hscan hresults hfailed
  have hagain := s.gathered_eq_ok.mpr ⟨_, _, Usage.loadExisting_ok hcheck, hdependencies, hrun, rfl⟩
  -- Both scans are unions with what the same results hold, the second one starting from what the first one wrote.
  obtain ⟨first, hfirst, hunion⟩ := gathered_spec h
  obtain ⟨second, hsecond, hunionAgain⟩ := gathered_spec hagain
  have hranges' : second = first := by
    rw [hranges] at hfirst
    rw [hdependencies] at hsecond
    rw [← Except.ok.inj hfirst, ← Except.ok.inj hsecond]
  have hfinds : s.Finds (fs.put place (.file bytes)) = s.Finds fs :=
    funext fun i => propext ((mem_found hrun i).symm.trans (mem_found hresults i))
  have hold := (Usage.recordedIn_spec fs s.usageFile.text).1
  have hrecorded := Usage.recordedIn_written hread hencode (hunion.nodup_keys hold) fun p hp =>
    (hunion.records p.1 p.2 hp).nodup
  rw [hranges', hfinds] at hunionAgain
  rw [hrecorded] at hagain hunionAgain
  obtain ⟨hkeys, hjson⟩ := Usage.toJson_of_reread hold hunion hunionAgain
  refine ⟨_, hagain, ?_, hjson⟩
  have hlength := congrArg List.length hkeys
  rw [Keyed.keys, Keyed.keys, List.length_map, List.length_map] at hlength
  unfold reportOf
  rw [hlength, sourcesIn_put hfree htree.unlinked bytes hscan]

/-- A scan without a failed script whose usage file is no manifest and no script: a second scan gives the same report and
leaves all files as they are, byte for byte. -/
theorem second_scan_changes_nothing (s : UsageScan) {w w' : World} {report : ScanReport} (htree : w.files.IsTree)
    (hrun : s.run.outcome w = (.ok report, w')) (hfailed : report.failedFiles = 0)
    (hapart : ∀ location, w'.files.find s.usageFile.text = .ok location →
      location.getLast? ≠ some Package.manifestName ∧ ¬s.Scans w.files location) (notices : List Notice) :
    ∃ given, s.run.outcome ⟨w'.files, notices⟩ = (.ok report, ⟨w'.files, given⟩) := by
  obtain ⟨merged, results, bytes, hgathered, hencode, hwrite, rfl⟩ := s.run_ok hrun
  obtain ⟨location, hfind, hentry⟩ := FileSystem.find_of_read (FileSystem.read_write hwrite)
  obtain ⟨hlast, hscan⟩ := hapart location hfind
  obtain ⟨again, hagain, hreport, hjson⟩ :=
    gathered_again htree hgathered hfailed hencode hwrite hfind hlast hscan
  rw [← hjson] at hencode
  obtain ⟨after, houtcome, hafter⟩ := s.run_of_gathered (w := ⟨w'.files, notices⟩) hagain hencode
    (FileSystem.write_present hfind hentry [])
  rw [FileSystem.write_present hfind hentry, FileSystem.put_of_entry (FileSystem.ne_nil_of_file hentry) hentry] at hafter
  refine ⟨after.notices, ?_⟩
  rw [houtcome, ← hreport, Except.ok.inj hafter]

/-- A usage file with a path twice and out of order, an empty version range and a record that does not fit. -/
def untidyBytes : List UInt8 :=
  (Utf8.encode? ("\x7b\"b\": \x7b\"importPaths\": [\"./x\", \".\", \"./x\"], \"versionRequirement\": \"\"\x7d, " ++
    "\"a\": 3\x7d")).getD []

def untidyFiles : FileSystem :=
  (FileSystem.empty.put ["package.json"]
      (.file ((Utf8.encode? "\x7b\"name\": \"app\", \"dependencies\": \x7b\"b\": \"^1\"\x7d\x7d").getD []))).put
    ["usage.json"] (.file untidyBytes)

def tidyValue : Json :=
  .object [(Text.ofString "b", UsageRecord.written "b" none [".", "./x"])]

lemma isTree_untidyFiles : untidyFiles.IsTree := by
  refine (FileSystem.isTree_empty.put (by decide) ?_ ?_).put (by decide) ?_ ?_
  · decide
  · intro target h
    cases h
  · decide
  · intro target h
    cases h

lemma toJson_untidy : (Usage.recordedIn untidyFiles surrogateScan.usageFile.text).toJson = tidyValue := by
  have hrecorded : Usage.recordedIn untidyFiles surrogateScan.usageFile.text =
      [(Text.ofString "b", { package := "b", versionRequirement := some [], importPaths := ["./x", "."] })] := by
    decide +kernel
  have hascending : Text.Ascending [".", "./x"] := by
    unfold Text.Ascending
    decide
  have hsort : Text.sort ["./x", "."] = [".", "./x"] := by
    refine (Text.Ascending.sort (by decide)).eq_of_mem_iff hascending fun t => ?_
    rw [Text.mem_sort]
    exact (List.Perm.swap _ _ _).mem_iff
  rw [hrecorded, Usage.toJson, List.map_singleton]
  dsimp only
  rw [UsageRecord.toJson_eq, hsort]
  rfl

/-- The scan of an untidy usage file tidies it, and once more leaves it alone. -/
theorem second_scan_changes_nothing_untidy : ∃ report w' given,
    surrogateScan.run.outcome ⟨untidyFiles, []⟩ = (.ok report, w') ∧ report.failedFiles = 0 ∧
      Usage.readValue w'.files surrogateScan.usageFile.text = .ok tidyValue ∧
      surrogateScan.run.outcome ⟨w'.files, []⟩ = (.ok report, ⟨w'.files, given⟩) := by
  have husage : untidyFiles.check surrogateScan.usageFile.text none = .ok true := by decide +kernel
  have hmanifest : untidyFiles.check (surrogateScan.directory.child Package.manifestName).text none = .ok true := by
    decide +kernel
  have hsources : surrogateScan.sourcesMet untidyFiles = [] := by decide +kernel
  have hfind : untidyFiles.find surrogateScan.usageFile.text = .ok ["usage.json"] := by decide +kernel
  have hentry : untidyFiles.entryAt? ["usage.json"] = some (.file untidyBytes) := by decide +kernel
  have hgathered := gathered_of_no_sources husage hmanifest hsources
  obtain ⟨bytes, hencode⟩ := Option.isSome_iff_exists.mp
    (show (Utf8.encode? tidyValue.pretty).isSome by decide +kernel)
  rw [← toJson_untidy] at hencode
  obtain ⟨w', hrun, hwrite⟩ := surrogateScan.run_of_gathered (w := ⟨untidyFiles, []⟩) hgathered hencode
    (FileSystem.write_present hfind hentry [])
  have hread := FileSystem.read_write hwrite
  rw [FileSystem.write_present hfind hentry] at hwrite
  have hplace : w'.files.find surrogateScan.usageFile.text = .ok ["usage.json"] := by
    rw [← Except.ok.inj hwrite, FileSystem.find_put hentry, hfind]
  have hvalue := Usage.readValue_of_encode hread hencode (Usage.kept_toJson (Usage.recordedIn_spec _ _).1)
  rw [toJson_untidy] at hvalue
  obtain ⟨given, hagain⟩ := second_scan_changes_nothing surrogateScan isTree_untidyFiles hrun rfl (by
    intro location hlocation
    obtain rfl := Except.ok.inj (hplace.symm.trans hlocation)
    refine ⟨by decide, ?_⟩
    rintro ⟨root, front, name, -, hname, -, -, hending⟩
    have hlast := congrArg List.getLast? hname
    rw [← List.append_assoc, List.getLast?_concat] at hlast
    obtain rfl := Option.some.inj hlast
    exact absurd hending (by decide)) []
  exact ⟨_, w', given, hrun, rfl, hvalue, hagain⟩

end UsageScan

end PackageExports
