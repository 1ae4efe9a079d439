import PackageExports.Proofs.Batches
import PackageExports.Proofs.Walks
import PackageExports.Usage.Scan

/-!
# The course of a scan

A scan reads first and writes last: `UsageScan.gathered` is all that it finds out, as a function of the files, and
`UsageScan.outcome_run` says that saving is all that follows.
-/

namespace PackageExports.UsageScan

open scoped List

variable (s : UsageScan)

def namesIn (fs : FileSystem) : List Text :=
  (Package.namesBelow fs (s.repository.getD s.directory) s.privateOnly s.settings.packageIgnore).value

def sourcesIn (fs : FileSystem) : List Path :=
  Usage.sourcesBelow fs s.directory s.settings.scanExtensions s.settings.scanIgnore

/-- The scripts that a walk meets. -/
def sourcesMet (fs : FileSystem) : List Path :=
  ((fs.filesMet s.directory.text fun name => !s.settings.scanIgnore.contains name).filter fun names =>
    let name := names.getLast?.getD []
    !Text.endsWithAny name Usage.declarationEndings && Text.endsWithAny name s.settings.scanExtensions).map fun names =>
      s.directory.join ⟨.relative, names⟩

lemma sourcesIn_perm (fs : FileSystem) : s.sourcesIn fs ~ s.sourcesMet fs :=
  ((FileSystem.filesBelow_perm _ _ _).filter _).map _

lemma sourcesIn_eq_nil {fs : FileSystem} (h : s.sourcesMet fs = []) : s.sourcesIn fs = [] :=
  (h ▸ s.sourcesIn_perm fs).eq_nil

def searching (fs : FileSystem) : Batch.Work Path (List PackageImport) :=
  { label := Path.text, operation := fun path => Batch.ofAttempt (Usage.importsIn fs path (s.namesIn fs)) }

/-- The usage that is saved in the end, and the results of the scripts. -/
def gathered (fs : FileSystem) : Except Failure (Usage × List (ItemResult (List PackageImport))) := do
  let usage ← (Usage.loadExisting fs s.usageFile).result
  let dependencies ← (fs.dependencies s.directory).result
  let results ← (Batch.run s.settings.batch (s.searching fs) (s.sourcesIn fs)).result
  return ((results.filterMap (·.value)).foldl (fun usage imports => usage.merge dependencies imports) usage, results)

/-- What is gathered comes from the usage file, the ranges of the dependencies and the results of the scripts. -/
lemma gathered_eq_ok {fs : FileSystem} {merged : Usage} {results : List (ItemResult (List PackageImport))} :
    s.gathered fs = .ok (merged, results) ↔
      ∃ usage ranges, (Usage.loadExisting fs s.usageFile).result = .ok usage ∧
        (fs.dependencies s.directory).result = .ok ranges ∧
        (Batch.run s.settings.batch (s.searching fs) (s.sourcesIn fs)).result = .ok results ∧
        (results.filterMap (·.value)).foldl (fun usage imports => usage.merge ranges imports) usage = merged := by
  unfold gathered
  constructor
  · intro h
    obtain ⟨usage, husage, h⟩ := bind_ok_iff.mp h
    obtain ⟨ranges, hranges, h⟩ := bind_ok_iff.mp h
    obtain ⟨found, hfound, h⟩ := bind_ok_iff.mp h
    obtain ⟨hmerged, rfl⟩ := Prod.mk.inj (Except.ok.inj h)
    exact ⟨usage, ranges, husage, hranges, hfound, hmerged⟩
  · rintro ⟨usage, ranges, husage, hranges, hfound, rfl⟩
    rw [husage, hranges, hfound]
    rfl

def reportOf (fs : FileSystem) (merged : Usage) (results : List (ItemResult (List PackageImport))) : ScanReport where
  packages := merged.length
  files := (s.sourcesIn fs).length
  imports := (results.filterMap (·.value)).flatten.length
  failedFiles := (Batch.failures results).length

lemma outcome_packageNames (w : World) :
    ∃ given, s.packageNames.outcome w = (.ok (s.namesIn w.files), { w with notices := given }) :=
  ⟨_, rfl⟩

lemma outcome_search (w : World) :
    ∃ given, (s.search (s.namesIn w.files) (s.sourcesIn w.files)).outcome w =
      ((Batch.run s.settings.batch (s.searching w.files) (s.sourcesIn w.files)).result,
        { w with notices := given }) :=
  ⟨_, rfl⟩

lemma run_eq :
    s.run = (do
      Action.note (.scanning s.directory)
      let names ← s.packageNames
      let fs ← Action.files
      let usage ← Action.ofAttempt (Usage.loadExisting fs s.usageFile)
      Action.note (.sourcesFound (s.sourcesIn fs).length)
      let dependencies ← Action.ofAttempt (fs.dependencies s.directory)
      let results ← s.search names (s.sourcesIn fs)
      let merged := (results.filterMap (·.value)).foldl (fun usage imports => usage.merge dependencies imports) usage
      Usage.save s.usageFile merged
      Action.note (.usageSaved merged.length)
      return s.reportOf fs merged results) :=
  rfl

/-- A scan is its reading and then its saving. -/
theorem outcome_run (w : World) :
    ∃ given, s.run.outcome w =
      match s.gathered w.files with
      | .error e => (.error e, { w with notices := given })
      | .ok (merged, results) =>
        (do
          Usage.save s.usageFile merged
          Action.note (.usageSaved merged.length)
          return s.reportOf w.files merged results : Action ScanReport).outcome { w with notices := given } := by
  obtain ⟨first, hnames⟩ := outcome_packageNames s { w with notices := w.notices ++ [.scanning s.directory] }
  rw [run_eq, Action.outcome_bind, Action.outcome_note]
  dsimp only
  rw [Action.outcome_bind, hnames]
  dsimp only
  rw [Action.outcome_bind, Action.outcome_files]
  dsimp only
  rw [Action.outcome_bind, Action.outcome_ofAttempt]
  unfold gathered
  cases (Usage.loadExisting w.files s.usageFile).result with
  | error e => exact ⟨_, rfl⟩
  | ok usage =>
    dsimp only
    rw [Action.outcome_bind, Action.outcome_note]
    dsimp only
    rw [Action.outcome_bind, Action.outcome_ofAttempt]
    cases (w.files.dependencies s.directory).result with
    | error e => exact ⟨_, rfl⟩
    | ok dependencies =>
      dsimp only
      obtain ⟨last, hsearch⟩ := outcome_search s { w with
        notices := first ++ (Usage.loadExisting w.files s.usageFile).notices ++
          [.sourcesFound (s.sourcesIn w.files).length] ++ (w.files.dependencies s.directory).notices }
      rw [Action.outcome_bind, hsearch]
      dsimp only
      cases (Batch.run s.settings.batch (s.searching w.files) (s.sourcesIn w.files)).result with
      | error e => exact ⟨_, rfl⟩
      | ok results => exact ⟨_, rfl⟩

lemma outcome_save (path : Path) (usage : Usage) (w : World) :
    ∃ r files, Action.Written w.files path.text usage.toJson.pretty r files ∧
      (Usage.save path usage).outcome w = (r.mapError .cause, { w with files := files }) := by
  obtain ⟨r, files, hwrite, hwritten⟩ := Action.outcome_writeText path usage.toJson.pretty w
  refine ⟨r, files, hwritten, ?_⟩
  unfold Usage.save
  rw [Action.outcome_bind, hwrite]
  cases r <;> rfl

/-- A scan that gives a report has written the merged usage. -/
theorem run_ok {w w' : World} {report : ScanReport} (h : s.run.outcome w = (.ok report, w')) :
    ∃ merged results bytes, s.gathered w.files = .ok (merged, results) ∧
      Utf8.encode? (merged.toJson.pretty) = some bytes ∧ w.files.write s.usageFile.text bytes = .ok w'.files ∧
      report = s.reportOf w.files merged results := by
  obtain ⟨given, hrun⟩ := outcome_run s w
  rw [hrun] at h
  cases hgathered : s.gathered w.files with
  | error e =>
    rw [hgathered] at h
    cases h
  | ok found =>
    obtain ⟨merged, results⟩ := found
    rw [hgathered] at h
    dsimp only at h
    obtain ⟨r, files, hwritten, hsave⟩ := outcome_save s.usageFile merged { w with notices := given }
    rw [Action.outcome_bind, hsave] at h
    cases hwritten with
    | refused hrefused => cases h
    | emptied => cases h
    | done hencode hwrite =>
      obtain ⟨hreport, rfl⟩ := Prod.mk.inj h
      exact ⟨merged, results, _, rfl, hencode, hwrite, (Except.ok.inj hreport).symm⟩

theorem run_of_gathered {w : World} {merged : Usage} {results : List (ItemResult (List PackageImport))}
    {bytes : List UInt8} {emptied : FileSystem} (hgathered : s.gathered w.files = .ok (merged, results))
    (hencode : Utf8.encode? merged.toJson.pretty = some bytes)
    (hwritable : w.files.write s.usageFile.text [] = .ok emptied) :
    ∃ w', s.run.outcome w = (.ok (s.reportOf w.files merged results), w') ∧
      w.files.write s.usageFile.text bytes = .ok w'.files := by
  obtain ⟨given, hrun⟩ := outcome_run s w
  obtain ⟨r, files, hwritten, hsave⟩ := outcome_save s.usageFile merged { w with notices := given }
  rw [hgathered] at hrun
  dsimp only at hrun
  rw [Action.outcome_bind, hsave] at hrun
  cases hwritten with
  | refused hrefused =>
    rw [hwritable] at hrefused
    cases hrefused
  | emptied _ hnone =>
    rw [hencode] at hnone
    cases hnone
  | done hbytes hwrite =>
    rw [hencode] at hbytes
    obtain rfl := Option.some.inj hbytes
    exact ⟨_, hrun, hwrite⟩

/-- A scan that fails has written nothing, or it has emptied the usage file for a text without an encoding. -/
theorem run_error {w w' : World} {e : Failure} (h : s.run.outcome w = (.error e, w')) :
    w'.files = w.files ∨ ∃ merged results, s.gathered w.files = .ok (merged, results) ∧
      Utf8.encode? (merged.toJson.pretty) = none ∧ w.files.write s.usageFile.text [] = .ok w'.files ∧
      e = .cause .notEncodable := by
  obtain ⟨given, hrun⟩ := outcome_run s w
  rw [hrun] at h
  cases hgathered : s.gathered w.files with
  | error e =>
    rw [hgathered] at h
    obtain ⟨-, rfl⟩ := Prod.mk.inj h
    exact .inl rfl
  | ok found =>
    obtain ⟨merged, results⟩ := found
    rw [hgathered] at h
    dsimp only at h
    obtain ⟨r, files, hwritten, hsave⟩ := outcome_save s.usageFile merged { w with notices := given }
    rw [Action.outcome_bind, hsave] at h
    cases hwritten with
    | refused hrefused =>
      obtain ⟨-, rfl⟩ := Prod.mk.inj h
      exact .inl rfl
    | emptied hempty hencode =>
      obtain ⟨he, rfl⟩ := Prod.mk.inj h
      exact .inr ⟨merged, results, rfl, hencode, hempty, (Except.error.inj he).symm⟩
    | done => cases h

end PackageExports.UsageScan
