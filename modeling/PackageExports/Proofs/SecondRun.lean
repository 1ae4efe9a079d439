import PackageExports.Proofs.Trees
import PackageExports.Proofs.UpdateRun

/-!
# A second run

After a run in a tree, each package that was updated is settled: its manifest holds the exports that were assembled for
it, and the paths that are still without an export have no targets. A package stays settled while other manifests are
written, so a second run gives the same exports and writes nothing.

Main results: `ExportsUpdate.settled_of_updateWith`, `ExportsUpdate.Steps.repeated`, `second_run_changes_nothing`.
-/

namespace PackageExports

namespace FileSystem

variable {fs after : FileSystem}

lemma readCompilerSettings_congr {package : Path} (h : after.skeleton = fs.skeleton)
    (hread : after.read (package.child "tsconfig.json").text = fs.read (package.child "tsconfig.json").text) :
    after.readCompilerSettings package = fs.readCompilerSettings package := by
  unfold readCompilerSettings
  dsimp only
  rw [isFile_congr h, readText_congr hread]

end FileSystem

lemma BuildLayout.recommend_eq {layout other : BuildLayout} {base : Settings} (htypes : layout.types = other.types)
    (hbuilds : layout.buildDirectories = other.buildDirectories)
    (hsources : layout.sourceDirectories = other.sourceDirectories) :
    layout.recommend base = other.recommend base := by
  rw [recommend, recommend, htypes, hbuilds, hsources]

lemma BuildLayout.recommend_congr {fs after : FileSystem} {package : Path} (base : Settings)
    (h : after.skeleton = fs.skeleton)
    (hread : after.read (package.child "tsconfig.json").text = fs.read (package.child "tsconfig.json").text) :
    (detect after package).result.map (·.recommend base) = (detect fs package).result.map (·.recommend base) := by
  have hdirectories (names endings : List Text) :
      directoriesWith after package names endings = directoriesWith fs package names endings :=
    FileSystem.eq_of_skeleton (directoriesWith · package names endings)
      (directoriesWith_skeleton · package names endings) h
  have htypes (builds : List Text) : typesLayoutOf after package builds = typesLayoutOf fs package builds := by
    have hdeclarations : Declaration.allBelow after package builds = Declaration.allBelow fs package builds :=
      FileSystem.eq_of_skeleton (Declaration.allBelow · package builds)
        (Declaration.allBelow_skeleton · package builds) h
    unfold typesLayoutOf
    rw [FileSystem.readCompilerSettings_congr h hread, hdeclarations]
  unfold detect buildDirectoriesOf sourceDirectoriesOf
  dsimp only
  rw [hdirectories, hdirectories, htypes]
  simp only [Attempt.result_bind]
  cases (typesLayoutOf fs package (directoriesWith fs package usualBuildDirectories compiledEndings)).result with
  | error e => simp only [Except.bind, Except.map]
  | ok types =>
    simp only [Except.bind, Except.map, Attempt.result_pure, Except.ok.injEq]
    apply recommend_eq <;> rfl

/-- The update as it is reported if nothing was written. -/
def PackageUpdate.unwritten (update : PackageUpdate) : PackageUpdate :=
  { update with written := false }

lemma Package.readIn_congr {fs after : FileSystem} {directory : Path} {members others : Json.Members}
    (hmembers : fs.readManifest (directory.child manifestName) = .ok members)
    (hothers : after.readManifest (directory.child manifestName) = .ok others)
    (hname : others.value? "name" = members.value? "name") :
    (readIn after directory).value.map Prod.fst = (readIn fs directory).value.map Prod.fst := by
  unfold readIn
  dsimp only
  rw [hmembers, hothers]
  dsimp only
  rw [hname]
  cases (members.value? "name").bind Json.nonemptyText? <;> rfl

namespace ExportsUpdate

variable {u : ExportsUpdate} {p : Package} {record : UsageRecord} {exports : Exports} {fs after : FileSystem}

lemma settingsIn_congr (h : after.skeleton = fs.skeleton)
    (hread : after.read (p.directory.child "tsconfig.json").text = fs.read (p.directory.child "tsconfig.json").text) :
    u.settingsIn after p = u.settingsIn fs p := by
  unfold settingsIn
  rw [BuildLayout.recommend_congr u.settings h hread]

/-- The manifest of a package has given exports, and the recorded paths without an export have no targets. -/
def Settled (u : ExportsUpdate) (fs : FileSystem) (p : Package) (record : UsageRecord) (exports : Exports) : Prop :=
  ∃ members manifest settings value, fs.readManifest p.manifest = .ok members ∧
    Manifest.ofMembers members = .ok manifest ∧ u.settingsIn fs p = .ok settings ∧
    Manifest.exportsOf members = some value ∧ Exports.ofJson value = exports ∧
    ∀ path ∈ record.importPaths, exports.hasKey path = false →
      Assembly.exportAt? fs { package := p.directory, manifest, usage := record, settings } path = none

lemma exportAt?_congr {a b : Assembly} {path : Text} (h : after.skeleton = fs.skeleton)
    (hrequest : a.request path = b.request path) : a.exportAt? after path = b.exportAt? fs path := by
  rw [Assembly.exportAt?, Assembly.exportAt?, Assembly.exportOf_congr h hrequest]

/-- A package stays settled while the files that its update reads stay as they are. -/
lemma Settled.congr (hsettled : Settled u fs p record exports) (h : after.skeleton = fs.skeleton)
    (hmanifest : after.read p.manifest.text = fs.read p.manifest.text)
    (hoptions : after.read (p.directory.child "tsconfig.json").text =
      fs.read (p.directory.child "tsconfig.json").text) : Settled u after p record exports := by
  obtain ⟨members, manifest, settings, value, hread, hmembers, hsettings, hvalue, hmeans, hrest⟩ := hsettled
  refine ⟨members, manifest, settings, value, ?_, hmembers, ?_, hvalue, hmeans, fun path hpath hkey => ?_⟩
  · rw [FileSystem.readManifest_congr hmanifest, hread]
  · rw [settingsIn_congr h hoptions, hsettings]
  · rw [exportAt?_congr h rfl, hrest path hpath hkey]

lemma Settled.outcome (hcontinue : u.settings.batch.continueOnError = true) (hdry : u.dryRun = false)
    (h : Settled u fs p record exports) (notices : List Notice) :
    ∃ given, (u.updateWith p record).outcome ⟨fs, notices⟩ =
      (.ok { name := p.name, exports, written := false }, ⟨fs, given⟩) := by
  obtain ⟨members, manifest, settings, value, hread, hmembers, hsettings, hvalue, rfl, hrest⟩ := h
  set a : Assembly := { package := p.directory, manifest, usage := record, settings } with ha
  have hassembly : u.assemblyIn fs p record = .ok a := by
    unfold assemblyIn manifestIn
    rw [hread]
    dsimp only
    rw [hmembers, hsettings]
    rfl
  have hbatch : a.settings.batch.continueOnError = true := by
    rw [ha, batch_settingsIn u hsettings, hcontinue]
  have hstart : a.start fs = .ok (Exports.ofJson value) := by
    rw [Assembly.start, ha, Manifest.ofMembers_exports hmembers, hvalue]
  have hadded : (Assembly.pending (Exports.ofJson value) a.usage).value.filterMap (a.exportAt? fs) = [] := by
    rw [List.filterMap_eq_nil_iff]
    intro path hpath
    obtain ⟨hrecorded, hkey⟩ := Assembly.mem_pending.mp hpath
    exact hrest path hrecorded hkey
  have hexports : (a.exportsInBatch fs).result = .ok (Exports.ofJson value) := by
    rw [Assembly.exportsInBatch_result fs a hbatch, hstart]
    simp only [Except.map, hadded, List.append_nil]
  have hin : (Exports.ofJson value).isIn members = true := by
    unfold Exports.isIn
    rw [(Manifest.exportsOf_eq_some.mp hvalue).1]
    exact decide_eq_true rfl
  obtain ⟨given, hrun, -⟩ := outcome_updateWith u p record ⟨fs, notices⟩
  refine ⟨notices ++ given, ?_⟩
  rw [hrun, hassembly]
  simp only [Except.bind, hexports]
  unfold write Exports.writeTo
  rw [if_neg (by simp [hdry])]
  simp only [Action.outcome_bind, Action.outcome_files, hread, hin, if_true, Action.outcome_pure]

/-- A recorded path without an export, once exports were looked for, has no targets. -/
lemma exportAt?_of_missing {a : Assembly} {start : Exports} {path : Text} (hpath : path ∈ a.usage.importPaths)
    (hmissing : Keyed.hasKey (start ++ (Assembly.pending start a.usage).value.filterMap (a.exportAt? fs)) path = false) :
    a.exportAt? fs path = none := by
  rw [Keyed.hasKey_eq_false, Keyed.keys_append, List.mem_append, not_or] at hmissing
  have hpending : path ∈ (Assembly.pending start a.usage).value :=
    Assembly.mem_pending.mpr ⟨hpath, Keyed.hasKey_eq_false.mpr hmissing.1⟩
  cases hexport : a.exportAt? fs path with
  | none => rfl
  | some q =>
    refine absurd ?_ hmissing.2
    rw [← ((Assembly.exportAt?_eq_some _ _).mp hexport).1]
    exact List.mem_map_of_mem (List.mem_filterMap.mpr ⟨path, hpending, hexport⟩)

lemma bySubpaths_added {a : Assembly} {start : Exports} (hstart : a.start fs = .ok start)
    (hdotted : ∀ path ∈ a.usage.importPaths, Text.startsWith path "." = true) :
    Exports.BySubpaths (start ++ (Assembly.pending start a.usage).value.filterMap (a.exportAt? fs)) := by
  refine (Assembly.bySubpaths_start hstart).append fun key hkey => hdotted key ?_
  have hpending := (Assembly.entries_spec fs a start).1.subset hkey
  exact (Assembly.mem_pending.mp hpending).1

/-- After its update a package is settled. -/
theorem settled_of_updateWith (hdry : u.dryRun = false)
    (hdotted : ∀ path ∈ record.importPaths, Text.startsWith path "." = true) {w w' : World} {update : PackageUpdate}
    (hapart : w.files.find (p.directory.child "tsconfig.json").text ≠ w.files.find p.manifest.text)
    (h : (u.updateWith p record).outcome w = (.ok update, w')) :
    update.name = p.name ∧ Settled u w'.files p record update.exports := by
  obtain ⟨a, exports, written, hassembly, hexports, rfl, hsaved, -⟩ := updateWith_ok u h
  refine ⟨rfl, ?_⟩
  obtain ⟨found, start, added, hfound, hmanifest, hstart, rfl, rfl, hkept, hexportsKept⟩ :=
    assembled_spec hassembly hexports
  obtain ⟨members, m, settings, hread, hmembers, hsettings, rfl⟩ := assemblyIn_ok u hassembly
  obtain rfl := Except.ok.inj (hfound.symm.trans hread)
  obtain ⟨left, notices⟩ := w'
  dsimp only at hsaved ⊢
  cases hsaved with
  | dry hdry' =>
    rw [hdry] at hdry'
    cases hdry'
  | unchanged _ hread' hin =>
    obtain rfl := Except.ok.inj (hread.symm.trans hread')
    obtain ⟨value, -, hvalue, rfl, hnone⟩ := Assembly.ofJson_of_isIn hstart hmanifest hin
    rw [hmanifest] at hvalue
    refine ⟨_, m, settings, value, hread, hmembers, hsettings, hvalue, ?_, fun path hpath hkey =>
      exportAt?_of_missing hpath hkey⟩
    rw [hnone, List.append_nil]
  | written _ hread' _ hencode hwrite =>
    obtain rfl := Except.ok.inj (hread.symm.trans hread')
    have hwritten := FileSystem.read_write hwrite
    obtain ⟨location, old, hfind, hentry, hafter⟩ := FileSystem.write_of_readManifest hread hwrite
    have hskeleton : left.skeleton = w.files.skeleton := by
      rw [hafter, FileSystem.skeleton_put _ _ hentry]
    have hoptions : left.read (p.directory.child "tsconfig.json").text =
        w.files.read (p.directory.child "tsconfig.json").text := by
      rw [hafter, FileSystem.read_put_of_ne hentry (hfind ▸ hapart)]
    refine ⟨_, _, settings, _, FileSystem.readManifest_of_encode hwritten hencode hkept hexportsKept,
      Manifest.ofMembers_insert (by simp) hmembers, ?_, ?_, Exports.ofJson_object (bySubpaths_added hstart hdotted), ?_⟩
    · rw [settingsIn_congr hskeleton hoptions, hsettings]
    · exact Manifest.exportsOf_eq_some.mpr ⟨Keyed.get?_insert_self _ _ _, by simp⟩
    · intro path hpath hkey
      rw [exportAt?_congr hskeleton rfl]
      exact exportAt?_of_missing hpath hkey

lemma outcome_passed {usage : Usage} (h : recordFor usage p = none) (fs : FileSystem) (notices : List Notice) :
    ∃ given, (u.update? usage p).outcome ⟨fs, notices⟩ = (.ok none, ⟨fs, given⟩) := by
  rw [update?_eq, h]
  dsimp only
  split_ifs
  · exact ⟨_, rfl⟩
  · exact ⟨_, rfl⟩

/-- After a run over packages with manifests of their own, the same run gives the same exports and writes nothing. -/
theorem Steps.repeated (hcontinue : u.settings.batch.continueOnError = true) (hdry : u.dryRun = false) {usage : Usage}
    (hdotted : ∀ q ∈ usage, ∀ path ∈ q.2.importPaths, Text.startsWith path "." = true) {packages : List Package}
    {w w' : World} {updates : List PackageUpdate} (h : Steps u usage packages w w' updates)
    (hmanifests : packages.Pairwise fun p q => w.files.find p.manifest.text ≠ w.files.find q.manifest.text)
    (hoptions : ∀ p ∈ packages, ∀ q ∈ packages,
      w.files.find (p.directory.child "tsconfig.json").text ≠ w.files.find q.manifest.text) :
    ∀ notices, ∃ given, (u.updateAll usage packages).outcome ⟨w'.files, notices⟩ =
      (.ok (updates.map PackageUpdate.unwritten), ⟨w'.files, given⟩) := by
  induction h with
  | nil w => exact fun notices => ⟨notices, rfl⟩
  | @cons p rest w mid w' update updates hstep hrest ih =>
    obtain ⟨hskeleton, -⟩ := hstep.frame
    obtain ⟨hfirst, hothers⟩ := List.pairwise_cons.mp hmanifests
    have hself := hoptions p List.mem_cons_self p List.mem_cons_self
    have hrepeat := ih
      (hothers.imp fun hne => by rwa [FileSystem.find_congr hskeleton, FileSystem.find_congr hskeleton])
      (fun q hq r hr => by
        rw [FileSystem.find_congr hskeleton, FileSystem.find_congr hskeleton]
        exact hoptions q (List.mem_cons_of_mem _ hq) r (List.mem_cons_of_mem _ hr))
    -- the later steps leave alone what the update of `p` reads
    obtain ⟨hlater, hreads⟩ := hrest.frame
    have hmanifest := hreads p.manifest.text fun q hq => by
      rw [FileSystem.find_congr hskeleton, FileSystem.find_congr hskeleton]
      exact hfirst q hq
    have hconfig := hreads (p.directory.child "tsconfig.json").text fun q hq => by
      rw [FileSystem.find_congr hskeleton, FileSystem.find_congr hskeleton]
      exact hoptions p List.mem_cons_self q (List.mem_cons_of_mem _ hq)
    have hupdate : ∀ notices, ∃ given, (u.update? usage p).outcome ⟨w'.files, notices⟩ =
        (.ok (update.map PackageUpdate.unwritten), ⟨w'.files, given⟩) := by
      intro notices
      cases hstep with
      | passed hnone => exact outcome_passed hnone _ _
      | updated hrecord hupdated =>
        rename_i record update
        have hmem : (p.name, record) ∈ usage :=
          Keyed.mem_of_get? (Option.filter_eq_some_iff.mp hrecord).1
        obtain ⟨hname, hsettled⟩ := settled_of_updateWith hdry (hdotted _ hmem) hself hupdated
        obtain ⟨given, houtcome⟩ :=
          (hsettled.congr hlater hmanifest hconfig).outcome hcontinue hdry notices
        refine ⟨given, ?_⟩
        rw [update?_eq, hrecord]
        dsimp only
        rw [Action.outcome_map, houtcome, ← hname]
        rfl
    intro notices
    obtain ⟨given, hfirstRun⟩ := hupdate notices
    obtain ⟨last, hlastRun⟩ := hrepeat given
    refine ⟨last, ?_⟩
    rw [updateAll, Action.outcome_bind_ok hfirstRun, Action.outcome_bind_ok hlastRun, List.map_append]
    cases update <;> rfl

/-- A step leaves each directory its package. -/
lemma Step.keeps_package {usage : Usage} {w w' : World} {update : Option PackageUpdate}
    (h : Step u usage p w w' update) (directory : Path) :
    (Package.readIn w'.files directory).value.map Prod.fst =
      (Package.readIn w.files directory).value.map Prod.fst := by
  rcases h.readManifest (directory.child Package.manifestName) with hsame | hwritten
  · unfold Package.readIn
    dsimp only
    rw [hsame]
  · obtain ⟨members, start, added, hbefore, hafter, -⟩ := hwritten
    exact Package.readIn_congr hbefore hafter (Manifest.value?_insert _ (by decide))

end ExportsUpdate

namespace Package

lemma readAll_packages (fs : FileSystem) (directories : List Path) :
    (readAll fs directories).value.map Prod.fst =
      directories.filterMap fun directory => (readIn fs directory).value.map Prod.fst := by
  induction directories with
  | nil => rfl
  | cons directory rest ih =>
    have hvalue : (readAll fs (directory :: rest)).value =
        (readIn fs directory).value.toList ++ (readAll fs rest).value := rfl
    rw [hvalue, List.map_append, ih, List.filterMap_cons]
    cases (readIn fs directory).value <;> rfl

lemma findAll_congr {fs after : FileSystem} (root : Path) (ignored : List Text) (h : after.skeleton = fs.skeleton)
    (hpackages : ∀ directory, (readIn after directory).value.map Prod.fst = (readIn fs directory).value.map Prod.fst) :
    (findAll after root ignored).value = (findAll fs root ignored).value := by
  have hdirectories : directoriesBelow after root ignored = directoriesBelow fs root ignored := by
    unfold directoriesBelow
    rw [FileSystem.eq_of_skeleton (·.filesBelow root.text _) (FileSystem.filesBelow_skeleton · root.text _) h]
  have hvalue (fs : FileSystem) : (findAll fs root ignored).value =
      (readAll fs (directoriesBelow fs root ignored)).value.map Prod.fst := rfl
  rw [hvalue, hvalue, readAll_packages, readAll_packages, hdirectories]
  exact List.filterMap_congr fun directory _ => hpackages directory

end Package

namespace ExportsUpdate

variable {u : ExportsUpdate} {fs after : FileSystem}

lemma Steps.findAll_eq {usage : Usage} {packages : List Package} {w w' : World} {updates : List PackageUpdate}
    (h : Steps u usage packages w w' updates) (root : Path) (ignored : List Text) :
    (Package.findAll w'.files root ignored).value = (Package.findAll w.files root ignored).value := by
  obtain ⟨hskeleton, hpackages⟩ := h.preserves
    (fun fs => fs.skeleton = w.files.skeleton ∧ ∀ directory, (Package.readIn fs directory).value.map Prod.fst =
      (Package.readIn w.files directory).value.map Prod.fst)
    (fun p _ before later _ hstep hkept => ⟨hstep.frame.1.trans hkept.1, fun directory =>
      (hstep.keeps_package directory).trans (hkept.2 directory)⟩)
    ⟨rfl, fun _ => rfl⟩
  exact Package.findAll_congr root ignored hskeleton hpackages

/-- What a usage file says that is no manifest of a package is the same after a run. -/
theorem load_eq_of_apart {w w' : World} {updates : List PackageUpdate} (h : u.run.outcome w = (.ok updates, w'))
    (hapart : ∀ p ∈ (Package.findAll w.files u.directory u.settings.packageIgnore).value,
      w.files.find u.usageFile.text ≠ w.files.find p.manifest.text) :
    Usage.load w'.files u.usageFile.text = Usage.load w.files u.usageFile.text := by
  obtain ⟨usage, packages, after, hplan, hupdates, hfiles, -⟩ := u.run_ok h
  have hsub := u.sublist_of_packagesIn (u.planIn_eq_ok.mp hplan).2
  have hread := (u.steps_of_updateAll hupdates).frame.2 _ fun p hp => hapart p (hsub.subset hp)
  unfold Usage.load Usage.readValue
  rw [hfiles, FileSystem.readText_congr hread]

end ExportsUpdate

/-- After a run in a tree that left the recorded usage as it was, a second run gives the same exports and writes
nothing. -/
theorem second_run_changes_nothing {u : ExportsUpdate} {w w' : World} {updates : List PackageUpdate}
    (htree : w.files.IsTree) (hdry : u.dryRun = false) (hcontinue : u.settings.batch.continueOnError = true)
    (hdotted : ∀ usage, (Usage.load w.files u.usageFile.text).result = .ok usage →
      ∀ q ∈ usage, ∀ path ∈ q.2.importPaths, Text.startsWith path "." = true)
    (hrun : u.run.outcome w = (.ok updates, w'))
    (husage : (Usage.load w'.files u.usageFile.text).result = (Usage.load w.files u.usageFile.text).result) :
    ∀ notices, ∃ given, u.run.outcome ⟨w'.files, notices⟩ =
      (.ok (updates.map PackageUpdate.unwritten), ⟨w'.files, given⟩) := by
  intro notices
  obtain ⟨usage, packages, after, hplan, hupdates, hfiles, -⟩ := u.run_ok hrun
  obtain ⟨hload, hpackages⟩ := u.planIn_eq_ok.mp hplan
  have hsteps := u.steps_of_updateAll hupdates
  have hsub := u.sublist_of_packagesIn hpackages
  obtain ⟨hmanifests, hoptions⟩ := Package.apart_findAll htree u.directory u.settings.packageIgnore
  obtain ⟨given, hagain⟩ := hsteps.repeated hcontinue hdry (hdotted usage hload) (hmanifests.sublist hsub)
    (fun p hp q hq => hoptions p (hsub.subset hp) q (hsub.subset hq)) (notices ++ u.readingNotices w'.files)
  have hplan' : u.planIn w'.files = .ok (usage, packages) := by
    rw [u.planIn_eq_ok, husage, hfiles, u.packagesIn_congr (hsteps.findAll_eq _ _)]
    exact ⟨hload, hpackages⟩
  refine ⟨given ++ [.exportsProcessed (updates.map PackageUpdate.unwritten).length], ?_⟩
  rw [u.outcome_run, hplan']
  dsimp only
  rw [hfiles] at hagain ⊢
  rw [Action.outcome_bind_ok hagain]
  rfl

namespace Repeated

def update (directory usageFile : List Text) : ExportsUpdate where
  directory := ⟨.relative, directory⟩
  usageFile := ⟨.relative, usageFile⟩

/-- A package with an export, and a usage file with a path that has none. -/
def files : FileSystem :=
  ((FileSystem.empty.put ["usage.json"]
    (.file ((Utf8.encode? "\x7b\"b\": \x7b\"importPaths\": [\"./x\"]\x7d\x7d").getD []))).put ["b"] .directory).put
    ["b", "package.json"]
    (.file ((Utf8.encode? "\x7b\"name\": \"b\", \"exports\": \x7b\"./y\": \"./y.js\"\x7d\x7d").getD []))

/-- A manifest in which the exports have the form of a record of usage. -/
def manifestAsUsage : FileSystem :=
  FileSystem.empty.put ["package.json"]
    (.file ((Utf8.encode? "\x7b\"name\": \"exports\", \"exports\": \x7b\"importPaths\": [\"./x\"]\x7d\x7d").getD []))

lemma isTree_files : files.IsTree :=
  ((FileSystem.isTree_empty.put (by decide) (by decide) (by simp)).put (by decide) (by decide) (by simp)).put
    (by decide) (by decide) (by simp)

lemma isTree_manifestAsUsage : manifestAsUsage.IsTree :=
  FileSystem.isTree_empty.put (by decide) (by decide) (by simp)

/-- Whether all paths in a usage file start with a point. -/
def dotted (fs : FileSystem) (path : Text) : Bool :=
  match (Usage.load fs path).result with
  | .ok usage => usage.all fun q => q.2.importPaths.all (Text.startsWith · ".")
  | .error _ => true

lemma startsWith_of_dotted {fs : FileSystem} {path : Text} (h : dotted fs path = true) :
    ∀ usage, (Usage.load fs path).result = .ok usage →
      ∀ q ∈ usage, ∀ path ∈ q.2.importPaths, Text.startsWith path "." = true := by
  intro usage husage q hq path hpath
  unfold dotted at h
  rw [husage] at h
  exact List.all_eq_true.mp (List.all_eq_true.mp h q hq) path hpath

/-- The only update of a run, with the world that it left. -/
def single? : Except Failure (List PackageUpdate) × World → Option (PackageUpdate × World)
  | (.ok [update], w) => some (update, w)
  | _ => none

/-- Whether a run gave results without an update. -/
def isIdle : Except Failure (List PackageUpdate) × World → Bool
  | (.ok [], _) => true
  | _ => false

lemma single?_eq_some {r : Except Failure (List PackageUpdate) × World} {update : PackageUpdate} {w : World}
    (h : single? r = some (update, w)) : r = (.ok [update], w) := by
  unfold single? at h
  split at h
  · obtain ⟨rfl, rfl⟩ := Prod.mk.inj (Option.some.inj h)
    rfl
  · cases h

lemma isIdle_iff {r : Except Failure (List PackageUpdate) × World} (h : isIdle r = true) : r = (.ok [], r.2) := by
  unfold isIdle at h
  split at h
  · rfl
  · cases h

lemma files_outcome : ∃ updated w', (update ["b"] ["usage.json"]).run.outcome ⟨files, []⟩ = (.ok [updated], w') ∧
    updated.written = true := by
  have hfirst : ((single? ((update ["b"] ["usage.json"]).run.outcome ⟨files, []⟩)).any fun p => p.1.written) = true := by
    decide +kernel
  obtain ⟨⟨updated, w'⟩, hsingle, hwritten⟩ := (Option.any_eq_true _ _).mp hfirst
  exact ⟨updated, w', single?_eq_some hsingle, hwritten⟩

lemma usage_apart : ((Package.findAll files ⟨.relative, ["b"]⟩ ["node_modules", "dist", "build"]).value.all fun p =>
    files.find "usage.json" != files.find p.manifest.text) = true := by decide +kernel

end Repeated

/-- An update that writes an export is followed by one that writes nothing. -/
theorem second_run_changes_nothing_package : ∃ update w',
    (Repeated.update ["b"] ["usage.json"]).run.outcome ⟨Repeated.files, []⟩ = (.ok [update], w') ∧
      update.written = true ∧ ∃ given, (Repeated.update ["b"] ["usage.json"]).run.outcome ⟨w'.files, []⟩ =
        (.ok [update.unwritten], ⟨w'.files, given⟩) := by
  obtain ⟨update, w', hrun, hwritten⟩ := Repeated.files_outcome
  have husage := (Repeated.update ["b"] ["usage.json"]).load_eq_of_apart hrun fun p hp =>
    bne_iff_ne.mp (List.all_eq_true.mp Repeated.usage_apart p hp)
  have hsecond := second_run_changes_nothing Repeated.isTree_files rfl rfl
    (Repeated.startsWith_of_dotted (by decide +kernel)) hrun (congrArg _ husage) []
  exact ⟨update, w', hrun, hwritten, hsecond⟩

/-- If the usage file is the manifest of a package, an update may change the usage: here the first one updates a
package, and the next one none. -/
theorem second_run_of_manifest_as_usage : Repeated.manifestAsUsage.IsTree ∧
    (∀ usage, (Usage.load Repeated.manifestAsUsage "package.json").result = .ok usage →
      ∀ q ∈ usage, ∀ path ∈ q.2.importPaths, Text.startsWith path "." = true) ∧
    ∃ update w' w'', (Repeated.update [] ["package.json"]).run.outcome ⟨Repeated.manifestAsUsage, []⟩ =
        (.ok [update], w') ∧
      (Repeated.update [] ["package.json"]).run.outcome ⟨w'.files, []⟩ = (.ok [], w'') := by
  have hruns : ((Repeated.single? ((Repeated.update [] ["package.json"]).run.outcome ⟨Repeated.manifestAsUsage, []⟩)).any
      fun p => Repeated.isIdle ((Repeated.update [] ["package.json"]).run.outcome ⟨p.2.files, []⟩)) = true := by
    decide +kernel
  obtain ⟨⟨update, w'⟩, hsingle, hidle⟩ := (Option.any_eq_true _ _).mp hruns
  exact ⟨Repeated.isTree_manifestAsUsage, Repeated.startsWith_of_dotted (by decide +kernel), update, w', _,
    Repeated.single?_eq_some hsingle, Repeated.isIdle_iff hidle⟩

end PackageExports
