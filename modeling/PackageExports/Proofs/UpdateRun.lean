import PackageExports.Proofs.PackageUpdate

/-!
# The course of an update

A run reads the usage and looks for packages, and then updates them one after the other. What an update that gives a
result does to the files is one of three things (`ExportsUpdate.Effect`), and what all updates keep holds along the run.

Main results: `ExportsUpdate.outcome_run`, `ExportsUpdate.updateWith_ok`, `ExportsUpdate.Step.effect`,
`ExportsUpdate.run_ok`.
-/

namespace PackageExports.ExportsUpdate

variable (u : ExportsUpdate)

def packagesIn (fs : FileSystem) : Except Failure (List Package) :=
  let all := (Package.findAll fs u.directory u.settings.packageIgnore).value
  match u.wanted with
  | none => .ok all
  | some name =>
    match all.filter fun p => p.name = name with
    | [] => .error (.packageUnknown name)
    | chosen => .ok chosen

lemma outcome_packages (w : World) :
    u.packages.outcome w =
      (u.packagesIn w.files,
        { w with notices := w.notices ++ (Package.findAll w.files u.directory u.settings.packageIgnore).notices }) := by
  unfold packages packagesIn
  rw [Action.outcome_bind, Action.outcome_files]
  dsimp only
  rw [Action.outcome_bind, Action.outcome_ofNoted]
  dsimp only
  cases u.wanted with
  | none => rfl
  | some name =>
    dsimp only
    cases (Package.findAll w.files u.directory u.settings.packageIgnore).value.filter fun p => p.name = name <;> rfl

section

variable {fs after : FileSystem}

lemma packagesIn_all (hwanted : u.wanted = none) :
    u.packagesIn fs = .ok (Package.findAll fs u.directory u.settings.packageIgnore).value := by
  unfold packagesIn
  rw [hwanted]

lemma packagesIn_named {name : Text} (hname : u.packageName = some name) (hne : name ≠ [])
    (hp : ∃ p ∈ (Package.findAll fs u.directory u.settings.packageIgnore).value, p.name = name) :
    u.packagesIn fs = .ok ((Package.findAll fs u.directory u.settings.packageIgnore).value.filter
      fun p => p.name = name) := by
  have hwanted : u.wanted = some name := by
    rw [wanted, hname, Option.filter_some, if_pos (by simpa using hne)]
  obtain ⟨p, hmem, hpname⟩ := hp
  unfold packagesIn
  rw [hwanted]
  dsimp only
  split
  · rename_i hempty
    have hchosen : p ∈ (Package.findAll fs u.directory u.settings.packageIgnore).value.filter
        fun p => p.name = name := List.mem_filter.mpr ⟨hmem, decide_eq_true hpname⟩
    rw [hempty] at hchosen
    cases hchosen
  · rfl

lemma sublist_of_packagesIn {packages : List Package} (h : u.packagesIn fs = .ok packages) :
    packages.Sublist (Package.findAll fs u.directory u.settings.packageIgnore).value := by
  unfold packagesIn at h
  dsimp only at h
  split at h
  · obtain rfl := Except.ok.inj h
    exact List.Sublist.refl _
  · split at h
    · cases h
    · obtain rfl := Except.ok.inj h
      exact List.filter_sublist

lemma packagesIn_congr
    (h : (Package.findAll after u.directory u.settings.packageIgnore).value =
      (Package.findAll fs u.directory u.settings.packageIgnore).value) : u.packagesIn after = u.packagesIn fs := by
  unfold packagesIn
  rw [h]

end

/-- What a run reads before the first update. -/
def planIn (fs : FileSystem) : Except Failure (Usage × List Package) := do
  let usage ← (Usage.load fs u.usageFile.text).result
  return (usage, ← u.packagesIn fs)

lemma planIn_eq_ok {fs : FileSystem} {usage : Usage} {packages : List Package} :
    u.planIn fs = .ok (usage, packages) ↔
      (Usage.load fs u.usageFile.text).result = .ok usage ∧ u.packagesIn fs = .ok packages := by
  unfold planIn
  cases (Usage.load fs u.usageFile.text).result with
  | error e => simp [bind, Except.bind]
  | ok found =>
    cases u.packagesIn fs with
    | error e => simp [bind, Except.bind]
    | ok chosen => simp [bind, Except.bind, pure, Except.pure]

def firstNotice : Notice :=
  match u.wanted with
  | some name => .generatingFor name
  | none => .generatingBelow u.directory

def readingNotices (fs : FileSystem) : List Notice :=
  [u.firstNotice] ++ (Usage.load fs u.usageFile.text).notices ++
    match (Usage.load fs u.usageFile.text).result with
    | .ok usage => [.usageLoaded usage.length] ++ (Package.findAll fs u.directory u.settings.packageIgnore).notices
    | .error _ => []

lemma run_eq :
    u.run = (do
      Action.note u.firstNotice
      let usage ← Action.ofAttempt (Usage.load (← Action.files) u.usageFile.text)
      Action.note (.usageLoaded usage.length)
      let updates ← u.updateAll usage (← u.packages)
      Action.note (.exportsProcessed updates.length)
      return updates) := by
  unfold run firstNotice
  cases u.wanted <;> rfl

/-- A run is its reading and then its updates. -/
theorem outcome_run (w : World) :
    u.run.outcome w =
      match u.planIn w.files with
      | .error e => (.error e, { w with notices := w.notices ++ u.readingNotices w.files })
      | .ok (usage, packages) =>
        (do
          let updates ← u.updateAll usage packages
          Action.note (.exportsProcessed updates.length)
          return updates : Action (List PackageUpdate)).outcome
          { w with notices := w.notices ++ u.readingNotices w.files } := by
  rw [run_eq, Action.outcome_bind, Action.outcome_note]
  dsimp only
  rw [Action.outcome_bind, Action.outcome_files]
  dsimp only
  rw [Action.outcome_bind, Action.outcome_ofAttempt]
  unfold planIn readingNotices
  cases (Usage.load w.files u.usageFile.text).result with
  | error e =>
    simp only [List.append_assoc, List.append_nil]
    rfl
  | ok usage =>
    dsimp only
    rw [Action.outcome_bind, Action.outcome_note]
    dsimp only
    rw [Action.outcome_bind, outcome_packages]
    simp only [List.append_assoc]
    cases u.packagesIn w.files <;> rfl

/-- A run that gives updates has made them from the usage and the packages that it read. -/
theorem run_ok {w w' : World} {updates : List PackageUpdate} (h : u.run.outcome w = (.ok updates, w')) :
    ∃ usage packages after, u.planIn w.files = .ok (usage, packages) ∧
      (u.updateAll usage packages).outcome { w with notices := w.notices ++ u.readingNotices w.files } =
        (.ok updates, after) ∧ w'.files = after.files ∧ after.notices ⊆ w'.notices := by
  rw [outcome_run] at h
  cases hplan : u.planIn w.files with
  | error e =>
    rw [hplan] at h
    cases h
  | ok plan =>
    obtain ⟨usage, packages⟩ := plan
    rw [hplan] at h
    obtain ⟨found, after, hupdates, hrest⟩ := Action.of_bind_ok h
    obtain ⟨hfound, rfl⟩ := Prod.mk.inj hrest
    obtain rfl := Except.ok.inj hfound
    exact ⟨usage, packages, after, rfl, hupdates, rfl, List.subset_append_left _ _⟩

/-- The record that a package is updated with. -/
def recordFor (usage : Usage) (p : Package) : Option UsageRecord :=
  (usage.get? p.name).filter (!·.importPaths.isEmpty)

lemma update?_eq (usage : Usage) (p : Package) :
    u.update? usage p =
      match recordFor usage p with
      | some record => some <$> u.updateWith p record
      | none => do
        if u.wanted.isSome then Action.note (.usageAbsent p.name)
        return none :=
  rfl

/-- An update that gives a result has assembled the exports and saved them. -/
theorem updateWith_ok {p : Package} {record : UsageRecord} {w w' : World} {update : PackageUpdate}
    (h : (u.updateWith p record).outcome w = (.ok update, w')) :
    ∃ a exports written, u.assemblyIn w.files p record = .ok a ∧ (a.exportsInBatch w.files).result = .ok exports ∧
      update = { name := p.name, exports, written } ∧ Saved u w.files p exports (.ok written) w'.files ∧
      w.notices ⊆ w'.notices ∧ (a.exportsInBatch w.files).notices ⊆ w'.notices := by
  obtain ⟨given, hrun, hgiven⟩ := outcome_updateWith u p record w
  rw [hrun] at h
  cases hassembled : (u.assemblyIn w.files p record).bind fun a => (a.exportsInBatch w.files).result with
  | error e =>
    rw [hassembled] at h
    cases h
  | ok exports =>
    obtain ⟨a, hassembly, hexports⟩ := bind_ok_iff.mp hassembled
    rw [hassembled] at h
    obtain ⟨r, files, hwrite, hsaved⟩ := outcome_write u p exports { w with notices := w.notices ++ given }
    obtain ⟨written, after, hwritten, hrest⟩ := Action.of_bind_ok h
    rw [hwrite] at hwritten
    obtain ⟨rfl, rfl⟩ := Prod.mk.inj hwritten
    obtain ⟨hupdate, rfl⟩ := Prod.mk.inj hrest
    exact ⟨a, exports, written, hassembly, hexports, (Except.ok.inj hupdate).symm, hsaved,
      List.subset_append_left _ _, List.Subset.trans (hgiven a hassembly) (List.subset_append_right _ _)⟩

/-- One update along a run: of a package with a record, or of one without. -/
inductive Step (usage : Usage) (p : Package) (w w' : World) : Option PackageUpdate → Prop
  | updated {record : UsageRecord} {update : PackageUpdate} : recordFor usage p = some record →
      (u.updateWith p record).outcome w = (.ok update, w') → Step usage p w w' (some update)
  | passed : recordFor usage p = none → w'.files = w.files → w.notices ⊆ w'.notices → Step usage p w w' none

lemma step_of_update? {usage : Usage} {p : Package} {w w' : World} {update : Option PackageUpdate}
    (h : (u.update? usage p).outcome w = (.ok update, w')) : Step u usage p w w' update := by
  rw [update?_eq] at h
  cases hrecord : recordFor usage p with
  | some record =>
    rw [hrecord, Action.outcome_map] at h
    rcases hupdate : (u.updateWith p record).outcome w with ⟨e | found, after⟩ <;> rw [hupdate] at h
    · cases h
    · obtain ⟨hfound, rfl⟩ := Prod.mk.inj h
      obtain rfl := Except.ok.inj hfound
      exact .updated hrecord hupdate
  | none =>
    rw [hrecord] at h
    dsimp only at h
    split_ifs at h
    · obtain ⟨hnone, rfl⟩ := Prod.mk.inj h
      obtain rfl := Except.ok.inj hnone
      exact .passed hrecord rfl (List.subset_append_left _ _)
    · obtain ⟨hnone, rfl⟩ := Prod.mk.inj h
      obtain rfl := Except.ok.inj hnone
      exact .passed hrecord rfl (List.Subset.refl _)

/-- Updates of a row of packages that all give results. -/
inductive Steps (usage : Usage) : List Package → World → World → List PackageUpdate → Prop
  | nil (w : World) : Steps usage [] w w []
  | cons {p : Package} {rest : List Package} {w mid w' : World} {update : Option PackageUpdate}
      {updates : List PackageUpdate} : Step u usage p w mid update → Steps usage rest mid w' updates →
      Steps usage (p :: rest) w w' (update.toList ++ updates)

lemma steps_of_updateAll {usage : Usage} {packages : List Package} {w w' : World} {updates : List PackageUpdate}
    (h : (u.updateAll usage packages).outcome w = (.ok updates, w')) : Steps u usage packages w w' updates := by
  induction packages generalizing w updates with
  | nil =>
    obtain ⟨hupdates, rfl⟩ := Prod.mk.inj h
    obtain rfl := Except.ok.inj hupdates
    exact .nil _
  | cons p rest ih =>
    rw [updateAll] at h
    obtain ⟨update, mid, hfirst, hrest⟩ := Action.of_bind_ok h
    obtain ⟨others, after, hothers, hreturn⟩ := Action.of_bind_ok hrest
    obtain ⟨hupdates, rfl⟩ := Prod.mk.inj hreturn
    obtain rfl := Except.ok.inj hupdates
    exact .cons (step_of_update? u hfirst) (ih hothers)

variable {u}

/-- The exports that are assembled for a package go on from those in its manifest. -/
lemma assembled_spec {p : Package} {record : UsageRecord} {a : Assembly} {exports : Exports} {fs : FileSystem}
    (hassembly : u.assemblyIn fs p record = .ok a) (hexports : (a.exportsInBatch fs).result = .ok exports) :
    ∃ members start added, fs.readManifest p.manifest = .ok members ∧ a.manifest.exports = Manifest.exportsOf members ∧
      a.start fs = .ok start ∧ exports = start ++ added ∧
      added = (Assembly.pending start a.usage).value.filterMap (a.exportAt? fs) ∧
      (Json.object members).Kept ∧ (Json.object exports).Kept := by
  obtain ⟨members, m, settings, hread, hmanifest, -, rfl⟩ := assemblyIn_ok u hassembly
  have hkept := FileSystem.kept_of_readManifest hread
  have hmembers : m.exports = Manifest.exportsOf members := Manifest.ofMembers_exports hmanifest
  obtain ⟨start, added, hstart, happend, hadded, hexportsKept⟩ := Assembly.exportsInBatch_spec (by
    intro value hvalue
    rw [hmembers] at hvalue
    have hmember := (Manifest.exportsOf_eq_some.mp hvalue).1
    rw [Json.Kept, Json.keptMembers_iff] at hkept
    exact hkept.2 _ (Keyed.mem_of_get? hmember)) hexports
  exact ⟨members, start, added, hread, hmembers, hstart, happend, hadded, hkept, hexportsKept⟩

lemma Step.notices_subset {usage : Usage} {p : Package} {w w' : World} {update : Option PackageUpdate}
    (h : Step u usage p w w' update) : w.notices ⊆ w'.notices := by
  cases h with
  | updated _ hupdate =>
    obtain ⟨-, -, -, -, -, -, -, hnotices, -⟩ := updateWith_ok u hupdate
    exact hnotices
  | passed _ _ hnotices => exact hnotices

lemma Steps.notices_subset {usage : Usage} {packages : List Package} {w w' : World} {updates : List PackageUpdate}
    (h : Steps u usage packages w w' updates) : w.notices ⊆ w'.notices := by
  induction h with
  | nil => exact List.Subset.refl _
  | cons hstep _ ih => exact List.Subset.trans hstep.notices_subset ih

/-- What an update of a package may do to files: nothing, or it puts exports into the manifest that go on from those
before. -/
inductive Effect (u : ExportsUpdate) (p : Package) (fs : FileSystem) : Option PackageUpdate → FileSystem → Prop
  | passed : Effect u p fs none fs
  | kept (exports : Exports) : Effect u p fs (some { name := p.name, exports, written := false }) fs
  | written {members : Json.Members} {start added : Exports} {location : Location} {old new : List UInt8} :
      u.dryRun = false → fs.find p.manifest.text = .ok location → fs.entryAt? location = some (.file old) →
      Json.Members.ofBytes old = .ok members → (Json.object members).Kept →
      Json.Members.ofBytes new = .ok (Keyed.insert (Text.ofString "exports") (.object (start ++ added)) members) →
      (∀ value, Manifest.exportsOf members = some value → start = Exports.ofJson value) →
      Effect u p fs (some { name := p.name, exports := start ++ added, written := true })
        (fs.put location (.file new))

/-- A step does no more to files than that. -/
theorem Step.effect {usage : Usage} {p : Package} {w w' : World} {update : Option PackageUpdate}
    (h : Step u usage p w w' update) : Effect u p w.files update w'.files := by
  cases h with
  | passed _ hfiles =>
    rw [hfiles]
    exact .passed
  | updated _ hupdate =>
    obtain ⟨a, exports, _, hassembly, hexports, rfl, hsaved, -⟩ := updateWith_ok u hupdate
    obtain ⟨left, notices⟩ := w'
    dsimp only at hsaved ⊢
    cases hsaved with
    | dry | unchanged => exact .kept exports
    | written hdry hread _ hencode hwrite =>
      have hwritten := FileSystem.read_write hwrite
      obtain ⟨location, old, hfind, hentry, rfl⟩ := FileSystem.write_of_readManifest hread hwrite
      obtain ⟨members, start, added, hfound, hmanifest, hstart, rfl, -, hkept, hexportsKept⟩ :=
        assembled_spec hassembly hexports
      obtain rfl := Except.ok.inj (hfound.symm.trans hread)
      have hnew := FileSystem.readManifest_of_encode hwritten hencode hkept hexportsKept
      rw [FileSystem.readManifest_of_read hwritten] at hnew
      rw [FileSystem.readManifest_of_read (FileSystem.read_of_find hfind hentry)] at hread
      refine .written hdry hfind hentry hread hkept hnew fun value hvalue => ?_
      rw [Assembly.start, hmanifest, hvalue] at hstart
      exact (Except.ok.inj hstart).symm

variable {p : Package} {fs after : FileSystem} {update : Option PackageUpdate}

lemma Effect.entryAt?_eq (h : Effect u p fs update after) {location : Location}
    (hother : update.isSome → fs.find p.manifest.text ≠ .ok location) :
    after.entryAt? location = fs.entryAt? location := by
  cases h with
  | passed | kept => rfl
  | written _ hfind =>
    refine FileSystem.entryAt?_put_of_ne fs _ ?_
    rintro rfl
    exact hother rfl hfind

/-- A step changes no file but the manifest of its package, and that one in its content only. -/
lemma Step.frame {usage : Usage} {w w' : World} (h : Step u usage p w w' update) :
    w'.files.skeleton = w.files.skeleton ∧
      ∀ path, w.files.find path ≠ w.files.find p.manifest.text → w'.files.read path = w.files.read path := by
  have heffect := h.effect
  generalize w'.files = after at heffect ⊢
  cases heffect with
  | passed | kept => exact ⟨rfl, fun _ _ => rfl⟩
  | written _ hfind hentry =>
    exact ⟨FileSystem.skeleton_put _ _ hentry, fun path hne => FileSystem.read_put_of_ne hentry (hfind ▸ hne)⟩

/-- A step leaves what a path holds as a manifest, or it puts exports there that go on from those before. -/
theorem Step.readManifest {usage : Usage} {w w' : World} (h : Step u usage p w w' update) (manifest : Path) :
    w'.files.readManifest manifest = w.files.readManifest manifest ∨
      ∃ members start added, w.files.readManifest manifest = .ok members ∧
        w'.files.readManifest manifest =
          .ok (Keyed.insert (Text.ofString "exports") (.object (start ++ added)) members) ∧
        ∀ value, Manifest.exportsOf members = some value → start = Exports.ofJson value := by
  have heffect := h.effect
  generalize w'.files = after at heffect ⊢
  cases heffect with
  | passed | kept => exact .inl rfl
  | @written members start added location old new _ hfind hentry hold _ hnew hstart =>
    by_cases hplace : w.files.find manifest.text = .ok location
    · refine .inr ⟨members, start, added, ?_, ?_, hstart⟩
      · rw [FileSystem.readManifest_of_read (FileSystem.read_of_find hplace hentry), hold]
      · rw [FileSystem.readManifest_of_read (FileSystem.read_put_self hentry hplace), hnew]
    · exact .inl (FileSystem.readManifest_congr (FileSystem.read_put_of_ne hentry hplace))

/-- What the steps of the packages keep is kept by a run. -/
lemma Steps.preserves {usage : Usage} {packages : List Package} {w w' : World} {updates : List PackageUpdate}
    (h : Steps u usage packages w w' updates) (invariant : FileSystem → Prop)
    (hkeep : ∀ p ∈ packages, ∀ w w' update, Step u usage p w w' update → invariant w.files → invariant w'.files)
    (hinvariant : invariant w.files) : invariant w'.files := by
  induction h with
  | nil => exact hinvariant
  | cons hstep _ ih =>
    obtain ⟨hfirst, hrest⟩ := List.forall_mem_cons.mp hkeep
    exact ih hrest (hfirst _ _ _ hstep hinvariant)

/-- A run changes no files but the manifests of its packages, and those in their contents only. -/
lemma Steps.frame {usage : Usage} {packages : List Package} {w w' : World} {updates : List PackageUpdate}
    (h : Steps u usage packages w w' updates) :
    w'.files.skeleton = w.files.skeleton ∧
      ∀ path, (∀ p ∈ packages, w.files.find path ≠ w.files.find p.manifest.text) →
        w'.files.read path = w.files.read path := by
  induction h with
  | nil => exact ⟨rfl, fun _ _ => rfl⟩
  | cons hstep _ ih =>
    obtain ⟨hskeleton, hreads⟩ := hstep.frame
    obtain ⟨hlater, hrest⟩ := ih
    refine ⟨hlater.trans hskeleton, fun path hother => ?_⟩
    obtain ⟨hfirst, hothers⟩ := List.forall_mem_cons.mp hother
    refine (hrest path fun q hq => ?_).trans (hreads path hfirst)
    rw [FileSystem.find_congr hskeleton, FileSystem.find_congr hskeleton]
    exact hothers q hq

/-- What the step of a package establishes, and all steps keep, holds after a run. -/
theorem Steps.establishes {usage : Usage} {packages : List Package} {w w' : World} {updates : List PackageUpdate}
    (h : Steps u usage packages w w' updates) {p : Package} (hp : p ∈ packages) (invariant : FileSystem → Prop)
    (hkeep : ∀ q ∈ packages, ∀ w w' update, Step u usage q w w' update → invariant w.files → invariant w'.files)
    (hestablish : ∀ mid after update, Step u usage p mid after update → after.notices ⊆ w'.notices →
      invariant after.files) : invariant w'.files := by
  induction h with
  | nil => cases hp
  | cons hstep hrest ih =>
    have hothers := (List.forall_mem_cons.mp hkeep).2
    rcases List.mem_cons.mp hp with rfl | hp
    · exact hrest.preserves invariant hothers (hestablish _ _ _ hstep hrest.notices_subset)
    · exact ih hp hothers hestablish

end PackageExports.ExportsUpdate
