import PackageExports.Proofs.SecondRun

/-!
# What an update leaves alone

An update of a package writes to the file of its manifest only, and in the manifest it changes the exports only. In a
tree no two packages have one manifest, so after a run each manifest is what the update of its package made of it, and
all other entries are as they were.

Main results: `ExportsUpdate.Steps.updated`, `ExportsUpdate.Steps.entryAt?_eq`, `run_changes_exports_only`.
-/

namespace PackageExports

/-- Members that are the same but for their exports: the new ones stand at the place of the old ones, or at the end. -/
def Exports.ReplacedIn (exports : Exports) (members others : Json.Members) : Prop :=
  (∃ front old back, members = front ++ (Text.ofString "exports", old) :: back ∧
      others = front ++ (Text.ofString "exports", .object exports) :: back) ∨
    Text.ofString "exports" ∉ members.keys ∧ others = members ++ [(Text.ofString "exports", .object exports)]

namespace ExportsUpdate

variable {u : ExportsUpdate} {usage : Usage} {p : Package} {w w' : World} {update : Option PackageUpdate}

/-- The exports are what the assembly for a package comes to, when its manifest and the files that there are are as
before the run. -/
def Assembled (u : ExportsUpdate) (usage : Usage) (before : FileSystem) (p : Package) (exports : Exports) : Prop :=
  ∃ record a fs, recordFor usage p = some record ∧ FileSystem.skeleton fs = before.skeleton ∧
    fs.read p.manifest.text = before.read p.manifest.text ∧ u.assemblyIn fs p record = .ok a ∧
    (a.exportsInBatch fs).result = .ok exports

/-- What a run made of the manifest of a package. -/
structure Updated (u : ExportsUpdate) (usage : Usage) (before after : FileSystem) (p : Package)
    (update : PackageUpdate) : Prop where
  name : update.name = p.name
  assembled : Assembled u usage before p update.exports
  dry : u.dryRun = true → update.written = false
  kept : update.written = false → after.read p.manifest.text = before.read p.manifest.text
  written : update.written = true → ∃ members others, before.readManifest p.manifest = .ok members ∧
    after.readManifest p.manifest = .ok others ∧ update.exports.ReplacedIn members others ∧
    ∀ value, members.value? "exports" = some value → value ≠ .null →
      ∀ entry ∈ Exports.ofJson value, update.exports.get? entry.1 = some entry.2

lemma Step.assembled {given : PackageUpdate} (h : Step u usage p w w' (some given)) :
    Assembled u usage w.files p given.exports := by
  cases h with
  | updated hrecord hupdate =>
    obtain ⟨a, exports, written, hassembly, hexports, rfl, -⟩ := updateWith_ok u hupdate
    exact ⟨_, a, w.files, hrecord, rfl, rfl, hassembly, hexports⟩

lemma Effect.updated {fs after : FileSystem} {given : PackageUpdate} (h : Effect u p fs (some given) after)
    (hassembled : Assembled u usage fs p given.exports) : Updated u usage fs after p given := by
  generalize hgiven : some given = update at h
  cases h with
  | passed => cases hgiven
  | kept exports =>
    obtain rfl := Option.some.inj hgiven
    exact ⟨rfl, hassembled, fun _ => rfl, fun _ => rfl, nofun⟩
  | @written members start added location old new hdry hfind hentry hold hkept hnew hstart =>
    obtain rfl := Option.some.inj hgiven
    refine ⟨rfl, hassembled, fun hdry' => ?_, nofun, fun _ => ⟨members, _, ?_, ?_, Keyed.insert_cases _ _ _, ?_⟩⟩
    · rw [hdry] at hdry'
      cases hdry'
    · rw [FileSystem.readManifest_of_read (FileSystem.read_of_find hfind hentry), hold]
    · rw [FileSystem.readManifest_of_read (FileSystem.read_put_self hentry hfind), hnew]
    · intro value hvalue hne entry hentry
      obtain rfl := hstart value (Manifest.exportsOf_eq_some.mpr ⟨hvalue, hne⟩)
      have hvalueKept : value.Kept := by
        rw [Json.Kept, Json.keptMembers_iff] at hkept
        exact hkept.2 _ (Keyed.mem_of_get? hvalue)
      have hmapKept := Exports.kept_ofJson hvalueKept
      rw [Json.Kept, Json.keptMembers_iff] at hmapKept
      exact Keyed.get?_append_of_some (Keyed.get?_of_mem hmapKept.1 hentry) added

lemma Updated.congr {before after fs later : FileSystem} {given : PackageUpdate}
    (h : Updated u usage before after p given) (hskeleton : before.skeleton = fs.skeleton)
    (hbefore : before.read p.manifest.text = fs.read p.manifest.text)
    (hafter : later.read p.manifest.text = after.read p.manifest.text) : Updated u usage fs later p given where
  name := h.name
  assembled := by
    obtain ⟨record, a, now, hrecord, hsame, hread, hassembly, hexports⟩ := h.assembled
    exact ⟨record, a, now, hrecord, hsame.trans hskeleton, hread.trans hbefore, hassembly, hexports⟩
  dry := h.dry
  kept hkept := by rw [hafter, h.kept hkept, hbefore]
  written hwritten := by
    rw [← FileSystem.readManifest_congr hbefore, FileSystem.readManifest_congr hafter]
    exact h.written hwritten

/-- The packages of a run that have a record. -/
def recorded (usage : Usage) (packages : List Package) : List Package :=
  packages.filter fun p => (recordFor usage p).isSome

lemma recorded_cons (packages : List Package) :
    recorded usage (p :: packages) = if (recordFor usage p).isSome then p :: recorded usage packages
      else recorded usage packages :=
  List.filter_cons

variable {packages : List Package} {updates : List PackageUpdate}

/-- After a run over packages with manifests of their own, each manifest is what the update of its package made of
it. -/
theorem Steps.updated (h : Steps u usage packages w w' updates)
    (hapart : packages.Pairwise fun p q => w.files.find p.manifest.text ≠ w.files.find q.manifest.text)
    {before : FileSystem} (hsame : w.files.skeleton = before.skeleton)
    (hbefore : ∀ p ∈ packages, w.files.read p.manifest.text = before.read p.manifest.text) :
    List.Forall₂ (Updated u usage before w'.files) (recorded usage packages) updates := by
  induction h with
  | nil => exact .nil
  | @cons p rest w mid w' update updates hstep hrest ih =>
    obtain ⟨hskeleton, hreads⟩ := hstep.frame
    obtain ⟨hfirst, hothers⟩ := List.pairwise_cons.mp hapart
    obtain ⟨hhead, htail⟩ := List.forall_mem_cons.mp hbefore
    have hfind := FileSystem.find_congr hskeleton
    have hlater := ih (hothers.imp fun hne => by rwa [hfind, hfind]) (hskeleton.trans hsame) fun q hq => by
      rw [hreads _ (hfirst q hq).symm, htail q hq]
    have hkept : w'.files.read p.manifest.text = mid.files.read p.manifest.text :=
      hrest.frame.2 _ fun q hq => by rw [hfind, hfind]; exact hfirst q hq
    rw [recorded_cons]
    cases hstep with
    | passed hnone =>
      rw [hnone]
      exact hlater
    | updated hrecord hupdate =>
      rw [hrecord]
      have hfirstStep := Step.updated hrecord hupdate
      have hupdated := hfirstStep.effect.updated hfirstStep.assembled
      exact .cons (hupdated.congr hsame hhead hkept) hlater

/-- After a run all entries are as they were but the manifests of packages with a record. -/
theorem Steps.entryAt?_eq (h : Steps u usage packages w w' updates) {location : Location}
    (hother : ∀ p ∈ recorded usage packages, w.files.find p.manifest.text ≠ .ok location) :
    w'.files.entryAt? location = w.files.entryAt? location := by
  induction h with
  | nil => rfl
  | @cons p rest w mid w' update updates hstep hrest ih =>
    obtain ⟨hskeleton, -⟩ := hstep.frame
    rw [recorded_cons] at hother
    have hrecord : update.isSome → (recordFor usage p).isSome := by
      cases hstep with
      | passed hnone => nofun
      | updated hsome _ => exact fun _ => by rw [hsome]; rfl
    have hfirst : mid.files.entryAt? location = w.files.entryAt? location := hstep.effect.entryAt?_eq fun hupdate => by
      rw [if_pos (hrecord hupdate)] at hother
      exact hother p List.mem_cons_self
    rw [← hfirst]
    refine ih fun q hq => ?_
    rw [FileSystem.find_congr hskeleton]
    split_ifs at hother
    · exact hother q (List.mem_cons_of_mem _ hq)
    · exact hother q hq

end ExportsUpdate

open ExportsUpdate in
/-- After a run in a tree, the manifests of the packages with a record are what the updates say: as they were, always
in a dry run, or with the assembled exports at the place of the old ones, or at the end if there were none, and the
assembled exports go on from the old ones. All other entries are as they were. -/
theorem run_changes_exports_only {u : ExportsUpdate} {w w' : World} {updates : List PackageUpdate}
    (htree : w.files.IsTree) (hrun : u.run.outcome w = (.ok updates, w')) :
    ∃ usage packages, u.planIn w.files = .ok (usage, packages) ∧
      List.Forall₂ (Updated u usage w.files w'.files) (recorded usage packages) updates ∧
      ∀ location, (∀ p ∈ recorded usage packages, w.files.find p.manifest.text ≠ .ok location) →
        w'.files.entryAt? location = w.files.entryAt? location := by
  obtain ⟨usage, packages, after, hplan, hupdates, hfiles, -⟩ := u.run_ok hrun
  have hsub := u.sublist_of_packagesIn (u.planIn_eq_ok.mp hplan).2
  obtain ⟨hmanifests, -⟩ := Package.apart_findAll htree u.directory u.settings.packageIgnore
  have hsteps := u.steps_of_updateAll hupdates
  rw [hfiles]
  exact ⟨usage, packages, hplan, hsteps.updated (hmanifests.sublist hsub) rfl fun _ _ => rfl,
    fun location hother => hsteps.entryAt?_eq hother⟩

/-- A manifest that was written has its exports replaced. -/
theorem run_changes_exports_only_package : ∃ update w' p members others,
    (Repeated.update ["b"] ["usage.json"]).run.outcome ⟨Repeated.files, []⟩ = (.ok [update], w') ∧
      update.written = true ∧ update.name = Package.name p ∧
      Repeated.files.readManifest p.manifest = .ok members ∧ w'.files.readManifest p.manifest = .ok others ∧
      update.exports.ReplacedIn members others := by
  obtain ⟨update, w', hrun, hwritten⟩ := Repeated.files_outcome
  obtain ⟨usage, packages, -, hupdated, -⟩ := run_changes_exports_only Repeated.isTree_files hrun
  obtain ⟨p, rest, hp, -, -⟩ := List.forall₂_cons_right_iff.mp hupdated
  obtain ⟨members, others, hbefore, hafter, hreplaced, -⟩ := hp.written hwritten
  exact ⟨update, w', p, members, others, hrun, hwritten, hp.name, hbefore, hafter, hreplaced⟩

end PackageExports
