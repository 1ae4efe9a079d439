import Mathlib.Data.List.ReduceOption
import PackageExports.Proofs.ManifestAgreement

/-!
# Packages do not depend on each other

In a tree, what the update of a package gives follows from the files as they were before the run, although the
updates before it have written other manifests: `ExportsUpdate.result_run` says so of whole runs. Runs that differ in
whether they write, or in the package they are restricted to, so give the same exports for the same packages.

Main results: `ExportsUpdate.updateIn_eq`, `ExportsUpdate.result_run`, `packages_are_independent`.
-/

namespace PackageExports

section Rows

variable {α β γ ε : Type} {f : α → Except ε β} {items : List α} {results : List β}

lemma mapM_cons_eq_ok {item : α} : (item :: items).mapM f = .ok results ↔
    ∃ first others, f item = .ok first ∧ items.mapM f = .ok others ∧ results = first :: others := by
  rw [List.mapM_cons]
  constructor
  · intro h
    obtain ⟨first, hfirst, h⟩ := bind_ok_iff.mp h
    obtain ⟨others, hothers, h⟩ := bind_ok_iff.mp h
    exact ⟨first, others, hfirst, hothers, (Except.ok.inj h).symm⟩
  · rintro ⟨first, others, hfirst, hothers, rfl⟩
    exact bind_ok_iff.mpr ⟨first, hfirst, bind_ok_iff.mpr ⟨others, hothers, rfl⟩⟩

lemma mapM_of_forall {g : α → Except ε γ} {h : β → γ} (hitem : ∀ item result, f item = .ok result →
    g item = .ok (h result)) (hitems : items.mapM f = .ok results) : items.mapM g = .ok (results.map h) := by
  induction items generalizing results with
  | nil =>
    obtain rfl := Except.ok.inj hitems
    rfl
  | cons item rest ih =>
    obtain ⟨first, others, hfirst, hothers, rfl⟩ := mapM_cons_eq_ok.mp hitems
    exact mapM_cons_eq_ok.mpr ⟨h first, others.map h, hitem item first hfirst, ih hothers, rfl⟩

lemma mapM_filter {f : α → Except ε (Option β)} (keep : α → Bool) (kept : β → Bool) {results : List (Option β)}
    (hkept : ∀ item result, f item = .ok (some result) → kept result = keep item)
    (hitems : items.mapM f = .ok results) :
    ∃ chosen, (items.filter keep).mapM f = .ok chosen ∧ chosen.reduceOption = results.reduceOption.filter kept := by
  induction items generalizing results with
  | nil =>
    obtain rfl := Except.ok.inj hitems
    exact ⟨[], rfl, rfl⟩
  | cons item rest ih =>
    obtain ⟨first, others, hfirst, hothers, rfl⟩ := mapM_cons_eq_ok.mp hitems
    obtain ⟨chosen, hchosen, hrest⟩ := ih hothers
    have hboth : (item :: rest.filter keep).mapM f = .ok (first :: chosen) :=
      mapM_cons_eq_ok.mpr ⟨first, chosen, hfirst, hchosen, rfl⟩
    rw [List.filter_cons]
    cases first with
    | none =>
      rw [List.reduceOption_cons_of_none]
      split_ifs
      · exact ⟨_, hboth, by rw [List.reduceOption_cons_of_none, hrest]⟩
      · exact ⟨chosen, hchosen, hrest⟩
    | some result =>
      rw [List.reduceOption_cons_of_some, List.filter_cons, hkept item result hfirst]
      split_ifs
      · exact ⟨_, hboth, by rw [List.reduceOption_cons_of_some, hrest]⟩
      · exact ⟨chosen, hchosen, hrest⟩

end Rows

/-- The name of an updated package and its exports. -/
def PackageUpdate.summary (update : PackageUpdate) : Text × Exports :=
  (update.name, update.exports)

namespace ExportsUpdate

variable (u : ExportsUpdate) (usage : Usage)

/-- The name and the exports of a package with a record, as they follow from the files. -/
def exportsIn (fs : FileSystem) (p : Package) : Except Failure (Option (Text × Exports)) :=
  match recordFor usage p with
  | none => .ok none
  | some record =>
    (u.assemblyIn fs p record).bind fun a => (a.exportsInBatch fs).result.map fun exports => some (p.name, exports)

/-- Whether exports are written to the manifest of a package, as it follows from the files. -/
def savedIn (fs : FileSystem) (p : Package) (exports : Exports) : Except Failure Bool :=
  if u.dryRun then .ok false
  else
    match fs.readManifest p.manifest with
    | .error c => .error (.manifestUnwritable p.manifest c)
    | .ok members =>
      if exports.isIn members then .ok false
      else if (Utf8.encode? (exports.manifestText members)).isSome then .ok true
      else .error (.manifestUnwritable p.manifest .notEncodable)

/-- The update of a package, as it follows from the files. -/
def updateIn (fs : FileSystem) (p : Package) : Except Failure (Option PackageUpdate) :=
  (u.exportsIn usage fs p).bind fun found =>
    match found with
    | none => .ok none
    | some (name, exports) => (u.savedIn fs p exports).map fun written => some { name, exports, written }

lemma result_write (p : Package) (exports : Exports) (w : World) :
    ((u.write p exports).outcome w).1 = u.savedIn w.files p exports := by
  unfold write savedIn
  cases hdry : u.dryRun with
  | true => rfl
  | false =>
    rw [if_neg Bool.false_ne_true, if_neg Bool.false_ne_true, Action.outcome_bind]
    unfold Exports.writeTo
    rw [Action.outcome_bind, Action.outcome_files]
    dsimp only
    cases hread : w.files.readManifest p.manifest with
    | error c => rfl
    | ok members =>
      dsimp only
      cases hin : exports.isIn members with
      | true => rfl
      | false =>
        obtain ⟨r, files, hwrite, hwritten⟩ := Action.outcome_writeText p.manifest (exports.manifestText members) w
        rw [if_neg Bool.false_ne_true, if_neg Bool.false_ne_true, Action.outcome_bind, hwrite]
        cases hwritten with
        | refused hrefused =>
          obtain ⟨bytes, hbytes⟩ := FileSystem.read_of_readManifest hread
          obtain ⟨location, hfind, hentry⟩ := FileSystem.find_of_read hbytes
          rw [FileSystem.write_present hfind hentry] at hrefused
          cases hrefused
        | emptied _ hencode =>
          rw [hencode]
          rfl
        | done hencode =>
          rw [hencode]
          rfl

lemma result_update? (p : Package) (w : World) :
    ((u.update? usage p).outcome w).1 = u.updateIn usage w.files p := by
  rw [update?_eq, updateIn, exportsIn]
  cases recordFor usage p with
  | none =>
    dsimp only
    split_ifs <;> rfl
  | some record =>
    dsimp only
    obtain ⟨given, hrun, -⟩ := outcome_updateWith u p record w
    rw [Action.outcome_map, hrun]
    cases u.assemblyIn w.files p record with
    | error e => rfl
    | ok a =>
      simp only [Except.bind]
      cases (a.exportsInBatch w.files).result with
      | error e => rfl
      | ok exports =>
        have hsaved := result_write u p exports { w with notices := w.notices ++ given }
        simp only [Except.map]
        rw [Action.outcome_bind]
        rcases hwrite : (u.write p exports).outcome { w with notices := w.notices ++ given } with ⟨e | written, after⟩
        · rw [hwrite] at hsaved
          rw [← hsaved]
        · rw [hwrite] at hsaved
          rw [← hsaved]
          rfl

end ExportsUpdate

/-- What a package needs so that new exports in other manifests do not change its own: its manifest has the name of
manifests, and neither its compiler options nor its main file have that name. -/
structure Package.Apart (fs : FileSystem) (p : Package) : Prop where
  manifest : ∀ location, fs.find p.manifest.text = .ok location → location.getLast? = some Package.manifestName
  options : ∀ location, fs.find (p.directory.child "tsconfig.json").text = .ok location →
    location.getLast? ≠ some Package.manifestName
  main : ∀ m, ExportsUpdate.manifestIn fs p = .ok m → m.MainApart fs p.directory

/-- In a tree, packages have such manifests and compiler options. -/
lemma Package.apart_of_isTree {fs : FileSystem} (htree : fs.IsTree) {p : Package}
    (hmain : ∀ m, ExportsUpdate.manifestIn fs p = .ok m → m.MainApart fs p.directory) : p.Apart fs where
  manifest _ hlocation := FileSystem.Unlinked.find_child htree.unlinked FileSystem.isName_manifestName hlocation
  options location hlocation := by
    have hoptions : FileSystem.IsName "tsconfig.json" := by
      unfold FileSystem.IsName
      decide
    rw [FileSystem.Unlinked.find_child htree.unlinked hoptions hlocation]
    decide
  main := hmain

namespace ExportsUpdate

variable {u : ExportsUpdate} {usage : Usage} {fs after : FileSystem} {p : Package}

lemma exportsIn_eq (h : AgreesBesideExports fs after) (hp : p.Apart fs)
    (hread : after.read p.manifest.text = fs.read p.manifest.text) :
    u.exportsIn usage after p = u.exportsIn usage fs p := by
  have hmanifest : manifestIn after p = manifestIn fs p := by
    unfold manifestIn
    rw [FileSystem.readManifest_congr hread]
  have hsettings : u.settingsIn after p = u.settingsIn fs p :=
    settingsIn_congr h.skeleton (h.read_eq fun location _ hfind _ => hp.options location hfind)
  have hassembly (record : UsageRecord) : u.assemblyIn after p record = u.assemblyIn fs p record := by
    unfold assemblyIn
    rw [hmanifest, hsettings]
  have hexports (record : UsageRecord) (a : Assembly) (ha : u.assemblyIn fs p record = .ok a) :
      a.exportsInBatch after = a.exportsInBatch fs := by
    obtain ⟨members, m, settings, hmembers, hm, -, rfl⟩ := assemblyIn_ok u ha
    exact h.exportsInBatch_eq (hp.main m (manifestIn_eq_ok.mpr ⟨members, hmembers, hm⟩))
  unfold exportsIn
  cases recordFor usage p with
  | none => rfl
  | some record =>
    dsimp only
    rw [hassembly]
    cases ha : u.assemblyIn fs p record with
    | error e => simp only [Except.bind]
    | ok a => simp only [Except.bind, hexports record a ha]

/-- New exports in other manifests do not change the update of a package. -/
theorem updateIn_eq (h : AgreesBesideExports fs after) (hp : p.Apart fs)
    (hread : after.read p.manifest.text = fs.read p.manifest.text) :
    u.updateIn usage after p = u.updateIn usage fs p := by
  have hsaved (exports : Exports) : u.savedIn after p exports = u.savedIn fs p exports := by
    unfold savedIn
    rw [FileSystem.readManifest_congr hread]
  unfold updateIn
  rw [exportsIn_eq h hp hread]
  simp only [hsaved]

/-- Updates one after the other give what follows from the files before the first of them. -/
theorem result_updateAll {packages : List Package} (hpackages : ∀ p ∈ packages, p.Apart fs)
    (hapart : packages.Pairwise fun p q => fs.find p.manifest.text ≠ fs.find q.manifest.text) {w : World}
    (h : AgreesBesideExports fs w.files)
    (hread : ∀ p ∈ packages, w.files.read p.manifest.text = fs.read p.manifest.text) :
    ((u.updateAll usage packages).outcome w).1 =
      (packages.mapM (u.updateIn usage fs)).map List.reduceOption := by
  induction packages generalizing w with
  | nil => rfl
  | cons p rest ih =>
    obtain ⟨hp, hrest⟩ := List.forall_mem_cons.mp hpackages
    obtain ⟨hfirst, hothers⟩ := List.pairwise_cons.mp hapart
    obtain ⟨hpread, hreads⟩ := List.forall_mem_cons.mp hread
    have hresult := result_update? u usage p w
    rw [updateIn_eq h hp hpread] at hresult
    rw [updateAll, Action.outcome_bind, List.mapM_cons, ← hresult]
    rcases hupdate : (u.update? usage p).outcome w with ⟨e | update, mid⟩
    · rfl
    · -- The first update writes to its own manifest at most, so the others read what they would have read before it.
      have hstep := step_of_update? u hupdate
      have hfind (path : Text) : w.files.find path = fs.find path := FileSystem.find_congr h.skeleton path
      have hmid : AgreesBesideExports fs mid.files :=
        h.trans (.of_effect hstep.effect fun location hlocation => hp.manifest location (by rwa [← hfind]))
      have hkept : ∀ q ∈ rest, mid.files.read q.manifest.text = fs.read q.manifest.text := by
        intro q hq
        rw [hstep.frame.2 _ (by rw [hfind, hfind]; exact (hfirst q hq).symm), hreads q hq]
      have hlater := ih hrest hothers hmid hkept
      dsimp only
      rw [Action.outcome_bind]
      rcases hall : (u.updateAll usage rest).outcome mid with ⟨e | others, last⟩
      · rw [hall] at hlater
        cases hmap : rest.mapM (u.updateIn usage fs) with
        | error e' =>
          rw [hmap] at hlater
          exact congrArg Except.error (Except.error.inj hlater)
        | ok found =>
          rw [hmap] at hlater
          cases hlater
      · rw [hall] at hlater
        cases hmap : rest.mapM (u.updateIn usage fs) with
        | error e' =>
          rw [hmap] at hlater
          cases hlater
        | ok found =>
          rw [hmap] at hlater
          obtain rfl := Except.ok.inj hlater
          cases update <;> rfl

/-- What the packages of a run need. -/
def Independent (u : ExportsUpdate) (fs : FileSystem) : Prop :=
  ∀ p ∈ (Package.findAll fs u.directory u.settings.packageIgnore).value, ∀ m, manifestIn fs p = .ok m →
    m.MainApart fs p.directory

/-- A run in a tree gives, package by package, what follows from the files before it. -/
theorem result_run {w : World} (htree : w.files.IsTree) (hmains : u.Independent w.files) :
    (u.run.outcome w).1 = (u.planIn w.files).bind fun plan =>
      (plan.2.mapM (u.updateIn plan.1 w.files)).map List.reduceOption := by
  rw [outcome_run]
  cases hplan : u.planIn w.files with
  | error e => rfl
  | ok plan =>
    obtain ⟨usage, packages⟩ := plan
    have hsub := u.sublist_of_packagesIn (u.planIn_eq_ok.mp hplan).2
    obtain ⟨hmanifests, -⟩ := Package.apart_findAll htree u.directory u.settings.packageIgnore
    set start : World := { w with notices := w.notices ++ u.readingNotices w.files }
    have hresult : ((u.updateAll usage packages).outcome start).1 =
        (packages.mapM (u.updateIn usage w.files)).map List.reduceOption :=
      result_updateAll (fun p hp => Package.apart_of_isTree htree (hmains p (hsub.subset hp)))
        (hmanifests.sublist hsub) (.refl w.files) fun _ _ => rfl
    simp only [Except.bind]
    rw [← hresult, Action.outcome_bind]
    rcases (u.updateAll usage packages).outcome start with ⟨e | updates, after⟩ <;> rfl

variable (u usage fs p) in
lemma exportsIn_of_updateIn (update : Option PackageUpdate) (h : u.updateIn usage fs p = .ok update) :
    u.exportsIn usage fs p = .ok (update.map PackageUpdate.summary) := by
  obtain ⟨found, hexports, hupdate⟩ := bind_ok_iff.mp h
  rw [hexports]
  rcases found with _ | ⟨name, exports⟩
  · obtain rfl := Except.ok.inj hupdate
    rfl
  · obtain ⟨written, -, rfl⟩ := map_ok_iff.mp hupdate
    rfl

lemma name_of_exportsIn {q : Text × Exports} (h : u.exportsIn usage fs p = .ok (some q)) : q.1 = p.name := by
  unfold exportsIn at h
  split at h
  · cases h
  · obtain ⟨a, -, h⟩ := bind_ok_iff.mp h
    obtain ⟨exports, -, hsome⟩ := map_ok_iff.mp h
    obtain rfl := Option.some.inj hsome
    rfl

lemma updateIn_of_dry (hdry : u.dryRun = true) {found : Option (Text × Exports)}
    (h : u.exportsIn usage fs p = .ok found) :
    u.updateIn usage fs p = .ok (found.map fun q => { name := q.1, exports := q.2, written := false }) := by
  unfold updateIn savedIn
  rw [h, hdry]
  cases found <;> rfl

lemma summaries_of_run {w w' : World} {updates : List PackageUpdate} (htree : w.files.IsTree)
    (hmains : u.Independent w.files) (hrun : u.run.outcome w = (.ok updates, w')) :
    ∃ usage packages results, u.planIn w.files = .ok (usage, packages) ∧
      packages.mapM (u.updateIn usage w.files) = .ok results ∧ results.reduceOption = updates ∧
      packages.mapM (u.exportsIn usage w.files) = .ok (results.map (Option.map PackageUpdate.summary)) := by
  have hresult := u.result_run htree hmains
  rw [hrun] at hresult
  obtain ⟨⟨usage, packages⟩, hplan, hupdates⟩ := bind_ok_iff.mp hresult.symm
  obtain ⟨results, hresults, hreduced⟩ := map_ok_iff.mp hupdates
  exact ⟨usage, packages, results, hplan, hresults, hreduced,
    mapM_of_forall (fun p update => u.exportsIn_of_updateIn usage w.files p update) hresults⟩

lemma run_of_results {w : World} (htree : w.files.IsTree) (hmains : u.Independent w.files) {packages : List Package}
    (hplan : u.planIn w.files = .ok (usage, packages)) {results : List (Option PackageUpdate)}
    (hresults : packages.mapM (u.updateIn usage w.files) = .ok results) :
    ∃ w', u.run.outcome w = (.ok results.reduceOption, w') := by
  have hresult := u.result_run htree hmains
  rw [hplan] at hresult
  simp only [Except.bind, hresults] at hresult
  exact ⟨_, Prod.ext hresult rfl⟩

end ExportsUpdate

lemma Package.name_ne_nil {fs : FileSystem} {root : Path} {ignored : List Text} {p : Package}
    (hp : p ∈ (findAll fs root ignored).value) : p.name ≠ [] := by
  have hvalue : (findAll fs root ignored).value =
      (readAll fs (directoriesBelow fs root ignored)).value.map Prod.fst := rfl
  rw [hvalue, readAll_packages] at hp
  obtain ⟨directory, -, hread⟩ := List.mem_filterMap.mp hp
  obtain ⟨q, hq, rfl⟩ := Option.map_eq_some_iff.mp hread
  unfold readIn at hq
  dsimp only at hq
  split at hq
  · cases hq
  · obtain ⟨name, hname, rfl⟩ := Option.map_eq_some_iff.mp hq
    obtain ⟨value, -, htext⟩ := Option.bind_eq_some_iff.mp hname
    have hnonempty := (Option.filter_eq_some_iff.mp htext).2
    simpa using hnonempty

open ExportsUpdate in
/-- The exports of each package are the same in a run over all packages that writes, in one that does not, and in a
run that is restricted to the name of the package, if the main file of no package is a `package.json`. If a run over
all packages ends with updates, so do the dry run and the restricted ones. -/
theorem packages_are_independent {u : ExportsUpdate} {w w' : World} {updates : List PackageUpdate}
    (htree : w.files.IsTree) (hmains : u.Independent w.files) (hall : u.wanted = none)
    (hrun : u.run.outcome w = (.ok updates, w')) :
    (∃ dry left, ({ u with dryRun := true } : ExportsUpdate).run.outcome w = (.ok dry, left)) ∧
    (∀ dryRun others left, ({ u with dryRun } : ExportsUpdate).run.outcome w = (.ok others, left) →
      others.map PackageUpdate.summary = updates.map PackageUpdate.summary) ∧
    ∀ p ∈ (Package.findAll w.files u.directory u.settings.packageIgnore).value,
      (∃ alone left, ({ u with packageName := some p.name } : ExportsUpdate).run.outcome w = (.ok alone, left)) ∧
      ∀ dryRun alone left,
        ({ u with dryRun, packageName := some p.name } : ExportsUpdate).run.outcome w = (.ok alone, left) →
          alone.map PackageUpdate.summary = (updates.map PackageUpdate.summary).filter fun q => q.1 = p.name := by
  obtain ⟨usage, packages, results, hplan, hresults, rfl, hexports⟩ := summaries_of_run htree hmains hrun
  obtain ⟨hload, hpackages⟩ := u.planIn_eq_ok.mp hplan
  have hfound : packages = (Package.findAll w.files u.directory u.settings.packageIgnore).value :=
    Except.ok.inj (hpackages.symm.trans (u.packagesIn_all hall))
  -- All these runs have one plan, but that a restricted one leaves out packages, and the exports follow from the plan.
  rw [← List.reduceOption_map]
  refine ⟨?_, ?_, fun p hp => ?_⟩
  · have hdry (p : Package) (found : Option (Text × Exports)) (h : u.exportsIn usage w.files p = .ok found) :
        ({ u with dryRun := true } : ExportsUpdate).updateIn usage w.files p =
          .ok (found.map fun q => { name := q.1, exports := q.2, written := false }) :=
      updateIn_of_dry rfl h
    exact ⟨_, run_of_results (u := { u with dryRun := true }) htree hmains hplan (mapM_of_forall hdry hexports)⟩
  · intro dryRun others left hothers
    obtain ⟨usage', packages', results', hplan', -, rfl, hexports'⟩ :=
      summaries_of_run (u := { u with dryRun }) htree hmains hothers
    obtain ⟨rfl, rfl⟩ := Prod.mk.inj (Except.ok.inj (hplan.symm.trans hplan'))
    rw [← List.reduceOption_map]
    exact congrArg List.reduceOption (Except.ok.inj (hexports'.symm.trans hexports))
  · have hne := Package.name_ne_nil hp
    have hplanNamed (dryRun : Bool) : ({ u with dryRun, packageName := some p.name } : ExportsUpdate).planIn w.files =
        .ok (usage, packages.filter fun q => q.name = p.name) := by
      refine (planIn_eq_ok _).mpr ⟨hload, ?_⟩
      rw [hfound]
      exact packagesIn_named _ rfl hne ⟨p, hp, rfl⟩
    constructor
    · have hname (q : Package) (update : PackageUpdate) (h : u.updateIn usage w.files q = .ok (some update)) :
          decide (update.name = p.name) = decide (q.name = p.name) := by
        rw [← name_of_exportsIn (u.exportsIn_of_updateIn usage w.files q _ h)]
        rfl
      obtain ⟨chosen, hchosen, -⟩ := mapM_filter (fun q : Package => decide (q.name = p.name))
        (fun update : PackageUpdate => decide (update.name = p.name)) hname hresults
      exact ⟨_, run_of_results (u := { u with packageName := some p.name }) htree hmains (hplanNamed u.dryRun) hchosen⟩
    · intro dryRun alone left halone
      obtain ⟨usage', packages', results', hplan', -, rfl, hexports'⟩ :=
        summaries_of_run (u := { u with dryRun, packageName := some p.name }) htree hmains halone
      obtain ⟨rfl, rfl⟩ := Prod.mk.inj (Except.ok.inj ((hplanNamed dryRun).symm.trans hplan'))
      have hname (q : Package) (found : Text × Exports) (h : u.exportsIn usage w.files q = .ok (some found)) :
          decide (found.1 = p.name) = decide (q.name = p.name) := by
        rw [name_of_exportsIn h]
      obtain ⟨chosen, hchosen, heq⟩ := mapM_filter (fun q : Package => decide (q.name = p.name))
        (fun found : Text × Exports => decide (found.1 = p.name)) hname hexports
      rw [← List.reduceOption_map, ← heq]
      exact congrArg List.reduceOption (Except.ok.inj (hexports'.symm.trans hchosen))

namespace Neighbours

/-- Two packages without exports, one of them with a main file, and a usage file with a path of each. -/
def files : FileSystem :=
  (((((FileSystem.empty.put ["usage.json"]
    (.file ((Utf8.encode?
      "\x7b\"a\": \x7b\"importPaths\": [\"./x\"]\x7d, \"b\": \x7b\"importPaths\": [\"./y\"]\x7d\x7d").getD []))).put
    ["a"] .directory).put ["a", "m.js"] (.file [])).put ["a", "package.json"]
    (.file ((Utf8.encode? "\x7b\"name\": \"a\", \"main\": \"m.js\"\x7d").getD []))).put ["b"] .directory).put
    ["b", "package.json"] (.file ((Utf8.encode? "\x7b\"name\": \"b\"\x7d").getD []))

lemma isTree_files : files.IsTree :=
  (((((FileSystem.isTree_empty.put (by decide) (by decide) (by simp)).put (by decide) (by decide) (by simp)).put
    (by decide) (by decide) (by simp)).put (by decide) (by decide) (by simp)).put (by decide) (by decide)
    (by simp)).put (by decide) (by decide) (by simp)

def update : ExportsUpdate :=
  Repeated.update [] ["usage.json"]

def packages : List Package :=
  [⟨"a", ⟨.relative, ["a"]⟩⟩, ⟨"b", ⟨.relative, ["b"]⟩⟩]

lemma packages_found : (Package.findAll files update.directory update.settings.packageIgnore).value = packages := by
  have hmet : (files.filesMet update.directory.text fun name => !update.settings.packageIgnore.contains name) =
      ([["usage.json"], ["a", "m.js"], ["a", "package.json"], ["b", "package.json"]] : List (List Text)) := by
    decide +kernel
  rw [Package.findAll_of_met hmet]
  · decide +kernel
  · simp only [List.pairwise_cons, List.forall_mem_cons, List.not_mem_nil, IsEmpty.forall_iff, implies_true,
      List.Pairwise.nil, FileSystem.walkLe]
    decide

lemma independent_files : update.Independent files := by
  have hmains : (packages.all fun p => (ExportsUpdate.manifestIn files p).toOption.all fun m =>
      (BrowserTargets.entryPath m.main).all fun file =>
        (files.find (p.directory / Relative.bare file).text).toOption.all fun location =>
          location.getLast? != some Package.manifestName) = true := by decide +kernel
  intro p hp m hm file hfile location bytes hfind hentry
  rw [packages_found] at hp
  have hmain := List.all_eq_true.mp hmains p hp
  simp only [hm, hfile, hfind, Except.toOption, Option.all_some] at hmain
  exact bne_iff_ne.mp hmain

lemma update_outcome : ∃ updates w', update.run.outcome ⟨files, []⟩ = (.ok updates, w') ∧ updates.length = 2 := by
  have hloaded : ((Usage.load files update.usageFile.text).result.toOption.any fun usage =>
      (packages.mapM (update.updateIn usage files)).toOption.any fun results =>
        results.reduceOption.length == 2) = true := by decide +kernel
  obtain ⟨usage, husage, hresults⟩ := (Option.any_eq_true _ _).mp hloaded
  obtain ⟨results, hresults, hlength⟩ := (Option.any_eq_true _ _).mp hresults
  have hplan : update.planIn files = .ok (usage, packages) := by
    rw [update.planIn_eq_ok, update.packagesIn_all rfl, packages_found]
    exact ⟨ok_of_toOption husage, rfl⟩
  obtain ⟨w', hrun⟩ := ExportsUpdate.run_of_results (w := ⟨files, []⟩) isTree_files independent_files hplan
    (ok_of_toOption hresults)
  exact ⟨_, w', hrun, beq_iff_eq.mp hlength⟩

end Neighbours

/-- A run over two packages, and one that is restricted to the first of them. -/
theorem packages_are_independent_pair : ∃ updates w' alone left,
    Neighbours.update.run.outcome ⟨Neighbours.files, []⟩ = (.ok updates, w') ∧ updates.length = 2 ∧
      ({ Neighbours.update with packageName := some "a" } : ExportsUpdate).run.outcome ⟨Neighbours.files, []⟩ =
        (.ok alone, left) ∧
      alone.map PackageUpdate.summary =
        (updates.map PackageUpdate.summary).filter fun q => q.1 = Text.ofString "a" := by
  obtain ⟨updates, w', hrun, hlength⟩ := Neighbours.update_outcome
  obtain ⟨-, -, hnamed⟩ := packages_are_independent Neighbours.isTree_files Neighbours.independent_files rfl hrun
  have hfound : (⟨"a", ⟨.relative, ["a"]⟩⟩ : Package) ∈ (Package.findAll Neighbours.files
      Neighbours.update.directory Neighbours.update.settings.packageIgnore).value := by
    rw [Neighbours.packages_found]
    exact List.mem_cons_self
  obtain ⟨⟨alone, left, halone⟩, hsame⟩ := hnamed _ hfound
  exact ⟨updates, w', alone, left, hrun, hlength, halone, hsame _ _ _ halone⟩

end PackageExports
