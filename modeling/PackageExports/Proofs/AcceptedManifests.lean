import PackageExports.Proofs.AddedExports
import PackageExports.Proofs.CheckedValues
import PackageExports.Proofs.SecondRun
import PackageExports.Proofs.Strategies

/-!
# Manifests that are accepted

A manifest is refused for two things only: a lone surrogate in one of its names, and a `package_type` that is no string and
is not overruled by `type`. Whatever else is wrong in a `package.json` counts as absent. A run that ends at an invalid
value ends at such a manifest.

Main results: `Manifest.exists_ofMembers_iff`, `Manifest.fields_of_error`, `ExportsUpdate.exists_refused`,
`ExportsUpdate.manifests_accepted`.
-/

namespace PackageExports

namespace Manifest

/-- The member `package_type` is a string or null if it is there, or it is overruled by a string under `type`. -/
def TellsModuleType (members : Json.Members) : Prop :=
  (∃ t, members.value? "type" = some (.string t)) ∨
    ∀ value, members.value? "package_type" = some value → value = .null ∨ ∃ t, value = .string t

/-- A manifest without the two things for which one is refused. -/
structure Acceptable (members : Json.Members) : Prop where
  names : ∀ p ∈ members, ∀ c ∈ p.1, c.isSurrogate = false
  moduleType : TellsModuleType members

/-- The names under which a manifest has strings, with the fields that hold them. -/
def stringFields : List (Text × (Manifest → Option Text)) :=
  [("name", name), ("main", main), ("module", module), ("types", types), ("typings", typings), ("source", source)]

variable {members : Json.Members} {m : Manifest} {fields : List Text}

lemma text?_eq_some {name t : Text} : text? members name = some t ↔ members.value? name = some (.string t) := by
  unfold text?
  constructor
  · intro h
    obtain ⟨value, hvalue, htext⟩ := Option.bind_eq_some_iff.mp h
    cases value with
    | string s =>
      obtain rfl := Option.some.inj htext
      exact hvalue
    | _ => cases htext
  · intro h
    rw [h]
    rfl

lemma faults_moduleTypeOf (members : Json.Members) :
    (moduleTypeOf members).faults = [] ∨ (moduleTypeOf members).faults = ["package_type"] := by
  unfold moduleTypeOf
  split
  · exact .inl rfl
  · split
    · exact .inl rfl
    · exact .inl rfl
    · rename_i value _ _
      cases hvalue : value.text?.map some with
      | some t => exact .inl rfl
      | none => exact .inr rfl

lemma faults_moduleTypeOf_iff : (moduleTypeOf members).faults = [] ↔ TellsModuleType members := by
  unfold moduleTypeOf TellsModuleType
  cases htype : text? members "type" with
  | some t => exact ⟨fun _ => .inl ⟨t, text?_eq_some.mp htype⟩, fun _ => rfl⟩
  | none =>
    have hnone : ¬∃ t, members.value? "type" = some (.string t) := by
      rintro ⟨t, ht⟩
      rw [text?_eq_some.mpr ht] at htype
      cases htype
    rw [or_iff_right hnone]
    dsimp only
    cases hvalue : members.value? "package_type" with
    | none =>
      constructor
      · intro _ value h
        cases h
      · intro _
        rfl
    | some value =>
      cases value with
      | null => simp [pure]
      | string t => simp [Checked.need, Json.text?]
      | _ => simp [Checked.need, Json.text?]

lemma any_isSurrogate :
    (members.any fun p => p.1.any CodePoint.isSurrogate) = false ↔ ∀ p ∈ members, ∀ c ∈ p.1, c.isSurrogate = false := by
  simp only [List.any_eq_false, Bool.not_eq_true]

lemma faults_ofValues : (ofValues members).faults = (moduleTypeOf members).faults :=
  List.append_nil _

/-- The members of an object give a manifest exactly if they are acceptable. -/
theorem exists_ofMembers_iff : (∃ m, ofMembers members = .ok m) ↔ Acceptable members := by
  unfold ofMembers
  cases hnames : members.any fun p => p.1.any CodePoint.isSurrogate with
  | true =>
    rw [if_pos rfl]
    constructor
    · rintro ⟨m, hm⟩
      cases hm
    · intro h
      rw [any_isSurrogate.mpr h.names] at hnames
      cases hnames
  | false =>
    rw [if_neg Bool.false_ne_true]
    simp only [Checked.toExcept_eq_ok, Checked.eq_iff, faults_ofValues, faults_moduleTypeOf_iff]
    exact ⟨fun ⟨_, htype, _⟩ => ⟨any_isSurrogate.mp hnames, htype⟩, fun h => ⟨_, h.moduleType, rfl⟩⟩

theorem fields_of_error (h : ofMembers members = .error fields) : fields = [[]] ∨ fields = ["package_type"] := by
  unfold ofMembers at h
  split_ifs at h
  · exact .inl (Except.error.inj h).symm
  · unfold Checked.toExcept at h
    rw [faults_ofValues] at h
    rcases faults_moduleTypeOf members with hfaults | hfaults <;> rw [hfaults] at h
    · cases h
    · exact .inr (Except.error.inj h).symm

lemma stringFields_spec (h : ofMembers members = .ok m) :
    ∀ field ∈ stringFields, ∀ t, field.2 m = some t ↔ members.value? field.1 = some (.string t) := by
  unfold ofMembers at h
  split_ifs at h
  obtain ⟨-, rfl⟩ := Checked.eq_iff.mp (Checked.toExcept_eq_ok.mp h)
  simp only [stringFields, List.forall_mem_cons, List.not_mem_nil, false_implies, implies_true, and_true]
  exact ⟨fun _ => text?_eq_some, fun _ => text?_eq_some, fun _ => text?_eq_some, fun _ => text?_eq_some,
    fun _ => text?_eq_some, fun _ => text?_eq_some⟩

/-- New exports do not change whether a manifest is acceptable. -/
lemma Acceptable.insert (h : Acceptable members) (value : Json) :
    Acceptable (Keyed.insert (Text.ofString "exports") value members) := by
  have hother (name : Text) (hname : Text.ofString "exports" ≠ name) :
      Json.Members.value? (Keyed.insert (Text.ofString "exports") value members) name = members.value? name :=
    value?_insert value hname
  have hword : ∀ c ∈ Text.ofString "exports", c.isSurrogate = false := by decide
  constructor
  · intro p hp
    rcases Keyed.mem_insert hp with rfl | hp
    · exact hword
    · exact h.names p hp
  · unfold TellsModuleType
    rw [hother _ (by decide), hother _ (by decide)]
    exact h.moduleType

end Manifest

section NotRefused

/-- A result that is not the refusal of a value. -/
def NotRefused {α : Type} (r : Except Failure α) : Prop :=
  ∀ fields, r ≠ .error (.cause (.invalid fields))

variable {α β : Type} {r : Except Failure α}

lemma notRefused_ok (a : α) : NotRefused (.ok a) := by
  intro fields h
  cases h

lemma NotRefused.bind {f : α → Except Failure β} (hr : NotRefused r) (hf : ∀ a, NotRefused (f a)) :
    NotRefused (r >>= f) := by
  cases r with
  | ok a => exact hf a
  | error e =>
    intro fields h
    exact hr fields (congrArg Except.error (Except.error.inj h))

lemma NotRefused.map {f : α → β} (hr : NotRefused r) : NotRefused (r.map f) := by
  cases r with
  | ok a => exact notRefused_ok (f a)
  | error e =>
    intro fields h
    exact hr fields (congrArg Except.error (Except.error.inj h))

lemma notRefused_mapM {f : α → Except Failure β} (hf : ∀ a, NotRefused (f a)) (items : List α) :
    NotRefused (items.mapM f) := by
  induction items with
  | nil => exact notRefused_ok []
  | cons a rest ih =>
    rw [List.mapM_cons]
    exact (hf a).bind fun _ => ih.bind fun _ => notRefused_ok _

lemma notRefused_foldlM {f : β → α → Except Failure β} (hf : ∀ b a, NotRefused (f b a)) (items : List α) (start : β) :
    NotRefused (items.foldlM f start) := by
  induction items generalizing start with
  | nil => exact notRefused_ok start
  | cons a rest ih =>
    rw [List.foldlM_cons]
    exact (hf start a).bind fun next => ih next

lemma notRefused_findSomeM? {f : α → Except Failure (Option β)} (hf : ∀ a, NotRefused (f a)) (items : List α) :
    NotRefused (items.findSomeM? f) := by
  induction items with
  | nil => exact notRefused_ok none
  | cons a rest ih =>
    rw [List.findSomeM?_cons]
    refine (hf a).bind fun found => ?_
    cases found with
    | none => exact ih
    | some b => exact notRefused_ok _

end NotRefused

section Exports

variable (fs : FileSystem) (package : Path)

lemma notRefused_seenFrom (path : Path) : NotRefused (SearchPlan.seenFrom package path) := by
  unfold SearchPlan.seenFrom
  cases path.relativeTo? package <;> rintro fields ⟨⟩

lemma notRefused_firstSource? (bases : List Text) : NotRefused (SourceFile.firstSource? fs package bases) := by
  rw [SourceFile.firstSource?_eq]
  refine notRefused_findSomeM? (fun base => ?_) bases
  unfold SourceFile.resolve? SearchPlan.foundFrom
  split
  · exact (notRefused_seenFrom package _).map.map
  · exact notRefused_ok _

lemma notRefused_sourceOfFirst (sourceDirectories entries : List Text) :
    NotRefused (Baseline.sourceOfFirst fs package sourceDirectories entries) := by
  rw [Baseline.sourceOfFirst_eq_findSomeM?]
  exact notRefused_findSomeM? (fun entry => notRefused_firstSource? fs package _) entries

lemma notRefused_baseline (m : Manifest) (sourceDirectories : List Text) :
    NotRefused (Baseline.exports fs package m sourceDirectories) := by
  have hrequired (main : Text) : NotRefused (Baseline.requiredOf fs package main) := by
    unfold Baseline.requiredOf
    split <;> rintro fields ⟨⟩
  have hroot (browser : Option Text) : NotRefused (Baseline.root fs package m browser sourceDirectories) := by
    unfold Baseline.root
    dsimp only
    split
    on_goal 1 => refine (hrequired _).bind fun _ => ?_
    on_goal 2 => refine (notRefused_ok none).bind fun _ => ?_
    all_goals
      split
      · exact (notRefused_ok _).bind fun _ => notRefused_ok _
      · exact (notRefused_sourceOfFirst fs package _ _).bind fun _ => notRefused_ok _
  refine (hroot _).bind fun _ => notRefused_foldlM (fun found p => ?_) _ _
  exact ((notRefused_firstSource? fs package _).bind fun _ => notRefused_ok _).bind fun _ => notRefused_ok _

lemma notRefused_run {ι α : Type} (settings : BatchSettings) (w : Batch.Work ι α) (items : List ι) :
    NotRefused (Batch.run settings w items).result := by
  rw [Batch.run_eq]
  refine NotRefused.map ?_
  unfold Batch.settle
  split <;> rintro fields ⟨⟩

lemma notRefused_exportsInBatch (a : Assembly) : NotRefused (a.exportsInBatch fs).result := by
  have hstart : NotRefused (a.start fs) := by
    unfold Assembly.start
    split
    · exact notRefused_ok _
    · exact notRefused_baseline fs _ _ _
  simp only [Assembly.exportsInBatch_eq, Attempt.result_bind, Attempt.result_ofExcept, Attempt.result_lift]
  refine hstart.bind fun _ => (notRefused_ok _).bind fun _ => ?_
  exact (notRefused_run _ _ _).bind fun _ => notRefused_ok _

lemma notRefused_detect : NotRefused (BuildLayout.detect fs package).result := by
  have hbelow (builds : List Text) : NotRefused (Declaration.allBelow fs package builds) := by
    unfold Declaration.allBelow
    refine NotRefused.bind (notRefused_mapM (fun top => ?_) _) fun _ => notRefused_ok _
    exact notRefused_mapM (fun names => notRefused_seenFrom package _) _
  unfold BuildLayout.detect BuildLayout.typesLayoutOf
  simp only [Attempt.result_bind, Attempt.result_ofExcept, Attempt.result_lift, Attempt.result_pure]
  exact ((hbelow _).bind fun _ => (notRefused_ok _).bind fun _ => notRefused_ok _).bind fun _ => notRefused_ok _

end Exports

namespace ExportsUpdate

variable (u : ExportsUpdate) {usage : Usage} {p : Package} {record : UsageRecord} {packages : List Package}
  {w w' : World} {fields : List Text}

lemma notRefused_settingsIn (fs : FileSystem) (p : Package) : NotRefused (u.settingsIn fs p) := by
  unfold settingsIn
  split_ifs
  · exact (notRefused_detect fs _).map
  · exact notRefused_ok _

lemma notRefused_planIn (fs : FileSystem) : NotRefused (u.planIn fs) := by
  have hvalue (path : Text) : NotRefused (Usage.readValue fs path) := by
    unfold Usage.readValue
    repeat' split
    all_goals rintro fields ⟨⟩
  have hload (path : Text) : NotRefused (Usage.load fs path).result := by
    rw [Usage.load, Attempt.result_bind, Attempt.result_ofExcept]
    refine (hvalue path).bind fun value => ?_
    unfold Usage.ofJson
    split
    · exact notRefused_ok _
    · rintro fields ⟨⟩
  have hpackages : NotRefused (u.packagesIn fs) := by
    unfold packagesIn
    dsimp only
    split
    · exact notRefused_ok _
    · split
      · rintro fields ⟨⟩
      · exact notRefused_ok _
  exact (hload _).bind fun _ => hpackages.bind fun _ => notRefused_ok _

lemma refused_of_updateWith (h : (u.updateWith p record).outcome w = (.error (.cause (.invalid fields)), w')) :
    ∃ members, w.files.readManifest p.manifest = .ok members ∧ Manifest.ofMembers members = .error fields := by
  obtain ⟨given, hrun, -⟩ := outcome_updateWith u p record w
  rw [hrun] at h
  split at h
  · rename_i e hassembled
    obtain rfl := Except.error.inj (Prod.mk.inj h).1
    unfold assemblyIn manifestIn at hassembled
    cases hread : w.files.readManifest p.manifest with
    | error c =>
      rw [hread] at hassembled
      cases hassembled
    | ok members =>
      rw [hread] at hassembled
      refine ⟨members, rfl, ?_⟩
      cases hmembers : Manifest.ofMembers members with
      | error found =>
        simp only [hmembers] at hassembled
        exact congrArg Except.error (Cause.invalid.inj (Failure.cause.inj (Except.error.inj hassembled)))
      | ok m =>
        simp only [hmembers] at hassembled
        refine absurd hassembled (NotRefused.bind ?_ (fun a => notRefused_exportsInBatch w.files a) fields)
        exact (notRefused_settingsIn u w.files p).bind fun _ => notRefused_ok _
  · rename_i exports _
    obtain ⟨r, files, hwrite, hsaved⟩ := outcome_write u p exports { w with notices := w.notices ++ given }
    rw [Action.outcome_bind, hwrite] at h
    cases hsaved <;> cases h

lemma refused_of_update? (h : (u.update? usage p).outcome w = (.error (.cause (.invalid fields)), w')) :
    ∃ members, w.files.readManifest p.manifest = .ok members ∧ Manifest.ofMembers members = .error fields := by
  rw [update?_eq] at h
  cases hrecord : recordFor usage p with
  | none =>
    rw [hrecord] at h
    dsimp only at h
    split_ifs at h <;> cases h
  | some record =>
    rw [hrecord] at h
    dsimp only at h
    rw [map_eq_pure_bind] at h
    rcases Action.of_bind_error h with hupdate | ⟨update, after, -, hpure⟩
    · exact refused_of_updateWith u hupdate
    · cases hpure

/-- Updates that end at a refusal were refused the manifest of a package, after updates that gave results. -/
lemma refused_of_updateAll
    (h : (u.updateAll usage packages).outcome w = (.error (.cause (.invalid fields)), w')) :
    ∃ before p rest mid updates members, packages = before ++ p :: rest ∧ Steps u usage before w mid updates ∧
      mid.files.readManifest p.manifest = .ok members ∧ Manifest.ofMembers members = .error fields := by
  induction packages generalizing w w' with
  | nil => cases h
  | cons p rest ih =>
    rw [updateAll] at h
    rcases Action.of_bind_error h with hfirst | ⟨update, mid, hfirst, hothers⟩
    · obtain ⟨members, hread, hrefused⟩ := refused_of_update? u hfirst
      exact ⟨[], p, rest, w, [], members, rfl, .nil w, hread, hrefused⟩
    · rcases Action.of_bind_error hothers with hrest | ⟨updates, after, -, hpure⟩
      · obtain ⟨before, q, later, last, updates, members, rfl, hsteps, hrefused⟩ := ih hrest
        exact ⟨p :: before, q, later, last, _, members, rfl, .cons (step_of_update? u hfirst) hsteps, hrefused⟩
      · cases hpure

lemma Steps.acceptable {u : ExportsUpdate} {updates : List PackageUpdate} (h : Steps u usage packages w w' updates)
    {manifest : Path} {members : Json.Members} (hread : w.files.readManifest manifest = .ok members)
    (hmembers : Manifest.Acceptable members) :
    ∃ left, w'.files.readManifest manifest = .ok left ∧ Manifest.Acceptable left := by
  refine h.preserves (fun fs => ∃ left, fs.readManifest manifest = .ok left ∧ Manifest.Acceptable left)
    (fun p _ w w' update hstep hbefore => ?_) ⟨members, hread, hmembers⟩
  obtain ⟨left, hleft, hacceptable⟩ := hbefore
  rcases hstep.readManifest manifest with hsame | ⟨found, start, added, hfound, hafter, -⟩
  · exact ⟨left, hsame.trans hleft, hacceptable⟩
  · obtain rfl := Except.ok.inj (hfound.symm.trans hleft)
    exact ⟨_, hafter, hacceptable.insert _⟩

/-- A run that ends at a refusal has found a package whose manifest is not acceptable. -/
theorem exists_refused (h : u.run.outcome w = (.error (.cause (.invalid fields)), w')) :
    ∃ p ∈ (Package.findAll w.files u.directory u.settings.packageIgnore).value, ∃ members,
      w.files.readManifest p.manifest = .ok members ∧ ¬Manifest.Acceptable members := by
  rw [outcome_run] at h
  cases hplan : u.planIn w.files with
  | error e =>
    simp only [hplan] at h
    obtain rfl := Except.error.inj (Prod.mk.inj h).1
    exact absurd hplan (notRefused_planIn u w.files fields)
  | ok plan =>
    obtain ⟨usage, packages⟩ := plan
    simp only [hplan] at h
    rcases Action.of_bind_error h with hupdates | ⟨updates, after, -, hnoted⟩
    · obtain ⟨before, p, rest, mid, updates, members, rfl, hsteps, hread, hrefused⟩ :=
        refused_of_updateAll u hupdates
      have hfound := (u.sublist_of_packagesIn (u.planIn_eq_ok.mp hplan).2).subset
        (List.mem_append_right _ List.mem_cons_self)
      obtain ⟨⟨q, first⟩, hq, rfl⟩ := List.mem_map.mp hfound
      have hfirst := (Package.directories_readAll w.files _).2 _ hq
      refine ⟨q, hfound, first, hfirst, fun hacceptable => ?_⟩
      obtain ⟨left, hleft, hmembers⟩ := hsteps.acceptable hfirst hacceptable
      obtain rfl := Except.ok.inj (hread.symm.trans hleft)
      obtain ⟨m, hm⟩ := Manifest.exists_ofMembers_iff.mpr hmembers
      cases hm.symm.trans hrefused
    · cases hnoted

/-- An object gives a manifest exactly if it is acceptable, and then each of the string fields holds the string under its
name, if there is one. A run that ends at a refusal of values has found a package whose manifest is not acceptable. -/
theorem manifests_accepted (members : Json.Members) (u : ExportsUpdate) (w : World) :
    ((∃ m, Manifest.ofMembers members = .ok m) ↔ Manifest.Acceptable members) ∧
    (∀ m, Manifest.ofMembers members = .ok m → ∀ field ∈ Manifest.stringFields, ∀ t,
      field.2 m = some t ↔ members.value? field.1 = some (.string t)) ∧
    ∀ (fields : List Text) (w' : World), u.run.outcome w = (.error (.cause (.invalid fields)), w') →
      ∃ p ∈ (Package.findAll w.files u.directory u.settings.packageIgnore).value, ∃ found,
        w.files.readManifest p.manifest = .ok found ∧ ¬Manifest.Acceptable found :=
  ⟨Manifest.exists_ofMembers_iff, fun _ h => Manifest.stringFields_spec h, fun _ _ h => exists_refused u h⟩

namespace Mistyped

/-- A package whose manifest gives a number for the kind of its modules, and a usage file with a path of it. -/
def files : FileSystem :=
  (FileSystem.empty.put ["package.json"]
    (.file ((Utf8.encode? "\x7b\"name\": \"p\", \"package_type\": 5\x7d").getD []))).put ["usage.json"]
    (.file ((Utf8.encode? "\x7b\"p\": \x7b\"importPaths\": [\"./a\"]\x7d\x7d").getD []))

def update : ExportsUpdate where
  directory := ⟨.relative, []⟩
  usageFile := ⟨.relative, ["usage.json"]⟩

def members : Json.Members :=
  [("name", .string "p"), ("package_type", .integer 5)]

lemma packages_found : (Package.findAll files update.directory update.settings.packageIgnore).value =
    [⟨"p", ⟨.relative, []⟩⟩] := by
  have hmet : (files.filesMet update.directory.text fun name => !update.settings.packageIgnore.contains name) =
      ([["package.json"], ["usage.json"]] : List (List Text)) := by
    decide +kernel
  rw [Package.findAll_of_met hmet]
  · decide +kernel
  · simp only [List.pairwise_cons, List.forall_mem_cons, List.not_mem_nil, IsEmpty.forall_iff, implies_true,
      List.Pairwise.nil, FileSystem.walkLe]
    decide

lemma run_refused : ∃ w', update.run.outcome ⟨files, []⟩ = (.error (.cause (.invalid ["package_type"])), w') := by
  have hloaded : ((Usage.load files update.usageFile.text).result.toOption.any fun usage =>
      match ((update.updateAll usage [⟨"p", ⟨.relative, []⟩⟩]).outcome ⟨files, update.readingNotices files⟩).1 with
      | .error e => e = .cause (.invalid ["package_type"])
      | .ok _ => false) = true := by decide +kernel
  obtain ⟨usage, husage, hrefused⟩ := (Option.any_eq_true _ _).mp hloaded
  have hplan : update.planIn files = .ok (usage, [⟨"p", ⟨.relative, []⟩⟩]) := by
    rw [update.planIn_eq_ok, update.packagesIn_all rfl, packages_found]
    exact ⟨ok_of_toOption husage, rfl⟩
  rw [outcome_run, hplan]
  dsimp only
  rw [Action.outcome_bind, List.nil_append]
  rcases hupdates : (update.updateAll usage [⟨"p", ⟨.relative, []⟩⟩]).outcome ⟨files, update.readingNotices files⟩ with
    ⟨e | updates, after⟩
  · simp only [hupdates, decide_eq_true_eq] at hrefused
    exact ⟨after, by rw [hrefused]⟩
  · simp only [hupdates] at hrefused
    cases hrefused

end Mistyped

/-- A manifest with a number for a file keeps its name; a run that ends at a refusal has found a manifest that is not
acceptable. -/
theorem manifests_accepted_mistyped :
    (∃ m, Manifest.ofMembers [("name", .string "p"), ("main", .integer 3)] = .ok m ∧ m.name = some "p" ∧
      ∀ t, m.main ≠ some t) ∧
    ∃ fields w', Mistyped.update.run.outcome ⟨Mistyped.files, []⟩ = (.error (.cause (.invalid fields)), w') ∧
      ∃ p ∈ (Package.findAll Mistyped.files Mistyped.update.directory Mistyped.update.settings.packageIgnore).value,
        ∃ found, Mistyped.files.readManifest p.manifest = .ok found ∧ ¬Manifest.Acceptable found := by
  obtain ⟨hgives, hfields, hruns⟩ :=
    manifests_accepted [("name", .string "p"), ("main", .integer 3)] Mistyped.update ⟨Mistyped.files, []⟩
  constructor
  · have hacceptable : Manifest.Acceptable [("name", .string "p"), ("main", .integer 3)] :=
      ⟨by decide, .inr fun value h => by cases h⟩
    obtain ⟨m, hm⟩ := hgives.mpr hacceptable
    have hstrings := hfields m hm
    refine ⟨m, hm, (hstrings ("name", Manifest.name) (by simp [Manifest.stringFields]) "p").mpr rfl, fun t ht => ?_⟩
    cases (hstrings ("main", Manifest.main) (by simp [Manifest.stringFields]) t).mp ht
  · obtain ⟨w', hrun⟩ := Mistyped.run_refused
    exact ⟨_, w', hrun, hruns _ _ hrun⟩

/-- A manifest with a number under `package_type` gives nothing, and it ends the run that finds it. -/
theorem mistyped_refused :
    Manifest.ofMembers Mistyped.members = .error ["package_type"] ∧
    (Package.findAll Mistyped.files Mistyped.update.directory Mistyped.update.settings.packageIgnore).value =
      [⟨"p", ⟨.relative, []⟩⟩] ∧
    ∃ w', Mistyped.update.run.outcome ⟨Mistyped.files, []⟩ = (.error (.cause (.invalid ["package_type"])), w') :=
  ⟨rfl, Mistyped.packages_found, Mistyped.run_refused⟩

end ExportsUpdate

end PackageExports
