import PackageExports.Proofs.ExportsMap
import PackageExports.Proofs.Writing

/-!
# The update of one package

What a package's update reads, what it gives, and what it leaves: `ExportsUpdate.assemblyIn` is the part without
effects, and `ExportsUpdate.outcome_updateWith` says how the manifest is written after it. A manifest that was written
is read back with its new exports.
-/

namespace PackageExports

namespace Manifest

lemma value?_insert {members : Json.Members} {key name : Text} (value : Json) (h : key ≠ name) :
    Json.Members.value? (Keyed.insert key value members) name = members.value? name :=
  Keyed.get?_insert_of_ne members value h

lemma ofMembers_exports {members : Json.Members} {m : Manifest} (h : ofMembers members = .ok m) :
    m.exports = exportsOf members := by
  unfold ofMembers at h
  split_ifs at h
  unfold Checked.toExcept at h
  split_ifs at h
  obtain rfl := Except.ok.inj h
  rfl

lemma exportsOf_eq_some {members : Json.Members} {value : Json} :
    exportsOf members = some value ↔ members.value? "exports" = some value ∧ value ≠ .null := by
  unfold exportsOf
  split
  · rename_i hmember
    rw [hmember]
    exact ⟨nofun, fun ⟨hvalue, hne⟩ => absurd (Option.some.inj hvalue).symm hne⟩
  · rename_i hother
    exact ⟨fun hvalue => ⟨hvalue, fun hnull => hother (hnull ▸ hvalue)⟩, And.left⟩

lemma exportsOf_insert (members : Json.Members) {value : Json} (hvalue : value ≠ .null) :
    exportsOf (Keyed.insert (Text.ofString "exports") value members) = some value :=
  exportsOf_eq_some.mpr ⟨Keyed.get?_insert_self _ _ _, hvalue⟩

/-- Other exports change nothing else of what a manifest says, and no complaint about it. -/
lemma ofValues_insert (members : Json.Members) {value : Json} (hvalue : value ≠ .null) :
    ofValues (Keyed.insert (Text.ofString "exports") value members) =
      ⟨{ (ofValues members).value with exports := some value }, (ofValues members).faults⟩ := by
  have hother (name : Text) (hname : Text.ofString "exports" ≠ name) :
      Json.Members.value? (Keyed.insert (Text.ofString "exports") value members) name = members.value? name :=
    value?_insert value hname
  have htext (name : Text) (hname : Text.ofString "exports" ≠ name) :
      text? (Keyed.insert (Text.ofString "exports") value members) name = text? members name := by
    unfold text?
    rw [hother name hname]
  have htype : moduleTypeOf (Keyed.insert (Text.ofString "exports") value members) = moduleTypeOf members := by
    unfold moduleTypeOf
    rw [htext _ (by decide), hother _ (by decide)]
  have hflag : flag? (Keyed.insert (Text.ofString "exports") value members) (Text.ofString "private") =
      flag? members (Text.ofString "private") := by
    unfold flag?
    rw [hother _ (by decide)]
  unfold ofValues
  rw [htype, exportsOf_insert members hvalue, hflag, htext _ (by decide), htext _ (by decide), htext _ (by decide),
    htext _ (by decide), htext _ (by decide), htext _ (by decide), hother _ (by decide)]
  rfl

lemma ofMembers_insert {members : Json.Members} {m : Manifest} {value : Json} (hvalue : value ≠ .null)
    (h : ofMembers members = .ok m) :
    ofMembers (Keyed.insert (Text.ofString "exports") value members) = .ok { m with exports := some value } := by
  have hnames : ((Keyed.insert (Text.ofString "exports") value members).any fun p => p.1.any CodePoint.isSurrogate) =
      members.any fun p => p.1.any CodePoint.isSurrogate := by
    clear h
    induction members with
    | nil => rfl
    | cons p rest ih =>
      rw [Keyed.insert]
      split_ifs with hp
      · rw [List.any_cons, List.any_cons, hp]
      · rw [List.any_cons, List.any_cons, ih]
  unfold ofMembers at h ⊢
  rw [hnames, ofValues_insert members hvalue]
  split_ifs at h ⊢
  unfold Checked.toExcept at h ⊢
  split_ifs at h ⊢
  obtain rfl := Except.ok.inj h
  rfl

end Manifest

namespace FileSystem

variable {fs after : FileSystem} {path : Path} {members : Json.Members}

/-- A file with the text of a manifest is read as that manifest. -/
theorem readManifest_of_encode {exports : Exports} {bytes : List UInt8} (hread : after.read path.text = .ok bytes)
    (hencode : Utf8.encode? (exports.manifestText members) = some bytes) (hmembers : (Json.object members).Kept)
    (hexports : (Json.object exports).Kept) :
    after.readManifest path = .ok (Keyed.insert (Text.ofString "exports") (.object exports) members) := by
  have hkept := Json.kept_insert (Text.ofString "exports") hmembers hexports
  have hreturn : Json.NoReturn (exports.manifestText members) :=
    (Json.noReturn_prettyAt 0 _ hkept).append (by unfold Json.NoReturn; decide)
  have hline : Json.Token.EndsWord (Text.ofString "\n") := by
    intro c hc
    obtain rfl := Option.some.inj hc
    decide
  have hparse : Json.parse (exports.manifestText members) = .ok (.object _) := Json.parse_pretty hkept hline rfl
  rw [readManifest_eq, readText_of_encode hread hencode hreturn]
  dsimp only
  rw [hparse]

end FileSystem

namespace ExportsUpdate

variable (u : ExportsUpdate)

/-- The settings for a package as they follow from the files. -/
def settingsIn (fs : FileSystem) (p : Package) : Except Failure Settings :=
  if u.detectLayout then (BuildLayout.detect fs p.directory).result.map fun layout => layout.recommend u.settings
  else .ok u.settings

/-- The manifest of a package as it follows from the files. -/
def manifestIn (fs : FileSystem) (p : Package) : Except Failure Manifest :=
  match fs.readManifest p.manifest with
  | .error c => .error (.manifestUnreadable p.manifest c)
  | .ok members => (Manifest.ofMembers members).mapError fun fields => .cause (.invalid fields)

/-- The assembly of a package. -/
def assemblyIn (fs : FileSystem) (p : Package) (record : UsageRecord) : Except Failure Assembly := do
  let manifest ← manifestIn fs p
  let settings ← u.settingsIn fs p
  return { package := p.directory, manifest, usage := record, settings }

lemma batch_settingsIn {fs : FileSystem} {p : Package} {settings : Settings} (h : u.settingsIn fs p = .ok settings) :
    settings.batch = u.settings.batch := by
  unfold settingsIn at h
  split_ifs at h
  · obtain ⟨layout, -, rfl⟩ := map_ok_iff.mp h
    rfl
  · obtain rfl := Except.ok.inj h
    rfl

lemma manifestIn_eq_ok {fs : FileSystem} {p : Package} {m : Manifest} :
    manifestIn fs p = .ok m ↔
      ∃ members, fs.readManifest p.manifest = .ok members ∧ Manifest.ofMembers members = .ok m := by
  unfold manifestIn
  cases fs.readManifest p.manifest with
  | error c => simp
  | ok members => cases hmembers : Manifest.ofMembers members <;> simp [Except.mapError, hmembers]

lemma assemblyIn_ok {fs : FileSystem} {p : Package} {record : UsageRecord} {a : Assembly}
    (h : u.assemblyIn fs p record = .ok a) :
    ∃ members manifest settings, fs.readManifest p.manifest = .ok members ∧ Manifest.ofMembers members = .ok manifest ∧
      u.settingsIn fs p = .ok settings ∧ a = { package := p.directory, manifest, usage := record, settings } := by
  obtain ⟨manifest, hmanifest, h⟩ := bind_ok_iff.mp h
  obtain ⟨settings, hsettings, h⟩ := bind_ok_iff.mp h
  obtain ⟨members, hread, hmembers⟩ := manifestIn_eq_ok.mp hmanifest
  exact ⟨members, manifest, settings, hread, hmembers, hsettings, (Except.ok.inj h).symm⟩

lemma outcome_settingsFor (p : Package) (w : World) :
    ∃ given, (u.settingsFor p).outcome w = (u.settingsIn w.files p, { w with notices := w.notices ++ given }) := by
  unfold settingsFor settingsIn
  split_ifs
  · refine ⟨(BuildLayout.detect w.files p.directory).notices, ?_⟩
    rw [Action.outcome_bind, Action.outcome_files]
    dsimp only
    rw [Action.outcome_bind, Action.outcome_ofAttempt]
    cases (BuildLayout.detect w.files p.directory).result <;> rfl
  · exact ⟨[], by simp⟩

lemma outcome_manifestOf (p : Package) (w : World) : (manifestOf p).outcome w = (manifestIn w.files p, w) := by
  unfold manifestOf manifestIn
  rw [Action.outcome_bind, Action.outcome_files]
  dsimp only
  cases w.files.readManifest p.manifest <;> rfl

/-- Before anything is written, an update gives the assembled exports or fails; on the way it gives at least the
notices of the assembly. -/
theorem outcome_updateWith (p : Package) (record : UsageRecord) (w : World) :
    ∃ given, (u.updateWith p record).outcome w =
        (match (u.assemblyIn w.files p record).bind fun a => (a.exportsInBatch w.files).result with
        | .error e => (.error e, { w with notices := w.notices ++ given })
        | .ok exports =>
          (do
            let written ← u.write p exports
            return { name := p.name, exports, written } : Action PackageUpdate).outcome
            { w with notices := w.notices ++ given }) ∧
      ∀ a, u.assemblyIn w.files p record = .ok a → (a.exportsInBatch w.files).notices ⊆ given := by
  unfold updateWith assemblyIn
  rw [Action.outcome_bind, outcome_manifestOf]
  cases manifestIn w.files p with
  | error e => exact ⟨[], by simp [Except.bind, bind], by simp [bind, Except.bind]⟩
  | ok manifest =>
    dsimp only
    obtain ⟨given, hsettings⟩ := outcome_settingsFor u p w
    rw [Action.outcome_bind, hsettings]
    cases u.settingsIn w.files p with
    | error e => exact ⟨given, by simp [Except.bind, bind], by simp [bind, Except.bind]⟩
    | ok settings =>
      dsimp only
      rw [Action.outcome_bind, Action.outcome_files]
      dsimp only
      rw [Action.outcome_bind, Action.outcome_ofAttempt]
      set a : Assembly := { package := p.directory, manifest, usage := record, settings } with ha
      refine ⟨given ++ (a.exportsInBatch w.files).notices, ?_, ?_⟩
      · rw [List.append_assoc]
        change _ = match (a.exportsInBatch w.files).result with
          | .error e => _
          | .ok exports => _
        cases (a.exportsInBatch w.files).result <;> rfl
      · intro b hb
        obtain rfl : a = b := Except.ok.inj hb
        exact List.subset_append_right _ _

/-- What becomes of the manifest of a package whose exports were assembled. -/
inductive Saved (fs : FileSystem) (p : Package) (exports : Exports) : Except Failure Bool → FileSystem → Prop
  | dry : u.dryRun = true → Saved fs p exports (.ok false) fs
  | unchanged {members : Json.Members} : u.dryRun = false → fs.readManifest p.manifest = .ok members →
      exports.isIn members = true → Saved fs p exports (.ok false) fs
  | written {members : Json.Members} {bytes : List UInt8} {after : FileSystem} : u.dryRun = false →
      fs.readManifest p.manifest = .ok members → exports.isIn members = false →
      Utf8.encode? (exports.manifestText members) = some bytes → fs.write p.manifest.text bytes = .ok after →
      Saved fs p exports (.ok true) after
  | refused (c : Cause) : c ≠ .notEncodable → Saved fs p exports (.error (.manifestUnwritable p.manifest c)) fs
  | emptied {members : Json.Members} {after : FileSystem} : u.dryRun = false →
      fs.readManifest p.manifest = .ok members → Utf8.encode? (exports.manifestText members) = none →
      fs.write p.manifest.text [] = .ok after →
      Saved fs p exports (.error (.manifestUnwritable p.manifest .notEncodable)) after

/-- Saving assembled exports changes the manifest in one of the ways of `Saved` only, and gives no notice. -/
lemma outcome_write (p : Package) (exports : Exports) (w : World) :
    ∃ r files, (u.write p exports).outcome w = (r, { w with files := files }) ∧
      Saved u w.files p exports r files := by
  unfold write
  cases hdry : u.dryRun with
  | true => exact ⟨_, _, rfl, .dry hdry⟩
  | false =>
    rw [if_neg Bool.false_ne_true, Action.outcome_bind]
    unfold Exports.writeTo
    rw [Action.outcome_bind, Action.outcome_files]
    dsimp only
    cases hread : w.files.readManifest p.manifest with
    | error c =>
      refine ⟨_, _, rfl, .refused c ?_⟩
      rintro rfl
      exact FileSystem.readManifest_ne_notEncodable hread
    | ok members =>
      dsimp only
      cases hin : exports.isIn members with
      | true => exact ⟨_, _, rfl, .unchanged hdry hread hin⟩
      | false =>
        obtain ⟨r, files, hwrite, hwritten⟩ := Action.outcome_writeText p.manifest (exports.manifestText members) w
        rw [if_neg Bool.false_ne_true, Action.outcome_bind, hwrite]
        cases hwritten with
        | refused hrefused => exact ⟨_, _, rfl, .refused _ (by simp)⟩
        | emptied hempty hencode => exact ⟨_, _, rfl, .emptied hdry hread hencode hempty⟩
        | done hencode hdone => exact ⟨_, _, rfl, .written hdry hread hin hencode hdone⟩

end ExportsUpdate

end PackageExports
