import Mathlib.Logic.Relation
import PackageExports.Proofs.ScannedUsage
import PackageExports.Proofs.UpdateRun

/-!
# What a failed run leaves

A run that fails leaves every file as it was or wholly rewritten, but for one case: a text with a lone surrogate
cannot be encoded, and the file that it was meant for has been emptied by then.

Main results: `ExportsUpdate.leavesFiles_run`, `failed_runs_keep_files`.
-/

namespace PackageExports

/-- The members that bytes write as a manifest. -/
def Json.membersOfBytes? (bytes : List UInt8) : Option Json.Members :=
  match Utf8.decode? bytes with
  | some t =>
    match parse (Text.unifyNewlines t) with
    | .ok (.object members) => some members
    | _ => none
  | none => none

lemma FileSystem.membersOfBytes?_of_read {fs : FileSystem} {path : Path} {bytes : List UInt8} {members : Json.Members}
    (hread : fs.read path.text = .ok bytes) (h : fs.readManifest path = .ok members) :
    Json.membersOfBytes? bytes = some members := by
  rw [readManifest_eq, readText, hread] at h
  unfold Json.membersOfBytes?
  cases hdecode : Utf8.decode? bytes with
  | none =>
    simp only [hdecode] at h
    cases h
  | some t =>
    simp only [hdecode] at h ⊢
    split at h
    · rename_i found hparse
      obtain rfl := Except.ok.inj h
      rw [hparse]
    · cases h
    · cases h

/-- Bytes of a manifest, and the bytes of the same manifest with other exports. -/
def ManifestRewrite (old new : List UInt8) : Prop :=
  ∃ members exports, Json.membersOfBytes? old = some members ∧
    Utf8.encode? (Exports.manifestText exports members) = some new

lemma membersOfBytes?_nil : Json.membersOfBytes? [] = none :=
  rfl

/-- Nothing can be rewritten into an empty file. -/
lemma not_rewrite_nil (old : List UInt8) : ¬ManifestRewrite old [] := by
  rintro ⟨members, exports, -, hencode⟩
  have hdecode := Utf8.decode?_encode? hencode
  have htext : exports.manifestText members = [] := (Option.some.inj hdecode).symm
  simp [Exports.manifestText, Text.ofString] at htext

lemma rewrites_nil {old new : List UInt8} (h : Relation.ReflTransGen ManifestRewrite old new) :
    old = [] ↔ new = [] := by
  constructor
  · rintro rfl
    rcases Relation.ReflTransGen.cases_head h with rfl | ⟨mid, ⟨members, exports, hmembers, -⟩, -⟩
    · rfl
    · rw [membersOfBytes?_nil] at hmembers
      cases hmembers
  · rintro rfl
    rcases Relation.ReflTransGen.cases_tail h with rfl | ⟨mid, -, hlast⟩
    · rfl
    · exact absurd hlast (not_rewrite_nil mid)

namespace FileSystem

/-- Every file is there still, as it was or wholly rewritten. -/
def Preserves (fs after : FileSystem) : Prop :=
  ∀ location old, fs.entryAt? location = some (.file old) →
    ∃ new, after.entryAt? location = some (.file new) ∧ Relation.ReflTransGen ManifestRewrite old new

/-- As `Preserves`, but for one location. -/
def PreservesBut (location : Location) (fs after : FileSystem) : Prop :=
  ∀ other old, other ≠ location → fs.entryAt? other = some (.file old) →
    ∃ new, after.entryAt? other = some (.file new) ∧ Relation.ReflTransGen ManifestRewrite old new

variable {fs mid after : FileSystem} {location : Location} {old new : List UInt8}

lemma Preserves.refl (fs : FileSystem) : Preserves fs fs :=
  fun _ old h => ⟨old, h, .refl⟩

lemma Preserves.trans (h₁ : Preserves fs mid) (h₂ : Preserves mid after) : Preserves fs after := by
  intro location old hold
  obtain ⟨between, hbetween, hfirst⟩ := h₁ location old hold
  obtain ⟨new, hnew, hsecond⟩ := h₂ location between hbetween
  exact ⟨new, hnew, hfirst.trans hsecond⟩

lemma preserves_put (hold : fs.entryAt? location = some (.file old)) (h : ManifestRewrite old new) :
    Preserves fs (fs.put location (.file new)) := by
  intro other content hcontent
  by_cases hne : location = other
  · subst hne
    rw [hold] at hcontent
    obtain rfl := Entry.file.inj (Option.some.inj hcontent)
    exact ⟨new, entryAt?_put_self fs _ (ne_nil_of_file hold), .single h⟩
  · rw [entryAt?_put_of_ne fs _ hne]
    exact ⟨content, hcontent, .refl⟩

lemma preservesBut_put (h : Preserves fs mid) (content : List UInt8) :
    PreservesBut location fs (mid.put location (.file content)) := by
  intro other old hother hold
  rw [entryAt?_put_of_ne mid _ (Ne.symm hother)]
  exact h other old hold

end FileSystem

namespace ExportsUpdate

variable (u : ExportsUpdate) {w w' : World}

/-- The run came to a manifest whose text has no encoding: that file is empty, and all others are intact. -/
inductive EndedEmptying (fs : FileSystem) : FileSystem → Failure → Prop
  | intro {package : Package} {members : Json.Members} {exports : Exports} {location : Location}
      {content : List UInt8} {before : FileSystem} (shape : before.skeleton = fs.skeleton)
      (preserved : fs.Preserves before) (leads : before.find package.manifest.text = .ok location)
      (found : before.entryAt? location = some (.file content))
      (read : before.readManifest package.manifest = .ok members)
      (unencodable : Utf8.encode? (exports.manifestText members) = none) :
      EndedEmptying fs (before.put location (.file [])) (.manifestUnwritable package.manifest .notEncodable)

/-- Only contents of files have changed, and they are as they were or wholly rewritten. -/
def Intact (fs after : FileSystem) : Prop :=
  after.skeleton = fs.skeleton ∧ fs.Preserves after

/-- What an update leaves by its result. -/
def Leaves {α : Type} (fs after : FileSystem) : Except Failure α → Prop
  | .ok _ => Intact fs after
  | .error e => Intact fs after ∨ EndedEmptying fs after e

variable {fs mid after : FileSystem}

lemma Intact.refl (fs : FileSystem) : Intact fs fs :=
  ⟨rfl, .refl fs⟩

lemma Intact.trans (h₁ : Intact fs mid) (h₂ : Intact mid after) : Intact fs after :=
  ⟨h₂.1.trans h₁.1, h₁.2.trans h₂.2⟩

lemma EndedEmptying.later {e : Failure} (hfirst : Intact fs mid) (h : EndedEmptying mid after e) :
    EndedEmptying fs after e := by
  obtain ⟨shape, preserved, leads, found, read, unencodable⟩ := h
  exact ⟨shape.trans hfirst.1, hfirst.2.trans preserved, leads, found, read, unencodable⟩

lemma Leaves.later {α : Type} {r : Except Failure α} (hfirst : Intact fs mid) (h : Leaves mid after r) :
    Leaves fs after r := by
  cases r with
  | ok _ => exact hfirst.trans h
  | error e => exact h.imp hfirst.trans (EndedEmptying.later hfirst)

lemma leaves_of_files {α : Type} (r : Except Failure α) (h : after = fs) :
    Leaves fs after r := by
  subst h
  cases r with
  | ok _ => exact .refl _
  | error e => exact .inl (.refl _)

/-- Saving exports leaves the files intact or empties a manifest. -/
lemma leaves_of_saved {p : Package} {exports : Exports} {r : Except Failure Bool}
    (h : Saved u fs p exports r after) : Leaves fs after r := by
  cases h with
  | dry | unchanged | refused => exact leaves_of_files _ rfl
  | written hdry hread hin hencode hwrite =>
    obtain ⟨location, old, hfind, hentry, rfl⟩ := FileSystem.write_of_readManifest hread hwrite
    exact ⟨FileSystem.skeleton_put _ _ hentry, FileSystem.preserves_put hentry
      ⟨_, _, FileSystem.membersOfBytes?_of_read (FileSystem.read_of_find hfind hentry) hread, hencode⟩⟩
  | emptied hdry hread hencode hwrite =>
    obtain ⟨location, old, hfind, hentry, rfl⟩ := FileSystem.write_of_readManifest hread hwrite
    exact .inr ⟨rfl, .refl _, hfind, hentry, hread, hencode⟩

/-- An action leaves the files intact or empties a manifest. -/
def LeavesFiles {α : Type} (x : Action α) : Prop :=
  ∀ w, Leaves w.files (x.outcome w).2.files (x.outcome w).1

lemma leavesFiles_of_silent {α : Type} {x : Action α} (h : ∀ w, (x.outcome w).2.files = w.files) : LeavesFiles x :=
  fun w => leaves_of_files _ (h w)

lemma LeavesFiles.bind {α β : Type} {x : Action α} {f : α → Action β} (hx : LeavesFiles x)
    (hf : ∀ a, LeavesFiles (f a)) : LeavesFiles (x >>= f) := by
  intro w
  have hfirst := hx w
  rw [Action.outcome_bind]
  rcases houtcome : x.outcome w with ⟨e | a, mid⟩ <;> rw [houtcome] at hfirst
  · exact hfirst
  · exact Leaves.later hfirst (hf a mid)

lemma leavesFiles_updateWith (p : Package) (record : UsageRecord) : LeavesFiles (u.updateWith p record) := by
  intro w
  obtain ⟨given, hrun, -⟩ := outcome_updateWith u p record w
  rw [hrun]
  split
  · exact leaves_of_files _ rfl
  · rename_i exports _
    obtain ⟨r, files, hwrite, hsaved⟩ := outcome_write u p exports { w with notices := w.notices ++ given }
    rw [Action.outcome_bind, hwrite]
    cases r with
    | ok written => exact leaves_of_saved u hsaved
    | error e => exact leaves_of_saved u hsaved

lemma leavesFiles_update? (usage : Usage) (p : Package) : LeavesFiles (u.update? usage p) := by
  unfold update?
  split
  · rename_i record _
    rw [map_eq_pure_bind]
    exact (leavesFiles_updateWith u p record).bind fun _ => leavesFiles_of_silent fun _ => rfl
  · split_ifs <;> exact leavesFiles_of_silent fun _ => rfl

/-- Updating packages leaves the files intact or empties a manifest. -/
theorem leavesFiles_updateAll (usage : Usage) (packages : List Package) :
    LeavesFiles (u.updateAll usage packages) := by
  induction packages with
  | nil => exact leavesFiles_of_silent fun _ => rfl
  | cons p rest ih =>
    rw [updateAll]
    exact (leavesFiles_update? u usage p).bind fun _ => ih.bind fun _ => leavesFiles_of_silent fun _ => rfl

/-- A run leaves the files intact or empties a manifest. -/
theorem leavesFiles_run : LeavesFiles u.run := by
  have hnote (n : Notice) : LeavesFiles (Action.note n) := leavesFiles_of_silent fun _ => rfl
  have hfiles : LeavesFiles Action.files := leavesFiles_of_silent fun _ => rfl
  have hpackages : LeavesFiles u.packages := leavesFiles_of_silent fun w => by rw [outcome_packages]
  rw [run_eq]
  exact (hnote _).bind fun _ => hfiles.bind fun _ => (leavesFiles_of_silent fun _ => rfl).bind fun usage =>
    (hnote _).bind fun _ => hpackages.bind fun packages => (leavesFiles_updateAll u usage packages).bind fun _ =>
      (hnote _).bind fun _ => leavesFiles_of_silent fun _ => rfl

lemma EndedEmptying.failure {e : Failure} (h : EndedEmptying fs after e) :
    ∃ package : Package, e = .manifestUnwritable package.manifest .notEncodable := by
  cases h
  exact ⟨_, rfl⟩

lemma EndedEmptying.lost {e : Failure} (h : EndedEmptying fs after e) :
    ¬fs.Preserves after ∧ ∃ location, after.entryAt? location = some (.file []) ∧
      fs.PreservesBut location after := by
  obtain ⟨shape, preserved, leads, found, read, -⟩ := h
  rename_i members _ location content before
  have hne := FileSystem.ne_nil_of_file found
  refine ⟨fun hkept => ?_, location, FileSystem.entryAt?_put_self before _ hne,
    FileSystem.preservesBut_put preserved []⟩
  have hskeleton : fs.skeleton.entryAt? location = some (.file []) := by
    rw [← shape, FileSystem.entryAt?_skeleton, found]
    rfl
  obtain ⟨old, hold⟩ : ∃ old, fs.entryAt? location = some (.file old) := by
    rw [FileSystem.entryAt?_skeleton] at hskeleton
    rcases hentry : fs.entryAt? location with _ | (bytes | _ | _) <;> rw [hentry] at hskeleton <;>
      first | exact ⟨_, rfl⟩ | cases hskeleton
  obtain ⟨new, hnew, hrewrites⟩ := hkept location old hold
  rw [FileSystem.entryAt?_put_self before _ hne] at hnew
  obtain rfl := Entry.file.inj (Option.some.inj hnew)
  obtain rfl := (rewrites_nil hrewrites).mpr rfl
  -- What was read as a manifest before it was emptied cannot have been empty.
  obtain ⟨kept, hentry, hcontent⟩ := preserved location [] hold
  rw [found] at hentry
  obtain rfl := Entry.file.inj (Option.some.inj hentry)
  have hempty := (rewrites_nil hcontent).mp rfl
  have hmembers := FileSystem.membersOfBytes?_of_read (FileSystem.read_of_find leads found) read
  rw [hempty, membersOfBytes?_nil] at hmembers
  cases hmembers

end ExportsUpdate

namespace UsageScan

variable (s : UsageScan)

/-- The scan came to a usage file whose text has no encoding, and what the file held is lost. -/
inductive EndedEmptying (fs : FileSystem) : FileSystem → Failure → Prop
  | intro {merged : Usage} {results : List (ItemResult (List PackageImport))} {location : Location}
      {content : List UInt8} (gathered : s.gathered fs = .ok (merged, results))
      (leads : fs.find s.usageFile.text = .ok location) (found : fs.entryAt? location = some (.file content))
      (nonempty : content ≠ []) (unencodable : Utf8.encode? merged.toJson.pretty = none) :
      EndedEmptying fs (fs.put location (.file [])) (.cause .notEncodable)

variable {s} {fs after : FileSystem} {e : Failure}

lemma EndedEmptying.failure (h : EndedEmptying s fs after e) : e = .cause .notEncodable := by
  cases h
  rfl

lemma EndedEmptying.lost (h : EndedEmptying s fs after e) :
    ¬fs.Preserves after ∧ ∃ location, after.entryAt? location = some (.file []) ∧
      fs.PreservesBut location after := by
  obtain ⟨-, -, found, nonempty, -⟩ := h
  rename_i location content
  have hne := FileSystem.ne_nil_of_file found
  refine ⟨fun hkept => ?_, location, FileSystem.entryAt?_put_self fs _ hne,
    FileSystem.preservesBut_put (.refl fs) []⟩
  obtain ⟨new, hnew, hrewrites⟩ := hkept location content found
  rw [FileSystem.entryAt?_put_self fs _ hne] at hnew
  obtain rfl := Entry.file.inj (Option.some.inj hnew)
  exact nonempty ((rewrites_nil hrewrites).mpr rfl)

lemma preserves_or_emptied {w w' : World} (h : s.run.outcome w = (.error e, w')) :
    w.files.Preserves w'.files ∨ EndedEmptying s w.files w'.files e := by
  rcases s.run_error h with hfiles | ⟨merged, results, hgathered, hencode, hwrite, rfl⟩
  · rw [hfiles]
    exact .inl (.refl _)
  · obtain ⟨location, hafter, ⟨old, hfind, hentry⟩ | hplace⟩ := FileSystem.write_cases hwrite
    · rw [hafter]
      by_cases hempty : old = []
      · left
        intro other content hcontent
        by_cases hne : location = other
        · subst hne
          rw [hentry, hempty] at hcontent
          exact ⟨[], FileSystem.entryAt?_put_self _ _ (FileSystem.ne_nil_of_file hentry), by
            rw [Entry.file.inj (Option.some.inj hcontent)]⟩
        · rw [FileSystem.entryAt?_put_of_ne _ _ hne]
          exact ⟨content, hcontent, .refl⟩
      · exact .inr ⟨hgathered, hfind, hentry, hempty, hencode⟩
    · left
      rw [hafter]
      intro other content hcontent
      have hne : location ≠ other := by
        rintro rfl
        rw [(FileSystem.vacant_of_place hplace).2] at hcontent
        cases hcontent
      rw [FileSystem.entryAt?_put_of_ne _ _ hne]
      exact ⟨content, hcontent, .refl⟩

end UsageScan

/-- When a run fails, each file holds what it held or a whole new manifest, unless the run came to a text that has no
encoding: then the one file that the text was meant for is empty, and all others are as said. -/
theorem failed_runs_keep_files (u : ExportsUpdate) (s : UsageScan) (w w' : World) (e : Failure) :
    (u.run.outcome w = (.error e, w') →
      (w.files.Preserves w'.files ↔ ¬ExportsUpdate.EndedEmptying w.files w'.files e) ∧
        (ExportsUpdate.EndedEmptying w.files w'.files e →
          ∃ location, w'.files.entryAt? location = some (.file []) ∧ w.files.PreservesBut location w'.files)) ∧
    (s.run.outcome w = (.error e, w') →
      (w.files.Preserves w'.files ↔ ¬UsageScan.EndedEmptying s w.files w'.files e) ∧
        (UsageScan.EndedEmptying s w.files w'.files e →
          ∃ location, w'.files.entryAt? location = some (.file []) ∧ w.files.PreservesBut location w'.files)) := by
  constructor
  · intro h
    have hleaves := ExportsUpdate.leavesFiles_run u w
    rw [h] at hleaves
    refine ⟨⟨fun hkept hended => hended.lost.1 hkept, fun hended => ?_⟩, fun hended => hended.lost.2⟩
    exact (hleaves.resolve_right hended).2
  · intro h
    refine ⟨⟨fun hkept hended => hended.lost.1 hkept, fun hended => ?_⟩, fun hended => hended.lost.2⟩
    exact (UsageScan.preserves_or_emptied h).resolve_right hended

namespace Failing

/-- An update with a usage file that is not there. -/
def update : ExportsUpdate where
  directory := ⟨.relative, []⟩
  usageFile := ⟨.relative, ["missing.json"]⟩

/-- A scan with a usage file that has too long a name. -/
def scan : UsageScan where
  directory := ⟨.relative, []⟩
  usageFile := ⟨.relative, [List.replicate 256 'a']⟩

/-- The failure that a run ended with, if any. -/
def failure? {α : Type} (outcome : Except Failure α × World) : Option Failure :=
  match outcome.1 with
  | .error e => some e
  | .ok _ => none

lemma outcome_of_failure? {α : Type} (outcome : Except Failure α × World) {e : Failure}
    (h : failure? outcome = some e) : ∃ w', outcome = (.error e, w') := by
  rcases outcome with ⟨found | _, w'⟩
  · exact ⟨w', by rw [Option.some.inj h]⟩
  · cases h

end Failing

/-- A run that cannot read its usage file keeps all files. -/
theorem failed_runs_keep_files_unread :
    (∃ w', Failing.update.run.outcome ⟨UsageScan.surrogateFiles, []⟩ = (.error (.usageMissing "missing.json"), w') ∧
      UsageScan.surrogateFiles.Preserves w'.files) ∧
    ∃ w', Failing.scan.run.outcome ⟨UsageScan.surrogateFiles, []⟩ = (.error (.cause (.access .nameTooLong)), w') ∧
      UsageScan.surrogateFiles.Preserves w'.files := by
  constructor
  · have hfailure : Failing.failure? (Failing.update.run.outcome ⟨UsageScan.surrogateFiles, []⟩) =
        some (.usageMissing "missing.json") := by decide +kernel
    obtain ⟨w', houtcome⟩ := Failing.outcome_of_failure? _ hfailure
    have hkept := ((failed_runs_keep_files Failing.update Failing.scan _ w' _).1 houtcome).1.mpr fun hended => by
      obtain ⟨package, he⟩ := hended.failure
      cases he
    exact ⟨w', houtcome, hkept⟩
  · have hfailure : Failing.failure? (Failing.scan.run.outcome ⟨UsageScan.surrogateFiles, []⟩) =
        some (.cause (.access .nameTooLong)) := by decide +kernel
    obtain ⟨w', houtcome⟩ := Failing.outcome_of_failure? _ hfailure
    have hkept := ((failed_runs_keep_files Failing.update Failing.scan _ w' _).2 houtcome).1.mpr fun hended =>
      nomatch hended.failure
    exact ⟨w', houtcome, hkept⟩

/-- A scan of a usage file with a path that has no encoding fails, and the usage file is lost. -/
theorem failed_scan_empties_usage_file :
    ∃ e w', UsageScan.surrogateScan.run.outcome ⟨UsageScan.surrogateFiles, []⟩ = (.error e, w') ∧
      UsageScan.surrogateFiles.entryAt? ["usage.json"] = some (.file UsageScan.surrogateBytes) ∧
      w'.files.entryAt? ["usage.json"] = some (.file []) ∧ ¬UsageScan.surrogateFiles.Preserves w'.files := by
  obtain ⟨given, houtcome⟩ := UsageScan.surrogateScan_outcome
  obtain ⟨merged, hgathered, hencode⟩ := UsageScan.surrogateScan_gathered
  have hentry : UsageScan.surrogateFiles.entryAt? ["usage.json"] = some (.file UsageScan.surrogateBytes) := by
    decide +kernel
  have hended : UsageScan.EndedEmptying UsageScan.surrogateScan UsageScan.surrogateFiles
      (UsageScan.surrogateFiles.put ["usage.json"] (.file [])) (.cause .notEncodable) :=
    .intro hgathered (by decide +kernel) hentry (by decide +kernel) hencode
  exact ⟨_, _, houtcome, hentry, FileSystem.entryAt?_put_self _ _ (by decide), hended.lost.1⟩

end PackageExports
