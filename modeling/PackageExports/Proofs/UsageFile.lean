import PackageExports.Proofs.CheckedValues
import PackageExports.Proofs.PackageUpdate
import PackageExports.Proofs.UsageUnion
import PackageExports.Usage.File

/-!
# Usage files are read as they were written

A usage file gives the records that fit, in their order. Usage that was written to a file is read back, its paths in
order and without empty version ranges.

Main results: `Usage.recordedIn_of_loadExisting`, `Usage.readValue_of_encode`, `Usage.load_written`.
-/

namespace PackageExports

namespace UsageRecord

/-- The record as it is read after it was written. -/
def reread (r : UsageRecord) : UsageRecord :=
  { r with versionRequirement := r.writtenRange, importPaths := Text.sort r.importPaths }

lemma nodup_ofMembers (members : Json.Members) : (ofMembers members).value.importPaths.Nodup := by
  unfold ofMembers
  split <;> dsimp only <;> split <;> simp only [Checked.value_bind] <;> split <;>
    exact Text.nodup_dedup _

lemma kept_written (package : Text) (range : Option Text) (paths : List Text) :
    (written package range paths).Kept := by
  have hpaths : (Json.array (paths.map .string)).Kept := by
    rw [Json.Kept, Json.keptItems_iff]
    intro item hitem
    obtain ⟨t, -, rfl⟩ := List.mem_map.mp hitem
    trivial
  cases range with
  | none =>
    have hkeys : (["package", "importPaths"] : List Text).Nodup := by decide
    exact ⟨hkeys, trivial, hpaths, trivial⟩
  | some range =>
    have hkeys : (["package", "versionRequirement", "importPaths"] : List Text).Nodup := by decide
    exact ⟨hkeys, trivial, trivial, hpaths, trivial⟩

lemma ofMembers_written (package : Text) {range : Option Text} {paths : List Text} (hpaths : paths.Nodup)
    {members : Json.Members} (h : written package range paths = .object members) :
    ofMembers members = ⟨⟨package, range, paths⟩, []⟩ := by
  obtain rfl := Json.object.inj h
  have htexts : Checked.texts (Text.ofString "importPaths") (.array (paths.map .string)) = ⟨paths, []⟩ :=
    Checked.textsFrom_string _ 0 paths
  have hdedup := Text.dedup_of_nodup hpaths
  cases range with
  | none =>
    change (⟨⟨package, none, Text.dedup (Checked.texts _ _).value⟩, [] ++ ([] ++ ((Checked.texts _ _).faults ++ []))⟩ :
      Checked UsageRecord) = _
    rw [htexts, hdedup]
    rfl
  | some range =>
    change (⟨⟨package, some range, Text.dedup (Checked.texts _ _).value⟩,
      [] ++ ([] ++ ((Checked.texts _ _).faults ++ []))⟩ :
      Checked UsageRecord) = _
    rw [htexts, hdedup]
    rfl

end UsageRecord

namespace Usage

def recordsOf (members : Json.Members) : Usage :=
  members.filterMap fun p =>
    if (recordUnder p.1 p.2).faults.isEmpty then some (p.1, (recordUnder p.1 p.2).value) else none

lemma ofMembers_value (members : Json.Members) : (ofMembers members).value = recordsOf members := by
  induction members with
  | nil => rfl
  | cons p rest ih =>
    rw [recordsOf, List.filterMap_cons, ofMembers]
    by_cases hfaults : (recordUnder p.1 p.2).faults.isEmpty = true
    · simp only [if_pos hfaults, Noted.value_bind, Noted.value_pure, ih]
      rfl
    · simp only [if_neg hfaults, Noted.value_bind, ih]
      rfl

def warningsOf (members : Json.Members) : List Notice :=
  members.filterMap fun p =>
    let record := recordUnder p.1 p.2
    if record.faults.isEmpty then none else some (.usageRecordIgnored p.1 record.faults.length)

lemma ofMembers_notices (members : Json.Members) : (ofMembers members).notices = warningsOf members := by
  induction members with
  | nil => rfl
  | cons p rest ih =>
    rw [warningsOf, List.filterMap_cons, ofMembers]
    by_cases hfaults : (recordUnder p.1 p.2).faults.isEmpty = true
    · simp only [if_pos hfaults, Noted.notices_bind, Noted.notices_pure, List.append_nil, ih]
      rfl
    · simp only [if_neg hfaults, Noted.notices_bind, ih]
      rfl

lemma nodup_keys_recordsOf {members : Json.Members} (h : (Keyed.keys members).Nodup) :
    (recordsOf members).keys.Nodup := by
  have hsublist : (recordsOf members).keys.Sublist (Keyed.keys members) := by
    clear h
    induction members with
    | nil => exact List.Sublist.refl _
    | cons p rest ih =>
      rw [recordsOf, List.filterMap_cons]
      split_ifs with hfaults
      · exact ih.cons_cons p.1
      · exact ih.cons p.1
  exact h.sublist hsublist

lemma nodup_paths_recordsOf {members : Json.Members} : ∀ p ∈ recordsOf members, p.2.importPaths.Nodup := by
  intro p hp
  obtain ⟨⟨name, value⟩, -, hsome⟩ := List.mem_filterMap.mp hp
  split_ifs at hsome with hfaults
  obtain rfl := Option.some.inj hsome
  unfold recordUnder at hfaults ⊢
  split
  · exact UsageRecord.nodup_ofMembers _
  · unfold UsageRecord.ofJson
    split
    · exact UsageRecord.nodup_ofMembers _
    · exact List.nodup_nil

/-- The records that fit of a usage file; there are none if it cannot be used. -/
def recordedIn (fs : FileSystem) (path : Text) : Usage :=
  match readValue fs path with
  | .ok (.object members) => recordsOf members
  | _ => []

variable {fs : FileSystem} {path : Text} {value : Json} {usage : Usage}

lemma kept_of_readValue (h : readValue fs path = .ok value) : value.Kept := by
  unfold readValue at h
  split at h
  all_goals try cases h
  split at h
  · rename_i t _ _ found hparse
    obtain rfl := Except.ok.inj h
    unfold Json.parse? at hparse
    cases hresult : Json.parse t with
    | error refusal =>
      rw [hresult] at hparse
      cases hparse
    | ok found =>
      rw [hresult] at hparse
      obtain rfl := Option.some.inj hparse
      exact Json.kept_of_parse hresult
  · cases h

lemma recordedIn_spec (fs : FileSystem) (path : Text) :
    (recordedIn fs path).keys.Nodup ∧ ∀ p ∈ recordedIn fs path, p.2.importPaths.Nodup := by
  unfold recordedIn
  split
  · rename_i members hvalue
    have hkept := kept_of_readValue hvalue
    rw [Json.Kept] at hkept
    exact ⟨nodup_keys_recordsOf hkept.1, nodup_paths_recordsOf⟩
  · exact ⟨List.nodup_nil, by simp⟩

lemma load_result (fs : FileSystem) (path : Text) :
    (load fs path).result =
      match readValue fs path with
      | .ok (.object members) => .ok (recordsOf members)
      | .ok _ => .error .usageNotObject
      | .error e => .error e := by
  unfold load
  rw [Attempt.result_bind, Attempt.result_ofExcept]
  cases readValue fs path with
  | error e => rfl
  | ok value =>
    cases value with
    | object members =>
      exact congrArg Except.ok (ofMembers_value members)
    | _ => rfl

lemma load_notices (fs : FileSystem) (path : Text) :
    (load fs path).notices =
      match readValue fs path with
      | .ok (.object members) => warningsOf members
      | _ => [] := by
  unfold load
  rw [Attempt.notices_bind, Attempt.result_ofExcept, Attempt.notices_ofExcept, List.nil_append]
  cases readValue fs path with
  | error e => rfl
  | ok value =>
    cases value with
    | object members => exact (Attempt.notices_lift _).trans (ofMembers_notices members)
    | _ => rfl

lemma recordedIn_of_missing (hcheck : fs.check path none = .ok false) : recordedIn fs path = [] := by
  have hread : ∃ e, fs.readText path = .error (.access e) := by
    unfold FileSystem.check at hcheck
    unfold FileSystem.readText FileSystem.read
    cases hfind : fs.find path with
    | error e => exact ⟨e, rfl⟩
    | ok location =>
      rw [hfind] at hcheck
      cases hcheck
  obtain ⟨e, he⟩ := hread
  unfold recordedIn readValue
  rw [he]
  cases e <;> rfl

/-- What a usage file records is what is loaded from it, or nothing if it cannot be used. -/
lemma recordedIn_eq (fs : FileSystem) (path : Text) :
    recordedIn fs path = match (load fs path).result with
      | .ok loaded => loaded
      | .error _ => [] := by
  rw [load_result, recordedIn]
  cases readValue fs path with
  | error e => rfl
  | ok value => cases value <;> rfl

/-- Existing usage is what the file records. -/
theorem recordedIn_of_loadExisting {path : Path} (h : (loadExisting fs path).result = .ok usage) :
    usage = recordedIn fs path.text := by
  unfold loadExisting at h
  rw [Attempt.result_bind, Attempt.ofAccess, Attempt.result_ofExcept] at h
  cases hcheck : fs.check path.text none with
  | error e =>
    rw [hcheck] at h
    cases h
  | ok there =>
    rw [hcheck] at h
    cases there with
    | false =>
      obtain rfl := Except.ok.inj h
      exact (recordedIn_of_missing hcheck).symm
    | true =>
      rw [recordedIn_eq, Attempt.result]
      rcases hrun : (load fs path.text).run with ⟨failure | loaded, notices⟩ <;>
        simp only [Except.mapError, Except.bind, if_true, hrun, Attempt.result_lift] at h ⊢
      · exact (Except.ok.inj h).symm
      · exact (Except.ok.inj h).symm

lemma loadExisting_ok {path : Path} {there : Bool} (h : fs.check path.text none = .ok there) :
    (loadExisting fs path).result = .ok (recordedIn fs path.text) := by
  have hok : ∃ usage, (loadExisting fs path).result = .ok usage := by
    unfold loadExisting
    rw [Attempt.result_bind, Attempt.ofAccess, Attempt.result_ofExcept, h]
    cases there with
    | false => exact ⟨[], rfl⟩
    | true =>
      rcases hrun : (load fs path.text).run with ⟨failure | loaded, notices⟩ <;>
        simp only [Except.mapError, Except.bind, if_true] <;> exact ⟨_, rfl⟩
  obtain ⟨usage, husage⟩ := hok
  rw [husage, recordedIn_of_loadExisting husage]

lemma kept_toJson (h : usage.keys.Nodup) : (toJson usage).Kept := by
  rw [toJson, Json.Kept, Json.keptMembers_iff]
  constructor
  · rw [Keyed.keys, List.map_map]
    exact h
  · intro member hmember
    obtain ⟨p, -, rfl⟩ := List.mem_map.mp hmember
    exact UsageRecord.kept_written _ _ _

theorem readValue_of_encode {bytes : List UInt8} (hread : fs.read path = .ok bytes)
    (hencode : Utf8.encode? value.pretty = some bytes) (hvalue : value.Kept) : readValue fs path = .ok value := by
  have hend : Json.Token.EndsWord [] := by simp [Json.Token.EndsWord]
  have hparse := Json.parse_pretty hvalue hend rfl
  rw [List.append_nil] at hparse
  unfold readValue
  rw [FileSystem.readText_of_encode hread hencode (Json.noReturn_prettyAt 0 value hvalue)]
  dsimp only
  rw [Json.parse?, hparse]
  rfl

lemma recordUnder_toJson (name : Text) {r : UsageRecord} (h : r.importPaths.Nodup) :
    recordUnder name r.toJson = ⟨r.reread, []⟩ :=
  UsageRecord.ofMembers_written _ (Text.Ascending.sort h).nodup rfl

theorem recordsOf_toJson (hpaths : ∀ p ∈ usage, p.2.importPaths.Nodup) :
    recordsOf (usage.map fun p => (p.1, p.2.toJson)) = usage.map fun p => (p.1, p.2.reread) := by
  induction usage with
  | nil => rfl
  | cons p rest ih =>
    have hrecord := recordUnder_toJson p.1 (hpaths p List.mem_cons_self)
    rw [List.map_cons, List.map_cons, ← ih fun q hq => hpaths q (List.mem_cons_of_mem _ hq), recordsOf,
      List.filterMap_cons]
    dsimp only
    rw [hrecord]
    rfl

lemma recordedIn_written {bytes : List UInt8} (hread : fs.read path = .ok bytes)
    (hencode : Utf8.encode? (toJson usage).pretty = some bytes) (hkeys : usage.keys.Nodup)
    (hpaths : ∀ p ∈ usage, p.2.importPaths.Nodup) : recordedIn fs path = usage.map fun p => (p.1, p.2.reread) := by
  unfold recordedIn
  rw [readValue_of_encode hread hencode (kept_toJson hkeys)]
  exact recordsOf_toJson hpaths

theorem load_written {bytes : List UInt8} (hread : fs.read path = .ok bytes)
    (hencode : Utf8.encode? (toJson usage).pretty = some bytes) (hkeys : usage.keys.Nodup)
    (hpaths : ∀ p ∈ usage, p.2.importPaths.Nodup) :
    (load fs path).result = .ok (usage.map fun p => (p.1, p.2.reread)) := by
  rw [load_result, readValue_of_encode hread hencode (kept_toJson hkeys)]
  exact congrArg Except.ok (recordsOf_toJson hpaths)

end Usage

end PackageExports
