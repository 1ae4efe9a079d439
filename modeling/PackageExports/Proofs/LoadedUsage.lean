import PackageExports.Proofs.UsageFile

/-!
# Records are loaded apart from each other

`UsageRecord.Reads` says what the members under a name must be to make a record, and which record they then make;
nothing else in the file counts. Loading keeps the members that make a record, in their order, and names each of the
others in one warning (`Usage.Separates`). A file without an object at the top gives a failure of usage files only,
and existing usage is given wherever the file can be looked for.

Main results: `UsageRecord.recordUnder_eq_iff`, `Usage.separates_ofMembers`, `Usage.load_loads`,
`Usage.records_loaded_apart`.
-/

namespace PackageExports

namespace UsageRecord

variable {name : Text} {members : Json.Members} {r : UsageRecord}

/-- The version range and the paths that members give. -/
structure Details (members : Json.Members) (r : UsageRecord) : Prop where
  range : (members.either? "versionRequirement" "version_requirement" = none ∨
      members.either? "versionRequirement" "version_requirement" = some .null) ∧ r.versionRequirement = none ∨
    ∃ range, members.either? "versionRequirement" "version_requirement" = some (.string range) ∧
      r.versionRequirement = some range
  paths : members.either? "importPaths" "import_paths" = none ∧ r.importPaths = [] ∨
    ∃ paths : List Text, members.either? "importPaths" "import_paths" = some (.array (paths.map .string)) ∧
      r.importPaths = Text.dedup paths

/-- The record that members under a name make; one that does not say its package is of the package of that name. -/
structure Reads (name : Text) (members : Json.Members) (r : UsageRecord) : Prop extends Details members r where
  package : members.value? "package" = none ∧ r.package = name ∨ members.value? "package" = some (.string r.package)

def packagePart (members : Json.Members) : Checked Text :=
  match Checked.member? members ["package"] with
  | some (name, value) => Checked.text name value
  | none => Checked.need "package" [] none

def rangePart (members : Json.Members) : Checked (Option Text) :=
  match Checked.member? members ["versionRequirement", "version_requirement"] with
  | none | some (_, .null) => pure none
  | some (name, value) => some <$> Checked.text name value

def pathsPart (members : Json.Members) : Checked (List Text) :=
  match Checked.member? members ["importPaths", "import_paths"] with
  | some (name, value) => Checked.texts name value
  | none => pure []

lemma ofMembers_eq (members : Json.Members) : ofMembers members = do
    let package ← packagePart members
    let versionRequirement ← rangePart members
    let importPaths ← pathsPart members
    return { package, versionRequirement, importPaths := Text.dedup importPaths } := by
  unfold ofMembers packagePart rangePart pathsPart
  rcases Checked.member? members ["package"] with _ | ⟨_, _⟩ <;>
    rcases Checked.member? members ["versionRequirement", "version_requirement"] with _ | ⟨_, _ | _⟩ <;>
      rcases Checked.member? members ["importPaths", "import_paths"] with _ | ⟨_, _⟩ <;> rfl

lemma packagePart_eq_iff {package : Text} :
    packagePart members = ⟨package, []⟩ ↔ members.value? "package" = some (.string package) := by
  rw [packagePart, Checked.member?_single]
  cases members.value? "package" with
  | none => simp [Checked.need]
  | some value => simp [Checked.text_eq_iff]

lemma rangePart_eq_iff {found : Option Text} : rangePart members = ⟨found, []⟩ ↔
    (members.either? "versionRequirement" "version_requirement" = none ∨
        members.either? "versionRequirement" "version_requirement" = some .null) ∧ found = none ∨
      ∃ range, members.either? "versionRequirement" "version_requirement" = some (.string range) ∧
        found = some range := by
  rw [rangePart]
  rcases Checked.member?_pair members "versionRequirement" "version_requirement" with
    ⟨hmember, heither⟩ | ⟨place, value, hmember, heither⟩ <;> rw [hmember, heither]
  · simp [Checked.pure_eq_iff, eq_comm]
  · have htext : some <$> Checked.text place value = ⟨found, []⟩ ↔ ∃ range, value = .string range ∧ found = some range := by
      rw [Checked.map_eq_iff]
      exact exists_congr fun range => and_congr Checked.text_eq_iff eq_comm
    cases value with
    | null => simp [Checked.pure_eq_iff, eq_comm]
    | _ => simpa using htext

lemma pathsPart_eq_iff {found : List Text} : pathsPart members = ⟨found, []⟩ ↔
    members.either? "importPaths" "import_paths" = none ∧ found = [] ∨
      members.either? "importPaths" "import_paths" = some (.array (found.map .string)) := by
  rw [pathsPart]
  rcases Checked.member?_pair members "importPaths" "import_paths" with
    ⟨hmember, heither⟩ | ⟨place, value, hmember, heither⟩ <;> rw [hmember, heither]
  · simp [Checked.pure_eq_iff, eq_comm]
  · simp [Checked.texts_eq_iff]

/-- Members with a package make a record without a fault. -/
lemma ofMembers_eq_iff : ofMembers members = ⟨r, []⟩ ↔
    members.value? "package" = some (.string r.package) ∧ Details members r := by
  rw [ofMembers_eq, Checked.bind_eq_iff]
  constructor
  · intro h
    obtain ⟨package, hpackage, h⟩ := h
    obtain ⟨range, hrange, h⟩ := Checked.bind_eq_iff.mp h
    obtain ⟨paths, hpaths, h⟩ := Checked.bind_eq_iff.mp h
    obtain rfl := Checked.pure_eq_iff.mp h
    refine ⟨packagePart_eq_iff.mp hpackage, rangePart_eq_iff.mp hrange, ?_⟩
    refine (pathsPart_eq_iff.mp hpaths).imp ?_ fun hsome => ⟨paths, hsome, rfl⟩
    rintro ⟨hnone, rfl⟩
    exact ⟨hnone, rfl⟩
  · rintro ⟨hpackage, hdetails⟩
    obtain ⟨paths, hpaths, hdedup⟩ : ∃ paths, pathsPart members = ⟨paths, []⟩ ∧ Text.dedup paths = r.importPaths := by
      obtain ⟨hnone, hpaths⟩ | ⟨paths, hsome, hpaths⟩ := hdetails.paths
      · exact ⟨[], pathsPart_eq_iff.mpr (.inl ⟨hnone, rfl⟩), hpaths.symm⟩
      · exact ⟨paths, pathsPart_eq_iff.mpr (.inr hsome), hpaths.symm⟩
    refine ⟨_, packagePart_eq_iff.mpr hpackage, Checked.bind_eq_iff.mpr ⟨_, rangePart_eq_iff.mpr hdetails.range, ?_⟩⟩
    exact Checked.bind_eq_iff.mpr ⟨paths, hpaths, Checked.pure_eq_iff.mpr (by rw [hdedup])⟩

lemma details_cons_package {value : Json} : Details (("package", value) :: members) r ↔ Details members r :=
  ⟨fun h => ⟨h.range, h.paths⟩, fun h => ⟨h.range, h.paths⟩⟩

/-- The value under a name makes a record without a fault exactly if it reads as that record. -/
theorem recordUnder_eq_iff {value : Json} :
    Usage.recordUnder name value = ⟨r, []⟩ ↔ ∃ members, value = .object members ∧ Reads name members r := by
  unfold Usage.recordUnder
  cases value with
  | object members =>
    have hexists : (∃ others, Json.object members = .object others ∧ Reads name others r) ↔ Reads name members r :=
      ⟨fun ⟨_, heq, hreads⟩ => Json.object.inj heq ▸ hreads, fun hreads => ⟨members, rfl, hreads⟩⟩
    rw [hexists]
    dsimp only
    cases hpackage : Json.Members.value? members "package" with
    | none =>
      have habsent : Keyed.hasKey members "package" = false := congrArg Option.isSome hpackage
      rw [habsent, if_neg Bool.false_ne_true, ofMembers_eq_iff, details_cons_package]
      have hfirst : Json.Members.value? (("package", .string name) :: members) "package" = some (.string name) := rfl
      rw [hfirst]
      constructor
      · rintro ⟨hname, hdetails⟩
        exact ⟨hdetails, .inl ⟨hpackage, (Json.string.inj (Option.some.inj hname)).symm⟩⟩
      · rintro ⟨hdetails, ⟨-, rfl⟩ | hsome⟩
        · exact ⟨rfl, hdetails⟩
        · cases hpackage.symm.trans hsome
    | some value =>
      have hpresent : Keyed.hasKey members "package" = true := congrArg Option.isSome hpackage
      rw [hpresent, if_pos rfl, ofMembers_eq_iff]
      constructor
      · rintro ⟨hsome, hdetails⟩
        exact ⟨hdetails, .inr hsome⟩
      · rintro ⟨hdetails, ⟨hnone, -⟩ | hsome⟩
        · cases hnone.symm.trans hpackage
        · exact ⟨hsome, hdetails⟩
  | _ => simp [ofJson]

lemma Reads.unique {other : UsageRecord} (h : Reads name members r) (hother : Reads name members other) : r = other := by
  have hread := recordUnder_eq_iff.mpr ⟨members, rfl, h⟩
  have hread' := recordUnder_eq_iff.mpr ⟨members, rfl, hother⟩
  exact congrArg Checked.value (hread.symm.trans hread')

end UsageRecord

/-- A failure of a usage file: it is not there, it cannot be read, it is no JSON, or there is no object at its top. -/
def Failure.IsUsageFault (path : Text) : Failure → Prop
  | .usageMissing named | .usageUnreadable named _ | .usageMalformed named _ => named = path
  | .usageNotObject => True
  | _ => False

namespace Usage

/-- Members, and the usage and the warnings that they make: a member is kept as the record it makes, or it makes none
and is named in one warning. -/
inductive Separates : Json.Members → Usage → List Notice → Prop
  | nothing : Separates [] [] []
  | kept {name : Text} {members rest : Json.Members} {r : UsageRecord} {usage : Usage} {warnings : List Notice} :
      UsageRecord.Reads name members r → Separates rest usage warnings →
      Separates ((name, .object members) :: rest) ((name, r) :: usage) warnings
  | dropped {name : Text} {value : Json} {rest : Json.Members} {faults : ℕ} {usage : Usage} {warnings : List Notice} :
      (∀ members r, value = .object members → ¬UsageRecord.Reads name members r) → Separates rest usage warnings →
      Separates ((name, value) :: rest) usage (.usageRecordIgnored name faults :: warnings)

/-- Loading separates the members that make a record from the others. -/
theorem separates_ofMembers (members : Json.Members) :
    Separates members (ofMembers members).value (ofMembers members).notices := by
  rw [ofMembers_value, ofMembers_notices]
  induction members with
  | nil => exact .nothing
  | cons member rest ih =>
    obtain ⟨name, value⟩ := member
    rw [recordsOf, warningsOf, List.filterMap_cons, List.filterMap_cons]
    dsimp only
    split_ifs with hfaults
    · obtain ⟨members, rfl, hreads⟩ :=
        UsageRecord.recordUnder_eq_iff.mp (Checked.eq_iff.mpr ⟨List.isEmpty_iff.mp hfaults, rfl⟩)
      exact .kept hreads ih
    · refine .dropped (fun members r hvalue hreads => hfaults ?_) ih
      rw [UsageRecord.recordUnder_eq_iff.mpr ⟨members, hvalue, hreads⟩]
      rfl

variable {fs : FileSystem} {path : Text} {members : Json.Members}

/-- A file whose bytes are the text of an object. -/
def HoldsObject (fs : FileSystem) (path : Text) (members : Json.Members) : Prop :=
  ∃ bytes t, fs.read path = .ok bytes ∧ Utf8.decode? bytes = some t ∧
    Json.parse? (Text.unifyNewlines t) = some (.object members)

/-- What loading a usage file gives, with its warnings: the records in the object that the file holds, or a failure of
usage files if it holds none. -/
inductive Loads (fs : FileSystem) (path : Text) : Except Failure Usage → List Notice → Prop
  | loaded {members : Json.Members} {usage : Usage} {warnings : List Notice} : HoldsObject fs path members →
      (Keyed.keys members).Nodup → Separates members usage warnings → Loads fs path (.ok usage) warnings
  | failed {e : Failure} : (∀ members, ¬HoldsObject fs path members) → e.IsUsageFault path →
      Loads fs path (.error e) []

lemma readValue_eq_object_iff : readValue fs path = .ok (.object members) ↔ HoldsObject fs path members := by
  unfold readValue FileSystem.readText HoldsObject
  cases hread : fs.read path with
  | error e => cases e <;> simp
  | ok bytes =>
    cases hdecode : Utf8.decode? bytes with
    | none => simp [hdecode]
    | some t => cases hparse : Json.parse? (Text.unifyNewlines t) <;> simp [hdecode, hparse]

lemma isUsageFault_of_readValue {e : Failure} (h : readValue fs path = .error e) : e.IsUsageFault path := by
  unfold readValue at h
  split at h
  iterate 5 exact Except.error.inj h ▸ rfl
  split at h
  · cases h
  · exact Except.error.inj h ▸ rfl

theorem load_loads (fs : FileSystem) (path : Text) : Loads fs path (load fs path).result (load fs path).notices := by
  rw [load_result, load_notices]
  cases hvalue : readValue fs path with
  | error e =>
    refine .failed (fun members hobject => ?_) (isUsageFault_of_readValue hvalue)
    cases hvalue.symm.trans (readValue_eq_object_iff.mpr hobject)
  | ok value =>
    cases value with
    | object members =>
      have hkept := kept_of_readValue hvalue
      rw [Json.Kept] at hkept
      have hseparates := separates_ofMembers members
      rw [ofMembers_value, ofMembers_notices] at hseparates
      exact .loaded (readValue_eq_object_iff.mp hvalue) hkept.1 hseparates
    | _ =>
      refine .failed (fun members hobject => ?_) trivial
      cases hvalue.symm.trans (readValue_eq_object_iff.mpr hobject)

/-- Existing usage is what its file gives, or nothing; only a name that is too long is not looked for. -/
theorem loadExisting_cases (fs : FileSystem) (path : Path) :
    fs.find path.text = .error .nameTooLong ∧ (loadExisting fs path).result = .error (.cause (.access .nameTooLong)) ∨
      fs.find path.text ≠ .error .nameTooLong ∧ ∃ usage, (loadExisting fs path).result = .ok usage ∧
        ((load fs path.text).result = .ok usage ∨ usage = [] ∧ ∃ e, (load fs path.text).result = .error e) := by
  have hcheck : fs.find path.text = .error .nameTooLong ∧ fs.check path.text none = .error .nameTooLong ∨
      fs.find path.text ≠ .error .nameTooLong ∧ ∃ there, fs.check path.text none = .ok there := by
    unfold FileSystem.check
    rcases fs.find path.text with e | location
    · cases e <;> simp
    · simp
  rcases hcheck with ⟨hfind, hcheck⟩ | ⟨hfind, there, hcheck⟩
  · refine .inl ⟨hfind, ?_⟩
    unfold loadExisting
    rw [Attempt.result_bind, Attempt.ofAccess, Attempt.result_ofExcept, hcheck]
    rfl
  · refine .inr ⟨hfind, recordedIn fs path.text, loadExisting_ok hcheck, ?_⟩
    rw [load_result, recordedIn]
    rcases readValue fs path.text with e | value
    · exact .inr ⟨rfl, e, rfl⟩
    · cases value with
      | object members => exact .inl rfl
      | _ => exact .inr ⟨rfl, _, rfl⟩

/-- Loading a usage file gives the records of an object apart from each other, each made of its own name and members
alone, or a failure of usage files; and looking for existing usage fails only where a name is too long. -/
theorem records_loaded_apart (fs : FileSystem) :
    (∀ path, Loads fs path (load fs path).result (load fs path).notices) ∧
      (∀ name members r other, UsageRecord.Reads name members r → UsageRecord.Reads name members other → r = other) ∧
      ∀ path : Path,
        fs.find path.text = .error .nameTooLong ∧
            (loadExisting fs path).result = .error (.cause (.access .nameTooLong)) ∨
          fs.find path.text ≠ .error .nameTooLong ∧ ∃ usage, (loadExisting fs path).result = .ok usage ∧
            ((load fs path.text).result = .ok usage ∨ usage = [] ∧ ∃ e, (load fs path.text).result = .error e) :=
  ⟨load_loads fs, fun _ _ _ _ => UsageRecord.Reads.unique, loadExisting_cases fs⟩

def longName : Text :=
  List.replicate 256 'a'

/-- Existing usage is looked for under a name that is too long, and that is a failure; loading from there gives a
failure of usage files, after which a scan would start with nothing. -/
theorem loadExisting_long_name :
    (loadExisting .empty (Path.ofText longName)).result = .error (.cause (.access .nameTooLong)) ∧
      (load .empty longName).result = .error (.usageUnreadable longName (.access .nameTooLong)) := by
  decide +kernel

end Usage

end PackageExports
