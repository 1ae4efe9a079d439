import PackageExports.Proofs.SecondRun

/-!
# What does not see the exports of manifests

Two file systems agree beside exports if all entries are the same but for files named `package.json`, and each of
these has the same members but for its exports. The exports that are assembled for a package are the same in both, as
long as its own manifest is the same and its main file is no `package.json`: looking for files sees the skeleton only,
and the module system of a file depends on the `type` of manifests and on the words of the main file.

Main results: `AgreesBesideExports.of_effect`, `AgreesBesideExports.detect_eq`, `AgreesBesideExports.exportsInBatch_eq`.
-/

namespace PackageExports

/-- The bytes of two manifests that are the same but for the exports. -/
def Json.Members.Reexported (old new : List UInt8) : Prop :=
  ∃ members exports, ofBytes old = .ok members ∧
    ofBytes new = .ok (Keyed.insert (Text.ofString "exports") (.object exports) members)

lemma Json.Members.Reexported.trans {a b c : List UInt8} (hab : Reexported a b) (hbc : Reexported b c) :
    Reexported a c := by
  obtain ⟨members, first, ha, hb⟩ := hab
  obtain ⟨others, second, hb', hc⟩ := hbc
  obtain rfl := Except.ok.inj (hb.symm.trans hb')
  exact ⟨members, second, ha, by rw [hc, Keyed.insert_insert]⟩

/-- The second file system differs from the first in the exports of files named `package.json` at most. -/
structure AgreesBesideExports (fs after : FileSystem) : Prop where
  skeleton : after.skeleton = fs.skeleton
  entries : ∀ location, after.entryAt? location = fs.entryAt? location ∨
    location.getLast? = some Package.manifestName ∧ ∃ old new, fs.entryAt? location = some (.file old) ∧
      after.entryAt? location = some (.file new) ∧ Json.Members.Reexported old new

namespace AgreesBesideExports

variable {fs mid after : FileSystem}

lemma refl (fs : FileSystem) : AgreesBesideExports fs fs :=
  ⟨rfl, fun _ => .inl rfl⟩

lemma trans (h : AgreesBesideExports fs mid) (h' : AgreesBesideExports mid after) : AgreesBesideExports fs after where
  skeleton := h'.skeleton.trans h.skeleton
  entries location := by
    rcases h.entries location with hfirst | ⟨hlast, old, next, hold, hnext, hfirst⟩
    · rw [← hfirst]
      exact h'.entries location
    · right
      refine ⟨hlast, old, ?_⟩
      rcases h'.entries location with hsecond | ⟨-, next', new, hnext', hnew, hsecond⟩
      · exact ⟨next, hold, by rw [hsecond, hnext], hfirst⟩
      · obtain rfl := Entry.file.inj (Option.some.inj (hnext.symm.trans hnext'))
        exact ⟨new, hold, hnew, hfirst.trans hsecond⟩

/-- An update keeps the agreement if the manifest of its package has the name of manifests. -/
theorem of_effect {u : ExportsUpdate} {p : Package} {update : Option PackageUpdate}
    (h : ExportsUpdate.Effect u p fs update after)
    (hname : ∀ location, fs.find p.manifest.text = .ok location → location.getLast? = some Package.manifestName) :
    AgreesBesideExports fs after := by
  cases h with
  | passed | kept => exact refl fs
  | @written members start added place old new hdry hfind hentry hold hkept hnew hstart =>
    refine ⟨FileSystem.skeleton_put fs new hentry, fun location => ?_⟩
    by_cases hplace : place = location
    · subst hplace
      exact .inr ⟨hname _ hfind, old, new, hentry,
        FileSystem.entryAt?_put_self fs _ (FileSystem.ne_nil_of_file hentry), members, start ++ added, hold, hnew⟩
    · exact .inl (FileSystem.entryAt?_put_of_ne fs _ hplace)

/-- A path is read in both as the same bytes, or it leads to a manifest that is the same but for its exports. -/
lemma read_cases (h : AgreesBesideExports fs after) (path : Text) :
    after.read path = fs.read path ∨ ∃ location old new, fs.find path = .ok location ∧
      fs.entryAt? location = some (.file old) ∧ location.getLast? = some Package.manifestName ∧
      fs.read path = .ok old ∧ after.read path = .ok new ∧ Json.Members.Reexported old new := by
  have hfind := FileSystem.find_congr h.skeleton path
  cases hplace : fs.find path with
  | error e =>
    left
    rw [FileSystem.read, FileSystem.read, hfind, hplace]
  | ok location =>
    rw [hplace] at hfind
    rcases h.entries location with hsame | ⟨hlast, old, new, hold, hnew, hexports⟩
    · left
      rw [FileSystem.read, FileSystem.read, hfind, hplace]
      dsimp only
      rw [hsame]
    · exact .inr ⟨location, old, new, rfl, hold, hlast, FileSystem.read_of_find hplace hold,
        FileSystem.read_of_find hfind hnew, hexports⟩

lemma read_eq (h : AgreesBesideExports fs after) {path : Text}
    (hother : ∀ location bytes, fs.find path = .ok location → fs.entryAt? location = some (.file bytes) →
      location.getLast? ≠ some Package.manifestName) : after.read path = fs.read path := by
  rcases h.read_cases path with hsame | ⟨location, old, -, hfind, hentry, hlast, -⟩
  · exact hsame
  · exact absurd hlast (hother location old hfind hentry)

end AgreesBesideExports

namespace ModuleKind

variable {fs after : FileSystem} {path : Text}

lemma declaredIn_congr (h : after.read path = fs.read path) : declaredIn after path = declaredIn fs path := by
  unfold declaredIn
  rw [FileSystem.readText_congr h]

/-- What a package.json with these bytes declares. -/
def declared? (bytes : List UInt8) : Option ModuleKind :=
  (Json.Members.ofBytes bytes).toOption.bind fun members => ofTypeField (members.value? "type")

lemma declaredIn_of_read {bytes : List UInt8} (h : fs.read path = .ok bytes) :
    declaredIn fs path = declared? bytes := by
  unfold declaredIn FileSystem.readText Json.parse? declared? Json.Members.ofBytes
  rw [h]
  dsimp only
  cases Utf8.decode? bytes with
  | none => rfl
  | some t =>
    dsimp only
    rcases Json.parse (Text.unifyNewlines t) with refusal | value
    · rfl
    · cases value <;> rfl

lemma declaredIn_of_bytes {bytes : List UInt8} {members : Json.Members} (hread : fs.read path = .ok bytes)
    (h : Json.Members.ofBytes bytes = .ok members) : declaredIn fs path = ofTypeField (members.value? "type") := by
  rw [declaredIn_of_read hread, declared?, h]
  rfl

lemma declaredIn_eq (h : AgreesBesideExports fs after) (path : Text) : declaredIn after path = declaredIn fs path := by
  rcases h.read_cases path with hsame | ⟨-, old, new, -, -, -, hold, hnew, members, exports, hmembers, hothers⟩
  · exact declaredIn_congr hsame
  · rw [declaredIn_of_bytes hold hmembers, declaredIn_of_bytes hnew hothers, Manifest.value?_insert _ (by decide)]

lemma declaredAt_eq (h : AgreesBesideExports fs after) (locations : List Location) :
    declaredAt after locations = declaredAt fs locations := by
  induction locations with
  | nil => rfl
  | cons location rest ih => simp only [declaredAt, FileSystem.check_congr h.skeleton, declaredIn_eq h, ih]

end ModuleKind

/-- The main file of a package is no file named `package.json`. -/
def Manifest.MainApart (fs : FileSystem) (package : Path) (m : Manifest) : Prop :=
  ∀ file, BrowserTargets.entryPath m.main = some file → ∀ location bytes,
    fs.find (package / Relative.bare file).text = .ok location → fs.entryAt? location = some (.file bytes) →
      location.getLast? ≠ some Package.manifestName

namespace AgreesBesideExports

variable {fs after : FileSystem} {package : Path}

/-- The module system of a file that is no `package.json`. -/
theorem detect_eq (h : AgreesBesideExports fs after) {file : Text}
    (hother : ∀ location bytes, fs.find (package / Relative.bare file).text = .ok location →
      fs.entryAt? location = some (.file bytes) → location.getLast? ≠ some Package.manifestName) :
    ModuleKind.detect after package file = ModuleKind.detect fs package file := by
  have hread := h.read_eq hother
  have hreal (path : Path) : after.realPath path = fs.realPath path :=
    FileSystem.eq_of_skeleton (·.realPath path) (FileSystem.realPath_skeleton · path) h.skeleton
  have htext : after.readTextReplacing (package / Relative.bare file).text =
      fs.readTextReplacing (package / Relative.bare file).text := by
    unfold FileSystem.readTextReplacing
    rw [hread]
  unfold ModuleKind.detect
  simp only [ModuleKind.declaredAt_eq h, hreal, FileSystem.check_congr h.skeleton, htext]

lemma baseline_eq (h : AgreesBesideExports fs after) {m : Manifest} (hmain : m.MainApart fs package)
    (sources : List Text) : Baseline.exports after package m sources = Baseline.exports fs package m sources := by
  have hnamed : Baseline.namedSource? after package m = Baseline.namedSource? fs package m :=
    FileSystem.eq_of_skeleton (Baseline.namedSource? · package m)
      (Baseline.namedSource?_skeleton · package m) h.skeleton
  have hfirst (files : List Text) :
      Baseline.sourceOfFirst after package sources files = Baseline.sourceOfFirst fs package sources files :=
    FileSystem.eq_of_skeleton (Baseline.sourceOfFirst · package sources files)
      (Baseline.sourceOfFirst_skeleton · package sources files) h.skeleton
  have hreplaced (file : Text) (browser : Option Text) :
      Baseline.replaced after package sources file browser = Baseline.replaced fs package sources file browser :=
    FileSystem.eq_of_skeleton (Baseline.replaced · package sources file browser)
      (Baseline.replaced_skeleton · package sources file browser) h.skeleton
  have hroot (browser : Option Text) :
      Baseline.root after package m browser sources = Baseline.root fs package m browser sources := by
    unfold Baseline.root
    rw [hnamed]
    cases hfile : BrowserTargets.entryPath m.main with
    | none => simp only [hfirst]
    | some file => simp only [hfirst, Baseline.requiredOf, h.detect_eq (hmain file hfile)]
  unfold Baseline.exports
  simp only [hroot, hreplaced]

/-- The exports that are assembled for a package whose main file is no `package.json`. -/
theorem exportsInBatch_eq (h : AgreesBesideExports fs after) {a : Assembly}
    (hmain : a.manifest.MainApart fs a.package) : a.exportsInBatch after = a.exportsInBatch fs := by
  have hstart : a.start after = a.start fs := by
    unfold Assembly.start
    rw [h.baseline_eq hmain]
  have hexport (path : Text) : a.exportOf after path = a.exportOf fs path := Assembly.exportOf_congr h.skeleton rfl
  have hwork : a.work after = a.work fs := by simp only [Assembly.work, hexport]
  rw [Assembly.exportsInBatch_eq, Assembly.exportsInBatch_eq, hstart, hwork]

end AgreesBesideExports

end PackageExports
