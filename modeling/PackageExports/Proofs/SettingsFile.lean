import PackageExports.Proofs.Actions
import PackageExports.Proofs.CheckedValues
import PackageExports.Settings.Load

/-!
# What a settings file gives

`Settings.Given` says which settings the members of a mapping give: a field that is absent has its default, and one
that is there must be of its kind. `Settings.Describes` says which settings the content of a file describes, as an
empty document or as a mapping with texts for keys. Reading agrees with that, and fails as a fault of the settings file
otherwise, exactly for the contents that are `Settings.Regular`.

Main results: `BatchSettings.ofMembers_eq_iff`, `Settings.ofMembers_eq_iff`, `Settings.ofYaml_agrees_iff`,
`Settings.read_agrees_iff`.
-/

namespace PackageExports

/-- The member under a name gives a value: the default if it is absent, and else what it reads as. -/
def Json.Members.Gives {α : Type} (members : Json.Members) (name : Text) (default : α) (reads : Json → α → Prop)
    (a : α) : Prop :=
  members.value? name = none ∧ default = a ∨ ∃ value, members.value? name = some value ∧ reads value a

/-- A value is a list of strings. -/
def Json.IsTexts (value : Json) (ts : List Text) : Prop :=
  value = .array (ts.map .string)

variable {members : Json.Members} {path : Path}

lemma Checked.field_gives_iff {α : Type} {name : Text} {default a : α} {read : Text → Json → Checked α}
    {reads : Json → α → Prop} (hreads : ∀ value, read name value = ⟨a, []⟩ ↔ reads value a) :
    Checked.field members name default read = ⟨a, []⟩ ↔ members.Gives name default reads a := by
  rw [Checked.field_eq_iff, Json.Members.Gives]
  exact or_congr_right (exists_congr fun value => and_congr_right fun _ => hreads value)

namespace BatchSettings

/-- The batch settings that members give: the number of items under way and the time are positive. -/
structure Given (members : Json.Members) (b : BatchSettings) : Prop where
  concurrency : members.Gives "concurrency" Slots.usual
    (fun value slots => ∃ n, value.integer? = some n ∧ 0 < n ∧ (slots.val : Int) = n) b.concurrency
  continueOnError : members.Gives "continue_on_error" true (fun value a => value.bool? = some a) b.continueOnError
  operationTimeout : members.Gives "operation_timeout" (.ofInt 5)
    (fun value seconds => value.real? = some seconds ∧ seconds.isPositive = true) b.operationTimeout
  collectStats : members.Gives "collect_stats" true (fun value a => value.bool? = some a) b.collectStats

lemma slots?_eq_some {n : Int} {slots : Slots} : slots? n = some slots ↔ 0 < n ∧ (slots.val : Int) = n := by
  unfold slots?
  split_ifs with hpositive
  · rw [Option.some.injEq, Subtype.ext_iff]
    dsimp only
    omega
  · have := slots.property
    simp only [false_iff]
    omega

/-- Members give batch settings without a fault exactly if each field is given. -/
theorem ofMembers_eq_iff {b : BatchSettings} {place : Text} : ofMembers place members = ⟨b, []⟩ ↔ Given members b := by
  have hconcurrency (name : Text) (value : Json) (slots : Slots) :
      Checked.need name Slots.usual (value.integer?.bind slots?) = ⟨slots, []⟩ ↔
        ∃ n, value.integer? = some n ∧ 0 < n ∧ (slots.val : Int) = n := by
    rw [Checked.need_eq_iff, Option.bind_eq_some_iff]
    exact exists_congr fun n => and_congr_right fun _ => slots?_eq_some
  have htimeout (name : Text) (value : Json) (standIn seconds : Binary64) :
      Checked.need name standIn (value.real?.filter Binary64.isPositive) = ⟨seconds, []⟩ ↔
        value.real? = some seconds ∧ seconds.isPositive = true := by
    rw [Checked.need_eq_iff, Option.filter_eq_some_iff]
  constructor
  · intro h
    obtain ⟨concurrency, h1, h⟩ := Checked.bind_eq_iff.mp h
    obtain ⟨continueOnError, h2, h⟩ := Checked.bind_eq_iff.mp h
    obtain ⟨operationTimeout, h3, h⟩ := Checked.bind_eq_iff.mp h
    obtain ⟨collectStats, h4, h⟩ := Checked.bind_eq_iff.mp h
    obtain rfl := Checked.pure_eq_iff.mp h
    exact ⟨(Checked.field_gives_iff fun value => hconcurrency _ value _).mp h1,
      (Checked.field_gives_iff fun _ => Checked.need_eq_iff).mp h2,
      (Checked.field_gives_iff fun value => htimeout _ value _ _).mp h3,
      (Checked.field_gives_iff fun _ => Checked.need_eq_iff).mp h4⟩
  · intro h
    refine Checked.bind_eq_iff.mpr
      ⟨_, (Checked.field_gives_iff fun value => hconcurrency _ value _).mpr h.concurrency, ?_⟩
    refine Checked.bind_eq_iff.mpr ⟨_, (Checked.field_gives_iff fun _ => Checked.need_eq_iff).mpr h.continueOnError, ?_⟩
    refine Checked.bind_eq_iff.mpr
      ⟨_, (Checked.field_gives_iff fun value => htimeout _ value _ _).mpr h.operationTimeout, ?_⟩
    exact Checked.bind_eq_iff.mpr ⟨_, (Checked.field_gives_iff fun _ => Checked.need_eq_iff).mpr h.collectStats, rfl⟩

lemma ofJson_eq_iff {b : BatchSettings} {place : Text} {value : Json} :
    ofJson place value = ⟨b, []⟩ ↔ ∃ fields, value = .object fields ∧ Given fields b := by
  cases value with
  | object fields => simp [ofJson, ofMembers_eq_iff]
  | _ => simp [ofJson]

end BatchSettings

namespace Settings

/-- The settings that members give; other members count for nothing. -/
structure Given (members : Json.Members) (s : Settings) : Prop where
  buildDirectories : members.Gives "build_dirs" ({} : Settings).buildDirectories Json.IsTexts s.buildDirectories
  sourceDirectories : members.Gives "source_dirs" ({} : Settings).sourceDirectories Json.IsTexts s.sourceDirectories
  packageIgnore : members.Gives "package_ignore" ({} : Settings).packageIgnore Json.IsTexts s.packageIgnore
  scanIgnore : members.Gives "scan_ignore" ({} : Settings).scanIgnore Json.IsTexts s.scanIgnore
  scanExtensions : members.Gives "scan_extensions" ({} : Settings).scanExtensions Json.IsTexts s.scanExtensions
  batch : members.Gives "batch" {} (fun value b => ∃ fields, value = .object fields ∧ BatchSettings.Given fields b)
    s.batch

/-- Members give settings without a fault exactly if each field is given. -/
theorem ofMembers_eq_iff {s : Settings} : ofMembers members = ⟨s, []⟩ ↔ Given members s := by
  have htexts {name : Text} {default ts : List Text} :
      Checked.field members name default Checked.texts = ⟨ts, []⟩ ↔ members.Gives name default Json.IsTexts ts :=
    Checked.field_gives_iff fun _ => Checked.texts_eq_iff
  have hbatch {name : Text} {default b : BatchSettings} :
      Checked.field members name default BatchSettings.ofJson = ⟨b, []⟩ ↔
        members.Gives name default (fun value b => ∃ fields, value = .object fields ∧ BatchSettings.Given fields b) b :=
    Checked.field_gives_iff fun _ => BatchSettings.ofJson_eq_iff
  constructor
  · intro h
    obtain ⟨buildDirectories, h1, h⟩ := Checked.bind_eq_iff.mp h
    obtain ⟨sourceDirectories, h2, h⟩ := Checked.bind_eq_iff.mp h
    obtain ⟨packageIgnore, h3, h⟩ := Checked.bind_eq_iff.mp h
    obtain ⟨scanIgnore, h4, h⟩ := Checked.bind_eq_iff.mp h
    obtain ⟨scanExtensions, h5, h⟩ := Checked.bind_eq_iff.mp h
    obtain ⟨batch, h6, h⟩ := Checked.bind_eq_iff.mp h
    obtain rfl := Checked.pure_eq_iff.mp h
    exact ⟨htexts.mp h1, htexts.mp h2, htexts.mp h3, htexts.mp h4, htexts.mp h5, hbatch.mp h6⟩
  · intro h
    refine Checked.bind_eq_iff.mpr ⟨_, htexts.mpr h.buildDirectories, ?_⟩
    refine Checked.bind_eq_iff.mpr ⟨_, htexts.mpr h.sourceDirectories, ?_⟩
    refine Checked.bind_eq_iff.mpr ⟨_, htexts.mpr h.packageIgnore, ?_⟩
    refine Checked.bind_eq_iff.mpr ⟨_, htexts.mpr h.scanIgnore, ?_⟩
    refine Checked.bind_eq_iff.mpr ⟨_, htexts.mpr h.scanExtensions, ?_⟩
    exact Checked.bind_eq_iff.mpr ⟨_, hbatch.mpr h.batch, rfl⟩

lemma given_nil_iff {s : Settings} : Given [] s ↔ s = {} := by
  rw [← ofMembers_eq_iff]
  have hnil : ofMembers [] = ⟨{}, []⟩ := rfl
  rw [hnil, Checked.mk.injEq]
  exact ⟨fun h => h.1.symm, fun h => ⟨h.symm, rfl⟩⟩

end Settings

/-- A failure of a settings file. -/
def Failure.IsSettingsFault (path : Path) : Failure → Prop
  | .settingsMissing named | .settingsUnreadable named _ | .settingsMalformed named | .settingsNotMapping named |
    .settingsInvalid named _ => named = path
  | _ => False

namespace Yaml.Document

variable {d : Document} {keys : List Atom}

lemma toJson_of_keys? (h : d.keys? = some keys) : ∃ members, d.toJson Settings.depth = .object members ∧
    d.isTruthy = !keys.isEmpty ∧ (keys = [] → members = []) := by
  unfold keys? at h
  split at h
  · cases h
  · rename_i node hroot
    split at h
    · rename_i pairs hpairs
      obtain rfl := Option.some.inj h
      refine ⟨_, by rw [toJson, hroot, Settings.depth, valueToJson, hpairs], ?_, ?_⟩
      · rw [isTruthy, hroot]
        simp [hpairs, Collection.isEmpty]
      · intro hnil
        rw [List.map_eq_nil_iff.mp hnil]
        rfl
    · cases h

end Yaml.Document

namespace Settings

/-- The settings that a document describes: the defaults if it is a null, and what its members give if it is a mapping
with texts for keys. -/
def DescribedBy (d : Yaml.Document) (s : Settings) : Prop :=
  d.root = .atom .null ∧ s = {} ∨
    ∃ keys members, d.keys? = some keys ∧ (∀ key ∈ keys, ∃ name, key = .text name) ∧
      d.toJson depth = .object members ∧ Given members s

/-- An outcome agrees with a description: there are settings exactly if they are described, and else a fault of the
settings file. -/
def Agrees (path : Path) (described : Settings → Prop) (outcome : Except Failure Settings) : Prop :=
  (∀ s, outcome = .ok s ↔ described s) ∧ ∀ e, outcome = .error e → e.IsSettingsFault path

/-- A document that is no false or empty value other than a null or a mapping, and no mapping with a key that is no
text. -/
structure RegularDocument (d : Yaml.Document) : Prop where
  root : d.isTruthy = true ∨ d.root = .atom .null ∨ d.keys? = some []
  keys : ∀ keys, d.keys? = some keys → ∀ key ∈ keys, ∃ name, key = .text name

lemma all_isName_iff {keys : List Yaml.Atom} : keys.all isName = true ↔ ∀ key ∈ keys, ∃ name, key = .text name := by
  rw [List.all_eq_true]
  refine forall₂_congr fun key _ => ?_
  cases key <;> simp [isName]

variable {d : Yaml.Document}

lemma describedBy_iff_of_keys {keys : List Yaml.Atom} {s : Settings} (hkeys : d.keys? = some keys)
    (hnames : ∀ key ∈ keys, ∃ name, key = .text name) (hjson : d.toJson depth = .object members) :
    DescribedBy d s ↔ Given members s := by
  constructor
  · rintro (⟨hroot, -⟩ | ⟨others, found, -, -, hfound, hgiven⟩)
    · rw [Yaml.Document.keys?, hroot] at hkeys
      cases hkeys
    · obtain rfl := Json.object.inj (hjson.symm.trans hfound)
      exact hgiven
  · exact fun hgiven => .inr ⟨keys, members, hkeys, hnames, hjson, hgiven⟩

lemma describedBy_iff_of_null {s : Settings} (hroot : d.root = .atom .null) : DescribedBy d s ↔ s = {} := by
  constructor
  · rintro (⟨-, hdefault⟩ | ⟨keys, members, hkeys, -⟩)
    · exact hdefault
    · rw [Yaml.Document.keys?, hroot] at hkeys
      cases hkeys
  · exact fun hdefault => .inl ⟨hroot, hdefault⟩

lemma check_eq_ok_iff {s : Settings} : check (.object members) = .ok s ↔ Given members s :=
  Checked.toExcept_eq_ok.trans ofMembers_eq_iff

/-- Settings are taken from a regular document as it describes them. -/
lemma ofYaml_agrees (h : RegularDocument d) : Agrees path (DescribedBy d) (ofYaml path d) := by
  unfold ofYaml
  cases hkeys : d.keys? with
  | some keys =>
    obtain ⟨members, hjson, htruthy, hnil⟩ := Yaml.Document.toJson_of_keys? hkeys
    have hnames := h.keys keys hkeys
    have hdescribed (s : Settings) := describedBy_iff_of_keys (s := s) hkeys hnames hjson
    rw [htruthy, Bool.not_not]
    split_ifs with hempty
    · obtain rfl := hnil (List.isEmpty_iff.mp hempty)
      refine ⟨fun s => ?_, nofun⟩
      rw [hdescribed, given_nil_iff, Except.ok.injEq, eq_comm]
    · dsimp only
      rw [if_pos (all_isName_iff.mpr hnames), hjson]
      refine ⟨fun s => ?_, fun e he => ?_⟩
      · rw [hdescribed, ← check_eq_ok_iff]
        cases check (.object members) <;> simp [Except.mapError]
      · cases hcheck : check (.object members) with
        | ok s =>
          rw [hcheck] at he
          cases he
        | error fields =>
          rw [hcheck] at he
          exact Except.error.inj he ▸ rfl
  | none =>
    rcases h.root with htruthy | hnull | hempty
    · rw [htruthy, Bool.not_true, if_neg Bool.false_ne_true]
      refine ⟨fun s => ⟨nofun, ?_⟩, fun e he => Except.error.inj he ▸ rfl⟩
      rintro (⟨hroot, -⟩ | ⟨keys, members, hsome, -⟩)
      · rw [Yaml.Document.isTruthy, hroot] at htruthy
        cases htruthy
      · cases hkeys.symm.trans hsome
    · have hfalsy : d.isTruthy = false := by
        rw [Yaml.Document.isTruthy, hnull]
        rfl
      rw [hfalsy, Bool.not_false, if_pos rfl]
      refine ⟨fun s => ?_, nofun⟩
      rw [describedBy_iff_of_null hnull, Except.ok.injEq, eq_comm]
    · cases hkeys.symm.trans hempty

/-- Only from a regular document settings are taken as it describes them. -/
lemma regularDocument_of_agrees (h : Agrees path (DescribedBy d) (ofYaml path d)) : RegularDocument d := by
  constructor
  · by_cases htruthy : d.isTruthy = true
    · exact .inl htruthy
    · have hdefault : ofYaml path d = .ok {} := by
        unfold ofYaml
        rw [Bool.eq_false_iff.mpr htruthy, Bool.not_false, if_pos rfl]
      rcases (h.1 {}).mp hdefault with ⟨hroot, -⟩ | ⟨keys, members, hkeys, -⟩
      · exact .inr (.inl hroot)
      · obtain ⟨-, -, hempty, -⟩ := Yaml.Document.toJson_of_keys? hkeys
        have hnil : keys = [] := by simpa [hempty] using htruthy
        exact .inr (.inr (hnil ▸ hkeys))
  · intro keys hkeys
    rw [← all_isName_iff]
    by_contra hnames
    obtain ⟨-, -, htruthy, -⟩ := Yaml.Document.toJson_of_keys? hkeys
    have hnonempty : keys.isEmpty = false := by
      cases keys with
      | nil => exact absurd rfl hnames
      | cons key rest => rfl
    have herror : ofYaml path d = .error .settingNameNotText := by
      unfold ofYaml
      rw [htruthy, hnonempty, hkeys]
      dsimp only
      rw [if_neg hnames]
      rfl
    exact h.2 _ herror

theorem ofYaml_agrees_iff : Agrees path (DescribedBy d) (ofYaml path d) ↔ RegularDocument d :=
  ⟨regularDocument_of_agrees, ofYaml_agrees⟩

/-- The settings that the content of a file describes. -/
def Describes (bytes : List UInt8) (s : Settings) : Prop :=
  ∃ t d, Utf8.decode? bytes = some t ∧ Yaml.load (Text.unifyNewlines t) = .ok d ∧ DescribedBy d s

/-- A content that is a text, and this no YAML or a regular document. -/
def Regular (bytes : List UInt8) : Prop :=
  ∃ t, Utf8.decode? bytes = some t ∧
    (Yaml.load (Text.unifyNewlines t) = .error .malformed ∨
      ∃ d, Yaml.load (Text.unifyNewlines t) = .ok d ∧ RegularDocument d)

variable {fs : FileSystem} {bytes : List UInt8}

/-- What reading does once a text was loaded. -/
def ofLoaded (path : Path) : Except Yaml.Fault Yaml.Document → Except Failure Settings
  | .error .malformed => .error (.settingsMalformed path)
  | .error fault => .error (.yamlValueUnreadable fault)
  | .ok document => ofYaml path document

lemma read_of_text {t : Text} (hread : fs.read path.text = .ok bytes) (hdecode : Utf8.decode? bytes = some t) :
    read fs path = ofLoaded path (Yaml.load (Text.unifyNewlines t)) := by
  have htext : fs.readText path.text = .ok (Text.unifyNewlines t) := by
    simp only [FileSystem.readText, hread, hdecode]
  rw [read, htext]
  rfl

lemma describes_iff {t : Text} {s : Settings} (hdecode : Utf8.decode? bytes = some t) :
    Describes bytes s ↔ ∃ d, Yaml.load (Text.unifyNewlines t) = .ok d ∧ DescribedBy d s := by
  unfold Describes
  rw [hdecode]
  constructor
  · rintro ⟨found, d, hfound, hload, hd⟩
    obtain rfl := Option.some.inj hfound
    exact ⟨d, hload, hd⟩
  · rintro ⟨d, hload, hd⟩
    exact ⟨t, d, rfl, hload, hd⟩

lemma regular_iff {t : Text} (hdecode : Utf8.decode? bytes = some t) :
    Regular bytes ↔ Yaml.load (Text.unifyNewlines t) = .error .malformed ∨
      ∃ d, Yaml.load (Text.unifyNewlines t) = .ok d ∧ RegularDocument d := by
  unfold Regular
  rw [hdecode]
  constructor
  · rintro ⟨found, hfound, h⟩
    obtain rfl := Option.some.inj hfound
    exact h
  · exact fun h => ⟨t, rfl, h⟩

/-- Reading a settings file gives the settings that its content describes and else fails as a fault of that file,
exactly if the content is regular. -/
theorem read_agrees_iff (hread : fs.read path.text = .ok bytes) :
    Agrees path (Describes bytes) (read fs path) ↔ Regular bytes := by
  cases hdecode : Utf8.decode? bytes with
  | none =>
    have hresult : read fs path = .error (.cause .notUtf8) := by
      unfold read FileSystem.readText
      rw [hread]
      dsimp only
      rw [hdecode]
    refine ⟨fun h => (h.2 _ hresult).elim, ?_⟩
    rintro ⟨t, hsome, -⟩
    cases hdecode.symm.trans hsome
  | some t =>
    have hresult := read_of_text hread hdecode
    unfold Agrees
    rw [regular_iff hdecode]
    simp only [describes_iff hdecode]
    cases hload : Yaml.load (Text.unifyNewlines t) with
    | ok d =>
      rw [hload] at hresult
      rw [hresult]
      have hregular : Agrees path (DescribedBy d) (ofYaml path d) ↔ RegularDocument d := ofYaml_agrees_iff
      simpa [Agrees, ofLoaded] using hregular
    | error fault =>
      rw [hload] at hresult
      by_cases hfault : fault = .malformed
      · subst hfault
        refine ⟨fun _ => .inl rfl, fun _ => ⟨fun s => ?_, fun e he => Except.error.inj (hresult.symm.trans he) ▸ rfl⟩⟩
        simp [hresult, ofLoaded]
      · have herror : read fs path = .error (.yamlValueUnreadable fault) := by
          rw [hresult]
          cases fault <;> first | rfl | exact absurd rfl hfault
        refine ⟨fun h => (h.2 _ herror).elim, ?_⟩
        rintro (hmalformed | ⟨d, hd, -⟩)
        · exact absurd (Except.error.inj hmalformed) hfault
        · cases hd

def fileWith (content : List UInt8) : FileSystem :=
  FileSystem.empty.put [fileName] (.file content)

def bytesOf (t : Text) : List UInt8 :=
  (Utf8.encode? t).getD []

/-- Settings that name one build directory are read as they are described. -/
theorem read_agrees_iff_directory :
    (fileWith (bytesOf "build_dirs: [out]")).read (Path.ofText fileName).text = .ok (bytesOf "build_dirs: [out]") ∧
      Describes (bytesOf "build_dirs: [out]") { buildDirectories := ["out"] } ∧
      ∀ s, Describes (bytesOf "build_dirs: [out]") s → s = { buildDirectories := ["out"] } := by
  have hread : (fileWith (bytesOf "build_dirs: [out]")).read (Path.ofText fileName).text =
      .ok (bytesOf "build_dirs: [out]") := by decide +kernel
  have hresult : read (fileWith (bytesOf "build_dirs: [out]")) (Path.ofText fileName) =
      .ok { buildDirectories := ["out"] } := by decide +kernel
  have htext : Utf8.decode? (bytesOf "build_dirs: [out]") = some (Text.ofString "build_dirs: [out]") := by decide +kernel
  have hloaded : (Yaml.load (Text.unifyNewlines "build_dirs: [out]")).map (fun d => (d.isTruthy, d.keys?)) =
      .ok (true, some [.text "build_dirs"]) := by decide +kernel
  obtain ⟨d, hload, hd⟩ := map_ok_iff.mp hloaded
  obtain ⟨htruthy, hkeys⟩ := Prod.mk.inj hd
  have hregular : RegularDocument d := by
    refine ⟨.inl htruthy, fun keys hsome => ?_⟩
    obtain rfl := Option.some.inj (hkeys.symm.trans hsome)
    exact List.forall_mem_singleton.mpr ⟨_, rfl⟩
  have hagrees := (read_agrees_iff hread).mpr ⟨_, htext, .inr ⟨d, hload, hregular⟩⟩
  refine ⟨hread, (hagrees.1 _).mp hresult, fun s hs => ?_⟩
  exact Except.ok.inj (((hagrees.1 s).mpr hs).symm.trans hresult)

/-- The atom that a document is, if it is one. -/
def rootAtom? (d : Yaml.Document) : Option Yaml.Atom :=
  match d.root with
  | .atom a => some a
  | .collection _ => none

/-- A content that is no text, a key that is no text and a month that does not exist end in other failures, and a truth
value, which describes no settings, gives the defaults. -/
theorem read_disagrees :
    read (fileWith [0xFF]) (Path.ofText fileName) = .error (.cause .notUtf8) ∧
      read (fileWith (bytesOf "1: x")) (Path.ofText fileName) = .error .settingNameNotText ∧
      read (fileWith (bytesOf "2001-13-45")) (Path.ofText fileName) =
        .error (.yamlValueUnreadable (.noSuchMoment .month)) ∧
      read (fileWith (bytesOf "false")) (Path.ofText fileName) = .ok {} ∧ ∀ s, ¬Describes (bytesOf "false") s := by
  refine ⟨by decide +kernel, by decide +kernel, by decide +kernel, by decide +kernel, ?_⟩
  rintro s hs
  have htext : Utf8.decode? (bytesOf "false") = some (Text.ofString "false") := by decide +kernel
  have hloaded : (Yaml.load (Text.unifyNewlines "false")).map (fun d => (d.keys?, rootAtom? d)) =
      .ok (none, some (.bool false)) := by decide +kernel
  obtain ⟨found, hfound, hdescribed⟩ := (describes_iff htext).mp hs
  obtain ⟨d, hload, hd⟩ := map_ok_iff.mp hloaded
  obtain ⟨hkeys, hroot⟩ := Prod.mk.inj hd
  obtain rfl := Except.ok.inj (hfound.symm.trans hload)
  rcases hdescribed with ⟨hnull, -⟩ | ⟨keys, members, hsome, -⟩
  · rw [rootAtom?, hnull] at hroot
    cases hroot
  · cases hkeys.symm.trans hsome

end Settings

end PackageExports
