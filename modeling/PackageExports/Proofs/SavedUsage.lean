import PackageExports.Proofs.UsageFile

/-!
# Usage survives its file

Usage is built record by record and path by path; `Usage.Built` says how, and each step keeps the names apart and the
paths of a record without repetition. That is all a file needs to give the usage back: nothing of it is passed over,
and the loaded usage is written with the same text.

Main results: `Usage.Built.spec`, `Usage.encode?_isSome`, `Usage.loaded_as_saved`.
-/

namespace PackageExports

namespace Text

/-- A text without lone surrogates. -/
def IsScalar (t : Text) : Prop :=
  ∀ c ∈ t, c.IsScalar

instance (t : Text) : Decidable t.IsScalar :=
  inferInstanceAs (Decidable (∀ c ∈ t, c.IsScalar))

lemma IsScalar.append {a b : Text} (ha : IsScalar a) (hb : IsScalar b) : IsScalar (a ++ b) :=
  List.forall_mem_append.mpr ⟨ha, hb⟩

lemma isScalar_of_small {t : Text} (h : ∀ c ∈ t, c.val < 0x80) : IsScalar t := by
  intro c hc
  have hsmall := h c hc
  exact (Utf8.isScalar_iff c).mpr ⟨by omega, by omega⟩

end Text

namespace Json

lemma isScalar_quotePoint {c : CodePoint} (h : c.IsScalar) : Text.IsScalar (quotePoint c) := by
  have hdigit : ∀ n < 16, (hexDigit n).val < 0x80 := by decide
  unfold quotePoint
  split_ifs with hquote hslash hline hreturn
  iterate 7 exact Text.isScalar_of_small (by decide)
  · refine Text.IsScalar.append (Text.isScalar_of_small (by decide)) (Text.isScalar_of_small ?_)
    exact List.forall_mem_cons.mpr ⟨hdigit _ (by omega), List.forall_mem_singleton.mpr (hdigit _ (by omega))⟩
  · exact List.forall_mem_singleton.mpr h

lemma isScalar_quote {t : Text} (h : t.IsScalar) : Text.IsScalar (quote t) := by
  have hquotation : Text.IsScalar "\"" := Text.isScalar_of_small (by decide)
  refine Text.IsScalar.append (a := "\"") hquotation (Text.IsScalar.append ?_ hquotation)
  intro c hc
  obtain ⟨d, hd, hc⟩ := List.mem_flatMap.mp hc
  exact isScalar_quotePoint (h d hd) c hc

lemma isScalar_lineAt (level : ℕ) : Text.IsScalar (lineAt level) := by
  refine Text.isScalar_of_small (List.forall_mem_cons.mpr ⟨by decide, fun c hc => ?_⟩)
  rw [List.eq_of_mem_replicate hc]
  decide

lemma isScalar_prettyItems {level : ℕ} {items : List Json} (h : ∀ item ∈ items, Text.IsScalar (prettyAt level item)) :
    Text.IsScalar (prettyItems level items) := by
  induction items with
  | nil => exact fun c hc => absurd hc List.not_mem_nil
  | cons item rest ih =>
    obtain ⟨hitem, hrest⟩ := List.forall_mem_cons.mp h
    have hcomma : Text.IsScalar "," := Text.isScalar_of_small (by decide)
    exact ((hcomma.append (isScalar_lineAt level)).append hitem).append (ih hrest)

lemma isScalar_prettyArray {level : ℕ} {items : List Json}
    (h : ∀ item ∈ items, Text.IsScalar (prettyAt (level + 1) item)) : Text.IsScalar (prettyAt level (.array items)) := by
  cases items with
  | nil => exact Text.isScalar_of_small (by rw [prettyAt]; decide)
  | cons item rest =>
    obtain ⟨hitem, hrest⟩ := List.forall_mem_cons.mp h
    have hopen : Text.IsScalar "[" := Text.isScalar_of_small (by decide)
    have hclose : Text.IsScalar "]" := Text.isScalar_of_small (by decide)
    exact ((((hopen.append (isScalar_lineAt _)).append hitem).append (isScalar_prettyItems hrest)).append
      (isScalar_lineAt _)).append hclose

lemma isScalar_prettyMember {level : ℕ} {member : Text × Json} (hname : member.1.IsScalar)
    (hvalue : Text.IsScalar (prettyAt level member.2)) : Text.IsScalar (prettyMember level member) := by
  have hcolon : Text.IsScalar ": " := Text.isScalar_of_small (by decide)
  rw [prettyMember]
  exact ((isScalar_quote hname).append hcolon).append hvalue

lemma isScalar_prettyMembers {level : ℕ} {members : Members}
    (h : ∀ member ∈ members, member.1.IsScalar ∧ Text.IsScalar (prettyAt level member.2)) :
    Text.IsScalar (prettyMembers level members) := by
  induction members with
  | nil => exact fun c hc => absurd hc List.not_mem_nil
  | cons member rest ih =>
    obtain ⟨⟨hname, hvalue⟩, hrest⟩ := List.forall_mem_cons.mp h
    have hcomma : Text.IsScalar "," := Text.isScalar_of_small (by decide)
    exact ((hcomma.append (isScalar_lineAt level)).append (isScalar_prettyMember hname hvalue)).append (ih hrest)

lemma isScalar_prettyObject {level : ℕ} {members : Members}
    (h : ∀ member ∈ members, member.1.IsScalar ∧ Text.IsScalar (prettyAt (level + 1) member.2)) :
    Text.IsScalar (prettyAt level (.object members)) := by
  cases members with
  | nil => exact Text.isScalar_of_small (by rw [prettyAt]; decide)
  | cons member rest =>
    obtain ⟨⟨hname, hvalue⟩, hrest⟩ := List.forall_mem_cons.mp h
    have hopen : Text.IsScalar "\x7b" := Text.isScalar_of_small (by decide)
    have hclose : Text.IsScalar "\x7d" := Text.isScalar_of_small (by decide)
    exact ((((hopen.append (isScalar_lineAt _)).append (isScalar_prettyMember hname hvalue)).append
      (isScalar_prettyMembers hrest)).append (isScalar_lineAt _)).append hclose

end Json

namespace UsageRecord

variable {r : UsageRecord}

/-- A record that some value gives. -/
def IsValid (r : UsageRecord) : Prop :=
  ∃ value, check value = .ok r

/-- The valid records are those that have each path once. -/
lemma isValid_iff : r.IsValid ↔ r.importPaths.Nodup := by
  constructor
  · rintro ⟨value, hvalue⟩
    unfold check Checked.toExcept at hvalue
    split_ifs at hvalue with hfaults
    obtain rfl := Except.ok.inj hvalue
    cases value with
    | object members => exact nodup_ofMembers members
    | _ => cases hfaults
  · intro hnodup
    refine ⟨written r.package r.versionRequirement r.importPaths, ?_⟩
    have hread : ofJson (written r.package r.versionRequirement r.importPaths) = ⟨r, []⟩ :=
      ofMembers_written r.package hnodup rfl
    rw [check, hread]
    rfl

/-- All texts of a record are without lone surrogates. -/
structure IsScalar (r : UsageRecord) : Prop where
  package : r.package.IsScalar
  range : ∀ range ∈ r.versionRequirement, range.IsScalar
  paths : ∀ path ∈ r.importPaths, path.IsScalar

lemma IsScalar.prettyAt (h : r.IsScalar) (level : ℕ) : Text.IsScalar (r.toJson.prettyAt level) := by
  rw [toJson_eq]
  have hpackage : Text.IsScalar "package" := Text.isScalar_of_small (by decide)
  have hversion : Text.IsScalar "versionRequirement" := Text.isScalar_of_small (by decide)
  have hpaths : Text.IsScalar "importPaths" := Text.isScalar_of_small (by decide)
  refine Json.isScalar_prettyObject (List.forall_mem_cons.mpr ⟨⟨hpackage, Json.isScalar_quote h.package⟩, ?_⟩)
  refine List.forall_mem_append.mpr ⟨?_, List.forall_mem_singleton.mpr ⟨hpaths, ?_⟩⟩
  · intro member hmember
    obtain ⟨range, hrange, rfl⟩ := Option.map_eq_some_iff.mp (Option.mem_toList.mp hmember)
    exact ⟨hversion, Json.isScalar_quote (h.range range (Option.filter_eq_some_iff.mp hrange).1)⟩
  · refine Json.isScalar_prettyArray (List.forall_mem_map.mpr fun path hpath => ?_)
    exact Json.isScalar_quote (h.paths path (Text.mem_sort.mp hpath))

/-- What a record is after it was saved and loaded: an empty version range is absent, and the paths are in order. -/
structure Saved (r again : UsageRecord) : Prop where
  package : again.package = r.package
  range : again.versionRequirement = r.versionRequirement.filter (!·.isEmpty)
  ascending : Text.Ascending again.importPaths
  paths : ∀ path, path ∈ again.importPaths ↔ path ∈ r.importPaths

lemma saved_reread (h : r.importPaths.Nodup) : Saved r r.reread where
  package := rfl
  range := rfl
  ascending := Text.Ascending.sort h
  paths _ := Text.mem_sort

lemma Saved.unique {again other : UsageRecord} (h : Saved r again) (hother : Saved r other) : again = other := by
  have hpaths : again.importPaths = other.importPaths :=
    h.ascending.eq_of_mem_iff hother.ascending fun path => (h.paths path).trans (hother.paths path).symm
  have hpackage : again.package = other.package := h.package.trans hother.package.symm
  have hrange : again.versionRequirement = other.versionRequirement := h.range.trans hother.range.symm
  cases again
  cases other
  congr

lemma Saved.toJson_eq {again : UsageRecord} (h : Saved r again) (hnodup : r.importPaths.Nodup) :
    again.toJson = r.toJson := by
  have hrange : again.writtenRange = r.writtenRange := by
    rw [writtenRange, writtenRange, h.range, Option.filter_filter]
    simp only [Bool.and_self]
  have hpaths : Text.sort again.importPaths = Text.sort r.importPaths := by
    refine (Text.Ascending.sort h.ascending.nodup).eq_of_mem_iff (Text.Ascending.sort hnodup) fun path => ?_
    rw [Text.mem_sort, Text.mem_sort, h.paths path]
  rw [UsageRecord.toJson_eq again, UsageRecord.toJson_eq r, h.package, hrange, hpaths]

end UsageRecord

namespace Usage

variable {usage loaded : Usage} {name path : Text} {r : UsageRecord}

/-- Usage that was put together from valid records and by adding paths to the record of a name. -/
inductive Built : Usage → Prop
  | nothing : Built []
  | record {usage : Usage} (name : Text) {r : UsageRecord} : Built usage → r.IsValid → Built (usage.insert name r)
  | addedPath {usage : Usage} (name path : Text) {r : UsageRecord} : Built usage → usage.get? name = some r →
      Built (usage.insert name (r.addPath path))

/-- Assigning a record that has each path once keeps what a file needs. -/
lemma spec_insert (hkeys : usage.keys.Nodup) (hpaths : ∀ p ∈ usage, p.2.importPaths.Nodup)
    (h : r.importPaths.Nodup) :
    (usage.insert name r).keys.Nodup ∧ ∀ p ∈ usage.insert name r, p.2.importPaths.Nodup := by
  refine ⟨Keyed.nodup_keys_insert name r hkeys, fun p hp => ?_⟩
  rcases Keyed.mem_insert hp with rfl | hp
  · exact h
  · exact hpaths p hp

/-- Usage that was built has each name once, and each record each path once. -/
theorem Built.spec (h : Built usage) : usage.keys.Nodup ∧ ∀ p ∈ usage, p.2.importPaths.Nodup := by
  induction h with
  | nothing => exact ⟨List.nodup_nil, by simp⟩
  | record _ _ hvalid ih => exact spec_insert ih.1 ih.2 (UsageRecord.isValid_iff.mp hvalid)
  | addedPath _ _ _ hget ih =>
    exact spec_insert ih.1 ih.2 (UsageRecord.nodup_addPath (ih.2 _ (Keyed.mem_of_get? hget)))

/-- All texts of usage are without lone surrogates. -/
def IsScalar (usage : Usage) : Prop :=
  ∀ p ∈ usage, p.1.IsScalar ∧ p.2.IsScalar

/-- Usage without lone surrogates can be written to a file. -/
theorem encode?_isSome (h : usage.IsScalar) : ∃ bytes, Utf8.encode? usage.toJson.pretty = some bytes := by
  refine Option.isSome_iff_exists.mp ((Utf8.encode?_isSome _).mpr ?_)
  refine Json.isScalar_prettyObject (List.forall_mem_map.mpr fun p hp => ?_)
  exact ⟨(h p hp).1, (h p hp).2.prettyAt 1⟩

/-- What usage is after it was saved and loaded: the same names in the same order, and the record of each name. -/
def Saved (usage loaded : Usage) : Prop :=
  List.Forall₂ (fun p q => q.1 = p.1 ∧ UsageRecord.Saved p.2 q.2) usage loaded

lemma saved_reread (hpaths : ∀ p ∈ usage, p.2.importPaths.Nodup) :
    Saved usage (usage.map fun p => (p.1, p.2.reread)) := by
  rw [Saved, List.forall₂_map_right_iff, List.forall₂_same]
  exact fun p hp => ⟨rfl, UsageRecord.saved_reread (hpaths p hp)⟩

lemma Saved.unique {other : Usage} (h : Saved usage loaded) (hother : Saved usage other) : loaded = other := by
  induction h generalizing other with
  | nil =>
    cases hother
    rfl
  | cons hfirst _ ih =>
    cases hother with
    | cons hfirst' hrest' =>
      rw [Prod.ext (hfirst.1.trans hfirst'.1.symm) (hfirst.2.unique hfirst'.2), ih hrest']

lemma Saved.toJson_eq (h : Saved usage loaded) (hpaths : ∀ p ∈ usage, p.2.importPaths.Nodup) :
    loaded.toJson = usage.toJson := by
  have hmembers : (loaded.map fun q => (q.1, q.2.toJson)) = usage.map fun p => (p.1, p.2.toJson) := by
    induction h with
    | nil => rfl
    | cons hfirst _ ih =>
      obtain ⟨hnodup, hrest⟩ := List.forall_mem_cons.mp hpaths
      rw [List.map_cons, List.map_cons, ih hrest, hfirst.1, hfirst.2.toJson_eq hnodup]
  exact congrArg Json.object hmembers

lemma notices_written {fs : FileSystem} {bytes : List UInt8} (hread : fs.read path = .ok bytes)
    (hencode : Utf8.encode? usage.toJson.pretty = some bytes) (hkeys : usage.keys.Nodup)
    (hpaths : ∀ p ∈ usage, p.2.importPaths.Nodup) : (load fs path).notices = [] := by
  rw [load_notices, readValue_of_encode hread hencode (kept_toJson hkeys)]
  change warningsOf (usage.map fun p => (p.1, p.2.toJson)) = []
  refine List.filterMap_eq_nil_iff.mpr (List.forall_mem_map.mpr fun p hp => ?_)
  rw [recordUnder_toJson p.1 (hpaths p hp)]
  rfl

lemma outcome_save {path : Path} {w : World} {emptied : FileSystem} {bytes : List UInt8}
    (hopen : w.files.write path.text [] = .ok emptied) (hencode : Utf8.encode? usage.toJson.pretty = some bytes) :
    ∃ files, w.files.write path.text bytes = .ok files ∧ (save path usage).outcome w = (.ok (), { w with files }) := by
  obtain ⟨result, files, hwritten, hcases⟩ := Action.outcome_writeText path usage.toJson.pretty w
  have hsave : (save path usage).outcome w = match result with
      | .ok _ => (.ok (), { w with files })
      | .error c => (.error (.cause c), { w with files }) := by
    unfold save
    rw [Action.outcome_bind_ok hwritten]
    cases result <;> rfl
  cases hcases with
  | refused h => cases h.symm.trans hopen
  | emptied _ hnone => cases hnone.symm.trans hencode
  | done hsome hwrite =>
    obtain rfl := Option.some.inj (hsome.symm.trans hencode)
    exact ⟨files, hwrite, hsave⟩

/-- Usage that was built is loaded from the file it was saved to, without a warning; what was loaded is saved as the
same text, and to the same file it changes nothing. -/
theorem loaded_as_saved {path : Path} {w : World} {emptied : FileSystem} (hbuilt : usage.Built)
    (hscalar : usage.IsScalar) (hopen : w.files.write path.text [] = .ok emptied) :
    ∃ files loaded, (save path usage).outcome w = (.ok (), { w with files }) ∧
      (load files path.text).result = .ok loaded ∧ (load files path.text).notices = [] ∧ Saved usage loaded ∧
      (∀ other, save other loaded = save other usage) ∧
      (save path loaded).outcome { w with files } = (.ok (), { w with files }) := by
  obtain ⟨hkeys, hpaths⟩ := hbuilt.spec
  obtain ⟨bytes, hencode⟩ := encode?_isSome hscalar
  obtain ⟨files, hwrite, hsave⟩ := outcome_save hopen hencode
  have hread : files.read path.text = .ok bytes := FileSystem.read_write hwrite
  have hsaved := saved_reread hpaths
  have hagain (other : Path) : save other (usage.map fun p => (p.1, p.2.reread)) = save other usage := by
    unfold save
    rw [hsaved.toJson_eq hpaths]
  refine ⟨files, _, hsave, load_written hread hencode hkeys hpaths, notices_written hread hencode hkeys hpaths,
    hsaved, hagain, ?_⟩
  obtain ⟨location, hfind, hentry⟩ := FileSystem.find_of_read hread
  obtain ⟨after, hafter, houtcome⟩ :=
    outcome_save (w := { w with files }) (FileSystem.write_present hfind hentry []) hencode
  rw [FileSystem.write_present hfind hentry, FileSystem.put_of_entry (FileSystem.ne_nil_of_file hentry) hentry] at hafter
  rw [hagain, houtcome, ← Except.ok.inj hafter]

/-- Usage with paths out of order, an empty version range and a record of another package. -/
def unorderedUsage : Usage :=
  [("b", { package := "b", versionRequirement := some [], importPaths := ["./x", "."] }),
    ("a", { package := "other", versionRequirement := some "^1", importPaths := [[⟨0x1F600⟩]] })]

def orderedUsage : Usage :=
  [("b", { package := "b", importPaths := [".", "./x"] }),
    ("a", { package := "other", versionRequirement := some "^1", importPaths := [[⟨0x1F600⟩]] })]

lemma built_unorderedUsage : unorderedUsage.Built := by
  have hpath : UsageRecord.IsValid { package := "b", versionRequirement := some [], importPaths := ["./x"] } :=
    UsageRecord.isValid_iff.mpr (by decide)
  have hother : UsageRecord.IsValid
      { package := "other", versionRequirement := some "^1", importPaths := [[⟨0x1F600⟩]] } :=
    UsageRecord.isValid_iff.mpr (by decide)
  exact .record "a" (.addedPath "b" "." (.record "b" .nothing hpath) rfl) hother

/-- Usage comes back from a new file with its paths in order and without the empty version range. -/
theorem loaded_as_saved_unordered : ∃ files,
    (save (Path.ofText "usage.json") unorderedUsage).outcome ⟨.empty, []⟩ = (.ok (), ⟨files, []⟩) ∧
      (load files "usage.json").result = .ok orderedUsage ∧ (load files "usage.json").notices = [] ∧
      (save (Path.ofText "usage.json") orderedUsage).outcome ⟨files, []⟩ = (.ok (), ⟨files, []⟩) := by
  have hscalar : unorderedUsage.IsScalar :=
    List.forall_mem_cons.mpr ⟨⟨by decide, by decide, by decide, by decide⟩,
      List.forall_mem_singleton.mpr ⟨by decide, by decide, by decide, by decide⟩⟩
  have hopen : (World.mk .empty []).files.write (Path.ofText "usage.json").text [] =
      .ok (FileSystem.empty.put ["usage.json"] (.file [])) := rfl
  obtain ⟨files, loaded, hsave, hload, hnotices, hsaved, -, hagain⟩ :=
    loaded_as_saved built_unorderedUsage hscalar hopen
  have hordered : Saved unorderedUsage orderedUsage := by
    refine .cons ⟨rfl, rfl, rfl, ?_, fun path => (List.Perm.swap _ _ _).mem_iff⟩
      (.cons ⟨rfl, rfl, rfl, ?_, fun path => Iff.rfl⟩ .nil) <;> unfold Text.Ascending <;> decide
  obtain rfl := hsaved.unique hordered
  exact ⟨files, hsave, hload, hnotices, hagain⟩

end Usage

end PackageExports
