import PackageExports.Proofs.Keyed
import PackageExports.Proofs.TextLists
import PackageExports.Usage.Basic

/-!
# Merged usage

Merging imports into usage changes the record of a name by the imports of that package only. `Usage.Union` says what
usage is afterwards: no path is lost and none is made up, a version range that was there stays, and new names come
after the old ones.

Main results: `Usage.get?_merge`, `Usage.union_merge`.
-/

namespace PackageExports

namespace UsageRecord

def writtenRange (r : UsageRecord) : Option Text :=
  r.versionRequirement.filter (!·.isEmpty)

def written (package : Text) (range : Option Text) (paths : List Text) : Json :=
  let version : Option (Text × Json) := range.map fun range => ("versionRequirement", .string range)
  let paths : Text × Json := ("importPaths", .array (paths.map .string))
  .object (("package", .string package) :: (version.toList ++ [paths]))

lemma toJson_eq (r : UsageRecord) : r.toJson = written r.package r.writtenRange (Text.sort r.importPaths) :=
  rfl

lemma hasVersion_iff (r : UsageRecord) : r.hasVersion = true ↔ ∃ range, r.writtenRange = some range :=
  Option.isSome_iff_exists

lemma mem_addPath {r : UsageRecord} {path other : Text} :
    other ∈ (r.addPath path).importPaths ↔ other ∈ r.importPaths ∨ other = path := by
  unfold addPath
  split_ifs with h
  · exact ⟨.inl, fun hother => hother.elim id fun heq => heq ▸ h⟩
  · simp

lemma nodup_addPath {r : UsageRecord} {path : Text} (h : r.importPaths.Nodup) : (r.addPath path).importPaths.Nodup := by
  unfold addPath
  split_ifs with hmem
  · exact h
  · refine List.nodup_append.mpr ⟨h, List.nodup_singleton path, ?_⟩
    rintro a ha b hb rfl
    exact hmem (List.mem_singleton.mp hb ▸ ha)

@[simp] lemma addPath_package (r : UsageRecord) (path : Text) : (r.addPath path).package = r.package := by
  unfold addPath
  split_ifs <;> rfl

@[simp] lemma addPath_versionRequirement (r : UsageRecord) (path : Text) :
    (r.addPath path).versionRequirement = r.versionRequirement := by
  unfold addPath
  split_ifs <;> rfl

/-- The record of a name after an import of one more path. -/
def after (name : Text) (range : Option Text) (old : Option UsageRecord) (path : Text) : UsageRecord :=
  let record := (old.getD { package := name }).addPath path
  if record.hasVersion then record else { record with versionRequirement := range }

/-- A record has what an earlier record of the name had and what was found. -/
structure Union (name : Text) (range : Option Text) (old : Option UsageRecord) (found : Text → Prop)
    (r : UsageRecord) : Prop where
  package : r.package = (old.map (·.package)).getD name
  nodup : r.importPaths.Nodup
  paths : ∀ path, path ∈ r.importPaths ↔ (∃ before, old = some before ∧ path ∈ before.importPaths) ∨ found path
  rangeFound : (∃ path, found path) → r.writtenRange = (old.bind writtenRange <|> range.filter (!·.isEmpty))
  rangeKept : (¬∃ path, found path) → r.writtenRange = old.bind writtenRange

lemma writtenRange_after (name : Text) (range : Option Text) (old : Option UsageRecord) (path : Text) :
    (after name range old path).writtenRange = (old.bind writtenRange <|> range.filter (!·.isEmpty)) := by
  have hold : ((old.getD { package := name }).addPath path).writtenRange = old.bind writtenRange := by
    rw [writtenRange, addPath_versionRequirement]
    cases old <;> rfl
  unfold after
  dsimp only
  split_ifs with hversion
  · obtain ⟨found, hfound⟩ := (hasVersion_iff _).mp hversion
    rw [hold] at hfound ⊢
    rw [hfound]
    rfl
  · cases hbind : old.bind writtenRange with
    | none => rfl
    | some found =>
      rw [hbind] at hold
      exact absurd ((hasVersion_iff _).mpr ⟨found, hold⟩) hversion

lemma after_importPaths (name : Text) (range : Option Text) (old : Option UsageRecord) (path : Text) :
    (after name range old path).importPaths = ((old.getD { package := name }).addPath path).importPaths := by
  unfold after
  dsimp only
  split_ifs <;> rfl

lemma after_package (name : Text) (range : Option Text) (old : Option UsageRecord) (path : Text) :
    (after name range old path).package = (old.map (·.package)).getD name := by
  unfold after
  dsimp only
  split_ifs <;> cases old <;> simp

lemma Union.refl (name : Text) (range : Option Text) {r : UsageRecord} (h : r.importPaths.Nodup) :
    Union name range (some r) (fun _ => False) r where
  package := rfl
  nodup := h
  paths := by simp
  rangeFound := by simp
  rangeKept := fun _ => rfl

lemma union_foldl (name : Text) (range : Option Text) (old : Option UsageRecord)
    (hold : ∀ before, old = some before → before.importPaths.Nodup) {paths : List Text} (hpaths : paths ≠ []) :
    ∃ r, paths.foldl (fun old path => some (after name range old path)) old = some r ∧
      Union name range old (· ∈ paths) r := by
  induction paths generalizing old with
  | nil => exact absurd rfl hpaths
  | cons path rest ih =>
    have hmem (other : Text) : other ∈ (after name range old path).importPaths ↔
        (∃ before, old = some before ∧ other ∈ before.importPaths) ∨ other = path := by
      rw [after_importPaths, mem_addPath]
      cases old <;> simp
    have hnodup : (after name range old path).importPaths.Nodup := by
      rw [after_importPaths]
      cases old with
      | none => exact nodup_addPath List.nodup_nil
      | some before => exact nodup_addPath (hold before rfl)
    have hrange := writtenRange_after name range old path
    rw [List.foldl_cons]
    by_cases hrest : rest = []
    · subst hrest
      exact ⟨_, rfl, after_package name range old path, hnodup, by simpa using hmem, fun _ => hrange, by simp⟩
    · obtain ⟨r, hfold, hunion⟩ := ih (some (after name range old path))
        (fun before hbefore => Option.some.inj hbefore ▸ hnodup) hrest
      refine ⟨r, hfold, ?_, hunion.nodup, ?_, ?_, by simp⟩
      · rw [hunion.package]
        exact after_package name range old path
      · intro other
        rw [hunion.paths other, List.mem_cons, ← or_assoc, ← hmem other]
        simp
      · intro _
        rw [hunion.rangeFound (List.exists_mem_of_ne_nil rest hrest), Option.bind_some, hrange]
        cases old.bind writtenRange <;> cases range.filter (!·.isEmpty) <;> rfl

end UsageRecord

namespace Usage

variable (ranges : Keyed Text Text) (imports : List PackageImport)

/-- The record of a name changes by the imports of that package only. -/
lemma get?_merge (usage : Usage) (name : Text) :
    (usage.merge ranges imports).get? name =
      ((imports.filter (·.package = name)).map (·.path)).foldl
        (fun old path => some (UsageRecord.after name (ranges.get? name) old path)) (usage.get? name) := by
  unfold merge
  induction imports generalizing usage with
  | nil => rfl
  | cons i rest ih =>
    rw [List.foldl_cons, ih, List.filter_cons]
    by_cases hname : i.package = name
    · subst hname
      rw [if_pos (decide_eq_true rfl), List.map_cons, List.foldl_cons, Keyed.get?_insert_self]
      rfl
    · rw [if_neg (by simpa using hname), Keyed.get?_insert_of_ne usage _ hname]

/-- New names come after the old ones, each once. -/
lemma keys_merge (usage : Usage) :
    ∃ added, (usage.merge ranges imports).keys = usage.keys ++ added ∧ added.Nodup ∧
      ∀ name, name ∈ added ↔ name ∉ usage.keys ∧ ∃ i ∈ imports, i.package = name := by
  unfold merge
  induction imports generalizing usage with
  | nil => exact ⟨[], (List.append_nil _).symm, List.nodup_nil, by simp⟩
  | cons i rest ih =>
    rw [List.foldl_cons]
    obtain ⟨added, hkeys, hnodup, hadded⟩ := ih (usage.insert i.package (usage.recordWith ranges i))
    by_cases hmem : i.package ∈ usage.keys
    · rw [Keyed.keys_insert_of_mem _ hmem] at hkeys hadded
      refine ⟨added, hkeys, hnodup, fun name => ?_⟩
      rw [hadded name, List.exists_mem_cons_iff]
      constructor
      · exact fun ⟨hnew, hrest⟩ => ⟨hnew, .inr hrest⟩
      · rintro ⟨hnew, rfl | hrest⟩
        · exact absurd hmem hnew
        · exact ⟨hnew, hrest⟩
    · rw [Keyed.insert_of_notMem _ hmem] at hkeys hadded ⊢
      rw [Keyed.keys_append] at hkeys hadded
      refine ⟨i.package :: added, ?_, ?_, fun name => ?_⟩
      · rw [hkeys, List.append_assoc]
        rfl
      · refine List.nodup_cons.mpr ⟨fun hin => ((hadded _).mp hin).1 ?_, hnodup⟩
        exact List.mem_append_right _ List.mem_cons_self
      · rw [List.mem_cons, hadded name, List.mem_append, List.exists_mem_cons_iff]
        have hsingle : name ∈ Keyed.keys [(i.package, usage.recordWith ranges i)] ↔ name = i.package :=
          List.mem_singleton
        rw [hsingle, not_or]
        constructor
        · rintro (rfl | ⟨⟨hnew, -⟩, hrest⟩)
          · exact ⟨hmem, .inl rfl⟩
          · exact ⟨hnew, .inr hrest⟩
        · rintro ⟨hnew, rfl | hrest⟩
          · exact .inl rfl
          · by_cases hname : name = i.package
            · exact .inl hname
            · exact .inr ⟨⟨hnew, hname⟩, hrest⟩

/-- Usage after some imports were found. -/
structure Union (old : Usage) (found : PackageImport → Prop) (ranges : Keyed Text Text) (merged : Usage) : Prop where
  names : ∃ added, merged.keys = old.keys ++ added ∧ added.Nodup ∧
    ∀ name, name ∈ added ↔ name ∉ old.keys ∧ ∃ path, found ⟨name, path⟩
  records : ∀ name record, (name, record) ∈ merged →
    UsageRecord.Union name (ranges.get? name) (old.get? name) (fun path => found ⟨name, path⟩) record

lemma Union.nodup_keys {ranges : Keyed Text Text} {old merged : Usage} {found : PackageImport → Prop}
    (h : Union old found ranges merged) (hold : old.keys.Nodup) : merged.keys.Nodup := by
  obtain ⟨added, hkeys, hnodup, hadded⟩ := h.names
  rw [hkeys]
  refine List.nodup_append.mpr ⟨hold, hnodup, ?_⟩
  rintro key hkey other hother rfl
  exact ((hadded key).mp hother).1 hkey

/-- Merging loses no path and makes none up. -/
theorem union_merge {usage : Usage} (hkeys : usage.keys.Nodup)
    (hpaths : ∀ p ∈ usage, p.2.importPaths.Nodup) :
    Union usage (· ∈ imports) ranges (usage.merge ranges imports) := by
  obtain ⟨added, hmerged, hnodup, hadded⟩ := keys_merge ranges imports usage
  have himport (name : Text) :
      (∃ i ∈ imports, i.package = name) ↔ ∃ path, (⟨name, path⟩ : PackageImport) ∈ imports := by
    constructor
    · rintro ⟨i, hi, rfl⟩
      exact ⟨i.path, hi⟩
    · rintro ⟨path, hpath⟩
      exact ⟨_, hpath, rfl⟩
  refine ⟨⟨added, hmerged, hnodup, fun name => by rw [hadded name, himport name]⟩, ?_⟩
  intro name record hrecord
  have hmergedNodup : (usage.merge ranges imports).keys.Nodup := by
    rw [hmerged]
    refine List.nodup_append.mpr ⟨hkeys, hnodup, ?_⟩
    rintro key hkey other hother rfl
    exact ((hadded key).mp hother).1 hkey
  have hget := Keyed.get?_of_mem hmergedNodup hrecord
  rw [get?_merge] at hget
  have hold : ∀ before, usage.get? name = some before → before.importPaths.Nodup :=
    fun before hbefore => hpaths _ (Keyed.mem_of_get? hbefore)
  have hmine (path : Text) :
      path ∈ (imports.filter (·.package = name)).map (·.path) ↔ (⟨name, path⟩ : PackageImport) ∈ imports := by
    constructor
    · intro hpath
      obtain ⟨i, hi, rfl⟩ := List.mem_map.mp hpath
      obtain ⟨hi, hname⟩ := List.mem_filter.mp hi
      rw [← of_decide_eq_true hname]
      exact hi
    · intro hpath
      exact List.mem_map.mpr ⟨_, List.mem_filter.mpr ⟨hpath, decide_eq_true rfl⟩, rfl⟩
  by_cases hnone : (imports.filter (·.package = name)).map (·.path) = []
  · have hfound : (fun path => (⟨name, path⟩ : PackageImport) ∈ imports) = fun _ => False := by
      funext path
      rw [← hmine path, hnone]
      simp
    rw [hnone] at hget
    have hbefore : usage.get? name = some record := hget
    rw [hbefore, hfound]
    exact .refl name _ (hold record hbefore)
  · obtain ⟨r, hfold, hunion⟩ := UsageRecord.union_foldl name (ranges.get? name) (usage.get? name) hold hnone
    rw [hfold] at hget
    obtain rfl := Option.some.inj hget
    simpa only [hmine] using hunion

end Usage

end PackageExports
