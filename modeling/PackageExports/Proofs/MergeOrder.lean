import Mathlib.Data.List.Perm.Basic
import PackageExports.Proofs.UsageUnion

/-!
# Merging in any order

What merged imports come to does not depend on their order or on how they are cut into batches: two records of a name
differ in nothing but the order of their paths, which does not show when they are written, and two usages in nothing
but that and the order of new names. Imports that have been merged are then settled, so that merging them once more
changes nothing at all.

Main results: `UsageRecord.alike_foldl_perm`, `Usage.merge_of_isSettled`, `Usage.merge_in_any_order`.
-/

namespace PackageExports

namespace Text

lemma sort_perm {ts others : List Text} (h : ts.Perm others) : sort ts = sort others := by
  have hperm : (sort ts).Perm (sort others) :=
    ((List.mergeSort_perm ts le).trans h).trans (List.mergeSort_perm others le).symm
  exact hperm.eq_of_pairwise (fun a b _ _ => le_antisymm) (pairwise_sort ts) (pairwise_sort others)

end Text

namespace UsageRecord

variable {r s : UsageRecord} {name path other : Text} {range : Option Text} {old new : Option UsageRecord}

/-! ### Records up to the order of their paths -/

/-- Two records that are written alike. -/
structure Alike (r s : UsageRecord) : Prop where
  package : r.package = s.package
  range : r.writtenRange = s.writtenRange
  paths : r.importPaths.Perm s.importPaths

lemma Alike.refl (r : UsageRecord) : Alike r r :=
  ⟨rfl, rfl, .refl _⟩

lemma Alike.trans {t : UsageRecord} (h : Alike r s) (hother : Alike s t) : Alike r t :=
  ⟨h.package.trans hother.package, h.range.trans hother.range, h.paths.trans hother.paths⟩

lemma rel_trans {last : Option UsageRecord} (h : Option.Rel Alike old new) (hother : Option.Rel Alike new last) :
    Option.Rel Alike old last := by
  cases h with
  | none => exact hother
  | some h =>
    cases hother with
    | some hother => exact .some (h.trans hother)

lemma toJson_of_rel (h : Option.Rel Alike old new) : old.map toJson = new.map toJson := by
  cases h with
  | none => rfl
  | some h => rw [Option.map_some, Option.map_some, toJson_eq, toJson_eq, h.package, h.range, Text.sort_perm h.paths]

lemma addPath_perm (h : r.importPaths.Perm s.importPaths) (path : Text) :
    (r.addPath path).importPaths.Perm (s.addPath path).importPaths := by
  unfold addPath
  by_cases hmem : path ∈ r.importPaths
  · rw [if_pos hmem, if_pos (h.mem_iff.mp hmem)]
    exact h
  · rw [if_neg hmem, if_neg (mt h.mem_iff.mpr hmem)]
    exact h.append_right [path]

lemma addPath_comm (r : UsageRecord) (path other : Text) :
    ((r.addPath path).addPath other).importPaths.Perm ((r.addPath other).addPath path).importPaths := by
  by_cases hsame : path = other
  · rw [hsame]
  have hother : other ∈ (r.addPath path).importPaths ↔ other ∈ r.importPaths := by
    rw [mem_addPath, or_iff_left (Ne.symm hsame)]
  have hpath : path ∈ (r.addPath other).importPaths ↔ path ∈ r.importPaths := by
    rw [mem_addPath, or_iff_left hsame]
  rw [addPath, addPath.eq_1 (r.addPath other)]
  simp only [hother, hpath]
  -- both paths are new in the last case only
  by_cases hmem : path ∈ r.importPaths <;> by_cases hmemOther : other ∈ r.importPaths <;>
    simp only [addPath, hmem, hmemOther, if_true, if_false, List.append_assoc, List.Perm.refl]
  exact (List.Perm.swap other path []).append_left r.importPaths

lemma Alike.after (h : Alike r s) (name : Text) (range : Option Text) (path : Text) :
    Alike (after name range (some r) path) (after name range (some s) path) where
  package := by rw [after_package, after_package, Option.map_some, Option.map_some, h.package]
  range := by rw [writtenRange_after, writtenRange_after, Option.bind_some, Option.bind_some, h.range]
  paths := by
    rw [after_importPaths, after_importPaths]
    exact addPath_perm h.paths path

/-- Two imports may be exchanged. -/
lemma alike_after_comm (name : Text) (range : Option Text) (old : Option UsageRecord) (path other : Text) :
    Alike (after name range (some (after name range old path)) other)
      (after name range (some (after name range old other)) path) where
  package := by rw [after_package, after_package, Option.map_some, Option.map_some, after_package, after_package]
  range := by
    rw [writtenRange_after, writtenRange_after, Option.bind_some, Option.bind_some, writtenRange_after,
      writtenRange_after]
  paths := by
    have hpath (path other : Text) : (after name range (some (after name range old path)) other).importPaths.Perm
        (((old.getD { package := name }).addPath path).addPath other).importPaths := by
      rw [after_importPaths]
      exact addPath_perm (.of_eq (after_importPaths name range old path)) other
    exact ((hpath path other).trans (addPath_comm _ path other)).trans (hpath other path).symm

lemma alike_foldl (name : Text) (range : Option Text) (h : Option.Rel Alike old new) (paths : List Text) :
    Option.Rel Alike (paths.foldl (fun old path => some (after name range old path)) old)
      (paths.foldl (fun old path => some (after name range old path)) new) := by
  induction paths generalizing old new with
  | nil => exact h
  | cons path rest ih =>
    refine ih ?_
    cases h with
    | some h => exact .some (h.after name range path)
    | none => exact .some (.refl _)

lemma alike_foldl_perm (name : Text) (range : Option Text) {paths others : List Text} (h : paths.Perm others)
    (old : Option UsageRecord) :
    Option.Rel Alike (paths.foldl (fun old path => some (after name range old path)) old)
      (others.foldl (fun old path => some (after name range old path)) old) := by
  induction h generalizing old with
  | nil =>
    cases old with
    | none => exact .none
    | some r => exact .some (.refl r)
  | cons path _ ih => exact ih _
  | swap path other rest => exact alike_foldl name range (.some (alike_after_comm name range old other path)) rest
  | trans _ _ ihfirst ihsecond => exact rel_trans (ihfirst old) (ihsecond old)

/-! ### Imports that are settled -/

/-- A record that has a path and needs no other version range. -/
structure IsSettled (range : Option Text) (path : Text) (r : UsageRecord) : Prop where
  mem : path ∈ r.importPaths
  range : r.hasVersion = true ∨ r.versionRequirement = range

lemma isSettled_after (name : Text) (range : Option Text) (old : Option UsageRecord) (path : Text) :
    IsSettled range path (after name range old path) where
  mem := by
    rw [after_importPaths]
    exact mem_addPath.mpr (.inr rfl)
  range := by
    unfold after
    dsimp only
    split_ifs with hversion
    · exact .inl hversion
    · exact .inr rfl

lemma IsSettled.after (h : IsSettled range path r) (name other : Text) :
    IsSettled range path (after name range (some r) other) where
  mem := by
    rw [after_importPaths]
    exact mem_addPath.mpr (.inl h.mem)
  range := (isSettled_after name range (some r) other).range

lemma IsSettled.after_eq (h : IsSettled range path r) (name : Text) :
    UsageRecord.after name range (some r) path = r := by
  have hadd : r.addPath path = r := if_pos h.mem
  unfold UsageRecord.after
  dsimp only
  rw [Option.getD_some, hadd]
  split_ifs with hversion
  · rfl
  · rw [← h.range.resolve_left hversion]

end UsageRecord

namespace Usage

variable {ranges : Keyed Text Text} {usage : Usage} {i : PackageImport} {imports : List PackageImport}

/-- An import that usage has. -/
def IsSettled (ranges : Keyed Text Text) (usage : Usage) (i : PackageImport) : Prop :=
  ∃ r, usage.get? i.package = some r ∧ r.IsSettled (ranges.get? i.package) i.path

lemma isSettled_insert (usage : Usage) (i other : PackageImport) (h : other = i ∨ IsSettled ranges usage other) :
    IsSettled ranges (usage.insert i.package (usage.recordWith ranges i)) other := by
  by_cases hsame : i.package = other.package
  · refine ⟨usage.recordWith ranges i, hsame ▸ Keyed.get?_insert_self usage i.package _, ?_⟩
    rw [← hsame]
    rcases h with rfl | ⟨r, hget, hr⟩
    · exact UsageRecord.isSettled_after _ _ _ _
    · rw [← hsame] at hget hr
      change UsageRecord.IsSettled _ _ (UsageRecord.after i.package _ (usage.get? i.package) i.path)
      rw [hget]
      exact hr.after i.package i.path
  · rcases h with rfl | ⟨r, hget, hr⟩
    · exact absurd rfl hsame
    · exact ⟨r, by rwa [Keyed.get?_insert_of_ne usage _ hsame], hr⟩

lemma isSettled_merge (usage : Usage) (h : i ∈ imports ∨ IsSettled ranges usage i) :
    IsSettled ranges (usage.merge ranges imports) i := by
  unfold merge
  induction imports generalizing usage with
  | nil => exact h.resolve_left List.not_mem_nil
  | cons first rest ih =>
    rw [List.foldl_cons]
    rw [List.mem_cons, or_assoc] at h
    rcases h with rfl | h | h
    · exact ih _ (.inr (isSettled_insert usage i i (.inl rfl)))
    · exact ih _ (.inl h)
    · exact ih _ (.inr (isSettled_insert usage first i (.inr h)))

/-- Merging imports that are settled changes nothing. -/
lemma merge_of_isSettled (h : ∀ i ∈ imports, IsSettled ranges usage i) : usage.merge ranges imports = usage := by
  unfold merge
  induction imports with
  | nil => rfl
  | cons i rest ih =>
    obtain ⟨hfirst, hrest⟩ := List.forall_mem_cons.mp h
    obtain ⟨r, hget, hr⟩ := hfirst
    have hrecord : usage.recordWith ranges i = r := by
      change UsageRecord.after i.package _ (usage.get? i.package) i.path = r
      rw [hget]
      exact hr.after_eq i.package
    rw [List.foldl_cons, hrecord, Keyed.insert_of_get? hget]
    exact ih hrest

/-! ### Batches of imports -/

/-- Usage after the imports of several batches, one batch after the other. -/
def mergeBatches (ranges : Keyed Text Text) (usage : Usage) (batches : List (List PackageImport)) : Usage :=
  batches.foldl (fun usage imports => usage.merge ranges imports) usage

/-- It does not matter how imports are cut into batches. -/
lemma mergeBatches_eq (usage : Usage) (batches : List (List PackageImport)) :
    mergeBatches ranges usage batches = usage.merge ranges batches.flatten := by
  unfold mergeBatches
  induction batches generalizing usage with
  | nil => rfl
  | cons imports rest ih =>
    rw [List.foldl_cons, ih, List.flatten_cons, merge, merge, merge, List.foldl_append]

lemma keys_merge_perm {others : List PackageImport} (h : imports.Perm others) (ranges : Keyed Text Text)
    (usage : Usage) :
    ∃ added new, (usage.merge ranges imports).keys = usage.keys ++ added ∧
      (usage.merge ranges others).keys = usage.keys ++ new ∧ added.Perm new := by
  obtain ⟨added, hadded, hnodup, hmem⟩ := keys_merge ranges imports usage
  obtain ⟨new, hnew, hnodupNew, hmemNew⟩ := keys_merge ranges others usage
  refine ⟨added, new, hadded, hnew, (List.perm_ext_iff_of_nodup hnodup hnodupNew).mpr fun name => ?_⟩
  rw [hmem, hmemNew]
  simp only [h.mem_iff]

lemma alike_merge_perm {others : List PackageImport} (h : imports.Perm others) (ranges : Keyed Text Text)
    (usage : Usage) (name : Text) :
    Option.Rel UsageRecord.Alike ((usage.merge ranges imports).get? name) ((usage.merge ranges others).get? name) := by
  rw [get?_merge, get?_merge]
  exact UsageRecord.alike_foldl_perm name (ranges.get? name) ((h.filter _).map _) (usage.get? name)

/-- The imports of several files, in whichever order they come and however they are cut into batches, are all settled in
the end, and make usage of the same names whose records are written alike. Merging a batch once more changes nothing. -/
theorem merge_in_any_order (ranges : Keyed Text Text) (usage : Usage) {batches others : List (List PackageImport)}
    (h : batches.flatten.Perm others.flatten) :
    (∀ i ∈ batches.flatten, IsSettled ranges (mergeBatches ranges usage batches) i) ∧
    (∃ added new, (mergeBatches ranges usage batches).keys = usage.keys ++ added ∧
      (mergeBatches ranges usage others).keys = usage.keys ++ new ∧ added.Perm new) ∧
    (∀ name, ((mergeBatches ranges usage batches).get? name).map UsageRecord.toJson =
      ((mergeBatches ranges usage others).get? name).map UsageRecord.toJson) ∧
    ∀ imports ∈ batches,
      (mergeBatches ranges usage batches).merge ranges imports = mergeBatches ranges usage batches := by
  rw [mergeBatches_eq, mergeBatches_eq]
  have hsettled : ∀ i ∈ batches.flatten, IsSettled ranges (usage.merge ranges batches.flatten) i :=
    fun i hi => isSettled_merge usage (.inl hi)
  refine ⟨hsettled, keys_merge_perm h ranges usage,
    fun name => UsageRecord.toJson_of_rel (alike_merge_perm h ranges usage name), fun imports himports => ?_⟩
  exact merge_of_isSettled fun i hi => hsettled i (List.mem_flatten.mpr ⟨imports, himports, hi⟩)

/-- The imports of a script that takes two paths of one package, and those of another script. -/
def twoScripts : List (List PackageImport) :=
  [[⟨"app", "./cli"⟩, ⟨"app", "."⟩], [⟨"tools", "."⟩]]

/-- Read backwards, the scripts name the packages in the other order, and the record of the first is written alike. -/
theorem merge_twoScripts :
    (mergeBatches [("app", "^1.0")] [] twoScripts).keys = ["app", "tools"] ∧
      (mergeBatches [("app", "^1.0")] [] [twoScripts.flatten.reverse]).keys = ["tools", "app"] ∧
      (Keyed.get? (Text.ofString "app") (mergeBatches [("app", "^1.0")] [] twoScripts)).map UsageRecord.toJson =
        some (UsageRecord.written "app" (some "^1.0") [".", "./cli"]) ∧
      (mergeBatches [("app", "^1.0")] [] twoScripts).merge [("app", "^1.0")] [⟨"tools", "."⟩] =
        mergeBatches [("app", "^1.0")] [] twoScripts := by
  have hperm : twoScripts.flatten.Perm [twoScripts.flatten.reverse].flatten :=
    (List.reverse_perm _).symm.trans (.of_eq (List.append_nil _).symm)
  obtain ⟨-, -, halike, hagain⟩ := merge_in_any_order [("app", "^1.0")] [] hperm
  have hrecord : Keyed.get? (Text.ofString "app") (mergeBatches [("app", "^1.0")] [] [twoScripts.flatten.reverse]) =
      some { package := "app", versionRequirement := some "^1.0", importPaths := [".", "./cli"] } := by decide
  have hsorted : Text.sort [".", "./cli"] = [".", "./cli"] := List.mergeSort_of_pairwise (by decide)
  refine ⟨by decide, by decide, ?_, hagain _ (by decide)⟩
  rw [halike, hrecord, Option.map_some, UsageRecord.toJson_eq, hsorted]
  rfl

end Usage

end PackageExports
