import PackageExports.Proofs.AddedExports
import PackageExports.Proofs.Strategies

/-!
# The form of exports

Whatever makes an export, the entries of a manifest, a replacement for browsers or one of the strategies for an imported
path, it comes out in one form: a path with `./` in front, or an object of such paths under conditions in their order.
All that is needed for it is that each target has `./` in front; the rest is due to how targets are written.

Main results: `Conditions.canonical_toExport`, `EntryRequest.Resolved.dotted`, `canonical_exports`.
-/

namespace PackageExports

/-- A path with `./` in front. -/
def Relative.IsDotted (path : Text) : Prop :=
  Text.startsWith path "./" = true

/-- The names of conditions in the order in which a runtime tries them. -/
def conditionNames : List Text :=
  ["source", "types", "import", "require", "browser", "default"]

/-- The form of an export: a path, or an object that says more than where a path leads by default. -/
inductive CanonicalExport : Json → Prop
  | single {target : Text} (hdotted : Relative.IsDotted target) : CanonicalExport (.string target)
  | conditions {members : List (Text × Json)} (hnonempty : members ≠ [])
      (horder : (Keyed.keys members).Sublist conditionNames) (hmore : Keyed.keys members ≠ ["default"])
      (hdotted : ∀ member ∈ members, ∃ target, member.2 = .string target ∧ Relative.IsDotted target) :
      CanonicalExport (.object members)

/-- Where an export leads if no other condition applies. -/
def Json.defaultTarget? : Json → Option Text
  | .string target => some target
  | .object members =>
    match Keyed.get? (Text.ofString "default") members with
    | some (.string target) => some target
    | _ => none
  | _ => none

namespace Relative

lemma isDotted_append (path rest : Text) (h : IsDotted path) : IsDotted (path ++ rest) := by
  have hstart := List.isPrefixOf_iff_prefix.mp h
  exact List.isPrefixOf_iff_prefix.mpr (hstart.trans (List.prefix_append path rest))

lemma isDotted_start (rest : Text) : IsDotted ("./" ++ rest) :=
  List.isPrefixOf_iff_prefix.mpr (List.prefix_append _ _)

lemma isDotted_dotted (path : Text) : IsDotted (dotted path) :=
  startsWith_dotted path

lemma IsDotted.ne_nil {path : Text} (h : IsDotted path) : path ≠ [] := by
  rintro rfl
  cases h

end Relative

open Relative

namespace Conditions

variable {cs : Conditions}

/-- All targets have `./` in front. -/
structure Dotted (cs : Conditions) : Prop where
  source : ∀ target ∈ cs.source, IsDotted target
  types : ∀ target ∈ cs.types, IsDotted target
  imported : ∀ target ∈ cs.imported, IsDotted target
  required : ∀ target ∈ cs.required, IsDotted target
  browser : ∀ target ∈ cs.browser, IsDotted target
  otherwise : ∀ target ∈ cs.otherwise, IsDotted target

lemma Dotted.target? (h : cs.Dotted) {c : Condition} {target : Text} (htarget : cs.target? c = some target) :
    IsDotted target := by
  obtain ⟨hmem, -⟩ := Option.filter_eq_some_iff.mp htarget
  cases c with
  | source => exact h.source target hmem
  | types => exact h.types target hmem
  | imported => exact h.imported target hmem
  | required => exact h.required target hmem
  | browser => exact h.browser target hmem
  | otherwise => exact h.otherwise target hmem

lemma mem_items {c : Condition} {target : Text} : (c, target) ∈ cs.items ↔ cs.target? c = some target := by
  unfold items
  rw [List.mem_filterMap]
  constructor
  · rintro ⟨other, -, h⟩
    obtain ⟨found, hfound, heq⟩ := Option.map_eq_some_iff.mp h
    obtain ⟨rfl, rfl⟩ := Prod.mk.inj heq
    exact hfound
  · intro h
    refine ⟨c, ?_, by rw [h]; rfl⟩
    cases c <;> decide

/-- A target under its condition, as a member of an export. -/
def member (item : Condition × Text) : Text × Json := (item.1.key, .string item.2)

lemma toJson_eq (cs : Conditions) : cs.toJson = .object (cs.items.map member) := rfl

lemma keys_members (cs : Conditions) : Keyed.keys (cs.items.map member) = (cs.items.map Prod.fst).map Condition.key := by
  rw [Keyed.keys, List.map_map, List.map_map]
  rfl

lemma key_inj {c d : Condition} (h : c.key = d.key) : c = d := by
  revert h
  cases c <;> cases d <;> decide

lemma get?_members (cs : Conditions) (c : Condition) :
    Keyed.get? c.key (cs.items.map member) = (cs.target? c).map .string := by
  have hnodup : (Keyed.keys (cs.items.map member)).Nodup := by
    rw [keys_members, List.map_map]
    exact keys_items cs
  cases htarget : cs.target? c with
  | some target => exact Keyed.get?_of_mem hnodup (List.mem_map_of_mem (mem_items.mpr htarget))
  | none =>
    rw [Option.map_none, Keyed.get?_eq_none, keys_members]
    intro hkey
    obtain ⟨d, hd, hname⟩ := List.mem_map.mp hkey
    obtain ⟨⟨d, target⟩, hitem, rfl⟩ := List.mem_map.mp hd
    obtain rfl : d = c := key_inj hname
    rw [mem_items, htarget] at hitem
    cases hitem

/-- A target without a condition stands for itself; otherwise the conditions keep their order. -/
theorem canonical_toExport (h : cs.Dotted) (hitems : cs.items ≠ []) : CanonicalExport cs.toExport := by
  unfold toExport
  split
  · rename_i target hsingle
    exact .single (h.target? (mem_items.mp (hsingle ▸ List.mem_singleton_self _)))
  · rename_i hother
    rw [toJson_eq]
    refine .conditions (List.map_eq_nil_iff.not.mpr hitems) ?_ ?_ ?_
    · rw [keys_members]
      exact (sublist_items cs).map Condition.key
    · rw [keys_members]
      intro halone
      obtain ⟨⟨c, target⟩, hsingle⟩ := List.length_eq_one_iff.mp (by simpa using congrArg List.length halone)
      rw [hsingle] at halone
      have hotherwise : c = .otherwise := by
        have hkey : c.key = "default" := List.head_eq_of_cons_eq halone
        revert hkey
        cases c <;> decide
      exact hother target (hotherwise ▸ hsingle)
    · intro pair hpair
      obtain ⟨⟨c, target⟩, hitem, rfl⟩ := List.mem_map.mp hpair
      exact ⟨target, rfl, h.target? (mem_items.mp hitem)⟩

/-- The target without a condition is where the export leads by default. -/
theorem defaultTarget?_toExport {target : Text} (h : cs.otherwise = some target) (hne : target ≠ []) :
    cs.toExport.defaultTarget? = some target := by
  have htarget : cs.target? .otherwise = some target :=
    Option.filter_eq_some_iff.mpr ⟨h, by simpa using hne⟩
  have hitem := mem_items.mpr htarget
  unfold toExport
  split
  · rename_i other hsingle
    rw [hsingle, List.mem_singleton] at hitem
    obtain ⟨-, rfl⟩ := Prod.mk.inj hitem
    rfl
  · have hget := get?_members cs .otherwise
    rw [htarget] at hget
    rw [toJson_eq, Json.defaultTarget?]
    exact congrArg (fun found : Option Json => match found with | some (.string t) => some t | _ => none) hget

end Conditions

lemma SourceFile.isDotted_find? {fs : FileSystem} {package : Path} {target source : Text} {sources builds : List Text}
    (h : find? fs package target sources builds = .ok (some source)) : IsDotted source := by
  obtain ⟨base, -, hresolve⟩ := exists_resolve?_of_find? h
  obtain ⟨seen, -, rfl⟩ := resolve?_eq_some.mp hresolve
  exact isDotted_dotted seen

lemma Declaration.isDotted_beside? {fs : FileSystem} {package : Path} {file types : Text}
    (h : types ∈ beside? fs package file) : IsDotted types := by
  unfold beside? at h
  obtain ⟨-, hsome⟩ := Option.ite_none_right_eq_some.mp h
  obtain rfl := Option.some.inj hsome
  exact isDotted_start _

namespace Expansion

variable {fs : FileSystem} {package : Path}

lemma isDotted_resolve? {extensions : List Text} {base file : Text}
    (h : resolve? fs package extensions base = .ok (some file)) : IsDotted file := by
  obtain ⟨-, seen, -, rfl⟩ := resolve?_eq_some.mp h
  exact isDotted_start seen

lemma isDotted_typesOf? {path file types : Text} (h : types ∈ typesOf? fs package path file) : IsDotted types := by
  unfold typesOf? at h
  dsimp only at h
  split at h
  · obtain rfl := Option.some.inj h
    exact isDotted_start _
  · exact Declaration.isDotted_beside? h

end Expansion

/-- Targets with `./` in front, and one of them without a condition. -/
structure Conditions.Complete (cs : Conditions) : Prop where
  dotted : cs.Dotted
  otherwise : cs.otherwise.isSome

namespace Conditions

lemma Complete.exists_default {cs : Conditions} (h : cs.Complete) :
    ∃ target, cs.otherwise = some target ∧ cs.toExport.defaultTarget? = some target := by
  obtain ⟨target, htarget⟩ := Option.isSome_iff_exists.mp h.otherwise
  have hne : target ≠ [] := (h.dotted.otherwise target htarget).ne_nil
  exact ⟨target, htarget, defaultTarget?_toExport htarget hne⟩

lemma Complete.canonical {cs : Conditions} (h : cs.Complete) : CanonicalExport cs.toExport := by
  apply canonical_toExport h.dotted
  intro hitems
  obtain ⟨target, htarget, -⟩ := h.exists_default
  have hne : target ≠ [] := (h.dotted.otherwise target htarget).ne_nil
  have hsome : cs.target? .otherwise = some target := Option.filter_eq_some_iff.mpr ⟨htarget, by simpa using hne⟩
  have hitem := mem_items.mpr hsome
  rw [hitems] at hitem
  exact List.not_mem_nil hitem

end Conditions

namespace EntryRequest

variable {fs : FileSystem} {r : EntryRequest} {cs : Conditions}

lemma complete_builtConditions {directory file : Text} (h : builtConditions fs r directory file = .ok cs) :
    cs.Complete := by
  obtain ⟨source, hsource, hcs⟩ := bind_ok_iff.mp h
  obtain rfl := Except.ok.inj hcs
  have htarget (compiled : Text) : IsDotted ("./" ++ directory ++ "/" ++ compiled) :=
    isDotted_append _ _ (isDotted_append _ _ (isDotted_start directory))
  refine ⟨⟨?_, ?_, ?_, ?_, ?_, ?_⟩, rfl⟩
  · rintro target rfl
    exact SourceFile.isDotted_find? hsource
  · intro target htypes
    dsimp only at htypes
    exact Declaration.isDotted_beside? htypes
  · intro target himported
    dsimp only at himported
    split at himported
    · obtain rfl := Option.some.inj himported
      exact htarget _
    · cases himported
  · intro target hnone
    cases hnone
  · intro target hnone
    cases hnone
  · rintro target ⟨⟩
    exact htarget _

lemma complete_expand {pattern : BuildPattern} {path : Text} {sources extensions : List Text}
    (h : Expansion.expand fs r.package pattern path sources extensions = .ok (some cs)) : cs.Complete := by
  cases pattern with
  | single => cases h
  | dual kind cjs esm =>
    obtain ⟨-, cjsFile, esmFile, ownFile, file, source, hcjs, hesm, hown, hfile, hsource, rfl⟩ :=
      Expansion.expand_eq_some.mp h
    refine ⟨⟨?_, ?_, ?_, ?_, ?_, ?_⟩, rfl⟩
    · rintro target rfl
      exact SourceFile.isDotted_find? hsource
    · intro target htypes
      dsimp only [Expansion.targets] at htypes
      exact Expansion.isDotted_typesOf? htypes
    · rintro target rfl
      exact Expansion.isDotted_resolve? hesm
    · rintro target rfl
      exact Expansion.isDotted_resolve? hcjs
    · intro target hnone
      cases hnone
    · rintro target ⟨⟩
      rcases Expansion.eq_of_first hfile with rfl | rfl | rfl
      · exact Expansion.isDotted_resolve? hown
      · exact Expansion.isDotted_resolve? hesm
      · exact Expansion.isDotted_resolve? hcjs

lemma complete_predictedConditions (directory file : Text) : (predictedConditions r directory file).Complete := by
  have htarget (output extension : Text) : IsDotted ("./" ++ r.outputDirectory ++ "/" ++ output ++ extension) :=
    isDotted_append _ _ (isDotted_append _ _ (isDotted_append _ _ (isDotted_start _)))
  refine ⟨⟨?_, ?_, ?_, ?_, ?_, ?_⟩, rfl⟩
  · rintro target ⟨⟩
    exact isDotted_append _ _ (isDotted_append _ _ (isDotted_start _))
  · rintro target ⟨⟩
    exact htarget _ _
  · rintro target ⟨⟩
    exact htarget _ _
  · intro target hnone
    cases hnone
  · intro target hnone
    cases hnone
  · rintro target ⟨⟩
    exact htarget _ _

lemma complete_assumption (h : (assumption fs r).result = .ok cs) : cs.Complete := by
  obtain ⟨source, hsource, rfl⟩ := assumption_eq_ok.mp h
  have htarget (extension : Text) : IsDotted ("./" ++ r.outputDirectory ++ "/" ++ r.outputStem ++ extension) :=
    isDotted_append _ _ (isDotted_append _ _ (isDotted_append _ _ (isDotted_start _)))
  refine ⟨⟨?_, ?_, ?_, ?_, ?_, ?_⟩, rfl⟩
  · rintro target rfl
    exact SourceFile.isDotted_find? hsource
  · rintro target ⟨⟩
    exact htarget _
  all_goals
    intro target hsome
    cases hsome
  exact htarget _

/-- Whichever way a path gets targets, they have `./` in front and one of them is without a condition. -/
theorem Resolved.complete (h : Resolved fs r cs) : cs.Complete := by
  cases h with
  | built hroot hfound h => exact complete_builtConditions h
  | expanded h => exact complete_expand h
  | predicted hdirectory hfound => exact complete_predictedConditions _ _
  | assumed h => exact complete_assumption h

end EntryRequest

namespace BrowserTargets

/-- All replacements have `./` in front. -/
structure Replaces (found : BrowserTargets) : Prop where
  root : ∀ target ∈ found.root, IsDotted target
  files : ∀ entry ∈ found.files, ∀ target ∈ entry.2, IsDotted target

lemma isDotted_entryPath {path : Option Text} {entry : Text} (hentry : entry ∈ entryPath path) : IsDotted entry := by
  obtain ⟨written, -, rfl⟩ := Option.map_eq_some_iff.mp hentry
  exact isDotted_dotted written

lemma Replaces.step {main module : Option Text} {found : BrowserTargets} (h : found.Replaces)
    {entry : Text × Option Text} (hentry : ∀ target ∈ entry.2, IsDotted target) :
    (step main module found entry).Replaces := by
  obtain ⟨path, target⟩ := entry
  unfold BrowserTargets.step
  dsimp only at hentry ⊢
  split_ifs
  · exact h
  · exact ⟨hentry, h.files⟩
  · refine ⟨h.root, ?_⟩
    intro file hfile
    rcases Keyed.mem_insert hfile with rfl | hfile
    · exact hentry
    · exact h.files file hfile

lemma replaces_ofTable (targets : Keyed Text (Option Text)) (main module : Option Text) :
    (ofTable targets main module).Replaces := by
  have hentries : ∀ entry ∈ dottedTable targets, ∀ target ∈ entry.2, IsDotted target := by
    intro entry hentry target htarget
    obtain ⟨p, -, rfl⟩ := List.mem_map.mp hentry
    obtain ⟨written, -, rfl⟩ := Option.map_eq_some_iff.mp htarget
    exact isDotted_dotted written
  have hroot : ∀ target ∈ rootOf main (dottedTable targets), IsDotted target := by
    intro target htarget
    obtain ⟨entry, hentry, hsome⟩ := List.mem_filterMap.mp (List.mem_of_getLast? htarget)
    dsimp only at hsome
    split at hsome
    · exact hentries entry hentry target hsome
    · cases hsome
  have hfold (entries : List (Text × Option Text)) (found : BrowserTargets) (hfound : found.Replaces)
      (hentries : ∀ entry ∈ entries, ∀ target ∈ entry.2, IsDotted target) :
      (entries.foldl (BrowserTargets.step main module) found).Replaces := by
    induction entries generalizing found with
    | nil => exact hfound
    | cons entry rest ih =>
      obtain ⟨hentry, hrest⟩ := List.forall_mem_cons.mp hentries
      exact ih _ (hfound.step hentry) hrest
  apply hfold _ _ _ hentries
  exact ⟨hroot, fun _ hmem => absurd hmem List.not_mem_nil⟩

lemma replaces_ofField (field : Option BrowserField) (main module : Option Text) :
    (ofField field main module).Replaces := by
  rcases field with _ | (target | targets)
  · exact ⟨fun _ hnone => absurd hnone (by simp [ofField]), fun _ hmem => absurd hmem List.not_mem_nil⟩
  · refine ⟨?_, fun _ hmem => absurd hmem List.not_mem_nil⟩
    rintro _ ⟨⟩
    exact isDotted_dotted target
  · exact replaces_ofTable targets _ _

end BrowserTargets

namespace Baseline

variable {fs : FileSystem} {package : Path} {m : Manifest} {sources : List Text} {cs : Conditions}

lemma isDotted_namedSource? : ∀ source ∈ namedSource? fs package m, IsDotted source := by
  intro source hsource
  unfold namedSource? at hsource
  split at hsource
  · obtain ⟨-, hsome⟩ := Option.ite_none_right_eq_some.mp hsource
    obtain rfl := Option.some.inj hsome
    exact isDotted_dotted _
  · cases hsource

lemma isDotted_sourceOfFirst {entries : List Text} {source : Text}
    (h : sourceOfFirst fs package sources entries = .ok (some source)) : IsDotted source := by
  rw [sourceOfFirst_eq_findSomeM?] at h
  obtain ⟨entry, -, hfound⟩ := findSomeM?_eq_some h
  exact SourceFile.isDotted_find? hfound

lemma IsRoot.dotted {replacement : Option Text} (h : IsRoot fs package m sources replacement cs)
    (hreplacement : ∀ target ∈ replacement, IsDotted target) : cs.Dotted := by
  have hentry {path : Option Text} {target : Text} (htarget : BrowserTargets.entryPath path = some target) :
      IsDotted target := BrowserTargets.isDotted_entryPath htarget
  refine ⟨?_, ?_, ?_, fun target htarget => hentry (h.required target htarget).1, ?_, ?_⟩
  · intro target htarget
    cases hnamed : namedSource? fs package m with
    | none => exact isDotted_sourceOfFirst ((h.source hnamed).trans (congrArg Except.ok htarget))
    | some named =>
      obtain rfl := Option.some.inj ((h.named named hnamed).symm.trans htarget)
      exact isDotted_namedSource? named hnamed
  · exact fun target htarget => hentry (h.types ▸ htarget)
  · exact fun target htarget => hentry (h.imported ▸ htarget)
  · exact h.browser ▸ hreplacement
  · exact fun target htarget => hentry (h.otherwise ▸ htarget)

/-- A file that browsers replace is its own target without a condition. -/
lemma complete_replaced {file : Text} {browser : Option Text} (hfile : IsDotted file)
    (hbrowser : ∀ target ∈ browser, IsDotted target) (h : replaced fs package sources file browser = .ok cs) :
    cs.Complete ∧ cs.otherwise = some file := by
  obtain ⟨source, hsource, rfl⟩ := replaced_eq_ok.mp h
  refine ⟨⟨⟨?_, ?_, ?_, ?_, hbrowser, ?_⟩, rfl⟩, rfl⟩
  · rintro target rfl
    exact SourceFile.isDotted_find? hsource
  all_goals
    intro target hsome
    cases hsome
  exact hfile

lemma canonical_rootExport (h : cs.Dotted) : CanonicalExport (rootExport cs) := by
  unfold rootExport
  split_ifs with hempty
  · exact .single (isDotted_start "lib/index.js")
  · apply Conditions.canonical_toExport h
    intro hitems
    rw [Conditions.isEmpty, hitems] at hempty
    exact hempty rfl

/-- The exports that follow from a manifest are in form, and a file that browsers replace leads to itself by
default. -/
theorem canonical_of_exports {found : Exports} (h : exports fs package m sources = .ok found) :
    ∀ entry ∈ found, CanonicalExport entry.2 ∧ (entry.1 ≠ "." → entry.2.defaultTarget? = some entry.1) := by
  have hfiles := BrowserTargets.dotted_ofField m.browser m.main m.module
  have htargets := BrowserTargets.replaces_ofField m.browser m.main m.module
  intro entry hentry
  cases follows_of_exports h entry hentry with
  | root hroot => exact ⟨canonical_rootExport (hroot.dotted htargets.root), fun hne => absurd rfl hne⟩
  | @replaced file replacement cs hmem hreplaced =>
    have hfile : IsDotted file := hfiles.dotted file (List.mem_map_of_mem hmem)
    obtain ⟨hcomplete, hotherwise⟩ := complete_replaced hfile (htargets.files (file, replacement) hmem) hreplaced
    have hdefault := Conditions.defaultTarget?_toExport hotherwise hfile.ne_nil
    exact ⟨hcomplete.canonical, fun _ => hdefault⟩

end Baseline

/-- The export of an imported path is in form and leads somewhere by default. -/
theorem EntryRequest.canonical_of_conditions {fs : FileSystem} {r : EntryRequest} {strategies : List Strategy}
    {cs : Conditions} (h : (r.conditions fs strategies).result = .ok cs) :
    CanonicalExport cs.toExport ∧ cs.toExport.defaultTarget?.isSome := by
  have hcomplete := (resolved_of_conditions h).complete
  obtain ⟨target, -, hdefault⟩ := hcomplete.exists_default
  exact ⟨hcomplete.canonical, Option.isSome_of_eq_some hdefault⟩

/-- Each entry of an assembled map is one that the manifest gives, or it is in form. -/
lemma Assembly.canonical_of_start {fs : FileSystem} {a : Assembly} {start : Exports} {paths : List Text}
    (hstart : a.start fs = .ok start) :
    ∀ entry ∈ start ++ paths.filterMap (a.exportAt? fs),
      (∃ value, a.manifest.exports = some value ∧ entry ∈ Exports.ofJson value) ∨
        CanonicalExport entry.2 ∧ (entry.1 ≠ "." → entry.2.defaultTarget?.isSome) := by
  intro entry hentry
  rcases List.mem_append.mp hentry with hentry | hentry
  · unfold Assembly.start at hstart
    cases hexports : a.manifest.exports with
    | none =>
      rw [hexports] at hstart
      obtain ⟨hform, hdefault⟩ := Baseline.canonical_of_exports hstart entry hentry
      exact .inr ⟨hform, fun hne => Option.isSome_of_eq_some (hdefault hne)⟩
    | some value =>
      rw [hexports] at hstart
      obtain rfl := Except.ok.inj hstart
      exact .inl ⟨value, rfl, hentry⟩
  · obtain ⟨path, -, hsome⟩ := List.mem_filterMap.mp hentry
    obtain ⟨-, hvalue⟩ := (Assembly.exportAt?_eq_some fs a).mp hsome
    rw [exportOf, Attempt.result_map] at hvalue
    obtain ⟨cs, hcs, hexport⟩ := map_ok_iff.mp hvalue
    obtain ⟨hform, hdefault⟩ := EntryRequest.canonical_of_conditions hcs
    rw [hexport] at hform hdefault
    exact .inr ⟨hform, fun _ => hdefault⟩

/-- All exports that are made, from the entries of a manifest or for an imported path in whatever order of strategies,
are in form; a file that browsers replace leads to itself by default and an imported path leads somewhere. So the map
of a package, assembled one path after the other or in a batch, holds exports of this form and those that its manifest
gives. -/
theorem canonical_exports (fs : FileSystem) :
    (∀ package m sources found, Baseline.exports fs package m sources = .ok found →
      ∀ entry ∈ found, CanonicalExport entry.2 ∧ (entry.1 ≠ "." → entry.2.defaultTarget? = some entry.1)) ∧
    (∀ (r : EntryRequest) strategies cs, (r.conditions fs strategies).result = .ok cs →
      CanonicalExport cs.toExport ∧ cs.toExport.defaultTarget?.isSome) ∧
    ∀ (a : Assembly) found, (a.exports fs).result = .ok found ∨ (a.exportsInBatch fs).result = .ok found →
      ∀ entry ∈ found, (∃ value, a.manifest.exports = some value ∧ entry ∈ Exports.ofJson value) ∨
        CanonicalExport entry.2 ∧ (entry.1 ≠ "." → entry.2.defaultTarget?.isSome) := by
  refine ⟨?_, ?_, ?_⟩
  · intro package m sources found h
    exact Baseline.canonical_of_exports h
  · intro r strategies cs h
    exact EntryRequest.canonical_of_conditions h
  · rintro a found (h | h)
    · obtain ⟨start, hstart, -, rfl⟩ := (Assembly.exports_eq_ok fs a).mp h
      exact Assembly.canonical_of_start hstart
    · obtain ⟨start, hstart, rfl⟩ := Assembly.exportsInBatch_ok fs a h
      exact Assembly.canonical_of_start hstart

/-- A package in which browsers replace two files, and a path of it by the usual order of strategies. -/
theorem canonical_exports_replaced :
    (∃ found, Baseline.exports FileSystem.empty Assembly.replacedFiles.package Assembly.replacedFiles.manifest ["src"] =
        .ok found ∧ Keyed.keys found = [Text.ofString ".", "./x.js", "./y.js"] ∧
      ∀ entry ∈ found, CanonicalExport entry.2 ∧ (entry.1 ≠ "." → entry.2.defaultTarget? = some entry.1)) ∧
    (∃ cs, ((Assembly.replacedFiles.request "./a").conditions FileSystem.empty Strategy.standard).result = .ok cs ∧
      cs.otherwise = some "./lib/a.js" ∧ CanonicalExport cs.toExport) ∧
    ∃ found, (Assembly.replacedFiles.exports FileSystem.empty).result = .ok found ∧
      ∀ entry ∈ found, CanonicalExport entry.2 := by
  obtain ⟨hbaseline, hconditions, hassembly⟩ := canonical_exports FileSystem.empty
  refine ⟨?_, ?_, ?_⟩
  · have hkeys : ((Baseline.exports FileSystem.empty Assembly.replacedFiles.package Assembly.replacedFiles.manifest
        ["src"]).toOption.map Keyed.keys) = some [Text.ofString ".", "./x.js", "./y.js"] := by decide +kernel
    obtain ⟨found, hfound, hkeys⟩ := Option.map_eq_some_iff.mp hkeys
    have hok := ok_of_toOption hfound
    exact ⟨found, hok, hkeys, hbaseline _ _ _ found hok⟩
  · have htarget : (((Assembly.replacedFiles.request "./a").conditions FileSystem.empty
        Strategy.standard).result.toOption.map Conditions.otherwise) = some (some (Text.ofString "./lib/a.js")) := by
      decide +kernel
    obtain ⟨cs, hcs, hotherwise⟩ := Option.map_eq_some_iff.mp htarget
    have hok := ok_of_toOption hcs
    exact ⟨cs, hok, hotherwise, (hconditions _ _ cs hok).1⟩
  · have hreturns : ((Assembly.replacedFiles.exports FileSystem.empty).result.toOption).isSome = true := by
      decide +kernel
    obtain ⟨found, hfound⟩ := Option.isSome_iff_exists.mp hreturns
    have hok := ok_of_toOption hfound
    refine ⟨found, hok, ?_⟩
    intro entry hentry
    rcases hassembly Assembly.replacedFiles found (.inl hok) entry hentry with ⟨value, hvalue, -⟩ | ⟨hform, -⟩
    · cases hvalue
    · exact hform

end PackageExports
