import PackageExports.Exports.Update
import PackageExports.Proofs.Batches
import PackageExports.Proofs.RoundTrip
import PackageExports.Proofs.Skeleton

/-!
# The assembled exports map

`Assembly.exportsInBatch` gives the exports that were there followed by an export for each pending path whose targets
are found, in the order in which the paths were recorded. The map has distinct keys and holds kept values, so it is
read back from a manifest as it was written.

Main results: `Assembly.exportsInBatch_result`, `Assembly.start_cases`.
-/

namespace PackageExports

open scoped List

namespace Assembly

variable (fs : FileSystem) (a : Assembly) (name : Text)

lemma pendingFrom_value (exports : Exports) (found paths : List Text) :
    (pendingFrom name exports found paths).value =
      paths.foldl (fun found path => if path ∈ found ∨ exports.hasKey path = true then found else found ++ [path])
        found := by
  induction paths generalizing found with
  | nil => rfl
  | cons path rest ih =>
    rw [pendingFrom, List.foldl_cons]
    by_cases hfound : path ∈ found
    · simp only [hfound, if_true, true_or]
      exact ih found
    · by_cases hkey : exports.hasKey path = true
      · simp only [hfound, hkey, if_true, if_false, or_true, Noted.value_bind]
        exact ih found
      · simp only [hfound, hkey, if_false]
        exact ih (found ++ [path])

lemma mem_pendingFrom {exports : Exports} {found paths : List Text} {path : Text} :
    path ∈ (pendingFrom name exports found paths).value ↔
      path ∈ found ∨ path ∈ paths ∧ exports.hasKey path = false := by
  rw [pendingFrom_value]
  induction paths generalizing found with
  | nil => simp
  | cons next rest ih =>
    rw [List.foldl_cons, ih, List.mem_cons]
    split_ifs with h
    · constructor
      · exact fun hp => hp.imp_right fun ⟨hrest, hkey⟩ => ⟨.inr hrest, hkey⟩
      · rintro (hp | ⟨rfl | hrest, hkey⟩)
        · exact .inl hp
        · exact .inl (h.resolve_right (by simp [hkey]))
        · exact .inr ⟨hrest, hkey⟩
    · rw [not_or, Bool.not_eq_true] at h
      rw [List.mem_append, List.mem_singleton]
      constructor
      · rintro ((hp | rfl) | ⟨hrest, hkey⟩)
        · exact .inl hp
        · exact .inr ⟨.inl rfl, h.2⟩
        · exact .inr ⟨.inr hrest, hkey⟩
      · rintro (hp | ⟨rfl | hrest, hkey⟩)
        · exact .inl (.inl hp)
        · exact .inl (.inr rfl)
        · exact .inr ⟨hrest, hkey⟩

lemma mem_pending {exports : Exports} {usage : UsageRecord} {path : Text} :
    path ∈ (pending exports usage).value ↔ path ∈ usage.importPaths ∧ exports.hasKey path = false := by
  rw [pending, mem_pendingFrom]
  simp

lemma nodup_pending (exports : Exports) (usage : UsageRecord) : (pending exports usage).value.Nodup := by
  have hfold (found : List Text) (hfound : found.Nodup) :
      (usage.importPaths.foldl (fun found path => if path ∈ found ∨ exports.hasKey path = true then found
        else found ++ [path]) found).Nodup := by
    induction usage.importPaths generalizing found with
    | nil => exact hfound
    | cons path rest ih =>
      rw [List.foldl_cons]
      refine ih _ ?_
      split_ifs with h
      · exact hfound
      · exact List.nodup_append.mpr ⟨hfound, List.nodup_singleton path, by
          rintro q hq r hr rfl
          exact h (.inl (List.mem_singleton.mp hr ▸ hq))⟩
  rw [pending, pendingFrom_value]
  exact hfold [] List.nodup_nil

/-- The export that a path gets, if its targets are found. -/
def exportAt? (path : Text) : Option (Text × Json) :=
  match (exportOf fs a path).result with
  | .ok value => some (path, value)
  | .error _ => none

lemma exportAt?_eq_some {path : Text} {q : Text × Json} :
    exportAt? fs a path = some q ↔ q.1 = path ∧ (exportOf fs a path).result = .ok q.2 := by
  unfold exportAt?
  cases (exportOf fs a path).result with
  | error e => simp
  | ok value =>
    obtain ⟨key, found⟩ := q
    simp [eq_comm]

/-- What is done in a batch for each pending path. -/
def work : Batch.Work Text Json :=
  { label := id, operation := fun path => Batch.ofAttempt (exportOf fs a path) }

lemma work_value (path : Text) :
    ((work fs a).operation path).value =
      match (exportOf fs a path).result with
      | .ok value => .returns value
      | .error failure => .fails failure := by
  refine (Batch.ofAttempt_value (exportOf fs a path)).trans ?_
  cases (exportOf fs a path).result <;> rfl

lemma addResults_value (exports : Exports) (paths : List Text) (hnodup : paths.Nodup)
    (hnew : ∀ path ∈ paths, path ∉ Keyed.keys exports) :
    (addResults name exports (paths.zip (paths.map (Batch.resultOf a.settings.batch (work fs a))))).value =
      exports ++ paths.filterMap (exportAt? fs a) := by
  induction paths generalizing exports with
  | nil => simp [addResults]
  | cons path rest ih =>
    obtain ⟨hpath, hrest⟩ := List.nodup_cons.mp hnodup
    rw [List.map_cons, List.zip_cons_cons, addResults, Noted.value_bind, List.filterMap_cons]
    have hvalue := work_value fs a path
    simp only [exportAt?]
    cases hresult : (exportOf fs a path).result with
    | ok value =>
      have hadd : (addResult name exports path (Batch.resultOf a.settings.batch (work fs a) path)).value =
          exports ++ [(path, value)] := by
        rw [hresult] at hvalue
        simp only [addResult, Batch.resultOf, hvalue, Noted.value_pure]
        exact Keyed.insert_of_notMem value (hnew path List.mem_cons_self)
      rw [hadd, ih _ hrest, List.append_assoc]
      · rfl
      · intro next hnext hmem
        rw [Keyed.keys, List.map_append, List.mem_append] at hmem
        rcases hmem with hmem | hmem
        · exact hnew next (List.mem_cons_of_mem _ hnext) hmem
        · obtain rfl := List.mem_singleton.mp hmem
          exact hpath hnext
    | error failure =>
      have hadd : (addResult name exports path (Batch.resultOf a.settings.batch (work fs a) path)).value =
          exports := by
        rw [hresult] at hvalue
        simp only [addResult, Batch.resultOf, hvalue]
        rfl
      rw [hadd, ih _ hrest]
      exact fun next hnext => hnew next (List.mem_cons_of_mem _ hnext)

lemma exportsInBatch_eq :
    exportsInBatch fs a = (do
      let start ← Attempt.ofExcept (a.start fs)
      let paths ← ExceptT.lift (pending start a.usage)
      let results ← Batch.run a.settings.batch (work fs a) paths
      ExceptT.lift (addResults a.usage.package start (paths.zip results))) :=
  rfl

/-- What the results of all pending paths add to the exports that are there. -/
lemma addResults_pending (start : Exports) :
    (addResults a.usage.package start ((pending start a.usage).value.zip
        ((pending start a.usage).value.map (Batch.resultOf a.settings.batch (work fs a))))).value =
      start ++ (pending start a.usage).value.filterMap (exportAt? fs a) := by
  refine addResults_value fs a a.usage.package start _ (nodup_pending _ _) fun path hpath => ?_
  exact Keyed.hasKey_eq_false.mp (mem_pending.mp hpath).2

/-- The exports in a batch: those that were there, and one for each pending path whose targets are found. -/
theorem exportsInBatch_result (hcontinue : a.settings.batch.continueOnError = true) :
    (exportsInBatch fs a).result =
      (a.start fs).map fun start => start ++ (pending start a.usage).value.filterMap (exportAt? fs a) := by
  rw [exportsInBatch_eq, Attempt.result_bind, Attempt.result_ofExcept]
  cases a.start fs with
  | error e => rfl
  | ok start =>
    have hrun := (Batch.run_result a.settings.batch (work fs a) (pending start a.usage).value).2 (.inl hcontinue)
    simp only [Except.bind, Attempt.result_bind, Attempt.result_lift, hrun, addResults_pending]
    rfl

/-- A batch that gives exports adds them for each pending path whose targets are found, whether or not a failure would
have ended it. -/
theorem exportsInBatch_ok {exports : Exports} (h : (exportsInBatch fs a).result = .ok exports) :
    ∃ start, a.start fs = .ok start ∧
      exports = start ++ (pending start a.usage).value.filterMap (exportAt? fs a) := by
  rw [exportsInBatch_eq, Attempt.result_bind, Attempt.result_ofExcept] at h
  obtain ⟨start, hstart, h⟩ := bind_ok_iff.mp h
  rw [Attempt.result_bind, Attempt.result_lift, Except.bind, Attempt.result_bind] at h
  obtain ⟨results, hrun, h⟩ := bind_ok_iff.mp h
  obtain rfl := (Batch.run_result a.settings.batch (work fs a) (pending start a.usage).value).1 results hrun
  rw [Attempt.result_lift, addResults_pending] at h
  exact ⟨start, hstart, (Except.ok.inj h).symm⟩

lemma skipped_addResults (exports : Exports) {paths : List Text} {path : Text} (hpath : path ∈ paths)
    {failure : Failure} (hfail : (exportOf fs a path).result = .error failure) :
    Notice.exportSkipped path name failure ∈
      (addResults name exports (paths.zip (paths.map (Batch.resultOf a.settings.batch (work fs a))))).notices := by
  induction paths generalizing exports with
  | nil => exact absurd hpath List.not_mem_nil
  | cons next rest ih =>
    rw [List.map_cons, List.zip_cons_cons, addResults, Noted.notices_bind, List.mem_append]
    rcases List.mem_cons.mp hpath with rfl | hrest
    · have hvalue := work_value fs a path
      rw [hfail] at hvalue
      left
      simp only [addResult, Batch.resultOf, hvalue]
      exact List.mem_cons_self
    · exact .inr (ih _ hrest)

/-- If no path is left out with a warning, then all recorded paths have exports. -/
theorem hasKey_of_not_skipped (hcontinue : a.settings.batch.continueOnError = true) {exports : Exports}
    (hresult : (exportsInBatch fs a).result = .ok exports)
    (hskipped : ∀ path failure, Notice.exportSkipped path a.usage.package failure ∉ (exportsInBatch fs a).notices) :
    ∀ path ∈ a.usage.importPaths, exports.hasKey path = true := by
  intro path hpath
  have hrun (start : Exports) :=
    (Batch.run_result a.settings.batch (work fs a) (pending start a.usage).value).2 (.inl hcontinue)
  rw [exportsInBatch_result fs a hcontinue] at hresult
  obtain ⟨start, hstart, rfl⟩ := map_ok_iff.mp hresult
  rw [Keyed.hasKey_iff, Keyed.keys_append, List.mem_append]
  by_cases hkey : start.hasKey path = true
  · exact .inl (Keyed.hasKey_iff.mp hkey)
  · have hpending : path ∈ (pending start a.usage).value :=
      mem_pending.mpr ⟨hpath, Bool.not_eq_true _ ▸ hkey⟩
    cases hexport : (exportOf fs a path).result with
    | ok value =>
      refine .inr (List.mem_map.mpr ⟨(path, value), List.mem_filterMap.mpr ⟨path, hpending, ?_⟩, rfl⟩)
      rw [exportAt?, hexport]
    | error failure =>
      refine absurd ?_ (hskipped path failure)
      rw [exportsInBatch_eq, Attempt.notices_bind, Attempt.result_ofExcept, hstart, List.mem_append]
      right
      dsimp only
      rw [Attempt.notices_bind, Attempt.result_lift, List.mem_append]
      right
      dsimp only
      rw [Attempt.notices_bind, hrun start, List.mem_append]
      right
      dsimp only
      rw [Attempt.notices_lift]
      exact skipped_addResults fs a _ start hpending hexport

end Assembly

namespace Json

lemma compactMembers_append (members others : List (Text × Json)) :
    compactMembers (members ++ others) = compactMembers members ++ compactMembers others := by
  induction members with
  | nil => rfl
  | cons member rest ih => simp only [List.cons_append, compactMembers, ih, List.append_assoc]

/-- A map that says no more than its beginning, to the letter, has nothing after it. -/
lemma compact_append {start added : List (Text × Json)}
    (h : (object (start ++ added)).compact = (object start).compact) : added = [] := by
  cases added with
  | nil => rfl
  | cons member rest =>
    have hlength := congrArg List.length h
    obtain ⟨key, value⟩ := member
    cases start with
    | nil =>
      simp only [List.nil_append, compact, compactMember, quote, List.length_append, List.length_cons, Text.ofString,
        List.length_map] at hlength
      simp at hlength
      omega
    | cons first others =>
      simp only [List.cons_append, compact, compactMembers_append, compactMembers, compactMember, List.length_append,
        Text.ofString, List.length_map] at hlength
      simp at hlength

end Json

/-- The targets of an export: a single one, or an object of conditions. -/
inductive IsTarget : Json → Prop
  | single (target : Text) : IsTarget (.string target)
  | conditions (members : List (Text × Json)) : IsTarget (.object members)

lemma Json.head_compact_target {target : Json} (h : IsTarget target) :
    target.compact.head? ≠ some (CodePoint.ofChar 'n') := by
  cases h with
  | single t =>
    rw [compact]
    · exact (by decide : some (CodePoint.ofChar '"') ≠ some (CodePoint.ofChar 'n'))
    all_goals simp
  | conditions members =>
    cases members <;> exact (by decide : some (CodePoint.ofChar '\x7b') ≠ some (CodePoint.ofChar 'n'))

lemma Json.compact_null_ne {target : Json} (h : IsTarget target) (key : Text) (rest : List (Text × Json)) :
    (object [(key, .null)]).compact ≠ (object ((key, target) :: rest)).compact := by
  intro heq
  simp only [compact, compactMember, compactMembers, List.append_assoc, List.append_cancel_left_eq] at heq
  have hhead := congrArg List.head? heq
  have hne : target.compact ≠ [] := by
    intro hnil
    cases h with
    | single t =>
      rw [compact] at hnil
      · cases hnil
      all_goals simp
    | conditions members => cases members <;> cases hnil
  rw [List.head?_append_of_ne_nil _ hne] at hhead
  exact head_compact_target h hhead.symm

namespace Conditions

lemma sublist_items (cs : Conditions) : (cs.items.map Prod.fst).Sublist Condition.all := by
  unfold items
  induction Condition.all with
  | nil => exact List.Sublist.refl _
  | cons c rest ih =>
    rw [List.filterMap_cons]
    cases cs.target? c with
    | none => exact ih.cons c
    | some target => exact ih.cons_cons c

lemma keys_items (cs : Conditions) : (cs.items.map fun p => p.1.key).Nodup := by
  have hkeys : (Condition.all.map Condition.key).Nodup := by decide
  have hmap : (cs.items.map fun p => p.1.key) = (cs.items.map Prod.fst).map Condition.key := by
    rw [List.map_map]
    rfl
  rw [hmap]
  exact hkeys.sublist ((sublist_items cs).map _)

lemma kept_toJson (cs : Conditions) : cs.toJson.Kept := by
  rw [toJson, Json.Kept, Json.keptMembers_iff]
  constructor
  · have h := keys_items cs
    simpa [Keyed.keys, Function.comp_def] using h
  · intro member hmember
    obtain ⟨p, -, rfl⟩ := List.mem_map.mp hmember
    trivial

lemma toExport_spec (cs : Conditions) : cs.toExport.Kept ∧ IsTarget cs.toExport := by
  unfold toExport
  split
  · exact ⟨trivial, .single _⟩
  · exact ⟨kept_toJson cs, .conditions _⟩

end Conditions

lemma Json.kept_insert {members : List (Text × Json)} {value : Json} (key : Text) (hmembers : (object members).Kept)
    (hvalue : value.Kept) : (object (Keyed.insert key value members)).Kept := by
  rw [Kept, keptMembers_iff] at hmembers ⊢
  refine ⟨Keyed.nodup_keys_insert key value hmembers.1, fun member hmember => ?_⟩
  rcases Keyed.mem_insert hmember with rfl | h
  · exact hvalue
  · exact hmembers.2 member h

namespace Exports

lemma kept_ofJson {value : Json} (h : value.Kept) : (Json.object (ofJson value)).Kept := by
  have hsingle : (Json.object [(Text.ofString ".", value)]).Kept := by
    simp [Json.Kept, Json.KeptMembers, Json.KeptMember, Keyed.keys, h]
  unfold ofJson
  split
  · split_ifs
    · exact hsingle
    · exact h
  · exact hsingle

/-- A map by subpaths: the reader does not take it for the export of the package itself. -/
def BySubpaths (exports : Exports) : Prop :=
  exports = [] ∨ ∃ key ∈ exports.keys, Text.startsWith key "." = true

lemma ofJson_object {exports : Exports} (h : exports.BySubpaths) : ofJson (.object exports) = exports := by
  unfold ofJson
  have hcond : ¬(!exports.isEmpty && !exports.any fun p => Text.startsWith p.1 ".") = true := by
    rcases h with rfl | ⟨key, hkey, hdot⟩
    · simp
    · obtain ⟨p, hp, rfl⟩ := List.mem_map.mp hkey
      have hany : (exports.any fun p => Text.startsWith p.1 ".") = true := List.any_eq_true.mpr ⟨p, hp, hdot⟩
      simp [hany]
  exact if_neg hcond

lemma bySubpaths_ofJson (value : Json) : (ofJson value).BySubpaths := by
  have hsingle (v : Json) : BySubpaths [(Text.ofString ".", v)] := .inr ⟨_, List.mem_singleton.mpr rfl, rfl⟩
  unfold ofJson
  split
  · rename_i members
    split_ifs with h
    · exact hsingle _
    · by_cases hempty : members = []
      · exact .inl hempty
      · simp only [Bool.and_eq_true, Bool.not_eq_true', List.isEmpty_eq_false_iff, not_and, Bool.not_eq_false] at h
        obtain ⟨p, hp, hdot⟩ := List.any_eq_true.mp (h hempty)
        exact .inr ⟨p.1, List.mem_map_of_mem hp, hdot⟩
  · exact hsingle _

lemma BySubpaths.append {start added : Exports} (hstart : start.BySubpaths)
    (hadded : ∀ key ∈ added.keys, Text.startsWith key "." = true) : BySubpaths (start ++ added) := by
  rcases hstart with rfl | ⟨key, hkey, hdot⟩
  · cases added with
    | nil => exact .inl rfl
    | cons p rest => exact .inr ⟨p.1, List.mem_cons_self, hadded _ List.mem_cons_self⟩
  · exact .inr ⟨key, by rw [Keyed.keys_append]; exact List.mem_append_left _ hkey, hdot⟩

end Exports

namespace Baseline

/-- A map whose first export is that of the package itself. -/
structure Rooted (exports : Exports) : Prop where
  kept : (Json.object exports).Kept
  root : ∃ target rest, IsTarget target ∧ exports = (Text.ofString ".", target) :: rest

lemma Rooted.insert {exports : Exports} (h : Rooted exports) (file : Text) (cs : Conditions) :
    Rooted (Keyed.insert file cs.toExport exports) := by
  obtain ⟨htargetKept, htarget⟩ := cs.toExport_spec
  refine ⟨Json.kept_insert file h.kept htargetKept, ?_⟩
  obtain ⟨target, rest, hroot, rfl⟩ := h.root
  by_cases hfile : Text.ofString "." = file
  · exact ⟨_, rest, htarget, by rw [Keyed.insert, if_pos hfile, hfile]⟩
  · exact ⟨target, _, hroot, by rw [Keyed.insert, if_neg hfile]⟩

lemma Rooted.foldlM {fs : FileSystem} {package : Path} {sources : List Text} {start found : Exports}
    (hstart : Rooted start) (files : List (Text × Option Text))
    (h : files.foldlM (fun found (p : Text × Option Text) => do
      let conditions ← replaced fs package sources p.1 p.2
      return Keyed.insert p.1 conditions.toExport found) start = .ok found) : Rooted found := by
  refine foldlM_preserves hstart ?_ h
  intro file _ exports next hexports hnext
  obtain ⟨cs, -, hinserted⟩ := bind_ok_iff.mp hnext
  obtain rfl := Except.ok.inj hinserted
  exact hexports.insert file.1 cs

lemma rooted_exports {fs : FileSystem} {package : Path} {m : Manifest} {sources : List Text} {found : Exports}
    (h : exports fs package m sources = .ok found) : Rooted found := by
  unfold exports at h
  obtain ⟨conditions, -, hfold⟩ := bind_ok_iff.mp h
  have hstart : Rooted [(Text.ofString ".", if conditions.isEmpty then usualRoot else conditions.toExport)] := by
    have htarget : Json.Kept (if conditions.isEmpty then usualRoot else conditions.toExport) ∧
        IsTarget (if conditions.isEmpty then usualRoot else conditions.toExport) := by
      split_ifs
      · exact ⟨trivial, .single _⟩
      · exact conditions.toExport_spec
    refine ⟨?_, _, [], htarget.2, rfl⟩
    rw [Json.Kept, Json.keptMembers_iff]
    exact ⟨List.nodup_singleton _, by simpa using htarget.1⟩
  exact hstart.foldlM _ hfold

end Baseline

namespace Assembly

variable {fs : FileSystem} {a : Assembly}

/-- What is there before any path is added: the exports of the manifest, or a map that begins with the export of the
package itself. -/
lemma start_cases {start : Exports} (h : a.start fs = .ok start) :
    (∃ value, a.manifest.exports = some value ∧ start = Exports.ofJson value) ∨
      a.manifest.exports = none ∧ Baseline.Rooted start := by
  unfold Assembly.start at h
  cases hexports : a.manifest.exports with
  | none =>
    rw [hexports] at h
    exact .inr ⟨rfl, Baseline.rooted_exports h⟩
  | some value =>
    rw [hexports] at h
    exact .inl ⟨value, rfl, (Except.ok.inj h).symm⟩

lemma kept_start {start : Exports} (h : a.start fs = .ok start) (hkept : ∀ v, a.manifest.exports = some v → v.Kept) :
    (Json.object start).Kept := by
  rcases start_cases h with ⟨value, hvalue, rfl⟩ | ⟨-, hrooted⟩
  · exact Exports.kept_ofJson (hkept value hvalue)
  · exact hrooted.kept

lemma bySubpaths_start {start : Exports} (h : a.start fs = .ok start) : start.BySubpaths := by
  rcases start_cases h with ⟨value, -, rfl⟩ | ⟨-, hrooted⟩
  · exact Exports.bySubpaths_ofJson value
  · obtain ⟨target, rest, -, rfl⟩ := hrooted.root
    exact .inr ⟨_, List.mem_cons_self, rfl⟩

lemma exportOf_kept {path : Text} {value : Json} (h : (exportOf fs a path).result = .ok value) : value.Kept := by
  rw [exportOf, Attempt.result_map] at h
  obtain ⟨cs, -, rfl⟩ := map_ok_iff.mp h
  exact cs.toExport_spec.1

lemma entries_spec (fs : FileSystem) (a : Assembly) (start : Exports) :
    Keyed.keys ((pending start a.usage).value.filterMap (exportAt? fs a)) <+ (pending start a.usage).value ∧
      ∀ p ∈ (pending start a.usage).value.filterMap (exportAt? fs a), p.2.Kept := by
  constructor
  · induction (pending start a.usage).value with
    | nil => exact List.Sublist.refl _
    | cons path rest ih =>
      rw [List.filterMap_cons]
      cases hentry : exportAt? fs a path with
      | none => exact ih.cons path
      | some p =>
        rw [Keyed.keys, List.map_cons, ((exportAt?_eq_some fs a).mp hentry).1]
        exact ih.cons_cons path
  · intro p hp
    obtain ⟨path, -, hentry⟩ := List.mem_filterMap.mp hp
    exact exportOf_kept ((exportAt?_eq_some fs a).mp hentry).2

/-- The exports of a batch are the start and exports of pending paths after it; they have distinct keys and kept
values. -/
theorem exportsInBatch_spec (hkept : ∀ v, a.manifest.exports = some v → v.Kept) {exports : Exports}
    (h : (exportsInBatch fs a).result = .ok exports) :
    ∃ start added, a.start fs = .ok start ∧ exports = start ++ added ∧
      added = (pending start a.usage).value.filterMap (exportAt? fs a) ∧ (Json.object exports).Kept := by
  obtain ⟨start, hstart, rfl⟩ := exportsInBatch_ok fs a h
  refine ⟨start, _, hstart, rfl, rfl, ?_⟩
  obtain ⟨hkeys, hvalues⟩ := entries_spec fs a start
  have hstartKept := kept_start hstart hkept
  rw [Json.Kept, Json.keptMembers_iff] at hstartKept ⊢
  constructor
  · rw [Keyed.keys_append]
    refine List.nodup_append.mpr ⟨hstartKept.1, (nodup_pending _ _).sublist hkeys, ?_⟩
    rintro key hkey other hother rfl
    have hpending := mem_pending.mp (hkeys.subset hother)
    exact Keyed.hasKey_eq_false.mp hpending.2 hkey
  · intro p hp
    exact (List.mem_append.mp hp).elim (hstartKept.2 p) (hvalues p)

/-- Assembled exports that a manifest holds already, to the letter, are those that its own member means, and no path
was added. -/
theorem ofJson_of_isIn {members : Json.Members} {start added : Exports} (hstart : a.start fs = .ok start)
    (hexports : a.manifest.exports = Manifest.exportsOf members)
    (h : Exports.isIn (start ++ added) members = true) :
    ∃ value, members.value? "exports" = some value ∧ a.manifest.exports = some value ∧
      start = Exports.ofJson value ∧ added = [] := by
  unfold Exports.isIn at h
  cases hmember : members.value? "exports" with
  | none =>
    rw [hmember] at h
    cases h
  | some value =>
    rw [hmember] at h
    have hcompact := of_decide_eq_true h
    rcases start_cases hstart with ⟨v, hv, rfl⟩ | ⟨hnone, hrooted⟩
    · have hvalue : v = value := by
        rw [hexports, Manifest.exportsOf, hmember] at hv
        split at hv
        · cases hv
        · exact (Option.some.inj hv).symm
      subst hvalue
      exact ⟨v, rfl, hv, rfl, Json.compact_append hcompact.symm⟩
    · -- Only a null is passed over, and no target is written like one.
      obtain ⟨target, rest, htarget, rfl⟩ := hrooted.root
      obtain rfl : value = .null := by
        rw [hexports, Manifest.exportsOf, hmember] at hnone
        split at hnone
        · rename_i heq
          exact Option.some.inj heq
        · cases hnone
      rw [List.cons_append] at hcompact
      exact absurd hcompact (Json.compact_null_ne htarget _ _)

end Assembly

end PackageExports
