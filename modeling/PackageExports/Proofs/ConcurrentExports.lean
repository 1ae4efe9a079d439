import PackageExports.Proofs.AddedExports
import PackageExports.Proofs.Schedules

/-!
# Exports in any order

The paths of a package are worked on side by side. `Assembly.Concurrent` holds of what the assembly comes to in some
order in which the calls for the pending paths begin and return. All orders come to the same: the exports that were
there and then, in the order of the recorded paths, one for each pending path whose targets are found. This is what
the batch of the assembly gives, and, if all targets are found, what the assembly of one path after the other gives.

Main results: `Assembly.concurrent_eq`, `Assembly.concurrent_refines_sequential`.
-/

namespace PackageExports

namespace Assembly

variable (fs : FileSystem) (a : Assembly)

/-- What the assembly comes to in an order of the calls in which no path is given up. -/
inductive Concurrent : Except Failure Exports → Prop
  | refused {e : Failure} : a.start fs = .error e → Concurrent (.error e)
  | ended {start : Exports} {moves : List Move} {s : Progress Text} {r : Except Failure (List (ItemResult Json))} :
      a.start fs = .ok start → (∀ m ∈ moves, m.inTime = true) →
      (Progress.initial (pending start a.usage).value).after? a.settings.batch (work fs a) false moves = some s →
      s.outcome? a.settings.batch (work fs a) = some r →
      Concurrent (r.map fun results =>
        (addResults a.usage.package start ((pending start a.usage).value.zip results)).value)

lemma work_hangs (path : Text) : (work fs a).hangs path = false := by
  unfold Batch.Work.hangs
  rw [work_value]
  cases (exportOf fs a path).result <;> rfl

variable {fs a} {start : Exports} {moves : List Move} {s : Progress Text}

/-- An order of the calls goes on until all paths have results. -/
lemma order_goes_on (hcontinue : a.settings.batch.continueOnError = true) (hmoves : ∀ m ∈ moves, m.inTime = true)
    (h : (Progress.initial (pending start a.usage).value).after? a.settings.batch (work fs a) false moves = some s) :
    moves.length ≤ 3 * (pending start a.usage).value.length ∧
      ((s.outcome? a.settings.batch (work fs a)).isSome = true ∨
        ∃ m, m.inTime = true ∧ (s.move? a.settings.batch (work fs a) false m).isSome = true) := by
  have hvalid := (Progress.valid_initial a.settings.batch (work fs a) _).after h
  obtain ⟨hin, hlength⟩ := Progress.after_inTime hmoves h (Progress.inTime_initial _)
  rw [Progress.left_initial] at hlength
  refine ⟨by omega, ?_⟩
  by_cases hleft : s.left = 0
  · left
    rw [Progress.outcome_inTime hcontinue hvalid hin, if_pos hleft]
    rfl
  · right
    exact Progress.exists_move hcontinue (fun path _ => work_hangs fs a path) hvalid hin hleft

/-- All orders of the calls come to the same. -/
theorem concurrent_eq (hcontinue : a.settings.batch.continueOnError = true) {r : Except Failure Exports}
    (h : Concurrent fs a r) :
    r = (a.start fs).map fun start => start ++ (pending start a.usage).value.filterMap (exportAt? fs a) := by
  cases h with
  | refused hstart => rw [hstart, Except.map]
  | @ended start moves s r hstart hmoves hafter houtcome =>
    have hvalid := (Progress.valid_initial a.settings.batch (work fs a) _).after hafter
    obtain ⟨hin, -⟩ := Progress.after_inTime hmoves hafter (Progress.inTime_initial _)
    rw [Progress.outcome_inTime hcontinue hvalid hin] at houtcome
    split_ifs at houtcome
    obtain rfl := Option.some.inj houtcome
    rw [hstart, Except.map, Except.map, addResults_pending]

lemma concurrent_exportsInBatch (hcontinue : a.settings.batch.continueOnError = true) :
    Concurrent fs a (exportsInBatch fs a).result := by
  rw [exportsInBatch_result fs a hcontinue]
  cases hstart : a.start fs with
  | error e => exact .refused hstart
  | ok start =>
    have hvalid := Progress.valid_initial a.settings.batch (work fs a) (pending start a.usage).value
    obtain ⟨moves, s, hmoves, hafter, hleft⟩ := Progress.exists_course false hcontinue
      (fun path _ => work_hangs fs a path) hvalid (Progress.inTime_initial _)
    obtain ⟨hin, -⟩ := Progress.after_inTime hmoves hafter (Progress.inTime_initial _)
    have houtcome := Progress.outcome_inTime hcontinue (hvalid.after hafter) hin
    rw [if_pos hleft] at houtcome
    have hended := Concurrent.ended hstart hmoves hafter houtcome
    rwa [Except.map, addResults_pending] at hended

lemma exports_result_of_forall (h : ∀ start, a.start fs = .ok start → ∀ path ∈ a.usage.importPaths,
      start.hasKey path = false → ∃ value, (exportOf fs a path).result = .ok value) :
    (exports fs a).result =
      (a.start fs).map fun start => start ++ (pending start a.usage).value.filterMap (exportAt? fs a) := by
  cases hstart : a.start fs with
  | error e =>
    rw [exports, Attempt.result_bind, Attempt.result_ofExcept, hstart]
    rfl
  | ok start =>
    refine (exports_eq_ok fs a).mpr ⟨start, hstart, fun path hpath => ?_, rfl⟩
    obtain ⟨hrecorded, hkey⟩ := mem_pending.mp hpath
    obtain ⟨value, hvalue⟩ := h start hstart path hrecorded hkey
    rw [exportAt?, hvalue]
    rfl

variable (fs a) in
/-- If failures are collected, every order of the calls for the pending paths ends, and it comes to the exports that
were there and, in the order of the recorded paths, those of the pending paths that have one. If none fails, this is
what the assembly of one path after the other gives. -/
theorem concurrent_refines_sequential (hcontinue : a.settings.batch.continueOnError = true) :
    (∀ start moves s, a.start fs = .ok start → (∀ m ∈ moves, m.inTime = true) →
      (Progress.initial (pending start a.usage).value).after? a.settings.batch (work fs a) false moves = some s →
        moves.length ≤ 3 * (pending start a.usage).value.length ∧
          ((s.outcome? a.settings.batch (work fs a)).isSome = true ∨
            ∃ m, m.inTime = true ∧ (s.move? a.settings.batch (work fs a) false m).isSome = true)) ∧
    Concurrent fs a (exportsInBatch fs a).result ∧
    ∀ r, Concurrent fs a r →
      r = ((a.start fs).map fun start : Exports => start ++
        (Text.dedup (a.usage.importPaths.filter fun path => !start.hasKey path)).filterMap (exportAt? fs a)) ∧
      ((∀ start, a.start fs = .ok start → ∀ path ∈ a.usage.importPaths, start.hasKey path = false →
        ∃ value, (exportOf fs a path).result = .ok value) → r = (exports fs a).result) := by
  refine ⟨fun start moves s _ hmoves hafter => order_goes_on hcontinue hmoves hafter,
    concurrent_exportsInBatch hcontinue, fun r hr => ?_⟩
  have heq := concurrent_eq hcontinue hr
  constructor
  · simpa only [pending_value] using heq
  · intro hall
    rw [exports_result_of_forall hall]
    exact heq

/-- A package without exports of which three paths are recorded; one of them leads to a file outside the package. -/
def leadingOutside : Assembly where
  package := ⟨.relative, ["p"]⟩
  manifest := { exports := some (.object []) }
  usage := { package := "p", importPaths := ["./a", "/x.js", "./b"] }

/-- An order in which the last path has its result first. -/
def lastFirst : List Move :=
  [.letIn 2, .letIn 0, .call 2, .letIn 1, .call 1, .finish 2, .call 0, .finish 1, .finish 0]

/-- In an order in which the last path comes first, the path that fails is left out, and the other two keep their
order. -/
theorem concurrent_refines_sequential_lastFirst :
    ∃ r exports, (((Progress.initial (pending [] leadingOutside.usage).value).after? leadingOutside.settings.batch
        (work (FileSystem.empty.put ["x.js"] (.file [])) leadingOutside) false lastFirst).bind fun s =>
          s.outcome? leadingOutside.settings.batch (work (FileSystem.empty.put ["x.js"] (.file [])) leadingOutside)) =
        some (.ok r) ∧
      (addResults "p" [] ((pending [] leadingOutside.usage).value.zip r)).value = exports ∧
      Keyed.keys exports = [Text.ofString "./a", "./b"] := by
  set fs := FileSystem.empty.put ["x.js"] (.file [])
  obtain ⟨-, -, hall⟩ := concurrent_refines_sequential fs leadingOutside rfl
  have hends : (((Progress.initial (pending [] leadingOutside.usage).value).after? leadingOutside.settings.batch
      (work fs leadingOutside) false lastFirst).bind fun s =>
        s.outcome? leadingOutside.settings.batch (work fs leadingOutside)).isSome = true := by decide +kernel
  obtain ⟨r, hr⟩ := Option.isSome_iff_exists.mp hends
  obtain ⟨s, hafter, houtcome⟩ := Option.bind_eq_some_iff.mp hr
  have hstart : leadingOutside.start fs = .ok [] := rfl
  obtain ⟨heq, -⟩ := hall _ (.ended hstart (by decide) hafter houtcome)
  rw [hstart] at heq
  cases r with
  | error e => cases heq
  | ok results =>
    refine ⟨results, _, hr, Except.ok.inj heq, ?_⟩
    decide +kernel

end Assembly

end PackageExports
