import Mathlib.Data.List.Perm.Basic
import Mathlib.Tactic.Lemma
import PackageExports.Batch.Basic
import PackageExports.Proofs.Actions

/-!
# The results of a batch

`Batch.resultOf` is what becomes of one item by itself. However the items are let in, a batch that is not ended early
gives each item that result, in the order of the items.
-/

namespace PackageExports

open scoped List

variable {ι α β : Type}

lemma Noted.value_mapM (f : ι → Noted β) (items : List ι) :
    (items.mapM f).value = items.map fun item => (f item).value := by
  induction items with
  | nil => rfl
  | cons item rest ih => rw [List.mapM_cons, value_bind, value_bind, ih, List.map_cons, value_pure]

/-- The items that get their results in a step. -/
def Round.finished (hangs : ι → Bool) : Round ι → List ι
  | .enter items => items.filter fun item => !hangs item
  | .giveUp items => items

namespace Batch

def resultOf (settings : BatchSettings) (w : Work ι α) (item : ι) : ItemResult α :=
  match (w.operation item).value with
  | .returns value =>
    { label := w.label item, success := w.accept value, value := some value, timed := settings.collectStats }
  | .fails failure =>
    { label := w.label item, success := false, failure := some failure, timed := settings.collectStats }
  | .hangs =>
    { label := w.label item, success := false, failure := some (.timeout settings.operationTimeout)
      timed := settings.collectStats }

lemma ofAttempt_value (x : Attempt α) :
    (ofAttempt x).value =
      match x.result with
      | .ok value => .returns value
      | .error failure => .fails failure := by
  simp only [ofAttempt, Noted.value_bind, Attempt.result]
  cases x.run.value <;> rfl

/-- Every item gets its result in one step of a batch. -/
lemma finished_rounds {slots : ℕ} (hslots : 0 < slots) (hangs : ι → Bool) (waiting stuck : List ι) :
    ((rounds slots hangs waiting stuck).flatMap (Round.finished hangs)).Perm (waiting ++ stuck) := by
  fun_induction rounds slots hangs waiting stuck with
  | case1 waiting free hfull =>
    have hwaiting : waiting = [] := hfull.resolve_right (by simp only [free, List.length_nil]; omega)
    simp [hwaiting]
  | case2 waiting stuck free hfull hstuck ih =>
    rw [List.flatMap_cons, Round.finished]
    have h := ih.append_left stuck
    rw [List.append_nil] at h
    exact h.trans List.perm_append_comm
  | case3 waiting stuck free hfree entering ih =>
    rw [List.flatMap_cons, Round.finished]
    refine (ih.append_left _).trans ?_
    have hentering : (entering.filter (fun item => !hangs item) ++ entering.filter hangs).Perm entering := by
      have h := List.filter_append_perm hangs entering
      exact List.perm_append_comm.trans h
    have hsplit : entering ++ waiting.drop free = waiting := List.take_append_drop free waiting
    calc
      entering.filter (fun item => !hangs item) ++ (waiting.drop free ++ (stuck ++ entering.filter hangs))
      _ ~ entering.filter (fun item => !hangs item) ++ entering.filter hangs ++ (waiting.drop free ++ stuck) := by
        rw [List.append_assoc, ← List.append_assoc (waiting.drop free)]
        exact List.perm_append_comm.append_left _
      _ ~ entering ++ (waiting.drop free ++ stuck) := hentering.append_right _
      _ = waiting ++ stuck := by rw [← List.append_assoc, hsplit]

/-- Whether the items of a step are given up only if they hang. -/
def GivesUpHanging (hangs : ι → Bool) (round : Round ι) : Prop :=
  ∀ items, round = .giveUp items → ∀ item ∈ items, hangs item = true

lemma givesUpHanging_rounds (slots : ℕ) (hangs : ι → Bool) (waiting stuck : List ι)
    (hstuck : ∀ item ∈ stuck, hangs item = true) :
    ∀ round ∈ rounds slots hangs waiting stuck, GivesUpHanging hangs round := by
  fun_induction rounds slots hangs waiting stuck with
  | case1 => simp
  | case2 waiting stuck free hfull hne ih =>
    refine List.forall_mem_cons.mpr ⟨?_, ih (by simp)⟩
    intro items hitems
    obtain rfl := Round.giveUp.inj hitems
    exact hstuck
  | case3 waiting stuck free hfree entering ih =>
    refine List.forall_mem_cons.mpr ⟨fun items hitems => (by cases hitems), ih ?_⟩
    intro item hitem
    exact (List.mem_append.mp hitem).elim (hstuck item) fun h => (List.mem_filter.mp h).2

lemma enter_value (settings : BatchSettings) (w : Work ι α) (item : ι) :
    (enter settings w item).value = if w.hangs item then none else some (resultOf settings w item) := by
  unfold enter Work.hangs resultOf
  rw [Noted.value_bind]
  cases (w.operation item).value <;> rfl

lemma giveUp_value (settings : BatchSettings) (w : Work ι α) {item : ι} (h : w.hangs item = true) :
    (giveUp settings w item).value = resultOf settings w item := by
  unfold Work.hangs at h
  unfold resultOf
  cases hvalue : (w.operation item).value <;> rw [hvalue] at h <;> first | rfl | cases h

lemma perform_value (settings : BatchSettings) (w : Work ι α) {round : Round (ℕ × ι)}
    (hround : GivesUpHanging (fun p => w.hangs p.2) round) :
    (perform settings w round).value =
      (round.finished fun p => w.hangs p.2).map fun p => (p.1, resultOf settings w p.2) := by
  cases round with
  | enter items =>
    rw [perform, Noted.value_bind, Noted.value_mapM, Noted.value_pure, Round.finished]
    clear hround
    induction items with
    | nil => rfl
    | cons p items ih =>
      obtain ⟨place, item⟩ := p
      rw [List.map_cons, List.filterMap_cons, ih, Noted.value_bind, Noted.value_pure, enter_value]
      cases hhangs : w.hangs item <;> simp [hhangs]
  | giveUp items =>
    rw [perform, Noted.value_mapM, Round.finished]
    refine List.map_congr_left fun p hp => ?_
    rw [Noted.value_bind, Noted.value_pure, giveUp_value settings w (hround items rfl p hp)]

/-- The failure that ends a batch with these results. -/
def stop? (settings : BatchSettings) (results : List (ℕ × ItemResult α)) : Option (Text × Failure) :=
  if settings.continueOnError then none else firstFailure? results

lemma stop?_append (settings : BatchSettings) (results others : List (ℕ × ItemResult α)) :
    stop? settings (results ++ others) = (stop? settings results).or (stop? settings others) := by
  unfold stop? firstFailure?
  split
  · rfl
  · rw [List.findSome?_append]

lemma stop?_eq_none {settings : BatchSettings} {results : List (ℕ × ItemResult α)}
    (h : settings.continueOnError = true ∨ ∀ p ∈ results, p.2.failure = none) : stop? settings results = none := by
  unfold stop?
  split_ifs with hcontinue
  · rfl
  · rw [firstFailure?, List.findSome?_eq_none_iff]
    intro p hp
    dsimp only
    rw [h.resolve_left hcontinue p hp, Option.map_none]

/-- What steps with these results give: all of them, unless a failure ends the batch. -/
def settle (settings : BatchSettings) (results : List (ℕ × ItemResult α)) :
    Except Failure (List (ℕ × ItemResult α)) :=
  match stop? settings results with
  | some (label, failure) => .error (.aborted label failure)
  | none => .ok results

/-- The steps of a batch give the results of their items. -/
lemma performAll_result (settings : BatchSettings) (w : Work ι α) (rounds : List (Round (ℕ × ι)))
    (hrounds : ∀ round ∈ rounds, GivesUpHanging (fun p => w.hangs p.2) round) :
    (performAll settings w rounds).result = settle settings
      ((rounds.flatMap (Round.finished fun p => w.hangs p.2)).map fun p => (p.1, resultOf settings w p.2)) := by
  induction rounds with
  | nil => rw [List.flatMap_nil, List.map_nil, settle, stop?_eq_none (by simp)]; rfl
  | cons round rest ih =>
    obtain ⟨hround, hrest⟩ := List.forall_mem_cons.mp hrounds
    have hlater := ih hrest
    simp only [performAll, Attempt.result_bind, Attempt.result_lift, perform_value settings w hround, Except.bind,
      List.flatMap_cons, List.map_append]
    rw [← stop?, settle, stop?_append]
    cases stop? settings ((round.finished fun p => w.hangs p.2).map fun p => (p.1, resultOf settings w p.2)) with
    | some stopped => rfl
    | none =>
      rw [settle] at hlater
      simp only [Attempt.result_bind, hlater, Option.none_or]
      split <;> rfl

lemma sorted_results (f : ι → β) (items : List ι) {results : List (ℕ × β)}
    (h : results ~ items.zipIdx.map fun p => (p.2, f p.1)) :
    (results.mergeSort fun a b => a.1 ≤ b.1).map Prod.snd = items.map f := by
  have hperm : results.mergeSort (fun a b => a.1 ≤ b.1) ~ items.zipIdx.map fun p => (p.2, f p.1) :=
    (List.mergeSort_perm results _).trans h
  have hsorted : (results.mergeSort fun a b => a.1 ≤ b.1).Pairwise fun a b => a.1 ≤ b.1 := by
    have hle : (results.mergeSort fun a b => decide (a.1 ≤ b.1)).Pairwise fun a b => decide (a.1 ≤ b.1) = true :=
      List.pairwise_mergeSort (by simp only [decide_eq_true_eq]; omega)
        (by simp only [Bool.or_eq_true, decide_eq_true_eq]; omega) results
    simpa only [decide_eq_true_eq] using hle
  have hplaces : (items.zipIdx.map fun p => (p.2, f p.1)).Pairwise fun a b => a.1 ≤ b.1 := by
    have hrange : (items.zipIdx.map Prod.snd).Pairwise (· ≤ ·) := by
      rw [List.zipIdx_map_snd]
      exact List.pairwise_le_range'
    rw [List.pairwise_map] at hrange ⊢
    exact hrange
  have hsame : ∀ a b, a ∈ results.mergeSort (fun a b => a.1 ≤ b.1) → b ∈ items.zipIdx.map (fun p => (p.2, f p.1)) →
      a.1 ≤ b.1 → b.1 ≤ a.1 → a = b := by
    intro a b ha hb hab hba
    obtain ⟨p, hp, rfl⟩ := List.mem_map.mp (hperm.mem_iff.mp ha)
    obtain ⟨q, hq, rfl⟩ := List.mem_map.mp hb
    have hplace : p.2 = q.2 := Nat.le_antisymm hab hba
    rw [List.mem_zipIdx_iff_getElem?] at hp hq
    rw [hplace, hq] at hp
    rw [hplace, Option.some.inj hp]
  rw [List.Perm.eq_of_pairwise hsame hsorted hplaces hperm, List.map_map]
  have hitems : items.zipIdx.map (f ∘ Prod.fst) = items.map f := by
    rw [← List.map_map, List.zipIdx_map_fst]
  exact hitems

/-- The items of a batch that have their results after all its steps, in the order in which they get them. -/
def performed (settings : BatchSettings) (w : Work ι α) (items : List ι) : List (ℕ × ι) :=
  (rounds settings.concurrency (fun p => w.hangs p.2) (items.zipIdx.map fun p => (p.2, p.1)) []).flatMap
    (Round.finished fun p => w.hangs p.2)

lemma performed_perm (settings : BatchSettings) (w : Work ι α) (items : List ι) :
    performed settings w items ~ items.zipIdx.map fun p => (p.2, p.1) := by
  have hfinished := finished_rounds settings.concurrency.2 (fun p : ℕ × ι => w.hangs p.2)
    (items.zipIdx.map fun p => (p.2, p.1)) []
  rwa [List.append_nil] at hfinished

lemma performed_results (settings : BatchSettings) (w : Work ι α) (items : List ι) :
    (performed settings w items).map (fun p => (p.1, resultOf settings w p.2)) ~
      items.zipIdx.map fun p => (p.2, resultOf settings w p.1) := by
  refine ((performed_perm settings w items).map _).trans (List.Perm.of_eq ?_)
  rw [List.map_map]
  rfl

/-- A batch gives each item its own result, in the order of the items, unless a failure ends it. -/
lemma run_eq (settings : BatchSettings) (w : Work ι α) (items : List ι) :
    (run settings w items).result =
      (settle settings ((performed settings w items).map fun p => (p.1, resultOf settings w p.2))).map
        fun _ => items.map (resultOf settings w) := by
  have hperformed := performAll_result settings w
    (rounds settings.concurrency (fun p => w.hangs p.2) (items.zipIdx.map fun p => (p.2, p.1)) [])
    (givesUpHanging_rounds _ _ _ _ (by simp))
  rw [run, Attempt.result_bind]
  refine (congrArg (Except.bind · _) hperformed).trans ?_
  rw [← performed, settle]
  split
  · rfl
  · exact congrArg Except.ok (sorted_results _ items (performed_results settings w items))

/-- A batch that gives results gives each item its own, in the order of the items; and it gives results if failures do
not end it or there are none. -/
theorem run_result (settings : BatchSettings) (w : Work ι α) (items : List ι) :
    (∀ results, (run settings w items).result = .ok results → results = items.map (resultOf settings w)) ∧
      ((settings.continueOnError = true ∨ ∀ item ∈ items, (resultOf settings w item).failure = none) →
        (run settings w items).result = .ok (items.map (resultOf settings w))) := by
  rw [run_eq]
  constructor
  · intro results hrun
    obtain ⟨-, -, rfl⟩ := map_ok_iff.mp hrun
    rfl
  · intro hon
    have hnone : stop? settings ((performed settings w items).map fun p => (p.1, resultOf settings w p.2)) = none := by
      refine stop?_eq_none (hon.imp_right fun h p hp => ?_)
      obtain ⟨q, hq, rfl⟩ := List.mem_map.mp hp
      obtain ⟨item, hitem, rfl⟩ := List.mem_map.mp ((performed_perm settings w items).mem_iff.mp hq)
      exact h _ (List.fst_mem_of_mem_zipIdx hitem)
    rw [settle, hnone]
    rfl

end Batch

end PackageExports
