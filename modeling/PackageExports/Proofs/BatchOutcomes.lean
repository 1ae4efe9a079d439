import PackageExports.Proofs.RunningCalls

/-!
# What a batch comes to

Items may be given up, calls may raise, and all of this may happen in any order. A batch that collects failures still
ends with one result for each item, at the place of the item; the failures are those of the items that raised or were
given up, each recorded once, in the order in which they came. A batch that a failure ends gives the failure of the
item that failed first, whatever becomes of the items that were under way.

Main results: `Progress.outcome_complete`, `Progress.exists_run`.
-/

namespace PackageExports

open scoped List

namespace Batch

variable {ι α : Type} (settings : BatchSettings) (w : Work ι α) (item : ι) (inTime : Bool)

/-- The result of an item whose call came to an end in time, or that was given up. -/
def endedResult : ItemResult α :=
  if inTime then resultOf settings w item else (giveUp settings w item).value

/-- The failure of an item whose call came to an end in time, or that was given up. -/
def failureOf : Option Failure :=
  if inTime then
    match (w.operation item).value with
    | .fails failure => some failure
    | _ => none
  else some (.timeout settings.operationTimeout)

lemma endedResult_label : (endedResult settings w item inTime).label = w.label item := by
  cases inTime with
  | false => rfl
  | true =>
    rw [endedResult, if_pos rfl, resultOf]
    cases (w.operation item).value <;> rfl

lemma endedResult_success_iff : (endedResult settings w item inTime).success = true ↔
    inTime = true ∧ ∃ value, (w.operation item).value = .returns value ∧ w.accept value = true := by
  cases inTime with
  | false => exact iff_of_false Bool.false_ne_true fun h => Bool.false_ne_true h.1
  | true =>
    rw [endedResult, if_pos rfl, resultOf]
    cases (w.operation item).value <;> simp

lemma endedResult_not_hangs : endedResult settings w item (!w.hangs item) = resultOf settings w item := by
  cases hhangs : w.hangs item with
  | false => rfl
  | true => exact giveUp_value settings w hhangs

variable {settings w item inTime}

lemma endedResult_failure (hreturns : inTime = true → w.hangs item = false) :
    (endedResult settings w item inTime).failure = failureOf settings w item inTime := by
  cases inTime with
  | false => rfl
  | true =>
    have hhangs := hreturns rfl
    rw [endedResult, if_pos rfl, failureOf, if_pos rfl, resultOf]
    rw [Work.hangs] at hhangs
    cases hvalue : (w.operation item).value with
    | returns | fails => rfl
    | hangs => simp [hvalue] at hhangs

end Batch

namespace Progress

variable {ι α : Type} {settings bounds : BatchSettings} {w : Batch.Work ι α} {interruptible : Bool}
  {items : List ι} {s next : Progress ι} {m : Move} {moves : List Move}

/-! ### Results and failures -/

lemma results_eq (hvalid : Valid bounds w items s) (settings : BatchSettings) :
    s.results settings w = s.ended.map fun e => (e.1.1, Batch.endedResult settings w e.1.2 e.2) := by
  rw [results, ← List.filterMap_eq_map]
  refine List.filterMap_congr fun e he => ?_
  have hreturns := hvalid.returned e he
  obtain ⟨⟨place, item⟩, inTime⟩ := e
  cases inTime with
  | false => rfl
  | true =>
    have hhangs := hreturns rfl
    dsimp only at hhangs ⊢
    rw [if_pos rfl, Batch.enter_value, if_neg (by simp [hhangs])]
    rfl

/-- Each item that raised or was given up has one entry among the failures, in the order in which they came. -/
lemma errors_eq (hvalid : Valid bounds w items s) (settings : BatchSettings) :
    s.errors settings w =
      s.ended.filterMap fun e => (Batch.failureOf settings w e.1.2 e.2).map (w.label e.1.2, ·) := by
  rw [errors, results_eq hvalid, List.filterMap_map]
  refine List.filterMap_congr fun e he => ?_
  dsimp only [Function.comp_def]
  rw [Batch.endedResult_failure (hvalid.returned e he), Batch.endedResult_label]

lemma failure?_eq (settings : BatchSettings) (w : Batch.Work ι α) (s : Progress ι) :
    s.failure? settings w = if settings.continueOnError then none else (s.errors settings w).head? := by
  rw [failure?, Batch.firstFailure?, errors, List.head?_filterMap]

/-! ### Items that have ended -/

/-- Whether the item at a place has its result in time. -/
def endedInTime (s : Progress ι) (place : ℕ) : Bool :=
  s.ended.any fun e => e.1.1 == place && e.2

/-- No place gets two results. -/
lemma ended_unique (hvalid : Valid bounds w items s) {e f : (ℕ × ι) × Bool} (he : e ∈ s.ended)
    (hf : f ∈ s.ended) (hplace : e.1.1 = f.1.1) : e = f := by
  have hnodup : (s.ended.map fun e => e.1.1).Nodup := by
    rw [List.nodup_iff_count_le_one]
    intro place
    have hplaces := hvalid.countAt_le_one place
    have hcount : (s.ended.map fun e => e.1.1).count place = countAt place (s.ended.map Prod.fst) := by
      rw [countAt, List.map_map]
      rfl
    omega
  exact List.inj_on_of_nodup_map hnodup he hf hplace

lemma endedInTime_eq (hvalid : Valid bounds w items s) {e : (ℕ × ι) × Bool} (he : e ∈ s.ended) :
    s.endedInTime e.1.1 = e.2 := by
  rw [Bool.eq_iff_iff, endedInTime, List.any_eq_true]
  constructor
  · rintro ⟨f, hf, hboth⟩
    obtain ⟨hplace, htime⟩ := (Bool.and_eq_true _ _).mp hboth
    rwa [← ended_unique hvalid hf he (beq_iff_eq.mp hplace)]
  · intro htime
    exact ⟨e, he, by simp [htime]⟩

/-- All items have their results. -/
def Done (items : List ι) (s : Progress ι) : Prop :=
  s.ended.map Prod.fst ~ (initial items).waiting

lemma done_of_isEmpty (hvalid : Valid bounds w items s)
    (h : (s.waiting.isEmpty && s.admitted.isEmpty && s.running.isEmpty) = true) : Done items s := by
  simp only [Bool.and_eq_true, List.isEmpty_iff] at h
  obtain ⟨⟨hwaiting, hadmitted⟩, hrunning⟩ := h
  have hall := hvalid.all_eq
  rwa [all, hwaiting, hadmitted, hrunning, Multiset.coe_nil, zero_add, zero_add, zero_add, Multiset.coe_eq_coe] at hall

lemma mem_waiting_initial {place : ℕ} {item : ι} :
    (place, item) ∈ (initial items).waiting ↔ items[place]? = some item := by
  simp [initial, List.mem_zipIdx_iff_getElem?]

lemma Done.mem_ended_iff (hdone : Done items s) (hvalid : Valid bounds w items s) {place : ℕ} {item : ι}
    (hitem : items[place]? = some item) {inTime : Bool} :
    ((place, item), inTime) ∈ s.ended ↔ s.endedInTime place = inTime := by
  constructor
  · exact fun he => endedInTime_eq hvalid he
  · rintro rfl
    obtain ⟨e, he, heq⟩ := List.mem_map.mp (hdone.mem_iff.mpr (mem_waiting_initial.mpr hitem))
    have htime := endedInTime_eq hvalid he
    rw [heq] at htime
    rw [htime, ← heq]
    exact he

/-- The results of all items, in the order of the items. -/
def finalResults (settings : BatchSettings) (w : Batch.Work ι α) (items : List ι) (s : Progress ι) :
    List (ItemResult α) :=
  items.zipIdx.map fun p => Batch.endedResult settings w p.1 (s.endedInTime p.2)

lemma Done.sorted_results (hdone : Done items s) (hvalid : Valid bounds w items s) (settings : BatchSettings) :
    ((s.results settings w).mergeSort fun a b => a.1 ≤ b.1).map Prod.snd = finalResults settings w items s := by
  have hpairs : items.zipIdx.zipIdx = items.zipIdx.map fun p => (p, p.2) := by
    refine List.ext_getElem? fun i => ?_
    simp only [List.getElem?_zipIdx, List.getElem?_map, Option.map_map]
    rfl
  refine Batch.sorted_results (fun p => Batch.endedResult settings w p.1 (s.endedInTime p.2)) items.zipIdx ?_
  have hmap := hdone.map fun p => (p.1, Batch.endedResult settings w p.2 (s.endedInTime p.1))
  rw [hpairs, List.map_map]
  rw [List.map_map, initial, List.map_map] at hmap
  rw [results_eq hvalid]
  refine (List.Perm.of_eq (List.map_congr_left fun e he => ?_)).trans hmap
  dsimp only [Function.comp_def]
  rw [endedInTime_eq hvalid he]

/-- What a batch has given when all items have their results: one result for each item, at its place. A result is a
success if the call of the item returned in time and what it returned is accepted; it has a failure if the call raised
or the item was given up, and each of these failures is recorded once. -/
structure Complete (settings : BatchSettings) (w : Batch.Work ι α) (items : List ι) (s : Progress ι)
    (results : List (ItemResult α)) : Prop where
  done : Done items s
  labels : results.map (·.label) = items.map w.label
  success : ∀ place item result, items[place]? = some item → results[place]? = some result →
    (result.success = true ↔ ((place, item), true) ∈ s.ended ∧
      ∃ value, (w.operation item).value = .returns value ∧ w.accept value = true)
  failure : ∀ place item result, items[place]? = some item → results[place]? = some result →
    ∀ failure, result.failure = some failure ↔
      ((place, item), false) ∈ s.ended ∧ failure = .timeout settings.operationTimeout ∨
      ((place, item), true) ∈ s.ended ∧ (w.operation item).value = .fails failure
  errors : s.errors settings w ~ Batch.failures results
  counts : Batch.successCount results + Batch.failureCount results = items.length

lemma failures_perm {results : List (ℕ × ItemResult α)} :
    (results.filterMap fun (_, r) => r.failure.map (r.label, ·)) ~
      Batch.failures ((results.mergeSort fun a b => a.1 ≤ b.1).map Prod.snd) := by
  have hsorted := (List.mergeSort_perm results fun a b => decide (a.1 ≤ b.1)).symm.filterMap
    fun (_, r) => r.failure.map (r.label, ·)
  rw [Batch.failures, List.filterMap_map]
  exact hsorted

lemma Done.complete (hdone : Done items s) (hvalid : Valid bounds w items s) (settings : BatchSettings) :
    Complete settings w items s (finalResults settings w items s) where
  done := hdone
  labels := by
    simp only [finalResults, List.map_map, Function.comp_def, Batch.endedResult_label]
    rw [← Function.comp_def w.label, ← List.map_map, List.zipIdx_map_fst]
  success := by
    intro place item result hitem hresult
    rw [finalResults, List.getElem?_map, List.getElem?_zipIdx, hitem] at hresult
    obtain rfl := Option.some.inj hresult
    rw [hdone.mem_ended_iff hvalid hitem, Batch.endedResult_success_iff, Nat.zero_add]
  failure := by
    intro place item result hitem hresult failure
    rw [finalResults, List.getElem?_map, List.getElem?_zipIdx, hitem] at hresult
    obtain rfl := Option.some.inj hresult
    have hended : ((place, item), s.endedInTime place) ∈ s.ended := (hdone.mem_ended_iff hvalid hitem).mpr rfl
    rw [hdone.mem_ended_iff hvalid hitem, hdone.mem_ended_iff hvalid hitem]
    dsimp only
    rw [Nat.zero_add, Batch.endedResult_failure (hvalid.returned _ hended), Batch.failureOf]
    cases s.endedInTime place with
    | false => simp [eq_comm]
    | true => cases (w.operation item).value <;> simp
  errors := by
    rw [← hdone.sorted_results hvalid settings]
    exact failures_perm
  counts := by
    have hle : Batch.successCount (finalResults settings w items s) ≤ (finalResults settings w items s).length :=
      List.length_filter_le _ _
    have hlength : (finalResults settings w items s).length = items.length := by simp [finalResults]
    rw [Batch.failureCount]
    omega

lemma outcome?_cases (hvalid : Valid bounds w items s) {r : Except Failure (List (ItemResult α))}
    (h : s.outcome? settings w = some r) :
    ((settings.continueOnError = true ∨ s.errors settings w = []) ∧ Done items s ∧
        r = .ok (finalResults settings w items s)) ∨
      settings.continueOnError = false ∧ ∃ label failure others,
        s.errors settings w = (label, failure) :: others ∧ r = .error (.aborted label failure) := by
  have hfailure := failure?_eq settings w s
  rw [outcome?] at h
  cases hstopped : s.failure? settings w with
  | some e =>
    rw [hstopped] at h hfailure
    split_ifs at hfailure with hcontinue
    obtain ⟨others, hothers⟩ := List.head?_eq_some_iff.mp hfailure.symm
    exact .inr ⟨by simpa using hcontinue, e.1, e.2, others, hothers, (Option.some.inj h).symm⟩
  | none =>
    rw [hstopped] at h hfailure
    dsimp only at h
    split_ifs at h with hempty
    have hdone := done_of_isEmpty hvalid hempty
    rw [hdone.sorted_results hvalid settings] at h
    refine .inl ⟨?_, hdone, (Option.some.inj h).symm⟩
    split_ifs at hfailure with hcontinue
    · exact .inl hcontinue
    · exact .inr (List.head?_eq_none_iff.mp hfailure.symm)

/-! ### Every order ends -/

/-- How many moves are left at most. -/
def remaining (s : Progress ι) : ℕ :=
  4 * s.waiting.length + 3 * s.admitted.length + 2 * s.running.length + s.overdue.length

lemma Moved.remaining_lt (h : Moved settings w interruptible s m next) : next.remaining < s.remaining := by
  cases h with
  | letIn _ htake | call _ htake | finish _ htake | dropped htake | late htake =>
    have hlength := htake.length_eq
    simp only [remaining, List.length_append, List.length_cons, List.length_nil] at hlength ⊢
    omega
  | lingering htake =>
    have hlength := htake.length_eq
    simp only [remaining, List.length_cons] at hlength ⊢
    split_ifs
    · omega
    · simp only [List.length_append, List.length_singleton]
      omega

lemma length_add_remaining_le (h : s.after? settings w interruptible moves = some next) :
    moves.length + next.remaining ≤ s.remaining := by
  induction moves generalizing s with
  | nil =>
    obtain rfl := Option.some.inj h
    exact Nat.le_of_eq (Nat.zero_add _)
  | cons m rest ih =>
    obtain ⟨mid, hmove, hrest⟩ := Option.bind_eq_some_iff.mp h
    have hless := (moved_of_move? hmove).remaining_lt
    have hlater := ih hrest
    rw [List.length_cons]
    omega

/-- A batch that has not ended can go on even if no call ever returns: an item is given up, or one is let in. -/
lemma exists_move_of_outcome?_eq_none (h : s.outcome? settings w = none) (interruptible : Bool) :
    ∃ place, (s.move? settings w interruptible (.letIn place)).isSome = true ∨
      (s.move? settings w interruptible (.giveUp place)).isSome = true := by
  rw [outcome?] at h
  cases hfailure : s.failure? settings w with
  | some e => simp [hfailure] at h
  | none =>
    have hgoes : ¬(s.failure? settings w).isSome = true := by simp [hfailure]
    have hslots : ([] : List (ℕ × ι)).length + ([] : List (ℕ × ι)).length < settings.concurrency :=
      settings.concurrency.2
    cases hadmitted : s.admitted with
    | cons p rest =>
      refine ⟨p.1, .inr ?_⟩
      rw [move?, if_neg hgoes]
      dsimp only [giveUp?]
      rw [hadmitted, take?_head]
      rfl
    | nil =>
      cases hrunning : s.running with
      | cons p rest =>
        refine ⟨p.1, .inr ?_⟩
        rw [move?, if_neg hgoes]
        dsimp only [giveUp?]
        rw [hadmitted, hrunning, take?_head]
        rfl
      | nil =>
        cases hwaiting : s.waiting with
        | cons p rest =>
          refine ⟨p.1, .inl ?_⟩
          rw [move?, if_neg hgoes]
          dsimp only
          rw [hrunning, hadmitted, hwaiting, take?_head, if_pos hslots]
          rfl
        | nil => simp [hfailure, hadmitted, hrunning, hwaiting] at h

/-! ### The order in which a batch is run -/

/-- The moves of a step: a call that is given up returns right after it if it could not be interrupted. -/
def roundMoves (hangs : ℕ × ι → Bool) (interruptible : Bool) : Round (ℕ × ι) → List Move
  | .enter entering => entering.flatMap fun p =>
      [.letIn p.1, .call p.1] ++ if hangs p then [] else [.finish p.1]
  | .giveUp stuck => stuck.flatMap fun p => .giveUp p.1 :: if interruptible then [] else [.late p.1]

/-- Between two steps. -/
def between (waiting stuck : List (ℕ × ι)) (ended : List ((ℕ × ι) × Bool)) : Progress ι :=
  { waiting, running := stuck, ended }

lemma take?_append_singleton {p : ℕ × ι} {row : List (ℕ × ι)} (h : p.1 ∉ row.map Prod.fst) :
    take? p.1 (row ++ [p]) = some (p.2, row) := by
  induction row with
  | nil => exact take?_head p []
  | cons q row ih =>
    rw [List.map_cons, List.mem_cons, not_or] at h
    rw [List.cons_append, take?, if_neg (Ne.symm h.1), ih h.2]
    rfl

lemma after?_enter (hcontinue : settings.continueOnError = true) {p : ℕ × ι} {rest stuck : List (ℕ × ι)}
    {ended : List ((ℕ × ι) × Bool)} (hslots : stuck.length < settings.concurrency)
    (hnew : p.1 ∉ stuck.map Prod.fst) :
    (between (p :: rest) stuck ended).after? settings w interruptible
        ([.letIn p.1, .call p.1] ++ if w.hangs p.2 then [] else [.finish p.1]) =
      some (between rest (stuck ++ if w.hangs p.2 then [p] else [])
        (ended ++ if w.hangs p.2 then [] else [(p, true)])) := by
  cases hhangs : w.hangs p.2 <;>
    simp [after?, move?, between, failure?_eq_none hcontinue, take?_head, take?_append_singleton hnew, hslots, hhangs]

lemma after?_giveUp (hcontinue : settings.continueOnError = true) {p : ℕ × ι} {waiting rest : List (ℕ × ι)}
    {ended : List ((ℕ × ι) × Bool)} :
    (between waiting (p :: rest) ended).after? settings w interruptible
        (.giveUp p.1 :: if interruptible then [] else [.late p.1]) =
      some (between waiting rest (ended ++ [(p, false)])) := by
  cases interruptible <;>
    simp [after?, move?, giveUp?, take?, between, failure?_eq_none hcontinue]

variable (w interruptible) in
lemma after?_enter_all (hcontinue : settings.continueOnError = true) {entering stuck : List (ℕ × ι)}
    (rest : List (ℕ × ι)) (ended : List ((ℕ × ι) × Bool))
    (hslots : stuck.length + entering.length ≤ settings.concurrency)
    (hplaces : ((stuck ++ entering).map Prod.fst).Nodup) :
    (between (entering ++ rest) stuck ended).after? settings w interruptible
        (roundMoves (fun p => w.hangs p.2) interruptible (.enter entering)) =
      some (between rest (stuck ++ entering.filter fun p => w.hangs p.2)
        (ended ++ (entering.filter fun p => !w.hangs p.2).map (·, true))) := by
  induction entering generalizing stuck ended with
  | nil => simp [roundMoves, after?]
  | cons p entering ih =>
    have hsplit : stuck ++ p :: entering = stuck ++ [p] ++ entering := by simp
    rw [List.length_cons] at hslots
    have hnew : p.1 ∉ stuck.map Prod.fst := by
      rw [hsplit, List.map_append, List.map_append] at hplaces
      intro hp
      exact List.disjoint_of_nodup_append (List.Nodup.of_append_left hplaces) hp (by simp)
    have hlater : ((stuck ++ (if w.hangs p.2 then [p] else []) ++ entering).map Prod.fst).Nodup := by
      refine List.Nodup.sublist (List.Sublist.map Prod.fst ?_) hplaces
      rw [hsplit]
      refine List.Sublist.append_right (List.Sublist.append_left ?_ stuck) entering
      split_ifs <;> simp
    have hlength : (stuck ++ if w.hangs p.2 then [p] else []).length ≤ stuck.length + 1 := by
      rw [List.length_append]
      split_ifs <;> simp
    rw [List.cons_append, roundMoves, List.flatMap_cons, after?_append,
      after?_enter hcontinue (by omega) hnew, Option.bind_some]
    have hrest := ih (ended ++ if w.hangs p.2 then [] else [(p, true)]) (by omega) hlater
    rw [roundMoves] at hrest
    rw [hrest]
    cases hhangs : w.hangs p.2 <;> simp [hhangs]

lemma after?_giveUp_all (hcontinue : settings.continueOnError = true) {waiting stuck : List (ℕ × ι)}
    {ended : List ((ℕ × ι) × Bool)} :
    (between waiting stuck ended).after? settings w interruptible
        (roundMoves (fun p => w.hangs p.2) interruptible (.giveUp stuck)) =
      some (between waiting [] (ended ++ stuck.map (·, false))) := by
  induction stuck generalizing ended with
  | nil => simp [roundMoves, after?]
  | cons p stuck ih =>
    rw [roundMoves, List.flatMap_cons, after?_append, after?_giveUp hcontinue, Option.bind_some]
    rw [roundMoves] at ih
    rw [ih, List.map_cons, List.append_assoc, List.singleton_append]

variable (w interruptible) in
/-- The steps of a batch are one order of its moves, in which those items are given up that hang. -/
lemma after?_rounds (hcontinue : settings.continueOnError = true) (waiting stuck : List (ℕ × ι))
    (ended : List ((ℕ × ι) × Bool)) (hslots : stuck.length ≤ settings.concurrency)
    (hplaces : ((stuck ++ waiting).map Prod.fst).Nodup) (hstuck : ∀ p ∈ stuck, w.hangs p.2 = true) :
    (between waiting stuck ended).after? settings w interruptible
        ((Batch.rounds settings.concurrency (fun p => w.hangs p.2) waiting stuck).flatMap
          (roundMoves (fun p => w.hangs p.2) interruptible)) =
      some (between [] [] (ended ++
        ((Batch.rounds settings.concurrency (fun p => w.hangs p.2) waiting stuck).flatMap
          (Round.finished fun p => w.hangs p.2)).map fun p => (p, !w.hangs p.2))) := by
  have hpositive := settings.concurrency.2
  fun_induction Batch.rounds settings.concurrency (fun p : ℕ × ι => w.hangs p.2) waiting stuck
    generalizing ended with
  | case1 waiting free hfull =>
    have hwaiting : waiting = [] := hfull.resolve_right (by simp only [free, List.length_nil]; omega)
    simp [hwaiting, after?]
  | case2 waiting stuck free hfull hne ih =>
    have hgiven : stuck.map (fun p => (p, false)) = stuck.map fun p => (p, !w.hangs p.2) :=
      List.map_congr_left fun p hp => by rw [hstuck p hp]; rfl
    have hwaiting : (([] ++ waiting).map Prod.fst).Nodup :=
      List.Nodup.sublist (List.Sublist.map Prod.fst (List.sublist_append_right stuck waiting)) hplaces
    rw [List.flatMap_cons, after?_append, after?_giveUp_all hcontinue, Option.bind_some,
      ih _ (Nat.zero_le _) hwaiting (by simp), List.flatMap_cons, Round.finished, List.map_append, hgiven,
      List.append_assoc]
  | case3 waiting stuck free hfree entering ih =>
    have hsplit : entering ++ waiting.drop free = waiting := List.take_append_drop free waiting
    have hentering : entering.length ≤ free := List.length_take_le _ _
    have hsub : (stuck ++ entering.filter fun p => w.hangs p.2).length ≤ stuck.length + entering.length := by
      rw [List.length_append]
      exact Nat.add_le_add_left (List.length_filter_le _ _) _
    have hroom : stuck.length + entering.length ≤ settings.concurrency := by
      simp only [free] at hentering hfree
      omega
    have hfinished : (entering.filter fun p => !w.hangs p.2).map (fun p => (p, true)) =
        (entering.filter fun p => !w.hangs p.2).map fun p => (p, !w.hangs p.2) :=
      List.map_congr_left fun p hp => by rw [(List.mem_filter.mp hp).2]
    have hnow : ((stuck ++ entering).map Prod.fst).Nodup := by
      rw [← hsplit, ← List.append_assoc] at hplaces
      exact List.Nodup.sublist (List.Sublist.map Prod.fst (List.sublist_append_left _ _)) hplaces
    have hlater : ((stuck ++ entering.filter (fun p => w.hangs p.2) ++ waiting.drop free).map Prod.fst).Nodup := by
      rw [← hsplit, ← List.append_assoc] at hplaces
      exact List.Nodup.sublist (List.Sublist.map Prod.fst
        (List.Sublist.append_right (List.Sublist.append_left List.filter_sublist stuck) _)) hplaces
    have hhanging : ∀ p ∈ stuck ++ entering.filter (fun p => w.hangs p.2), w.hangs p.2 = true := fun p hp =>
      (List.mem_append.mp hp).elim (hstuck p) fun h => (List.mem_filter.mp h).2
    have henter := after?_enter_all w interruptible hcontinue (waiting.drop free) ended hroom hnow
    rw [hsplit] at henter
    rw [List.flatMap_cons, after?_append, henter, Option.bind_some, ih _ (hsub.trans hroom) hlater hhanging,
      List.flatMap_cons, Round.finished, List.map_append, hfinished, List.append_assoc]

/-- What a batch gives is what it comes to in one order of its moves. -/
theorem exists_run (settings : BatchSettings) (w : Batch.Work ι α) (interruptible : Bool) (items : List ι) :
    ∃ moves s, (initial items).after? settings.collecting w interruptible moves = some s ∧
      s.outcome? settings w = some (Batch.run settings w items).result := by
  have hplaces : (([] ++ (initial items).waiting).map Prod.fst).Nodup :=
    List.nodup_iff_count_le_one.mpr fun place => countAt_initial place items
  have hcollecting : settings.collecting.continueOnError = true := rfl
  have hrounds := after?_rounds w interruptible hcollecting (initial items).waiting [] [] (Nat.zero_le _) hplaces
    (by simp)
  rw [List.nil_append] at hrounds
  refine ⟨_, between [] [] ((Batch.performed settings w items).map fun p => (p, !w.hangs p.2)), hrounds, ?_⟩
  have hvalid : Valid settings.collecting w items
      (between [] [] ((Batch.performed settings w items).map fun p => (p, !w.hangs p.2))) :=
    (valid_initial settings.collecting w items).after hrounds
  have hresults := results_eq hvalid settings
  simp only [between, List.map_map, Function.comp_def, Batch.endedResult_not_hangs] at hresults
  rw [outcome?, Batch.run_eq, Batch.settle, failure?, between, hresults, ← Batch.stop?]
  cases Batch.stop? settings ((Batch.performed settings w items).map fun p => (p.1, Batch.resultOf settings w p.2)) with
  | some stopped => rfl
  | none =>
    have hsorted := Batch.sorted_results _ items (Batch.performed_results settings w items)
    dsimp only
    rw [hsorted]
    rfl

/-- However the calls of a batch return, raise or outlive the time they have, it ends after a bounded number of moves,
even if calls never return. If failures are collected, or there are none, it gives a complete row of results. Otherwise
it gives the failure of the item that failed first, whatever the items that were under way did after that. What the
batch that is run gives is what it comes to in one of these orders. -/
theorem outcome_complete (settings : BatchSettings) (w : Batch.Work ι α) (interruptible : Bool) (items : List ι) :
    (∃ moves s, (initial items).after? settings.collecting w interruptible moves = some s ∧
      s.outcome? settings w = some (Batch.run settings w items).result) ∧
    ∀ moves s, (initial items).after? settings.collecting w interruptible moves = some s →
      moves.length ≤ 4 * items.length ∧
      ((s.outcome? settings w).isSome = true ∨ ∃ place,
        (s.move? settings w interruptible (.letIn place)).isSome = true ∨
        (s.move? settings w interruptible (.giveUp place)).isSome = true) ∧
      ∀ r, s.outcome? settings w = some r →
        ((∃ results, r = .ok results) ↔
          settings.continueOnError = true ∨ ∀ e ∈ s.ended, Batch.failureOf settings w e.1.2 e.2 = none) ∧
        (∀ results, r = .ok results → Complete settings w items s results) ∧
        (settings.continueOnError = false → ∀ earlier e later failure, s.ended = earlier ++ e :: later →
          (∀ f ∈ earlier, Batch.failureOf settings w f.1.2 f.2 = none) →
          Batch.failureOf settings w e.1.2 e.2 = some failure → r = .error (.aborted (w.label e.1.2) failure)) := by
  refine ⟨exists_run settings w interruptible items, fun moves s hafter => ?_⟩
  have hvalid := (valid_initial settings.collecting w items).after hafter
  have herrors := errors_eq hvalid settings
  refine ⟨?_, ?_, fun r hr => ⟨?_, ?_, ?_⟩⟩
  · have hlength := length_add_remaining_le hafter
    have hinitial : (initial items).remaining = 4 * items.length := by simp [remaining, initial]
    omega
  · cases houtcome : s.outcome? settings w with
    | some r => exact .inl rfl
    | none => exact .inr (exists_move_of_outcome?_eq_none houtcome interruptible)
  · have hnone : s.errors settings w = [] ↔ ∀ e ∈ s.ended, Batch.failureOf settings w e.1.2 e.2 = none := by
      simp only [herrors, List.filterMap_eq_nil_iff, Option.map_eq_none_iff]
    rw [← hnone]
    rcases outcome?_cases hvalid hr with ⟨hcollected, -, rfl⟩ | ⟨hstops, label, failure, others, hothers, rfl⟩
    · exact iff_of_true ⟨_, rfl⟩ hcollected
    · exact iff_of_false (by rintro ⟨results, ⟨⟩⟩) (by simp [hstops, hothers])
  · rintro results rfl
    rcases outcome?_cases hvalid hr with ⟨-, hdone, heq⟩ | ⟨-, label, failure, others, -, heq⟩
    · rw [Except.ok.inj heq]
      exact hdone.complete hvalid settings
    · cases heq
  · intro hstops earlier e later failure hended hearlier hfails
    have hbefore : earlier.filterMap (fun f => (Batch.failureOf settings w f.1.2 f.2).map (w.label f.1.2, ·)) = [] :=
      List.filterMap_eq_nil_iff.mpr fun f hf => Option.map_eq_none_iff.mpr (hearlier f hf)
    rw [hended, List.filterMap_append, hbefore, List.nil_append, List.filterMap_cons, hfails, Option.map_some]
      at herrors
    rcases outcome?_cases hvalid hr with ⟨hcollected, -, -⟩ | ⟨-, label, first, others, hothers, rfl⟩
    · simp [hstops, herrors] at hcollected
    · rw [herrors] at hothers
      obtain ⟨rfl, rfl⟩ := Prod.mk.inj (List.cons.inj hothers).1
      rfl

/-- One item is accepted, one raises, one never returns, and what the last one returns is not accepted. -/
def mixed : Batch.Work Text ℕ where
  label := id
  operation item := pure <|
    if item = "a" then .returns 1
    else if item = "b" then .fails (.reported "RuntimeError" "boom")
    else if item = "c" then .hangs
    else .returns 0
  accept value := value != 0

def fourItems : List Text :=
  ["a", "b", "c", "d"]

/-- The third item is given up before the second one raises, and the last one waits for its caller. -/
def mixedMoves : List Move :=
  [.letIn 0, .letIn 1, .call 0, .call 1, .finish 0, .letIn 2, .call 2, .giveUp 2, .letIn 3, .finish 1, .call 3,
    .finish 3, .late 2]

/-- If failures are collected, there are four results; otherwise the item that was given up ends the batch. -/
theorem outcome_complete_mixed :
    ∃ s results, (initial fourItems).after? twoAtATime.collecting mixed false mixedMoves = some s ∧
      s.outcome? twoAtATime mixed = some (.ok results) ∧ Complete twoAtATime mixed fourItems s results ∧
      (s.errors twoAtATime mixed).map Prod.fst = [Text.ofString "c", "b"] ∧
      s.outcome? { twoAtATime with continueOnError := false } mixed =
        some (.error (.aborted "c" (.timeout twoAtATime.operationTimeout))) := by
  have hruns : ((initial fourItems).after? twoAtATime.collecting mixed false mixedMoves).map
      (fun s => (s.ended, (s.errors twoAtATime mixed).map Prod.fst, (s.outcome? twoAtATime mixed).isSome,
        (s.outcome? { twoAtATime with continueOnError := false } mixed).isSome)) =
      some ([((0, Text.ofString "a"), true), ((2, "c"), false), ((1, "b"), true), ((3, "d"), true)],
        [Text.ofString "c", "b"], true, true) := by decide +kernel
  obtain ⟨s, hs, hstate⟩ := Option.map_eq_some_iff.mp hruns
  simp only [Prod.mk.injEq] at hstate
  obtain ⟨hended, herrors, hcollected, hstopped⟩ := hstate
  obtain ⟨r, hr⟩ := Option.isSome_iff_exists.mp hcollected
  obtain ⟨f, hf⟩ := Option.isSome_iff_exists.mp hstopped
  obtain ⟨-, -, hall⟩ := (outcome_complete twoAtATime mixed false fourItems).2 mixedMoves s hs
  obtain ⟨hreturns, hcomplete, -⟩ := hall r hr
  obtain ⟨results, rfl⟩ := hreturns.mpr (.inl rfl)
  obtain ⟨-, -, hstrict⟩ := (outcome_complete { twoAtATime with continueOnError := false } mixed false fourItems).2
    mixedMoves s hs
  obtain ⟨-, -, haborted⟩ := hstrict f hf
  have hfirst := haborted rfl [((0, "a"), true)] ((2, "c"), false) _ _ hended (by decide +kernel) rfl
  exact ⟨s, results, hs, hr, hcomplete results rfl, herrors, hfirst ▸ hf⟩

end Progress

end PackageExports
