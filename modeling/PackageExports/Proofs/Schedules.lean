import Mathlib.Algebra.Order.Group.Multiset
import Mathlib.Tactic.Abel
import PackageExports.Batch.Schedule
import PackageExports.Proofs.Batches

/-!
# All orders of a batch

Each move takes an item from one place to the next, so at any time every item is waiting, let in, under way or ended,
and no more calls are under way than there are callers. If no item is given up, then a batch in which failures are
collected goes on until each item has its result, whatever the order of the moves, and it ends with the results that
the items have by themselves.

Main results: `Progress.Valid.after`, `Progress.exists_move`, `Progress.outcome_inTime`, `Progress.exists_course`.
-/

namespace PackageExports

open scoped List

namespace Progress

variable {ι α : Type} {settings : BatchSettings} {w : Batch.Work ι α} {interruptible : Bool}
  {items : List ι} {s next : Progress ι} {m : Move} {moves : List Move}

lemma take?_perm {place : ℕ} {row rest : List (ℕ × ι)} {item : ι} (h : take? place row = some (item, rest)) :
    row ~ (place, item) :: rest := by
  induction row generalizing rest with
  | nil => cases h
  | cons p row ih =>
    rw [take?] at h
    split_ifs at h with hp
    · obtain ⟨rfl, rfl⟩ := Prod.mk.inj (Option.some.inj h)
      rw [← hp]
    · obtain ⟨⟨found, others⟩, hfound, heq⟩ := Option.map_eq_some_iff.mp h
      obtain ⟨rfl, rfl⟩ := Prod.mk.inj heq
      exact ((ih hfound).cons p).trans (List.Perm.swap _ _ _)

lemma take?_head (p : ℕ × ι) (rest : List (ℕ × ι)) : take? p.1 (p :: rest) = some (p.2, rest) := by
  rw [take?, if_pos rfl]

/-- What a move does. -/
inductive Moved (settings : BatchSettings) (w : Batch.Work ι α) (interruptible : Bool) (s : Progress ι) :
    Move → Progress ι → Prop
  | letIn {place : ℕ} {item : ι} {rest : List (ℕ × ι)} :
      s.admitted.length + s.running.length < settings.concurrency → s.waiting ~ (place, item) :: rest →
      Moved settings w interruptible s (.letIn place)
        { s with waiting := rest, admitted := s.admitted ++ [(place, item)] }
  | call {place : ℕ} {item : ι} {rest : List (ℕ × ι)} :
      s.running.length + s.overdue.length < settings.concurrency → s.admitted ~ (place, item) :: rest →
      Moved settings w interruptible s (.call place)
        { s with admitted := rest, running := s.running ++ [(place, item)] }
  | finish {place : ℕ} {item : ι} {rest : List (ℕ × ι)} : w.hangs item = false → s.running ~ (place, item) :: rest →
      Moved settings w interruptible s (.finish place)
        { s with running := rest, ended := s.ended ++ [((place, item), true)] }
  | dropped {place : ℕ} {item : ι} {rest : List (ℕ × ι)} : s.admitted ~ (place, item) :: rest →
      Moved settings w interruptible s (.giveUp place)
        { s with admitted := rest, ended := s.ended ++ [((place, item), false)] }
  | lingering {place : ℕ} {item : ι} {rest : List (ℕ × ι)} : s.running ~ (place, item) :: rest →
      Moved settings w interruptible s (.giveUp place)
        { s with
          running := rest
          overdue := if interruptible then s.overdue else s.overdue ++ [(place, item)]
          ended := s.ended ++ [((place, item), false)] }
  | late {place : ℕ} {item : ι} {rest : List (ℕ × ι)} : s.overdue ~ (place, item) :: rest →
      Moved settings w interruptible s (.late place) { s with overdue := rest }

theorem moved_of_move? (h : s.move? settings w interruptible m = some next) : Moved settings w interruptible s m next := by
  unfold move? at h
  by_cases hended : (s.failure? settings w).isSome
  · rw [if_pos hended] at h
    cases h
  rw [if_neg hended] at h
  cases m with
  | letIn place =>
    dsimp only at h
    split_ifs at h with hslots
    obtain ⟨⟨item, rest⟩, htake, rfl⟩ := Option.map_eq_some_iff.mp h
    exact .letIn hslots (take?_perm htake)
  | call place =>
    dsimp only at h
    split_ifs at h with hcallers
    obtain ⟨⟨item, rest⟩, htake, rfl⟩ := Option.map_eq_some_iff.mp h
    exact .call hcallers (take?_perm htake)
  | finish place =>
    obtain ⟨⟨item, rest⟩, hfilter, rfl⟩ := Option.map_eq_some_iff.mp h
    obtain ⟨htake, hreturns⟩ := Option.filter_eq_some_iff.mp hfilter
    exact .finish (by simpa using hreturns) (take?_perm htake)
  | giveUp place =>
    dsimp only [giveUp?] at h
    split at h
    · rename_i item rest htake
      obtain rfl := Option.some.inj h
      exact .dropped (take?_perm htake)
    · obtain ⟨⟨item, rest⟩, htake, rfl⟩ := Option.map_eq_some_iff.mp h
      exact .lingering (take?_perm htake)
  | late place =>
    obtain ⟨⟨item, rest⟩, htake, rfl⟩ := Option.map_eq_some_iff.mp h
    exact .late (take?_perm htake)

/-- All items, wherever they are. -/
def all (s : Progress ι) : Multiset (ℕ × ι) :=
  s.waiting + s.admitted + s.running + s.ended.map Prod.fst

lemma Moved.all_eq (h : Moved settings w interruptible s m next) : next.all = s.all := by
  cases h with
  | letIn _ htake | call _ htake | finish _ htake | dropped htake | lingering htake =>
    have hrow := Multiset.coe_eq_coe.mpr htake
    rw [← Multiset.cons_coe, ← Multiset.singleton_add] at hrow
    simp only [all, hrow, List.map_append, List.map_singleton, ← Multiset.coe_add, Multiset.coe_singleton]
    abel
  | late => rfl

/-- Every item is somewhere, and there are no more items with a slot and no more calls than the settings allow. -/
structure Valid (settings : BatchSettings) (w : Batch.Work ι α) (items : List ι) (s : Progress ι) : Prop where
  all_eq : s.all = (initial items).waiting
  returned : ∀ e ∈ s.ended, e.2 = true → w.hangs e.1.2 = false
  slots : s.admitted.length + s.running.length ≤ settings.concurrency
  callers : s.running.length + s.overdue.length ≤ settings.concurrency

lemma valid_initial (settings : BatchSettings) (w : Batch.Work ι α) (items : List ι) :
    Valid settings w items (initial items) where
  all_eq := by simp [all, initial]
  returned := by simp [initial]
  slots := Nat.zero_le _
  callers := Nat.zero_le _

lemma Valid.move (hvalid : Valid settings w items s) (h : Moved settings w interruptible s m next) :
    Valid settings w items next where
  all_eq := h.all_eq.trans hvalid.all_eq
  returned := by
    have hold := hvalid.returned
    cases h with
    | letIn | call | late => exact hold
    | finish hreturns =>
      intro e he htime
      rcases List.mem_append.mp he with he | he
      · exact hold e he htime
      · obtain rfl := List.mem_singleton.mp he
        exact hreturns
    | dropped | lingering =>
      intro e he htime
      rcases List.mem_append.mp he with he | he
      · exact hold e he htime
      · obtain rfl := List.mem_singleton.mp he
        cases htime
  slots := by
    have hold := hvalid.slots
    cases h with
    | letIn hslots htake =>
      simp only [List.length_append, List.length_singleton]
      omega
    | call _ htake | finish _ htake | lingering htake =>
      have hlength := htake.length_eq
      simp only [List.length_append, List.length_cons, List.length_nil] at hlength ⊢
      omega
    | dropped htake =>
      have hlength := htake.length_eq
      simp only [List.length_cons] at hlength
      dsimp only
      omega
    | late => exact hold
  callers := by
    have hold := hvalid.callers
    cases h with
    | letIn | dropped => exact hold
    | call hcallers htake =>
      simp only [List.length_append, List.length_singleton]
      omega
    | finish _ htake | late htake =>
      have hlength := htake.length_eq
      simp only [List.length_cons] at hlength
      dsimp only
      omega
    | lingering htake =>
      have hlength := htake.length_eq
      simp only [List.length_cons] at hlength
      split_ifs
      · dsimp only
        omega
      · simp only [List.length_append, List.length_singleton]
        omega

/-- What each move keeps is kept by all moves. -/
lemma after?_preserves {P : Progress ι → Prop}
    (hkeep : ∀ {s next : Progress ι} {m : Move}, P s → Moved settings w interruptible s m next → P next) (hs : P s)
    (h : s.after? settings w interruptible moves = some next) : P next := by
  induction moves generalizing s with
  | nil =>
    obtain rfl := Option.some.inj h
    exact hs
  | cons m rest ih =>
    obtain ⟨mid, hmove, hrest⟩ := Option.bind_eq_some_iff.mp h
    exact ih (hkeep hs (moved_of_move? hmove)) hrest

/-- The items and the bounds are kept by all moves. -/
theorem Valid.after (hvalid : Valid settings w items s)
    (h : s.after? settings w interruptible moves = some next) : Valid settings w items next :=
  after?_preserves Valid.move hvalid h

/-! ### Batches in time -/

/-- No item was given up. -/
structure InTime (s : Progress ι) : Prop where
  overdue : s.overdue = []
  ended : ∀ e ∈ s.ended, e.2 = true

lemma inTime_initial (items : List ι) : InTime (initial items) where
  overdue := rfl
  ended := by simp [initial]

/-- How many moves in time are left. -/
def left (s : Progress ι) : ℕ :=
  3 * s.waiting.length + 2 * s.admitted.length + s.running.length

lemma left_initial (items : List ι) : (initial items).left = 3 * items.length := by
  simp [left, initial]

lemma Moved.inTime (h : Moved settings w interruptible s m next) (hm : m.inTime = true) (hin : s.InTime) : next.InTime := by
  cases h with
  | letIn | call => exact ⟨hin.overdue, hin.ended⟩
  | finish =>
    refine ⟨hin.overdue, fun e he => ?_⟩
    rcases List.mem_append.mp he with he | he
    · exact hin.ended e he
    · obtain rfl := List.mem_singleton.mp he
      rfl
  | dropped | lingering | late => cases hm

lemma Moved.left_eq (h : Moved settings w interruptible s m next) (hm : m.inTime = true) : next.left + 1 = s.left := by
  cases h with
  | letIn _ htake | call _ htake | finish _ htake =>
    have hlength := htake.length_eq
    simp only [left, List.length_append, List.length_cons, List.length_nil] at hlength ⊢
    omega
  | dropped | lingering | late => cases hm

/-- A row of moves in time gives up no item, and each of its moves is one of those that were left. -/
theorem after_inTime (hmoves : ∀ m ∈ moves, m.inTime = true)
    (h : s.after? settings w interruptible moves = some next) (hin : s.InTime) :
    next.InTime ∧ moves.length + next.left = s.left := by
  induction moves generalizing s with
  | nil =>
    obtain rfl := Option.some.inj h
    exact ⟨hin, Nat.zero_add _⟩
  | cons m rest ih =>
    obtain ⟨hm, hrest⟩ := List.forall_mem_cons.mp hmoves
    obtain ⟨mid, hmove, hlater⟩ := Option.bind_eq_some_iff.mp h
    have hmoved := moved_of_move? hmove
    obtain ⟨hnext, hlength⟩ := ih hrest hlater (hmoved.inTime hm hin)
    have hleft := hmoved.left_eq hm
    rw [List.length_cons]
    exact ⟨hnext, by omega⟩

lemma failure?_eq_none (hcontinue : settings.continueOnError = true) (s : Progress ι) : s.failure? settings w = none :=
  if_pos hcontinue

lemma Valid.mem (hvalid : Valid settings w items s) {p : ℕ × ι} (hp : p ∈ s.all) : p.2 ∈ items := by
  rw [hvalid.all_eq, Multiset.mem_coe] at hp
  obtain ⟨q, hq, rfl⟩ := List.mem_map.mp hp
  exact List.fst_mem_of_mem_zipIdx hq

/-- As long as an item is without a result, a batch in time can go on in time. -/
theorem exists_move (hcontinue : settings.continueOnError = true) (hreturns : ∀ item ∈ items, w.hangs item = false)
    (hvalid : Valid settings w items s) (hin : s.InTime) (hleft : s.left ≠ 0) :
    ∃ m, m.inTime = true ∧ (s.move? settings w interruptible m).isSome = true := by
  have hgoes : ¬(s.failure? settings w).isSome = true := by simp [failure?_eq_none hcontinue]
  have hslots : ([] : List (ℕ × ι)).length + ([] : List (ℕ × ι)).length < settings.concurrency :=
    settings.concurrency.2
  cases hrunning : s.running with
  | cons p rest =>
    have hp : p ∈ s.all := by simp [all, hrunning]
    have hreturn := hreturns p.2 (hvalid.mem hp)
    refine ⟨.finish p.1, rfl, ?_⟩
    rw [move?, if_neg hgoes]
    dsimp only
    rw [hrunning, take?_head, Option.filter_some, if_pos (by simp [hreturn])]
    rfl
  | nil =>
    cases hadmitted : s.admitted with
    | cons p rest =>
      refine ⟨.call p.1, rfl, ?_⟩
      rw [move?, if_neg hgoes]
      dsimp only
      rw [hrunning, hin.overdue, hadmitted, take?_head, if_pos hslots]
      rfl
    | nil =>
      cases hwaiting : s.waiting with
      | cons p rest =>
        refine ⟨.letIn p.1, rfl, ?_⟩
        rw [move?, if_neg hgoes]
        dsimp only
        rw [hrunning, hadmitted, hwaiting, take?_head, if_pos hslots]
        rfl
      | nil => simp [left, hrunning, hadmitted, hwaiting] at hleft

/-- In time each item gets the result that it has by itself. -/
lemma results_inTime (hvalid : Valid settings w items s) (hin : s.InTime) :
    s.results settings w = s.ended.map fun e => (e.1.1, Batch.resultOf settings w e.1.2) := by
  rw [results, ← List.filterMap_eq_map]
  refine List.filterMap_congr fun e he => ?_
  have htime := hin.ended e he
  have hreturns := hvalid.returned e he htime
  obtain ⟨⟨place, item⟩, inTime⟩ := e
  dsimp only at htime hreturns ⊢
  rw [if_pos htime, Batch.enter_value, if_neg (by simp [hreturns])]
  rfl

/-- A batch in time has ended if no moves are left, and it then gives the results of all items in their order. -/
theorem outcome_inTime (hcontinue : settings.continueOnError = true) (hvalid : Valid settings w items s)
    (hin : s.InTime) :
    s.outcome? settings w = if s.left = 0 then some (.ok (items.map (Batch.resultOf settings w))) else none := by
  have hdone : (s.waiting.isEmpty && s.admitted.isEmpty && s.running.isEmpty) = true ↔ s.left = 0 := by
    simp only [Bool.and_eq_true, List.isEmpty_iff, ← List.length_eq_zero_iff, left]
    omega
  rw [outcome?, failure?_eq_none hcontinue]
  dsimp only
  by_cases hleft : s.left = 0
  · have hempty := hdone.mpr hleft
    rw [if_pos hempty, if_pos hleft]
    simp only [Bool.and_eq_true, List.isEmpty_iff] at hempty
    have hall := hvalid.all_eq
    simp only [all, hempty.1.1, hempty.1.2, hempty.2, Multiset.coe_nil, zero_add, Multiset.coe_eq_coe] at hall
    have hresults : s.results settings w ~ items.zipIdx.map fun p => (p.2, Batch.resultOf settings w p.1) := by
      have hmap := hall.map fun p => (p.1, Batch.resultOf settings w p.2)
      rw [results_inTime hvalid hin]
      simpa [initial, Function.comp_def] using hmap
    rw [Batch.sorted_results _ items hresults]
  · rw [if_neg (mt hdone.mp hleft), if_neg hleft]

theorem exists_course (interruptible : Bool) (hcontinue : settings.continueOnError = true)
    (hreturns : ∀ item ∈ items, w.hangs item = false) (hvalid : Valid settings w items s) (hin : s.InTime) :
    ∃ moves next, (∀ m ∈ moves, m.inTime = true) ∧ s.after? settings w interruptible moves = some next ∧
      next.left = 0 := by
  -- By induction on the moves that are left.
  induction hleft : s.left using Nat.strong_induction_on generalizing s with
  | _ count ih =>
    by_cases hzero : count = 0
    · exact ⟨[], s, by simp, rfl, hleft.trans hzero⟩
    · obtain ⟨m, hm, hsome⟩ : ∃ m : Move, m.inTime = true ∧ (s.move? settings w interruptible m).isSome = true :=
        exists_move hcontinue hreturns hvalid hin (hleft ▸ hzero)
      obtain ⟨mid, hmove⟩ := Option.isSome_iff_exists.mp hsome
      have hmoved := moved_of_move? hmove
      have hless := hmoved.left_eq hm
      obtain ⟨moves, next, hmoves, hafter, hend⟩ := ih mid.left (by omega) (hvalid.move hmoved)
        (hmoved.inTime hm hin) rfl
      refine ⟨m :: moves, next, List.forall_mem_cons.mpr ⟨hm, hmoves⟩, ?_, hend⟩
      rw [after?, hmove]
      exact hafter

end Progress

end PackageExports
