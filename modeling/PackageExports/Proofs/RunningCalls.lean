import PackageExports.Proofs.Schedules

/-!
# Calls under way

An item that was given up has no slot any more, but its call may go on, so the items with slots and the calls under
way drift apart: as many items again may be let in while all callers are still busy. Each call that began has either
returned or is still under way, every item is called at most once, and not after it has its result. So at no time
there are more calls under way than callers, those of items that were given up included.

Main results: `Progress.executing_le_concurrency`, `Progress.not_called_of_ended`.
-/

namespace PackageExports

open scoped List

/-- The settings under which no failure ends the batch. The moves under them are those of a batch that a failure ends
as well, together with all moves that the items that were let in may make until they are cancelled. -/
def BatchSettings.collecting (settings : BatchSettings) : BatchSettings :=
  { settings with continueOnError := true }

namespace Progress

variable {ι α : Type} {settings : BatchSettings} {w : Batch.Work ι α} {interruptible : Bool}
  {items : List ι} {s next : Progress ι} {m : Move} {moves earlier later : List Move}

lemma after?_cons (s : Progress ι) (m : Move) (rest : List Move) :
    s.after? settings w interruptible (m :: rest) =
      (s.move? settings w interruptible m).bind fun next => next.after? settings w interruptible rest :=
  rfl

lemma after?_append (s : Progress ι) (earlier later : List Move) :
    s.after? settings w interruptible (earlier ++ later) =
      (s.after? settings w interruptible earlier).bind fun mid => mid.after? settings w interruptible later := by
  induction earlier generalizing s with
  | nil => rfl
  | cons m rest ih =>
    rw [List.cons_append, after?_cons, after?_cons, Option.bind_assoc]
    simp only [ih]

lemma move?_collecting (h : s.move? settings w interruptible m = some next) :
    s.move? settings.collecting w interruptible m = some next := by
  unfold move? at h ⊢
  by_cases hended : (s.failure? settings w).isSome
  · rw [if_pos hended] at h
    cases h
  · rw [if_neg hended] at h
    rw [if_neg (by simp [failure?_eq_none (show settings.collecting.continueOnError = true from rfl)])]
    exact h

/-- What follows for all orders of a batch that collects failures follows for those of a batch that they end. -/
lemma after?_collecting (h : s.after? settings w interruptible moves = some next) :
    s.after? settings.collecting w interruptible moves = some next := by
  induction moves generalizing s with
  | nil => exact h
  | cons m rest ih =>
    obtain ⟨mid, hmove, hrest⟩ := Option.bind_eq_some_iff.mp h
    rw [after?_cons, move?_collecting hmove]
    exact ih hrest

/-- The calls under way: those of the items that still have slots, and those of items that were given up. -/
def executing (s : Progress ι) : List (ℕ × ι) :=
  s.running ++ s.overdue

/-- How often a place stands in a row of items. -/
def countAt (place : ℕ) (row : List (ℕ × ι)) : ℕ :=
  (row.map Prod.fst).count place

@[simp] lemma countAt_nil (place : ℕ) : countAt place ([] : List (ℕ × ι)) = 0 := rfl

@[simp] lemma countAt_append (place : ℕ) (row others : List (ℕ × ι)) :
    countAt place (row ++ others) = countAt place row + countAt place others := by
  rw [countAt, List.map_append, List.count_append]
  rfl

@[simp] lemma countAt_cons (place : ℕ) (p : ℕ × ι) (row : List (ℕ × ι)) :
    countAt place (p :: row) = countAt place row + if p.1 = place then 1 else 0 := by
  simp only [countAt, List.map_cons, List.count_cons, beq_iff_eq]

lemma countAt_perm {row others : List (ℕ × ι)} (h : row ~ others) (place : ℕ) :
    countAt place row = countAt place others :=
  (h.map Prod.fst).count_eq place

lemma countAt_initial (place : ℕ) (items : List ι) : countAt place (initial items).waiting ≤ 1 := by
  have hplaces : (initial items).waiting.map Prod.fst = items.zipIdx.map Prod.snd := by
    rw [initial, List.map_map]
    rfl
  have hnodup : ((initial items).waiting.map Prod.fst).Nodup := by
    rw [hplaces, List.zipIdx_map_snd]
    exact List.nodup_range'
  exact List.nodup_iff_count_le_one.mp hnodup place

/-- Every item is in one place only. -/
lemma Valid.countAt_le_one (hvalid : Valid settings w items s) (place : ℕ) :
    countAt place s.waiting + countAt place s.admitted + countAt place s.running +
      countAt place (s.ended.map Prod.fst) ≤ 1 := by
  have hall := hvalid.all_eq
  simp only [all, Multiset.coe_add, Multiset.coe_eq_coe] at hall
  have hcount := (countAt_perm hall place).trans_le (countAt_initial place items)
  simpa only [countAt_append] using hcount

/-! ### Calls and returns -/

lemma Moved.calls (h : Moved settings w interruptible s m next) (place : ℕ) :
    [m].count (.call place) + (countAt place next.waiting + countAt place next.admitted) ≤
      countAt place s.waiting + countAt place s.admitted := by
  cases h with
  | letIn _ htake | call _ htake | dropped htake =>
    have hcount := countAt_perm htake place
    simp only [countAt_append, countAt_cons, countAt_nil, List.count_singleton, beq_iff_eq, reduceCtorEq, if_false,
      Move.call.injEq] at hcount ⊢
    omega
  | finish | lingering | late => simp

lemma Moved.executing (h : Moved settings w false s m next) (place : ℕ) :
    [m].count (.call place) + countAt place s.executing =
      [m].count (.finish place) + [m].count (.late place) + countAt place next.executing := by
  cases h with
  | letIn | dropped => simp [Progress.executing]
  | call _ htake | finish _ htake | lingering htake | late htake =>
    have hcount := countAt_perm htake place
    simp only [Progress.executing, countAt_append, countAt_cons, countAt_nil, List.count_singleton, beq_iff_eq,
      reduceCtorEq, if_false, Move.call.injEq, Move.finish.injEq, Move.late.injEq, Bool.false_eq_true] at hcount ⊢
    omega

lemma count_calls (h : s.after? settings w interruptible moves = some next) (place : ℕ) :
    moves.count (.call place) + (countAt place next.waiting + countAt place next.admitted) ≤
      countAt place s.waiting + countAt place s.admitted := by
  induction moves generalizing s with
  | nil =>
    obtain rfl := Option.some.inj h
    simp
  | cons m rest ih =>
    obtain ⟨mid, hmove, hrest⟩ := Option.bind_eq_some_iff.mp h
    have hfirst := (moved_of_move? hmove).calls place
    have hlater := ih hrest
    rw [← List.singleton_append, List.count_append]
    omega

lemma count_executing (h : s.after? settings w false moves = some next) (place : ℕ) :
    moves.count (.call place) + countAt place s.executing =
      moves.count (.finish place) + moves.count (.late place) + countAt place next.executing := by
  induction moves generalizing s with
  | nil =>
    obtain rfl := Option.some.inj h
    simp
  | cons m rest ih =>
    obtain ⟨mid, hmove, hrest⟩ := Option.bind_eq_some_iff.mp h
    have hfirst := (moved_of_move? hmove).executing place
    have hlater := ih hrest
    rw [← List.singleton_append, List.count_append, List.count_append, List.count_append]
    omega

/-! ### Items that were given up -/

/-- The calls that go on without a slot are those of items whose failure has been reported; calls that can be
interrupted do not go on. -/
structure Reported (interruptible : Bool) (s : Progress ι) : Prop where
  ended : ∀ p ∈ s.overdue, (p, false) ∈ s.ended
  interrupted : interruptible = true → s.overdue = []

lemma reported_initial (interruptible : Bool) (items : List ι) : Reported interruptible (initial items) where
  ended := by simp [initial]
  interrupted _ := rfl

lemma Reported.move (hreported : Reported interruptible s) (h : Moved settings w interruptible s m next) :
    Reported interruptible next where
  ended := by
    have hold := hreported.ended
    cases h with
    | letIn | call => exact hold
    | finish | dropped => exact fun p hp => List.mem_append_left _ (hold p hp)
    | lingering =>
      intro p hp
      dsimp only at hp ⊢
      split_ifs at hp
      · exact List.mem_append_left _ (hold p hp)
      · exact (List.mem_append.mp hp).elim (fun hp => List.mem_append_left _ (hold p hp))
          fun hp => List.mem_append_right _ (by simpa using hp)
    | late htake => exact fun p hp => hold p (htake.mem_iff.mpr (List.mem_cons_of_mem _ hp))
  interrupted hin := by
    have hold := hreported.interrupted hin
    cases h with
    | letIn | call | finish | dropped => exact hold
    | lingering => rw [← hold, if_pos hin]
    | late htake =>
      rw [hold] at htake
      exact absurd htake.nil_eq (List.cons_ne_nil _ _).symm

lemma Reported.after (hreported : Reported interruptible s)
    (h : s.after? settings w interruptible moves = some next) : Reported interruptible next :=
  after?_preserves Reported.move hreported h

lemma mem_ended_of_giveUp {place : ℕ} (h : s.move? settings w interruptible (.giveUp place) = some next) :
    ∃ item, ((place, item), false) ∈ next.ended := by
  cases moved_of_move? h with
  | dropped => exact ⟨_, List.mem_append_right _ (List.mem_singleton.mpr rfl)⟩
  | lingering => exact ⟨_, List.mem_append_right _ (List.mem_singleton.mpr rfl)⟩

/-- No call begins for an item that has its result. -/
lemma not_called_of_ended (hvalid : Valid settings w items s) {e : (ℕ × ι) × Bool} (he : e ∈ s.ended)
    (h : s.after? settings w interruptible moves = some next) : .call e.1.1 ∉ moves := by
  have hplaces := hvalid.countAt_le_one e.1.1
  have hended : 0 < countAt e.1.1 (s.ended.map Prod.fst) :=
    List.count_pos_iff.mpr (List.mem_map_of_mem (List.mem_map_of_mem he))
  have hcalls := count_calls h e.1.1
  rw [← List.count_eq_zero]
  omega

/-- However the calls of a batch begin, return or outlive the time they have, at no time there are more calls under way
than the settings allow, those of items that were given up included, and no more items have slots. The calls under way
are those that have begun and have not returned, if they cannot be interrupted; no item is called twice, and none after
it was given up. -/
theorem executing_le_concurrency
    (h : (initial items).after? settings.collecting w interruptible moves = some s) :
    s.executing.length ≤ settings.concurrency ∧
    s.admitted.length + s.running.length ≤ settings.concurrency ∧
    (interruptible = false → ∀ place,
      moves.count (.call place) =
        moves.count (.finish place) + moves.count (.late place) + countAt place s.executing) ∧
    (interruptible = true → s.executing = s.running) ∧
    (∀ p ∈ s.overdue, (p, false) ∈ s.ended) ∧
    (∀ place, moves.count (.call place) ≤ 1) ∧
    ∀ place earlier later, moves = earlier ++ .giveUp place :: later → .call place ∉ later := by
  have hvalid := (valid_initial settings.collecting w items).after h
  have hreported := (reported_initial interruptible items).after h
  refine ⟨?_, hvalid.slots, ?_, ?_, hreported.ended, ?_, ?_⟩
  · rw [executing, List.length_append]
    exact hvalid.callers
  · rintro rfl place
    have hcount := count_executing h place
    simpa [initial, executing] using hcount
  · intro hin
    rw [executing, hreported.interrupted hin, List.append_nil]
  · intro place
    have hcalls := count_calls h place
    have hinitial := countAt_initial place items
    have hadmitted : countAt place (initial items).admitted = 0 := rfl
    omega
  · rintro place earlier later rfl
    rw [after?_append] at h
    obtain ⟨mid, hearlier, hlater⟩ := Option.bind_eq_some_iff.mp h
    obtain ⟨given, hmove, hrest⟩ := Option.bind_eq_some_iff.mp hlater
    have hgiven := ((valid_initial settings.collecting w items).after hearlier).move (moved_of_move? hmove)
    obtain ⟨item, hitem⟩ := mem_ended_of_giveUp hmove
    exact not_called_of_ended hgiven hitem hrest

/-- Two items at a time, in calls that do not return. -/
def stuck : Batch.Work Text Unit where
  label := id
  operation _ := pure .hangs

def twoAtATime : BatchSettings where
  concurrency := ⟨2, by decide⟩

/-- Both callers are busy with items that were given up when the next two are let in; one of these is given up before
it is called, and the other one is called when the first call returns after all. -/
def drifting : List Move :=
  [.letIn 0, .letIn 1, .call 0, .call 1, .giveUp 1, .giveUp 0, .letIn 2, .letIn 3, .giveUp 2, .letIn 4, .late 1,
    .call 3]

def fiveItems : List Text :=
  ["a", "b", "c", "d", "e"]

/-- Two items have slots and two calls are under way, but only one of them is the call of an item with a slot. -/
theorem executing_le_concurrency_drifting :
    ∃ s, (initial fiveItems).after? twoAtATime.collecting stuck false drifting = some s ∧
      s.executing.length ≤ 2 ∧ .call 2 ∉ drifting ∧
      s.executing = [(3, Text.ofString "d"), (0, "a")] ∧ s.admitted = [(4, Text.ofString "e")] := by
  have hruns : ((initial fiveItems).after? twoAtATime.collecting stuck false drifting).map
      (fun s => (s.executing, s.admitted)) =
        some ([(3, Text.ofString "d"), (0, "a")], [(4, Text.ofString "e")]) := by decide +kernel
  obtain ⟨s, hs, hstate⟩ := Option.map_eq_some_iff.mp hruns
  obtain ⟨hexecuting, hadmitted⟩ := Prod.mk.inj hstate
  obtain ⟨hcalls, -, hcounts, -⟩ := executing_le_concurrency hs
  have hcount := hcounts rfl 2
  have hnone : countAt 2 s.executing = 0 := by rw [hexecuting]; decide
  refine ⟨s, hs, hcalls, ?_, hexecuting, hadmitted⟩
  rw [← List.count_eq_zero, hcount, hnone]
  decide

end Progress

end PackageExports
