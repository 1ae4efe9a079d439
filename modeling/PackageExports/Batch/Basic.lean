import PackageExports.Notice
import PackageExports.Settings.Basic

/-!
# Batches

An operation is run on a row of items, on so many at a time as the settings allow. An item that is waiting is let in
as soon as another one has finished; operations that never finish are given up together when nothing else can go on.
Failures are collected, or the first one ends the batch: those that were let in at that moment still run.

Main definitions: `Course`, `Round`, `Batch.rounds`, `Batch.run`.
-/

namespace PackageExports

/-- What becomes of an operation. -/
inductive Course (α : Type) where
  | returns (value : α)
  | fails (failure : Failure)
  | hangs

/-- What became of an item. -/
structure ItemResult (α : Type) where
  label : Text
  success : Bool
  value : Option α := none
  failure : Option Failure := none
  /-- Whether the time that the operation took was kept. -/
  timed : Bool

/-- A step of a batch: items are let in, and all of them finish that do not hang; or the hanging ones are given up. -/
inductive Round (ι : Type) where
  | enter (items : List ι)
  | giveUp (items : List ι)

namespace Batch

variable {ι α : Type}

/-- The steps of a batch with some items waiting and some hanging. -/
def rounds (slots : Nat) (hangs : ι → Bool) (waiting stuck : List ι) : List (Round ι) :=
  let free := slots - stuck.length
  if waiting = [] ∨ free = 0 then
    if stuck = [] then []
    -- nothing else can go on until those that hang have run out of time
    else .giveUp stuck :: rounds slots hangs waiting []
  else
    let entering := waiting.take free
    .enter entering :: rounds slots hangs (waiting.drop free) (stuck ++ entering.filter hangs)
termination_by 2 * waiting.length + stuck.length
decreasing_by
  · rename_i hs
    have := List.length_pos_iff.2 hs
    simp only [List.length_nil]
    omega
  · rename_i hw
    have hfilter : ((waiting.take (slots - stuck.length)).filter hangs).length ≤ _ :=
      List.length_filter_le _ _
    have hpos : 0 < waiting.length := List.length_pos_iff.2 fun h => hw (.inl h)
    have hfree : slots - stuck.length ≠ 0 := fun h => hw (.inr h)
    simp only [List.length_take, List.length_append, List.length_drop] at hfilter ⊢
    omega

/-- What is done with each item of a batch. -/
structure Work (ι α : Type) where
  label : ι → Text
  operation : ι → Noted (Course α)
  accept : α → Bool := fun _ => true

def Work.hangs (w : Work ι α) (item : ι) : Bool :=
  match (w.operation item).value with
  | .hangs => true
  | _ => false

def failed (settings : BatchSettings) (label : Text) (failure : Failure) : Noted (ItemResult α) := do
  Noted.note (.itemFailed label failure)
  return { label, success := false, failure := some failure, timed := settings.collectStats }

/-- Runs the operation on an item; there is no result yet if it hangs. -/
def enter (settings : BatchSettings) (w : Work ι α) (item : ι) : Noted (Option (ItemResult α)) := do
  match ← w.operation item with
  | .returns value =>
    return some { label := w.label item, success := w.accept value, value := some value,
                  timed := settings.collectStats }
  | .fails failure => some <$> failed settings (w.label item) failure
  | .hangs => return none

def giveUp (settings : BatchSettings) (w : Work ι α) (item : ι) : Noted (ItemResult α) :=
  failed settings (w.label item) (.timeout settings.operationTimeout)

/-- The results of the items that finish in a step, each with its place in the batch. -/
def perform (settings : BatchSettings) (w : Work ι α) :
    Round (Nat × ι) → Noted (List (Nat × ItemResult α))
  | .enter items => do
    let results ← items.mapM fun (place, item) => do return (← enter settings w item).map (place, ·)
    return results.filterMap id
  | .giveUp items => items.mapM fun (place, item) => do return (place, ← giveUp settings w item)

def firstFailure? (results : List (Nat × ItemResult α)) : Option (Text × Failure) :=
  results.findSome? fun (_, r) => r.failure.map (r.label, ·)

/-- Runs what was let in when the batch ended. -/
def performLast (settings : BatchSettings) (w : Work ι α) : List (Round (Nat × ι)) → Noted Unit
  | .enter items :: _ => do
    let _ ← perform settings w (.enter items)
  | _ => return

def performAll (settings : BatchSettings) (w : Work ι α) :
    List (Round (Nat × ι)) → Attempt (List (Nat × ItemResult α))
  | [] => return []
  | round :: rest => do
    let results ← ExceptT.lift (perform settings w round)
    match if settings.continueOnError then none else firstFailure? results with
    | some (label, failure) =>
      -- the items that got the free slots still run
      ExceptT.lift (performLast settings w rest)
      throw (.aborted label failure)
    | none => return results ++ (← performAll settings w rest)

/-- The results of all items in their order. -/
def run (settings : BatchSettings) (w : Work ι α) (items : List ι) : Attempt (List (ItemResult α)) := do
  let placed := items.zipIdx.map fun (item, place) => (place, item)
  let results ← performAll settings w (rounds settings.concurrency (fun p => w.hangs p.2) placed [])
  return (results.mergeSort fun a b => a.1 ≤ b.1).map Prod.snd

def failures (results : List (ItemResult α)) : List (Text × Failure) :=
  results.filterMap fun r => r.failure.map (r.label, ·)

def successful (results : List (ItemResult α)) : List (ItemResult α) :=
  results.filter (·.success)

def successCount (results : List (ItemResult α)) : Nat :=
  (successful results).length

def failureCount (results : List (ItemResult α)) : Nat :=
  results.length - successCount results

/-- An operation that always returns or fails. -/
def ofAttempt (x : Attempt α) : Noted (Course α) := do
  match ← x.run with
  | .ok value => return .returns value
  | .error failure => return .fails failure

end Batch

end PackageExports
