import PackageExports.Batch.Basic

/-!
# Orders of a batch

The calls of a batch may begin and return in many orders. Items hold a slot from the time they are let in until they
have a result; a call that was given up may go on without a slot, and it then keeps a caller busy. There are as many
slots as callers. `Progress.move?` says which moves there are; a row of moves is one order of the batch.

Main definitions: `Move`, `Progress`, `Progress.errors`, `Progress.move?`, `Progress.after?`, `Progress.outcome?`.
-/

namespace PackageExports

/-- What happens to the item at a place: it is let in, its call begins, its call returns, it is given up, or its call
returns after it was given up. -/
inductive Move where
  | letIn (place : Nat)
  | call (place : Nat)
  | finish (place : Nat)
  | giveUp (place : Nat)
  | late (place : Nat)
deriving DecidableEq

/-- Whether a move does not need that an item was given up. -/
def Move.inTime : Move → Bool
  | .letIn _ | .call _ | .finish _ => true
  | .giveUp _ | .late _ => false

/-- How far a batch has come. -/
structure Progress (ι : Type) where
  waiting : List (Nat × ι)
  admitted : List (Nat × ι) := []
  running : List (Nat × ι) := []
  /-- The items that were given up while their calls go on. -/
  overdue : List (Nat × ι) := []
  /-- The items that have results, in the order in which they got them, and whether they got them in time. -/
  ended : List ((Nat × ι) × Bool) := []

namespace Progress

variable {ι α : Type}

def initial (items : List ι) : Progress ι where
  waiting := items.zipIdx.map fun (item, place) => (place, item)

def take? (place : Nat) : List (Nat × ι) → Option (ι × List (Nat × ι))
  | [] => none
  | p :: rest =>
    if p.1 = place then some (p.2, rest) else (take? place rest).map fun (item, others) => (item, p :: others)

def results (settings : BatchSettings) (w : Batch.Work ι α) (s : Progress ι) : List (Nat × ItemResult α) :=
  s.ended.filterMap fun ((place, item), inTime) =>
    if inTime then (Batch.enter settings w item).value.map (place, ·)
    else some (place, (Batch.giveUp settings w item).value)

/-- The labels of the items that have failed, each with its failure, in the order in which they failed. -/
def errors (settings : BatchSettings) (w : Batch.Work ι α) (s : Progress ι) : List (Text × Failure) :=
  (s.results settings w).filterMap fun (_, r) => r.failure.map (r.label, ·)

def failure? (settings : BatchSettings) (w : Batch.Work ι α) (s : Progress ι) : Option (Text × Failure) :=
  if settings.continueOnError then none else Batch.firstFailure? (s.results settings w)

/-- Gives up an item that was let in. A call under way that cannot be interrupted goes on. -/
def giveUp? (interruptible : Bool) (s : Progress ι) (place : Nat) : Option (Progress ι) :=
  match take? place s.admitted with
  | some (item, rest) => some { s with admitted := rest, ended := s.ended ++ [((place, item), false)] }
  | none =>
    (take? place s.running).map fun (item, rest) =>
      { s with
        running := rest
        overdue := if interruptible then s.overdue else s.overdue ++ [(place, item)]
        ended := s.ended ++ [((place, item), false)] }

/-- The progress after a move, if the batch has not ended and there is such a move. -/
def move? (settings : BatchSettings) (w : Batch.Work ι α) (interruptible : Bool) (s : Progress ι) (m : Move) :
    Option (Progress ι) :=
  if (s.failure? settings w).isSome then none
  else match m with
    | .letIn place =>
      if s.admitted.length + s.running.length < settings.concurrency then
        (take? place s.waiting).map fun (item, rest) =>
          { s with waiting := rest, admitted := s.admitted ++ [(place, item)] }
      else none
    | .call place =>
      -- a call that outlives its item still has one of the callers
      if s.running.length + s.overdue.length < settings.concurrency then
        (take? place s.admitted).map fun (item, rest) =>
          { s with admitted := rest, running := s.running ++ [(place, item)] }
      else none
    | .finish place =>
      ((take? place s.running).filter fun (item, _) => !w.hangs item).map fun (item, rest) =>
        { s with running := rest, ended := s.ended ++ [((place, item), true)] }
    | .giveUp place => giveUp? interruptible s place
    | .late place => (take? place s.overdue).map fun (_, rest) => { s with overdue := rest }

def after? (settings : BatchSettings) (w : Batch.Work ι α) (interruptible : Bool) (s : Progress ι) :
    List Move → Option (Progress ι)
  | [] => some s
  | m :: rest => (s.move? settings w interruptible m).bind fun next => next.after? settings w interruptible rest

/-- What a batch gives that has ended: the results of all items in their order, or the failure that ended it. -/
def outcome? (settings : BatchSettings) (w : Batch.Work ι α) (s : Progress ι) :
    Option (Except Failure (List (ItemResult α))) :=
  match s.failure? settings w with
  | some (label, failure) => some (.error (.aborted label failure))
  | none =>
    if s.waiting.isEmpty && s.admitted.isEmpty && s.running.isEmpty then
      some (.ok (((s.results settings w).mergeSort fun a b => a.1 ≤ b.1).map Prod.snd))
    else none

end Progress

end PackageExports
