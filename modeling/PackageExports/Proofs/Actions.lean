import Mathlib.Tactic.Lemma
import PackageExports.Proofs.Utf8
import PackageExports.World

/-!
# Running actions

`Action.outcome` is what an action gives and leaves in a world. Each effect has one law, and a sequence of actions is
taken apart by `outcome_bind`.
-/

namespace PackageExports

section Results

variable {α β ε : Type} {result : Except ε α} {b : β}

lemma bind_ok_iff {f : α → Except ε β} : result.bind f = .ok b ↔ ∃ a, result = .ok a ∧ f a = .ok b := by
  cases result <;> simp [Except.bind]

lemma map_ok_iff {f : α → β} : result.map f = .ok b ↔ ∃ a, result = .ok a ∧ f a = b := by
  cases result <;> simp [Except.map]

lemma ok_of_toOption {a : α} (h : result.toOption = some a) : result = .ok a := by
  cases result with
  | error e => cases h
  | ok b => exact congrArg Except.ok (Option.some.inj h)

lemma foldlM_preserves {P : β → Prop} {f : β → α → Except ε β} {items : List α} {start found : β} (hstart : P start)
    (hstep : ∀ a ∈ items, ∀ b b', P b → f b a = .ok b' → P b') (h : items.foldlM f start = .ok found) : P found := by
  induction items generalizing start with
  | nil =>
    obtain rfl := Except.ok.inj h
    exact hstart
  | cons a rest ih =>
    rw [List.foldlM_cons] at h
    obtain ⟨next, hnext, hrest⟩ := bind_ok_iff.mp h
    have hP : P next := hstep a List.mem_cons_self start next hstart hnext
    exact ih hP (fun a ha => hstep a (List.mem_cons_of_mem _ ha)) hrest

section Searches

variable {search search' : α → Except ε (Option β)} {places : List α}

lemma findSomeM?_eq_some (h : places.findSomeM? search = .ok (some b)) : ∃ a ∈ places, search a = .ok (some b) := by
  induction places with
  | nil => cases h
  | cons a rest ih =>
    rw [List.findSomeM?_cons] at h
    obtain ⟨found, hfound, h⟩ := bind_ok_iff.mp h
    cases found with
    | none =>
      obtain ⟨later, hlater, hsome⟩ := ih h
      exact ⟨later, List.mem_cons_of_mem _ hlater, hsome⟩
    | some first =>
      obtain rfl : first = b := Option.some.inj (Except.ok.inj h)
      exact ⟨a, List.mem_cons_self, hfound⟩

lemma findSomeM?_eq_none (h : places.findSomeM? search = .ok none) : ∀ a ∈ places, search a = .ok none := by
  induction places with
  | nil => exact List.forall_mem_nil _
  | cons a rest ih =>
    rw [List.findSomeM?_cons] at h
    obtain ⟨found, hfound, h⟩ := bind_ok_iff.mp h
    cases found with
    | none => exact List.forall_mem_cons.mpr ⟨hfound, ih h⟩
    | some first => cases h

lemma exists_findSomeM? (h : ∀ a ∈ places, ∃ found, search a = .ok found) :
    ∃ found, places.findSomeM? search = .ok found := by
  induction places with
  | nil => exact ⟨none, rfl⟩
  | cons a rest ih =>
    obtain ⟨⟨found, hfound⟩, hrest⟩ := List.forall_mem_cons.mp h
    rw [List.findSomeM?_cons, hfound]
    cases found with
    | none => exact ih hrest
    | some first => exact ⟨some first, rfl⟩

lemma findSomeM?_congr (h : ∀ a ∈ places, search' a = search a) :
    places.findSomeM? search' = places.findSomeM? search := by
  induction places with
  | nil => rfl
  | cons a rest ih =>
    obtain ⟨ha, hrest⟩ := List.forall_mem_cons.mp h
    rw [List.findSomeM?_cons, List.findSomeM?_cons, ha, ih hrest]

end Searches

end Results

namespace Attempt

variable {α β : Type}

def result (x : Attempt α) : Except Failure α :=
  x.run.value

@[simp] lemma result_pure (a : α) : (pure a : Attempt α).result = .ok a :=
  rfl

@[simp] lemma result_throw (e : Failure) : (throw e : Attempt α).result = .error e :=
  rfl

@[simp] lemma result_bind (x : Attempt α) (f : α → Attempt β) :
    (x >>= f).result = x.result.bind fun a => (f a).result := by
  simp only [result, ExceptT.run_bind]
  rw [Noted.value_bind]
  cases x.run.value <;> rfl

@[simp] lemma result_map (f : α → β) (x : Attempt α) : (f <$> x).result = x.result.map f := by
  simp only [result, ExceptT.run_map]
  rfl

@[simp] lemma result_lift (x : Noted α) : result (ExceptT.lift x) = .ok x.value :=
  rfl

@[simp] lemma result_ofExcept (r : Except Failure α) : (ofExcept r).result = r :=
  rfl

def notices (x : Attempt α) : List Notice :=
  x.run.notices

lemma notices_bind (x : Attempt α) (f : α → Attempt β) :
    (x >>= f).notices = x.notices ++ match x.result with
      | .ok a => (f a).notices
      | .error _ => [] := by
  simp only [notices, result, ExceptT.run_bind]
  rw [Noted.notices_bind]
  cases x.run.value <;> rfl

@[simp] lemma notices_lift (x : Noted α) : notices (ExceptT.lift x) = x.notices :=
  List.append_nil x.notices

@[simp] lemma notices_ofExcept (r : Except Failure α) : (ofExcept r).notices = [] :=
  rfl

end Attempt

namespace Action

variable {α β : Type} {w : World}

/-- What an action gives and leaves. -/
def outcome (x : Action α) (w : World) : Except Failure α × World :=
  x.run w

@[simp] lemma outcome_pure (a : α) : (pure a : Action α).outcome w = (.ok a, w) :=
  rfl

@[simp] lemma outcome_throw (e : Failure) : (throw e : Action α).outcome w = (.error e, w) :=
  rfl

/-- A sequence goes on in the world that its first part leaves. -/
lemma outcome_bind (x : Action α) (f : α → Action β) (w : World) :
    (x >>= f).outcome w =
      match x.outcome w with
      | (.ok a, w') => (f a).outcome w'
      | (.error e, w') => (.error e, w') := by
  have hrun : (x >>= f).outcome w = (ExceptT.bindCont f (x.outcome w).1) (x.outcome w).2 := rfl
  rw [hrun]
  rcases x.outcome w with ⟨_ | _, _⟩ <;> rfl

lemma outcome_bind_ok {x : Action α} {f : α → Action β} {a : α} {w' : World} (h : x.outcome w = (.ok a, w')) :
    (x >>= f).outcome w = (f a).outcome w' := by
  rw [outcome_bind, h]

lemma of_bind_ok {x : Action α} {f : α → Action β} {b : β} {w' : World} (h : (x >>= f).outcome w = (.ok b, w')) :
    ∃ a w₁, x.outcome w = (.ok a, w₁) ∧ (f a).outcome w₁ = (.ok b, w') := by
  rw [outcome_bind] at h
  rcases hx : x.outcome w with ⟨_ | a, w₁⟩
  · rw [hx] at h
    simp at h
  · rw [hx] at h
    exact ⟨a, w₁, rfl, h⟩

lemma of_bind_error {x : Action α} {f : α → Action β} {e : Failure} {w' : World}
    (h : (x >>= f).outcome w = (.error e, w')) :
    x.outcome w = (.error e, w') ∨ ∃ a w₁, x.outcome w = (.ok a, w₁) ∧ (f a).outcome w₁ = (.error e, w') := by
  rw [outcome_bind] at h
  rcases hx : x.outcome w with ⟨found | a, w₁⟩ <;> rw [hx] at h
  · obtain ⟨he, rfl⟩ := Prod.mk.inj h
    rw [Except.error.inj he]
    exact .inl rfl
  · exact .inr ⟨a, w₁, rfl, h⟩

@[simp] lemma outcome_map (f : α → β) (x : Action α) :
    (f <$> x).outcome w = ((x.outcome w).1.map f, (x.outcome w).2) := by
  simp only [outcome, ExceptT.run_map]
  rfl

@[simp] lemma outcome_files : files.outcome w = (.ok w.files, w) :=
  rfl

@[simp] lemma outcome_note (n : Notice) : (note n).outcome w = (.ok (), { w with notices := w.notices ++ [n] }) :=
  rfl

@[simp] lemma outcome_ofNoted (x : Noted α) :
    (ofNoted x).outcome w = (.ok x.value, { w with notices := w.notices ++ x.notices }) :=
  rfl

@[simp] lemma outcome_ofExcept (r : Except Failure α) : (ofExcept r).outcome w = (r, w) :=
  rfl

@[simp] lemma outcome_ofAttempt (x : Attempt α) :
    (ofAttempt x).outcome w = (x.result, { w with notices := w.notices ++ x.notices }) :=
  rfl

/-- What becomes of a write: nothing happened, the file was emptied for a text without an encoding, or it has the bytes
of the text. -/
inductive Written (fs : FileSystem) (path t : Text) : Except Cause Unit → FileSystem → Prop
  | refused {e : AccessError} : fs.write path [] = .error e → Written fs path t (.error (.access e)) fs
  | emptied {after : FileSystem} : fs.write path [] = .ok after → Utf8.encode? t = none →
      Written fs path t (.error .notEncodable) after
  | done {after : FileSystem} {bytes : List UInt8} : Utf8.encode? t = some bytes →
      fs.write path bytes = .ok after → Written fs path t (.ok ()) after

/-- Whether a write succeeds does not depend on what is written. -/
lemma write_ok_of_ok {fs after : FileSystem} {path : Text} {content : List UInt8}
    (h : fs.write path content = .ok after) (other : List UInt8) : ∃ after, fs.write path other = .ok after := by
  unfold FileSystem.write at h ⊢
  split
  · exact ⟨_, rfl⟩
  · rename_i location hplace
    simp only [hplace] at h
    split
    · exact ⟨_, rfl⟩
    · rename_i hentry
      split at h
      · rename_i old hfile
        exact absurd hfile (hentry old)
      · cases h
  · rename_i e hplace
    simp only [hplace] at h
    cases h

/-- Writing a text never ends the action, and it changes the files in one of the three ways only. -/
lemma outcome_writeText (path : Path) (t : Text) (w : World) :
    ∃ r files, (writeText path t).outcome w = (.ok r, { w with files := files }) ∧
      Written w.files path.text t r files := by
  have hget : (get : Action World).outcome w = (.ok w, w) := rfl
  have hset (files : FileSystem) : (set { w with files := files } : Action PUnit).outcome w =
      (.ok (), { w with files := files }) := rfl
  unfold writeText
  rw [outcome_bind, hget]
  dsimp only
  cases hempty : w.files.write path.text [] with
  | error e => exact ⟨_, _, rfl, .refused hempty⟩
  | ok emptied =>
    dsimp only
    cases hencode : Utf8.encode? t with
    | none =>
      dsimp only
      rw [outcome_bind, hset]
      exact ⟨_, _, rfl, .emptied hempty hencode⟩
    | some bytes =>
      dsimp only
      obtain ⟨written, hwrite⟩ := write_ok_of_ok hempty bytes
      rw [hwrite]
      dsimp only
      rw [outcome_bind, hset]
      exact ⟨_, _, rfl, .done hencode hwrite⟩

end Action

end PackageExports
