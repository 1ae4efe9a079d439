import Mathlib.Tactic.Lemma
import PackageExports.Proofs.Keyed
import PackageExports.Settings.Check

/-!
# Checks without faults

A check that finds no fault is taken apart part by part: what a value must look like, and what it then stands for.

Main results: `Checked.bind_eq_iff`, `Checked.texts_eq_iff`, `Checked.field_eq_iff`.
-/

namespace PackageExports

/-- The value of the first of two names that has one. -/
def Json.Members.either? (members : Json.Members) (first second : Text) : Option Json :=
  members.value? first <|> members.value? second

namespace Checked

variable {α β : Type} {x : Checked α} {a standIn default : α} {place name first second : Text} {value : Json}
  {members : Json.Members}

@[simp] lemma value_bind (x : Checked α) (f : α → Checked β) : (x >>= f).value = (f x.value).value :=
  rfl

@[simp] lemma faults_bind (x : Checked α) (f : α → Checked β) :
    (x >>= f).faults = x.faults ++ (f x.value).faults :=
  rfl

lemma eq_iff : x = ⟨a, []⟩ ↔ x.faults = [] ∧ x.value = a := by
  constructor
  · rintro rfl
    exact ⟨rfl, rfl⟩
  · obtain ⟨value, faults⟩ := x
    rintro ⟨rfl, rfl⟩
    rfl

lemma toExcept_eq_ok : x.toExcept = .ok a ↔ x = ⟨a, []⟩ := by
  rw [toExcept, eq_iff, ← List.isEmpty_iff]
  by_cases hfaults : x.faults.isEmpty = true
  · rw [if_pos hfaults]
    exact ⟨fun h => ⟨hfaults, Except.ok.inj h⟩, fun h => congrArg Except.ok h.2⟩
  · rw [if_neg hfaults]
    exact ⟨nofun, fun h => absurd h.1 hfaults⟩

/-- A sequence of checks finds no fault if neither part does. -/
lemma bind_eq_iff {f : α → Checked β} {b : β} : x >>= f = ⟨b, []⟩ ↔ ∃ a, x = ⟨a, []⟩ ∧ f a = ⟨b, []⟩ := by
  rw [eq_iff, faults_bind, value_bind, List.append_eq_nil_iff]
  constructor
  · rintro ⟨⟨hfaults, hrest⟩, hvalue⟩
    exact ⟨x.value, eq_iff.mpr ⟨hfaults, rfl⟩, eq_iff.mpr ⟨hrest, hvalue⟩⟩
  · rintro ⟨a, rfl, hf⟩
    obtain ⟨hrest, hvalue⟩ := eq_iff.mp hf
    exact ⟨⟨rfl, hrest⟩, hvalue⟩

lemma map_eq_iff {f : α → β} {b : β} : f <$> x = ⟨b, []⟩ ↔ ∃ a, x = ⟨a, []⟩ ∧ f a = b := by
  have hpure (a : α) : (pure (f a) : Checked β) = ⟨b, []⟩ ↔ f a = b := by simp [pure]
  simp only [← hpure]
  exact bind_eq_iff

lemma pure_eq_iff {b : α} : (pure a : Checked α) = ⟨b, []⟩ ↔ a = b := by
  simp [pure]

lemma need_eq_iff {found : Option α} : need place standIn found = ⟨a, []⟩ ↔ found = some a := by
  cases found <;> simp [need]

lemma text_eq_iff {t : Text} : text place value = ⟨t, []⟩ ↔ value = .string t := by
  rw [text, need_eq_iff]
  cases value <;> simp [Json.text?]

lemma textsFrom_string (place : Text) (index : ℕ) (ts : List Text) :
    textsFrom place index (ts.map .string) = ⟨ts, []⟩ := by
  induction ts generalizing index with
  | nil => rfl
  | cons t rest ih =>
    rw [List.map_cons, textsFrom, ih]
    rfl

lemma eq_of_textsFrom {index : ℕ} {items : List Json} {ts : List Text} (h : textsFrom place index items = ⟨ts, []⟩) :
    items = ts.map .string := by
  induction items generalizing index ts with
  | nil =>
    obtain rfl := pure_eq_iff.mp h
    rfl
  | cons item rest ih =>
    obtain ⟨t, ht, h⟩ := bind_eq_iff.mp h
    obtain ⟨others, hothers, h⟩ := bind_eq_iff.mp h
    obtain rfl := pure_eq_iff.mp h
    rw [text_eq_iff.mp ht, ih hothers, List.map_cons]

lemma texts_eq_iff {ts : List Text} : texts place value = ⟨ts, []⟩ ↔ value = .array (ts.map .string) := by
  constructor
  · intro h
    cases value with
    | array items => rw [eq_of_textsFrom h]
    | _ => cases h
  · rintro rfl
    exact textsFrom_string place 0 ts

lemma field_eq_iff {read : Text → Json → Checked α} : field members name default read = ⟨a, []⟩ ↔
    (members.get? name = none ∧ default = a) ∨ ∃ value, members.get? name = some value ∧ read name value = ⟨a, []⟩ := by
  unfold field
  cases members.get? name <;> simp [pure_eq_iff]

lemma member?_single (members : Json.Members) (name : Text) :
    member? members [name] = (members.value? name).map (name, ·) := by
  simp only [member?, List.findSome?, Json.Members.value?]
  cases members.get? name <;> rfl

lemma member?_pair (members : Json.Members) (first second : Text) :
    (member? members [first, second] = none ∧ members.either? first second = none) ∨
      ∃ name value, member? members [first, second] = some (name, value) ∧
        members.either? first second = some value := by
  simp only [member?, List.findSome?, Json.Members.either?, Json.Members.value?]
  rcases members.get? first with _ | value
  · rcases members.get? second with _ | value
    · exact .inl ⟨rfl, rfl⟩
    · exact .inr ⟨second, value, rfl, rfl⟩
  · exact .inr ⟨first, value, rfl, rfl⟩

end Checked

end PackageExports
