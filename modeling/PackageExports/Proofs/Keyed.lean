import Mathlib.Data.List.Basic
import Mathlib.Tactic.Lemma
import PackageExports.Keyed

/-!
# Laws of values under keys

How assigning to a key changes the keys and the values, and that pairs whose keys are distinct are a map as they are.
-/

namespace PackageExports

namespace Keyed

variable {κ α β : Type} [DecidableEq κ]

lemma get?_map (f : α → β) (m : Keyed κ α) (key : κ) :
    get? key (m.map fun p => (p.1, f p.2)) = (get? key m).map f := by
  induction m with
  | nil => rfl
  | cons p rest ih =>
    rw [List.map_cons, get?, get?, ih]
    split_ifs <;> rfl

lemma map_insert (f : α → β) {m : Keyed κ α} {key : κ} {old : α} (value : α) (hold : get? key m = some old)
    (hf : f value = f old) :
    (insert key value m).map (fun p => (p.1, f p.2)) = m.map fun p => (p.1, f p.2) := by
  induction m with
  | nil => cases hold
  | cons p rest ih =>
    rw [get?] at hold
    rw [insert]
    split_ifs at hold ⊢ with hp
    · obtain rfl := Option.some.inj hold
      rw [List.map_cons, List.map_cons, hp, hf]
    · rw [List.map_cons, List.map_cons, ih hold]

omit [DecidableEq κ] in
lemma map_congr_of_keys (f : α → β) {m n : Keyed κ α} (hkeys : keys m = keys n)
    (h : ∀ key a b, (key, a) ∈ m → (key, b) ∈ n → f a = f b) :
    (m.map fun p => (p.1, f p.2)) = n.map fun p => (p.1, f p.2) := by
  induction m generalizing n with
  | nil =>
    obtain rfl : n = [] := List.map_eq_nil_iff.mp hkeys.symm
    rfl
  | cons p rest ih =>
    cases n with
    | nil => cases hkeys
    | cons q others =>
      obtain ⟨hkey, hrest⟩ := List.cons.inj hkeys
      have hvalue : f p.2 = f q.2 := h p.1 p.2 q.2 List.mem_cons_self (hkey ▸ List.mem_cons_self)
      have hothers := ih hrest fun key a b ha hb => h key a b (List.mem_cons_of_mem _ ha) (List.mem_cons_of_mem _ hb)
      rw [List.map_cons, List.map_cons, hkey, hvalue, hothers]

lemma get?_eq_none {m : Keyed κ α} {key : κ} : get? key m = none ↔ key ∉ keys m := by
  induction m with
  | nil => simp [get?, keys]
  | cons p rest ih =>
    rw [get?, keys, List.map_cons, List.mem_cons, not_or]
    by_cases hp : p.1 = key
    · simp [hp]
    · rw [if_neg hp, ih]
      exact ⟨fun h => ⟨Ne.symm hp, h⟩, fun h => h.2⟩

lemma hasKey_iff {m : Keyed κ α} {key : κ} : m.hasKey key = true ↔ key ∈ keys m := by
  rw [hasKey, Option.isSome_iff_ne_none, Ne, get?_eq_none, not_not]

lemma hasKey_eq_false {m : Keyed κ α} {key : κ} : m.hasKey key = false ↔ key ∉ keys m := by
  rw [← hasKey_iff, Bool.not_eq_true]

omit [DecidableEq κ] in
lemma keys_append (m n : Keyed κ α) : keys (m ++ n) = keys m ++ keys n :=
  List.map_append

lemma mem_of_get? {m : Keyed κ α} {key : κ} {value : α} (h : get? key m = some value) : (key, value) ∈ m := by
  induction m with
  | nil => cases h
  | cons p rest ih =>
    rw [get?] at h
    split_ifs at h with hp
    · obtain rfl := Option.some.inj h
      rw [← hp]
      exact List.mem_cons_self
    · exact List.mem_cons_of_mem _ (ih h)

lemma insert_of_notMem {m : Keyed κ α} {key : κ} (value : α) (h : key ∉ keys m) :
    insert key value m = m ++ [(key, value)] := by
  induction m with
  | nil => rfl
  | cons p rest ih =>
    obtain ⟨hp, hrest⟩ := not_or.mp (mt List.mem_cons.mpr h)
    rw [insert, if_neg (Ne.symm hp), ih hrest, List.cons_append]

/-- A new value stands at the place of the old one, or at the end if there is none. -/
lemma insert_cases (m : Keyed κ α) (key : κ) (value : α) :
    (∃ front old back, m = front ++ (key, old) :: back ∧ insert key value m = front ++ (key, value) :: back) ∨
      key ∉ keys m ∧ insert key value m = m ++ [(key, value)] := by
  by_cases hkey : key ∈ keys m
  · left
    induction m with
    | nil => cases hkey
    | cons p rest ih =>
      rw [insert]
      split_ifs with hp
      · exact ⟨[], p.2, rest, by rw [← hp]; rfl, rfl⟩
      · have hrest : key ∈ keys rest := (List.mem_cons.mp hkey).resolve_left (Ne.symm hp)
        obtain ⟨front, old, back, hold, hnew⟩ := ih hrest
        exact ⟨p :: front, old, back, congrArg (p :: ·) hold, congrArg (p :: ·) hnew⟩
  · exact .inr ⟨hkey, insert_of_notMem value hkey⟩

lemma insert_insert (m : Keyed κ α) (key : κ) (value other : α) :
    insert key other (insert key value m) = insert key other m := by
  induction m with
  | nil => simp [insert]
  | cons p rest ih =>
    by_cases hp : p.1 = key
    · simp [insert, hp]
    · simp [insert, hp, ih]

lemma insert_of_get? {m : Keyed κ α} {key : κ} {value : α} (h : get? key m = some value) : insert key value m = m := by
  induction m with
  | nil => cases h
  | cons p rest ih =>
    rw [get?] at h
    rw [insert]
    split_ifs at h ⊢ with hp
    · rw [← hp, ← Option.some.inj h]
    · rw [ih h]

lemma get?_append_of_some {m : Keyed κ α} {key : κ} {value : α} (h : get? key m = some value) (n : Keyed κ α) :
    get? key (m ++ n) = some value := by
  induction m with
  | nil => cases h
  | cons p rest ih =>
    rw [get?] at h
    rw [List.cons_append, get?]
    split_ifs at h ⊢ with hp
    · exact h
    · exact ih h

lemma keys_insert_of_mem {m : Keyed κ α} {key : κ} (value : α) (h : key ∈ keys m) :
    keys (insert key value m) = keys m := by
  induction m with
  | nil => cases h
  | cons p rest ih =>
    rw [insert]
    split_ifs with hp
    · simp only [keys, List.map_cons, hp]
    · have hrest : key ∈ keys rest := (List.mem_cons.mp h).resolve_left (Ne.symm hp)
      exact congrArg (p.1 :: ·) (ih hrest)

lemma get?_of_mem {m : Keyed κ α} {key : κ} {value : α} (hnodup : (keys m).Nodup) (h : (key, value) ∈ m) :
    get? key m = some value := by
  induction m with
  | nil => cases h
  | cons p rest ih =>
    obtain ⟨hp, hrest⟩ := List.nodup_cons.mp hnodup
    rw [get?]
    rcases List.mem_cons.mp h with rfl | h
    · exact if_pos rfl
    · rw [if_neg, ih hrest h]
      rintro rfl
      exact hp (List.mem_map.mpr ⟨_, h, rfl⟩)

lemma insertAll_of_nodup {m : Keyed κ α} {pairs : List (κ × α)} (h : (keys (m ++ pairs)).Nodup) :
    insertAll m pairs = m ++ pairs := by
  induction pairs generalizing m with
  | nil => exact (List.append_nil m).symm
  | cons p rest ih =>
    have hnew : p.1 ∉ keys m := by
      intro hmem
      rw [keys, List.map_append] at h
      exact (List.nodup_append.mp h).2.2 _ hmem _ (List.mem_map_of_mem List.mem_cons_self) rfl
    rw [List.append_cons] at h ⊢
    rw [← insert_of_notMem p.2 hnew] at h ⊢
    exact ih h

lemma ofPairs_of_nodup {pairs : List (κ × α)} (h : (keys pairs).Nodup) : ofPairs pairs = pairs :=
  insertAll_of_nodup (m := []) h

lemma nodup_keys_insertAll {m : Keyed κ α} (pairs : List (κ × α)) (h : (keys m).Nodup) :
    (keys (insertAll m pairs)).Nodup := by
  induction pairs generalizing m with
  | nil => exact h
  | cons p rest ih => exact ih (nodup_keys_insert p.1 p.2 h)

lemma nodup_keys_ofPairs (pairs : List (κ × α)) : (keys (ofPairs pairs)).Nodup :=
  nodup_keys_insertAll pairs List.nodup_nil

lemma mem_insert {m : Keyed κ α} {key : κ} {value : α} {p : κ × α} (h : p ∈ insert key value m) :
    p = (key, value) ∨ p ∈ m := by
  induction m with
  | nil => exact .inl (List.mem_singleton.mp h)
  | cons q rest ih =>
    rw [insert] at h
    split_ifs at h with hq
    · exact (List.mem_cons.mp h).imp_right (List.mem_cons_of_mem _)
    · rcases List.mem_cons.mp h with rfl | h
      · exact .inr List.mem_cons_self
      · exact (ih h).imp_right (List.mem_cons_of_mem _)

lemma mem_ofPairs {pairs : List (κ × α)} {p : κ × α} (h : p ∈ ofPairs pairs) : p ∈ pairs := by
  have hall (m : Keyed κ α) (h : p ∈ insertAll m pairs) : p ∈ m ∨ p ∈ pairs := by
    clear * - h
    induction pairs generalizing m with
    | nil => exact .inl h
    | cons q rest ih =>
      rcases ih _ h with h | h
      · rcases mem_insert h with rfl | h
        · exact .inr List.mem_cons_self
        · exact .inl h
      · exact .inr (List.mem_cons_of_mem _ h)
  exact (hall [] h).resolve_left (List.not_mem_nil)

end Keyed

end PackageExports
