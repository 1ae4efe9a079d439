/-!
# Values under keys, in order

A list of pairs read as a finite map whose order counts. Assigning to a key that is present keeps its place, a new key
goes to the end; so keys that were distinct stay distinct.

Main definitions: `Keyed`, `Keyed.get?`, `Keyed.insert`, `Keyed.ofPairs`.
-/

namespace PackageExports

/-- Values under keys, in the order in which the keys were first assigned. -/
abbrev Keyed (κ α : Type) := List (κ × α)

namespace Keyed

variable {κ α : Type} [DecidableEq κ]

def get? (key : κ) : Keyed κ α → Option α
  | [] => none
  | (k, v) :: rest => if k = key then some v else get? key rest

def keys (m : Keyed κ α) : List κ :=
  m.map Prod.fst

def hasKey (m : Keyed κ α) (key : κ) : Bool :=
  (get? key m).isSome

/-- Assigns a value to a key. -/
def insert (key : κ) (value : α) : Keyed κ α → Keyed κ α
  | [] => [(key, value)]
  | (k, v) :: rest => if k = key then (key, value) :: rest else (k, v) :: insert key value rest

/-- Assigns the values of pairs one after the other: the last of a key's values stays, at the place of the first. -/
def insertAll (m : Keyed κ α) (pairs : List (κ × α)) : Keyed κ α :=
  pairs.foldl (fun m (k, v) => insert k v m) m

/-- The map that pairs describe, later values replacing earlier ones. -/
def ofPairs (pairs : List (κ × α)) : Keyed κ α :=
  insertAll [] pairs

@[simp] theorem get?_insert_self (m : Keyed κ α) (key : κ) (value : α) :
    get? key (insert key value m) = some value := by
  induction m with
  | nil => simp [insert, get?]
  | cons p rest ih =>
    by_cases h : p.1 = key
    · simp [insert, get?, h]
    · simp [insert, get?, h, ih]

theorem get?_insert_of_ne (m : Keyed κ α) {key other : κ} (value : α) (h : key ≠ other) :
    get? other (insert key value m) = get? other m := by
  induction m with
  | nil => simp [insert, get?, h]
  | cons p rest ih =>
    by_cases hk : p.1 = key
    · have : p.1 ≠ other := fun e => h (hk.symm.trans e)
      simp [insert, get?, hk, h]
    · by_cases ho : p.1 = other <;> simp [insert, get?, hk, ho, ih, Ne.symm h]

theorem mem_keys_insert {m : Keyed κ α} {key k : κ} {value : α} :
    k ∈ keys (insert key value m) ↔ k = key ∨ k ∈ keys m := by
  induction m with
  | nil => simp [insert, keys]
  | cons p rest ih =>
    by_cases hp : p.1 = key
    · simp [insert, keys, hp]
    · simp only [keys, insert, hp, if_false, List.map_cons, List.mem_cons] at ih ⊢
      rw [ih]
      exact or_left_comm

theorem nodup_keys_insert {m : Keyed κ α} (key : κ) (value : α) (h : (keys m).Nodup) :
    (keys (insert key value m)).Nodup := by
  induction m with
  | nil => simp [insert, keys]
  | cons p rest ih =>
    have hrest := (List.nodup_cons.1 h).2
    by_cases hp : p.1 = key
    · simpa [insert, keys, hp] using h
    · rw [insert, if_neg hp]
      refine List.nodup_cons.2 ⟨?_, ih hrest⟩
      intro hmem
      rcases mem_keys_insert.1 hmem with e | e
      · exact hp e
      · exact (List.nodup_cons.1 h).1 e

end Keyed

end PackageExports
