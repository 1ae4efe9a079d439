import Mathlib.Data.List.Basic
import PackageExports.FileSystem.Resolve

/-!
# Ways along names

What a walk does at a name depends on the name, and on the entry if the name is looked up. `FileSystem.Leads` are the
ways, through links too, that end at an entry: they are what `FileSystem.follow` finds, with one constructor for each
kind of a first step.

Main results: `FileSystem.follow_eq_present`.
-/

namespace PackageExports.FileSystem

variable {fs : FileSystem} {onLink : Location → List Text → Except AccessError Place} {links : ℕ}
  {here location : Location} {name target : Text} {names rest : List Text} {content : List UInt8}

/-! ### Single names -/

/-- A name that a walk looks up in the directory where it is. -/
structure IsLookedUp (name : Text) : Prop where
  moves : ¬(name = [] ∨ name = ".")
  ne_up : name ≠ ".."
  short : Utf8.byteLength name ≤ 255

/-- What a walk does at a name. -/
inductive Step (name : Text) : Prop where
  | stay (h : name = [] ∨ name = ".") : Step name
  | up (h : name = "..") : Step name
  | long (hmoves : ¬(name = [] ∨ name = ".")) (hup : name ≠ "..") (h : 255 < Utf8.byteLength name) : Step name
  | lookUp (h : IsLookedUp name) : Step name

lemma step_of_name (name : Text) : Step name := by
  by_cases hstay : name = [] ∨ name = Text.ofString "."
  · exact .stay hstay
  by_cases hup : name = Text.ofString ".."
  · exact .up hup
  by_cases hlong : 255 < Utf8.byteLength name
  · exact .long hstay hup hlong
  · exact .lookUp ⟨hstay, hup, Nat.le_of_not_lt hlong⟩

lemma walkNames_stay (h : name = [] ∨ name = ".") :
    walkNames fs onLink here (name :: rest) = walkNames fs onLink here rest := by
  rw [walkNames, if_pos h]

lemma walkNames_up : walkNames fs onLink here (Text.ofString ".." :: rest) = walkNames fs onLink here.dropLast rest := by
  rw [walkNames, if_neg (by decide), if_pos rfl]

lemma walkNames_long (hmoves : ¬(name = [] ∨ name = ".")) (hup : name ≠ "..") (h : 255 < Utf8.byteLength name) :
    walkNames fs onLink here (name :: rest) = .error .nameTooLong := by
  rw [walkNames, if_neg hmoves, if_neg hup, if_pos h]

section LookedUp

variable (hname : IsLookedUp name)

include hname

lemma walkNames_lookUp :
    walkNames fs onLink here (name :: rest) =
      match fs.entryAt? (here ++ [name]) with
      | none => if rest = [] then .ok (.vacant (here ++ [name])) else .error .missing
      | some .directory => walkNames fs onLink (here ++ [name]) rest
      | some (.file _) => if rest = [] then .ok (.present (here ++ [name])) else .error .notDirectory
      | some (.link target) =>
        onLink (if Text.startsWith target "/" then [] else here) (Text.splitOn '/' target ++ rest) := by
  rw [walkNames, if_neg hname.moves, if_neg hname.ne_up]
  exact if_neg (Nat.not_lt.mpr hname.short)

lemma walkNames_free (hentry : fs.entryAt? (here ++ [name]) = none) :
    walkNames fs onLink here (name :: rest) = if rest = [] then .ok (.vacant (here ++ [name])) else .error .missing := by
  rw [walkNames_lookUp hname, hentry]

lemma walkNames_file (hentry : fs.entryAt? (here ++ [name]) = some (.file content)) :
    walkNames fs onLink here (name :: rest) =
      if rest = [] then .ok (.present (here ++ [name])) else .error .notDirectory := by
  rw [walkNames_lookUp hname, hentry]

lemma walkNames_directory (hentry : fs.entryAt? (here ++ [name]) = some .directory) :
    walkNames fs onLink here (name :: rest) = walkNames fs onLink (here ++ [name]) rest := by
  rw [walkNames_lookUp hname, hentry]

lemma walkNames_link (hentry : fs.entryAt? (here ++ [name]) = some (.link target)) :
    walkNames fs onLink here (name :: rest) =
      onLink (if Text.startsWith target "/" then [] else here) (Text.splitOn '/' target ++ rest) := by
  rw [walkNames_lookUp hname, hentry]

end LookedUp

lemma follow_nil : fs.follow links here [] = .ok (.present here) := by
  cases links <;> rfl

lemma follow_stay (h : name = [] ∨ name = ".") :
    fs.follow links here (name :: rest) = fs.follow links here rest := by
  cases links <;> exact walkNames_stay h

lemma follow_up : fs.follow links here (Text.ofString ".." :: rest) = fs.follow links here.dropLast rest := by
  cases links <;> exact walkNames_up

lemma follow_file (hname : IsLookedUp name) (hentry : fs.entryAt? (here ++ [name]) = some (.file content)) :
    fs.follow links here [name] = .ok (.present (here ++ [name])) := by
  cases links <;> exact walkNames_file hname hentry

lemma follow_directory (hname : IsLookedUp name) (hentry : fs.entryAt? (here ++ [name]) = some .directory) :
    fs.follow links here (name :: rest) = fs.follow links (here ++ [name]) rest := by
  cases links <;> exact walkNames_directory hname hentry

lemma follow_link (hname : IsLookedUp name) (hentry : fs.entryAt? (here ++ [name]) = some (.link target)) :
    fs.follow (links + 1) here (name :: rest) =
      fs.follow links (if Text.startsWith target "/" then [] else here) (Text.splitOn '/' target ++ rest) :=
  walkNames_link hname hentry

/-! ### Ways to an entry -/

/-- The ways from a directory along names to an entry at a location, and how many links may be followed on them. -/
inductive Leads (fs : FileSystem) (location : Location) : (links : ℕ) → Location → List Text → Prop where
  | here {links : ℕ} : Leads fs location links location []
  | stay {links : ℕ} {here : Location} {name : Text} {rest : List Text} (h : name = [] ∨ name = ".")
      (hrest : Leads fs location links here rest) : Leads fs location links here (name :: rest)
  | up {links : ℕ} {here : Location} {rest : List Text} (hrest : Leads fs location links here.dropLast rest) :
      Leads fs location links here (".." :: rest)
  | file {links : ℕ} {here : Location} {name : Text} {content : List UInt8} (hname : IsLookedUp name)
      (hlocation : location = here ++ [name]) (hentry : fs.entryAt? location = some (.file content)) :
      Leads fs location links here [name]
  | directory {links : ℕ} {here : Location} {name : Text} {rest : List Text} (hname : IsLookedUp name)
      (hentry : fs.entryAt? (here ++ [name]) = some .directory)
      (hrest : Leads fs location links (here ++ [name]) rest) : Leads fs location links here (name :: rest)
  | link {links : ℕ} {here : Location} {name target : Text} {rest : List Text} (hname : IsLookedUp name)
      (hentry : fs.entryAt? (here ++ [name]) = some (.link target))
      (hrest : Leads fs location links (if Text.startsWith target "/" then [] else here)
        (Text.splitOn '/' target ++ rest)) : Leads fs location (links + 1) here (name :: rest)

lemma Leads.follow_eq (h : fs.Leads location links here names) :
    fs.follow links here names = .ok (.present location) := by
  induction h with
  | here => exact follow_nil
  | stay hstay _ ih => rw [follow_stay hstay, ih]
  | up _ ih => rw [follow_up, ih]
  | file hname hlocation hentry =>
    subst hlocation
    exact follow_file hname hentry
  | directory hname hentry _ ih => rw [follow_directory hname hentry, ih]
  | link hname hentry _ ih => rw [follow_link hname hentry, ih]

lemma leads_of_walkNames
    (hlink : ∀ start names, onLink start names = .ok (.present location) →
      ∃ left, links = left + 1 ∧ fs.Leads location left start names)
    (h : walkNames fs onLink here names = .ok (.present location)) : fs.Leads location links here names := by
  induction names generalizing here with
  | nil =>
    obtain rfl := Place.present.inj (Except.ok.inj h)
    exact .here
  | cons name rest ih =>
    cases step_of_name name with
    | stay hstay =>
      rw [walkNames_stay hstay] at h
      exact .stay hstay (ih h)
    | up hup =>
      subst hup
      rw [walkNames_up] at h
      exact .up (ih h)
    | long hmoves hup hlong =>
      rw [walkNames_long hmoves hup hlong] at h
      cases h
    | lookUp hname =>
      rcases hentry : fs.entryAt? (here ++ [name]) with _ | (content | target | _)
      · rw [walkNames_free hname hentry] at h
        split_ifs at h
        cases h
      · rw [walkNames_file hname hentry] at h
        split_ifs at h with hlast
        obtain rfl := Place.present.inj (Except.ok.inj h)
        subst hlast
        exact .file hname rfl hentry
      · rw [walkNames_link hname hentry] at h
        obtain ⟨left, rfl, hleads⟩ := hlink _ _ h
        exact .link hname hentry hleads
      · rw [walkNames_directory hname hentry] at h
        exact .directory hname hentry (ih h)

/-- A search that follows links comes to an entry on the ways to it. -/
theorem follow_eq_present :
    fs.follow links here names = .ok (.present location) ↔ fs.Leads location links here names := by
  refine ⟨fun h => ?_, Leads.follow_eq⟩
  induction links generalizing here names with
  | zero => exact leads_of_walkNames (fun _ _ hnone => by cases hnone) h
  | succ links ih => exact leads_of_walkNames (fun _ _ hfollow => ⟨links, rfl, ih hfollow⟩) h

end PackageExports.FileSystem
