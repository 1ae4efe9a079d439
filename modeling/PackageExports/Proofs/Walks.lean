import Mathlib.Data.List.Perm.Basic
import Mathlib.Tactic.Lemma
import Mathlib.Tactic.SplitIfs
import PackageExports.Manifest.Repository

/-!
# The files that a walk meets

A walk meets what is in the directories that it reaches and is no directory itself. `FileSystem.filesMet` are the files
that a walk meets, in the order of the entries; a walk gives them in another order.

Main definitions: `FileSystem.Reaches`, `FileSystem.HasFile`, `FileSystem.filesMet`.

Main results: `FileSystem.meetsFile_concat`, `FileSystem.filesBelow_eq`, `FileSystem.mem_filesBelow`,
`Package.directoriesBelow_perm`.
-/

namespace PackageExports

open scoped List

lemma Path.segmentsAfter?_eq_some {start segments rest : List Text} :
    segmentsAfter? start segments = some rest ↔ segments = start ++ rest := by
  induction start generalizing segments with
  | nil => simp [segmentsAfter?]
  | cons a start ih =>
    cases segments with
    | nil => simp [segmentsAfter?]
    | cons b segments =>
      rw [segmentsAfter?]
      by_cases h : a = b
      · simp [h, ih]
      · simp [h, Ne.symm h]

namespace FileSystem

variable {fs : FileSystem} {path name : Text} {enter : Text → Bool} {names front rest : List Text}
  {here location : Location}

/-! ### What a walk meets -/

/-- Names that lead from a directory down to another one: each is the name of a directory in the one before. -/
inductive Reaches (fs : FileSystem) : Location → List Text → Prop
  | here (location : Location) : Reaches fs location []
  | into {location : Location} {name : Text} {rest : List Text}
      (hentry : fs.entryAt? (location ++ [name]) = some .directory) (hrest : Reaches fs (location ++ [name]) rest) :
      Reaches fs location (name :: rest)

/-- An entry in a directory that is a file, or a link that does not lead to a directory. -/
def HasFile (fs : FileSystem) (here : Location) (name : Text) : Prop :=
  (∃ content, fs.entryAt? (here ++ [name]) = some (.file content)) ∨
    (∃ target, fs.entryAt? (here ++ [name]) = some (.link target)) ∧ fs.linksToDirectory here name = false

lemma meetsFile_singleton : fs.meetsFile enter here [name] = true ↔ fs.HasFile here name := by
  rw [meetsFile, HasFile]
  rcases fs.entryAt? (here ++ [name]) with _ | (content | target | _) <;> simp

lemma meetsFile_cons (hrest : rest ≠ []) :
    fs.meetsFile enter here (name :: rest) = true ↔
      fs.entryAt? (here ++ [name]) = some .directory ∧ enter name = true ∧
        fs.meetsFile enter (here ++ [name]) rest = true := by
  rw [meetsFile]
  simp [hrest, and_assoc]

/-- A walk meets the files of the directories that it reaches by names that it enters. -/
theorem meetsFile_concat :
    fs.meetsFile enter here (front ++ [name]) = true ↔
      fs.Reaches here front ∧ (∀ name ∈ front, enter name = true) ∧ fs.HasFile (here ++ front) name := by
  induction front generalizing here with
  | nil =>
    rw [List.nil_append, List.append_nil, meetsFile_singleton]
    exact ⟨fun hfile => ⟨.here here, by simp, hfile⟩, fun h => h.2.2⟩
  | cons first front ih =>
    rw [List.cons_append, meetsFile_cons (by simp), ih, List.append_assoc, List.singleton_append, List.forall_mem_cons]
    constructor
    · rintro ⟨hentry, hname, hreaches, hnames, hfile⟩
      exact ⟨.into hentry hreaches, ⟨hname, hnames⟩, hfile⟩
    · rintro ⟨hreaches, ⟨hname, hnames⟩, hfile⟩
      cases hreaches with
      | into hentry hrest => exact ⟨hentry, hname, hrest, hnames, hfile⟩

lemma exists_concat_of_meetsFile (h : fs.meetsFile enter here names = true) : ∃ front name, names = front ++ [name] := by
  refine (List.eq_nil_or_concat' names).resolve_left ?_
  rintro rfl
  cases h

/-! ### The files below a path -/

/-- The names of a file below a directory, if a walk from there meets it. -/
def met? (fs : FileSystem) (enter : Text → Bool) (location : Location) (entry : Location × Entry) :
    Option (List Text) :=
  (Path.segmentsAfter? location entry.1).filter (fs.meetsFile enter location)

def filesMet (fs : FileSystem) (path : Text) (enter : Text → Bool) : List (List Text) :=
  match fs.find path with
  | .ok location => if fs.entryAt? location = some .directory then fs.entries.filterMap (fs.met? enter location) else []
  | .error _ => []

lemma met?_eq_some {entry : Location × Entry} :
    fs.met? enter location entry = some names ↔
      entry.1 = location ++ names ∧ fs.meetsFile enter location names = true := by
  rw [met?, Option.filter_eq_some_iff, Path.segmentsAfter?_eq_some]

/-- Whether a file is met does not depend on what is in it. -/
lemma filterMap_met (fs : FileSystem) (enter : Text → Bool) (location : Location) :
    fs.entries.filterMap (fs.met? enter location) =
      fs.entries.keys.filterMap fun l => (Path.segmentsAfter? location l).filter (fs.meetsFile enter location) := by
  rw [Keyed.keys, List.filterMap_map]
  rfl

/-- A walk gives the files that it meets, in walk order. -/
theorem filesBelow_eq (fs : FileSystem) (path : Text) (enter : Text → Bool) :
    fs.filesBelow path enter = (fs.filesMet path enter).mergeSort walkLe := by
  unfold filesBelow filesMet
  cases fs.find path with
  | error e => exact List.mergeSort_nil.symm
  | ok location =>
    dsimp only
    split_ifs
    · refine congrArg (List.mergeSort · walkLe) (List.filterMap_congr fun entry _ => ?_)
      unfold met?
      cases Path.segmentsAfter? location entry.1 with
      | none => rfl
      | some rest => exact Option.filter_some.symm
    · exact List.mergeSort_nil.symm

theorem filesBelow_perm (fs : FileSystem) (path : Text) (enter : Text → Bool) :
    fs.filesBelow path enter ~ fs.filesMet path enter := by
  rw [filesBelow_eq]
  exact List.mergeSort_perm _ _

/-- A walk meets entries that are there, on ways that it enters. -/
theorem mem_filesBelow :
    names ∈ fs.filesBelow path enter ↔
      ∃ location, fs.find path = .ok location ∧ fs.entryAt? location = some .directory ∧
        location ++ names ∈ fs.entries.keys ∧ fs.meetsFile enter location names = true := by
  rw [(filesBelow_perm fs path enter).mem_iff]
  unfold filesMet
  cases fs.find path with
  | error e => simp
  | ok location =>
    simp only [Except.ok.injEq, exists_eq_left']
    split_ifs with hdirectory
    · rw [List.mem_filterMap]
      constructor
      · rintro ⟨entry, hentry, hsome⟩
        obtain ⟨hlocation, hmeets⟩ := met?_eq_some.mp hsome
        exact ⟨hdirectory, hlocation ▸ List.mem_map_of_mem hentry, hmeets⟩
      · rintro ⟨-, hkey, hmeets⟩
        obtain ⟨entry, hentry, hlocation⟩ := List.mem_map.mp hkey
        exact ⟨entry, hentry, met?_eq_some.mpr ⟨hlocation, hmeets⟩⟩
    · simp [hdirectory]

end FileSystem

namespace Package

def directoryOf? (root : Path) (names : List Text) : Option Path :=
  if names.getLast? = some manifestName then some (root.join ⟨.relative, names.dropLast⟩) else none

/-- The directories with manifests are those of the manifests that a walk meets. -/
theorem directoriesBelow_perm (fs : FileSystem) (root : Path) (ignored : List Text) :
    directoriesBelow fs root ignored ~
      (fs.filesMet root.text fun name => !ignored.contains name).filterMap (directoryOf? root) :=
  (FileSystem.filesBelow_perm _ _ _).filterMap _

/-- The packages, in a walk that meets its files in order. -/
lemma findAll_of_met {fs : FileSystem} {root : Path} {ignored : List Text} {met : List (List Text)}
    (hmet : (fs.filesMet root.text fun name => !ignored.contains name) = met)
    (hsorted : met.Pairwise (FileSystem.walkLe · ·)) :
    findAll fs root ignored = List.map Prod.fst <$> readAll fs (met.filterMap (directoryOf? root)) := by
  unfold findAll directoriesBelow
  rw [FileSystem.filesBelow_eq, hmet, List.mergeSort_of_pairwise hsorted]
  rfl

end Package

end PackageExports
