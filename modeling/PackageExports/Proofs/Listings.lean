import PackageExports.BuildLayout
import PackageExports.Proofs.RememberedFiles
import PackageExports.Proofs.TextLists

/-!
# Listings in a tree

A path that goes on with names from a directory which holds a tree leads to the place that the names spell. A listing of
the path shows the names of the entries there, and of nothing else, and it does not show what they are. So a build
directory is detected if some entry right in it, file or directory, is named like a compiled file. Compiled files deeper
down do not count.

Main results: `FileSystem.LeadsToTree.mem_list`, `BuildLayout.mem_directoriesWith`, `BuildLayout.build_directory_iff`.
-/

namespace PackageExports

namespace FileSystem

variable {fs : FileSystem} {top : Path} {base location : Location} {names rest : List Text} {name : Text}

/-- The name of a location, if this is right in a directory. -/
def nameIn? (location other : Location) : Option Text :=
  match other.getLast? with
  | some name => if other.dropLast = location then some name else none
  | none => none

lemma nameIn?_eq_some {other : Location} : nameIn? location other = some name ↔ other = location ++ [name] := by
  unfold nameIn?
  obtain rfl | ⟨front, last, rfl⟩ := List.eq_nil_or_concat' other
  · simp
  · simp only [List.getLast?_concat, List.dropLast_concat, Option.ite_none_right_eq_some, Option.some.injEq]
    constructor
    · rintro ⟨rfl, rfl⟩
      rfl
    · intro h
      exact (List.append_inj' h rfl).imp_right fun hlast => List.singleton_injective hlast

/-- The names of the entries right in a directory, in order. -/
def namesIn (fs : FileSystem) (here : Location) : List Text :=
  Text.sort (fs.entries.keys.filterMap (nameIn? here))

lemma mem_namesIn : name ∈ fs.namesIn location ↔ location ++ [name] ∈ fs.entries.keys := by
  rw [namesIn, Text.mem_sort, List.mem_filterMap]
  constructor
  · rintro ⟨other, hkey, hname⟩
    exact nameIn?_eq_some.mp hname ▸ hkey
  · exact fun hkey => ⟨_, hkey, nameIn?_eq_some.mpr rfl⟩

lemma ascending_namesIn (fs : FileSystem) (location : Location) : Text.Ascending (fs.namesIn location) := by
  refine Text.Ascending.sort (fs.nodup.filterMap fun a b name ha hb => ?_)
  rw [nameIn?_eq_some.mp ha, nameIn?_eq_some.mp hb]

lemma list_of_find {path : Text} (h : fs.find path = .ok location) : fs.list path = fs.namesIn location := by
  rw [list, h, namesIn, Keyed.keys, List.filterMap_map]
  rfl

lemma list_of_error {path : Text} {e : AccessError} (h : fs.find path = .error e) : fs.list path = [] := by
  rw [list, h]

lemma mem_list {path : Text} :
    name ∈ fs.list path ↔ ∃ location, fs.find path = .ok location ∧ location ++ [name] ∈ fs.entries.keys := by
  cases hfind : fs.find path with
  | error e => simp [list_of_error hfind]
  | ok location =>
    rw [list_of_find hfind, mem_namesIn]
    constructor
    · exact fun hkey => ⟨location, rfl, hkey⟩
    · rintro ⟨_, hlocation, hkey⟩
      obtain rfl := Except.ok.inj hlocation
      exact hkey

lemma nodup_list (fs : FileSystem) (path : Text) : (fs.list path).Nodup := by
  cases hfind : fs.find path with
  | error e =>
    rw [list_of_error hfind]
    exact List.nodup_nil
  | ok location =>
    rw [list_of_find hfind]
    exact (ascending_namesIn fs location).nodup

lemma mem_entries {entry : Entry} (hlocation : location ≠ []) (hentry : fs.entryAt? location = some entry) :
    (location, entry) ∈ fs.entries := by
  rw [entryAt?, if_neg hlocation] at hentry
  exact Keyed.mem_of_get? hentry

lemma exists_entry_iff (hlocation : location ≠ []) :
    (∃ entry, fs.entryAt? location = some entry) ↔ location ∈ fs.entries.keys := by
  rw [entryAt?, if_neg hlocation, ← Option.isSome_iff_exists, ← not_iff_not, Option.not_isSome_iff_eq_none,
    Keyed.get?_eq_none]

lemma HoldsTree.below (htree : fs.HoldsTree base) (hdirectory : fs.entryAt? (base ++ names) = some .directory) :
    fs.HoldsTree (base ++ names) where
  directory := hdirectory
  unlinked location target hbelow := htree.unlinked location target ((List.prefix_append base names).trans hbelow)
  parent rest name entry hentry := by
    rw [List.append_assoc base names rest] at hentry ⊢
    exact htree.parent _ _ _ hentry

/-- A clean path to a directory that holds a tree. -/
structure LeadsToTree (fs : FileSystem) (top : Path) (base : Location) : Prop where
  clean : top.IsClean
  found : fs.find top.text = .ok base
  tree : fs.HoldsTree base

namespace LeadsToTree

variable (h : fs.LeadsToTree top base) (hnames : ∀ name ∈ names, CanExist name)

include h hnames

/-- A path of names leads to an entry at the place that the names spell. -/
theorem find {entry : Entry} (hentry : fs.entryAt? (base ++ names) = some entry) :
    fs.find (Path.text ⟨top.anchor, top.segments ++ names⟩) = .ok (base ++ names) := by
  by_cases hne : names = []
  · rw [hne, List.append_nil, List.append_nil]
    exact h.found
  · exact find_below h.clean h.found h.tree.directory hne hnames <| h.tree.leads List.prefix_rfl
      (fun name hname => (hnames name hname).1) (fun name hname => (hnames name hname).2.1) hentry

lemma eq_of_find (hfind : fs.find (Path.text ⟨top.anchor, top.segments ++ names⟩) = .ok location) :
    location = base ++ names :=
  (find_names h.clean h.found h.tree.directory (fun name hname => (hnames name hname).1) h.tree.unlinked hfind).1

lemma below (hdirectory : fs.entryAt? (base ++ names) = some .directory) :
    fs.LeadsToTree ⟨top.anchor, top.segments ++ names⟩ (base ++ names) where
  clean := isClean_below h.clean hnames
  found := h.find hnames hdirectory
  tree := h.tree.below hdirectory

/-- A path of names leads to a file if there is one at the place that the names spell. -/
theorem isFile_iff : fs.isFile (Path.text ⟨top.anchor, top.segments ++ names⟩) = true ↔
    ∃ content, fs.entryAt? (base ++ names) = some (.file content) := by
  rw [FileSystem.isFile_iff]
  constructor
  · rintro ⟨location, content, hfind, hentry⟩
    exact ⟨content, h.eq_of_find hnames hfind ▸ hentry⟩
  · rintro ⟨content, hentry⟩
    exact ⟨_, content, h.find hnames hentry, hentry⟩

theorem isDirectory_iff : fs.isDirectory (Path.text ⟨top.anchor, top.segments ++ names⟩) = true ↔
    fs.entryAt? (base ++ names) = some .directory := by
  rw [FileSystem.isDirectory_iff]
  constructor
  · rintro ⟨location, hfind, hentry⟩
    exact h.eq_of_find hnames hfind ▸ hentry
  · intro hentry
    exact ⟨_, h.find hnames hentry, hentry⟩

/-- A directory lists the names of all entries in it. -/
theorem mem_list : name ∈ fs.list (Path.text ⟨top.anchor, top.segments ++ names⟩) ↔
    ∃ entry, fs.entryAt? (base ++ names ++ [name]) = some entry := by
  rw [exists_entry_iff (by simp), FileSystem.mem_list]
  constructor
  · rintro ⟨location, hfind, hkey⟩
    exact h.eq_of_find hnames hfind ▸ hkey
  · intro hkey
    have hthere : ∃ entry, fs.entryAt? (base ++ names ++ [name]) = some entry := (exists_entry_iff (by simp)).mpr hkey
    obtain ⟨entry, hentry⟩ := hthere
    exact ⟨_, h.find hnames (h.tree.parent _ _ _ hentry), hkey⟩

end LeadsToTree

lemma leadsToTree_here (hworking : fs.workingDirectory = [])
    (hentries : ∀ entry ∈ fs.entries, (entry.2 = .directory ∨ entry.2 = .file []) ∧
      fs.entryAt? entry.1.dropLast = some .directory) : fs.LeadsToTree (Path.ofText ".") [] where
  clean := Path.isClean_ofText "."
  found := by
    unfold find place
    rw [hworking]
    rfl
  tree := by
    refine ⟨rfl, fun location target _ hlink => ?_, fun names name entry hentry => ?_⟩
    · have hne : location ≠ [] := by
        rintro rfl
        cases hlink
      rcases (hentries _ (mem_entries hne hlink)).1 with hentry | hentry <;> cases hentry
    · have hparent := (hentries _ (mem_entries (by simp) hentry)).2
      rwa [List.dropLast_concat] at hparent

end FileSystem

namespace BuildLayout

open FileSystem (CanExist LeadsToTree)

variable {fs : FileSystem} {package : Path} {base top : Location} {directory : Text} {names endings : List Text}

/-- Right in a directory there is a file whose name has one of some endings. -/
def HasFile (fs : FileSystem) (endings : List Text) (top : Location) : Prop :=
  ∃ name content, fs.entryAt? (top ++ [name]) = some (.file content) ∧ Text.endsWithAny name endings = true

/-- Right in a directory there is a directory whose name has one of some endings. -/
def HasDirectory (fs : FileSystem) (endings : List Text) (top : Location) : Prop :=
  ∃ name, fs.entryAt? (top ++ [name]) = some .directory ∧ Text.endsWithAny name endings = true

/-- A directory with a file, at any depth, whose name has one of some endings. -/
def HoldsFile (fs : FileSystem) (endings : List Text) (top : Location) : Prop :=
  fs.entryAt? top = some .directory ∧
    ∃ front name content, fs.entryAt? (top ++ front ++ [name]) = some (.file content) ∧
      Text.endsWithAny name endings = true

/-- A directory is detected if some entry right in it has a name with one of the endings. -/
theorem mem_directoriesWith (h : fs.LeadsToTree package base) (hdirectory : CanExist directory) :
    directory ∈ directoriesWith fs package names endings ↔
      directory ∈ names ∧
        (HasFile fs endings (base ++ [directory]) ∨ HasDirectory fs endings (base ++ [directory])) := by
  have hnames : ∀ name ∈ [directory], CanExist name := List.forall_mem_singleton.mpr hdirectory
  have hlisted (entry : Text) : entry ∈ fs.list (package.child directory).text ↔
      ∃ found, fs.entryAt? (base ++ [directory] ++ [entry]) = some found := h.mem_list hnames
  have hthere : fs.isDirectory (package.child directory).text = true ↔
      fs.entryAt? (base ++ [directory]) = some .directory := h.isDirectory_iff hnames
  rw [directoriesWith, List.mem_filter, Bool.and_eq_true, hthere, List.any_eq_true]
  refine and_congr_right fun _ => ⟨?_, ?_⟩
  · rintro ⟨-, entry, hentry, hending⟩
    -- in a tree an entry is a file or a directory, but a listing does not show which
    obtain ⟨content | target | _, hfound⟩ := (hlisted entry).mp hentry
    · exact .inl ⟨entry, content, hfound, hending⟩
    · exact absurd hfound (h.tree.unlinked _ _ (by rw [List.append_assoc]; exact List.prefix_append _ _))
    · exact .inr ⟨entry, hfound, hending⟩
  · have hlist {entry : Text} {found : Entry} (hfound : fs.entryAt? (base ++ [directory] ++ [entry]) = some found)
        (hending : Text.endsWithAny entry endings = true) :
        fs.entryAt? (base ++ [directory]) = some .directory ∧
          ∃ entry ∈ fs.list (package.child directory).text, Text.endsWithAny entry endings = true :=
      ⟨h.tree.parent _ _ _ hfound, entry, (hlisted entry).mpr ⟨found, hfound⟩, hending⟩
    rintro (⟨entry, content, hfound, hending⟩ | ⟨entry, hfound, hending⟩)
    · exact hlist hfound hending
    · exact hlist hfound hending

lemma HasFile.holdsFile (h : HasFile fs endings (base ++ [directory])) (htree : fs.HoldsTree base) :
    HoldsFile fs endings (base ++ [directory]) := by
  obtain ⟨name, content, hfound, hending⟩ := h
  refine ⟨htree.parent _ _ _ hfound, [], name, content, ?_, hending⟩
  rwa [List.append_nil]

/-- In a tree one of the usual build directories is detected if and only if right in it there is a file or a directory
that is named like a compiled file. So those with compiled files are told from the others if and only if there is such a
file right in it, or there are either both or neither of such a directory right in it and a compiled file at any
depth. -/
theorem build_directory_iff (h : fs.LeadsToTree package base) (hdirectory : directory ∈ usualBuildDirectories) :
    (directory ∈ buildDirectoriesOf fs package ↔
      HasFile fs compiledEndings (base ++ [directory]) ∨ HasDirectory fs compiledEndings (base ++ [directory])) ∧
    ((directory ∈ buildDirectoriesOf fs package ↔ HoldsFile fs compiledEndings (base ++ [directory])) ↔
      HasFile fs compiledEndings (base ++ [directory]) ∨
        (HasDirectory fs compiledEndings (base ++ [directory]) ↔
          HoldsFile fs compiledEndings (base ++ [directory]))) := by
  have husual : ∀ name ∈ usualBuildDirectories, CanExist name := by decide
  have hdetected : directory ∈ buildDirectoriesOf fs package ↔
      HasFile fs compiledEndings (base ++ [directory]) ∨ HasDirectory fs compiledEndings (base ++ [directory]) := by
    rw [buildDirectoriesOf, mem_directoriesWith h (husual directory hdirectory), and_iff_right hdirectory]
  refine ⟨hdetected, ?_⟩
  rw [hdetected]
  by_cases hfile : HasFile fs compiledEndings (base ++ [directory])
  · simp only [hfile, hfile.holdsFile h.tree, true_or]
  · simp only [hfile, false_or]

/-- A package with compiled files in two directories below a build directory. -/
def nestedBuild : FileSystem :=
  ((((FileSystem.empty.put ["dist"] .directory).put ["dist", "cjs"] .directory).put ["dist", "cjs", "index.js"]
    (.file [])).put ["dist", "esm"] .directory).put ["dist", "esm", "index.js"] (.file [])

/-- The same package with a compiled file right in the build directory. -/
def indexedBuild : FileSystem :=
  nestedBuild.put ["dist", "index.js"] (.file [])

/-- A package with nothing but a directory, named like a compiled file, in a build directory. -/
def namedBuild : FileSystem :=
  (FileSystem.empty.put ["dist"] .directory).put ["dist", "chart.js"] .directory

lemma leadsToTree_nested : nestedBuild.LeadsToTree (Path.ofText ".") [] :=
  FileSystem.leadsToTree_here rfl (by decide +kernel)

lemma leadsToTree_named : namedBuild.LeadsToTree (Path.ofText ".") [] :=
  FileSystem.leadsToTree_here rfl (by decide +kernel)

/-- The directory with a compiled file right in it is detected, and it holds one. -/
theorem build_directory_iff_indexed :
    Text.ofString "dist" ∈ buildDirectoriesOf indexedBuild (Path.ofText ".") ∧
      HoldsFile indexedBuild compiledEndings ["dist"] := by
  have htree : indexedBuild.LeadsToTree (Path.ofText ".") [] := FileSystem.leadsToTree_here rfl (by decide +kernel)
  have husual : Text.ofString "dist" ∈ usualBuildDirectories := by decide
  obtain ⟨hdetected, hright⟩ := build_directory_iff htree husual
  have hfile : HasFile indexedBuild compiledEndings ["dist"] := ⟨"index.js", [], by decide +kernel, by decide⟩
  have hmem := hdetected.mpr (.inl hfile)
  exact ⟨hmem, (hright.mpr (.inl hfile)).mp hmem⟩

/-- A directory with compiled files only deeper down is not detected, and one with nothing but a directory named like a
compiled file is. -/
theorem build_directory_by_names :
    (nestedBuild.LeadsToTree (Path.ofText ".") [] ∧ HoldsFile nestedBuild compiledEndings ["dist"] ∧
      Text.ofString "dist" ∉ buildDirectoriesOf nestedBuild (Path.ofText ".")) ∧
    (namedBuild.LeadsToTree (Path.ofText ".") [] ∧ ¬HoldsFile namedBuild compiledEndings ["dist"] ∧
      Text.ofString "dist" ∈ buildDirectoriesOf namedBuild (Path.ofText ".")) := by
  have hname : CanExist (Text.ofString "dist") := by decide
  refine ⟨⟨leadsToTree_nested, ?_, ?_⟩, leadsToTree_named, ?_, ?_⟩
  · exact ⟨by decide +kernel, ["cjs"], "index.js", [], by decide +kernel, by decide⟩
  · have hunnamed : ∀ location ∈ nestedBuild.entries.keys, location.dropLast = ["dist"] →
        Text.endsWithAny (location.getLast?.getD []) compiledEndings = false := by decide +kernel
    have hnot {name : Text} {entry : Entry} (hentry : nestedBuild.entryAt? ["dist", name] = some entry)
        (hending : Text.endsWithAny name compiledEndings = true) : False := by
      have hkey := (FileSystem.exists_entry_iff (List.cons_ne_nil _ _)).mp ⟨entry, hentry⟩
      exact Bool.false_ne_true ((hunnamed _ hkey rfl).symm.trans hending)
    rw [buildDirectoriesOf, mem_directoriesWith leadsToTree_nested hname]
    rintro ⟨-, ⟨name, content, hentry, hending⟩ | ⟨name, hentry, hending⟩⟩
    · exact hnot hentry hending
    · exact hnot hentry hending
  · rintro ⟨-, front, name, content, hfile, -⟩
    have hdirectories : ∀ entry ∈ namedBuild.entries, entry.2 = .directory := by decide +kernel
    cases hdirectories _ (FileSystem.mem_entries (by simp) hfile)
  · rw [buildDirectoriesOf, mem_directoriesWith leadsToTree_named hname]
    exact ⟨by decide, .inr ⟨"chart.js", by decide +kernel, by decide⟩⟩

end BuildLayout

end PackageExports
