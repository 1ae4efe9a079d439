import PackageExports.Proofs.TextLists
import PackageExports.Proofs.Trees

/-!
# What a new file leaves as it is

A file that is placed at a location, whether or not there was one before, is seen by what leads to that location only.
All other paths are read as before, and a walk meets the same files besides.

Main results: `FileSystem.read_placed`, `FileSystem.filter_filesBelow_put`, `Package.namesBelow_put`.
-/

namespace PackageExports

open scoped List

namespace FileSystem

variable {fs : FileSystem} {path : Text} {location base : Location} {enter : Text → Bool}

section Placed

variable (hfree : fs.TakesFile location) (content : List UInt8)

include hfree

/-- A path that led somewhere leads there still; one that led nowhere may lead to the new file. -/
lemma find_placed (path : Text) :
    (fs.put location (.file content)).find path = fs.find path ∨
      fs.find path = .error .missing ∧
        ((fs.put location (.file content)).find path = .ok location ∨
          (fs.put location (.file content)).find path = .error .notDirectory) := by
  have hplaced := placed_place hfree content path
  unfold find
  generalize (fs.put location (.file content)).place path = after at hplaced ⊢
  generalize fs.place path = before at hplaced ⊢
  cases hplaced with
  | same => exact .inl rfl
  | made => exact .inr ⟨rfl, .inl rfl⟩
  | blocked => exact .inr ⟨rfl, .inr rfl⟩

lemma find_put_of_ok (h : fs.find path = .ok base) : (fs.put location (.file content)).find path = .ok base := by
  rcases find_placed hfree content path with hfind | ⟨hmissing, -⟩
  · rw [hfind, h]
  · rw [h] at hmissing
    cases hmissing

lemma check_placed (hne : (fs.put location (.file content)).find path ≠ .ok location) :
    (fs.put location (.file content)).check path none = fs.check path none := by
  unfold check
  rcases find_placed hfree content path with hfind | ⟨hmissing, hfind | hfind⟩
  · rw [hfind]
    rfl
  · exact absurd hfind hne
  · rw [hfind, hmissing]

theorem read_placed (hne : (fs.put location (.file content)).find path ≠ .ok location) :
    (fs.put location (.file content)).read path = fs.read path ∨
      fs.read path = .error .missing ∧ (fs.put location (.file content)).read path = .error .notDirectory := by
  unfold read
  rcases find_placed hfree content path with hfind | ⟨hmissing, hfind | hfind⟩
  · left
    rw [hfind] at hne ⊢
    cases hpath : fs.find path with
    | error e => rfl
    | ok other =>
      have hother : location ≠ other := by
        rintro rfl
        exact hne hpath
      dsimp only
      rw [entryAt?_put_of_ne fs _ hother]
  · exact absurd hfind hne
  · right
    rw [hfind, hmissing]
    exact ⟨rfl, rfl⟩

lemma readManifest_placed {manifest : Path}
    (hne : (fs.put location (.file content)).find manifest.text ≠ .ok location) :
    ((fs.put location (.file content)).readManifest manifest).toOption = (fs.readManifest manifest).toOption := by
  rcases read_placed hfree content hne with hread | ⟨hmissing, hread⟩
  · rw [readManifest_congr hread]
  · rw [readManifest_eq, readManifest_eq, readText, readText, hread, hmissing]
    rfl

end Placed

/-! ### Walks -/

lemma walkLe_total (a b : List Text) : (walkLe a b || walkLe b a) = true := by
  fun_induction walkLe a b with
  | case1 => rfl
  | case2 a as => rw [walkLe]; rfl
  | case3 a b =>
    rw [walkLe]
    exact Text.le_total a b
  | case4 => rfl
  | case5 => 
    rw [walkLe]
    rfl
  | case6 a' as a b' bs ih =>
    rw [walkLe, if_pos rfl]
    exact ih
  | case7 a a' as b b' bs hab => 
    rw [walkLe, if_neg (Ne.symm hab)]
    exact Text.le_total _ _

lemma walkLe_antisymm {a b : List Text} (hab : walkLe a b = true) (hba : walkLe b a = true) : a = b := by
  fun_induction walkLe a b with
  | case1 b =>
    cases b with
    | nil => rfl
    | cons y b => simp [walkLe] at hba
  | case2 => cases hab
  | case3 a b =>
    rw [walkLe] at hba
    rw [Text.le_antisymm hab hba]
  | case4 => simp [walkLe] at hba
  | case5 => cases hab
  | case6 a' as a b' bs ih =>
    rw [walkLe, if_pos rfl] at hba
    rw [ih hab hba]
  | case7 a a' as b b' bs hne =>
    rw [walkLe, if_neg (Ne.symm hne)] at hba
    exact absurd (Text.le_antisymm hab hba) hne

lemma walkLe_trans {a b c : List Text} (hab : walkLe a b = true) (hbc : walkLe b c = true) : walkLe a c = true := by
  fun_induction walkLe a b generalizing c with
  | case1 => rw [walkLe]
  | case2 => cases hab
  | case3 a b =>
    match c, hbc with
    | [], hbc => simp [walkLe] at hbc
    | [z], hbc =>
      rw [walkLe] at hbc ⊢
      exact Text.le_trans hab hbc
    | z :: z' :: c, hbc => rw [walkLe]
  | case4 a b b' bs =>
    match c, hbc with
    | [], hbc => simp [walkLe] at hbc
    | [z], hbc => simp [walkLe] at hbc
    | z :: z' :: c, hbc => rw [walkLe]
  | case5 => cases hab
  | case6 a' as a b' bs ih =>
    match c, hbc with
    | [], hbc => simp [walkLe] at hbc
    | [z], hbc => simp [walkLe] at hbc
    | z :: z' :: c, hbc =>
      rw [walkLe] at hbc ⊢
      split_ifs at hbc ⊢
      · exact ih hab hbc
      · exact hbc
  | case7 a a' as b b' bs hne =>
    match c, hbc with
    | [], hbc => simp [walkLe] at hbc
    | [z], hbc => simp [walkLe] at hbc
    | z :: z' :: c, hbc =>
      rw [walkLe] at hbc ⊢
      by_cases hbz : b = z
      · rw [if_neg (hbz ▸ hne)]
        exact hbz ▸ hab
      · rw [if_neg hbz] at hbc
        have haz : a ≠ z := by
          rintro rfl
          exact hne (Text.le_antisymm hab hbc)
        rw [if_neg haz]
        exact Text.le_trans hab hbc

lemma sorted_filesBelow (fs : FileSystem) (path : Text) (enter : Text → Bool) :
    (fs.filesBelow path enter).Pairwise fun a b => walkLe a b = true := by
  rw [filesBelow_eq]
  exact List.pairwise_mergeSort (fun a b c => @walkLe_trans a b c) walkLe_total _

lemma enters_of_meetsFile {here : Location} {names : List Text} (h : fs.meetsFile enter here names = true) :
    ∀ name ∈ names.dropLast, enter name = true := by
  obtain ⟨front, name, rfl⟩ := exists_concat_of_meetsFile h
  rw [List.dropLast_concat]
  exact (meetsFile_concat.mp h).2.1

section Met

variable (hfree : fs.TakesFile location) (hlinks : fs.Unlinked) (content : List UInt8)

include hfree

lemma entryAt?_ne_directory : fs.entryAt? location ≠ some .directory := by
  intro hentry
  obtain ⟨old, hold⟩ := hfree.entry _ hentry
  cases hold

lemma directory_put (other : Location) :
    (fs.put location (.file content)).entryAt? other = some .directory ↔ fs.entryAt? other = some .directory := by
  by_cases hsame : location = other
  · rw [← hsame, entryAt?_put_self fs _ hfree.ne_nil]
    simp [entryAt?_ne_directory hfree]
  · rw [entryAt?_put_of_ne fs _ hsame]

include hlinks

lemma meetsFile_put {here : Location} {names : List Text} (hne : here ++ names ≠ location) :
    (fs.put location (.file content)).meetsFile enter here names = fs.meetsFile enter here names := by
  induction names generalizing here with
  | nil => rfl
  | cons name rest ih =>
    rw [meetsFile, meetsFile]
    by_cases hrest : rest = []
    · subst hrest
      rw [entryAt?_put_of_ne fs _ hne.symm]
      rcases hentry : fs.entryAt? (here ++ [name]) with _ | (_ | target | _)
      · rfl
      · rfl
      · exact absurd hentry (hlinks _ _)
      · rfl
    · rw [if_neg (by simpa using hrest), if_neg (by simpa using hrest), ih (by rwa [List.append_assoc])]
      simp only [directory_put hfree]

omit hfree hlinks in
lemma filterMap_keys_put {α : Type} {f : Location → Option α} (h : f location = none) (entry : Entry) :
    (fs.put location entry).entries.keys.filterMap f = fs.entries.keys.filterMap f := by
  have hentries : (fs.put location entry).entries = fs.entries.insert location entry := rfl
  rw [hentries]
  by_cases hkey : location ∈ fs.entries.keys
  · rw [Keyed.keys_insert_of_mem _ hkey]
  · rw [Keyed.insert_of_notMem _ hkey, Keyed.keys_append, List.filterMap_append]
    have hsingle : (Keyed.keys [(location, entry)]).filterMap f = [] := by
      rw [List.filterMap_eq_nil_iff]
      intro l hl
      rw [List.mem_singleton.mp hl]
      exact h
    rw [hsingle, List.append_nil]

omit hlinks in
lemma filesMet_put_of_error {e : AccessError} (h : fs.find path = .error e) :
    (fs.put location (.file content)).filesMet path enter = [] := by
  unfold filesMet
  rcases find_placed hfree content path with hfind | ⟨-, hfind | hfind⟩
  · rw [hfind, h]
  · rw [hfind]
    dsimp only
    rw [if_neg]
    intro hdirectory
    exact entryAt?_ne_directory hfree ((directory_put hfree content location).mp hdirectory)
  · rw [hfind]

/-- Apart from the new file, a walk meets the same files in the same order. -/
lemma filter_filesMet_put {keep : List Text → Bool}
    (hnew : ∀ base names, fs.find path = .ok base → location = base ++ names → names ≠ [] →
      (∀ name ∈ names.dropLast, enter name = true) → keep names = false) :
    ((fs.put location (.file content)).filesMet path enter).filter keep = (fs.filesMet path enter).filter keep := by
  cases hfind : fs.find path with
  | error e =>
    rw [filesMet_put_of_error hfree content hfind, filesMet, hfind]
  | ok base =>
    set met : FileSystem → Location → Option (List Text) := fun files l =>
      ((Path.segmentsAfter? base l).filter (files.meetsFile enter base)).filter keep with hmet
    have hnone (files : FileSystem) : met files location = none := by
      rw [hmet, Option.filter_eq_none_iff]
      intro names hnames hkeep
      obtain ⟨hsegments, hmeets⟩ := Option.filter_eq_some_iff.mp hnames
      have hne : names ≠ [] := by
        rintro rfl
        cases hmeets
      rw [hnew base names hfind (Path.segmentsAfter?_eq_some.mp hsegments) hne (enters_of_meetsFile hmeets)] at hkeep
      cases hkeep
    have hsame : met (fs.put location (.file content)) = met fs := by
      funext l
      by_cases hl : location = l
      · rw [← hl, hnone, hnone]
      · rw [hmet]
        dsimp only
        cases hsegments : Path.segmentsAfter? base l with
        | none => rfl
        | some names =>
          have hne : base ++ names ≠ location := by
            rw [← Path.segmentsAfter?_eq_some.mp hsegments]
            exact Ne.symm hl
          simp only [Option.filter_some, meetsFile_put hfree hlinks content hne]
    have hkeys (files : FileSystem) : (files.entries.filterMap (files.met? enter base)).filter keep =
        files.entries.keys.filterMap (met files) := by
      rw [filterMap_met, List.filter_filterMap]
    unfold filesMet
    rw [find_put_of_ok hfree content hfind, hfind]
    dsimp only
    simp only [directory_put hfree]
    split_ifs
    · rw [hkeys, hkeys, hsame, filterMap_keys_put (hnone fs)]
    · rfl

/-- Apart from the new file, a walk gives the same files. -/
theorem filter_filesBelow_put {keep : List Text → Bool}
    (hnew : ∀ base names, fs.find path = .ok base → location = base ++ names → names ≠ [] →
      (∀ name ∈ names.dropLast, enter name = true) → keep names = false) :
    ((fs.put location (.file content)).filesBelow path enter).filter keep = (fs.filesBelow path enter).filter keep := by
  have hperm (files : FileSystem) : (files.filesBelow path enter).filter keep ~ (files.filesMet path enter).filter keep :=
    (filesBelow_perm files path enter).filter keep
  have hsorted (files : FileSystem) : ((files.filesBelow path enter).filter keep).Pairwise fun a b => walkLe a b = true :=
    (sorted_filesBelow files path enter).filter keep
  have hmet := filter_filesMet_put hfree hlinks content hnew
  -- the new file may stand anywhere among the entries, but the order of a walk leaves one row for the rest
  refine List.Perm.eq_of_pairwise (fun a b _ _ => walkLe_antisymm) (hsorted _) (hsorted _) ?_
  exact (hperm _).trans ((List.Perm.of_eq hmet).trans (hperm fs).symm)

end Met

lemma find_manifest_ne (hfree : fs.TakesFile location) (hlinks : fs.Unlinked) (content : List UInt8)
    (hlast : location.getLast? ≠ some Package.manifestName) (directory : Path) :
    (fs.put location (.file content)).find (directory.child Package.manifestName).text ≠ .ok location := by
  intro hfind
  have hafter : (fs.put location (.file content)).Unlinked := hlinks.put hfree.ne_nil fun target h => by cases h
  exact hlast (hafter.find_child isName_manifestName hfind)

end FileSystem

namespace Package

variable {fs : FileSystem} {location : Location}

open FileSystem

lemma readIn_value (fs : FileSystem) (directory : Path) :
    (readIn fs directory).value =
      (fs.readManifest (directory.child manifestName)).toOption.bind fun members =>
        ((members.value? "name").bind Json.nonemptyText?).map fun name => (⟨name, directory⟩, members) := by
  unfold readIn
  dsimp only
  cases fs.readManifest (directory.child manifestName) <;> rfl

variable (hfree : fs.TakesFile location) (hlinks : fs.Unlinked) (content : List UInt8)
  (hlast : location.getLast? ≠ some manifestName)

include hfree hlinks hlast

lemma directoriesBelow_put (root : Path) (ignored : List Text) :
    directoriesBelow (fs.put location (.file content)) root ignored = directoriesBelow fs root ignored := by
  set keep : List Text → Bool := fun names => names.getLast? = some manifestName with hkeep
  have hkept (rows : List (List Text)) :
      (rows.filter keep).filterMap (directoryOf? root) = rows.filterMap (directoryOf? root) := by
    rw [List.filterMap_filter]
    refine List.filterMap_congr fun names _ => ?_
    unfold directoryOf?
    by_cases hnames : names.getLast? = some manifestName
    · simp [hkeep, hnames]
    · simp [hkeep, hnames]
  have hnew (base names : List Text) (_ : fs.find root.text = .ok base) (hlocation : location = base ++ names)
      (_ : names ≠ []) (_ : ∀ name ∈ names.dropLast, (!ignored.contains name) = true) : keep names = false := by
    rw [hkeep, decide_eq_false_iff_not]
    intro hnames
    rw [hlocation, List.getLast?_append, hnames] at hlast
    exact hlast rfl
  have hbelow := filter_filesBelow_put hfree hlinks content hnew
  change ((fs.put location (.file content)).filesBelow root.text _).filterMap (directoryOf? root) =
    (fs.filesBelow root.text _).filterMap (directoryOf? root)
  rw [← hkept, hbelow, hkept]

lemma readAll_put (directories : List Path) :
    (readAll (fs.put location (.file content)) directories).value = (readAll fs directories).value := by
  induction directories with
  | nil => rfl
  | cons directory rest ih =>
    have hvalue (files : FileSystem) : (readAll files (directory :: rest)).value =
        (readIn files directory).value.toList ++ (readAll files rest).value := rfl
    rw [hvalue, hvalue, ih, readIn_value, readIn_value,
      readManifest_placed hfree content (find_manifest_ne hfree hlinks content hlast directory)]

/-- A new file that has not the name of manifests is no package. -/
theorem namesBelow_put (root : Path) (privateOnly : Bool) (ignored : List Text) :
    (namesBelow (fs.put location (.file content)) root privateOnly ignored).value =
      (namesBelow fs root privateOnly ignored).value := by
  unfold namesBelow
  rw [Noted.value_bind, Noted.value_bind, directoriesBelow_put hfree hlinks content hlast,
    readAll_put hfree hlinks content hlast]

lemma dependencies_put (directory : Path) :
    ((fs.put location (.file content)).dependencies directory).result = (fs.dependencies directory).result := by
  have hne := find_manifest_ne hfree hlinks content hlast directory
  have hmembers := readManifest_placed hfree content hne
  unfold dependencies
  rw [Attempt.result_bind, Attempt.result_bind, Attempt.ofAccess, Attempt.ofAccess, check_placed hfree content hne]
  refine congrArg (Except.bind _) (funext fun there => ?_)
  cases there with
  | false => rfl
  | true =>
    rw [if_pos rfl, if_pos rfl]
    cases hbefore : fs.readManifest (directory.child manifestName) with
    | error c =>
      cases hafter : (fs.put location (.file content)).readManifest (directory.child manifestName) with
      | error c => rfl
      | ok members =>
        rw [hbefore, hafter] at hmembers
        cases hmembers
    | ok members =>
      rw [hbefore] at hmembers
      rw [ok_of_toOption hmembers]

end Package

end PackageExports
