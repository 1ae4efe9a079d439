import PackageExports.Proofs.Listings
import PackageExports.Usage.Scan

/-!
# Walks through a repository

A walk from a path gives each file of the directories that it reaches, those with ignored names left out, in an order in
which the files of a directory come before those below it. This is what a recursion gives that goes through the files of
a directory by name and then through its directories by name. The packages of a repository and the sources in it are
therefore found exactly once each, in the order of the walk.

Main definitions: `FileSystem.ReachesFrom`, `FileSystem.Precedes`, `FileSystem.walk`.

Main results: `FileSystem.mem_filesBelow_iff`, `FileSystem.pairwise_filesBelow`, `FileSystem.filesBelow_eq_walk`,
`Package.repository_walked`.
-/

namespace PackageExports

/-- The strict order of texts. -/
def Text.Before (a b : Text) : Prop :=
  le a b = true ∧ a ≠ b

namespace FileSystem

variable {fs : FileSystem} {path : Text} {enter : Text → Bool} {ignored names front rest : List Text}
  {here location : Location} {name : Text}

/-! ### What a walk meets -/

/-- A walk from a path reaches the directory at a location by names, none of them ignored, that lead to it from there. -/
def ReachesFrom (fs : FileSystem) (ignored : List Text) (path : Text) (names : List Text) (location : Location) :
    Prop :=
  ∃ top, fs.find path = .ok top ∧ fs.entryAt? top = some .directory ∧ fs.Reaches top names ∧
    (∀ name ∈ names, name ∉ ignored) ∧ location = top ++ names

lemma HasFile.mem_keys (h : fs.HasFile here name) : here ++ [name] ∈ fs.entries.keys := by
  have hne : here ++ [name] ≠ [] := by simp
  rw [← exists_entry_iff hne]
  rcases h with ⟨content, hentry⟩ | ⟨⟨target, hentry⟩, -⟩
  · exact ⟨_, hentry⟩
  · exact ⟨_, hentry⟩

lemma mem_keys_of_meetsFile (h : fs.meetsFile enter here names = true) : here ++ names ∈ fs.entries.keys := by
  obtain ⟨front, name, rfl⟩ := exists_concat_of_meetsFile h
  rw [← List.append_assoc]
  exact (meetsFile_concat.mp h).2.2.mem_keys

/-- A walk gives all files of the directories that it reaches, and nothing else. -/
theorem mem_filesBelow_iff :
    front ++ [name] ∈ fs.filesBelow path (fun name => !ignored.contains name) ↔
      ∃ location, fs.ReachesFrom ignored path front location ∧ fs.HasFile location name := by
  rw [mem_filesBelow]
  simp only [meetsFile_concat, Bool.not_eq_true', List.contains_eq_mem, decide_eq_false_iff_not]
  constructor
  · rintro ⟨top, hfind, hdirectory, -, hreaches, hnames, hfile⟩
    exact ⟨_, ⟨top, hfind, hdirectory, hreaches, hnames, rfl⟩, hfile⟩
  · rintro ⟨_, ⟨top, hfind, hdirectory, hreaches, hnames, rfl⟩, hfile⟩
    exact ⟨top, hfind, hdirectory, List.append_assoc top front [name] ▸ hfile.mem_keys, hreaches, hnames, hfile⟩

lemma ne_nil_of_mem_filesBelow (h : names ∈ fs.filesBelow path enter) : names ≠ [] := by
  obtain ⟨location, -, -, -, hmeets⟩ := mem_filesBelow.mp h
  obtain ⟨front, name, rfl⟩ := exists_concat_of_meetsFile hmeets
  exact List.append_ne_nil_of_right_ne_nil _ (List.cons_ne_nil _ _)

/-! ### The order of a walk -/

/-- The order in which a walk from the top down meets files: those of a directory by name, then those below its
directories, these by name. -/
inductive Precedes : List Text → List Text → Prop
  | file {a b : Text} (h : Text.Before a b) : Precedes [a] [b]
  | directory {a b : Text} {rest : List Text} (hrest : rest ≠ []) : Precedes [a] (b :: rest)
  | across {a b : Text} {front rest : List Text} (hfront : front ≠ []) (hrest : rest ≠ []) (h : Text.Before a b) :
      Precedes (a :: front) (b :: rest)
  | within {a : Text} {front rest : List Text} (h : Precedes front rest) : Precedes (a :: front) (a :: rest)

lemma Precedes.ne_nil (h : Precedes front rest) : front ≠ [] ∧ rest ≠ [] := by
  cases h <;> exact ⟨List.cons_ne_nil _ _, List.cons_ne_nil _ _⟩

lemma Precedes.walkLe (h : Precedes front rest) : walkLe front rest = true := by
  induction h with
  | file h =>
    rw [FileSystem.walkLe]
    exact h.1
  | directory hrest =>
    obtain ⟨c, rest, rfl⟩ := List.exists_cons_of_ne_nil hrest
    rw [FileSystem.walkLe]
  | across hfront hrest h =>
    obtain ⟨c, front, rfl⟩ := List.exists_cons_of_ne_nil hfront
    obtain ⟨d, rest, rfl⟩ := List.exists_cons_of_ne_nil hrest
    rw [FileSystem.walkLe, if_neg h.2]
    exact h.1
  | within h ih =>
    obtain ⟨hfront, hrest⟩ := h.ne_nil
    obtain ⟨c, front, rfl⟩ := List.exists_cons_of_ne_nil hfront
    obtain ⟨d, rest, rfl⟩ := List.exists_cons_of_ne_nil hrest
    rw [FileSystem.walkLe, if_pos rfl]
    exact ih

lemma Precedes.ne (h : Precedes front rest) : front ≠ rest := by
  induction h with
  | file h => exact fun heq => h.2 (List.cons.inj heq).1
  | directory hrest => exact fun heq => hrest (List.cons.inj heq).2.symm
  | across _ _ h => exact fun heq => h.2 (List.cons.inj heq).1
  | within _ ih => exact fun heq => ih (List.cons.inj heq).2

/-- There is one way to put rows of names in the order of a walk. -/
lemma eq_of_precedes {rows others : List (List Text)} (h : rows.Pairwise Precedes) (hothers : others.Pairwise Precedes)
    (hmem : ∀ names, names ∈ rows ↔ names ∈ others) : rows = others := by
  have hperm := (List.perm_ext_iff_of_nodup (h.imp Precedes.ne) (hothers.imp Precedes.ne)).mpr hmem
  exact hperm.eq_of_pairwise (fun a b _ _ hab hba => walkLe_antisymm hab.walkLe hba.walkLe) h hothers

lemma precedes_of_walkLe (hle : walkLe front rest = true) (hne : front ≠ rest) (hfront : front ≠ []) :
    Precedes front rest := by
  fun_induction walkLe front rest with
  | case1 => exact absurd rfl hfront
  | case2 => cases hle
  | case3 a b => exact .file ⟨hle, by simpa using hne⟩
  | case4 => exact .directory (List.cons_ne_nil _ _)
  | case5 => cases hle
  | case6 a' as a b' bs ih => exact .within (ih hle (by simpa using hne) (List.cons_ne_nil _ _))
  | case7 a as' as b bs' bs hab => exact .across (List.cons_ne_nil _ _) (List.cons_ne_nil _ _) ⟨hle, hab⟩

/-- The files of a walk stand in its order, each once. -/
theorem pairwise_filesBelow (fs : FileSystem) (path : Text) (enter : Text → Bool) :
    (fs.filesBelow path enter).Pairwise Precedes := by
  have hnodup : (fs.filesBelow path enter).Nodup :=
    (filesBelow_perm fs path enter).nodup_iff.mpr (Package.nodup_filesMet fs path enter)
  exact ((sorted_filesBelow fs path enter).and hnodup).imp_of_mem fun ha _ h =>
    precedes_of_walkLe h.1 h.2 (ne_nil_of_mem_filesBelow ha)

lemma eq_cons_of_cons_eq_concat {a last : Text} (h : a :: rest = front ++ [last]) (hrest : rest ≠ []) :
    ∃ more, front = a :: more ∧ rest = more ++ [last] := by
  rcases List.cons_eq_append_iff.mp h with ⟨-, hlast⟩ | hmore
  · exact absurd (List.cons.inj hlast).2.symm hrest
  · exact hmore

/-- Files of one name stand in the order of their directories, segment by segment. -/
lemma Precedes.lex {last : Text} (h : Precedes (front ++ [last]) (rest ++ [last])) :
    List.Lex Text.Before front rest := by
  have hsingle {row : List Text} {c : Text} (hrow : row ++ [last] = [c]) : row = [] ∧ last = c := by
    simpa [List.append_eq_singleton_iff] using hrow
  -- the rows differ before their last name, which is the same, so no file stands beside the other
  generalize hfront : front ++ [last] = a at h
  generalize hrest : rest ++ [last] = b at h
  induction h generalizing front rest with
  | file hab =>
    exact absurd ((hsingle hfront).2.symm.trans (hsingle hrest).2) hab.2
  | directory hmore =>
    obtain ⟨others, rfl, -⟩ := eq_cons_of_cons_eq_concat hrest.symm hmore
    obtain ⟨rfl, -⟩ := hsingle hfront
    exact .nil
  | across hmore hothers hab =>
    obtain ⟨more, rfl, -⟩ := eq_cons_of_cons_eq_concat hfront.symm hmore
    obtain ⟨others, rfl, -⟩ := eq_cons_of_cons_eq_concat hrest.symm hothers
    exact .rel hab
  | within hbelow ih =>
    obtain ⟨more, rfl, hmore⟩ := eq_cons_of_cons_eq_concat hfront.symm hbelow.ne_nil.1
    obtain ⟨others, rfl, hothers⟩ := eq_cons_of_cons_eq_concat hrest.symm hbelow.ne_nil.2
    exact .cons (ih hmore.symm hothers.symm)

/-! ### The walk as a recursion -/

/-- The files of a directory by name, and then those below the directories in it by name, as far down as `depth`
says. -/
def walk (fs : FileSystem) (enter : Text → Bool) : (depth : ℕ) → Location → List (List Text)
  | 0, _ => []
  | depth + 1, here =>
    ((fs.namesIn here).filter fun name => fs.meetsFile enter here [name]).map (fun name => [name]) ++
      ((fs.namesIn here).filter fun name => fs.entryAt? (here ++ [name]) = some .directory && enter name).flatMap
        fun name => (walk fs enter depth (here ++ [name])).map (name :: ·)

lemma mem_namesIn_of_entry {entry : Entry} (h : fs.entryAt? (here ++ [name]) = some entry) : name ∈ fs.namesIn here :=
  mem_namesIn.mpr ((exists_entry_iff (by simp)).mp ⟨entry, h⟩)

/-- What is met in a directory, and what below a directory in it. -/
lemma mem_walk_succ {depth : ℕ} :
    names ∈ fs.walk enter (depth + 1) here ↔
      (∃ name, names = [name] ∧ fs.HasFile here name) ∨
        ∃ name rest, names = name :: rest ∧ fs.entryAt? (here ++ [name]) = some .directory ∧ enter name = true ∧
          rest ∈ fs.walk enter depth (here ++ [name]) := by
  simp only [walk, List.mem_append, List.mem_map, List.mem_flatMap, List.mem_filter, Bool.and_eq_true,
    decide_eq_true_eq, meetsFile_singleton]
  constructor
  · rintro (⟨name, ⟨-, hfile⟩, rfl⟩ | ⟨name, ⟨-, hentry, hname⟩, rest, hrest, rfl⟩)
    · exact .inl ⟨name, rfl, hfile⟩
    · exact .inr ⟨name, rest, rfl, hentry, hname, hrest⟩
  · rintro (⟨name, rfl, hfile⟩ | ⟨name, rest, rfl, hentry, hname, hrest⟩)
    · exact .inl ⟨name, ⟨mem_namesIn.mpr hfile.mem_keys, hfile⟩, rfl⟩
    · exact .inr ⟨name, ⟨mem_namesIn_of_entry hentry, hentry, hname⟩, rest, hrest, rfl⟩

lemma mem_walk {depth : ℕ} :
    names ∈ fs.walk enter depth here ↔ names.length ≤ depth ∧ fs.meetsFile enter here names = true := by
  induction depth generalizing here names with
  | zero =>
    refine ⟨fun h => absurd h List.not_mem_nil, fun ⟨hlength, hmeets⟩ => ?_⟩
    obtain rfl := List.length_eq_zero_iff.mp (Nat.le_zero.mp hlength)
    cases hmeets
  | succ depth ih =>
    rw [mem_walk_succ]
    constructor
    · rintro (⟨name, rfl, hfile⟩ | ⟨name, rest, rfl, hentry, hname, hrest⟩)
      · exact ⟨Nat.le_add_left _ _, meetsFile_singleton.mpr hfile⟩
      · obtain ⟨hlength, hmeets⟩ := ih.mp hrest
        have hne : rest ≠ [] := by
          rintro rfl
          cases hmeets
        exact ⟨Nat.succ_le_succ hlength, (meetsFile_cons hne).mpr ⟨hentry, hname, hmeets⟩⟩
    · rintro ⟨hlength, hmeets⟩
      match names, hlength, hmeets with
      | [name], _, hmeets => exact .inl ⟨name, rfl, meetsFile_singleton.mp hmeets⟩
      | name :: next :: rest, hlength, hmeets =>
        obtain ⟨hentry, hname, hbelow⟩ := (meetsFile_cons (List.cons_ne_nil _ _)).mp hmeets
        exact .inr ⟨name, _, rfl, hentry, hname, ih.mpr ⟨Nat.le_of_succ_le_succ hlength, hbelow⟩⟩

lemma ne_nil_of_mem_walk {depth : ℕ} (h : names ∈ fs.walk enter depth here) : names ≠ [] := by
  rintro rfl
  cases (mem_walk.mp h).2

lemma pairwise_walk (fs : FileSystem) (enter : Text → Bool) (depth : ℕ) (here : Location) :
    (fs.walk enter depth here).Pairwise Precedes := by
  induction depth generalizing here with
  | zero => exact List.Pairwise.nil
  | succ depth ih =>
    have hfilter (keep : Text → Bool) : ((fs.namesIn here).filter keep).Pairwise Text.Before :=
      (ascending_namesIn fs here).filter keep
    rw [walk, List.pairwise_append, List.pairwise_map, List.pairwise_flatMap]
    refine ⟨(hfilter _).imp .file, ⟨fun name _ => ?_, (hfilter _).imp fun {a b} hab => ?_⟩, ?_⟩
    · exact List.pairwise_map.mpr ((ih _).imp .within)
    · simp only [List.forall_mem_map]
      exact fun front hfront rest hrest => .across (ne_nil_of_mem_walk hfront) (ne_nil_of_mem_walk hrest) hab
    · -- whatever is below a directory comes after the files beside it
      simp only [List.forall_mem_map, List.forall_mem_flatMap]
      exact fun name _ other _ rest hrest => .directory (ne_nil_of_mem_walk hrest)

/-- The files below a path are those of the recursion, if this goes down to all entries. -/
theorem filesBelow_eq_walk {depth : ℕ} (hfind : fs.find path = .ok here) (hdirectory : fs.entryAt? here = some .directory)
    (hdepth : ∀ location ∈ fs.entries.keys, location.length ≤ here.length + depth) :
    fs.filesBelow path enter = fs.walk enter depth here := by
  refine eq_of_precedes (pairwise_filesBelow fs path enter) (pairwise_walk fs enter depth here) fun names => ?_
  rw [mem_filesBelow, mem_walk]
  constructor
  · rintro ⟨location, hlocation, -, hkey, hmeets⟩
    obtain rfl := Except.ok.inj (hfind.symm.trans hlocation)
    have hlength := hdepth _ hkey
    rw [List.length_append] at hlength
    exact ⟨Nat.le_of_add_le_add_left hlength, hmeets⟩
  · exact fun ⟨_, hmeets⟩ => ⟨here, hfind, hdirectory, mem_keys_of_meetsFile hmeets, hmeets⟩

end FileSystem

/-! ### Packages and sources -/

namespace Package

variable {fs : FileSystem} {root directory : Path} {ignored : List Text}

open FileSystem (Precedes)

/-- The package in a directory whose manifest is read as an object with a name that is a text and not empty. -/
def named? (fs : FileSystem) (directory : Path) : Option Package :=
  match fs.readManifest (directory.child manifestName) with
  | .ok members =>
    match members.value? "name" with
    | some (.string name) => if name = [] then none else some ⟨name, directory⟩
    | _ => none
  | .error _ => none

/-- The warning of a manifest in a directory that is not read as an object. -/
def complaint? (fs : FileSystem) (directory : Path) : Option Notice :=
  match fs.readManifest (directory.child manifestName) with
  | .ok _ => none
  | .error c => some (.unparsed (directory.child manifestName) c)

lemma named?_eq (fs : FileSystem) (directory : Path) :
    (readIn fs directory).value.map Prod.fst = named? fs directory := by
  rw [readIn_value, named?]
  cases fs.readManifest (directory.child manifestName) with
  | error c => rfl
  | ok members =>
    dsimp only [Except.toOption, Option.bind_some]
    rw [Option.map_map]
    rcases members.value? "name" with _ | value
    · rfl
    · cases value with
      | string name => cases name <;> rfl
      | _ => rfl

lemma complaint?_eq (fs : FileSystem) (directory : Path) :
    (readIn fs directory).notices = (complaint? fs directory).toList := by
  unfold readIn complaint?
  dsimp only
  cases fs.readManifest (directory.child manifestName) <;> rfl

lemma readAll_eq (fs : FileSystem) (directories : List Path) :
    (readAll fs directories).value.map Prod.fst = directories.filterMap (named? fs) ∧
      (readAll fs directories).notices = directories.filterMap (complaint? fs) := by
  induction directories with
  | nil => exact ⟨rfl, rfl⟩
  | cons directory rest ih =>
    have hvalue : (readAll fs (directory :: rest)).value =
        (readIn fs directory).value.toList ++ (readAll fs rest).value := rfl
    have hnotices : (readAll fs (directory :: rest)).notices =
        (readIn fs directory).notices ++ ((readAll fs rest).notices ++ []) := rfl
    rw [hvalue, hnotices, List.append_nil, List.map_append, ih.1, ih.2, complaint?_eq, List.filterMap_cons,
      List.filterMap_cons, ← named?_eq]
    constructor
    · cases (readIn fs directory).value <;> rfl
    · cases complaint? fs directory <;> rfl

/-- The names that lead to the directories with manifests, in the order of a walk. -/
def rowsBelow (fs : FileSystem) (root : Path) (ignored : List Text) : List (List Text) :=
  (fs.filesBelow root.text fun name => !ignored.contains name).filterMap fun names =>
    if names.getLast? = some manifestName then some names.dropLast else none

lemma rowOf?_eq_some {names row : List Text} :
    (if names.getLast? = some manifestName then some names.dropLast else none) = some row ↔
      names = row ++ [manifestName] := by
  rw [Option.ite_none_right_eq_some, Option.some.injEq]
  constructor
  · rintro ⟨hlast, rfl⟩
    exact (List.dropLast_append_getLast? _ hlast).symm
  · rintro rfl
    simp

lemma mem_rowsBelow {names : List Text} :
    names ∈ rowsBelow fs root ignored ↔
      ∃ location, fs.ReachesFrom ignored root.text names location ∧ fs.HasFile location manifestName := by
  rw [← FileSystem.mem_filesBelow_iff, rowsBelow, List.mem_filterMap]
  simp only [rowOf?_eq_some, exists_eq_right]

lemma pairwise_rowsBelow (fs : FileSystem) (root : Path) (ignored : List Text) :
    (rowsBelow fs root ignored).Pairwise (List.Lex Text.Before) := by
  refine (FileSystem.pairwise_filesBelow _ _ _).filterMap _ fun a b hab front hfront rest hrest => ?_
  obtain rfl := rowOf?_eq_some.mp hfront
  obtain rfl := rowOf?_eq_some.mp hrest
  exact hab.lex

lemma directoriesBelow_eq (fs : FileSystem) (root : Path) (ignored : List Text) :
    directoriesBelow fs root ignored = (rowsBelow fs root ignored).map fun names => root.join ⟨.relative, names⟩ := by
  rw [rowsBelow, List.map_filterMap, directoriesBelow]
  refine List.filterMap_congr fun names _ => ?_
  split_ifs <;> rfl

lemma findAll_eq (fs : FileSystem) (root : Path) (ignored : List Text) :
    (findAll fs root ignored).value =
        (rowsBelow fs root ignored).filterMap (fun names => named? fs (root.join ⟨.relative, names⟩)) ∧
      (findAll fs root ignored).notices =
        (rowsBelow fs root ignored).filterMap (fun names => complaint? fs (root.join ⟨.relative, names⟩)) := by
  have hrows {α : Type} (f : Path → Option α) : (directoriesBelow fs root ignored).filterMap f =
      (rowsBelow fs root ignored).filterMap fun names => f (root.join ⟨.relative, names⟩) := by
    rw [directoriesBelow_eq, List.filterMap_map]
    rfl
  obtain ⟨hvalue, hnotices⟩ := readAll_eq fs (directoriesBelow fs root ignored)
  rw [← hrows, ← hrows, ← hvalue, ← hnotices]
  exact ⟨rfl, List.append_nil _⟩

lemma isSource_iff {name : Text} {endings : List Text} :
    (!Text.endsWithAny name Usage.declarationEndings && Text.endsWithAny name endings) = true ↔
      (∃ ending ∈ endings, ending <:+ name) ∧ ∀ ending ∈ Usage.declarationEndings, ¬ending <:+ name := by
  simp only [Text.endsWithAny, Text.endsWith, Bool.and_eq_true, Bool.not_eq_true', List.any_eq_true,
    List.any_eq_false, List.isSuffixOf_iff_suffix, and_comm]

/-- The packages of a repository and the sources in it are found by exact walks: each manifest that is reached is read
once, in the order of the names that lead to its directory, and makes a package or a warning or neither; each file that
is reached and named like a source is given once, in the order of the walk. -/
theorem repository_walked (fs : FileSystem) (root : Path) (endings ignored : List Text) :
    (∃ rows : List (List Text),
      rows.Pairwise (List.Lex Text.Before) ∧
      (∀ names, names ∈ rows ↔
        ∃ location, fs.ReachesFrom ignored root.text names location ∧ fs.HasFile location "package.json") ∧
      (findAll fs root ignored).value = rows.filterMap (fun names => named? fs (root.join ⟨.relative, names⟩)) ∧
      (findAll fs root ignored).notices =
        rows.filterMap (fun names => complaint? fs (root.join ⟨.relative, names⟩))) ∧
    ∃ files : List (List Text),
      files.Pairwise Precedes ∧
      (∀ names, names ∈ files ↔
        ∃ front name location, names = front ++ [name] ∧ fs.ReachesFrom ignored root.text front location ∧
          fs.HasFile location name ∧ (∃ ending ∈ endings, ending <:+ name) ∧
          ∀ ending ∈ [Text.ofString ".d.ts", ".d.mts", ".d.cts"], ¬ending <:+ name) ∧
      Usage.sourcesBelow fs root endings ignored = files.map fun names => root.join ⟨.relative, names⟩ := by
  refine ⟨⟨rowsBelow fs root ignored, pairwise_rowsBelow fs root ignored, fun names => mem_rowsBelow,
    findAll_eq fs root ignored⟩, _, (FileSystem.pairwise_filesBelow fs root.text _).filter _, fun names => ?_, rfl⟩
  rw [List.mem_filter]
  constructor
  · rintro ⟨hmem, hname⟩
    obtain ⟨front, name, rfl⟩ := (List.eq_nil_or_concat' names).resolve_left (FileSystem.ne_nil_of_mem_filesBelow hmem)
    obtain ⟨location, hreaches, hfile⟩ := FileSystem.mem_filesBelow_iff.mp hmem
    rw [List.getLast?_concat] at hname
    exact ⟨front, name, location, rfl, hreaches, hfile, isSource_iff.mp hname⟩
  · rintro ⟨front, name, location, rfl, hreaches, hfile, hname⟩
    rw [List.getLast?_concat]
    exact ⟨FileSystem.mem_filesBelow_iff.mpr ⟨location, hreaches, hfile⟩, isSource_iff.mpr hname⟩

end Package

end PackageExports
