import PackageExports.Proofs.Walks
import PackageExports.Proofs.Writing

/-!
# Paths in a tree

In a tree there are no links, and no name of an entry means anything else on a path. A path then leads to the location
that its names spell, so the manifests of different directories are different files.

Main results: `FileSystem.Unlinked.find_join`, `Package.apart_findAll`.
-/

namespace PackageExports

open scoped List

namespace Text

lemma splitOn_ne_nil (c : CodePoint) (t : Text) : splitOn c t ≠ [] := by
  cases t with
  | nil => simp [splitOn]
  | cons x t =>
    rw [splitOn]
    split_ifs
    · simp
    · split <;> simp

lemma splitOn_append (c : CodePoint) (a b : Text) : splitOn c (a ++ c :: b) = splitOn c a ++ splitOn c b := by
  induction a with
  | nil => simp [splitOn]
  | cons x a ih =>
    rw [List.cons_append, splitOn, splitOn, ih]
    split_ifs
    · rfl
    · cases hsplit : splitOn c a with
      | nil => exact absurd hsplit (splitOn_ne_nil c a)
      | cons piece pieces => rfl

lemma splitOn_of_notMem {c : CodePoint} {t : Text} (h : c ∉ t) : splitOn c t = [t] := by
  induction t with
  | nil => rfl
  | cons x t ih =>
    obtain ⟨hx, ht⟩ := not_or.mp (mt List.mem_cons.mpr h)
    rw [splitOn, if_neg (Ne.symm hx), ih ht]

lemma splitOn_joinWith {pieces : List Text} (hne : pieces ≠ []) (h : ∀ piece ∈ pieces, CodePoint.ofChar '/' ∉ piece) :
    splitOn '/' (joinWith "/" pieces) = pieces := by
  induction pieces with
  | nil => exact absurd rfl hne
  | cons piece rest ih =>
    obtain ⟨hpiece, hrest⟩ := List.forall_mem_cons.mp h
    cases rest with
    | nil => exact splitOn_of_notMem hpiece
    | cons next rest =>
      have hjoin : joinWith "/" (piece :: next :: rest) =
          piece ++ CodePoint.ofChar '/' :: joinWith "/" (next :: rest) := by
        rw [joinWith]
        · exact List.append_assoc _ _ _
        · simp
      rw [hjoin, splitOn_append, splitOn_of_notMem hpiece, ih (by simp) hrest]
      rfl

lemma joinWith_append (separator : Text) {a b : List Text} (ha : a ≠ []) (hb : b ≠ []) :
    joinWith separator (a ++ b) = joinWith separator a ++ separator ++ joinWith separator b := by
  induction a with
  | nil => exact absurd rfl ha
  | cons piece rest ih =>
    cases rest with
    | nil =>
      obtain ⟨next, others, rfl⟩ := List.exists_cons_of_ne_nil hb
      exact joinWith.eq_3 _ _ _ (by simp)
    | cons next rest =>
      have hleft : joinWith separator (piece :: (next :: rest ++ b)) =
          piece ++ separator ++ joinWith separator (next :: rest ++ b) := joinWith.eq_3 _ _ _ (by simp)
      have hright : joinWith separator (piece :: next :: rest) =
          piece ++ separator ++ joinWith separator (next :: rest) := joinWith.eq_3 _ _ _ (by simp)
      rw [List.cons_append, hleft, ih (by simp), hright]
      simp only [List.append_assoc]

end Text

namespace FileSystem

/-- A name of an entry. -/
def IsName (name : Text) : Prop :=
  name ≠ [] ∧ name ≠ "." ∧ name ≠ ".." ∧ CodePoint.ofChar '/' ∉ name

/-- No entry is a link. -/
def Unlinked (fs : FileSystem) : Prop :=
  ∀ location target, fs.entryAt? location ≠ some (.link target)

/-- A file system without links, in which all names are names of entries. -/
structure IsTree (fs : FileSystem) : Prop where
  unlinked : ∀ location target, fs.entryAt? location ≠ some (.link target)
  named : ∀ location ∈ fs.entries.keys, ∀ name ∈ location, IsName name

instance (name : Text) : Decidable (IsName name) :=
  inferInstanceAs (Decidable (_ ∧ _ ∧ _ ∧ _))

lemma IsName.isLookedUp {name : Text} (h : IsName name) (hshort : Utf8.byteLength name ≤ 255) : IsLookedUp name where
  moves := not_or.mpr ⟨h.1, h.2.1⟩
  ne_up := h.2.2.1
  short := hshort

lemma isTree_empty : empty.IsTree where
  unlinked location target h := by
    unfold entryAt? at h
    split_ifs at h <;> cases h
  named := by simp [empty, Keyed.keys]

lemma Unlinked.put {fs : FileSystem} {location : Location} {entry : Entry} (hlinks : fs.Unlinked) (hne : location ≠ [])
    (hentry : ∀ target, entry ≠ .link target) : (fs.put location entry).Unlinked := by
  intro other target h
  by_cases hsame : location = other
  · rw [← hsame, entryAt?_put_self fs _ hne] at h
    exact hentry target (Option.some.inj h)
  · rw [entryAt?_put_of_ne fs _ hsame] at h
    exact hlinks other target h

lemma IsTree.put {fs : FileSystem} {location : Location} {entry : Entry} (htree : fs.IsTree) (hne : location ≠ [])
    (hnames : ∀ name ∈ location, IsName name) (hentry : ∀ target, entry ≠ .link target) :
    (fs.put location entry).IsTree where
  unlinked := Unlinked.put htree.unlinked hne hentry
  named other hother := by
    rcases Keyed.mem_keys_insert.mp hother with rfl | hkey
    · exact hnames
    · exact htree.named other hkey

/-- Where one name leads from a location. -/
def Location.step (here : Location) (name : Text) : Location :=
  if name = [] ∨ name = "." then here else if name = ".." then here.dropLast else here ++ [name]

lemma foldl_step {names : List Text} (h : ∀ name ∈ names, IsName name) (here : Location) :
    names.foldl Location.step here = here ++ names := by
  induction names generalizing here with
  | nil => exact (List.append_nil here).symm
  | cons name rest ih =>
    obtain ⟨⟨hne, hdot, hup, -⟩, hrest⟩ := List.forall_mem_cons.mp h
    rw [List.foldl_cons, ih hrest, Location.step, if_neg (by simp [hne, hdot]), if_neg hup, List.append_assoc]
    rfl

variable {fs : FileSystem} {location base : Location}

lemma Unlinked.eq_of_leads (hlinks : fs.Unlinked) {links : ℕ} {here : Location} {names : List Text}
    (h : fs.Leads location links here names) : location = names.foldl Location.step here := by
  induction h with
  | here => rfl
  | stay hstay _ ih =>
    rw [List.foldl_cons, Location.step, if_pos hstay]
    exact ih
  | up _ ih =>
    rw [List.foldl_cons, Location.step, if_neg (by decide), if_pos rfl]
    exact ih
  | file hname hlocation _ =>
    rw [List.foldl_cons, Location.step, if_neg hname.moves, if_neg hname.ne_up]
    exact hlocation
  | directory hname _ _ ih =>
    rw [List.foldl_cons, Location.step, if_neg hname.moves, if_neg hname.ne_up]
    exact ih
  | link _ hentry _ _ => exact absurd hentry (hlinks _ _)

def startOf (fs : FileSystem) (path : Text) : Location :=
  if Text.startsWith path "/" then [] else fs.workingDirectory

lemma Unlinked.find (hlinks : fs.Unlinked) {path : Text} (h : fs.find path = .ok location) :
    path ≠ [] ∧ location = (Text.splitOn '/' path).foldl Location.step (fs.startOf path) := by
  have hplace := place_of_find h
  unfold place at hplace
  split_ifs at hplace with _ _ hempty hslash
  · rw [startOf, if_pos hslash]
    exact ⟨by simpa using hempty, hlinks.eq_of_leads (follow_eq_present.mp hplace)⟩
  · rw [startOf, if_neg hslash]
    exact ⟨by simpa using hempty, hlinks.eq_of_leads (follow_eq_present.mp hplace)⟩

lemma text_join (root : Path) {names : List Text} (hnames : names ≠ []) :
    (root.join ⟨.relative, names⟩).text =
      if root.segments = [] then Path.anchorText root.anchor ++ Text.joinWith "/" names
      else root.text ++ "/" ++ Text.joinWith "/" names := by
  obtain ⟨anchor, segments⟩ := root
  rw [Path.join, if_pos rfl, Path.text, if_neg (by simp [hnames]), Path.segmentText]
  split_ifs with hsegments
  · rw [hsegments]
    rfl
  · rw [Path.text, if_neg (by simpa using fun _ => hsegments), Path.segmentText,
      Text.joinWith_append _ hsegments hnames]
    simp only [List.append_assoc]

lemma startOf_joinWith {names : List Text} (hnames : names ≠ []) (hproper : ∀ name ∈ names, IsName name) :
    fs.startOf (Text.joinWith "/" names) = fs.workingDirectory := by
  obtain ⟨name, rest, rfl⟩ := List.exists_cons_of_ne_nil hnames
  obtain ⟨hne, -, -, hslash⟩ := hproper name List.mem_cons_self
  obtain ⟨c, chars, rfl⟩ := List.exists_cons_of_ne_nil hne
  have hc : c ≠ CodePoint.ofChar '/' := fun h => hslash (h ▸ List.mem_cons_self)
  obtain ⟨others, hjoin⟩ : ∃ others, Text.joinWith "/" ((c :: chars) :: rest) = c :: others := by
    cases rest with
    | nil => exact ⟨chars, rfl⟩
    | cons next rest => exact ⟨_, Text.joinWith.eq_3 _ _ _ (by simp)⟩
  rw [startOf, hjoin, if_neg]
  intro hstarts
  exact hc (List.isPrefixOf_iff_prefix.mp hstarts |> List.cons_prefix_cons.mp).1.symm

/-- Names at the end of a path are followed from where the path before them leads. -/
lemma splitOn_join (fs : FileSystem) (root : Path) {names : List Text} (hnames : names ≠ [])
    (hproper : ∀ name ∈ names, IsName name) :
    ∃ front, Text.splitOn '/' (root.join ⟨.relative, names⟩).text = front ++ names ∧
      (root.text ≠ [] → front.foldl Location.step (fs.startOf (root.join ⟨.relative, names⟩).text) =
        (Text.splitOn '/' root.text).foldl Location.step (fs.startOf root.text)) := by
  have hsplit : Text.splitOn '/' (Text.joinWith "/" names) = names :=
    Text.splitOn_joinWith hnames fun name hname => (hproper name hname).2.2.2
  rw [text_join root hnames]
  split_ifs with hsegments
  · obtain ⟨anchor, segments⟩ := root
    obtain rfl : segments = [] := hsegments
    cases anchor with
    | relative =>
      refine ⟨[], hsplit, fun _ => ?_⟩
      rw [Path.anchorText, List.nil_append, startOf_joinWith hnames hproper]
      rfl
    | absolute => exact ⟨[[]], (Text.splitOn_append '/' [] _).trans (congrArg _ hsplit), fun _ => rfl⟩
    | doubleSlash =>
      exact ⟨[[], []], (Text.splitOn_append '/' [CodePoint.ofChar '/'] _).trans (congrArg _ hsplit), fun _ => rfl⟩
  · refine ⟨Text.splitOn '/' root.text, ?_, fun hempty => ?_⟩
    · rw [List.append_assoc]
      exact (Text.splitOn_append _ _ _).trans (congrArg _ hsplit)
    · obtain ⟨c, rest, hc⟩ := List.exists_cons_of_ne_nil hempty
      rw [hc]
      rfl

/-- A path below a directory leads to a location below it. -/
theorem Unlinked.find_join (hlinks : fs.Unlinked) {root : Path} {names : List Text} (hnames : names ≠ [])
    (hproper : ∀ name ∈ names, IsName name) (hroot : fs.find root.text = .ok base)
    (h : fs.find (root.join ⟨.relative, names⟩).text = .ok location) : location = base ++ names := by
  obtain ⟨hempty, rfl⟩ := hlinks.find hroot
  obtain ⟨-, rfl⟩ := hlinks.find h
  obtain ⟨front, hfront, hfold⟩ := splitOn_join fs root hnames hproper
  rw [hfront, List.foldl_append, hfold hempty, foldl_step hproper]

lemma Unlinked.find_child (hlinks : fs.Unlinked) {directory : Path} {name : Text} (hname : IsName name)
    (h : fs.find (directory.child name).text = .ok location) : location.getLast? = some name := by
  obtain ⟨-, rfl⟩ := hlinks.find h
  have hproper : ∀ other ∈ [name], IsName other := by simpa using hname
  obtain ⟨front, hfront, -⟩ := splitOn_join fs directory (by simp) hproper
  have hjoin : directory.join ⟨.relative, [name]⟩ = directory.child name := if_pos rfl
  rw [hjoin] at hfront
  rw [hfront, List.foldl_append, foldl_step hproper, List.getLast?_concat]

lemma isName_manifestName : IsName Package.manifestName := by
  unfold IsName
  decide

end FileSystem

namespace Package

variable {fs : FileSystem} {root : Path} {ignored : List Text}

open FileSystem (IsName)

lemma join_inj {a b : List Text} (h : root.join ⟨.relative, a⟩ = root.join ⟨.relative, b⟩) : a = b := by
  rw [Path.join, Path.join, if_pos rfl, if_pos rfl] at h
  exact List.append_cancel_left (Path.mk.inj h).2

lemma directoryOf?_eq_some {names : List Text} {directory : Path} :
    directoryOf? root names = some directory ↔
      names.getLast? = some manifestName ∧ root.join ⟨.relative, names.dropLast⟩ = directory := by
  unfold directoryOf?
  split_ifs with h <;> simp [h]

lemma nodup_filesMet (fs : FileSystem) (path : Text) (enter : Text → Bool) : (fs.filesMet path enter).Nodup := by
  unfold FileSystem.filesMet
  split
  · rename_i location _
    split_ifs
    · rw [FileSystem.filterMap_met]
      refine fs.nodup.filterMap fun a b names ha hb => ?_
      obtain ⟨ha, -⟩ := Option.filter_eq_some_iff.mp ha
      obtain ⟨hb, -⟩ := Option.filter_eq_some_iff.mp hb
      rw [Path.segmentsAfter?_eq_some.mp ha, Path.segmentsAfter?_eq_some.mp hb]
    · exact List.nodup_nil
  · exact List.nodup_nil

lemma nodup_directoriesBelow (fs : FileSystem) (root : Path) (ignored : List Text) :
    (directoriesBelow fs root ignored).Nodup := by
  rw [(directoriesBelow_perm fs root ignored).nodup_iff]
  refine (nodup_filesMet _ _ _).filterMap fun a b directory ha hb => ?_
  obtain ⟨hlast, rfl⟩ := directoryOf?_eq_some.mp ha
  obtain ⟨hlast', hjoin⟩ := directoryOf?_eq_some.mp hb
  rw [← List.dropLast_append_getLast? _ hlast, ← List.dropLast_append_getLast? _ hlast', join_inj hjoin]

lemma mem_directoriesBelow (htree : fs.IsTree) {directory : Path} (h : directory ∈ directoriesBelow fs root ignored) :
    ∃ base names, fs.find root.text = .ok base ∧ directory = root.join ⟨.relative, names⟩ ∧
      ∀ name ∈ names, IsName name := by
  obtain ⟨names, hnames, hdirectory⟩ := List.mem_filterMap.mp h
  obtain ⟨-, rfl⟩ := directoryOf?_eq_some.mp hdirectory
  obtain ⟨base, hbase, -, hkey, -⟩ := FileSystem.mem_filesBelow.mp hnames
  refine ⟨base, names.dropLast, hbase, rfl, fun name hname => ?_⟩
  exact htree.named _ hkey name (List.mem_append_right _ (List.dropLast_subset _ hname))

lemma mem_readIn {directory : Path} {p : Package} {members : Json.Members}
    (h : (readIn fs directory).value = some (p, members)) :
    p.directory = directory ∧ fs.readManifest p.manifest = .ok members := by
  unfold readIn at h
  dsimp only at h
  split at h
  · cases h
  · rename_i found hread
    obtain ⟨name, -, hpair⟩ := Option.map_eq_some_iff.mp h
    obtain ⟨rfl, rfl⟩ := Prod.mk.inj hpair
    exact ⟨rfl, hread⟩

lemma directories_readAll (fs : FileSystem) (directories : List Path) :
    ((readAll fs directories).value.map (·.1.directory)).Sublist directories ∧
      ∀ q ∈ (readAll fs directories).value, fs.readManifest q.1.manifest = .ok q.2 := by
  induction directories with
  | nil => exact ⟨List.Sublist.refl _, by simp [readAll]⟩
  | cons directory rest ih =>
    have hvalue : (readAll fs (directory :: rest)).value =
        (readIn fs directory).value.toList ++ (readAll fs rest).value := rfl
    rw [hvalue]
    cases hfirst : (readIn fs directory).value with
    | none => exact ⟨ih.1.cons directory, ih.2⟩
    | some q =>
      obtain ⟨p, members⟩ := q
      obtain ⟨rfl, hread⟩ := mem_readIn hfirst
      exact ⟨ih.1.cons_cons p.directory, List.forall_mem_cons.mpr ⟨hread, ih.2⟩⟩

lemma child_join (names : List Text) (name : Text) :
    (root.join ⟨.relative, names⟩).child name = root.join ⟨.relative, names ++ [name]⟩ := by
  rw [Path.join, Path.join, if_pos rfl, if_pos rfl, Path.child, List.append_assoc]

lemma isName_append {names : List Text} {name : Text} (hnames : ∀ name ∈ names, IsName name) (hname : IsName name) :
    ∀ other ∈ names ++ [name], IsName other := by
  intro other hother
  rcases List.mem_append.mp hother with h | h
  · exact hnames other h
  · exact List.mem_singleton.mp h ▸ hname

lemma find_manifest (htree : fs.IsTree) {p : Package} (h : p ∈ (findAll fs root ignored).value) :
    ∃ base names, fs.find root.text = .ok base ∧ p.directory = root.join ⟨.relative, names⟩ ∧
      (∀ name ∈ names, IsName name) ∧ fs.find p.manifest.text = .ok (base ++ (names ++ [manifestName])) := by
  obtain ⟨⟨q, members⟩, hq, rfl⟩ := List.mem_map.mp h
  obtain ⟨hdirectories, hread⟩ := directories_readAll fs (directoriesBelow fs root ignored)
  obtain ⟨base, names, hbase, hdirectory, hnames⟩ :=
    mem_directoriesBelow htree (hdirectories.subset (List.mem_map_of_mem hq))
  obtain ⟨bytes, hbytes⟩ := FileSystem.read_of_readManifest (hread _ hq)
  obtain ⟨location, hfind, -⟩ := FileSystem.find_of_read hbytes
  have hpath : q.manifest = root.join ⟨.relative, names ++ [manifestName]⟩ := by
    rw [manifest, hdirectory, child_join]
  refine ⟨base, names, hbase, hdirectory, hnames, ?_⟩
  dsimp only
  rw [hfind]
  rw [hpath] at hfind
  rw [FileSystem.Unlinked.find_join htree.unlinked (by simp) (isName_append hnames FileSystem.isName_manifestName) hbase
    hfind]

/-- In a tree, no two packages have one manifest, and no manifest is a file of compiler options. -/
theorem apart_findAll (htree : fs.IsTree) (root : Path) (ignored : List Text) :
    ((findAll fs root ignored).value.Pairwise fun p q => fs.find p.manifest.text ≠ fs.find q.manifest.text) ∧
      ∀ p ∈ (findAll fs root ignored).value, ∀ q ∈ (findAll fs root ignored).value,
        fs.find (p.directory.child "tsconfig.json").text ≠ fs.find q.manifest.text := by
  constructor
  · have hnodup : ((findAll fs root ignored).value.map (·.directory)).Nodup := by
      have hmap : (findAll fs root ignored).value.map (·.directory) =
          (readAll fs (directoriesBelow fs root ignored)).value.map (·.1.directory) := List.map_map
      rw [hmap]
      exact (nodup_directoriesBelow fs root ignored).sublist (directories_readAll fs _).1
    rw [List.Nodup, List.pairwise_map] at hnodup
    refine hnodup.imp_of_mem fun hp hq hne hfind => hne ?_
    obtain ⟨base, names, hbase, hdirectory, -, hlocation⟩ := find_manifest htree hp
    obtain ⟨base', names', hbase', hdirectory', -, hlocation'⟩ := find_manifest htree hq
    obtain rfl := Except.ok.inj (hbase.symm.trans hbase')
    rw [hlocation, hlocation'] at hfind
    have hnames := List.append_cancel_right (List.append_cancel_left (Except.ok.inj hfind))
    rw [hdirectory, hdirectory', hnames]
  · intro p hp q hq hfind
    obtain ⟨base, names, -, -, -, hlocation⟩ := find_manifest htree hq
    have hoptions : IsName "tsconfig.json" := by
      unfold IsName
      decide
    have hlast := FileSystem.Unlinked.find_child htree.unlinked hoptions (hfind.trans hlocation)
    rw [FileSystem.Unlinked.find_child htree.unlinked FileSystem.isName_manifestName hlocation] at hlast
    exact absurd (Option.some.inj hlast) (by decide)

end Package

end PackageExports
