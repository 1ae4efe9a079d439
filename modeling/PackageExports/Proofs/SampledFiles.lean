import PackageExports.Proofs.Listings

/-!
# Sampled files

A sample of a directory looks at no more entries of each directory than it may still have files. So a directory without
files takes the place of a file. If there is room for all files and all empty directories, then all files are sampled.

Main results: `BuildLayout.sample_eq`, `BuildLayout.isFileAt_of_mem_sample`, `BuildLayout.mem_sample_iff`.
-/

namespace PackageExports

namespace FileSystem

/-- Below a location there are only names that an entry can have. -/
def NamedBelow (fs : FileSystem) (base : Location) : Prop :=
  ∀ names entry, fs.entryAt? (base ++ names) = some entry → ∀ name ∈ names, CanExist name

/-- There is a file at a location. -/
def IsFileAt (fs : FileSystem) (location : Location) : Prop :=
  ∃ content, fs.entryAt? location = some (.file content)

/-- There is a file or an empty directory at a location. -/
def IsEnd (fs : FileSystem) (location : Location) : Prop :=
  fs.IsFileAt location ∨ fs.entryAt? location = some .directory ∧ ∀ name, fs.entryAt? (location ++ [name]) = none

variable {fs : FileSystem} {top : Path} {base : Location} {names rest : List Text} {entry : Entry}

lemma NamedBelow.below (h : fs.NamedBelow base) (names : List Text) : fs.NamedBelow (base ++ names) := by
  intro rest entry hentry name hname
  rw [List.append_assoc] at hentry
  exact h _ _ hentry name (List.mem_append_right _ hname)

lemma namedBelow_here (h : ∀ location ∈ fs.entries.keys, ∀ name ∈ location, CanExist name) : fs.NamedBelow [] := by
  intro names entry hentry name hname
  exact h names ((exists_entry_iff (List.ne_nil_of_mem hname)).mp ⟨entry, hentry⟩) name hname

lemma LeadsToTree.isFile_named_iff (h : fs.LeadsToTree top base) (hnamed : fs.NamedBelow base)
    (hnames : ∀ name ∈ names, IsName name) :
    fs.isFile (Path.text ⟨top.anchor, top.segments ++ names⟩) = true ↔ fs.IsFileAt (base ++ names) := by
  constructor
  · intro hfile
    obtain ⟨location, content, hfind, hentry⟩ := FileSystem.isFile_iff.mp hfile
    obtain ⟨rfl, -⟩ := find_names h.clean h.found h.tree.directory hnames h.tree.unlinked hfind
    exact ⟨content, hentry⟩
  · rintro ⟨content, hentry⟩
    exact (h.isFile_iff (hnamed _ _ hentry)).mpr ⟨content, hentry⟩

lemma HoldsTree.exists_entry (htree : fs.HoldsTree base) (hentry : fs.entryAt? (base ++ (names ++ rest)) = some entry) :
    ∃ found, fs.entryAt? (base ++ names) = some found := by
  by_cases hrest : rest = []
  · rw [hrest, List.append_nil] at hentry
    exact ⟨entry, hentry⟩
  · rw [← List.append_assoc] at hentry
    exact ⟨.directory, htree.above hrest hentry⟩

lemma HoldsTree.length_le (htree : fs.HoldsTree base) (hentry : fs.entryAt? (base ++ names) = some entry) :
    names.length ≤ fs.entries.length := by
  have hkeys : (List.range names.length).map (fun i => base ++ names.take (i + 1)) ⊆ fs.entries.keys := by
    intro location hlocation
    obtain ⟨i, hi, rfl⟩ := List.mem_map.mp hlocation
    have hlength : (names.take (i + 1)).length = i + 1 := by
      rw [List.length_take, Nat.min_eq_left (List.mem_range.mp hi)]
    refine (exists_entry_iff fun hnil => ?_).mp ?_
    · rw [(List.append_eq_nil_iff.mp hnil).2] at hlength
      cases hlength
    · rw [← List.take_append_drop (i + 1) names] at hentry
      exact htree.exists_entry hentry
  have hnodup : ((List.range names.length).map fun i => base ++ names.take (i + 1)).Nodup := by
    refine List.nodup_range.map_on fun i hi j hj heq => ?_
    have hlength := congrArg List.length (List.append_cancel_left heq)
    have hi := List.mem_range.mp hi
    have hj := List.mem_range.mp hj
    rw [List.length_take, List.length_take] at hlength
    omega
  have hlength := (hnodup.subperm hkeys).length_le
  rwa [List.length_map, List.length_range, Keyed.keys, List.length_map] at hlength

end FileSystem

namespace BuildLayout

variable {fs : FileSystem} {top : Path} {base : Location} {names rest : List Text} {name : Text} {depth limit : ℕ}
  {listed : List Text} {files : List (List Text)} {entry : Entry}

/-- What one name of a listing adds to a sample. -/
def collect (fs : FileSystem) (top : Path) (depth : ℕ) (names : List Text) (limit : ℕ) (files : List (List Text))
    (name : Text) : List (List Text) :=
  let path := (top.join ⟨.relative, names ++ [name]⟩).text
  if limit ≤ files.length then files
  else if fs.isFile path then files ++ [names ++ [name]]
  else if fs.isDirectory path then files ++ sample fs top depth (names ++ [name]) (limit - files.length)
  else files

lemma sample_succ (fs : FileSystem) (top : Path) (depth : ℕ) (names : List Text) (limit : ℕ) :
    sample fs top (depth + 1) names limit =
      ((fs.list (top.join ⟨.relative, names⟩).text).take limit).foldl (collect fs top depth names limit) [] :=
  rfl

/-! ### Ends of ways -/

/-- What is at the end of the ways from a place, at most `depth` names further: files and empty directories. -/
def ends (fs : FileSystem) (top : Path) : (depth : ℕ) → (names : List Text) → List (List Text)
  | 0, names => [names]
  | depth + 1, names =>
    if fs.list (top.join ⟨.relative, names⟩).text = [] then [names]
    else (fs.list (top.join ⟨.relative, names⟩).text).flatMap fun name => ends fs top depth (names ++ [name])

lemma ends_succ (hlisted : fs.list (top.join ⟨.relative, names⟩).text ≠ []) :
    ends fs top (depth + 1) names =
      (fs.list (top.join ⟨.relative, names⟩).text).flatMap fun name => ends fs top depth (names ++ [name]) :=
  if_neg hlisted

lemma length_ends_pos (fs : FileSystem) (top : Path) (depth : ℕ) (names : List Text) :
    0 < (ends fs top depth names).length := by
  induction depth generalizing names with
  | zero => exact Nat.one_pos
  | succ depth ih =>
    by_cases hlisted : fs.list (top.join ⟨.relative, names⟩).text = []
    · rw [ends, if_pos hlisted]
      exact Nat.one_pos
    · rw [ends_succ hlisted]
      obtain ⟨name, others, hcons⟩ := List.exists_cons_of_ne_nil hlisted
      rw [hcons, List.flatMap_cons, List.length_append]
      exact Nat.add_pos_left (ih _) _

/-- Whether names lead to a file. -/
def leadsToFile (fs : FileSystem) (top : Path) (names : List Text) : Bool :=
  fs.isFile (top.join ⟨.relative, names⟩).text

lemma file_or_directory (h : fs.LeadsToTree top base) (hentry : fs.entryAt? (base ++ names) = some entry) :
    fs.IsFileAt (base ++ names) ∨ fs.entryAt? (base ++ names) = some .directory := by
  rcases entry with content | target | _
  · exact .inl ⟨content, hentry⟩
  · exact absurd hentry (h.tree.unlinked _ _ (List.prefix_append _ _))
  · exact .inr hentry

lemma not_isFileAt {location : Location} (hdirectory : fs.entryAt? location = some .directory) :
    ¬fs.IsFileAt location := by
  rintro ⟨content, hfile⟩
  cases hdirectory.symm.trans hfile

lemma prefix_of_mem_ends (hmem : rest ∈ ends fs top depth names) : names <+: rest := by
  induction depth generalizing names with
  | zero =>
    rw [List.mem_singleton.mp hmem]
  | succ depth ih =>
    rw [ends] at hmem
    split_ifs at hmem
    · rw [List.mem_singleton.mp hmem]
    · obtain ⟨name, -, hmem⟩ := List.mem_flatMap.mp hmem
      exact (List.prefix_append names [name]).trans (ih hmem)

lemma nodup_ends (fs : FileSystem) (top : Path) (depth : ℕ) (names : List Text) :
    (ends fs top depth names).Nodup := by
  induction depth generalizing names with
  | zero => exact List.nodup_singleton _
  | succ depth ih =>
    rw [ends]
    split_ifs
    · exact List.nodup_singleton _
    · refine List.nodup_flatMap.mpr ⟨fun name _ => ih _, (fs.nodup_list _).imp fun {a b} hne rest ha hb => hne ?_⟩
      have hboth : names ++ [a] = names ++ [b] := by
        have hlength : (names ++ [a]).length = (names ++ [b]).length := by simp
        exact List.IsPrefix.eq_of_length (List.prefix_of_prefix_length_le (prefix_of_mem_ends ha)
          (prefix_of_mem_ends hb) hlength.le) hlength
      exact List.singleton_injective (List.append_cancel_left hboth)

/-- There is no less in rows that are not empty than there are rows. -/
lemma length_le_flatMap {α β : Type} {row : α → List β} {items : List α} (h : ∀ a ∈ items, 0 < (row a).length) :
    items.length ≤ (items.flatMap row).length := by
  rw [List.length_flatMap, ← List.length_map (f := fun a => (row a).length)]
  exact List.length_le_sum_of_one_le _ (List.forall_mem_map.mpr h)

/-- Below a location there are no more files than a number. -/
def FewFiles (fs : FileSystem) (location : Location) (limit : ℕ) : Prop :=
  ∀ rows : List (List Text), rows.Nodup → (∀ names ∈ rows, fs.IsFileAt (location ++ names)) → rows.length ≤ limit

/-- At a location and below it there are no more files and empty directories than a number. -/
def FewEnds (fs : FileSystem) (location : Location) (limit : ℕ) : Prop :=
  ∀ rows : List (List Text), rows.Nodup → (∀ names ∈ rows, fs.IsEnd (location ++ names)) → rows.length ≤ limit

lemma FewEnds.fewFiles {location : Location} (h : FewEnds fs location limit) : FewFiles fs location limit :=
  fun rows hnodup hfiles => h rows hnodup fun names hmem => .inl (hfiles names hmem)

lemma length_le_of_places {location : Location} {rows places : List (List Text)} (hnodup : rows.Nodup)
    (h : ∀ names ∈ rows, location ++ names ∈ places) : rows.length ≤ places.length := by
  have hplaces := (hnodup.map fun _ _ => List.append_cancel_left).subperm (List.forall_mem_map.mpr h)
  rw [← List.length_map (f := (location ++ ·))]
  exact hplaces.length_le

lemma fewEnds_of_length {location : Location} (hne : location ≠ []) (hlength : fs.entries.length ≤ limit) :
    FewEnds fs location limit := by
  intro rows hnodup hends
  have hkeys : ∀ names ∈ rows, location ++ names ∈ fs.entries.keys := by
    intro names hmem
    refine (FileSystem.exists_entry_iff (by simp [hne])).mp ?_
    rcases hends names hmem with ⟨content, hentry⟩ | ⟨hentry, -⟩
    · exact ⟨_, hentry⟩
    · exact ⟨_, hentry⟩
  have hrows := length_le_of_places hnodup hkeys
  rw [Keyed.keys, List.length_map] at hrows
  exact hrows.trans hlength

/-! ### Samples of a tree -/

section Tree

variable (h : fs.LeadsToTree top base) (hnamed : fs.NamedBelow base)

include h hnamed

lemma mem_listed (hentry : fs.entryAt? (base ++ names) = some entry) :
    name ∈ fs.list (top.join ⟨.relative, names⟩).text ↔
      ∃ found, fs.entryAt? (base ++ (names ++ [name])) = some found := by
  rw [Path.join, if_pos rfl, h.mem_list (hnamed _ _ hentry), List.append_assoc]

lemma list_eq_nil (hentry : fs.entryAt? (base ++ names) = some entry)
    (hnone : ∀ other, fs.entryAt? (base ++ (names ++ [other])) = none) :
    fs.list (top.join ⟨.relative, names⟩).text = [] := by
  refine List.eq_nil_iff_forall_not_mem.mpr fun other hother => ?_
  obtain ⟨found, hfound⟩ := (mem_listed h hnamed hentry).mp hother
  cases (hnone other).symm.trans hfound

lemma leadsToFile_iff (hentry : fs.entryAt? (base ++ names) = some entry) :
    leadsToFile fs top names = true ↔ fs.IsFileAt (base ++ names) := by
  rw [leadsToFile, Path.join, if_pos rfl]
  exact h.isFile_iff (hnamed _ _ hentry)

lemma filter_of_file (hfile : fs.IsFileAt (base ++ names)) : [names].filter (leadsToFile fs top) = [names] := by
  obtain ⟨content, hentry⟩ := hfile
  exact List.filter_cons_of_pos ((leadsToFile_iff h hnamed hentry).mpr ⟨content, hentry⟩)

lemma filter_of_directory (hdirectory : fs.entryAt? (base ++ names) = some .directory) :
    [names].filter (leadsToFile fs top) = [] :=
  List.filter_cons_of_neg ((leadsToFile_iff h hnamed hdirectory).not.mpr (not_isFileAt hdirectory))

lemma ends_of_file (hfile : fs.IsFileAt (base ++ names)) : ends fs top depth names = [names] := by
  cases depth with
  | zero => rfl
  | succ depth =>
    obtain ⟨content, hfile⟩ := hfile
    refine if_pos (list_eq_nil h hnamed hfile fun name => Option.eq_none_iff_forall_ne_some.mpr fun found hfound => ?_)
    rw [← List.append_assoc] at hfound
    cases hfile.symm.trans (h.tree.parent _ _ _ hfound)

lemma collect_file (hfile : fs.IsFileAt (base ++ (names ++ [name]))) (hroom : files.length < limit) :
    collect fs top depth names limit files name = files ++ [names ++ [name]] := by
  obtain ⟨content, hentry⟩ := hfile
  exact (if_neg (Nat.not_le.mpr hroom)).trans (if_pos ((leadsToFile_iff h hnamed hentry).mpr ⟨content, hentry⟩))

lemma collect_directory (hdirectory : fs.entryAt? (base ++ (names ++ [name])) = some .directory)
    (hroom : files.length < limit) :
    collect fs top depth names limit files name =
      files ++ sample fs top depth (names ++ [name]) (limit - files.length) := by
  have hfile : ¬leadsToFile fs top (names ++ [name]) = true :=
    (leadsToFile_iff h hnamed hdirectory).not.mpr (not_isFileAt hdirectory)
  have hisDirectory : fs.isDirectory (top.join ⟨.relative, names ++ [name]⟩).text = true := by
    rw [Path.join, if_pos rfl, h.isDirectory_iff (hnamed _ _ hdirectory)]
    exact hdirectory
  exact (if_neg (Nat.not_le.mpr hroom)).trans ((if_neg hfile).trans (if_pos hisDirectory))

/-- If there is room for all ends, a listing adds the files among them. -/
lemma foldl_collect (hlisted : ∀ name ∈ listed, ∃ found, fs.entryAt? (base ++ (names ++ [name])) = some found)
    (hsample : ∀ name limit, fs.entryAt? (base ++ (names ++ [name])) = some .directory →
      (ends fs top depth (names ++ [name])).length ≤ limit →
      sample fs top depth (names ++ [name]) limit =
        (ends fs top depth (names ++ [name])).filter (leadsToFile fs top))
    (hroom : files.length + (listed.flatMap fun name => ends fs top depth (names ++ [name])).length ≤ limit) :
    listed.foldl (collect fs top depth names limit) files =
      files ++ (listed.flatMap fun name => ends fs top depth (names ++ [name])).filter (leadsToFile fs top) := by
  induction listed generalizing files with
  | nil => exact (List.append_nil files).symm
  | cons name others ih =>
    obtain ⟨⟨found, hfound⟩, hothers⟩ := List.forall_mem_cons.mp hlisted
    rw [List.flatMap_cons, List.length_append] at hroom
    have hpos := length_ends_pos fs top depth (names ++ [name])
    have hadded : collect fs top depth names limit files name =
        files ++ (ends fs top depth (names ++ [name])).filter (leadsToFile fs top) := by
      rcases file_or_directory h hfound with hfile | hdirectory
      · rw [collect_file h hnamed hfile (by omega), ends_of_file h hnamed hfile, filter_of_file h hnamed hfile]
      · rw [collect_directory h hnamed hdirectory (by omega), hsample name _ hdirectory (by omega)]
    have hlength := List.length_filter_le (leadsToFile fs top) (ends fs top depth (names ++ [name]))
    rw [List.foldl_cons, hadded, ih hothers (by rw [List.length_append]; omega), List.flatMap_cons, List.filter_append,
      List.append_assoc]

/-- A sample with room for all ends has all files among them. -/
theorem sample_eq (hdirectory : fs.entryAt? (base ++ names) = some .directory)
    (hroom : (ends fs top depth names).length ≤ limit) :
    sample fs top depth names limit = (ends fs top depth names).filter (leadsToFile fs top) := by
  induction depth generalizing names limit with
  | zero => exact (filter_of_directory h hnamed hdirectory).symm
  | succ depth ih =>
    rw [sample_succ]
    by_cases hlisted : fs.list (top.join ⟨.relative, names⟩).text = []
    · rw [ends, if_pos hlisted, hlisted, filter_of_directory h hnamed hdirectory, List.take_nil, List.foldl_nil]
    · rw [ends_succ hlisted] at hroom ⊢
      have hlength := (length_le_flatMap fun name _ => length_ends_pos fs top depth (names ++ [name])).trans hroom
      rw [List.take_of_length_le hlength]
      exact foldl_collect h hnamed (fun name hname => (mem_listed h hnamed hdirectory).mp hname)
        (fun name limit => ih) (by rwa [List.length_nil, Nat.zero_add])

/-- Empty directories take the place of files. -/
lemma sample_of_empties
    (hempty : ∀ name ∈ (fs.list (top.join ⟨.relative, names⟩).text).take limit,
      fs.entryAt? (base ++ (names ++ [name])) = some .directory ∧
        ∀ other, fs.entryAt? (base ++ (names ++ [name] ++ [other])) = none) :
    sample fs top depth names limit = [] := by
  cases depth with
  | zero => rfl
  | succ depth =>
    rw [sample_succ]
    refine List.foldlRecOn (motive := (· = [])) _ _ rfl fun files hfiles name hname => ?_
    obtain ⟨hbelow, hnone⟩ := hempty name hname
    have hlist := list_eq_nil h hnamed hbelow hnone
    have hsample (left : ℕ) : sample fs top depth (names ++ [name]) left = [] := by
      cases depth with
      | zero => rfl
      | succ depth => rw [sample_succ, hlist, List.take_nil, List.foldl_nil]
    rw [hfiles]
    by_cases hroom : ([] : List (List Text)).length < limit
    · rw [collect_directory h hnamed hbelow hroom, hsample]
      rfl
    · rw [collect, if_pos (Nat.not_lt.mp hroom)]

theorem isFileAt_of_mem_sample (hdirectory : fs.entryAt? (base ++ names) = some .directory)
    (hmem : rest ∈ sample fs top depth names limit) : fs.IsFileAt (base ++ rest) := by
  induction depth generalizing names limit rest with
  | zero => cases hmem
  | succ depth ih =>
    rw [sample_succ] at hmem
    have hlisted : ∀ name ∈ (fs.list (top.join ⟨.relative, names⟩).text).take limit,
        ∃ found, fs.entryAt? (base ++ (names ++ [name])) = some found :=
      fun name hname => (mem_listed h hnamed hdirectory).mp (List.mem_of_mem_take hname)
    have hadded {files : List (List Text)} {name : Text}
        (hfound : ∃ found, fs.entryAt? (base ++ (names ++ [name])) = some found)
        (hfiles : ∀ rest ∈ files, fs.IsFileAt (base ++ rest)) :
        ∀ rest ∈ collect fs top depth names limit files name, fs.IsFileAt (base ++ rest) := by
      obtain ⟨found, hfound⟩ := hfound
      by_cases hroom : files.length < limit
      · rcases file_or_directory h hfound with hfile | hbelow
        · rw [collect_file h hnamed hfile hroom]
          exact List.forall_mem_append.mpr ⟨hfiles, List.forall_mem_singleton.mpr hfile⟩
        · rw [collect_directory h hnamed hbelow hroom]
          exact List.forall_mem_append.mpr ⟨hfiles, fun rest => ih hbelow⟩
      · rw [collect, if_pos (Nat.not_lt.mp hroom)]
        exact hfiles
    refine List.foldlRecOn (motive := fun files => ∀ rest ∈ files, fs.IsFileAt (base ++ rest)) _ _ (by simp)
      (fun files hfiles name hname => hadded (hlisted name hname) hfiles) rest hmem

lemma mem_ends_of_file (hfile : fs.IsFileAt (base ++ (names ++ rest))) (hdepth : rest.length ≤ depth) :
    names ++ rest ∈ ends fs top depth names := by
  induction rest generalizing names depth with
  | nil =>
    rw [List.append_nil] at hfile ⊢
    rw [ends_of_file h hnamed hfile]
    exact List.mem_singleton_self names
  | cons name rest ih =>
    cases depth with
    | zero => cases hdepth
    | succ depth =>
      have hwhole : names ++ name :: rest = names ++ [name] ++ rest := List.append_cons _ _ _
      obtain ⟨content, hentry⟩ := hfile
      have habove : fs.entryAt? (base ++ names) = some .directory := by
        rw [← List.append_assoc] at hentry
        exact h.tree.above (List.cons_ne_nil _ _) hentry
      rw [hwhole] at hentry ⊢
      have hname : name ∈ fs.list (top.join ⟨.relative, names⟩).text :=
        (mem_listed h hnamed habove).mpr (h.tree.exists_entry hentry)
      rw [ends_succ (List.ne_nil_of_mem hname)]
      exact List.mem_flatMap.mpr ⟨name, hname, ih ⟨content, hentry⟩ (Nat.le_of_succ_le_succ hdepth)⟩

lemma isEnd_of_mem_ends (hentry : fs.entryAt? (base ++ names) = some entry)
    (hdepth : fs.entries.length < names.length + depth) (hmem : rest ∈ ends fs top depth names) :
    fs.IsEnd (base ++ rest) := by
  induction depth generalizing names entry with
  -- no entry is that many names away
  | zero => exact absurd (h.tree.length_le hentry) (Nat.not_le.mpr hdepth)
  | succ depth ih =>
    by_cases hlisted : fs.list (top.join ⟨.relative, names⟩).text = []
    · rw [ends, if_pos hlisted, List.mem_singleton] at hmem
      rw [hmem]
      refine (file_or_directory h hentry).imp_right fun hdirectory => ⟨hdirectory, fun name => ?_⟩
      rw [Option.eq_none_iff_forall_ne_some]
      intro found hfound
      rw [List.append_assoc] at hfound
      exact List.ne_nil_of_mem ((mem_listed h hnamed hentry).mpr ⟨found, hfound⟩) hlisted
    · rw [ends_succ hlisted] at hmem
      obtain ⟨name, hname, hmem⟩ := List.mem_flatMap.mp hmem
      obtain ⟨found, hfound⟩ := (mem_listed h hnamed hentry).mp hname
      exact ih hfound (by rw [List.length_append, List.length_singleton]; omega) hmem

/-- If there are no more files and empty directories than may be sampled, then all files are sampled. -/
theorem mem_sample_iff (hfew : FewEnds fs base limit) (hdepth : fs.entries.length < depth) :
    rest ∈ sample fs top depth [] limit ↔ fs.IsFileAt (base ++ rest) := by
  have hdirectory : fs.entryAt? (base ++ []) = some .directory := by
    rw [List.append_nil]
    exact h.tree.directory
  have hends : (ends fs top depth []).length ≤ limit :=
    hfew _ (nodup_ends fs top depth []) fun names hmem =>
      isEnd_of_mem_ends h hnamed hdirectory (by rw [List.length_nil]; omega) hmem
  constructor
  · exact isFileAt_of_mem_sample h hnamed hdirectory
  · rintro ⟨content, hentry⟩
    rw [sample_eq h hnamed hdirectory hends, List.mem_filter, leadsToFile_iff h hnamed hentry]
    have hlength := h.tree.length_le hentry
    exact ⟨mem_ends_of_file h hnamed ⟨content, hentry⟩ (by omega), content, hentry⟩

end Tree

lemma lt_depthLimit (fs : FileSystem) : fs.entries.length < depthLimit fs :=
  Nat.lt_of_lt_of_le (Nat.lt_succ_self _) (Nat.le_mul_of_pos_right _ (Nat.succ_pos _))

end BuildLayout

end PackageExports
