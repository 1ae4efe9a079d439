import PackageExports.Proofs.Surroundings

/-!
# Files added to a directory

A directory holds a tree if there are no links below it and the directories above each of its entries are there
(`FileSystem.HoldsTree`). A path of names then leads to the place that the names spell. If files are added to the
tree, with the directories they need, then a path below the directory leads to one of them or to a file that was there
before.

Main results: `FileSystem.HoldsTree.above`, `FileSystem.find_names`, `FileSystem.FilesAdded.isFile_below`.
-/

namespace PackageExports

namespace FileSystem

open PackageExports.Path (IsSegment IsClean)

variable {fs after : FileSystem} {base location : Location} {names rest : List Text} {files : List (List Text)}
  {package : Path}

/-- A directory without links below it, in which what is above an entry is a directory. -/
structure HoldsTree (fs : FileSystem) (base : Location) : Prop where
  directory : fs.entryAt? base = some .directory
  unlinked : fs.UnlinkedBelow base
  parent : ∀ names name entry, fs.entryAt? (base ++ names ++ [name]) = some entry →
    fs.entryAt? (base ++ names) = some .directory

lemma directory_above (hparents : ∀ location ∈ fs.entries.keys, fs.entryAt? location.dropLast = some .directory)
    {name : Text} {entry : Entry} (hentry : fs.entryAt? (names ++ [name]) = some entry) :
    fs.entryAt? names = some .directory := by
  rw [entryAt?, if_neg (by simp)] at hentry
  have hparent := hparents _ (List.mem_map_of_mem (Keyed.mem_of_get? hentry))
  rwa [List.dropLast_concat] at hparent

lemma IsTree.holdsTree (htree : fs.IsTree) (hbase : fs.entryAt? base = some .directory)
    (hparents : ∀ location ∈ fs.entries.keys, fs.entryAt? location.dropLast = some .directory) : fs.HoldsTree base where
  directory := hbase
  unlinked location target _ := htree.unlinked location target
  parent _ _ _ hentry := directory_above hparents hentry

lemma HoldsTree.above (htree : fs.HoldsTree base) {entry : Entry} (hrest : rest ≠ [])
    (hentry : fs.entryAt? (base ++ names ++ rest) = some entry) : fs.entryAt? (base ++ names) = some .directory := by
  induction rest using List.reverseRecOn generalizing entry with
  | nil => exact absurd rfl hrest
  | append_singleton rest name ih =>
    rw [← List.append_assoc, List.append_assoc base names rest] at hentry
    have hparent := htree.parent _ _ _ hentry
    by_cases hnil : rest = []
    · rwa [hnil, List.append_nil] at hparent
    · rw [← List.append_assoc] at hparent
      exact ih hnil hparent

/-- Two file systems of which the second has files at more places below a location, and directories where nothing
was. -/
structure FilesAdded (fs after : FileSystem) (base : Location) (files : List (List Text)) : Prop where
  workingDirectory : after.workingDirectory = fs.workingDirectory
  changed : ∀ location, after.entryAt? location ≠ fs.entryAt? location →
    (∃ names ∈ files, location = base ++ names ∧ fs.TakesFile location ∧
      ∃ content, after.entryAt? location = some (.file content)) ∨
    fs.entryAt? location = none ∧ after.entryAt? location = some .directory

namespace FilesAdded

lemma refl (fs : FileSystem) (base : Location) (files : List (List Text)) : FilesAdded fs fs base files where
  workingDirectory := rfl
  changed _ hne := absurd rfl hne

lemma putDirectory (h : FilesAdded fs after base files) (hne : location ≠ []) (hfree : fs.entryAt? location = none) :
    FilesAdded fs (after.put location .directory) base files where
  workingDirectory := h.workingDirectory
  changed other hother := by
    by_cases hsame : location = other
    · subst hsame
      exact .inr ⟨hfree, entryAt?_put_self after _ hne⟩
    · rw [entryAt?_put_of_ne after _ hsame] at hother ⊢
      exact h.changed other hother

lemma putFile (h : FilesAdded fs after base files) (hnames : names ∈ files) (hfree : fs.TakesFile (base ++ names))
    (content : List UInt8) : FilesAdded fs (after.put (base ++ names) (.file content)) base files where
  workingDirectory := h.workingDirectory
  changed other hother := by
    by_cases hsame : base ++ names = other
    · subst hsame
      exact .inl ⟨names, hnames, rfl, hfree, content, entryAt?_put_self after _ hfree.ne_nil⟩
    · rw [entryAt?_put_of_ne after _ hsame] at hother ⊢
      exact h.changed other hother

end FilesAdded

/-! ### Ways of names -/

/-- The names that lead from one place to another in a directory without links. -/
lemma UnlinkedBelow.eq_of_leads (hlinks : fs.UnlinkedBelow base) {links : ℕ} {here : Location}
    (h : fs.Leads location links here names) (hhere : base <+: here) (hnames : ∀ name ∈ names, IsName name) :
    location = here ++ names ∧ ∀ name ∈ names, Utf8.byteLength name ≤ 255 := by
  induction h with
  | here => exact ⟨(List.append_nil _).symm, List.forall_mem_nil _⟩
  | stay hstay _ _ =>
    obtain ⟨hne, hdot, -⟩ := hnames _ List.mem_cons_self
    exact absurd hstay (not_or.mpr ⟨hne, hdot⟩)
  | up _ _ => exact absurd rfl (hnames _ List.mem_cons_self).2.2.1
  | file hname hlocation _ => exact ⟨hlocation, List.forall_mem_singleton.mpr hname.short⟩
  | directory hname _ _ ih =>
    obtain ⟨hlocation, hshort⟩ :=
      ih (hhere.trans (List.prefix_append _ _)) fun other hother => hnames other (List.mem_cons_of_mem _ hother)
    exact ⟨hlocation.trans (List.append_cons _ _ _).symm, List.forall_mem_cons.mpr ⟨hname.short, hshort⟩⟩
  | link _ hentry _ _ => exact absurd hentry (hlinks _ _ (hhere.trans (List.prefix_append _ _)))

lemma HoldsTree.leads (htree : fs.HoldsTree base) {here : Location} (hhere : base <+: here)
    (hnames : ∀ name ∈ names, IsName name) (hshort : ∀ name ∈ names, Utf8.byteLength name ≤ 255) {entry : Entry}
    (hentry : fs.entryAt? (here ++ names) = some entry) (links : ℕ) :
    fs.Leads (here ++ names) links here names := by
  induction names generalizing here with
  | nil =>
    rw [List.append_nil]
    exact .here
  | cons name rest ih =>
    obtain ⟨hname, hnames⟩ := List.forall_mem_cons.mp hnames
    obtain ⟨hfits, hshort⟩ := List.forall_mem_cons.mp hshort
    have hlooked := hname.isLookedUp hfits
    have hnext : base <+: here ++ [name] := hhere.trans (List.prefix_append _ _)
    have hwhole : here ++ name :: rest = here ++ [name] ++ rest := List.append_cons _ _ _
    rw [hwhole] at hentry ⊢
    have hrest := ih hnext hnames hshort hentry
    by_cases hlast : rest = []
    · subst hlast
      rw [List.append_nil] at hentry hrest ⊢
      rcases entry with _ | target | _
      · exact .file hlooked rfl hentry
      · exact absurd hentry (htree.unlinked _ _ hnext)
      · exact .directory hlooked hentry hrest
    · refine .directory hlooked ?_ hrest
      obtain ⟨below, hbelow⟩ := hnext
      rw [← hbelow] at hentry ⊢
      exact htree.above hlast hentry

section Below

variable (hpackage : package.IsClean) (hfind : fs.find package.text = .ok base)
  (hbase : fs.entryAt? base = some .directory) (hrest : ∀ name ∈ rest, IsName name)

include hpackage hfind hbase hrest

/-- A path of names below a directory without links leads to the place that the names spell. -/
theorem find_names (hlinks : fs.UnlinkedBelow base)
    (h : fs.find (Path.text ⟨package.anchor, package.segments ++ rest⟩) = .ok location) :
    location = base ++ rest ∧ ∀ name ∈ rest, Utf8.byteLength name ≤ 255 := by
  obtain ⟨links, hfollow⟩ :=
    exists_follow_below hpackage hfind hbase fun name hname => Path.isSegment_of_isName (hrest name hname)
  rw [follow_of_find h] at hfollow
  exact hlinks.eq_of_leads (follow_eq_present.mp hfollow.symm) List.prefix_rfl hrest

end Below

lemma HoldsTree.find_of_entry (htree : fs.HoldsTree base) (hpackage : package.IsClean)
    (hfind : fs.find package.text = .ok base) (hnames : ∀ name ∈ rest, IsName name)
    (hshort : ∀ name ∈ rest, Utf8.byteLength name ≤ 255) {entry : Entry}
    (hentry : fs.entryAt? (base ++ rest) = some entry)
    (hpath : after.find (Path.text ⟨package.anchor, package.segments ++ rest⟩) = .ok location) :
    fs.find (Path.text ⟨package.anchor, package.segments ++ rest⟩) = .ok (base ++ rest) := by
  obtain ⟨links, hfollow⟩ :=
    exists_follow_below hpackage hfind htree.directory fun name hname => Path.isSegment_of_isName (hnames name hname)
  have hleads := htree.leads List.prefix_rfl hnames hshort hentry links
  have hplace := place_of_find hpath
  have hplaced : fs.place (Path.text ⟨package.anchor, package.segments ++ rest⟩) = .ok (.present (base ++ rest)) := by
    rw [place_eq] at hplace ⊢
    split_ifs at hplace ⊢
    rw [hfollow, hleads.follow_eq]
  rw [find, hplaced]

lemma isFile_iff {path : Text} :
    fs.isFile path = true ↔ ∃ location content, fs.find path = .ok location ∧
      fs.entryAt? location = some (.file content) := by
  unfold isFile kind?
  cases fs.find path with
  | error e => simp
  | ok location => rcases hentry : fs.entryAt? location with _ | (_ | _ | _) <;> simp [hentry]

lemma isDirectory_iff {path : Text} :
    fs.isDirectory path = true ↔ ∃ location, fs.find path = .ok location ∧ fs.entryAt? location = some .directory := by
  unfold isDirectory kind?
  cases fs.find path with
  | error e => simp
  | ok location => rcases hentry : fs.entryAt? location with _ | (_ | _ | _) <;> simp [hentry]

lemma HoldsTree.isDirectory_of_file (htree : fs.HoldsTree base) (hpackage : package.IsClean)
    (hfind : fs.find package.text = .ok base) {last : Text} (hnames : ∀ name ∈ rest ++ [last], IsName name)
    (hfile : fs.isFile (Path.text ⟨package.anchor, package.segments ++ (rest ++ [last])⟩) = true)
    (hpath : after.isDirectory (Path.text ⟨package.anchor, package.segments ++ rest⟩) = true) :
    fs.isDirectory (Path.text ⟨package.anchor, package.segments ++ rest⟩) = true := by
  obtain ⟨location, content, hthere, hentry⟩ := isFile_iff.mp hfile
  obtain ⟨rfl, hshort⟩ := find_names hpackage hfind htree.directory hnames htree.unlinked hthere
  rw [← List.append_assoc] at hentry
  have hparent := htree.parent _ _ _ hentry
  obtain ⟨place, hplace, -⟩ := isDirectory_iff.mp hpath
  have hrest : ∀ name ∈ rest, IsName name := fun name hname => hnames name (List.mem_append_left _ hname)
  have hlengths : ∀ name ∈ rest, Utf8.byteLength name ≤ 255 :=
    fun name hname => hshort name (List.mem_append_left _ hname)
  exact isDirectory_iff.mpr ⟨_, htree.find_of_entry hpackage hfind hrest hlengths hparent hplace, hparent⟩

namespace FilesAdded

variable (h : FilesAdded fs after base files)

include h

lemma keepsWays : KeepsWays fs after where
  workingDirectory := h.workingDirectory
  entryAt?_eq {location entry} hentry hkind := by
    by_contra hne
    rcases h.changed location fun heq => hne (heq.trans hentry) with ⟨_, -, -, hfile, -⟩ | ⟨hnone, -⟩
    · obtain ⟨content, rfl⟩ := hfile.entry entry hentry
      exact hkind content rfl
    · cases hentry.symm.trans hnone

lemma unlinkedBelow (hlinks : fs.UnlinkedBelow base) : after.UnlinkedBelow base := by
  intro location target hbelow hlink
  by_cases hsame : after.entryAt? location = fs.entryAt? location
  · exact hlinks location target hbelow (hsame ▸ hlink)
  · rcases h.changed location hsame with ⟨_, -, -, -, content, hfile⟩ | ⟨-, hdirectory⟩
    · cases hlink.symm.trans hfile
    · cases hlink.symm.trans hdirectory

/-- A path of names below the directory leads to one of the files that were added, or to a file that was there. -/
theorem isFile_below (htree : fs.HoldsTree base) (hpackage : package.IsClean) (hfind : fs.find package.text = .ok base)
    (hnames : ∀ name ∈ rest, IsName name)
    (hfile : after.isFile (Path.text ⟨package.anchor, package.segments ++ rest⟩) = true) :
    rest ∈ files ∨ fs.isFile (Path.text ⟨package.anchor, package.segments ++ rest⟩) = true := by
  obtain ⟨location, content, hpath, hentry⟩ := isFile_iff.mp hfile
  have hfindAfter := h.keepsWays.find_eq htree.directory hfind
  have hbaseAfter := h.keepsWays.entryAt?_eq htree.directory (by simp)
  obtain ⟨rfl, hshort⟩ :=
    find_names hpackage hfindAfter hbaseAfter hnames (h.unlinkedBelow htree.unlinked) hpath
  by_cases hsame : after.entryAt? (base ++ rest) = fs.entryAt? (base ++ rest)
  · rw [hsame] at hentry
    have hthere := htree.find_of_entry hpackage hfind hnames hshort hentry hpath
    exact .inr (isFile_iff.mpr ⟨_, content, hthere, hentry⟩)
  · rcases h.changed _ hsame with ⟨names, hmem, heq, -⟩ | ⟨-, hdirectory⟩
    · exact .inl (List.append_cancel_left heq ▸ hmem)
    · cases hentry.symm.trans hdirectory

lemma isFile_kept {path : Text} (hfile : fs.isFile path = true) : after.isFile path = true := by
  obtain ⟨location, content, hpath, hentry⟩ := isFile_iff.mp hfile
  have hkept : ∃ other, after.entryAt? location = some (.file other) := by
    by_cases hsame : after.entryAt? location = fs.entryAt? location
    · exact ⟨content, hsame.trans hentry⟩
    · rcases h.changed location hsame with ⟨_, -, -, -, hother⟩ | ⟨hnone, -⟩
      · exact hother
      · cases hentry.symm.trans hnone
  obtain ⟨other, hother⟩ := hkept
  exact isFile_iff.mpr ⟨location, other, h.keepsWays.find_kept (fun _ _ => ⟨other, hother⟩) hpath, hother⟩

lemma isDirectory_kept {path : Text} (hdirectory : fs.isDirectory path = true) : after.isDirectory path = true := by
  obtain ⟨location, hpath, hentry⟩ := isDirectory_iff.mp hdirectory
  exact isDirectory_iff.mpr ⟨location, h.keepsWays.find_eq hentry hpath, h.keepsWays.entryAt?_eq hentry (by simp)⟩

lemma isFile_eq (htree : fs.HoldsTree base) (hpackage : package.IsClean) (hfind : fs.find package.text = .ok base)
    (hnames : ∀ name ∈ rest, IsName name) (hold : rest ∉ files) :
    after.isFile (Path.text ⟨package.anchor, package.segments ++ rest⟩) =
      fs.isFile (Path.text ⟨package.anchor, package.segments ++ rest⟩) := by
  rw [Bool.eq_iff_iff]
  exact ⟨fun hfile => (h.isFile_below htree hpackage hfind hnames hfile).resolve_left hold, h.isFile_kept⟩

end FilesAdded

end FileSystem

end PackageExports
