import PackageExports.Batch.FileCache
import PackageExports.Proofs.AddedFiles
import PackageExports.Proofs.Independence

/-!
# What a cache of files tells

A cache answers from what it knows and looks up what it does not know, so an answer is that of the file system at any time
of asking, but for what the walk took for a file: a link that leads to no file is met like a file, and the cache never
looks at it again.

Main results: `FileCache.IsStray.link`, `FileCache.Tells.isFile`, `FileCache.answers_after`.
-/

namespace PackageExports

open PackageExports.Path (IsSegment IsClean)

lemma Keyed.mem_keys_insertAll {κ α : Type} [DecidableEq κ] {m : Keyed κ α} {pairs : List (κ × α)} {key : κ} :
    key ∈ keys (insertAll m pairs) ↔ key ∈ keys m ∨ key ∈ keys pairs := by
  induction pairs generalizing m with
  | nil => simp [insertAll, keys]
  | cons p rest ih =>
    have hstep : insertAll m (p :: rest) = insertAll (insert p.1 p.2 m) rest := rfl
    rw [hstep, ih, mem_keys_insert, keys, keys, keys, List.map_cons, List.mem_cons, or_comm (a := key = p.1), or_assoc]

lemma exists_mapM {α β ε : Type} {f : α → Except ε β} {items : List α}
    (h : ∀ item ∈ items, ∃ result, f item = .ok result) :
    ∃ results, items.mapM f = .ok results ∧ ∀ result, result ∈ results ↔ ∃ item ∈ items, f item = .ok result := by
  induction items with
  | nil => exact ⟨[], rfl, by simp⟩
  | cons item rest ih =>
    obtain ⟨⟨first, hfirst⟩, hrest⟩ := List.forall_mem_cons.mp h
    obtain ⟨others, hothers, hmem⟩ := ih hrest
    refine ⟨first :: others, mapM_cons_eq_ok.mpr ⟨first, others, hfirst, hothers, rfl⟩, fun result => ?_⟩
    rw [List.mem_cons, hmem, List.exists_mem_cons_iff, hfirst, Except.ok.injEq, eq_comm (a := first)]

lemma exists_mapM_rows {α β γ ε : Type} (rows : α → List γ) {f : α → γ → Except ε β} {items : List α}
    (h : ∀ item ∈ items, ∀ part ∈ rows item, ∃ result, f item part = .ok result) :
    ∃ results, items.mapM (fun item => (rows item).mapM (f item)) = .ok results ∧
      ∀ result, result ∈ results.flatten ↔ ∃ item ∈ items, ∃ part ∈ rows item, f item part = .ok result := by
  have hrow (item : α) (hitem : item ∈ items) := exists_mapM (h item hitem)
  obtain ⟨results, hresults, hmem⟩ := exists_mapM fun item hitem => (hrow item hitem).imp fun row hrow => hrow.1
  refine ⟨results, hresults, fun result => ?_⟩
  rw [List.mem_flatten]
  constructor
  · rintro ⟨row, hmemRow, hresult⟩
    obtain ⟨item, hitem, hown⟩ := (hmem row).mp hmemRow
    obtain ⟨other, hother, hspec⟩ := hrow item hitem
    obtain rfl := Except.ok.inj (hother.symm.trans hown)
    exact ⟨item, hitem, (hspec result).mp hresult⟩
  · rintro ⟨item, hitem, hresult⟩
    obtain ⟨row, hown, hspec⟩ := hrow item hitem
    exact ⟨row, (hmem row).mpr ⟨item, hitem, hown⟩, (hspec result).mpr hresult⟩

namespace FileSystem

/-- A name that an entry can have and that can be written. -/
def CanExist (name : Text) : Prop :=
  IsName name ∧ Utf8.byteLength name ≤ 255 ∧ ∀ c ∈ name, c.val ≠ 0 ∧ c.isSurrogate = false

instance (name : Text) : Decidable (CanExist name) :=
  inferInstanceAs (Decidable (_ ∧ _ ∧ ∀ c ∈ name, _))

variable {fs : FileSystem} {enter : Text → Bool} {here location : Location} {names : List Text} {top : Path}

lemma leads_of_meetsFile (h : fs.meetsFile enter here names = true) (hnames : ∀ name ∈ names, CanExist name)
    {content : List UInt8} (hfile : fs.entryAt? (here ++ names) = some (.file content)) (links : ℕ) :
    fs.Leads (here ++ names) links here names := by
  induction names generalizing here with
  | nil => cases h
  | cons name rest ih =>
    obtain ⟨⟨hname, hshort, -⟩, hothers⟩ := List.forall_mem_cons.mp hnames
    by_cases hrest : rest = []
    · subst hrest
      exact .file (hname.isLookedUp hshort) rfl hfile
    · obtain ⟨hentry, -, hbelow⟩ := (meetsFile_cons hrest).mp h
      have hwhole : here ++ name :: rest = here ++ [name] ++ rest := List.append_cons _ _ _
      rw [hwhole] at hfile ⊢
      exact .directory (hname.isLookedUp hshort) hentry (ih hbelow hothers hfile)

lemma mem_joinWith {c : CodePoint} (hc : c ∈ Text.joinWith "/" names) :
    c = CodePoint.ofChar '/' ∨ ∃ name ∈ names, c ∈ name := by
  induction names with
  | nil => cases hc
  | cons name rest ih =>
    by_cases hrest : rest = []
    · subst hrest
      exact .inr ⟨name, List.mem_cons_self, hc⟩
    · rw [Text.joinWith_cons _ _ hrest] at hc
      rcases List.mem_append.mp hc with hc | hc
      · rcases List.mem_append.mp hc with hc | hc
        · exact .inr ⟨name, List.mem_cons_self, hc⟩
        · exact .inl (List.mem_singleton.mp hc)
      · exact (ih hc).imp_right fun ⟨other, hother, hmem⟩ => ⟨other, List.mem_cons_of_mem _ hother, hmem⟩

lemma writable_of_find {t : Text} (h : fs.find t = .ok location) : ∀ c ∈ t, c.val ≠ 0 ∧ c.isSurrogate = false := by
  have hplace := place_of_find h
  rw [place_eq] at hplace
  split_ifs at hplace with hnull hsurrogate
  intro c hc
  constructor
  · intro hzero
    exact hnull (List.any_eq_true.mpr ⟨c, hc, by simpa using hzero⟩)
  · by_contra hs
    exact hsurrogate (List.any_eq_true.mpr ⟨c, hc, by simpa using hs⟩)

lemma place_of_writable {t : Text} (h : ∀ c ∈ t, c.val ≠ 0 ∧ c.isSurrogate = false) (hne : t ≠ []) :
    fs.place t = fs.follow linkLimit (fs.startOf t) (Text.splitOn '/' t) := by
  have hnull : ¬t.any (·.val == 0) = true := by
    rw [List.any_eq_true]
    rintro ⟨c, hc, hzero⟩
    exact (h c hc).1 (by simpa using hzero)
  have hsurrogate : ¬t.any CodePoint.isSurrogate = true := by
    rw [List.any_eq_true]
    rintro ⟨c, hc, hwritten⟩
    exact Bool.false_ne_true ((h c hc).2.symm.trans hwritten)
  rw [place_eq, if_neg hnull, if_neg hsurrogate, if_neg (by simpa using hne)]

lemma writable_below (hnames : ∀ name ∈ names, CanExist name) (hne : names ≠ []) (htop : fs.find top.text = .ok location) :
    ∀ c ∈ Path.text ⟨top.anchor, top.segments ++ names⟩, c.val ≠ 0 ∧ c.isSurrogate = false := by
  have hwritable := writable_of_find htop
  have hslash : (CodePoint.ofChar '/').val ≠ 0 ∧ (CodePoint.ofChar '/').isSurrogate = false := by decide
  have hrow : ∀ c ∈ Text.joinWith "/" names, c.val ≠ 0 ∧ c.isSurrogate = false := by
    intro c hc
    rcases mem_joinWith hc with rfl | ⟨name, hname, hmem⟩
    · exact hslash
    · exact (hnames name hname).2.2 c hmem
  have htext := text_join top hne
  rw [Path.join, if_pos rfl] at htext
  rw [htext]
  intro c hc
  split_ifs at hc
  · rcases List.mem_append.mp hc with hc | hc
    · have hanchor : ∀ d ∈ Path.anchorText top.anchor, d = CodePoint.ofChar '/' := by
        cases top.anchor <;> decide
      exact hanchor c hc ▸ hslash
    · exact hrow c hc
  · rcases List.mem_append.mp hc with hc | hc
    · rcases List.mem_append.mp hc with hc | hc
      · exact hwritable c hc
      · exact List.mem_singleton.mp hc ▸ hslash
    · exact hrow c hc

lemma isClean_below (hclean : top.IsClean) (hnames : ∀ name ∈ names, CanExist name) :
    IsClean ⟨top.anchor, top.segments ++ names⟩ :=
  List.forall_mem_append.mpr ⟨hclean, fun name hname => Path.isSegment_of_isName (hnames name hname).1⟩

lemma find_below (hclean : top.IsClean) (htop : fs.find top.text = .ok location)
    (hdirectory : fs.entryAt? location = some .directory) (hne : names ≠ []) (hnames : ∀ name ∈ names, CanExist name)
    (hleads : ∀ links, fs.Leads (location ++ names) links location names) :
    fs.find (Path.text ⟨top.anchor, top.segments ++ names⟩) = .ok (location ++ names) := by
  obtain ⟨links, hfollow⟩ := exists_follow_below hclean htop hdirectory
    fun name hname => Path.isSegment_of_isName (hnames name hname).1
  have hwritable := writable_below hnames hne htop
  have hplace : fs.place (Path.text ⟨top.anchor, top.segments ++ names⟩) = .ok (.present (location ++ names)) := by
    rw [place_of_writable hwritable (Path.text_ne_nil (isClean_below hclean hnames)), hfollow,
      (hleads links).follow_eq]
  rw [find, hplace]

lemma isFile_of_meetsFile (hclean : top.IsClean) (htop : fs.find top.text = .ok location)
    (hdirectory : fs.entryAt? location = some .directory) (h : fs.meetsFile enter location names = true)
    (hnames : ∀ name ∈ names, CanExist name) {content : List UInt8}
    (hfile : fs.entryAt? (location ++ names) = some (.file content)) :
    fs.isFile (Path.text ⟨top.anchor, top.segments ++ names⟩) = true := by
  have hne : names ≠ [] := by
    rintro rfl
    cases h
  have hfind := find_below hclean htop hdirectory hne hnames (leads_of_meetsFile h hnames hfile)
  exact isFile_iff.mpr ⟨_, content, hfind, hfile⟩

end FileSystem

namespace FileCache

open FileSystem (CanExist)

/-- The cache after it was asked for paths, one after the other. -/
def after (fs : FileSystem) (c : FileCache) (paths : List Text) : FileCache :=
  paths.foldl (fun c path => (c.isFile fs path).2) c

def counted (c : FileCache) : List Text :=
  Keyed.keys (c.known.filter (·.2))

/-- A path that a walk below one of the directories meets, seen from the package. -/
def IsMet (fs : FileSystem) (package : Path) (directories : List Text) (path : Text) : Prop :=
  ∃ directory ∈ directories, ∃ names ∈ fs.filesBelow (package / directory).text fun _ => true,
    SearchPlan.seenFrom package ((package / directory).join ⟨.relative, names⟩) = .ok path

/-- A path that a walk meets, though it leads to no file. -/
def IsStray (fs : FileSystem) (package : Path) (directories : List Text) (path : Text) : Prop :=
  IsMet fs package directories path ∧ fs.isFile (package / path).text = false

variable {fs : FileSystem} {package : Path} {directories : List Text} {c : FileCache} {path : Text}

/-- A cache that tells of paths what the file system tells, but for strays, which it takes for files. -/
structure Tells (fs : FileSystem) (package : Path) (directories : List Text) (c : FileCache) : Prop where
  same : c.package = package
  known : ∀ path present, c.known.get? path = some present →
    (present = true ↔ fs.isFile (package / path).text = true ∨ IsStray fs package directories path)
  strays : ∀ path, IsStray fs package directories path → c.known.get? path = some true
  nodup : c.known.keys.Nodup

lemma isFile_of_known {present : Bool} (h : c.known.get? (Relative.bare path) = some present) :
    c.isFile fs path = (present, c) := by
  rw [FileCache.isFile, h]

lemma isFile_of_unknown (h : c.known.get? (Relative.bare path) = none) :
    c.isFile fs path = (fs.isFile (c.package / Relative.bare path).text,
      ⟨c.package, c.known.insert (Relative.bare path) (fs.isFile (c.package / Relative.bare path).text)⟩) := by
  rw [FileCache.isFile, h]

/-- An answer is that of the file system, but for strays, and it leaves a cache that still tells so. -/
theorem Tells.isFile (h : Tells fs package directories c) (path : Text) :
    ((c.isFile fs path).1 = true ↔ fs.isFile (package / Relative.bare path).text = true ∨
      IsStray fs package directories (Relative.bare path)) ∧ Tells fs package directories (c.isFile fs path).2 := by
  cases hknown : c.known.get? (Relative.bare path) with
  | some present =>
    rw [isFile_of_known hknown]
    exact ⟨h.known _ _ hknown, h⟩
  | none =>
    rw [isFile_of_unknown hknown]
    have hstray : ¬IsStray fs package directories (Relative.bare path) := by
      intro hstray
      rw [h.strays _ hstray] at hknown
      cases hknown
    have hanswer : fs.isFile (c.package / Relative.bare path).text = true ↔
        fs.isFile (package / Relative.bare path).text = true ∨ IsStray fs package directories (Relative.bare path) := by
      rw [h.same, or_iff_left hstray]
    refine ⟨hanswer, h.same, fun other present hother => ?_, fun other hother => ?_,
      Keyed.nodup_keys_insert _ _ h.nodup⟩
    · by_cases hsame : Relative.bare path = other
      · subst hsame
        rw [Keyed.get?_insert_self] at hother
        obtain rfl := Option.some.inj hother
        exact hanswer
      · rw [Keyed.get?_insert_of_ne _ _ hsame] at hother
        exact h.known other present hother
    · have hne : Relative.bare path ≠ other := by
        rintro rfl
        exact hstray hother
      rw [Keyed.get?_insert_of_ne _ _ hne]
      exact h.strays other hother

lemma Tells.after (h : Tells fs package directories c) (paths : List Text) :
    Tells fs package directories (c.after fs paths) := by
  induction paths generalizing c with
  | nil => exact h
  | cons path rest ih => exact ih (h.isFile path).2

lemma Tells.counted (h : Tells fs package directories c) :
    ∀ path ∈ c.counted, fs.isFile (package / path).text = true ∨ IsStray fs package directories path := by
  intro path hpath
  obtain ⟨⟨other, present⟩, hmem, rfl⟩ := List.mem_map.mp hpath
  obtain ⟨hmem, htrue⟩ := List.mem_filter.mp hmem
  exact (h.known _ _ (Keyed.get?_of_mem h.nodup hmem)).mp htrue

lemma Tells.nodup_counted (h : Tells fs package directories c) : c.counted.Nodup :=
  h.nodup.sublist (List.Sublist.map _ List.filter_sublist)

/-- Directories that are below a package as they are written. -/
def AreBelow (package : Path) (directories : List Text) : Prop :=
  ∀ directory ∈ directories, ∃ names, package / directory = ⟨package.anchor, package.segments ++ names⟩

lemma AreBelow.exists_seen {directory : Text} (hbelow : AreBelow package directories) (hdirectory : directory ∈ directories)
    (names : List Text) : ∃ seen, SearchPlan.seenFrom package ((package / directory).join ⟨.relative, names⟩) = .ok seen := by
  obtain ⟨front, hfront⟩ := hbelow directory hdirectory
  rw [hfront, Path.join, if_pos rfl, List.append_assoc, Path.seenFrom_below]
  exact ⟨_, rfl⟩

lemma exists_filesBelow (fs : FileSystem) (hbelow : AreBelow package directories) :
    ∃ files, filesBelow fs package directories = .ok files ∧
      ∀ path, path ∈ files ↔ IsMet fs package directories path := by
  obtain ⟨rows, hrows, hmem⟩ := exists_mapM_rows
    (fun directory => fs.filesBelow (package / directory).text fun _ => true)
    fun directory hdirectory names _ => hbelow.exists_seen hdirectory names
  exact ⟨rows.flatten, bind_ok_iff.mpr ⟨rows, hrows, rfl⟩, hmem⟩

/-- A cache that is built knows what the walk met. -/
lemma exists_build (fs : FileSystem) (hbelow : AreBelow package directories) :
    ∃ c, build fs package directories = .ok c ∧ Tells fs package directories c := by
  obtain ⟨files, hfiles, hmem⟩ := exists_filesBelow fs hbelow
  refine ⟨ofFiles package files, bind_ok_iff.mpr ⟨files, hfiles, rfl⟩, rfl, fun path present hknown => ?_,
    fun path hstray => ?_, Keyed.nodup_keys_ofPairs _⟩
  · obtain ⟨file, hfile, hpair⟩ := List.mem_map.mp (Keyed.mem_ofPairs (Keyed.mem_of_get? hknown))
    obtain ⟨rfl, rfl⟩ := Prod.mk.inj hpair
    refine iff_of_true rfl ?_
    cases hisFile : fs.isFile (package / file).text with
    | true => exact .inl rfl
    | false => exact .inr ⟨(hmem file).mp hfile, hisFile⟩
  · have hkey : path ∈ Keyed.keys (ofFiles package files).known := by
      refine Keyed.mem_keys_insertAll.mpr (.inr ?_)
      rw [Keyed.keys, List.map_map]
      exact List.mem_map.mpr ⟨path, (hmem path).mpr hstray.1, rfl⟩
    cases hknown : (ofFiles package files).known.get? path with
    | none => exact absurd hkey (Keyed.get?_eq_none.mp hknown)
    | some present =>
      obtain ⟨file, -, hpair⟩ := List.mem_map.mp (Keyed.mem_ofPairs (Keyed.mem_of_get? hknown))
      rw [← (Prod.mk.inj hpair).2]

lemma IsMet.names (h : IsMet fs package directories path) (hpackage : package.IsClean)
    (hnames : ∀ location ∈ fs.entries.keys, ∀ name ∈ location, CanExist name)
    (hbelow : AreBelow package directories) :
    ∃ directory ∈ directories, ∃ location names, fs.find (package / directory).text = .ok location ∧
      fs.entryAt? location = some .directory ∧ (∀ name ∈ names, CanExist name) ∧
      fs.meetsFile (fun _ => true) location names = true ∧ (Path.ofText path).anchor = .relative ∧
      package / path = ⟨(package / directory).anchor, (package / directory).segments ++ names⟩ := by
  obtain ⟨directory, hdirectory, names, hmem, hseen⟩ := h
  obtain ⟨location, hfind, hentry, hkey, hmeets⟩ := FileSystem.mem_filesBelow.mp hmem
  have hexist : ∀ name ∈ names, CanExist name := fun name hname => hnames _ hkey name (List.mem_append_right _ hname)
  have hclean := FileSystem.isClean_below (Path.isClean_div hpackage directory) hexist
  obtain ⟨front, hfront⟩ := hbelow directory hdirectory
  rw [hfront] at hclean hseen
  dsimp only at hclean
  rw [Path.join, if_pos rfl, List.append_assoc, Path.seenFrom_below] at hseen
  have hrest : IsClean ⟨.relative, front ++ names⟩ := by
    rw [List.append_assoc] at hclean
    exact fun segment hsegment => hclean segment (List.mem_append_right _ hsegment)
  have hpath : Path.ofText path = ⟨.relative, front ++ names⟩ := by
    rw [← Except.ok.inj hseen, Path.ofText_text hrest]
  refine ⟨directory, hdirectory, location, names, hfind, hentry, hexist, hmeets, by rw [hpath], ?_⟩
  rw [Path.joinText_eq package (by rw [hpath]), hpath, hfront, List.append_assoc]

/-- A stray is a link that a walk meets, and it leads to no directory either. -/
lemma IsStray.link (h : IsStray fs package directories path) (hpackage : package.IsClean)
    (hnames : ∀ location ∈ fs.entries.keys, ∀ name ∈ location, CanExist name)
    (hbelow : AreBelow package directories) :
    ∃ directory ∈ directories, ∃ location front name target, fs.find (package / directory).text = .ok location ∧
      package / path = ⟨(package / directory).anchor, (package / directory).segments ++ (front ++ [name])⟩ ∧
      fs.entryAt? (location ++ (front ++ [name])) = some (.link target) ∧
      fs.linksToDirectory (location ++ front) name = false := by
  obtain ⟨hmet, hfile⟩ := h
  obtain ⟨directory, hdirectory, location, names, hfind, hentry, hexist, hmeets, -, hpath⟩ :=
    hmet.names hpackage hnames hbelow
  obtain ⟨front, name, rfl⟩ := FileSystem.exists_concat_of_meetsFile hmeets
  have hplace : location ++ front ++ [name] = location ++ (front ++ [name]) := List.append_assoc _ _ _
  rcases (FileSystem.meetsFile_concat.mp hmeets).2.2 with ⟨content, hcontent⟩ | ⟨⟨target, hlink⟩, hleads⟩
  · rw [hplace] at hcontent
    have hisFile := FileSystem.isFile_of_meetsFile (Path.isClean_div hpackage directory) hfind hentry hmeets hexist
      hcontent
    rw [hpath, hisFile] at hfile
    cases hfile
  · exact ⟨directory, hdirectory, location, front, name, target, hfind, hpath, hplace ▸ hlink, hleads⟩

/-- A path without its `./` leads to the same place, unless a slash is left at its start. -/
lemma div_bare (package : Path) (h : (Path.ofText (Relative.bare path)).anchor = .relative) :
    package / Relative.bare path = package / path := by
  have hsegments := Relative.segments_bare path
  unfold Relative.bare at h hsegments ⊢
  cases hdrop : Text.dropStart? "./" path with
  | none => rfl
  | some rest =>
    rw [hdrop] at h hsegments
    rw [Path.joinText_eq package h, hsegments, Path.joinText_eq package]
    rw [Text.dropStart?_eq_some.mp hdrop]
    rfl

/-- A cache over directories of a package answers like the file system, whatever it was asked before, but for strays: these
it takes for files. It counts each path once, and only files and strays. A path that starts with a slash after its `./` is
not looked up in the package. -/
theorem answers_after (fs : FileSystem) (hpackage : package.IsClean)
    (hnames : ∀ location ∈ fs.entries.keys, ∀ name ∈ location, CanExist name) (hbelow : AreBelow package directories) :
    ∃ c, build fs package directories = .ok c ∧
      (∀ paths,
        (∀ path, (Path.ofText (Relative.bare path)).anchor = .relative →
          (((c.after fs paths).isFile fs path).1 = true ↔
            fs.isFile (package / path).text = true ∨ IsStray fs package directories (Relative.bare path))) ∧
        (∀ path, (Path.ofText (Relative.bare path)).anchor ≠ .relative →
          ((c.after fs paths).isFile fs path).1 = fs.isFile (Path.ofText (Relative.bare path)).text) ∧
        (c.after fs paths).length = (c.after fs paths).counted.length ∧ (c.after fs paths).counted.Nodup ∧
        ∀ path ∈ (c.after fs paths).counted,
          fs.isFile (package / path).text = true ∨ IsStray fs package directories path) ∧
      ∀ path, IsStray fs package directories path →
        ∃ directory ∈ directories, ∃ location front name target, fs.find (package / directory).text = .ok location ∧
          package / path = ⟨(package / directory).anchor, (package / directory).segments ++ (front ++ [name])⟩ ∧
          fs.entryAt? (location ++ (front ++ [name])) = some (.link target) ∧
          fs.linksToDirectory (location ++ front) name = false := by
  obtain ⟨c, hc, htells⟩ := exists_build fs hbelow
  refine ⟨c, hc, fun paths => ?_, fun path hstray => hstray.link hpackage hnames hbelow⟩
  have hafter := htells.after paths
  refine ⟨fun path hanchor => ?_, fun path hanchor => ?_, (List.length_map _).symm, hafter.nodup_counted,
    hafter.counted⟩
  · rw [← div_bare package hanchor]
    exact (hafter.isFile path).1
  · have hown : package / Relative.bare path = Path.ofText (Relative.bare path) := if_neg hanchor
    have hmet : ¬IsStray fs package directories (Relative.bare path) := by
      intro hstray
      obtain ⟨-, -, -, -, -, -, -, -, hrelative, -⟩ := hstray.1.names hpackage hnames hbelow
      exact hanchor hrelative
    have hanswer := (hafter.isFile path).1
    rw [or_iff_left hmet, hown] at hanswer
    exact Bool.eq_iff_iff.mpr hanswer

/-- A package with a file, a link to it and a link to nothing. -/
def linkedFiles : FileSystem :=
  ((((FileSystem.empty.put ["pkg"] .directory).put ["pkg", "lib"] .directory).put ["pkg", "lib", "x.js"] (.file [])).put
    ["pkg", "lib", "same.js"] (.link "x.js")).put ["pkg", "lib", "ghost.js"] (.link "missing.js")

/-- A cache over that package finds the file behind the link after other paths were looked up. -/
theorem answers_after_same : ∃ c, build linkedFiles (Path.ofText "pkg") ["lib"] = .ok c ∧
    ((c.after linkedFiles ["lib/none.js", "./lib/same.js"]).isFile linkedFiles "./lib/same.js").1 = true := by
  have hnames : ∀ location ∈ linkedFiles.entries.keys, ∀ name ∈ location, CanExist name := by decide +kernel
  have hbelow : AreBelow (Path.ofText "pkg") ["lib"] :=
    List.forall_mem_singleton.mpr ⟨["lib"], by decide⟩
  obtain ⟨c, hc, hanswers, -⟩ := answers_after linkedFiles (Path.isClean_ofText "pkg") hnames hbelow
  exact ⟨c, hc, ((hanswers _).1 "./lib/same.js" (by decide)).mpr (.inl (by decide +kernel))⟩

/-- A cache over that package takes the link to nothing for a file and counts it, and it does not find the file under a path
with a second slash after the `./`. -/
theorem answers_differ : ∃ c, build linkedFiles (Path.ofText "pkg") ["lib"] = .ok c ∧
    (c.isFile linkedFiles "lib/ghost.js").1 = true ∧ (Text.ofString "lib/ghost.js") ∈ c.counted ∧
    linkedFiles.isFile (Path.ofText "pkg" / Text.ofString "lib/ghost.js").text = false ∧
    (c.isFile linkedFiles ".//lib/x.js").1 = false ∧
    linkedFiles.isFile (Path.ofText "pkg" / Text.ofString ".//lib/x.js").text = true := by
  have hbelow : AreBelow (Path.ofText "pkg") ["lib"] :=
    List.forall_mem_singleton.mpr ⟨["lib"], by decide⟩
  obtain ⟨c, hc, htells⟩ := exists_build linkedFiles hbelow
  have hghost : linkedFiles.isFile (Path.ofText "pkg" / Text.ofString "lib/ghost.js").text = false := by decide +kernel
  have hmet : IsStray linkedFiles (Path.ofText "pkg") ["lib"] "lib/ghost.js" := by
    refine ⟨⟨"lib", List.mem_singleton_self _, ["ghost.js"], ?_, by decide⟩, hghost⟩
    exact FileSystem.mem_filesBelow.mpr ⟨["pkg", "lib"], by decide +kernel⟩
  refine ⟨c, hc, (htells.isFile "lib/ghost.js").1.mpr (.inr hmet), ?_, hghost, ?_, by decide +kernel⟩
  · have hknown := Keyed.mem_of_get? (htells.strays _ hmet)
    exact List.mem_map.mpr ⟨_, List.mem_filter.mpr ⟨hknown, rfl⟩, rfl⟩
  · have hstray : ¬IsStray linkedFiles (Path.ofText "pkg") ["lib"] (Relative.bare ".//lib/x.js") := by
      intro hstray
      obtain ⟨-, -, -, -, -, -, -, -, hrelative, -⟩ :=
        hstray.1.names (Path.isClean_ofText "pkg") (by decide +kernel) hbelow
      exact absurd hrelative (by decide)
    have hanswer := (htells.isFile ".//lib/x.js").1
    rw [or_iff_left hstray] at hanswer
    exact (Bool.eq_iff_iff.mpr hanswer).trans (by decide +kernel)

end FileCache

end PackageExports
