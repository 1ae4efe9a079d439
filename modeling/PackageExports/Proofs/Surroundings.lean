import PackageExports.Proofs.FoundFiles
import PackageExports.Proofs.NewFiles

/-!
# What surrounds a directory

A path below a directory is followed from where the directory is. If there are no links in the directory and the path
does not lead out of it, then where the path ends depends on nothing outside of the directory: files may come and go
there.

Main results: `FileSystem.KeepsWays.find_eq`, `FileSystem.FilesApart.kind?_below`.
-/

namespace PackageExports

namespace FileSystem

open PackageExports.Path (IsSegment)

variable {fs after : FileSystem} {base here location : Location} {names rest front : List Text} {depth : ℕ}

/-! ### Ways that do not lead out -/

/-- Names that do not lead above the place from which they are followed, if that is so many names below another one. -/
def Stays : ℕ → List Text → Prop
  | _, [] => True
  | depth, name :: rest => if name = ".." then 0 < depth ∧ Stays (depth - 1) rest else Stays (depth + 1) rest

lemma stays_nil (depth : ℕ) : Stays depth [] := trivial

lemma stays_cons {name : Text} (hup : name ≠ "..") : Stays depth (name :: rest) ↔ Stays (depth + 1) rest := by
  rw [Stays, if_neg hup]

lemma stays_up : Stays depth (Text.ofString ".." :: rest) ↔ 0 < depth ∧ Stays (depth - 1) rest := by
  rw [Stays, if_pos rfl]

lemma stays_append (hfront : Text.ofString ".." ∉ front) :
    Stays depth (front ++ rest) ↔ Stays (depth + front.length) rest := by
  induction front generalizing depth with
  | nil => rfl
  | cons name front ih =>
    rw [List.mem_cons, not_or] at hfront
    rw [List.cons_append, stays_cons (Ne.symm hfront.1), ih hfront.2, List.length_cons, Nat.add_assoc,
      Nat.add_comm 1]

lemma stays_of_notMem (hnames : Text.ofString ".." ∉ names) (depth : ℕ) : Stays depth names := by
  rw [← List.append_nil names, stays_append hnames]
  exact stays_nil _

lemma Stays.of_append (h : Stays depth (names ++ rest)) : Stays depth names := by
  induction names generalizing depth with
  | nil => exact stays_nil depth
  | cons name names ih =>
    rw [List.cons_append, Stays] at h
    rw [Stays]
    split_ifs at h ⊢
    · exact ⟨h.1, ih h.2⟩
    · exact ih h

lemma Stays.append (h : Stays depth names) (hrest : Text.ofString ".." ∉ rest) : Stays depth (names ++ rest) := by
  induction names generalizing depth with
  | nil => exact stays_of_notMem hrest depth
  | cons name names ih =>
    rw [Stays] at h
    rw [List.cons_append, Stays]
    split_ifs at h ⊢
    · exact ⟨h.1, ih h.2⟩
    · exact ih h

lemma stays_of_dropLast (hnames : Text.ofString ".." ∉ names.dropLast) (hdepth : 0 < depth) : Stays depth names := by
  rcases List.eq_nil_or_concat' names with rfl | ⟨front, last, rfl⟩
  · exact stays_nil depth
  · rw [List.dropLast_concat] at hnames
    rw [stays_append hnames]
    by_cases hlast : last = ".."
    · rw [hlast, stays_up]
      exact ⟨by omega, stays_nil _⟩
    · rw [stays_cons hlast]
      exact stays_nil _

/-! ### Ways from a directory -/

/-- Names after a way to a directory are followed from there, through the links that are left. -/
lemma Leads.follow_append {links : ℕ} (h : fs.Leads base links here names) (hbase : fs.entryAt? base = some .directory)
    (rest : List Text) : ∃ left, fs.follow links here (names ++ rest) = fs.follow left base rest := by
  induction h with
  | here => exact ⟨_, rfl⟩
  | stay hstay _ ih => rwa [List.cons_append, follow_stay hstay]
  | up _ ih => rwa [List.cons_append, follow_up]
  | file _ _ hentry =>
    rw [hbase] at hentry
    cases hentry
  | directory hname hentry _ ih => rwa [List.cons_append, follow_directory hname hentry]
  | link hname hentry _ ih => rwa [List.cons_append, follow_link hname hentry, ← List.append_assoc]

/-! ### Files outside of a directory -/

/-- Two file systems that differ only in files that are not below a location. -/
structure FilesApart (fs after : FileSystem) (base : Location) : Prop where
  workingDirectory : after.workingDirectory = fs.workingDirectory
  outside : ∀ location, after.entryAt? location ≠ fs.entryAt? location →
    ¬base <+: location ∧ fs.TakesFile location ∧ after.TakesFile location

lemma filesApart_put (hfree : fs.TakesFile location) (houtside : ¬base <+: location) (content : List UInt8) :
    FilesApart fs (fs.put location (.file content)) base where
  workingDirectory := rfl
  outside other hne := by
    by_cases hsame : location = other
    · subst hsame
      refine ⟨houtside, hfree, hfree.ne_nil, fun entry hentry => ⟨content, ?_⟩⟩
      rw [entryAt?_put_self fs _ hfree.ne_nil] at hentry
      exact (Option.some.inj hentry).symm
    · exact absurd (entryAt?_put_of_ne fs _ hsame) hne

lemma entryAt?_remove (fs : FileSystem) (location : Location) {other : Location} (hother : other ≠ []) :
    (fs.remove location).entryAt? other = if location <+: other then none else fs.entryAt? other := by
  rw [entryAt?, if_neg hother, entryAt?, if_neg hother, remove]
  dsimp only
  induction fs.entries with
  | nil => simp [Keyed.get?]
  | cons p rest ih =>
    obtain ⟨key, entry⟩ := p
    by_cases hbelow : location <+: key
    · have hkept : (!location.isPrefixOf key) = false := by simpa [List.isPrefixOf_iff_prefix] using hbelow
      rw [List.filter_cons_of_neg (by simp [hkept]), ih, Keyed.get?]
      by_cases hkey : key = other
      · rw [if_pos (hkey ▸ hbelow), if_pos (hkey ▸ hbelow)]
      · rw [if_neg hkey]
    · have hkept : (!location.isPrefixOf key) = true := by simpa [← List.isPrefixOf_iff_prefix] using hbelow
      rw [List.filter_cons_of_pos (by simp [hkept]), Keyed.get?, Keyed.get?, ih]
      by_cases hkey : key = other
      · rw [if_pos hkey, if_pos hkey, if_neg (hkey ▸ hbelow)]
      · rw [if_neg hkey, if_neg hkey]

/-- A file outside of a directory that is removed is missed nowhere below the directory. -/
lemma filesApart_remove {content : List UInt8} (hfile : fs.entryAt? location = some (.file content))
    (hbelow : ∀ other, location <+: other → other ≠ location → fs.entryAt? other = none)
    (houtside : ¬base <+: location) : FilesApart fs (fs.remove location) base where
  workingDirectory := rfl
  outside other hne := by
    have hother : other ≠ [] := by
      rintro rfl
      exact hne rfl
    rw [entryAt?_remove fs location hother] at hne
    split_ifs at hne with hstart
    · by_cases hsame : other = location
      · subst hsame
        refine ⟨houtside, takesFile_of_file hfile, hother, fun entry hentry => ?_⟩
        rw [entryAt?_remove fs other hother, if_pos hstart] at hentry
        cases hentry
      · exact absurd (hbelow other hstart hsame).symm hne
    · exact absurd rfl hne

/-- Every directory and every link stays, so that ways are not lost. -/
structure KeepsWays (fs after : FileSystem) : Prop where
  workingDirectory : after.workingDirectory = fs.workingDirectory
  entryAt?_eq : ∀ {location : Location} {entry : Entry}, fs.entryAt? location = some entry →
    (∀ content, entry ≠ .file content) → after.entryAt? location = some entry

namespace KeepsWays

variable (h : KeepsWays fs after)

include h

lemma leads
    (hkept : ∀ content, fs.entryAt? base = some (.file content) → ∃ other, after.entryAt? base = some (.file other))
    {links : ℕ} (hleads : fs.Leads base links here names) : after.Leads base links here names := by
  induction hleads with
  | here => exact .here
  | stay hstay _ ih => exact .stay hstay ih
  | up _ ih => exact .up ih
  | file hname hlocation hentry =>
    obtain ⟨other, hother⟩ := hkept _ hentry
    exact .file hname hlocation hother
  | directory hname hentry _ ih => exact .directory hname (h.entryAt?_eq hentry (by simp)) ih
  | link hname hentry _ ih => exact .link hname (h.entryAt?_eq hentry (by simp)) ih

lemma find_kept
    (hkept : ∀ content, fs.entryAt? base = some (.file content) → ∃ other, after.entryAt? base = some (.file other))
    {path : Text} (hfind : fs.find path = .ok base) : after.find path = .ok base := by
  have hplace := place_of_find hfind
  have hafter : after.place path = .ok (.present base) := by
    unfold place at hplace ⊢
    rw [h.workingDirectory]
    split_ifs at hplace ⊢
    · exact (h.leads hkept (follow_eq_present.mp hplace)).follow_eq
    · exact (h.leads hkept (follow_eq_present.mp hplace)).follow_eq
  rw [find, hafter]

/-- What leads to a directory still leads there. -/
theorem find_eq (hbase : fs.entryAt? base = some .directory) {path : Text} (hfind : fs.find path = .ok base) :
    after.find path = .ok base := by
  refine h.find_kept (fun content hfile => ?_) hfind
  cases hbase.symm.trans hfile

end KeepsWays

namespace FilesApart

variable {root : Location} (h : FilesApart fs after root)

include h

lemma keepsWays : KeepsWays fs after where
  workingDirectory := h.workingDirectory
  entryAt?_eq {location entry} hentry hkind := by
    by_contra hne
    obtain ⟨-, hfile, -⟩ := h.outside location fun heq => hne (heq.trans hentry)
    obtain ⟨content, rfl⟩ := hfile.entry entry hentry
    exact hkind content rfl

lemma entryAt?_below (hbelow : root <+: location) : after.entryAt? location = fs.entryAt? location := by
  by_contra hne
  exact (h.outside location hne).1 hbelow

end FilesApart

/-- There are no links below a location. -/
def UnlinkedBelow (fs : FileSystem) (base : Location) : Prop :=
  ∀ location target, base <+: location → fs.entryAt? location ≠ some (.link target)

/-- Names that do not lead out of a directory without links lead to the same place, which is in it. -/
lemma FilesApart.walkNames_below (h : FilesApart fs after base) (hlinks : fs.UnlinkedBelow base)
    (onLink onLink' : Location → List Text → Except AccessError Place) (hnames : ∀ name ∈ names, IsSegment name)
    (hstays : Stays depth names) (below : List Text) (hdepth : depth ≤ below.length) :
    walkNames after onLink' (base ++ below) names = walkNames fs onLink (base ++ below) names ∧
      ∀ location, walkNames fs onLink (base ++ below) names = .ok (.present location) → base <+: location := by
  induction names generalizing depth below with
  | nil =>
    refine ⟨rfl, fun location hlocation => ?_⟩
    obtain rfl := Place.present.inj (Except.ok.inj hlocation)
    exact List.prefix_append _ _
  | cons name rest ih =>
    obtain ⟨⟨hne, hdot, -⟩, hrest⟩ := List.forall_mem_cons.mp hnames
    cases step_of_name name with
    | stay hstay => exact absurd hstay (not_or.mpr ⟨hne, hdot⟩)
    | up hup =>
      rw [hup, stays_up] at hstays
      have hbelow : below ≠ [] := List.ne_nil_of_length_pos (hstays.1.trans_le hdepth)
      rw [hup, walkNames_up, walkNames_up, List.dropLast_append_of_ne_nil hbelow]
      exact ih hrest hstays.2 _ (by rw [List.length_dropLast]; omega)
    | long hmoves hup hlong =>
      rw [walkNames_long hmoves hup hlong, walkNames_long hmoves hup hlong]
      exact ⟨rfl, fun _ hlocation => by cases hlocation⟩
    | lookUp hname =>
      rw [stays_cons hname.ne_up] at hstays
      have hstart : base <+: base ++ below ++ [name] := by
        rw [List.append_assoc]
        exact List.prefix_append _ _
      rw [walkNames_lookUp hname, walkNames_lookUp hname, h.entryAt?_below hstart]
      rcases hentry : fs.entryAt? (base ++ below ++ [name]) with _ | (_ | target | _)
      · refine ⟨rfl, fun location hlocation => ?_⟩
        dsimp only at hlocation
        split_ifs at hlocation
        cases hlocation
      · refine ⟨rfl, fun location hlocation => ?_⟩
        dsimp only at hlocation
        split_ifs at hlocation
        obtain rfl := Place.present.inj (Except.ok.inj hlocation)
        exact hstart
      · exact absurd hentry (hlinks _ _ hstart)
      · dsimp only
        rw [List.append_assoc]
        exact ih hrest hstays _ (by rw [List.length_append, List.length_singleton]; omega)

/-! ### Paths below a directory -/

lemma place_eq (fs : FileSystem) (path : Text) :
    fs.place path =
      if path.any (·.val == 0) then .error .nullInPath
      else if path.any CodePoint.isSurrogate then .error .unwritablePath
      else if path.isEmpty then .error .missing
      else fs.follow linkLimit (fs.startOf path) (Text.splitOn '/' path) :=
  rfl

lemma follow_of_find {path : Text} (h : fs.find path = .ok base) :
    fs.follow linkLimit (fs.startOf path) (Text.splitOn '/' path) = .ok (.present base) := by
  have hplace := place_of_find h
  rw [place_eq] at hplace
  split_ifs at hplace
  exact hplace

lemma startOf_of_relative {path : Text} (h : (Path.ofText path).anchor = .relative) :
    fs.startOf path = fs.workingDirectory := by
  rw [Path.anchor_eq_relative] at h
  rw [startOf, if_neg]
  intro hstarts
  obtain ⟨rest, rfl⟩ := List.isPrefixOf_iff_prefix.mp hstarts
  exact h rfl

variable {package : Path}

/-- How a path below another one is followed: first the other path, then the names below it. -/
lemma exists_front (hpackage : package.IsClean) (hne : rest ≠ []) (hrest : ∀ name ∈ rest, IsSegment name) :
    ∃ front, Text.splitOn '/' (Path.text ⟨package.anchor, package.segments ++ rest⟩) = front ++ rest ∧
      ∀ (fs : FileSystem) links,
        fs.follow links (fs.startOf (Path.text ⟨package.anchor, package.segments ++ rest⟩)) front =
          fs.follow links (fs.startOf package.text) (Text.splitOn '/' package.text) := by
  have hsplit := Text.splitOn_joinWith hne fun name hname => (hrest name hname).2.2
  have htext := text_join package hne
  rw [Path.join, if_pos rfl] at htext
  dsimp only at htext
  by_cases hsegments : package.segments = []
  · obtain ⟨anchor, segments⟩ := package
    obtain rfl : segments = [] := hsegments
    rw [if_pos rfl] at htext
    rw [htext]
    cases anchor with
    | relative =>
      refine ⟨[], hsplit, fun fs links => ?_⟩
      rw [Path.anchorText, List.nil_append, startOf_of_relative (Path.anchor_joinWith hrest)]
      cases links <;> rfl
    | absolute =>
      refine ⟨[[]], (Text.splitOn_append '/' [] _).trans (congrArg _ hsplit), fun fs links => ?_⟩
      cases links <;> rfl
    | doubleSlash =>
      refine ⟨[[], []], (Text.splitOn_append '/' [CodePoint.ofChar '/'] _).trans (congrArg _ hsplit),
        fun fs links => ?_⟩
      cases links <;> rfl
  · rw [if_neg hsegments] at htext
    obtain ⟨c, chars, hc⟩ := List.exists_cons_of_ne_nil (Path.text_ne_nil hpackage)
    have hslash : package.text ++ "/" ++ Text.joinWith "/" rest =
        package.text ++ CodePoint.ofChar '/' :: Text.joinWith "/" rest := by
      rw [List.append_assoc]
      rfl
    refine ⟨Text.splitOn '/' package.text, ?_, fun fs links => ?_⟩
    · rw [htext, hslash, Text.splitOn_append, hsplit]
    · rw [htext, hc]
      rfl

/-- A path below a directory is followed from the directory, through the links that are left. -/
lemma exists_follow_below (hpackage : package.IsClean) (hfind : fs.find package.text = .ok base)
    (hbase : fs.entryAt? base = some .directory) (hrest : ∀ name ∈ rest, IsSegment name) : ∃ links,
    fs.follow linkLimit (fs.startOf (Path.text ⟨package.anchor, package.segments ++ rest⟩))
      (Text.splitOn '/' (Path.text ⟨package.anchor, package.segments ++ rest⟩)) = fs.follow links base rest := by
  by_cases hne : rest = []
  · rw [hne, List.append_nil]
    exact ⟨0, follow_of_find hfind⟩
  · obtain ⟨front, hsplit, hfront⟩ := exists_front hpackage hne hrest
    rw [hsplit]
    exact (follow_eq_present.mp ((hfront fs _).trans (follow_of_find hfind))).follow_append hbase rest

section Below

variable (h : FilesApart fs after base) (hlinks : fs.UnlinkedBelow base) (hbase : fs.entryAt? base = some .directory)
  (hpackage : package.IsClean) (hfind : fs.find package.text = .ok base) (hrest : ∀ name ∈ rest, IsSegment name)
  (hstays : Stays 0 rest)

include h hlinks hbase hpackage hfind hrest hstays

lemma FilesApart.find_below :
    after.find (Path.text ⟨package.anchor, package.segments ++ rest⟩) =
      fs.find (Path.text ⟨package.anchor, package.segments ++ rest⟩) ∧
    ∀ location, fs.find (Path.text ⟨package.anchor, package.segments ++ rest⟩) = .ok location → base <+: location := by
  have hafter := h.keepsWays.find_eq hbase hfind
  have hbaseAfter := h.keepsWays.entryAt?_eq hbase (by simp)
  obtain ⟨links, hfollow⟩ := exists_follow_below hpackage hfind hbase hrest
  obtain ⟨linksAfter, hfollowAfter⟩ := exists_follow_below hpackage hafter hbaseAfter hrest
  have hbelow : after.follow linksAfter base rest = fs.follow links base rest ∧
      ∀ location, fs.follow links base rest = .ok (.present location) → base <+: location := by
    have hwalk (onLink onLink' : Location → List Text → Except AccessError Place) :=
      h.walkNames_below hlinks onLink onLink' hrest hstays [] (Nat.zero_le _)
    simp only [List.append_nil] at hwalk
    cases links <;> cases linksAfter <;> exact hwalk _ _
  have hplace : after.place (Path.text ⟨package.anchor, package.segments ++ rest⟩) =
        fs.place (Path.text ⟨package.anchor, package.segments ++ rest⟩) ∧
      ∀ location, fs.place (Path.text ⟨package.anchor, package.segments ++ rest⟩) = .ok (.present location) →
        base <+: location := by
    rw [place_eq, place_eq, hfollow, hfollowAfter, hbelow.1]
    refine ⟨rfl, fun location hlocation => ?_⟩
    split_ifs at hlocation
    exact hbelow.2 location hlocation
  refine ⟨?_, fun location hlocation => hplace.2 location (place_of_find hlocation)⟩
  rw [find, find, hplace.1]

/-- What is found by a path that does not lead out of a directory does not depend on files outside of it. -/
theorem FilesApart.kind?_below :
    after.kind? (Path.text ⟨package.anchor, package.segments ++ rest⟩) =
      fs.kind? (Path.text ⟨package.anchor, package.segments ++ rest⟩) := by
  obtain ⟨hfinds, hbelow⟩ := h.find_below hlinks hbase hpackage hfind hrest hstays
  rw [kind?, kind?, hfinds]
  cases hlocation : fs.find (Path.text ⟨package.anchor, package.segments ++ rest⟩) with
  | error e => rfl
  | ok location =>
    dsimp only
    rw [h.entryAt?_below (hbelow location hlocation)]

end Below

end FileSystem

end PackageExports
