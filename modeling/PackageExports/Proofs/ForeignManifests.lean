import PackageExports.Proofs.ManifestAgreement
import PackageExports.Proofs.Surroundings

/-!
# Manifests outside of a directory

When package.json files outside of a directory come, go or change, then a path leads where it led, or to one of these
files, or it is lost behind one of them. What does not lead to where such a file may be is seen alike, whatever links are
followed on the way. In a directory without links, paths that go down mean the locations that they write.

Main results: `FileSystem.ManifestsApart.seenAlike`, `FileSystem.IsForeign.read_put`,
`FileSystem.IsPlain.realPath_below`, `FileSystem.FilesApart.seenAlike`.
-/

namespace PackageExports

open PackageExports.Path (IsSegment)

/-- The location to which a place leads. -/
def Place.location : Place → Location
  | present location => location
  | vacant location => location

namespace FileSystem

variable {fs after : FileSystem} {base here location : Location} {path name : Text} {names rest : List Text}

/-- A path leads to the same file in both, or to a file in neither. -/
def SeenAlike (fs after : FileSystem) (path : Text) : Prop :=
  after.check path (some .file) = fs.check path (some .file) ∧
    (fs.check path (some .file) = .ok true → after.read path = fs.read path)

lemma TakesFile.free_or_file (h : fs.TakesFile location) :
    fs.entryAt? location = none ∨ ∃ content, fs.entryAt? location = some (.file content) := by
  cases hentry : fs.entryAt? location with
  | none => exact .inl rfl
  | some entry =>
    obtain ⟨content, rfl⟩ := h.entry entry hentry
    exact .inr ⟨content, rfl⟩

lemma check_of_read {bytes : List UInt8} (h : fs.read path = .ok bytes) : fs.check path (some .file) = .ok true := by
  obtain ⟨location, hfind, hentry⟩ := find_of_read h
  simp only [check, kind?, hfind, hentry, decide_true, Bool.or_true]

/-! ### Manifests outside of a directory -/

/-- A location outside of another one at which a package.json may come and go. -/
structure IsForeign (fs : FileSystem) (base location : Location) : Prop where
  outside : ¬base <+: location
  named : location.getLast? = some Package.manifestName
  takesFile : fs.TakesFile location

/-- Two file systems that differ only in package.json files that are not below a location. -/
structure ManifestsApart (fs after : FileSystem) (base : Location) : Prop extends FilesApart fs after base where
  named : ∀ location, after.entryAt? location ≠ fs.entryAt? location → location.getLast? = some Package.manifestName

/-- A path does not lead to where a package.json may come and go outside of a location. -/
def StaysHome (fs : FileSystem) (base : Location) (path : Text) : Prop :=
  ∀ p, fs.place path = .ok p → ¬fs.IsForeign base p.location

lemma manifestsApart_put (h : fs.IsForeign base location) (content : List UInt8) :
    ManifestsApart fs (fs.put location (.file content)) base where
  toFilesApart := filesApart_put h.takesFile h.outside content
  named other hne := by
    by_cases hsame : location = other
    · exact hsame ▸ h.named
    · exact absurd (entryAt?_put_of_ne fs _ hsame) hne

/-- What becomes of a search when package.json files come and go: it ends at one of them, or where there is none it
fails in another way, or nothing changes. -/
inductive Diverted (fs : FileSystem) (base : Location) :
    Except AccessError Place → Except AccessError Place → Prop where
  | same {r : Except AccessError Place} : Diverted fs base r r
  | foreign {p q : Place} : q.location = p.location → fs.IsForeign base p.location → Diverted fs base (.ok p) (.ok q)
  | lost {e e' : AccessError} : e ≠ .nameTooLong → e' ≠ .nameTooLong → Diverted fs base (.error e) (.error e')

lemma FilesApart.reckonNames_eq (h : FilesApart fs after base) {onLink onLink' : Location → List Text → Location}
    (hlink : ∀ start names, onLink' start names = onLink start names) (here : Location) (names : List Text) :
    reckonNames after onLink' here names = reckonNames fs onLink here names := by
  induction names generalizing here with
  | nil => rfl
  | cons name rest ih =>
    rw [reckonNames, reckonNames, ih, ih, ih]
    by_cases hsame : after.entryAt? (here ++ [name]) = fs.entryAt? (here ++ [name])
    · simp only [hsame, hlink]
    · -- a file and a free place are passed alike
      obtain ⟨-, hfile, hfileAfter⟩ := h.outside _ hsame
      rcases hfile.free_or_file with hentry | ⟨content, hentry⟩ <;>
        rcases hfileAfter.free_or_file with hentryAfter | ⟨contentAfter, hentryAfter⟩ <;>
        rw [hentry, hentryAfter]

lemma FilesApart.realPath_eq (h : FilesApart fs after base) (p : Path) : after.realPath p = fs.realPath p := by
  have hreckon (links : ℕ) (here : Location) (names : List Text) :
      after.reckon links here names = fs.reckon links here names := by
    induction links generalizing here names with
    | zero => exact h.reckonNames_eq (fun _ _ => rfl) here names
    | succ links ih => exact h.reckonNames_eq ih here names
  rw [realPath, realPath, hreckon, h.workingDirectory]

namespace ManifestsApart

variable (h : ManifestsApart fs after base)

include h

lemma isForeign (hne : after.entryAt? location ≠ fs.entryAt? location) : fs.IsForeign base location where
  outside := (h.outside location hne).1
  named := h.named location hne
  takesFile := (h.outside location hne).2.1

lemma diverted_walkNames {onLink onLink' : Location → List Text → Except AccessError Place}
    (hlink : ∀ start names, Diverted fs base (onLink start names) (onLink' start names)) (here : Location)
    (names : List Text) : Diverted fs base (walkNames fs onLink here names) (walkNames after onLink' here names) := by
  induction names generalizing here with
  | nil => exact .same
  | cons name rest ih =>
    cases step_of_name name with
    | stay hstay =>
      rw [walkNames_stay hstay, walkNames_stay hstay]
      exact ih here
    | up hup =>
      rw [hup, walkNames_up, walkNames_up]
      exact ih here.dropLast
    | long hmoves hup hlong =>
      rw [walkNames_long hmoves hup hlong, walkNames_long hmoves hup hlong]
      exact .same
    | lookUp hname =>
      rw [walkNames_lookUp hname, walkNames_lookUp hname]
      by_cases hsame : after.entryAt? (here ++ [name]) = fs.entryAt? (here ++ [name])
      · rw [hsame]
        rcases fs.entryAt? (here ++ [name]) with _ | (_ | target | _)
        · exact .same
        · exact .same
        · exact hlink _ _
        · exact ih (here ++ [name])
      · -- here a package.json came, went or was changed: a search ends at it or fails behind it
        have hforeign := h.isForeign hsame
        obtain ⟨-, hfile, hfileAfter⟩ := h.outside _ hsame
        rcases hfile.free_or_file with hentry | ⟨content, hentry⟩ <;>
          rcases hfileAfter.free_or_file with hentryAfter | ⟨contentAfter, hentryAfter⟩ <;>
          rw [hentry, hentryAfter] <;> dsimp only <;> split_ifs
        all_goals first
          | exact .foreign rfl hforeign
          | exact .lost (by simp) (by simp)

lemma diverted_place (path : Text) : Diverted fs base (fs.place path) (after.place path) := by
  have hfollow (links : ℕ) (here : Location) (names : List Text) :
      Diverted fs base (fs.follow links here names) (after.follow links here names) := by
    induction links generalizing here names with
    | zero => exact h.diverted_walkNames (fun _ _ => .same) here names
    | succ links ih => exact h.diverted_walkNames ih here names
  unfold place
  rw [h.workingDirectory]
  split_ifs
  · exact .same
  · exact .same
  · exact .same
  · exact hfollow linkLimit _ _
  · exact hfollow linkLimit _ _

lemma seenAlike (hhome : fs.StaysHome base path) : SeenAlike fs after path := by
  have hdiverted := h.diverted_place path
  unfold StaysHome at hhome
  unfold SeenAlike check kind? read find
  generalize fs.place path = r at hdiverted hhome
  generalize after.place path = r' at hdiverted
  cases hdiverted with
  | foreign hlocation hforeign => exact absurd hforeign (hhome _ rfl)
  | @lost e e' he he' =>
    refine ⟨?_, fun hcheck => ?_⟩
    · cases e <;> cases e' <;> first | rfl | exact absurd rfl he | exact absurd rfl he'
    · cases e <;> cases hcheck
  | same =>
    rcases r with e | ⟨location⟩ | ⟨location⟩
    · exact ⟨rfl, fun _ => rfl⟩
    · have hentry : after.entryAt? location = fs.entryAt? location := by
        by_contra hne
        exact hhome _ rfl (h.isForeign hne)
      simp only [hentry, implies_true, and_self]
    · exact ⟨rfl, fun _ => rfl⟩

end ManifestsApart

lemma IsForeign.find_put {p : Place} (h : fs.IsForeign base p.location) (hplace : fs.place path = .ok p)
    (content : List UInt8) : (fs.put p.location (.file content)).find path = .ok p.location := by
  have hplaced := placed_place h.takesFile content path
  rw [hplace] at hplaced
  unfold find
  generalize (fs.put p.location (.file content)).place path = place at hplaced
  cases p with
  | present location =>
    cases hplaced
    rfl
  | vacant location =>
    generalize hr : Except.ok (Place.vacant location) = r at hplaced
    cases hplaced with
    | same hne => exact absurd hr.symm hne
    | made => rfl
    | blocked => cases hr

lemma IsForeign.read_put {p : Place} (h : fs.IsForeign base p.location) (hplace : fs.place path = .ok p)
    (content : List UInt8) : (fs.put p.location (.file content)).read path = .ok content :=
  read_of_find (h.find_put hplace content) (entryAt?_put_self fs _ h.takesFile.ne_nil)

/-! ### Directories without links -/

/-- A path that leads to a directory without links, to which its own path leads, too. -/
structure IsPlain (fs : FileSystem) (package : Path) (base : Location) : Prop where
  clean : package.IsClean
  found : fs.find package.text = .ok base
  directory : fs.entryAt? base = some .directory
  unlinked : fs.UnlinkedBelow base
  named : (pathTo base).IsClean
  leads : fs.find (pathTo base).text = .ok base

lemma UnlinkedBelow.reckonNames_below (hlinks : fs.UnlinkedBelow base) (onLink : Location → List Text → Location)
    (hrest : ∀ name ∈ rest, IsName name) (below : List Text) :
    reckonNames fs onLink (base ++ below) rest = base ++ (below ++ rest) := by
  induction rest generalizing below with
  | nil => rw [reckonNames, List.append_nil]
  | cons name rest ih =>
    obtain ⟨⟨hne, hdot, hup, -⟩, hrest⟩ := List.forall_mem_cons.mp hrest
    have hstay : ¬(name = [] ∨ name = Text.ofString ".") := not_or.mpr ⟨hne, hdot⟩
    have hnext : reckonNames fs onLink (base ++ below ++ [name]) rest = base ++ (below ++ name :: rest) := by
      rw [List.append_assoc, ih hrest, List.append_assoc, List.singleton_append]
    rw [reckonNames, if_neg hstay, if_neg hup]
    rcases hentry : fs.entryAt? (base ++ below ++ [name]) with _ | (_ | target | _)
    · exact hnext
    · exact hnext
    · refine absurd hentry (hlinks _ _ ?_)
      rw [List.append_assoc]
      exact List.prefix_append _ _
    · exact hnext

lemma reckon_stay {links : ℕ} (hstay : name = [] ∨ name = ".") :
    fs.reckon links here (name :: rest) = fs.reckon links here rest := by
  cases links <;> exact if_pos hstay

lemma reckon_up {links : ℕ} : fs.reckon links here (Text.ofString ".." :: rest) = fs.reckon links here.dropLast rest := by
  cases links <;> rfl

lemma reckon_directory {links : ℕ} (hname : IsLookedUp name) (hentry : fs.entryAt? (here ++ [name]) = some .directory) :
    fs.reckon links here (name :: rest) = fs.reckon links (here ++ [name]) rest := by
  cases links <;> rw [reckon, reckonNames, if_neg hname.moves, if_neg hname.ne_up, hentry]

lemma reckon_link {links : ℕ} {target : Text} (hname : IsLookedUp name)
    (hentry : fs.entryAt? (here ++ [name]) = some (.link target)) :
    fs.reckon (links + 1) here (name :: rest) =
      fs.reckon links (if Text.startsWith target "/" then [] else here) (Text.splitOn '/' target ++ rest) := by
  rw [reckon, reckonNames, if_neg hname.moves, if_neg hname.ne_up, hentry]

/-- Names after a way to a directory without links are reckoned from there. -/
lemma UnlinkedBelow.reckon_append (hlinks : fs.UnlinkedBelow base) (hbase : fs.entryAt? base = some .directory)
    (hrest : ∀ name ∈ rest, IsName name) {links : ℕ} (h : fs.Leads base links here names) :
    fs.reckon links here (names ++ rest) = base ++ rest := by
  induction h with
  | @here links =>
    have hbelow (onLink : Location → List Text → Location) : reckonNames fs onLink (base ++ []) rest = base ++ rest :=
      hlinks.reckonNames_below onLink hrest []
    rw [List.append_nil] at hbelow
    cases links <;> exact hbelow _
  | stay hstay _ ih => rwa [List.cons_append, reckon_stay hstay]
  | up _ ih => rwa [List.cons_append, reckon_up]
  | file _ _ hentry =>
    rw [hbase] at hentry
    cases hentry
  | directory hname hentry _ ih => rwa [List.cons_append, reckon_directory hname hentry]
  | link hname hentry _ ih => rwa [List.cons_append, reckon_link hname hentry, ← List.append_assoc]

lemma follow_segments {package : Path} (hpackage : package.IsClean) (fs : FileSystem) (links : ℕ) :
    fs.follow links (if package.anchor = .relative then fs.workingDirectory else []) package.segments =
      fs.follow links (fs.startOf package.text) (Text.splitOn '/' package.text) := by
  obtain ⟨anchor, segments⟩ := package
  by_cases hsegments : segments = []
  · subst hsegments
    cases anchor <;> cases links <;> rfl
  have hsplit := Text.splitOn_joinWith hsegments fun name hname => (hpackage name hname).2.2
  cases anchor with
  | relative =>
    have htext : Path.text ⟨.relative, segments⟩ = Text.joinWith "/" segments := by
      rw [Path.text, if_neg (by simp [hsegments])]
      rfl
    rw [htext, hsplit, startOf_of_relative (Path.anchor_joinWith hpackage)]
    rfl
  | absolute =>
    have htext : Path.text ⟨.absolute, segments⟩ = CodePoint.ofChar '/' :: Text.joinWith "/" segments := by
      rw [Path.text, if_neg (by simp)]
      rfl
    have hpieces := (Text.splitOn_append '/' [] (Text.joinWith "/" segments)).trans (congrArg _ hsplit)
    rw [List.nil_append] at hpieces
    rw [htext, hpieces]
    cases links <;> rfl
  | doubleSlash =>
    have htext : Path.text ⟨.doubleSlash, segments⟩ =
        [CodePoint.ofChar '/'] ++ CodePoint.ofChar '/' :: Text.joinWith "/" segments := by
      rw [Path.text, if_neg (by simp)]
      rfl
    have hpieces := (Text.splitOn_append '/' [CodePoint.ofChar '/'] (Text.joinWith "/" segments)).trans
      (congrArg _ hsplit)
    rw [htext, hpieces]
    cases links <;> rfl

namespace IsPlain

variable {package : Path} (h : fs.IsPlain package base)

include h

lemma realPath_below (hrest : ∀ name ∈ rest, IsName name) :
    fs.realPath ⟨package.anchor, package.segments ++ rest⟩ = base ++ rest := by
  have hleads := follow_eq_present.mp ((follow_segments h.clean fs linkLimit).trans (follow_of_find h.found))
  exact h.unlinked.reckon_append h.directory hrest hleads

lemma realPath_eq : fs.realPath package = base := by
  have hbelow : fs.realPath ⟨package.anchor, package.segments ++ []⟩ = base ++ [] :=
    h.realPath_below (List.forall_mem_nil _)
  rwa [List.append_nil, List.append_nil] at hbelow

end IsPlain

/-- A path that does not lead out of a directory without links leads to the same file, or to none, whatever files are
outside. -/
lemma FilesApart.seenAlike (h : FilesApart fs after base) (hlinks : fs.UnlinkedBelow base)
    (hbase : fs.entryAt? base = some .directory) {package : Path} (hpackage : package.IsClean)
    (hfind : fs.find package.text = .ok base) (hrest : ∀ name ∈ rest, IsSegment name) (hstays : Stays 0 rest) :
    SeenAlike fs after (Path.text ⟨package.anchor, package.segments ++ rest⟩) := by
  obtain ⟨hsame, hbelow⟩ := h.find_below hlinks hbase hpackage hfind hrest hstays
  have hkind := h.kind?_below hlinks hbase hpackage hfind hrest hstays
  refine ⟨?_, fun _ => ?_⟩
  · rw [check, check, hsame, hkind]
  · rw [read, read, hsame]
    cases hplace : fs.find (Path.text ⟨package.anchor, package.segments ++ rest⟩) with
    | error e => rfl
    | ok location =>
      dsimp only
      rw [h.entryAt?_below (hbelow location hplace)]

end FileSystem

end PackageExports
