import PackageExports.Proofs.RememberedFiles

/-!
# Directories on the way

If all entries are in directories, then a path that leads to something leads there through directories: each path that it
goes on from leads to a directory.

Main results: `FileSystem.InDirectories.leads_front`, `FileSystem.InDirectories.isDirectory_of_find`.
-/

namespace PackageExports

open PackageExports.Path (IsSegment)

namespace FileSystem

/-- Each entry is in a directory, and relative paths start from one. -/
structure InDirectories (fs : FileSystem) : Prop where
  working : fs.entryAt? fs.workingDirectory = some .directory
  parent : ∀ names name entry, fs.entryAt? (names ++ [name]) = some entry → fs.entryAt? names = some .directory

variable {fs : FileSystem} {here location : Location} {names rest : List Text} {package : Path}

namespace InDirectories

lemma of_entries (hworking : fs.entryAt? fs.workingDirectory = some .directory)
    (h : ∀ location ∈ fs.entries.keys, fs.entryAt? location.dropLast = some .directory) : fs.InDirectories where
  working := hworking
  parent _ _ _ hentry := directory_above h hentry

lemma dropLast (h : fs.InDirectories) (hhere : fs.entryAt? here = some .directory) :
    fs.entryAt? here.dropLast = some .directory := by
  rcases List.eq_nil_or_concat' here with rfl | ⟨front, last, rfl⟩
  · exact hhere
  · rw [List.dropLast_concat]
    exact h.parent front last _ hhere

/-- A way that goes on after some names was at a directory there. -/
lemma leads_front (h : fs.InDirectories) (hrest : rest ≠ []) {links : ℕ} (hhere : fs.entryAt? here = some .directory)
    (hleads : fs.Leads location links here (names ++ rest)) :
    ∃ base, fs.Leads base links here names ∧ fs.entryAt? base = some .directory := by
  generalize hwhole : names ++ rest = whole at hleads
  -- a way along no names stays where it is; any other begins as the whole does
  induction hleads generalizing names with
  | here => exact absurd (List.append_eq_nil_iff.mp hwhole).2 hrest
  | stay hstay _ ih =>
    rcases List.append_eq_cons_iff.mp hwhole with ⟨rfl, -⟩ | ⟨more, rfl, hmore⟩
    · exact ⟨_, .here, hhere⟩
    · obtain ⟨base, hbase, hdirectory⟩ := ih hhere hmore.symm
      exact ⟨base, .stay hstay hbase, hdirectory⟩
  | up _ ih =>
    rcases List.append_eq_cons_iff.mp hwhole with ⟨rfl, -⟩ | ⟨more, rfl, hmore⟩
    · exact ⟨_, .here, hhere⟩
    · obtain ⟨base, hbase, hdirectory⟩ := ih (h.dropLast hhere) hmore.symm
      exact ⟨base, .up hbase, hdirectory⟩
  | file _ _ _ =>
    rcases List.append_eq_cons_iff.mp hwhole with ⟨rfl, -⟩ | ⟨more, rfl, hmore⟩
    · exact ⟨_, .here, hhere⟩
    · exact absurd (List.append_eq_nil_iff.mp hmore.symm).2 hrest
  | directory hname hentry _ ih =>
    rcases List.append_eq_cons_iff.mp hwhole with ⟨rfl, -⟩ | ⟨more, rfl, hmore⟩
    · exact ⟨_, .here, hhere⟩
    · obtain ⟨base, hbase, hdirectory⟩ := ih hentry hmore.symm
      exact ⟨base, .directory hname hentry hbase, hdirectory⟩
  | @link _ start _ target _ hname hentry _ ih =>
    rcases List.append_eq_cons_iff.mp hwhole with ⟨rfl, -⟩ | ⟨more, rfl, hmore⟩
    · exact ⟨_, .here, hhere⟩
    · have hstart : fs.entryAt? (if Text.startsWith target "/" then [] else start) = some .directory := by
        split_ifs
        · rfl
        · exact hhere
      obtain ⟨base, hbase, hdirectory⟩ := ih hstart (by rw [hmore, List.append_assoc])
      exact ⟨base, .link hname hentry hbase, hdirectory⟩

lemma startOf (h : fs.InDirectories) (path : Text) : fs.entryAt? (fs.startOf path) = some .directory := by
  unfold FileSystem.startOf
  split_ifs
  · rfl
  · exact h.working

lemma writable_above (hne : rest ≠ [])
    (h : ∀ c ∈ Path.text ⟨package.anchor, package.segments ++ rest⟩, c.val ≠ 0 ∧ c.isSurrogate = false) :
    ∀ c ∈ package.text, c.val ≠ 0 ∧ c.isSurrogate = false := by
  have htext := text_join package hne
  rw [Path.join, if_pos rfl] at htext
  rw [htext] at h
  by_cases hsegments : package.segments = []
  · obtain ⟨anchor, segments⟩ := package
    obtain rfl : segments = [] := hsegments
    cases anchor <;> decide
  · rw [if_neg hsegments] at h
    exact fun c hc => h c (List.mem_append_left _ (List.mem_append_left _ hc))

/-- A path leads to a directory if a path below it leads anywhere. -/
theorem isDirectory_of_find (h : fs.InDirectories) (hpackage : package.IsClean) (hne : rest ≠ [])
    (hrest : ∀ name ∈ rest, IsSegment name)
    (hfind : fs.find (Path.text ⟨package.anchor, package.segments ++ rest⟩) = .ok location) :
    fs.isDirectory package.text = true := by
  obtain ⟨front, hsplit, hfront⟩ := exists_front hpackage hne hrest
  have hfollow := follow_of_find hfind
  rw [hsplit] at hfollow
  obtain ⟨base, hbase, hdirectory⟩ := h.leads_front hne (h.startOf _) (follow_eq_present.mp hfollow)
  have hplace : fs.place package.text = .ok (.present base) := by
    rw [place_of_writable (writable_above hne (writable_of_find hfind)) (Path.text_ne_nil hpackage), ← hfront,
      hbase.follow_eq]
  exact isDirectory_iff.mpr ⟨base, by rw [find, hplace], hdirectory⟩

lemma isDirectory_of_index (h : fs.InDirectories) (hpackage : package.IsClean) {extension : Text}
    (hslash : CodePoint.ofChar '/' ∉ extension)
    (hfile : fs.isFile (Path.text ⟨package.anchor, package.segments ++ ["index" ++ extension]⟩) = true) :
    fs.isDirectory package.text = true := by
  obtain ⟨location, content, hfind, -⟩ := isFile_iff.mp hfile
  have hindex := List.forall_mem_singleton.mpr (Path.isSegment_index hslash)
  exact h.isDirectory_of_find hpackage (List.cons_ne_nil _ _) hindex hfind

end InDirectories

end FileSystem

end PackageExports
