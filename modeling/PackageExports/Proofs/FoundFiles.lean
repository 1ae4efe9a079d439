import Mathlib.Data.List.Find
import PackageExports.Proofs.CleanPaths
import PackageExports.Proofs.Strategies

/-!
# Files that are found

A file that is looked for at a path has the path's name with an extension, or it is an index file. If the path leads down
from a clean package, then what is found is in the package, and looking for it does not fail.

Main results: `Probe.found_cases`, `Expansion.resolve?_of_isFile`, `SourceFile.exists_find?`.
-/

namespace PackageExports

namespace Path

variable {p package : Path}

instance (segment : Text) : Decidable (IsSegment segment) :=
  inferInstanceAs (Decidable (_ ∧ _ ∧ _))

lemma IsSegment.append {segment rest : Text} (h : IsSegment segment) (hrest : CodePoint.ofChar '/' ∉ rest) :
    IsSegment (segment ++ rest) := by
  obtain ⟨hne, hdot, hslash⟩ := h
  refine ⟨by simp [hne], ?_, by simp [hslash, hrest]⟩
  intro heq
  rcases List.append_eq_singleton_iff.mp heq with ⟨hnil, -⟩ | ⟨hsegment, -⟩
  · exact hne hnil
  · exact hdot hsegment

lemma isSegment_concat {front : List Text} {last rest : Text} (hfront : ∀ name ∈ front, IsSegment name)
    (hlast : IsSegment last) (hrest : CodePoint.ofChar '/' ∉ rest) : ∀ name ∈ front ++ [last ++ rest], IsSegment name :=
  List.forall_mem_append.mpr ⟨hfront, List.forall_mem_singleton.mpr (hlast.append hrest)⟩

lemma ofText_of_isSegment {segment : Text} (h : IsSegment segment) : ofText segment = ⟨.relative, [segment]⟩ :=
  ofText_text (p := ⟨.relative, [segment]⟩) fun _ hname => List.mem_singleton.mp hname ▸ h

lemma div_of_isSegment (p : Path) {segment : Text} (h : IsSegment segment) :
    p / segment = ⟨p.anchor, p.segments ++ [segment]⟩ := by
  rw [joinText_eq p (by rw [ofText_of_isSegment h]), ofText_of_isSegment h]

lemma isSegment_index {extension : Text} (h : CodePoint.ofChar '/' ∉ extension) : IsSegment ("index" ++ extension) :=
  IsSegment.append (by decide) h

lemma div_index (p : Path) {extension : Text} (h : CodePoint.ofChar '/' ∉ extension) :
    p / (Text.ofString "index" ++ extension) = ⟨p.anchor, p.segments ++ ["index" ++ extension]⟩ :=
  div_of_isSegment p (isSegment_index h)

lemma text_append {front : List Text} {last : Text} (h : p.segments = front ++ [last]) (rest : Text) :
    p.text ++ rest = text ⟨p.anchor, front ++ [last ++ rest]⟩ := by
  rw [text, if_neg (by simp [h]), text, if_neg (by simp), segmentText, segmentText, h, List.append_assoc,
    Text.joinWith_concat_append]

lemma anchor_eq_relative {t : Text} : (ofText t).anchor = .relative ↔ t.head? ≠ some (CodePoint.ofChar '/') := by
  rw [ofText, anchorOf]
  cases t with
  | nil => simp [Text.leading]
  | cons c t =>
    by_cases hc : c = CodePoint.ofChar '/'
    · simp only [hc, Text.leading, List.takeWhile_cons, beq_self_eq_true, if_true, List.length_cons]
      split <;> simp_all
    · simp [Text.leading, hc]

lemma isClean_joinText (hpackage : package.IsClean) {t : Text} (h : (ofText t).anchor = .relative) :
    (package / t).IsClean := by
  rw [joinText_eq package h]
  intro segment hsegment
  rcases List.mem_append.mp hsegment with hmem | hmem
  · exact hpackage segment hmem
  · exact isClean_ofText t segment hmem

lemma isClean_div (hpackage : package.IsClean) (t : Text) : (package / t).IsClean := by
  by_cases hanchor : (ofText t).anchor = .relative
  · exact isClean_joinText hpackage hanchor
  · have hown : package / t = ofText t := if_neg hanchor
    rw [hown]
    exact isClean_ofText t

lemma anchor_slash {t : Text} (hne : t ≠ []) (h : (ofText t).anchor = .relative) (rest : Text) :
    (ofText (t ++ "/" ++ rest)).anchor = .relative := by
  rw [anchor_eq_relative] at h ⊢
  cases t with
  | nil => exact absurd rfl hne
  | cons c t => exact h

/-- A written path that goes from where it is seen to a name. -/
def IsInner (t : Text) : Prop :=
  (ofText t).anchor = .relative ∧ (ofText t).segments ≠ []

instance (t : Text) : Decidable (IsInner t) :=
  inferInstanceAs (Decidable (_ ∧ _))

lemma IsInner.append {t : Text} (h : IsInner t) (rest : Text) : IsInner (t ++ "/" ++ rest) := by
  obtain ⟨hanchor, hsegments⟩ := h
  constructor
  · refine anchor_slash ?_ hanchor rest
    rintro rfl
    exact hsegments rfl
  · rw [segments_slash]
    exact fun hnil => hsegments (List.append_eq_nil_iff.mp hnil).1

lemma isInner_joinWith {names : List Text} (hnames : names ≠ []) (h : ∀ name ∈ names, IsSegment name) :
    IsInner (Text.joinWith "/" names) :=
  ⟨anchor_joinWith h, by rwa [segments_joinWith h]⟩

end Path

open PackageExports.Path (IsSegment IsClean IsInner)
open FileSystem (IsName)

/-- A relative path that has only names between its slashes, apart from one `./` in front. -/
def Relative.IsProper (path : Text) : Prop :=
  ∀ name ∈ Text.splitOn '/' (bare path), IsName name

instance (path : Text) : Decidable (Relative.IsProper path) :=
  inferInstanceAs (Decidable (∀ _ ∈ _, _))

/-- A relative path that has only segments between its slashes, apart from one `./` in front. -/
def Relative.IsTidy (path : Text) : Prop :=
  ∀ segment ∈ Text.splitOn '/' (bare path), IsSegment segment

instance (path : Text) : Decidable (Relative.IsTidy path) :=
  inferInstanceAs (Decidable (∀ _ ∈ _, _))

namespace Relative

variable {path : Text}

lemma IsProper.isSegment (h : IsProper path) : ∀ name ∈ Text.splitOn '/' (bare path), IsSegment name :=
  fun name hname => Path.isSegment_of_isName (h name hname)

lemma IsTidy.ofText (h : IsTidy path) : Path.ofText path = ⟨.relative, Text.splitOn '/' (bare path)⟩ := by
  have hsegments : (Path.ofText path).segments = Text.splitOn '/' (bare path) := by
    rw [← segments_bare]
    exact Path.filter_segments h
  have hanchor : (Path.ofText path).anchor = .relative := by
    rw [Path.anchor_eq_relative]
    intro hslash
    cases path with
    | nil => cases hslash
    | cons c rest =>
      obtain rfl := Option.some.inj hslash
      exact (h [] List.mem_cons_self).1 rfl
  rw [← hsegments, ← hanchor]

end Relative

namespace Probe

variable {fs after : FileSystem} {package root p : Path} {base path : Text} {extensions : List Text}

/-- A path that is tried for `base`. -/
def Tried (base : Text) (extensions : List Text) (p : Path) : Prop :=
  ∃ extension ∈ extensions, p = withExtension base extension ∨ p = indexWith base extension

lemma tried_iff :
    Tried base extensions p ↔
      p ∈ extensions.flatMap fun extension => [withExtension base extension, indexWith base extension] := by
  simp only [Tried, List.mem_flatMap, List.mem_cons, List.not_mem_nil, or_false]

lemma tried_of_fileOrIndex? (h : fileOrIndex? fs base extensions = some p) : Tried base extensions p :=
  tried_iff.mpr (List.mem_of_find?_eq_some h)

lemma isFile_of_fileOrIndex? (h : fileOrIndex? fs base extensions = some p) : fs.isFile p.text = true :=
  List.find?_some (p := fun file : Path => fs.isFile file.text) h

lemma fileOrIndex?_eq_none :
    fileOrIndex? fs base extensions = none ↔ ∀ p, Tried base extensions p → fs.isFile p.text ≠ true := by
  simp only [fileOrIndex?, firstFile?, List.find?_eq_none, tried_iff]

lemma fileOrIndex?_append (fs : FileSystem) (base : Text) (extensions others : List Text) :
    fileOrIndex? fs base (extensions ++ others) =
      (fileOrIndex? fs base extensions).or (fileOrIndex? fs base others) := by
  rw [fileOrIndex?, firstFile?, List.flatMap_append, List.find?_append]
  rfl

lemma firstFile?_map_eq_none {candidate : Text → Path} :
    firstFile? fs (extensions.map candidate) = none ↔
      ∀ extension ∈ extensions, ¬fs.isFile (candidate extension).text = true := by
  rw [firstFile?, List.find?_eq_none]
  exact List.forall_mem_map

lemma withExtensions?_of_first {before : List Text} {extension : Text}
    (hbefore : ∀ other ∈ before, ¬fs.isFile (withExtension base other).text = true)
    (hfile : fs.isFile (withExtension base extension).text = true) (after : List Text) :
    withExtensions? fs base (before ++ extension :: after) = some (withExtension base extension) := by
  have hnone : firstFile? fs (before.map (withExtension base)) = none := firstFile?_map_eq_none.mpr hbefore
  rw [firstFile?] at hnone
  rw [withExtensions?, firstFile?, List.map_append, List.find?_append, hnone, Option.none_or]
  exact List.find?_cons_of_pos (p := fun p : Path => fs.isFile p.text) hfile

/-- The only file among what is tried is found. -/
lemma fileOrIndex?_of_unique (htried : Tried base extensions p) (hfile : fs.isFile p.text = true)
    (hunique : ∀ q, Tried base extensions q → fs.isFile q.text = true → q = p) :
    fileOrIndex? fs base extensions = some p := by
  cases hfound : fileOrIndex? fs base extensions with
  | none => exact absurd hfile (fileOrIndex?_eq_none.mp hfound p htried)
  | some q => rw [hunique q (tried_of_fileOrIndex? hfound) (isFile_of_fileOrIndex? hfound)]

lemma tried_of_fileBeforeIndex? (h : fileBeforeIndex? fs base extensions = some p) : Tried base extensions p := by
  unfold fileBeforeIndex? at h
  split at h
  · rename_i found hfound
    obtain rfl := Option.some.inj h
    obtain ⟨extension, hextension, rfl⟩ := List.mem_map.mp (List.mem_of_find?_eq_some hfound)
    exact ⟨extension, hextension, .inl rfl⟩
  · obtain ⟨-, hfound⟩ := Option.ite_none_right_eq_some.mp h
    obtain ⟨extension, hextension, rfl⟩ := List.mem_map.mp (List.mem_of_find?_eq_some hfound)
    exact ⟨extension, hextension, .inr rfl⟩

lemma isFile_of_fileBeforeIndex? (h : fileBeforeIndex? fs base extensions = some p) : fs.isFile p.text = true := by
  unfold fileBeforeIndex? at h
  split at h
  · rename_i found hfound
    obtain rfl := Option.some.inj h
    exact List.find?_some (p := fun file : Path => fs.isFile file.text) hfound
  · obtain ⟨-, hfound⟩ := Option.ite_none_right_eq_some.mp h
    exact List.find?_some (p := fun file : Path => fs.isFile file.text) hfound

lemma fileOrIndex?_congr (h : ∀ p, Tried base extensions p → after.isFile p.text = fs.isFile p.text) :
    fileOrIndex? after base extensions = fileOrIndex? fs base extensions :=
  List.find?_congr fun p hp => h p (tried_iff.mpr hp)

lemma fileBeforeIndex?_congr (h : ∀ p, Tried base extensions p → after.isFile p.text = fs.isFile p.text)
    (hdirectory : ∀ extension ∈ extensions, fs.isFile (indexWith base extension).text = true →
      after.isDirectory base = fs.isDirectory base) :
    fileBeforeIndex? after base extensions = fileBeforeIndex? fs base extensions := by
  have hplain : withExtensions? after base extensions = withExtensions? fs base extensions := by
    refine List.find?_congr fun p hp => ?_
    obtain ⟨extension, hextension, rfl⟩ := List.mem_map.mp hp
    exact h _ ⟨extension, hextension, .inl rfl⟩
  have hindex : firstFile? after (extensions.map (indexWith base)) =
      firstFile? fs (extensions.map (indexWith base)) := by
    refine List.find?_congr fun p hp => ?_
    obtain ⟨extension, hextension, rfl⟩ := List.mem_map.mp hp
    exact h _ ⟨extension, hextension, .inr rfl⟩
  have hbelow : indexFile? after base extensions = indexFile? fs base extensions := by
    rw [indexFile?, indexFile?, hindex]
    cases hfound : firstFile? fs (extensions.map (indexWith base)) with
    | none => rw [ite_self, ite_self]
    | some p =>
      obtain ⟨extension, hextension, rfl⟩ := List.mem_map.mp (List.mem_of_find?_eq_some hfound)
      rw [hdirectory extension hextension (List.find?_some (p := fun file : Path => fs.isFile file.text) hfound)]
  rw [fileBeforeIndex?, fileBeforeIndex?, hplain, hbelow]

/-- The names that lead to what is tried for `base`, from where it is seen. -/
def NamesTried (base : Text) (extensions names : List Text) : Prop :=
  ∃ extension ∈ extensions, names = (Path.ofText base).segments ++ ["index" ++ extension] ∨
    ∃ front last, (Path.ofText base).segments = front ++ [last] ∧ names = front ++ [last ++ extension]

section Clean

variable {top : Path} (htop : top.IsClean) {extension : Text} (hslash : CodePoint.ofChar '/' ∉ extension)

include htop hslash

lemma withExtension_text {front : List Text} {last : Text} (hlast : top.segments = front ++ [last]) :
    withExtension top.text extension = ⟨top.anchor, front ++ [last ++ extension]⟩ := by
  have hnames := htop
  rw [IsClean, hlast] at hnames
  obtain ⟨hfront, hsegment⟩ := List.forall_mem_append.mp hnames
  have hadded : IsClean ⟨top.anchor, front ++ [last ++ extension]⟩ :=
    Path.isSegment_concat hfront (hsegment last (List.mem_singleton_self last)) hslash
  rw [withExtension, Path.text_append hlast, Path.ofText_text hadded]

lemma indexWith_text : indexWith top.text extension = ⟨top.anchor, top.segments ++ ["index" ++ extension]⟩ := by
  rw [indexWith, Path.ofText_text htop]
  exact Path.div_index top hslash

end Clean

section Below

variable (hpackage : package.IsClean) (hanchor : (Path.ofText base).anchor = .relative) {extension : Text}
  (hslash : CodePoint.ofChar '/' ∉ extension)

include hpackage hanchor hslash

lemma withExtension_below {front : List Text} {last : Text} (hlast : (Path.ofText base).segments = front ++ [last]) :
    withExtension (package / base).text extension =
      ⟨package.anchor, package.segments ++ (front ++ [last ++ extension])⟩ := by
  have hjoin := Path.joinText_eq package hanchor
  have hall : (package / base).segments = (package.segments ++ front) ++ [last] := by
    rw [hjoin, hlast, List.append_assoc]
  rw [withExtension_text (Path.isClean_joinText hpackage hanchor) hslash hall, hjoin, List.append_assoc]

lemma indexWith_below :
    indexWith (package / base).text extension =
      ⟨package.anchor, package.segments ++ ((Path.ofText base).segments ++ ["index" ++ extension])⟩ := by
  rw [indexWith_text (Path.isClean_joinText hpackage hanchor) hslash, Path.joinText_eq package hanchor,
    List.append_assoc]

end Below

/-- What is tried for a path that leads down from a clean package. -/
lemma Tried.names (hpackage : package.IsClean) (hbase : IsInner base)
    (hextensions : ∀ e ∈ extensions, CodePoint.ofChar '/' ∉ e) (h : Tried (package / base).text extensions p) :
    ∃ names, NamesTried base extensions names ∧ p = ⟨package.anchor, package.segments ++ names⟩ := by
  obtain ⟨hanchor, hsegments⟩ := hbase
  obtain ⟨extension, hextension, hp⟩ := h
  have hslash := hextensions extension hextension
  obtain ⟨front, last, hlast⟩ := (List.eq_nil_or_concat' (Path.ofText base).segments).resolve_left hsegments
  rcases hp with rfl | rfl
  · exact ⟨_, ⟨extension, hextension, .inr ⟨front, last, hlast, rfl⟩⟩,
      withExtension_below hpackage hanchor hslash hlast⟩
  · exact ⟨_, ⟨extension, hextension, .inl rfl⟩, indexWith_below hpackage hanchor hslash⟩

lemma NamesTried.tried {names : List Text} (h : NamesTried base extensions names) (hpackage : package.IsClean)
    (hanchor : (Path.ofText base).anchor = .relative) (hextensions : ∀ e ∈ extensions, CodePoint.ofChar '/' ∉ e) :
    Tried (package / base).text extensions ⟨package.anchor, package.segments ++ names⟩ := by
  obtain ⟨extension, hextension, rfl | ⟨front, last, hlast, rfl⟩⟩ := h
  · exact ⟨extension, hextension, .inr (indexWith_below hpackage hanchor (hextensions _ hextension)).symm⟩
  · exact ⟨extension, hextension, .inl (withExtension_below hpackage hanchor (hextensions _ hextension) hlast).symm⟩

lemma Tried.below (hpackage : package.IsClean) (hbase : IsInner base)
    (hextensions : ∀ e ∈ extensions, CodePoint.ofChar '/' ∉ e) (h : Tried (package / base).text extensions p) :
    ∃ rest, p = ⟨package.anchor, package.segments ++ rest⟩ := by
  obtain ⟨names, -, hp⟩ := h.names hpackage hbase hextensions
  exact ⟨names, hp⟩

lemma names_of_foundFrom (hroot : root.IsClean) (hbase : IsInner base)
    (hextensions : ∀ e ∈ extensions, CodePoint.ofChar '/' ∉ e) {file : Text}
    (h : SearchPlan.foundFrom root (fileOrIndex? fs (root / base).text extensions) = .ok (some file)) :
    ∃ names, NamesTried base extensions names ∧ file = Path.text ⟨.relative, names⟩ := by
  obtain ⟨p, hfound, hseen⟩ := SearchPlan.foundFrom_eq_some.mp h
  obtain ⟨names, hnames, rfl⟩ := (tried_of_fileOrIndex? hfound).names hroot hbase hextensions
  rw [Path.seenFrom_below] at hseen
  exact ⟨names, hnames, (Except.ok.inj hseen).symm⟩

lemma exists_foundFrom {found : Option Path} (h : ∀ p ∈ found, ∃ rest, p = ⟨package.anchor, package.segments ++ rest⟩) :
    ∃ seen, SearchPlan.foundFrom package found = .ok seen := by
  cases found with
  | none => exact ⟨none, rfl⟩
  | some p =>
    obtain ⟨rest, rfl⟩ := h p rfl
    rw [SearchPlan.foundFrom, Path.seenFrom_below]
    exact ⟨_, rfl⟩

lemma fileOrIndex?_of_isFile (hpackage : package.IsClean) {names : List Text} (hnames : ∀ name ∈ names, IsSegment name)
    (hfile : fs.isFile (package / Text.joinWith "/" names).text = true) (rest : List Text) :
    fileOrIndex? fs (package / Text.joinWith "/" names).text ([] :: rest) = some (package / Text.joinWith "/" names) := by
  have hclean := Path.isClean_joinText hpackage (Path.anchor_joinWith hnames)
  rw [fileOrIndex?, List.flatMap_cons, List.cons_append, withExtension, List.append_nil, Path.ofText_text hclean]
  exact List.find?_cons_of_pos hfile

end Probe

namespace Expansion

variable (fs : FileSystem) {package : Path}

lemma exists_resolve? (hpackage : package.IsClean) {base : Text} (hbase : IsInner base) {extensions : List Text}
    (hextensions : ∀ e ∈ extensions, CodePoint.ofChar '/' ∉ e) :
    ∃ file, resolve? fs package extensions base = .ok file := by
  unfold resolve?
  split_ifs
  · exact ⟨none, rfl⟩
  · obtain ⟨seen, hseen⟩ := Probe.exists_foundFrom fun p hp =>
      (Probe.tried_of_fileOrIndex? hp).below hpackage hbase hextensions
    rw [hseen]
    exact ⟨_, rfl⟩

lemma resolve?_of_isFile {fs : FileSystem} (hpackage : package.IsClean) {names : List Text} (hnames : names ≠ [])
    (hsegments : ∀ name ∈ names, IsSegment name) (hfile : fs.isFile (package / Text.joinWith "/" names).text = true)
    (rest : List Text) :
    resolve? fs package ([] :: rest) (Text.joinWith "/" names) = .ok (some ("./" ++ Text.joinWith "/" names)) := by
  have hjoin := Path.joinText_eq package (Path.anchor_joinWith hsegments)
  have hfirst := Probe.fileOrIndex?_of_isFile hpackage hsegments hfile rest
  have hne : (Text.joinWith "/" names).isEmpty = false := by
    rw [List.isEmpty_eq_false_iff]
    intro hnil
    have hempty := Path.segments_joinWith hsegments
    rw [hnil] at hempty
    exact hnames hempty.symm
  have htext : Path.text ⟨.relative, names⟩ = Text.joinWith "/" names := if_neg (by simp [hnames])
  rw [resolve?, hne, hfirst, hjoin, SearchPlan.foundFrom, Path.seenFrom_below, Path.segments_joinWith hsegments, htext]
  rfl

lemma joinWith_of_segments {names : List Text} (hnames : names ≠ []) (h : ∀ name ∈ names, IsSegment name) :
    Text.joinWith "/" names ≠ [] ∧ Text.joinWith "/" names ≠ "." := by
  have hsegments := Path.segments_joinWith h
  constructor
  · intro hnil
    rw [hnil] at hsegments
    exact hnames hsegments.symm
  · intro hdot
    rw [hdot] at hsegments
    exact hnames hsegments.symm

lemma resolve?_of_isTidy {fs : FileSystem} (hpackage : package.IsClean) {path : Text}
    (hpath : Relative.IsTidy path) (hfile : fs.isFile (package / path).text = true) :
    resolve? fs package extensions (Relative.bare path) = .ok (some (Relative.dotted path)) := by
  have hnames := Text.splitOn_ne_nil (CodePoint.ofChar '/') (Relative.bare path)
  have hjoin : package / path = package / Text.joinWith "/" (Text.splitOn '/' (Relative.bare path)) := by
    rw [Path.joinText_eq package (by rw [hpath.ofText]), Path.joinText_eq package (Path.anchor_joinWith hpath),
      hpath.ofText, Path.segments_joinWith hpath]
  rw [hjoin] at hfile
  have hfound := resolve?_of_isFile hpackage hnames hpath hfile [".js", ".mjs", ".cjs"]
  rw [Text.joinWith_splitOn, ← Relative.dotted_eq] at hfound
  exact hfound

end Expansion

namespace SourceFile

variable (fs : FileSystem) {package : Path}

lemma dropCompiled_start (path : Text) :
    ∃ stem, Relative.dropCompiled ("./" ++ path) = "./" ++ stem ∧ stem <+: path := by
  unfold Relative.dropCompiled
  cases hcut : Relative.cutExtension? Relative.compiledExtensions ("./" ++ path) with
  | none => exact ⟨path, rfl, List.prefix_rfl⟩
  | some cut =>
    obtain ⟨extension, hextension, hsome⟩ := List.exists_of_findSome?_eq_some hcut
    have hslash : ∀ e ∈ Relative.compiledExtensions, CodePoint.ofChar '/' ∉ e := by decide
    unfold Text.dropEnd? at hsome
    split_ifs at hsome with hend
    · dsimp only at hsome
      split_ifs at hsome
      obtain rfl := Option.some.inj hsome
      have hsuffix : extension <:+ [CodePoint.ofChar '.'] ++ CodePoint.ofChar '/' :: path :=
        List.isSuffixOf_iff_suffix.mp hend
      obtain ⟨stem, rfl⟩ := Text.suffix_of_suffix_append (hslash extension hextension) hsuffix
      refine ⟨stem, ?_, List.prefix_append _ _⟩
      dsimp only
      rw [← List.append_assoc, List.length_append, Nat.add_sub_cancel, List.take_left]

lemma segmentPairs_spec : ∀ pair ∈ segmentPairs, ∃ output source : Text,
    pair = ("/" ++ output ++ "/", "/" ++ source ++ "/") ∧ IsName source ∧ IsName output ∧ output ≠ source := by
  intro pair hpair
  rcases List.mem_cons.mp hpair with rfl | hpair
  · exact ⟨"lib", "src", rfl, by decide, by decide, by decide⟩
  rcases List.mem_cons.mp hpair with rfl | hpair
  · exact ⟨"dist", "src", rfl, by decide, by decide, by decide⟩
  rcases List.mem_cons.mp hpair with rfl | hpair
  · exact ⟨"build", "source", rfl, by decide, by decide, by decide⟩
  · obtain rfl := List.mem_singleton.mp hpair
    exact ⟨"out", "src", rfl, by decide, by decide, by decide⟩

/-- A segment that is replaced leaves a path in the package. -/
lemma isInner_replaced {stem build source replaced : Text} (hhead : stem.head? ≠ some (CodePoint.ofChar '/'))
    (hsource : IsSegment source)
    (h : Text.replaceFirst? ("/" ++ build ++ "/") ("/" ++ source ++ "/") ("./" ++ stem) = some replaced) :
    IsInner (Relative.bare replaced) := by
  obtain ⟨before, after, hsplit, rfl⟩ := Text.replaceFirst?_eq_some h
  have hstart : ("./" : Text) ++ stem = CodePoint.ofChar '.' :: CodePoint.ofChar '/' :: stem := rfl
  rw [hstart] at hsplit
  have hmem : source ∈ (Path.ofText (before ++ ("/" ++ source ++ "/") ++ after)).segments := by
    have hslashes : before ++ ("/" ++ source ++ "/") ++ after = before ++ "/" ++ (source ++ "/" ++ after) := by
      simp only [List.append_assoc]
    rw [hslashes, Path.segments_slash, Path.segments_slash, Path.ofText_of_isSegment hsource]
    simp
  constructor
  · rw [Path.anchor_eq_relative]
    match before with
    | [] =>
      obtain ⟨hfirst, -⟩ := List.cons.inj hsplit
      exact absurd hfirst (by decide)
    | [c] =>
      obtain ⟨rfl, -⟩ := List.cons.inj hsplit
      have hbare := Relative.bare_start (source ++ "/" ++ after)
      obtain ⟨hne, -, hslash⟩ := hsource
      obtain ⟨d, chars, rfl⟩ := List.exists_cons_of_ne_nil hne
      have hreplaced : [CodePoint.ofChar '.'] ++ ("/" ++ (d :: chars) ++ "/") ++ after =
          "./" ++ ((d :: chars) ++ "/" ++ after) := by
        simp only [List.append_assoc]
        rfl
      rw [hreplaced, hbare]
      intro hd
      exact hslash (Option.some.inj hd ▸ List.mem_cons_self)
    | c :: d :: before =>
      obtain ⟨rfl, htail⟩ := List.cons.inj hsplit
      obtain ⟨rfl, hstem⟩ := List.cons.inj htail
      have hbare := Relative.bare_start (before ++ ("/" ++ source ++ "/") ++ after)
      have hreplaced : CodePoint.ofChar '.' :: CodePoint.ofChar '/' :: before ++ ("/" ++ source ++ "/") ++ after =
          "./" ++ (before ++ ("/" ++ source ++ "/") ++ after) := rfl
      rw [hreplaced, hbare]
      cases before with
      | nil =>
        have hslash : stem.head? = some (CodePoint.ofChar '/') := congrArg List.head? hstem
        exact absurd hslash hhead
      | cons e before =>
        have hfirst : stem.head? = some e := congrArg List.head? hstem
        rw [hfirst] at hhead
        exact hhead
  · rw [Relative.segments_bare]
    exact List.ne_nil_of_mem hmem

/-- The source of a path may be where one of its segments is replaced, or where the path without its build directory is
below a source directory. -/
lemma candidates_cases {path base : Text} {sources builds : List Text}
    (h : base ∈ candidates ("./" ++ path) sources builds) :
    ∃ stem, Relative.dropCompiled ("./" ++ path) = "./" ++ stem ∧ stem <+: path ∧
      ((∃ output source replaced, IsName source ∧
          Text.replaceFirst? ("/" ++ output ++ "/") ("/" ++ source ++ "/") ("./" ++ stem) = some replaced ∧
          base = Relative.bare replaced) ∨
        ∃ directory ∈ sources, base = directory ++ "/" ++ dropBuildDirectory builds stem) := by
  obtain ⟨stem, hdrop, hinitial⟩ := dropCompiled_start path
  refine ⟨stem, hdrop, hinitial, ?_⟩
  unfold candidates at h
  rw [Relative.dotted_eq, Relative.bare_start, hdrop] at h
  rcases List.mem_append.mp h with hreplaced | hplain
  · obtain ⟨pair, hpair, hsome⟩ := List.mem_filterMap.mp hreplaced
    obtain ⟨output, source, rfl, hsource, -⟩ := segmentPairs_spec pair hpair
    obtain ⟨replaced, hfound, rfl⟩ := Option.map_eq_some_iff.mp hsome
    exact .inl ⟨output, source, replaced, hsource, hfound, rfl⟩
  · rw [Relative.bare_start] at hplain
    split_ifs at hplain
    · exact absurd hplain List.not_mem_nil
    · obtain ⟨directory, hdirectory, rfl⟩ := List.mem_map.mp hplain
      exact .inr ⟨directory, hdirectory, rfl⟩

lemma isInner_candidates_of {path : Text} (hpath : path.head? ≠ some (CodePoint.ofChar '/')) {sources builds : List Text}
    (hsources : ∀ directory ∈ sources, IsInner
      (directory ++ "/" ++ dropBuildDirectory builds (Relative.bare (Relative.dropCompiled ("./" ++ path))))) :
    ∀ base ∈ candidates ("./" ++ path) sources builds, IsInner base := by
  intro base hbase
  obtain ⟨stem, hdrop, hinitial, hcases⟩ := candidates_cases hbase
  rcases hcases with ⟨output, source, replaced, hsource, hfound, rfl⟩ | ⟨directory, hdirectory, rfl⟩
  · refine isInner_replaced ?_ (Path.isSegment_of_isName hsource) hfound
    intro hslash
    obtain ⟨rest, rfl⟩ := hinitial
    rw [List.head?_append, hslash] at hpath
    exact hpath rfl
  · have hplace := hsources directory hdirectory
    rwa [hdrop, Relative.bare_start] at hplace

lemma isInner_candidates {path : Text} (hpath : path.head? ≠ some (CodePoint.ofChar '/')) {sources : List Text}
    (hsources : ∀ directory ∈ sources, IsInner directory) (builds : List Text) :
    ∀ base ∈ candidates ("./" ++ path) sources builds, IsInner base :=
  isInner_candidates_of hpath fun directory hdirectory => (hsources directory hdirectory).append _

lemma exists_firstSource? (hpackage : package.IsClean) {bases : List Text} (hinner : ∀ base ∈ bases, IsInner base) :
    ∃ source, firstSource? fs package bases = .ok source := by
  rw [firstSource?_eq]
  refine exists_findSomeM? fun base hbase => ?_
  have hbelow : ∀ p ∈ Probe.fileBeforeIndex? fs (package / base).text extensions,
      ∃ rest, p = ⟨package.anchor, package.segments ++ rest⟩ := by
    intro p hp
    exact (Probe.tried_of_fileBeforeIndex? hp).below hpackage (hinner base hbase) (by decide)
  obtain ⟨seen, hseen⟩ := Probe.exists_foundFrom hbelow
  exact ⟨_, map_ok_iff.mpr ⟨seen, hseen, rfl⟩⟩

theorem exists_find? (hpackage : package.IsClean) {path : Text} (hpath : path.head? ≠ some (CodePoint.ofChar '/'))
    {sources : List Text} (hsources : ∀ directory ∈ sources, IsInner directory) (builds : List Text) :
    ∃ source, find? fs package ("./" ++ path) sources builds = .ok source :=
  exists_firstSource? fs hpackage (isInner_candidates hpath hsources builds)

end SourceFile

end PackageExports
