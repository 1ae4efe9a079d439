import PackageExports.Proofs.AddedFiles
import PackageExports.Proofs.Confinement
import PackageExports.Proofs.SourceDirectories

/-!
# Predictions that come true

If there is a source for a path and no file in the build directories, the targets of the path are the files to which the
source will be compiled. Once these are there, the same targets are found in the build directories: of all that is tried
for the path, only the compiled file is new. What may fail then is the look for its source, if that is to be in a
directory with an absolute path.

Main results: `Probe.fileOrIndex?_of_added`, `EntryRequest.prediction_names`, `EntryRequest.prediction_confirmed`.
-/

namespace PackageExports

open FileSystem (IsName FilesAdded HoldsTree)
open PackageExports.Path (IsSegment IsClean IsInner)

/-- The package itself or a row of names, in either case without the extension of a compiled file. -/
def Relative.IsPlain (path : Text) : Prop :=
  (path = "." ∨ IsProper path) ∧ ∀ extension ∈ compiledExtensions, Text.endsWith path extension = false

instance (path : Text) : Decidable (Relative.IsPlain path) :=
  inferInstanceAs (Decidable (_ ∧ _))

def Relative.scriptExtensions : List Text :=
  [".js", ".mjs", ".cjs"]

/-- The path of a file of a package by its names. -/
def Relative.ofNames (names : List Text) : Text :=
  "./" ++ Text.joinWith "/" names

/-! ### Names with extensions -/

namespace Relative

variable {front names : List Text} {last t : Text} {extensions : List Text}

lemma suffix_bare (path : Text) : bare path <:+ path := by
  rw [bare]
  cases hdrop : Text.dropStart? "./" path with
  | none => exact List.suffix_rfl
  | some rest =>
    rw [Text.dropStart?_eq_some.mp hdrop]
    exact List.suffix_append _ _

lemma bare_joinWith (h : ∀ name ∈ names, IsSegment name) : bare (Text.joinWith "/" names) = Text.joinWith "/" names := by
  rcases eq_or_ne names [] with rfl | hnames
  · rfl
  have hsplit := Text.splitOn_joinWith hnames fun name hname => (h name hname).2.2
  have hnone : Text.dropStart? "./" (Text.joinWith "/" names) = none := by
    rw [Option.eq_none_iff_forall_ne_some]
    intro rest hrest
    have hpoint : Text.splitOn '/' ("./" ++ rest) = Text.ofString "." :: Text.splitOn '/' rest :=
      Text.splitOn_append '/' "." rest
    rw [Text.dropStart?_eq_some.mp hrest, hpoint] at hsplit
    exact (h "." (hsplit ▸ List.mem_cons_self)).2.1 rfl
  rw [bare, hnone]
  rfl

lemma bare_of_splitOn {t : Text} (h : ∀ segment ∈ Text.splitOn '/' t, IsSegment segment) : bare t = t := by
  have hjoined := bare_joinWith h
  rwa [Text.joinWith_splitOn] at hjoined

lemma ofText_ofNames (h : ∀ name ∈ names, IsSegment name) : Path.ofText (ofNames names) = ⟨.relative, names⟩ := by
  have hsegments : (Path.ofText (ofNames names)).segments = names := by
    rw [ofNames, ← segments_bare, bare_start, Path.segments_joinWith h]
  have hanchor : (Path.ofText (ofNames names)).anchor = .relative :=
    Path.anchor_eq_relative.mpr fun hslash => absurd (Option.some.inj hslash) (by decide)
  exact congrArg₂ Path.mk hanchor hsegments

lemma ofNames_append (directory : Text) (front : List Text) (last rest : Text) :
    "./" ++ directory ++ "/" ++ Text.joinWith "/" (front ++ [last]) ++ rest =
      ofNames (directory :: front ++ [last ++ rest]) := by
  rw [ofNames, ← Text.joinWith_concat_append, List.cons_append, Text.joinWith_cons _ _ (by simp)]
  simp only [List.append_assoc]

lemma cutExtension?_other (t : Text) {other : Text} (h : ∀ e ∈ extensions, ¬e <:+ other ∧ ¬other <:+ e) :
    cutExtension? extensions (t ++ other) = none := by
  rw [cutExtension?, List.findSome?_eq_none_iff]
  intro e he
  rw [Text.dropEnd?_other t (h e he)]

lemma dropCompiled_script (h : t ≠ []) {extension : Text} (hextension : extension ∈ scriptExtensions) :
    dropCompiled (t ++ extension) = t := by
  have hothers : ∀ script ∈ scriptExtensions, script ∈ compiledExtensions ∧
      ∀ e ∈ compiledExtensions, e ≠ script → ¬e <:+ script ∧ ¬script <:+ e := by decide
  obtain ⟨hmem, hother⟩ := hothers extension hextension
  unfold dropCompiled
  cases hcut : cutExtension? compiledExtensions (t ++ extension) with
  | none =>
    have hnone := List.findSome?_eq_none_iff.mp hcut extension hmem
    rw [Text.dropEnd?_append] at hnone
    exact absurd hnone (by simpa using h)
  | some cut =>
    obtain ⟨he, hwhole, -⟩ := cutExtension?_spec hcut
    have hsame : cut.2 = extension := by
      by_contra hne
      exact Text.not_suffix_append t (hother cut.2 he hne) ⟨cut.1, hwhole.symm⟩
    rw [hsame] at hwhole
    exact (List.append_cancel_right hwhole).symm

lemma splitExtension_script (hlast : IsSegment last) :
    (splitExtension (Text.joinWith "/" (front ++ [last ++ ".js"]))).1 = Text.joinWith "/" (front ++ [last]) := by
  have hslash : CodePoint.ofChar '/' ∉ last ++ ".js" := (hlast.append (by decide)).2.2
  have hpoint : Text.splitAtLast? '.' (last ++ ".js") = some (last, Text.ofString "js") :=
    Text.splitAtLast?_eq_some.mpr ⟨rfl, by decide⟩
  rw [splitExtension, Written.cutAtLastSlash_joinWith front hslash]
  dsimp only
  rw [cutExtension?_other last (by decide), hpoint]
  dsimp only
  rw [if_neg (by simpa using hlast.1)]
  exact Text.joinWith_concat_append front [] last

end Relative

namespace Declaration

variable {fs : FileSystem} {package : Path} {front : List Text} {last : Text}

lemma beside?_script (hfront : ∀ name ∈ front, IsSegment name) (hlast : IsSegment last)
    (hfile : fs.isFile (package / Relative.ofNames (front ++ [last ++ ".d.ts"])).text = true) :
    beside? fs package (Text.joinWith "/" (front ++ [last ++ ".js"])) =
      some (Relative.ofNames (front ++ [last ++ ".d.ts"])) := by
  have hend : Text.endsWith (Text.joinWith "/" (front ++ [last ++ ".js"])) ".d.ts" = false := by
    rw [← Text.joinWith_concat_append, Text.endsWith, Bool.eq_false_iff, Ne, List.isSuffixOf_iff_suffix]
    exact Text.not_suffix_append _ (by decide)
  have hname : fileName (Relative.splitExtension (Text.joinWith "/" (front ++ [last ++ ".js"]))).1 =
      Text.joinWith "/" (front ++ [last ++ ".d.ts"]) := by
    rw [Relative.splitExtension_script hlast, fileName, Text.joinWith_concat_append]
  have hsegments : ∀ name ∈ front ++ [last ++ ".d.ts"], IsSegment name :=
    Path.isSegment_concat hfront hlast (by decide)
  have hjoin : package / Relative.ofNames (front ++ [last ++ ".d.ts"]) =
      package / Text.joinWith "/" (front ++ [last ++ ".d.ts"]) := by
    rw [Path.joinText_eq package (by rw [Relative.ofText_ofNames hsegments]),
      Path.joinText_eq package (Path.anchor_joinWith hsegments), Relative.ofText_ofNames hsegments,
      Path.segments_joinWith hsegments]
  rw [beside?, Relative.bare_joinWith (Path.isSegment_concat hfront hlast (by decide)), hend, if_neg Bool.false_ne_true,
    hname, ← hjoin, if_pos hfile]
  rfl

end Declaration

/-! ### What is tried -/

namespace Probe

variable {fs after : FileSystem} {package : Path} {base : Text} {front names : List Text} {last other : Text}
  {extensions : List Text}

/-- The directory and the name to which extensions are added where `base` is looked for: its own, or those of an index
file in it. -/
inductive Stem (base : Text) : List Text → Text → Prop
  | own {front : List Text} {last : Text} (h : (Path.ofText base).segments = front ++ [last]) : Stem base front last
  | index : Stem base (Path.ofText base).segments "index"

lemma namesTried_iff :
    NamesTried base extensions names ↔
      ∃ front last, Stem base front last ∧ ∃ extension ∈ extensions, names = front ++ [last ++ extension] := by
  constructor
  · rintro ⟨extension, hextension, rfl | ⟨front, last, hlast, rfl⟩⟩
    · exact ⟨_, _, .index, extension, hextension, rfl⟩
    · exact ⟨front, last, .own hlast, extension, hextension, rfl⟩
  · rintro ⟨front, last, hstem, extension, hextension, rfl⟩
    cases hstem with
    | own h => exact ⟨extension, hextension, .inr ⟨front, last, h, rfl⟩⟩
    | index => exact ⟨extension, hextension, .inl rfl⟩

/-- There is one name in each directory. -/
lemma Stem.last_eq (h : Stem base front last) (h' : Stem base front other) : last = other := by
  -- the directory of an index file is longer than that of the path's own name
  have hlength (front : List Text) (name : Text) : front ≠ front ++ [name] := by simp
  cases h with
  | own h =>
    cases h' with
    | own h' => exact List.singleton_inj.mp (List.append_cancel_left (h.symm.trans h'))
    | index => exact absurd h (hlength _ _)
  | index =>
    cases h' with
    | own h' => exact absurd h' (hlength _ _)
    | index => rfl

lemma Stem.isName (h : Stem base front last) (hbase : ∀ name ∈ (Path.ofText base).segments, IsName name) :
    (∀ name ∈ front, IsName name) ∧ IsName last := by
  cases h with
  | own h =>
    rw [h, List.forall_mem_append, List.forall_mem_singleton] at hbase
    exact hbase
  | index => exact ⟨hbase, by decide⟩

lemma Stem.below (h : Stem base front last) {directory : Text} (hdirectory : IsSegment directory) :
    Stem (directory ++ "/" ++ base) (directory :: front) last := by
  have hsegments : (Path.ofText (directory ++ "/" ++ base)).segments = directory :: (Path.ofText base).segments := by
    rw [Path.segments_slash, Path.ofText_of_isSegment hdirectory]
    rfl
  cases h with
  | own h => exact .own (by rw [hsegments, h]; rfl)
  | index => exact hsegments ▸ .index

lemma NamesTried.isName (h : NamesTried base extensions names)
    (hnames : ∀ name ∈ (Path.ofText base).segments, IsName name)
    (hextensions : ∀ e ∈ extensions, CodePoint.ofChar '/' ∉ e) : ∀ name ∈ names, IsName name := by
  obtain ⟨front, last, hstem, extension, hextension, rfl⟩ := namesTried_iff.mp h
  obtain ⟨hfront, hlast⟩ := hstem.isName hnames
  exact Package.isName_append hfront (hlast.append (hextensions extension hextension))

/-- A path at which there was nothing leads to a file that was added, if it is the only one that is tried for the path. -/
theorem fileOrIndex?_of_added {location : Location} {files : List (List Text)}
    (hadded : FilesAdded fs after location files) (htree : fs.HoldsTree location) (hpackage : package.IsClean)
    (hfind : fs.find package.text = .ok location) (hbase : IsInner base)
    (hnames : ∀ name ∈ (Path.ofText base).segments, IsName name)
    (hextensions : ∀ e ∈ extensions, CodePoint.ofChar '/' ∉ e)
    (hnone : fileOrIndex? fs (package / base).text extensions = none) (htried : NamesTried base extensions names)
    (hunique : ∀ other ∈ files, NamesTried base extensions other → other = names)
    (hfile : after.isFile (Path.text ⟨package.anchor, package.segments ++ names⟩) = true) :
    fileOrIndex? after (package / base).text extensions = some ⟨package.anchor, package.segments ++ names⟩ := by
  -- what is tried and is there was added, for before there was nothing
  refine fileOrIndex?_of_unique (htried.tried hpackage hbase.1 hextensions) hfile fun q hq hthere => ?_
  obtain ⟨other, hother, rfl⟩ := hq.names hpackage hbase hextensions
  rcases hadded.isFile_below htree hpackage hfind (hother.isName hnames hextensions) hthere with hnew | hold
  · rw [hunique other hnew hother]
  · exact absurd hold (fileOrIndex?_eq_none.mp hnone _ hq)

end Probe

/-! ### Scripts of a build -/

namespace SourceFile

lemma exists_find?_script (fs : FileSystem) {package : Path} (hpackage : package.IsClean) {sources builds : List Text}
    (hsources : ∀ source ∈ sources, source ≠ [] ∧ (Path.ofText source).anchor = .relative)
    (hbuilds : ∀ directory ∈ builds, CodePoint.ofChar '/' ∉ directory) {directory : Text} (hdirectory : directory ∈ builds)
    {front : List Text} {last : Text} (hfront : ∀ name ∈ directory :: front, IsSegment name) (hlast : IsSegment last) :
    ∃ source, find? fs package (Relative.ofNames (directory :: front ++ [last ++ ".js"])) sources builds =
      .ok source := by
  have hnames : ∀ name ∈ directory :: front ++ [last ++ ".js"], IsSegment name :=
    Path.isSegment_concat hfront hlast (by decide)
  have hhead := Path.anchor_eq_relative.mp (Path.anchor_joinWith hnames)
  have hdrop : Relative.dropCompiled (Relative.ofNames (directory :: front ++ [last ++ ".js"])) =
      "./" ++ (directory ++ "/" ++ Text.joinWith "/" (front ++ [last])) := by
    have hne (t : Text) : Text.ofString "./" ++ t ≠ [] := List.cons_ne_nil _ _
    rw [Relative.ofNames, ← Text.joinWith_concat_append, ← List.append_assoc, Relative.dropCompiled_script (hne _) (by decide),
      List.cons_append, Text.joinWith_cons _ _ (by simp)]
  refine exists_firstSource? fs hpackage (isInner_candidates_of hhead fun source hsource => ?_)
  obtain ⟨hne, hanchor⟩ := hsources source hsource
  obtain ⟨hself, hrest⟩ := List.forall_mem_cons.mp hfront
  rw [← Relative.ofNames, hdrop, Relative.bare_start, dropBuildDirectory_slash hbuilds hself.2.2, if_pos hdirectory]
  refine ⟨Path.anchor_slash hne hanchor _, ?_⟩
  rw [Path.segments_slash,
    Path.segments_joinWith (List.forall_mem_append.mpr ⟨hrest, List.forall_mem_singleton.mpr hlast⟩)]
  simp

end SourceFile

namespace EntryRequest

variable {fs after : FileSystem} {r : EntryRequest} {cs : Conditions} {front : List Text} {directory last : Text}

lemma cutTypeScript?_source (t : Text) {extension : Text} (h : extension ∈ [Text.ofString ".ts", ".tsx"]) :
    cutTypeScript? (t ++ extension) = some (t, []) := by
  rw [List.mem_cons, List.mem_singleton] at h
  unfold cutTypeScript?
  rcases h with rfl | rfl
  · rw [Text.dropEnd?_other t (by decide)]
    dsimp only
    rw [Text.dropEnd?_append]
    rfl
  · rw [Text.dropEnd?_other t (by decide)]
    dsimp only
    rw [Text.dropEnd?_other t (by decide), Text.dropEnd?_append]
    rfl

lemma cutTypeScript?_script (t : Text) {extension : Text} (h : extension ∈ Relative.scriptExtensions) :
    cutTypeScript? (t ++ extension) = none := by
  have hother : ∀ script ∈ Relative.scriptExtensions, ∀ ending ∈ [Text.ofString "\n", ".ts", ".tsx"],
      ¬ending <:+ script ∧ ¬script <:+ ending := by decide
  have hnone (ending : Text) (hending : ending ∈ [Text.ofString "\n", ".ts", ".tsx"]) :
      Text.dropEnd? ending (t ++ extension) = none := Text.dropEnd?_other t (hother extension h ending hending)
  unfold cutTypeScript?
  rw [hnone "\n" (by simp)]
  dsimp only
  rw [hnone ".ts" (by simp), hnone ".tsx" (by simp)]
  rfl

/-- The targets of a script with a declaration beside it. -/
def scriptConditions (row : List Text) (last : Text) (source : Option Text) : Conditions where
  source := source
  types := some (Relative.ofNames (row ++ [last ++ ".d.ts"]))
  otherwise := some (Relative.ofNames (row ++ [last ++ ".js"]))

lemma builtConditions_script (hfront : ∀ name ∈ directory :: front, IsSegment name) (hlast : IsSegment last)
    (htypes : fs.isFile (r.package / Relative.ofNames (directory :: front ++ [last ++ ".d.ts"])).text = true) :
    builtConditions fs r directory (Text.joinWith "/" (front ++ [last ++ ".js"])) =
      (SourceFile.find? fs r.package (Relative.ofNames (directory :: front ++ [last ++ ".js"])) r.sourceDirectories
        r.buildDirectories).map (scriptConditions (directory :: front) last) := by
  have htarget := Relative.ofNames_append directory front last ".js"
  have hbeside := Declaration.beside?_script hfront hlast htypes
  rw [List.append_assoc, Text.joinWith_concat_append] at htarget
  rw [List.cons_append, Text.joinWith_cons _ _ (by simp)] at hbeside
  have hcut : cutTypeScript? (Text.joinWith "/" (front ++ [last ++ ".js"])) = none := by
    rw [← Text.joinWith_concat_append, cutTypeScript?_script _ (by decide)]
  rw [builtConditions, hcut]
  dsimp only
  rw [htarget, hbeside]
  rfl

lemma exactMatch_of_first {relative : Text} {rest : List (Text × Text)} {names : List Text}
    (hroots : r.searchRoots = (directory, relative) :: rest)
    (hfound : Probe.fileOrIndex? fs (r.package / directory / relative).text exactExtensions =
      some ⟨(r.package / directory).anchor, (r.package / directory).segments ++ names⟩) :
    exactMatch fs r = (builtConditions fs r directory (Path.text ⟨.relative, names⟩)).map some := by
  have hbelow : exactMatchBelow fs r directory relative =
      (builtConditions fs r directory (Path.text ⟨.relative, names⟩)).map some := by
    rw [exactMatchBelow, hfound, SearchPlan.foundFrom, Path.seenFrom_below]
    rfl
  rw [exactMatch, hroots, exactMatchIn, hbelow]
  cases builtConditions fs r directory (Path.text ⟨.relative, names⟩) <;> rfl

lemma exactMatch_script {relative : Text} {rest : List (Text × Text)}
    (hroots : r.searchRoots = (directory, relative) :: rest) (hrelative : IsInner relative)
    (hfront : ∀ name ∈ directory :: front, IsSegment name) (hlast : IsSegment last)
    (hfound : Probe.fileOrIndex? fs (r.package / (directory ++ "/" ++ relative)).text exactExtensions =
      some ⟨r.package.anchor, r.package.segments ++ (directory :: front ++ [last ++ ".js"])⟩)
    (htypes : fs.isFile (r.package / Relative.ofNames (directory :: front ++ [last ++ ".d.ts"])).text = true) :
    exactMatch fs r =
      (SourceFile.find? fs r.package (Relative.ofNames (directory :: front ++ [last ++ ".js"])) r.sourceDirectories
        r.buildDirectories).map (fun source => some (scriptConditions (directory :: front) last source)) := by
  have hsegment := Path.ofText_of_isSegment (List.forall_mem_cons.mp hfront).1
  have htop : IsInner directory := by
    rw [IsInner, hsegment]
    exact ⟨rfl, List.cons_ne_nil _ _⟩
  have hplace : Path.mk r.package.anchor (r.package.segments ++ (directory :: front ++ [last ++ ".js"])) =
      ⟨(r.package / directory).anchor, (r.package / directory).segments ++ (front ++ [last ++ ".js"])⟩ := by
    rw [Path.joinText_eq r.package htop.1, hsegment]
    simp
  have htext : Path.text ⟨.relative, front ++ [last ++ ".js"]⟩ = Text.joinWith "/" (front ++ [last ++ ".js"]) :=
    if_neg (by simp)
  rw [← Path.joinText_slash r.package htop hrelative.1, hplace] at hfound
  rw [exactMatch_of_first hroots hfound, htext, builtConditions_script hfront hlast htypes]
  cases SourceFile.find? fs r.package (Relative.ofNames (directory :: front ++ [last ++ ".js"])) r.sourceDirectories
    r.buildDirectories <;> rfl

/-! ### Plain paths -/

lemma cleanPath_of_isPlain (h : Relative.IsPlain r.path) :
    r.cleanPath = "index" ∨ Relative.IsProper r.path ∧ r.cleanPath = Relative.bare r.path := by
  rcases h.1 with hroot | hproper
  · left
    rw [cleanPath, hroot]
    decide
  · exact .inr ⟨hproper, cleanPath_of_isTidy hproper.isSegment⟩

lemma names_of_isPlain (h : Relative.IsPlain r.path) : ∀ name ∈ Text.splitOn '/' r.subpath, IsName name := by
  apply names_subpath
  rcases cleanPath_of_isPlain h with hindex | ⟨hproper, -⟩
  · rw [hindex]
    decide
  · exact names_cleanPath hproper

lemma suffix_of_isPlain (h : Relative.IsPlain r.path) : r.subpath = "index" ∨ r.subpath <:+ r.path := by
  have hclean : r.cleanPath = "index" ∨ r.cleanPath <:+ r.path := by
    rcases cleanPath_of_isPlain h with hindex | ⟨-, hbare⟩
    · exact .inl hindex
    · exact .inr (hbare ▸ Relative.suffix_bare r.path)
  match hnamed : r.namedDirectory with
  | none | some [] => rwa [subpath, hnamed]
  | some (c :: chars) =>
    rcases subpath_of_named hnamed (List.cons_ne_nil _ _) with hindex | hwhole
    · exact .inl hindex
    · have hend : r.subpath <:+ r.cleanPath := hwhole ▸ List.suffix_append _ _
      rcases hclean with hindex | hclean
      · have hslash : CodePoint.ofChar '/' ∈ r.cleanPath := by
          rw [hwhole]
          exact List.mem_append_left _ (List.mem_append_right _ List.mem_cons_self)
        rw [hindex] at hslash
        exact absurd hslash (by decide)
      · exact .inr (hend.trans hclean)

lemma outputStem_of_isPlain (h : Relative.IsPlain r.path) : r.outputStem = r.subpath := by
  have hnone : Relative.cutExtension? Relative.compiledExtensions r.subpath = none := by
    rw [Relative.cutExtension?, List.findSome?_eq_none_iff]
    intro extension hextension
    have hnot : ¬extension <:+ r.subpath := by
      rcases suffix_of_isPlain h with hindex | hend
      · rw [hindex]
        revert extension
        decide
      · intro hsuffix
        have hpath := h.2 extension hextension
        rw [Text.endsWith, List.isSuffixOf_iff_suffix.mpr (hsuffix.trans hend)] at hpath
        cases hpath
    rw [Text.dropEnd?_eq_none.mpr hnot]
  rw [outputStem, Relative.dropCompiled, hnone]

/-- The first place where a path is looked for is the one where it will be built. -/
lemma searchRoots_head (hbuilds : r.buildDirectories = ({} : Settings).buildDirectories) :
    r.outputDirectory ∈ r.buildDirectories ∧ ∃ rest, r.searchRoots = (r.outputDirectory, r.subpath) :: rest := by
  unfold outputDirectory searchRoots subpath
  match hnamed : r.namedDirectory with
  | none | some [] =>
    rw [hbuilds]
    exact ⟨by decide, _, rfl⟩
  | some (c :: chars) => exact ⟨mem_of_namedDirectory hnamed, [], rfl⟩

lemma isName_of_mem (hbuilds : r.buildDirectories = ({} : Settings).buildDirectories)
    (h : directory ∈ r.buildDirectories) : IsName directory := by
  have hall : ∀ directory ∈ ({} : Settings).buildDirectories, IsName directory := by decide
  exact hall directory (hbuilds ▸ h)

lemma names_output (hbuilds : r.buildDirectories = ({} : Settings).buildDirectories) (h : Relative.IsPlain r.path) :
    ∀ name ∈ (Path.ofText (r.outputDirectory ++ "/" ++ r.subpath)).segments, IsName name := by
  have hname := isName_of_mem hbuilds (searchRoots_head hbuilds).1
  rw [Path.segments_slash, Path.ofText_of_isSegment (Path.isSegment_of_isName hname)]
  exact List.forall_mem_cons.mpr ⟨hname, fun name hmem => names_of_isPlain h name (List.mem_of_mem_filter hmem)⟩

/-! ### What a source predicts -/

/-- A prediction comes from the first TypeScript file that is found for the path below a source directory. The targets are
the script with the names of this file in the build directory and the declaration beside it. -/
theorem prediction_places (hpackage : r.package.IsClean) (hstem : IsInner r.outputStem)
    (h : prediction fs r = .ok (some cs)) :
    ∃ directory ∈ r.sourceDirectories, ∃ front last, Probe.Stem r.outputStem front last ∧
      ∃ extension ∈ [Text.ofString ".ts", ".tsx"],
        Probe.fileOrIndex? fs (r.package / directory / r.outputStem).text [".ts", ".tsx"] =
          some ⟨(r.package / directory).anchor, (r.package / directory).segments ++ (front ++ [last ++ extension])⟩ ∧
        cs.source = some (Relative.ofNames (directory :: front ++ [last ++ extension])) ∧
        cs.otherwise = some (Relative.ofNames (r.outputDirectory :: front ++ [last ++ ".js"])) ∧
        cs.types = some (Relative.ofNames (r.outputDirectory :: front ++ [last ++ ".d.ts"])) := by
  obtain ⟨directory, hdirectory, file, hfound, rfl⟩ := predictionIn_eq_some h
  have hroot := Path.isClean_div hpackage directory
  obtain ⟨p, hfile, hseen⟩ := SearchPlan.foundFrom_eq_some.mp hfound
  obtain ⟨names, htried, rfl⟩ := (Probe.tried_of_fileOrIndex? hfile).names hroot hstem (by decide)
  obtain ⟨front, last, hnames, extension, hextension, rfl⟩ := Probe.namesTried_iff.mp htried
  rw [Path.seenFrom_below] at hseen
  obtain rfl := Except.ok.inj hseen
  have htext : Path.text ⟨.relative, front ++ [last ++ extension]⟩ =
      Text.joinWith "/" (front ++ [last]) ++ extension := by
    rw [Text.joinWith_concat_append]
    exact if_neg (by simp)
  refine ⟨directory, hdirectory, front, last, hnames, extension, hextension, hfile, ?_⟩
  rw [predictedConditions, htext, cutTypeScript?_source _ hextension]
  dsimp only
  rw [List.append_nil, ← List.append_assoc, Relative.ofNames_append, Relative.ofNames_append,
    Relative.ofNames_append]
  exact ⟨rfl, rfl, rfl⟩

/-- The targets that are predicted are a script in the build directory and the declaration beside it, named like what is
tried for the path. -/
theorem prediction_names (hpackage : r.package.IsClean) (hstem : IsInner r.outputStem)
    (h : prediction fs r = .ok (some cs)) : ∃ front last, Probe.Stem r.outputStem front last ∧
      cs.otherwise = some (Relative.ofNames (r.outputDirectory :: front ++ [last ++ ".js"])) ∧
      cs.types = some (Relative.ofNames (r.outputDirectory :: front ++ [last ++ ".d.ts"])) := by
  obtain ⟨_, -, front, last, hnames, _, -, -, -, htargets⟩ := prediction_places hpackage hstem h
  exact ⟨front, last, hnames, htargets⟩

/-- Of a script and the declaration beside it, only the script is tried. -/
lemma script_of_tried {base : Text} {names : List Text} (hstem : Probe.Stem base front last)
    (hmem : names ∈ [front ++ [last ++ ".js"], front ++ [last ++ ".d.ts"]])
    (htried : Probe.NamesTried base exactExtensions names) : names = front ++ [last ++ ".js"] := by
  rcases List.mem_cons.mp hmem with hscript | hmem
  · exact hscript
  · -- the declaration would have to be tried under an extension that is none of the exact ones
    exfalso
    obtain ⟨front', last', hstem', extension, hextension, hnames⟩ := Probe.namesTried_iff.mp htried
    obtain ⟨rfl, hlast⟩ := List.append_inj' ((List.mem_singleton.mp hmem).symm.trans hnames) rfl
    rw [hstem.last_eq hstem', List.singleton_inj] at hlast
    rw [← List.append_cancel_left hlast] at hextension
    exact absurd hextension (by decide)

lemma fileOrIndex?_script {base : Location} (hpackage : r.package.IsClean)
    (hbuilds : r.buildDirectories = ({} : Settings).buildDirectories) (hpath : Relative.IsPlain r.path)
    (hfind : fs.find r.package.text = .ok base) (htree : fs.HoldsTree base) (hexact : exactMatch fs r = .ok none)
    (hstem : Probe.Stem r.subpath front last)
    (hadded : FilesAdded fs after base
      [r.outputDirectory :: front ++ [last ++ ".js"], r.outputDirectory :: front ++ [last ++ ".d.ts"]])
    (hfile : after.isFile
      (Path.text ⟨r.package.anchor, r.package.segments ++ (r.outputDirectory :: front ++ [last ++ ".js"])⟩) = true) :
    Probe.fileOrIndex? after (r.package / (r.outputDirectory ++ "/" ++ r.subpath)).text exactExtensions =
      some ⟨r.package.anchor, r.package.segments ++ (r.outputDirectory :: front ++ [last ++ ".js"])⟩ := by
  obtain ⟨hdirectory, rest, hroots⟩ := searchRoots_head hbuilds
  have hname := isName_of_mem hbuilds hdirectory
  have htop : IsInner r.outputDirectory := (Expansion.isDown_of_isName hname).1
  have hbelow := hstem.below (Path.isSegment_of_isName hname)
  have hnone : Probe.fileOrIndex? fs (r.package / (r.outputDirectory ++ "/" ++ r.subpath)).text exactExtensions = none := by
    have hfirst : (r.outputDirectory, r.subpath) ∈ r.searchRoots := by
      rw [hroots]
      exact List.mem_cons_self
    rw [← Path.joinText_slash r.package htop (isInner_of_names (names_of_isPlain hpath)).1]
    exact exactMatchIn_eq_none hexact (r.outputDirectory, r.subpath) hfirst
  exact Probe.fileOrIndex?_of_added hadded htree hpackage hfind (htop.append _) (names_output hbuilds hpath) (by decide)
    hnone (Probe.namesTried_iff.mpr ⟨_, _, hbelow, ".js", by decide, rfl⟩)
    (fun names hmem htried => script_of_tried hbelow hmem htried) hfile

/-- The source of a path tells what the build directories will hold. If nothing is found for the path in the build
directories, and a source predicts targets, then once these two files are there, the build directories give the same
target without a condition and the same types. All that may differ from this is that the look for the source fails, which
it does not if no source directory is empty or absolute. -/
theorem prediction_confirmed {base : Location} (hpackage : r.package.IsClean)
    (hbuilds : r.buildDirectories = ({} : Settings).buildDirectories) (hpath : Relative.IsPlain r.path)
    (hfind : fs.find r.package.text = .ok base) (htree : fs.HoldsTree base) (hexact : exactMatch fs r = .ok none)
    (hpredicted : prediction fs r = .ok (some cs)) :
    ∃ target types, cs.otherwise = some target ∧ cs.types = some types ∧ ∀ after,
      FilesAdded fs after base [(Path.ofText target).segments, (Path.ofText types).segments] →
      after.isFile (r.package / target).text = true → after.isFile (r.package / types).text = true →
        exactMatch after r =
          (SourceFile.find? after r.package target r.sourceDirectories r.buildDirectories).map (fun source =>
            some { source, types := some types, otherwise := some target }) ∧
        ((∀ source ∈ r.sourceDirectories, source ≠ [] ∧ (Path.ofText source).anchor = .relative) →
          ∃ built, exactMatch after r = .ok (some built) ∧ built.otherwise = cs.otherwise ∧ built.types = cs.types) := by
  have hinner := isInner_of_names (names_of_isPlain hpath)
  have hsame := outputStem_of_isPlain hpath
  obtain ⟨hdirectory, rest, hroots⟩ := searchRoots_head hbuilds
  obtain ⟨front, last, hstem, hotherwise, htypes⟩ := prediction_names hpackage (hsame ▸ hinner) hpredicted
  rw [hsame] at hstem
  obtain ⟨hfront, hlast⟩ := (hstem.below (Path.isSegment_of_isName (isName_of_mem hbuilds hdirectory))).isName
    (names_output hbuilds hpath)
  have hrow := fun name hmem => Path.isSegment_of_isName (hfront name hmem)
  have hend := Path.isSegment_of_isName hlast
  have hscript : Path.ofText (Relative.ofNames (r.outputDirectory :: front ++ [last ++ ".js"])) =
      ⟨.relative, r.outputDirectory :: front ++ [last ++ ".js"]⟩ :=
    Relative.ofText_ofNames (Path.isSegment_concat hrow hend (by decide))
  have hdeclaration : Path.ofText (Relative.ofNames (r.outputDirectory :: front ++ [last ++ ".d.ts"])) =
      ⟨.relative, r.outputDirectory :: front ++ [last ++ ".d.ts"]⟩ :=
    Relative.ofText_ofNames (Path.isSegment_concat hrow hend (by decide))
  refine ⟨_, _, hotherwise, htypes, fun after hadded hfile hbeside => ?_⟩
  rw [hscript, hdeclaration] at hadded
  rw [Path.joinText_eq r.package (by rw [hscript]), hscript] at hfile
  have hfound := fileOrIndex?_script hpackage hbuilds hpath hfind htree hexact hstem hadded hfile
  have hresult := exactMatch_script hroots hinner hrow hend hfound hbeside
  refine ⟨hresult, fun hsources => ?_⟩
  obtain ⟨source, hsource⟩ := SourceFile.exists_find?_script after hpackage hsources
    (fun directory hmem => (isName_of_mem hbuilds hmem).2.2.2) hdirectory hrow hend
  refine ⟨scriptConditions (r.outputDirectory :: front) last source, ?_, hotherwise.symm, htypes.symm⟩
  rw [hresult, hsource]
  rfl

/-- A package with a source that is not compiled. -/
def sourced : FileSystem :=
  (((FileSystem.empty.put ["pkg"] .directory).put ["pkg", "app"] .directory).put ["pkg", "app", "ui"] .directory).put
    ["pkg", "app", "ui", "index.ts"] (.file [])

def compiled : FileSystem :=
  (((sourced.put ["pkg", "dist"] .directory).put ["pkg", "dist", "ui"] .directory).put
    ["pkg", "dist", "ui", "index.js"] (.file [])).put ["pkg", "dist", "ui", "index.d.ts"] (.file [])

def uiRequest : EntryRequest where
  path := "./dist/ui"
  package := Path.ofText "pkg"
  sourceDirectories := ["app"]

/-- The same path where the source directory is given from the root. -/
def rootedRequest : EntryRequest where
  path := "./dist/ui"
  package := Path.ofText "pkg"
  sourceDirectories := ["/pkg/app"]

lemma holdsTree_sourced : sourced.HoldsTree ["pkg"] := by
  have htree : sourced.IsTree :=
    (((FileSystem.isTree_empty.put (by decide) (by decide) (by simp)).put (by decide) (by decide) (by simp)).put
      (by decide) (by decide) (by simp)).put (by decide) (by decide) (by simp)
  exact htree.holdsTree (by decide +kernel) (by decide +kernel)

def uiFiles : List (List Text) :=
  [(Path.ofText "./dist/ui/index.js").segments, (Path.ofText "./dist/ui/index.d.ts").segments]

lemma filesAdded_compiled : FilesAdded sourced compiled ["pkg"] uiFiles := by
  have hfree (names : Location) (hnone : sourced.entryAt? ([Text.ofString "pkg"] ++ names) = none) :
      sourced.TakesFile ([Text.ofString "pkg"] ++ names) := by
    refine ⟨List.cons_ne_nil _ _, fun entry hentry => ?_⟩
    cases hnone.symm.trans hentry
  have hdirectories : FilesAdded sourced ((sourced.put ["pkg", "dist"] .directory).put ["pkg", "dist", "ui"] .directory)
      ["pkg"] uiFiles :=
    ((FilesAdded.refl _ _ _).putDirectory (by decide) (by decide +kernel)).putDirectory (by decide) (by decide +kernel)
  exact (hdirectories.putFile (by decide) (hfree _ (by decide +kernel)) []).putFile (by decide)
    (hfree _ (by decide +kernel)) []

lemma find_sourced : sourced.find (Path.ofText "pkg").text = .ok ["pkg"] :=
  ok_of_toOption (by decide +kernel)

/-- What was predicted from an index file is what is found once it is compiled. -/
theorem prediction_confirmed_ui : ∃ cs built, exactMatch sourced uiRequest = .ok none ∧
    prediction sourced uiRequest = .ok (some cs) ∧ exactMatch compiled uiRequest = .ok (some built) ∧
      built.otherwise = cs.otherwise ∧ built.types = cs.types ∧ built.otherwise = some "./dist/ui/index.js" := by
  have hexact : exactMatch sourced uiRequest = .ok none := ok_of_toOption (by decide +kernel)
  have hpredicted : prediction sourced uiRequest =
      .ok (some {
        source := some "./app/ui/index.ts"
        types := some "./dist/ui/index.d.ts"
        imported := some "./dist/ui/index.js"
        otherwise := some "./dist/ui/index.js" }) := ok_of_toOption (by decide +kernel)
  obtain ⟨target, types, htarget, htypes, hbuilt⟩ := prediction_confirmed (Path.isClean_ofText "pkg") rfl (by decide)
    find_sourced holdsTree_sourced hexact hpredicted
  obtain rfl := Option.some.inj htarget
  obtain rfl := Option.some.inj htypes
  obtain ⟨-, hrelative⟩ := hbuilt compiled filesAdded_compiled (by decide +kernel) (by decide +kernel)
  obtain ⟨built, hfound, hotherwise, hsame⟩ := hrelative (by decide)
  exact ⟨_, built, hexact, hpredicted, hfound, hotherwise, hsame, hotherwise⟩

/-- Where the source directory is given from the root, the same source predicts the same targets, and once it is compiled,
looking for them fails. -/
theorem prediction_refuted :
    rootedRequest.package.IsClean ∧ rootedRequest.buildDirectories = ({} : Settings).buildDirectories ∧
      Relative.IsPlain rootedRequest.path ∧ sourced.find rootedRequest.package.text = .ok ["pkg"] ∧
      sourced.HoldsTree ["pkg"] ∧ exactMatch sourced rootedRequest = .ok none ∧
      (∃ cs, prediction sourced rootedRequest = .ok (some cs) ∧ cs.otherwise = some "./dist/ui/index.js" ∧
        cs.types = some "./dist/ui/index.d.ts") ∧
      FilesAdded sourced compiled ["pkg"] uiFiles ∧
      compiled.isFile (rootedRequest.package / Text.ofString "./dist/ui/index.js").text = true ∧
      compiled.isFile (rootedRequest.package / Text.ofString "./dist/ui/index.d.ts").text = true ∧
      exactMatch compiled rootedRequest =
        .error (.cause (.outside (Path.ofText "/pkg/app/ui/index.ts") (Path.ofText "pkg"))) := by
  have hpredicted : prediction sourced rootedRequest =
      .ok (some {
        source := some ".//pkg/app/ui/index.ts"
        types := some "./dist/ui/index.d.ts"
        imported := some "./dist/ui/index.js"
        otherwise := some "./dist/ui/index.js" }) := ok_of_toOption (by decide +kernel)
  refine ⟨Path.isClean_ofText "pkg", rfl, by decide, find_sourced, holdsTree_sourced, ok_of_toOption (by decide +kernel),
    ⟨_, hpredicted, rfl, rfl⟩, filesAdded_compiled, by decide +kernel, by decide +kernel, ?_⟩
  decide +kernel

end EntryRequest

end PackageExports
