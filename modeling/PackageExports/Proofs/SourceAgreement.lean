import PackageExports.Proofs.Predictions
import PackageExports.Proofs.StrippedDirectories

/-!
# Two ways to a source

A prediction goes from a source to the script that it will be compiled to, and the source of a script is looked for from
the script. The second way leads back to the source of the prediction unless there is a source at one of the paths that
it tries before. Where no directory in the script's path is named like a build directory, this is the path in the source
directory that goes with the build directory: `source` for `build`, and `src` for the others.

Main results: `SourceFile.candidates_plain`, `SourceFile.firstSource?_eq_iff`, `EntryRequest.source_predicted_iff`.
-/

namespace PackageExports

open FileSystem (IsName FilesAdded HoldsTree)
open PackageExports.Path (IsSegment IsClean IsInner)

/-! ### Segments that are replaced -/

lemma Text.replaceFirst?_start {c : CodePoint} {old : Text} (new after : Text) :
    replaceFirst? (c :: old) new (c :: old ++ after) = some (new ++ after) := by
  have hdrop : dropStart? (c :: old) (c :: (old ++ after)) = some after := dropStart?_eq_some.mpr rfl
  rw [List.cons_append, replaceFirst?, hdrop]

namespace Relative

variable {names others front back : List Text} {build source replaced : Text}

lemma ofNames_inj (hne : names ≠ []) (hne' : others ≠ []) (hnames : ∀ name ∈ names, IsSegment name)
    (hothers : ∀ name ∈ others, IsSegment name) (h : ofNames names = ofNames others) : names = others :=
  Text.joinWith_inj hne hne' (fun name hname => (hnames name hname).2.2) (fun name hname => (hothers name hname).2.2)
    (List.append_cancel_left h)

lemma splitOn_ofNames (hne : names ≠ []) (hnames : ∀ name ∈ names, IsSegment name) :
    Text.splitOn '/' (ofNames names) = Text.ofString "." :: names := by
  have hsplit := Text.splitOn_append '/' "." (Text.joinWith "/" names)
  rw [Text.splitOn_joinWith hne fun name hname => (hnames name hname).2.2] at hsplit
  exact hsplit

lemma replaceFirst?_ofNames {last : Text} (hnames : ∀ name ∈ names ++ [last], IsSegment name)
    (hbuild : CodePoint.ofChar '/' ∉ build)
    (h : Text.replaceFirst? ("/" ++ build ++ "/") ("/" ++ source ++ "/") (ofNames (names ++ [last])) = some replaced) :
    ∃ front back, names = front ++ build :: back ∧ replaced = ofNames (front ++ source :: back ++ [last]) := by
  obtain ⟨before, after, hwhole, rfl⟩ := Text.replaceFirst?_eq_some h
  have hslashes (segment : Text) : before ++ ("/" ++ segment ++ "/") ++ after =
      before ++ CodePoint.ofChar '/' :: (segment ++ CodePoint.ofChar '/' :: after) := by
    simp only [List.append_assoc]
    rfl
  have hpieces := splitOn_ofNames (by simp) hnames
  rw [hwhole, hslashes, Text.splitOn_append, Text.splitOn_append, Text.splitOn_of_notMem hbuild] at hpieces
  obtain ⟨first, front, hfront⟩ := List.exists_cons_of_ne_nil (Text.splitOn_ne_nil '/' before)
  obtain ⟨back, final, hback⟩ :=
    (List.eq_nil_or_concat' (Text.splitOn '/' after)).resolve_left (Text.splitOn_ne_nil _ _)
  rw [hfront, hback] at hpieces
  obtain ⟨rfl, hrest⟩ := List.cons.inj hpieces
  have hrow : (front ++ build :: back) ++ [final] = names ++ [last] := by
    rw [← hrest, List.append_assoc]
    rfl
  obtain ⟨rfl, hend⟩ := List.append_inj' hrow rfl
  obtain rfl := List.singleton_inj.mp hend
  refine ⟨front, back, rfl, ?_⟩
  -- what is written between slashes is what was split
  have hafter : Text.joinWith "/" (source :: (back ++ [final])) = source ++ "/" ++ after := by
    rw [Text.joinWith_cons _ _ (by simp), ← hback, Text.joinWith_splitOn]
  have hbefore : Text.joinWith "/" (Text.ofString "." :: front) = before := by
    rw [← hfront, Text.joinWith_splitOn]
  have hjoined := Text.joinWith_append "/" (List.cons_ne_nil (Text.ofString ".") front)
    (List.cons_ne_nil source (back ++ [final]))
  rw [hafter, hbefore, List.cons_append, Text.joinWith_cons _ _ (by simp)] at hjoined
  rw [ofNames, List.append_assoc front, List.cons_append]
  refine Eq.trans ?_ hjoined.symm
  simp only [List.append_assoc]

lemma replaceFirst?_head (hback : back ≠ []) :
    Text.replaceFirst? ("/" ++ build ++ "/") ("/" ++ source ++ "/") (ofNames (build :: back)) =
      some (ofNames (source :: back)) := by
  have hslashes (segment : Text) :
      ofNames (segment :: back) = CodePoint.ofChar '.' :: ("/" ++ segment ++ "/" ++ Text.joinWith "/" back) := by
    rw [ofNames, Text.joinWith_cons _ _ hback]
    simp only [List.append_assoc]
    rfl
  have hpoint : Text.dropStart? ("/" ++ build ++ "/")
      (CodePoint.ofChar '.' :: ("/" ++ build ++ "/" ++ Text.joinWith "/" back)) = none := rfl
  have hfirst : Text.replaceFirst? ("/" ++ build ++ "/") ("/" ++ source ++ "/")
      ("/" ++ build ++ "/" ++ Text.joinWith "/" back) = some ("/" ++ source ++ "/" ++ Text.joinWith "/" back) :=
    Text.replaceFirst?_start _ _
  rw [hslashes, hslashes, Text.replaceFirst?, hpoint]
  dsimp only
  rw [hfirst]
  rfl

end Relative

namespace Probe

variable {fs : FileSystem} {base : Text}

lemma fileOrIndex?_of_second {first second last : Text} {p : Path} (hfirst : IsSegment first)
    (hother : ¬first <:+ second ∧ ¬second <:+ first) (hlast : p.segments.getLast? = some (last ++ second))
    (h : fileOrIndex? fs base [first, second] = some p) : fileOrIndex? fs base [first] = none := by
  rw [Option.eq_none_iff_forall_ne_some]
  intro q hq
  have hor := fileOrIndex?_append fs base [first] [second]
  rw [hq] at hor
  obtain rfl := Option.some.inj (hor.symm.trans h)
  obtain ⟨name, hname, hend⟩ := EntryRequest.suffix_of_tried hfirst (tried_of_fileOrIndex? hq)
  obtain rfl := Option.some.inj (hname.symm.trans hlast)
  exact Text.not_suffix_append last hother hend

end Probe

namespace SourceFile

variable {fs after : FileSystem} {package : Path} {sources builds : List Text} {front other names : List Text}
  {directory last base source found extension : Text}

/-! ### The paths that are tried for a script -/

lemma candidates_script (hbuilds : ∀ directory ∈ builds, CodePoint.ofChar '/' ∉ directory)
    (hdirectory : directory ∈ builds) (hrow : ∀ name ∈ front ++ [last], IsSegment name) :
    candidates (Relative.ofNames (directory :: front ++ [last ++ ".js"])) sources builds =
      (segmentPairs.filterMap fun (build, source) =>
        (Text.replaceFirst? build source (Relative.ofNames (directory :: front ++ [last]))).map Relative.bare) ++
      sources.map fun source => Text.joinWith "/" (source :: front ++ [last]) := by
  have hdotted (t : Text) : Relative.dotted ("./" ++ t) = "./" ++ t := by
    rw [Relative.dotted_eq, Relative.bare_start]
  have hstem : Relative.dropCompiled (Relative.ofNames (directory :: front ++ [last ++ ".js"])) =
      Relative.ofNames (directory :: front ++ [last]) := by
    have hscript : Relative.ofNames (directory :: front ++ [last ++ ".js"]) =
        Relative.ofNames (directory :: front ++ [last]) ++ ".js" := by
      rw [Relative.ofNames, Relative.ofNames, List.append_assoc, Text.joinWith_concat_append]
    rw [hscript]
    exact Relative.dropCompiled_script (List.cons_ne_nil _ _) (by decide)
  have hbelow (top : Text) : Text.joinWith "/" (top :: front ++ [last]) =
      top ++ "/" ++ Text.joinWith "/" (front ++ [last]) := Text.joinWith_cons _ _ (by simp)
  have hcut : dropBuildDirectory builds (Relative.bare (Relative.ofNames (directory :: front ++ [last]))) =
      Text.joinWith "/" (front ++ [last]) := by
    rw [Relative.ofNames, Relative.bare_start, hbelow, dropBuildDirectory_slash hbuilds (hbuilds _ hdirectory),
      if_pos hdirectory]
  have hkept := (Expansion.joinWith_of_segments (by simp : front ++ [last] ≠ []) hrow).1
  unfold candidates
  rw [Relative.ofNames, hdotted, ← Relative.ofNames, hstem]
  dsimp only
  rw [hcut, if_neg (by simpa using hkept)]
  simp only [hbelow]

/-- The source directory that goes with a build directory. -/
def counterpart (directory : Text) : Text :=
  if directory = "build" then "source" else "src"

/-- Where no directory in its path is named like a build directory, the source of a script is looked for in the
directory that goes with its build directory and then in each source directory. -/
lemma candidates_plain (hdirectory : directory ∈ ({} : Settings).buildDirectories)
    (hplain : ∀ name ∈ front, name ∉ ({} : Settings).buildDirectories) (hrow : ∀ name ∈ front ++ [last], IsSegment name)
    (sources : List Text) :
    candidates (Relative.ofNames (directory :: front ++ [last ++ ".js"])) sources
        ({} : Settings).buildDirectories =
      (counterpart directory :: sources).map fun source => Text.joinWith "/" (source :: front ++ [last]) := by
  have hbuilds : ∀ directory ∈ ({} : Settings).buildDirectories, IsSegment directory := by decide
  have hnames : ∀ name ∈ directory :: (front ++ [last]), IsSegment name :=
    List.forall_mem_cons.mpr ⟨hbuilds _ hdirectory, hrow⟩
  have hpair (build source : Text) (hbuild : build ∈ ({} : Settings).buildDirectories) :
      (Text.replaceFirst? ("/" ++ build ++ "/") ("/" ++ source ++ "/")
        (Relative.ofNames (directory :: front ++ [last]))).map Relative.bare =
      if build = directory then some (Text.joinWith "/" (source :: front ++ [last])) else none := by
    split_ifs with hsame
    · rw [hsame, List.cons_append, Relative.replaceFirst?_head (by simp), Option.map_some, Relative.ofNames,
        Relative.bare_start, List.cons_append]
    · rw [Option.map_eq_none_iff, Option.eq_none_iff_forall_ne_some]
      intro replaced hreplaced
      obtain ⟨before, back, hwhole, -⟩ := Relative.replaceFirst?_ofNames hnames (hbuilds _ hbuild).2.2 hreplaced
      have hmem : build ∈ directory :: front := by
        rw [hwhole]
        simp
      rcases List.mem_cons.mp hmem with heq | hmem
      · exact hsame heq
      · exact hplain build hmem hbuild
  have hpairs : segmentPairs =
      [("/" ++ Text.ofString "lib" ++ "/", "/" ++ Text.ofString "src" ++ "/"),
        ("/" ++ Text.ofString "dist" ++ "/", "/" ++ Text.ofString "src" ++ "/"),
        ("/" ++ Text.ofString "build" ++ "/", "/" ++ Text.ofString "source" ++ "/"),
        ("/" ++ Text.ofString "out" ++ "/", "/" ++ Text.ofString "src" ++ "/")] := rfl
  rw [candidates_script (fun directory hmem => (hbuilds directory hmem).2.2) hdirectory hrow, hpairs]
  simp only [List.filterMap_cons, List.filterMap_nil]
  rw [hpair "lib" "src" (by decide), hpair "dist" "src" (by decide), hpair "build" "source" (by decide),
    hpair "out" "src" (by decide)]
  simp only [List.mem_cons, List.not_mem_nil, or_false] at hdirectory
  rcases hdirectory with rfl | rfl | rfl | rfl <;> rfl

/-! ### What is found at a path -/

/-- There is no source at a path, and no index file in a directory there. -/
def IsFree (fs : FileSystem) (package : Path) (base : Text) : Prop :=
  Probe.fileBeforeIndex? fs (package / base).text extensions = none

instance (fs : FileSystem) (package : Path) (base : Text) : Decidable (IsFree fs package base) :=
  inferInstanceAs (Decidable (_ = _))

lemma resolve?_of_names (hne : names ≠ []) (hnames : ∀ name ∈ names, IsSegment name)
    (h : Probe.fileBeforeIndex? fs (package / base).text extensions =
      some ⟨package.anchor, package.segments ++ names⟩) :
    resolve? fs package base = .ok (some (Relative.ofNames names)) := by
  have htext : Path.text ⟨.relative, names⟩ = Text.joinWith "/" names := if_neg (by simpa using hne)
  have hdotted : Relative.dotted (Path.text ⟨.relative, names⟩) = Relative.ofNames names := by
    rw [htext, Relative.dotted_eq, Relative.bare_joinWith hnames, Relative.ofNames]
  rw [resolve?, h, SearchPlan.foundFrom, Path.seenFrom_below, ← hdotted]
  rfl

lemma names_of_resolve? (hpackage : package.IsClean) (hne : names ≠ []) (hnames : ∀ name ∈ names, IsSegment name)
    (h : resolve? fs package (Text.joinWith "/" names) = .ok (some source)) :
    ∃ others, Probe.NamesTried (Text.joinWith "/" names) extensions others ∧ (∀ name ∈ others, IsSegment name) ∧
      source = Relative.ofNames others := by
  cases hfile : Probe.fileBeforeIndex? fs (package / Text.joinWith "/" names).text extensions with
  | none =>
    rw [resolve?_eq_none.mpr hfile] at h
    cases h
  | some p =>
    have htried := Probe.tried_of_fileBeforeIndex? hfile
    have hclean := Probe.isClean_of_tried htried
    obtain ⟨others, hothers, rfl⟩ := htried.names hpackage (Path.isInner_joinWith hne hnames) (by decide)
    have hsegments : ∀ name ∈ others, IsSegment name := fun name hmem => hclean name (List.mem_append_right _ hmem)
    have hothersNe : others ≠ [] := by
      obtain ⟨front, last, -, extension, -, rfl⟩ := Probe.namesTried_iff.mp hothers
      simp
    rw [resolve?_of_names hothersNe hsegments hfile] at h
    exact ⟨others, hothers, hsegments, (Option.some.inj (Except.ok.inj h)).symm⟩

/-- Of the paths with as many names, what is tried for one is tried for no other one. -/
lemma front_eq_of_namesTried {name : Text} (hother : ∀ name ∈ other ++ [last], IsSegment name)
    (hlength : other.length = front.length)
    (h : Probe.NamesTried (Text.joinWith "/" (other ++ [last])) extensions (front ++ [name])) : other = front := by
  have hsegments := Path.segments_joinWith hother
  obtain ⟨before, stem, hstem, added, -, hrow⟩ := Probe.namesTried_iff.mp h
  obtain ⟨rfl, -⟩ := List.append_inj' hrow rfl
  cases hstem with
  | own hown => exact (List.append_inj' (hsegments.symm.trans hown) rfl).1
  | index =>
    -- an index file has one name more
    rw [hsegments, List.length_append] at hlength
    simp at hlength

lemma front_eq_of_resolve? (hpackage : package.IsClean) (hother : ∀ name ∈ other ++ [last], IsSegment name)
    (hfront : ∀ name ∈ front ++ [last ++ extension], IsSegment name) (hlength : other.length = front.length)
    (h : resolve? fs package (Text.joinWith "/" (other ++ [last])) =
      .ok (some (Relative.ofNames (front ++ [last ++ extension])))) : other = front := by
  obtain ⟨names, htried, hnames, hsame⟩ := names_of_resolve? hpackage (by simp) hother h
  have hne : names ≠ [] := by
    obtain ⟨_, _, -, _, -, rfl⟩ := Probe.namesTried_iff.mp htried
    simp
  obtain rfl := Relative.ofNames_inj (by simp) hne hfront hnames hsame
  exact front_eq_of_namesTried hother hlength htried

/-- If only one of several paths leads to a source, it is found exactly if there is no source at the paths before. -/
lemma firstSource?_eq_iff {bases : List Text} (hmem : base ∈ bases)
    (hbase : resolve? fs package base = .ok (some source))
    (honly : ∀ other ∈ bases, resolve? fs package other = .ok (some source) → other = base)
    (h : firstSource? fs package bases = .ok (some found)) :
    found = source ↔ ∀ other ∈ bases.takeWhile (· != base), IsFree fs package other := by
  induction bases with
  | nil => cases hmem
  | cons first rest ih =>
    obtain ⟨result, hfirst, h⟩ := bind_ok_iff.mp h
    by_cases hsame : first = base
    · subst hsame
      rw [hbase] at hfirst
      obtain rfl := Except.ok.inj hfirst
      obtain rfl : source = found := Option.some.inj (Except.ok.inj h)
      rw [List.takeWhile_cons_of_neg (by simp)]
      exact iff_of_true rfl (List.forall_mem_nil _)
    · rw [List.takeWhile_cons_of_pos (by simpa using hsame), List.forall_mem_cons]
      cases result with
      | none =>
        have hmem := (List.mem_cons.mp hmem).resolve_left (Ne.symm hsame)
        rw [ih hmem (fun other hother => honly other (List.mem_cons_of_mem _ hother)) h]
        exact (and_iff_right (resolve?_eq_none.mp hfirst)).symm
      | some one =>
        obtain rfl : one = found := Option.some.inj (Except.ok.inj h)
        refine iff_of_false ?_ ?_
        · rintro rfl
          exact hsame (honly first List.mem_cons_self hfirst)
        · rintro ⟨hfree, -⟩
          rw [resolve?_eq_none.mpr hfree] at hfirst
          cases hfirst

lemma find?_congr {target : Text}
    (h : ∀ base ∈ candidates target sources builds, resolve? after package base = resolve? fs package base) :
    find? after package target sources builds = find? fs package target sources builds := by
  rw [find?, find?, firstSource?_eq, firstSource?_eq]
  exact findSomeM?_congr h

lemma resolve?_of_typeScript {stem : Text} (hpackage : package.IsClean)
    (hrow : ∀ name ∈ directory :: front ++ [last], IsSegment name) (hinner : IsInner stem)
    (hstem : Probe.Stem stem front last) (hextension : extension ∈ [Text.ofString ".ts", ".tsx"])
    (h : Probe.fileOrIndex? fs (package / directory / stem).text [".ts", ".tsx"] =
      some ⟨(package / directory).anchor, (package / directory).segments ++ (front ++ [last ++ extension])⟩) :
    resolve? fs package (Text.joinWith "/" (directory :: front ++ [last])) =
      .ok (some (Relative.ofNames (directory :: front ++ [last ++ extension]))) := by
  have htop := hrow directory (by simp)
  have hroot : package / directory = ⟨package.anchor, package.segments ++ [directory]⟩ :=
    Path.div_of_isSegment package htop
  have hslash : ∀ e ∈ extensions, CodePoint.ofChar '/' ∉ e := by decide
  have hplace (e : Text) (he : e ∈ extensions) :
      Probe.withExtension (package / Text.joinWith "/" (directory :: front ++ [last])).text e =
        ⟨(package / directory).anchor, (package / directory).segments ++ (front ++ [last ++ e])⟩ := by
    rw [Probe.withExtension_below hpackage (Path.anchor_joinWith hrow) (hslash e he) (Path.segments_joinWith hrow),
      hroot, List.append_assoc]
    rfl
  -- if the file has the second extension, there is none with the first one
  have hsecond : extension = ".tsx" → fs.isFile (Probe.withExtension
      (package / Text.joinWith "/" (directory :: front ++ [last])).text ".ts").text ≠ true := by
    rintro rfl
    have hnone := Probe.fileOrIndex?_of_second (by decide) (by decide)
      (by rw [← List.append_assoc, List.getLast?_concat]) h
    have htried := Probe.namesTried_iff.mpr ⟨front, last, hstem, ".ts", List.mem_singleton_self _, rfl⟩
    rw [hplace ".ts" (by decide)]
    exact Probe.fileOrIndex?_eq_none.mp hnone _
      (htried.tried (Path.isClean_div hpackage directory) hinner.1 (by decide))
  have hfile := Probe.isFile_of_fileOrIndex? h
  have hfound : Probe.withExtensions? fs (package / Text.joinWith "/" (directory :: front ++ [last])).text extensions =
      some (Probe.withExtension (package / Text.joinWith "/" (directory :: front ++ [last])).text extension) := by
    rcases List.mem_pair.mp hextension with rfl | rfl
    · rw [← hplace ".ts" (by decide)] at hfile
      exact Probe.withExtensions?_of_first (List.forall_mem_nil _) hfile _
    · rw [← hplace ".tsx" (by decide)] at hfile
      exact Probe.withExtensions?_of_first (List.forall_mem_singleton.mpr (hsecond rfl)) hfile _
  have hmem : extension ∈ extensions := List.mem_of_mem_take (i := 2) hextension
  refine resolve?_of_names (by simp) (Path.isSegment_concat ?_ ?_ (hslash extension hmem)) ?_
  · exact fun name hname => hrow name (List.mem_append_left _ hname)
  · exact hrow last (by simp)
  · rw [Probe.fileBeforeIndex?, hfound]
    dsimp only
    rw [hplace extension hmem, hroot, List.append_assoc]
    rfl

end SourceFile

namespace Probe

variable {fs after : FileSystem} {package : Path} {base : Text} {extensions : List Text}

lemma fileBeforeIndex?_of_added {location : Location} {files : List (List Text)}
    (hadded : FilesAdded fs after location files) (htree : fs.HoldsTree location) (hpackage : package.IsClean)
    (hfind : fs.find package.text = .ok location) (hbase : IsInner base)
    (hnames : ∀ name ∈ (Path.ofText base).segments, IsName name)
    (hextensions : ∀ e ∈ extensions, CodePoint.ofChar '/' ∉ e)
    (hold : ∀ names ∈ files, ¬NamesTried base extensions names) :
    fileBeforeIndex? after (package / base).text extensions = fileBeforeIndex? fs (package / base).text extensions := by
  refine fileBeforeIndex?_congr (fun p hp => ?_) fun extension hextension hthere => ?_
  · obtain ⟨names, htried, rfl⟩ := hp.names hpackage hbase hextensions
    exact hadded.isFile_eq htree hpackage hfind (htried.isName hnames hextensions) fun hmem => hold _ hmem htried
  · -- an index file that was there before was in a directory
    have hslash := hextensions extension hextension
    rw [indexWith_below hpackage hbase.1 hslash] at hthere
    have hiff : after.isDirectory (package / base).text = true ↔ fs.isDirectory (package / base).text = true := by
      refine ⟨fun hafter => ?_, hadded.isDirectory_kept⟩
      rw [Path.joinText_eq package hbase.1] at hafter ⊢
      exact htree.isDirectory_of_file hpackage hfind
        (Package.isName_append hnames (FileSystem.IsName.append (by decide) hslash)) hthere hafter
    exact Bool.eq_iff_iff.mpr hiff

end Probe

namespace SourceFile

/-! ### Sources of scripts of a build -/

section Script

variable {fs after : FileSystem} {package : Path} {front : List Text} {directory top last extension : Text}
  (hdirectory : directory ∈ ({} : Settings).buildDirectories) (hfront : ∀ name ∈ front, IsName name)
  (hlast : IsName last)

include hdirectory hfront hlast

/-- A path that is tried for a script of a build has as many names as the script, and other directories. -/
lemma names_of_candidate {base : Text}
    (h : base ∈ candidates (Relative.ofNames (directory :: front ++ [last ++ ".js"])) ({} : Settings).sourceDirectories
      ({} : Settings).buildDirectories) :
    ∃ other, base = Text.joinWith "/" (other ++ [last]) ∧ other.length = front.length + 1 ∧ other ≠ directory :: front ∧
      ∀ name ∈ other ++ [last], IsName name := by
  have hbuilds : ∀ directory ∈ ({} : Settings).buildDirectories, IsName directory := by decide
  have hsources : ∀ source ∈ ({} : Settings).sourceDirectories, ∀ directory ∈ ({} : Settings).buildDirectories,
      IsName source ∧ source ≠ directory := by decide
  have hnames : ∀ name ∈ directory :: front ++ [last], IsName name :=
    List.forall_mem_append.mpr
      ⟨List.forall_mem_cons.mpr ⟨hbuilds directory hdirectory, hfront⟩, List.forall_mem_singleton.mpr hlast⟩
  have hrow := fun name hmem => Path.isSegment_of_isName (hnames name hmem)
  rw [candidates_script (fun directory hmem => (hbuilds directory hmem).2.2.2) hdirectory
    fun name hmem => hrow name (List.mem_cons_of_mem _ hmem)] at h
  rcases List.mem_append.mp h with hreplaced | hplain
  · -- one directory of the script is replaced by another one
    obtain ⟨pair, hpair, hsome⟩ := List.mem_filterMap.mp hreplaced
    obtain ⟨output, source, rfl, hsource, houtput, hne⟩ := segmentPairs_spec pair hpair
    obtain ⟨replaced, hfound, rfl⟩ := Option.map_eq_some_iff.mp hsome
    obtain ⟨before, back, hwhole, rfl⟩ := Relative.replaceFirst?_ofNames hrow houtput.2.2.2 hfound
    rw [hwhole, List.append_assoc, List.cons_append, List.forall_mem_append, List.forall_mem_cons] at hnames
    refine ⟨before ++ source :: back, ?_, ?_, ?_, ?_⟩
    · rw [Relative.ofNames, Relative.bare_start]
    · have hlength := congrArg List.length hwhole
      simpa using hlength.symm
    · intro hsame
      rw [hwhole] at hsame
      exact hne (List.cons.inj (List.append_cancel_left hsame)).1.symm
    · rw [List.append_assoc, List.cons_append]
      exact List.forall_mem_append.mpr ⟨hnames.1, List.forall_mem_cons.mpr ⟨hsource, hnames.2.2⟩⟩
  · -- the build directory is replaced by a source directory
    obtain ⟨source, hsource, rfl⟩ := List.mem_map.mp hplain
    obtain ⟨hname, hne⟩ := hsources source hsource directory hdirectory
    exact ⟨source :: front, rfl, rfl, fun hsame => hne (List.cons.inj hsame).1,
      List.forall_mem_cons.mpr ⟨hname, (List.forall_mem_cons.mp hnames).2⟩⟩

lemma find?_script_iff (hpackage : package.IsClean) (htop : top ∈ ({} : Settings).sourceDirectories)
    (hextension : extension ∈ extensions)
    (h : resolve? fs package (Text.joinWith "/" (top :: front ++ [last])) =
      .ok (some (Relative.ofNames (top :: front ++ [last ++ extension])))) :
    ∃ found, find? fs package (Relative.ofNames (directory :: front ++ [last ++ ".js"]))
        ({} : Settings).sourceDirectories ({} : Settings).buildDirectories = .ok (some found) ∧
      (found = Relative.ofNames (top :: front ++ [last ++ extension]) ↔
        ∀ base ∈ (candidates (Relative.ofNames (directory :: front ++ [last ++ ".js"]))
          ({} : Settings).sourceDirectories ({} : Settings).buildDirectories).takeWhile
            (· != Text.joinWith "/" (top :: front ++ [last])), IsFree fs package base) := by
  have hbuilds : ∀ directory ∈ ({} : Settings).buildDirectories, IsName directory := by decide
  have hsources : ∀ source ∈ ({} : Settings).sourceDirectories,
      IsName source ∧ source ≠ [] ∧ (Path.ofText source).anchor = .relative := by decide
  have hsegments := fun name hname => Path.isSegment_of_isName (hfront name hname)
  have hend := Path.isSegment_of_isName hlast
  have hslash : ∀ e ∈ extensions, CodePoint.ofChar '/' ∉ e := by decide
  have hrow : ∀ name ∈ top :: front, IsSegment name :=
    List.forall_mem_cons.mpr ⟨Path.isSegment_of_isName (hsources top htop).1, hsegments⟩
  have hmem : Text.joinWith "/" (top :: front ++ [last]) ∈
      candidates (Relative.ofNames (directory :: front ++ [last ++ ".js"])) ({} : Settings).sourceDirectories
        ({} : Settings).buildDirectories := by
    rw [candidates_script (fun directory hmem => (hbuilds directory hmem).2.2.2) hdirectory
      (List.forall_mem_append.mpr ⟨hsegments, List.forall_mem_singleton.mpr hend⟩)]
    exact List.mem_append_right _ (List.mem_map_of_mem htop)
  obtain ⟨result, hresult⟩ := exists_find?_script fs hpackage (fun source hsource => (hsources source hsource).2)
    (fun directory hmem => (hbuilds directory hmem).2.2.2) hdirectory
    (List.forall_mem_cons.mpr ⟨Path.isSegment_of_isName (hbuilds directory hdirectory), hsegments⟩) hend
  cases result with
  | none =>
    rw [resolve?_eq_none.mpr (find?_eq_none.mp hresult _ hmem)] at h
    cases h
  | some found =>
    refine ⟨found, hresult, firstSource?_eq_iff hmem h (fun other hother hsame => ?_) hresult⟩
    obtain ⟨names, rfl, hlength, -, hnames⟩ := names_of_candidate hdirectory hfront hlast hother
    have hother := fun name hname => Path.isSegment_of_isName (hnames name hname)
    rw [front_eq_of_resolve? hpackage hother (Path.isSegment_concat hrow hend (hslash extension hextension)) hlength
      hsame]

lemma forall_before_iff (htop : top ∈ ({} : Settings).sourceDirectories)
    (hplain : ∀ name ∈ front, name ∉ ({} : Settings).buildDirectories) :
    (∀ base ∈ (candidates (Relative.ofNames (directory :: front ++ [last ++ ".js"]))
        ({} : Settings).sourceDirectories ({} : Settings).buildDirectories).takeWhile
          (· != Text.joinWith "/" (top :: front ++ [last])), IsFree fs package base) ↔
      top = counterpart directory ∨
        IsFree fs package (Text.joinWith "/" (counterpart directory :: front ++ [last])) := by
  have hsegments := fun name hname => Path.isSegment_of_isName (hfront name hname)
  have hend := Path.isSegment_of_isName hlast
  rw [candidates_plain hdirectory hplain
    (List.forall_mem_append.mpr ⟨hsegments, List.forall_mem_singleton.mpr hend⟩), List.map_cons]
  by_cases hsame : top = counterpart directory
  · rw [← hsame, List.takeWhile_cons_of_neg (by simp)]
    exact iff_of_true (List.forall_mem_nil _) (.inl rfl)
  · have hinj {a b : Text} (h : Text.joinWith "/" (a :: front ++ [last]) = Text.joinWith "/" (b :: front ++ [last])) :
        a = b := by
      rw [List.cons_append, List.cons_append, Text.joinWith_cons _ _ (by simp), Text.joinWith_cons _ _ (by simp)] at h
      exact List.append_cancel_right (List.append_cancel_right h)
    -- there are but two source directories
    have hother : ∀ a ∈ ({} : Settings).sourceDirectories, ∀ b ∈ ({} : Settings).sourceDirectories,
        ∀ c ∈ ({} : Settings).sourceDirectories, a ≠ b → b ≠ c → a = c := by decide
    have hmem : counterpart directory ∈ ({} : Settings).sourceDirectories := by
      unfold counterpart
      split_ifs <;> decide
    have hrest : ∀ base ∈ (({} : Settings).sourceDirectories.map fun source =>
        Text.joinWith "/" (source :: front ++ [last])).takeWhile (· != Text.joinWith "/" (top :: front ++ [last])),
        base = Text.joinWith "/" (counterpart directory :: front ++ [last]) := by
      intro base hbase
      obtain ⟨source, hsource, rfl⟩ := List.mem_map.mp ((List.takeWhile_prefix _).subset hbase)
      have hne : source ≠ top := by
        rintro rfl
        simpa using List.mem_takeWhile_imp hbase
      rw [hother source hsource top htop _ hmem hne hsame]
    rw [List.takeWhile_cons_of_pos (by simpa using fun h => hsame (hinj h).symm), List.forall_mem_cons]
    constructor
    · exact fun hfree => .inr hfree.1
    · intro h
      have hfree := h.resolve_left hsame
      exact ⟨hfree, fun base hbase => hrest base hbase ▸ hfree⟩

lemma find?_of_added {location : Location} (hpackage : package.IsClean) (hfind : fs.find package.text = .ok location)
    (htree : fs.HoldsTree location)
    (hadded : FilesAdded fs after location
      [directory :: front ++ [last ++ ".js"], directory :: front ++ [last ++ ".d.ts"]]) :
    find? after package (Relative.ofNames (directory :: front ++ [last ++ ".js"])) ({} : Settings).sourceDirectories
        ({} : Settings).buildDirectories =
      find? fs package (Relative.ofNames (directory :: front ++ [last ++ ".js"])) ({} : Settings).sourceDirectories
        ({} : Settings).buildDirectories := by
  refine find?_congr fun base hbase => ?_
  obtain ⟨other, rfl, hlength, hne, hnames⟩ := names_of_candidate hdirectory hfront hlast hbase
  have hother := fun name hname => Path.isSegment_of_isName (hnames name hname)
  have hsegments := Path.segments_joinWith hother
  rw [resolve?, resolve?, Probe.fileBeforeIndex?_of_added hadded htree hpackage hfind
    (Path.isInner_joinWith (by simp) hother) (by rwa [hsegments]) (by decide)]
  -- what is added has the directories of the script, unlike what is tried
  intro names hmem htried
  rcases List.mem_pair.mp hmem with rfl | rfl
  · exact hne (front_eq_of_namesTried hother hlength htried)
  · exact hne (front_eq_of_namesTried hother hlength htried)

end Script

end SourceFile

namespace EntryRequest

open SourceFile (candidates counterpart find? IsFree)

variable {fs : FileSystem} {r : EntryRequest} {cs : Conditions}

/-- A clean path: below its build directory and without the extension of a compiled file, it is a row of names. -/
def IsNamed (r : EntryRequest) : Prop :=
  ∀ name ∈ Text.splitOn '/' r.outputStem, IsName name

instance (r : EntryRequest) : Decidable r.IsNamed :=
  inferInstanceAs (Decidable (∀ name ∈ _, _))

/-- The source of the script that is predicted for a clean path is found, and it is the source of the prediction unless
there is another one at a path that is tried before. Where no directory in the script's path is named like a build
directory, only the directory that goes with the script's one counts. Once the script and its declaration are there, the
targets in the build directory have the source that was found. -/
theorem source_predicted_iff (hpackage : r.package.IsClean)
    (hbuilds : r.buildDirectories = ({} : Settings).buildDirectories)
    (hsources : r.sourceDirectories = ({} : Settings).sourceDirectories) (hpath : r.IsNamed)
    (hpredicted : prediction fs r = .ok (some cs)) :
    ∃ directory ∈ r.sourceDirectories, ∃ front : List Text, ∃ last extension target types found : Text,
      extension ∈ [Text.ofString ".ts", ".tsx"] ∧
      cs.source = some (Relative.ofNames (directory :: front ++ [last ++ extension])) ∧
      cs.otherwise = some target ∧ target = Relative.ofNames (r.outputDirectory :: front ++ [last ++ ".js"]) ∧
      cs.types = some types ∧
      find? fs r.package target r.sourceDirectories r.buildDirectories = .ok (some found) ∧
      fs.HasTarget r.package found ∧
      (cs.source = some found ↔
        ∀ base ∈ (candidates target r.sourceDirectories r.buildDirectories).takeWhile
          (· != Text.joinWith "/" (directory :: front ++ [last])), IsFree fs r.package base) ∧
      ((∀ name ∈ front, name ∉ r.buildDirectories) → (cs.source = some found ↔
        directory = counterpart r.outputDirectory ∨
          IsFree fs r.package (Text.joinWith "/" (counterpart r.outputDirectory :: front ++ [last])))) ∧
      ∀ after location built, fs.find r.package.text = .ok location → fs.HoldsTree location →
        FilesAdded fs after location [(Path.ofText target).segments, (Path.ofText types).segments] →
        exactMatch after r = .ok (some built) → built.otherwise = cs.otherwise → built.source = some found := by
  have hinner := isInner_of_names hpath
  obtain ⟨hdirectory, -⟩ := searchRoots_head hbuilds
  obtain ⟨top, htop, front, last, hstem, extension, hextension, hfile, hsource, hotherwise, htypes⟩ :=
    prediction_places hpackage hinner hpredicted
  obtain ⟨hfront, hlast⟩ := hstem.isName fun name hmem => hpath name (List.mem_of_mem_filter hmem)
  rw [hbuilds] at hdirectory ⊢
  rw [hsources] at htop ⊢
  have hnames : ∀ directory ∈ ({} : Settings).buildDirectories ++ ({} : Settings).sourceDirectories,
      IsSegment directory := by decide
  have hsegments := fun name hname => Path.isSegment_of_isName (hfront name hname)
  have hend := Path.isSegment_of_isName hlast
  have hrow (directory : Text) (h : directory ∈ ({} : Settings).buildDirectories ++ ({} : Settings).sourceDirectories) :
      ∀ name ∈ directory :: front, IsSegment name := List.forall_mem_cons.mpr ⟨hnames directory h, hsegments⟩
  have hresolve := SourceFile.resolve?_of_typeScript hpackage
    (List.forall_mem_append.mpr ⟨hrow top (List.mem_append_right _ htop), List.forall_mem_singleton.mpr hend⟩)
    hinner hstem hextension hfile
  obtain ⟨found, hfound, hiff⟩ := SourceFile.find?_script_iff hdirectory hfront hlast hpackage htop
    (List.mem_of_mem_take (i := 2) hextension) hresolve
  have hscript := hrow r.outputDirectory (List.mem_append_left _ hdirectory)
  have hsame : cs.source = some found ↔ found = Relative.ofNames (top :: front ++ [last ++ extension]) := by
    rw [hsource, Option.some_inj, eq_comm]
  refine ⟨top, htop, front, last, extension, _, _, found, hextension, hsource, hotherwise, rfl, htypes, hfound,
    SourceFile.hasTarget_find? hfound, hsame.trans hiff, fun hplain => ?_, ?_⟩
  · rw [hsame, hiff, SourceFile.forall_before_iff hdirectory hfront hlast htop hplain]
  · intro after location built hfind htree hadded hbuilt hdefault
    rw [Relative.ofText_ofNames (Path.isSegment_concat hscript hend (by decide)),
      Relative.ofText_ofNames (Path.isSegment_concat hscript hend (by decide))] at hadded
    obtain ⟨target, htarget, hafter⟩ := source_exactMatch hbuilt
    rw [hdefault, hotherwise] at htarget
    obtain rfl := Option.some.inj htarget
    rw [hbuilds, hsources, SourceFile.find?_of_added hdirectory hfront hlast hpackage hfind htree hadded,
      hfound] at hafter
    exact (Except.ok.inj hafter).symm

/-- A package with a source of the same name in each source directory. -/
def bothSources : FileSystem :=
  ((((FileSystem.empty.put ["pkg"] .directory).put ["pkg", "src"] .directory).put ["pkg", "source"] .directory).put
    ["pkg", "src", "ui.ts"] (.file [])).put ["pkg", "source", "ui.ts"] (.file [])

def bothCompiled (directory : Text) : FileSystem :=
  ((bothSources.put ["pkg", directory] .directory).put ["pkg", directory, "ui.js"] (.file [])).put
    ["pkg", directory, "ui.d.ts"] (.file [])

def scriptRequest (directory : Text) : EntryRequest where
  path := "./" ++ directory ++ "/ui"
  package := Path.ofText "pkg"

def scriptPrediction (directory : Text) : Conditions where
  source := some "./src/ui.ts"
  types := some ("./" ++ directory ++ "/ui.d.ts")
  imported := some ("./" ++ directory ++ "/ui.js")
  otherwise := some ("./" ++ directory ++ "/ui.js")

/-- In the build directory `lib` the script has the source from which it was predicted, before and after it is there. -/
theorem source_predicted_iff_lib : ∃ cs built,
    prediction bothSources (scriptRequest "lib") = .ok (some cs) ∧ cs.otherwise = some "./lib/ui.js" ∧
      find? bothSources (scriptRequest "lib").package "./lib/ui.js" (scriptRequest "lib").sourceDirectories
        (scriptRequest "lib").buildDirectories = .ok cs.source ∧
      exactMatch (bothCompiled "lib") (scriptRequest "lib") = .ok (some built) ∧ built.source = cs.source := by
  have hpredicted : prediction bothSources (scriptRequest "lib") = .ok (some (scriptPrediction "lib")) :=
    ok_of_toOption (by decide +kernel)
  have hsource : find? bothSources (scriptRequest "lib").package "./lib/ui.js" (scriptRequest "lib").sourceDirectories
      (scriptRequest "lib").buildDirectories = .ok (some "./src/ui.ts") := ok_of_toOption (by decide +kernel)
  have hbuilt : exactMatch (bothCompiled "lib") (scriptRequest "lib") = .ok (some {
      source := some "./src/ui.ts"
      types := some "./lib/ui.d.ts"
      otherwise := some "./lib/ui.js" }) := ok_of_toOption (by decide +kernel)
  obtain ⟨_, -, _, _, _, target, types, found, -, -, htarget, -, htypes, hfound, -, -, -, hafter⟩ :=
    source_predicted_iff (Path.isClean_ofText "pkg") rfl rfl (by decide) hpredicted
  obtain rfl := Option.some.inj htarget
  obtain rfl := Option.some.inj htypes
  obtain rfl := Option.some.inj (Except.ok.inj (hfound.symm.trans hsource))
  have htree : bothSources.HoldsTree ["pkg"] := by
    have htree : bothSources.IsTree :=
      ((((FileSystem.isTree_empty.put (by decide) (by decide) (by simp)).put (by decide) (by decide) (by simp)).put
        (by decide) (by decide) (by simp)).put (by decide) (by decide) (by simp)).put (by decide) (by decide) (by simp)
    exact htree.holdsTree (by decide +kernel) (by decide +kernel)
  have hfree (names : Location) (hnone : bothSources.entryAt? ([Text.ofString "pkg"] ++ names) = none) :
      bothSources.TakesFile ([Text.ofString "pkg"] ++ names) := by
    refine ⟨List.cons_ne_nil _ _, fun entry hentry => ?_⟩
    cases hnone.symm.trans hentry
  have hadded : FilesAdded bothSources (bothCompiled "lib") ["pkg"]
      [(Path.ofText "./lib/ui.js").segments, (Path.ofText "./lib/ui.d.ts").segments] :=
    (((FilesAdded.refl _ _ _).putDirectory (by decide) (by decide +kernel)).putFile (by decide)
      (hfree _ (by decide +kernel)) []).putFile (by decide) (hfree _ (by decide +kernel)) []
  have hkept := hafter (bothCompiled "lib") ["pkg"] _ (ok_of_toOption (by decide +kernel)) htree hadded hbuilt rfl
  exact ⟨_, _, hpredicted, rfl, hsource, hbuilt, hkept⟩

/-- In the build directory `build` the same source predicts the script, but the source that is found for the script,
before and after it is there, is the other one. -/
theorem source_predicted_differs :
    (scriptRequest "build").IsNamed ∧ exactMatch bothSources (scriptRequest "build") = .ok none ∧
      expansion bothSources (scriptRequest "build") = .ok none ∧
      prediction bothSources (scriptRequest "build") = .ok (some (scriptPrediction "build")) ∧
      find? bothSources (scriptRequest "build").package "./build/ui.js" (scriptRequest "build").sourceDirectories
        (scriptRequest "build").buildDirectories = .ok (some "./source/ui.ts") ∧
      exactMatch (bothCompiled "build") (scriptRequest "build") = .ok (some {
        source := some "./source/ui.ts"
        types := some "./build/ui.d.ts"
        otherwise := some "./build/ui.js" }) :=
  ⟨by decide, ok_of_toOption (by decide +kernel), rfl, ok_of_toOption (by decide +kernel),
    ok_of_toOption (by decide +kernel), ok_of_toOption (by decide +kernel)⟩

end EntryRequest

end PackageExports
