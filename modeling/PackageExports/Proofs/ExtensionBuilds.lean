import PackageExports.Proofs.DualBuilds
import PackageExports.Proofs.RuntimeTargets

/-!
# Names in builds told apart by extension

Where two builds are told apart by the extension, the extension of a build takes the place of the suffix of a path. A path
without a suffix keeps its name in both builds. A suffix that is no extension of compiled files is part of the name, and
what is found has a shorter name then.

Main results: `Expansion.foundUnder_of_resolve?`, `Expansion.names_by_extension`.
-/

namespace PackageExports

open PackageExports.Path (IsSegment IsClean)

namespace Written

/-- The last name of a path. A path that ends in a slash or in a point has the last name of its directory. -/
def lastName (path : Text) : Text :=
  let (directory, name) := split path
  if name = [] ∨ name = "." then (if directory = "." then [] else (split directory).2) else name

variable {path name : Text}

lemma split_slash (directory : Text) (hname : CodePoint.ofChar '/' ∉ name) :
    (split (directory ++ "/" ++ name)).2 = name := by
  have hcut : Text.splitAtLast? '/' (directory ++ "/" ++ name) = some (directory, name) :=
    Text.splitAtLast?_eq_some.mpr ⟨List.append_assoc _ _ _, hname⟩
  rw [split, cutAtLastSlash, hcut]

lemma split_of_notMem (hname : CodePoint.ofChar '/' ∉ name) : (split name).2 = name := by
  rw [split, cutAtLastSlash, Text.splitAtLast?_eq_none.mpr hname]

lemma splitName_of_nil (h : (splitName name).2 = []) : (splitName name).1 = name := by
  unfold splitName at h ⊢
  dsimp only at h ⊢
  split at h
  · cases h
  · rfl

lemma isSegment_of_suffix (h : (splitName (split path).2).2 ≠ []) : IsSegment (split path).2 := by
  refine ⟨?_, ?_, notMem_split path⟩
  · intro hnil
    rw [hnil] at h
    exact h rfl
  · intro hdot
    rw [hdot] at h
    exact h (by decide)

lemma lastName_of_isSegment (h : IsSegment (split path).2) : lastName path = (split path).2 :=
  if_neg (not_or.mpr ⟨h.1, h.2.1⟩)

lemma suffix_starts (h : (splitName name).2 ≠ []) :
    ∃ extension, CodePoint.ofChar '.' ∉ extension ∧ (splitName name).2 = CodePoint.ofChar '.' :: extension := by
  obtain ⟨dots, chars, extension, c, hdots, hc, hextension, rfl⟩ := exists_stem h
  rw [splitName_of_stem hdots hc hextension]
  exact ⟨extension, hextension, rfl⟩

end Written

namespace Path

variable {package : Path}

lemma getLast?_div (package : Path) {t last : Text} (h : (ofText t).segments.getLast? = some last) :
    (package / t).segments.getLast? = some last := by
  by_cases hanchor : (ofText t).anchor = .relative
  · rw [joinText_eq package hanchor, List.getLast?_append, h]
    rfl
  · have hown : package / t = ofText t := if_neg hanchor
    rw [hown, h]

lemma ofText_of_seenFrom {p : Path} {seen : Text} (hp : p.IsClean) (h : SearchPlan.seenFrom package p = .ok seen) :
    ∃ rest, p = ⟨package.anchor, package.segments ++ rest⟩ ∧ ofText seen = ⟨.relative, rest⟩ := by
  obtain ⟨rest, rfl, rfl⟩ := seenFrom_eq_ok.mp h
  exact ⟨rest, rfl, ofText_text fun segment hsegment => hp segment (List.mem_append_right _ hsegment)⟩

lemma div_of_seenFrom {p : Path} {seen : Text} (hp : p.IsClean) (h : SearchPlan.seenFrom package p = .ok seen) :
    package / seen = p := by
  obtain ⟨rest, rfl, hseen⟩ := ofText_of_seenFrom hp h
  rw [joinText_eq package (by rw [hseen]), hseen]

lemma div_dotted_of_seenFrom {p : Path} {seen : Text} (hp : p.IsClean) (h : SearchPlan.seenFrom package p = .ok seen) :
    package / (Text.ofString "./" ++ seen) = p := by
  obtain ⟨rest, rfl, hseen⟩ := ofText_of_seenFrom hp h
  rw [joinText_eq package rfl, ← Relative.segments_bare, Relative.bare_start, hseen]

end Path

namespace Expansion

open Written (lastName splitSuffix)

/-- A name with nothing but extensions of compiled files after it. -/
def IsCompiled (name file : Text) : Prop :=
  ∃ endings : List Text, (∀ ending ∈ endings, ending ∈ extensions) ∧ file = name ++ endings.flatten

/-- A target whose file has a name, or is an index file in a directory that has this name. -/
def FoundUnder (package : Path) (target name : Text) : Prop :=
  ∃ front, (package / target).segments = front ++ [name] ∨
    ∃ extension ∈ extensions, (package / target).segments = front ++ [name, "index" ++ extension]

variable {fs : FileSystem} {package : Path} {path target : Text} {cjs esm side : BuildSide}

lemma segments_of_tried (hpackage : package.IsClean) {base last : Text} {p : Path}
    (hlast : (Path.ofText base).segments.getLast? = some last) (h : Probe.Tried (package / base).text extensions p) :
    p.IsClean ∧ ∃ front, (∃ extension ∈ extensions, p.segments = front ++ [last ++ extension]) ∨
      ∃ extension ∈ extensions, p.segments = front ++ [last, "index" ++ extension] := by
  have hslash : ∀ e ∈ extensions, CodePoint.ofChar '/' ∉ e := by decide
  have hclean := Path.isClean_div hpackage base
  obtain ⟨front, hfront⟩ := List.getLast?_eq_some_iff.mp (Path.getLast?_div package hlast)
  obtain ⟨extension, hextension, rfl | rfl⟩ := h
  · have hplace := Probe.withExtension_text hclean (hslash extension hextension) hfront
    exact ⟨Path.isClean_ofText _, front, .inl ⟨extension, hextension, by rw [hplace]⟩⟩
  · have hplace := Probe.indexWith_text hclean (hslash extension hextension)
    refine ⟨Path.isClean_div (Path.isClean_ofText _) _, front, .inr ⟨extension, hextension, ?_⟩⟩
    rw [hplace, hfront, List.append_assoc]
    rfl

/-- What is found for a path has the last name of the path with one of the extensions. -/
lemma foundUnder_of_resolve? (hpackage : package.IsClean) {base last : Text}
    (hlast : (Path.ofText base).segments.getLast? = some last)
    (h : resolve? fs package extensions base = .ok (some target)) :
    ∃ extension ∈ extensions, FoundUnder package target (last ++ extension) := by
  obtain ⟨-, seen, hfound, rfl⟩ := resolve?_eq_some.mp h
  obtain ⟨p, hfile, hseen⟩ := SearchPlan.foundFrom_eq_some.mp hfound
  obtain ⟨hclean, front, hsegments⟩ := segments_of_tried hpackage hlast (Probe.tried_of_fileOrIndex? hfile)
  unfold FoundUnder
  rw [Path.div_dotted_of_seenFrom hclean hseen]
  rcases hsegments with ⟨extension, hextension, hown⟩ | ⟨extension, hextension, hindex⟩
  · exact ⟨extension, hextension, front, .inl hown⟩
  · exact ⟨[], by decide, front, .inr ⟨extension, hextension, by rwa [List.append_nil]⟩⟩

/-- Where a build has the file of a path: the path's name without its suffix, and the extension of the build. -/
def buildBase (path : Text) : Text :=
  joinParts [(Written.split path).1, (Written.splitName (Written.split path).2).1]

lemma split_joinParts (directory : Text) {name : Text} (hname : IsSegment name) :
    (Written.split (joinParts [directory, name])).2 = name := by
  have hkept : ([name].filter fun part => decide (part ≠ [] ∧ part ≠ ".")) = [name] :=
    List.filter_cons_of_pos (by simpa using ⟨hname.1, hname.2.1⟩)
  by_cases hdirectory : directory ≠ [] ∧ directory ≠ "."
  · rw [joinParts, List.filter_cons_of_pos (by simpa using hdirectory), hkept]
    exact Written.split_slash directory hname.2.2
  · rw [joinParts, List.filter_cons_of_neg (by simpa using hdirectory), hkept]
    exact Written.split_of_notMem hname.2.2

lemma split_buildBase_of_nil (h : (Written.splitName (Written.split path).2).2 = []) :
    (Written.split (buildBase path)).2 = lastName path := by
  rw [buildBase, Written.splitName_of_nil h]
  by_cases hname : (Written.split path).2 = [] ∨ (Written.split path).2 = "."
  · have hdropped : ([(Written.split path).2].filter fun part => decide (part ≠ [] ∧ part ≠ ".")) = [] :=
      List.filter_cons_of_neg (by simpa [or_iff_not_imp_left] using hname)
    have hlast : lastName path =
        if (Written.split path).1 = "." then [] else (Written.split (Written.split path).1).2 := if_pos hname
    rw [hlast]
    by_cases hdirectory : (Written.split path).1 ≠ [] ∧ (Written.split path).1 ≠ "."
    · rw [joinParts, List.filter_cons_of_pos (by simpa using hdirectory), hdropped, if_neg hdirectory.2]
      rfl
    · rw [joinParts, List.filter_cons_of_neg (by simpa using hdirectory), hdropped]
      split_ifs with hdot
      · rfl
      · have hnil : (Written.split path).1 = [] := by
          by_contra hne
          exact hdirectory ⟨hne, hdot⟩
        rw [hnil]
        rfl
  · obtain ⟨hne, hdot⟩ := not_or.mp hname
    have hsegment : IsSegment (Written.split path).2 := ⟨hne, hdot, Written.notMem_split path⟩
    rw [split_joinParts _ hsegment, Written.lastName_of_isSegment hsegment]

lemma split_buildBase_of_suffix (h : (Written.splitName (Written.split path).2).2 ≠ []) :
    lastName path = (Written.split (buildBase path)).2 ++ (Written.splitName (Written.split path).2).2 ∧
      (Written.split (buildBase path)).2 ≠ [] := by
  obtain ⟨hstem, hname, -⟩ := Written.stem_spec h (Written.notMem_split path)
  rw [buildBase, split_joinParts _ hstem, Written.lastName_of_isSegment (Written.isSegment_of_suffix h)]
  exact ⟨hname, hstem.1⟩

lemma eq_of_points {a b x y : Text} (ha : CodePoint.ofChar '.' ∉ a) (hb : CodePoint.ofChar '.' ∉ b)
    (hx : ∀ c ∈ x.head?, c = CodePoint.ofChar '.') (hy : ∀ c ∈ y.head?, c = CodePoint.ofChar '.')
    (h : a ++ x = b ++ y) : a = b := by
  have hcut {a x : Text} (ha : CodePoint.ofChar '.' ∉ a) (hx : ∀ c ∈ x.head?, c = CodePoint.ofChar '.') :
      (a ++ x).takeWhile (fun c => c != CodePoint.ofChar '.') = a := by
    have hnone : x.takeWhile (fun c => c != CodePoint.ofChar '.') = [] := by
      cases x with
      | nil => rfl
      | cons c x => exact List.takeWhile_cons_of_neg (by simpa using hx c rfl)
    rw [List.takeWhile_append_of_pos, hnone, List.append_nil]
    intro c hc
    rw [bne_iff_ne]
    rintro rfl
    exact ha hc
  rw [← hcut ha hx, h, hcut hb hy]

lemma head?_flatten {endings : List Text} (h : ∀ ending ∈ endings, ending ∈ extensions) :
    ∀ c ∈ endings.flatten.head?, c = CodePoint.ofChar '.' := by
  have hpoint : ∀ e ∈ extensions, ∀ c ∈ e.head?, c = CodePoint.ofChar '.' := by decide
  induction endings with
  | nil => exact fun c hc => nomatch hc
  | cons ending rest ih =>
    obtain ⟨hfirst, hrest⟩ := List.forall_mem_cons.mp h
    cases ending with
    | nil => exact ih hrest
    | cons d ending => exact hpoint (d :: ending) hfirst

/-- With the extension of a build in place of a suffix of another kind, the name of a path is lost. -/
lemma not_isCompiled {stem suffix marker extension : Text} (hsuffix : suffix ∉ extensions)
    (hstart : ∃ rest, CodePoint.ofChar '.' ∉ rest ∧ suffix = CodePoint.ofChar '.' :: rest)
    (hmarker : marker ∈ extensions) (hne : marker ≠ []) (hextension : extension ∈ extensions) :
    ¬IsCompiled (stem ++ suffix) (stem ++ (marker ++ extension)) := by
  rintro ⟨endings, hendings, heq⟩
  rw [List.append_assoc] at heq
  have hrest := List.append_cancel_left heq
  have hpoint : ∀ e ∈ extensions, e ≠ [] → e = CodePoint.ofChar '.' :: e.tail ∧ CodePoint.ofChar '.' ∉ e.tail := by
    decide
  obtain ⟨hword, hnoPoint⟩ := hpoint marker hmarker hne
  obtain ⟨rest, hrestNoPoint, rfl⟩ := hstart
  have hending : ∀ c ∈ extension.head?, c = CodePoint.ofChar '.' := by
    have hone : ∀ c ∈ [extension].flatten.head?, c = CodePoint.ofChar '.' :=
      head?_flatten (List.forall_mem_singleton.mpr hextension)
    rwa [List.flatten_singleton] at hone
  rw [hword] at hrest hmarker
  have hsame := eq_of_points hnoPoint hrestNoPoint hending (head?_flatten hendings) (List.cons.inj hrest).2
  exact hsuffix (hsame ▸ hmarker)

lemma exists_marker (hcjs : Flavor.ofExtension cjs.marker ≠ .unknown) (hesm : Flavor.ofExtension esm.marker ≠ .unknown)
    {sources : List Text} {cs : Conditions}
    (h : expand fs package (.dual .byExtension cjs esm) path sources = .ok (some cs))
    (htarget : cs.required = some target ∨ cs.imported = some target) :
    ∃ marker, IsSegment marker ∧ marker ∈ extensions ∧
      resolve? fs package extensions (buildBase (Relative.bare path) ++ marker) = .ok (some target) := by
  have hknown : ∀ e ∈ [Text.ofString ".cjs", ".mjs", ".js"], IsSegment e ∧ e ∈ extensions := by decide
  obtain ⟨-, cjsFile, esmFile, _, _, _, hcjsFile, hesmFile, -, -, -, hcs⟩ := expand_eq_some.mp h
  rw [hcs] at htarget
  rcases htarget with hrequired | himported
  · obtain rfl : cjsFile = some target := hrequired
    obtain ⟨hsegment, hmem⟩ := hknown _ (Flavor.mem_extensions hcjs)
    exact ⟨_, hsegment, hmem, hcjsFile⟩
  · obtain rfl : esmFile = some target := himported
    obtain ⟨hsegment, hmem⟩ := hknown _ (Flavor.mem_extensions hesm)
    exact ⟨_, hsegment, hmem, hesmFile⟩

/-- In builds that are told apart by extension, a path without a suffix keeps its name: what is found for either build has
this name with nothing but extensions of compiled files after it, or is an index file in a directory named so. If the path
has a suffix that is no extension of compiled files, then all that is found has the shorter name without it. -/
theorem names_by_extension (hpackage : package.IsClean) (hcjs : Flavor.ofExtension cjs.marker ≠ .unknown)
    (hesm : Flavor.ofExtension esm.marker ≠ .unknown) {sources : List Text} {cs : Conditions}
    (h : expand fs package (.dual .byExtension cjs esm) path sources = .ok (some cs))
    (htarget : cs.required = some target ∨ cs.imported = some target) :
    ((splitSuffix (Relative.bare path)).2 = [] →
      ∃ name, FoundUnder package target name ∧ IsCompiled (lastName (Relative.bare path)) name) ∧
    ((splitSuffix (Relative.bare path)).2 ∉ extensions →
      ∃ stem name, stem ≠ [] ∧ lastName (Relative.bare path) = stem ++ (splitSuffix (Relative.bare path)).2 ∧
        FoundUnder package target name ∧ IsCompiled stem name ∧ ¬IsCompiled (lastName (Relative.bare path)) name) := by
  have hsuffix (t : Text) : (splitSuffix t).2 = (Written.splitName (Written.split t).2).2 := rfl
  obtain ⟨marker, hsegment, hextensions, hresolve⟩ := exists_marker hcjs hesm h htarget
  obtain ⟨extension, hextension, hfound⟩ :=
    foundUnder_of_resolve? hpackage (Path.getLast?_segments_append _ hsegment) hresolve
  rw [List.append_assoc] at hfound
  have hcompiled (name : Text) : IsCompiled name (name ++ (marker ++ extension)) :=
    ⟨[marker, extension], by simp [hextensions, hextension], by simp⟩
  rw [hsuffix]
  constructor
  · intro hnil
    rw [split_buildBase_of_nil hnil] at hfound
    exact ⟨_, hfound, hcompiled _⟩
  · intro hother
    have hne : (Written.splitName (Written.split (Relative.bare path)).2).2 ≠ [] := by
      intro hnil
      rw [hnil] at hother
      exact hother (by decide)
    obtain ⟨hname, hstem⟩ := split_buildBase_of_suffix hne
    refine ⟨_, _, hstem, hname, hfound, hcompiled _, ?_⟩
    rw [hname]
    exact not_isCompiled hother (Written.suffix_starts hne) hextensions hsegment.1 hextension

/-- A package whose two builds are files with the extensions `.cjs` and `.mjs` in the directory `lib`. -/
def jqueryBuilds : FileSystem :=
  ((FileSystem.empty.put ["lib"] .directory).put ["lib", "jquery.cjs"] (.file [])).put ["lib", "jquery.mjs"] (.file [])

/-- The path `./lib/jquery` of that package keeps its name. -/
theorem names_by_extension_jquery : ∃ cs,
    expand jqueryBuilds (Path.ofText ".") (.dual .byExtension ⟨"./lib/index", ".cjs", []⟩ ⟨"./lib/index", ".mjs", []⟩)
        "./lib/jquery" ({} : Settings).sourceDirectories = .ok (some cs) ∧
      cs.required = some "./lib/jquery.cjs" ∧
      ∃ name, FoundUnder (Path.ofText ".") "./lib/jquery.cjs" name ∧ IsCompiled "jquery" name := by
  have hexpand : expand jqueryBuilds (Path.ofText ".")
      (.dual .byExtension ⟨"./lib/index", ".cjs", []⟩ ⟨"./lib/index", ".mjs", []⟩) "./lib/jquery"
      ({} : Settings).sourceDirectories = .ok (some {
        required := some "./lib/jquery.cjs"
        imported := some "./lib/jquery.mjs"
        otherwise := some "./lib/jquery.mjs" }) := ok_of_toOption (by decide +kernel)
  have hkept := (names_by_extension (Path.isClean_ofText ".") (by decide) (by decide) hexpand (.inl rfl)).1 (by decide)
  exact ⟨_, hexpand, rfl, hkept⟩

/-- The path `./lib/jquery.min` of that package leads to files whose name is shorter. -/
theorem names_by_extension_lost : ∃ cs,
    expand jqueryBuilds (Path.ofText ".") (.dual .byExtension ⟨"./lib/index", ".cjs", []⟩ ⟨"./lib/index", ".mjs", []⟩)
        "./lib/jquery.min" ({} : Settings).sourceDirectories = .ok (some cs) ∧
      cs.required = some "./lib/jquery.cjs" ∧ cs.imported = some "./lib/jquery.mjs" ∧
      ¬∃ name, FoundUnder (Path.ofText ".") "./lib/jquery.cjs" name ∧ IsCompiled "jquery.min" name := by
  have hexpand : expand jqueryBuilds (Path.ofText ".")
      (.dual .byExtension ⟨"./lib/index", ".cjs", []⟩ ⟨"./lib/index", ".mjs", []⟩) "./lib/jquery.min"
      ({} : Settings).sourceDirectories = .ok (some {
        required := some "./lib/jquery.cjs"
        imported := some "./lib/jquery.mjs"
        otherwise := some "./lib/jquery.mjs" }) := ok_of_toOption (by decide +kernel)
  refine ⟨_, hexpand, rfl, rfl, ?_⟩
  rintro ⟨name, ⟨front, hfound⟩, endings, -, rfl⟩
  have hsegments : (Path.ofText "." / Text.ofString "./lib/jquery.cjs").segments = ["lib", "jquery.cjs"] := by decide
  rw [hsegments] at hfound
  rcases hfound with hown | ⟨extension, hextension, hindex⟩
  · have hlast : [Text.ofString "lib"] ++ [Text.ofString "jquery.cjs"] =
        front ++ [Text.ofString "jquery.min" ++ endings.flatten] := hown
    obtain ⟨-, hname⟩ := List.append_inj' hlast rfl
    exact absurd ⟨_, (List.cons.inj hname).1.symm⟩ (by decide : ¬Text.ofString "jquery.min" <+: Text.ofString "jquery.cjs")
  · have hlast : [] ++ [Text.ofString "lib", "jquery.cjs"] =
        front ++ [Text.ofString "jquery.min" ++ endings.flatten, "index" ++ extension] := hindex
    obtain ⟨-, hname⟩ := List.append_inj' hlast rfl
    have hfirst := (List.cons.inj (List.cons.inj hname).2).1
    exact absurd ⟨_, hfirst.symm⟩ (by decide : ¬Text.ofString "index" <+: Text.ofString "jquery.cjs")

end Expansion

end PackageExports
