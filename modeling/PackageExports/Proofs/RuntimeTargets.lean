import PackageExports.Proofs.Detection
import PackageExports.Proofs.FoundFiles

/-!
# Targets that a runtime takes

A target under `import`, under `require` or without a condition is a compiled file, unless an imported path ends in a
TypeScript extension itself: then the file of that name is found as it is, and the target has that name.

Main results: `EntryRequest.found_cases`, `EntryRequest.Resolved.keepsName`, `EntryRequest.runtime_targets_keep_name`.
-/

namespace PackageExports

open PackageExports.Path (IsSegment IsClean)

def typeScriptEndings : List Text :=
  [".ts", ".tsx", ".mts", ".cts"]

/-- Whether a path ends like a TypeScript file. -/
def Text.isTypeScript (t : Text) : Bool :=
  Text.endsWithAny t typeScriptEndings

namespace Text

variable {t : Text}

lemma isTypeScript_iff : t.isTypeScript = true ↔ ∃ ending ∈ typeScriptEndings, ending <:+ t := by
  simp only [isTypeScript, endsWithAny, endsWith, List.any_eq_true, List.isSuffixOf_iff_suffix]

lemma isTypeScript_of_suffix {name : Text} (hsuffix : name <:+ t) (h : name.isTypeScript = true) :
    t.isTypeScript = true := by
  obtain ⟨ending, hending, hname⟩ := isTypeScript_iff.mp h
  exact isTypeScript_iff.mpr ⟨ending, hending, hname.trans hsuffix⟩

lemma isTypeScript_eq_false {other : Text}
    (hother : ∀ ending ∈ typeScriptEndings, ¬ending <:+ other ∧ ¬other <:+ ending) (h : other <:+ t) :
    t.isTypeScript = false := by
  rw [Bool.eq_false_iff]
  intro htypes
  obtain ⟨ending, hending, hsuffix⟩ := isTypeScript_iff.mp htypes
  obtain ⟨hneither, hneither'⟩ := hother ending hending
  rcases List.suffix_or_suffix_of_suffix hsuffix h with hshort | hshort
  · exact hneither hshort
  · exact hneither' hshort

lemma suffix_joinWith {front : List Text} {last ending : Text} (hending : CodePoint.ofChar '/' ∉ ending)
    (h : ending <:+ joinWith "/" (front ++ [last])) : ending <:+ last := by
  by_cases hfront : front = []
  · rwa [hfront] at h
  · rw [joinWith_append _ hfront (List.cons_ne_nil _ _), List.append_assoc] at h
    exact suffix_of_suffix_append hending h

lemma last_suffix_joinWith (front : List Text) (last : Text) : last <:+ joinWith "/" (front ++ [last]) := by
  rw [← List.nil_append last, ← joinWith_concat_append]
  exact List.suffix_append _ _

lemma isTypeScript_joinWith {front : List Text} {last : Text}
    (h : isTypeScript (joinWith "/" (front ++ [last])) = true) : last.isTypeScript = true := by
  obtain ⟨ending, hending, hsuffix⟩ := isTypeScript_iff.mp h
  have hslash : ∀ ending ∈ typeScriptEndings, CodePoint.ofChar '/' ∉ ending := by decide
  exact isTypeScript_iff.mpr ⟨ending, hending, suffix_joinWith (hslash ending hending) hsuffix⟩

end Text

lemma Written.splitOn_split (t : Text) : ∃ front, Text.splitOn '/' t = front ++ [(split t).2] := by
  obtain ⟨front, last, hrow, hslash⟩ := Text.exists_splitOn t
  have hlast : (split t).2 = last := by
    rw [← Text.joinWith_splitOn t, hrow, split, cutAtLastSlash_joinWith front hslash]
  exact ⟨front, by rw [hlast, hrow]⟩

lemma Written.notMem_split (path : Text) : CodePoint.ofChar '/' ∉ (split path).2 := by
  obtain ⟨front, hrow⟩ := Written.splitOn_split path
  exact Text.notMem_of_mem_splitOn (t := path) (by rw [hrow]; simp)

namespace Path

variable {p root : Path}

lemma name_of_getLast? {last : Text} (h : p.segments.getLast? = some last) : p.name = last := by
  rw [name, h]
  rfl

lemma getLast?_segments {t last : Text} {front : List Text} (hrow : Text.splitOn '/' t = front ++ [last])
    (hne : last ≠ []) (hdot : last ≠ ".") : (ofText t).segments.getLast? = some last := by
  have hkept : (!last.isEmpty && last != Text.ofString ".") = true := by simpa [hne] using hdot
  rw [ofText, hrow]
  dsimp only
  rw [List.filter_append, List.filter_cons_of_pos (p := fun piece : Text => !piece.isEmpty && piece != ".") hkept,
    List.filter_nil, List.getLast?_concat]

lemma getLast?_segments_append (t : Text) {extension : Text} (hextension : IsSegment extension) :
    (ofText (t ++ extension)).segments.getLast? = some ((Written.split t).2 ++ extension) := by
  obtain ⟨front, hrow⟩ := Written.splitOn_split t
  obtain ⟨first, more, hsplit, hadded⟩ := Text.splitOn_append_text hrow extension
  rw [Text.splitOn_of_notMem hextension.2.2] at hsplit
  obtain ⟨rfl, rfl⟩ := List.cons.inj hsplit
  refine getLast?_segments hadded (by simp [hextension.1]) ?_
  intro hdot
  rcases List.append_eq_singleton_iff.mp hdot with ⟨-, h⟩ | ⟨-, h⟩
  · exact hextension.2.1 h
  · exact hextension.1 h

lemma segments_trimEnd (t : Text) : (ofText (Text.trimEnd '/' t)).segments = (ofText t).segments := by
  induction t using List.reverseRecOn with
  | nil => rfl
  | append_singleton t c ih =>
    by_cases hc : c = CodePoint.ofChar '/'
    · have hslash := segments_slash t []
      rw [List.append_nil] at hslash
      rw [hc, Text.trimEnd_append, ih]
      exact (hslash.trans (List.append_nil _)).symm
    · rw [Text.trimEnd_of_getLast? (by simpa using hc)]

lemma segments_joinParts (parts : List Text) :
    (ofText (Expansion.joinParts parts)).segments = parts.flatMap fun part => (ofText part).segments := by
  have hjoin (parts : List Text) :
      (ofText (Text.joinWith "/" parts)).segments = parts.flatMap fun part => (ofText part).segments := by
    induction parts with
    | nil => rfl
    | cons part rest ih =>
      by_cases hrest : rest = []
      · rw [hrest, List.flatMap_singleton]
        rfl
      · rw [Text.joinWith_cons _ _ hrest, segments_slash, ih, List.flatMap_cons]
  rw [Expansion.joinParts, hjoin]
  induction parts with
  | nil => rfl
  | cons part rest ih =>
    by_cases hpart : part ≠ [] ∧ part ≠ "."
    · rw [List.filter_cons_of_pos (by simpa using hpart), List.flatMap_cons, ih, List.flatMap_cons]
    · rw [List.filter_cons_of_neg (by simpa using hpart), ih, List.flatMap_cons]
      rcases not_and_or.mp hpart with hnil | hdot
      · rw [not_not.mp hnil]
        rfl
      · rw [not_not.mp hdot]
        rfl

end Path

namespace EntryRequest

variable {fs : FileSystem} {root : Path} {path file : Text} {extensions : List Text}

lemma getLast?_of_own {front : List Text} {last : Text}
    (h : Path.ofText (root / path).text = ⟨root.anchor, root.segments ++ (front ++ [last])⟩) :
    (Path.ofText path).segments.getLast? = some last := by
  have hclean := Path.isClean_ofText (root / path).text
  rw [h] at hclean
  by_cases hanchor : (Path.ofText path).anchor = .relative
  · -- what is tried shows that the root is clean, too
    have hroot : root.IsClean := fun segment hsegment => hclean segment (List.mem_append_left _ hsegment)
    rw [Path.ofText_text (Path.isClean_joinText hroot hanchor), Path.joinText_eq root hanchor] at h
    have hsegments := List.append_cancel_left (Path.mk.inj h).2
    rw [hsegments, List.getLast?_concat]
  · have hown : root / path = Path.ofText path := if_neg hanchor
    rw [hown, Path.ofText_text (Path.isClean_ofText path)] at h
    rw [h]
    dsimp only
    rw [← List.append_assoc, List.getLast?_concat]

lemma getLast?_indexWith (base : Text) {extension : Text} (h : CodePoint.ofChar '/' ∉ extension) :
    (Probe.indexWith base extension).segments.getLast? = some ("index" ++ extension) := by
  have hdiv : Probe.indexWith base extension = _ := Path.div_index _ h
  rw [hdiv, List.getLast?_concat]

lemma suffix_of_tried {base extension : Text} {p : Path} (hextension : IsSegment extension)
    (h : Probe.Tried base [extension] p) : ∃ name, p.segments.getLast? = some name ∧ extension <:+ name := by
  obtain ⟨other, hother, rfl | rfl⟩ := h
  · obtain rfl := List.mem_singleton.mp hother
    exact ⟨_, Path.getLast?_segments_append _ hextension, List.suffix_append _ _⟩
  · obtain rfl := List.mem_singleton.mp hother
    exact ⟨_, getLast?_indexWith _ hextension.2.2, List.suffix_append _ _⟩

/-- A file that is found has one of the extensions, or the name of the path itself. -/
theorem found_cases (hextensions : ∀ e ∈ extensions, e = [] ∨ IsSegment e)
    (h : FoundBelow fs root path extensions file) :
    file = "." ∨ ∃ front last, file = Text.joinWith "/" (front ++ [last]) ∧ ∃ extension ∈ extensions,
      extension ≠ [] ∧ extension <:+ last ∨
        extension = [] ∧ (last = "index" ∨ (Path.ofText path).segments.getLast? = some last) := by
  have hslash : ∀ e ∈ extensions, CodePoint.ofChar '/' ∉ e := by
    intro e he
    rcases hextensions e he with rfl | hsegment
    · exact List.not_mem_nil
    · exact hsegment.2.2
  obtain ⟨p, hfound, hseen⟩ := SearchPlan.foundFrom_eq_some.mp h
  obtain ⟨rest, hp, rfl⟩ := Path.seenFrom_eq_ok.mp hseen
  obtain ⟨extension, hextension, htried⟩ := Probe.tried_of_fileOrIndex? hfound
  rcases List.eq_nil_or_concat' rest with rfl | ⟨front, last, rfl⟩
  · exact .inl rfl
  · have hlast : p.segments.getLast? = some last := by
      rw [hp]
      dsimp only
      rw [← List.append_assoc, List.getLast?_concat]
    refine .inr ⟨front, last, if_neg (by simp), extension, hextension, ?_⟩
    rcases htried with hplain | hindex
    · rw [Probe.withExtension] at hplain
      rcases hextensions extension hextension with rfl | hsegment
      · rw [List.append_nil] at hplain
        exact .inr ⟨rfl, .inr (getLast?_of_own (hplain.symm.trans hp))⟩
      · have hbefore := Path.getLast?_segments_append (root / path).text hsegment
        rw [hplain, hbefore] at hlast
        obtain rfl := Option.some.inj hlast
        exact .inl ⟨hsegment.1, List.suffix_append _ _⟩
    · rw [hindex, getLast?_indexWith _ (hslash extension hextension)] at hlast
      obtain rfl := Option.some.inj hlast
      by_cases hempty : extension = []
      · refine .inr ⟨hempty, .inl ?_⟩
        rw [hempty, List.append_nil]
      · exact .inl ⟨hempty, List.suffix_append _ _⟩

variable {r : EntryRequest} {cs : Conditions}

lemma cleanPath_cases (r : EntryRequest) :
    r.cleanPath = "index" ∨ (Path.ofText r.cleanPath).segments = (Path.ofText r.path).segments := by
  unfold cleanPath
  dsimp only
  split_ifs
  · exact .inl rfl
  · right
    rw [Path.segments_trimEnd, Relative.segments_bare]

lemma subpath_of_named {directory : Text} (hnamed : r.namedDirectory = some directory) (hne : directory ≠ []) :
    r.subpath = "index" ∨ r.cleanPath = directory ++ "/" ++ r.subpath := by
  obtain ⟨c, chars, rfl⟩ := List.exists_cons_of_ne_nil hne
  have hdirectory : r.cleanPath.takeWhile (fun c => c != CodePoint.ofChar '/') = c :: chars :=
    (Option.ite_none_right_eq_some.mp hnamed).2 |> Option.some.inj
  unfold subpath
  rw [hnamed]
  dsimp only
  split_ifs with hempty
  · exact .inl rfl
  · right
    rw [← hdirectory] at hempty ⊢
    rw [← List.drop_drop, Text.drop_length_takeWhile] at hempty ⊢
    have hwhole := List.takeWhile_append_dropWhile (p := fun c => c != CodePoint.ofChar '/') (l := r.cleanPath)
    have hhead := List.head?_dropWhile_not (fun c => c != CodePoint.ofChar '/') r.cleanPath
    cases hdrop : r.cleanPath.dropWhile fun c => c != CodePoint.ofChar '/' with
    | nil =>
      rw [hdrop] at hempty
      exact absurd rfl hempty
    | cons d rest =>
      rw [hdrop] at hwhole hhead
      obtain rfl : d = CodePoint.ofChar '/' := by simpa using hhead
      conv_lhs => rw [← hwhole]
      rw [List.append_assoc]
      rfl

lemma subpath_cases {directory : Text} (hnamed : r.namedDirectory = some directory) (hne : directory ≠ []) :
    r.subpath = "index" ∨ (Path.ofText r.subpath).segments <:+ (Path.ofText r.path).segments := by
  rcases subpath_of_named hnamed hne with hindex | hwhole
  · exact .inl hindex
  rcases cleanPath_cases r with hindex | hsegments
  · rw [hwhole] at hindex
    have hslash : CodePoint.ofChar '/' ∈ directory ++ "/" ++ r.subpath := by
      rw [List.append_assoc, List.mem_append]
      exact .inr List.mem_cons_self
    rw [hindex] at hslash
    exact absurd hslash (by decide)
  · right
    rw [← hsegments, hwhole, Path.segments_slash]
    exact List.suffix_append _ _

lemma searchRoots_cases {directory relative : Text} (h : (directory, relative) ∈ r.searchRoots) :
    relative = "index" ∨ (Path.ofText relative).segments <:+ (Path.ofText r.path).segments := by
  have hclean : r.cleanPath = "index" ∨ (Path.ofText r.cleanPath).segments <:+ (Path.ofText r.path).segments := by
    rcases cleanPath_cases r with hindex | hsegments
    · exact .inl hindex
    · exact .inr (hsegments ▸ List.suffix_rfl)
  unfold searchRoots at h
  split at h
  · obtain ⟨other, -, heq⟩ := List.mem_map.mp h
    obtain ⟨-, rfl⟩ := Prod.mk.inj heq
    exact hclean
  · obtain ⟨other, -, heq⟩ := List.mem_map.mp h
    obtain ⟨-, rfl⟩ := Prod.mk.inj heq
    exact hclean
  · rename_i other hne hnamed
    obtain ⟨-, rfl⟩ := Prod.mk.inj (List.mem_singleton.mp h)
    exact subpath_cases hnamed hne

/-- A target that ends like TypeScript only if the name of the path does, if need be after a point; it then has that
name. -/
def KeepsName (path target : Text) : Prop :=
  target.isTypeScript = true →
    Text.isTypeScript ("." ++ (Path.ofText path).name) = true ∧ (Path.ofText path).name <:+ target

lemma keepsName_of_ending {target other : Text} (path : Text)
    (hother : ∀ ending ∈ typeScriptEndings, ¬ending <:+ other ∧ ¬other <:+ ending) (h : other <:+ target) :
    KeepsName path target := by
  intro htypes
  rw [Text.isTypeScript_eq_false hother h] at htypes
  cases htypes

lemma isTypeScript_afterPoint {name : Text} (h : name.isTypeScript = true) :
    Text.isTypeScript ("." ++ name) = true :=
  Text.isTypeScript_of_suffix (List.suffix_append _ _) h

/-- The targets that a runtime takes all have a property. -/
structure Runtime (P : Text → Prop) (cs : Conditions) : Prop where
  imported : ∀ target ∈ cs.imported, P target
  required : ∀ target ∈ cs.required, P target
  otherwise : ∀ target ∈ cs.otherwise, P target

lemma cutTypeScript?_cases (file : Text) :
    (∃ stem lineEnd, cutTypeScript? file = some (stem, lineEnd) ∧ (lineEnd = [] ∨ lineEnd = "\n") ∧
        ∃ extension ∈ [Text.ofString ".ts", ".tsx"], file = stem ++ extension ++ lineEnd) ∨
      cutTypeScript? file = none ∧ ¬Text.ofString ".ts" <:+ file ∧ ¬Text.ofString ".tsx" <:+ file := by
  have hcut (line : Text) :
      (∃ stem, (Text.dropEnd? ".ts" line <|> Text.dropEnd? ".tsx" line) = some stem ∧
          ∃ extension ∈ [Text.ofString ".ts", ".tsx"], line = stem ++ extension) ∨
        (Text.dropEnd? ".ts" line <|> Text.dropEnd? ".tsx" line) = none ∧
          ¬Text.ofString ".ts" <:+ line ∧ ¬Text.ofString ".tsx" <:+ line := by
    cases hts : Text.dropEnd? ".ts" line with
    | some stem => exact .inl ⟨stem, rfl, _, by simp, Text.dropEnd?_eq_some.mp hts⟩
    | none =>
      cases htsx : Text.dropEnd? ".tsx" line with
      | some stem => exact .inl ⟨stem, rfl, _, by simp, Text.dropEnd?_eq_some.mp htsx⟩
      | none => exact .inr ⟨rfl, Text.dropEnd?_eq_none.mp hts, Text.dropEnd?_eq_none.mp htsx⟩
  unfold cutTypeScript?
  cases hline : Text.dropEnd? "\n" file with
  | some line =>
    dsimp only
    obtain rfl := Text.dropEnd?_eq_some.mp hline
    rcases hcut line with ⟨stem, hstem, extension, hextension, rfl⟩ | ⟨hnone, -⟩
    · rw [hstem]
      exact .inl ⟨stem, _, rfl, .inr rfl, extension, hextension, rfl⟩
    · have hother : ∀ ending ∈ [Text.ofString ".ts", ".tsx"],
          ¬ending <:+ Text.ofString "\n" ∧ ¬Text.ofString "\n" <:+ ending := by decide
      rw [hnone]
      exact .inr ⟨rfl, Text.not_suffix_append line (hother _ (by simp)), Text.not_suffix_append line (hother _ (by simp))⟩
  | none =>
    dsimp only
    rcases hcut file with ⟨stem, hstem, extension, hextension, hfile⟩ | ⟨hnone, hends⟩
    · rw [hstem]
      exact .inl ⟨stem, [], rfl, .inl rfl, extension, hextension, by rw [hfile, List.append_nil]⟩
    · rw [hnone]
      exact .inr ⟨rfl, hends⟩

lemma cutTypeScript?_eq_some {stem lineEnd : Text} (h : cutTypeScript? file = some (stem, lineEnd)) :
    (lineEnd = [] ∨ lineEnd = "\n") ∧ ∃ extension ∈ [Text.ofString ".ts", ".tsx"], file = stem ++ extension ++ lineEnd := by
  rcases cutTypeScript?_cases file with ⟨_, _, hsome, hspec⟩ | ⟨hnone, -⟩
  · obtain ⟨rfl, rfl⟩ := Prod.mk.inj (Option.some.inj (hsome.symm.trans h))
    exact hspec
  · rw [h] at hnone
    cases hnone

lemma isTypeScript_below (front : Text) {file : Text} (h : Text.isTypeScript (front ++ "/" ++ file) = true) :
    file.isTypeScript = true := by
  obtain ⟨ending, hending, hsuffix⟩ := Text.isTypeScript_iff.mp h
  have hslash : ∀ ending ∈ typeScriptEndings, CodePoint.ofChar '/' ∉ ending := by decide
  rw [List.append_assoc] at hsuffix
  exact Text.isTypeScript_iff.mpr ⟨ending, hending, Text.suffix_of_suffix_append (hslash ending hending) hsuffix⟩

/-- If no extension that is tried makes a TypeScript file, then one that is found has the name of the path. -/
lemma last_of_found (hextensions : ∀ e ∈ extensions, e = [] ∨ IsSegment e)
    (hfound : FoundBelow fs root path extensions file)
    (hcompiled : ∀ e ∈ extensions, e ≠ [] → e <:+ file → file.isTypeScript = false) (h : file.isTypeScript = true) :
    ∃ last, (Path.ofText path).segments.getLast? = some last ∧ last <:+ file ∧ last.isTypeScript = true := by
  rcases found_cases hextensions hfound with rfl | ⟨front, last, rfl, extension, hextension, hname⟩
  · exact absurd h (by decide)
  · have hlast := Text.isTypeScript_joinWith h
    have hsuffix := Text.last_suffix_joinWith front last
    rcases hname with ⟨hne, hend⟩ | ⟨-, rfl | hpath⟩
    · rw [hcompiled extension hextension hne (hend.trans hsuffix)] at h
      cases h
    · exact absurd hlast (by decide)
    · exact ⟨last, hpath, hsuffix, hlast⟩

lemma compiled_extensions : ∀ extension ∈ [Text.ofString ".js", ".jsx", ".mjs", ".cjs"],
    ∀ ending ∈ typeScriptEndings, ¬ending <:+ extension ∧ ¬extension <:+ ending := by
  decide

lemma isTypeScript_of_exact {e : Text} (he : e ∈ exactExtensions) (hne : e ≠ []) (hend : e <:+ file)
    (hts : ¬Text.ofString ".ts" <:+ file) (htsx : ¬Text.ofString ".tsx" <:+ file) : file.isTypeScript = false := by
  simp only [exactExtensions, List.mem_cons, List.not_mem_nil, or_false] at he
  rcases he with rfl | rfl | rfl | rfl | rfl | rfl | rfl
  · exact absurd rfl hne
  · exact Text.isTypeScript_eq_false (compiled_extensions _ (by simp)) hend
  · exact absurd hend hts
  · exact Text.isTypeScript_eq_false (compiled_extensions _ (by simp)) hend
  · exact absurd hend htsx
  · exact Text.isTypeScript_eq_false (compiled_extensions _ (by simp)) hend
  · exact Text.isTypeScript_eq_false (compiled_extensions _ (by simp)) hend

/-- What a file in a build directory is compiled to in place, if it ends like TypeScript. -/
def compiledFile (file : Text) : Text :=
  match cutTypeScript? file with
  | some (stem, lineEnd) => stem ++ ".js" ++ lineEnd
  | none => file

lemma otherwise_of_built {directory : Text} (h : builtConditions fs r directory file = .ok cs) :
    cs.otherwise = some ("./" ++ directory ++ "/" ++ compiledFile file) := by
  obtain ⟨source, -, hcs⟩ := bind_ok_iff.mp h
  obtain rfl := Except.ok.inj hcs
  rfl

lemma runtime_built {P : Text → Prop} {directory : Text} (h : builtConditions fs r directory file = .ok cs)
    (htarget : ∀ target ∈ cs.otherwise, P target) : Runtime P cs := by
  obtain ⟨source, -, hcs⟩ := bind_ok_iff.mp h
  obtain rfl := Except.ok.inj hcs
  refine ⟨?_, ?_, htarget⟩
  · intro target himported
    dsimp only at himported
    split_ifs at himported
    · obtain rfl := Option.some.inj himported
      exact htarget _ rfl
    · cases himported
  · intro target hnone
    cases hnone

lemma keepsName_built {directory relative : Text} (hroot : (directory, relative) ∈ r.searchRoots)
    (hfound : FoundBelow fs (r.package / directory) relative exactExtensions file)
    (h : builtConditions fs r directory file = .ok cs) : Runtime (KeepsName r.path) cs := by
  apply runtime_built h
  intro target hotherwise
  rw [otherwise_of_built h, compiledFile] at hotherwise
  obtain rfl := Option.some.inj hotherwise
  rcases cutTypeScript?_cases file with ⟨stem, lineEnd, hcut, hline, -⟩ | ⟨hcut, hts, htsx⟩
  · rw [hcut]
    have hend : Text.ofString ".js" ++ lineEnd <:+ "./" ++ directory ++ "/" ++ (stem ++ ".js" ++ lineEnd) := by
      rw [List.append_assoc stem, ← List.append_assoc _ stem]
      exact List.suffix_append _ _
    refine keepsName_of_ending r.path ?_ hend
    rcases hline with rfl | rfl <;> decide
  · rw [hcut]
    intro htypes
    obtain ⟨last, hlast, hsuffix, hname⟩ := last_of_found (by decide) hfound
      (fun e he hne hend => isTypeScript_of_exact he hne hend hts htsx) (isTypeScript_below _ htypes)
    rcases searchRoots_cases hroot with rfl | ⟨before, hsegments⟩
    · obtain rfl : Text.ofString "index" = last := Option.some.inj hlast
      exact absurd hname (by decide)
    · have hpath : (Path.ofText r.path).segments.getLast? = some last := by
        rw [← hsegments, List.getLast?_append, hlast]
        rfl
      rw [Path.name_of_getLast? hpath]
      exact ⟨isTypeScript_afterPoint hname, hsuffix.trans (List.suffix_append _ _)⟩

lemma keepsName_script (path front : Text) : KeepsName path (front ++ ".js") :=
  keepsName_of_ending path (compiled_extensions ".js" (by simp)) (List.suffix_append _ _)

lemma keepsName_predicted (directory file : Text) : Runtime (KeepsName r.path) (predictedConditions r directory file) := by
  refine ⟨?_, ?_, ?_⟩
  · rintro target ⟨⟩
    exact keepsName_script _ _
  · intro target hnone
    cases hnone
  · rintro target ⟨⟩
    exact keepsName_script _ _

lemma keepsName_assumption (h : (assumption fs r).result = .ok cs) : Runtime (KeepsName r.path) cs := by
  obtain ⟨source, -, rfl⟩ := assumption_eq_ok.mp h
  refine ⟨?_, ?_, ?_⟩
  · intro target hnone
    cases hnone
  · intro target hnone
    cases hnone
  · rintro target ⟨⟩
    exact keepsName_script _ _

end EntryRequest

namespace Expansion

open EntryRequest

/-- A path whose last segment ends like TypeScript only if the name of another path does, if need be after a point. -/
def BaseKeepsName (path base : Text) : Prop :=
  ∀ last, (Path.ofText base).segments.getLast? = some last → last.isTypeScript = true →
    Text.isTypeScript ("." ++ (Path.ofText path).name) = true ∧ (Path.ofText path).name <:+ last

variable {fs : FileSystem} {package : Path} {path : Text}

lemma keepsName_resolve? {base target : Text} (hbase : BaseKeepsName path base)
    (h : resolve? fs package extensions base = .ok (some target)) : KeepsName path target := by
  intro htypes
  obtain ⟨-, file, hfound, rfl⟩ := resolve?_eq_some.mp h
  have hcompiled : ∀ e ∈ extensions, e ≠ [] → e <:+ file → file.isTypeScript = false := by
    intro e he hne hend
    simp only [extensions, List.mem_cons, List.not_mem_nil, or_false] at he
    rcases he with rfl | rfl | rfl | rfl
    · exact absurd rfl hne
    all_goals exact Text.isTypeScript_eq_false (compiled_extensions _ (by simp)) hend
  have hfile : file.isTypeScript = true := isTypeScript_below "." htypes
  obtain ⟨last, hlast, hsuffix, hname⟩ := last_of_found (by decide) hfound hcompiled hfile
  obtain ⟨hpoint, hkept⟩ := hbase last hlast hname
  exact ⟨hpoint, (hkept.trans hsuffix).trans (List.suffix_append _ _)⟩

lemma baseKeepsName_of_suffix {base : Text} (h : (Path.ofText base).segments <:+ (Path.ofText path).segments) :
    BaseKeepsName path base := by
  intro last hlast hname
  obtain ⟨before, hsegments⟩ := h
  have hpath : (Path.ofText path).segments.getLast? = some last := by
    rw [← hsegments, List.getLast?_append, hlast]
    rfl
  rw [Path.name_of_getLast? hpath]
  exact ⟨isTypeScript_afterPoint hname, List.suffix_rfl⟩

lemma belowBase_suffix (path : Text) (bases : List Text) :
    (Path.ofText (belowBase path bases)).segments <:+ (Path.ofText path).segments := by
  unfold belowBase
  dsimp only
  cases hfound : (bases.filter fun base => decide (base ≠ [] ∧ base ≠ ".")).findSome? fun base =>
      Text.dropStart? (base ++ "/") path with
  | none => exact List.suffix_rfl
  | some rest =>
    obtain ⟨base, -, hdrop⟩ := List.exists_of_findSome?_eq_some hfound
    rw [Text.dropStart?_eq_some.mp hdrop, Path.segments_slash]
    exact List.suffix_append _ _

lemma isSegment_of_known {word : Text} (h : Flavor.ofWord word ≠ .unknown) :
    IsSegment word ∧ CodePoint.ofChar '.' ∉ word := by
  have hdot : CodePoint.ofChar '.' ∉ word := Flavor.notMem_of_ofWord (by decide) (by decide) (by decide) h
  have hslash : CodePoint.ofChar '/' ∉ word := Flavor.notMem_of_ofWord (by decide) (by decide) (by decide) h
  refine ⟨⟨Flavor.ne_nil_of_ofWord h, ?_, hslash⟩, hdot⟩
  rintro rfl
  exact hdot List.mem_cons_self

lemma baseKeepsName_byDirectory (base : Text) (bases : List Text) {word : Text}
    (hword : Flavor.ofWord word ≠ .unknown) :
    BaseKeepsName path (joinParts [base, word, belowBase (Relative.bare path) bases]) := by
  intro last hlast hname
  obtain ⟨hsegment, hdot⟩ := isSegment_of_known hword
  have hbelow := belowBase_suffix (Relative.bare path) bases
  rw [Relative.segments_bare] at hbelow
  rw [Path.segments_joinParts, List.flatMap_cons, List.flatMap_cons, List.flatMap_singleton,
    Path.ofText_of_isSegment hsegment, List.getLast?_append] at hlast
  rcases hrest : (Path.ofText (belowBase (Relative.bare path) bases)).segments.getLast? with _ | found
  · rw [List.getLast?_append, hrest] at hlast
    obtain rfl : word = last := Option.some.inj hlast
    obtain ⟨ending, hending, hsuffix⟩ := Text.isTypeScript_iff.mp hname
    have hpoint : ∀ ending ∈ typeScriptEndings, CodePoint.ofChar '.' ∈ ending := by decide
    exact absurd (hsuffix.subset (hpoint ending hending)) hdot
  · rw [List.getLast?_append, hrest] at hlast
    obtain rfl : found = last := Option.some.inj hlast
    exact baseKeepsName_of_suffix hbelow found hrest hname

lemma baseKeepsName_byExtension (base : Text) {extension : Text} (h : Flavor.ofExtension extension ≠ .unknown) :
    BaseKeepsName path (base ++ extension) := by
  intro last hlast hname
  have hsegment : ∀ e ∈ [Text.ofString ".cjs", ".mjs", ".js"], IsSegment e := by decide
  have hmem := Flavor.mem_extensions h
  have hbefore := Path.getLast?_segments_append base (hsegment extension hmem)
  obtain rfl := Option.some.inj (hbefore.symm.trans hlast)
  have hcompiled : ∀ e ∈ [Text.ofString ".cjs", ".mjs", ".js"],
      ∀ ending ∈ typeScriptEndings, ¬ending <:+ e ∧ ¬e <:+ ending := by decide
  rw [Text.isTypeScript_eq_false (hcompiled extension hmem) (List.suffix_append _ _)] at hname
  cases hname

lemma separator_of_nameStart? {name word separator rest : Text}
    (h : BuildPattern.nameStart? name = some (word, separator, rest)) : separator = "." ∨ separator = "-" := by
  unfold BuildPattern.nameStart? at h
  dsimp only at h
  split_ifs at h
  split at h
  · obtain ⟨hc, hsome⟩ := Option.ite_none_right_eq_some.mp h
    obtain ⟨-, hpair⟩ := Prod.mk.inj (Option.some.inj hsome)
    obtain ⟨rfl, -⟩ := Prod.mk.inj hpair
    rcases hc with rfl | rfl
    · exact .inl rfl
    · exact .inr rfl
  · cases h

/-- A TypeScript ending after a word without a point and a separator is one of the rest after a point. -/
lemma ending_of_marked {word separator rest ending : Text} (hending : ending ∈ typeScriptEndings)
    (hword : CodePoint.ofChar '.' ∉ word) (hseparator : separator = "." ∨ separator = "-")
    (h : ending <:+ word ++ separator ++ rest) : ending <:+ "." ++ rest := by
  have hpoint : ∀ ending ∈ typeScriptEndings, ∃ chars, ending = CodePoint.ofChar '.' :: chars := by
    intro ending hending
    simp only [typeScriptEndings, List.mem_cons, List.not_mem_nil, or_false] at hending
    rcases hending with rfl | rfl | rfl | rfl <;> exact ⟨_, rfl⟩
  obtain ⟨chars, rfl⟩ := hpoint ending hending
  rw [List.append_assoc] at h
  have hshort : CodePoint.ofChar '.' :: chars <:+ separator ++ rest := by
    rcases List.suffix_or_suffix_of_suffix h (List.suffix_append word (separator ++ rest)) with hshort | ⟨before, hlong⟩
    · exact hshort
    · cases before with
      | nil => exact ⟨[], hlong.symm⟩
      | cons c before =>
        obtain ⟨rfl, -⟩ := List.cons.inj hlong
        rw [← hlong] at h
        obtain ⟨front, hfront⟩ := h
        rw [← List.append_assoc] at hfront
        have hmem : CodePoint.ofChar '.' ∈ word := by
          rw [← List.append_cancel_right hfront]
          simp
        exact absurd hmem hword
  rcases hseparator with rfl | rfl
  · exact hshort
  · rcases List.suffix_cons_iff.mp hshort with heq | hrest
    · exact absurd (List.cons.inj heq).1 (by decide)
    · exact hrest.trans (List.suffix_append _ _)

lemma baseKeepsName_byNameStart (directory : Text) {side : BuildSide} (hword : Flavor.ofWord side.marker ≠ .unknown)
    (hseparator : side.separator = "." ∨ side.separator = "-") :
    BaseKeepsName path (markedName side directory (Written.split (Relative.bare path)).2) := by
  intro last hlast hname
  obtain ⟨front, hrow⟩ := Written.splitOn_split (Relative.bare path)
  set name := (Written.split (Relative.bare path)).2
  obtain ⟨hsegment, hdot⟩ := isSegment_of_known hword
  have hslash : CodePoint.ofChar '/' ∉ name :=
    Text.notMem_of_mem_splitOn (t := Relative.bare path) (by rw [hrow]; simp)
  have hshape : side.separator ≠ [] ∧ CodePoint.ofChar '/' ∉ side.separator := by
    rcases hseparator with h | h <;> rw [h] <;> decide
  have hmarked : IsSegment (side.marker ++ side.separator ++ name) :=
    (hsegment.append hshape.2).append hslash
  rw [markedName, if_neg (by simpa using hshape.1), Path.segments_joinParts, List.flatMap_cons, List.flatMap_singleton,
    Path.ofText_of_isSegment hmarked, List.getLast?_concat] at hlast
  obtain rfl := Option.some.inj hlast
  obtain ⟨ending, hending, hsuffix⟩ := Text.isTypeScript_iff.mp hname
  have hpoint := ending_of_marked hending hdot hseparator hsuffix
  have htypes : Text.isTypeScript ("." ++ name) = true := Text.isTypeScript_iff.mpr ⟨ending, hending, hpoint⟩
  have hkept : name ≠ [] ∧ name ≠ "." := by
    constructor
    · intro hnil
      rw [hnil] at htypes
      exact absurd htypes (by decide)
    · intro hone
      rw [hone] at htypes
      exact absurd htypes (by decide)
  have hpath := Path.getLast?_segments hrow hkept.1 hkept.2
  rw [Relative.segments_bare] at hpath
  rw [Path.name_of_getLast? hpath]
  exact ⟨htypes, List.suffix_append _ _⟩

/-- The paths of two builds keep the name of a path. -/
lemma baseKeepsName_candidates {main module : Text} {kind : PatternKind} {cjs esm : BuildSide}
    (h : BuildPattern.Detected main module (.dual kind cjs esm)) (path : Text) :
    BaseKeepsName path (candidates kind cjs esm (Relative.bare path)).1 ∧
      BaseKeepsName path (candidates kind cjs esm (Relative.bare path)).2 := by
  cases h with
  | @byDirectory _ _ _ _ _ _ side hmain hmodule hne hside =>
    obtain ⟨hword, hword'⟩ := Flavor.known_of_cjsSide? hside
    cases side with
    | first => exact ⟨baseKeepsName_byDirectory _ _ hword, baseKeepsName_byDirectory _ _ hword'⟩
    | second => exact ⟨baseKeepsName_byDirectory _ _ hword', baseKeepsName_byDirectory _ _ hword⟩
  | @byExtension _ _ _ side hmain hmodule hside =>
    obtain ⟨hknown, hknown'⟩ := Flavor.known_of_cjsSide? hside
    cases side with
    | first => exact ⟨baseKeepsName_byExtension _ hknown, baseKeepsName_byExtension _ hknown'⟩
    | second => exact ⟨baseKeepsName_byExtension _ hknown', baseKeepsName_byExtension _ hknown⟩
  | @byNameStart _ _ _ _ _ _ _ _ side hmain hmodule hmainStart hmoduleStart hside =>
    obtain ⟨hword, hword'⟩ := Flavor.known_of_cjsSide? hside
    have hmainSeparator := separator_of_nameStart? hmainStart
    have hmoduleSeparator := separator_of_nameStart? hmoduleStart
    cases side with
    | first =>
      exact ⟨baseKeepsName_byNameStart _ hword hmainSeparator, baseKeepsName_byNameStart _ hword' hmoduleSeparator⟩
    | second =>
      exact ⟨baseKeepsName_byNameStart _ hword' hmoduleSeparator, baseKeepsName_byNameStart _ hword hmainSeparator⟩

lemma keepsName_expand {main module : Option Text} {sources : List Text} {cs : Conditions}
    (h : expand fs package (BuildPattern.detect main module) path sources = .ok (some cs)) :
    Runtime (KeepsName path) cs := by
  cases hpattern : BuildPattern.detect main module with
  | single =>
    rw [hpattern] at h
    cases h
  | dual kind cjs esm =>
    rw [hpattern] at h
    obtain ⟨mainPath, modulePath, -, -, hdetected⟩ := BuildPattern.detected_of_detect hpattern
    obtain ⟨-, cjsFile, esmFile, ownFile, file, source, hcjs, hesm, hown, hfile, -, rfl⟩ := expand_eq_some.mp h
    obtain ⟨hcjsBase, hesmBase⟩ := baseKeepsName_candidates hdetected path
    have hownBase : BaseKeepsName path (Relative.bare path) :=
      baseKeepsName_of_suffix (Relative.segments_bare path ▸ List.suffix_rfl)
    refine ⟨?_, ?_, ?_⟩
    · rintro target rfl
      exact keepsName_resolve? hesmBase hesm
    · rintro target rfl
      exact keepsName_resolve? hcjsBase hcjs
    · rintro target ⟨⟩
      rcases eq_of_first hfile with rfl | rfl | rfl
      · exact keepsName_resolve? hownBase hown
      · exact keepsName_resolve? hesmBase hesm
      · exact keepsName_resolve? hcjsBase hcjs

lemma otherwise_of_isFile (hpackage : package.IsClean) (hpath : Relative.IsTidy path)
    (hfile : fs.isFile (package / path).text = true) {kind : PatternKind} {cjs esm : BuildSide} {sources : List Text}
    {found : Option Conditions} (h : expand fs package (.dual kind cjs esm) path sources = .ok found) :
    ∃ cs, found = some cs ∧ cs.otherwise = some (Relative.dotted path) := by
  have hkept := joinWith_of_segments (Text.splitOn_ne_nil (CodePoint.ofChar '/') (Relative.bare path)) hpath
  rw [Text.joinWith_splitOn] at hkept
  unfold expand at h
  dsimp only at h
  rw [if_neg (not_or.mpr hkept), resolve?_of_isTidy hpackage hpath hfile] at h
  obtain ⟨cjsFile, -, h⟩ := bind_ok_iff.mp h
  obtain ⟨esmFile, -, h⟩ := bind_ok_iff.mp h
  obtain ⟨ownFile, hown, h⟩ := bind_ok_iff.mp h
  obtain rfl := Except.ok.inj hown
  obtain ⟨source, -, h⟩ := bind_ok_iff.mp h
  obtain rfl := Except.ok.inj h
  exact ⟨_, rfl, rfl⟩

end Expansion

namespace EntryRequest

variable {fs : FileSystem} {r : EntryRequest} {cs : Conditions}

/-- In whichever way a path gets its targets, those that a runtime takes keep the name of the path. -/
theorem Resolved.keepsName {main module : Option Text} (hpattern : r.pattern = BuildPattern.detect main module)
    (h : Resolved fs r cs) : Runtime (KeepsName r.path) cs := by
  cases h with
  | built hroot hfound h => exact keepsName_built hroot hfound h
  | expanded h =>
    rw [hpattern] at h
    exact Expansion.keepsName_expand h
  | predicted hdirectory hfound => exact keepsName_predicted _ _
  | assumed h => exact keepsName_assumption h

lemma otherwise_of_isFile {kind : PatternKind} {cjs esm : BuildSide} (hpattern : r.pattern = .dual kind cjs esm)
    (hpackage : r.package.IsClean) (hpath : Relative.IsTidy r.path)
    (hfile : fs.isFile (r.package / r.path).text = true)
    (h : (r.conditions fs Strategy.expansionFirst).result = .ok cs) : cs.otherwise = some (Relative.dotted r.path) := by
  rw [Strategy.expansionFirst, conditions, Attempt.result_bind] at h
  obtain ⟨found, hfound, h⟩ := bind_ok_iff.mp h
  have hexpand : Expansion.expand fs r.package (.dual kind cjs esm) r.path r.sourceDirectories = .ok found := by
    rw [← hpattern]
    exact hfound
  obtain ⟨first, rfl, hotherwise⟩ := Expansion.otherwise_of_isFile hpackage hpath hfile hexpand
  obtain rfl : first = cs := Except.ok.inj h
  exact hotherwise

/-- Under `import`, under `require` and without a condition, an export leads to a TypeScript file only if the imported
path ends in a TypeScript extension itself, be it in the letters of one; the target then has the last name of the path.
So a path of another name never leads to TypeScript, whatever the package holds and in whatever order the strategies are
tried. A path of a package with two builds that leads to a file does lead there, whichever extension it has. -/
theorem runtime_targets_keep_name {main module : Option Text}
    (hpattern : r.pattern = BuildPattern.detect main module) {strategies : List Strategy}
    (h : (r.conditions fs strategies).result = .ok cs) :
    (∀ c ∈ [Condition.imported, .required, .otherwise], ∀ target, cs.target? c = some target →
      target.isTypeScript = true →
        Text.isTypeScript ("." ++ (Path.ofText r.path).name) = true ∧ (Path.ofText r.path).name <:+ target) ∧
    (strategies = Strategy.expansionFirst → r.pattern.isDual = true → r.package.IsClean → Relative.IsProper r.path →
      fs.isFile (r.package / r.path).text = true → cs.otherwise = some (Relative.dotted r.path)) := by
  constructor
  · intro c hc target htarget
    have hruntime := (resolved_of_conditions h).keepsName hpattern
    obtain ⟨hmem, -⟩ := Option.filter_eq_some_iff.mp htarget
    simp only [List.mem_cons, List.not_mem_nil, or_false] at hc
    rcases hc with rfl | rfl | rfl
    · exact hruntime.imported target hmem
    · exact hruntime.required target hmem
    · exact hruntime.otherwise target hmem
  · rintro rfl hdual hpackage hpath hfile
    cases hkind : r.pattern with
    | single =>
      rw [hkind] at hdual
      cases hdual
    | dual kind cjs esm => exact otherwise_of_isFile hkind hpackage hpath.isSegment hfile h

/-- A package with two builds that also holds a TypeScript file beside them. -/
def besideBuilds : FileSystem :=
  (((((FileSystem.empty.put ["lib"] .directory).put ["lib", "cjs"] .directory).put ["lib", "esm"] .directory).put
    ["lib", "cjs", "index.js"] (.file [])).put ["lib", "esm", "index.js"] (.file [])).put ["lib", "utils.ts"] (.file [])

def utilsRequest : EntryRequest where
  path := "./lib/utils.ts"
  package := Path.ofText "."
  pattern := BuildPattern.detect (some "./lib/cjs/index.js") (some "./lib/esm/index.js")

/-- The file is found by its own name. -/
theorem runtime_targets_keep_name_utils : ∃ cs,
    (utilsRequest.conditions besideBuilds Strategy.expansionFirst).result = .ok cs ∧
      cs.otherwise = some (Relative.dotted utilsRequest.path) ∧
      Text.isTypeScript ("." ++ (Path.ofText utilsRequest.path).name) = true ∧
      (Path.ofText utilsRequest.path).name <:+ Text.ofString "./lib/utils.ts" := by
  have htarget : ((utilsRequest.conditions besideBuilds Strategy.expansionFirst).result.toOption.map
      fun cs => cs.target? .otherwise) = some (some (Text.ofString "./lib/utils.ts")) := by decide +kernel
  obtain ⟨cs, hcs, hotherwise⟩ := Option.map_eq_some_iff.mp htarget
  have hok := ok_of_toOption hcs
  have hpattern : utilsRequest.pattern =
      BuildPattern.detect (some "./lib/cjs/index.js") (some "./lib/esm/index.js") := rfl
  obtain ⟨hname, hfile⟩ := runtime_targets_keep_name hpattern hok
  have hown := hfile rfl (by decide) (Path.isClean_ofText ".") (by decide) (by decide +kernel)
  exact ⟨cs, hok, hown, hname .otherwise (by simp) _ hotherwise (by decide)⟩

/-- An export without a condition that is a TypeScript file. -/
theorem typeScript_target_of_path : ∃ cs,
    (utilsRequest.conditions besideBuilds Strategy.expansionFirst).result = .ok cs ∧
      cs.target? .otherwise = some "./lib/utils.ts" ∧ Text.isTypeScript "./lib/utils.ts" = true ∧
      cs.toExport = .string "./lib/utils.ts" := by
  have htargets : (utilsRequest.conditions besideBuilds Strategy.expansionFirst).result.toOption =
      some { otherwise := some "./lib/utils.ts" } := by decide +kernel
  exact ⟨_, ok_of_toOption htargets, rfl, by decide, rfl⟩

end EntryRequest

end PackageExports
