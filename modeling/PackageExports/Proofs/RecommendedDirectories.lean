import PackageExports.Proofs.KeptStructure

/-!
# Recommended directories

The directories that settings are given for a package are names at its top: those that compiler options name come first,
those that were detected follow. A path of the compiler options names a directory at the top unless it leads out of the
package or to the package itself when it is reckoned; it is reckoned after `./` was taken off, once when the options are
read and once more here. What neither names nor finds any directory leaves a list of the settings as it is.

Main results: `Written.normalize_cases`, `BuildLayout.isOutside_iff`, `BuildLayout.topLevel?_cases`,
`BuildLayout.recommended_directories`.
-/

namespace PackageExports

open PackageExports.Path (IsSegment)

namespace Written

variable {absolute : Bool} {done pieces : List Text} {segment path : Text}

/-! ### Reckoned paths -/

lemma isSegment_reckon (hdone : ∀ s ∈ done, IsSegment s) (hslash : CodePoint.ofChar '/' ∉ segment) :
    ∀ s ∈ reckon absolute done segment, IsSegment s := by
  unfold reckon
  by_cases hnone : segment = [] ∨ segment = "."
  · rw [if_pos hnone]
    exact hdone
  obtain ⟨hne, hdot⟩ := not_or.mp hnone
  have hsegment : IsSegment segment := ⟨hne, hdot, hslash⟩
  by_cases hname : segment ≠ ".."
  · rw [if_neg hnone, if_pos hname]
    exact List.forall_mem_cons.mpr ⟨hsegment, hdone⟩
  rw [if_neg hnone, if_neg hname]
  cases done with
  | nil =>
    dsimp only
    split_ifs
    · simp
    · exact List.forall_mem_singleton.mpr hsegment
  | cons last earlier =>
    dsimp only
    split_ifs
    · exact List.forall_mem_cons.mpr ⟨hsegment, hdone⟩
    · exact (List.forall_mem_cons.mp hdone).2

lemma isSegment_foldl_reckon (hdone : ∀ s ∈ done, IsSegment s) (hpieces : ∀ s ∈ pieces, CodePoint.ofChar '/' ∉ s) :
    ∀ s ∈ pieces.foldl (reckon absolute) done, IsSegment s := by
  induction pieces generalizing done with
  | nil => exact hdone
  | cons piece rest ih =>
    obtain ⟨hpiece, hrest⟩ := List.forall_mem_cons.mp hpieces
    exact ih (isSegment_reckon hdone hpiece) hrest

lemma normalize_cases (path : Text) :
    Text.startsWith (normalize path) "/" = true ∨ normalize path = "." ∨
      ∃ first rest, normalize path = Text.joinWith "/" (first :: rest) ∧ ∀ s ∈ first :: rest, IsSegment s := by
  have hsegments : ∀ s ∈ ((Text.splitOn '/' path).foldl (reckon !(leadingSlashes path).isEmpty) []).reverse, IsSegment s :=
    fun s hs => isSegment_foldl_reckon (by simp) (fun _ hpiece => Text.notMem_of_mem_splitOn hpiece) s
      (List.mem_reverse.mp hs)
  have hslashes : leadingSlashes path = [] ∨ ∃ more, leadingSlashes path = CodePoint.ofChar '/' :: more := by
    unfold leadingSlashes
    split
    · exact .inl rfl
    · exact .inr ⟨_, rfl⟩
    · exact .inr ⟨_, rfl⟩
  rcases hslashes with hnone | ⟨more, hsome⟩
  · right
    unfold normalize
    dsimp only
    rw [hnone] at hsegments ⊢
    rw [List.nil_append]
    cases hreckoned : ((Text.splitOn '/' path).foldl (reckon !([] : Text).isEmpty) []).reverse with
    | nil => exact .inl rfl
    | cons first rest =>
      rw [hreckoned] at hsegments
      refine .inr ⟨first, rest, if_neg ?_, hsegments⟩
      intro hempty
      have hread := Path.segments_joinWith hsegments
      rw [List.isEmpty_iff.mp hempty] at hread
      cases hread
  · left
    unfold normalize
    dsimp only
    rw [hsome]
    rfl

lemma normalize_bare (h : (Path.ofText (Relative.bare path)).anchor = .relative) :
    normalize (Relative.bare path) = normalize path := by
  unfold Relative.bare at h ⊢
  cases hdrop : Text.dropStart? "./" path with
  | none => rfl
  | some rest =>
    rw [hdrop, Option.getD_some] at h
    obtain rfl := Text.dropStart?_eq_some.mp hdrop
    have hslashes : leadingSlashes rest = [] := by
      rw [Path.anchor_eq_relative] at h
      unfold leadingSlashes
      cases rest with
      | nil => rfl
      | cons c rest =>
        have hc : c ≠ CodePoint.ofChar '/' := fun hc => h (congrArg some hc)
        simp [Text.leading, hc]
    unfold normalize
    rw [Option.getD_some, hslashes]
    rfl

end Written

namespace BuildLayout

variable {fs : FileSystem} {package : Path} {path name : Text} {paths detected fallback extra : List Text}

/-! ### Paths of compiler options -/

/-- A path of compiler options as it is looked at: `./` is taken off when it is read and before it is reckoned. So
`.//x` is the absolute path `/x`. -/
def reckoned (path : Text) : Text :=
  Written.normalize (Relative.bare (Relative.bare path))

/-- A path of compiler options that names no directory inside the package. -/
def IsOutside (path : Text) : Prop :=
  reckoned path = "." ∨ Text.startsWith (reckoned path) "/" = true ∨ Text.startsWith (reckoned path) ".." = true

instance (path : Text) : Decidable (IsOutside path) :=
  inferInstanceAs (Decidable (_ ∨ _))

/-- A name that a directory at the top of a package can have. -/
def IsTopLevel (name : Text) : Prop :=
  name ≠ [] ∧ CodePoint.ofChar '/' ∉ name ∧ name ≠ "." ∧ Text.startsWith name ".." = false

instance (name : Text) : Decidable (IsTopLevel name) :=
  inferInstanceAs (Decidable (_ ∧ _))

/-- The directories at the top of the package that paths name. -/
def topsOf (paths : List Text) : List Text :=
  (paths.filter fun path => !decide (IsOutside path)).map fun path => firstSegment (reckoned path)

/-- Only what is absolute without its `./` is not reckoned as it is written. -/
lemma reckoned_eq (h : (Path.ofText (Relative.bare (Relative.bare path))).anchor = .relative) :
    reckoned path = Written.normalize path := by
  have hbare : (Path.ofText (Relative.bare path)).anchor = .relative := by
    cases hdrop : Text.dropStart? "./" (Relative.bare path) with
    | none =>
      rw [Relative.bare, hdrop] at h
      exact h
    | some rest =>
      rw [Text.dropStart?_eq_some.mp hdrop]
      rfl
  rw [reckoned, Written.normalize_bare h, Written.normalize_bare hbare]

/-- A path is outside if it is when it is reckoned as it is written, unless a slash follows the `./` that is taken off. -/
theorem isOutside_iff (h : (Path.ofText (Relative.bare (Relative.bare path))).anchor = .relative) :
    IsOutside path ↔ Written.normalize path = "." ∨ Text.startsWith (Written.normalize path) "/" = true ∨
      Text.startsWith (Written.normalize path) ".." = true := by
  rw [IsOutside, reckoned_eq h]

lemma firstSegment_joinWith {first : Text} (hfirst : CodePoint.ofChar '/' ∉ first) (rest : List Text) :
    firstSegment (Text.joinWith "/" (first :: rest)) = first := by
  have hall : ∀ c ∈ first, (c != CodePoint.ofChar '/') = true := by
    intro c hc
    rw [bne_iff_ne]
    rintro rfl
    exact hfirst hc
  rw [firstSegment]
  by_cases hrest : rest = []
  · rw [hrest]
    exact List.takeWhile_eq_self_iff.mpr hall
  · rw [Text.joinWith_cons _ _ hrest, List.append_assoc, List.takeWhile_append_of_pos hall]
    exact List.append_nil first

/-- What is reckoned to a row of names, and does not lead up, begins with a directory at the top. -/
lemma isTopLevel_of_row {first : Text} {rest : List Text} (hrow : reckoned path = Text.joinWith "/" (first :: rest))
    (hsegments : ∀ name ∈ first :: rest, IsSegment name) (hup : ¬Text.startsWith (reckoned path) ".." = true) :
    ¬Text.startsWith (reckoned path) "/" = true ∧ reckoned path ≠ [] ∧ IsTopLevel (firstSegment (reckoned path)) := by
  obtain ⟨hne, hfirstDot, hslash⟩ := hsegments first List.mem_cons_self
  have hfirst : firstSegment (reckoned path) = first := by
    rw [hrow]
    exact firstSegment_joinWith hslash rest
  have hanchor := Path.anchor_eq_relative.mp (Path.anchor_joinWith hsegments)
  rw [← hrow] at hanchor
  refine ⟨fun hstart => ?_, fun hempty => ?_, ?_⟩
  · obtain ⟨more, hmore⟩ := List.isPrefixOf_iff_prefix.mp hstart
    rw [← hmore] at hanchor
    exact hanchor rfl
  · rw [hempty] at hfirst
    exact hne hfirst.symm
  · rw [hfirst]
    refine ⟨hne, hslash, hfirstDot, ?_⟩
    rw [Bool.eq_false_iff]
    intro hstart
    have hprefix : first <+: reckoned path := by
      rw [← hfirst]
      exact List.takeWhile_prefix _
    exact hup (List.isPrefixOf_iff_prefix.mpr ((List.isPrefixOf_iff_prefix.mp hstart).trans hprefix))

/-- A path of compiler options names a directory at the top of the package, or it names none or nothing. -/
lemma topLevel?_cases (path : Text) :
    (IsOutside path ∧ ∀ name ∈ topLevel? (Relative.bare path), name = []) ∨
      ¬IsOutside path ∧ topLevel? (Relative.bare path) = some (firstSegment (reckoned path)) ∧
        IsTopLevel (firstSegment (reckoned path)) := by
  have htop : topLevel? (Relative.bare path) =
      if reckoned path = "." ∨ reckoned path = [] ∨ Text.startsWith (reckoned path) ".." then none
      else some (firstSegment (reckoned path)) :=
    rfl
  rw [htop]
  by_cases hnone : reckoned path = "." ∨ Text.startsWith (reckoned path) ".." = true
  · left
    refine ⟨hnone.imp_right .inr, ?_⟩
    rw [if_pos (hnone.imp_right .inr)]
    exact fun _ hmem => nomatch hmem
  obtain ⟨hdot, hup⟩ := not_or.mp hnone
  have hcases := Written.normalize_cases (Relative.bare (Relative.bare path))
  rcases hcases with habsolute | hhere | ⟨first, rest, hrow, hsegments⟩
  · left
    refine ⟨.inr (.inl habsolute), ?_⟩
    obtain ⟨more, hmore⟩ := List.isPrefixOf_iff_prefix.mp habsolute
    split_ifs
    · exact fun _ hmem => nomatch hmem
    · rintro name hname
      rw [← Option.some.inj hname, reckoned, ← hmore]
      rfl
  · exact absurd hhere hdot
  · right
    obtain ⟨hrelative, hwritten, htopLevel⟩ := isTopLevel_of_row hrow hsegments hup
    exact ⟨not_or.mpr ⟨hdot, not_or.mpr ⟨hrelative, hup⟩⟩, if_neg (not_or.mpr ⟨hdot, not_or.mpr ⟨hwritten, hup⟩⟩),
      htopLevel⟩

example : topsOf ["./dist//esm", "../build", "/tmp", "lib/..", "..types", ".//out"] = ["dist"] := by decide

/-! ### The choice -/

/-- A list of directories in which those that paths name come first and all that were detected are. -/
structure WellFormed (paths detected chosen : List Text) : Prop where
  ne_nil : chosen ≠ []
  nodup : chosen.Nodup
  topLevel : ∀ name ∈ chosen, IsTopLevel name
  complete : ∀ name ∈ detected, name ∈ chosen
  ordered : ∃ later, chosen = Text.dedup (topsOf paths) ++ later ∧
    ∀ name, name ∈ later ↔ name ∈ detected ∧ name ∉ topsOf paths

/-- A list of directories that is the fallback if there are none, and else well formed. -/
structure Recommends (paths detected fallback chosen : List Text) : Prop where
  kept : detected = [] → (∀ path ∈ paths, IsOutside path) → chosen = fallback
  wellFormed : (detected ≠ [] ∨ ∃ path ∈ paths, ¬IsOutside path) → WellFormed paths detected chosen

lemma topsOf_eq_nil : topsOf paths = [] ↔ ∀ path ∈ paths, IsOutside path := by
  simp [topsOf, List.map_eq_nil_iff, List.filter_eq_nil_iff]

lemma isTopLevel_of_topsOf (h : name ∈ topsOf paths) : IsTopLevel name := by
  obtain ⟨path, hpath, rfl⟩ := List.mem_map.mp h
  have hinside := (List.mem_filter.mp hpath).2
  rcases topLevel?_cases path with ⟨houtside, -⟩ | ⟨-, -, htop⟩
  · simp [houtside] at hinside
  · exact htop

lemma filter_topLevel? (paths : List Text) :
    (((paths.map Relative.bare).filterMap topLevel?).filter fun name => !name.isEmpty) = topsOf paths := by
  induction paths with
  | nil => rfl
  | cons path rest ih =>
    rw [List.map_cons, topsOf]
    rcases topLevel?_cases path with ⟨houtside, hnone⟩ | ⟨hinside, hsome, htop⟩
    · rw [List.filter_cons_of_neg (by simp [houtside])]
      cases hname : topLevel? (Relative.bare path) with
      | none =>
        rw [List.filterMap_cons_none hname]
        exact ih
      | some name =>
        rw [List.filterMap_cons_some hname, hnone name hname]
        exact ih
    · rw [List.filter_cons_of_pos (by simp [hinside]), List.filterMap_cons_some hsome,
        List.filter_cons_of_pos (by simpa using htop.1), List.map_cons]
      exact congrArg (_ :: ·) ih

lemma filter_own (h : ∀ name ∈ detected, IsTopLevel name ∧ topLevel? name = some name) :
    (detected.filter fun name => !name.isEmpty) = detected ∧ detected.filterMap topLevel? = detected := by
  constructor
  · exact List.filter_eq_self.mpr fun name hname => by simpa using (h name hname).1.1
  · induction detected with
    | nil => rfl
    | cons name rest ih =>
      obtain ⟨hname, hrest⟩ := List.forall_mem_cons.mp h
      rw [List.filterMap_cons_some hname.2, ih hrest]

section Chosen

variable {named : List (Option Text)} (hextra : ∀ name ∈ extra, name ∈ detected)
  (hdetected : ∀ name ∈ detected, IsTopLevel name ∧ topLevel? name = some name)

include hextra hdetected

/-- What is chosen if some of the detected directories are named again between the paths and the detected ones. -/
lemma choose_eq (hnamed : named.reduceOption = paths.map Relative.bare ++ extra) :
    choose named detected fallback =
      if (Text.dedup (topsOf paths ++ (extra ++ detected))).isEmpty then fallback
      else Text.dedup (topsOf paths ++ (extra ++ detected)) := by
  have hown := filter_own fun name hname => hdetected name (hextra name hname)
  have hfilter : (named.filterMap fun d => d.bind topLevel?) = named.reduceOption.filterMap topLevel? := by
    rw [List.reduceOption, List.filterMap_filterMap]
    rfl
  have hrow : (((named.filterMap fun d => d.bind topLevel?) ++ detected).filter fun name => !name.isEmpty) =
      topsOf paths ++ (extra ++ detected) := by
    rw [hfilter, hnamed, List.filterMap_append, List.filter_append, List.filter_append, filter_topLevel?, hown.2, hown.1,
      (filter_own hdetected).1, List.append_assoc]
  rw [choose, hrow]

lemma wellFormed_dedup (hsome : detected ≠ [] ∨ ∃ path ∈ paths, ¬IsOutside path) :
    WellFormed paths detected (Text.dedup (topsOf paths ++ (extra ++ detected))) := by
  obtain ⟨added, hadded, hmem⟩ := Text.exists_dedup_append (topsOf paths) (extra ++ detected)
  have hboth (name : Text) : name ∈ extra ++ detected ↔ name ∈ detected := by
    rw [List.mem_append, or_iff_right_of_imp (hextra name)]
  have hall (name : Text) : name ∈ Text.dedup (topsOf paths ++ (extra ++ detected)) ↔
      name ∈ topsOf paths ∨ name ∈ detected := by
    rw [Text.mem_dedup, List.mem_append, hboth]
  refine {
    ne_nil := fun hempty => ?_
    nodup := Text.nodup_dedup _
    topLevel := fun name hname => ((hall name).mp hname).elim isTopLevel_of_topsOf fun h => (hdetected name h).1
    complete := fun name hname => (hall name).mpr (.inr hname)
    ordered := ⟨added, hadded, fun name => by rw [hmem, hboth]⟩ }
  rw [hempty] at hall
  have htops : topsOf paths = [] :=
    List.eq_nil_iff_forall_not_mem.mpr fun name hname => List.not_mem_nil ((hall name).mpr (.inl hname))
  have hnone : detected = [] :=
    List.eq_nil_iff_forall_not_mem.mpr fun name hname => List.not_mem_nil ((hall name).mpr (.inr hname))
  rcases hsome with hdetectedSome | ⟨path, hpath, hinside⟩
  · exact hdetectedSome hnone
  · exact hinside (topsOf_eq_nil.mp htops path hpath)

lemma recommends_choose (hnamed : named.reduceOption = paths.map Relative.bare ++ extra) :
    Recommends paths detected fallback (choose named detected fallback) := by
  rw [choose_eq hextra hdetected hnamed]
  constructor
  · intro hnone houtside
    have hextraNone : extra = [] := List.eq_nil_iff_forall_not_mem.mpr fun name hname => by
      rw [hnone] at hextra
      exact List.not_mem_nil (hextra name hname)
    rw [topsOf_eq_nil.mpr houtside, hextraNone, hnone]
    rfl
  · intro hsome
    have hformed := wellFormed_dedup hextra hdetected hsome
    rwa [if_neg (by simpa using hformed.ne_nil)]

end Chosen

/-! ### The layout that is detected -/

lemma mem_keys_tally {items : List Text} (h : name ∈ (tally items).keys) : name ∈ items := by
  have hfold (counts : Keyed Text Nat) (h : name ∈ Keyed.keys
      (items.foldl (fun counts a => counts.insert a ((counts.get? a).getD 0 + 1)) counts)) :
      name ∈ counts.keys ∨ name ∈ items := by
    clear * - h
    induction items generalizing counts with
    | nil => exact .inl h
    | cons item rest ih =>
      rcases ih _ h with hcounts | hrest
      · rcases Keyed.mem_keys_insert.mp hcounts with rfl | hown
        · exact .inr List.mem_cons_self
        · exact .inl hown
      · exact .inr (List.mem_cons_of_mem _ hrest)
  exact (hfold [] h).resolve_left List.not_mem_nil

lemma mem_byFrequency {items : List Text} (h : name ∈ byFrequency items) : name ∈ items := by
  obtain ⟨count, hcount, rfl⟩ := List.mem_map.mp h
  exact mem_keys_tally (List.mem_map_of_mem (List.mem_mergeSort.mp hcount))

lemma firstSegment_of_seen {build seen : Text} {names : List Text} (hbuild : build ∈ usualBuildDirectories)
    (h : SearchPlan.seenFrom package ((package / build).join ⟨.relative, names⟩) = .ok seen) :
    firstSegment seen = build := by
  have hslash : ∀ build ∈ usualBuildDirectories, CodePoint.ofChar '/' ∉ build := by decide
  rw [joinText_usual package hbuild, Path.join, if_pos rfl, List.append_assoc, Path.seenFrom_below] at h
  rw [← Except.ok.inj h, Path.text, if_neg (by simp)]
  exact firstSegment_joinWith (hslash build hbuild) names

def optionPath? (fs : FileSystem) (package : Path) (name : Text) : Option Text :=
  let options := (((fs.readCompilerSettings package).value.value? "compilerOptions").map Json.membersOf).getD []
  (options.value? name).bind Json.nonemptyText?

/-- The paths that the compiler options of a package have under names. -/
def optionPaths (fs : FileSystem) (package : Path) (names : List Text) : List Text :=
  names.filterMap (optionPath? fs package)

lemma reduceOption_named (first second mostly : Option Text) :
    ([first.map Relative.bare, second.map Relative.bare <|> mostly] : List (Option Text)).reduceOption =
      [first, second].reduceOption.map Relative.bare ++ if second = none then mostly.toList else [] := by
  cases first <;> cases second <;> cases mostly <;> rfl

/-- For each package and all settings a layout is detected, and both lists of directories that are recommended are those of
the settings if no directory is detected or named inside the package, and else well formed: without repetition, all names
at the top, with all detected directories and first those that the compiler options name. Nothing else is changed. -/
theorem recommended_directories (fs : FileSystem) (package : Path) (base : Settings) :
    ∃ layout, (detect fs package).result = .ok layout ∧
      layout.buildDirectories = buildDirectoriesOf fs package ∧
      layout.sourceDirectories = sourceDirectoriesOf fs package ∧
      Recommends (optionPaths fs package ["outDir", "declarationDir"]) layout.buildDirectories base.buildDirectories
        (layout.recommend base).buildDirectories ∧
      Recommends (optionPaths fs package ["rootDir"]) layout.sourceDirectories base.sourceDirectories
        (layout.recommend base).sourceDirectories ∧
      { layout.recommend base with
        buildDirectories := base.buildDirectories, sourceDirectories := base.sourceDirectories } = base := by
  obtain ⟨layout, hdetected, hbuilds, hsources, -, declarations, htypes, hseen⟩ := exists_layout fs package
  have husual : ∀ names ∈ [usualBuildDirectories, usualSourceDirectories], ∀ name ∈ names,
      IsTopLevel name ∧ topLevel? name = some name := by decide
  have hmostly : ∀ name ∈ (byFrequency (declarations.map firstSegment)).head?, name ∈ layout.buildDirectories := by
    intro name hname
    obtain ⟨declaration, hdeclaration, rfl⟩ := List.mem_map.mp (mem_byFrequency (List.mem_of_mem_head? hname))
    obtain ⟨build, hbuild, names, hfound⟩ := hseen declaration hdeclaration
    rw [hbuilds] at hbuild ⊢
    rwa [firstSegment_of_seen (List.mem_filter.mp hbuild).1 hfound]
  have hbuildNames : ∀ name ∈ layout.buildDirectories, IsTopLevel name ∧ topLevel? name = some name := by
    intro name hname
    rw [hbuilds] at hname
    exact husual _ (by simp) name (List.mem_filter.mp hname).1
  have hsourceNames : ∀ name ∈ layout.sourceDirectories, IsTopLevel name ∧ topLevel? name = some name := by
    intro name hname
    rw [hsources] at hname
    exact husual _ (by simp) name (List.mem_filter.mp hname).1
  have hoften : ∀ name ∈ (if optionPath? fs package "declarationDir" = none then
      (byFrequency (declarations.map firstSegment)).head?.toList else []), name ∈ layout.buildDirectories := by
    intro name hname
    split_ifs at hname
    · exact hmostly name (Option.mem_toList.mp hname)
    · cases hname
  have hnone : ∀ name ∈ ([] : List Text), name ∈ layout.sourceDirectories := by simp
  refine ⟨layout, hdetected, hbuilds, hsources, recommends_choose hoften hbuildNames ?_,
    recommends_choose hnone hsourceNames ?_, rfl⟩
  · rw [htypes]
    exact reduceOption_named (optionPath? fs package "outDir") (optionPath? fs package "declarationDir") _
  · rw [htypes, List.append_nil]
    exact List.reduceOption_map (l := [optionPath? fs package "rootDir"])

end BuildLayout

end PackageExports
