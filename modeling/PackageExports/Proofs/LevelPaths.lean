import PackageExports.Proofs.RuntimeTargets
import PackageExports.Proofs.Surroundings

/-!
# Paths that stay inside

A path is level if none of its pieces leads up. What is cut from a level path, and gets a name at its end or a directory
in front of it, stays inside of the place from which it is followed: so do the paths at which sources, declarations and
the files of two builds are looked for.

Main results: `Path.isDown_append`, `SourceFile.isInside_candidates`, `Expansion.isDown_candidates`,
`BuildPattern.isLevel_detect`.
-/

namespace PackageExports

open FileSystem (IsName Stays)
open PackageExports.Path (IsSegment IsClean IsInner)

namespace Text

variable {t rest : Text}

lemma eq_up_of_append {a b : Text} (h : a ++ b = Text.ofString "..") :
    a = [] ∧ b = ".." ∨ a = "." ∧ b = "." ∨ a = ".." ∧ b = [] := by
  match a, h with
  | [], h => exact .inl ⟨rfl, h⟩
  | [c], h =>
    obtain ⟨rfl, hb⟩ := List.cons.inj h
    exact .inr (.inl ⟨rfl, hb⟩)
  | c :: d :: a, h =>
    obtain ⟨rfl, htail⟩ := List.cons.inj h
    obtain ⟨rfl, hnil⟩ := List.cons.inj htail
    obtain ⟨rfl, hb⟩ := List.append_eq_nil_iff.mp hnil
    exact .inr (.inr ⟨rfl, hb⟩)

lemma append_ne_up (t : Text) {name : Text} (h : IsName name) : t ++ name ≠ Text.ofString ".." := by
  intro heq
  rcases eq_up_of_append heq with ⟨-, hname⟩ | ⟨-, hname⟩ | ⟨-, hname⟩
  · exact h.2.2.1 hname
  · exact h.2.1 hname
  · exact h.1 hname

/-- No piece of a path leads up. -/
def Level (t : Text) : Prop :=
  Text.ofString ".." ∉ splitOn '/' t

/-- No piece of a path but the last one leads up. -/
def LevelFront (t : Text) : Prop :=
  Text.ofString ".." ∉ (splitOn '/' t).dropLast

instance (t : Text) : Decidable (Level t) :=
  inferInstanceAs (Decidable (¬_))

lemma level_iff : Level t ↔ Text.ofString ".." ∉ (Path.ofText t).segments := by
  rw [Level, Path.ofText]
  dsimp only
  rw [List.mem_filter, and_iff_left (by decide)]

lemma Level.levelFront (h : Level t) : LevelFront t :=
  fun hmem => h (List.dropLast_subset _ hmem)

lemma level_slash {a b : Text} : Level (a ++ "/" ++ b) ↔ Level a ∧ Level b := by
  rw [level_iff, Path.segments_slash, List.mem_append, not_or, ← level_iff, ← level_iff]

lemma levelFront_slash {a b : Text} : LevelFront (a ++ "/" ++ b) ↔ Level a ∧ LevelFront b := by
  rw [LevelFront, splitOn_slash, List.dropLast_append_of_ne_nil (splitOn_ne_nil _ _), List.mem_append, not_or]
  rfl

lemma levelFront_of_start (hstart : t <+: rest) (h : LevelFront rest) : LevelFront t := by
  obtain ⟨after, rfl⟩ := hstart
  obtain ⟨front, last, hrow, -⟩ := exists_splitOn t
  obtain ⟨first, more, -, hwhole⟩ := splitOn_append_text hrow after
  rw [LevelFront, hwhole, List.dropLast_append_of_ne_nil (by simp), List.mem_append, not_or] at h
  rw [LevelFront, hrow, List.dropLast_concat]
  exact h.1

lemma levelFront_of_notMem (h : CodePoint.ofChar '/' ∉ t) : LevelFront t := by
  rw [LevelFront, splitOn_of_notMem h]
  exact List.not_mem_nil

lemma LevelFront.append (h : LevelFront t) {name : Text} (hname : IsName name) : Level (t ++ name) := by
  obtain ⟨front, last, hrow, -⟩ := exists_splitOn t
  obtain ⟨first, more, hsplit, hwhole⟩ := splitOn_append_text hrow name
  rw [splitOn_of_notMem hname.2.2.2] at hsplit
  obtain ⟨rfl, rfl⟩ := List.cons.inj hsplit
  rw [LevelFront, hrow, List.dropLast_concat] at h
  rw [Level, hwhole, List.mem_append, List.mem_singleton, not_or]
  exact ⟨h, (append_ne_up last hname).symm⟩

lemma LevelFront.segments (h : LevelFront t) : Text.ofString ".." ∉ (Path.ofText t).segments.dropLast := by
  obtain ⟨front, last, hrow, -⟩ := exists_splitOn t
  rw [LevelFront, hrow, List.dropLast_concat] at h
  rw [Path.ofText, hrow]
  dsimp only
  rw [List.filter_append, List.filter_cons, List.filter_nil]
  split_ifs
  · rw [List.dropLast_concat]
    exact fun hmem => h (List.mem_of_mem_filter hmem)
  · rw [List.append_nil]
    exact fun hmem => h (List.mem_of_mem_filter (List.dropLast_subset _ hmem))

end Text

open Text (Level LevelFront)

lemma FileSystem.IsName.append {name rest : Text} (h : IsName name) (hrest : CodePoint.ofChar '/' ∉ rest) :
    IsName (name ++ rest) := by
  obtain ⟨hne, hdot, hslash⟩ := (Path.isSegment_of_isName h).append hrest
  refine ⟨hne, hdot, fun heq => ?_, hslash⟩
  rcases Text.eq_up_of_append heq with ⟨hname, -⟩ | ⟨hname, -⟩ | ⟨hname, -⟩
  · exact h.1 hname
  · exact h.2.1 hname
  · exact h.2.2.1 hname

namespace Path

variable {t rest : Text}

/-- A written path that goes to a name without leading out of where it is seen from. -/
def IsInside (t : Text) : Prop :=
  IsInner t ∧ Stays 0 (ofText t).segments

/-- A written path that goes down to a name. -/
def IsDown (t : Text) : Prop :=
  IsInner t ∧ Level t

instance (t : Text) : Decidable (IsDown t) :=
  inferInstanceAs (Decidable (_ ∧ _))

lemma IsDown.isInside (h : IsDown t) : IsInside t :=
  ⟨h.1, FileSystem.stays_of_notMem (Text.level_iff.mp h.2) 0⟩

lemma anchor_of_start (hstart : t <+: rest) (h : (ofText rest).anchor = .relative) :
    (ofText t).anchor = .relative := by
  obtain ⟨after, rfl⟩ := hstart
  rw [anchor_eq_relative] at h ⊢
  cases t with
  | nil => exact fun hnone => by cases hnone
  | cons c t => exact h

lemma anchor_append (h : (ofText t).anchor = .relative) (hrest : (ofText rest).anchor = .relative) :
    (ofText (t ++ rest)).anchor = .relative := by
  rw [anchor_eq_relative] at h hrest ⊢
  cases t with
  | nil => exact hrest
  | cons c t => exact h

lemma anchor_of_notMem (h : CodePoint.ofChar '/' ∉ t) : (ofText t).anchor = .relative := by
  rw [anchor_eq_relative]
  exact fun hhead => h (List.mem_of_head? hhead)

lemma isDown_append (hanchor : (ofText t).anchor = .relative) (hfront : LevelFront t) {name : Text}
    (hname : IsName name) : IsDown (t ++ name) := by
  have hlast := getLast?_segments_append t (isSegment_of_isName hname)
  refine ⟨⟨anchor_append hanchor (anchor_of_notMem hname.2.2.2), ?_⟩, hfront.append hname⟩
  intro hnil
  rw [hnil] at hlast
  cases hlast

/-- What follows a level path to a name may lead up at its end. -/
lemma stays_slash (hne : (ofText t).segments ≠ []) (h : Level t) (hrest : LevelFront rest) :
    Stays 0 (ofText (t ++ "/" ++ rest)).segments := by
  rw [segments_slash, FileSystem.stays_append (Text.level_iff.mp h)]
  refine FileSystem.stays_of_dropLast hrest.segments ?_
  rw [Nat.zero_add]
  exact List.length_pos_of_ne_nil hne

lemma IsDown.slash (h : IsDown t) (hrest : LevelFront rest) : IsInside (t ++ "/" ++ rest) :=
  ⟨h.1.append rest, stays_slash h.1.2 h.2 hrest⟩

end Path

open PackageExports.Path (IsInside IsDown)

namespace Relative

variable {path : Text}

lemma IsProper.isDown (h : IsProper path) : IsDown path := by
  rw [IsDown, IsInner, Text.level_iff, IsTidy.ofText h.isSegment]
  exact ⟨⟨rfl, Text.splitOn_ne_nil _ _⟩, fun hup => (h _ hup).2.2.1 rfl⟩

lemma isDown_of_bare (h : IsDown (bare path)) : IsDown path := by
  obtain ⟨⟨hanchor, hne⟩, hlevel⟩ := h
  refine ⟨⟨?_, segments_bare path ▸ hne⟩, Text.level_iff.mpr (segments_bare path ▸ Text.level_iff.mp hlevel)⟩
  cases hdrop : Text.dropStart? "./" path with
  | none => rwa [bare, hdrop] at hanchor
  | some rest =>
    rw [Text.dropStart?_eq_some.mp hdrop, Path.anchor_eq_relative]
    exact fun hhead => absurd (Option.some.inj hhead) (by decide)

/-- What follows a path that goes to a name is no part of a point in front of it. -/
lemma bare_slash (h : IsInner (bare path)) (rest : Text) : bare (path ++ "/" ++ rest) = bare path ++ "/" ++ rest := by
  cases hdrop : Text.dropStart? "./" path with
  | some after =>
    obtain rfl := Text.dropStart?_eq_some.mp hdrop
    rw [List.append_assoc, List.append_assoc, bare_start, bare_start, List.append_assoc]
  | none =>
    have hwhole : Text.dropStart? "./" (path ++ "/" ++ rest) = none := by
      rw [Option.eq_none_iff_forall_ne_some]
      intro after hafter
      have hstarts := Text.dropStart?_eq_some.mp hafter
      match path, hdrop, hstarts with
      | [], _, hstarts => exact absurd (List.cons.inj hstarts).1 (by decide)
      | [c], _, hstarts =>
        obtain ⟨rfl, -⟩ := List.cons.inj hstarts
        exact h.2 rfl
      | c :: d :: path, hdrop, hstarts =>
        obtain ⟨rfl, htail⟩ := List.cons.inj hstarts
        obtain ⟨rfl, -⟩ := List.cons.inj htail
        cases hdrop
    rw [bare, hwhole, bare, hdrop]
    rfl

lemma level_bare : Level (bare path) ↔ Level path := by
  rw [Text.level_iff, Text.level_iff, segments_bare]

lemma cutExtension?_spec {extensions : List Text} {stem extension : Text}
    (h : cutExtension? extensions path = some (stem, extension)) :
    extension ∈ extensions ∧ path = stem ++ extension ∧ stem ≠ [] := by
  obtain ⟨e, he, hsome⟩ := List.exists_of_findSome?_eq_some h
  cases hdrop : Text.dropEnd? e path with
  | none =>
    rw [hdrop] at hsome
    cases hsome
  | some before =>
    rw [hdrop] at hsome
    dsimp only at hsome
    split_ifs at hsome with hempty
    obtain ⟨rfl, rfl⟩ := Prod.mk.inj (Option.some.inj hsome)
    exact ⟨he, Text.dropEnd?_eq_some.mp hdrop, by simpa using hempty⟩

lemma prefix_of_cutExtension? {extensions : List Text} {stem extension : Text}
    (h : cutExtension? extensions path = some (stem, extension)) : stem <+: path := by
  obtain ⟨-, rfl, -⟩ := cutExtension?_spec h
  exact List.prefix_append _ _

lemma prefix_dropCompiled (path : Text) : dropCompiled path <+: path := by
  unfold dropCompiled
  cases hcut : cutExtension? compiledExtensions path with
  | none => exact List.prefix_rfl
  | some cut => exact prefix_of_cutExtension? hcut

lemma cutAtLastSlash_append (path : Text) :
    (Written.cutAtLastSlash path).1 ++ (Written.cutAtLastSlash path).2 = path := by
  unfold Written.cutAtLastSlash
  cases hcut : Text.splitAtLast? '/' path with
  | none => rfl
  | some cut =>
    rw [(Text.splitAtLast?_eq_some.mp hcut).1]
    exact List.append_assoc _ _ _

lemma notMem_cutAtLastSlash (path : Text) : CodePoint.ofChar '/' ∉ (Written.cutAtLastSlash path).2 := by
  unfold Written.cutAtLastSlash
  cases hcut : Text.splitAtLast? '/' path with
  | none => exact Text.splitAtLast?_eq_none.mp hcut
  | some cut => exact (Text.splitAtLast?_eq_some.mp hcut).2

lemma splitExtension_spec (path : Text) :
    (splitExtension path).1 ++ (splitExtension path).2 = path ∧ CodePoint.ofChar '/' ∉ (splitExtension path).2 := by
  have hwhole := cutAtLastSlash_append path
  have hslash := notMem_cutAtLastSlash path
  have hname {stem extension : Text} (h : (Written.cutAtLastSlash path).2 = stem ++ extension) :
      ((Written.cutAtLastSlash path).1 ++ stem) ++ extension = path ∧ CodePoint.ofChar '/' ∉ extension := by
    refine ⟨by rw [List.append_assoc, ← h, hwhole], fun hmem => hslash ?_⟩
    rw [h]
    exact List.mem_append_right _ hmem
  have hbare : path ++ [] = path ∧ CodePoint.ofChar '/' ∉ ([] : Text) := ⟨List.append_nil path, List.not_mem_nil⟩
  unfold splitExtension
  dsimp only
  cases hcut : cutExtension? declarationExtensions (Written.cutAtLastSlash path).2 with
  | some cut => exact hname (cutExtension?_spec hcut).2.1
  | none =>
    dsimp only
    cases hpoint : Text.splitAtLast? '.' (Written.cutAtLastSlash path).2 with
    | none => exact hbare
    | some cut =>
      dsimp only
      split_ifs
      · exact hbare
      · exact hname (Text.splitAtLast?_eq_some.mp hpoint).1

lemma prefix_splitExtension (path : Text) : (splitExtension path).1 <+: path :=
  ⟨_, (splitExtension_spec path).1⟩

end Relative

/-! ### Declarations and sources -/

namespace Declaration

lemma isName_ending : IsName ".d.ts" := by
  decide

lemma isDown_candidate {bare : Text} (hanchor : (Path.ofText bare).anchor = .relative) (hlevel : Level bare) :
    IsDown (if Text.endsWith bare ".d.ts" then bare else fileName (Relative.splitExtension bare).1) := by
  split_ifs with hend
  · obtain ⟨stem, rfl⟩ := List.isSuffixOf_iff_suffix.mp hend
    have hstem := List.prefix_append stem (Text.ofString ".d.ts")
    exact Path.isDown_append (Path.anchor_of_start hstem hanchor) (Text.levelFront_of_start hstem hlevel.levelFront)
      isName_ending
  · have hstem := Relative.prefix_splitExtension bare
    exact Path.isDown_append (Path.anchor_of_start hstem hanchor) (Text.levelFront_of_start hstem hlevel.levelFront)
      isName_ending

end Declaration

namespace SourceFile

lemma isInside_replaced {stem build source replaced : Text} (hhead : stem.head? ≠ some (CodePoint.ofChar '/'))
    (hlevel : LevelFront stem) (hsource : IsName source)
    (h : Text.replaceFirst? ("/" ++ build ++ "/") ("/" ++ source ++ "/") ("./" ++ stem) = some replaced) :
    IsInside (Relative.bare replaced) := by
  have hsegment := Path.isSegment_of_isName hsource
  refine ⟨isInner_replaced hhead hsegment h, ?_⟩
  obtain ⟨before, after, hsplit, rfl⟩ := Text.replaceFirst?_eq_some h
  have hfront : LevelFront (before ++ "/" ++ (build ++ "/" ++ after)) := by
    have hdotted : LevelFront ("." ++ "/" ++ stem) := Text.levelFront_slash.mpr ⟨by decide, hlevel⟩
    have hwhole : Text.ofString "." ++ "/" ++ stem = before ++ "/" ++ (build ++ "/" ++ after) := by
      simp only [List.append_assoc] at hsplit ⊢
      exact hsplit
    rwa [hwhole] at hdotted
  obtain ⟨hbefore, hrest⟩ := Text.levelFront_slash.mp hfront
  obtain ⟨-, hafter⟩ := Text.levelFront_slash.mp hrest
  have hup : Level source := by
    rw [Text.level_iff, Path.ofText_of_isSegment hsegment, List.mem_singleton]
    exact hsource.2.2.1.symm
  have hreplaced : before ++ ("/" ++ source ++ "/") ++ after = (before ++ "/" ++ source) ++ "/" ++ after := by
    simp only [List.append_assoc]
  rw [Relative.segments_bare, hreplaced]
  refine Path.stays_slash ?_ (Text.level_slash.mpr ⟨hbefore, hup⟩) hafter
  rw [Path.segments_slash, Path.ofText_of_isSegment hsegment]
  simp

lemma levelFront_dropBuildDirectory {stem : Text} (h : LevelFront stem) (builds : List Text) :
    LevelFront (dropBuildDirectory builds stem) := by
  unfold dropBuildDirectory
  cases hfound : builds.findSome? fun directory => Text.dropStart? (directory ++ "/") stem with
  | none => exact h
  | some rest =>
    obtain ⟨directory, -, hdrop⟩ := List.exists_of_findSome?_eq_some hfound
    rw [Text.dropStart?_eq_some.mp hdrop] at h
    exact (Text.levelFront_slash.mp h).2

lemma isInside_candidates {path : Text} (hpath : path.head? ≠ some (CodePoint.ofChar '/')) (hlevel : Level path)
    {sources : List Text} (hsources : ∀ directory ∈ sources, IsDown directory) (builds : List Text) :
    ∀ base ∈ candidates ("./" ++ path) sources builds, IsInside base := by
  intro base hbase
  obtain ⟨stem, -, hinitial, hcases⟩ := candidates_cases hbase
  have hstem := Text.levelFront_of_start hinitial hlevel.levelFront
  have hhead : stem.head? ≠ some (CodePoint.ofChar '/') := by
    rw [← Path.anchor_eq_relative] at hpath ⊢
    exact Path.anchor_of_start hinitial hpath
  rcases hcases with ⟨output, source, replaced, hsource, hfound, rfl⟩ | ⟨directory, hdirectory, rfl⟩
  · exact isInside_replaced hhead hstem hsource hfound
  · exact (hsources directory hdirectory).slash (levelFront_dropBuildDirectory hstem builds)

end SourceFile

/-! ### Two builds -/

/-- The mark of one of two builds is a name, and there is no slash after it. -/
structure BuildSide.IsMarked (side : BuildSide) : Prop where
  marker : IsName side.marker
  separator : CodePoint.ofChar '/' ∉ side.separator

lemma BuildSide.IsMarked.isName_marked {side : BuildSide} (h : side.IsMarked) {name : Text}
    (hname : CodePoint.ofChar '/' ∉ name) :
    IsName (side.marker ++ (if side.separator.isEmpty then Text.ofString "." else side.separator) ++ name) := by
  have hslash : CodePoint.ofChar '/' ∉ if side.separator.isEmpty then Text.ofString "." else side.separator := by
    split_ifs
    · decide
    · exact h.separator
  exact (h.marker.append hslash).append hname

/-- One of two builds whose base is a level relative path. -/
structure BuildSide.IsLevel (side : BuildSide) : Prop extends side.IsMarked where
  anchor : (Path.ofText (Relative.bare side.base)).anchor = .relative
  base : Level side.base

/-- Two builds of a package are level. -/
def BuildPattern.IsLevel : BuildPattern → Prop
  | .single => True
  | .dual _ cjs esm => cjs.IsLevel ∧ esm.IsLevel

namespace Written

variable {path : Text}

lemma prefix_directory (path : Text) : (split path).1 <+: path := by
  have hhead : (cutAtLastSlash path).1 <+: path := ⟨_, Relative.cutAtLastSlash_append path⟩
  have htrim : Text.trimEnd '/' (cutAtLastSlash path).1 <+: (cutAtLastSlash path).1 := by
    have hsuffix := List.dropWhile_suffix (l := (cutAtLastSlash path).1.reverse) fun c => c == CodePoint.ofChar '/'
    have hreverse := List.reverse_prefix.mpr hsuffix
    rwa [List.reverse_reverse] at hreverse
  unfold split
  dsimp only
  split_ifs
  · exact hhead
  · exact htrim.trans hhead

lemma level_directory (hlevel : Level path) : Level (split path).1 := by
  have hhead : Level (cutAtLastSlash path).1 := by
    unfold cutAtLastSlash
    cases hcut : Text.splitAtLast? '/' path with
    | none => exact (by decide : Level [])
    | some cut =>
      obtain ⟨head, tail⟩ := cut
      obtain ⟨rfl, -⟩ := Text.splitAtLast?_eq_some.mp hcut
      have hwhole : head ++ CodePoint.ofChar '/' :: tail = head ++ "/" ++ tail := by
        rw [List.append_assoc]
        rfl
      rw [hwhole] at hlevel
      have hslash := Text.level_slash.mpr ⟨(Text.level_slash.mp hlevel).1, (by decide : Level [])⟩
      rwa [List.append_nil] at hslash
  unfold split
  dsimp only
  split_ifs
  · exact hhead
  · rwa [Text.level_iff, Path.segments_trimEnd, ← Text.level_iff]

lemma prefix_splitName (name : Text) : (splitName name).1 <+: name := by
  unfold splitName
  dsimp only
  cases hpoint : Text.splitAtLast? '.' (name.drop (Text.leading '.' name)) with
  | none => exact List.prefix_rfl
  | some cut =>
    refine ⟨CodePoint.ofChar '.' :: cut.2, ?_⟩
    dsimp only
    rw [List.append_assoc, ← (Text.splitAtLast?_eq_some.mp hpoint).1, List.take_append_drop]

end Written

namespace Expansion

variable {part path : Text} {cjs esm side : BuildSide}

lemma joinParts_dropped (h : ¬(part ≠ [] ∧ part ≠ ".")) (rest : List Text) :
    joinParts (part :: rest) = joinParts rest := by
  rw [joinParts, List.filter_cons_of_neg (by simpa using h), ← joinParts]

lemma joinParts_kept (h : part ≠ [] ∧ part ≠ ".") (rest : List Text) :
    joinParts (part :: rest) = part ∨ joinParts (part :: rest) = part ++ "/" ++ joinParts rest := by
  rw [joinParts, List.filter_cons_of_pos (by simpa using h)]
  by_cases hrest : (rest.filter fun part => decide (part ≠ [] ∧ part ≠ ".")) = []
  · rw [hrest]
    exact .inl rfl
  · rw [Text.joinWith_cons _ _ hrest, ← joinParts]
    exact .inr rfl

lemma anchor_joinParts_kept (h : part ≠ [] ∧ part ≠ ".") (hpart : (Path.ofText part).anchor = .relative)
    (rest : List Text) : (Path.ofText (joinParts (part :: rest))).anchor = .relative := by
  rcases joinParts_kept h rest with hjoin | hjoin
  · rwa [hjoin]
  · rw [Path.anchor_eq_relative] at hpart ⊢
    obtain ⟨c, chars, rfl⟩ := List.exists_cons_of_ne_nil h.1
    rw [hjoin]
    exact hpart

lemma anchor_joinParts (hpart : (Path.ofText part).anchor = .relative) {rest : List Text}
    (hrest : (Path.ofText (joinParts rest)).anchor = .relative) :
    (Path.ofText (joinParts (part :: rest))).anchor = .relative := by
  by_cases h : part ≠ [] ∧ part ≠ "."
  · exact anchor_joinParts_kept h hpart rest
  · rwa [joinParts_dropped h]

lemma level_joinParts {parts : List Text} : Level (joinParts parts) ↔ ∀ part ∈ parts, Level part := by
  simp only [Text.level_iff, Path.segments_joinParts, List.mem_flatMap, not_exists, not_and]

lemma levelFront_joinParts (hpart : Level part) {rest : List Text} (hrest : LevelFront (joinParts rest)) :
    LevelFront (joinParts (part :: rest)) := by
  by_cases h : part ≠ [] ∧ part ≠ "."
  · rcases joinParts_kept h rest with hjoin | hjoin
    · rw [hjoin]
      exact hpart.levelFront
    · rw [hjoin]
      exact Text.levelFront_slash.mpr ⟨hpart, hrest⟩
  · rwa [joinParts_dropped h]

lemma levelFront_joinParts_single (hpart : LevelFront part) : LevelFront (joinParts [part]) := by
  by_cases h : part ≠ [] ∧ part ≠ "."
  · rwa [joinParts, List.filter_cons_of_pos (by simpa using h)]
  · rw [joinParts_dropped h]
    exact Text.levelFront_of_notMem List.not_mem_nil

lemma isDown_of_isName {name : Text} (h : IsName name) : IsDown name := by
  rw [IsDown, IsInner, Text.level_iff, Path.ofText_of_isSegment (Path.isSegment_of_isName h), List.mem_singleton]
  exact ⟨⟨rfl, List.cons_ne_nil _ _⟩, h.2.2.1.symm⟩

lemma notMem_stem (path : Text) : CodePoint.ofChar '/' ∉ (Written.splitName (Written.split path).2).1 :=
  fun hmem => Written.notMem_split path ((Written.prefix_splitName _).subset hmem)

lemma isInner_byDirectory (h : side.IsMarked) (hbase : (Path.ofText (Relative.bare side.base)).anchor = .relative)
    (path : Text) (bases : List Text) :
    IsInner (joinParts [Relative.bare side.base, side.marker, belowBase path bases]) := by
  obtain ⟨⟨hanchor, hne⟩, -⟩ := isDown_of_isName h.marker
  have hkept : side.marker ≠ [] ∧ side.marker ≠ "." := ⟨h.marker.1, h.marker.2.1⟩
  refine ⟨anchor_joinParts hbase (anchor_joinParts_kept hkept hanchor _), ?_⟩
  rw [Path.segments_joinParts, List.flatMap_cons, List.flatMap_cons]
  simp [hne]

lemma isInner_byExtension (h : side.IsMarked) (hanchor : (Path.ofText path).anchor = .relative) :
    IsInner (joinParts [(Written.split path).1, (Written.splitName (Written.split path).2).1] ++ side.marker) := by
  have hdirectory := Path.anchor_of_start (Written.prefix_directory path) hanchor
  have hstem := Path.anchor_of_notMem (notMem_stem path)
  refine ⟨Path.anchor_append (anchor_joinParts hdirectory (anchor_joinParts hstem rfl))
    (Path.anchor_of_notMem h.marker.2.2.2), ?_⟩
  have hlast := Path.getLast?_segments_append
    (joinParts [(Written.split path).1, (Written.splitName (Written.split path).2).1]) (Path.isSegment_of_isName h.marker)
  intro hnil
  rw [hnil] at hlast
  cases hlast

lemma isInner_byNameStart (h : side.IsMarked) (hanchor : (Path.ofText path).anchor = .relative) :
    IsInner (markedName side (Written.split path).1 (Written.split path).2) := by
  have hdirectory := Path.anchor_of_start (Written.prefix_directory path) hanchor
  obtain ⟨⟨hrelative, hne⟩, -⟩ := isDown_of_isName (h.isName_marked (Written.notMem_split path))
  refine ⟨anchor_joinParts hdirectory (anchor_joinParts hrelative rfl), ?_⟩
  rw [markedName, Path.segments_joinParts, List.flatMap_cons, List.flatMap_singleton]
  exact List.append_ne_nil_of_right_ne_nil _ hne

/-- The files of two marked builds are looked for at names. Only builds in directories have a base there. -/
lemma isInner_candidates (hcjs : cjs.IsMarked) (hesm : esm.IsMarked) (hanchor : (Path.ofText path).anchor = .relative)
    {kind : PatternKind} (hbases : kind = .byDirectory →
      ∀ side ∈ [cjs, esm], (Path.ofText (Relative.bare side.base)).anchor = .relative) :
    IsInner (candidates kind cjs esm path).1 ∧ IsInner (candidates kind cjs esm path).2 := by
  cases kind with
  | byDirectory =>
    exact ⟨isInner_byDirectory hcjs (hbases rfl cjs (by simp)) _ _, isInner_byDirectory hesm (hbases rfl esm (by simp)) _ _⟩
  | byExtension => exact ⟨isInner_byExtension hcjs hanchor, isInner_byExtension hesm hanchor⟩
  | byNameStart => exact ⟨isInner_byNameStart hcjs hanchor, isInner_byNameStart hesm hanchor⟩

lemma level_byDirectory (h : side.IsLevel) (hlevel : Level path) (bases : List Text) :
    Level (joinParts [Relative.bare side.base, side.marker, belowBase path bases]) := by
  have hbelow : Level (belowBase path bases) :=
    Text.level_iff.mpr fun hmem => Text.level_iff.mp hlevel ((belowBase_suffix path bases).subset hmem)
  simp only [level_joinParts, List.forall_mem_cons, List.not_mem_nil, false_implies, implies_true, and_true]
  exact ⟨Relative.level_bare.mpr h.base, (isDown_of_isName h.marker).2, hbelow⟩

lemma level_byExtension (h : side.IsLevel) (hlevel : Level path) :
    Level (joinParts [(Written.split path).1, (Written.splitName (Written.split path).2).1] ++ side.marker) := by
  have hrest := levelFront_joinParts_single (Text.levelFront_of_notMem (notMem_stem path))
  exact (levelFront_joinParts (Written.level_directory hlevel) hrest).append h.marker

lemma level_byNameStart (h : side.IsLevel) (hlevel : Level path) :
    Level (markedName side (Written.split path).1 (Written.split path).2) := by
  rw [markedName, level_joinParts]
  simp only [List.forall_mem_cons, List.not_mem_nil, false_implies, implies_true, and_true]
  exact ⟨Written.level_directory hlevel, (isDown_of_isName (h.isName_marked (Written.notMem_split path))).2⟩

lemma isDown_candidates (hcjs : cjs.IsLevel) (hesm : esm.IsLevel) (hanchor : (Path.ofText path).anchor = .relative)
    (hlevel : Level path) (kind : PatternKind) :
    IsDown (candidates kind cjs esm path).1 ∧ IsDown (candidates kind cjs esm path).2 := by
  have hbases : kind = .byDirectory → ∀ side ∈ [cjs, esm], (Path.ofText (Relative.bare side.base)).anchor = .relative :=
    fun _ => List.forall_mem_cons.mpr ⟨hcjs.anchor, List.forall_mem_singleton.mpr hesm.anchor⟩
  obtain ⟨hfirst, hsecond⟩ := isInner_candidates hcjs.toIsMarked hesm.toIsMarked hanchor hbases
  cases kind with
  | byDirectory => exact ⟨⟨hfirst, level_byDirectory hcjs hlevel _⟩, ⟨hsecond, level_byDirectory hesm hlevel _⟩⟩
  | byExtension => exact ⟨⟨hfirst, level_byExtension hcjs hlevel⟩, ⟨hsecond, level_byExtension hesm hlevel⟩⟩
  | byNameStart => exact ⟨⟨hfirst, level_byNameStart hcjs hlevel⟩, ⟨hsecond, level_byNameStart hesm hlevel⟩⟩

end Expansion

namespace BuildPattern

lemma Detected.isMarked {main module : Text} {kind : PatternKind} {cjs esm : BuildSide}
    (h : Detected main module (.dual kind cjs esm)) : cjs.IsMarked ∧ esm.IsMarked := by
  have hword {word : Text} (h : Flavor.ofWord word ≠ .unknown) : IsName word := by
    obtain ⟨⟨hne, hdot, hslash⟩, hpoint⟩ := Expansion.isSegment_of_known h
    refine ⟨hne, hdot, ?_, hslash⟩
    rintro rfl
    exact hpoint List.mem_cons_self
  cases h with
  | byDirectory hmain hmodule hne hside =>
    obtain ⟨hfirst, hsecond⟩ := Flavor.known_of_cjsSide? hside
    exact Side.forall_arrange _ ⟨hword hfirst, List.not_mem_nil⟩ ⟨hword hsecond, List.not_mem_nil⟩
  | byExtension hmain hmodule hside =>
    have hextension : ∀ extension ∈ [Text.ofString ".cjs", ".mjs", ".js"], IsName extension := by decide
    obtain ⟨hfirst, hsecond⟩ := Flavor.known_of_cjsSide? hside
    exact Side.forall_arrange _ ⟨hextension _ (Flavor.mem_extensions hfirst), List.not_mem_nil⟩
      ⟨hextension _ (Flavor.mem_extensions hsecond), List.not_mem_nil⟩
  | byNameStart hmain hmodule hmainStart hmoduleStart hside =>
    obtain ⟨hfirst, hsecond⟩ := Flavor.known_of_cjsSide? hside
    have hseparator {separator : Text} (h : separator = "." ∨ separator = "-") : CodePoint.ofChar '/' ∉ separator := by
      rcases h with rfl | rfl <;> decide
    exact Side.forall_arrange _ ⟨hword hfirst, hseparator (Expansion.separator_of_nameStart? hmainStart)⟩
      ⟨hword hsecond, hseparator (Expansion.separator_of_nameStart? hmoduleStart)⟩

lemma Detected.anchor_base {main module : Text} {cjs esm : BuildSide}
    (hmain : ∀ segment ∈ Text.splitOn '/' (Relative.bare main), IsSegment segment)
    (h : Detected (Relative.dotted main) module (.dual .byDirectory cjs esm)) :
    ∀ side ∈ [cjs, esm], (Path.ofText (Relative.bare side.base)).anchor = .relative := by
  cases h with
  | @byDirectory front back mainWord _ mainName _ side hrow _ _ _ =>
    have hpieces := Relative.splitOn_dotted main
    have hbase : (Path.ofText (Relative.bare (Text.joinWith "/" front))).anchor = .relative := by
      cases front with
      | nil => rfl
      | cons first rest =>
        obtain ⟨rfl, hrest⟩ := List.cons.inj (hpieces.symm.trans hrow)
        have hsegments : ∀ name ∈ rest, IsSegment name := fun name hname => hmain name (by rw [hrest]; simp [hname])
        by_cases hempty : rest = []
        · rw [hempty]
          rfl
        · have hstart : Text.joinWith "/" (Text.ofString "." :: rest) = "./" ++ Text.joinWith "/" rest :=
            Text.joinWith_cons _ _ hempty
          rw [hstart, Relative.bare_start]
          exact Path.anchor_joinWith hsegments
    cases side <;> exact List.forall_mem_cons.mpr ⟨hbase, List.forall_mem_singleton.mpr hbase⟩

theorem isLevel_detect {main module : Option Text} {kind : PatternKind} {cjs esm : BuildSide}
    (h : detect main module = .dual kind cjs esm)
    (hbases : ∀ side ∈ [cjs, esm], (Path.ofText (Relative.bare side.base)).anchor = .relative ∧ Level side.base) :
    (dual kind cjs esm).IsLevel := by
  obtain ⟨mainPath, modulePath, -, -, hdetected⟩ := detected_of_detect h
  obtain ⟨hcjs, hesm⟩ := hdetected.isMarked
  obtain ⟨hanchor, hbase⟩ := hbases cjs (by simp)
  obtain ⟨hanchor', hbase'⟩ := hbases esm (by simp)
  exact ⟨⟨hcjs, hanchor, hbase⟩, ⟨hesm, hanchor', hbase'⟩⟩

end BuildPattern

end PackageExports
