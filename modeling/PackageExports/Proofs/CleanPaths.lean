import PackageExports.Path.Relative
import PackageExports.Proofs.Trees

/-!
# Clean paths

A path read from text has clean segments, and it is read again from its own text. The operations on written paths are
those on the names between the slashes, and a path below a clean one is seen from there as the names that were added.

Main results: `Path.ofText_text`, `Path.segments_slash`, `Written.split_joinWith`, `Path.seenFrom_below`.
-/

namespace PackageExports

namespace Text

variable {c : CodePoint} {a b t : Text}

lemma splitOn_slash (a b : Text) : splitOn '/' (a ++ "/" ++ b) = splitOn '/' a ++ splitOn '/' b := by
  rw [List.append_assoc]
  exact splitOn_append _ a b

lemma notMem_of_mem_splitOn {piece : Text} (h : piece ∈ splitOn c t) : c ∉ piece := by
  induction t generalizing piece with
  | nil =>
    rw [splitOn, List.mem_singleton] at h
    rw [h]
    exact List.not_mem_nil
  | cons x t ih =>
    rw [splitOn] at h
    split_ifs at h with hx
    · rcases List.mem_cons.mp h with rfl | hrest
      · exact List.not_mem_nil
      · exact ih hrest
    · obtain ⟨first, pieces, hsplit⟩ := List.exists_cons_of_ne_nil (splitOn_ne_nil c t)
      rw [hsplit] at h ih
      rcases List.mem_cons.mp h with rfl | hrest
      · intro hmem
        rcases List.mem_cons.mp hmem with rfl | hmem
        · exact hx rfl
        · exact ih List.mem_cons_self hmem
      · exact ih (List.mem_cons_of_mem _ hrest)

lemma joinWith_cons (separator piece : Text) {rest : List Text} (hrest : rest ≠ []) :
    joinWith separator (piece :: rest) = piece ++ separator ++ joinWith separator rest :=
  joinWith.eq_3 separator piece rest hrest

lemma joinWith_splitOn (t : Text) : joinWith "/" (splitOn '/' t) = t := by
  induction t with
  | nil => rfl
  | cons x t ih =>
    rw [splitOn]
    split_ifs with hx
    · rw [joinWith_cons _ _ (splitOn_ne_nil _ _), ih, hx]
      rfl
    · obtain ⟨first, pieces, hsplit⟩ := List.exists_cons_of_ne_nil (splitOn_ne_nil (CodePoint.ofChar '/') t)
      rw [hsplit] at ih ⊢
      dsimp only
      by_cases hpieces : pieces = []
      · rw [hpieces] at ih ⊢
        exact congrArg (x :: ·) ih
      · rw [joinWith_cons _ _ hpieces] at ih ⊢
        exact congrArg (x :: ·) ih

lemma joinWith_concat_append (front : List Text) (last rest : Text) :
    joinWith "/" (front ++ [last]) ++ rest = joinWith "/" (front ++ [last ++ rest]) := by
  by_cases hfront : front = []
  · rw [hfront]
    rfl
  · rw [joinWith_append _ hfront (List.cons_ne_nil _ _), joinWith_append _ hfront (List.cons_ne_nil _ _),
      List.append_assoc]
    rfl

/-- There is a slash between any two pieces. -/
lemma count_joinWith {front : List Text} {last : Text}
    (h : ∀ piece ∈ front ++ [last], CodePoint.ofChar '/' ∉ piece) :
    (joinWith "/" (front ++ [last])).count (CodePoint.ofChar '/') = front.length := by
  induction front with
  | nil => exact List.count_eq_zero.mpr (h last (by simp))
  | cons piece front ih =>
    rw [List.cons_append] at h ⊢
    obtain ⟨hpiece, hrest⟩ := List.forall_mem_cons.mp h
    have hslash : (ofString "/").count (CodePoint.ofChar '/') = 1 := by decide
    rw [joinWith_cons _ _ (by simp), List.count_append, List.count_append, ih hrest, List.count_eq_zero.mpr hpiece,
      hslash, List.length_cons]
    omega

lemma exists_splitOn (t : Text) : ∃ front last, splitOn '/' t = front ++ [last] ∧ CodePoint.ofChar '/' ∉ last := by
  obtain ⟨front, last, hrow⟩ := (List.eq_nil_or_concat' _).resolve_left (splitOn_ne_nil (CodePoint.ofChar '/') t)
  exact ⟨front, last, hrow, notMem_of_mem_splitOn (t := t) (by rw [hrow]; simp)⟩

lemma splitOn_append_text {front : List Text} {last : Text} (h : splitOn '/' t = front ++ [last]) (rest : Text) :
    ∃ first more, splitOn '/' rest = first :: more ∧ splitOn '/' (t ++ rest) = front ++ (last ++ first) :: more := by
  obtain ⟨first, more, hrest⟩ := List.exists_cons_of_ne_nil (splitOn_ne_nil (CodePoint.ofChar '/') rest)
  have hslash : ∀ piece ∈ front ++ (last ++ first) :: more, CodePoint.ofChar '/' ∉ piece := by
    have hleft : ∀ piece ∈ front ++ [last], CodePoint.ofChar '/' ∉ piece := by
      intro piece hpiece
      exact notMem_of_mem_splitOn (h ▸ hpiece)
    have hright : ∀ piece ∈ first :: more, CodePoint.ofChar '/' ∉ piece := by
      intro piece hpiece
      exact notMem_of_mem_splitOn (hrest ▸ hpiece)
    intro piece hpiece
    rcases List.mem_append.mp hpiece with hfront | hmore
    · exact hleft piece (List.mem_append_left _ hfront)
    rcases List.mem_cons.mp hmore with rfl | hmore
    · rw [List.mem_append, not_or]
      exact ⟨hleft last (by simp), hright first List.mem_cons_self⟩
    · exact hright piece (List.mem_cons_of_mem _ hmore)
  refine ⟨first, more, hrest, ?_⟩
  have hjoin : t ++ rest = joinWith "/" (front ++ (last ++ first) :: more) := by
    rw [← joinWith_splitOn t, ← joinWith_splitOn rest, h, hrest]
    by_cases hmore : more = []
    · rw [hmore]
      exact joinWith_concat_append front last first
    · rw [joinWith_cons _ _ hmore, ← List.append_assoc, ← List.append_assoc, joinWith_concat_append,
        List.append_cons front (last ++ first) more, joinWith_append _ (by simp) hmore]
  rw [hjoin, splitOn_joinWith (by simp) hslash]

lemma joinWith_inj {as bs : List Text} (has : as ≠ []) (hbs : bs ≠ []) (ha : ∀ a ∈ as, CodePoint.ofChar '/' ∉ a)
    (hb : ∀ b ∈ bs, CodePoint.ofChar '/' ∉ b) (h : joinWith "/" as = joinWith "/" bs) : as = bs := by
  rw [← splitOn_joinWith has ha, ← splitOn_joinWith hbs hb, h]

lemma splitAtLast?_eq_none : splitAtLast? c t = none ↔ c ∉ t := by
  induction t with
  | nil => simp [splitAtLast?]
  | cons x t ih =>
    rw [splitAtLast?, List.mem_cons, not_or, ← ih]
    cases splitAtLast? c t with
    | none => simp [eq_comm]
    | some found => simp

lemma splitAtLast?_eq_some : splitAtLast? c t = some (a, b) ↔ t = a ++ c :: b ∧ c ∉ b := by
  induction t generalizing a with
  | nil => simp [splitAtLast?]
  | cons x t ih =>
    rw [splitAtLast?]
    cases hrest : splitAtLast? c t with
    | some found =>
      obtain ⟨before, after⟩ := found
      rw [hrest] at ih
      dsimp only
      constructor
      · intro h
        obtain ⟨rfl, rfl⟩ := Prod.mk.inj (Option.some.inj h)
        obtain ⟨rfl, hnot⟩ := ih.mp rfl
        exact ⟨rfl, hnot⟩
      · rintro ⟨heq, hnot⟩
        cases a with
        | nil =>
          obtain ⟨-, rfl⟩ := List.cons.inj heq
          rw [splitAtLast?_eq_none.mpr hnot] at hrest
          cases hrest
        | cons y a =>
          obtain ⟨rfl, rfl⟩ := List.cons.inj heq
          obtain ⟨rfl, rfl⟩ := Prod.mk.inj (Option.some.inj (ih.mpr ⟨rfl, hnot⟩))
          rfl
    | none =>
      have hnone := splitAtLast?_eq_none.mp hrest
      dsimp only
      constructor
      · intro h
        obtain ⟨hx, hfound⟩ := Option.ite_none_right_eq_some.mp h
        obtain ⟨rfl, rfl⟩ := Prod.mk.inj (Option.some.inj hfound)
        exact ⟨congrArg (· :: t) hx, hnone⟩
      · rintro ⟨heq, hnot⟩
        cases a with
        | nil =>
          obtain ⟨rfl, rfl⟩ := List.cons.inj heq
          exact if_pos rfl
        | cons y a =>
          obtain ⟨rfl, rfl⟩ := List.cons.inj heq
          exact absurd (by simp) hnone

lemma dropStart?_eq_some : dropStart? a t = some b ↔ t = a ++ b := by
  induction a generalizing t with
  | nil => simp [dropStart?]
  | cons x a ih =>
    cases t with
    | nil => simp [dropStart?]
    | cons y t =>
      rw [dropStart?]
      by_cases hxy : x = y
      · simp [hxy, ih]
      · simp [hxy, Ne.symm hxy]

lemma dropEnd?_append (t ending : Text) : dropEnd? ending (t ++ ending) = some t := by
  rw [dropEnd?, if_pos (List.isSuffixOf_iff_suffix.mpr (List.suffix_append _ _)), List.length_append,
    Nat.add_sub_cancel, List.take_left]

lemma dropEnd?_eq_some {ending : Text} : dropEnd? ending t = some b ↔ t = b ++ ending := by
  constructor
  · intro h
    obtain ⟨hend, -⟩ := Option.ite_none_right_eq_some.mp h
    obtain ⟨front, rfl⟩ := List.isSuffixOf_iff_suffix.mp hend
    rw [dropEnd?_append] at h
    rw [Option.some.inj h]
  · rintro rfl
    exact dropEnd?_append b ending

lemma dropEnd?_eq_none {ending : Text} : dropEnd? ending t = none ↔ ¬ending <:+ t := by
  rw [dropEnd?, ← List.isSuffixOf_iff_suffix]
  split_ifs with h <;> simp [h]

lemma not_suffix_append {ending other : Text} (t : Text) (h : ¬ending <:+ other ∧ ¬other <:+ ending) :
    ¬ending <:+ t ++ other := by
  intro hsuffix
  rcases List.suffix_or_suffix_of_suffix hsuffix (List.suffix_append t other) with hshort | hlong
  · exact h.1 hshort
  · exact h.2 hlong

lemma dropEnd?_other {ending other : Text} (t : Text) (h : ¬ending <:+ other ∧ ¬other <:+ ending) :
    dropEnd? ending (t ++ other) = none :=
  if_neg (mt List.isSuffixOf_iff_suffix.mp (not_suffix_append t h))

lemma replaceFirst?_eq_some {old new : Text} (h : replaceFirst? old new t = some b) :
    ∃ before after, t = before ++ old ++ after ∧ b = before ++ new ++ after := by
  induction t generalizing b with
  | nil =>
    rw [replaceFirst?] at h
    obtain ⟨hold, hnew⟩ := Option.ite_none_right_eq_some.mp h
    obtain rfl := Option.some.inj hnew
    exact ⟨[], [], by simpa using hold, (List.append_nil _).symm⟩
  | cons x t ih =>
    rw [replaceFirst?] at h
    cases hdrop : dropStart? old (x :: t) with
    | some after =>
      rw [hdrop] at h
      exact ⟨[], after, dropStart?_eq_some.mp hdrop, (Option.some.inj h).symm⟩
    | none =>
      rw [hdrop] at h
      obtain ⟨replaced, hreplaced, rfl⟩ := Option.map_eq_some_iff.mp h
      obtain ⟨before, after, rfl, rfl⟩ := ih hreplaced
      exact ⟨x :: before, after, rfl, rfl⟩

lemma drop_length_takeWhile (p : CodePoint → Bool) (t : Text) : t.drop (t.takeWhile p).length = t.dropWhile p := by
  induction t with
  | nil => rfl
  | cons x t ih =>
    rw [List.takeWhile_cons, List.dropWhile_cons]
    split_ifs
    · exact ih
    · rfl

lemma suffix_of_suffix_append {ending : Text} (hending : c ∉ ending) (h : ending <:+ a ++ c :: b) : ending <:+ b := by
  rcases List.suffix_or_suffix_of_suffix h (List.suffix_append a (c :: b)) with hshort | ⟨before, rfl⟩
  · rcases List.suffix_cons_iff.mp hshort with rfl | hshort
    · exact absurd List.mem_cons_self hending
    · exact hshort
  · exact absurd (by simp) hending

lemma trimEnd_append (c : CodePoint) (t : Text) : trimEnd c (t ++ [c]) = trimEnd c t := by
  simp [trimEnd]

lemma trimEnd_of_getLast? (h : t.getLast? ≠ some c) : trimEnd c t = t := by
  rcases List.eq_nil_or_concat' t with rfl | ⟨front, last, rfl⟩
  · rfl
  · have hlast : last ≠ c := by simpa using h
    simp [trimEnd, hlast]

end Text

namespace Path

/-- A name that a path keeps. -/
def IsSegment (segment : Text) : Prop :=
  segment ≠ [] ∧ segment ≠ "." ∧ CodePoint.ofChar '/' ∉ segment

/-- All segments are kept when the path is read from text. -/
def IsClean (p : Path) : Prop :=
  ∀ segment ∈ p.segments, IsSegment segment

variable {p q : Path}

lemma isSegment_of_isName {name : Text} (h : FileSystem.IsName name) : IsSegment name :=
  ⟨h.1, h.2.1, h.2.2.2⟩

lemma isClean_ofText (t : Text) : (ofText t).IsClean := by
  intro segment hsegment
  obtain ⟨hmem, hkept⟩ := List.mem_filter.mp hsegment
  rw [Bool.and_eq_true, Bool.not_eq_true', bne_iff_ne, List.isEmpty_eq_false_iff] at hkept
  exact ⟨hkept.1, hkept.2, Text.notMem_of_mem_splitOn hmem⟩

lemma segments_slash (a b : Text) :
    (ofText (a ++ "/" ++ b)).segments = (ofText a).segments ++ (ofText b).segments := by
  simp only [ofText, Text.splitOn_slash, List.filter_append]

lemma filter_segments {names : List Text} (h : ∀ name ∈ names, IsSegment name) :
    (names.filter fun segment : Text => !segment.isEmpty && segment != ".") = names := by
  rw [List.filter_eq_self]
  intro name hname
  obtain ⟨hne, hdot, -⟩ := h name hname
  rw [Bool.and_eq_true, Bool.not_eq_true', bne_iff_ne, List.isEmpty_eq_false_iff]
  exact ⟨hne, hdot⟩

lemma segments_joinWith {names : List Text} (h : ∀ name ∈ names, IsSegment name) :
    (ofText (Text.joinWith "/" names)).segments = names := by
  by_cases hnames : names = []
  · rw [hnames]
    rfl
  · have hsplit := Text.splitOn_joinWith hnames fun name hname => (h name hname).2.2
    simp only [ofText, hsplit, filter_segments h]

lemma leading_slash_joinWith {names : List Text} (hnames : names ≠ []) (h : ∀ name ∈ names, IsSegment name) :
    Text.leading '/' (Text.joinWith "/" names) = 0 := by
  obtain ⟨name, rest, rfl⟩ := List.exists_cons_of_ne_nil hnames
  obtain ⟨hne, -, hslash⟩ := h name List.mem_cons_self
  obtain ⟨c, chars, rfl⟩ := List.exists_cons_of_ne_nil hne
  have hc : c ≠ CodePoint.ofChar '/' := fun hc => hslash (hc ▸ List.mem_cons_self)
  by_cases hrest : rest = []
  · rw [hrest]
    simp [Text.joinWith, Text.leading, hc]
  · rw [Text.joinWith_cons _ _ hrest]
    simp [Text.leading, hc]

theorem ofText_text (h : p.IsClean) : ofText p.text = p := by
  obtain ⟨anchor, segments⟩ := p
  by_cases hsegments : segments = []
  · rw [hsegments]
    cases anchor <;> rfl
  have hleading := leading_slash_joinWith hsegments h
  have hsplit := Text.splitOn_joinWith hsegments fun name hname => (h name hname).2.2
  have hkept := filter_segments h
  have htext : text ⟨anchor, segments⟩ = anchorText anchor ++ Text.joinWith "/" segments :=
    if_neg (by simp [hsegments])
  rw [htext, ofText]
  cases anchor with
  | relative =>
    rw [anchorText, List.nil_append, anchorOf, hleading, hsplit, hkept]
    rfl
  | absolute =>
    have hsplit' : Text.splitOn '/' (anchorText .absolute ++ Text.joinWith "/" segments) = [] :: segments :=
      (Text.splitOn_append '/' [] _).trans (congrArg _ hsplit)
    have hleading' : Text.leading '/' (anchorText .absolute ++ Text.joinWith "/" segments) = 1 :=
      congrArg (· + 1) hleading
    rw [anchorOf, hleading', hsplit', List.filter_cons_of_neg (by simp), hkept]
    rfl
  | doubleSlash =>
    have hsplit' : Text.splitOn '/' (anchorText .doubleSlash ++ Text.joinWith "/" segments) = [] :: [] :: segments :=
      (Text.splitOn_append '/' [CodePoint.ofChar '/'] _).trans (congrArg _ hsplit)
    have hleading' : Text.leading '/' (anchorText .doubleSlash ++ Text.joinWith "/" segments) = 2 :=
      congrArg (· + 2) hleading
    rw [anchorOf, hleading', hsplit', List.filter_cons_of_neg (by simp), List.filter_cons_of_neg (by simp), hkept]
    rfl

lemma text_ne_nil (h : p.IsClean) : p.text ≠ [] := by
  intro hempty
  have hread := ofText_text h
  rw [hempty] at hread
  subst hread
  cases hempty

lemma joinText_eq (package : Path) {t : Text} (h : (ofText t).anchor = .relative) :
    package / t = ⟨package.anchor, package.segments ++ (ofText t).segments⟩ :=
  if_pos h

lemma anchor_joinWith {names : List Text} (h : ∀ name ∈ names, IsSegment name) :
    (ofText (Text.joinWith "/" names)).anchor = .relative := by
  by_cases hnames : names = []
  · rw [hnames]
    rfl
  · rw [ofText, anchorOf, leading_slash_joinWith hnames h]
    rfl

lemma div_joinWith (package : Path) {names : List Text} (h : ∀ name ∈ names, IsSegment name) :
    package / Text.joinWith "/" names = ⟨package.anchor, package.segments ++ names⟩ := by
  rw [joinText_eq package (anchor_joinWith h), segments_joinWith h]

lemma anchor_of_splitOn {t : Text} (h : ∀ segment ∈ Text.splitOn '/' t, IsSegment segment) :
    (ofText t).anchor = .relative := by
  have hjoined := anchor_joinWith h
  rwa [Text.joinWith_splitOn] at hjoined

lemma seenFrom_below {package : Path} (rest : List Text) :
    SearchPlan.seenFrom package ⟨package.anchor, package.segments ++ rest⟩ = .ok (text ⟨.relative, rest⟩) := by
  have hafter : segmentsAfter? package.segments (package.segments ++ rest) = some rest :=
    segmentsAfter?_eq_some.mpr rfl
  rw [SearchPlan.seenFrom, relativeTo?, if_pos rfl, hafter]
  rfl

lemma seenFrom_eq_ok {package : Path} {seen : Text} :
    SearchPlan.seenFrom package p = .ok seen ↔
      ∃ rest, p = ⟨package.anchor, package.segments ++ rest⟩ ∧ seen = text ⟨.relative, rest⟩ := by
  constructor
  · intro h
    unfold SearchPlan.seenFrom relativeTo? at h
    by_cases hanchor : p.anchor = package.anchor
    · rw [if_pos hanchor] at h
      cases hafter : segmentsAfter? package.segments p.segments with
      | none =>
        rw [hafter] at h
        cases h
      | some rest =>
        rw [hafter] at h
        refine ⟨rest, ?_, (Except.ok.inj h).symm⟩
        rw [← hanchor, ← segmentsAfter?_eq_some.mp hafter]
    · rw [if_neg hanchor] at h
      cases h
  · rintro ⟨rest, rfl, rfl⟩
    exact seenFrom_below rest

end Path

namespace Relative

lemma dotted_eq (path : Text) : dotted path = "./" ++ bare path := by
  unfold dotted bare
  by_cases hstart : Text.startsWith path "./" = true
  · obtain ⟨rest, rfl⟩ := List.isPrefixOf_iff_prefix.mp hstart
    rw [if_pos hstart, Text.dropStart?_eq_some.mpr rfl]
    rfl
  · have hnone : Text.dropStart? "./" path = none := by
      rw [Option.eq_none_iff_forall_ne_some]
      rintro rest hrest
      rw [Text.dropStart?_eq_some.mp hrest] at hstart
      exact hstart (List.isPrefixOf_iff_prefix.mpr (List.prefix_append _ _))
    rw [if_neg hstart, hnone]
    rfl

lemma bare_start (path : Text) : bare ("./" ++ path) = path := by
  rw [bare, Text.dropStart?_eq_some.mpr rfl]
  rfl

lemma splitOn_dotted (path : Text) : Text.splitOn '/' (dotted path) = Text.ofString "." :: Text.splitOn '/' (bare path) := by
  rw [dotted_eq]
  exact Text.splitOn_append '/' "." (bare path)

/-- The segments of a path do not show whether `./` is in front of it. -/
lemma segments_bare (path : Text) : (Path.ofText (bare path)).segments = (Path.ofText path).segments := by
  unfold bare
  cases hdrop : Text.dropStart? "./" path with
  | none => rfl
  | some rest =>
    rw [Text.dropStart?_eq_some.mp hdrop]
    exact (Path.segments_slash "." rest).symm

end Relative

namespace Written

lemma cutAtLastSlash_joinWith (front : List Text) {last : Text} (hlast : CodePoint.ofChar '/' ∉ last) :
    cutAtLastSlash (Text.joinWith "/" (front ++ [last])) = (Text.joinWith "/" (front ++ [[]]), last) := by
  unfold cutAtLastSlash
  by_cases hfront : front = []
  · rw [hfront, List.nil_append, Text.joinWith, Text.splitAtLast?_eq_none.mpr hlast]
    rfl
  · have hjoin (x : Text) : Text.joinWith "/" (front ++ [x]) =
        Text.joinWith "/" front ++ CodePoint.ofChar '/' :: x := by
      rw [Text.joinWith_append _ hfront (List.cons_ne_nil _ _), List.append_assoc]
      rfl
    rw [hjoin, hjoin, Text.splitAtLast?_eq_some.mpr ⟨rfl, hlast⟩]
    rfl

lemma split_joinWith {front : List Text} {last : Text} (hfront : ∀ name ∈ front, name ≠ [] ∧ CodePoint.ofChar '/' ∉ name)
    (hlast : CodePoint.ofChar '/' ∉ last) :
    split (Text.joinWith "/" (front ++ [last])) = (Text.joinWith "/" front, last) := by
  rw [split, cutAtLastSlash_joinWith front hlast]
  dsimp only
  rcases List.eq_nil_or_concat' front with rfl | ⟨before, name, rfl⟩
  · rfl
  · obtain ⟨hne, hslash⟩ := hfront name (by simp)
    have hhead : Text.joinWith "/" (before ++ [name] ++ [[]]) =
        Text.joinWith "/" (before ++ [name]) ++ [CodePoint.ofChar '/'] := by
      rw [Text.joinWith_append _ (by simp) (List.cons_ne_nil _ _)]
      exact List.append_nil _
    obtain ⟨chars, c, rfl⟩ := (List.eq_nil_or_concat' name).resolve_left hne
    have hc : CodePoint.ofChar '/' ≠ c := fun hc => hslash (hc ▸ by simp)
    have hend : Text.joinWith "/" (before ++ [chars ++ [c]]) = Text.joinWith "/" (before ++ [chars]) ++ [c] :=
      (Text.joinWith_concat_append before chars [c]).symm
    have htrim : Text.trimEnd '/' (Text.joinWith "/" (before ++ [chars ++ [c]])) =
        Text.joinWith "/" (before ++ [chars ++ [c]]) := by
      apply Text.trimEnd_of_getLast?
      rw [hend, List.getLast?_concat]
      exact fun h => hc (Option.some.inj h).symm
    rw [hhead, Text.trimEnd_append, htrim, if_neg (by simp [hend])]

lemma splitSuffix_joinWith (front : List Text) {last : Text} (hlast : CodePoint.ofChar '/' ∉ last) :
    splitSuffix (Text.joinWith "/" (front ++ [last])) =
      (Text.joinWith "/" (front ++ [(splitName last).1]), (splitName last).2) := by
  rw [splitSuffix, cutAtLastSlash_joinWith front hlast]
  exact congrArg (·, (splitName last).2) (Text.joinWith_concat_append front [] _)

end Written

end PackageExports
