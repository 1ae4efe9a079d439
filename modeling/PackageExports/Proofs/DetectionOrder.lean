import PackageExports.Proofs.DualBuilds
import PackageExports.Proofs.LevelPaths

/-!
# Detection without order

Two entry points show the same pattern whichever of them comes first, for each of the three ways in which they may
show one treats them alike. No two of these ways apply to the same entry points, so that it makes no difference either
which of them is tried first.

Main results: `BuildPattern.detect_symmetric`, `BuildPattern.Detected.kind_eq`, `BuildPattern.detection_exclusive`.
-/

namespace PackageExports

/-! ### Entry points that change places -/

/-- The other one of two things. -/
def Side.swap : Side → Side
  | first => second
  | second => first

namespace Flavor

variable {main module : Flavor} {side : Side}

lemma cjsSide?_swap (main module : Flavor) : cjsSide? module main = (cjsSide? main module).map Side.swap := by
  cases main <;> cases module <;> rfl

lemma cjsSide?_self (flavor : Flavor) : cjsSide? flavor flavor = none :=
  if_pos rfl

lemma arrange_of_cjsSide? (h : cjsSide? main module = some side) :
    (side.arrange main module).1 ≠ .esm ∧ (side.arrange main module).2 ≠ .cjs ∧
      (side.arrange main module).1 ≠ (side.arrange main module).2 := by
  revert h
  cases main <;> cases module <;> cases side <;> decide

end Flavor

namespace BuildPattern

lemma pair?_swap (kind : PatternKind) (main module : BuildSide) (mainFlavor moduleFlavor : Flavor) :
    pair? kind main module mainFlavor moduleFlavor = pair? kind module main moduleFlavor mainFlavor := by
  rw [pair?, pair?, Flavor.cjsSide?_swap mainFlavor, Option.map_map]
  congr 1
  funext side
  cases side <;> rfl

/-- Two rows differ from each other at the same places. -/
lemma differences_swap (index : ℕ) (as bs : List Text) :
    differences index bs as = (differences index as bs).map fun (place, a, b) => (place, b, a) := by
  induction as generalizing index bs with
  | nil => cases bs <;> rfl
  | cons a as ih =>
    cases bs with
    | nil => rfl
    | cons b bs =>
      rw [differences, differences]
      by_cases hab : a = b
      · rw [if_pos hab, if_pos hab.symm, ih]
      · rw [if_neg hab, if_neg (Ne.symm hab), ih, List.map_cons]

lemma byDirectory?_comm (main module : Text) : byDirectory? main module = byDirectory? module main := by
  unfold byDirectory?
  dsimp only
  rw [differences_swap 0 (Text.splitOn '/' main).dropLast]
  refine if_congr (or_congr ne_comm ne_comm) rfl ?_
  match differences 0 (Text.splitOn '/' main).dropLast (Text.splitOn '/' module).dropLast with
  | [] => rfl
  | [(index, mainWord, moduleWord)] => exact pair?_swap _ _ _ _ _
  | _ :: _ :: _ => rfl

lemma byExtension?_comm (main module : Text) : byExtension? main module = byExtension? module main := by
  unfold byExtension?
  dsimp only
  exact if_congr (or_congr ne_comm eq_comm) rfl (pair?_swap _ _ _ _ _)

lemma byNameStart?_comm (main module : Text) : byNameStart? main module = byNameStart? module main := by
  unfold byNameStart?
  dsimp only
  refine if_congr ne_comm rfl ?_
  cases nameStart? (Written.split main).2 with
  | none => cases nameStart? (Written.split module).2 <;> rfl
  | some mainStart =>
    cases nameStart? (Written.split module).2 with
    | none => rfl
    | some moduleStart => exact if_congr ne_comm rfl (pair?_swap _ _ _ _ _)

lemma ofDotted_comm (main module : Text) : ofDotted main module = ofDotted module main := by
  rw [ofDotted, ofDotted, byDirectory?_comm, byExtension?_comm, byNameStart?_comm]
  exact if_congr eq_comm rfl rfl

lemma detect_comm (main module : Option Text) : detect main module = detect module main := by
  unfold detect
  cases main.filter (!·.isEmpty) <;> cases module.filter (!·.isEmpty)
  case some.some => exact ofDotted_comm _ _
  all_goals rfl

/-! ### Which entry point is which build -/

/-- How an entry point is cut into what it shares with the other one, the marker of its build, and the rest. -/
inductive CutFrom (path : Text) : PatternKind → BuildSide → Prop
  | byDirectory {front back : List Text} {word : Text} (hpath : Text.splitOn '/' path = front ++ word :: back)
      (hback : back ≠ []) : CutFrom path .byDirectory ⟨Text.joinWith "/" front, word, []⟩
  | byExtension {base extension : Text} (hpath : Written.splitSuffix path = (base, extension)) :
      CutFrom path .byExtension ⟨base, extension, []⟩
  | byNameStart {directory name word separator rest : Text} (hpath : Written.split path = (directory, name))
      (hname : nameStart? name = some (word, separator, rest)) :
      CutFrom path .byNameStart ⟨directory, word, separator⟩

/-- Each of two builds is one of the entry points: the CommonJS one has a marker that does not stand for ES modules, and
the other one a different marker that does not stand for CommonJS. -/
structure Assigned (main module : Text) (kind : PatternKind) (cjs esm : BuildSide) : Prop where
  cut : (CutFrom main kind cjs ∧ CutFrom module kind esm) ∨ (CutFrom module kind cjs ∧ CutFrom main kind esm)
  sameBase : cjs.base = esm.base
  notEsm : flavorOf kind cjs.marker ≠ .esm
  notCjs : flavorOf kind esm.marker ≠ .cjs
  apart : cjs.marker ≠ esm.marker

variable {main module : Text} {kind : PatternKind} {cjs esm : BuildSide} {side : Side}

lemma Assigned.of_sides {mainSide moduleSide : BuildSide} (hmain : CutFrom main kind mainSide)
    (hmodule : CutFrom module kind moduleSide) (hbase : mainSide.base = moduleSide.base)
    (hside : Flavor.cjsSide? (flavorOf kind mainSide.marker) (flavorOf kind moduleSide.marker) = some side) :
    Assigned main module kind (side.arrange mainSide moduleSide).1 (side.arrange mainSide moduleSide).2 := by
  obtain ⟨hcjs, hesm, hne⟩ := Flavor.arrange_of_cjsSide? hside
  cases side with
  | first => exact ⟨.inl ⟨hmain, hmodule⟩, hbase, hcjs, hesm, fun heq => hne (congrArg (flavorOf kind) heq)⟩
  | second => exact ⟨.inr ⟨hmodule, hmain⟩, hbase.symm, hcjs, hesm, fun heq => hne (congrArg (flavorOf kind) heq)⟩

lemma Detected.assigned (h : Detected main module (.dual kind cjs esm)) : Assigned main module kind cjs esm := by
  cases h with
  | byDirectory hmain hmodule hne hside =>
    rw [List.append_assoc] at hmain hmodule
    exact .of_sides (.byDirectory hmain (by simp)) (.byDirectory hmodule (by simp)) rfl hside
  | byExtension hmain hmodule hside => exact .of_sides (.byExtension hmain) (.byExtension hmodule) rfl hside
  | byNameStart hmain hmodule hmainStart hmoduleStart hside =>
    exact .of_sides (.byNameStart hmain hmainStart) (.byNameStart hmodule hmoduleStart) rfl hside

/-- Which of two entry points comes first does not matter: they show the same pattern. If it is one of two builds, each
entry point is one of them, and their markers are different, the one for CommonJS not being one for ES modules nor the
other way round. -/
theorem detect_symmetric (main module : Option Text) :
    detect main module = detect module main ∧
      ∀ kind cjs esm, detect main module = .dual kind cjs esm →
        ∃ mainPath modulePath, main = some mainPath ∧ module = some modulePath ∧
          Assigned (Relative.dotted mainPath) (Relative.dotted modulePath) kind cjs esm := by
  refine ⟨detect_comm main module, fun kind cjs esm hpattern => ?_⟩
  obtain ⟨mainPath, modulePath, hmain, hmodule, hdetected⟩ := detected_of_detect hpattern
  exact ⟨mainPath, modulePath, hmain, hmodule, hdetected.assigned⟩

/-- The two builds of `lib/cjs` and `lib/esm`, whichever of them the manifest names first. -/
theorem detect_symmetric_directories :
    detect (some "lib/esm/index.js") (some "./lib/cjs/index.js") =
        .dual .byDirectory ⟨"./lib", "cjs", []⟩ ⟨"./lib", "esm", []⟩ ∧
      Assigned "./lib/cjs/index.js" "./lib/esm/index.js" .byDirectory ⟨"./lib", "cjs", []⟩ ⟨"./lib", "esm", []⟩ := by
  obtain ⟨hcomm, hsides⟩ := detect_symmetric (some "./lib/cjs/index.js") (some "lib/esm/index.js")
  have hpattern : detect (some "./lib/cjs/index.js") (some "lib/esm/index.js") =
      .dual .byDirectory ⟨"./lib", "cjs", []⟩ ⟨"./lib", "esm", []⟩ := by decide
  obtain ⟨mainPath, modulePath, hmain, hmodule, hassigned⟩ := hsides _ _ _ hpattern
  obtain rfl := Option.some.inj hmain
  obtain rfl := Option.some.inj hmodule
  exact ⟨hcomm.symm.trans hpattern, hassigned⟩

end BuildPattern

/-! ### One way for two entry points -/

namespace BuildPattern

variable {main module : Text} {kind other : PatternKind} {cjs esm otherCjs otherEsm : BuildSide}

lemma notMem_slash_of_splitOn {path : Text} {row : List Text} {name : Text}
    (h : Text.splitOn '/' path = row ++ [name]) : ∀ piece ∈ row ++ [[]], CodePoint.ofChar '/' ∉ piece := by
  intro piece hpiece
  rcases List.mem_append.mp hpiece with hmem | hmem
  · exact Text.notMem_of_mem_splitOn (t := path) (by rw [h]; exact List.mem_append_left _ hmem)
  · rw [List.mem_singleton.mp hmem]
    exact List.not_mem_nil

lemma exists_slashes {path : Text} {row : List Text} {name : Text} (h : Text.splitOn '/' path = row ++ [name]) :
    ∃ k, Text.joinWith "/" (row ++ [[]]) = (Written.split path).1 ++ List.replicate k (CodePoint.ofChar '/') := by
  have hname : CodePoint.ofChar '/' ∉ name := Text.notMem_of_mem_splitOn (t := path) (by rw [h]; simp)
  rw [← Text.joinWith_splitOn path, h, Written.split, Written.cutAtLastSlash_joinWith row hname]
  dsimp only
  split_ifs
  · exact ⟨0, (List.append_nil _).symm⟩
  · exact Text.exists_trimEnd _ _

lemma front_eq_of_split {front others : List Text} {last otherLast : Text}
    (hmain : Text.splitOn '/' main = front ++ [last]) (hmodule : Text.splitOn '/' module = others ++ [otherLast])
    (hlength : front.length = others.length) (hsplit : (Written.split main).1 = (Written.split module).1) :
    front = others := by
  obtain ⟨k, hmainHead⟩ := exists_slashes hmain
  obtain ⟨l, hmoduleHead⟩ := exists_slashes hmodule
  have hmainSlash := notMem_slash_of_splitOn hmain
  have hmoduleSlash := notMem_slash_of_splitOn hmodule
  have hcount := congrArg (List.count (CodePoint.ofChar '/')) hmainHead
  have hcount' := congrArg (List.count (CodePoint.ofChar '/')) hmoduleHead
  rw [Text.count_joinWith hmainSlash, List.count_append, List.count_replicate_self] at hcount
  rw [Text.count_joinWith hmoduleSlash, List.count_append, List.count_replicate_self,
    ← hsplit, ← hlength] at hcount'
  obtain rfl : k = l := by omega
  rw [hsplit, ← hmoduleHead] at hmainHead
  exact List.append_cancel_right (Text.joinWith_inj (by simp) (by simp) hmainSlash hmoduleSlash hmainHead)

lemma letters_append (stem : Text) {extension : Text} (h : Flavor.ofExtension extension ≠ .unknown) :
    letters (stem ++ extension) = letters stem := by
  have hnone : ∀ known ∈ [Text.ofString ".cjs", ".mjs", ".js"], letters known = [] := by decide
  have hextension := hnone extension (Flavor.mem_extensions h)
  unfold letters at hextension ⊢
  rw [List.takeWhile_append, hextension, List.append_nil]
  split_ifs with hall
  · exact ((List.takeWhile_prefix _).eq_of_length hall).symm
  · rfl

lemma base_of_splitSuffix {path name base extension : Text} {row : List Text}
    (hrow : Text.splitOn '/' path = row ++ [name]) (hsuffix : Written.splitSuffix path = (base, extension)) :
    base = Text.joinWith "/" (row ++ [(Written.splitName name).1]) ∧ extension = (Written.splitName name).2 ∧
      ∀ piece ∈ row ++ [(Written.splitName name).1], CodePoint.ofChar '/' ∉ piece := by
  have hpieces : ∀ piece ∈ row ++ [name], CodePoint.ofChar '/' ∉ piece :=
    fun piece hpiece => Text.notMem_of_mem_splitOn (hrow ▸ hpiece)
  obtain ⟨hfront, hname⟩ := List.forall_mem_append.mp hpieces
  have hslash := List.forall_mem_singleton.mp hname
  rw [← Text.joinWith_splitOn path, hrow, Written.splitSuffix_joinWith row hslash] at hsuffix
  obtain ⟨rfl, rfl⟩ := Prod.mk.inj hsuffix
  refine ⟨rfl, rfl, List.forall_mem_append.mpr ⟨hfront, List.forall_mem_singleton.mpr ?_⟩⟩
  exact fun hmem => hslash ((Written.prefix_splitName name).subset hmem)

lemma row_eq_of_splitSuffix {row others : List Text} {name otherName base mainExtension moduleExtension : Text}
    (hmain : Text.splitOn '/' main = row ++ [name]) (hmodule : Text.splitOn '/' module = others ++ [otherName])
    (hmainSuffix : Written.splitSuffix main = (base, mainExtension))
    (hmoduleSuffix : Written.splitSuffix module = (base, moduleExtension)) :
    row = others ∧ (Written.splitName name).1 = (Written.splitName otherName).1 := by
  obtain ⟨hmainBase, -, hmainPieces⟩ := base_of_splitSuffix hmain hmainSuffix
  obtain ⟨hmoduleBase, -, hmodulePieces⟩ := base_of_splitSuffix hmodule hmoduleSuffix
  have hrows := Text.joinWith_inj (by simp) (by simp) hmainPieces hmodulePieces (hmainBase.symm.trans hmoduleBase)
  obtain ⟨hrow, hstem⟩ := List.append_inj' hrows rfl
  exact ⟨hrow, List.singleton_inj.mp hstem⟩

/-- Paths that differ in a directory do not differ in the suffix only. -/
lemma not_byDirectory_byExtension {front back : List Text} {mainWord moduleWord mainName moduleName base mainExtension
    moduleExtension : Text} (hmain : Text.splitOn '/' main = front ++ mainWord :: back ++ [mainName])
    (hmodule : Text.splitOn '/' module = front ++ moduleWord :: back ++ [moduleName]) (hne : mainWord ≠ moduleWord)
    (hmainSuffix : Written.splitSuffix main = (base, mainExtension))
    (hmoduleSuffix : Written.splitSuffix module = (base, moduleExtension)) : False := by
  obtain ⟨hrows, -⟩ := row_eq_of_splitSuffix hmain hmodule hmainSuffix hmoduleSuffix
  exact hne (List.cons.inj (List.append_cancel_left hrows)).1

lemma not_byDirectory_byNameStart {front back : List Text} {mainWord moduleWord mainName moduleName : Text}
    (hmain : Text.splitOn '/' main = front ++ mainWord :: back ++ [mainName])
    (hmodule : Text.splitOn '/' module = front ++ moduleWord :: back ++ [moduleName]) (hne : mainWord ≠ moduleWord)
    (hsplit : (Written.split main).1 = (Written.split module).1) : False := by
  have hrows := front_eq_of_split hmain hmodule (by simp) hsplit
  exact hne (List.cons.inj (List.append_cancel_left hrows)).1

lemma letters_eq_of_splitSuffix {base mainExtension moduleExtension : Text}
    (hmainSuffix : Written.splitSuffix main = (base, mainExtension))
    (hmoduleSuffix : Written.splitSuffix module = (base, moduleExtension))
    (hmainKnown : Flavor.ofExtension mainExtension ≠ .unknown)
    (hmoduleKnown : Flavor.ofExtension moduleExtension ≠ .unknown) :
    letters (Written.split main).2 = letters (Written.split module).2 := by
  have hletters {path extension : Text} (hsuffix : Written.splitSuffix path = (base, extension))
      (hknown : Flavor.ofExtension extension ≠ .unknown) :
      letters (Written.split path).2 = letters (Written.splitName (Written.split path).2).1 := by
    obtain ⟨row, hrow⟩ := Written.splitOn_split path
    obtain ⟨-, rfl, -⟩ := base_of_splitSuffix hrow hsuffix
    have hne : (Written.splitName (Written.split path).2).2 ≠ [] := by
      intro hnil
      rw [hnil] at hknown
      exact hknown (by decide)
    obtain ⟨-, hname, -⟩ := Written.stem_spec hne (Written.notMem_split path)
    conv_lhs => rw [hname]
    exact letters_append _ hknown
  obtain ⟨row, hmain⟩ := Written.splitOn_split main
  obtain ⟨others, hmodule⟩ := Written.splitOn_split module
  rw [hletters hmainSuffix hmainKnown, hletters hmoduleSuffix hmoduleKnown,
    (row_eq_of_splitSuffix hmain hmodule hmainSuffix hmoduleSuffix).2]

lemma not_byExtension_byNameStart {base mainExtension moduleExtension directory mainName moduleName mainWord
    mainSeparator moduleWord moduleSeparator rest : Text} {side otherSide : Side}
    (hmainSuffix : Written.splitSuffix main = (base, mainExtension))
    (hmoduleSuffix : Written.splitSuffix module = (base, moduleExtension))
    (hside : Flavor.cjsSide? (.ofExtension mainExtension) (.ofExtension moduleExtension) = some side)
    (hmainSplit : Written.split main = (directory, mainName))
    (hmoduleSplit : Written.split module = (directory, moduleName))
    (hmainStart : nameStart? mainName = some (mainWord, mainSeparator, rest))
    (hmoduleStart : nameStart? moduleName = some (moduleWord, moduleSeparator, rest))
    (hother : Flavor.cjsSide? (.ofWord mainWord) (.ofWord moduleWord) = some otherSide) : False := by
  obtain ⟨hmainKnown, hmoduleKnown⟩ := Flavor.known_of_cjsSide? hside
  have hwords := letters_eq_of_splitSuffix hmainSuffix hmoduleSuffix hmainKnown hmoduleKnown
  rw [hmainSplit, hmoduleSplit, ← (nameStart?_eq_some hmainStart).2.1,
    ← (nameStart?_eq_some hmoduleStart).2.1] at hwords
  rw [hwords, Flavor.cjsSide?_self] at hother
  cases hother

/-- The three ways in which entry points show two builds exclude each other. -/
theorem Detected.kind_eq {kind other : PatternKind} {cjs esm otherCjs otherEsm : BuildSide}
    (h : Detected main module (.dual kind cjs esm)) (h' : Detected main module (.dual other otherCjs otherEsm)) :
    kind = other := by
  cases h with
  | byDirectory hmain hmodule hne hside =>
    cases h' with
    | byDirectory => rfl
    | byExtension hmainSuffix hmoduleSuffix =>
      exact (not_byDirectory_byExtension hmain hmodule hne hmainSuffix hmoduleSuffix).elim
    | byNameStart hmainSplit hmoduleSplit =>
      exact (not_byDirectory_byNameStart hmain hmodule hne (by rw [hmainSplit, hmoduleSplit])).elim
  | byExtension hmainSuffix hmoduleSuffix hside =>
    cases h' with
    | byDirectory hmain hmodule hne =>
      exact (not_byDirectory_byExtension hmain hmodule hne hmainSuffix hmoduleSuffix).elim
    | byExtension => rfl
    | byNameStart hmainSplit hmoduleSplit hmainStart hmoduleStart hother =>
      exact (not_byExtension_byNameStart hmainSuffix hmoduleSuffix hside hmainSplit hmoduleSplit hmainStart
        hmoduleStart hother).elim
  | byNameStart hmainSplit hmoduleSplit hmainStart hmoduleStart hside =>
    cases h' with
    | byDirectory hmain hmodule hne =>
      exact (not_byDirectory_byNameStart hmain hmodule hne (by rw [hmainSplit, hmoduleSplit])).elim
    | byExtension hmainSuffix hmoduleSuffix hother =>
      exact (not_byExtension_byNameStart hmainSuffix hmoduleSuffix hother hmainSplit hmoduleSplit hmainStart
        hmoduleStart hside).elim
    | byNameStart => rfl

/-- What one of the three ways shows of two entry points. -/
def shown? (kind : PatternKind) (main module : Text) : Option BuildPattern :=
  match kind with
  | .byDirectory => byDirectory? main module
  | .byExtension => byExtension? main module
  | .byNameStart => byNameStart? main module

/-- The three ways in the order in which they are tried. -/
def ways : List PatternKind :=
  [.byDirectory, .byExtension, .byNameStart]

/-- How the entry points of a package show two builds if the ways are tried in some order. -/
def detectIn (order : List PatternKind) (main module : Option Text) : BuildPattern :=
  match main.filter (!·.isEmpty), module.filter (!·.isEmpty) with
  | some main, some module =>
    if Relative.dotted main = Relative.dotted module then .single
    else (order.findSome? fun kind => shown? kind (Relative.dotted main) (Relative.dotted module)).getD .single
  | _, _ => .single

lemma detectIn_ways (main module : Option Text) : detectIn ways main module = detect main module := by
  have hways (main module : Text) : (ways.findSome? fun kind => shown? kind main module) =
      ((byDirectory? main module <|> byExtension? main module) <|> byNameStart? main module) := by
    simp only [ways, List.findSome?_cons, List.findSome?_nil, shown?]
    cases byDirectory? main module <;> cases byExtension? main module <;> cases byNameStart? main module <;> rfl
  unfold detectIn detect
  cases main.filter (!·.isEmpty) with
  | none => rfl
  | some mainPath =>
    cases module.filter (!·.isEmpty) with
    | none => rfl
    | some modulePath =>
      dsimp only
      rw [hways]
      rfl

lemma dual_of_shown? {kind : PatternKind} {p : BuildPattern} (h : shown? kind main module = some p) :
    ∃ cjs esm, p = .dual kind cjs esm := by
  have hpair {kind : PatternKind} {mainSide moduleSide : BuildSide} {mainFlavor moduleFlavor : Flavor}
      (h : pair? kind mainSide moduleSide mainFlavor moduleFlavor = some p) : ∃ cjs esm, p = .dual kind cjs esm := by
    obtain ⟨side, -, rfl⟩ := pair?_eq_some.mp h
    exact ⟨_, _, rfl⟩
  cases kind with
  | byDirectory =>
    obtain ⟨-, h⟩ := Option.ite_none_left_eq_some.mp h
    split at h
    · exact hpair h
    · cases h
  | byExtension => exact hpair (Option.ite_none_left_eq_some.mp h).2
  | byNameStart =>
    obtain ⟨-, h⟩ := Option.ite_none_left_eq_some.mp h
    split at h
    · exact hpair (Option.ite_none_left_eq_some.mp h).2
    · cases h

lemma detected_of_shown? {kind : PatternKind} {p : BuildPattern} (h : shown? kind main module = some p) :
    Detected main module p := by
  cases kind with
  | byDirectory => exact detected_of_byDirectory? h
  | byExtension => exact detected_of_byExtension? h
  | byNameStart => exact detected_of_byNameStart? h

lemma kind_eq_of_shown? {kind other : PatternKind} {p q : BuildPattern} (h : shown? kind main module = some p)
    (h' : shown? other main module = some q) : kind = other := by
  obtain ⟨cjs, esm, rfl⟩ := dual_of_shown? h
  obtain ⟨otherCjs, otherEsm, rfl⟩ := dual_of_shown? h'
  exact (detected_of_shown? h).kind_eq (detected_of_shown? h')

/-- If only one of several things gives something, it does not matter in which order they are asked. -/
lemma findSome?_perm {α β : Type} {f : α → Option β} (h : ∀ a b x y, f a = some x → f b = some y → a = b)
    {as bs : List α} (hperm : as.Perm bs) : as.findSome? f = bs.findSome? f := by
  induction hperm with
  | nil => rfl
  | cons a _ ih => rw [List.findSome?_cons, List.findSome?_cons, ih]
  | swap a b rest =>
    simp only [List.findSome?_cons]
    cases ha : f a with
    | none => rfl
    | some x =>
      cases hb : f b with
      | none => rfl
      | some y =>
        obtain rfl := h a b x y ha hb
        exact hb.symm.trans ha
  | trans _ _ ih ih' => exact ih.trans ih'

lemma detectIn_perm {order : List PatternKind} (h : order.Perm ways) (main module : Option Text) :
    detectIn order main module = detect main module := by
  rw [← detectIn_ways]
  unfold detectIn
  cases main.filter (!·.isEmpty) with
  | none => rfl
  | some mainPath =>
    cases module.filter (!·.isEmpty) with
    | none => rfl
    | some modulePath =>
      dsimp only
      rw [findSome?_perm (fun _ _ _ _ => kind_eq_of_shown?) h]

/-- The three ways in which entry points show two builds exclude each other: no two of them show anything of the same
two paths. So the pattern that is detected is the same in whatever order they are tried. -/
theorem detection_exclusive :
    (∀ main module kind other p q, shown? kind main module = some p → shown? other main module = some q →
      kind = other) ∧
    ∀ main module (order : List PatternKind), order.Perm ways → detectIn order main module = detect main module :=
  ⟨fun _ _ _ _ _ _ => kind_eq_of_shown?, fun main module _ horder => detectIn_perm horder main module⟩

/-- Entry points that have the extensions of two builds, in directories with the names of two builds as well, show a
pattern by their directories only, also if these are tried last. -/
theorem detection_exclusive_directories :
    shown? .byExtension "./lib/cjs/index.cjs" "./lib/esm/index.mjs" = none ∧
      detectIn [.byNameStart, .byExtension, .byDirectory] (some "lib/cjs/index.cjs") (some "lib/esm/index.mjs") =
        .dual .byDirectory ⟨"./lib", "cjs", []⟩ ⟨"./lib", "esm", []⟩ := by
  obtain ⟨hone, horder⟩ := detection_exclusive
  have hshown : shown? .byDirectory "./lib/cjs/index.cjs" "./lib/esm/index.mjs" =
      some (.dual .byDirectory ⟨"./lib", "cjs", []⟩ ⟨"./lib", "esm", []⟩) := by decide
  have hpattern : detect (some "lib/cjs/index.cjs") (some "lib/esm/index.mjs") =
      .dual .byDirectory ⟨"./lib", "cjs", []⟩ ⟨"./lib", "esm", []⟩ := by decide
  refine ⟨?_, (horder _ _ _ (by decide)).trans hpattern⟩
  rw [Option.eq_none_iff_forall_ne_some]
  intro p hp
  cases hone _ _ _ _ _ _ hshown hp

end BuildPattern

end PackageExports
