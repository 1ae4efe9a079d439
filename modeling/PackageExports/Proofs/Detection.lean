import PackageExports.Naming.BuildPattern
import PackageExports.Proofs.CleanPaths

/-!
# What a detected pattern says

A pattern of two builds comes from two entry points that differ in one directory, in their extensions or in a word at the
start of their names, and the two marks are of the two module systems.

Main results: `BuildPattern.Detected`, `BuildPattern.detected_of_detect`, `Flavor.notMem_of_ofWord`.
-/

namespace PackageExports

/-- The CommonJS one of two things and the other one. -/
def Side.arrange {α : Type} (side : Side) (main module : α) : α × α :=
  match side with
  | .first => (main, module)
  | .second => (module, main)

lemma Side.forall_arrange {α : Type} {P : α → Prop} (side : Side) {main module : α} (hmain : P main)
    (hmodule : P module) : P (side.arrange main module).1 ∧ P (side.arrange main module).2 := by
  cases side with
  | first => exact ⟨hmain, hmodule⟩
  | second => exact ⟨hmodule, hmain⟩

namespace Flavor

lemma known_of_cjsSide? {first second : Flavor} {side : Side} (h : cjsSide? first second = some side) :
    first ≠ .unknown ∧ second ≠ .unknown := by
  revert h
  cases first <;> cases second <;> decide +revert

lemma mem_words {word : Text} (h : ofWord word ≠ .unknown) :
    Text.fold ((Text.dropEnd? "\n" word).getD word) ∈ cjsWords ++ esmWords := by
  unfold ofWord at h
  dsimp only at h
  rw [List.mem_append]
  split_ifs at h with hcjs hesm
  · exact .inl hcjs
  · exact .inr hesm
  · exact absurd rfl h

/-- A word that stands for a module system has no other code points than its letters and a line feed. -/
lemma notMem_of_ofWord {word : Text} {c : CodePoint} (hfold : c.fold = c) (hline : c ≠ CodePoint.ofChar '\n')
    (hwords : ∀ known ∈ cjsWords ++ esmWords, c ∉ known) (h : ofWord word ≠ .unknown) : c ∉ word := by
  intro hmem
  have hkept : c ∈ (Text.dropEnd? "\n" word).getD word := by
    unfold Text.dropEnd?
    split_ifs with hend
    · obtain ⟨front, rfl⟩ := List.isSuffixOf_iff_suffix.mp hend
      have hfront : c ∈ front := (List.mem_append.mp hmem).resolve_right fun hlast => hline (List.mem_singleton.mp hlast)
      simpa [Text.ofString] using hfront
    · exact hmem
  have hfolded := List.mem_map_of_mem (f := CodePoint.fold) hkept
  rw [hfold] at hfolded
  exact hwords _ (mem_words h) hfolded

lemma ne_nil_of_ofWord {word : Text} (h : ofWord word ≠ .unknown) : word ≠ [] := by
  rintro rfl
  exact h (by decide)

lemma mem_extensions {extension : Text} (h : ofExtension extension ≠ .unknown) :
    extension ∈ [Text.ofString ".cjs", ".mjs", ".js"] := by
  unfold ofExtension at h
  split_ifs at h with hcjs hesm hplain
  · exact hcjs ▸ List.mem_cons_self
  · exact hesm ▸ by simp
  · exact hplain ▸ by simp
  · exact absurd rfl h

end Flavor

namespace BuildPattern

lemma pair?_eq_some {kind : PatternKind} {main module : BuildSide} {mainFlavor moduleFlavor : Flavor}
    {p : BuildPattern} :
    pair? kind main module mainFlavor moduleFlavor = some p ↔ ∃ side, Flavor.cjsSide? mainFlavor moduleFlavor = some side ∧
      p = .dual kind (side.arrange main module).1 (side.arrange main module).2 := by
  rw [pair?, Option.map_eq_some_iff]
  refine exists_congr fun side => and_congr_right fun _ => ?_
  cases side <;> exact eq_comm

lemma eq_of_differences {as bs : List Text} {index : ℕ} (hlength : as.length = bs.length)
    (h : differences index as bs = []) : as = bs := by
  induction as generalizing bs index with
  | nil => exact (List.length_eq_zero_iff.mp hlength.symm).symm
  | cons a as ih =>
    obtain ⟨b, bs, rfl⟩ := List.exists_cons_of_length_eq_add_one hlength.symm
    rw [differences] at h
    split_ifs at h with hab
    rw [hab, ih (Nat.succ.inj hlength) h]

/-- Rows of one length with one difference are the same before and after it. -/
lemma split_of_differences {as bs : List Text} {start index : ℕ} {a b : Text} (hlength : as.length = bs.length)
    (h : differences start as bs = [(index, a, b)]) :
    a ≠ b ∧ ∃ front back, as = front ++ a :: back ∧ bs = front ++ b :: back ∧ index = start + front.length := by
  induction as generalizing bs start with
  | nil =>
    obtain rfl := List.length_eq_zero_iff.mp hlength.symm
    cases h
  | cons x as ih =>
    obtain ⟨y, bs, rfl⟩ := List.exists_cons_of_length_eq_add_one hlength.symm
    rw [differences] at h
    split_ifs at h with hxy
    · obtain ⟨hne, front, back, rfl, rfl, hindex⟩ := ih (Nat.succ.inj hlength) h
      refine ⟨hne, x :: front, back, rfl, by rw [hxy]; rfl, ?_⟩
      rw [hindex, List.length_cons]
      omega
    · obtain ⟨hfirst, hrest⟩ := List.cons.inj h
      obtain ⟨rfl, rfl, rfl⟩ : start = index ∧ x = a ∧ y = b := by simpa using hfirst
      exact ⟨hxy, [], as, rfl, by rw [eq_of_differences (Nat.succ.inj hlength) hrest]; rfl, rfl⟩

/-- How two entry points show a pattern. -/
inductive Detected (main module : Text) : BuildPattern → Prop
  | byDirectory {front back : List Text} {mainWord moduleWord mainName moduleName : Text} {side : Side}
      (hmain : Text.splitOn '/' main = front ++ mainWord :: back ++ [mainName])
      (hmodule : Text.splitOn '/' module = front ++ moduleWord :: back ++ [moduleName]) (hne : mainWord ≠ moduleWord)
      (hside : Flavor.cjsSide? (.ofWord mainWord) (.ofWord moduleWord) = some side) :
      Detected main module (.dual .byDirectory
        (side.arrange ⟨Text.joinWith "/" front, mainWord, []⟩ ⟨Text.joinWith "/" front, moduleWord, []⟩).1
        (side.arrange ⟨Text.joinWith "/" front, mainWord, []⟩ ⟨Text.joinWith "/" front, moduleWord, []⟩).2)
  | byExtension {base mainExtension moduleExtension : Text} {side : Side}
      (hmain : Written.splitSuffix main = (base, mainExtension))
      (hmodule : Written.splitSuffix module = (base, moduleExtension))
      (hside : Flavor.cjsSide? (.ofExtension mainExtension) (.ofExtension moduleExtension) = some side) :
      Detected main module (.dual .byExtension
        (side.arrange ⟨base, mainExtension, []⟩ ⟨base, moduleExtension, []⟩).1
        (side.arrange ⟨base, mainExtension, []⟩ ⟨base, moduleExtension, []⟩).2)
  | byNameStart {directory mainName moduleName mainWord mainSeparator moduleWord moduleSeparator rest : Text} {side : Side}
      (hmain : Written.split main = (directory, mainName)) (hmodule : Written.split module = (directory, moduleName))
      (hmainStart : nameStart? mainName = some (mainWord, mainSeparator, rest))
      (hmoduleStart : nameStart? moduleName = some (moduleWord, moduleSeparator, rest))
      (hside : Flavor.cjsSide? (.ofWord mainWord) (.ofWord moduleWord) = some side) :
      Detected main module (.dual .byNameStart
        (side.arrange ⟨directory, mainWord, mainSeparator⟩ ⟨directory, moduleWord, moduleSeparator⟩).1
        (side.arrange ⟨directory, mainWord, mainSeparator⟩ ⟨directory, moduleWord, moduleSeparator⟩).2)

lemma detected_of_byDirectory? {main module : Text} {p : BuildPattern} (h : byDirectory? main module = some p) :
    Detected main module p := by
  unfold byDirectory? at h
  dsimp only at h
  split_ifs at h with hshape
  obtain ⟨hlength, -⟩ := not_or.mp hshape
  rw [not_not] at hlength
  split at h
  · rename_i index mainWord moduleWord hdifferences
    obtain ⟨side, hside, rfl⟩ := pair?_eq_some.mp h
    have hdirectories : (Text.splitOn '/' main).dropLast.length = (Text.splitOn '/' module).dropLast.length := by
      rw [List.length_dropLast, List.length_dropLast, hlength]
    obtain ⟨hne, front, back, hmain, hmodule, hindex⟩ := split_of_differences hdirectories hdifferences
    have hwhole {parts : List Text} {word : Text} (hparts : parts ≠ []) (h : parts.dropLast = front ++ word :: back) :
        parts = front ++ word :: back ++ [parts.getLast hparts] ∧ parts.take index = front := by
      have hall : parts = front ++ word :: back ++ [parts.getLast hparts] := by
        rw [← h, List.dropLast_append_getLast]
      refine ⟨hall, ?_⟩
      rw [hall, hindex, Nat.zero_add, List.append_assoc]
      exact List.take_left
    obtain ⟨hmainAll, hmainTake⟩ := hwhole (Text.splitOn_ne_nil _ _) hmain
    obtain ⟨hmoduleAll, hmoduleTake⟩ := hwhole (Text.splitOn_ne_nil _ _) hmodule
    rw [hmainTake, hmoduleTake]
    exact .byDirectory hmainAll hmoduleAll hne hside
  · cases h

lemma detected_of_byExtension? {main module : Text} {p : BuildPattern} (h : byExtension? main module = some p) :
    Detected main module p := by
  unfold byExtension? at h
  dsimp only at h
  split_ifs at h with hshape
  obtain ⟨hbase, -⟩ := not_or.mp hshape
  rw [not_not] at hbase
  obtain ⟨side, hside, rfl⟩ := pair?_eq_some.mp h
  have hmodule : Written.splitSuffix module = ((Written.splitSuffix main).1, (Written.splitSuffix module).2) := by
    rw [hbase]
  rw [← hbase]
  exact .byExtension rfl hmodule hside

lemma detected_of_byNameStart? {main module : Text} {p : BuildPattern} (h : byNameStart? main module = some p) :
    Detected main module p := by
  unfold byNameStart? at h
  dsimp only at h
  split_ifs at h with hdirectory
  rw [not_not] at hdirectory
  split at h
  · rename_i mainWord mainSeparator mainRest moduleWord moduleSeparator moduleRest hmainStart hmoduleStart
    split_ifs at h with hrest
    rw [not_not] at hrest
    obtain ⟨side, hside, rfl⟩ := pair?_eq_some.mp h
    have hmodule : Written.split module = ((Written.split main).1, (Written.split module).2) := by
      rw [hdirectory]
    rw [← hdirectory]
    rw [← hrest] at hmoduleStart
    exact .byNameStart rfl hmodule hmainStart hmoduleStart hside
  · cases h

/-- Two builds are detected from two entry points in one of three ways. -/
theorem detected_of_detect {main module : Option Text} {kind : PatternKind} {cjs esm : BuildSide}
    (h : detect main module = .dual kind cjs esm) :
    ∃ mainPath modulePath, main = some mainPath ∧ module = some modulePath ∧
      Detected (Relative.dotted mainPath) (Relative.dotted modulePath) (.dual kind cjs esm) := by
  unfold detect at h
  split at h
  · rename_i mainPath modulePath hmain hmodule
    refine ⟨mainPath, modulePath, (Option.filter_eq_some_iff.mp hmain).1, (Option.filter_eq_some_iff.mp hmodule).1, ?_⟩
    unfold ofDotted at h
    split_ifs at h
    cases hdirectory : byDirectory? (Relative.dotted mainPath) (Relative.dotted modulePath) with
    | some p =>
      rw [hdirectory] at h
      obtain rfl : p = .dual kind cjs esm := h
      exact detected_of_byDirectory? hdirectory
    | none =>
      cases hextension : byExtension? (Relative.dotted mainPath) (Relative.dotted modulePath) with
      | some p =>
        rw [hdirectory, hextension] at h
        obtain rfl : p = .dual kind cjs esm := h
        exact detected_of_byExtension? hextension
      | none =>
        cases hname : byNameStart? (Relative.dotted mainPath) (Relative.dotted modulePath) with
        | some p =>
          rw [hdirectory, hextension, hname] at h
          obtain rfl : p = .dual kind cjs esm := h
          exact detected_of_byNameStart? hname
        | none =>
          rw [hdirectory, hextension, hname] at h
          cases h
  · cases h

end BuildPattern

end PackageExports
