import Mathlib.Tactic.SplitIfs
import PackageExports.Exports.Entry
import PackageExports.Proofs.Actions

/-!
# What the strategies find

`EntryRequest.Resolved` lists the ways in which an imported path gets its targets, one for each strategy. Whatever the
order of the strategies, the targets of a path come about in one of these ways.

Main results: `Expansion.expand_eq_some`, `EntryRequest.resolved_of_conditions`.
-/

namespace PackageExports

/-! ### Files that are found -/

namespace SearchPlan

variable {package : Path} {found : Option Path} {file : Text}

lemma foundFrom_eq_some :
    foundFrom package found = .ok (some file) ↔ ∃ p, found = some p ∧ seenFrom package p = .ok file := by
  cases found with
  | none => simp [foundFrom]
  | some p => simp [foundFrom, map_ok_iff]

variable (package) in
lemma foundFrom_eq_none : foundFrom package found = .ok none ↔ found = none := by
  cases found with
  | none => simp [foundFrom]
  | some p => simp [foundFrom, map_ok_iff]

end SearchPlan

namespace SourceFile

variable {fs : FileSystem} {package : Path} {base target source : Text} {sources builds : List Text}

lemma resolve?_eq_some :
    resolve? fs package base = .ok (some source) ↔ ∃ seen,
      SearchPlan.foundFrom package (Probe.fileBeforeIndex? fs (package / base).text extensions) = .ok (some seen) ∧
        source = Relative.dotted seen := by
  rw [resolve?, map_ok_iff]
  constructor
  · rintro ⟨found, hfound, hsome⟩
    obtain ⟨seen, rfl, rfl⟩ := Option.map_eq_some_iff.mp hsome
    exact ⟨seen, hfound, rfl⟩
  · rintro ⟨seen, hfound, rfl⟩
    exact ⟨some seen, hfound, rfl⟩

variable (fs package) in
lemma firstSource?_eq (bases : List Text) : firstSource? fs package bases = bases.findSomeM? (resolve? fs package) := by
  induction bases with
  | nil => rfl
  | cons base rest ih =>
    rw [firstSource?, List.findSomeM?_cons, ih]
    congr
    funext found
    cases found <;> rfl

lemma exists_resolve?_of_find? (h : find? fs package target sources builds = .ok (some source)) :
    ∃ base ∈ candidates target sources builds, resolve? fs package base = .ok (some source) := by
  rw [find?, firstSource?_eq] at h
  exact findSomeM?_eq_some h

end SourceFile

/-! ### Two builds -/

namespace Expansion

variable {fs : FileSystem} {package : Path} {path : Text} {sources extensions : List Text} {cs : Conditions}

lemma resolve?_eq_some {base target : Text} :
    resolve? fs package extensions base = .ok (some target) ↔ base ≠ [] ∧ ∃ seen,
      SearchPlan.foundFrom package (Probe.fileOrIndex? fs (package / base).text extensions) = .ok (some seen) ∧
        target = "./" ++ seen := by
  unfold resolve?
  by_cases hbase : base = []
  · rw [if_pos (by simpa using hbase)]
    constructor
    · intro h
      cases h
    · rintro ⟨hne, -⟩
      exact absurd hbase hne
  · rw [if_neg (by simpa using hbase), map_ok_iff, and_iff_right hbase]
    constructor
    · rintro ⟨found, hfound, hsome⟩
      obtain ⟨seen, rfl, rfl⟩ := Option.map_eq_some_iff.mp hsome
      exact ⟨seen, hfound, rfl⟩
    · rintro ⟨seen, hfound, rfl⟩
      exact ⟨some seen, hfound, rfl⟩

def targets (fs : FileSystem) (package : Path) (path file : Text) (cjsFile esmFile source : Option Text) : Conditions :=
  { source
    types := typesOf? fs package (Relative.bare path) file
    imported := esmFile
    required := cjsFile
    otherwise := some file }

/-- The file that a path stands for is the one that it leads to, or that of either build. -/
lemma eq_of_first {ownFile esmFile cjsFile : Option Text} {file : Text}
    (h : (ownFile <|> esmFile <|> cjsFile) = some file) :
    ownFile = some file ∨ esmFile = some file ∨ cjsFile = some file := by
  cases ownFile with
  | some own => exact .inl h
  | none =>
    cases esmFile with
    | some esm => exact .inr (.inl h)
    | none => exact .inr (.inr h)

/-- A path in a package with two builds has targets if it is no name of the package and one of three files is there. -/
theorem expand_eq_some {kind : PatternKind} {cjs esm : BuildSide} :
    expand fs package (.dual kind cjs esm) path sources extensions = .ok (some cs) ↔
      (Relative.bare path ≠ [] ∧ Relative.bare path ≠ ".") ∧ ∃ cjsFile esmFile ownFile file source,
        resolve? fs package extensions (candidates kind cjs esm (Relative.bare path)).1 = .ok cjsFile ∧
        resolve? fs package extensions (candidates kind cjs esm (Relative.bare path)).2 = .ok esmFile ∧
        resolve? fs package extensions (Relative.bare path) = .ok ownFile ∧
        (ownFile <|> esmFile <|> cjsFile) = some file ∧
        SourceFile.find? fs package ("./" ++ Relative.bare path) sources ({} : Settings).buildDirectories =
          .ok source ∧
        cs = targets fs package path file cjsFile esmFile source := by
  unfold expand
  dsimp only
  by_cases hbare : Relative.bare path = [] ∨ Relative.bare path = "."
  · rw [if_pos hbare]
    constructor
    · intro h
      cases h
    · rintro ⟨⟨hne, hdot⟩, -⟩
      exact absurd hbare (not_or.mpr ⟨hne, hdot⟩)
  · rw [if_neg hbare]
    constructor
    · intro h
      obtain ⟨cjsFile, hcjs, h⟩ := bind_ok_iff.mp h
      obtain ⟨esmFile, hesm, h⟩ := bind_ok_iff.mp h
      obtain ⟨ownFile, hown, h⟩ := bind_ok_iff.mp h
      cases hfile : ownFile <|> esmFile <|> cjsFile with
      | none =>
        rw [hfile] at h
        cases h
      | some file =>
        rw [hfile] at h
        obtain ⟨source, hsource, h⟩ := bind_ok_iff.mp h
        have hcs := Option.some.inj (Except.ok.inj h)
        exact ⟨not_or.mp hbare, cjsFile, esmFile, ownFile, file, source, hcjs, hesm, hown, hfile, hsource, hcs.symm⟩
    · rintro ⟨-, cjsFile, esmFile, ownFile, file, source, hcjs, hesm, hown, hfile, hsource, rfl⟩
      refine bind_ok_iff.mpr ⟨cjsFile, hcjs, bind_ok_iff.mpr ⟨esmFile, hesm, bind_ok_iff.mpr ⟨ownFile, hown, ?_⟩⟩⟩
      rw [hfile]
      exact bind_ok_iff.mpr ⟨source, hsource, rfl⟩

end Expansion

/-! ### Strategies -/

namespace EntryRequest

variable {fs : FileSystem} {r : EntryRequest} {cs : Conditions}

/-- A file of a directory that one of several extensions leads to. -/
def FoundBelow (fs : FileSystem) (root : Path) (path : Text) (extensions : List Text) (file : Text) : Prop :=
  SearchPlan.foundFrom root (Probe.fileOrIndex? fs (root / path).text extensions) = .ok (some file)

lemma assumption_eq_ok : (assumption fs r).result = .ok cs ↔
    ∃ source, SourceFile.find? fs r.package ("./" ++ r.outputDirectory ++ "/" ++ r.outputStem ++ ".js")
        r.sourceDirectories r.buildDirectories = .ok source ∧
      cs =
        { source := source
          types := some ("./" ++ r.outputDirectory ++ "/" ++ r.outputStem ++ ".d.ts")
          otherwise := some ("./" ++ r.outputDirectory ++ "/" ++ r.outputStem ++ ".js") } := by
  rw [assumption, Attempt.result_bind]
  constructor
  · intro h
    obtain ⟨-, -, h⟩ := bind_ok_iff.mp h
    dsimp only at h
    rw [Attempt.result_bind, Attempt.result_ofExcept] at h
    obtain ⟨source, hsource, hcs⟩ := bind_ok_iff.mp h
    exact ⟨source, hsource, (Except.ok.inj hcs).symm⟩
  · rintro ⟨source, hsource, rfl⟩
    refine bind_ok_iff.mpr ⟨(), rfl, ?_⟩
    dsimp only
    rw [Attempt.result_bind, Attempt.result_ofExcept, hsource]
    rfl

/-- The ways in which a path gets targets. -/
inductive Resolved (fs : FileSystem) (r : EntryRequest) : Conditions → Prop
  | built {directory relative file : Text} {cs : Conditions} (hroot : (directory, relative) ∈ r.searchRoots)
      (hfound : FoundBelow fs (r.package / directory) relative exactExtensions file)
      (h : builtConditions fs r directory file = .ok cs) : Resolved fs r cs
  | expanded {cs : Conditions}
      (h : Expansion.expand fs r.package r.pattern r.path r.sourceDirectories = .ok (some cs)) : Resolved fs r cs
  | predicted {directory file : Text} (hdirectory : directory ∈ r.sourceDirectories)
      (hfound : FoundBelow fs (r.package / directory) r.outputStem [".ts", ".tsx"] file) :
      Resolved fs r (predictedConditions r directory file)
  | assumed {cs : Conditions} (h : (assumption fs r).result = .ok cs) : Resolved fs r cs

variable (fs r) in
lemma exactMatchIn_eq (roots : List (Text × Text)) :
    exactMatchIn fs r roots = roots.findSomeM? fun root => exactMatchBelow fs r root.1 root.2 := by
  induction roots with
  | nil => rfl
  | cons root rest ih =>
    rw [exactMatchIn, List.findSomeM?_cons, ih]
    congr
    funext found
    cases found <;> rfl

variable (fs r) in
lemma predictionIn_eq (directories : List Text) :
    predictionIn fs r directories = directories.findSomeM? (predictionBelow fs r) := by
  induction directories with
  | nil => rfl
  | cons directory rest ih =>
    rw [predictionIn, List.findSomeM?_cons, ih]
    congr
    funext found
    cases found <;> rfl

lemma exactMatchBelow_eq_some {directory relative : Text} :
    exactMatchBelow fs r directory relative = .ok (some cs) ↔
      ∃ file, FoundBelow fs (r.package / directory) relative exactExtensions file ∧
        builtConditions fs r directory file = .ok cs := by
  constructor
  · intro h
    obtain ⟨file?, hfile, h⟩ := bind_ok_iff.mp h
    cases file? with
    | none => cases h
    | some file =>
      obtain ⟨built, hbuilt, h⟩ := bind_ok_iff.mp h
      obtain rfl : built = cs := Option.some.inj (Except.ok.inj h)
      exact ⟨file, hfile, hbuilt⟩
  · rintro ⟨file, hfile, hbuilt⟩
    exact bind_ok_iff.mpr ⟨some file, hfile, bind_ok_iff.mpr ⟨cs, hbuilt, rfl⟩⟩

lemma exactMatchBelow_eq_none {directory relative : Text} :
    exactMatchBelow fs r directory relative = .ok none ↔
      Probe.fileOrIndex? fs (r.package / directory / relative).text exactExtensions = none := by
  rw [← SearchPlan.foundFrom_eq_none (r.package / directory)]
  constructor
  · intro h
    obtain ⟨file?, hfile, h⟩ := bind_ok_iff.mp h
    cases file? with
    | none => exact hfile
    | some file =>
      obtain ⟨built, -, hsome⟩ := bind_ok_iff.mp h
      cases hsome
  · exact fun hfile => bind_ok_iff.mpr ⟨none, hfile, rfl⟩

lemma predictionBelow_eq_some {directory : Text} :
    predictionBelow fs r directory = .ok (some cs) ↔
      ∃ file, FoundBelow fs (r.package / directory) r.outputStem [".ts", ".tsx"] file ∧
        cs = predictedConditions r directory file := by
  unfold predictionBelow
  constructor
  · intro h
    obtain ⟨file?, hfile, h⟩ := bind_ok_iff.mp h
    obtain ⟨file, rfl, hconditions⟩ := Option.map_eq_some_iff.mp (Except.ok.inj h)
    exact ⟨file, hfile, hconditions.symm⟩
  · rintro ⟨file, hfile, rfl⟩
    exact bind_ok_iff.mpr ⟨some file, hfile, rfl⟩

lemma exactMatchIn_eq_some {roots : List (Text × Text)} (h : exactMatchIn fs r roots = .ok (some cs)) :
    ∃ root ∈ roots, ∃ file, FoundBelow fs (r.package / root.1) root.2 exactExtensions file ∧
      builtConditions fs r root.1 file = .ok cs := by
  rw [exactMatchIn_eq] at h
  obtain ⟨root, hroot, hbelow⟩ := findSomeM?_eq_some h
  exact ⟨root, hroot, exactMatchBelow_eq_some.mp hbelow⟩

lemma exactMatch_some (h : exactMatch fs r = .ok (some cs)) : Resolved fs r cs := by
  obtain ⟨root, hroot, file, hfound, hbuilt⟩ := exactMatchIn_eq_some h
  exact .built hroot hfound hbuilt

lemma exactMatchIn_eq_none {roots : List (Text × Text)} (h : exactMatchIn fs r roots = .ok none) :
    ∀ root ∈ roots, Probe.fileOrIndex? fs (r.package / root.1 / root.2).text exactExtensions = none := by
  rw [exactMatchIn_eq] at h
  exact fun root hroot => exactMatchBelow_eq_none.mp (findSomeM?_eq_none h root hroot)

lemma predictionIn_eq_some {directories : List Text} (h : predictionIn fs r directories = .ok (some cs)) :
    ∃ directory ∈ directories, ∃ file, FoundBelow fs (r.package / directory) r.outputStem [".ts", ".tsx"] file ∧
      cs = predictedConditions r directory file := by
  rw [predictionIn_eq] at h
  obtain ⟨directory, hdirectory, hbelow⟩ := findSomeM?_eq_some h
  exact ⟨directory, hdirectory, predictionBelow_eq_some.mp hbelow⟩

lemma prediction_some (h : prediction fs r = .ok (some cs)) : Resolved fs r cs := by
  obtain ⟨directory, hdirectory, file, hfound, rfl⟩ := predictionIn_eq_some h
  exact .predicted hdirectory hfound

lemma resolved_of_apply {s : Strategy} (h : (apply fs r s).result = .ok (some cs)) : Resolved fs r cs := by
  cases s with
  | exactMatch => exact exactMatch_some h
  | expansion => exact .expanded h
  | prediction => exact prediction_some h
  | assumption =>
    rw [apply, Attempt.result_map] at h
    obtain ⟨found, hfound, hsome⟩ := map_ok_iff.mp h
    obtain rfl := Option.some.inj hsome
    exact .assumed hfound

lemma conditions_of_some {s : Strategy} {rest : List Strategy} (h : (apply fs r s).result = .ok (some cs)) :
    (conditions fs r (s :: rest)).result = .ok cs := by
  rw [conditions, Attempt.result_bind, h]
  rfl

lemma conditions_of_none {s : Strategy} {rest : List Strategy} (h : (apply fs r s).result = .ok none) :
    (conditions fs r (s :: rest)).result = (conditions fs r rest).result := by
  rw [conditions, Attempt.result_bind, h]
  rfl

/-- The targets of a path are found in one of the ways, in whatever order the strategies are tried. -/
theorem resolved_of_conditions {strategies : List Strategy} (h : (conditions fs r strategies).result = .ok cs) :
    Resolved fs r cs := by
  induction strategies with
  | nil => exact .assumed h
  | cons s rest ih =>
    rw [conditions, Attempt.result_bind] at h
    obtain ⟨found, hfound, h⟩ := bind_ok_iff.mp h
    cases found with
    | none => exact ih h
    | some first =>
      obtain rfl : first = cs := Except.ok.inj h
      exact resolved_of_apply hfound

end EntryRequest

end PackageExports
