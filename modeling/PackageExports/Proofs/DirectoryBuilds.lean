import PackageExports.Proofs.DualBuilds
import PackageExports.Proofs.RuntimeTargets

/-!
# Paths below the base of two builds

Where the two builds of a package are in two directories of one base, a path below the base is expanded to the outputs of
the two builds under the same path. The base itself is not: it is looked for in each build under its own path.

Main results: `Expansion.exists_expand`, `Expansion.expand_below_base`.
-/

namespace PackageExports

open PackageExports.Path (IsSegment IsClean IsInner)

namespace Expansion

/-- The names of an output for a row of names: the last name with one of the extensions of compiled files, or an index
file with one of them in the directory of these names. -/
inductive OutputNames (row : List Text) : List Text → Prop
  | file {front : List Text} {last extension : Text} (hrow : row = front ++ [last]) (hextension : extension ∈ extensions) :
    OutputNames row (front ++ [last ++ extension])
  | index {extension : Text} (hextension : extension ∈ extensions) : OutputNames row (row ++ ["index" ++ extension])

/-- A target that is a file of the package with the names of an output. -/
def IsOutput (fs : FileSystem) (package : Path) (row : List Text) (target : Text) : Prop :=
  ∃ names, OutputNames row names ∧ target = "./" ++ Text.joinWith "/" names ∧
    fs.isFile (package.join ⟨.relative, names⟩).text = true

/-- A target in the directory with the names of a row. -/
def IsBelow (row : List Text) (target : Text) : Prop :=
  ∃ rest, rest ≠ [] ∧ target = "./" ++ Text.joinWith "/" (row ++ rest)

/-- What is found for a row of names: an output if there is any. -/
inductive Finds (fs : FileSystem) (package : Path) (row : List Text) : Option Text → Prop
  | output {target : Text} (h : IsOutput fs package row target) : Finds fs package row (some target)
  | nothing (h : ∀ target, ¬IsOutput fs package row target) : Finds fs package row none

variable {fs : FileSystem} {package : Path} {row : List Text}

lemma OutputNames.ne_nil {names : List Text} (h : OutputNames row names) : names ≠ [] := by
  cases h <;> simp

lemma outputNames_iff {base : Text} {names : List Text} :
    OutputNames (Path.ofText base).segments names ↔ Probe.NamesTried base extensions names := by
  constructor
  · intro h
    cases h with
    | file hrow hextension => exact ⟨_, hextension, .inr ⟨_, _, hrow, rfl⟩⟩
    | index hextension => exact ⟨_, hextension, .inl rfl⟩
  · rintro ⟨extension, hextension, rfl | ⟨front, last, hrow, rfl⟩⟩
    · exact .index hextension
    · exact .file hrow hextension

lemma IsOutput.isBelow {front back : List Text} {target : Text} (h : IsOutput fs package (front ++ back) target)
    (hback : back ≠ []) : IsBelow front target := by
  obtain ⟨names, hnames, rfl, -⟩ := h
  cases hnames with
  | @file before last extension hrow hextension =>
    obtain ⟨start, stop, rfl⟩ := (List.eq_nil_or_concat' back).resolve_left hback
    rw [← List.append_assoc] at hrow
    obtain ⟨rfl, -⟩ := List.append_inj' hrow rfl
    exact ⟨start ++ [last ++ extension], by simp, by rw [List.append_assoc]⟩
  | @index extension hextension => exact ⟨back ++ ["index" ++ extension], by simp, by rw [List.append_assoc]⟩

lemma Finds.exists_of_isOutput {file : Option Text} (h : Finds fs package row file) {target : Text}
    (htarget : IsOutput fs package row target) : ∃ found, file = some found ∧ IsOutput fs package row found := by
  cases h with
  | output hfound => exact ⟨_, rfl, hfound⟩
  | nothing hnone => exact absurd htarget (hnone target)

lemma Finds.isSome_iff {file : Option Text} (h : Finds fs package row file) :
    file.isSome = true ↔ ∃ target, IsOutput fs package row target := by
  cases h with
  | output hfound => exact ⟨fun _ => ⟨_, hfound⟩, fun _ => rfl⟩
  | nothing hnone =>
    constructor
    · intro hsome
      cases hsome
    · rintro ⟨target, htarget⟩
      exact absurd htarget (hnone target)

lemma eq_none_of_first {ownFile esmFile cjsFile : Option Text} (h : (ownFile <|> esmFile <|> cjsFile) = none) :
    ownFile = none ∧ esmFile = none ∧ cjsFile = none := by
  cases ownFile with
  | some own => cases h
  | none =>
    cases esmFile with
    | some esm => cases h
    | none => exact ⟨rfl, rfl, h⟩

/-- A look-up at a path in a clean package finds an output for the names of the path. -/
lemma exists_finds (fs : FileSystem) (hpackage : package.IsClean) {base : Text} (hbase : IsInner base) :
    ∃ file, resolve? fs package extensions base = .ok file ∧ Finds fs package (Path.ofText base).segments file := by
  have hslash : ∀ e ∈ extensions, CodePoint.ofChar '/' ∉ e := by decide
  have hne : base.isEmpty = false := by
    rw [List.isEmpty_eq_false_iff]
    rintro rfl
    exact hbase.2 rfl
  rw [resolve?, hne]
  cases hfound : Probe.fileOrIndex? fs (package / base).text extensions with
  | none =>
    refine ⟨none, rfl, .nothing ?_⟩
    rintro target ⟨names, hnames, rfl, hfile⟩
    have htried := (outputNames_iff.mp hnames).tried hpackage hbase.1 hslash
    exact Probe.fileOrIndex?_eq_none.mp hfound _ htried hfile
  | some p =>
    have hfile := Probe.isFile_of_fileOrIndex? hfound
    obtain ⟨names, hnames, rfl⟩ := (Probe.tried_of_fileOrIndex? hfound).names hpackage hbase hslash
    have houtput := outputNames_iff.mpr hnames
    have htext : Path.text ⟨.relative, names⟩ = Text.joinWith "/" names := if_neg (by simp [houtput.ne_nil])
    refine ⟨some ("./" ++ Text.joinWith "/" names), ?_, .output ⟨names, houtput, rfl, hfile⟩⟩
    rw [SearchPlan.foundFrom, Path.seenFrom_below, htext]
    rfl

/-- The targets of a path whose two builds are looked for in a clean package: under `require` and `import` there is what
is found for the two builds. -/
theorem exists_expand (fs : FileSystem) (hpackage : package.IsClean) (kind : PatternKind) (cjs esm : BuildSide)
    (path : Text) {sources : List Text} (hpath : IsInner (Relative.bare path))
    (hcjs : IsInner (candidates kind cjs esm (Relative.bare path)).1)
    (hesm : IsInner (candidates kind cjs esm (Relative.bare path)).2)
    (hsources : ∀ directory ∈ sources, IsInner directory) :
    ∃ found, expand fs package (.dual kind cjs esm) path sources = .ok found ∧
      Finds fs package (Path.ofText (candidates kind cjs esm (Relative.bare path)).1).segments
        (found.bind Conditions.required) ∧
      Finds fs package (Path.ofText (candidates kind cjs esm (Relative.bare path)).2).segments
        (found.bind Conditions.imported) := by
  have hbare : ¬(Relative.bare path = [] ∨ Relative.bare path = ".") := by
    rintro (hnil | hdot)
    · rw [hnil] at hpath
      exact hpath.2 rfl
    · rw [hdot] at hpath
      exact hpath.2 rfl
  obtain ⟨cjsFile, hcjsFile, hcjsFinds⟩ := exists_finds fs hpackage hcjs
  obtain ⟨esmFile, hesmFile, hesmFinds⟩ := exists_finds fs hpackage hesm
  obtain ⟨ownFile, hownFile, -⟩ := exists_finds fs hpackage hpath
  obtain ⟨source, hsource⟩ := SourceFile.exists_find? fs hpackage (Path.anchor_eq_relative.mp hpath.1) hsources
    ({} : Settings).buildDirectories
  cases hfile : ownFile <|> esmFile <|> cjsFile with
  | some file =>
    exact ⟨_, expand_eq_some.mpr ⟨not_or.mp hbare, _, _, _, file, source, hcjsFile, hesmFile, hownFile, hfile, hsource,
      rfl⟩, hcjsFinds, hesmFinds⟩
  | none =>
    obtain ⟨rfl, rfl, rfl⟩ := eq_none_of_first hfile
    refine ⟨none, ?_, hcjsFinds, hesmFinds⟩
    unfold expand
    dsimp only
    rw [if_neg hbare, hcjsFile, hesmFile, hownFile]
    rfl

section Base

variable {b : Text} {cjs esm : BuildSide}

lemma kept_of_isInner (hb : IsInner b) : b ≠ [] ∧ b ≠ "." :=
  ⟨fun hnil => hb.2 (hnil ▸ rfl), fun hdot => hb.2 (hdot ▸ rfl)⟩

lemma isInner_joinParts (hb : IsInner b) (parts : List Text) : IsInner (joinParts (b :: parts)) := by
  rw [joinParts, List.filter_cons_of_pos (by simpa using kept_of_isInner hb)]
  by_cases hrest : (parts.filter fun part => decide (part ≠ [] ∧ part ≠ ".")) = []
  · rw [hrest]
    exact hb
  · rw [Text.joinWith_cons _ _ hrest]
    exact hb.append _

lemma belowBase_slash (hb : IsInner b) (rest : Text) (bases : List Text) :
    belowBase (b ++ "/" ++ rest) (b :: bases) = rest := by
  have hdrop : Text.dropStart? (b ++ "/") (b ++ "/" ++ rest) = some rest := Text.dropStart?_eq_some.mpr rfl
  rw [belowBase, List.filter_cons_of_pos (by simpa using kept_of_isInner hb), List.findSome?_cons, hdrop]
  rfl

/-- The base itself does not start with the base and a slash, so nothing is cut from it. -/
lemma belowBase_self (b : Text) : belowBase b [b, b] = b := by
  have hdrop : Text.dropStart? (b ++ "/") b = none := by
    rw [Option.eq_none_iff_forall_ne_some]
    intro rest hrest
    have hlength := congrArg List.length (Text.dropStart?_eq_some.mp hrest)
    rw [List.length_append, List.length_append] at hlength
    have hone : (Text.ofString "/").length = 1 := rfl
    omega
  have hnone : ([b, b].filter fun base => decide (base ≠ [] ∧ base ≠ ".")).findSome?
      (fun base => Text.dropStart? (base ++ "/") b) = none := by
    rw [List.findSome?_eq_none_iff]
    intro base hbase
    obtain ⟨hmem, -⟩ := List.mem_filter.mp hbase
    obtain rfl : base = b := by simpa using hmem
    exact hdrop
  rw [belowBase, hnone]
  rfl

def rowOf (b word : Text) (back : List Text) : List Text :=
  (Path.ofText b).segments ++ (Path.ofText word).segments ++ back

lemma exists_expand_directory (fs : FileSystem) (hpackage : package.IsClean) (hb : IsInner b)
    (hcjs : cjs.base = "./" ++ b) (hesm : esm.base = "./" ++ b) {sources : List Text}
    (hsources : ∀ directory ∈ sources, IsInner directory) {path : Text} (hpath : IsInner path) {back : List Text}
    (hback : (Path.ofText (belowBase path [b, b])).segments = back) :
    ∃ found, expand fs package (.dual .byDirectory cjs esm) ("./" ++ path) sources = .ok found ∧
      Finds fs package (rowOf b cjs.marker back) (found.bind Conditions.required) ∧
      Finds fs package (rowOf b esm.marker back) (found.bind Conditions.imported) := by
  have hbare := Relative.bare_start path
  have hcandidates : candidates .byDirectory cjs esm (Relative.bare ("./" ++ path)) =
      (joinParts [b, cjs.marker, belowBase path [b, b]], joinParts [b, esm.marker, belowBase path [b, b]]) := by
    rw [hbare, candidates, hcjs, hesm, Relative.bare_start]
  have hnames (word : Text) :
      (Path.ofText (joinParts [b, word, belowBase path [b, b]])).segments = rowOf b word back := by
    rw [Path.segments_joinParts, List.flatMap_cons, List.flatMap_cons, List.flatMap_singleton, hback, rowOf,
      List.append_assoc]
  have hexpand := exists_expand fs hpackage .byDirectory cjs esm ("./" ++ path)
    (by rwa [hbare]) (by rw [hcandidates]; exact isInner_joinParts hb _)
    (by rw [hcandidates]; exact isInner_joinParts hb _) hsources
  rwa [hcandidates, hnames, hnames] at hexpand

variable (cjs esm) in
/-- If each of two builds has an output for a path below the base that they share, then the path is expanded to an output
of either build, the CommonJS one under `require` and the other one under `import`. For the base itself the outputs are
those that the builds have under the path of the base, and there need not be any. -/
theorem expand_below_base (fs : FileSystem) (hpackage : package.IsClean) (hb : IsInner b)
    (hcjs : cjs.base = "./" ++ b) (hesm : esm.base = "./" ++ b) {sources : List Text}
    (hsources : ∀ directory ∈ sources, IsInner directory) :
    (∀ back : List Text, back ≠ [] → (∀ name ∈ back, IsSegment name) →
      (∃ target, IsOutput fs package (rowOf b cjs.marker back) target) →
      (∃ target, IsOutput fs package (rowOf b esm.marker back) target) →
      ∃ cs required imported,
        expand fs package (.dual .byDirectory cjs esm) ("./" ++ (b ++ "/" ++ Text.joinWith "/" back)) sources =
          .ok (some cs) ∧
        cs.required = some required ∧ cs.imported = some imported ∧
        (IsOutput fs package (rowOf b cjs.marker back) required ∧ IsBelow (rowOf b cjs.marker []) required) ∧
        (IsOutput fs package (rowOf b esm.marker back) imported ∧ IsBelow (rowOf b esm.marker []) imported)) ∧
    ∃ found, expand fs package (.dual .byDirectory cjs esm) ("./" ++ b) sources = .ok found ∧
      ((found.bind Conditions.required).isSome = true ↔
        ∃ target, IsOutput fs package (rowOf b cjs.marker (Path.ofText b).segments) target) ∧
      ((found.bind Conditions.imported).isSome = true ↔
        ∃ target, IsOutput fs package (rowOf b esm.marker (Path.ofText b).segments) target) := by
  constructor
  · rintro back hne hback ⟨cjsTarget, hcjsTarget⟩ ⟨esmTarget, hesmTarget⟩
    have hrest : (Path.ofText (belowBase (b ++ "/" ++ Text.joinWith "/" back) [b, b])).segments = back := by
      rw [belowBase_slash hb, Path.segments_joinWith hback]
    obtain ⟨found, hfound, hrequired, himported⟩ :=
      exists_expand_directory fs hpackage hb hcjs hesm hsources (hb.append _) hrest
    obtain ⟨required, hrequiredEq, hrequiredOutput⟩ := hrequired.exists_of_isOutput hcjsTarget
    obtain ⟨imported, himportedEq, himportedOutput⟩ := himported.exists_of_isOutput hesmTarget
    obtain ⟨cs, rfl, hcs⟩ := Option.bind_eq_some_iff.mp hrequiredEq
    have hrow (word : Text) : rowOf b word back = rowOf b word [] ++ back := by
      rw [rowOf, rowOf, List.append_nil]
    have hbelow {word target : Text} (h : IsOutput fs package (rowOf b word back) target) :
        IsBelow (rowOf b word []) target := by
      rw [hrow] at h
      exact h.isBelow hne
    exact ⟨cs, required, imported, hfound, hcs, himportedEq, ⟨hrequiredOutput, hbelow hrequiredOutput⟩,
      himportedOutput, hbelow himportedOutput⟩
  · obtain ⟨found, hfound, hrequired, himported⟩ :=
      exists_expand_directory fs hpackage hb hcjs hesm hsources hb (congrArg (fun t => (Path.ofText t).segments)
        (belowBase_self b))
    exact ⟨found, hfound, hrequired.isSome_iff, himported.isSome_iff⟩

end Base

/-- The index files of the two builds in `lib/cjs` and `lib/esm` are outputs for `./lib/index`. -/
theorem expand_below_base_index : ∃ cs required imported,
    expand twoBuilds (Path.ofText ".") (.dual .byDirectory ⟨"./lib", "cjs", []⟩ ⟨"./lib", "esm", []⟩) "./lib/index"
        ({} : Settings).sourceDirectories = .ok (some cs) ∧
      cs.required = some required ∧ cs.imported = some imported ∧
      (IsOutput twoBuilds (Path.ofText ".") ["lib", "cjs", "index"] required ∧ IsBelow ["lib", "cjs"] required) ∧
      (IsOutput twoBuilds (Path.ofText ".") ["lib", "esm", "index"] imported ∧ IsBelow ["lib", "esm"] imported) := by
  have hlib : IsInner "lib" := by decide
  have hsources : ∀ directory ∈ ({} : Settings).sourceDirectories, IsInner directory := by decide
  have houtput (word : Text) (hfile : twoBuilds.isFile
      ((Path.ofText ".").join ⟨.relative, ["lib", word, "index.js"]⟩).text = true) :
      IsOutput twoBuilds (Path.ofText ".") ["lib", word, "index"] (Relative.dotted (Text.joinWith "/"
        ["lib", word, "index.js"])) :=
    ⟨_, .file (rfl : _ = [Text.ofString "lib", word] ++ [Text.ofString "index"])
      (by decide : Text.ofString ".js" ∈ extensions), Relative.dotted_eq _, hfile⟩
  exact (expand_below_base ⟨"./lib", "cjs", []⟩ ⟨"./lib", "esm", []⟩ twoBuilds (Path.isClean_ofText ".") hlib rfl rfl
    hsources).1 ["index"] (by decide) (by decide)
    ⟨_, houtput "cjs" (by decide +kernel)⟩ ⟨_, houtput "esm" (by decide +kernel)⟩

/-- The base of two builds leads to nothing, though either build has an index file. -/
theorem expand_base_finds_nothing :
    IsOutput twoBuilds (Path.ofText ".") (rowOf "lib" "cjs" []) "./lib/cjs/index.js" ∧
      IsOutput twoBuilds (Path.ofText ".") (rowOf "lib" "esm" []) "./lib/esm/index.js" ∧
      expand twoBuilds (Path.ofText ".") (.dual .byDirectory ⟨"./lib", "cjs", []⟩ ⟨"./lib", "esm", []⟩) "./lib"
        ({} : Settings).sourceDirectories = .ok none := by
  have hextension : Text.ofString ".js" ∈ extensions := by decide
  exact ⟨⟨_, .index hextension, by decide, by decide +kernel⟩, ⟨_, .index hextension, by decide, by decide +kernel⟩,
    ok_of_toOption (by decide +kernel)⟩

end Expansion

end PackageExports
