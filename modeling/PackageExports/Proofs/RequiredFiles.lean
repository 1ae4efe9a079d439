import PackageExports.Proofs.CanonicalExports
import PackageExports.Proofs.ExtensionBuilds

/-!
# Files under `require`

The entries of a manifest put a file under `require` only if it is not detected as an ES module. In a package with two
builds the file under `require` is the one found in the CommonJS build. It is looked for with the extension `.mjs`, too,
so that it is an ES module by its name exactly if one is found there before anything else.

Main results: `Baseline.required_exports`, `Expansion.isModule_iff_moduleFirst`, `required_module_iff`.
-/

namespace PackageExports

open PackageExports.Path (IsSegment IsClean)

/-- The target that an export names under `require`. -/
def Json.requiredTarget? : Json → Option Text
  | .object members =>
    match Keyed.get? (Text.ofString "require") members with
    | some (.string target) => some target
    | _ => none
  | _ => none

lemma Conditions.requiredTarget?_toExport (cs : Conditions) : cs.toExport.requiredTarget? = cs.target? .required := by
  have hget := get?_members cs .required
  unfold toExport
  split
  · rename_i other hsingle
    rw [hsingle] at hget
    cases htarget : cs.target? .required with
    | none => rfl
    | some target =>
      rw [htarget] at hget
      cases hget
  · rw [toJson_eq, Json.requiredTarget?]
    have hread := congrArg (fun found : Option Json => match found with | some (.string t) => some t | _ => none) hget
    refine hread.trans ?_
    cases cs.target? .required <;> rfl

/-! ### Names of ES modules -/

/-- Whether the last name of a path is that of an ES module. -/
def Path.IsModule (p : Path) : Prop :=
  ∃ name, p.segments.getLast? = some name ∧ Text.ofString ".mjs" <:+ name

lemma Path.isModule_iff {p : Path} {name : Text} (h : p.segments.getLast? = some name) :
    p.IsModule ↔ Text.ofString ".mjs" <:+ name := by
  constructor
  · rintro ⟨other, hother, hend⟩
    obtain rfl := Option.some.inj (hother.symm.trans h)
    exact hend
  · exact fun hend => ⟨name, h, hend⟩

namespace Written

lemma suffix_of_mjs {name : Text} (hslash : CodePoint.ofChar '/' ∉ name) (h : Text.ofString ".mjs" <:+ name) :
    (splitName name).2 = [] ∨ (splitName name).2 = ".mjs" := by
  by_cases hnil : (splitName name).2 = []
  · exact .inl hnil
  right
  obtain ⟨extension, hextension, hsuffix⟩ := suffix_starts hnil
  obtain ⟨-, hname, -⟩ := stem_spec hnil hslash
  have hwhole : CodePoint.ofChar '.' :: extension <:+ name := ⟨_, by rw [← hsuffix]; exact hname.symm⟩
  -- both ends start with the only point in them
  rcases List.suffix_or_suffix_of_suffix h hwhole with hshort | hshort
  · rcases List.suffix_cons_iff.mp hshort with heq | hlater
    · rw [hsuffix, ← heq]
    · exact absurd (hlater.subset List.mem_cons_self) hextension
  · have hmjs : Text.ofString ".mjs" = CodePoint.ofChar '.' :: Text.ofString "mjs" := rfl
    rw [hmjs, List.suffix_cons_iff] at hshort
    rcases hshort with heq | hlater
    · rw [hsuffix, heq, hmjs]
    · exact absurd (hlater.subset List.mem_cons_self) (by decide)

end Written

lemma ModuleKind.detect_of_mjs (fs : FileSystem) (package : Path) {file : Text} (h : Text.ofString ".mjs" <:+ file) :
    (Written.splitSuffix (Relative.bare file)).2 = [] ∨ detect fs package file = .ok .esm := by
  have hslash : CodePoint.ofChar '/' ∉ Text.ofString ".mjs" := by decide
  have hbare : Text.ofString ".mjs" <:+ Relative.bare file := by
    unfold Relative.bare
    cases hdrop : Text.dropStart? "./" file with
    | none => exact h
    | some rest =>
      rw [Text.dropStart?_eq_some] at hdrop
      rw [hdrop] at h
      exact Text.suffix_of_suffix_append (a := Text.ofString ".") hslash h
  obtain ⟨front, hrow⟩ := Written.splitOn_split (Relative.bare file)
  have hname : Text.ofString ".mjs" <:+ (Written.split (Relative.bare file)).2 := by
    rw [← Text.joinWith_splitOn (Relative.bare file), hrow] at hbare
    exact Text.suffix_joinWith hslash hbare
  have hsuffix : (Written.splitSuffix (Relative.bare file)).2 =
      (Written.splitName (Written.split (Relative.bare file)).2).2 := rfl
  rcases Written.suffix_of_mjs (Written.notMem_split _) hname with hnil | hmjs
  · exact .inl (hsuffix.trans hnil)
  · right
    unfold detect
    dsimp only
    rw [if_pos (hsuffix.trans hmjs)]
    rfl

namespace Baseline

variable {fs : FileSystem} {package : Path} {m : Manifest} {sources : List Text} {cs : Conditions} {target : Text}

/-- What the entries of a manifest put under `require` is not detected as an ES module. -/
theorem required_exports {found : Exports} (h : exports fs package m sources = .ok found) :
    ∀ entry ∈ found, ∀ target, entry.2.requiredTarget? = some target →
      ModuleKind.detect fs package target ≠ .ok .esm := by
  intro entry hentry target htarget
  cases follows_of_exports h entry hentry with
  | root hroot =>
    unfold rootExport at htarget
    split_ifs at htarget
    · cases htarget
    · rw [Conditions.requiredTarget?_toExport] at htarget
      exact (hroot.required target (Option.filter_eq_some_iff.mp htarget).1).2
  | replaced _ hreplaced =>
    obtain ⟨source, -, rfl⟩ := replaced_eq_ok.mp hreplaced
    rw [Conditions.requiredTarget?_toExport] at htarget
    cases htarget

end Baseline

/-! ### What is found first -/

namespace Probe

variable {fs : FileSystem} {base extension : Text} {p : Path}

lemma withExtension_nil (hp : p.IsClean) : withExtension p.text [] = p := by
  rw [withExtension, List.append_nil, Path.ofText_text hp]

lemma fileOrIndex?_own (hp : p.IsClean) (hfile : fs.isFile p.text = true) (extensions : List Text) :
    fileOrIndex? fs p.text ([] :: extensions) = some p := by
  rw [fileOrIndex?, firstFile?, List.flatMap_cons, withExtension_nil hp]
  exact List.find?_cons_of_pos hfile

lemma not_isModule_of_tried (hextension : IsSegment extension)
    (hother : ¬Text.ofString ".mjs" <:+ extension ∧ ¬extension <:+ Text.ofString ".mjs")
    (h : Tried base [extension] p) : ¬p.IsModule := by
  obtain ⟨name, hlast, stem, rfl⟩ := EntryRequest.suffix_of_tried hextension h
  rw [Path.isModule_iff hlast]
  exact Text.not_suffix_append stem hother

end Probe

namespace Expansion

variable {fs : FileSystem} {package : Path} {base target : Text} {p : Path}

/-- An ES module is found before any other file: the path is its own, or there is no file without an extension and none
with `.js`, but there is one with `.mjs`. -/
inductive ModuleFirst (fs : FileSystem) (package : Path) (base : Text) : Prop
  | own (hfile : fs.isFile (package / base).text = true) (hname : (package / base).IsModule)
  | added (hnone : Probe.fileOrIndex? fs (package / base).text ["", ".js"] = none)
      (hfile : Probe.fileOrIndex? fs (package / base).text [".mjs"] ≠ none)

/-- Without an extension or with `.js`, a file that is an ES module by its name is found by its own path only. -/
lemma isModule_of_shorter (hclean : (package / base).IsClean)
    (h : Probe.fileOrIndex? fs (package / base).text ["", ".js"] = some p) :
    p.IsModule ↔ fs.isFile (package / base).text = true ∧ (package / base).IsModule := by
  constructor
  · intro hmodule
    obtain ⟨extension, hextension, htried⟩ := Probe.tried_of_fileOrIndex? h
    rcases List.mem_pair.mp hextension with rfl | rfl
    · rcases htried with rfl | rfl
      · have hown := Probe.withExtension_nil hclean
        have hfile := Probe.isFile_of_fileOrIndex? h
        exact ⟨hown ▸ hfile, hown ▸ hmodule⟩
      · rw [Path.isModule_iff (EntryRequest.getLast?_indexWith _ (by decide))] at hmodule
        exact absurd hmodule (by decide)
    · exact absurd hmodule (Probe.not_isModule_of_tried (by decide) (by decide) ⟨_, List.mem_singleton_self _, htried⟩)
  · rintro ⟨hfile, hmodule⟩
    obtain rfl := Option.some.inj ((Probe.fileOrIndex?_own hclean hfile _).symm.trans h)
    exact hmodule

/-- What is found for a path is an ES module by its name exactly if one is found before any other file. -/
lemma isModule_iff_moduleFirst (hclean : (package / base).IsClean)
    (h : Probe.fileOrIndex? fs (package / base).text extensions = some p) :
    p.IsModule ↔ ModuleFirst fs package base := by
  have hparts : extensions = [Text.ofString "", ".js"] ++ ([Text.ofString ".mjs"] ++ [Text.ofString ".cjs"]) := rfl
  rw [hparts, Probe.fileOrIndex?_append, Probe.fileOrIndex?_append] at h
  cases hshorter : Probe.fileOrIndex? fs (package / base).text ["", ".js"] with
  | some found =>
    rw [hshorter] at h
    obtain rfl : found = p := Option.some.inj h
    rw [isModule_of_shorter hclean hshorter]
    constructor
    · exact fun hown => .own hown.1 hown.2
    · rintro (⟨hfile, hname⟩ | ⟨hnone, -⟩)
      · exact ⟨hfile, hname⟩
      · rw [hshorter] at hnone
        cases hnone
  | none =>
    rw [hshorter, Option.none_or] at h
    have hnotOwn : fs.isFile (package / base).text ≠ true := by
      intro hfile
      cases (Probe.fileOrIndex?_own hclean hfile _).symm.trans hshorter
    cases hmjs : Probe.fileOrIndex? fs (package / base).text [".mjs"] with
    | some found =>
      rw [hmjs] at h
      obtain rfl : found = p := Option.some.inj h
      have hname := EntryRequest.suffix_of_tried (by decide) (Probe.tried_of_fileOrIndex? hmjs)
      exact iff_of_true hname (.added hshorter (by rw [hmjs]; exact Option.some_ne_none _))
    | none =>
      rw [hmjs, Option.none_or] at h
      have hname := Probe.not_isModule_of_tried (by decide) (by decide) (Probe.tried_of_fileOrIndex? h)
      refine iff_of_false hname ?_
      rintro (⟨hfile, -⟩ | ⟨-, hfile⟩)
      · exact hnotOwn hfile
      · exact hfile hmjs

lemma suffix_seen_iff {seen : Text} (hroot : p ≠ package) (h : SearchPlan.seenFrom package p = .ok seen) :
    Text.ofString ".mjs" <:+ "./" ++ seen ↔ p.IsModule := by
  obtain ⟨rest, rfl, rfl⟩ := Path.seenFrom_eq_ok.mp h
  rcases List.eq_nil_or_concat' rest with rfl | ⟨front, last, rfl⟩
  · exact absurd (by rw [List.append_nil]) hroot
  have hlast : (package.segments ++ (front ++ [last])).getLast? = some last := by
    rw [← List.append_assoc, List.getLast?_concat]
  have htext : Path.text ⟨.relative, front ++ [last]⟩ = Text.joinWith "/" (front ++ [last]) := if_neg (by simp)
  rw [Path.isModule_iff hlast, htext]
  constructor
  · intro hend
    exact Text.suffix_joinWith (by decide) (Text.suffix_of_suffix_append (a := Text.ofString ".")
      (c := CodePoint.ofChar '/') (by decide) hend)
  · exact fun hend => (hend.trans (Text.last_suffix_joinWith front last)).trans (List.suffix_append _ _)

/-- The target that a path leads to ends in `.mjs` exactly if an ES module is found before any other file. -/
theorem mjs_iff_moduleFirst (hpackage : package.IsClean) (hroot : fs.isFile package.text = false)
    (h : resolve? fs package extensions base = .ok (some target)) :
    Text.ofString ".mjs" <:+ target ↔ ModuleFirst fs package base := by
  obtain ⟨-, seen, hfound, rfl⟩ := resolve?_eq_some.mp h
  obtain ⟨p, hfile, hseen⟩ := SearchPlan.foundFrom_eq_some.mp hfound
  have hne : p ≠ package := by
    rintro rfl
    rw [Probe.isFile_of_fileOrIndex? hfile] at hroot
    cases hroot
  rw [suffix_seen_iff hne hseen, isModule_iff_moduleFirst (Path.isClean_div hpackage base) hfile]

end Expansion

open Expansion (ModuleFirst candidates resolve?)

/-- A path has a target under `require` only if its package has two builds, and then the target is what is found in the
CommonJS build. -/
lemma EntryRequest.Resolved.required {fs : FileSystem} {r : EntryRequest} {cs : Conditions} {target : Text}
    (h : Resolved fs r cs) (htarget : cs.required = some target) :
    ∃ kind cjs esm, r.pattern = .dual kind cjs esm ∧
      resolve? fs r.package Expansion.extensions (candidates kind cjs esm (Relative.bare r.path)).1 =
        .ok (some target) := by
  cases h with
  | built hroot hfound h =>
    obtain ⟨source, -, hcs⟩ := bind_ok_iff.mp h
    obtain rfl := Except.ok.inj hcs
    cases htarget
  | expanded h =>
    cases hpattern : r.pattern with
    | single =>
      rw [hpattern] at h
      cases h
    | dual kind cjs esm =>
      rw [hpattern] at h
      obtain ⟨-, cjsFile, _, _, _, _, hcjs, -, -, -, -, rfl⟩ := Expansion.expand_eq_some.mp h
      obtain rfl : cjsFile = some target := htarget
      exact ⟨kind, cjs, esm, rfl, hcjs⟩
  | predicted hdirectory hfound => cases htarget
  | assumed h =>
    obtain ⟨source, -, rfl⟩ := assumption_eq_ok.mp h
    cases htarget

/-- What the entries of a manifest put under `require` is not detected as an ES module, and if it ends in `.mjs`, there
are only points before `mjs` in its name. An imported path has a target under `require` only in a package with two
builds, and this target ends in `.mjs` exactly if an ES module is found in the CommonJS build before any other file. -/
theorem required_module_iff (fs : FileSystem) :
    (∀ package m sources found, Baseline.exports fs package m sources = .ok found →
      ∀ entry ∈ found, ∀ target, entry.2.requiredTarget? = some target →
        ModuleKind.detect fs package target ≠ .ok .esm ∧
          (Text.ofString ".mjs" <:+ target → (Written.splitSuffix (Relative.bare target)).2 = [])) ∧
    ∀ (r : EntryRequest) strategies cs target, r.package.IsClean → fs.isFile r.package.text = false →
      (r.conditions fs strategies).result = .ok cs → cs.toExport.requiredTarget? = some target →
        ∃ kind cjs esm, r.pattern = .dual kind cjs esm ∧
          (Text.ofString ".mjs" <:+ target ↔
            ModuleFirst fs r.package (candidates kind cjs esm (Relative.bare r.path)).1) := by
  constructor
  · intro package m sources found h entry hentry target htarget
    have hdetect := Baseline.required_exports h entry hentry target htarget
    exact ⟨hdetect, fun hmjs => (ModuleKind.detect_of_mjs fs package hmjs).resolve_right hdetect⟩
  · intro r strategies cs target hpackage hroot h htarget
    rw [Conditions.requiredTarget?_toExport] at htarget
    obtain ⟨kind, cjs, esm, hpattern, hfound⟩ :=
      (EntryRequest.resolved_of_conditions h).required (Option.filter_eq_some_iff.mp htarget).1
    exact ⟨kind, cjs, esm, hpattern, Expansion.mjs_iff_moduleFirst hpackage hroot hfound⟩

/-- A package with two builds, the CommonJS one of which holds an ES module. -/
def moduleAmongCommon : FileSystem :=
  ((((FileSystem.empty.put ["lib"] .directory).put ["lib", "cjs"] .directory).put ["lib", "esm"] .directory).put
    ["lib", "cjs", "utils.mjs"] (.file [])).put ["lib", "esm", "utils.js"] (.file [])

def buildsRequest : EntryRequest where
  path := "./lib/utils"
  package := Path.ofText "."
  pattern := BuildPattern.detect (some "./lib/cjs/index.js") (some "./lib/esm/index.js")

lemma conditions_buildsRequest :
    (buildsRequest.conditions moduleAmongCommon Strategy.expansionFirst).result = .ok {
      imported := some "./lib/esm/utils.js"
      required := some "./lib/cjs/utils.mjs"
      otherwise := some "./lib/esm/utils.js" } :=
  ok_of_toOption (by decide +kernel)

/-- A manifest with a CommonJS file as its main one, and a path that leads to an ES module in the CommonJS build. -/
theorem required_module_iff_builds :
    (∃ found, Baseline.exports FileSystem.empty (Path.ofText ".") { main := some "./lib/index.cjs" } ["src"] =
        .ok found ∧ ∃ entry ∈ found, entry.2.requiredTarget? = some "./lib/index.cjs" ∧
      ModuleKind.detect FileSystem.empty (Path.ofText ".") "./lib/index.cjs" ≠ .ok .esm) ∧
    ∃ kind cjs esm, buildsRequest.pattern = .dual kind cjs esm ∧
      ModuleFirst moduleAmongCommon buildsRequest.package
        (candidates kind cjs esm (Relative.bare buildsRequest.path)).1 := by
  constructor
  · have htargets : (Baseline.exports FileSystem.empty (Path.ofText ".") { main := some "./lib/index.cjs" }
        ["src"]).toOption.map (fun found => found.map fun entry => entry.2.requiredTarget?) =
          some [some (Text.ofString "./lib/index.cjs")] := by decide +kernel
    obtain ⟨found, hfound, hmap⟩ := Option.map_eq_some_iff.mp htargets
    obtain ⟨entry, rfl, htarget⟩ := List.map_eq_singleton_iff.mp hmap
    have hok := ok_of_toOption hfound
    have hentry := (required_module_iff FileSystem.empty).1 _ _ _ _ hok entry (List.mem_singleton_self _) _ htarget
    exact ⟨_, hok, entry, List.mem_singleton_self _, htarget, hentry.1⟩
  · obtain ⟨kind, cjs, esm, hpattern, hiff⟩ := (required_module_iff moduleAmongCommon).2 buildsRequest _ _
      "./lib/cjs/utils.mjs" (Path.isClean_ofText ".") (by decide +kernel) conditions_buildsRequest (by decide +kernel)
    exact ⟨kind, cjs, esm, hpattern, hiff.mp (by decide)⟩

/-- The export of this path has a target under `require` that ends in `.mjs` and is detected as an ES module. -/
theorem required_is_module : ∃ cs,
    (buildsRequest.conditions moduleAmongCommon Strategy.expansionFirst).result = .ok cs ∧
      cs.toExport.requiredTarget? = some "./lib/cjs/utils.mjs" ∧ Text.ofString ".mjs" <:+ "./lib/cjs/utils.mjs" ∧
      ModuleKind.detect moduleAmongCommon buildsRequest.package "./lib/cjs/utils.mjs" = .ok .esm :=
  ⟨_, conditions_buildsRequest, by decide +kernel, by decide, by decide +kernel⟩

end PackageExports
