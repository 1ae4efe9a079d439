import Mathlib.Data.List.Nodup
import Mathlib.Data.List.Perm.Basic
import PackageExports.Exports.Browser
import PackageExports.Proofs.Keyed

/-!
# Tables of replacements in any order

A table of replacements is read twice, first for the entry of `main`, then for all others. If no two of its entries mean
the same file, then what it gives does not depend on their order: the replacement for the package is the one that `main`
has, or else the one that `module` has, and the other entries stay as they are.

Main results: `BrowserTargets.ofTable_eq`, `BrowserTargets.table_in_any_order`.
-/

namespace PackageExports

namespace Keyed

variable {κ α : Type} [DecidableEq κ]

lemma get?_eq_some_iff {m : Keyed κ α} (hnodup : m.keys.Nodup) {key : κ} {value : α} :
    get? key m = some value ↔ (key, value) ∈ m :=
  ⟨mem_of_get?, get?_of_mem hnodup⟩

/-- The order of different keys does not matter for the values under them. -/
lemma get?_perm {m n : Keyed κ α} (hperm : m.Perm n) (hnodup : m.keys.Nodup) (key : κ) : get? key m = get? key n := by
  have hother : n.keys.Nodup := (hperm.map Prod.fst).nodup_iff.mp hnodup
  refine Option.ext fun value => ?_
  rw [get?_eq_some_iff hnodup, get?_eq_some_iff hother]
  exact hperm.mem_iff

end Keyed

namespace BrowserTargets

variable {targets others : Keyed Text (Option Text)} {entries : List (Text × Option Text)} {main module : Option Text}
  {path : Text} {target : Option Text}

/-- The replacement that a file has in a table. -/
def replacement? (entries : List (Text × Option Text)) (file : Option Text) : Option Text :=
  (file.bind fun path => Keyed.get? path entries).join

/-- Whether an entry stays one of a single file, if `root` is the replacement that `main` has. -/
def stays (main module root : Option Text) (entry : Text × Option Text) : Bool :=
  some entry.1 ≠ main ∧ (some entry.1 = module → root.isSome)

/-! ### One entry after the other -/

lemma replacement?_cons (path : Text) (target : Option Text) (rest : List (Text × Option Text)) (file : Option Text) :
    replacement? ((path, target) :: rest) file = if some path = file then target else replacement? rest file := by
  cases file with
  | none => rfl
  | some file =>
    simp only [replacement?, Option.bind_some, Keyed.get?, Option.some_inj]
    split_ifs <;> rfl

lemma replacement?_of_notMem (h : ∀ path ∈ Keyed.keys entries, some path ≠ main) :
    replacement? entries main = none := by
  induction entries with
  | nil => cases main <;> rfl
  | cons entry rest ih =>
    obtain ⟨hentry, hrest⟩ := List.forall_mem_cons.mp h
    rw [replacement?_cons, if_neg hentry, ih hrest]

lemma rootOf_eq (hkeys : (Keyed.keys entries).Nodup) : rootOf main entries = replacement? entries main := by
  unfold rootOf
  induction entries with
  | nil => cases main <;> rfl
  | cons entry rest ih =>
    obtain ⟨path, target⟩ := entry
    obtain ⟨hnew, hrest⟩ := List.nodup_cons.mp hkeys
    rw [List.filterMap_cons, replacement?_cons]
    dsimp only
    split_ifs with hmain
    · have hother : ∀ entry ∈ rest, some entry.1 ≠ main := by
        intro entry hentry hsame
        exact hnew (List.mem_map.mpr ⟨entry, hentry, Option.some.inj (hsame.trans hmain.symm)⟩)
      have hnone : rest.filterMap (fun entry => if some entry.1 = main then entry.2 else none) = [] := by
        rw [List.filterMap_eq_nil_iff]
        intro entry hentry
        exact if_neg (hother entry hentry)
      rw [hnone]
      cases target <;> rfl
    · exact ih hrest

lemma step_of_stays {found : BrowserTargets} (hstays : stays main module found.root (path, target))
    (hnew : path ∉ Keyed.keys found.files) :
    step main module found (path, target) = { found with files := found.files ++ [(path, target)] } := by
  obtain ⟨hmain, hmodule⟩ := of_decide_eq_true hstays
  have hkept : ¬(some path = module ∧ found.root = none) := by
    rintro ⟨hpath, hroot⟩
    have hsome := hmodule hpath
    rw [hroot] at hsome
    cases hsome
  rw [step, if_neg hmain, if_neg hkept, Keyed.insert_of_notMem target hnew]

/-- An entry that does not stay is that of `main`, or it is the one of `module` while there is no replacement for the
package. -/
lemma step_of_not_stays {found : BrowserTargets} (hstays : ¬stays main module found.root (path, target)) :
    (some path = main ∧ step main module found (path, target) = found) ∨
      (some path ≠ main ∧ some path = module ∧ found.root = none ∧
        step main module found (path, target) = { found with root := target }) := by
  by_cases hmain : some path = main
  · exact .inl ⟨hmain, if_pos hmain⟩
  have hmodule : some path = module ∧ found.root = none := by
    by_contra hother
    refine hstays (decide_eq_true ⟨hmain, fun hpath => ?_⟩)
    exact Option.isSome_iff_ne_none.mpr fun hnone => hother ⟨hpath, hnone⟩
  exact .inr ⟨hmain, hmodule.1, hmodule.2, by rw [step, if_neg hmain, if_pos hmodule]⟩

lemma filter_stays_of_notMem (hpath : path ∉ Keyed.keys entries) (main root other : Option Text) :
    entries.filter (stays main (some path) root) = entries.filter (stays main (some path) other) := by
  refine List.filter_congr fun entry hentry => ?_
  have hne : some entry.1 ≠ some path := fun hsame => hpath (List.mem_map.mpr ⟨entry, hentry, Option.some.inj hsame⟩)
  simp [stays, hne]

/-- Entries of different files, read one after the other: each that stays comes after those that were there, and the one
of `module` gives the replacement for the package if there is none yet. -/
lemma foldl_step (main module : Option Text) (entries : List (Text × Option Text)) (found : BrowserTargets)
    (hkeys : (Keyed.keys (found.files ++ entries)).Nodup) :
    entries.foldl (step main module) found =
      { root := found.root <|> if module = main then none else replacement? entries module
        files := found.files ++ entries.filter (stays main module found.root) } := by
  induction entries generalizing found with
  | nil =>
    have hnone : replacement? [] module = none := by cases module <;> rfl
    rw [hnone, ite_self, List.filter_nil, List.append_nil]
    cases found with
    | mk root files => cases root <;> rfl
  | cons entry rest ih =>
    obtain ⟨path, target⟩ := entry
    have hsplit : Keyed.keys (found.files ++ (path, target) :: rest) =
        found.files.keys ++ path :: Keyed.keys rest := Keyed.keys_append _ _
    have hdrop : (Keyed.keys (found.files ++ rest)).Nodup := by
      rw [Keyed.keys_append]
      rw [hsplit] at hkeys
      exact hkeys.sublist ((List.sublist_cons_self path _).append_left _)
    have happend : (Keyed.keys ((found.files ++ [(path, target)]) ++ rest)).Nodup := by
      rwa [← List.append_cons]
    rw [hsplit, List.nodup_middle, List.nodup_cons, List.mem_append, not_or] at hkeys
    obtain ⟨⟨hnew, hlater⟩, -⟩ := hkeys
    rw [List.foldl_cons]
    by_cases hstays : stays main module found.root (path, target)
    · rw [step_of_stays hstays hnew, ih _ happend, List.filter_cons_of_pos hstays, replacement?_cons]
      dsimp only
      rw [← List.append_cons]
      have hroot : found.root = none → some path ≠ module := fun hnone hpath => by
        have hsome := (of_decide_eq_true hstays).2 hpath
        rw [hnone] at hsome
        cases hsome
      cases hfound : found.root with
      | none => rw [if_neg (hroot hfound)]
      | some root => rfl
    rw [List.filter_cons_of_neg hstays, replacement?_cons]
    rcases step_of_not_stays hstays with ⟨rfl, hstep⟩ | ⟨hmain, rfl, hroot, hstep⟩
    · rw [hstep, ih _ hdrop]
      by_cases hsame : module = some path
      · rw [if_pos hsame, if_pos hsame]
      · rw [if_neg hsame, if_neg hsame, if_neg (Ne.symm hsame)]
    · have hnone : replacement? rest (some path) = none :=
        replacement?_of_notMem fun other hother hpath => hlater (Option.some.inj hpath ▸ hother)
      rw [hstep, ih { found with root := target } hdrop, if_neg hmain, if_neg hmain, if_pos rfl, hnone, hroot,
        filter_stays_of_notMem hlater main none target]
      cases target <;> rfl

lemma ofTable_eq (hkeys : (Keyed.keys (dottedTable targets)).Nodup) :
    ofTable targets main module =
      { root := replacement? (dottedTable targets) main <|> replacement? (dottedTable targets) module
        files := (dottedTable targets).filter
          (stays main module (replacement? (dottedTable targets) main)) } := by
  rw [ofTable, foldl_step main module (dottedTable targets) { root := rootOf main (dottedTable targets) } hkeys,
    rootOf_eq hkeys]
  dsimp only
  rw [List.nil_append]
  split_ifs with hsame
  · rw [hsame]
    cases replacement? (dottedTable targets) main <;> rfl
  · rfl

/-! ### The order of the entries -/

lemma replacement?_perm {others : List (Text × Option Text)} (hperm : entries.Perm others)
    (hkeys : (Keyed.keys entries).Nodup) (file : Option Text) :
    replacement? entries file = replacement? others file := by
  cases file with
  | none => rfl
  | some path => rw [replacement?, replacement?, Option.bind_some, Option.bind_some, Keyed.get?_perm hperm hkeys]

lemma ofTable_perm (hperm : targets.Perm others) (hkeys : (Keyed.keys (dottedTable targets)).Nodup) :
    (ofTable targets main module).root = (ofTable others main module).root ∧
      (ofTable targets main module).files.Perm (ofTable others main module).files := by
  have hentries : (dottedTable targets).Perm (dottedTable others) := hperm.map _
  have hothers : (Keyed.keys (dottedTable others)).Nodup := (hentries.map Prod.fst).nodup_iff.mp hkeys
  rw [ofTable_eq hkeys, ofTable_eq hothers, replacement?_perm hentries hkeys main,
    replacement?_perm hentries hkeys module]
  exact ⟨rfl, hentries.filter _⟩

/-- How the entries of a table are split up between the package and its files. -/
structure IsSplit (entries : List (Text × Option Text)) (main module : Option Text)
    (found : BrowserTargets) : Prop where
  /-- The replacement for the package is that for `main`, or else that for `module`. -/
  root : found.root = (replacement? entries main <|> replacement? entries module)
  /-- No file stands there twice. -/
  once : found.files.keys.Nodup
  /-- The entry of `main` never stays, that of `module` does if `main` has a replacement, and all others do. -/
  mem_iff (path : Text) (target : Option Text) : (path, target) ∈ found.files ↔
    (path, target) ∈ entries ∧ some path ≠ main ∧ (some path = module → ∃ root, replacement? entries main = some root)

lemma isSplit_ofTable (hkeys : (Keyed.keys (dottedTable targets)).Nodup) :
    IsSplit (dottedTable targets) main module (ofTable targets main module) := by
  rw [ofTable_eq hkeys]
  refine ⟨rfl, hkeys.sublist (List.filter_sublist.map _), fun path target => ?_⟩
  rw [List.mem_filter, stays, decide_eq_true_iff, Option.isSome_iff_exists]

/-- A table whose entries are of different files gives the same in any order: the replacement that `main` has in it, or
else the one that `module` has, and each other entry once. -/
theorem table_in_any_order (main module : Option Text)
    (hkeys : (targets.map fun entry => Relative.dotted entry.1).Nodup) (horder : targets.Perm others) :
    IsSplit (dottedTable targets) (entryPath main) (entryPath module) (ofField (some (.table targets)) main module) ∧
      (ofField (some (.table targets)) main module).root = (ofField (some (.table others)) main module).root ∧
      (ofField (some (.table targets)) main module).files.Perm (ofField (some (.table others)) main module).files := by
  have hentries : (Keyed.keys (dottedTable targets)).Nodup := by
    rw [Keyed.keys, dottedTable, List.map_map]
    exact hkeys
  exact ⟨isSplit_ofTable hentries, ofTable_perm horder hentries⟩

/-- A replacement for the entry that `module` names, a file that is blocked and a replacement for `main`. -/
def threeTargets : Keyed Text (Option Text) :=
  [("lib/index.mjs", some "lib/web.mjs"), ("./lib/fs.js", none), ("./lib/index.js", some "./lib/web.js")]

/-- The replacement for `main` counts also when it comes last; that for `module` is then one of a single file. -/
theorem split_threeTargets :
    (ofField (some (.table threeTargets.reverse)) (some "lib/index.js") (some "./lib/index.mjs")).root =
        some "./lib/web.js" ∧
      (ofField (some (.table threeTargets)) (some "lib/index.js") (some "./lib/index.mjs")).root =
        some "./lib/web.js" ∧
      (Text.ofString "./lib/index.mjs", some (Text.ofString "./lib/web.mjs")) ∈
        (ofField (some (.table threeTargets)) (some "lib/index.js") (some "./lib/index.mjs")).files ∧
      (Text.ofString "./lib/fs.js", none) ∈
        (ofField (some (.table threeTargets)) (some "lib/index.js") (some "./lib/index.mjs")).files := by
  have hkeys : (threeTargets.map fun entry => Relative.dotted entry.1).Nodup := by decide
  obtain ⟨hsplit, hroot, -⟩ := table_in_any_order (some "lib/index.js") (some "./lib/index.mjs") hkeys
    (List.reverse_perm threeTargets).symm
  have hmain : (ofField (some (.table threeTargets)) (some "lib/index.js") (some "./lib/index.mjs")).root =
      some (Text.ofString "./lib/web.js") := hsplit.root.trans (by decide)
  refine ⟨hroot ▸ hmain, hmain, (hsplit.mem_iff _ _).mpr ⟨by decide, by decide, fun _ => ⟨"./lib/web.js", by decide⟩⟩,
    (hsplit.mem_iff _ _).mpr ⟨by decide, by decide, fun h => absurd h (by decide)⟩⟩

end BrowserTargets

end PackageExports
