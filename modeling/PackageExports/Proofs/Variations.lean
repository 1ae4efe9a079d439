import PackageExports.Proofs.EnclosingDirectories
import PackageExports.Proofs.ExtensionBuilds
import PackageExports.Proofs.Searches

/-!
# What a search may try

A search that is not for an exact path finds the first file among the paths that it may try, in their order, and tells the
extension with which this path was made. It asks whether there is a directory before it asks for the index files in it,
which makes no difference where all entries are in directories.

Main result: `SearchPlan.discover_first_variation`.
-/

namespace PackageExports

open PackageExports.Path (IsSegment IsClean)

namespace SearchPlan

/-- The directories that are searched have only segments between their slashes, and the extensions have no slash. -/
structure IsTidy (plan : SearchPlan) : Prop where
  directories : ∀ searched ∈ plan.directories, ∀ segment ∈ Text.splitOn '/' searched, IsSegment segment
  extensions : ∀ extension ∈ plan.extensions, CodePoint.ofChar '/' ∉ extension

/-- The paths that may be tried for a name in a directory, each with the extension that it is made with. -/
def triedIn (plan : SearchPlan) (path name : Text) : List (Text × Text) :=
  plan.candidates path name ++
    if plan.tryIndexFiles then
      plan.extensions.map fun extension => (Written.joinAll path [name, "index" ++ extension], extension)
    else []

/-- All paths that a search may try, each with the extension that it is made with. -/
def triedFor (plan : SearchPlan) (target : Text) : List (Text × Text) :=
  plan.directories.flatMap fun searched =>
    plan.triedIn (plan.searchPath searched (splitTarget (Relative.bare target)).1) (splitTarget (Relative.bare target)).2

variable {plan : SearchPlan} {fs : FileSystem} {package top : Path} {directory name target : Text}
  {directories front : List Text} {found : Discovery}

lemma map_fst_triedIn (plan : SearchPlan) (path name : Text) :
    (plan.triedIn path name).map Prod.fst =
      (plan.candidates path name).map Prod.fst ++
        if plan.tryIndexFiles then plan.extensions.map fun extension => Written.joinAll path [name, "index" ++ extension]
        else [] := by
  rw [triedIn, List.map_append]
  split_ifs
  · rw [List.map_map]
    rfl
  · rfl

/-- Without the extensions these are the variations of the target. -/
theorem map_fst_triedFor (plan : SearchPlan) (target : Text) :
    (plan.triedFor target).map Prod.fst = plan.variations target := by
  rw [triedFor, List.map_flatMap]
  exact congrArg (List.flatMap · plan.directories) (funext fun _ => map_fst_triedIn plan _ _)

lemma drop_name_index (top : Path) {extension : Text} (h : CodePoint.ofChar '/' ∉ extension) :
    (top / (Text.ofString "index" ++ extension)).name.drop 5 = extension := by
  rw [Path.div_index top h, Path.name, List.getLast?_concat]
  rfl

lemma indexExtension?_of_inDirectories (htree : fs.InDirectories) (hclean : top.IsClean)
    (hextensions : ∀ extension ∈ plan.extensions, CodePoint.ofChar '/' ∉ extension) :
    plan.indexExtension? fs top =
      plan.extensions.find? fun extension => fs.isFile (top / (Text.ofString "index" ++ extension)).text := by
  rw [indexExtension?]
  split_ifs with hdirectory
  · rfl
  · refine (List.find?_eq_none.mpr fun extension hextension hfile => hdirectory ?_).symm
    rw [Path.div_index top (hextensions extension hextension)] at hfile
    exact htree.isDirectory_of_index hclean (hextensions extension hextension) hfile

lemma exists_searchPath (plan : SearchPlan) {searched : Text}
    (hsearched : ∀ segment ∈ Text.splitOn '/' searched, IsSegment segment)
    (hfront : ∀ segment ∈ front, IsSegment segment) :
    ∃ names : List Text, (∀ segment ∈ names, IsSegment segment) ∧
      plan.searchPath searched (Text.joinWith "/" front) = Text.joinWith "/" names := by
  have hwhole := Text.joinWith_splitOn searched
  unfold searchPath
  split_ifs with hflat
  · exact ⟨_, hsearched, hwhole.symm⟩
  · exact ⟨front, hfront, rfl⟩
  · have hne : front ≠ [] := by
      rintro rfl
      exact hflat (by simp [Text.joinWith])
    have hjoin := Written.join_joinWith hsearched hfront hne
    rw [hwhole] at hjoin
    exact ⟨_, List.forall_mem_append.mpr ⟨hsearched, hfront⟩, hjoin⟩

lemma joinAll_of_seen {names : List Text} {extension file : Text} (hnames : ∀ segment ∈ names, IsSegment segment)
    (hname : IsSegment name) (hextension : CodePoint.ofChar '/' ∉ extension)
    (hseen : seenFrom package
      (package / Written.join (Text.joinWith "/" names) name / (Text.ofString "index" ++ extension)) = .ok file) :
    file = Written.joinAll (Text.joinWith "/" names) [name, "index" ++ extension] := by
  have hindex : IsSegment (Text.ofString "index" ++ extension) := Path.isSegment_index hextension
  have hrow : ∀ segment ∈ names ++ [name], IsSegment segment :=
    List.forall_mem_append.mpr ⟨hnames, List.forall_mem_singleton.mpr hname⟩
  have hlast := List.forall_mem_singleton.mpr hindex
  have hpath : Written.join (Text.joinWith "/" names) name = Text.joinWith "/" (names ++ [name]) :=
    Written.join_joinWith hnames (List.forall_mem_singleton.mpr hname) (List.cons_ne_nil _ _)
  have hfile : Written.joinAll (Text.joinWith "/" names) [name, "index" ++ extension] =
      Text.joinWith "/" (names ++ [name] ++ [Text.ofString "index" ++ extension]) := by
    rw [Written.joinAll, List.foldl_cons, List.foldl_cons, List.foldl_nil, hpath]
    exact Written.join_joinWith hrow hlast (List.cons_ne_nil _ _)
  rw [hpath, Path.div_joinWith package hrow, Path.div_index _ hextension, List.append_assoc, Path.seenFrom_below] at hseen
  rw [hfile, ← Except.ok.inj hseen]
  exact if_neg (by simp)

lemma find?_triedIn (htree : fs.InDirectories) (hpackage : package.IsClean)
    (hextensions : ∀ extension ∈ plan.extensions, CodePoint.ofChar '/' ∉ extension) {path : Text}
    (hpath : (Path.ofText path).anchor = .relative) (hname : (Path.ofText name).anchor = .relative) :
    ((plan.triedIn path name).find? fun (file, _) => fs.isFile (package / file).text) =
      match plan.extensionIn? fs package path name with
      | some extension => some (Written.join path (name ++ extension), extension)
      | none =>
        if plan.tryIndexFiles then
          (plan.indexExtension? fs (package / Written.join path name)).map fun extension =>
            (Written.joinAll path [name, "index" ++ extension], extension)
        else none := by
  have hindex (extension : Text) : package / Written.joinAll path [name, "index" ++ extension] =
      package / Written.join path name / (Text.ofString "index" ++ extension) :=
    Written.div_join package (Written.anchor_join hpath hname) (anchor_index extension)
  have hown : ((plan.candidates path name).find? fun (file, _) => fs.isFile (package / file).text) =
      (plan.extensionIn? fs package path name).map fun extension => (Written.join path (name ++ extension), extension) := by
    rw [candidates, List.find?_map]
    rfl
  rw [triedIn, List.find?_append, hown]
  cases plan.extensionIn? fs package path name with
  | some extension => rfl
  | none =>
    rw [Option.map_none, Option.none_or]
    dsimp only
    split_ifs
    · have hfiles : ((fun (row : Text × Text) => fs.isFile (package / row.1).text) ∘ fun extension =>
          (Written.joinAll path [name, "index" ++ extension], extension)) =
          fun extension => fs.isFile (package / Written.join path name / (Text.ofString "index" ++ extension)).text :=
        funext fun extension => congrArg (fun p : Path => fs.isFile p.text) (hindex extension)
      rw [List.find?_map, indexExtension?_of_inDirectories htree (Path.isClean_div hpackage _) hextensions, ← hfiles]
    · rfl

lemma find?_flatMap_of_first {α β : Type} {rows : α → List β} {p : β → Bool} {before after : List α} {a : α} {b : β}
    (hbefore : ∀ other ∈ before, (rows other).find? p = none) (hfirst : (rows a).find? p = some b) :
    ((before ++ a :: after).flatMap rows).find? p = some b := by
  rw [List.find?_flatMap, List.findSome?_append, List.findSome?_eq_none_iff.mpr hbefore, Option.none_or,
    List.findSome?_cons, hfirst]

/-- A search ends with the first file among all that may be tried. -/
lemma Outcome.find?_tried (htree : fs.InDirectories) (hpackage : package.IsClean)
    (hextensions : ∀ extension ∈ plan.extensions, CodePoint.ofChar '/' ∉ extension)
    (hdirectories : ∀ searched ∈ directories, ∀ segment ∈ Text.splitOn '/' searched, IsSegment segment)
    (hfront : ∀ segment ∈ front, IsSegment segment) (hname : IsSegment name)
    (h : Outcome plan fs package (Text.joinWith "/" front) name directories found) :
    ∃ first : Option (Text × Text),
      ((directories.flatMap fun searched =>
        plan.triedIn (plan.searchPath searched (Text.joinWith "/" front)) name).find? fun (file, _) =>
          fs.isFile (package / file).text) = first ∧
      found.file = first.map Prod.fst ∧ found.extension = first.map Prod.snd ∧
      (found.kind = .nowhere ↔ first = none) := by
  have hname' : (Path.ofText name).anchor = .relative := by rw [Path.ofText_of_isSegment hname]
  have htried (searched : Text) (hsearched : searched ∈ directories) :=
    have hpath := plan.anchor_searchPath (Path.anchor_of_splitOn (hdirectories searched hsearched))
      (Path.anchor_joinWith hfront)
    find?_triedIn htree hpackage hextensions hpath hname'
  have habsent (searched : Text) (hsearched : searched ∈ directories)
      (h : plan.IsAbsent fs package (plan.searchPath searched (Text.joinWith "/" front)) name) :
      ((plan.triedIn (plan.searchPath searched (Text.joinWith "/" front)) name).find? fun (file, _) =>
        fs.isFile (package / file).text) = none := by
    rw [htried searched hsearched, h.1]
    dsimp only
    split_ifs with hindex
    · rw [h.2 hindex]
      rfl
    · rfl
  cases h with
  | nowhere tried hall =>
    refine ⟨none, ?_, rfl, rfl, by simp⟩
    rw [List.find?_flatMap, List.findSome?_eq_none_iff]
    exact fun searched hsearched => habsent searched hsearched (hall searched hsearched)
  | @byExtension tried before after searched extension hrow hbefore hextension =>
    subst hrow
    refine ⟨some (Written.join (plan.searchPath searched (Text.joinWith "/" front)) (name ++ extension), extension),
      find?_flatMap_of_first (fun other hother => habsent other (by simp [hother]) (hbefore other hother)) ?_,
      rfl, rfl, by simp⟩
    rw [htried searched (by simp), hextension]
  | @byIndex tried before after searched extension file top hrow hbefore hnone hindex htop hextension hseen =>
    subst hrow htop
    have hmem : extension ∈ plan.extensions := mem_of_indexExtension? hextension
    obtain ⟨names, hnames, hpath⟩ := exists_searchPath plan (hdirectories searched (by simp)) hfront
    rw [hpath] at hseen
    have hfile := joinAll_of_seen hnames hname (hextensions extension hmem) hseen
    refine ⟨some (Written.joinAll (Text.joinWith "/" names) [name, "index" ++ extension], extension),
      find?_flatMap_of_first (fun other hother => habsent other (by simp [hother]) (hbefore other hother)) ?_,
      congrArg some hfile, congrArg some (drop_name_index _ (hextensions extension hmem)), by simp⟩
    rw [htried searched (by simp), hnone]
    dsimp only
    rw [if_pos hindex, hextension, hpath]
    rfl

/-- If a path is not there as it is written, then looking for it does not fail and finds the first of its variations that
is a file, with the extension that this variation is made with, and nothing if none of them is a file. -/
theorem discover_first_variation (htree : fs.InDirectories) (hpackage : package.IsClean) (hplan : plan.IsTidy)
    (htarget : Relative.IsTidy target) (hexact : ¬IsExact fs package target) :
    ∃ found, plan.discover fs package target = .ok found ∧
      found.file = (plan.variations target).find? (fun file => fs.isFile (package / file).text) ∧
      found.extension =
        ((plan.triedFor target).find? fun (file, _) => fs.isFile (package / file).text).map Prod.snd ∧
      (found.kind = .nowhere ↔ found.file = none) ∧
      (found.file = none ↔ ∀ file ∈ plan.variations target, fs.isFile (package / file).text = false) := by
  obtain ⟨front, last, hrow⟩ := htarget.exists_row
  have hrelative : (Path.ofText (Relative.bare target)).anchor = .relative := Path.anchor_of_splitOn htarget
  obtain ⟨found, hfound, hends⟩ := exists_discover hpackage
    (fun searched hsearched => Path.anchor_of_splitOn (hplan.directories searched hsearched)) hrelative hexact
  rw [hrow.split_bare] at hends
  obtain ⟨first, hfirst, hfile, hextension, hkind⟩ :=
    hends.find?_tried htree hpackage hplan.extensions hplan.directories hrow.front (Written.isSegment_stem hrow.last)
  have htried : ((plan.triedFor target).find? fun (file, _) => fs.isFile (package / file).text) = first := by
    rw [triedFor, splitTarget_eq, hrow.split_bare]
    exact hfirst
  have hvariations : (plan.variations target).find? (fun file => fs.isFile (package / file).text) = first.map Prod.fst := by
    rw [← map_fst_triedFor, List.find?_map, ← htried]
    rfl
  refine ⟨found, hfound, hfile.trans hvariations.symm, by rw [htried, hextension], ?_, ?_⟩
  · rw [hkind, hfile, Option.map_eq_none_iff]
  · rw [hfile, ← hvariations, List.find?_eq_none]
    simp only [Bool.not_eq_true]

/-- A package with an index file in a directory of its build. -/
def packageWithForms : FileSystem :=
  ((FileSystem.empty.put ["lib"] .directory).put ["lib", "forms"] .directory).put ["lib", "forms", "index.mjs"] (.file [])

/-- The index file is the first variation that is there. -/
theorem discover_first_variation_forms :
    ∃ found, javascript.discover packageWithForms (Path.ofText ".") "./forms" = .ok found ∧
      found.file = some "lib/forms/index.mjs" ∧ found.extension = some ".mjs" := by
  have htree : packageWithForms.InDirectories := .of_entries rfl (by decide +kernel)
  have hplan : javascript.IsTidy := ⟨by decide, by decide⟩
  have htarget : Relative.IsTidy "./forms" := by decide
  have hexact : ¬IsExact packageWithForms (Path.ofText ".") "./forms" := fun hexact => hexact.1 (by decide)
  obtain ⟨found, hfound, hfile, hextension, -⟩ :=
    discover_first_variation htree (Path.isClean_ofText ".") hplan htarget hexact
  exact ⟨found, hfound, hfile.trans (by decide +kernel), hextension.trans (by decide +kernel)⟩

end SearchPlan

end PackageExports
