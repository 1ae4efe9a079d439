import PackageExports.BuildLayout
import PackageExports.Exports.Assembly
import PackageExports.Proofs.Keyed

/-!
# What does not depend on the contents of files

`FileSystem.skeleton` empties all files. Paths lead to the same places in the skeleton, so whatever asks only which
files there are gives the same answer there: looking for sources and declarations, the targets of a path, and the
directories of a build. Two file systems with one skeleton differ in the contents of files at most.
-/

namespace PackageExports

def Entry.skeleton : Entry → Entry
  | .file _ => .file []
  | entry => entry

namespace FileSystem

variable (fs : FileSystem)

/-- The file system with all files emptied. -/
def skeleton : FileSystem where
  entries := fs.entries.map fun p => (p.1, p.2.skeleton)
  workingDirectory := fs.workingDirectory
  nodup := by
    have hkeys : Keyed.keys (fs.entries.map fun p => (p.1, p.2.skeleton)) = fs.entries.keys := by
      simp [Keyed.keys, Function.comp_def]
    rw [hkeys]
    exact fs.nodup

@[simp] lemma skeleton_workingDirectory : fs.skeleton.workingDirectory = fs.workingDirectory :=
  rfl

lemma skeleton_entries : fs.skeleton.entries = fs.entries.map fun p => (p.1, p.2.skeleton) :=
  rfl

@[simp] lemma entryAt?_skeleton (location : Location) :
    fs.skeleton.entryAt? location = (fs.entryAt? location).map Entry.skeleton := by
  unfold entryAt? skeleton
  split_ifs
  · rfl
  · exact Keyed.get?_map _ _ _

lemma skeleton_put {location : Location} {old : List UInt8} (content : List UInt8)
    (h : fs.entryAt? location = some (.file old)) : (fs.put location (.file content)).skeleton = fs.skeleton := by
  have hget : fs.entries.get? location = some (.file old) := by
    unfold entryAt? at h
    split_ifs at h
    · cases h
    · exact h
  have hentries := Keyed.map_insert Entry.skeleton (.file content) hget rfl
  simp only [skeleton, put, hentries]

lemma walkNames_skeleton (onLink : Location → List Text → Except AccessError Place) (here : Location)
    (names : List Text) : walkNames fs.skeleton onLink here names = walkNames fs onLink here names := by
  induction names generalizing here with
  | nil => rfl
  | cons name rest ih =>
    simp only [walkNames, ih, entryAt?_skeleton]
    rcases fs.entryAt? (here ++ [name]) with _ | (_ | _ | _) <;> rfl

@[simp] lemma follow_skeleton (links : ℕ) : fs.skeleton.follow links = fs.follow links := by
  induction links with
  | zero =>
    funext here names
    exact walkNames_skeleton fs _ here names
  | succ links ih =>
    funext here names
    rw [follow, follow, ih]
    exact walkNames_skeleton fs _ here names

@[simp] lemma place_skeleton (path : Text) : fs.skeleton.place path = fs.place path := by
  simp [place]

@[simp] lemma find_skeleton (path : Text) : fs.skeleton.find path = fs.find path := by
  simp [find]

@[simp] lemma kind?_skeleton (path : Text) : fs.skeleton.kind? path = fs.kind? path := by
  simp only [kind?, find_skeleton, entryAt?_skeleton]
  cases fs.find path with
  | error e => rfl
  | ok location =>
    dsimp only
    rcases fs.entryAt? location with _ | (_ | _ | _) <;> rfl

@[simp] lemma isFile_skeleton (path : Text) : fs.skeleton.isFile path = fs.isFile path := by
  simp [isFile]

@[simp] lemma isDirectory_skeleton (path : Text) : fs.skeleton.isDirectory path = fs.isDirectory path := by
  simp [isDirectory]

@[simp] lemma check_skeleton (path : Text) (wanted : Option Kind) :
    fs.skeleton.check path wanted = fs.check path wanted := by
  simp [check]

@[simp] lemma list_skeleton (path : Text) : fs.skeleton.list path = fs.list path := by
  simp only [list, find_skeleton, skeleton_entries, List.filterMap_map]
  rfl

lemma reckonNames_skeleton (onLink : Location → List Text → Location) (here : Location) (names : List Text) :
    reckonNames fs.skeleton onLink here names = reckonNames fs onLink here names := by
  induction names generalizing here with
  | nil => rfl
  | cons name rest ih =>
    simp only [reckonNames, ih, entryAt?_skeleton]
    rcases fs.entryAt? (here ++ [name]) with _ | (_ | _ | _) <;> rfl

@[simp] lemma reckon_skeleton (links : ℕ) : fs.skeleton.reckon links = fs.reckon links := by
  induction links with
  | zero =>
    funext here names
    exact reckonNames_skeleton fs _ here names
  | succ links ih =>
    funext here names
    rw [reckon, reckon, ih]
    exact reckonNames_skeleton fs _ here names

@[simp] lemma realPath_skeleton (p : Path) : fs.skeleton.realPath p = fs.realPath p := by
  simp [realPath]

lemma directory_skeleton (location : Location) :
    fs.skeleton.entryAt? location = some .directory ↔ fs.entryAt? location = some .directory := by
  rw [entryAt?_skeleton]
  rcases fs.entryAt? location with _ | (_ | _ | _) <;> simp [Entry.skeleton]

@[simp] lemma linksToDirectory_skeleton (here : Location) (name : Text) :
    fs.skeleton.linksToDirectory here name = fs.linksToDirectory here name := by
  simp only [linksToDirectory, follow_skeleton, directory_skeleton]

@[simp] lemma meetsFile_skeleton (enter : Text → Bool) (here : Location) (names : List Text) :
    fs.skeleton.meetsFile enter here names = fs.meetsFile enter here names := by
  induction names generalizing here with
  | nil => rfl
  | cons name rest ih =>
    rw [meetsFile, meetsFile, ih]
    split_ifs
    · simp only [entryAt?_skeleton, linksToDirectory_skeleton]
      rcases fs.entryAt? (here ++ [name]) with _ | (_ | _ | _) <;> rfl
    · simp only [directory_skeleton]

@[simp] lemma filesBelow_skeleton (path : Text) (enter : Text → Bool) :
    fs.skeleton.filesBelow path enter = fs.filesBelow path enter := by
  simp only [filesBelow, find_skeleton, directory_skeleton, meetsFile_skeleton, skeleton_entries, List.filterMap_map]
  rfl

variable {fs after : FileSystem}

/-- What sees the skeleton only is the same in file systems with one skeleton. -/
lemma eq_of_skeleton {β : Type} (f : FileSystem → β) (hf : ∀ fs, f fs.skeleton = f fs)
    (h : after.skeleton = fs.skeleton) : f after = f fs := by
  rw [← hf after, h, hf]

lemma find_congr (h : after.skeleton = fs.skeleton) (path : Text) : after.find path = fs.find path :=
  eq_of_skeleton (·.find path) (find_skeleton · path) h

lemma isFile_congr (h : after.skeleton = fs.skeleton) (path : Text) : after.isFile path = fs.isFile path :=
  eq_of_skeleton (·.isFile path) (isFile_skeleton · path) h

lemma check_congr (h : after.skeleton = fs.skeleton) (path : Text) (wanted : Option Kind) :
    after.check path wanted = fs.check path wanted :=
  eq_of_skeleton (·.check path wanted) (check_skeleton · path wanted) h

end FileSystem

variable (fs : FileSystem)

namespace Probe

@[simp] lemma firstFile?_skeleton (candidates : List Path) :
    firstFile? fs.skeleton candidates = firstFile? fs candidates := by
  simp [firstFile?]

@[simp] lemma fileOrIndex?_skeleton (base : Text) (extensions : List Text) :
    fileOrIndex? fs.skeleton base extensions = fileOrIndex? fs base extensions := by
  simp [fileOrIndex?]

@[simp] lemma fileBeforeIndex?_skeleton (base : Text) (extensions : List Text) :
    fileBeforeIndex? fs.skeleton base extensions = fileBeforeIndex? fs base extensions := by
  simp [fileBeforeIndex?, withExtensions?, indexFile?]

@[simp] lemma isPackageFile_skeleton (package : Path) (file : Text) :
    isPackageFile fs.skeleton package file = isPackageFile fs package file := by
  simp [isPackageFile]

end Probe

@[simp] lemma SourceFile.resolve?_skeleton (package : Path) (base : Text) :
    resolve? fs.skeleton package base = resolve? fs package base := by
  simp only [resolve?, Probe.fileBeforeIndex?_skeleton]

@[simp] lemma SourceFile.firstSource?_skeleton (package : Path) (bases : List Text) :
    firstSource? fs.skeleton package bases = firstSource? fs package bases := by
  induction bases with
  | nil => rfl
  | cons base rest ih => simp only [firstSource?, resolve?_skeleton, ih]

@[simp] lemma SourceFile.find?_skeleton (package : Path) (target : Text) (sources builds : List Text) :
    find? fs.skeleton package target sources builds = find? fs package target sources builds := by
  simp [find?]

namespace Baseline

variable (package : Path) (sources : List Text)

@[simp] lemma namedSource?_skeleton (m : Manifest) : namedSource? fs.skeleton package m = namedSource? fs package m := by
  simp [namedSource?]

@[simp] lemma sourceOfFirst_skeleton (files : List Text) :
    sourceOfFirst fs.skeleton package sources files = sourceOfFirst fs package sources files := by
  induction files with
  | nil => rfl
  | cons file rest ih => simp only [sourceOfFirst, SourceFile.find?_skeleton, ih]

@[simp] lemma replaced_skeleton (file : Text) (browser : Option Text) :
    replaced fs.skeleton package sources file browser = replaced fs package sources file browser := by
  simp [replaced]

end Baseline

@[simp] lemma Declaration.beside?_skeleton (package : Path) (file : Text) :
    beside? fs.skeleton package file = beside? fs package file := by
  simp [beside?]

@[simp] lemma Declaration.allBelow_skeleton (package : Path) (builds : List Text) :
    allBelow fs.skeleton package builds = allBelow fs package builds := by
  simp [allBelow]

namespace Expansion

@[simp] lemma resolve?_skeleton (package : Path) (extensions : List Text) (base : Text) :
    resolve? fs.skeleton package extensions base = resolve? fs package extensions base := by
  simp [resolve?]

@[simp] lemma typesOf?_skeleton (package : Path) (path resolved : Text) :
    typesOf? fs.skeleton package path resolved = typesOf? fs package path resolved := by
  simp [typesOf?]

@[simp] lemma expand_skeleton (package : Path) (pattern : BuildPattern) (path : Text) (sources extensions : List Text) :
    expand fs.skeleton package pattern path sources extensions = expand fs package pattern path sources extensions := by
  cases pattern with
  | single => rfl
  | dual kind cjs esm => simp only [expand, resolve?_skeleton, typesOf?_skeleton, SourceFile.find?_skeleton]

end Expansion

namespace EntryRequest

variable (r : EntryRequest)

@[simp] lemma builtConditions_skeleton (directory file : Text) :
    builtConditions fs.skeleton r directory file = builtConditions fs r directory file := by
  simp [builtConditions]

@[simp] lemma exactMatchIn_skeleton (roots : List (Text × Text)) :
    exactMatchIn fs.skeleton r roots = exactMatchIn fs r roots := by
  induction roots with
  | nil => rfl
  | cons root rest ih =>
    have hbelow : exactMatchBelow fs.skeleton r root.1 root.2 = exactMatchBelow fs r root.1 root.2 := by
      simp only [exactMatchBelow, Probe.fileOrIndex?_skeleton, builtConditions_skeleton]
    simp only [exactMatchIn, hbelow, ih]

@[simp] lemma predictionIn_skeleton (directories : List Text) :
    predictionIn fs.skeleton r directories = predictionIn fs r directories := by
  induction directories with
  | nil => rfl
  | cons directory rest ih =>
    have hbelow : predictionBelow fs.skeleton r directory = predictionBelow fs r directory := by
      simp only [predictionBelow, Probe.fileOrIndex?_skeleton]
    simp only [predictionIn, hbelow, ih]

@[simp] lemma assumption_skeleton : assumption fs.skeleton r = assumption fs r := by
  simp [assumption]

@[simp] lemma apply_skeleton (s : Strategy) : apply fs.skeleton r s = apply fs r s := by
  cases s <;> simp [apply, exactMatch, expansion, prediction]

/-- The targets of a path depend on which files there are only. -/
@[simp] lemma conditions_skeleton (strategies : List Strategy) :
    conditions fs.skeleton r strategies = conditions fs r strategies := by
  induction strategies with
  | nil => exact assumption_skeleton fs r
  | cons s rest ih => simp only [conditions, apply_skeleton, ih]

end EntryRequest

@[simp] lemma Assembly.exportOf_skeleton (a : Assembly) (path : Text) :
    exportOf fs.skeleton a path = exportOf fs a path := by
  simp [exportOf]

lemma Assembly.exportOf_congr {fs after : FileSystem} {a b : Assembly} {path : Text}
    (h : after.skeleton = fs.skeleton) (hrequest : a.request path = b.request path) :
    exportOf after a path = exportOf fs b path := by
  have hsame : exportOf fs a path = exportOf fs b path := by rw [exportOf, exportOf, hrequest]
  rw [← hsame]
  exact FileSystem.eq_of_skeleton (exportOf · a path) (exportOf_skeleton · a path) h

namespace BuildLayout

@[simp] lemma directoriesWith_skeleton (package : Path) (names endings : List Text) :
    directoriesWith fs.skeleton package names endings = directoriesWith fs package names endings := by
  simp [directoriesWith]

end BuildLayout

end PackageExports
