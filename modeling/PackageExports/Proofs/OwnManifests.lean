import PackageExports.Proofs.ForeignManifests
import PackageExports.Proofs.LevelPaths

/-!
# Manifests that tell the module system

To tell the module system of a file, package.json files are looked for from the directory of the file up to the top of
its package, and the first that is there decides. The walk ends at the top of the package, or right away in a directory
that is not below it, whose package.json is looked at first. So a package.json outside of the package decides exactly
if one of the paths that are asked for leads to where it is.

Main results: `ModuleKind.climbs_iff`, `ModuleKind.independent_iff`, `ModuleKind.own_manifests_decide_iff`.
-/

namespace PackageExports

open PackageExports.Path (IsDown)

namespace ModuleKind

open FileSystem (SeenAlike IsForeign ManifestsApart FilesApart)

variable {fs after : FileSystem} {top here location : Location} {package : Path} {file path : Text}
  {row : List Location}

/-! ### The walk up -/

/-- The rows of directories from one up to `top`, or up to the first that is not below it. -/
inductive Climbs (top : Location) : Location → List Location → Prop where
  | stop {here : Location} : here = top ∨ ¬top <+: here → Climbs top here [here]
  | up {here : Location} {above : List Location} : here ≠ top → top <+: here → Climbs top here.dropLast above →
      Climbs top here (here :: above)

lemma levels_of_outside (h : ¬top <+: here) : levels top here = [here] := by
  have hbool : ¬top.isPrefixOf here = true := fun hstart => h (List.isPrefixOf_iff_prefix.mp hstart)
  rw [levels, if_neg hbool]

lemma levels_below (top names : Location) :
    levels top (top ++ names) =
      (List.range (names.length + 1)).map fun n => (top ++ names).take ((top ++ names).length - n) := by
  rw [levels, if_pos (List.isPrefixOf_iff_prefix.mpr (List.prefix_append top names)), List.length_append,
    Nat.add_sub_cancel_left]

lemma levels_self (top : Location) : levels top top = [top] := by
  have hlevels := levels_below top []
  rw [List.append_nil] at hlevels
  rw [hlevels]
  simp

lemma levels_concat (top names : Location) (name : Text) :
    levels top (top ++ (names ++ [name])) = (top ++ (names ++ [name])) :: levels top (top ++ names) := by
  have hlength : (top ++ (names ++ [name])).length = (top ++ names).length + 1 := by
    rw [← List.append_assoc, List.length_append, List.length_singleton]
  have hrest : (names ++ [name]).length = names.length + 1 := List.length_append
  rw [levels_below, levels_below, hrest, List.range_succ_eq_map, List.map_cons, List.map_map, Nat.sub_zero,
    List.take_length]
  congr 1
  refine List.map_congr_left fun n _ => ?_
  rw [Function.comp_apply, hlength, Nat.succ_sub_succ, ← List.append_assoc,
    List.take_append_of_le_length (Nat.sub_le _ _)]

lemma levels_of_stop (h : here = top ∨ ¬top <+: here) : levels top here = [here] := by
  rcases h with rfl | h
  · exact levels_self here
  · exact levels_of_outside h

lemma levels_of_up (hne : here ≠ top) (h : top <+: here) : levels top here = here :: levels top here.dropLast := by
  obtain ⟨names, rfl⟩ := h
  rcases List.eq_nil_or_concat' names with rfl | ⟨front, last, rfl⟩
  · exact absurd (List.append_nil top) hne
  · rw [levels_concat, ← List.append_assoc, List.dropLast_concat]

/-- The walk up ends, and the directories that it passes are those of `levels`. -/
theorem climbs_iff : Climbs top here row ↔ row = levels top here := by
  constructor
  · intro h
    induction h with
    | stop hstop => exact (levels_of_stop hstop).symm
    | up hne hbelow _ ih => rw [levels_of_up hne hbelow, ih]
  · rintro rfl
    induction here using List.reverseRecOn with
    | nil =>
      have hstop : [] = top ∨ ¬top <+: [] := by
        rw [List.prefix_nil]
        exact (em (top = [])).imp_left Eq.symm
      rw [levels_of_stop hstop]
      exact .stop hstop
    | append_singleton here name ih =>
      by_cases hstop : here ++ [name] = top ∨ ¬top <+: here ++ [name]
      · rw [levels_of_stop hstop]
        exact .stop hstop
      · obtain ⟨hne, hbelow⟩ := not_or.mp hstop
        rw [not_not] at hbelow
        rw [levels_of_up hne hbelow]
        refine .up hne hbelow ?_
        rw [List.dropLast_concat]
        exact ih

/-! ### What is asked for -/

/-- Whether the name of a file leaves open what its module system is, and the file can exist. -/
def LeavesOpen (package : Path) (file : Text) : Prop :=
  (Written.splitSuffix (Relative.bare file)).2 ≠ ".mjs" ∧ (Written.splitSuffix (Relative.bare file)).2 ≠ ".cjs" ∧
    checkName (package / Relative.bare file).text = .ok ()

def searched (fs : FileSystem) (package : Path) (file : Text) : List Location :=
  levels (fs.realPath package) (fs.realPath (package / Relative.bare file)).dropLast

def manifestAt (location : Location) : Text :=
  ((FileSystem.pathTo location).child Package.manifestName).text

/-- The manifests that are asked for: those up to the first that is there. -/
def manifestsAsked (fs : FileSystem) : List Location → List Text
  | [] => []
  | location :: rest =>
    manifestAt location ::
      match fs.check (manifestAt location) (some .file) with
      | .ok false => manifestsAsked fs rest
      | _ => []

/-- The paths that are asked for. -/
def asked (fs : FileSystem) (package : Path) (file : Text) : List Text :=
  manifestsAsked fs (searched fs package file) ++
    match declaredAt fs (searched fs package file) with
    | .ok none => [(package / Relative.bare file).text]
    | _ => []

/-- What the words of a file tell. -/
def contentKind (fs : FileSystem) (path : Text) : Except AccessError ModuleKind := do
  if ← fs.check path (some .file) then
    match fs.readTextReplacing path with
    | .ok t => return sniff t
    | .error _ => return .unknown
  else return .unknown

lemma detect_of_open (h : LeavesOpen package file) :
    detect fs package file = (do
      match ← declaredAt fs (searched fs package file) with
      | some kind => return kind
      | none => contentKind fs (package / Relative.bare file).text) := by
  obtain ⟨hmjs, hcjs, hname⟩ := h
  unfold detect
  dsimp only
  rw [if_neg hmjs, if_neg hcjs, hname]
  rfl

lemma detect_of_not_open (h : ¬LeavesOpen package file) (fs after : FileSystem) :
    detect after package file = detect fs package file := by
  unfold detect
  dsimp only
  by_cases hmjs : (Written.splitSuffix (Relative.bare file)).2 = Text.ofString ".mjs"
  · rw [if_pos hmjs, if_pos hmjs]
  by_cases hcjs : (Written.splitSuffix (Relative.bare file)).2 = Text.ofString ".cjs"
  · rw [if_neg hmjs, if_neg hmjs, if_pos hcjs, if_pos hcjs]
  rw [if_neg hmjs, if_neg hmjs, if_neg hcjs, if_neg hcjs]
  cases hname : checkName (package / Relative.bare file).text with
  | error e => rfl
  | ok _ => exact absurd ⟨hmjs, hcjs, hname⟩ h

lemma declaredAt_cons (fs : FileSystem) (location : Location) (rest : List Location) :
    declaredAt fs (location :: rest) = (do
      if ← fs.check (manifestAt location) (some .file) then return declaredIn fs (manifestAt location)
      declaredAt fs rest) :=
  rfl

/-! ### What it depends on -/

lemma declaredAt_congr (h : ∀ path ∈ manifestsAsked fs row, SeenAlike fs after path) :
    declaredAt after row = declaredAt fs row := by
  induction row with
  | nil => rfl
  | cons location rest ih =>
    rw [manifestsAsked, List.forall_mem_cons] at h
    obtain ⟨⟨hcheck, hread⟩, hrest⟩ := h
    rw [declaredAt_cons, declaredAt_cons, hcheck]
    rcases hfound : fs.check (manifestAt location) (some .file) with e | _ | _
    · rfl
    · rw [hfound] at hrest
      exact ih hrest
    · change Except.ok _ = Except.ok _
      rw [declaredIn_congr (hread hfound)]

lemma contentKind_congr (h : SeenAlike fs after path) : contentKind after path = contentKind fs path := by
  obtain ⟨hcheck, hread⟩ := h
  unfold contentKind
  rw [hcheck]
  rcases hfound : fs.check path (some .file) with e | _ | _
  · rfl
  · rfl
  · have htext : after.readTextReplacing path = fs.readTextReplacing path := by
      unfold FileSystem.readTextReplacing
      rw [hread hfound]
    rw [htext]

/-- The module system depends on the paths that are asked for. -/
theorem detect_congr (hreal : ∀ p, after.realPath p = fs.realPath p)
    (h : ∀ path ∈ asked fs package file, SeenAlike fs after path) :
    detect after package file = detect fs package file := by
  by_cases hopen : LeavesOpen package file
  · rw [asked, List.forall_mem_append] at h
    have hsearched : searched after package file = searched fs package file := by
      rw [searched, searched, hreal, hreal]
    rw [detect_of_open hopen, detect_of_open hopen, hsearched, declaredAt_congr h.1]
    rcases hfound : declaredAt fs (searched fs package file) with e | _ | kind
    · rfl
    · rw [hfound, List.forall_mem_singleton] at h
      exact contentKind_congr h.2
    · rfl
  · exact detect_of_not_open hopen fs after

/-! ### The nearest manifest -/

lemma declaredAt_of_nearest {before rest : List Location} {bytes : List UInt8}
    (hbefore : ∀ other ∈ before, fs.check (manifestAt other) (some .file) = .ok false)
    (hread : fs.read (manifestAt location) = .ok bytes) :
    declaredAt fs (before ++ location :: rest) = .ok (declared? bytes) := by
  induction before with
  | nil =>
    rw [List.nil_append, declaredAt_cons, FileSystem.check_of_read hread, declaredIn_of_read hread]
    rfl
  | cons other before ih =>
    obtain ⟨hother, hbefore⟩ := List.forall_mem_cons.mp hbefore
    rw [List.cons_append, declaredAt_cons, hother]
    exact ih hbefore

lemma declaredAt_of_none (h : ∀ other ∈ row, fs.check (manifestAt other) (some .file) = .ok false) :
    declaredAt fs row = .ok none := by
  induction row with
  | nil => rfl
  | cons other row ih =>
    obtain ⟨hother, hrow⟩ := List.forall_mem_cons.mp h
    rw [declaredAt_cons, hother]
    exact ih hrow

/-! ### Manifests outside of the package -/

/-- If a manifest outside is asked for, then any kind can be declared there. -/
lemma exists_foreign (h : ¬∀ path ∈ manifestsAsked fs row, fs.StaysHome top path) :
    ∃ location, fs.IsForeign top location ∧
      ∀ bytes, declaredAt (fs.put location (.file bytes)) row = .ok (declared? bytes) := by
  induction row with
  | nil => exact absurd (List.forall_mem_nil _) h
  | cons here row ih =>
    rw [manifestsAsked, List.forall_mem_cons] at h
    by_cases hhome : fs.StaysHome top (manifestAt here)
    · rcases hfound : fs.check (manifestAt here) (some .file) with e | _ | _
      · rw [hfound] at h
        exact absurd ⟨hhome, List.forall_mem_nil _⟩ h
      · rw [hfound] at h
        obtain ⟨location, hforeign, hdeclared⟩ := ih fun hrow => h ⟨hhome, hrow⟩
        refine ⟨location, hforeign, fun bytes => ?_⟩
        obtain ⟨hcheck, -⟩ := (FileSystem.manifestsApart_put hforeign bytes).seenAlike hhome
        rw [declaredAt_cons, hcheck, hfound]
        exact hdeclared bytes
      · rw [hfound] at h
        exact absurd ⟨hhome, List.forall_mem_nil _⟩ h
    · simp only [FileSystem.StaysHome, not_forall, not_not] at hhome
      obtain ⟨p, hplace, hforeign⟩ := hhome
      refine ⟨p.location, hforeign, fun bytes => ?_⟩
      exact declaredAt_of_nearest (List.forall_mem_nil _) (hforeign.read_put hplace bytes)

/-- The bytes of a package.json that declares a module system. -/
def declaring (type : Text) : List UInt8 :=
  (Utf8.encode? ("\x7b\"type\": \"" ++ type ++ "\"\x7d")).getD []

lemma declared_declaring : declared? (declaring "module") = some .esm ∧ declared? (declaring "commonjs") = some .cjs := by
  decide +kernel

lemma contentKind_of_read {bytes : List UInt8} (h : fs.read path = .ok bytes) :
    contentKind fs path = .ok (sniff (Text.unifyNewlines (Utf8.decodeReplacing bytes))) := by
  unfold contentKind FileSystem.readTextReplacing
  rw [FileSystem.check_of_read h, h]
  rfl

lemma exists_sniffed : ∃ bytes, sniff (Text.unifyNewlines (Utf8.decodeReplacing bytes)) = .esm :=
  ⟨(Utf8.encode? "import ").getD [], by decide +kernel⟩

lemma searched_eq (h : FilesApart fs after top) (package : Path) (file : Text) :
    searched after package file = searched fs package file := by
  rw [searched, searched, h.realPath_eq, h.realPath_eq]

theorem staysHome_of_independent (hopen : LeavesOpen package file)
    (h : ∀ after, ManifestsApart fs after top → detect after package file = detect fs package file) :
    ∀ path ∈ asked fs package file, fs.StaysHome top path := by
  have hrow : ∀ path ∈ manifestsAsked fs (searched fs package file), fs.StaysHome top path := by
    by_contra hnot
    obtain ⟨location, hforeign, hdeclared⟩ := exists_foreign hnot
    -- at the first foreign manifest both kinds can be declared, so it cannot be told what is detected
    have hkind {bytes : List UInt8} {kind : ModuleKind} (hbytes : declared? bytes = some kind) :
        detect fs package file = .ok kind := by
      have hafter := FileSystem.manifestsApart_put hforeign bytes
      rw [← h _ hafter, detect_of_open hopen, searched_eq hafter.toFilesApart, hdeclared, hbytes]
      rfl
    have hesm := hkind declared_declaring.1
    rw [hkind declared_declaring.2] at hesm
    cases hesm
  rw [asked, List.forall_mem_append]
  refine ⟨hrow, ?_⟩
  rcases hfound : declaredAt fs (searched fs package file) with e | _ | kind
  · exact List.forall_mem_nil _
  · rw [List.forall_mem_singleton]
    intro p hplace hforeign
    -- the file itself is a package.json outside, and any words can be in it
    have hsniff (bytes : List UInt8) :
        detect fs package file = .ok (sniff (Text.unifyNewlines (Utf8.decodeReplacing bytes))) := by
      have hafter := FileSystem.manifestsApart_put hforeign bytes
      have hnone := declaredAt_congr fun path hpath => hafter.seenAlike (hrow path hpath)
      rw [← h _ hafter, detect_of_open hopen, searched_eq hafter.toFilesApart, hnone, hfound]
      exact contentKind_of_read (hforeign.read_put hplace bytes)
    obtain ⟨bytes, hbytes⟩ := exists_sniffed
    have hesm := hsniff bytes
    rw [hsniff [], hbytes] at hesm
    cases hesm
  · exact List.forall_mem_nil _

/-- Manifests outside do not matter exactly if no path that is asked for leads to where one may be. -/
theorem independent_iff (fs : FileSystem) (package : Path) (file : Text) (top : Location) :
    (∀ after, ManifestsApart fs after top → detect after package file = detect fs package file) ↔
      (LeavesOpen package file → ∀ path ∈ asked fs package file, fs.StaysHome top path) := by
  constructor
  · exact fun h hopen => staysHome_of_independent hopen h
  · intro h after hafter
    by_cases hopen : LeavesOpen package file
    · exact detect_congr hafter.realPath_eq fun path hpath => hafter.seenAlike (h hopen path hpath)
    · exact detect_of_not_open hopen fs after

/-! ### Packages without links -/

lemma mem_manifestsAsked (h : path ∈ manifestsAsked fs row) : ∃ location ∈ row, path = manifestAt location := by
  induction row with
  | nil => exact absurd h List.not_mem_nil
  | cons location row ih =>
    rw [manifestsAsked] at h
    rcases List.mem_cons.mp h with rfl | h
    · exact ⟨location, List.mem_cons_self, rfl⟩
    · split at h
      · obtain ⟨other, hother, rfl⟩ := ih h
        exact ⟨other, List.mem_cons_of_mem _ hother, rfl⟩
      · exact absurd h List.not_mem_nil

lemma mem_levels {names : Location} (h : location ∈ levels top (top ++ names)) :
    ∃ front, front <+: names ∧ location = top ++ front := by
  rw [levels_below] at h
  obtain ⟨n, hn, rfl⟩ := List.mem_map.mp h
  have hbound : n < names.length + 1 := List.mem_range.mp hn
  refine ⟨names.take (names.length - n), List.take_prefix _ _, ?_⟩
  rw [List.length_append, Nat.add_sub_assoc (Nat.le_of_lt_succ hbound), List.take_length_add_append]

/-- In a package without links, no file outside matters for a path that goes down. -/
theorem detect_below (hplain : fs.IsPlain package top) (hfile : IsDown (Relative.bare file))
    (h : FilesApart fs after top) : detect after package file = detect fs package file := by
  have hnames : ∀ name ∈ (Path.ofText (Relative.bare file)).segments, FileSystem.IsName name := by
    intro name hname
    obtain ⟨hne, hdot, hslash⟩ := Path.isClean_ofText (Relative.bare file) name hname
    exact ⟨hne, hdot, fun hup => Text.level_iff.mp hfile.2 (hup ▸ hname), hslash⟩
  have hpath := Path.joinText_eq package hfile.1.1
  have hsearched : searched fs package file =
      levels top (top ++ (Path.ofText (Relative.bare file)).segments.dropLast) := by
    rw [searched, hplain.realPath_eq, hpath, hplain.realPath_below hnames, List.dropLast_append_of_ne_nil hfile.1.2]
  refine detect_congr h.realPath_eq fun path hasked => ?_
  rw [asked, List.mem_append] at hasked
  rcases hasked with hmanifest | hcontent
  · obtain ⟨location, hlocation, rfl⟩ := mem_manifestsAsked hmanifest
    rw [hsearched] at hlocation
    obtain ⟨front, hfront, rfl⟩ := mem_levels hlocation
    have hproper : ∀ name ∈ front ++ [Package.manifestName], FileSystem.IsName name :=
      Package.isName_append (fun name hname => hnames name (List.dropLast_subset _ (hfront.subset hname)))
        FileSystem.isName_manifestName
    have hmanifest : manifestAt (top ++ front) =
        Path.text ⟨(FileSystem.pathTo top).anchor, (FileSystem.pathTo top).segments ++
          (front ++ [Package.manifestName])⟩ := by
      rw [manifestAt, Path.child, FileSystem.pathTo, FileSystem.pathTo, List.append_assoc]
    rw [hmanifest]
    exact h.seenAlike hplain.unlinked hplain.directory hplain.named hplain.leads
      (fun name hname => Path.isSegment_of_isName (hproper name hname))
      (FileSystem.stays_of_notMem (fun hup => (hproper _ hup).2.2.1 rfl) 0)
  · split at hcontent
    · rw [List.mem_singleton.mp hcontent, hpath]
      exact h.seenAlike hplain.unlinked hplain.directory hplain.clean hplain.found (Path.isClean_ofText _)
        hfile.isInside.2
    · exact absurd hcontent List.not_mem_nil

/-- A package of CommonJS modules with ES modules in a directory, in a directory with a package.json. -/
def nested : FileSystem :=
  ((((((FileSystem.empty.put ["pkg"] .directory).put ["pkg", "package.json"] (.file (declaring "commonjs"))).put
    ["pkg", "lib"] .directory).put ["pkg", "lib", "esm"] .directory).put
    ["pkg", "lib", "esm", "package.json"] (.file (declaring "module"))).put
    ["pkg", "lib", "esm", "index.js"] (.file [])).put ["package.json"] (.file (declaring "commonjs"))

lemma isTree_nested : nested.IsTree :=
  ((((((FileSystem.isTree_empty.put (by decide) (by decide) (by simp)).put (by decide) (by decide) (by simp)).put
    (by decide) (by decide) (by simp)).put (by decide) (by decide) (by simp)).put (by decide) (by decide)
    (by simp)).put (by decide) (by decide) (by simp)).put (by decide) (by decide) (by simp)

lemma isPlain_nested : nested.IsPlain (Path.ofText "pkg") ["pkg"] where
  clean := Path.isClean_ofText "pkg"
  found := ok_of_toOption (by decide +kernel)
  directory := by decide +kernel
  unlinked location target _ := isTree_nested.unlinked location target
  named := Path.isClean_ofText "/pkg"
  leads := ok_of_toOption (by decide +kernel)

/-- A package and a file beside it. -/
def besidePackage : FileSystem :=
  ((FileSystem.empty.put ["pkg"] .directory).put ["other"] .directory).put ["other", "x.js"] (.file [])

end ModuleKind

end PackageExports
