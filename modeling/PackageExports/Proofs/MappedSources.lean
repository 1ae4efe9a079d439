import PackageExports.Proofs.Confinement
import PackageExports.Proofs.DeclarationLookup

/-!
# Sources by mappings

A mapping takes the paths below its output directory to paths below its source directory: the extension is replaced by
one that compiles to it, or a directory without the extension is asked for an index file. The source of an output is one
by the first mapping that has any, and it is below the source directory of this mapping, unless the name of the output
is `..` without its extension: then the directory that is asked is the one above the source directory.

Main definitions: `SourceMapping.Compiles`, `SourceMapping.IsSource`.

Main results: `SourceMapping.IsSource.isBelow_iff`, `SourceInference.inferred_by_first_mapping`.
-/

namespace PackageExports

open FileSystem (IsName Stays)
open PackageExports.Path (IsSegment IsInside IsDown)
open Text (Level LevelFront)
open Relative (splitExtension)

/-! ### Paths that compile to a path -/

namespace SourceMapping

variable {fs : FileSystem} {package : Path} {m : SourceMapping} {relative rest file output : Text}

/-- The paths, as seen from a source directory, that compile to a path, as seen from the output directory. -/
inductive Compiles (relative : Text) : Text → Prop
  | direct {extension : Text} (hfamily : extension ∈ family (splitExtension relative).2) :
      Compiles relative ((splitExtension relative).1 ++ extension)
  | index {extension : Text} (hfamily : extension ∈ family (splitExtension relative).2)
      (hname : (splitExtension relative).1 ≠ "index") (hend : Text.endsWith (splitExtension relative).1 "/index" = false) :
      Compiles relative ((splitExtension relative).1 ++ "/index" ++ extension)

/-- By the mapping, a file of the package is a source of an output. -/
def IsSource (m : SourceMapping) (fs : FileSystem) (package : Path) (output file : Text) : Prop :=
  fs.isFile (package / file).text = true ∧
    ∃ relative rest, output = m.output ++ "/" ++ relative ∧ file = m.source ++ "/" ++ rest ∧ Compiles relative rest

/-- By the mapping, an output has a source. -/
def HasSource (m : SourceMapping) (fs : FileSystem) (package : Path) (output : Text) : Prop :=
  ∃ file, m.IsSource fs package output file

/-- A path that goes on from the source directory without leading out of it. -/
def IsBelow (m : SourceMapping) (file : Text) : Prop :=
  ∃ rest, file = m.source ++ "/" ++ rest ∧ IsInside rest

/-- The path of an index file beside the source directory, for an output whose name without extension is `..`. -/
def IsBeside (m : SourceMapping) (output file : Text) : Prop :=
  ∃ relative extension, output = m.output ++ "/" ++ relative ∧ (splitExtension relative).1 = ".." ∧
    file = m.source ++ "/" ++ ("../index" ++ extension)

lemma mem_candidates :
    file ∈ m.candidates relative ↔ ∃ rest, file = m.source ++ "/" ++ rest ∧ Compiles relative rest := by
  rw [candidates, List.mem_flatMap]
  constructor
  · rintro ⟨extension, hfamily, hmem⟩
    have hdirect : file = m.source ++ "/" ++ (splitExtension relative).1 ++ extension →
        ∃ rest, file = m.source ++ "/" ++ rest ∧ Compiles relative rest := by
      rintro rfl
      exact ⟨_, List.append_assoc _ _ _, .direct hfamily⟩
    dsimp only at hmem
    split_ifs at hmem with hindex
    · exact hdirect (List.mem_singleton.mp hmem)
    · rcases List.mem_pair.mp hmem with hfile | rfl
      · exact hdirect hfile
      · obtain ⟨hname, hend⟩ := not_or.mp hindex
        refine ⟨_, ?_, .index hfamily hname (Bool.eq_false_of_not_eq_true hend)⟩
        simp only [List.append_assoc]
  · rintro ⟨rest, rfl, hrest⟩
    cases hrest with
    | @direct extension hfamily =>
      refine ⟨extension, hfamily, ?_⟩
      rw [← List.append_assoc]
      dsimp only
      split_ifs <;> exact List.mem_cons_self
    | @index extension hfamily hname hend =>
      refine ⟨extension, hfamily, ?_⟩
      dsimp only
      rw [if_neg (by simp [hname, hend])]
      simp only [List.append_assoc, List.mem_cons, or_true, true_or]

lemma sourceOf?_eq_some {source : Text} (h : m.sourceOf? fs package output = some source) :
    ∃ file, source = Relative.dotted file ∧ m.IsSource fs package output file := by
  unfold sourceOf? at h
  split at h
  · rename_i relative hdrop
    obtain ⟨file, hfound, rfl⟩ := Option.map_eq_some_iff.mp h
    obtain ⟨rest, hfile, hrest⟩ := mem_candidates.mp (List.mem_of_find?_eq_some hfound)
    exact ⟨file, rfl, List.find?_some (p := fun path : Text => fs.isFile (package / path).text) hfound, relative, rest,
      Text.dropStart?_eq_some.mp hdrop, hfile, hrest⟩
  · cases h

lemma sourceOf?_eq_none (h : m.sourceOf? fs package output = none) : ¬m.HasSource fs package output := by
  rintro ⟨file, hexists, relative, rest, houtput, hfile, hrest⟩
  rw [sourceOf?, Text.dropStart?_eq_some.mpr houtput, Option.map_eq_none_iff, List.find?_eq_none] at h
  exact h file (mem_candidates.mpr ⟨rest, hfile, hrest⟩) hexists

/-! ### Sources below the source directory -/

lemma mem_family {extension other : Text} (h : extension ∈ family other) : extension = other ∨ IsName extension := by
  unfold family at h
  split_ifs at h
  all_goals first
    | exact .inl (List.mem_singleton.mp h)
    | exact .inr ((by decide : ∀ extension ∈ _, IsName extension) extension h)

lemma not_isInside_up (rest : Text) : ¬IsInside (".." ++ "/" ++ rest) := by
  rintro ⟨-, hstays⟩
  rw [Path.segments_slash] at hstays
  exact absurd (FileSystem.stays_up.mp hstays).1 (Nat.lt_irrefl 0)

section Names

variable (hnames : ∀ name ∈ Text.splitOn '/' relative, IsName name)

include hnames

lemma isDown_relative : IsDown relative :=
  ⟨EntryRequest.isInner_of_names hnames, fun hup => (hnames _ hup).2.2.1 rfl⟩

lemma isInside_direct {extension : Text} (hfamily : extension ∈ family (splitExtension relative).2) :
    IsInside ((splitExtension relative).1 ++ extension) := by
  have hdown := isDown_relative hnames
  have hstem := Relative.prefix_splitExtension relative
  rcases mem_family hfamily with rfl | hname
  · rw [(Relative.splitExtension_spec relative).1]
    exact hdown.isInside
  · exact (Path.isDown_append (Path.anchor_of_start hstem hdown.1.1)
      (Text.levelFront_of_start hstem hdown.2.levelFront) hname).isInside

lemma base_ne_nil : (splitExtension relative).1 ≠ [] := by
  intro hempty
  obtain ⟨hwhole, hslash⟩ := Relative.splitExtension_spec relative
  rw [hempty, List.nil_append] at hwhole
  rw [hwhole] at hslash
  refine Relative.splitExtension_ne_nil ?_ hslash hempty
  rintro rfl
  exact (hnames [] List.mem_cons_self).1 rfl

lemma exists_base_row :
    ∃ front last, Text.splitOn '/' (splitExtension relative).1 = front ++ [last] ∧ ∀ piece ∈ front, IsName piece := by
  obtain ⟨after, hafter⟩ := Relative.prefix_splitExtension relative
  obtain ⟨front, last, hrow, -⟩ := Text.exists_splitOn (splitExtension relative).1
  obtain ⟨first, more, -, hwhole⟩ := Text.splitOn_append_text hrow after
  rw [hafter] at hwhole
  exact ⟨front, last, hrow, fun piece hpiece => hnames piece (hwhole ▸ List.mem_append_left _ hpiece)⟩

/-- A base that leads up leaves a directory that is below, unless there is nothing in front of what leads up. -/
lemma stays_index {name : Text} (hname : IsName name) (hbase : (splitExtension relative).1 ≠ "..") :
    Stays 0 ((Path.ofText (splitExtension relative).1).segments ++ [name]) := by
  obtain ⟨front, last, hrow, hfront⟩ := exists_base_row hnames
  have hlevel : Text.ofString ".." ∉ front := fun hup => (hfront _ hup).2.2.1 rfl
  have hlast : Text.ofString ".." ∉ [name] := by simpa using Ne.symm hname.2.2.1
  -- only the piece of which the extension was cut may have become `..`
  by_cases hup : last = ".."
  · have hpieces : ∀ piece ∈ front ++ [last], IsSegment piece := by
      refine List.forall_mem_append.mpr ⟨fun piece hpiece => Path.isSegment_of_isName (hfront piece hpiece), ?_⟩
      rw [hup]
      decide
    have hsegments : (Path.ofText (splitExtension relative).1).segments = front ++ [Text.ofString ".."] := by
      rw [Path.ofText, hrow, Path.filter_segments hpieces, hup]
    have hdepth : 0 < front.length := by
      refine List.length_pos_of_ne_nil fun hnil => hbase ?_
      rw [← Text.joinWith_splitOn (splitExtension relative).1, hrow, hnil, hup]
      rfl
    rw [hsegments, List.append_assoc, FileSystem.stays_append hlevel, Nat.zero_add]
    exact FileSystem.stays_up.mpr ⟨hdepth, FileSystem.stays_of_notMem hlast _⟩
  · have hbelow : Level (splitExtension relative).1 := by
      rw [Level, hrow, List.mem_append, not_or]
      exact ⟨hlevel, by simpa using Ne.symm hup⟩
    refine FileSystem.stays_of_notMem ?_ 0
    rw [List.mem_append, not_or]
    exact ⟨Text.level_iff.mp hbelow, hlast⟩

/-- An index file is below unless the directory that is asked for it is above. -/
lemma isInside_index {name : Text} (hname : IsName name) (hbase : (splitExtension relative).1 ≠ "..") :
    IsInside ((splitExtension relative).1 ++ "/" ++ name) := by
  have hanchor := Path.anchor_of_start (Relative.prefix_splitExtension relative) (isDown_relative hnames).1.1
  have hsegments : (Path.ofText ((splitExtension relative).1 ++ "/" ++ name)).segments =
      (Path.ofText (splitExtension relative).1).segments ++ [name] := by
    rw [Path.segments_slash, Path.ofText_of_isSegment (Path.isSegment_of_isName hname)]
  refine ⟨⟨Path.anchor_slash (base_ne_nil hnames) hanchor name, ?_⟩, ?_⟩ <;> rw [hsegments]
  · exact List.append_ne_nil_of_right_ne_nil _ (List.cons_ne_nil _ _)
  · exact stays_index hnames hname hbase

end Names

/-- All sources of a proper path are below the source directory, but for an index file beside it. -/
lemma IsSource.isBelow_iff {target : Text} (htarget : Relative.IsProper target)
    (h : m.IsSource fs package (Relative.bare target) file) :
    m.IsBelow file ↔ ¬m.IsBeside (Relative.bare target) file := by
  obtain ⟨-, relative, rest, houtput, rfl, hrest⟩ := h
  have hnames : ∀ name ∈ Text.splitOn '/' relative, IsName name := by
    intro name hname
    refine htarget name ?_
    rw [houtput, Text.splitOn_slash]
    exact List.mem_append_right _ hname
  constructor
  · -- both ways to write the file go on alike after the source directory
    rintro ⟨below, hbelow, hinside⟩ ⟨-, extension, -, -, hup⟩
    obtain rfl := List.append_cancel_left hbelow
    obtain rfl := List.append_cancel_left hup
    exact not_isInside_up ("index" ++ extension) hinside
  · intro hup
    refine ⟨rest, rfl, ?_⟩
    cases hrest with
    | direct hfamily => exact isInside_direct hnames hfamily
    | @index extension hfamily hname hend =>
      have hslash : CodePoint.ofChar '/' ∉ extension := by
        rcases mem_family hfamily with rfl | hextension
        · exact (Relative.splitExtension_spec relative).2
        · exact hextension.2.2.2
      have hindex : IsName ("index" ++ extension) := FileSystem.IsName.append (by decide) hslash
      have hinside := isInside_index hnames hindex fun hbase =>
        hup ⟨relative, extension, houtput, hbase, by rw [hbase]; rfl⟩
      rw [List.append_assoc] at hinside ⊢
      exact hinside

end SourceMapping

/-! ### The first mapping that has a source -/

namespace SourceInference

open SourceMapping

variable {fs : FileSystem} {package : Path} {target : Text} {custom : List SourceMapping} {found : SourceInference}

lemma dotted_file {directory : Text} (h : ∀ segment ∈ Text.splitOn '/' directory, IsSegment segment) (rest : Text) :
    Relative.dotted (directory ++ "/" ++ rest) = "./" ++ (directory ++ "/" ++ rest) := by
  have hbare := Relative.bare_of_splitOn h
  rw [Relative.dotted_eq, Relative.bare_slash (hbare.symm ▸ EntryRequest.isInner_of_segments h), hbare]

lemma infer_eq_ok (h : infer fs package target custom = .ok found) :
    fs.check (package / Relative.bare target).text none = .ok found.targetExists ∧
      (found.source = none ∧ (found.targetExists = false →
          ∀ m ∈ custom ++ conventional, m.sourceOf? fs package (Relative.bare target) = none) ∨
        found.targetExists = false ∧ ∃ before m after, custom ++ conventional = before ++ m :: after ∧
          found.mapping = some m ∧ (m.sourceOf? fs package (Relative.bare target)).isSome ∧
          found.source = m.sourceOf? fs package (Relative.bare target) ∧
          ∀ earlier ∈ before, earlier.sourceOf? fs package (Relative.bare target) = none) := by
  unfold infer at h
  dsimp only at h
  cases hcheck : fs.check (package / Relative.bare target).text none with
  | error cause =>
    rw [hcheck] at h
    cases h
  | ok there =>
    rw [hcheck] at h
    cases there with
    | true =>
      obtain rfl := Except.ok.inj h
      exact ⟨rfl, .inl ⟨rfl, fun hthere => nomatch hthere⟩⟩
    | false =>
      change Except.bind (.ok false) _ = _ at h
      simp only [Except.bind, Bool.false_eq_true, if_false] at h
      split at h
      · rename_i source m hfirst
        obtain rfl := Except.ok.inj h
        obtain ⟨before, first, after, hsplit, hmap, hbefore⟩ := List.findSome?_eq_some_iff.mp hfirst
        obtain ⟨source, hsource, heq⟩ := Option.map_eq_some_iff.mp hmap
        obtain ⟨rfl, rfl⟩ := Prod.mk.inj heq
        exact ⟨rfl, .inr ⟨rfl, before, first, after, hsplit, rfl, by rw [hsource]; rfl, hsource.symm,
          fun earlier hearlier => Option.map_eq_none_iff.mp (hbefore earlier hearlier)⟩⟩
      · rename_i hfirst
        obtain rfl := Except.ok.inj h
        exact ⟨rfl, .inl ⟨rfl, fun _ m hm => Option.map_eq_none_iff.mp (List.findSome?_eq_none_iff.mp hfirst m hm)⟩⟩

/-- The source that is reported for an output that does not exist is a file from which it is compiled, by the first of
all mappings that has any such file; if no source is reported, no mapping has one. The source is below the source
directory of its mapping, unless it is an index file beside it. -/
theorem inferred_by_first_mapping
    (hcustom : ∀ m ∈ custom, ∀ segment ∈ Text.splitOn '/' m.source, IsSegment segment)
    (hinfer : infer fs package target custom = .ok found) :
    fs.check (package / Relative.bare target).text none = .ok found.targetExists ∧
    (∀ source, found.source = some source →
      found.targetExists = false ∧
      ∃ before m after file, custom ++ conventional = before ++ m :: after ∧ found.mapping = some m ∧
        source = "./" ++ file ∧ m.IsSource fs package (Relative.bare target) file ∧
        (∀ earlier ∈ before, ¬earlier.HasSource fs package (Relative.bare target)) ∧
        (Relative.IsProper target → (m.IsBelow file ↔ ¬m.IsBeside (Relative.bare target) file))) ∧
    (found.source = none → found.targetExists = false →
      ∀ m ∈ custom ++ conventional, ¬m.HasSource fs package (Relative.bare target)) := by
  obtain ⟨hcheck, ⟨hnone, hall⟩ | ⟨hmissing, before, m, after, hsplit, hmapping, hsome, hfound, hbefore⟩⟩ :=
    infer_eq_ok hinfer
  · refine ⟨hcheck, fun source hsource => ?_, fun _ hmissing m hm => sourceOf?_eq_none (hall hmissing m hm)⟩
    rw [hnone] at hsource
    cases hsource
  · refine ⟨hcheck, fun source hsource => ⟨hmissing, ?_⟩, fun hnone => ?_⟩
    · obtain ⟨file, rfl, hfile⟩ := sourceOf?_eq_some (hfound.symm.trans hsource)
      have hsources : ∀ m ∈ custom ++ conventional, ∀ segment ∈ Text.splitOn '/' m.source, IsSegment segment :=
        List.forall_mem_append.mpr ⟨hcustom, by decide⟩
      have hm : m ∈ custom ++ conventional := hsplit ▸ List.mem_append_right _ List.mem_cons_self
      refine ⟨before, m, after, file, hsplit, hmapping, ?_, hfile,
        fun earlier hearlier => sourceOf?_eq_none (hbefore earlier hearlier), fun htarget => hfile.isBelow_iff htarget⟩
      obtain ⟨-, relative, rest, -, rfl, -⟩ := hfile
      exact dotted_file (hsources m hm) rest
    · rw [← hfound, hnone] at hsome
      cases hsome

/-- An index file for a button in a directory of its own mapping, and a source for it by a conventional mapping. -/
def buttonFiles : FileSystem :=
  ((((FileSystem.empty.put ["app"] .directory).put ["app", "button"] .directory).put
    ["app", "button", "index.tsx"] (.file [])).put ["src"] .directory).put ["src", "button.ts"] (.file [])

theorem inferred_by_first_mapping_button :
    ∃ found, infer buttonFiles (Path.ofText ".") "./lib/button.js" [⟨"app", "lib", true⟩] = .ok found ∧
      found.source = some "./app/button/index.tsx" ∧ Relative.IsProper "./lib/button.js" ∧
      ∃ m, found.mapping = some m ∧ m.IsSource buttonFiles (Path.ofText ".") "lib/button.js" "app/button/index.tsx" ∧
        m.IsBelow "app/button/index.tsx" := by
  have hinfer : infer buttonFiles (Path.ofText ".") "./lib/button.js" [⟨"app", "lib", true⟩] =
      .ok {
        targetExists := false
        source := some "./app/button/index.tsx"
        mapping := some ⟨"app", "lib", true⟩
        suggestedOutput := some "./lib/button.js" } := by decide +kernel
  have htarget : Relative.IsProper "./lib/button.js" := by decide
  obtain ⟨-, hreported, -⟩ := inferred_by_first_mapping (by decide) hinfer
  obtain ⟨-, before, m, after, file, -, hmapping, hsource, hfile, -, hbelow⟩ := hreported _ rfl
  have hwhole : Text.ofString "./" ++ Text.ofString "app/button/index.tsx" = Text.ofString "./" ++ file := hsource
  obtain rfl := List.append_cancel_left hwhole
  refine ⟨_, hinfer, rfl, htarget, m, hmapping, hfile, (hbelow htarget).mpr ?_⟩
  rintro ⟨relative, extension, -, -, hup⟩
  obtain rfl := Option.some.inj hmapping
  have hstart : Text.startsWith "app/button/index.tsx" "app/../" = true := by
    rw [hup]
    exact List.isPrefixOf_iff_prefix.mpr ⟨"index" ++ extension, rfl⟩
  exact absurd hstart (by decide)

/-- The index file beside the source directory is taken for a source below it. -/
theorem beside_source_directory :
    Relative.IsProper "./lib/...js" ∧
      infer ((((FileSystem.empty.put ["src"] .directory).put ["src", "a.ts"] (.file []))).put ["index.ts"] (.file []))
          (Path.ofText ".") "./lib/...js" [] =
        .ok {
          targetExists := false
          source := some "./src/../index.ts"
          mapping := some ⟨"src", "lib", true⟩
          suggestedOutput := some "./lib/...js" } ∧
      ¬IsBelow ⟨"src", "lib", true⟩ "src/../index.ts" := by
  refine ⟨by decide, by decide +kernel, ?_⟩
  rintro ⟨rest, hfile, hinside⟩
  have hwhole : Text.ofString "src/" ++ Text.ofString "../index.ts" = Text.ofString "src/" ++ rest := hfile
  obtain rfl := List.append_cancel_left hwhole
  exact not_isInside_up "index.ts" hinside

end SourceInference

end PackageExports
