import PackageExports.Proofs.Searches

/-!
# Names of what is found

A search looks for the last name of a path without what stands after its last point. What it finds has this stem as its
name, with an extension after it, or is an index file in a directory with this name. So a name with a point in it is lost,
whether or not an extension stands after the point.

Main result: `SearchPlan.found_under_stem`.
-/

namespace PackageExports

open PackageExports.Path (IsSegment IsClean)

lemma Written.append_stem {name : Text} (rest : Text) (hslash : CodePoint.ofChar '/' ∉ name) :
    (splitName name).1 ++ rest = name ++ rest ↔ (splitName name).2 = [] := by
  rw [List.append_left_inj]
  refine ⟨fun hown => ?_, splitName_of_nil⟩
  by_contra hsuffix
  have hwhole := (stem_spec hsuffix hslash).2.1
  rw [hown] at hwhole
  exact hsuffix (List.append_right_eq_self.mp hwhole.symm)

namespace SearchPlan

variable {plan : SearchPlan} {fs : FileSystem} {package top : Path} {name directory target last : Text}
  {directories : List Text} {found : Discovery}

lemma name_div_join (package : Path) (path : Text) {segment : Text} (h : IsSegment segment) :
    (package / Written.join path segment).name = segment := by
  apply Path.name_of_getLast?
  apply Path.getLast?_div
  rw [Written.segments_join (by rw [Path.ofText_of_isSegment h]), Path.ofText_of_isSegment h, List.getLast?_concat]

/-- What a search for a name finds is called so. -/
lemma Outcome.name_eq (hpackage : package.IsClean)
    (hextensions : ∀ extension ∈ plan.extensions, CodePoint.ofChar '/' ∉ extension) (hname : IsSegment name)
    (h : Outcome plan fs package directory name directories found) :
    (found.kind = .byExtension → ∃ file extension, found.file = some file ∧ found.extension = some extension ∧
      (package / file).name = name ++ extension) ∧
    (found.kind = .byIndex → ∃ file, found.file = some file ∧ (package / file).parent.name = name) := by
  cases h with
  | nowhere => exact ⟨(nomatch ·), (nomatch ·)⟩
  | byExtension _ _ _ hextension =>
    have hslash := hextensions _ (List.mem_of_find?_eq_some hextension)
    exact ⟨fun _ => ⟨_, _, rfl, rfl, name_div_join package _ (hname.append hslash)⟩, (nomatch ·)⟩
  | @byIndex _ _ _ searched extension _ _ _ _ _ _ htop hextension hseen =>
    subst htop
    refine ⟨(nomatch ·), fun _ => ⟨_, rfl, ?_⟩⟩
    have hclean := Path.isClean_div hpackage (Written.join (plan.searchPath searched directory) name)
    have hslash := hextensions _ (mem_of_indexExtension? hextension)
    rw [Path.div_of_seenFrom (Path.isClean_div hclean _) hseen, Path.div_index _ hslash, Path.parent, List.dropLast_concat]
    exact name_div_join package _ hname

/-- What is found by extension has the stem of the last name of the path, and its extension, as its name; what is found by
index is in a directory with this stem as its name. These are the last name itself if and only if it has no suffix. -/
theorem found_under_stem (hpackage : package.IsClean)
    (hextensions : ∀ extension ∈ plan.extensions, CodePoint.ofChar '/' ∉ extension)
    (hlast : (Written.split (Relative.bare target)).2 = last) (hsegment : IsSegment last)
    (h : plan.discover fs package target = .ok found) :
    (found.kind = .byExtension → ∃ file extension, found.file = some file ∧ found.extension = some extension ∧
      (package / file).name = (Written.splitName last).1 ++ extension ∧
      ((package / file).name = last ++ extension ↔ (Written.splitName last).2 = [])) ∧
    (found.kind = .byIndex → ∃ file, found.file = some file ∧
      (package / file).parent.name = (Written.splitName last).1 ∧
      ((package / file).parent.name = last ↔ (Written.splitName last).2 = [])) := by
  by_cases hexact : IsExact fs package target
  · rw [discover_of_isExact hexact] at h
    obtain rfl := Except.ok.inj h
    exact ⟨(nomatch ·), (nomatch ·)⟩
  rw [discover_of_not_isExact hexact, hlast] at h
  obtain ⟨hbyExtension, hbyIndex⟩ :=
    (outcome_of_search hpackage h).name_eq hpackage hextensions (Written.isSegment_stem hsegment)
  constructor
  · intro hkind
    obtain ⟨file, extension, hfile, hfound, hname⟩ := hbyExtension hkind
    exact ⟨file, extension, hfile, hfound, hname, by rw [hname, Written.append_stem _ hsegment.2.2]⟩
  · intro hkind
    obtain ⟨file, hfile, hname⟩ := hbyIndex hkind
    have hstem := Written.append_stem [] hsegment.2.2
    rw [List.append_nil, List.append_nil] at hstem
    exact ⟨file, hfile, hname, by rw [hname, hstem]⟩

/-- A package with a script of which there is no minified one. -/
def packageWithJquery : FileSystem :=
  (FileSystem.empty.put ["lib"] .directory).put ["lib", "jquery.js"] (.file [])

/-- A path without a suffix finds the script of its name. -/
theorem found_under_stem_jquery : ∃ found file extension,
    modules.discover packageWithJquery (Path.ofText ".") "./jquery" = .ok found ∧ found.file = some file ∧
      found.extension = some extension ∧ (Path.ofText "." / file).name = Text.ofString "jquery" ++ extension := by
  have hkind : ((modules.discover packageWithJquery (Path.ofText ".") "./jquery").toOption.map Discovery.kind) =
      some .byExtension := by decide +kernel
  obtain ⟨found, hfound, hkind⟩ := Option.map_eq_some_iff.mp hkind
  have hfound := ok_of_toOption hfound
  have hlast : (Written.split (Relative.bare (Text.ofString "./jquery"))).2 = Text.ofString "jquery" := by decide
  obtain ⟨file, extension, hfile, hextension, -, hname⟩ :=
    (found_under_stem (Path.isClean_ofText ".") (by decide) hlast (by decide) hfound).1 hkind
  exact ⟨found, file, extension, hfound, hfile, hextension, hname.mpr (by decide)⟩

/-- The script is also found for the minified name, which ends in no extension that is looked for. -/
theorem minified_finds_jquery : (∀ extension ∈ modules.extensions, ¬extension <:+ Text.ofString "./jquery.min") ∧
    ∃ found, modules.discover packageWithJquery (Path.ofText ".") "./jquery.min" = .ok found ∧
      found.kind = .byExtension ∧ found.file = some "lib/jquery.js" ∧ found.extension = some ".js" ∧
      (Path.ofText "." / Text.ofString "lib/jquery.js").name ≠ Text.ofString "jquery.min.js" := by
  refine ⟨by decide, ?_⟩
  have hall : ((modules.discover packageWithJquery (Path.ofText ".") "./jquery.min").toOption.map fun found =>
      (found.kind, found.file, found.extension)) =
      some (DiscoveryKind.byExtension, some (Text.ofString "lib/jquery.js"), some (Text.ofString ".js")) := by
    decide +kernel
  obtain ⟨found, hfound, hparts⟩ := Option.map_eq_some_iff.mp hall
  obtain ⟨hkind, hrest⟩ := Prod.mk.inj hparts
  obtain ⟨hfile, hextension⟩ := Prod.mk.inj hrest
  exact ⟨found, ok_of_toOption hfound, hkind, hfile, hextension, by decide +kernel⟩

end SearchPlan

end PackageExports
