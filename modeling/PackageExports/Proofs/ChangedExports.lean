import PackageExports.Proofs.PackageUpdate
import PackageExports.Proofs.SavedUsage

/-!
# Writing changed exports

Two values have one text on a line only if they are the same, so comparing the texts of exports compares the exports
themselves with the order of their members and the kinds of their numbers. A manifest is written if and only if its exports
change, and what was written is taken for unchanged by the next attempt.

Main results: `Json.compact_injective`, `Json.isScalar_prettyAt`, `Exports.written_on_change`.
-/

namespace PackageExports

namespace Json

open Token (EndsWord scanFrom? scanFrom?_silent isWordPart scan_mark scan_prettyAt scan_quote scan_colon isWord_ofInt
  comma openArray closeArray openObject closeObject)

/-! ### Values on one line -/

lemma scan_comma (rest : Text) :
    scanFrom? .between (Text.ofString ", " ++ rest) = (scanFrom? .between rest).map (comma :: ·) := by
  have hspace : scanFrom? .between (CodePoint.ofChar ' ' :: rest) = scanFrom? .between rest :=
    scanFrom?_silent (s := .between) (n := .between) rfl rest
  rw [← hspace]
  exact scan_mark "," ',' comma rfl rfl _

lemma endsWord_mark {mark : String} {c : CodePoint} {others : Text} (hmark : Text.ofString mark = c :: others)
    (hc : isWordPart c = false) (rest : Text) : EndsWord (Text.ofString mark ++ rest) := by
  intro d hd
  rw [hmark] at hd
  exact Option.some.inj hd ▸ hc

lemma endsWord_compactItems (items : List Json) {rest : Text} (hrest : EndsWord rest) :
    EndsWord (compactItems items ++ rest) := by
  cases items with
  | nil => exact hrest
  | cons item items =>
    rw [compactItems, List.append_assoc, List.append_assoc]
    exact endsWord_mark rfl (by decide) _

lemma endsWord_compactMembers (members : List (Text × Json)) {rest : Text} (hrest : EndsWord rest) :
    EndsWord (compactMembers members ++ rest) := by
  cases members with
  | nil => exact hrest
  | cons member members =>
    rw [compactMembers, List.append_assoc, List.append_assoc]
    exact endsWord_mark rfl (by decide) _

mutual

/-- The text of a value on one line is scanned as its tokens. -/
theorem scan_compact (value : Json) (hvalue : value.Kept) (rest : Text) (hrest : EndsWord rest) :
    scanFrom? .between (compact value ++ rest) = (scanFrom? .between rest).map (tokens value ++ ·) := by
  match value with
  -- values without items have one text
  | .null | .bool _ | .integer _ | .real _ | .string _ | .array [] | .object [] =>
    exact scan_prettyAt 0 _ hvalue rest hrest
  | .array (item :: items) =>
    have hend : EndsWord (Text.ofString "]" ++ rest) := endsWord_mark rfl (by decide) _
    have hopen (others : Text) : CodePoint.ofChar '[' :: others = Text.ofString "[" ++ others := rfl
    rw [Kept, KeptItems] at hvalue
    simp only [compact, List.cons_append, List.append_assoc]
    rw [hopen, scan_mark "[" '[' openArray rfl rfl, scan_compact item hvalue.1 _ (endsWord_compactItems _ hend),
      scan_compactItems items hvalue.2 _ hend, scan_mark "]" ']' closeArray rfl rfl]
    simp [tokens, Option.map_map, Function.comp_def]
  | .object (member :: members) =>
    have hend : EndsWord (Text.ofString "\x7d" ++ rest) := endsWord_mark rfl (by decide) _
    rw [Kept, KeptMembers] at hvalue
    simp only [compact, List.append_assoc]
    rw [scan_mark "\x7b" '{' openObject rfl rfl,
      scan_compactMember member hvalue.2.1 _ (endsWord_compactMembers _ hend),
      scan_compactMembers members hvalue.2.2 _ hend, scan_mark "\x7d" '}' closeObject rfl rfl]
    simp [tokens, Option.map_map, Function.comp_def]
termination_by structural value

theorem scan_compactItems (items : List Json) (hitems : KeptItems items) (rest : Text) (hrest : EndsWord rest) :
    scanFrom? .between (compactItems items ++ rest) = (scanFrom? .between rest).map (tokensOfItems items ++ ·) := by
  match items with
  | [] => exact Option.map_id'.symm
  | item :: items =>
    rw [KeptItems] at hitems
    simp only [compactItems, List.append_assoc]
    rw [scan_comma, scan_compact item hitems.1 _ (endsWord_compactItems _ hrest),
      scan_compactItems items hitems.2 _ hrest]
    simp [tokensOfItems, Option.map_map, Function.comp_def]
termination_by structural items

theorem scan_compactMembers (members : List (Text × Json)) (hmembers : KeptMembers members) (rest : Text)
    (hrest : EndsWord rest) :
    scanFrom? .between (compactMembers members ++ rest) =
      (scanFrom? .between rest).map (tokensOfMembers members ++ ·) := by
  match members with
  | [] => exact Option.map_id'.symm
  | member :: members =>
    rw [KeptMembers] at hmembers
    simp only [compactMembers, List.append_assoc]
    rw [scan_comma, scan_compactMember member hmembers.1 _ (endsWord_compactMembers _ hrest),
      scan_compactMembers members hmembers.2 _ hrest]
    simp [tokensOfMembers, Option.map_map, Function.comp_def]
termination_by structural members

theorem scan_compactMember (member : Text × Json) (hmember : KeptMember member) (rest : Text)
    (hrest : EndsWord rest) :
    scanFrom? .between (compactMember member ++ rest) = (scanFrom? .between rest).map (tokensOfMember member ++ ·) := by
  match member with
  | (key, value) =>
    rw [KeptMember] at hmember
    simp only [compactMember, List.append_assoc]
    rw [scan_quote, scan_colon, scan_compact value hmember _ hrest]
    simp [tokensOfMember, Option.map_map, Function.comp_def]
termination_by structural member

end

theorem parse_compact {value : Json} (hvalue : value.Kept) : parse value.compact = .ok value := by
  refine parse_of_scan hvalue ?_
  have h := scan_compact value hvalue [] nofun
  rw [List.append_nil, show scanFrom? .between [] = some [] from rfl, Option.map_some, List.append_nil] at h
  exact h

theorem compact_injective {a b : Json} (ha : a.Kept) (hb : b.Kept) (h : a.compact = b.compact) : a = b := by
  have hread := parse_compact ha
  rw [h, parse_compact hb] at hread
  exact (Except.ok.inj hread).symm

/-! ### Values without lone surrogates -/

/-- All strings in a value, and all names, are without lone surrogates. -/
def HasScalars (value : Json) : Prop :=
  ∀ t, Token.scalar (.string t) ∈ tokens value → Text.IsScalar t

lemma mem_tokens_array {items : List Json} {t : Text} :
    Token.scalar (.string t) ∈ tokens (.array items) ↔ ∃ item ∈ items, Token.scalar (.string t) ∈ tokens item := by
  have hrest (items : List Json) : Token.scalar (.string t) ∈ tokensOfItems items ↔
      ∃ item ∈ items, Token.scalar (.string t) ∈ tokens item := by
    induction items with
    | nil => simp [tokensOfItems]
    | cons item items ih => simp [tokensOfItems, ih]
  cases items with
  | nil => simp [tokens]
  | cons item items => simp [tokens, hrest]

lemma mem_tokens_object {members : Members} {t : Text} :
    Token.scalar (.string t) ∈ tokens (.object members) ↔
      ∃ member ∈ members, t = member.1 ∨ Token.scalar (.string t) ∈ tokens member.2 := by
  have hmember (member : Text × Json) : Token.scalar (.string t) ∈ tokensOfMember member ↔
      t = member.1 ∨ Token.scalar (.string t) ∈ tokens member.2 := by
    cases member
    simp [tokensOfMember]
  have hrest (members : Members) : Token.scalar (.string t) ∈ tokensOfMembers members ↔
      ∃ member ∈ members, t = member.1 ∨ Token.scalar (.string t) ∈ tokens member.2 := by
    induction members with
    | nil => simp [tokensOfMembers]
    | cons member members ih => simp [tokensOfMembers, hmember member, ih]
  cases members with
  | nil => simp [tokens]
  | cons member members => simp [tokens, hmember member, hrest]

lemma hasScalars_array {items : List Json} : (array items).HasScalars ↔ ∀ item ∈ items, item.HasScalars := by
  simp only [HasScalars, mem_tokens_array]
  exact ⟨fun h item hitem t ht => h t ⟨item, hitem, ht⟩, fun h t ⟨item, hitem, ht⟩ => h item hitem t ht⟩

lemma hasScalars_object {members : Members} :
    (object members).HasScalars ↔ ∀ member ∈ members, member.1.IsScalar ∧ member.2.HasScalars := by
  simp only [HasScalars, mem_tokens_object]
  constructor
  · exact fun h member hmember => ⟨h _ ⟨member, hmember, .inl rfl⟩, fun t ht => h t ⟨member, hmember, .inr ht⟩⟩
  · rintro h t ⟨member, hmember, rfl | ht⟩
    · exact (h member hmember).1
    · exact (h member hmember).2 t ht

lemma HasScalars.insert {members : Members} {value : Json} {key : Text} (hmembers : (object members).HasScalars)
    (hkey : key.IsScalar) (hvalue : value.HasScalars) : (object (Keyed.insert key value members)).HasScalars := by
  rw [hasScalars_object] at hmembers ⊢
  intro member hmember
  rcases Keyed.mem_insert hmember with rfl | hmember
  · exact ⟨hkey, hvalue⟩
  · exact hmembers member hmember

lemma isScalar_of_isWord {t : Text} (h : Token.IsWord t) : t.IsScalar := by
  refine Text.isScalar_of_small fun c hc => ?_
  have hpart := h.parts c hc
  obtain ⟨n⟩ := c
  change n < 0x80
  simp only [isWordPart, CodePoint.isLetter, CodePoint.isLower, CodePoint.isUpper, CodePoint.isDigit, Bool.or_eq_true,
    Bool.and_eq_true, decide_eq_true_eq, beq_iff_eq, CodePoint.ofChar, CodePoint.mk.injEq, Char.reduceToNat] at hpart
  omega

mutual

/-- A value without lone surrogates is printed without them. -/
theorem isScalar_prettyAt (value : Json) (hvalue : value.Kept) (hscalars : value.HasScalars) (level : ℕ) :
    Text.IsScalar (prettyAt level value) := by
  match value with
  | .null => exact isScalar_of_isWord (t := scalarText .null) ⟨by decide, by decide⟩
  | .bool b =>
    refine isScalar_of_isWord (t := scalarText (.bool b)) ?_
    cases b <;> exact ⟨by decide, by decide⟩
  | .integer n => exact isScalar_of_isWord (isWord_ofInt n)
  | .real x => exact isScalar_of_isWord (Binary64.isWord_numberText hvalue)
  | .string t => exact isScalar_quote (hscalars t List.mem_cons_self)
  | .array items =>
    rw [Kept] at hvalue
    exact isScalar_prettyArray fun item hitem =>
      isScalar_items items hvalue (hasScalars_array.mp hscalars) (level + 1) item hitem
  | .object members =>
    rw [Kept] at hvalue
    have hparts := hasScalars_object.mp hscalars
    exact isScalar_prettyObject fun member hmember =>
      ⟨(hparts member hmember).1, isScalar_members members hvalue.2 hparts (level + 1) member hmember⟩
termination_by structural value

theorem isScalar_items (items : List Json) (hitems : KeptItems items) (hscalars : ∀ item ∈ items, item.HasScalars)
    (level : ℕ) : ∀ item ∈ items, Text.IsScalar (prettyAt level item) := by
  match items with
  | [] => exact fun item hitem => absurd hitem List.not_mem_nil
  | item :: items =>
    rw [KeptItems] at hitems
    obtain ⟨hitem, hrest⟩ := List.forall_mem_cons.mp hscalars
    exact List.forall_mem_cons.mpr
      ⟨isScalar_prettyAt item hitems.1 hitem level, isScalar_items items hitems.2 hrest level⟩
termination_by structural items

theorem isScalar_members (members : List (Text × Json)) (hmembers : KeptMembers members)
    (hscalars : ∀ member ∈ members, member.1.IsScalar ∧ member.2.HasScalars) (level : ℕ) :
    ∀ member ∈ members, Text.IsScalar (prettyAt level member.2) := by
  match members with
  | [] => exact fun member hmember => absurd hmember List.not_mem_nil
  | member :: members =>
    rw [KeptMembers] at hmembers
    obtain ⟨hmember, hrest⟩ := List.forall_mem_cons.mp hscalars
    exact List.forall_mem_cons.mpr
      ⟨isScalar_member member hmembers.1 hmember.2 level, isScalar_members members hmembers.2 hrest level⟩
termination_by structural members

theorem isScalar_member (member : Text × Json) (hmember : KeptMember member) (hscalars : member.2.HasScalars)
    (level : ℕ) : Text.IsScalar (prettyAt level member.2) := by
  match member with
  | (key, value) =>
    rw [KeptMember] at hmember
    exact isScalar_prettyAt value hmember hscalars level
termination_by structural member

end

end Json

namespace Exports

variable {exports : Exports} {members : Json.Members} {manifest : Path} {w : World}

/-- Members say given exports: by subpaths, the value that they hold is the same, in the same order. -/
def SaidBy (exports : Exports) (members : Json.Members) : Prop :=
  ∃ value, members.value? "exports" = some value ∧ ofJson value = exports

/-- Exports are in a manifest if and only if its members say them. -/
lemma isIn_iff (hmembers : (Json.object members).Kept) (hexports : (Json.object exports).Kept) :
    exports.isIn members = true ↔ exports.SaidBy members := by
  unfold isIn SaidBy
  cases hvalue : members.value? "exports" with
  | none => simp
  | some value =>
    rw [Json.Kept, Json.keptMembers_iff] at hmembers
    have hkept := kept_ofJson (hmembers.2 _ (Keyed.mem_of_get? hvalue))
    simp only [decide_eq_true_eq, Option.some.injEq, exists_eq_left']
    exact ⟨fun h => Json.object.inj (Json.compact_injective hkept hexports h), fun h => by rw [h]⟩

lemma outcome_writeTo_of_isIn (hread : w.files.readManifest manifest = .ok members) (hin : exports.isIn members = true) :
    (exports.writeTo manifest).outcome w = (.ok (.ok false), w) := by
  unfold writeTo
  rw [Action.outcome_bind, Action.outcome_files]
  dsimp only
  rw [hread]
  dsimp only
  rw [if_pos hin, Action.outcome_pure]

lemma encode?_manifestText (hmembers : (Json.object members).Kept) (hexports : (Json.object exports).Kept)
    (hscalars : (Json.object members).HasScalars) (hown : (Json.object exports).HasScalars) :
    ∃ bytes, Utf8.encode? (exports.manifestText members) = some bytes := by
  have hkey : Text.IsScalar "exports" := Text.isScalar_of_small (by decide)
  have hline : Text.IsScalar "\n" := Text.isScalar_of_small (by decide)
  have hkept := Json.kept_insert (Text.ofString "exports") hmembers hexports
  rw [← Option.isSome_iff_exists, Utf8.encode?_isSome]
  exact (Json.isScalar_prettyAt _ hkept (hscalars.insert hkey hown) 0).append hline

lemma outcome_writeTo_of_not_isIn (hread : w.files.readManifest manifest = .ok members)
    (hin : exports.isIn members = false) {bytes : List UInt8}
    (hencode : Utf8.encode? (exports.manifestText members) = some bytes) :
    ∃ after, w.files.write manifest.text bytes = .ok after ∧
      (exports.writeTo manifest).outcome w = (.ok (.ok true), { w with files := after }) := by
  obtain ⟨old, hold⟩ := FileSystem.read_of_readManifest hread
  obtain ⟨location, hfind, hentry⟩ := FileSystem.find_of_read hold
  obtain ⟨r, files, hwrite, hwritten⟩ := Action.outcome_writeText manifest (exports.manifestText members) w
  have hdone : w.files.write manifest.text bytes = .ok files ∧ r = .ok () := by
    cases hwritten with
    | refused hrefused =>
      rw [FileSystem.write_present hfind hentry] at hrefused
      cases hrefused
    | emptied _ hnone =>
      rw [hencode] at hnone
      cases hnone
    | done hown hdone => exact ⟨Option.some.inj (hencode.symm.trans hown) ▸ hdone, rfl⟩
  refine ⟨files, hdone.1, ?_⟩
  unfold writeTo
  rw [Action.outcome_bind, Action.outcome_files]
  dsimp only
  rw [hread]
  dsimp only
  rw [if_neg (by simp [hin]), Action.outcome_bind, hwrite, hdone.2]
  rfl

/-- A manifest is left alone if and only if it says the same exports in the same order already. Otherwise it is written
with the new exports in place, and if they are by subpaths then the same attempt leaves it alone afterwards. -/
theorem written_on_change (hread : w.files.readManifest manifest = .ok members) (hkept : (Json.object exports).Kept)
    (hscalars : (Json.object members).HasScalars) (hown : (Json.object exports).HasScalars) :
    ((exports.writeTo manifest).outcome w = (.ok (.ok false), w) ↔ exports.SaidBy members) ∧
    (¬exports.SaidBy members → ∃ bytes after,
      Utf8.encode? (exports.manifestText members) = some bytes ∧ w.files.write manifest.text bytes = .ok after ∧
      (exports.writeTo manifest).outcome w = (.ok (.ok true), { w with files := after }) ∧
      after.readManifest manifest = .ok (Keyed.insert (Text.ofString "exports") (.object exports) members) ∧
      ((∃ key ∈ exports.keys, Text.startsWith key "." = true) → ∀ notices,
        (exports.writeTo manifest).outcome ⟨after, notices⟩ = (.ok (.ok false), ⟨after, notices⟩))) := by
  have hmembers := FileSystem.kept_of_readManifest hread
  have hchanged (h : ¬exports.SaidBy members) : ∃ bytes after,
      Utf8.encode? (exports.manifestText members) = some bytes ∧ w.files.write manifest.text bytes = .ok after ∧
      (exports.writeTo manifest).outcome w = (.ok (.ok true), { w with files := after }) := by
    obtain ⟨bytes, hbytes⟩ := encode?_manifestText hmembers hkept hscalars hown
    rw [← isIn_iff hmembers hkept, Bool.not_eq_true] at h
    obtain ⟨after, hwrite, hrun⟩ := outcome_writeTo_of_not_isIn hread h hbytes
    exact ⟨bytes, after, hbytes, hwrite, hrun⟩
  refine ⟨⟨fun hrun => ?_, fun hsaid => ?_⟩, fun hnot => ?_⟩
  · by_contra hnot
    obtain ⟨bytes, after, -, -, hrun'⟩ := hchanged hnot
    rw [hrun] at hrun'
    cases hrun'
  · exact outcome_writeTo_of_isIn hread ((isIn_iff hmembers hkept).mpr hsaid)
  · obtain ⟨bytes, after, hbytes, hwrite, hrun⟩ := hchanged hnot
    have hagain := FileSystem.readManifest_of_encode (FileSystem.read_write hwrite) hbytes hmembers hkept
    refine ⟨bytes, after, hbytes, hwrite, hrun, hagain, fun hdotted notices => ?_⟩
    have hin : exports.isIn (Keyed.insert (Text.ofString "exports") (.object exports) members) = true := by
      rw [isIn_iff (FileSystem.kept_of_readManifest hagain) hkept]
      exact ⟨_, Keyed.get?_insert_self _ _ _, ofJson_object (.inr hdotted)⟩
    exact outcome_writeTo_of_isIn hagain hin

/-- The bytes of the manifest of a package whose export is an integer. -/
def numberedBytes : List UInt8 :=
  (Utf8.encode? (manifestText [(".", .integer 0)] [("name", .string "p")])).getD []

/-- A world with nothing but this manifest. -/
def numbered : World where
  files := FileSystem.empty.put ["package.json"] (.file numberedBytes)
  notices := []

/-- An export that is the integer of the manifest is not written; the floating point number is, but once only. -/
theorem written_on_change_numbered :
    ∃ members, numbered.files.readManifest (.ofText "package.json") = .ok members ∧
      (writeTo [(".", .integer 0)] (.ofText "package.json")).outcome numbered = (.ok (.ok false), numbered) ∧
      ∃ after,
        (writeTo [(".", .real (.zero false))] (.ofText "package.json")).outcome numbered =
          (.ok (.ok true), { numbered with files := after }) ∧
        (writeTo [(".", .real (.zero false))] (.ofText "package.json")).outcome ⟨after, []⟩ =
          (.ok (.ok false), ⟨after, []⟩) := by
  have hname : (Json.object [(Text.ofString "name", .string "p")]).Kept := by
    simp [Json.Kept, Json.KeptMembers, Json.KeptMember, Keyed.keys]
  have hinteger : (Json.object [(Text.ofString ".", .integer 0)]).Kept := by
    have hshort : Json.Kept (.integer 0) := by
      rw [Json.Kept]
      exact Nat.pos_of_ne_zero (by simp)
    exact ⟨by decide, ⟨hshort, trivial⟩⟩
  have hreal : (Json.object [(Text.ofString ".", .real (.zero false))]).Kept :=
    ⟨by decide, ⟨Binary64.kept_zero false, trivial⟩⟩
  have hfile : numbered.files.read (Path.ofText "package.json").text = .ok numberedBytes := by decide +kernel
  have hencode : Utf8.encode? (manifestText [(".", .integer 0)] [("name", .string "p")]) = some numberedBytes := by
    decide +kernel
  have hread := FileSystem.readManifest_of_encode hfile hencode hname hinteger
  have hdot : Text.IsScalar "." := by decide
  have hnumber (value : Json) (hvalue : ∀ t, Json.Token.scalar (.string t) ∉ Json.tokens value) :
      (Json.object [(Text.ofString ".", value)]).HasScalars :=
    Json.hasScalars_object.mpr (List.forall_mem_singleton.mpr ⟨hdot, fun t ht => absurd ht (hvalue t)⟩)
  have hintegerScalars := hnumber (.integer 0) (by simp [Json.tokens])
  have hrealScalars := hnumber (.real (.zero false)) (by simp [Json.tokens])
  have hnameScalars : (Json.object [(Text.ofString "name", .string "p")]).HasScalars := by
    refine Json.hasScalars_object.mpr (List.forall_mem_singleton.mpr ⟨by decide, fun t ht => ?_⟩)
    have htext : t = "p" := by simpa [Json.tokens] using ht
    exact htext ▸ by decide
  have hkey : Text.IsScalar "exports" := by decide
  have hmembers := hnameScalars.insert hkey hintegerScalars
  have hvalue := Keyed.get?_insert_self [(Text.ofString "name", Json.string "p")] (Text.ofString "exports")
    (Json.object [(Text.ofString ".", .integer 0)])
  obtain ⟨hsame, -⟩ := written_on_change (w := numbered) hread hinteger hmembers hintegerScalars
  obtain ⟨-, hother⟩ := written_on_change (w := numbered) hread hreal hmembers hrealScalars
  have hunsaid : ¬SaidBy [(Text.ofString ".", .real (.zero false))]
      (Keyed.insert (Text.ofString "exports") (.object [(".", .integer 0)]) [("name", .string "p")]) := by
    rintro ⟨value, hfound, hread⟩
    obtain rfl := Option.some.inj (hvalue.symm.trans hfound)
    cases hread
  obtain ⟨bytes, after, -, -, hrun, -, hagain⟩ := hother hunsaid
  exact ⟨_, hread, hsame.mpr ⟨_, hvalue, rfl⟩, after, hrun, hagain ⟨".", by decide, by decide⟩ []⟩

end Exports

end PackageExports
