import PackageExports.Json.Reader
import PackageExports.Proofs.Words

/-!
# The tokens of a printed value

`Json.tokens` lists the tokens of a value, and the scanner finds just these in its printed text. `Json.Kept` holds of
the values that a reader can give: their numbers are in kept form, and no object has two members of one name.
-/

namespace PackageExports.Json

mutual

/-- The values that reading gives. -/
def Kept : Json → Prop
  | .integer n => n.natAbs < Nat.pow 10 Text.mostDigits
  | .real x => x.Kept
  | .array items => KeptItems items
  | .object members => (Keyed.keys members).Nodup ∧ KeptMembers members
  | _ => True
termination_by structural value => value

def KeptItems : List Json → Prop
  | [] => True
  | item :: items => item.Kept ∧ KeptItems items
termination_by structural items => items

def KeptMembers : List (Text × Json) → Prop
  | [] => True
  | member :: members => KeptMember member ∧ KeptMembers members
termination_by structural members => members

def KeptMember : Text × Json → Prop
  | (_, value) => value.Kept
termination_by structural member => member

end

lemma keptItems_iff {items : List Json} : KeptItems items ↔ ∀ item ∈ items, item.Kept := by
  induction items with
  | nil => simp [KeptItems]
  | cons item items ih => simp [KeptItems, ih]

lemma keptMembers_iff {members : List (Text × Json)} :
    KeptMembers members ↔ ∀ member ∈ members, member.2.Kept := by
  induction members with
  | nil => simp [KeptMembers]
  | cons member members ih =>
    obtain ⟨key, value⟩ := member
    rw [KeptMembers, List.forall_mem_cons, ih, KeptMember]

mutual

/-- The tokens of a value. -/
def tokens : Json → List Token
  | .array [] => [.openArray, .closeArray]
  | .array (item :: items) => .openArray :: (tokens item ++ tokensOfItems items ++ [.closeArray])
  | .object [] => [.openObject, .closeObject]
  | .object (member :: members) => .openObject :: (tokensOfMember member ++ tokensOfMembers members ++ [.closeObject])
  | value => [.scalar value]
termination_by structural value => value

def tokensOfItems : List Json → List Token
  | [] => []
  | item :: items => .comma :: (tokens item ++ tokensOfItems items)
termination_by structural items => items

def tokensOfMembers : List (Text × Json) → List Token
  | [] => []
  | member :: members => .comma :: (tokensOfMember member ++ tokensOfMembers members)
termination_by structural members => members

def tokensOfMember : Text × Json → List Token
  | (key, value) => .scalar (.string key) :: .colon :: tokens value
termination_by structural member => member

end

namespace Token

/-- What may follow a word: nothing that the automaton would take for a part of it. -/
def EndsWord (rest : Text) : Prop :=
  ∀ c, rest.head? = some c → isWordPart c = false

lemma scanFrom?_cons (state : Scan) (c : CodePoint) (rest : Text) :
    scanFrom? state (c :: rest) =
      (step? state c).bind fun found => (scanFrom? found.2 rest).map (found.1 ++ ·) := by
  rw [scanFrom?]
  cases step? state c <;> rfl

lemma scanFrom?_silent {s n : Scan} {c : CodePoint} (h : step? s c = some ([], n)) (rest : Text) :
    scanFrom? s (c :: rest) = scanFrom? n rest := by
  rw [scanFrom?_cons, h, Option.bind_some]
  exact Option.map_id'

lemma scanFrom?_token {s n : Scan} {c : CodePoint} {t : Token} (h : step? s c = some ([t], n))
    (rest : Text) : scanFrom? s (c :: rest) = (scanFrom? n rest).map (t :: ·) := by
  rw [scanFrom?_cons, h, Option.bind_some]
  rfl

lemma scanFrom?_word (read : Text) {rest : Text} (hrest : EndsWord rest) :
    scanFrom? (.word read) rest =
      (wordValue? read.reverse).bind fun value => (scanFrom? .between rest).map (scalar value :: ·) := by
  cases rest with
  | nil => cases h : wordValue? read.reverse <;> simp [scanFrom?, h]
  | cons c rest =>
    have hc : isWordPart c = false := hrest c rfl
    simp only [scanFrom?_cons, step?, hc, Bool.false_eq_true, if_false]
    cases wordValue? read.reverse with
    | none => rfl
    | some value =>
      cases begin? c with
      | none => rfl
      | some found => simp [Option.map_map, Function.comp_def]

lemma scanFrom?_within (read word rest : Text) (h : ∀ c ∈ word, isWordPart c = true) :
    scanFrom? (.word read) (word ++ rest) = scanFrom? (.word (word.reverse ++ read)) rest := by
  induction word generalizing read with
  | nil => rfl
  | cons c word ih =>
    obtain ⟨hc, hword⟩ := List.forall_mem_cons.mp h
    have hstep : step? (.word read) c = some ([], .word (c :: read)) := by simp [step?, hc]
    rw [List.cons_append, scanFrom?_silent hstep, ih _ hword, List.reverse_cons, List.append_assoc]
    rfl

lemma begin?_wordPart {c : CodePoint} (h : isWordPart c = true) : begin? c = some ([], .word [c]) := by
  have hne {d : CodePoint} (hd : isWordPart d = false) : c ≠ d := by
    rintro rfl
    rw [h] at hd
    exact Bool.noConfusion hd
  have hspace : isSpace c = false := by
    have h1 : c ≠ CodePoint.ofChar ' ' := hne (by decide)
    have h2 : c ≠ CodePoint.ofChar '\t' := hne (by decide)
    have h3 : c ≠ CodePoint.ofChar '\n' := hne (by decide)
    have h4 : c ≠ CodePoint.ofChar '\r' := hne (by decide)
    simp [isSpace, h1, h2, h3, h4]
  unfold begin?
  rw [if_neg (by rw [hspace]; exact Bool.false_ne_true), if_neg (hne (by decide)), if_neg (hne (by decide)),
    if_neg (hne (by decide)), if_neg (hne (by decide)), if_neg (hne (by decide)), if_neg (hne (by decide)),
    if_neg (hne (by decide)), if_pos h]

lemma scan_word {word rest : Text} {value : Json} (hword : IsWord word) (hvalue : wordValue? word = some value)
    (hrest : EndsWord rest) :
    scanFrom? .between (word ++ rest) = (scanFrom? .between rest).map (scalar value :: ·) := by
  obtain ⟨c, others, rfl⟩ := List.exists_cons_of_ne_nil hword.ne_nil
  obtain ⟨hc, hothers⟩ := List.forall_mem_cons.mp hword.parts
  rw [List.cons_append, scanFrom?_silent (s := .between) (begin?_wordPart hc), scanFrom?_within _ _ _ hothers,
    scanFrom?_word _ hrest, List.reverse_append, List.reverse_reverse, List.reverse_singleton,
    List.singleton_append, hvalue, Option.bind_some]

lemma hexValue?_hexDigit : ∀ n < 16, (hexDigit n).hexValue? = some n := by
  decide

/-- An escape of four digits is one code point, unless it completes a pair. -/
lemma scan_unicode {n : ℕ} (hn : n < 256) (read rest : Text) :
    scanFrom? (.escape read false)
        (CodePoint.ofChar 'u' :: CodePoint.ofChar '0' :: CodePoint.ofChar '0' :: hexDigit (n / 16) ::
          hexDigit (n % 16) :: rest) =
      scanFrom? (.string (⟨n⟩ :: read) false) rest := by
  have hhigh : (⟨n⟩ : CodePoint).isHighSurrogate = false := by
    simp [CodePoint.isHighSurrogate, show ¬0xD800 ≤ n by omega]
  have hlast : step? (.unicode read false 3 (n / 16)) (hexDigit (n % 16)) =
      some ([], .string (⟨n⟩ :: read) false) := by
    rw [step?, hexValue?_hexDigit _ (by omega)]
    simp [afterUnicode, Nat.div_add_mod, hhigh]
  have hthird : step? (.unicode read false 2 0) (hexDigit (n / 16)) =
      some ([], .unicode read false 3 (n / 16)) := by
    rw [step?, hexValue?_hexDigit _ (by omega)]
    simp
  rw [scanFrom?_silent (n := .unicode read false 0 0) rfl, scanFrom?_silent (n := .unicode read false 1 0) rfl,
    scanFrom?_silent (n := .unicode read false 2 0) rfl, scanFrom?_silent hthird, scanFrom?_silent hlast]

lemma scan_escape {l c : CodePoint} (hu : l ≠ CodePoint.ofChar 'u') (h : escaped? l = some c)
    (read rest : Text) :
    scanFrom? (.string read false) (CodePoint.ofChar '\\' :: l :: rest) =
      scanFrom? (.string (c :: read) false) rest := by
  have hstep : step? (.escape read false) l = some ([], .string (c :: read) false) := by
    simp [step?, hu, h]
  rw [scanFrom?_silent (n := .escape read false) rfl, scanFrom?_silent hstep]

/-- What stands for a code point inside a string is read as that code point. -/
lemma scan_quotePoint (c : CodePoint) (read rest : Text) :
    scanFrom? (.string read false) (quotePoint c ++ rest) = scanFrom? (.string (c :: read) false) rest := by
  obtain ⟨n⟩ := c
  unfold quotePoint
  split_ifs with hquote hslash hline hreturn htab hback hform hcontrol
  · rw [hquote]
    exact scan_escape (by decide) rfl read rest
  · rw [hslash]
    exact scan_escape (by decide) rfl read rest
  · obtain rfl : n = 10 := hline
    exact scan_escape (l := 'n') (by decide) rfl read rest
  · obtain rfl : n = 13 := hreturn
    exact scan_escape (l := 'r') (by decide) rfl read rest
  · obtain rfl : n = 9 := htab
    exact scan_escape (l := 't') (by decide) rfl read rest
  · obtain rfl : n = 8 := hback
    exact scan_escape (l := 'b') (by decide) rfl read rest
  · obtain rfl : n = 12 := hform
    exact scan_escape (l := 'f') (by decide) rfl read rest
  · have hn : n < 256 := by
      have : n < 32 := hcontrol
      omega
    rw [← scan_unicode hn]
    exact scanFrom?_silent (n := .escape read false) rfl _
  · have hstep : step? (.string read false) ⟨n⟩ = some ([], .string (⟨n⟩ :: read) false) := by
      simp [step?, hquote, hslash, hcontrol]
    exact scanFrom?_silent hstep rest

lemma scan_quote (t rest : Text) :
    scanFrom? .between (quote t ++ rest) = (scanFrom? .between rest).map (scalar (.string t) :: ·) := by
  have hinside (read : Text) : scanFrom? (.string read false) (t.flatMap quotePoint ++ (Text.ofString "\"" ++ rest)) =
      (scanFrom? .between rest).map (scalar (.string (read.reverse ++ t)) :: ·) := by
    induction t generalizing read with
    | nil =>
      rw [List.append_nil]
      exact scanFrom?_token rfl rest
    | cons c t ih =>
      rw [List.flatMap_cons, List.append_assoc, scan_quotePoint, ih, List.reverse_cons, List.append_assoc]
      rfl
  have h := hinside []
  rw [quote, List.cons_append, List.append_assoc, scanFrom?_silent (n := .string [] false) rfl]
  exact h

lemma scan_lineAt (level : ℕ) (rest : Text) :
    scanFrom? .between (lineAt level ++ rest) = scanFrom? .between rest := by
  have hspaces (n : ℕ) : scanFrom? .between (List.replicate n (CodePoint.ofChar ' ') ++ rest) =
      scanFrom? .between rest := by
    induction n with
    | zero => rfl
    | succ n ih =>
      rw [List.replicate_succ, List.cons_append, scanFrom?_silent (s := .between) (n := .between) rfl, ih]
  rw [lineAt, List.cons_append, scanFrom?_silent (s := .between) (n := .between) rfl, hspaces]

lemma endsWord_lineAt (level : ℕ) (rest : Text) : EndsWord (lineAt level ++ rest) := by
  intro c hc
  obtain rfl := Option.some.inj hc
  decide

lemma endsWord_items (level : ℕ) (items : List Json) {rest : Text} (hrest : EndsWord rest) :
    EndsWord (prettyItems level items ++ rest) := by
  cases items with
  | nil => exact hrest
  | cons item items =>
    intro c hc
    obtain rfl := Option.some.inj hc
    decide

lemma endsWord_members (level : ℕ) (members : List (Text × Json)) {rest : Text} (hrest : EndsWord rest) :
    EndsWord (prettyMembers level members ++ rest) := by
  cases members with
  | nil => exact hrest
  | cons member members =>
    intro c hc
    obtain rfl := Option.some.inj hc
    decide

lemma scan_mark (mark : String) (c : CodePoint) (t : Token) (hmark : Text.ofString mark = [c])
    (h : begin? c = some ([t], .between)) (rest : Text) :
    scanFrom? .between (Text.ofString mark ++ rest) = (scanFrom? .between rest).map (t :: ·) := by
  rw [hmark, List.singleton_append]
  exact scanFrom?_token (s := .between) h rest

lemma scan_colon (rest : Text) :
    scanFrom? .between (Text.ofString ": " ++ rest) = (scanFrom? .between rest).map (colon :: ·) := by
  have hspace : scanFrom? .between (CodePoint.ofChar ' ' :: rest) = scanFrom? .between rest :=
    scanFrom?_silent (s := .between) (n := .between) rfl rest
  rw [← hspace]
  exact scan_mark ":" ':' colon rfl rfl _

lemma scan_scalar {v : Json} {rest : Text} (hvalue : v.Kept) (htext : scalarText v ≠ [])
    (hrest : EndsWord rest) :
    scanFrom? .between (scalarText v ++ rest) = (scanFrom? .between rest).map (scalar v :: ·) := by
  cases v with
  | null => exact scan_word ⟨by decide, by decide⟩ rfl hrest
  | bool b => cases b <;> exact scan_word ⟨by decide, by decide⟩ rfl hrest
  | integer n => exact scan_word (isWord_ofInt n) (wordValue?_ofInt n) hrest
  | real x => exact scan_word (Binary64.isWord_numberText hvalue) (Binary64.wordValue?_numberText hvalue) hrest
  | string t => exact scan_quote t rest
  | array items => exact absurd rfl htext
  | object members => exact absurd rfl htext

mutual

/-- The printed text of a value is scanned as its tokens. -/
theorem scan_prettyAt (level : ℕ) (value : Json) (hvalue : value.Kept) (rest : Text) (hrest : EndsWord rest) :
    scanFrom? .between (prettyAt level value ++ rest) = (scanFrom? .between rest).map (tokens value ++ ·) := by
  match value with
  | .null => exact scan_scalar (v := .null) hvalue (by decide) hrest
  | .bool b => exact scan_scalar (v := .bool b) hvalue (by cases b <;> decide) hrest
  | .integer n => exact scan_scalar (v := .integer n) hvalue (isWord_ofInt n).ne_nil hrest
  | .real x => exact scan_scalar (v := .real x) hvalue (Binary64.isWord_numberText hvalue).ne_nil hrest
  | .string t => exact scan_scalar (v := .string t) hvalue (by simp [scalarText, quote]) hrest
  | .array [] =>
    rw [prettyAt, show Text.ofString "[]" = Text.ofString "[" ++ Text.ofString "]" from rfl, List.append_assoc,
      scan_mark "[" '[' openArray rfl rfl, scan_mark "]" ']' closeArray rfl rfl, Option.map_map]
    rfl
  | .array (item :: items) =>
    have hend : EndsWord (lineAt level ++ (Text.ofString "]" ++ rest)) := endsWord_lineAt _ _
    rw [Kept, KeptItems] at hvalue
    simp only [prettyAt, List.append_assoc]
    rw [scan_mark "[" '[' openArray rfl rfl, scan_lineAt,
      scan_prettyAt (level + 1) item hvalue.1 _ (endsWord_items _ _ hend),
      scan_prettyItems (level + 1) items hvalue.2 _ hend, scan_lineAt, scan_mark "]" ']' closeArray rfl rfl]
    simp [tokens, Option.map_map, Function.comp_def]
  | .object [] =>
    rw [prettyAt, show Text.ofString "\x7b\x7d" = Text.ofString "\x7b" ++ Text.ofString "\x7d" from rfl,
      List.append_assoc, scan_mark "\x7b" '{' openObject rfl rfl, scan_mark "\x7d" '}' closeObject rfl rfl,
      Option.map_map]
    rfl
  | .object (member :: members) =>
    have hend : EndsWord (lineAt level ++ (Text.ofString "\x7d" ++ rest)) := endsWord_lineAt _ _
    rw [Kept, KeptMembers] at hvalue
    simp only [prettyAt, List.append_assoc]
    rw [scan_mark "\x7b" '{' openObject rfl rfl, scan_lineAt,
      scan_prettyMember (level + 1) member hvalue.2.1 _ (endsWord_members _ _ hend),
      scan_prettyMembers (level + 1) members hvalue.2.2 _ hend, scan_lineAt,
      scan_mark "\x7d" '}' closeObject rfl rfl]
    simp [tokens, Option.map_map, Function.comp_def]
termination_by structural value

theorem scan_prettyItems (level : ℕ) (items : List Json) (hitems : KeptItems items) (rest : Text)
    (hrest : EndsWord rest) :
    scanFrom? .between (prettyItems level items ++ rest) =
      (scanFrom? .between rest).map (tokensOfItems items ++ ·) := by
  match items with
  | [] => exact Option.map_id'.symm
  | item :: items =>
    rw [KeptItems] at hitems
    simp only [prettyItems, List.append_assoc]
    rw [scan_mark "," ',' comma rfl rfl, scan_lineAt,
      scan_prettyAt level item hitems.1 _ (endsWord_items _ _ hrest),
      scan_prettyItems level items hitems.2 _ hrest]
    simp [tokensOfItems, Option.map_map, Function.comp_def]
termination_by structural items

theorem scan_prettyMembers (level : ℕ) (members : List (Text × Json)) (hmembers : KeptMembers members) (rest : Text)
    (hrest : EndsWord rest) :
    scanFrom? .between (prettyMembers level members ++ rest) =
      (scanFrom? .between rest).map (tokensOfMembers members ++ ·) := by
  match members with
  | [] => exact Option.map_id'.symm
  | member :: members =>
    rw [KeptMembers] at hmembers
    simp only [prettyMembers, List.append_assoc]
    rw [scan_mark "," ',' comma rfl rfl, scan_lineAt,
      scan_prettyMember level member hmembers.1 _ (endsWord_members _ _ hrest),
      scan_prettyMembers level members hmembers.2 _ hrest]
    simp [tokensOfMembers, Option.map_map, Function.comp_def]
termination_by structural members

theorem scan_prettyMember (level : ℕ) (member : Text × Json) (hmember : KeptMember member) (rest : Text)
    (hrest : EndsWord rest) :
    scanFrom? .between (prettyMember level member ++ rest) =
      (scanFrom? .between rest).map (tokensOfMember member ++ ·) := by
  match member with
  | (key, value) =>
    rw [KeptMember] at hmember
    simp only [prettyMember, List.append_assoc]
    rw [scan_quote, scan_colon, scan_prettyAt level value hmember _ hrest]
    simp [tokensOfMember, Option.map_map, Function.comp_def]
termination_by structural member

end

end Token

/-- A text of one line: a carriage return would be read as a line feed. -/
def NoReturn (t : Text) : Prop :=
  ∀ c ∈ t, c ≠ CodePoint.ofChar '\r'

lemma NoReturn.append {a b : Text} (ha : NoReturn a) (hb : NoReturn b) : NoReturn (a ++ b) :=
  fun c hc => (List.mem_append.mp hc).elim (ha c) (hb c)

lemma Token.IsWord.noReturn {t : Text} (h : Token.IsWord t) : NoReturn t := by
  rintro c hc rfl
  exact absurd (h.parts _ hc) (by decide)

lemma noReturn_quotePoint (c : CodePoint) : NoReturn (quotePoint c) := by
  have hdigit : ∀ n < 16, hexDigit n ≠ CodePoint.ofChar '\r' := by decide
  unfold quotePoint
  split_ifs with hquote hslash hline hreturn
  iterate 7 exact fun c hc => by revert c; decide
  · intro d hd
    rcases List.mem_append.mp hd with hd | hd
    · have hprefix : ∀ d ∈ Text.ofString "\\u00", d ≠ CodePoint.ofChar '\r' := by decide
      exact hprefix d hd
    · rcases List.mem_cons.mp hd with rfl | hd
      · exact hdigit _ (by omega)
      · rw [List.mem_singleton.mp hd]
        exact hdigit _ (by omega)
  · intro d hd
    rw [List.mem_singleton.mp hd]
    rintro rfl
    exact hreturn rfl

lemma noReturn_quote (t : Text) : NoReturn (quote t) := by
  refine List.forall_mem_cons.mpr ⟨by decide, NoReturn.append ?_ (by unfold NoReturn; decide)⟩
  intro c hc
  obtain ⟨d, -, hd⟩ := List.mem_flatMap.mp hc
  exact noReturn_quotePoint d c hd

lemma noReturn_lineAt (level : ℕ) : NoReturn (lineAt level) := by
  refine List.forall_mem_cons.mpr ⟨by decide, ?_⟩
  intro c hc
  rw [List.eq_of_mem_replicate hc]
  decide

lemma noReturn_mark : NoReturn "," ∧ NoReturn ": " ∧ NoReturn "[" ∧ NoReturn "]" ∧ NoReturn "\x7b" ∧
    NoReturn "\x7d" := by
  unfold NoReturn
  decide

lemma noReturn_scalar {value : Json} (hvalue : value.Kept) : NoReturn (scalarText value) := by
  cases value with
  | null => exact Token.IsWord.noReturn ⟨by decide, by decide⟩
  | bool b => cases b <;> exact Token.IsWord.noReturn ⟨by decide, by decide⟩
  | integer n => exact (Token.isWord_ofInt n).noReturn
  | real x => exact (Binary64.isWord_numberText hvalue).noReturn
  | string t => exact noReturn_quote t
  | array items => exact fun c hc => absurd hc List.not_mem_nil
  | object members => exact fun c hc => absurd hc List.not_mem_nil

mutual

theorem noReturn_prettyAt (level : ℕ) (value : Json) (hvalue : value.Kept) : NoReturn (prettyAt level value) := by
  obtain ⟨hcomma, -, hopenArray, hcloseArray, hopenObject, hcloseObject⟩ := noReturn_mark
  match value with
  | .null | .bool _ | .integer _ | .real _ | .string _ => exact noReturn_scalar hvalue
  | .array [] => exact hopenArray.append hcloseArray
  | .array (item :: items) =>
    rw [Kept, KeptItems] at hvalue
    rw [prettyAt]
    exact ((((hopenArray.append (noReturn_lineAt _)).append (noReturn_prettyAt (level + 1) item hvalue.1)).append
      (noReturn_prettyItems (level + 1) items hvalue.2)).append (noReturn_lineAt _)).append hcloseArray
  | .object [] => exact hopenObject.append hcloseObject
  | .object (member :: members) =>
    rw [Kept, KeptMembers] at hvalue
    rw [prettyAt]
    exact ((((hopenObject.append (noReturn_lineAt _)).append
      (noReturn_prettyMember (level + 1) member hvalue.2.1)).append
      (noReturn_prettyMembers (level + 1) members hvalue.2.2)).append (noReturn_lineAt _)).append hcloseObject
termination_by structural value

theorem noReturn_prettyItems (level : ℕ) (items : List Json) (hitems : KeptItems items) :
    NoReturn (prettyItems level items) := by
  match items with
  | [] => exact fun c hc => absurd hc List.not_mem_nil
  | item :: items =>
    rw [KeptItems] at hitems
    rw [prettyItems]
    exact ((noReturn_mark.1.append (noReturn_lineAt _)).append (noReturn_prettyAt level item hitems.1)).append
      (noReturn_prettyItems level items hitems.2)
termination_by structural items

theorem noReturn_prettyMembers (level : ℕ) (members : List (Text × Json)) (hmembers : KeptMembers members) :
    NoReturn (prettyMembers level members) := by
  match members with
  | [] => exact fun c hc => absurd hc List.not_mem_nil
  | member :: members =>
    rw [KeptMembers] at hmembers
    rw [prettyMembers]
    exact ((noReturn_mark.1.append (noReturn_lineAt _)).append (noReturn_prettyMember level member hmembers.1)).append
      (noReturn_prettyMembers level members hmembers.2)
termination_by structural members

theorem noReturn_prettyMember (level : ℕ) (member : Text × Json) (hmember : KeptMember member) :
    NoReturn (prettyMember level member) := by
  match member with
  | (key, value) =>
    rw [KeptMember] at hmember
    rw [prettyMember]
    exact ((noReturn_quote key).append noReturn_mark.2.1).append (noReturn_prettyAt level value hmember)
termination_by structural member

end

end PackageExports.Json
