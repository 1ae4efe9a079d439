import PackageExports.CompilerOptions
import PackageExports.Proofs.AddedFiles
import PackageExports.Proofs.CommentedText

/-!
# Commas before closing brackets

Compiler options may have a comma before a closing bracket. It is read over if only white space leads from it to the
bracket. If a comment stands between them the comma stays, and then the file is not read at all.

Main results: `Json.parseNoisy?_textOf`, `FileSystem.trailing_commas_read_iff`.
-/

namespace PackageExports

namespace Json

variable {parts : List Part} {tokens : List Token} {value : Json}

/-- Tokens without the commas that come right before a closing bracket. -/
def withoutTrailing : List Token → List Token
  | [] => []
  | t :: rest => if t.isComma && rest.head?.any Token.closes then withoutTrailing rest else t :: withoutTrailing rest

/-- From a comma before a closing bracket only white space leads to the bracket: no comment stands between them. -/
def BareCommas (parts : List Part) : Prop :=
  ∀ written rest, Part.token written .comma :: rest <:+ parts → (tokensOf rest).head?.any Token.closes = true →
    closesAhead rest = true

lemma apart_of_withoutTrailing (h : (withoutTrailing tokens).IsChain Follows) :
    tokens.IsChain fun a b => a.isScalar = true → b.isScalar = false := by
  induction tokens with
  | nil => exact .nil
  | cons t rest ih =>
    rw [withoutTrailing] at h
    split_ifs at h with hdropped
    · refine List.isChain_cons.mpr ⟨fun next _ hscalar => ?_, ih h⟩
      rw [Token.eq_comma (Bool.and_eq_true_iff.mp hdropped).1] at hscalar
      cases hscalar
    · refine List.isChain_cons.mpr ⟨fun next hnext hscalar => ?_, ih h.tail⟩
      cases rest with
      | nil => cases hnext
      | cons head others =>
        obtain rfl := Option.some.inj hnext
        cases hcomma : head.isComma with
        | true =>
          rw [Token.eq_comma hcomma]
          rfl
        | false =>
          rw [withoutTrailing, hcomma, Bool.false_and, if_neg Bool.false_ne_true] at h
          exact (h.rel_head? rfl).2 hscalar

/-- If only white space stands before the brackets, just the commas before them are taken out. -/
lemma tokensOf_kept (h : BareCommas parts) : tokensOf (kept parts) = withoutTrailing (tokensOf parts) := by
  induction parts with
  | nil => rfl
  | cons p rest ih =>
    have hrest := ih fun written back hback => h written back (hback.trans (List.suffix_cons p rest))
    cases p with
    | token written t =>
      have hahead : (t.isComma && closesAhead rest) = (t.isComma && (tokensOf rest).head?.any Token.closes) := by
        cases hcomma : t.isComma with
        | false => rfl
        | true =>
          rw [Bool.true_and, Bool.true_and, Bool.eq_iff_iff]
          refine ⟨fun hcloses => (Option.any_eq_true _ _).mpr (head?_of_closesAhead hcloses), fun hhead => ?_⟩
          obtain rfl := Token.eq_comma hcomma
          exact h written rest List.suffix_rfl hhead
      have hcons : tokensOf (.token written t :: rest) = t :: tokensOf rest := rfl
      rw [hcons, kept, withoutTrailing, hahead]
      split_ifs
      · exact hrest
      · exact congrArg (t :: ·) hrest
    | space c => exact hrest
    | line comment => exact hrest
    | block comment => exact hrest

lemma head?_kept (h : (tokensOf parts).head?.any Token.closes = true) :
    (tokensOf (kept parts)).head?.any Token.closes = true := by
  induction parts with
  | nil => exact h
  | cons p rest ih =>
    cases p with
    | token written t =>
      have hcloses : t.closes = true := h
      have hcomma : t.isComma = false := by cases t <;> first | rfl | cases hcloses
      rw [kept, hcomma, Bool.false_and, if_neg Bool.false_ne_true]
      exact hcloses
    | space c => exact ih h
    | line comment => exact ih h
    | block comment => exact ih h

lemma suffix_kept (p : Part) (rest : List Part) : tokensOf (kept rest) <:+ tokensOf (kept (p :: rest)) := by
  cases p with
  | token written t =>
    rw [kept.eq_2]
    split_ifs
    · exact List.suffix_rfl
    · exact List.suffix_cons t _
  | space c => exact List.suffix_rfl
  | line comment => exact List.suffix_rfl
  | block comment => exact List.suffix_rfl

/-- A comment after a comma keeps the comma before the bracket. -/
lemma bareCommas_of_isChain (h : (tokensOf (kept parts)).IsChain Follows) : BareCommas parts := by
  rintro written rest ⟨front, hparts⟩ hhead
  by_contra hcloses
  have hcomma : tokensOf (kept (.token written .comma :: rest)) = .comma :: tokensOf (kept rest) := by
    rw [kept, Bool.eq_false_iff.mpr hcloses, Bool.and_false, if_neg Bool.false_ne_true]
    rfl
  have hsuffix : tokensOf (kept (.token written .comma :: rest)) <:+ tokensOf (kept parts) := by
    subst hparts
    induction front with
    | nil => exact List.suffix_rfl
    | cons p front ih => exact (ih (h.suffix (suffix_kept p _))).trans (suffix_kept p _)
  obtain ⟨next, hnext, hnextCloses⟩ := (Option.any_eq_true _ _).mp (head?_kept hhead)
  have hlocal := h.suffix hsuffix
  rw [hcomma] at hlocal
  rw [(hlocal.rel_head? hnext).1 rfl] at hnextCloses
  cases hnextCloses

lemma any_withoutTrailing (tokens : List Token) :
    (withoutTrailing tokens).any Token.isLongInteger = tokens.any Token.isLongInteger := by
  induction tokens with
  | nil => rfl
  | cons t rest ih =>
    rw [withoutTrailing]
    split_ifs with hdropped
    · rw [ih, List.any_cons, Token.eq_comma (Bool.and_eq_true_iff.mp hdropped).1]
      rfl
    · rw [List.any_cons, List.any_cons, ih]

/-- Commas before closing brackets are read over, if only white space stands between them and the brackets and no
integer is too long; otherwise what is left is no value. -/
theorem parseNoisy?_textOf (h : IsLayout parts)
    (hread : ofTokens? (withoutTrailing (tokensOf parts)) = some value) :
    (BareCommas parts ∧ (tokensOf parts).any Token.isLongInteger = false → parseNoisy? (textOf parts) = some value) ∧
      (¬(BareCommas parts ∧ (tokensOf parts).any Token.isLongInteger = false) → parseNoisy? (textOf parts) = none) := by
  have hscan := scan_kept h (apart_of_withoutTrailing (isChain_of_readFrom? hread))
  rw [← dropNoise_textOf h] at hscan
  have hsome {other : Json} (hother : parse (dropNoise (textOf parts)) = .ok other) :
      parseNoisy? (textOf parts) = some other := by
    rw [parseNoisy?, parse?, hother]
    rfl
  constructor
  · rintro ⟨hbare, hlong⟩
    rw [tokensOf_kept hbare] at hscan
    exact hsome (parse_eq_ok_iff.mpr ⟨_, hscan, hread, by rwa [any_withoutTrailing]⟩)
  · intro hnot
    cases hparse : parse (dropNoise (textOf parts)) with
    | error refusal =>
      rw [parseNoisy?, parse?, hparse]
      rfl
    | ok other =>
      obtain ⟨left, hleft, hother, hlong⟩ := parse_eq_ok_iff.mp hparse
      obtain rfl := Option.some.inj (hscan.symm.trans hleft)
      have hbare := bareCommas_of_isChain (isChain_of_readFrom? hother)
      rw [tokensOf_kept hbare, any_withoutTrailing] at hlong
      exact absurd ⟨hbare, hlong⟩ hnot

end Json

namespace FileSystem

variable {fs : FileSystem} {package : Path} {parts : List Json.Part} {members : Json.Members} {t : Text}

lemma isFile_of_readText {path : Text} (h : fs.readText path = .ok t) : fs.isFile path = true := by
  unfold readText at h
  cases hread : fs.read path with
  | error e =>
    rw [hread] at h
    cases h
  | ok bytes =>
    obtain ⟨location, hfind, hfile⟩ := find_of_read hread
    exact isFile_iff.mpr ⟨location, bytes, hfind, hfile⟩

lemma readCompilerSettings_of_text (h : fs.readText (package.child "tsconfig.json").text = .ok t) :
    fs.readCompilerSettings package =
      match Json.parseNoisy? t with
      | some value => ⟨value.membersOf, []⟩
      | none => ⟨[], [.unparsed (package.child "tsconfig.json") .notJson]⟩ := by
  unfold readCompilerSettings
  dsimp only
  rw [if_pos (isFile_of_readText h), h]
  cases hvalue : Json.parseNoisy? t <;>
    · simp only [hvalue]
      rfl

/-- Compiler options with white space and comments between their tokens and with commas before closing brackets are read
as what they are without them, and no warning is given, if and only if no comment stands between a comma and a closing
bracket after it and no integer has more digits than are read. Otherwise they count as empty, with a warning. The text
is that of the file with its line ends unified. -/
theorem trailing_commas_read_iff (h : Json.IsLayout parts)
    (hread : Json.ofTokens? (Json.withoutTrailing (Json.tokensOf parts)) = some (.object members))
    (hfile : fs.readText (package.child "tsconfig.json").text = .ok (Json.textOf parts)) :
    (fs.readCompilerSettings package = ⟨members, []⟩ ↔
      Json.BareCommas parts ∧ (Json.tokensOf parts).any Json.Token.isLongInteger = false) ∧
      (¬(Json.BareCommas parts ∧ (Json.tokensOf parts).any Json.Token.isLongInteger = false) →
        fs.readCompilerSettings package = ⟨[], [.unparsed (package.child "tsconfig.json") .notJson]⟩) := by
  obtain ⟨hsome, hnone⟩ := Json.parseNoisy?_textOf h hread
  have hrefused (hnot : ¬(Json.BareCommas parts ∧ (Json.tokensOf parts).any Json.Token.isLongInteger = false)) :
      fs.readCompilerSettings package = ⟨[], [.unparsed (package.child "tsconfig.json") .notJson]⟩ := by
    rw [readCompilerSettings_of_text hfile, hnone hnot]
  refine ⟨⟨fun hmembers => ?_, fun hbare => ?_⟩, hrefused⟩
  · by_contra hnot
    have hnotices := congrArg Noted.notices (hmembers.symm.trans (hrefused hnot))
    cases hnotices
  · rw [readCompilerSettings_of_text hfile, hsome hbare]
    rfl

/-- Compiler options with a comma before each closing bracket and with a comment before and after each of them, but not
between. -/
def commaParts : List Json.Part :=
  [.token "\x7b" .openObject, .line " options", .space '\n', .token "\"a\"" (.scalar (.string "a")), .token ":" .colon,
    .token "[" .openArray, .token "true" (.scalar (.bool true)), .block ",", .token "," .comma, .space '\n',
    .space '\t', .token "]" .closeArray, .block "]", .token "," .comma, .space ' ', .token "\x7d" .closeObject,
    .line " end"]

def optionsOf (parts : List Json.Part) : FileSystem :=
  FileSystem.empty.put ["tsconfig.json"] (.file ((Utf8.encode? (Json.textOf parts)).getD []))

/-- The options are read. -/
theorem trailing_commas_read_bare :
    (optionsOf commaParts).readCompilerSettings (Path.ofText ".") = ⟨[("a", .array [.bool true])], []⟩ := by
  have hname : Json.Token.Written (.scalar (.string "a")) "\"a\"" := .string (.step rfl (.close _ _))
  have hword : Json.Token.Written (.scalar (.bool true)) "true" := .word ⟨by decide, by decide⟩ rfl
  have hline : ∀ d, (Json.textOf (commaParts.drop 2)).head? = some d → d = '\n' := fun d hd =>
    (Option.some.inj hd).symm
  have hlayout : Json.IsLayout commaParts :=
    ⟨.mark rfl, by decide, hline, rfl, hname, .mark rfl, .mark rfl, hword, by decide, .mark rfl, rfl, rfl, .mark rfl,
      by decide, .mark rfl, rfl, .mark rfl, by decide, (fun d hd => nomatch hd), trivial⟩
  have hfile : (optionsOf commaParts).readText ((Path.ofText ".").child "tsconfig.json").text =
      .ok (Json.textOf commaParts) := ok_of_toOption (by decide +kernel)
  have hleft : Json.ofTokens? (Json.tokensOf (Json.kept commaParts)) =
      some (.object [("a", .array [.bool true])]) := rfl
  have hbare := Json.bareCommas_of_isChain (Json.isChain_of_readFrom? hleft)
  exact (trailing_commas_read_iff hlayout rfl hfile).1.mpr ⟨hbare, by decide +kernel⟩

/-- Compiler options with a comment after the last comma. -/
def commentedParts : List Json.Part :=
  [.token "\x7b" .openObject, .token "\"a\"" (.scalar (.string "a")), .token ":" .colon,
    .token "true" (.scalar (.bool true)), .token "," .comma, .space ' ', .line " last", .space '\n',
    .token "\x7d" .closeObject]

/-- The options are not read, though the comma may be there and so may the comment. -/
theorem commented_comma_refused :
    Json.IsLayout commentedParts ∧
      Json.ofTokens? (Json.withoutTrailing (Json.tokensOf commentedParts)) = some (.object [("a", .bool true)]) ∧
      (optionsOf commentedParts).readText ((Path.ofText ".").child "tsconfig.json").text =
        .ok (Json.textOf commentedParts) ∧
      (optionsOf commentedParts).readCompilerSettings (Path.ofText ".") =
        ⟨[], [.unparsed ((Path.ofText ".").child "tsconfig.json") .notJson]⟩ := by
  have hname : Json.Token.Written (.scalar (.string "a")) "\"a\"" := .string (.step rfl (.close _ _))
  have hword : Json.Token.Written (.scalar (.bool true)) "true" := .word ⟨by decide, by decide⟩ rfl
  have hline : ∀ d, (Json.textOf (commentedParts.drop 7)).head? = some d → d = '\n' := fun d hd =>
    (Option.some.inj hd).symm
  have hlayout : Json.IsLayout commentedParts :=
    ⟨.mark rfl, hname, .mark rfl, hword, .mark rfl, rfl, by decide, hline, rfl, .mark rfl, trivial⟩
  have hfile : (optionsOf commentedParts).readText ((Path.ofText ".").child "tsconfig.json").text =
      .ok (Json.textOf commentedParts) := ok_of_toOption (by decide +kernel)
  have hnone : Json.parseNoisy? (Json.textOf commentedParts) = none :=
    Option.isNone_iff_eq_none.mp (by decide +kernel)
  refine ⟨hlayout, rfl, hfile, ?_⟩
  rw [readCompilerSettings_of_text hfile, hnone]

end FileSystem

end PackageExports
