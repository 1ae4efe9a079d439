import PackageExports.Proofs.WrittenTokens

/-!
# JSON with comments between its tokens

A text with comments is a row of parts: tokens as they are written, white space and comments. Taking out the noise takes
out the comments, and the commas from which only white space leads to a closing bracket; a string stays whole, whatever
is in it. So a text keeps its value when comments are put between its tokens.

Main results: `Json.dropNoise_textOf`, `Json.scan_kept`, `Json.comments_keep_value`.
-/

namespace PackageExports.Json

open Token (Scan EndsWord)

/-! ### Taking out the noise -/

variable {c : CodePoint} {t : Token} {written rest : Text}

lemma dropNoiseFrom_keep (kept rest : Text) :
    dropNoiseFrom kept.length 0 (kept ++ rest) = kept ++ dropNoise rest := by
  induction kept with
  | nil => rfl
  | cons c kept ih =>
    rw [List.length_cons, List.cons_append, dropNoiseFrom, ih]
    rfl

lemma dropNoiseFrom_drop (dropped rest : Text) :
    dropNoiseFrom 0 dropped.length (dropped ++ rest) = dropNoise rest := by
  induction dropped with
  | nil => rfl
  | cons c dropped ih => rw [List.length_cons, List.cons_append, dropNoiseFrom, ih]

lemma dropNoise_of_keep (kept rest : Text) (h : stretch c (kept ++ rest) = .keep kept.length) :
    dropNoise (c :: (kept ++ rest)) = c :: (kept ++ dropNoise rest) := by
  rw [dropNoise, dropNoiseFrom, h]
  exact congrArg (c :: ·) (dropNoiseFrom_keep kept rest)

lemma dropNoise_of_drop (dropped rest : Text) (h : stretch c (dropped ++ rest) = .drop dropped.length) :
    dropNoise (c :: (dropped ++ rest)) = dropNoise rest := by
  rw [dropNoise, dropNoiseFrom, h]
  exact dropNoiseFrom_drop dropped rest

lemma dropNoise_plain (hquote : c ≠ '"') (hslash : c ≠ '/') (hcomma : c ≠ ',') (rest : Text) :
    dropNoise (c :: rest) = c :: dropNoise rest := by
  refine dropNoise_of_keep [] rest ?_
  simp [stretch, hquote, hslash, hcomma]

lemma dropNoise_written (h : Token.Written t written) (hcomma : t.isComma = false) (rest : Text) :
    dropNoise (written ++ rest) = written ++ dropNoise rest := by
  cases h with
  | mark hmark =>
    rename_i c
    obtain ⟨-, -, hiff, hmem⟩ := Token.mark_cases hmark
    have hne : c ≠ ',' := fun hc => by simp [hiff.mpr hc] at hcomma
    have hplain : ∀ d ∈ [CodePoint.ofChar '{', '}', '[', ']', ',', ':'], d ≠ '"' ∧ d ≠ '/' := by decide
    exact dropNoise_plain (hplain c hmem).1 (hplain c hmem).2 hne rest
  | word hword hvalue =>
    have hparts := hword.parts
    clear hword hvalue hcomma
    induction written with
    | nil => rfl
    | cons c written ih =>
      obtain ⟨hc, hothers⟩ := List.forall_mem_cons.mp hparts
      obtain ⟨-, hquote, hslash, hcomma, -, -⟩ := Token.plain_of_isWordPart hc
      rw [List.cons_append, dropNoise_plain hquote hslash hcomma, ih hothers]
      rfl
  | string hcompletes =>
    rename_i inside s
    refine dropNoise_of_keep inside rest ?_
    rw [stretch, if_pos rfl]
    exact congrArg (fun more => Stretch.keep (more.getD 0)) (hcompletes.stringEnd rfl rest)

lemma stretch_line (rest : Text) :
    stretch '/' ('/' :: rest) =
      .drop ((CodePoint.ofChar '/' :: rest).takeWhile (· != CodePoint.ofChar '\n')).length :=
  rfl

lemma stretch_block (rest : Text) :
    stretch '/' ('*' :: rest) =
      match blockEnd? rest with
      | some more => .drop (more + 1)
      | none => .keep 0 :=
  rfl

lemma stretch_comma (rest : Text) :
    stretch ',' rest =
      match (rest.dropWhile CodePoint.isBlank).head? with
      | some d => if d = '}' ∨ d = ']' then .drop 0 else .keep 0
      | none => .keep 0 :=
  rfl

lemma blockEnd?_cons (c : CodePoint) (rest : Text) :
    blockEnd? (c :: rest) =
      if c = '*' ∧ rest.head? = some (CodePoint.ofChar '/') then some 2 else (blockEnd? rest).map (· + 1) :=
  rfl

lemma dropNoise_line {comment : Text} (hcomment : CodePoint.ofChar '\n' ∉ comment)
    (hrest : ∀ d, rest.head? = some d → d = '\n') : dropNoise ("//" ++ comment ++ rest) = dropNoise rest := by
  have htake : (comment ++ rest).takeWhile (· != CodePoint.ofChar '\n') = comment := by
    rw [List.takeWhile_append_of_pos]
    · cases rest with
      | nil => simp
      | cons d rest => simp [hrest d rfl]
    · intro d hd
      have hd : d ≠ CodePoint.ofChar '\n' := by
        rintro rfl
        exact hcomment hd
      simpa using hd
  have hstretch : stretch '/' ((CodePoint.ofChar '/' :: comment) ++ rest) =
      .drop (CodePoint.ofChar '/' :: comment).length := by
    rw [List.cons_append, stretch_line, List.takeWhile_cons_of_pos (by decide), htake]
  exact dropNoise_of_drop (CodePoint.ofChar '/' :: comment) rest hstretch

lemma blockEnd?_append {comment : Text} (h : ¬Text.ofString "*/" <:+: comment) (rest : Text) :
    blockEnd? (comment ++ ("*/" ++ rest)) = some (comment.length + 2) := by
  induction comment with
  | nil => rfl
  | cons c comment ih =>
    have hnext : ¬(c = '*' ∧ (comment ++ (Text.ofString "*/" ++ rest)).head? = some (CodePoint.ofChar '/')) := by
      rintro ⟨rfl, hslash⟩
      cases comment with
      | nil => cases hslash
      | cons d comment =>
        obtain rfl := Option.some.inj hslash
        exact h ⟨[], comment, rfl⟩
    rw [List.cons_append, blockEnd?_cons, if_neg hnext,
      ih fun hpart => h (hpart.trans (List.suffix_cons _ _).isInfix)]
    rfl

lemma dropNoise_block {comment : Text} (h : ¬Text.ofString "*/" <:+: comment) (rest : Text) :
    dropNoise ("/*" ++ comment ++ "*/" ++ rest) = dropNoise rest := by
  have hend := blockEnd?_append h rest
  have hdrop := dropNoise_of_drop (c := '/') (CodePoint.ofChar '*' :: (comment ++ Text.ofString "*/")) rest
  simp only [List.cons_append, List.append_assoc] at hdrop ⊢
  refine hdrop ?_
  rw [stretch_block, hend]
  simp [Text.ofString]

/-! ### Texts in parts -/

/-- A part of a text: a token as it is written, white space, or a comment, which goes to the end of its line or to its
closing mark. -/
inductive Part where
  | token (written : Text) (token : Token)
  | space (c : CodePoint)
  | line (comment : Text)
  | block (comment : Text)

namespace Part

def text : Part → Text
  | token written _ => written
  | space c => [c]
  | line comment => "//" ++ comment
  | block comment => "/*" ++ comment ++ "*/"

def token? : Part → Option Token
  | token _ t => some t
  | _ => none

def isComment : Part → Bool
  | line _ | block _ => true
  | _ => false

end Part

def textOf (parts : List Part) : Text :=
  parts.flatMap Part.text

def tokensOf (parts : List Part) : List Token :=
  parts.filterMap Part.token?

/-- Each part is written as it must be. A line comment ends with its line or with the text. -/
def IsLayout : List Part → Prop
  | [] => True
  | .token written t :: rest => Token.Written t written ∧ IsLayout rest
  | .space c :: rest => Token.isSpace c = true ∧ IsLayout rest
  | .line comment :: rest =>
    CodePoint.ofChar '\n' ∉ comment ∧ (∀ d, (textOf rest).head? = some d → d = '\n') ∧ IsLayout rest
  | .block comment :: rest => ¬Text.ofString "*/" <:+: comment ∧ IsLayout rest

/-- Whether a closing bracket comes next, with nothing but white space before it. -/
def closesAhead : List Part → Bool
  | [] => false
  | .token _ t :: _ => t.closes
  | .space _ :: rest => closesAhead rest
  | .line _ :: _ => false
  | .block _ :: _ => false

/-- The parts without comments and without each comma from which only white space leads to a closing bracket. -/
def kept : List Part → List Part
  | [] => []
  | .token written t :: rest =>
    if t.isComma && closesAhead rest then kept rest else .token written t :: kept rest
  | .space c :: rest => .space c :: kept rest
  | .line _ :: rest => kept rest
  | .block _ :: rest => kept rest

variable {parts : List Part}

lemma textOf_cons (p : Part) (parts : List Part) : textOf (p :: parts) = p.text ++ textOf parts :=
  List.flatMap_cons

/-- The search for a bracket after a comma finds what comes after white space. -/
lemma closesAhead_iff (h : IsLayout parts) :
    closesAhead parts = true ↔
      ∃ d, ((textOf parts).dropWhile CodePoint.isBlank).head? = some d ∧ (d = '}' ∨ d = ']') := by
  have hslash (more : Text) : ¬∃ d, ((CodePoint.ofChar '/' :: more).dropWhile CodePoint.isBlank).head? = some d ∧
      (d = '}' ∨ d = ']') := by
    rw [List.dropWhile_cons_of_neg (by decide), List.head?_cons]
    rintro ⟨d, hd, hbracket⟩
    obtain rfl := Option.some.inj hd
    revert hbracket
    decide
  induction parts with
  | nil => simp [closesAhead, textOf]
  | cons p rest ih =>
    rw [textOf_cons]
    cases p with
    | token written t =>
      obtain ⟨c, more, rfl, hblank, hcloses, -⟩ := h.1.head
      have hkept : ((c :: more) ++ textOf rest).dropWhile CodePoint.isBlank = c :: (more ++ textOf rest) :=
        List.dropWhile_cons_of_neg (by simp [hblank])
      rw [Part.text, hkept, closesAhead, hcloses]
      simp
    | space c =>
      have hskip : ([c] ++ textOf rest).dropWhile CodePoint.isBlank = (textOf rest).dropWhile CodePoint.isBlank :=
        List.dropWhile_cons_of_pos (Token.plain_of_isSpace h.1).1
      rw [Part.text, hskip, closesAhead]
      exact ih h.2
    | line comment => exact iff_of_false Bool.false_ne_true (hslash _)
    | block comment => exact iff_of_false Bool.false_ne_true (hslash _)

/-- A comma stays unless a closing bracket is ahead. -/
lemma dropNoise_comma (h : IsLayout parts) :
    dropNoise (CodePoint.ofChar ',' :: textOf parts) =
      if closesAhead parts then dropNoise (textOf parts) else CodePoint.ofChar ',' :: dropNoise (textOf parts) := by
  have hahead := closesAhead_iff h
  split_ifs with hcloses
  · obtain ⟨d, hhead, hd⟩ := hahead.mp hcloses
    refine dropNoise_of_drop [] (textOf parts) ?_
    rw [List.nil_append, stretch_comma, hhead]
    exact if_pos hd
  · refine dropNoise_of_keep [] (textOf parts) ?_
    rw [List.nil_append, stretch_comma]
    cases hhead : ((textOf parts).dropWhile CodePoint.isBlank).head? with
    | none => rfl
    | some d => exact if_neg fun hd => hcloses (hahead.mpr ⟨d, hhead, hd⟩)

lemma Token.Written.eq_comma (h : Token.Written t written) (hcomma : t.isComma = true) :
    written = [CodePoint.ofChar ','] := by
  cases h with
  | mark hmark => rw [(Token.mark_cases hmark).2.2.1.mp hcomma]
  | word hword hvalue => cases hcomma
  | string hcompletes => cases hcomma

/-- What is left of a text in parts. -/
theorem dropNoise_textOf (h : IsLayout parts) : dropNoise (textOf parts) = textOf (kept parts) := by
  induction parts with
  | nil => rfl
  | cons p rest ih =>
    rw [textOf_cons]
    cases p with
    | token written t =>
      obtain ⟨hwritten, hrest⟩ := h
      rw [kept, Part.text]
      cases hcomma : t.isComma with
      | false =>
        rw [dropNoise_written hwritten hcomma, Bool.false_and, if_neg Bool.false_ne_true, textOf_cons, ih hrest]
        rfl
      | true =>
        have hwhole : written ++ textOf rest = CodePoint.ofChar ',' :: textOf rest := by
          rw [hwritten.eq_comma hcomma]
          rfl
        rw [hwhole, dropNoise_comma hrest, Bool.true_and]
        split_ifs
        · exact ih hrest
        · rw [textOf_cons, ih hrest]
          exact congrArg (· ++ textOf (kept rest)) (hwritten.eq_comma hcomma).symm
    | space c =>
      obtain ⟨hspace, hrest⟩ := h
      obtain ⟨-, -, hquote, hslash, hcomma⟩ := Token.plain_of_isSpace hspace
      rw [Part.text, List.singleton_append, dropNoise_plain hquote hslash hcomma, ih hrest, kept, textOf_cons]
      rfl
    | line comment =>
      obtain ⟨hcomment, hend, hrest⟩ := h
      rw [Part.text, dropNoise_line hcomment hend, ih hrest, kept]
    | block comment =>
      obtain ⟨hcomment, hrest⟩ := h
      rw [Part.text, dropNoise_block hcomment, ih hrest, kept]

/-! ### What is left is read -/

lemma head?_of_closesAhead (h : closesAhead parts = true) :
    ∃ t, (tokensOf parts).head? = some t ∧ t.closes = true := by
  induction parts with
  | nil => cases h
  | cons p rest ih =>
    cases p with
    | token written t => exact ⟨t, rfl, h⟩
    | space c => exact ih h
    | line comment => cases h
    | block comment => cases h

lemma Token.isScalar_of_closes (h : t.closes = true) : t.isScalar = false := by
  cases t <;> first | rfl | cases h

lemma endsWord_kept (h : IsLayout parts) (hnext : ∀ t, (tokensOf parts).head? = some t → t.isScalar = false) :
    EndsWord (textOf (kept parts)) := by
  induction parts with
  | nil => exact fun c hc => by cases hc
  | cons p rest ih =>
    cases p with
    | token written t =>
      obtain ⟨hwritten, hrest⟩ := h
      rw [kept]
      split_ifs with hdropped
      · refine ih hrest fun next hhead => ?_
        obtain ⟨next', hhead', hcloses⟩ := head?_of_closesAhead (Bool.and_eq_true_iff.mp hdropped).2
        rw [hhead'] at hhead
        exact Option.some.inj hhead ▸ Token.isScalar_of_closes hcloses
      · obtain ⟨c, more, rfl, -, -, hword⟩ := hwritten.head
        intro d hd
        obtain rfl := Option.some.inj hd
        exact hword (hnext t rfl)
    | space c =>
      intro d hd
      obtain rfl := Option.some.inj hd
      exact (Token.plain_of_isSpace h.1).2.1
    | line comment => exact ih h.2.2 hnext
    | block comment => exact ih h.2 hnext

/-- The tokens that are left are scanned, if no two scalars come one right after the other. -/
theorem scan_kept (h : IsLayout parts)
    (hapart : (tokensOf parts).IsChain fun a b => a.isScalar = true → b.isScalar = false) :
    Token.scan? (textOf (kept parts)) = some (tokensOf (kept parts)) := by
  rw [Token.scan?]
  induction parts with
  | nil => rfl
  | cons p rest ih =>
    cases p with
    | token written t =>
      obtain ⟨hwritten, hrest⟩ := h
      have hapart : (t :: tokensOf rest).IsChain fun a b => a.isScalar = true → b.isScalar = false := hapart
      have hscan := ih hrest hapart.tail
      rw [kept]
      split_ifs
      · exact hscan
      · rw [textOf_cons, Part.text, hwritten.scan, hscan]
        · rfl
        · intro hscalar
          exact endsWord_kept hrest fun next hnext => hapart.rel_head? hnext hscalar
    | space c =>
      have hspace : Token.step? .between c = some ([], .between) := by
        rw [Token.step?, Token.begin?, if_pos h.1]
      rw [kept, textOf_cons, Part.text, List.singleton_append, Token.scanFrom?_silent hspace]
      exact ih h.2 hapart
    | line comment => exact ih h.2.2 hapart
    | block comment => exact ih h.2 hapart

/-! ### Texts without comments -/

lemma exists_layout {t : Text} {tokens : List Token} (h : Token.scan? t = some tokens) :
    ∃ parts, IsLayout parts ∧ textOf parts = t ∧ tokensOf parts = tokens ∧ ∀ p ∈ parts, p.isComment = false := by
  rw [Token.scan?] at h
  induction hlength : t.length using Nat.strong_induction_on generalizing t tokens with
  | _ n ih =>
    subst hlength
    cases t with
    | nil => exact ⟨[], trivial, rfl, Option.some.inj h, by simp⟩
    | cons c rest =>
      -- a part that is read first, and the layout of what follows it
      have hpart {written after : Text} {t : Token} {others : List Token} (hwritten : Token.Written t written)
          (hwhole : c :: rest = written ++ after) (hafter : Token.scanFrom? .between after = some others)
          (htokens : tokens = t :: others) : ∃ parts, IsLayout parts ∧ textOf parts = c :: rest ∧
            tokensOf parts = tokens ∧ ∀ p ∈ parts, p.isComment = false := by
        have hne : written ≠ [] := by
          obtain ⟨d, more, hd, -⟩ := hwritten.head
          simp [hd]
        have hshorter : after.length < (c :: rest).length := by
          rw [hwhole, List.length_append]
          have := List.length_pos_iff.mpr hne
          omega
        obtain ⟨parts, hlayout, htext, rfl, hplain⟩ := ih _ hshorter hafter rfl
        refine ⟨.token written t :: parts, ⟨hwritten, hlayout⟩, ?_, htokens.symm,
          List.forall_mem_cons.mpr ⟨rfl, hplain⟩⟩
        rw [textOf_cons, htext, hwhole, Part.text]
      rw [Token.scanFrom?_cons] at h
      obtain ⟨found, hstep, hrest⟩ := Option.bind_eq_some_iff.mp h
      obtain ⟨others, hothers, rfl⟩ := Option.map_eq_some_iff.mp hrest
      rcases Token.begin?_cases hstep with ⟨hspace, rfl⟩ | ⟨t, rfl, -⟩ | ⟨rfl, rfl⟩ | ⟨hword, rfl⟩
      · obtain ⟨parts, hlayout, htext, rfl, hplain⟩ := ih _ (Nat.lt_succ_self _) hothers rfl
        refine ⟨.space c :: parts, ⟨hspace, hlayout⟩, ?_, rfl, List.forall_mem_cons.mpr ⟨rfl, hplain⟩⟩
        rw [textOf_cons, htext]
        rfl
      · exact hpart (.mark hstep) rfl hothers rfl
      · obtain ⟨written, after, s, others', rfl, hcompletes, hafter, rfl⟩ := Token.exists_completes rfl hothers
        exact hpart (.string hcompletes) rfl hafter rfl
      · have hinside : ∀ d ∈ rest.takeWhile Token.isWordPart, Token.isWordPart d = true := fun d hd =>
          List.mem_takeWhile_imp hd
        have hend : EndsWord (rest.dropWhile Token.isWordPart) := by
          intro d hd
          have hnot := List.head?_dropWhile_not Token.isWordPart rest
          rwa [hd] at hnot
        rw [← List.takeWhile_append_dropWhile (p := Token.isWordPart) (l := rest),
          Token.scanFrom?_within _ _ _ hinside, Token.scanFrom?_word _ hend] at hothers
        obtain ⟨value, hvalue, hafter⟩ := Option.bind_eq_some_iff.mp hothers
        obtain ⟨others', hothers', rfl⟩ := Option.map_eq_some_iff.mp hafter
        have hwritten : Token.Written (.scalar value) (c :: rest.takeWhile Token.isWordPart) :=
          .word ⟨List.cons_ne_nil _ _, List.forall_mem_cons.mpr ⟨hword, hinside⟩⟩ (by simpa using hvalue)
        exact hpart hwritten (congrArg (c :: ·) (List.takeWhile_append_dropWhile ..).symm) hothers' rfl

/-- Where no comma comes right before a closing bracket, only comments are taken out. -/
lemma kept_of_isChain (h : (tokensOf parts).IsChain Follows) : kept parts = parts.filter fun p => !p.isComment := by
  induction parts with
  | nil => rfl
  | cons p rest ih =>
    cases p with
    | token written t =>
      have hchain : (t :: tokensOf rest).IsChain Follows := h
      rw [kept, if_neg, ih hchain.tail]
      · rfl
      · rw [Bool.and_eq_true]
        rintro ⟨hcomma, hahead⟩
        obtain ⟨next, hnext, hcloses⟩ := head?_of_closesAhead hahead
        rw [(hchain.rel_head? hnext).1 hcomma] at hcloses
        cases hcloses
    | space c => exact congrArg (Part.space c :: ·) (ih h)
    | line comment => exact ih h
    | block comment => exact ih h

lemma tokensOf_filter (parts : List Part) : tokensOf (parts.filter fun p => !p.isComment) = tokensOf parts := by
  induction parts with
  | nil => rfl
  | cons p rest ih =>
    cases p with
    | token written t => exact congrArg (t :: ·) ih
    | space c => exact ih
    | line comment => exact ih
    | block comment => exact ih

/-- Comments between the tokens of a text do not change its value: a row of its tokens, with white space and comments
between them as one likes, is read as the text is. Without comments nothing is taken out. -/
theorem comments_keep_value {t : Text} {value : Json} (h : parse t = .ok value) :
    dropNoise t = t ∧ ∀ parts, IsLayout parts → Token.scan? t = some (tokensOf parts) →
      parse (dropNoise (textOf parts)) = .ok value := by
  obtain ⟨tokens, hscan, hread, hlong⟩ := parse_eq_ok_iff.mp h
  have hchain := isChain_of_readFrom? hread
  constructor
  · obtain ⟨parts, hlayout, rfl, rfl, hplain⟩ := exists_layout hscan
    rw [dropNoise_textOf hlayout, kept_of_isChain hchain, List.filter_eq_self.mpr fun p hp => by simp [hplain p hp]]
  · intro parts hlayout hsame
    obtain rfl := Option.some.inj (hscan.symm.trans hsame)
    have hleft := scan_kept hlayout (hchain.imp fun a b hfollows => hfollows.2)
    rw [← dropNoise_textOf hlayout, kept_of_isChain hchain, tokensOf_filter] at hleft
    exact parse_eq_ok_iff.mpr ⟨_, hleft, hread, hlong⟩

/-- An object whose name and item hold the marks of comments, of strings and of what a comma is looked for before. -/
def markedText : Text :=
  "\x7b\"//\":[1,\",]\"]\x7d"

/-- The same object with comments that hold such marks, too. -/
def markedParts : List Part :=
  [.block " \" ", .token "\x7b" .openObject, .token "\"//\"" (.scalar (.string "//")), .line "/*\"", .space '\n',
    .token ":" .colon, .token "[" .openArray, .token "1" (.scalar (.integer 1)), .block ",]", .token "," .comma,
    .block "*", .token "\",]\"" (.scalar (.string ",]")), .token "]" .closeArray, .token "\x7d" .closeObject,
    .line " \\"]

lemma isLayout_markedParts : IsLayout markedParts := by
  have hname : Token.Written (.scalar (.string "//")) "\"//\"" := .string (.step rfl (.step rfl (.close _ _)))
  have hitem : Token.Written (.scalar (.string ",]")) "\",]\"" := .string (.step rfl (.step rfl (.close _ _)))
  have hnumber : Token.Written (.scalar (.integer 1)) "1" := .word ⟨by decide, by decide⟩ rfl
  have hline : ∀ d, (textOf (markedParts.drop 4)).head? = some d → d = '\n' := fun d hd => (Option.some.inj hd).symm
  exact ⟨by decide, .mark rfl, hname, by decide, hline, rfl, .mark rfl, .mark rfl, hnumber, by decide, .mark rfl,
    by decide, hitem, .mark rfl, .mark rfl, by decide, (fun d hd => nomatch hd), trivial⟩

/-- The object is read alike with the comments and without them. -/
theorem comments_keep_value_marks :
    parse markedText = .ok (.object [("//", .array [.integer 1, .string ",]"])]) ∧
      parse (dropNoise (textOf markedParts)) = .ok (.object [("//", .array [.integer 1, .string ",]"])]) := by
  have hparse : parse markedText = .ok (.object [("//", .array [.integer 1, .string ",]"])]) :=
    parse_eq_ok_iff.mpr ⟨tokensOf markedParts, rfl, rfl, by decide +kernel⟩
  exact ⟨hparse, (comments_keep_value hparse).2 markedParts isLayout_markedParts rfl⟩

end PackageExports.Json