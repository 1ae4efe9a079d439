import PackageExports.Json.Comments
import PackageExports.Proofs.Tokens

/-!
# How tokens are written and which may follow each other

A token is a mark, a word or a string with its marks. A string ends where the automaton of the reader leaves it, and
every token is scanned as itself, if a word is not written on. In a value no closing bracket comes right after a comma,
and no scalar right after a scalar.

Main results: `Json.Token.Written.scan`, `Json.Token.exists_completes`, `Json.isChain_of_readFrom?`.
-/

namespace PackageExports.Json

open Token (Scan EndsWord IsWord)

/-! ### Tokens as they are written -/

namespace Token

def isScalar : Token → Bool
  | scalar _ => true
  | _ => false

def isComma : Token → Bool
  | comma => true
  | _ => false

/-- Whether a token ends an array or an object. -/
def closes : Token → Bool
  | closeObject | closeArray => true
  | _ => false

def Scan.inString : Scan → Bool
  | .string .. | .escape .. | .unicode .. => true
  | _ => false

def Scan.isEscape : Scan → Bool
  | .escape .. => true
  | _ => false

/-- What is written of a string from a state of the automaton to the closing mark, and the text of the string. -/
inductive Completes : Scan → Text → Text → Prop where
  | close (read : Text) (afterHigh : Bool) : Completes (.string read afterHigh) ['"'] read.reverse
  | step {state next : Scan} {c : CodePoint} {written t : Text} (h : step? state c = some ([], next))
    (hnext : Completes next written t) : Completes state (c :: written) t

/-- The ways of writing a token. -/
inductive Written : Token → Text → Prop where
  | mark {c : CodePoint} {t : Token} (h : begin? c = some ([t], .between)) : Written t [c]
  | word {written : Text} {value : Json} (h : IsWord written) (hvalue : wordValue? written = some value) :
    Written (scalar value) written
  | string {written t : Text} (h : Completes (.string [] false) written t) :
    Written (scalar (.string t)) ('"' :: written)

variable {state : Scan} {c : CodePoint} {t : Token} {written rest s : Text} {tokens : List Token}

lemma eq_comma (h : t.isComma = true) : t = comma := by
  cases t <;> first | rfl | cases h

lemma step_inString {found : List Token × Scan} (hstate : state.inString = true) (h : step? state c = some found) :
    (∃ read afterHigh, state = .string read afterHigh ∧ c = '"' ∧
      found = ([scalar (.string read.reverse)], .between)) ∨
      (found.1 = [] ∧ found.2.inString = true ∧
        ∀ rest, stringEnd? state.isEscape (c :: rest) = (stringEnd? found.2.isEscape rest).map (· + 1)) := by
  cases state with
  | between => cases hstate
  | word read => cases hstate
  | string read afterHigh =>
    rw [step?] at h
    split_ifs at h with hquote hescape
    · exact .inl ⟨read, afterHigh, rfl, hquote, (Option.some.inj h).symm⟩
    · obtain rfl := Option.some.inj h
      subst hescape
      exact .inr ⟨rfl, rfl, fun rest => rfl⟩
    · obtain rfl := Option.some.inj h
      exact .inr ⟨rfl, rfl, fun rest => by simp [stringEnd?, Scan.isEscape, hquote, hescape]⟩
  | escape read afterHigh =>
    rw [step?] at h
    split_ifs at h with hunicode
    · obtain rfl := Option.some.inj h
      exact .inr ⟨rfl, rfl, fun rest => by simp [stringEnd?, Scan.isEscape]⟩
    · obtain ⟨e, -, rfl⟩ := Option.map_eq_some_iff.mp h
      exact .inr ⟨rfl, rfl, fun rest => by simp [stringEnd?, Scan.isEscape]⟩
  | unicode read afterHigh digits value =>
    rw [step?] at h
    obtain ⟨d, hd, rfl⟩ := Option.map_eq_some_iff.mp h
    have hdigit {e : CodePoint} (he : e.hexValue? = none) : c ≠ e := by
      rintro rfl
      rw [he] at hd
      cases hd
    have hquote := hdigit (e := '"') (by decide)
    have hescape := hdigit (e := '\\') (by decide)
    right
    split_ifs
    · unfold afterUnicode
      split <;> exact ⟨rfl, rfl, fun rest => by simp [stringEnd?, Scan.isEscape, hquote, hescape]⟩
    · exact ⟨rfl, rfl, fun rest => by simp [stringEnd?, Scan.isEscape, hquote, hescape]⟩

lemma Completes.scan (h : Completes state written s) (rest : Text) :
    scanFrom? state (written ++ rest) = (scanFrom? .between rest).map (scalar (.string s) :: ·) := by
  induction h with
  | close read afterHigh => exact scanFrom?_token rfl rest
  | step hstep _ ih =>
    rw [List.cons_append, scanFrom?_silent hstep]
    exact ih

lemma Completes.stringEnd (h : Completes state written s) (hstate : state.inString = true) (rest : Text) :
    stringEnd? state.isEscape (written ++ rest) = some written.length := by
  induction h with
  | close read afterHigh => rfl
  | step hstep hnext ih =>
    rcases step_inString hstate hstep with ⟨read, afterHigh, -, -, hfound⟩ | ⟨-, hinside, hend⟩
    · cases congrArg Prod.fst hfound
    · rw [List.cons_append, hend, ih hinside]
      rfl

/-- A text that is scanned from the middle of a string completes the string first. -/
lemma exists_completes {whole : Text} (hstate : state.inString = true) (h : scanFrom? state whole = some tokens) :
    ∃ written rest s others, whole = written ++ rest ∧ Completes state written s ∧
      scanFrom? .between rest = some others ∧ tokens = scalar (.string s) :: others := by
  induction whole generalizing state tokens with
  | nil =>
    cases state with
    | between | word => cases hstate
    | string | escape | unicode => simp [scanFrom?] at h
  | cons c rest ih =>
    rw [scanFrom?_cons] at h
    obtain ⟨found, hstep, hrest⟩ := Option.bind_eq_some_iff.mp h
    obtain ⟨others, hothers, rfl⟩ := Option.map_eq_some_iff.mp hrest
    rcases step_inString hstate hstep with ⟨read, afterHigh, rfl, rfl, rfl⟩ | ⟨hsilent, hinside, -⟩
    · exact ⟨['"'], rest, read.reverse, others, rfl, .close read afterHigh, hothers, rfl⟩
    · obtain ⟨written, after, s, others', rfl, hcompletes, hafter, rfl⟩ := ih hinside hothers
      refine ⟨c :: written, after, s, others', rfl, .step ?_ hcompletes, hafter, by rw [hsilent, List.nil_append]⟩
      rw [hstep, ← hsilent]

lemma begin?_cases {found : List Token × Scan} (h : begin? c = some found) :
    (isSpace c = true ∧ found = ([], .between)) ∨
      (∃ t, found = ([t], .between) ∧ t.isScalar = false ∧ (t.closes = true ↔ c = '}' ∨ c = ']') ∧
        (t.isComma = true ↔ c = ',') ∧ c ∈ [CodePoint.ofChar '{', '}', '[', ']', ',', ':']) ∨
      (c = '"' ∧ found = ([], .string [] false)) ∨ (isWordPart c = true ∧ found = ([], .word [c])) := by
  unfold begin? at h
  split_ifs at h with hspace hopen hclose hopenArray hcloseArray hcomma hcolon hquote hword <;>
    obtain rfl := Option.some.inj h
  · exact .inl ⟨hspace, rfl⟩
  · exact .inr (.inl ⟨openObject, rfl, by subst hopen; decide⟩)
  · exact .inr (.inl ⟨closeObject, rfl, by subst hclose; decide⟩)
  · exact .inr (.inl ⟨openArray, rfl, by subst hopenArray; decide⟩)
  · exact .inr (.inl ⟨closeArray, rfl, by subst hcloseArray; decide⟩)
  · exact .inr (.inl ⟨comma, rfl, by subst hcomma; decide⟩)
  · exact .inr (.inl ⟨colon, rfl, by subst hcolon; decide⟩)
  · exact .inr (.inr (.inl ⟨hquote, rfl⟩))
  · exact .inr (.inr (.inr ⟨hword, rfl⟩))

lemma mark_cases (h : begin? c = some ([t], .between)) :
    t.isScalar = false ∧ (t.closes = true ↔ c = '}' ∨ c = ']') ∧ (t.isComma = true ↔ c = ',') ∧
      c ∈ [CodePoint.ofChar '{', '}', '[', ']', ',', ':'] := by
  rcases begin?_cases h with ⟨-, hfound⟩ | ⟨t', hfound, hmark⟩ | ⟨-, hfound⟩ | ⟨-, hfound⟩
  · cases hfound
  · cases hfound
    exact hmark
  · cases hfound
  · cases hfound

lemma plain_of_isWordPart (h : isWordPart c = true) :
    c.isBlank = false ∧ c ≠ '"' ∧ c ≠ '/' ∧ c ≠ ',' ∧ c ≠ '}' ∧ c ≠ ']' := by
  have hne {d : CodePoint} (hd : isWordPart d = false) : c ≠ d := by
    rintro rfl
    rw [h] at hd
    cases hd
  refine ⟨?_, hne (by decide), hne (by decide), hne (by decide), hne (by decide), hne (by decide)⟩
  have hval : 43 ≤ c.val ∧ c.val ≤ 122 := by
    obtain ⟨n⟩ := c
    change 43 ≤ n ∧ n ≤ 122
    simp only [isWordPart, CodePoint.isLetter, CodePoint.isLower, CodePoint.isUpper, CodePoint.isDigit, Bool.or_eq_true,
      Bool.and_eq_true, decide_eq_true_eq, beq_iff_eq, CodePoint.ofChar, CodePoint.mk.injEq, Char.reduceToNat] at h
    omega
  simp only [CodePoint.isBlank, CodePoint.isSpace, Bool.or_eq_false_iff, Bool.and_eq_false_iff, decide_eq_false_iff_not,
    beq_eq_false_iff_ne]
  omega

/-- White space is neither a mark nor a part of a word, and the search for a bracket passes over it. -/
lemma plain_of_isSpace (h : isSpace c = true) :
    c.isBlank = true ∧ isWordPart c = false ∧ c ≠ '"' ∧ c ≠ '/' ∧ c ≠ ',' := by
  simp only [isSpace, Bool.or_eq_true, beq_iff_eq] at h
  rcases h with ((rfl | rfl) | rfl) | rfl <;> decide

/-- How a token begins shows whether it closes anything, and whether it may come right after a word. -/
lemma Written.head (h : Written t written) :
    ∃ c more, written = c :: more ∧ c.isBlank = false ∧ (t.closes = true ↔ c = '}' ∨ c = ']') ∧
      (t.isScalar = false → isWordPart c = false) := by
  cases h with
  | mark hmark =>
    rename_i c
    obtain ⟨-, hcloses, -, hmem⟩ := mark_cases hmark
    have hblank : ∀ d ∈ [CodePoint.ofChar '{', '}', '[', ']', ',', ':'], d.isBlank = false ∧ isWordPart d = false := by
      decide
    exact ⟨c, [], rfl, (hblank c hmem).1, hcloses, fun _ => (hblank c hmem).2⟩
  | word hword hvalue =>
    obtain ⟨c, more, rfl⟩ := List.exists_cons_of_ne_nil hword.ne_nil
    obtain ⟨hblank, -, -, -, hobject, harray⟩ := plain_of_isWordPart (hword.parts c List.mem_cons_self)
    exact ⟨c, more, rfl, hblank, by simp [closes, hobject, harray], fun hscalar => by cases hscalar⟩
  | string hcompletes => exact ⟨_, _, rfl, by decide, by simp [closes]; decide, fun hscalar => by cases hscalar⟩

lemma Written.scan (h : Written t written) (hrest : t.isScalar = true → EndsWord rest) :
    scanFrom? .between (written ++ rest) = (scanFrom? .between rest).map (t :: ·) := by
  cases h with
  | mark hmark => exact scanFrom?_token (s := .between) hmark rest
  | word hword hvalue => exact scan_word hword hvalue (hrest rfl)
  | string hcompletes =>
    rw [List.cons_append, scanFrom?_silent (s := .between) (n := .string [] false) rfl]
    exact hcompletes.scan rest

end Token

/-! ### The tokens of a value -/

lemma read?_comma {p q : Progress} (h : read? p .comma = some q) :
    ∃ frames, q = .within .value frames ∨ q = .within .key frames := by
  rcases p with ⟨demand, _ | ⟨_ | _ | _, frames⟩⟩ | value <;> try cases demand
  all_goals first | (cases h; done) | skip
  · exact ⟨_, .inl (Option.some.inj h).symm⟩
  · exact ⟨_, .inr (Option.some.inj h).symm⟩

lemma deliver_scalar (value : Json) (frames : List Frame) (v : Json) :
    read? (deliver value frames) (.scalar v) = none := by
  rcases frames with _ | ⟨_ | _ | _, frames⟩ <;> rfl

lemma read?_scalar {p q : Progress} {value : Json} (h : read? p (.scalar value) = some q) (v : Json) :
    read? q (.scalar v) = none := by
  have hvalue {frames : List Frame} (h : beginValue? frames (.scalar value) = some q) : read? q (.scalar v) = none :=
    Option.some.inj h ▸ deliver_scalar value frames v
  have hname {frames : List Frame} (h : beginMember? frames (.scalar value) = some q) : read? q (.scalar v) = none := by
    rcases frames with _ | ⟨_ | _ | _, frames⟩ <;> cases value <;> first | (cases h; done) | skip
    obtain rfl := Option.some.inj h
    rfl
  cases p with
  | complete => cases h
  | within demand frames =>
    cases demand with
    | value => exact hvalue h
    | valueOrClose => rcases frames with _ | ⟨_ | _ | _, frames⟩ <;> exact hvalue h
    | key => exact hname h
    | keyOrClose => rcases frames with _ | ⟨_ | _ | _, frames⟩ <;> first | exact hname h | cases h
    | colon => cases h
    | separator => rcases frames with _ | ⟨_ | _ | _, frames⟩ <;> cases h

/-- Whether a token may come right after another one: no closing bracket after a comma, and no scalar after a scalar. -/
def Follows (a b : Token) : Prop :=
  (a.isComma = true → b.closes = false) ∧ (a.isScalar = true → b.isScalar = false)

lemma follows_of_read? {p q r : Progress} {a b : Token} (ha : read? p a = some q) (hb : read? q b = some r) :
    Follows a b := by
  constructor
  · intro hcomma
    cases a with
    | comma =>
      obtain ⟨frames, rfl | rfl⟩ := read?_comma ha
      · cases b <;> first | rfl | cases hb
      · rcases frames with _ | ⟨_ | _ | _, frames⟩ <;> cases b <;> first | rfl | cases hb
    | openObject | closeObject | openArray | closeArray | colon | scalar => cases hcomma
  · intro hscalar
    cases a with
    | scalar value =>
      cases b with
      | scalar v =>
        rw [read?_scalar ha] at hb
        cases hb
      | openObject | closeObject | openArray | closeArray | comma | colon => rfl
    | openObject | closeObject | openArray | closeArray | colon | comma => cases hscalar

/-- The tokens of a value may come one after the other. -/
theorem isChain_of_readFrom? {p : Progress} {tokens : List Token} {value : Json}
    (h : readFrom? p tokens = some value) : tokens.IsChain Follows := by
  have hcons {p : Progress} {a : Token} {rest : List Token} (h : readFrom? p (a :: rest) = some value) :
      ∃ q, read? p a = some q ∧ readFrom? q rest = some value := by
    rw [readFrom?] at h
    cases hread : read? p a with
    | none =>
      rw [hread] at h
      cases h
    | some q => exact ⟨q, rfl, by rwa [hread] at h⟩
  induction tokens generalizing p with
  | nil => exact .nil
  | cons a rest ih =>
    obtain ⟨q, ha, hrest⟩ := hcons h
    cases rest with
    | nil => exact .singleton a
    | cons b rest =>
      obtain ⟨r, hb, -⟩ := hcons hrest
      exact .cons_cons (follows_of_read? ha hb) (ih hrest)

lemma parse_eq_ok_iff {t : Text} {value : Json} :
    parse t = .ok value ↔ ∃ tokens, Token.scan? t = some tokens ∧ ofTokens? tokens = some value ∧
      tokens.any Token.isLongInteger = false := by
  unfold parse
  cases Token.scan? t with
  | none => simp
  | some tokens =>
    cases hread : ofTokens? tokens with
    | none => simp [hread]
    | some v =>
      cases hlong : tokens.any Token.isLongInteger with
      | false =>
        simp only [Bool.false_eq_true, if_false, Except.ok.injEq, Option.some.injEq, exists_eq_left', hread, hlong,
          and_true]
      | true =>
        simp only [if_true, Option.some.injEq, exists_eq_left', hread, hlong, Bool.true_eq_false, and_false,
          reduceCtorEq]

end PackageExports.Json
