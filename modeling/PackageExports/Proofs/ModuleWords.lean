import PackageExports.ModuleKind
import PackageExports.Proofs.CleanPaths

/-!
# Words of module syntax

A text is searched for `import` and `export`, each as a word of its own. A word is seen only if white space follows, or,
for `import`, a parenthesis: what stands before a word and behind it is then searched on its own, so that a word with
anything else right after it makes no difference.

Main results: `Text.anyPlace_append`, `ModuleKind.beginsModuleSyntax_before`, `ModuleKind.sniff_word_iff`.
-/

namespace PackageExports

namespace Text

variable {holds : Option CodePoint → Text → Bool} {before : Option CodePoint} {a t word rest : Text}

/-- The places of a text are those of its front part, from which the rest can be seen, and those of the rest. -/
lemma anyPlace_append : anyPlace holds before (a ++ t) = true ↔
    (∃ front back, a = front ++ back ∧ back ≠ [] ∧ holds (front.getLast?.or before) (back ++ t) = true) ∨
      anyPlace holds (a.getLast?.or before) t = true := by
  induction a generalizing before with
  | nil => simp
  | cons c a ih =>
    have hlast (front : Text) : (c :: front).getLast?.or before = front.getLast?.or (some c) := by
      rw [List.getLast?_cons]
      cases front.getLast? <;> rfl
    rw [List.cons_append, anyPlace, Bool.or_eq_true, ih, hlast, ← or_assoc]
    refine or_congr_left ⟨?_, ?_⟩
    · rintro (hhere | ⟨front, back, rfl, hne, hback⟩)
      · exact ⟨[], c :: a, rfl, List.cons_ne_nil _ _, hhere⟩
      · exact ⟨c :: front, back, rfl, hne, (hlast front).symm ▸ hback⟩
    · rintro ⟨front, back, heq, hne, hback⟩
      cases front with
      | nil =>
        obtain rfl : c :: a = back := heq
        exact .inl hback
      | cons d front =>
        obtain ⟨rfl, rfl⟩ := List.cons.inj heq
        exact .inr ⟨front, back, rfl, hne, hlast front ▸ hback⟩

lemma anyPlace_iff : anyPlace holds before a = true ↔
    ∃ front back, a = front ++ back ∧ back ≠ [] ∧ holds (front.getLast?.or before) back = true := by
  have h : anyPlace holds before (a ++ []) = true ↔ _ := anyPlace_append
  simpa [anyPlace] using h

lemma dropStart?_before (hword : ∀ c ∈ word, c.isWord = true) {last : CodePoint} (hlast : last.isWord = false)
    (front rest : Text) :
    dropStart? word (front ++ last :: rest) = (dropStart? word front).map (· ++ last :: rest) := by
  induction word generalizing front with
  | nil => rfl
  | cons c word ih =>
    obtain ⟨hc, hword⟩ := List.forall_mem_cons.mp hword
    cases front with
    | nil =>
      have hne : c ≠ last := by
        rintro rfl
        rw [hc] at hlast
        cases hlast
      exact if_neg hne
    | cons d front =>
      rw [List.cons_append, dropStart?, dropStart?]
      split_ifs
      · exact ih hword front
      · rfl

lemma head?_dropWhile_append {skip : CodePoint → Bool} {mark next : CodePoint} (hskip : skip next = false)
    (hmark : next ≠ mark) (t rest : Text) :
    ((t ++ next :: rest).dropWhile skip).head? = some mark ↔ (t.dropWhile skip).head? = some mark := by
  induction t with
  | nil => simp [hskip, hmark]
  | cons c t ih =>
    rw [List.cons_append, List.dropWhile_cons, List.dropWhile_cons]
    split_ifs
    · exact ih
    · rfl

end Text

namespace ModuleKind

variable {before : Option CodePoint} {a b front rest word : Text} {c last next : CodePoint}

/-! ### What stands before a word -/

lemma wordThenBlank_before (hword : ∀ c ∈ word, c.isWord = true) (hlast : last.isWord = false) (front rest : Text) :
    wordThenBlank word (front ++ last :: rest) = wordThenBlank word (front ++ [last]) := by
  unfold wordThenBlank
  rw [Text.dropStart?_before hword hlast, Text.dropStart?_before hword hlast]
  cases Text.dropStart? word front with
  | none => rfl
  | some after => cases after <;> rfl

lemma wordThenMark_before (hword : ∀ c ∈ word, c.isWord = true) (hlast : last.isWord = false)
    {mark : CodePoint} (hblank : next.isBlank = false) (hmark : next ≠ mark) (front rest : Text) :
    wordThenMark word mark (front ++ last :: next :: rest) = wordThenMark word mark (front ++ [last]) := by
  unfold wordThenMark
  rw [Text.dropStart?_before hword hlast, Text.dropStart?_before hword hlast]
  cases Text.dropStart? word front with
  | none => rfl
  | some after =>
    have hsame := Text.head?_dropWhile_append hblank hmark (after ++ [last]) rest
    rw [List.append_assoc, List.singleton_append] at hsame
    exact decide_eq_decide.mpr hsame

lemma beginsModuleSyntax_before (hlast : last.isWord = false) (hblank : next.isBlank = false)
    (hmark : next ≠ CodePoint.ofChar '(') (before : Option CodePoint) (front rest : Text) :
    beginsModuleSyntax before (front ++ last :: next :: rest) = beginsModuleSyntax before (front ++ [last]) := by
  have himport : ∀ c ∈ Text.ofString "import", c.isWord = true := by decide
  have hexport : ∀ c ∈ Text.ofString "export", c.isWord = true := by decide
  unfold beginsModuleSyntax
  rw [wordThenBlank_before himport hlast, wordThenBlank_before hexport hlast,
    wordThenMark_before himport hlast hblank hmark]

lemma exists_place_before (hbegin : wordMayBegin a.getLast? = true) (hblank : next.isBlank = false)
    (hmark : next ≠ CodePoint.ofChar '(') (rest : Text) :
    (∃ front back, a = front ++ back ∧ back ≠ [] ∧
      beginsModuleSyntax (front.getLast?.or none) (back ++ next :: rest) = true) ↔
      Text.anyPlace beginsModuleSyntax none a = true := by
  rw [Text.anyPlace_iff]
  refine exists_congr fun front => exists_congr fun back => and_congr_right fun ha => and_congr_right fun hback => ?_
  obtain ⟨inner, last, rfl⟩ := (List.eq_nil_or_concat' back).resolve_left hback
  have hlast : last.isWord = false := by
    rw [ha, ← List.append_assoc, List.getLast?_concat] at hbegin
    simpa [wordMayBegin] using hbegin
  rw [List.append_assoc, List.singleton_append, beginsModuleSyntax_before hlast hblank hmark]

/-! ### What stands behind it -/

lemma beginsModuleSyntax_of_not (hbefore : wordMayBegin before = false) (t : Text) :
    beginsModuleSyntax before t = false := by
  rw [beginsModuleSyntax, hbefore, Bool.false_and]

lemma anyPlace_behind (hend : c.isWord = false) (b : Text) :
    Text.anyPlace beginsModuleSyntax (some c) b = Text.anyPlace beginsModuleSyntax none b := by
  cases b with
  | nil => rfl
  | cons d b =>
    have hsame : beginsModuleSyntax (some c) (d :: b) = beginsModuleSyntax none (d :: b) := by
      unfold beginsModuleSyntax
      rw [wordMayBegin, hend]
      rfl
    rw [Text.anyPlace, Text.anyPlace, hsame]

/-- No word begins inside a word or at its end. -/
lemma anyPlace_inside {d : CodePoint} (hd : d.isWord = true) (hword : ∀ c ∈ word, c.isWord = true)
    (hend : c.isWord = false) (b : Text) :
    Text.anyPlace beginsModuleSyntax (some d) (word ++ c :: b) = Text.anyPlace beginsModuleSyntax none b := by
  have hinside : wordMayBegin (some d) = false := by rw [wordMayBegin, hd]; rfl
  induction word generalizing d with
  | nil =>
    rw [List.nil_append, Text.anyPlace, beginsModuleSyntax_of_not hinside, Bool.false_or, anyPlace_behind hend]
  | cons e word ih =>
    obtain ⟨he, hword⟩ := List.forall_mem_cons.mp hword
    rw [List.cons_append, Text.anyPlace, beginsModuleSyntax_of_not hinside, Bool.false_or]
    exact ih he hword (by rw [wordMayBegin, he]; rfl)

/-! ### The word itself -/

def moduleWords : List Text :=
  ["import", "export"]

/-- A word of module syntax by its first letter and the others. -/
structure IsModuleWord (first : CodePoint) (others : Text) : Prop where
  mem : first :: others ∈ moduleWords
  not_blank : first.isBlank = false
  not_mark : first ≠ CodePoint.ofChar '('
  first_isWord : first.isWord = true
  others_isWord : ∀ c ∈ others, c.isWord = true

lemma exists_isModuleWord (hword : word ∈ moduleWords) : ∃ first others, word = first :: others ∧
    IsModuleWord first others := by
  rcases List.mem_pair.mp hword with rfl | rfl
  · exact ⟨'i', "mport", rfl, hword, by decide, by decide, by decide, by decide⟩
  · exact ⟨'e', "xport", rfl, hword, by decide, by decide, by decide, by decide⟩

lemma beginsModuleSyntax_word (hword : word ∈ moduleWords) (hbegin : wordMayBegin before = true) (b : Text) :
    beginsModuleSyntax before (word ++ c :: b) = true ↔ c.isBlank = true ∨
      word = "import" ∧ ((c :: b).dropWhile CodePoint.isBlank).head? = some (CodePoint.ofChar '(') := by
  have hrest : Text.dropStart? word (word ++ c :: b) = some (c :: b) := Text.dropStart?_eq_some.mpr rfl
  rcases List.mem_pair.mp hword with rfl | rfl
  · have hother : Text.dropStart? (Text.ofString "export") (Text.ofString "import" ++ c :: b) = none := rfl
    simp [beginsModuleSyntax, wordThenBlank, wordThenMark, hbegin, hrest, hother]
  · have hother : Text.dropStart? (Text.ofString "import") (Text.ofString "export" ++ c :: b) = none := rfl
    have hne : Text.ofString "export" ≠ "import" := by decide
    simp [beginsModuleSyntax, wordThenBlank, wordThenMark, hbegin, hrest, hother, hne]

lemma sniff_eq_esm_iff (t : Text) : sniff t = .esm ↔ Text.anyPlace beginsModuleSyntax none t = true := by
  unfold sniff
  split_ifs with hesm hcjs <;> simp [hesm]

/-- A text with `import` or `export` as a word of its own shows an ES module if and only if white space follows this word,
or a parenthesis follows `import`, or the text before the word or the one behind shows it. So the word by itself decides
if white space follows, or a parenthesis `import`, whatever else is in the text; and it makes no difference if anything
else follows, such as a brace, an asterisk or a quotation mark. -/
theorem sniff_word_iff (hword : word ∈ moduleWords) (hbegin : wordMayBegin a.getLast? = true)
    (hend : c.isBlank = true ∨ c.isWord = false) (b : Text) :
    sniff (a ++ word ++ c :: b) = .esm ↔
      (c.isBlank = true ∨ word = "import" ∧ c = CodePoint.ofChar '(') ∨ sniff a = .esm ∨ sniff b = .esm := by
  obtain ⟨first, others, rfl, h⟩ := exists_isModuleWord hword
  have hhere := beginsModuleSyntax_word (c := c) hword hbegin b
  rw [sniff_eq_esm_iff, sniff_eq_esm_iff, sniff_eq_esm_iff, List.append_assoc, Text.anyPlace_append]
  by_cases hblank : c.isBlank = true
  · -- the word itself is found, whatever is before it
    refine iff_of_true (.inr ?_) (.inl (.inl hblank))
    rw [Option.or_none, List.cons_append, Text.anyPlace, Bool.or_eq_true]
    exact .inl (hhere.mpr (.inl hblank))
  · have hnotWord := hend.resolve_left hblank
    -- three parts of the text are searched one after the other: before the word, the word, and behind it
    have hmark : ((c :: b).dropWhile CodePoint.isBlank).head? = some c := by
      rw [List.dropWhile_cons_of_neg hblank, List.head?_cons]
    rw [hmark, Option.some_inj] at hhere
    rw [Option.or_none, List.cons_append, exists_place_before hbegin h.not_blank h.not_mark, Text.anyPlace,
      Bool.or_eq_true, ← List.cons_append, hhere, anyPlace_inside h.first_isWord h.others_isWord hnotWord]
    tauto

/-- Spaced words decide among words of the other syntax. -/
theorem spaced_export_is_esm : wordMayBegin (Text.ofString "module.exports={};").getLast? = true ∧
    sniff (Text.ofString "module.exports={};" ++ "export" ++ CodePoint.ofChar ' ' :: "default require(1)") = .esm := by
  have hbegin : wordMayBegin (Text.ofString "module.exports={};").getLast? = true := by decide
  exact ⟨hbegin, (sniff_word_iff (by decide) hbegin (.inl (by decide)) _).mpr (.inl (.inl (by decide)))⟩

/-- Without the space an export is missed, and so is an import. -/
theorem tight_words_missed : sniff "export{x}" = .unknown ∧ sniff "import{a}from'm';exports.a=a" = .cjs := by
  decide

end ModuleKind

end PackageExports
