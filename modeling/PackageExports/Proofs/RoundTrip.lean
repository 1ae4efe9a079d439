import PackageExports.Proofs.Keyed
import PackageExports.Proofs.Tokens
import PackageExports.Proofs.Utf8

/-!
# Printed values are read back

`Json.parse` gives kept values, and it gives each kept value back from its printed text. The text holds no carriage
return, so it also survives being written to a file and read with its line ends unified.
-/

namespace PackageExports

namespace Json

/-- Where a value is read: at the start of an array the first token must not close it. -/
lemma read_valueOrClose (value : Json) (frames : List Frame) (rest : List Token) :
    readFrom? (.within .valueOrClose frames) (tokens value ++ rest) =
      readFrom? (.within .value frames) (tokens value ++ rest) := by
  have hfirst {t : Token} (ht : t ≠ .closeArray) (others : List Token) :
      readFrom? (.within .valueOrClose frames) (t :: others) = readFrom? (.within .value frames) (t :: others) := by
    have hread : read? (.within .valueOrClose frames) t = read? (.within .value frames) t := by
      cases t <;> first | exact absurd rfl ht | (cases frames with
        | nil => rfl
        | cons f frames => cases f <;> rfl)
    simp only [readFrom?, hread]
  match value with
  | .null | .bool _ | .integer _ | .real _ | .string _ => exact hfirst (by simp) _
  | .array [] | .array (_ :: _) => exact hfirst (by simp) _
  | .object [] | .object (_ :: _) => exact hfirst (by simp) _

/-- Whether the name of a member may come next. -/
def Demand.wantsName : Demand → Bool
  | .key | .keyOrClose => true
  | _ => false

mutual

/-- Reading the tokens of a value delivers the value. -/
theorem read_tokens (value : Json) (hvalue : value.Kept) (frames : List Frame) (rest : List Token) :
    readFrom? (.within .value frames) (tokens value ++ rest) = readFrom? (deliver value frames) rest := by
  match value with
  | .null | .bool _ | .integer _ | .real _ | .string _ => rfl
  | .array [] => rfl
  | .array (item :: items) =>
    rw [Kept, KeptItems] at hvalue
    rw [tokens, List.cons_append, List.append_assoc, List.append_assoc, readFrom?]
    simp only [read?, beginValue?]
    rw [read_valueOrClose, read_tokens item hvalue.1]
    exact read_items items hvalue.2 [item] frames rest
  | .object [] => rfl
  | .object (member :: members) =>
    rw [Kept, KeptMembers] at hvalue
    rw [tokens, List.cons_append, List.append_assoc, List.append_assoc, readFrom?]
    simp only [read?, beginValue?]
    rw [read_member .keyOrClose rfl member hvalue.2.1, read_members members hvalue.2.2, List.reverse_singleton,
      List.singleton_append, Keyed.ofPairs_of_nodup hvalue.1]
termination_by structural value

theorem read_items (items : List Json) (hitems : KeptItems items) (done : List Json) (frames : List Frame)
    (rest : List Token) :
    readFrom? (.within .separator (.array done :: frames)) (tokensOfItems items ++ ([.closeArray] ++ rest)) =
      readFrom? (deliver (.array (done.reverse ++ items)) frames) rest := by
  match items with
  | [] =>
    rw [List.append_nil]
    rfl
  | item :: items =>
    rw [KeptItems] at hitems
    rw [tokensOfItems, List.cons_append, List.append_assoc, readFrom?]
    simp only [read?]
    rw [read_tokens item hitems.1, List.append_cons, ← List.reverse_cons]
    exact read_items items hitems.2 (item :: done) frames rest
termination_by structural items

theorem read_members (members : List (Text × Json)) (hmembers : KeptMembers members) (done : List (Text × Json))
    (frames : List Frame) (rest : List Token) :
    readFrom? (.within .separator (.object done :: frames)) (tokensOfMembers members ++ ([.closeObject] ++ rest)) =
      readFrom? (deliver (.object (Keyed.ofPairs (done.reverse ++ members))) frames) rest := by
  match members with
  | [] =>
    rw [List.append_nil]
    rfl
  | member :: members =>
    rw [KeptMembers] at hmembers
    rw [tokensOfMembers, List.cons_append, List.append_assoc, readFrom?]
    simp only [read?]
    rw [read_member .key rfl member hmembers.1, List.append_cons, ← List.reverse_cons]
    exact read_members members hmembers.2 (member :: done) frames rest
termination_by structural members

theorem read_member (demand : Demand) (hdemand : demand.wantsName = true) (member : Text × Json)
    (hmember : KeptMember member) (done : List (Text × Json)) (frames : List Frame) (rest : List Token) :
    readFrom? (.within demand (.object done :: frames)) (tokensOfMember member ++ rest) =
      readFrom? (.within .separator (.object (member :: done) :: frames)) rest := by
  match member with
  | (key, value) =>
    rw [KeptMember] at hmember
    have hread : read? (.within demand (.object done :: frames)) (.scalar (.string key)) =
        some (.within .colon (.member done key :: frames)) := by
      cases demand <;> first | rfl | exact absurd hdemand Bool.false_ne_true
    rw [tokensOfMember, List.cons_append, List.cons_append, readFrom?, hread]
    dsimp only
    rw [readFrom?]
    simp only [read?]
    rw [read_tokens value hmember]
    rfl
termination_by structural member

end

mutual

/-- The integers of kept values are short enough to be read. -/
theorem not_long_tokens (value : Json) (hvalue : value.Kept) : ∀ t ∈ tokens value, t.isLongInteger = false := by
  match value with
  | .integer n =>
    rw [Kept] at hvalue
    intro t ht
    obtain rfl := List.mem_singleton.mp ht
    rw [Token.isLongInteger, decide_eq_false_iff_not, Nat.not_le]
    exact hvalue
  | .null | .bool _ | .real _ | .string _ =>
    intro t ht
    obtain rfl := List.mem_singleton.mp ht
    rfl
  | .array [] | .object [] => simp [tokens, Token.isLongInteger]
  | .array (item :: items) =>
    rw [Kept, KeptItems] at hvalue
    have hitem := not_long_tokens item hvalue.1
    have hitems := not_long_items items hvalue.2
    simp only [tokens, List.mem_cons, List.mem_append]
    rintro t (rfl | (ht | ht) | rfl | ht)
    · rfl
    · exact hitem t ht
    · exact hitems t ht
    · rfl
    · exact absurd ht List.not_mem_nil
  | .object (member :: members) =>
    rw [Kept, KeptMembers] at hvalue
    have hmember := not_long_member member hvalue.2.1
    have hmembers := not_long_members members hvalue.2.2
    simp only [tokens, List.mem_cons, List.mem_append]
    rintro t (rfl | (ht | ht) | rfl | ht)
    · rfl
    · exact hmember t ht
    · exact hmembers t ht
    · rfl
    · exact absurd ht List.not_mem_nil
termination_by structural value

theorem not_long_items (items : List Json) (hitems : KeptItems items) :
    ∀ t ∈ tokensOfItems items, t.isLongInteger = false := by
  match items with
  | [] => simp [tokensOfItems]
  | item :: items =>
    rw [KeptItems] at hitems
    have hitem := not_long_tokens item hitems.1
    have hrest := not_long_items items hitems.2
    simp only [tokensOfItems, List.mem_cons, List.mem_append]
    rintro t (rfl | ht | ht)
    · rfl
    · exact hitem t ht
    · exact hrest t ht
termination_by structural items

theorem not_long_members (members : List (Text × Json)) (hmembers : KeptMembers members) :
    ∀ t ∈ tokensOfMembers members, t.isLongInteger = false := by
  match members with
  | [] => simp [tokensOfMembers]
  | member :: members =>
    rw [KeptMembers] at hmembers
    have hmember := not_long_member member hmembers.1
    have hrest := not_long_members members hmembers.2
    simp only [tokensOfMembers, List.mem_cons, List.mem_append]
    rintro t (rfl | ht | ht)
    · rfl
    · exact hmember t ht
    · exact hrest t ht
termination_by structural members

theorem not_long_member (member : Text × Json) (hmember : KeptMember member) :
    ∀ t ∈ tokensOfMember member, t.isLongInteger = false := by
  match member with
  | (key, value) =>
    rw [KeptMember] at hmember
    have hvalue := not_long_tokens value hmember
    simp only [tokensOfMember, List.mem_cons]
    rintro t (rfl | rfl | ht)
    · rfl
    · rfl
    · exact hvalue t ht
termination_by structural member

end

lemma parse_of_scan {value : Json} (hvalue : value.Kept) {t : Text} (hscan : Token.scan? t = some (tokens value)) :
    parse t = .ok value := by
  have hread : ofTokens? (tokens value) = some value := by
    have h := read_tokens value hvalue [] []
    rw [List.append_nil] at h
    rw [ofTokens?, h]
    cases value <;> rfl
  have hlong : (tokens value).any Token.isLongInteger = false := by
    rw [List.any_eq_false]
    intro t ht
    rw [not_long_tokens value hvalue t ht]
    exact Bool.false_ne_true
  rw [parse, hscan]
  simp only [hread, hlong, Bool.false_eq_true, if_false]

/-- A kept value is read from its printed text, with or without white space after it. -/
theorem parse_pretty {value : Json} (hvalue : value.Kept) {after : Text} (hafter : Token.EndsWord after)
    (hspace : Token.scan? after = some []) : parse (value.pretty ++ after) = .ok value := by
  refine parse_of_scan hvalue ?_
  have h := Token.scan_prettyAt 0 value hvalue after hafter
  rw [show Token.scanFrom? .between after = some [] from hspace, Option.map_some, List.append_nil] at h
  exact h

/-- A token that stands for a value stands for a kept one. -/
def Token.Kept : Token → Prop
  | .scalar value => value.Kept
  | _ => True

namespace Token

lemma kept_integer {n : ℤ} (h : (scalar (.integer n)).isLongInteger = false) : Json.Kept (.integer n) := by
  rw [isLongInteger, decide_eq_false_iff_not, Nat.not_le] at h
  exact h

lemma decimal?_kept {negative : Bool} {t : Text} {value : Json} (h : decimal? negative t = some value)
    (hlong : (scalar value).isLongInteger = false) : value.Kept := by
  unfold decimal? at h
  dsimp only at h
  split at h
  · cases h
  · split at h
    · cases h
    · cases h
    · obtain rfl := Option.some.inj h
      exact kept_integer hlong
    · obtain rfl := Option.some.inj h
      exact Binary64.kept_ofDecimal _ _ _

lemma wordValue?_kept {t : Text} {value : Json} (h : wordValue? t = some value)
    (hlong : (scalar value).isLongInteger = false) : value.Kept := by
  unfold wordValue? at h
  split_ifs at h
  iterate 6
    · obtain rfl := Option.some.inj h
      trivial
  split at h
  · split_ifs at h <;> exact decimal?_kept h hlong
  · cases h

lemma begin?_kept {c : CodePoint} {found : List Token × Scan} (h : begin? c = some found) : ∀ t ∈ found.1, t.Kept := by
  unfold begin? at h
  split_ifs at h <;> obtain rfl := Option.some.inj h <;> simp [Token.Kept]

lemma step?_kept {state : Scan} {c : CodePoint} {found : List Token × Scan} (h : step? state c = some found) :
    ∀ t ∈ found.1, t.isLongInteger = false → t.Kept := by
  cases state with
  | between => exact fun t ht _ => begin?_kept h t ht
  | word read =>
    rw [step?] at h
    split at h
    · obtain rfl := Option.some.inj h
      simp
    · split at h
      · rename_i value tokens next hvalue hbegin
        obtain rfl := Option.some.inj h
        refine List.forall_mem_cons.mpr ⟨fun hlong => wordValue?_kept hvalue hlong, ?_⟩
        exact fun t ht _ => begin?_kept hbegin t ht
      · cases h
  | string read afterHigh =>
    rw [step?] at h
    split_ifs at h <;> obtain rfl := Option.some.inj h <;> simp [Token.Kept, Json.Kept]
  | escape read afterHigh =>
    rw [step?] at h
    split_ifs at h
    · obtain rfl := Option.some.inj h
      simp
    · obtain ⟨e, -, rfl⟩ := Option.map_eq_some_iff.mp h
      simp
  | unicode read afterHigh digits value =>
    rw [step?] at h
    obtain ⟨d, -, hd⟩ := Option.map_eq_some_iff.mp h
    split_ifs at hd <;> subst hd <;> simp

lemma scanFrom?_kept {state : Scan} {t : Text} {tokens : List Token} (h : scanFrom? state t = some tokens) :
    ∀ token ∈ tokens, token.isLongInteger = false → token.Kept := by
  induction t generalizing state tokens with
  | nil =>
    cases state with
    | between =>
      obtain rfl := Option.some.inj h
      simp
    | word read =>
      obtain ⟨value, hvalue, rfl⟩ := Option.map_eq_some_iff.mp h
      exact List.forall_mem_cons.mpr ⟨fun hlong => wordValue?_kept hvalue hlong, by simp⟩
    | string | escape | unicode => cases h
  | cons c rest ih =>
    rw [scanFrom?_cons] at h
    obtain ⟨found, hstep, h⟩ := Option.bind_eq_some_iff.mp h
    obtain ⟨others, hothers, rfl⟩ := Option.map_eq_some_iff.mp h
    intro token htoken
    exact (List.mem_append.mp htoken).elim (step?_kept hstep token) (ih hothers token)

end Token

/-- What an unfinished array or object holds is kept. -/
def Frame.Kept : Frame → Prop
  | .array items => KeptItems items
  | .object members | .member members _ => KeptMembers members

/-- All that was read so far is kept. -/
def Progress.Kept : Progress → Prop
  | .within _ frames => ∀ f ∈ frames, f.Kept
  | .complete value => value.Kept

lemma deliver_kept {value : Json} {frames : List Frame} (hvalue : value.Kept) (hframes : ∀ f ∈ frames, f.Kept) :
    (deliver value frames).Kept := by
  match frames with
  | [] => exact hvalue
  | .array items :: frames =>
    obtain ⟨hitems, hframes⟩ := List.forall_mem_cons.mp hframes
    refine List.forall_mem_cons.mpr ⟨?_, hframes⟩
    rw [Frame.Kept, KeptItems]
    exact ⟨hvalue, hitems⟩
  | .member members key :: frames =>
    obtain ⟨hmembers, hframes⟩ := List.forall_mem_cons.mp hframes
    refine List.forall_mem_cons.mpr ⟨?_, hframes⟩
    rw [Frame.Kept, KeptMembers, KeptMember]
    exact ⟨hvalue, hmembers⟩
  | .object members :: frames => exact hvalue

lemma beginValue?_kept {frames : List Frame} {t : Token} {next : Progress} (hframes : ∀ f ∈ frames, f.Kept)
    (ht : t.Kept) (h : beginValue? frames t = some next) : next.Kept := by
  cases t <;> simp only [beginValue?, Option.some.injEq, reduceCtorEq] at h <;> subst h
  · exact List.forall_mem_cons.mpr ⟨trivial, hframes⟩
  · exact List.forall_mem_cons.mpr ⟨trivial, hframes⟩
  · exact deliver_kept ht hframes

lemma beginMember?_kept {frames : List Frame} {t : Token} {next : Progress} (hframes : ∀ f ∈ frames, f.Kept)
    (h : beginMember? frames t = some next) : next.Kept := by
  unfold beginMember? at h
  split at h
  · obtain rfl := Option.some.inj h
    obtain ⟨hmembers, hframes⟩ := List.forall_mem_cons.mp hframes
    exact List.forall_mem_cons.mpr ⟨hmembers, hframes⟩
  · cases h

lemma kept_array_reverse {items : List Json} (h : KeptItems items) : (array items.reverse).Kept := by
  rw [Kept, keptItems_iff]
  exact fun item hitem => keptItems_iff.mp h item (List.mem_reverse.mp hitem)

lemma kept_object_ofPairs {members : List (Text × Json)} (h : KeptMembers members) :
    (object (Keyed.ofPairs members.reverse)).Kept := by
  rw [Kept, keptMembers_iff]
  exact ⟨Keyed.nodup_keys_ofPairs _,
    fun member hmember => keptMembers_iff.mp h member (List.mem_reverse.mp (Keyed.mem_ofPairs hmember))⟩

lemma kept_empty : (array []).Kept ∧ (object []).Kept := by
  simp [Kept, KeptItems, KeptMembers, Keyed.keys]

lemma read?_kept {progress next : Progress} {t : Token} (hprogress : progress.Kept) (ht : t.Kept)
    (h : read? progress t = some next) : next.Kept := by
  unfold read? at h
  split at h
  · exact beginValue?_kept hprogress ht h
  · obtain rfl := Option.some.inj h
    exact deliver_kept kept_empty.1 (List.forall_mem_cons.mp hprogress).2
  · exact beginValue?_kept hprogress ht h
  · obtain rfl := Option.some.inj h
    exact deliver_kept kept_empty.2 (List.forall_mem_cons.mp hprogress).2
  · exact beginMember?_kept hprogress h
  · exact beginMember?_kept hprogress h
  · obtain rfl := Option.some.inj h
    exact hprogress
  · obtain rfl := Option.some.inj h
    exact hprogress
  · obtain rfl := Option.some.inj h
    obtain ⟨hitems, hframes⟩ := List.forall_mem_cons.mp hprogress
    exact deliver_kept (kept_array_reverse hitems) hframes
  · obtain rfl := Option.some.inj h
    exact hprogress
  · obtain rfl := Option.some.inj h
    obtain ⟨hmembers, hframes⟩ := List.forall_mem_cons.mp hprogress
    exact deliver_kept (kept_object_ofPairs hmembers) hframes
  · cases h

lemma readFrom?_kept {progress : Progress} {tokens : List Token} {value : Json} (hprogress : progress.Kept)
    (htokens : ∀ t ∈ tokens, t.Kept) (h : readFrom? progress tokens = some value) : value.Kept := by
  induction tokens generalizing progress with
  | nil =>
    cases progress with
    | within demand frames => cases h
    | complete v =>
      obtain rfl := Option.some.inj h
      exact hprogress
  | cons t tokens ih =>
    obtain ⟨ht, htokens⟩ := List.forall_mem_cons.mp htokens
    rw [readFrom?] at h
    cases hread : read? progress t with
    | none =>
      rw [hread] at h
      cases h
    | some next =>
      rw [hread] at h
      exact ih (read?_kept hprogress ht hread) htokens h

theorem kept_of_parse {t : Text} {value : Json} (h : parse t = .ok value) : value.Kept := by
  unfold parse at h
  split at h
  · cases h
  · rename_i tokens hscan
    split at h
    · cases h
    · rename_i read hread
      split_ifs at h with hlong
      obtain rfl := Except.ok.inj h
      have hstart : (Progress.within .value []).Kept := by simp [Progress.Kept]
      refine readFrom?_kept hstart (fun t ht => ?_) hread
      refine Token.scanFrom?_kept hscan t ht ?_
      rw [← Bool.not_eq_true]
      exact fun h => hlong (List.any_eq_true.mpr ⟨t, ht, h⟩)

end Json

end PackageExports
