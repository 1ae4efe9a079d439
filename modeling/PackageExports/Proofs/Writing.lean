import PackageExports.Manifest.Repository
import PackageExports.Proofs.Actions
import PackageExports.Proofs.RoundTrip
import PackageExports.Proofs.Skeleton
import PackageExports.Proofs.Ways

/-!
# What is read after a write

A file that was written is read back, and a write to a file that is there changes that file alone: paths lead where
they led before, and what leads to another location is read as before. `FileSystem.Placed` says what becomes of a path
when a file is placed somewhere, be it the first one there or not.

Main results: `FileSystem.placed_place`, `FileSystem.read_write`, `FileSystem.write_of_readManifest`.
-/

namespace PackageExports

def Json.Members.ofBytes (bytes : List UInt8) : Except Cause Json.Members :=
  match Utf8.decode? bytes with
  | none => .error .notUtf8
  | some t =>
    match Json.parse (Text.unifyNewlines t) with
    | .ok (.object members) => .ok members
    | .ok _ => .error .notObject
    | .error refusal => .error (.ofRefusal refusal)

namespace FileSystem

variable {fs after : FileSystem} {path other : Text} {location : Location} {content old : List UInt8}

lemma ne_nil_of_file (h : fs.entryAt? location = some (.file old)) : location ≠ [] := by
  rintro rfl
  cases h

lemma find_of_read (h : fs.read path = .ok content) :
    ∃ location, fs.find path = .ok location ∧ fs.entryAt? location = some (.file content) := by
  unfold read at h
  cases hfind : fs.find path with
  | error e =>
    rw [hfind] at h
    cases h
  | ok location =>
    rw [hfind] at h
    refine ⟨location, rfl, ?_⟩
    rcases hentry : fs.entryAt? location with _ | (bytes | _ | _) <;> simp only [hentry] at h <;> cases h
    rfl

lemma read_of_find (hfind : fs.find path = .ok location) (h : fs.entryAt? location = some (.file content)) :
    fs.read path = .ok content := by
  simp [read, hfind, h]

lemma place_of_find (h : fs.find path = .ok location) : fs.place path = .ok (.present location) := by
  unfold find at h
  split at h
  · obtain rfl := Except.ok.inj h
    assumption
  · cases h
  · cases h

lemma write_present (hfind : fs.find path = .ok location) (h : fs.entryAt? location = some (.file old))
    (content : List UInt8) : fs.write path content = .ok (fs.put location (.file content)) := by
  simp [write, place_of_find hfind, h]

/-- A write ends at the location that the path leads to, be it taken by a file or free. -/
lemma write_cases (h : fs.write path content = .ok after) :
    ∃ location, after = fs.put location (.file content) ∧
      ((∃ old, fs.find path = .ok location ∧ fs.entryAt? location = some (.file old)) ∨
        fs.place path = .ok (.vacant location)) := by
  unfold write at h
  split at h
  · rename_i location hplace
    exact ⟨location, (Except.ok.inj h).symm, .inr hplace⟩
  · rename_i location hplace
    split at h
    · rename_i old hentry
      refine ⟨location, (Except.ok.inj h).symm, .inl ⟨old, ?_, hentry⟩⟩
      simp [find, hplace]
    · cases h
  · cases h

lemma walkNames_vacant {onLink : Location → List Text → Except AccessError Place} {here : Location}
    {names : List Text} (hlink : ∀ here names, onLink here names = .ok (.vacant location) →
      location ≠ [] ∧ fs.entryAt? location = none)
    (h : walkNames fs onLink here names = .ok (.vacant location)) : location ≠ [] ∧ fs.entryAt? location = none := by
  induction names generalizing here with
  | nil => cases h
  | cons name rest ih =>
    cases step_of_name name with
    | stay hstay =>
      rw [walkNames_stay hstay] at h
      exact ih h
    | up hup =>
      rw [hup, walkNames_up] at h
      exact ih h
    | long hmoves hup hlong =>
      rw [walkNames_long hmoves hup hlong] at h
      cases h
    | lookUp hname =>
      rcases hentry : fs.entryAt? (here ++ [name]) with _ | (_ | _ | _)
      · rw [walkNames_free hname hentry] at h
        split_ifs at h
        obtain rfl := Place.vacant.inj (Except.ok.inj h)
        exact ⟨by simp, hentry⟩
      · rw [walkNames_file hname hentry] at h
        split_ifs at h
        cases h
      · rw [walkNames_link hname hentry] at h
        exact hlink _ _ h
      · rw [walkNames_directory hname hentry] at h
        exact ih h

lemma follow_vacant {links : ℕ} {here : Location} {names : List Text}
    (h : fs.follow links here names = .ok (.vacant location)) : location ≠ [] ∧ fs.entryAt? location = none := by
  induction links generalizing here names with
  | zero => exact walkNames_vacant (by simp) h
  | succ links ih => exact walkNames_vacant (fun _ _ => ih) h

lemma vacant_of_place (h : fs.place path = .ok (.vacant location)) : location ≠ [] ∧ fs.entryAt? location = none := by
  unfold place at h
  split_ifs at h
  all_goals exact follow_vacant h

/-- A location that a file can take: there is a file, or there is nothing. -/
structure TakesFile (fs : FileSystem) (location : Location) : Prop where
  ne_nil : location ≠ []
  entry : ∀ entry, fs.entryAt? location = some entry → ∃ old, entry = .file old

/-- What becomes of a search once there is a file at a location: a search that ended at the free place there ends at the
file, and one that went on from there ends otherwise. -/
inductive Placed (location : Location) : Except AccessError Place → Except AccessError Place → Prop where
  | same {r : Except AccessError Place} : r ≠ .ok (.vacant location) → Placed location r r
  | made : Placed location (.ok (.vacant location)) (.ok (.present location))
  | blocked : Placed location (.error .missing) (.error .notDirectory)

lemma placed_walkNames (hfree : fs.TakesFile location) (content : List UInt8)
    {onLink onLink' : Location → List Text → Except AccessError Place}
    (hlink : ∀ here names, Placed location (onLink here names) (onLink' here names)) (here : Location)
    (names : List Text) : Placed location (walkNames fs onLink here names)
      (walkNames (fs.put location (.file content)) onLink' here names) := by
  induction names generalizing here with
  | nil => exact .same (by simp [walkNames])
  | cons name rest ih =>
    cases step_of_name name with
    | stay hstay =>
      rw [walkNames_stay hstay, walkNames_stay hstay]
      exact ih here
    | up hup =>
      rw [hup, walkNames_up, walkNames_up]
      exact ih here.dropLast
    | long hmoves hup hlong =>
      rw [walkNames_long hmoves hup hlong, walkNames_long hmoves hup hlong]
      exact .same (by simp)
    | lookUp hname =>
      rw [walkNames_lookUp hname, walkNames_lookUp hname]
      -- only the step to the location itself sees the file
      by_cases hhere : location = here ++ [name]
      · rw [← hhere, entryAt?_put_self fs _ hfree.ne_nil]
        cases hentry : fs.entryAt? location with
        | none =>
          dsimp only
          split_ifs
          · exact .made
          · exact .blocked
        | some entry =>
          obtain ⟨old, rfl⟩ := hfree.entry entry hentry
          dsimp only
          split_ifs <;> exact .same (by simp)
      · rw [entryAt?_put_of_ne fs _ hhere]
        rcases fs.entryAt? (here ++ [name]) with _ | (_ | _ | _)
        · dsimp only
          split_ifs
          · exact .same (by simpa using Ne.symm hhere)
          · exact .same (by simp)
        · dsimp only
          split_ifs <;> exact .same (by simp)
        · exact hlink _ _
        · exact ih (here ++ [name])

lemma placed_follow (hfree : fs.TakesFile location) (content : List UInt8) (links : ℕ) (here : Location)
    (names : List Text) :
    Placed location (fs.follow links here names) ((fs.put location (.file content)).follow links here names) := by
  induction links generalizing here names with
  | zero => exact placed_walkNames hfree content (fun _ _ => .same (by simp)) here names
  | succ links ih => exact placed_walkNames hfree content ih here names

/-- Where paths lead after a file was placed. -/
theorem placed_place (hfree : fs.TakesFile location) (content : List UInt8) (path : Text) :
    Placed location (fs.place path) ((fs.put location (.file content)).place path) := by
  unfold place
  split_ifs
  · exact .same (by simp)
  · exact .same (by simp)
  · exact .same (by simp)
  · exact placed_follow hfree content linkLimit _ _
  · exact placed_follow hfree content linkLimit _ _

lemma takesFile_of_place (h : fs.place path = .ok (.vacant location)) : fs.TakesFile location where
  ne_nil := (vacant_of_place h).1
  entry _ hentry := by
    rw [(vacant_of_place h).2] at hentry
    cases hentry

lemma takesFile_of_file (h : fs.entryAt? location = some (.file old)) : fs.TakesFile location where
  ne_nil := ne_nil_of_file h
  entry _ hentry := ⟨old, Option.some.inj (hentry.symm.trans h)⟩

lemma find_put_vacant (h : fs.place path = .ok (.vacant location)) :
    (fs.put location (.file content)).find path = .ok location := by
  have hplaced := placed_place (takesFile_of_place h) content path
  rw [h] at hplaced
  unfold find
  generalize (fs.put location (.file content)).place path = place at hplaced
  cases hplaced with
  | same hne => exact absurd rfl hne
  | made => rfl

lemma find_put (h : fs.entryAt? location = some (.file old)) (other : Text) :
    (fs.put location (.file content)).find other = fs.find other :=
  find_congr (skeleton_put fs content h) other

/-- A write places a file, and the path leads to it then. -/
theorem placed_of_write (h : fs.write path content = .ok after) :
    ∃ location, after = fs.put location (.file content) ∧ fs.TakesFile location ∧ after.find path = .ok location := by
  obtain ⟨location, rfl, ⟨old, hfind, hentry⟩ | hplace⟩ := write_cases h
  · exact ⟨location, rfl, takesFile_of_file hentry, (find_put hentry path).trans hfind⟩
  · exact ⟨location, rfl, takesFile_of_place hplace, find_put_vacant hplace⟩

theorem read_write (h : fs.write path content = .ok after) : after.read path = .ok content := by
  obtain ⟨location, rfl, hfree, hfind⟩ := placed_of_write h
  exact read_of_find hfind (entryAt?_put_self fs _ hfree.ne_nil)

lemma read_put_of_ne (h : fs.entryAt? location = some (.file old)) (hne : fs.find other ≠ .ok location) :
    (fs.put location (.file content)).read other = fs.read other := by
  unfold read
  rw [find_put h]
  cases hfind : fs.find other with
  | error e => rfl
  | ok place =>
    have : location ≠ place := by
      rintro rfl
      exact hne hfind
    dsimp only
    rw [entryAt?_put_of_ne fs _ this]

lemma read_put_self (h : fs.entryAt? location = some (.file old)) (hfind : fs.find other = .ok location) :
    (fs.put location (.file content)).read other = .ok content := by
  rw [← find_put h] at hfind
  exact read_of_find hfind (entryAt?_put_self fs _ (ne_nil_of_file h))

/-- Placing what is there changes nothing. -/
lemma put_of_entry {entry : Entry} (hne : location ≠ []) (h : fs.entryAt? location = some entry) :
    fs.put location entry = fs := by
  rw [entryAt?, if_neg hne] at h
  have hentries : fs.entries.insert location entry = fs.entries := Keyed.insert_of_get? h
  simp only [put, hentries]

lemma readText_of_encode {t : Text} (h : fs.read path = .ok content) (hencode : Utf8.encode? t = some content)
    (hreturn : Json.NoReturn t) : fs.readText path = .ok t := by
  have hno : CodePoint.ofChar '\r' ∉ t := fun hmem => hreturn _ hmem rfl
  simp [readText, h, Utf8.decode?_encode? hencode, Text.unifyNewlines_of_no_return hno]

/-! ### Manifests -/

variable {manifest : Path} {members : Json.Members}

lemma readManifest_eq (fs : FileSystem) (manifest : Path) :
    fs.readManifest manifest =
      match fs.readText manifest.text with
      | .error c => .error c
      | .ok t =>
        match Json.parse t with
        | .ok (.object members) => .ok members
        | .ok _ => .error .notObject
        | .error refusal => .error (.ofRefusal refusal) := by
  unfold readManifest
  cases fs.readText manifest.text <;> rfl

lemma readManifest_of_read {bytes : List UInt8} (h : fs.read manifest.text = .ok bytes) :
    fs.readManifest manifest = Json.Members.ofBytes bytes := by
  rw [readManifest_eq, readText, h, Json.Members.ofBytes]
  dsimp only
  cases Utf8.decode? bytes <;> rfl

lemma kept_of_readManifest (h : fs.readManifest manifest = .ok members) : (Json.object members).Kept := by
  rw [readManifest_eq] at h
  split at h
  · cases h
  · split at h
    · rename_i found hparse
      obtain rfl := Except.ok.inj h
      exact Json.kept_of_parse hparse
    · cases h
    · cases h

lemma readManifest_ne_notEncodable : fs.readManifest manifest ≠ .error .notEncodable := by
  intro h
  rw [readManifest_eq] at h
  split at h
  · rename_i c htext
    obtain rfl := Except.error.inj h
    unfold readText at htext
    split at htext
    · cases htext
    · split at htext <;> cases htext
  · split at h
    · cases h
    · cases h
    · rename_i refusal hparse
      cases refusal <;> cases h

lemma readText_congr {text other : Text} (h : after.read text = fs.read other) :
    after.readText text = fs.readText other := by
  rw [readText, readText, h]

lemma readManifest_congr {other : Path} (h : after.read manifest.text = fs.read other.text) :
    after.readManifest manifest = fs.readManifest other := by
  rw [readManifest, readManifest, readText_congr h]

lemma read_of_readManifest (h : fs.readManifest manifest = .ok members) :
    ∃ bytes, fs.read manifest.text = .ok bytes := by
  cases hread : fs.read manifest.text with
  | ok bytes => exact ⟨bytes, rfl⟩
  | error e =>
    rw [readManifest_eq, readText, hread] at h
    cases h

lemma write_of_readManifest (hread : fs.readManifest manifest = .ok members)
    (hwrite : fs.write manifest.text content = .ok after) :
    ∃ location old, fs.find manifest.text = .ok location ∧ fs.entryAt? location = some (.file old) ∧
      after = fs.put location (.file content) := by
  obtain ⟨old, hold⟩ := read_of_readManifest hread
  obtain ⟨location, hfind, hentry⟩ := find_of_read hold
  rw [write_present hfind hentry] at hwrite
  exact ⟨location, old, hfind, hentry, (Except.ok.inj hwrite).symm⟩

end FileSystem

end PackageExports
