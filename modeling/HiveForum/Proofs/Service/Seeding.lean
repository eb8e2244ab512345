import HiveForum.Proofs.Service.Verdicts
import HiveForum.Proofs.Text.Blanks
import HiveForum.Proofs.Text.Identifiers
import HiveForum.Service.Seeds
import Mathlib.Data.List.Forall2

/-!
# Hives known from the start

The hives known from the start are read from a text exactly if each of its words is an entry, and
the first word that is none is reported. The directory then admits exactly those who are listed, and
administrators.

## Main definitions

* `Seed.Written`: the entries of a hive with its owner.
* `Seed.Offends`: what is wrong with a word that is no entry.
* `Seed.chars`: the entry that is written.
* `Directory.Knows`: a directory of the listed hives and owners.

## Main results

* `Seed.decides_ofEntry`: what is read from a word.
* `Seed.ofEntries_eq_error_iff`: the first word that is no entry is reported.
* `Seed.listOf_of_spaced`: written entries are read back.
* `Directory.knows_ofSeeds`: the directory at the start knows what is listed.
* `Seed.listing_exact`: texts, lists and the directory at the start.
-/

namespace HiveForum

namespace Seed

variable {entry before after form owner : List Char} {entries : List (List Char)} {seed : Seed}
  {seeds : List Seed} {error : SeedError}

/-! ### Entries -/

/-- The entry names the hive, in a form without colon, and after a colon the owner. -/
def Written (entry : List Char) (seed : Seed) : Prop :=
  ∃ form, ':' ∉ form ∧ Uuid.Form form seed.hive.uuid ∧ seed.owner.name ≠ "" ∧
    entry = form ++ ':' :: seed.owner.name.toList

/-- What is wrong with a word. -/
inductive Offends : List Char → SeedError → Prop
  | noColon {entry : List Char} (h : ':' ∉ entry) :
    Offends entry (.malformed (String.ofList entry))
  | noOwner {form : List Char} (h : ':' ∉ form) :
    Offends (form ++ [':']) (.malformed (String.ofList (form ++ [':'])))
  | badHive {form owner : List Char} (h : ':' ∉ form) (howner : owner ≠ [])
    (hform : ∀ id, ¬Uuid.Form form id) :
    Offends (form ++ ':' :: owner) (.badHive (String.ofList form))

theorem splitAtColon?_of_notMem (h : ':' ∉ entry) : splitAtColon? entry = none := by
  induction entry with
  | nil => rfl
  | cons c entry ih =>
    rw [List.mem_cons, not_or] at h
    rw [splitAtColon?, if_neg (Ne.symm h.1), ih h.2, Option.map_none]

theorem splitAtColon?_append (h : ':' ∉ before) (after : List Char) :
    splitAtColon? (before ++ ':' :: after) = some (before, after) := by
  induction before with
  | nil => rfl
  | cons c before ih =>
    rw [List.mem_cons, not_or] at h
    rw [List.cons_append, splitAtColon?, if_neg (Ne.symm h.1), ih h.2, Option.map_some]

theorem ofEntry_append (h : ':' ∉ form) (howner : owner ≠ []) :
    ofEntry (form ++ ':' :: owner) =
      match Uuid.parseChars? form with
      | none => .error (.badHive (String.ofList form))
      | some id => .ok ⟨⟨id⟩, ⟨String.ofList owner⟩⟩ := by
  obtain ⟨c, rest, rfl⟩ := List.exists_cons_of_ne_nil howner
  cases hparse : Uuid.parseChars? form with
  | none => simp only [ofEntry, splitAtColon?_append h, hparse]
  | some id => simp only [ofEntry, splitAtColon?_append h, hparse]

theorem Written.ofEntry (h : Written entry seed) : ofEntry entry = .ok seed := by
  obtain ⟨form, hcolon, hform, hne, rfl⟩ := h
  have howner : seed.owner.name.toList ≠ [] := by simpa using hne
  rw [ofEntry_append hcolon howner, Uuid.parseChars?_eq_some_iff.2 hform]
  simp

theorem Offends.ofEntry (h : Offends entry error) : ofEntry entry = .error error := by
  cases h with
  | noColon h => rw [Seed.ofEntry, splitAtColon?_of_notMem h]
  | noOwner h => rw [Seed.ofEntry, splitAtColon?_append h]
  | @badHive form owner h howner hform =>
    have hparse : Uuid.parseChars? form = none := by
      rw [Option.eq_none_iff_forall_ne_some]
      exact fun id hid => hform id (Uuid.parseChars?_eq_some_iff.1 hid)
    rw [ofEntry_append h howner, hparse]

/-- A word is an entry, or something is wrong with it. -/
theorem written_or_offends (entry : List Char) :
    (∃ seed, Written entry seed) ∨ ∃ error, Offends entry error := by
  by_cases hcolon : ':' ∈ entry
  · obtain ⟨form, owner, rfl, hform⟩ := List.eq_append_cons_of_mem hcolon
    by_cases howner : owner = []
    · subst howner
      exact .inr ⟨_, .noOwner hform⟩
    · by_cases hid : ∃ id, Uuid.Form form id
      · obtain ⟨id, hid⟩ := hid
        exact .inl ⟨⟨⟨id⟩, ⟨String.ofList owner⟩⟩, form, hform, hid, by simpa using howner,
          by rw [String.toList_ofList]⟩
      · exact .inr ⟨_, .badHive hform howner (not_exists.1 hid)⟩
  · exact .inr ⟨_, .noColon hcolon⟩

/-- A word is read exactly if it is an entry, and otherwise what is wrong with it is reported. -/
theorem decides_ofEntry (entry : List Char) :
    Decides (ofEntry entry) (Written entry) (Offends entry) :=
  .of_cover (fun _ => Written.ofEntry) (fun _ => Offends.ofEntry) (written_or_offends entry)

/-! ### Lists of entries -/

theorem ofEntries_eq_ok_iff_written :
    ofEntries entries = .ok seeds ↔ List.Forall₂ Written entries seeds := by
  rw [ofEntries_eq_ok_iff, ← List.forall₂_eq_eq_eq, List.forall₂_map_left_iff,
    List.forall₂_map_right_iff]
  simp only [(decides_ofEntry _).ok_iff]

/-- The first word that is no entry is reported. -/
theorem ofEntries_eq_error_iff :
    ofEntries entries = .error error ↔
      ∃ before entry after, entries = before ++ entry :: after ∧
        (∀ word ∈ before, ∃ seed, Written word seed) ∧ Offends entry error := by
  induction entries with
  | nil => simp [ofEntries]
  | cons first entries ih =>
    -- What the first word is decides whether the first error is its own.
    rcases written_or_offends first with ⟨seed, hseed⟩ | ⟨other, hother⟩
    · -- An entry passes the matter on to the words after it.
      have hpass : ofEntries (first :: entries) = .error error ↔
          ofEntries entries = .error error := by
        rw [ofEntries, hseed.ofEntry]
        cases ofEntries entries <;> simp
      rw [hpass, ih]
      constructor
      · rintro ⟨before, entry, after, rfl, hbefore, hentry⟩
        exact ⟨first :: before, entry, after, rfl,
          List.forall_mem_cons.2 ⟨⟨seed, hseed⟩, hbefore⟩, hentry⟩
      · rintro ⟨before, entry, after, heq, hbefore, hentry⟩
        cases before with
        | nil =>
          cases heq
          exact absurd hentry ((decides_ofEntry first).not_reports hseed error)
        | cons word before =>
          cases heq
          exact ⟨before, entry, after, rfl, (List.forall_mem_cons.1 hbefore).2, hentry⟩
    · -- A word that is no entry is reported, so that it is the one after the entries.
      have hstop : ofEntries (first :: entries) = .error other := by
        rw [ofEntries, hother.ofEntry]
      rw [hstop]
      constructor
      · rintro ⟨⟩
        exact ⟨[], first, entries, rfl, List.forall_mem_nil _, hother⟩
      · rintro ⟨before, entry, after, heq, hbefore, hentry⟩
        cases before with
        | nil =>
          cases heq
          rw [(decides_ofEntry first).error_unique hother hentry]
        | cons word before =>
          cases heq
          obtain ⟨⟨seed, hseed⟩, -⟩ := List.forall_mem_cons.1 hbefore
          exact absurd hother ((decides_ofEntry first).not_reports hseed other)

theorem exists_forall₂_written_iff :
    (∃ seeds, List.Forall₂ Written entries seeds) ↔
      ∀ entry ∈ entries, ∃ seed, Written entry seed := by
  induction entries with
  | nil => simp
  | cons entry entries ih =>
    rw [List.forall_mem_cons, ← ih]
    constructor
    · rintro ⟨_, hseeds⟩
      cases hseeds with
      | cons hseed hseeds => exact ⟨⟨_, hseed⟩, _, hseeds⟩
    · rintro ⟨⟨seed, hseed⟩, seeds, hseeds⟩
      exact ⟨seed :: seeds, .cons hseed hseeds⟩

/-! ### Written entries -/

/-- The entry that is written for a hive with its owner. -/
def chars (seed : Seed) : List Char := seed.hive.uuid.chars ++ ':' :: seed.owner.name.toList

theorem isBlank_of_digit_or_hyphen {c : Char} (h : (Hex.digit? c).isSome = true ∨ c = '-') :
    Blank.isBlank c = false := by
  rcases h with h | rfl
  · obtain ⟨n, hn⟩ := Option.isSome_iff_exists.1 h
    unfold Hex.digit? at hn
    simp only [Char.le_def, UInt32.le_iff_toNat_le] at hn
    have hrange : 48 ≤ c.toNat ∧ c.toNat ≤ 102 := by grind [Char.toNat]
    exact Blank.isBlank_of_lt_of_lt (by omega) (by omega)
  · decide

theorem isWord_chars (h : Blank.IsWord seed.owner.name.toList) : Blank.IsWord seed.chars := by
  refine ⟨by simp [chars], fun c hc => ?_⟩
  rw [chars, List.mem_append, List.mem_cons] at hc
  rcases hc with hc | rfl | hc
  · exact isBlank_of_digit_or_hyphen (Uuid.digit_or_hyphen_of_mem_chars hc)
  · decide
  · exact h.2 c hc

theorem written_chars (h : seed.owner.name.toList ≠ []) : Written seed.chars seed := by
  refine ⟨seed.hive.uuid.chars, fun hcolon => ?_, Uuid.form_chars _, by simpa using h, rfl⟩
  exact absurd (Uuid.digit_or_hyphen_of_mem_chars hcolon) (by decide)

/-- Written entries are read back, whatever blanks stand around and between them. -/
theorem listOf_of_spaced {text : String} (h : Blank.Spaced (seeds.map chars) text.toList)
    (howners : ∀ seed ∈ seeds, Blank.IsWord seed.owner.name.toList) : listOf text = .ok seeds := by
  have hwords : Blank.words text.toList = seeds.map chars := by
    refine Blank.words_eq_iff.2 ⟨h, ?_⟩
    rw [List.forall_mem_map]
    exact fun seed hseed => isWord_chars (howners seed hseed)
  rw [listOf, hwords, ofEntries_eq_ok_iff_written, List.forall₂_map_left_iff, List.forall₂_same]
  exact fun seed hseed => written_chars (howners seed hseed).1

end Seed

namespace Directory

/-- The directory has the listed hives, and their owners alone as members. -/
structure Knows (directory : Directory) (seeds : List Seed) : Prop where
  /-- The hives are those that are listed. -/
  hives : ∀ hive, (directory.hives.get? hive).isSome = true ↔ hive ∈ seeds.map Seed.hive
  /-- The members of a hive are its listed owners. -/
  members : ∀ hive user, ((directory.hives.get? hive).getD .empty).get? user =
    if ⟨hive, user⟩ ∈ seeds then some .owner else none

variable {directory : Directory} {seeds : List Seed}

theorem knows_empty : empty.Knows [] where
  hives := by simp [empty]
  members := by simp [empty]

/-- A registered hive is known with its owner besides what was known. -/
theorem Knows.createHive (h : directory.Knows seeds) (seed : Seed) :
    (directory.createHive seed.hive seed.owner).Knows (seeds ++ [seed]) where
  hives := by
    intro hive
    rw [Directory.createHive, Table.get?_insert, List.map_append, List.mem_append, ← h.hives]
    split <;> simp_all
  members := by
    intro hive user
    rw [Directory.createHive, Table.get?_insert]
    split
    · rename_i hhive
      subst hhive
      rw [Option.getD_some, Table.get?_insert, h.members]
      by_cases howner : user = seed.owner
      · simp [howner]
      · have hne : (⟨seed.hive, user⟩ : Seed) ≠ seed := fun heq => howner (congrArg Seed.owner heq)
        simp [howner, hne]
    · rename_i hhive
      have hne : (⟨hive, user⟩ : Seed) ≠ seed := fun heq => hhive (congrArg Seed.hive heq)
      rw [h.members]
      simp [hne]

/-- The directory at the start knows what is listed. -/
theorem knows_ofSeeds (seeds : List Seed) : (ofSeeds seeds).Knows seeds := by
  induction seeds using List.reverseRecOn with
  | nil => exact knows_empty
  | append_singleton seeds seed ih =>
    have hlast : ofSeeds (seeds ++ [seed]) = (ofSeeds seeds).createHive seed.hive seed.owner := by
      rw [ofSeeds, List.foldl_append]
      rfl
    rw [hlast]
    exact ih.createHive seed

/-- Who is admitted by a directory that knows what is listed, and as what. -/
theorem Knows.checkMember (h : directory.Knows seeds) (caller : Caller) (hive : ScopeId) :
    directory.checkMember caller hive =
      if hive ∉ seeds.map Seed.hive then .error .hiveNotFound
      else if caller.isAdmin = true ∨ ⟨hive, caller.user⟩ ∈ seeds then .ok .owner
      else .error .notMember := by
  have hlisted := h.hives hive
  have hmembers := h.members hive caller.user
  rw [Directory.checkMember]
  cases hget : directory.hives.get? hive with
  | none =>
    rw [hget] at hlisted
    rw [if_pos fun hmem => Bool.false_ne_true (hlisted.2 hmem)]
  | some members =>
    rw [hget, Option.getD_some] at hmembers
    rw [hget] at hlisted
    rw [if_neg (not_not.2 (hlisted.1 rfl))]
    by_cases hadmin : caller.isAdmin = true
    · simp [hadmin]
    · by_cases howner : (⟨hive, caller.user⟩ : Seed) ∈ seeds <;> simp [hadmin, howner, hmembers]

end Directory

/-- Hives are listed and admitted exactly. A text splits into words, and it is read as a list of
hives with owners if and only if each word is an entry: a form of an identifier without colon, a
colon, and an owner, who may have colons. It is then read as what the entries name, in order;
otherwise the first word that is no entry is reported. Entries that are written for hives with
owners without blanks are read back, with any blanks around them and at least one between any two.
And the directory of a list, whatever it repeats, has its hives alone: in each of them it takes the
listed owners and every administrator for owners, and nobody else for a member. -/
theorem Seed.listing_exact :
    (∀ text : String, ∃ entries, Blank.Splits text.toList entries ∧
      ((∃ seeds, listOf text = .ok seeds) ↔ ∀ entry ∈ entries, ∃ seed, Written entry seed) ∧
      (∀ seeds, listOf text = .ok seeds ↔ List.Forall₂ Written entries seeds) ∧
      ∀ error, listOf text = .error error ↔
        ∃ before entry after, entries = before ++ entry :: after ∧
          (∀ word ∈ before, ∃ seed, Written word seed) ∧ Offends entry error) ∧
    (∀ (seeds : List Seed) (text : String),
      (∀ seed ∈ seeds, Blank.IsWord seed.owner.name.toList) →
      Blank.Spaced (seeds.map chars) text.toList → listOf text = .ok seeds) ∧
    ∀ (seeds : List Seed) (caller : Caller) (hive : ScopeId),
      (Directory.ofSeeds seeds).checkMember caller hive =
        if hive ∉ seeds.map Seed.hive then .error .hiveNotFound
        else if caller.isAdmin = true ∨ ⟨hive, caller.user⟩ ∈ seeds then .ok .owner
        else .error .notMember := by
  refine ⟨fun text => ?_, ?_, ?_⟩
  · have hread : ∀ seeds, listOf text = .ok seeds ↔
        List.Forall₂ Written (Blank.words text.toList) seeds :=
      fun seeds => ofEntries_eq_ok_iff_written
    refine ⟨Blank.words text.toList, Blank.words_eq_iff.1 rfl, ?_, hread, fun error =>
      ofEntries_eq_error_iff⟩
    rw [← exists_forall₂_written_iff]
    simp only [hread]
  · intro seeds text howners h
    exact listOf_of_spaced h howners
  · intro seeds caller hive
    exact (Directory.knows_ofSeeds seeds).checkMember caller hive

namespace Sample

/-- Two hives, the first of them with two owners, and an owner with a colon. -/
def listedSeeds : List Seed :=
  [⟨⟨.ofNat 1⟩, ⟨"ann"⟩⟩, ⟨⟨.ofNat 2⟩, ⟨"ann:bob"⟩⟩, ⟨⟨.ofNat 1⟩, ⟨"bob"⟩⟩]

/-- The hives as they might be written by hand. -/
def listedText : String :=
  String.ofList
    (" ".toList ++ "\n\t".toList.intercalate (listedSeeds.map Seed.chars) ++ "\r\n".toList)

/-- The listed hives are read, and one of the owners is admitted. -/
theorem listed_hives :
    Seed.listOf listedText = .ok listedSeeds ∧
    (Directory.ofSeeds listedSeeds).checkMember ⟨⟨"bob"⟩, false⟩ ⟨.ofNat 1⟩ = .ok .owner ∧
    (Directory.ofSeeds listedSeeds).checkMember ⟨⟨"bob"⟩, false⟩ ⟨.ofNat 2⟩ =
      .error .notMember := by
  obtain ⟨-, hread, hadmits⟩ := Seed.listing_exact
  have hspaced : Blank.Spaced (listedSeeds.map Seed.chars) listedText.toList := by
    rw [listedText, String.toList_ofList]
    exact Blank.spaced_intercalate (by decide) (by decide) (by decide) (by decide) _
  exact ⟨hread _ _ (by decide) hspaced, (hadmits _ _ _).trans (by decide),
    (hadmits _ _ _).trans (by decide)⟩

end Sample

end HiveForum
