import HiveForum.Content.Encoding
import HiveForum.Engagement.Encoding
import HiveForum.Proofs.Json.Reading
import HiveForum.Proofs.Text.Identifiers
import Mathlib.Data.List.Forall2

/-!
# Stored values that are written and read

Items, records and changes of counts are read back from the texts that are written for them, with
everything that they hold. A value is also read from other texts: its fields may come in any order
and between members with other names, tags may repeat and come in any order, and what may be null
may be missing. Whatever text a value was read from, the text that is written for it is the same.

## Main definitions

* `Json.Presents`: members that give each of some fields once, or not at all.
* `Json.Offers`: how an optional field may be given.
* `Json.Faithful`: a way of writing that reading undoes.

## Main results

* `Json.fields?_of_presents`: what such members give for the fields.
* `ContentItem.deserialize?_of_presents`, `EngagementRecord.deserialize?_of_presents`,
  `CountChange.deserialize?_of_presents`: the texts that a value is read from.
* `Json.stored_values_faithful`: stored values are read back.
-/

namespace HiveForum

namespace Json

/-! ### The types of fields -/

theorem int64?_toInt (n : Int64) : int64? (.integer n.toInt) = some n := by
  have hrange : -9223372036854775808 ≤ n.toInt ∧ n.toInt ≤ 9223372036854775807 :=
    ⟨n.le_toInt, n.toInt_le⟩
  rw [int64?, if_pos hrange, Int64.ofInt_toInt]

theorem uuid?_text (id : Uuid) : uuid? (.text id.text) = some id := Uuid.parse?_text id

theorem text?_text (text : String) : text? (.text text) = some text := rfl

theorem bool?_bool (value : Bool) : bool? (.bool value) = some value := rfl

theorem listOf?_map {α β : Type} {encode : α → Json} {decode : Json → Option β} {make : α → β}
    (h : ∀ a, decode (encode a) = some (make a)) (as : List α) :
    listOf? decode (.array (as.map encode)) = some (as.map make) := by
  rw [listOf?]
  induction as with
  | nil => rfl
  | cons a as ih =>
    rw [List.map_cons, List.mapM_cons, h, ih]
    rfl

theorem wellFormed_text (text : String) : (Json.text text).WellFormed := .string _

theorem wellFormed_ofOption {α : Type} {encode : α → Json} (h : ∀ a, (encode a).WellFormed)
    (value : Option α) : (ofOption encode value).WellFormed := by
  cases value with
  | none => exact .null
  | some a => exact h a

/-- An optional field is given by its value, by null for no value, or not at all for no value. -/
def Offers {α : Type} (encode : α → Json) (value : Option α) (given : Option Json) : Prop :=
  given = some (ofOption encode value) ∨ given = none ∧ value = none

theorem optional_of_offers {α : Type} {encode : α → Json} {decode : Json → Option α}
    {value : Option α} {given : Option Json} (h : Offers encode value given)
    (hread : ∀ a, decode (encode a) = some a) (hnull : ∀ a, encode a ≠ .null) :
    optional decode given = some value := by
  rcases h with rfl | ⟨rfl, rfl⟩
  · cases value with
    | none => rfl
    | some a =>
      have hread := hread a
      rw [ofOption]
      unfold optional
      split
      · rename_i heq
        cases heq
      · rename_i heq
        exact absurd (Option.some.inj heq) (hnull a)
      · rename_i heq
        cases heq
        rw [hread, Option.map_some]
  · rfl

/-! ### Members -/

/-- The members give each of the named fields its value, once, or do not give it if there is none.
They may give others, and come in any order. -/
structure Presents (members : List (Option String × Json)) (names : List String)
    (values : List (Option Json)) : Prop where
  /-- Every member has a name. -/
  named : ∀ m ∈ members, m.1.isSome = true
  fields : List.Forall₂ (fun name value => field members name = value.toList) names values

variable {members : List (Option String × Json)} {names : List String}
  {values : List (Option Json)}

theorem single?_of_field {name : String} {value : Option Json}
    (h : field members name = value.toList) : single? members name = some value := by
  rw [single?, h]
  cases value <;> rfl

theorem mapM_of_forall₂ {α β : Type} {f : α → Option β} {as : List α} {bs : List β}
    (h : List.Forall₂ (fun a b => f a = some b) as bs) : as.mapM f = some bs := by
  induction h with
  | nil => rfl
  | cons hhead _ ih =>
    rw [List.mapM_cons, hhead, ih]
    rfl

theorem fields?_of_presents (h : Presents members names values) :
    fields? names (.object members) = some values := by
  have hnamed : members.any (·.1.isNone) = false := by
    rw [List.any_eq_false]
    intro m hm
    rw [Option.isNone_iff_eq_none, ← Option.not_isSome_iff_eq_none, h.named m hm]
    decide
  rw [fields?, if_neg (by rw [hnamed]; decide)]
  exact mapM_of_forall₂ (h.fields.imp fun _ _ => single?_of_field)

theorem field_cons (other : String) (value : Json) (members : List (Option String × Json))
    (name : String) : field ((some other, value) :: members) name =
      if other = name then value :: field members name else field members name := by
  unfold field
  split <;> simp_all

theorem field_eq_nil {fields : List (String × Json)} {name : String}
    (h : name ∉ fields.map (·.1)) : field (fields.map fun m => (some m.1, m.2)) name = [] := by
  induction fields with
  | nil => rfl
  | cons head fields ih =>
    rw [List.map_cons, List.mem_cons, not_or] at h
    rw [List.map_cons, field_cons, if_neg (Ne.symm h.1), ih h.2]

/-- The fields of a record with different names are its members. -/
theorem field_of_mem {fields : List (String × Json)} (hnames : (fields.map (·.1)).Nodup)
    {name : String} {value : Json} (h : (name, value) ∈ fields) :
    field (fields.map fun m => (some m.1, m.2)) name = [value] := by
  induction fields with
  | nil => cases h
  | cons head fields ih =>
    obtain ⟨hfresh, hnames⟩ := List.nodup_cons.1 hnames
    rw [List.map_cons, field_cons]
    rcases List.mem_cons.1 h with rfl | h
    · rw [if_pos rfl, field_eq_nil hfresh]
    · have hne : head.1 ≠ name := by
        rintro rfl
        exact hfresh (List.mem_map.2 ⟨_, h, rfl⟩)
      rw [if_neg hne, ih hnames h]

/-- Fields with different names are given by the members that hold them, in any order and with
others. -/
theorem presents_of_subset {fields : List (String × Json)} {given : List Json}
    (hnames : (fields.map (·.1)).Nodup) (hlength : names.length = given.length)
    (h : names.zip given ⊆ fields) :
    Presents (fields.map fun m => (some m.1, m.2)) names (given.map some) where
  named := by
    intro m hm
    obtain ⟨_, -, rfl⟩ := List.mem_map.1 hm
    rfl
  fields := by
    rw [List.forall₂_map_right_iff, List.forall₂_iff_zip]
    exact ⟨hlength, fun hmem => field_of_mem hnames (h hmem)⟩

theorem parse?_fields {fields : List (String × Json)} (h : ∀ m ∈ fields, m.2.WellFormed) :
    parse? (record fields).toText = some (.object (fields.map fun m => (some m.1, m.2))) := by
  refine parse?_toText (.object fun m hm => ?_)
  obtain ⟨m, hmem, rfl⟩ := List.mem_map.1 hm
  exact h m hmem

theorem exists_parse?_record (names : List String) (given : List Json) (hnames : names.Nodup)
    (hlength : names.length = given.length) (h : ∀ value ∈ given, value.WellFormed) :
    ∃ members, parse? (record (names.zip given)).toText = some (.object members) ∧
      Presents members names (given.map some) :=
  ⟨_, parse?_fields fun _ hm => h _ (List.of_mem_zip hm).2,
    presents_of_subset (by rwa [List.map_fst_zip (Nat.le_of_eq hlength)]) hlength
      (List.Subset.refl _)⟩

/-! ### Faithful writing -/

/-- Reading undoes writing, and whatever text a value is read from, the text that is written for it
is read as the same value and written for what is read from it. -/
structure Faithful {α : Type} (write : α → String) (read? : String → Option α) : Prop where
  /-- What is written for a value is read as the value. -/
  read_write : ∀ value, read? (write value) = some value
  /-- What is written for a value that was read is read as the value, and written again. -/
  settled : ∀ text value, read? text = some value →
    read? (write value) = some value ∧
      ∀ again, read? (write value) = some again → write again = write value

theorem Faithful.of_read_write {α : Type} {write : α → String} {read? : String → Option α}
    (h : ∀ value, read? (write value) = some value) : Faithful write read? where
  read_write := h
  settled := by
    intro text value _
    refine ⟨h value, fun again hagain => ?_⟩
    rw [h value] at hagain
    cases hagain
    rfl

end Json

/-! ### Changes of counts -/

namespace CountChange

/-- The fields of a change, in order. -/
def given (change : CountChange) : List Json :=
  [.integer change.upVotes.toInt, .integer change.downVotes.toInt,
    .integer change.comments.toInt, .integer change.reports.toInt]

/-- A change is read from every text that gives its fields, in any order. -/
theorem deserialize?_of_presents {change : CountChange} {text : String}
    {members : List (Option String × Json)} (hparse : Json.parse? text = some (.object members))
    (h : Json.Presents members fieldNames (change.given.map some)) :
    deserialize? text = some change := by
  rw [deserialize?, hparse, Option.bind_some, ofJson?, Json.fields?_of_presents h]
  simp [given, Json.required, Json.int64?_toInt]

theorem wellFormed_given (change : CountChange) : ∀ value ∈ change.given, value.WellFormed := by
  simp [given, Json.WellFormed.integer]

theorem deserialize?_serialize (change : CountChange) :
    deserialize? change.serialize = some change := by
  obtain ⟨members, hparse, h⟩ := Json.exists_parse?_record fieldNames change.given (by decide) rfl
    change.wellFormed_given
  exact deserialize?_of_presents hparse h

end CountChange

/-! ### Engagement records -/

namespace EngagementRecord

/-- The fields of a record, in order, with what is given for the optional ones. -/
def given (record : EngagementRecord) (votedAt reason : Option Json) : List (Option Json) :=
  [some (.text record.user.name), some (.text record.content.uuid.text),
    some (.text record.scope.uuid.text), some (.text record.hive.uuid.text),
    some (.bool record.upVoted), some (.bool record.downVoted), some (.bool record.saved),
    some (.bool record.reported), votedAt, reason, some (.integer record.version.toInt)]

/-- A record is read from every text that gives its fields, in any order; the time of the vote and
the reason may be missing. -/
theorem deserialize?_of_presents {record : EngagementRecord} {text : String}
    {members : List (Option String × Json)} {votedAt reason : Option Json}
    (hparse : Json.parse? text = some (.object members))
    (hvotedAt : Json.Offers (fun time => .integer time.toInt) record.votedAt votedAt)
    (hreason : Json.Offers .text record.reason reason)
    (h : Json.Presents members fieldNames (record.given votedAt reason)) :
    deserialize? text = some record := by
  have htime : Json.optional Json.int64? votedAt = some record.votedAt :=
    Json.optional_of_offers hvotedAt Json.int64?_toInt (by rintro _ ⟨⟩)
  have htext : Json.optional Json.text? reason = some record.reason :=
    Json.optional_of_offers hreason (fun _ => rfl) (by rintro _ ⟨⟩)
  rw [deserialize?, hparse, Option.bind_some, ofJson?, Json.fields?_of_presents h]
  simp only [given, Json.required, Json.int64?_toInt, Json.uuid?_text, Json.text?_text,
    Json.bool?_bool, htime, htext, Option.bind_eq_bind, Option.bind_some, Option.pure_def]

theorem deserialize?_serialize (record : EngagementRecord) :
    deserialize? record.serialize = some record := by
  obtain ⟨members, hparse, h⟩ := Json.exists_parse?_record fieldNames
    [.text record.user.name, .text record.content.uuid.text, .text record.scope.uuid.text,
      .text record.hive.uuid.text, .bool record.upVoted, .bool record.downVoted,
      .bool record.saved, .bool record.reported,
      .ofOption (fun time => .integer time.toInt) record.votedAt, .ofOption .text record.reason,
      .integer record.version.toInt] (by decide) rfl (by
        simp only [List.forall_mem_cons, Json.wellFormed_text, Json.WellFormed.integer,
          Json.WellFormed.bool, Json.wellFormed_ofOption, implies_true, List.not_mem_nil,
          false_imp_iff, and_self])
  exact deserialize?_of_presents hparse (.inl rfl) (.inl rfl) h

end EngagementRecord

/-! ### Content items -/

namespace ContentItem

/-- The fields of an item, in order, with a list of its tags. -/
def given (item : ContentItem) (tags : List TagId) : List Json :=
  [.text item.scope.uuid.text, .text item.id.uuid.text, .text item.hive.uuid.text,
    .text item.kind.jsonName, .text item.author.name, .text item.body,
    .integer item.createdAt.toInt, .integer item.lastActivityAt.toInt,
    .integer item.upVotes.toInt, .integer item.downVotes.toInt,
    .integer item.comments.toInt, .integer item.reports.toInt,
    .bool item.obfuscated, .bool item.reviewed, .bool item.pinned,
    .array (tags.map fun tag => .text tag.uuid.text)]

theorem ofJson?_jsonName (kind : ContentKind) :
    ContentKind.ofJson? (.text kind.jsonName) = some kind := by
  cases kind <;> rfl

/-- An item is read from every text that gives its fields, in any order; its tags may repeat and
come in any order as well. -/
theorem deserialize?_of_presents {item : ContentItem} {text : String}
    {members : List (Option String × Json)} {tags : List TagId}
    (hparse : Json.parse? text = some (.object members)) (htags : .ofList tags = item.tags)
    (h : Json.Presents members fieldNames ((item.given tags).map some)) :
    deserialize? text = some item := by
  have htag : ∀ tag : TagId, Json.uuid? (.text tag.uuid.text) = some (TagId.uuid tag) :=
    fun tag => Json.uuid?_text tag.uuid
  have hlist := Json.listOf?_map htag tags
  rw [deserialize?, hparse, Option.bind_some, ofJson?, Json.fields?_of_presents h]
  simp only [given, List.map_cons, List.map_nil, Json.required, Json.int64?_toInt, Json.uuid?_text,
    Json.text?_text, Json.bool?_bool, hlist, ofJson?_jsonName, Option.bind_eq_bind,
    Option.bind_some, Option.pure_def]
  have hsame : (tags.map TagId.uuid).map TagId.mk = tags := by
    rw [List.map_map]
    exact List.map_id tags
  rw [hsame, htags]

theorem wellFormed_given (item : ContentItem) (tags : List TagId) :
    ∀ value ∈ item.given tags, value.WellFormed := by
  have htags : (Json.array (tags.map fun tag => .text tag.uuid.text)).WellFormed := by
    refine .array fun value hvalue => ?_
    obtain ⟨tag, -, rfl⟩ := List.mem_map.1 hvalue
    exact .string _
  simp only [given, List.forall_mem_cons, Json.wellFormed_text, Json.WellFormed.integer,
    Json.WellFormed.bool, htags, List.not_mem_nil, false_imp_iff, implies_true, and_self]

theorem deserialize?_serialize (item : ContentItem) : deserialize? item.serialize = some item := by
  obtain ⟨members, hparse, h⟩ := Json.exists_parse?_record fieldNames
    (item.given item.tags.toList) (by decide) rfl (wellFormed_given item _)
  exact deserialize?_of_presents hparse (SortedSet.ofList_toList item.tags) h

end ContentItem

/-! ### All stored values -/

namespace Json

/-- Stored values are read back. An item, a record and a change of counts are read from the texts
that are written for them, whatever they hold. Whatever text a value is read from, it is read from
the text that is written for it as well, and no other text is written for what is read from that.
And a value is read from every text of an object that gives its fields, each once, in any order and
between others with any names and values: the tags of an item as any list that has them, sorted or
not, with or without repetitions, and the time of a vote and the reason of a report, if there is
none, as null or not at all. -/
theorem stored_values_faithful :
    Faithful ContentItem.serialize ContentItem.deserialize? ∧
    Faithful EngagementRecord.serialize EngagementRecord.deserialize? ∧
    Faithful CountChange.serialize CountChange.deserialize? ∧
    ∀ (text : String) (members : List (Option String × Json)),
      parse? text = some (.object members) →
      (∀ (item : ContentItem) (tags : List TagId), .ofList tags = item.tags →
        Presents members ContentItem.fieldNames ((item.given tags).map some) →
        ContentItem.deserialize? text = some item) ∧
      (∀ (record : EngagementRecord) (votedAt reason : Option Json),
        Offers (fun time => .integer time.toInt) record.votedAt votedAt →
        Offers Json.text record.reason reason →
        Presents members EngagementRecord.fieldNames (record.given votedAt reason) →
        EngagementRecord.deserialize? text = some record) ∧
      ∀ change : CountChange,
        Presents members CountChange.fieldNames (change.given.map some) →
        CountChange.deserialize? text = some change := by
  refine ⟨.of_read_write ContentItem.deserialize?_serialize,
    .of_read_write EngagementRecord.deserialize?_serialize,
    .of_read_write CountChange.deserialize?_serialize, fun text members hparse => ⟨?_, ?_, ?_⟩⟩
  · intro item tags htags h
    exact ContentItem.deserialize?_of_presents hparse htags h
  · intro record votedAt reason hvotedAt hreason h
    exact EngagementRecord.deserialize?_of_presents hparse hvotedAt hreason h
  · intro change h
    exact CountChange.deserialize?_of_presents hparse h

end Json

namespace Sample

/-- A post with the least and the greatest of numbers, two tags, and a text that is escaped. -/
def escapedPost : ContentItem where
  scope := ⟨.ofNat 1⟩
  id := ⟨.ofNat 3⟩
  hive := ⟨.ofNat 1⟩
  kind := .post
  author := ⟨""⟩
  body := "\"\\\x01\n😀"
  createdAt := Int64.minValue
  lastActivityAt := Int64.maxValue
  upVotes := 0
  downVotes := 0
  comments := 7
  reports := 0
  obfuscated := false
  reviewed := true
  pinned := false
  tags := .ofList [⟨.ofNat 7⟩, ⟨.ofNat 9⟩]

/-- The fields of the post in another order, its tags unsorted and one of them twice, and a field
that an item has not. -/
def shuffledFields : List (String × Json) :=
  ("mood", .array [.decimal ['1', '.', '5'], .null]) ::
    (ContentItem.fieldNames.zip (escapedPost.given [⟨.ofNat 9⟩, ⟨.ofNat 7⟩, ⟨.ofNat 9⟩])).reverse

/-- The record of a reader who saved the post. -/
def savedRecord : EngagementRecord :=
  { EngagementRecord.neutral ⟨"reader"⟩ escapedPost.key escapedPost.hive with saved := true }

/-- The fields of the record without the time of a vote and with null for the reason. -/
def briefFields : List (String × Json) :=
  [("version", .integer 0), ("reported_reason", .null), ("reported", .bool false),
    ("saved", .bool true), ("up_voted", .bool false), ("down_voted", .bool false),
    ("hive_id", .text escapedPost.hive.uuid.text), ("scope_id", .text escapedPost.scope.uuid.text),
    ("content_id", .text escapedPost.id.uuid.text), ("user_id", .text "reader")]

/-- A change of counts. -/
def reportedChange : CountChange := ⟨1, 0, 7, Int64.minValue⟩

/-- The fields of the change in another order, and a field that a change has not. -/
def swappedFields : List (String × Json) :=
  ("mood", .null) :: (CountChange.fieldNames.zip reportedChange.given).reverse

theorem isDecimal_mood : Json.IsDecimal ['1', '.', '5'] :=
  ⟨false, ['1'], ['.', '5'], [],
    ⟨⟨List.cons_ne_nil _ _, List.forall_mem_singleton.2 rfl⟩, fun _ => rfl⟩,
    .inr ⟨['5'], ⟨List.cons_ne_nil _ _, List.forall_mem_singleton.2 rfl⟩, rfl⟩, .inl rfl,
    fun h => absurd h (List.cons_ne_nil _ _), rfl⟩

theorem wellFormed_shuffledFields : ∀ m ∈ shuffledFields, m.2.WellFormed := by
  rw [shuffledFields, List.forall_mem_cons]
  constructor
  · refine .array ?_
    rw [List.forall_mem_cons, List.forall_mem_singleton]
    exact ⟨.decimal isDecimal_mood, .null⟩
  · intro m hm
    exact ContentItem.wellFormed_given _ _ _ (List.of_mem_zip (List.mem_reverse.1 hm)).2

theorem wellFormed_briefFields : ∀ m ∈ briefFields, m.2.WellFormed := by
  simp only [briefFields, List.forall_mem_cons, Json.wellFormed_text, Json.WellFormed.integer,
    Json.WellFormed.bool, Json.WellFormed.null, List.not_mem_nil, false_imp_iff, implies_true,
    and_self]

theorem wellFormed_swappedFields : ∀ m ∈ swappedFields, m.2.WellFormed := by
  rw [swappedFields, List.forall_mem_cons]
  refine ⟨.null, fun m hm => ?_⟩
  exact CountChange.wellFormed_given _ _ (List.of_mem_zip (List.mem_reverse.1 hm)).2

theorem presents_briefFields :
    Json.Presents (briefFields.map fun m => (some m.1, m.2)) EngagementRecord.fieldNames
      (savedRecord.given none (some .null)) where
  named := by simp [briefFields]
  fields := by
    simp only [EngagementRecord.fieldNames, EngagementRecord.given, briefFields, Json.field,
      List.forall₂_cons, List.forall₂_nil_right_iff]
    exact ⟨rfl, rfl, rfl, rfl, rfl, rfl, rfl, rfl, rfl, rfl, rfl, trivial⟩

/-- The post is read from its shuffled fields, the record from its brief ones, and the change from
its swapped ones; and the post is read again from its own text. -/
theorem read_shuffled :
    ContentItem.deserialize? (Json.record shuffledFields).toText = some escapedPost ∧
    EngagementRecord.deserialize? (Json.record briefFields).toText = some savedRecord ∧
    CountChange.deserialize? (Json.record swappedFields).toText = some reportedChange ∧
    ContentItem.deserialize? escapedPost.serialize = some escapedPost := by
  obtain ⟨hitem, -, -, hread⟩ := Json.stored_values_faithful
  have hshuffled :
      ContentItem.deserialize? (Json.record shuffledFields).toText = some escapedPost :=
    (hread _ _ (Json.parse?_fields wellFormed_shuffledFields)).1 _
      [⟨.ofNat 9⟩, ⟨.ofNat 7⟩, ⟨.ofNat 9⟩] (by decide) (Json.presents_of_subset (by decide) rfl
        fun m hm => List.mem_cons_of_mem _ (List.mem_reverse.2 hm))
  refine ⟨hshuffled, ?_, ?_, (hitem.settled _ _ hshuffled).1⟩
  · exact (hread _ _ (Json.parse?_fields wellFormed_briefFields)).2.1 _ _ _ (.inr ⟨rfl, rfl⟩)
      (.inl rfl) presents_briefFields
  · exact (hread _ _ (Json.parse?_fields wellFormed_swappedFields)).2.2 _
      (Json.presents_of_subset (by decide) rfl
        fun m hm => List.mem_cons_of_mem _ (List.mem_reverse.2 hm))

-- A text as it might be written by hand, with blanks, an escape and values to be skipped.
example : CountChange.deserialize?
    (" \x7b \"reports\": -9223372036854775808, \"up_votes\": 1,\n\"mood\": [1.5e3," ++
      "\x7b\"deep\": null\x7d], \"d\\u006fwn_votes\": 0, \"comments\": 7 \x7d\r\n") =
    some reportedChange := by
  decide +kernel

end Sample

end HiveForum
