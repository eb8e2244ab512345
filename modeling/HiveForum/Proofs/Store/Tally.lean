import HiveForum.Store.State

/-!
# Counting records

The counts of an item are meant to be the numbers of records with a flag. A write moves such a
number by the difference that it makes to the flag of one record.

## Main definitions

* `StoreState.flag`: whether a flag is set in the stored record of a key.
* `StoreState.tally`: the number of records of an item with a flag.

## Main results

* `Table.countP_insert`: how many values satisfy a claim after one is stored.
* `StoreState.tally_insert`: the number of records with a flag after a write.
-/

namespace HiveForum

open Std

namespace Table

variable {κ ν : Type} [Ord κ]

theorem mem_values_iff [LawfulEqOrd κ] {table : Table κ ν} {value : ν} :
    value ∈ table.values ↔ ∃ key, table.get? key = some value := by
  rw [values]
  simp only [List.mem_map, get?_eq_some_iff, Prod.exists]
  constructor
  · rintro ⟨key, value', hmem, rfl⟩
    exact ⟨key, hmem⟩
  · rintro ⟨key, hmem⟩
    exact ⟨key, value, hmem, rfl⟩

/-- Two tables in which the lookups find the same values that satisfy a claim have as many of
them. -/
theorem countP_values_congr [TransOrd κ] [LawfulEqOrd κ] {s t : Table κ ν} {p : ν → Bool}
    (h : ∀ key value, p value = true → (s.get? key = some value ↔ t.get? key = some value)) :
    s.values.countP p = t.values.countP p := by
  have hfilter : s.filter (fun _ value => p value) = t.filter (fun _ value => p value) := by
    refine ext_get? fun key => Option.ext fun value => ?_
    simp only [get?_filter, Option.filter_eq_some_iff]
    exact and_congr_left fun hp => h key value hp
  have hcount : ∀ table : Table κ ν,
      table.values.countP p = (table.filter (fun _ value => p value)).entries.length := by
    intro table
    simp only [values, filter, List.countP_eq_length_filter, List.filter_map, List.length_map]
    rfl
  rw [hcount, hcount, hfilter]

/-- Two tables have as many values that satisfy a claim if the values at each key satisfy it in both
or in neither. -/
theorem countP_values_eq [TransOrd κ] [LawfulEqOrd κ] {s t : Table κ ν} {p : ν → Bool}
    (h : ∀ key, (s.get? key).any p = (t.get? key).any p) :
    s.values.countP p = t.values.countP p := by
  -- the keys of these values, in order
  let marks (table : Table κ ν) : Table κ Unit :=
    ⟨(table.entries.filter fun entry => p entry.2).map fun entry => (entry.1, ()),
      List.pairwise_map.2 (table.ordered.filter _)⟩
  have hmarks : ∀ (table : Table κ ν) (key : κ) (mark : Unit),
      (marks table).get? key = some mark ↔ (table.get? key).any p = true := by
    intro table key mark
    rw [Table.get?_eq_some_iff, Option.any_eq_true]
    simp only [marks, List.mem_map, List.mem_filter, Table.get?_eq_some_iff, Prod.exists]
    constructor
    · rintro ⟨key', value, ⟨hmem, hp⟩, heq⟩
      cases heq
      exact ⟨value, hmem, hp⟩
    · rintro ⟨value, hmem, hp⟩
      exact ⟨key, value, ⟨hmem, hp⟩, rfl⟩
  have hsame : marks s = marks t := by
    refine ext_get? fun key => Option.ext fun mark => ?_
    rw [hmarks, hmarks, h]
  have hcount : ∀ table : Table κ ν, table.values.countP p = (marks table).entries.length := by
    intro table
    simp only [marks, values, List.countP_eq_length_filter, List.filter_map, List.length_map]
    rfl
  rw [hcount, hcount, hsame]

theorem countP_place [TransOrd κ] [LawfulEqOrd κ] (key : κ) (value : ν) (p : ν → Bool)
    (entries : List (κ × ν)) (ordered : entries.Pairwise (fun a b => compare a.1 b.1 = .lt)) :
    ((place key value entries).map (·.2)).countP p + ((find? key entries).any p).toNat =
      (entries.map (·.2)).countP p + (p value).toNat := by
  induction entries with
  | nil => cases h : p value <;> simp [place, find?, h]
  | cons entry rest ih =>
    obtain ⟨hhead, htail⟩ := List.pairwise_cons.1 ordered
    rw [place]
    split
    · rename_i hlt
      -- the keys that follow are larger still
      have hnone : find? key (entry :: rest) = none := by
        cases hfind : find? key (entry :: rest) with
        | none => rfl
        | some other =>
          rcases List.mem_cons.1 ((find?_eq_some_iff ordered).1 hfind) with heq | hmem
          · simp [← heq, ReflCmp.compare_self] at hlt
          · have hself := TransCmp.lt_trans hlt (hhead _ hmem)
            simp [ReflCmp.compare_self] at hself
      cases h : p value <;> simp [hnone, h]
    · rename_i heq
      have hsome : find? key (entry :: rest) = some entry.2 := by simp [find?, heq]
      cases h : p value <;> cases he : p entry.2 <;> simp [hsome, h, he]
    · rename_i hgt
      have hfind : find? key (entry :: rest) = find? key rest := by simp [find?, hgt]
      have hrest := ih htail
      rw [hfind]
      simp only [List.map_cons, List.countP_cons]
      omega

/-- A stored value takes the place of the one stored under its key before. -/
theorem countP_insert [TransOrd κ] [LawfulEqOrd κ] (table : Table κ ν) (key : κ) (value : ν)
    (p : ν → Bool) :
    (table.insert key value).values.countP p + ((table.get? key).any p).toNat =
      table.values.countP p + (p value).toNat :=
  countP_place key value p table.entries table.ordered

end Table

namespace StoreState

/-- Whether a flag is set in the stored record of a key. -/
def flag (state : StoreState) (key : EngagementKey) (flagOf : EngagementRecord → Bool) : Bool :=
  (state.record? key).any flagOf

/-- The number of records of an item with a flag. -/
def tally (state : StoreState) (content : ContentId) (flagOf : EngagementRecord → Bool) : Nat :=
  state.records.countP fun record => decide (record.content = content) && flagOf record

theorem mem_records_iff {state : StoreState} {record : EngagementRecord} :
    record ∈ state.records ↔ ∃ key, state.record? key = some record :=
  Table.mem_values_iff

theorem tally_le_length (state : StoreState) (content : ContentId)
    (flagOf : EngagementRecord → Bool) : state.tally content flagOf ≤ state.records.length :=
  List.countP_le_length

theorem tally_congr {state later : StoreState} {content : ContentId}
    {flagOf : EngagementRecord → Bool}
    (h : ∀ key record, record.content = content →
      (state.record? key = some record ↔ later.record? key = some record)) :
    state.tally content flagOf = later.tally content flagOf := by
  refine Table.countP_values_congr fun key record hp => h key record ?_
  exact of_decide_eq_true (Bool.and_eq_true_iff.1 hp).1

/-- As many records of an item have a flag if the same users have set it. -/
theorem tally_eq_of_flag {state later : StoreState} {content : ContentId}
    {flagOf : EngagementRecord → Bool}
    (keyed : ∀ key record, state.record? key = some record → record.key = key)
    (keyedLater : ∀ key record, later.record? key = some record → record.key = key)
    (h : ∀ user, state.flag ⟨user, content⟩ flagOf = later.flag ⟨user, content⟩ flagOf) :
    state.tally content flagOf = later.tally content flagOf := by
  refine Table.countP_values_eq fun key => ?_
  have hany : ∀ store : StoreState,
      (∀ key record, store.record? key = some record → record.key = key) →
        ((store.engagement.get? key).any fun record =>
          decide (record.content = content) && flagOf record) =
            (decide (key.content = content) && store.flag key flagOf) := by
    intro store hkeyed
    rw [flag, record?]
    cases hrecord : store.engagement.get? key with
    | none => simp
    | some record =>
      have hcontent : record.content = key.content :=
        congrArg EngagementKey.content (hkeyed key record hrecord)
      simp [hcontent]
  rw [hany state keyed, hany later keyedLater]
  by_cases hcontent : key.content = content
  · rw [← hcontent] at h
    rw [h key.user]
  · simp [hcontent]

/-- A record that is stored moves the number of records with a flag by the difference that it makes
to the flag of its key. -/
theorem tally_insert {state : StoreState} {record : EngagementRecord}
    (keyed : ∀ old, state.record? record.key = some old → old.key = record.key)
    (flagOf : EngagementRecord → Bool) :
    (⟨state.content, state.engagement.insert record.key record⟩ : StoreState).tally record.content
        flagOf + (state.flag record.key flagOf).toNat =
      state.tally record.content flagOf + (flagOf record).toNat := by
  have hinsert := Table.countP_insert state.engagement record.key record
    fun other => decide (other.content = record.content) && flagOf other
  have hold : ((state.engagement.get? record.key).any fun other =>
      decide (other.content = record.content) && flagOf other) =
        state.flag record.key flagOf := by
    rw [flag, record?]
    cases h : state.engagement.get? record.key with
    | none => rfl
    | some old =>
      have hcontent : old.content = record.content :=
        congrArg EngagementKey.content (keyed old h)
      simp [hcontent]
  rw [hold] at hinsert
  simpa [tally, records] using hinsert

end StoreState

end HiveForum
