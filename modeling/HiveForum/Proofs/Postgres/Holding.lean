import HiveForum.Proofs.Postgres.Reading
import HiveForum.Store.State

/-!
# What a database holds

Rows are a table of entries when each row is read as an entry, the entries are those that lookups
find under their keys, and no two rows have one key. What a statement does to the rows is what it
does to the lookups: this is said here once, for items and for records. A database holds the
contents of a store when its rows are tables of the items and of the records of the store.

## Main definitions

* `Tabulates`: rows are a table of the entries that lookups find.
* `Sql.Database.Holds`: a database holds the contents of a store.

## Main results

* `Tabulates.filter_of_some`, `Tabulates.filter_of_none`: the rows of one key.
* `Tabulates.update`, `Tabulates.insert`, `Tabulates.filter`: the table after a change.
-/

namespace HiveForum

open Sql

/-- Rows are a table of the entries that lookups find under their keys. -/
structure Tabulates {κ ρ : Type} (read : Row → Except StoreError ρ) (keyOf : ρ → κ)
    (rows : List Row) (lookup : κ → Option ρ) : Prop where
  /-- Each row is read as an entry that is found under its key. -/
  sound : ∀ row ∈ rows, ∃ entry, read row = .ok entry ∧ lookup (keyOf entry) = some entry
  /-- Each entry that is found under a key has this key, and is read from a row. -/
  complete : ∀ key entry, lookup key = some entry →
    keyOf entry = key ∧ ∃ row ∈ rows, read row = .ok entry
  /-- No two rows have one key. -/
  distinct : rows.Pairwise fun a b =>
    ∀ x y, read a = .ok x → read b = .ok y → keyOf x ≠ keyOf y

namespace Tabulates

variable {κ ρ : Type} {read : Row → Except StoreError ρ} {keyOf : ρ → κ} {rows : List Row}
  {lookup lookup' : κ → Option ρ} {key : κ} {entry : ρ} {test : Row → Bool}

theorem found (h : Tabulates read keyOf rows lookup) {row : Row} (hrow : row ∈ rows)
    (hread : read row = .ok entry) : lookup (keyOf entry) = some entry := by
  obtain ⟨entry', hread', hfound⟩ := h.sound row hrow
  obtain rfl : entry' = entry := Except.ok.inj (hread'.symm.trans hread)
  exact hfound

/-! ### The rows of one key -/

/-- Where nothing is found, no row is picked. -/
theorem filter_of_none (h : Tabulates read keyOf rows lookup)
    (picks : ∀ row ∈ rows, ∀ entry, read row = .ok entry → (test row = true ↔ keyOf entry = key))
    (hnone : lookup key = none) : rows.filter test = [] := by
  refine List.filter_eq_nil_iff.2 fun row hrow htest => ?_
  obtain ⟨entry, hread, hfound⟩ := h.sound row hrow
  rw [(picks row hrow entry hread).1 htest, hnone] at hfound
  cases hfound

/-- Where an entry is found, its row is picked and no other one. -/
theorem filter_of_some (h : Tabulates read keyOf rows lookup)
    (picks : ∀ row ∈ rows, ∀ entry, read row = .ok entry → (test row = true ↔ keyOf entry = key))
    (hsome : lookup key = some entry) :
    ∃ row ∈ rows, read row = .ok entry ∧ rows.filter test = [row] := by
  obtain ⟨hkey, row, hrow, hread⟩ := h.complete key entry hsome
  have hmem : row ∈ rows.filter test :=
    List.mem_filter.2 ⟨hrow, (picks row hrow entry hread).2 hkey⟩
  have hpicked : ∀ other ∈ rows.filter test, ∃ x, read other = .ok x ∧ keyOf x = key := by
    intro other hother
    obtain ⟨hother, htest⟩ := List.mem_filter.1 hother
    obtain ⟨x, hx, -⟩ := h.sound other hother
    exact ⟨x, hx, (picks other hother x hx).1 htest⟩
  have hdistinct := h.distinct.filter test
  refine ⟨row, hrow, hread, ?_⟩
  cases hrows : rows.filter test with
  | nil =>
    rw [hrows] at hmem
    cases hmem
  | cons first rest =>
    rw [hrows] at hmem hpicked hdistinct
    cases rest with
    | nil => rw [List.mem_singleton.1 hmem]
    | cons second rest =>
      obtain ⟨x, hx, hxkey⟩ := hpicked first List.mem_cons_self
      obtain ⟨y, hy, hykey⟩ := hpicked second (List.mem_cons_of_mem _ List.mem_cons_self)
      have hne := (List.pairwise_cons.1 hdistinct).1 second List.mem_cons_self x y hx hy
      exact absurd (hxkey.trans hykey.symm) hne

/-! ### Changes -/

theorem nil (h : ∀ key, lookup key = none) : Tabulates read keyOf [] lookup where
  sound _ hrow := by cases hrow
  complete key _ hfound := by
    rw [h key] at hfound
    cases hfound
  distinct := .nil

/-- The table after a change of the row of a key. -/
theorem update [DecidableEq κ] (h : Tabulates read keyOf rows lookup) (edit : Row → Row)
    (change : ρ → ρ)
    (picks : ∀ row ∈ rows, ∀ entry, read row = .ok entry → (test row = true ↔ keyOf entry = key))
    (edits : ∀ row ∈ rows, ∀ entry, read row = .ok entry → keyOf entry = key →
      read (edit row) = .ok (change entry) ∧ keyOf (change entry) = key)
    (hlookup : ∀ key', lookup' key' = if key' = key then (lookup key).map change else lookup key') :
    Tabulates read keyOf (rows.map fun row => if test row then edit row else row) lookup' := by
  -- a row keeps its key, and is read as what is found under it afterwards
  have hrow : ∀ row ∈ rows, ∀ entry, read row = .ok entry → lookup (keyOf entry) = some entry →
      ∃ entry', read (if test row then edit row else row) = .ok entry' ∧
        keyOf entry' = keyOf entry ∧ lookup' (keyOf entry) = some entry' := by
    intro row hrow entry hread hfound
    by_cases hkey : keyOf entry = key
    · obtain ⟨hedit, hsame⟩ := edits row hrow entry hread hkey
      rw [if_pos ((picks row hrow entry hread).2 hkey), hlookup, if_pos hkey, ← hkey, hfound]
      exact ⟨change entry, hedit, hsame.trans hkey.symm, rfl⟩
    · rw [if_neg fun htest => hkey ((picks row hrow entry hread).1 htest), hlookup, if_neg hkey]
      exact ⟨entry, hread, rfl, hfound⟩
  refine ⟨fun row' hrow' => ?_, fun key' entry' hfound' => ?_, ?_⟩
  · obtain ⟨row, hmem, rfl⟩ := List.mem_map.1 hrow'
    obtain ⟨entry, hread, hfound⟩ := h.sound row hmem
    obtain ⟨entry', hread', hkey', hfound'⟩ := hrow row hmem entry hread hfound
    exact ⟨entry', hread', hkey' ▸ hfound'⟩
  · obtain ⟨entry, hfound⟩ : ∃ entry, lookup key' = some entry := by
      rw [hlookup] at hfound'
      split at hfound'
      · rename_i heq
        obtain ⟨entry, hfound, -⟩ := Option.map_eq_some_iff.1 hfound'
        exact ⟨entry, heq ▸ hfound⟩
      · exact ⟨entry', hfound'⟩
    obtain ⟨rfl, row, hmem, hread⟩ := h.complete key' entry hfound
    obtain ⟨entry'', hread', hkey', hfound''⟩ := hrow row hmem entry hread hfound
    obtain rfl : entry'' = entry' := Option.some.inj (hfound''.symm.trans hfound')
    exact ⟨hkey', _, List.mem_map_of_mem hmem, hread'⟩
  · refine List.pairwise_map.2 (h.distinct.imp_of_mem fun {a b} ha hb hne x y hx hy => ?_)
    obtain ⟨u, hu, hfoundu⟩ := h.sound a ha
    obtain ⟨v, hv, hfoundv⟩ := h.sound b hb
    obtain ⟨x', hx', hxkey, -⟩ := hrow a ha u hu hfoundu
    obtain ⟨y', hy', hykey, -⟩ := hrow b hb v hv hfoundv
    obtain rfl : x' = x := Except.ok.inj (hx'.symm.trans hx)
    obtain rfl : y' = y := Except.ok.inj (hy'.symm.trans hy)
    rw [hxkey, hykey]
    exact hne u v hu hv

/-- The table after a row has been added under a free key. -/
theorem insert [DecidableEq κ] {row : Row} (h : Tabulates read keyOf rows lookup)
    (hread : read row = .ok entry) (hfree : lookup (keyOf entry) = none)
    (hlookup : ∀ key', lookup' key' = if key' = keyOf entry then some entry else lookup key') :
    Tabulates read keyOf (rows ++ [row]) lookup' := by
  have hother : ∀ x, lookup (keyOf x) = some x → keyOf x ≠ keyOf entry := by
    intro x hfound heq
    rw [heq, hfree] at hfound
    cases hfound
  refine ⟨List.forall_mem_append.2 ⟨fun other hmem => ?_, List.forall_mem_singleton.2 ?_⟩,
    fun key' entry' hfound' => ?_, List.pairwise_append.2 ⟨h.distinct, List.pairwise_singleton _ _,
      fun other hmem new hnew => ?_⟩⟩
  · obtain ⟨x, hx, hfound⟩ := h.sound other hmem
    refine ⟨x, hx, ?_⟩
    rw [hlookup, if_neg (hother x hfound), hfound]
  · refine ⟨entry, hread, ?_⟩
    rw [hlookup, if_pos rfl]
  · rw [hlookup] at hfound'
    split at hfound'
    · rename_i heq
      obtain rfl := Option.some.inj hfound'
      exact ⟨heq.symm, row, List.mem_append_right _ (List.mem_singleton_self _), hread⟩
    · obtain ⟨hkey, other, hmem, hx⟩ := h.complete key' entry' hfound'
      exact ⟨hkey, other, List.mem_append_left _ hmem, hx⟩
  · rw [List.mem_singleton.1 hnew]
    intro x y hx hy
    obtain rfl : entry = y := Except.ok.inj (hread.symm.trans hy)
    exact hother x (h.found hmem hx)

/-- The table of the rows of some keys. -/
theorem filter (h : Tabulates read keyOf rows lookup) (keep : κ → Bool)
    (picks : ∀ row ∈ rows, ∀ entry, read row = .ok entry → test row = keep (keyOf entry))
    (hlookup : ∀ key', lookup' key' = if keep key' then lookup key' else none) :
    Tabulates read keyOf (rows.filter test) lookup' := by
  refine ⟨fun row hrow => ?_, fun key' entry' hfound' => ?_, h.distinct.filter test⟩
  · obtain ⟨hmem, htest⟩ := List.mem_filter.1 hrow
    obtain ⟨entry, hread, hfound⟩ := h.sound row hmem
    refine ⟨entry, hread, ?_⟩
    rw [hlookup, ← picks row hmem entry hread, if_pos htest, hfound]
  · rw [hlookup] at hfound'
    split at hfound'
    · rename_i hkeep
      obtain ⟨rfl, row, hmem, hread⟩ := h.complete key' entry' hfound'
      exact ⟨rfl, row, List.mem_filter.2 ⟨hmem, (picks row hmem entry' hread).trans hkeep⟩, hread⟩
    · cases hfound'

end Tabulates

/-! ### The contents of a store -/

/-- Rows are a table of the items of a store. -/
abbrev HoldsItems (rows : List Row) (store : StoreState) : Prop :=
  Tabulates ContentItem.ofRow ContentItem.key rows store.item?

/-- Rows are a table of the records of a store. -/
abbrev HoldsRecords (rows : List Row) (store : StoreState) : Prop :=
  Tabulates EngagementRecord.ofRow EngagementRecord.key rows store.record?

/-- A database holds the contents of a store, in rows that its relations admit. -/
structure Sql.Database.Holds (database : Database) (store : StoreState) : Prop where
  items : HoldsItems database.contentItems store
  records : HoldsRecords database.engagementRecords store
  admitted : ∀ relation, ∀ row ∈ database.rows relation, relation.admits row = true

end HiveForum
