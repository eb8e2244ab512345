/-!
# Tables: finite maps in key order

A table lists its entries with strictly increasing keys. The list is the canonical form of the
map: two tables with the same lookups are the same value, and every walk over a table visits the
keys in order.

## Main definitions

* `Table`: the entries together with the proof that their keys increase.
* `Table.get?`, `Table.insert`, `Table.erase`, `Table.filter`: the operations of a finite map.
* `Table.entriesFrom`: a walk that starts at a key or right after it.

## Main results

* `Table.get?_insert`, `Table.get?_erase`: each operation through the lookup.
* `Table.get?_eq_some_iff`: the lookup finds exactly the listed entries.
* `Table.ext_get?`: a table is determined by its lookups.
* `Table.entriesFrom_eq_filter`: a walk comes by all entries that do not lie before its start.
-/

namespace HiveForum

open Std

/-- Of a list whose members with a property come first, the others are what is left when those are
dropped. -/
theorem List.dropWhile_eq_filter {α : Type} {p : α → Bool} {list : List α}
    (first : list.Pairwise fun a b => p b = true → p a = true) :
    list.dropWhile p = list.filter fun a => !p a := by
  induction list with
  | nil => rfl
  | cons a rest ih =>
    obtain ⟨hhead, htail⟩ := List.pairwise_cons.1 first
    cases ha : p a with
    | true => rw [List.dropWhile_cons_of_pos ha, ih htail, List.filter_cons_of_neg (by simp [ha])]
    | false =>
      rw [List.dropWhile_cons_of_neg (by simp [ha]), eq_comm, List.filter_eq_self]
      intro b hb
      rcases List.mem_cons.1 hb with rfl | hb
      · simp [ha]
      · cases hpb : p b with
        | true => exact absurd (hhead b hb hpb) (by simp [ha])
        | false => rfl

/-- Of a list whose members with a property come first, these are what the property lets pass until
it fails. -/
theorem List.takeWhile_eq_filter {α : Type} {p : α → Bool} {list : List α}
    (first : list.Pairwise fun a b => p b = true → p a = true) :
    list.takeWhile p = list.filter p := by
  have hall : (list.takeWhile p).filter p = list.takeWhile p :=
    List.filter_eq_self.2 (List.all_eq_true.1 List.all_takeWhile)
  have hnone : (list.dropWhile p).filter p = [] := by
    rw [List.dropWhile_eq_filter first, List.filter_filter]
    simp
  calc list.takeWhile p
      = (list.takeWhile p ++ list.dropWhile p).filter p := by
        rw [List.filter_append, hall, hnone, List.append_nil]
    _ = list.filter p := by rw [List.takeWhile_append_dropWhile]

/-- A finite map from `κ` to `ν`, as the list of its entries by increasing key. -/
structure Table (κ ν : Type) [Ord κ] where
  entries : List (κ × ν)
  /-- The keys strictly increase along the list. -/
  ordered : entries.Pairwise (fun a b => compare a.1 b.1 = .lt)

namespace Table

variable {κ ν μ : Type} [Ord κ]

instance [DecidableEq κ] [DecidableEq ν] : DecidableEq (Table κ ν) := fun s t =>
  if h : s.entries = t.entries then
    isTrue (by cases s; cases t; cases h; rfl)
  else
    isFalse (fun e => h (e ▸ rfl))

/-- The table without entries. -/
def empty : Table κ ν := ⟨[], .nil⟩

instance : Inhabited (Table κ ν) := ⟨empty⟩

/-- The value listed under `key`. -/
def find? (key : κ) : List (κ × ν) → Option ν
  | [] => none
  | entry :: rest => if compare key entry.1 = .eq then some entry.2 else find? key rest

/-- The value stored under `key`. -/
def get? (table : Table κ ν) (key : κ) : Option ν := find? key table.entries

/-- Whether a value is stored under `key`. -/
def contains (table : Table κ ν) (key : κ) : Bool := (table.get? key).isSome

/-- The number of entries. -/
def size (table : Table κ ν) : Nat := table.entries.length

/-- Whether there are no entries. -/
def isEmpty (table : Table κ ν) : Bool := table.entries.isEmpty

/-- The keys, in order. -/
def keys (table : Table κ ν) : List κ := table.entries.map (·.1)

/-- The values, in the order of their keys. -/
def values (table : Table κ ν) : List ν := table.entries.map (·.2)

/-- Places an entry before the first larger key, replacing an equal one. -/
def place (key : κ) (value : ν) : List (κ × ν) → List (κ × ν)
  | [] => [(key, value)]
  | entry :: rest =>
    match compare key entry.1 with
    | .lt => (key, value) :: entry :: rest
    | .eq => (key, value) :: rest
    | .gt => entry :: place key value rest

theorem mem_place {key : κ} {value : ν} {entries : List (κ × ν)} {e : κ × ν}
    (h : e ∈ place key value entries) : e = (key, value) ∨ e ∈ entries := by
  induction entries with
  | nil => simpa [place] using h
  | cons entry rest ih =>
    unfold place at h
    split at h
    · simpa using h
    · rcases List.mem_cons.1 h with h | h
      · exact .inl h
      · exact .inr (List.mem_cons_of_mem _ h)
    · rcases List.mem_cons.1 h with h | h
      · exact .inr (h ▸ List.mem_cons_self)
      · exact (ih h).imp_right (List.mem_cons_of_mem _)

theorem ordered_place [TransOrd κ] [LawfulEqOrd κ] (key : κ) (value : ν)
    {entries : List (κ × ν)} (h : entries.Pairwise (fun a b => compare a.1 b.1 = .lt)) :
    (place key value entries).Pairwise (fun a b => compare a.1 b.1 = .lt) := by
  induction entries with
  | nil => simp [place]
  | cons entry rest ih =>
    obtain ⟨hhead, htail⟩ := List.pairwise_cons.1 h
    unfold place
    split
    · rename_i hlt
      refine List.pairwise_cons.2 ⟨fun e he => ?_, h⟩
      rcases List.mem_cons.1 he with rfl | he
      · exact hlt
      · exact TransCmp.lt_trans hlt (hhead e he)
    · rename_i heq
      rw [LawfulEqOrd.eq_of_compare heq]
      exact List.pairwise_cons.2 ⟨hhead, htail⟩
    · rename_i hgt
      refine List.pairwise_cons.2 ⟨fun e he => ?_, ih htail⟩
      rcases mem_place he with rfl | he
      · exact OrientedCmp.lt_of_gt hgt
      · exact hhead e he

/-- Stores `value` under `key`, in place of a value stored there before. -/
def insert [TransOrd κ] [LawfulEqOrd κ] (table : Table κ ν) (key : κ) (value : ν) : Table κ ν :=
  ⟨place key value table.entries, ordered_place key value table.ordered⟩

/-- Keeps the entries that satisfy `keep`. -/
def filter (table : Table κ ν) (keep : κ → ν → Bool) : Table κ ν :=
  ⟨table.entries.filter (fun e => keep e.1 e.2), table.ordered.filter _⟩

/-- Removes the entry stored under `key`, if there is one. -/
def erase (table : Table κ ν) (key : κ) : Table κ ν :=
  table.filter (fun k _ => compare key k != .eq)

/-- Where a walk over a table starts. -/
inductive Bound (κ : Type) where
  | included (key : κ)
  | excluded (key : κ)

/-- Whether a key lies before the start of a walk. -/
def Bound.skips : Bound κ → κ → Bool
  | .included lower, key => compare key lower == .lt
  | .excluded lower, key => (compare key lower).isLE

/-- The entries that a walk from a bound to the end of the table comes by. -/
def entriesFrom (table : Table κ ν) (bound : Bound κ) : List (κ × ν) :=
  table.entries.dropWhile fun entry => bound.skips entry.1

/-- The table of a list of entries, a later entry replacing an earlier one with its key. -/
def ofList [TransOrd κ] [LawfulEqOrd κ] (entries : List (κ × ν)) : Table κ ν :=
  entries.foldl (fun table e => table.insert e.1 e.2) empty

/-! ### The lookup after each operation -/

@[simp]
theorem get?_empty (key : κ) : (empty : Table κ ν).get? key = none := rfl

theorem find?_eq_some_iff [LawfulEqOrd κ] {key : κ} {value : ν} {entries : List (κ × ν)}
    (h : entries.Pairwise (fun a b => compare a.1 b.1 = .lt)) :
    find? key entries = some value ↔ (key, value) ∈ entries := by
  induction entries with
  | nil => simp [find?]
  | cons entry rest ih =>
    obtain ⟨hhead, htail⟩ := List.pairwise_cons.1 h
    unfold find?
    split
    · rename_i heq
      have hkey := LawfulEqOrd.eq_of_compare heq
      constructor
      · intro hv
        obtain ⟨k, v⟩ := entry
        simp_all
      · intro hm
        rcases List.mem_cons.1 hm with rfl | hm
        · rfl
        · have := hhead _ hm
          rw [← hkey] at this
          simp [ReflCmp.compare_self] at this
    · rename_i hne
      rw [ih htail, List.mem_cons]
      constructor
      · exact .inr
      · rintro (rfl | hm)
        · exact absurd ReflCmp.compare_self hne
        · exact hm

/-- The lookup finds exactly the listed entries. -/
theorem get?_eq_some_iff [LawfulEqOrd κ] {table : Table κ ν} {key : κ} {value : ν} :
    table.get? key = some value ↔ (key, value) ∈ table.entries :=
  find?_eq_some_iff table.ordered

theorem find?_place [DecidableEq κ] [LawfulEqOrd κ] (key key' : κ) (value : ν)
    (entries : List (κ × ν)) :
    find? key' (place key value entries) =
      if key' = key then some value else find? key' entries := by
  induction entries with
  | nil =>
    simp only [place, find?, LawfulEqOrd.compare_eq_iff_eq]
  | cons entry rest ih =>
    unfold place
    split
    · simp only [find?, LawfulEqOrd.compare_eq_iff_eq]
    · rename_i heq
      have hkey := LawfulEqOrd.eq_of_compare heq
      simp only [find?, LawfulEqOrd.compare_eq_iff_eq, hkey]
      split <;> rfl
    · rename_i hgt
      have hne : entry.1 ≠ key := by
        rintro rfl
        simp [ReflCmp.compare_self] at hgt
      simp only [find?, LawfulEqOrd.compare_eq_iff_eq, ih]
      by_cases h1 : key' = entry.1
      · subst h1
        simp [hne]
      · simp [h1]

/-- A stored value is found under its key, and no other key is affected. -/
theorem get?_insert [DecidableEq κ] [TransOrd κ] [LawfulEqOrd κ] (table : Table κ ν)
    (key key' : κ) (value : ν) :
    (table.insert key value).get? key' = if key' = key then some value else table.get? key' :=
  find?_place key key' value table.entries

theorem get?_filter [LawfulEqOrd κ] (table : Table κ ν) (keep : κ → ν → Bool) (key : κ) :
    (table.filter keep).get? key = (table.get? key).filter (keep key) := by
  apply Option.ext
  intro value
  rw [get?_eq_some_iff, Option.filter_eq_some_iff, get?_eq_some_iff]
  simp [filter]

/-- An erased key has no value, and no other key is affected. -/
theorem get?_erase [DecidableEq κ] [LawfulEqOrd κ] (table : Table κ ν) (key key' : κ) :
    (table.erase key).get? key' = if key' = key then none else table.get? key' := by
  unfold erase
  rw [get?_filter]
  by_cases h : key' = key
  · subst h
    cases table.get? key' <;> simp [Option.filter]
  · have hne : (compare key key' != .eq) = true := by
      simp only [bne_iff_ne, ne_eq, LawfulEqOrd.compare_eq_iff_eq]
      exact fun e => h e.symm
    cases table.get? key' <;> simp [Option.filter, hne, h]

theorem entries_eq_of_mem_iff [TransOrd κ] {s t : List (κ × ν)}
    (hs : s.Pairwise (fun a b => compare a.1 b.1 = .lt))
    (ht : t.Pairwise (fun a b => compare a.1 b.1 = .lt))
    (h : ∀ e, e ∈ s ↔ e ∈ t) : s = t := by
  induction s generalizing t with
  | nil =>
    cases t with
    | nil => rfl
    | cons b t => exact absurd ((h b).2 List.mem_cons_self) (by simp)
  | cons a s ih =>
    cases t with
    | nil => exact absurd ((h a).1 List.mem_cons_self) (by simp)
    | cons b t =>
      obtain ⟨has, hs'⟩ := List.pairwise_cons.1 hs
      obtain ⟨hbt, ht'⟩ := List.pairwise_cons.1 ht
      have hab : a = b := by
        rcases List.mem_cons.1 ((h a).1 List.mem_cons_self) with e | hat
        · exact e
        · rcases List.mem_cons.1 ((h b).2 List.mem_cons_self) with e | hbs
          · exact e.symm
          · have h1 := hbt a hat
            have h2 := has b hbs
            rw [OrientedCmp.gt_of_lt h2] at h1
            cases h1
      subst hab
      refine congrArg (a :: ·) (ih hs' ht' fun e => ?_)
      have hself : ∀ l : List (κ × ν), (∀ x ∈ l, compare a.1 x.1 = .lt) → a ∉ l := by
        intro l hl hm
        have := hl a hm
        simp [ReflCmp.compare_self] at this
      constructor
      · intro he
        rcases List.mem_cons.1 ((h e).1 (List.mem_cons_of_mem _ he)) with rfl | he'
        · exact absurd he (hself s has)
        · exact he'
      · intro he
        rcases List.mem_cons.1 ((h e).2 (List.mem_cons_of_mem _ he)) with rfl | he'
        · exact absurd he (hself t hbt)
        · exact he'

/-- A table is determined by its lookups. -/
theorem ext_get? [TransOrd κ] [LawfulEqOrd κ] {s t : Table κ ν}
    (h : ∀ key, s.get? key = t.get? key) : s = t := by
  obtain ⟨xs, hxs⟩ := s
  obtain ⟨ys, hys⟩ := t
  have he : xs = ys := entries_eq_of_mem_iff hxs hys fun e => by
    have hk := h e.1
    have h1 := @get?_eq_some_iff κ ν _ _ ⟨xs, hxs⟩ e.1 e.2
    have h2 := @get?_eq_some_iff κ ν _ _ ⟨ys, hys⟩ e.1 e.2
    rw [hk] at h1
    exact h1.symm.trans h2
  subst he
  rfl

/-! ### Walks -/

theorem Bound.skips_of_lt [TransOrd κ] {bound : Bound κ} {a b : κ} (hab : compare a b = .lt)
    (h : bound.skips b = true) : bound.skips a = true := by
  cases bound with
  | included lower =>
    rw [skips, beq_iff_eq] at *
    exact TransCmp.lt_trans hab h
  | excluded lower =>
    rw [skips] at *
    rw [TransCmp.lt_of_lt_of_isLE hab h]
    rfl

/-- A walk comes by all entries that do not lie before its start. -/
theorem entriesFrom_eq_filter [TransOrd κ] (table : Table κ ν) (bound : Bound κ) :
    table.entriesFrom bound = table.entries.filter fun entry => !bound.skips entry.1 :=
  List.dropWhile_eq_filter (table.ordered.imp fun hlt => Bound.skips_of_lt hlt)

end Table

end HiveForum
