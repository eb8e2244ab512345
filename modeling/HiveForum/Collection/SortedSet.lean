/-!
# Sorted sets

A sorted set lists its elements in strictly increasing order. Equal sets are equal values, whatever
the order and repetition in which the elements were given.

## Main definitions

* `SortedSet`: the elements together with the proof that they increase.
* `SortedSet.ofList`: the set of the elements of a list.

## Main results

* `SortedSet.mem_ofList`: the elements of `ofList xs` are those of `xs`.
* `SortedSet.size_ofList_le`: there are no more of them than `xs` has.
* `SortedSet.ofList_toList`: listing a set and collecting it again gives the set.
-/

namespace HiveForum

open Std

/-- A finite set of `κ`, as the list of its elements in increasing order. -/
structure SortedSet (κ : Type) [Ord κ] where
  /-- The elements, each once. -/
  toList : List κ
  /-- The elements strictly increase along the list. -/
  ordered : toList.Pairwise (fun a b => compare a b = .lt)

namespace SortedSet

variable {κ : Type} [Ord κ]

instance [DecidableEq κ] : DecidableEq (SortedSet κ) := fun s t =>
  if h : s.toList = t.toList then
    isTrue (by cases s; cases t; cases h; rfl)
  else
    isFalse (fun e => h (e ▸ rfl))

/-- The set without elements. -/
def empty : SortedSet κ := ⟨[], .nil⟩

instance : Inhabited (SortedSet κ) := ⟨empty⟩

/-- The number of elements. -/
def size (set : SortedSet κ) : Nat := set.toList.length

/-- Whether there are no elements. -/
def isEmpty (set : SortedSet κ) : Bool := set.toList.isEmpty

/-- Whether `x` is an element. -/
def contains (set : SortedSet κ) (x : κ) : Bool := set.toList.any (compare x · == .eq)

/-- Places an element before the first larger one, unless it is there already. -/
def place (x : κ) : List κ → List κ
  | [] => [x]
  | y :: rest =>
    match compare x y with
    | .lt => x :: y :: rest
    | .eq => y :: rest
    | .gt => y :: place x rest

theorem mem_place [LawfulEqOrd κ] {x y : κ} {xs : List κ} : y ∈ place x xs ↔ y = x ∨ y ∈ xs := by
  induction xs with
  | nil => simp [place]
  | cons z rest ih =>
    unfold place
    split
    · simp
    · rename_i heq
      have hz := LawfulEqOrd.eq_of_compare heq
      subst hz
      simp
    · rw [List.mem_cons, ih, List.mem_cons]
      constructor <;> rintro (h | h | h) <;> simp [h]

theorem ordered_place [TransOrd κ] [LawfulEqOrd κ] (x : κ) {xs : List κ}
    (h : xs.Pairwise (fun a b => compare a b = .lt)) :
    (place x xs).Pairwise (fun a b => compare a b = .lt) := by
  induction xs with
  | nil => simp [place]
  | cons z rest ih =>
    obtain ⟨hhead, htail⟩ := List.pairwise_cons.1 h
    unfold place
    split
    · rename_i hlt
      refine List.pairwise_cons.2 ⟨fun e he => ?_, h⟩
      rcases List.mem_cons.1 he with rfl | he
      · exact hlt
      · exact TransCmp.lt_trans hlt (hhead e he)
    · exact h
    · rename_i hgt
      refine List.pairwise_cons.2 ⟨fun e he => ?_, ih htail⟩
      rcases mem_place.1 he with rfl | he
      · exact OrientedCmp.lt_of_gt hgt
      · exact hhead e he

/-- Adds an element. -/
def insert [TransOrd κ] [LawfulEqOrd κ] (set : SortedSet κ) (x : κ) : SortedSet κ :=
  ⟨place x set.toList, ordered_place x set.ordered⟩

/-- The set of the elements of a list. -/
def ofList [TransOrd κ] [LawfulEqOrd κ] (xs : List κ) : SortedSet κ :=
  xs.foldl insert empty

/-! ### Membership -/

theorem mem_foldl_insert [TransOrd κ] [LawfulEqOrd κ] {x : κ} {xs : List κ} {set : SortedSet κ} :
    x ∈ (xs.foldl insert set).toList ↔ x ∈ set.toList ∨ x ∈ xs := by
  induction xs generalizing set with
  | nil => simp
  | cons y rest ih =>
    rw [List.foldl_cons, ih, List.mem_cons]
    show x ∈ place y set.toList ∨ x ∈ rest ↔ _
    rw [mem_place]
    constructor
    · rintro ((h | h) | h)
      · exact .inr (.inl h)
      · exact .inl h
      · exact .inr (.inr h)
    · rintro (h | h | h)
      · exact .inl (.inr h)
      · exact .inl (.inl h)
      · exact .inr h

/-- The elements of the set of a list are those of the list. -/
theorem mem_ofList [TransOrd κ] [LawfulEqOrd κ] {x : κ} {xs : List κ} :
    x ∈ (ofList xs).toList ↔ x ∈ xs := by
  unfold ofList
  rw [mem_foldl_insert]
  simp [empty]

theorem contains_iff [LawfulEqOrd κ] {set : SortedSet κ} {x : κ} :
    set.contains x = true ↔ x ∈ set.toList := by
  unfold contains
  rw [List.any_eq_true]
  constructor
  · rintro ⟨y, hy, h⟩
    rw [LawfulEqOrd.eq_of_compare (eq_of_beq h)]
    exact hy
  · intro h
    exact ⟨x, h, by simp [ReflCmp.compare_self]⟩

theorem toList_eq_of_mem_iff [TransOrd κ] {s t : List κ}
    (hs : s.Pairwise (fun a b => compare a b = .lt))
    (ht : t.Pairwise (fun a b => compare a b = .lt))
    (h : ∀ x, x ∈ s ↔ x ∈ t) : s = t := by
  induction s generalizing t with
  | nil =>
    cases t with
    | nil => rfl
    | cons b t => exact absurd ((h b).2 List.mem_cons_self) (by simp)
  | cons a s ih =>
    cases t with
    | nil => exact absurd ((h a).1 List.mem_cons_self) (by simp)
    | cons b t =>
      obtain ⟨has, hs'⟩ := List.pairwise_cons.1 hs
      obtain ⟨hbt, ht'⟩ := List.pairwise_cons.1 ht
      have hab : a = b := by
        rcases List.mem_cons.1 ((h a).1 List.mem_cons_self) with e | hat
        · exact e
        · rcases List.mem_cons.1 ((h b).2 List.mem_cons_self) with e | hbs
          · exact e.symm
          · have h1 := hbt a hat
            rw [OrientedCmp.gt_of_lt (has b hbs)] at h1
            cases h1
      subst hab
      have hself : ∀ l : List κ, (∀ x ∈ l, compare a x = .lt) → a ∉ l := by
        intro l hl hm
        have := hl a hm
        simp [ReflCmp.compare_self] at this
      refine congrArg (a :: ·) (ih hs' ht' fun x => ?_)
      constructor
      · intro hx
        rcases List.mem_cons.1 ((h x).1 (List.mem_cons_of_mem _ hx)) with rfl | hx'
        · exact absurd hx (hself s has)
        · exact hx'
      · intro hx
        rcases List.mem_cons.1 ((h x).2 (List.mem_cons_of_mem _ hx)) with rfl | hx'
        · exact absurd hx (hself t hbt)
        · exact hx'

theorem ext_mem [TransOrd κ] {s t : SortedSet κ} (h : ∀ x, x ∈ s.toList ↔ x ∈ t.toList) :
    s = t := by
  obtain ⟨xs, hxs⟩ := s
  obtain ⟨ys, hys⟩ := t
  have he : xs = ys := toList_eq_of_mem_iff hxs hys h
  subst he
  rfl

theorem length_place_le (x : κ) (xs : List κ) : (place x xs).length ≤ xs.length + 1 := by
  induction xs with
  | nil => simp [place]
  | cons y rest ih =>
    unfold place
    split <;> simp [ih]

/-- The set of the elements of a list is no larger than the list. -/
theorem size_ofList_le [TransOrd κ] [LawfulEqOrd κ] (xs : List κ) :
    (ofList xs).size ≤ xs.length := by
  have hfold : ∀ set : SortedSet κ, (xs.foldl insert set).size ≤ set.size + xs.length := by
    induction xs with
    | nil => exact fun _ => Nat.le_refl _
    | cons x rest ih =>
      intro set
      have hplace : (set.insert x).size ≤ set.size + 1 := length_place_le x set.toList
      have hrest := ih (set.insert x)
      rw [List.foldl_cons, List.length_cons]
      omega
  have hempty := hfold empty
  exact Nat.le_trans hempty (Nat.le_of_eq (Nat.zero_add _))

/-- Listing a set and collecting it again gives the set. -/
@[simp]
theorem ofList_toList [TransOrd κ] [LawfulEqOrd κ] (set : SortedSet κ) :
    ofList set.toList = set :=
  ext_mem fun _ => mem_ofList

end SortedSet

end HiveForum
