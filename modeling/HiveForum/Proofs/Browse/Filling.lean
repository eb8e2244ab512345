import HiveForum.Operation.Browse
import HiveForum.Proofs.Forum.Answers
import HiveForum.Proofs.Program.Contract
import HiveForum.Proofs.Store.Page

/-!
# Filling a page while others write

A page is filled in rounds, and between two rounds others may write to the store. Nothing is assumed
about the items that a scan finds, but some positions *stay*: in every forum that the scan may meet
with there is an item of the listing at such a position. The scan holds items in strict order of the
positions at which it read them, and every position that stays is either held or still ahead. Hence
the page that it ends with shows all of these positions up to the one from which to go on.

## Main definitions

* `Course`: what is listed, and in which order.
* `Course.Finds`, `Course.Stays`: an item is listed; a position at which there always is one.
* `Course.Reads`: items that were read in order.
* `Course.Held`: what a scan holds between two rounds.
* `Course.Fills`: the page that a scan ends with.
* `Forum.reading`, `Site.Serves`: the contract of a program that only reads while others write, and
  what answers it.

## Main results

* `Course.Held.append`, `Course.Held.round`: what a round adds to what is held.
* `Collected.mem_or_after_ofHeld`: what is held or ahead is on the page that is cut, or after it.
* `Course.fills_ofHeld`: what is cut from what is held fills a page.
* `Scan.meets_collect`: a scan fills a page; where no call fails it does so in a few rounds.
-/

namespace HiveForum

open Program

/-- What is listed, and in which order. -/
structure Course where
  scope : ScopeId
  sort : SortKey
  direction : Direction
  tags : SortedSet TagId

/-- What a scan lists. -/
def Scan.course (scan : Scan) : Course := ⟨scan.scope, scan.sort, scan.direction, scan.tags⟩

namespace Course

/-- The query for what comes after a position. -/
def query (course : Course) (limit : Nat) (startAfter : Option IndexKey) : ContentQuery where
  scope := course.scope
  sort := course.sort
  direction := course.direction
  limit := limit
  startAfter := startAfter
  tags := course.tags

/-- An item is listed. -/
def Finds (course : Course) (store : StoreState) (item : ContentItem) : Prop :=
  item ∈ store.scopeItems course.scope ∧ item.matchesTags course.tags = true

/-- Where an item stands. -/
def position (course : Course) (item : ContentItem) : IndexKey := item.indexKey course.sort

/-- In every forum that may be met with an item is listed at a position. -/
def Stays (course : Course) (met : Forum → Prop) (position : IndexKey) : Prop :=
  ∀ forum, met forum → ∃ item, course.Finds forum.store item ∧ course.position item = position

/-- Items that were read, each in some forum that was met with, at one position after another and
all after the start. -/
structure Reads (course : Course) (met : Forum → Prop) (start : Option IndexKey)
    (items : List ContentItem) : Prop where
  ordered : items.Pairwise fun a b =>
    course.direction.isAfter (course.position b) (course.position a) = true
  past : ∀ item ∈ items, course.direction.isPast start (course.position item) = true
  found : ∀ item ∈ items, ∃ forum, met forum ∧ course.Finds forum.store item

/-- Between two rounds the positions that stay are held, or lie after the position that has been
reached; nothing that is held lies there. -/
structure Held (course : Course) (met : Forum → Prop) (start reached : Option IndexKey)
    (held : List ContentItem) : Prop extends course.Reads met start held where
  passed : ∀ item ∈ held, ∃ position, reached = some position ∧
    course.direction.isAfter (course.position item) position = false
  stays : ∀ position, course.Stays met position →
    course.direction.isPast start position = true →
    position ∈ held.map course.position ∨ course.direction.isPast reached position = true
  beyond : ∀ position, course.direction.isPast reached position = true →
    course.direction.isPast start position = true

/-- A page of some size shows the positions that stay up to the one from which to go on, which is
that of its last item. It is full unless it is the last page. -/
structure Fills (course : Course) (met : Forum → Prop) (start : Option IndexKey) (size : Nat)
    (collected : Collected) : Prop extends course.Reads met start collected.items where
  stays : ∀ position, course.Stays met position →
    course.direction.isPast start position = true →
    position ∈ collected.items.map course.position ∨
      ∃ next, collected.next = some next ∧ course.direction.isAfter position next = true
  next : collected.next = none ∨ collected.next = collected.items.getLast?.map course.position
  fits : collected.items.length ≤ size
  full : ∀ next, collected.next = some next → collected.items.length = size

/-- A list has all the positions in it at which items may be met with after one that has been
reached. -/
def Ahead (course : Course) (met : Forum → Prop) (reached : Option IndexKey)
    (ahead : List IndexKey) : Prop :=
  ∀ forum, met forum → ∀ item ∈ forum.store.scopeItems course.scope,
    course.direction.isPast reached (course.position item) = true → course.position item ∈ ahead

variable {course : Course} {met : Forum → Prop} {forum : Forum} {limits : QueryLimits}
  {limit : Nat} {start reached : Option IndexKey} {held : List ContentItem} {page : ContentPage}

theorem sort_eq_of_pairwise {items : List ContentItem} (ordered : items.Pairwise fun a b =>
      course.direction.isAfter (course.position b) (course.position a) = true) :
    ContentItem.sort course.sort course.direction items = items := by
  refine List.mergeSort_of_pairwise (ordered.imp fun {a b} hafter => ?_)
  have hlt : course.direction.compare (course.position a) (course.position b) = .lt :=
    Direction.isAfter_iff.1 hafter
  have hle : (course.direction.compare (course.position a) (course.position b)).isLE = true := by
    rw [hlt]
    rfl
  exact hle

theorem Reads.sort_eq (h : course.Reads met start held) :
    ContentItem.sort course.sort course.direction held = held := sort_eq_of_pairwise h.ordered

/-- The position from which to go on lies after the start of the page, and no position on the page
lies after it. -/
theorem Fills.next_spec {size : Nat} {collected : Collected}
    (h : course.Fills met start size collected) {next : IndexKey}
    (hnext : collected.next = some next) :
    course.direction.isPast start next = true ∧
      ∀ item ∈ collected.items, course.direction.isAfter (course.position item) next = false := by
  rcases h.next with hnone | hsome
  · rw [hnext] at hnone
    cases hnone
  · rw [hnext] at hsome
    obtain ⟨last, hlast, rfl⟩ := Option.map_eq_some_iff.1 hsome.symm
    refine ⟨h.past last (List.mem_of_getLast? hlast), fun item hitem => ?_⟩
    rcases List.eq_or_of_getLast? h.ordered hlast hitem with rfl | hafter
    · exact Direction.isAfter_self _ _
    · exact Direction.isAfter_asymm hafter

theorem Ahead.next {ahead : List IndexKey} (h : course.Ahead met reached ahead) {next : IndexKey}
    (mem : next ∈ ahead) (past : course.direction.isPast reached next = true) :
    ∃ ahead' : List IndexKey,
      ahead'.length < ahead.length ∧ course.Ahead met (some next) ahead' := by
  refine ⟨ahead.filter fun position => course.direction.isAfter position next,
    List.length_filter_lt_length_iff_exists.2 ⟨next, mem, ?_⟩, ?_⟩
  · rw [Direction.isAfter_self]
    exact Bool.false_ne_true
  · intro forum now item hitem hafter
    exact List.mem_filter.2 ⟨h forum now item hitem (Direction.isPast_trans past hafter), hafter⟩

/-! ### Rounds -/

theorem held_nil (course : Course) (met : Forum → Prop) (start : Option IndexKey) :
    course.Held met start start [] where
  ordered := .nil
  past _ h := by cases h
  found _ h := by cases h
  passed _ h := by cases h
  stays _ _ past := .inr past
  beyond _ past := past

theorem Held.isAfter_of_past (h : course.Held met start reached held) {item : ContentItem}
    (hitem : item ∈ held) {position : IndexKey}
    (past : course.direction.isPast reached position = true) :
    course.direction.isAfter position (course.position item) = true := by
  obtain ⟨start, rfl, hpassed⟩ := h.passed item hitem
  exact Direction.isAfter_of_not_isAfter hpassed past

/-- What is held, and what a round adds to it, comes in order. -/
theorem Held.append (h : course.Held met start reached held) (now : met forum)
    (filed : forum.store.Filed)
    (hpage : forum.store.queryContent limits (course.query limit reached) = .ok page) :
    course.Reads met start (held ++ page.items) where
  ordered := by
    refine List.pairwise_append.2
      ⟨h.ordered, StoreState.items_pairwise_of_queryContent filed hpage, fun a ha b hb => ?_⟩
    exact h.isAfter_of_past ha (StoreState.mem_scope_of_queryContent hpage hb).2
  past item hitem := (List.mem_append.1 hitem).elim (h.past item) fun hnew =>
    h.beyond _ (StoreState.mem_scope_of_queryContent hpage hnew).2
  found item hitem := (List.mem_append.1 hitem).elim (h.found item) fun hnew =>
    ⟨forum, now, (StoreState.mem_scope_of_queryContent hpage hnew).1,
      StoreState.matchesTags_of_queryContent hpage hnew⟩

/-- After a round a position that stays is held, or lies after the position that the round has
reached. -/
theorem Held.mem_or_after (h : course.Held met start reached held) (now : met forum)
    (filed : forum.store.Filed)
    (hpage : forum.store.queryContent limits (course.query limit reached) = .ok page)
    {position : IndexKey} (stays : course.Stays met position)
    (past : course.direction.isPast start position = true) :
    position ∈ (held ++ page.items).map course.position ∨
      ∃ next, page.lastEvaluated = some next ∧
        course.direction.isAfter position next = true := by
  rw [List.map_append, List.mem_append]
  obtain hheld | hahead := h.stays position stays past
  · exact .inl (.inl hheld)
  · obtain ⟨item, ⟨hscope, htags⟩, rfl⟩ := stays forum now
    refine (StoreState.mem_or_after_of_queryContent filed hpage hscope hahead htags).imp_left ?_
    exact fun hnew => .inr (List.mem_map_of_mem hnew)

/-- A round that does not reach the end of the index reaches a position ahead, and leaves what is
held as it should be. -/
theorem Held.round (h : course.Held met start reached held) (now : met forum)
    (filed : forum.store.Filed)
    (hpage : forum.store.queryContent limits (course.query limit reached) = .ok page)
    {next : IndexKey} (hnext : page.lastEvaluated = some next) :
    (∃ last ∈ forum.store.scopeItems course.scope, course.position last = next) ∧
      course.direction.isPast reached next = true ∧
      course.Held met start (some next) (held ++ page.items) := by
  obtain ⟨⟨last, hlast, rfl⟩, hnew⟩ := StoreState.lastEvaluated_of_queryContent filed hpage hnext
  obtain ⟨hscope, hahead⟩ := StoreState.mem_itemsAfter_iff.1 hlast
  refine ⟨⟨last, hscope, rfl⟩, hahead, h.append now filed hpage, fun item hitem => ⟨_, rfl, ?_⟩,
    ?_, ?_⟩
  · rcases List.mem_append.1 hitem with hheld | hshown
    · exact Direction.isAfter_asymm (h.isAfter_of_past hheld hahead)
    · exact hnew item hshown
  · intro position stays past
    refine (h.mem_or_after now filed hpage stays past).imp_right ?_
    rintro ⟨next, hsame, hafter⟩
    rw [hnext] at hsame
    exact Option.some.inj hsame ▸ hafter
  · exact fun position hafter => h.beyond position (Direction.isPast_trans hahead hafter)

end Course

theorem Collected.next_ofHeld (scan : Scan) (exhausted : Bool) (held : List ContentItem) :
    (ofHeld scan exhausted held).next =
      if scan.pageSize < held.length ∨ held.length = scan.pageSize ∧ ¬exhausted then
        (held.take scan.pageSize).getLast?.map scan.course.position else none := by
  rw [ofHeld]
  by_cases hlong : scan.pageSize < held.length
  · simp only [hlong, if_true, true_or]
    rfl
  · simp only [hlong, if_false, false_or]
    rfl

theorem Collected.next_eq_or (scan : Scan) (exhausted : Bool) (held : List ContentItem) :
    (ofHeld scan exhausted held).next = none ∨ (ofHeld scan exhausted held).next =
      (ofHeld scan exhausted held).items.getLast?.map (·.indexKey scan.sort) := by
  rw [next_ofHeld]
  split
  · exact .inr rfl
  · exact .inl rfl

/-- A position that is held, or comes after all that is held by a scan that holds enough for its
page, is on the page that is cut from what is held, or after it. -/
theorem Collected.mem_or_after_ofHeld {scan : Scan} {exhausted : Bool} {held : List ContentItem}
    (ordered : held.Pairwise fun a b =>
      scan.direction.isAfter (scan.course.position b) (scan.course.position a) = true)
    {position : IndexKey}
    (h : position ∈ held.map scan.course.position ∨ exhausted = false ∧
      scan.pageSize ≤ held.length ∧ ∀ item ∈ held,
        scan.direction.isAfter position (scan.course.position item) = true) :
    position ∈ (ofHeld scan exhausted held).items.map scan.course.position ∨
      ∃ next, (ofHeld scan exhausted held).next = some next ∧
        scan.direction.isAfter position next = true := by
  have hpos := scan.pageSize_pos
  rw [next_ofHeld]
  rcases h with hheld | ⟨rfl, hfull, hafter⟩
  · -- what is held is on the page, or cut off and so after its last item
    obtain ⟨item, hitem, rfl⟩ := List.mem_map.1 hheld
    obtain hshown | ⟨last, hlast, hafter⟩ := List.mem_take_or_getLast? ordered hpos hitem
    · exact .inl (List.mem_map_of_mem hshown)
    · by_cases hlong : scan.pageSize < held.length
      · rw [if_pos (.inl hlong), hlast]
        exact .inr ⟨_, rfl, hafter⟩
      · refine .inl (List.mem_map_of_mem ?_)
        have hall : held.take scan.pageSize = held := List.take_of_length_le (by omega)
        change item ∈ held.take scan.pageSize
        rwa [hall]
  · have hne : held.take scan.pageSize ≠ [] := by
      rw [Ne, List.take_eq_nil_iff, ← List.length_eq_zero_iff]
      omega
    have hmem := List.mem_of_mem_take (List.getLast_mem hne)
    rw [if_pos, List.getLast?_eq_some_getLast hne]
    · exact .inr ⟨_, rfl, hafter _ hmem⟩
    · simp only [Bool.false_eq_true, not_false_eq_true, and_true]
      omega

/-- What is cut from what a scan holds when it stops fills a page, if the scan has come to the end
of the index or holds enough for the page. -/
theorem Course.fills_ofHeld {scan : Scan} {met : Forum → Prop} {held : List ContentItem}
    {exhausted : Bool} (reads : scan.course.Reads met scan.startAfter held)
    (stays : ∀ position, scan.course.Stays met position →
      scan.direction.isPast scan.startAfter position = true →
      position ∈ held.map scan.course.position ∨ exhausted = false ∧
        scan.pageSize ≤ held.length ∧ ∀ item ∈ held,
          scan.direction.isAfter position (scan.course.position item) = true) :
    scan.course.Fills met scan.startAfter scan.pageSize (.ofHeld scan exhausted held) := by
  have hpos := scan.pageSize_pos
  have hlength : (held.take scan.pageSize).length = min scan.pageSize held.length :=
    List.length_take
  refine ⟨⟨reads.ordered.take, fun item hitem => reads.past item (List.mem_of_mem_take hitem),
    fun item hitem => reads.found item (List.mem_of_mem_take hitem)⟩, ?_, ?_, ?_, ?_⟩
  · exact fun position hstays hpast =>
      Collected.mem_or_after_ofHeld reads.ordered (stays position hstays hpast)
  · rw [Collected.next_ofHeld]
    split
    · exact .inr rfl
    · exact .inl rfl
  · change (held.take scan.pageSize).length ≤ scan.pageSize
    omega
  · intro next hsome
    rw [Collected.next_ofHeld] at hsome
    change (held.take scan.pageSize).length = scan.pageSize
    split at hsome
    · omega
    · cases hsome

/-! ### Programs that read -/

namespace Forum

/-- The contract of a program that only reads, while others may write as long as what is met with
afterwards is as expected. Under `steady` the program must not fail. -/
def reading (met : Forum → Prop) (steady : Prop) : Contract Forum where
  rely forum later := met forum → met later
  guarantee forum later := later = forum
  failing _ _ := ¬steady
  endless := ¬steady
  rely_refl _ h := h
  rely_trans h h' hmet := h' (h hmet)

theorem met_of_moves {met : Forum → Prop} {steady : Prop} {forum later : Forum}
    (moves : (reading met steady).Moves forum later) (now : met forum) : met later := by
  induction moves with
  | refl => exact now
  | tail _ change ih => exact change.elim (fun rely => rely ih) fun same => same ▸ ih

end Forum

/-- While a program reads, effects are answered as some conditions allow, and every item that it
meets with is stored under its own key. Under `steady` nothing goes wrong. -/
structure Site.Serves (site : Site) (responses : Responses Forum) (met : Forum → Prop)
    (steady : Prop) : Prop where
  answers : ∀ {effect : Effect} {forum after : Forum} {reply : effect.Reply},
    responses.Answers effect forum reply after →
      ∃ conditions, (steady → conditions = .calm) ∧ site.Answer conditions effect forum reply after
  filed : ∀ forum, met forum → forum.store.Filed

namespace Scan

variable {site : Site} {responses : Responses Forum} {met : Forum → Prop} {steady : Prop}
  {forum : Forum} {settings : Settings} {scan : Scan}

/-- A scan goes on until its page is filled. No call fails if nothing goes wrong, and there are
enough rounds if there is a bound to the positions ahead. -/
theorem meets_collectFrom (serves : site.Serves responses met steady) (rounds : Nat)
    {reached : Option IndexKey} {held : List ContentItem} (now : met forum)
    (holds : scan.course.Held met scan.startAfter reached held)
    (bound : steady → ∃ ahead, scan.course.Ahead met reached ahead ∧ ahead.length < rounds) :
    (collectFrom settings scan rounds reached held).Meets responses (Forum.reading met steady) none
      (fun collected _ => scan.course.Fills met scan.startAfter scan.pageSize collected) forum := by
  induction rounds generalizing forum reached held with
  | zero =>
    intro hsteady
    obtain ⟨ahead, -, hlength⟩ := bound hsteady
    omega
  | succ rounds ih =>
    rw [collectFrom]
    intro later reply after hrely answer
    have hlater := hrely now
    obtain ⟨conditions, calm, answer⟩ := serves.answers answer
    cases reply with
    | error error =>
      refine ⟨answer.eq_of_isQuiet rfl, fun _ _ hsteady => ?_⟩
      obtain rfl := calm hsteady
      have limit := scan.query_limit_pos settings reached
      exact (answer.of_queryContent Conditions.honest_calm limit).2.2
    | ok page =>
      obtain ⟨hpage, rfl⟩ := answer.queryContent
      have filed := serves.filed after hlater
      have hreads := holds.append hlater filed hpage
      have hsort : ContentItem.sort scan.sort scan.direction (held ++ page.items) =
          held ++ page.items := hreads.sort_eq
      refine ⟨rfl, ?_⟩
      simp only [Program.ofExcept, done_bind, hsort]
      cases hlast : page.lastEvaluated with
      | none =>
        refine fun _ _ _ => Course.fills_ofHeld hreads fun position stays past => .inl ?_
        refine (holds.mem_or_after hlater filed hpage stays past).resolve_right ?_
        rintro ⟨next, hnext, -⟩
        rw [hlast] at hnext
        cases hnext
      | some next =>
        obtain ⟨⟨last, hscope, rfl⟩, hpast, hround⟩ := holds.round hlater filed hpage hlast
        dsimp only
        split
        · refine ih hlater hround fun hsteady => ?_
          obtain ⟨ahead, hahead, hlength⟩ := bound hsteady
          obtain ⟨ahead', hless, hahead'⟩ :=
            hahead.next (hahead after hlater last hscope hpast) hpast
          exact ⟨ahead', hahead', by omega⟩
        · rename_i hfull
          refine fun _ _ _ => Course.fills_ofHeld hreads fun position stays past => ?_
          refine (hround.stays position stays past).imp_right fun hafter => ?_
          exact ⟨rfl, Nat.le_of_not_lt hfull, fun item hitem => hround.isAfter_of_past hitem hafter⟩

/-- A scan fills its page. -/
theorem meets_collect (serves : site.Serves responses met steady) (rounds : Nat) (now : met forum)
    (bound : steady → ∃ ahead, scan.course.Ahead met scan.startAfter ahead ∧
      ahead.length < rounds) :
    (collect settings rounds scan).Meets responses (Forum.reading met steady) none
      (fun collected _ => scan.course.Fills met scan.startAfter scan.pageSize collected) forum :=
  meets_collectFrom serves rounds now (Course.held_nil scan.course met scan.startAfter) bound

end Scan

end HiveForum
