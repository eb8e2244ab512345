import HiveForum.Proofs.Browse.Filling
import HiveForum.Proofs.Program.Sequencing

/-!
# Walking a listing that stands still

While the items of a scope do not change, what a walk has still to list after a position is a list,
and a page of the store cuts its first part off. Nothing else is assumed about pages: a store may
drop items that do not match before or after it has counted them, and may name a position from which
to go on although nothing follows. Whatever the store does, a scan ends up with the first items of
what it has to list, and with the position of the last one if more of them follow.

## Main definitions

* `Course.rest`, `Course.listed`: what a walk comes by after a position, and what it lists of that.
* `Course.Continues`: a page is the first part of what is to be listed.
* `Course.Cuts`: the page that a scan ends with.
* `Course.Agree`: two pages of one scan agree.
* `World.withStore`: a world with a store.
* `World.Lists`: a world answers queries by such pages, and is not changed by them.
* `Scan.drain`: the pages of a scan, one after another.

## Main results

* `StoreState.continues_of_queryContent`: the store in memory answers by such pages.
* `Scan.run_collect`: the page of a scan.
* `Scan.run_drain`: all pages together list what there is to list.
-/

namespace HiveForum

open Program

namespace Course

variable {course : Course} {store : StoreState} {reached : Option IndexKey}
  {items later : List ContentItem} {last : ContentItem}

/-- The items that a walk comes by after a position, in order. -/
def rest (course : Course) (store : StoreState) (reached : Option IndexKey) : List ContentItem :=
  store.itemsAfter (course.query 0 reached)

/-- Those that match the filter. -/
def listed (course : Course) (store : StoreState) (reached : Option IndexKey) : List ContentItem :=
  (course.rest store reached).filter (·.matchesTags course.tags)

/-- Items come one after another. -/
abbrev Ordered (course : Course) (items : List ContentItem) : Prop :=
  items.Pairwise fun a b =>
    course.direction.isAfter (course.position b) (course.position a) = true

theorem ordered_rest (filed : store.Filed) (reached : Option IndexKey) :
    course.Ordered (course.rest store reached) :=
  StoreState.itemsAfter_pairwise filed (course.query 0 reached)

theorem ordered_listed (filed : store.Filed) (reached : Option IndexKey) :
    course.Ordered (course.listed store reached) := (ordered_rest filed reached).filter _

theorem mem_rest_iff {item : ContentItem} :
    item ∈ course.rest store reached ↔ item ∈ store.scopeItems course.scope ∧
      course.direction.isPast reached (course.position item) = true :=
  StoreState.mem_itemsAfter_iff

theorem mem_listed_iff {item : ContentItem} :
    item ∈ course.listed store reached ↔ course.Finds store item ∧
      course.direction.isPast reached (course.position item) = true := by
  rw [listed, List.mem_filter, mem_rest_iff, and_right_comm]
  rfl

theorem length_rest_le (course : Course) (store : StoreState) (reached : Option IndexKey) :
    (course.rest store reached).length ≤ (store.scopeItems course.scope).length := by
  rw [rest, StoreState.itemsAfter, (ContentItem.sort_perm _ _ _).length_eq]
  exact List.length_filter_le _ _

theorem length_listed_le (course : Course) (store : StoreState) (reached : Option IndexKey) :
    (course.listed store reached).length ≤ (store.scopeItems course.scope).length :=
  Nat.le_trans (List.length_filter_le _ _) (course.length_rest_le store reached)

theorem Ordered.nodup (ordered : course.Ordered items) : items.Nodup := by
  refine ordered.imp fun {a b} hafter heq => ?_
  rw [heq, Direction.isAfter_self] at hafter
  cases hafter

theorem Ordered.eq_of_mem_iff (ordered : course.Ordered items) (ordered' : course.Ordered later)
    (h : ∀ item, item ∈ items ↔ item ∈ later) : items = later := by
  refine List.Perm.eq_of_pairwise (fun a b _ _ hab hba => ?_) ordered ordered'
    ((List.perm_ext_iff_of_nodup ordered.nodup ordered'.nodup).2 h)
  rw [Direction.isAfter_asymm hab] at hba
  cases hba

/-- Of items in order, those after the last one of a first part are the others. -/
theorem Ordered.filter_isAfter (ordered : course.Ordered (items ++ later))
    (hlast : items.getLast? = some last) :
    (items ++ later).filter (fun item =>
      course.direction.isAfter (course.position item) (course.position last)) = later := by
  obtain ⟨hitems, -, hcross⟩ := List.pairwise_append.1 ordered
  have hnone : items.filter (fun item =>
      course.direction.isAfter (course.position item) (course.position last)) = [] := by
    refine List.filter_eq_nil_iff.2 fun item hitem hafter => ?_
    rcases List.eq_or_of_getLast? hitems hlast hitem with rfl | hbefore
    · rw [Direction.isAfter_self] at hafter
      cases hafter
    · rw [Direction.isAfter_asymm hbefore] at hafter
      cases hafter
  rw [List.filter_append, hnone, List.nil_append]
  exact List.filter_eq_self.2 fun item hitem => hcross last (List.mem_of_getLast? hlast) item hitem

theorem rest_some (filed : store.Filed) {next : IndexKey}
    (past : course.direction.isPast reached next = true) :
    course.rest store (some next) = (course.rest store reached).filter fun item =>
      course.direction.isAfter (course.position item) next := by
  refine (ordered_rest filed _).eq_of_mem_iff ((ordered_rest filed _).filter _) fun item => ?_
  rw [List.mem_filter, mem_rest_iff, mem_rest_iff]
  constructor
  · exact fun ⟨hscope, hafter⟩ => ⟨⟨hscope, Direction.isPast_trans past hafter⟩, hafter⟩
  · exact fun ⟨⟨hscope, _⟩, hafter⟩ => ⟨hscope, hafter⟩

theorem listed_some (filed : store.Filed) {next : IndexKey}
    (past : course.direction.isPast reached next = true) :
    course.listed store (some next) = (course.listed store reached).filter fun item =>
      course.direction.isAfter (course.position item) next := by
  rw [listed, rest_some filed past, listed, List.filter_filter, List.filter_filter]
  exact List.filter_congr fun _ _ => Bool.and_comm _ _

theorem rest_of_append (filed : store.Filed) (h : course.rest store reached = items ++ later)
    (hlast : items.getLast? = some last) :
    course.rest store (some (course.position last)) = later := by
  have hmem : last ∈ course.rest store reached :=
    h ▸ List.mem_append_left _ (List.mem_of_getLast? hlast)
  rw [rest_some filed (mem_rest_iff.1 hmem).2, h]
  exact Ordered.filter_isAfter (h ▸ ordered_rest filed reached) hlast

theorem listed_of_append (filed : store.Filed) (h : course.listed store reached = items ++ later)
    (hlast : items.getLast? = some last) :
    course.listed store (some (course.position last)) = later := by
  have hmem : last ∈ course.listed store reached :=
    h ▸ List.mem_append_left _ (List.mem_of_getLast? hlast)
  rw [listed_some filed (mem_listed_iff.1 hmem).2, h]
  exact Ordered.filter_isAfter (h ▸ ordered_listed filed reached) hlast

theorem length_rest_lt (filed : store.Filed) (hlast : last ∈ course.rest store reached) :
    (course.rest store (some (course.position last))).length <
      (course.rest store reached).length := by
  rw [rest_some filed (mem_rest_iff.1 hlast).2]
  refine List.length_filter_lt_length_iff_exists.2 ⟨last, hlast, ?_⟩
  rw [Direction.isAfter_self]
  exact Bool.false_ne_true

theorem sort_eq_listed (filed : store.Filed) (distinct : items.Pairwise fun a b => a.id ≠ b.id)
    (h : ∀ item, item ∈ items ↔ item ∈ course.listed store reached) :
    ContentItem.sort course.sort course.direction items = course.listed store reached := by
  have hperm := ContentItem.sort_perm course.sort course.direction items
  have hids := hperm.symm.pairwise distinct fun hne => hne.symm
  have hordered : course.Ordered (ContentItem.sort course.sort course.direction items) :=
    hids.imp₂ (fun a b hne hle => ContentItem.isAfter_of_precedes hle fun heq =>
      hne (congrArg IndexKey.id heq)) (ContentItem.sort_pairwise _ _ _)
  exact hordered.eq_of_mem_iff (ordered_listed filed reached) fun item =>
    hperm.mem_iff.trans (h item)

/-! ### Pages -/

/-- A page is the first part of what is to be listed after a position: all of it if there is no
position from which to go on, and otherwise what comes before the rest from there. -/
structure Continues (course : Course) (store : StoreState) (reached : Option IndexKey)
    (page : ContentPage) : Prop where
  ended : page.lastEvaluated = none → page.items = course.listed store reached
  goesOn : ∀ next, page.lastEvaluated = some next →
    course.listed store reached = page.items ++ course.listed store (some next) ∧
      (course.rest store (some next)).length < (course.rest store reached).length

/-- The page that a scan ends with shows the first items that are to be listed, as many as fit. If
there are more of them it names the position of the last one, and if there are fewer it names
none. -/
structure Cuts (course : Course) (store : StoreState) (start : Option IndexKey) (size : Nat)
    (collected : Collected) : Prop where
  items : collected.items = (course.listed store start).take size
  next : collected.next = none ∨
    collected.next = collected.items.getLast?.map course.position
  more : size < (course.listed store start).length → collected.next.isSome = true
  ended : (course.listed store start).length < size → collected.next = none

/-- Two pages of one scan agree: they show the same items, and go on from one position if both go
on. Only one of them goes on only if it is full and shows the last items that are to be listed. -/
structure Agree (course : Course) (store : StoreState) (start : Option IndexKey) (size : Nat)
    (collected collected' : Collected) : Prop where
  items : collected.items = collected'.items
  next : ∀ position position', collected.next = some position → collected'.next = some position' →
    position = position'
  differ : collected.next.isSome ≠ collected'.next.isSome → collected.items.length = size ∧
    ∀ item, course.Finds store item →
      course.direction.isPast start (course.position item) = true → item ∈ collected.items

/-- Pages that are cut from one listing agree. -/
theorem Cuts.agree {start : Option IndexKey} {size : Nat} {collected collected' : Collected}
    (cuts : course.Cuts store start size collected)
    (cuts' : course.Cuts store start size collected') :
    course.Agree store start size collected collected' := by
  have hitems := cuts.items.trans cuts'.items.symm
  refine ⟨hitems, fun position position' hnext hnext' => ?_, fun hdiffer => ?_⟩
  · have hlast := cuts.next.resolve_left (by rw [hnext]; exact Option.some_ne_none _)
    have hlast' := cuts'.next.resolve_left (by rw [hnext']; exact Option.some_ne_none _)
    rw [hitems, ← hlast', hnext, hnext'] at hlast
    exact Option.some.inj hlast
  · have hlength : (course.listed store start).length = size := by
      rcases Nat.lt_trichotomy (course.listed store start).length size with hless | heq | hmore
      · rw [cuts.ended hless, cuts'.ended hless] at hdiffer
        exact absurd rfl hdiffer
      · exact heq
      · rw [cuts.more hmore, cuts'.more hmore] at hdiffer
        exact absurd rfl hdiffer
    have hall : collected.items = course.listed store start := by
      rw [cuts.items, List.take_of_length_le (Nat.le_of_eq hlength)]
    rw [hall]
    exact ⟨hlength, fun item hfinds hpast => mem_listed_iff.2 ⟨hfinds, hpast⟩⟩

end Course

/-- The store in memory looks at some entries, and drops those that do not match. -/
theorem StoreState.continues_of_queryContent {course : Course} {store : StoreState}
    {limits : QueryLimits} {limit : Nat} {reached : Option IndexKey} {page : ContentPage}
    (filed : store.Filed)
    (h : store.queryContent limits (course.query limit reached) = .ok page) :
    course.Continues store reached page := by
  obtain ⟨hpos, hitems, hnext⟩ := queryContent_eq_ok h
  -- the walk does not depend on how many entries are asked for
  have hrest : store.itemsAfter (course.query limit reached) = course.rest store reached := rfl
  rw [hrest] at hitems hnext
  let window := min limit limits.pageItems
  have hitems : page.items =
    ((course.rest store reached).take window).filter (·.matchesTags course.tags) := hitems
  have hnext : page.lastEvaluated = if (course.rest store reached).length ≤ window then none
    else ((course.rest store reached).take window).getLast?.map course.position := hnext
  have hsplit := (List.take_append_drop window (course.rest store reached)).symm
  refine ⟨fun hnone => ?_, fun next hsome => ?_⟩
  · rw [hnext] at hnone
    split at hnone
    · rename_i hall
      rw [hitems, List.take_of_length_le hall]
      rfl
    · rename_i hmore
      have hnil := List.getLast?_eq_none_iff.1 (Option.map_eq_none_iff.1 hnone)
      have hlength := congrArg List.length hnil
      rw [List.length_take, List.length_nil] at hlength
      have hpos : 0 < window := hpos
      omega
  · rw [hnext] at hsome
    split at hsome
    · cases hsome
    · obtain ⟨last, hlast, rfl⟩ := Option.map_eq_some_iff.1 hsome
      have hmem := List.mem_of_mem_take (List.mem_of_getLast? hlast)
      refine ⟨?_, Course.length_rest_lt filed hmem⟩
      have hlater := Course.rest_of_append filed hsplit hlast
      rw [Course.listed, Course.listed, hlater, hitems, ← List.filter_append, ← hsplit]

/-! ### Runs -/

/-- A world with a store: calls to the store change its state, and other worlds carry out what is
not for the store. -/
def World.withStore {σ τ : Type} (others : World σ)
    (answer : (request : Request) → τ → Except StoreError request.Answer × τ) : World (τ × σ) where
  perform
    | .store request, (store, state) =>
      let (reply, store) := answer request store
      (reply, store, state)
    | effect, (store, state) =>
      let (reply, state) := others.perform effect state
      (reply, store, state)
  time state := others.time state.2
  setTime state time := (state.1, others.setTime state.2 time)

/-- A world answers every query for a page by one that continues the listing, and is as it was. -/
def World.Lists {σ : Type} (world : World σ) (course : Course) (limit : Nat) (store : StoreState)
    (state : σ) : Prop :=
  ∀ reached : Option IndexKey, ∃ page,
    world.perform (.store (.queryContent (course.query limit reached))) state = (.ok page, state) ∧
      course.Continues store reached page

theorem World.lists_withStore {σ τ : Type} {others : World σ}
    {answer : (request : Request) → τ → Except StoreError request.Answer × τ} {course : Course}
    {limit : Nat} {store : StoreState} {held : τ} (state : σ)
    (h : ∀ reached, ∃ page,
      answer (.queryContent (course.query limit reached)) held = (.ok page, held) ∧
        course.Continues store reached page) :
    (others.withStore answer).Lists course limit store (held, state) := fun reached => by
  obtain ⟨page, hpage, hcontinues⟩ := h reached
  have hperform : (others.withStore answer).perform
      (.store (.queryContent (course.query limit reached))) (held, state) =
        ((answer (.queryContent (course.query limit reached)) held).1,
          (answer (.queryContent (course.query limit reached)) held).2, state) := rfl
  rw [hpage] at hperform
  exact ⟨page, hperform, hcontinues⟩

namespace Scan

variable {σ : Type} {world : World σ} {state : σ} {settings : Settings} {scan : Scan}
  {store : StoreState}

/-- What is cut from what a scan holds when it stops: all that is listed if it came to the end of
the index, and at least a page otherwise. -/
theorem cuts_ofHeld {start : Option IndexKey} {exhausted : Bool} {held later : List ContentItem}
    (hheld : scan.course.listed store start = held ++ later)
    (hended : exhausted = true → later = [])
    (hfull : exhausted = false → scan.pageSize ≤ held.length) :
    scan.course.Cuts store start scan.pageSize (.ofHeld scan exhausted held) := by
  have hpos := scan.pageSize_pos
  have hitems : held.take scan.pageSize =
      (scan.course.listed store start).take scan.pageSize := by
    rw [hheld]
    cases exhausted with
    | true => rw [hended rfl, List.append_nil]
    | false => rw [List.take_append_of_le_length (hfull rfl)]
  have hlength := congrArg List.length hheld
  rw [List.length_append] at hlength
  refine ⟨hitems, ?_, fun hmore => ?_, fun hless => ?_⟩ <;> rw [Collected.next_ofHeld]
  · split
    · exact .inr rfl
    · exact .inl rfl
  · rw [if_pos]
    · rw [Option.isSome_map, List.getLast?_isSome, hitems, Ne, List.take_eq_nil_iff]
      rintro (hzero | hnil)
      · omega
      · rw [hnil, List.length_nil] at hmore
        omega
    · cases exhausted with
      | true =>
        rw [hended rfl, List.length_nil] at hlength
        exact .inl (by omega)
      | false =>
        have hfull := hfull rfl
        simp only [Bool.false_eq_true, not_false_eq_true, and_true]
        omega
  · rw [if_neg]
    rintro (hlong | ⟨hsame, hmore⟩)
    · omega
    · omega

/-- The page of a scan, if what it holds and what is still to be listed make up the listing. -/
theorem run_collectFrom
    (lists : world.Lists scan.course (scan.roundSize settings) store state) (filed : store.Filed)
    (rounds : Nat) {start reached : Option IndexKey} {held : List ContentItem}
    (hheld : scan.course.listed store start = held ++ scan.course.listed store reached)
    (enough : (scan.course.rest store reached).length < rounds) :
    ∃ collected, (collectFrom settings scan rounds reached held).run world state =
        (.ok collected, state) ∧ scan.course.Cuts store start scan.pageSize collected := by
  induction rounds generalizing reached held with
  | zero => omega
  | succ rounds ih =>
    obtain ⟨page, hpage, hcontinues⟩ : ∃ page,
        world.perform (.store (.queryContent (scan.query settings reached))) state =
          (.ok page, state) ∧ scan.course.Continues store reached page := lists reached
    change ∃ collected, ((call (.queryContent (scan.query settings reached))).bind _).run world
      state = (.ok collected, state) ∧ _
    rw [run_call_bind hpage]
    dsimp only
    have hsort : ∀ later, scan.course.listed store start = held ++ page.items ++ later →
        ContentItem.sort scan.sort scan.direction (held ++ page.items) = held ++ page.items := by
      intro later hlisted
      have hordered := scan.course.ordered_listed filed start
      rw [hlisted] at hordered
      exact Course.sort_eq_of_pairwise (List.pairwise_append.1 hordered).1
    cases hlast : page.lastEvaluated with
    | none =>
      have hlisted : scan.course.listed store start = held ++ page.items ++ [] := by
        rw [hheld, hcontinues.ended hlast, List.append_nil]
      refine ⟨_, rfl, ?_⟩
      rw [hsort [] hlisted]
      exact cuts_ofHeld hlisted (fun _ => rfl) fun h => by cases h
    | some next =>
      obtain ⟨happend, hless⟩ := hcontinues.goesOn next hlast
      have hlisted : scan.course.listed store start =
          held ++ page.items ++ scan.course.listed store (some next) := by
        rw [hheld, happend, List.append_assoc]
      dsimp only
      rw [hsort _ hlisted]
      split
      · exact ih hlisted (by omega)
      · rename_i hfull
        exact ⟨_, rfl, cuts_ofHeld hlisted (fun h => by cases h) fun _ => Nat.le_of_not_lt hfull⟩

/-- The page of a scan. -/
theorem run_collect (lists : world.Lists scan.course (scan.roundSize settings) store state)
    (filed : store.Filed) {rounds : Nat} (enough : (store.scopeItems scan.scope).length < rounds) :
    ∃ collected, (collect settings rounds scan).run world state = (.ok collected, state) ∧
      scan.course.Cuts store scan.startAfter scan.pageSize collected :=
  run_collectFrom lists filed rounds rfl
    (Nat.lt_of_le_of_lt (scan.course.length_rest_le store scan.startAfter) enough)

/-- The pages of a scan, each from the position that the one before names, `pages` at most. -/
def drain (settings : Settings) (rounds : Nat) (scan : Scan) :
    (pages : Nat) → Option IndexKey → Program (List Collected)
  | 0, _ => unfinished
  | pages + 1, start => do
    let page ← collect settings rounds { scan with startAfter := start }
    match page.next with
    | none => return [page]
    | some next => return page :: (← drain settings rounds scan pages (some next))

/-- All pages of a scan together list what there is to list. -/
theorem run_drain (lists : world.Lists scan.course (scan.roundSize settings) store state)
    (filed : store.Filed) {rounds : Nat}
    (enoughRounds : (store.scopeItems scan.scope).length < rounds) (pages : Nat)
    {start : Option IndexKey} (enoughPages : (scan.course.listed store start).length < pages) :
    ∃ shown, (scan.drain settings rounds pages start).run world state = (.ok shown, state) ∧
      shown.flatMap (·.items) = scan.course.listed store start := by
  induction pages generalizing start with
  | zero => omega
  | succ pages ih =>
    let resumed : Scan := { scan with startAfter := start }
    have lists' : world.Lists resumed.course (resumed.roundSize settings) store state := lists
    obtain ⟨page, hrun, hcuts⟩ := run_collect lists' filed enoughRounds
    have hcuts : scan.course.Cuts store start scan.pageSize page := hcuts
    change ∃ shown, ((collect settings rounds resumed).bind _).run world state =
      (.ok shown, state) ∧ _
    rw [run_bind_of_ok _ hrun]
    have hsplit := (List.take_append_drop scan.pageSize (scan.course.listed store start)).symm
    rw [← hcuts.items] at hsplit
    cases hnext : page.next with
    | none =>
      refine ⟨[page], rfl, ?_⟩
      have hall : (scan.course.listed store start).length ≤ scan.pageSize := by
        refine Nat.le_of_not_lt fun hmore => ?_
        have hsome := hcuts.more hmore
        rw [hnext] at hsome
        cases hsome
      rw [List.flatMap_singleton, hcuts.items, List.take_of_length_le hall]
    | some next =>
      have hposition := hcuts.next.resolve_left (by rw [hnext]; exact Option.some_ne_none next)
      rw [hnext] at hposition
      obtain ⟨last, hlast, rfl⟩ := Option.map_eq_some_iff.1 hposition.symm
      have hlater := Course.listed_of_append filed hsplit hlast
      have hshown := List.length_pos_of_mem (List.mem_of_getLast? hlast)
      have hlength := congrArg List.length hsplit
      rw [List.length_append, ← hlater] at hlength
      have hfewer :
          (scan.course.listed store (some (scan.course.position last))).length < pages := by
        omega
      obtain ⟨shown, hrest, hflat⟩ := ih hfewer
      refine ⟨page :: shown, run_bind_of_ok _ hrest, ?_⟩
      rw [List.flatMap_cons, hflat, hlater]
      exact hsplit.symm

end Scan

end HiveForum
