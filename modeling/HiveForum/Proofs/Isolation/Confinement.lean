import HiveForum.Operation

/-!
# Programs that keep to one hive

No key of the store names a hive. That a program keeps to one hive all the same shows in what it
asks of the store: it works only on items and records of which it has been told that they belong to
the hive, and where it is told of something that does not, it goes on as if there were nothing.

## Main definitions

* `View`: a hive with the identifiers that belong to it.
* `View.Admits`: an effect concerns the hive only.
* `View.Vouches`: a reply is in accordance with the view.
* `Effect.veil`: a reply without what belongs to other hives.
* `Program.Confined`: a program keeps to the hive.

## Main results

* `Program.Confined.bind`, `Program.Confined.attempt`, `Program.confined_forkAll`: composing
  programs that keep to a hive.
* `Program.confined_tryCall`, `Program.confined_call`: a call on its own.
-/

namespace HiveForum

/-- A hive with the identifiers that belong to it: those of its items, and its own. A scope belongs
to the hive if the identifier of its hive or post does. -/
structure View where
  hive : ScopeId
  /-- The identifiers that belong to the hive. -/
  owns : ContentId → Prop
  /-- The identifiers that a new item of the hive may be given. -/
  draws : ContentId → Prop

/-- The reply without what belongs to other hives: an item or a record of another hive is not
there. -/
def Effect.veil (hive : ScopeId) : (effect : Effect) → effect.Reply → effect.Reply
  | .store (.getContent _), .ok item =>
    if item.hive = hive then .ok item else .error .contentNotFound
  | .store (.getEngagement _ _), .ok record =>
    if record.hive = hive then .ok record else .error .recordNotFound
  | .store (.lookupEngagement _ _), .ok records =>
    .ok (records.filter fun _ record => record.hive = hive)
  | _, reply => reply

namespace View

variable (view : View)

/-- An item of the hive, under an identifier and in a scope of the hive. -/
structure OwnsItem (item : ContentItem) : Prop where
  hive : item.hive = view.hive
  id : view.owns item.id
  scope : view.owns item.scope.asContent

/-- A record of the hive, on an item of the hive. -/
structure OwnsRecord (record : EngagementRecord) : Prop where
  hive : record.hive = view.hive
  content : view.owns record.content

/-- Whether the item is of the hive can be told from its identifier, and from its scope. -/
structure TellsItem (item : ContentItem) : Prop where
  id : view.owns item.id ↔ item.hive = view.hive
  scope : view.owns item.scope.asContent ↔ item.hive = view.hive

/-- Whether the record is of the hive can be told from the identifier of its item. -/
def TellsRecord (record : EngagementRecord) : Prop :=
  view.owns record.content ↔ record.hive = view.hive

/-- An effect concerns the hive only: it stores and changes what belongs to the hive, and lists
what is under its identifiers. Single items and records may be read wherever they are. -/
def Admits : Effect → Prop
  | .store (.putContent item) =>
    item.hive = view.hive ∧ view.owns item.scope.asContent ∧ view.draws item.id
  | .store (.queryContent query) => view.owns query.scope.asContent
  | .store (.adjustCounts key _) => view.owns key.id
  | .store (.touchActivity key _) => view.owns key.id
  | .store (.markReviewed key) => view.owns key.id
  | .store (.setPinned key _) => view.owns key.id
  | .store (.deleteContent key) => view.owns key.id
  | .store (.putEngagement record) => view.OwnsRecord record
  | .store (.commitReport record key _) => view.OwnsRecord record ∧ view.owns key.id
  | .store (.commitVote record key _) => view.OwnsRecord record ∧ view.owns key.id
  | .store (.queryEngagement query) => view.owns query.content
  | .store (.deleteEngagements keys) => ∀ key ∈ keys, view.owns key.content
  | .membership _ hive => hive = view.hive
  | .newContentId => False
  | _ => True

/-- A reply is in accordance with the view: whoever is told of an item or a record can tell whether
it is of the hive, what is listed is of the hive, and only a hive that there is has members. -/
def Vouches : (effect : Effect) → effect.Reply → Prop
  | .store (.getContent key), reply =>
    ∀ item, reply = .ok item → item.key = key ∧ view.TellsItem item
  | .store (.queryContent _), reply =>
    ∀ page, reply = .ok page → ∀ item ∈ page.items, view.OwnsItem item
  | .store (.getEngagement _ content), reply =>
    ∀ record, reply = .ok record → record.content = content ∧ view.TellsRecord record
  | .store (.queryEngagement _), reply =>
    ∀ page, reply = .ok page → ∀ record ∈ page.records, view.owns record.content
  | .store (.deleteEngagements keys), reply => ∀ left, reply = .ok left → left ⊆ keys
  | .membership _ _, reply => ∀ role, reply = .ok role → view.owns view.hive.asContent
  | .newContentId, id => view.draws id
  | _, _ => True

variable {view}

theorem TellsItem.owns {item : ContentItem} (tells : view.TellsItem item)
    (h : item.hive = view.hive) : view.OwnsItem item :=
  ⟨h, tells.id.2 h, tells.scope.2 h⟩

end View

namespace Program

/-- The program keeps to the hive of a view, and ends with a value of which a claim holds. Its
effects concern the hive only, and a reply that shows something of another hive has no other
consequences than one that shows nothing. If `draws` is set, it may draw an identifier, once. -/
inductive Confined (view : View) : {α : Type} → (draws : Bool) → Program α → (α → Prop) → Prop where
  | done {α : Type} {draws : Bool} {value : α} {post : α → Prop} (h : post value) :
      Confined view draws (.done value) post
  | fail {α : Type} {draws : Bool} {error : OperationError} {post : α → Prop} :
      Confined view draws (.fail error) post
  | unfinished {α : Type} {draws : Bool} {post : α → Prop} : Confined view draws .unfinished post
  /-- The effect concerns the hive only, and the program does not look behind the veil. -/
  | perform {α : Type} {draws : Bool} {effect : Effect} {next : effect.Reply → Program α}
      {post : α → Prop} (admitted : view.Admits effect)
      (blind : ∀ reply, view.Vouches effect reply →
        next (effect.veil view.hive reply) = next reply)
      (follows : ∀ reply, view.Vouches effect reply → Confined view draws (next reply) post) :
      Confined view draws (.perform effect next) post
  | draw {α : Type} {next : ContentId → Program α} {post : α → Prop}
      (follows : ∀ id, view.draws id → Confined view false (next id) post) :
      Confined view true (.perform .newContentId next) post
  | spawn {α : Type} {draws : Bool} {unit : Program Unit} {next : Program α} {post : α → Prop}
      (spawned : Confined view false unit fun _ => True) (beside : Confined view draws next post) :
      Confined view draws (.spawn unit next) post
  | gather {α : Type} {draws : Bool} {limit : Nat} {spawner : Program Unit}
      {next : Gathered → Program α} {post : α → Prop}
      (spawning : Confined view false spawner fun _ => True)
      (follows : ∀ gathered, Confined view draws (next gathered) post) :
      Confined view draws (.gather limit spawner next) post

variable {view : View} {α β : Type} {draws : Bool}

/-- One program after another; the first one draws nothing. -/
theorem Confined.bind {p : Program α} {f : α → Program β} {claim : α → Prop} {post : β → Prop}
    (h : p.Confined view false claim)
    (hf : ∀ value, claim value → (f value).Confined view draws post) :
    (p.bind f).Confined view draws post := by
  generalize hnone : false = none at h
  induction h with
  | done h => exact hf _ h
  | fail => exact .fail
  | unfinished => exact .unfinished
  | perform admitted blind _ ih =>
    exact .perform admitted (fun reply hreply => congrArg (Program.bind · f) (blind reply hreply))
      fun reply hreply => ih reply hreply hf hnone
  | draw => cases hnone
  | spawn spawned _ _ ih => exact .spawn spawned (ih hf hnone)
  | gather spawning _ _ ih => exact .gather spawning fun gathered => ih gathered hf hnone

theorem Confined.weaken {p : Program α} {claim post : α → Prop} (h : p.Confined view false claim)
    (imp : ∀ value, claim value → post value) : p.Confined view false post := by
  rw [← bind_done p]
  exact h.bind fun value hvalue => .done (imp value hvalue)

/-- An attempt ends with the value of the program, or with a failure. -/
theorem Confined.attempt {p : Program α} {claim : α → Prop} (h : p.Confined view draws claim) :
    p.attempt.Confined view draws fun result => ∀ value, result = .ok value → claim value := by
  induction h with
  | done h => exact .done fun value heq => Except.ok.inj heq ▸ h
  | fail => exact .done fun _ heq => by cases heq
  | unfinished => exact .unfinished
  | perform admitted blind _ ih =>
    exact .perform admitted (fun reply hreply => congrArg Program.attempt (blind reply hreply)) ih
  | draw _ ih => exact .draw ih
  | spawn spawned _ _ ih => exact .spawn spawned ih
  | gather spawning _ _ ih => exact .gather spawning ih

/-- Several units of one group. -/
theorem confined_forkAll {units : List (Program Unit)}
    (h : ∀ unit ∈ units, unit.Confined view false fun _ => True) :
    (forkAll units).Confined view draws fun _ => True := by
  induction units with
  | nil => exact .done trivial
  | cons unit units ih =>
    obtain ⟨hunit, hunits⟩ := List.forall_mem_cons.1 h
    exact .spawn hunit (ih hunits)

theorem confined_ofExcept {ε : Type} {describe : ε → OperationError} {result : Except ε α} :
    (ofExcept describe result).Confined view draws fun value => result = .ok value := by
  cases result with
  | ok value => exact .done rfl
  | error error => exact .fail

theorem Confined.ask {effect : Effect} {next : effect.Reply → Program α} {post : α → Prop}
    (admitted : view.Admits effect)
    (plain : ∀ reply, view.Vouches effect reply → effect.veil view.hive reply = reply)
    (follows : ∀ reply, view.Vouches effect reply → (next reply).Confined view draws post) :
    (Program.perform effect next).Confined view draws post :=
  .perform admitted (fun reply hreply => congrArg next (plain reply hreply)) follows

/-- A call whose reply is the value. -/
theorem confined_tryCall {request : Request} (admitted : view.Admits (.store request))
    (plain : ∀ reply, view.Vouches (.store request) reply →
      Effect.veil view.hive (.store request) reply = reply) :
    (tryCall request).Confined view draws (view.Vouches (.store request)) :=
  .ask admitted plain fun _ hreply => .done hreply

/-- A call that fails with the store. -/
theorem confined_call {request : Request} (admitted : view.Admits (.store request))
    (plain : ∀ reply, view.Vouches (.store request) reply →
      Effect.veil view.hive (.store request) reply = reply) :
    (call request).Confined view draws fun answer =>
      view.Vouches (.store request) (.ok answer) := by
  refine .ask admitted plain fun reply hreply => ?_
  cases reply with
  | ok answer => exact .done hreply
  | error error => exact .fail

end Program

end HiveForum
