import HiveForum.Operation.Error
import HiveForum.Operation.Notification
import HiveForum.Store.Request

/-!
# Programs

An operation of the forum is a program: a finite tree of effects on the world around it, each
followed by what the operation does with the reply. A program says nothing about how its effects
are carried out; it can be run alone, beside other programs whose effects come in between, or
against a world in which calls fail.

## Main definitions

* `Effect`, `Effect.Reply`: what a program may ask of the world, and what it is told.
* `Program`: the programs that give a value of a type.
* `Program.bind`, `Program.attempt`: one program after another; a program whose failure is a value.

## Main results

* the laws of monads, as the instance `LawfulMonad Program`.
-/

namespace HiveForum

/-- What a program may ask of the world around it. -/
inductive Effect where
  | store (request : Request)
  | membership (caller : Caller) (hive : ScopeId)
  /-- Takes a time stamp in microseconds. -/
  | timestamp
  | newContentId
  | randomWord
  /-- Waits for some milliseconds, unless the time for the operation would be up. -/
  | pause (delay : UInt64)
  | notify (notification : Notification)

/-- What a program is told in reply to an effect. -/
abbrev Effect.Reply : Effect → Type
  | .store request => Except StoreError request.Answer
  | .membership _ _ => Except AccessError Role
  | .timestamp => Int64
  | .newContentId => ContentId
  | .randomWord => UInt32
  | .pause _ => Except Outage Unit
  | .notify _ => Unit

/-- The results of the two parts of a group: the program that spawned its units, and the units. -/
structure Gathered where
  spawner : Except OperationError Unit
  units : Except OperationError Unit

/-- A program that gives a value of type `α`. -/
inductive Program : Type → Type 1 where
  | done {α : Type} (value : α) : Program α
  | fail {α : Type} (error : OperationError) : Program α
  | unfinished {α : Type} : Program α
  | perform {α : Type} (effect : Effect) (next : effect.Reply → Program α) : Program α
  | spawn {α : Type} (unit : Program Unit) (next : Program α) : Program α
  /-- Opens a group in which no more than `limit` units run at once, runs a program that spawns
  its units, waits until all have ended, and goes on with both results. -/
  | gather {α : Type} (limit : Nat) (spawner : Program Unit) (next : Gathered → Program α) :
    Program α

namespace Program

variable {α β γ : Type}

/-- Runs a program and then the one that its value leads to. -/
def bind : Program α → (α → Program β) → Program β
  | .done value, f => f value
  | .fail error, _ => .fail error
  | .unfinished, _ => .unfinished
  | .perform effect next, f => .perform effect fun reply => (next reply).bind f
  | .spawn unit next, f => .spawn unit (next.bind f)
  | .gather limit spawner next, f => .gather limit spawner fun gathered => (next gathered).bind f

instance : Monad Program where
  pure := .done
  bind := bind

/-- The program that gives the result of another one, a failure included, as its value. -/
def attempt : Program α → Program (Except OperationError α)
  | .done value => .done (.ok value)
  | .fail error => .done (.error error)
  | .unfinished => .unfinished
  | .perform effect next => .perform effect fun reply => (next reply).attempt
  | .spawn unit next => .spawn unit next.attempt
  | .gather limit spawner next => .gather limit spawner fun gathered => (next gathered).attempt

/-- Gives the value of a result, or fails with its error as `describe` puts it. -/
def ofExcept {ε : Type} (describe : ε → OperationError) : Except ε α → Program α
  | .ok value => .done value
  | .error error => .fail (describe error)

/-- Calls the store and gives its result as a value. -/
def tryCall (request : Request) : Program (Except StoreError request.Answer) :=
  .perform (.store request) .done

/-- Calls the store and gives its answer. -/
def call (request : Request) : Program request.Answer :=
  .perform (.store request) (ofExcept .ofStore)

/-- Gives the role in which a caller acts in a hive, and fails if there is none. -/
def authorize (caller : Caller) (hive : ScopeId) : Program Role :=
  .perform (.membership caller hive) (ofExcept .ofAccess)

/-- Gives the role in which a caller acts in a hive, and fails if it does not suffice. -/
def authorizeAs (caller : Caller) (hive : ScopeId) (required : Role) : Program Role :=
  .perform (.membership caller hive) fun reply =>
    ofExcept .ofAccess (reply.bind required.require)

/-- Takes a time stamp. -/
def timestamp : Program Int64 := .perform .timestamp .done

/-- Draws an identifier. -/
def newContentId : Program ContentId := .perform .newContentId .done

/-- Draws a random word. -/
def randomWord : Program UInt32 := .perform .randomWord .done

/-- Waits, and fails if the time for the operation would be up. -/
def pause (delay : UInt64) : Program Unit :=
  .perform (.pause delay) (ofExcept .storeUnavailable)

/-- Hands over a notification. -/
def notify (notification : Notification) : Program Unit :=
  .perform (.notify notification) .done

/-- Hands a unit of work to the surrounding group. -/
def fork (unit : Program Unit) : Program Unit := .spawn unit (.done ())

/-- Hands several units of work to the surrounding group, in order. -/
def forkAll : List (Program Unit) → Program Unit
  | [] => .done ()
  | unit :: units => .spawn unit (forkAll units)

/-- Runs a program that spawns units, and gives both results once all units have ended. -/
def group (limit : Nat) (spawner : Program Unit) : Program Gathered :=
  .gather limit spawner .done

/-! ### Laws -/

@[simp]
theorem done_bind (value : α) (f : α → Program β) : (Program.done value).bind f = f value := rfl

theorem bind_done (p : Program α) : p.bind .done = p := by
  induction p with
  | done value => rfl
  | fail error => rfl
  | unfinished => rfl
  | perform effect next ih => exact congrArg _ (funext ih)
  | spawn unit next _ ih => exact congrArg _ ih
  | gather limit spawner next _ ih => exact congrArg _ (funext ih)

theorem bind_assoc (p : Program α) (f : α → Program β) (g : β → Program γ) :
    (p.bind f).bind g = p.bind fun value => (f value).bind g := by
  induction p with
  | done value => rfl
  | fail error => rfl
  | unfinished => rfl
  | perform effect next ih => exact congrArg _ (funext fun reply => ih reply f)
  | spawn unit next _ ih => exact congrArg _ (ih f)
  | gather limit spawner next _ ih => exact congrArg _ (funext fun gathered => ih gathered f)

instance : LawfulMonad Program :=
  LawfulMonad.mk' Program bind_done (fun _ _ => rfl) bind_assoc

end Program

end HiveForum
