/-
TextTemplate.Event — what parsing and rendering write to a log, and the
monads that keep one.

The operations that log do so through `MonadLog`, in whatever monad they
run. In `Id` the events are dropped, which is what makes the pure
operations the same definitions as the logging ones; in `LogM` they are
kept, in order; a state or an error laid over a logging monad logs through
it.
-/
import TextTemplate.SyntaxError

namespace TextTemplate

inductive Level where
  | debug
  | trace
  deriving DecidableEq, Repr

def Level.text : Level → String
  | .debug => "DEBUG"
  | .trace => "TRACE"

/-- One entry of the log. -/
inductive Event where
  /-- A template was made: its size and what it consists of. -/
  | parsed (bytes segments placeholders skipped : Nat)
  /-- A source was refused. -/
  | rejected (error : SyntaxError)
  /-- A render failed for want of a key. -/
  | missing (name : String)
  /-- A placeholder without a value was written back. -/
  | left (name : String)
  deriving DecidableEq, Repr

namespace Event

def level : Event → Level
  | .left _ => .trace
  | _ => .debug

def text : Event → String
  | .parsed bytes segments placeholders skipped =>
    s!"parsed template: {bytes} bytes, {segments} segments, {placeholders} placeholders, " ++
      s!"{skipped} skipped"
  | .rejected error => s!"template rejected: {error.message}"
  | .missing name => s!"missing key \"{name}\""
  | .left name => s!"leaving \"{name}\" unresolved"

end Event

/-- Monads that take events. -/
class MonadLog (m : Type → Type) where
  log : Event → m Unit

/-- A pure computation keeps no log. -/
instance : MonadLog Id where
  log _ := ()

/-- What is laid over a monad that takes events passes them down. -/
instance {m n : Type → Type} [MonadLift m n] [MonadLog m] : MonadLog n where
  log event := MonadLift.monadLift (MonadLog.log event : m Unit)

/-- Computations that keep the events, oldest first. -/
def LogM (α : Type) : Type :=
  StateM (Array Event) α

namespace LogM

instance : Monad LogM :=
  inferInstanceAs (Monad (StateM (Array Event)))

instance : LawfulMonad LogM :=
  inferInstanceAs (LawfulMonad (StateM (Array Event)))

instance : MonadLog LogM where
  log event := fun events => ((), events.push event)

/-- The value of a computation, and its events. -/
def run {α : Type} (x : LogM α) : α × List Event :=
  let (a, events) := StateT.run (m := Id) x #[]
  (a, events.toList)

end LogM

end TextTemplate
