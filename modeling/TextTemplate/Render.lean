/-
TextTemplate.Render — the text of a template under a lookup.

Every way to render is `emit`, which writes segment after segment behind
what is written already and says at which placeholder it stopped, if it
did. Appending is all or nothing: a render that fails takes off again what
it had written.
-/
import TextTemplate.Failure
import TextTemplate.Lookup
import TextTemplate.Options
import TextTemplate.Template

namespace TextTemplate

namespace Template

variable {m : Type → Type} [Monad m] [MonadLog m]

/-- Write segments behind `out`. Gives what is written then and the
placeholder without a value that ended it, if one did. -/
def emit (lookup : Lookup m) (policy : Policy) :
    List Segment → String → m (String × Option Placeholder)
  | [], out => return (out, none)
  | .literal text _ :: rest, out => emit lookup policy rest (out ++ text)
  | .placeholder p :: rest, out => do
    match ← lookup p.name with
    | some value => emit lookup policy rest (out ++ value)
    | none =>
      match policy with
      | .fail => return (out, some p)
      | .leave =>
        MonadLog.log (.left p.name)
        emit lookup policy rest (out ++ p.written)

/-- Append the rendered text to a buffer, or leave the buffer as it was. -/
def appendTo (t : Template) (lookup : Lookup m) (options : Options) (buffer : String) :
    m (String × Except MissingKey Unit) := do
  let mark := buffer.utf8ByteSize
  let (out, stopped) ← emit lookup options.missing t.segments buffer
  match stopped with
  | none => return (out, .ok ())
  | some p =>
    MonadLog.log (.missing p.name)
    return (truncate out mark, .error ⟨p.name⟩)

/-- The rendered text. Unless the options say otherwise, a placeholder
without a value ends it. -/
def render (t : Template) (lookup : Lookup m) (options : Options := {}) :
    m (Except MissingKey String) := do
  let (out, result) ← t.appendTo lookup options ""
  return result.map fun _ => out

/-- The rendered text, in which a placeholder without a value stands as it
was written. -/
def renderPartial (t : Template) (lookup : Lookup m) : m String := do
  return (← emit lookup .leave t.segments "").1

end Template

/-! ## Without keeping the template -/

section

variable {m : Type → Type} [Monad m] [MonadLog m]

/-- Parse a source and render it. -/
def fill (source : String) (lookup : Lookup m) : m (Except Failure String) := do
  match ← Template.parseM source with
  | .error e => return .error (.malformed e)
  | .ok t => return (← t.render lookup).mapError .missing

/-- Render a source with everything left in that is malformed or has no
value. -/
def fillPartial (source : String) (lookup : Lookup m) : m String := do
  let t ← Template.salvageM source
  t.renderPartial lookup

end

end TextTemplate
