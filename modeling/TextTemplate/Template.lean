/-
TextTemplate.Template — a template read once, to be rendered any number of
times: its source, the segments of it, and the malformed placeholders that
were left in it as text.

Two readings make one: `parse` refuses a source at its first malformed
placeholder, `salvage` takes every source and keeps the list of what it
skipped. The template of a source that has nothing malformed in it is the
same either way.
-/
import TextTemplate.Scan
import TextTemplate.Event

namespace TextTemplate

structure Template where
  source : String
  segments : List Segment
  /-- The malformed placeholders kept as text, in order. -/
  errors : List SyntaxError
  deriving DecidableEq, Repr

namespace Template

/-! ## What a template says -/

/-- The placeholders, in order and with repetitions. -/
def placeholders (t : Template) : List Placeholder :=
  t.segments.filterMap Segment.placeholder?

/-- The names of the placeholders, each once, by first appearance. -/
def identifiers (t : Template) : List String :=
  (t.placeholders.map Placeholder.name).eraseDups

/-- Nothing malformed was skipped. -/
def isValid (t : Template) : Bool :=
  t.errors.isEmpty

/-- A template prints as its source. -/
instance : ToString Template where
  toString t := t.source

/-- The log entry for a template just made. -/
def parsedEvent (t : Template) : Event :=
  .parsed t.source.utf8ByteSize t.segments.length t.placeholders.length t.errors.length

/-! ## Reading a source -/

/-- The template of a finished scan. -/
def ofScan (source : String) (scan : Scan) : Template where
  source
  segments := scan.segments.toList
  errors := scan.errors.toList

section

variable {m : Type → Type} [Monad m] [MonadLog m]

/-- Read a source and refuse it at its first malformed placeholder. -/
def parseM (source : String) : m (Except SyntaxError Template) := do
  let scan := Scan.ofSource source .strict
  match scan.errors.back? with
  | some error =>
    MonadLog.log (.rejected error)
    return .error error
  | none =>
    let t := ofScan source scan
    MonadLog.log t.parsedEvent
    return .ok t

/-- Read a source and keep what is malformed in it as text. -/
def salvageM (source : String) : m Template := do
  let t := ofScan source (Scan.ofSource source .lenient)
  MonadLog.log t.parsedEvent
  return t

end

/-- The template of a source, or its first malformed placeholder. -/
def parse (source : String) : Except SyntaxError Template :=
  Id.run (parseM source)

/-- The template of a source with what is malformed in it kept as text. -/
def salvage (source : String) : Template :=
  Id.run (salvageM source)

end Template

end TextTemplate
