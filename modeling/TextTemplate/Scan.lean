/-
TextTemplate.Scan — one pass over the bytes of a source that cuts it into
segments.

## The machine

`Scan.step` reads the byte at `position`, or finds the end of the source.
What it makes of it hangs on its `Reading`, which is what was read since
the last dollar sign:

* in `text` a dollar sign opens something and every other byte is text;
* behind the `dollar` a second one makes an escape, a letter begins a bare
  name and a brace leads to a braced one;
* behind the `brace` only a letter will do;
* a `bareName` ends with the first byte that cannot go on, and that byte is
  read again as text;
* a `bracedName` ends with the closing brace.

Everything else is malformed. A strict scan stops there. A lenient one
keeps the dollar sign as text and takes up reading right behind it.

## What is copied when

Literal text is copied in runs, not byte by byte: `literal` stands for the
source from `literalFrom` up to `copiedTo`, and what lies between there and
`position` is still to be copied. A run ends only where an ASCII character
or the end of the source was read, so every run is whole characters though
the machine walks over single bytes.

## Totality

`step` is checked and not trusted: a run that were not whole characters
would be a `Fault`, and so would a scan that outlives its budget of two
steps for each byte and two more. Neither happens on any source.
-/
import TextTemplate.Identifier
import TextTemplate.Segment
import TextTemplate.SyntaxError
import TextTemplate.Text.Bytes

namespace TextTemplate

/-- What a malformed placeholder does to a scan. -/
inductive Strictness where
  /-- It ends the scan. -/
  | strict
  /-- It is recorded, and its dollar sign is text. -/
  | lenient
  deriving DecidableEq, Repr

/-- What was read since the last dollar sign; `start` is its offset. -/
inductive Reading where
  | text
  | dollar (start : Nat)
  | brace (start : Nat)
  | bareName (start : Nat)
  | bracedName (start : Nat)
  deriving DecidableEq, Repr

/-- A scan under way. -/
structure Scan where
  /-- The byte to be read next. -/
  position : Nat := 0
  reading : Reading := .text
  /-- The text of the literal being built. -/
  literal : String := ""
  /-- Where that literal begins in the source. -/
  literalFrom : Nat := 0
  /-- Up to where the source has gone into it. -/
  copiedTo : Nat := 0
  segments : Array Segment := #[]
  errors : Array SyntaxError := #[]
  deriving DecidableEq, Repr

/-- How a scan can go wrong. -/
inductive Fault where
  /-- A cut through a character, or one with its ends in the wrong order. -/
  | badCut (span : Span)
  /-- The budget of steps is used up. -/
  | outOfSteps
  deriving DecidableEq, Repr

/-- What a step leads to. -/
inductive Step where
  | more (scan : Scan)
  | finished (scan : Scan)
  deriving DecidableEq, Repr

namespace Scan

/-! ## Cutting -/

/-- The source under a span, or the fault of asking for it. -/
def cut (source : String) (span : Span) : Except Fault String :=
  match span.cut? source with
  | some text => .ok text
  | none => .error (.badCut span)

/-- Copy the source up to `stop` into the literal. -/
def copyUpTo (source : String) (stop : Nat) (scan : Scan) : Except Fault Scan := do
  let run ← cut source ⟨scan.copiedTo, stop⟩
  return { scan with literal := scan.literal ++ run, copiedTo := stop }

/-! ## Ending a segment -/

/-- End the literal at `stop`. One that covers nothing is no segment. -/
def endLiteral (source : String) (stop : Nat) (scan : Scan) : Except Fault Scan := do
  let scan ← if scan.copiedTo < stop then scan.copyUpTo source stop else pure scan
  if scan.literalFrom < stop then
    let segment := Segment.literal scan.literal ⟨scan.literalFrom, stop⟩
    return { scan with
      literal := "", literalFrom := stop, copiedTo := stop, segments := scan.segments.push segment }
  else
    return { scan with literalFrom := stop, copiedTo := stop }

/-- Put in the placeholder that covers `span` and is called what stands
under `name`. -/
def addPlaceholder (source : String) (style : Style) (span name : Span) (scan : Scan) :
    Except Fault Scan := do
  let scan ← scan.endLiteral source span.start
  let placeholder := Placeholder.mk (← cut source name) style span
  return { scan with
    literalFrom := span.stop, copiedTo := span.stop
    segments := scan.segments.push (.placeholder placeholder) }

/-- Break off the placeholder opened at `start`. -/
def breakOff (source : String) (strictness : Strictness) (kind : SyntaxError.Kind) (start : Nat)
    (scan : Scan) : Except Fault Step := do
  let some error := SyntaxError.at? source kind start scan.position
    | throw (.badCut ⟨0, scan.position⟩)
  let scan := { scan with errors := scan.errors.push error }
  match strictness with
  | .strict => return .finished scan
  | .lenient =>
    return .more { scan with
      literal := scan.literal.push '$', copiedTo := start + 1
      reading := .text, position := start + 1 }

/-! ## One step -/

/-- Go one byte on. -/
def advance (reading : Reading) (scan : Scan) : Step :=
  .more { scan with reading, position := scan.position + 1 }

/-- Between placeholders. -/
def stepText (source : String) (unit : Option Char) (scan : Scan) : Except Fault Step := do
  match unit with
  | none => return .finished (← scan.endLiteral source source.utf8ByteSize)
  | some '$' => return advance (.dollar scan.position) (← scan.copyUpTo source scan.position)
  | some _ => return advance .text scan

/-- Behind a dollar sign. -/
def stepDollar (source : String) (strictness : Strictness) (start : Nat) (unit : Option Char)
    (scan : Scan) : Except Fault Step :=
  match unit with
  | none => scan.breakOff source strictness .invalidPlaceholder start
  | some c =>
    if c = '$' then
      .ok (advance .text
        { scan with literal := scan.literal.push '$', copiedTo := scan.position + 1 })
    else if c = '\x7b' then
      .ok (advance (.brace start) scan)
    else if Identifier.isStart c then
      .ok (advance (.bareName start) scan)
    else
      scan.breakOff source strictness .invalidPlaceholder start

/-- Behind a dollar sign and an opening brace. -/
def stepBrace (source : String) (strictness : Strictness) (start : Nat) (unit : Option Char)
    (scan : Scan) : Except Fault Step :=
  match unit with
  | none => scan.breakOff source strictness .unterminatedBrace start
  | some c =>
    if Identifier.isStart c then
      .ok (advance (.bracedName start) scan)
    else
      scan.breakOff source strictness .invalidPlaceholder start

/-- In a bare name. The byte that ends it is not used up. -/
def stepBareName (source : String) (start : Nat) (unit : Option Char) (scan : Scan) :
    Except Fault Step := do
  let span := Span.mk start scan.position
  let name := Span.mk (start + 1) scan.position
  match unit with
  | none => return .finished (← scan.addPlaceholder source .bare span name)
  | some c =>
    if Identifier.isContinue c then
      return advance (.bareName start) scan
    else
      return .more { ← scan.addPlaceholder source .bare span name with reading := .text }

/-- In a braced name. -/
def stepBracedName (source : String) (strictness : Strictness) (start : Nat) (unit : Option Char)
    (scan : Scan) : Except Fault Step := do
  match unit with
  | none => scan.breakOff source strictness .unterminatedBrace start
  | some c =>
    if Identifier.isContinue c then
      return advance (.bracedName start) scan
    else if c = '\x7d' then
      let span := Span.mk start (scan.position + 1)
      let name := Span.mk (start + 2) scan.position
      return advance .text (← scan.addPlaceholder source .braced span name)
    else
      scan.breakOff source strictness .unterminatedBrace start

/-- Read the byte at the scan's position, or the end of the source. -/
def step (source : String) (strictness : Strictness) (scan : Scan) : Except Fault Step :=
  let unit := unitAt? source scan.position
  match scan.reading with
  | .text => scan.stepText source unit
  | .dollar start => scan.stepDollar source strictness start unit
  | .brace start => scan.stepBrace source strictness start unit
  | .bareName start => scan.stepBareName source start unit
  | .bracedName start => scan.stepBracedName source strictness start unit

/-! ## The whole pass -/

/-- Step until the scan is finished, `budget` times at most. -/
def run (source : String) (strictness : Strictness) : (budget : Nat) → Scan → Except Fault Scan
  | 0, _ => .error .outOfSteps
  | budget + 1, scan => do
    match ← scan.step source strictness with
    | .more scan => run source strictness budget scan
    | .finished scan => return scan

/-- As many steps as any scan of a source needs. -/
def budget (source : String) : Nat :=
  2 * (source.utf8ByteSize + 1)

/-- The finished scan of a source. -/
def ofSource (source : String) (strictness : Strictness) : Scan :=
  match run source strictness (budget source) {} with
  | .ok scan => scan
  | .error _ => {}

end Scan

end TextTemplate
