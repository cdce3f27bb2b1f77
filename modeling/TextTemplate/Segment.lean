/-
TextTemplate.Segment — the pieces a template is cut into: literal text,
with its escapes already collapsed, and placeholders.

A literal covers a span of the source that may be longer than its text,
since each `$$` of the source is one `$` of the text. A placeholder's name
and style say everything about how it was written, so `Placeholder.written`
gives back its source without looking at it.
-/
import TextTemplate.Text.Span

namespace TextTemplate

/-- The two ways to write a placeholder. -/
inductive Style where
  /-- A dollar sign and the name. -/
  | bare
  /-- The name in braces after the dollar sign. -/
  | braced
  deriving DecidableEq, Repr

/-- A point of substitution. The span covers the delimiters too. -/
structure Placeholder where
  name : String
  style : Style
  span : Span
  deriving DecidableEq, Repr

/-- The placeholder as it stands in the source. -/
def Placeholder.written (p : Placeholder) : String :=
  match p.style with
  | .bare => "$" ++ p.name
  | .braced => "$\x7b" ++ p.name ++ "\x7d"

/-- One piece of a template. -/
inductive Segment where
  | literal (text : String) (span : Span)
  | placeholder (p : Placeholder)
  deriving DecidableEq, Repr

namespace Segment

/-- The part of the source a segment covers. -/
def span : Segment → Span
  | .literal _ span => span
  | .placeholder p => p.span

/-- The placeholder a segment is, if it is one. -/
def placeholder? : Segment → Option Placeholder
  | .literal .. => none
  | .placeholder p => some p

@[simp] theorem placeholder?_literal (text : String) (span : Span) :
    (literal text span).placeholder? = none := rfl

@[simp] theorem placeholder?_placeholder (p : Placeholder) :
    (placeholder p).placeholder? = some p := rfl

end Segment

end TextTemplate
