/-
TextTemplate.Text.Location — where a byte offset stands on the page: the
line it is on and the character of that line, both counted from one.

Lines end at a line feed and at nothing else. Columns count characters,
not bytes and not what a terminal would draw. `locate?` takes two cuts of
the text, the part before the offset and the part of that after its last
line feed; it answers `none` only for an offset inside a character or past
the end, which is where `Span.cut?` has no answer.
-/
import TextTemplate.Text.Span

namespace TextTemplate

/-- A line and a column, both from one. -/
structure Location where
  line : Nat
  column : Nat
  deriving DecidableEq, Repr

/-- The byte offset just behind the last line feed, zero if there is none. -/
def lineStart (text : String) : Nat :=
  (text.toList.foldl
    (fun (offset, start) c =>
      let next := offset + c.utf8Size
      (next, if c = '\n' then next else start))
    (0, 0)).2

/-- The place of a byte offset. -/
def locate? (text : String) (offset : Nat) : Option Location := do
  let before ← Span.cut? ⟨0, offset⟩ text
  let line ← Span.cut? ⟨lineStart before, before.utf8ByteSize⟩ before
  return ⟨before.toList.count '\n' + 1, line.length + 1⟩

end TextTemplate
