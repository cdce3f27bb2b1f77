/-
TextTemplate.Text.Span — byte ranges of a text and the text under them.

All offsets are offsets into the UTF-8 encoding. A cut is CHECKED: it
answers only when its ends are in order and both stand between two
characters (or at an end of the text), so a caller that gets `none` asked
for half a character. `Span.cut?_eq_some_iff` says the same without bytes:
a cut answers `t` exactly when the text is `before ++ t ++ after` and the
span is where `t` lies in it.
-/
namespace TextTemplate

/-- The bytes from `start` up to, and without, `stop`. -/
structure Span where
  start : Nat
  stop : Nat
  deriving DecidableEq, Repr

namespace Span

/-- Both ends stand between characters of `text`, in order. -/
def Fits (span : Span) (text : String) : Prop :=
  span.start ≤ span.stop ∧ (String.Pos.Raw.mk span.start).IsValid text ∧
    (String.Pos.Raw.mk span.stop).IsValid text

instance (span : Span) (text : String) : Decidable (span.Fits text) :=
  inferInstanceAs (Decidable (_ ∧ _))

/-- The text under a span. -/
def cut? (span : Span) (text : String) : Option String :=
  if h : span.Fits text then
    some (text.extract (text.pos ⟨span.start⟩ h.2.1) (text.pos ⟨span.stop⟩ h.2.2))
  else
    none

end Span

/-- The first `size` bytes of a text. A text that has no such part comes
back whole. -/
def truncate (text : String) (size : Nat) : String :=
  (Span.cut? ⟨0, size⟩ text).getD text

/-! ## What a cut is -/

theorem Span.fits_of_append (before t after : String) :
    (Span.mk before.utf8ByteSize (before.utf8ByteSize + t.utf8ByteSize)).Fits
      (before ++ t ++ after) := by
  refine ⟨by simp, ?_, ?_⟩
  · exact String.Pos.Raw.isValid_iff_exists_append.2
      ⟨before, t ++ after, by simp [String.append_assoc], rfl⟩
  · exact String.Pos.Raw.isValid_iff_exists_append.2
      ⟨before ++ t, after, rfl, by simp [String.Pos.Raw.ext_iff]⟩

/-- A span that fits a text splits it in three. -/
theorem Span.Fits.exists_append {span : Span} {text : String} (h : span.Fits text) :
    ∃ before t after, text = before ++ t ++ after ∧
      span = ⟨before.utf8ByteSize, before.utf8ByteSize + t.utf8ByteSize⟩ := by
  obtain ⟨start, stop⟩ := span
  obtain ⟨hle, hstart, hstop⟩ := h
  obtain ⟨before, rest, rfl, hbefore⟩ := String.Pos.Raw.isValid_iff_exists_append.1 hstart
  have hb : start = before.utf8ByteSize := congrArg String.Pos.Raw.byteIdx hbefore
  subst hb
  have hrest : (String.Pos.Raw.mk (stop - before.utf8ByteSize)).IsValid rest := by
    rcases String.Pos.Raw.isValid_append.1 hstop with h | ⟨_, h⟩
    · have := h.le_utf8ByteSize
      simp only at this hle
      rw [show stop - before.utf8ByteSize = 0 by omega]
      exact String.Pos.Raw.isValid_zero
    · exact h
  obtain ⟨t, after, rfl, ht⟩ := String.Pos.Raw.isValid_iff_exists_append.1 hrest
  have ht : stop - before.utf8ByteSize = t.utf8ByteSize := congrArg String.Pos.Raw.byteIdx ht
  simp only at hle
  refine ⟨before, t, after, by simp [String.append_assoc], ?_⟩
  rw [Span.mk.injEq]
  exact ⟨rfl, by omega⟩

theorem Span.cut?_append (before t after : String) :
    (Span.mk before.utf8ByteSize (before.utf8ByteSize + t.utf8ByteSize)).cut?
      (before ++ t ++ after) = some t := by
  rw [Span.cut?, dif_pos (Span.fits_of_append before t after), Option.some_inj,
    ← String.toByteArray_inj]
  simp only [String.toByteArray_extract, String.offset_pos, String.toByteArray_append,
    ← String.size_toByteArray]
  rw [ByteArray.append_assoc,
    show before.toByteArray.size = before.toByteArray.size + 0 from rfl, Nat.add_assoc,
    ByteArray.extract_append_size_add, Nat.zero_add, ByteArray.extract_append_eq_left rfl]

/-- A cut answers `t` exactly where `t` lies in the text. -/
theorem Span.cut?_eq_some_iff {span : Span} {text t : String} :
    span.cut? text = some t ↔ ∃ before after, text = before ++ t ++ after ∧
      span = ⟨before.utf8ByteSize, before.utf8ByteSize + t.utf8ByteSize⟩ := by
  constructor
  · intro h
    have hfits : span.Fits text := by
      by_cases hf : span.Fits text
      · exact hf
      · simp [Span.cut?, hf] at h
    obtain ⟨before, u, after, rfl, rfl⟩ := hfits.exists_append
    rw [Span.cut?_append, Option.some_inj] at h
    exact ⟨before, after, by rw [h], by rw [h]⟩
  · rintro ⟨before, after, rfl, rfl⟩
    exact Span.cut?_append before t after

/-- A cut answers exactly when its span fits. -/
theorem Span.cut?_isSome_iff {span : Span} {text : String} :
    (span.cut? text).isSome ↔ span.Fits text := by
  by_cases h : span.Fits text <;> simp [Span.cut?, h]

/-- What was appended to a text is taken off again. -/
theorem truncate_append (text more : String) :
    truncate (text ++ more) text.utf8ByteSize = text := by
  have h := Span.cut?_append "" text more
  simp only [String.utf8ByteSize_empty, String.empty_append, Nat.zero_add] at h
  rw [truncate, h, Option.getD_some]

end TextTemplate
