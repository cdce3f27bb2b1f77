/-
TextTemplate.Proofs.Values — rendering where a name has one value or none.

A lookup may answer the same name differently from one time to the next, and
may do other things when it is asked. Most do neither: pairs, maps and JSON
objects are functions of the name (`Lookup.ofFunction`). What a template
renders to is then told by its segments without going through them one after
the other: `textUnder` is the text in which everything without a value
stands as it was written, and a strict render ends at the first placeholder
that lacks one.

There is one equation for each way to render, entries of the log included:
`renderPartial_ofFunction` and `render_ofFunction`.
-/
import TextTemplate.Render

namespace TextTemplate

/-- There is no value for the placeholder. -/
def Placeholder.lacks (values : String → Option String) (p : Placeholder) : Bool :=
  (values p.name).isNone

/-- The text of a segment. A placeholder without a value stands as it was
written. -/
def Segment.textUnder (values : String → Option String) : Segment → String
  | .literal text _ => text
  | .placeholder p => (values p.name).getD p.written

/-- The text of segments. -/
def textUnder (values : String → Option String) (ss : List Segment) : String :=
  String.join (ss.map (Segment.textUnder values))

@[simp] theorem textUnder_nil (values : String → Option String) : textUnder values [] = "" :=
  String.join_nil

@[simp] theorem textUnder_cons (values : String → Option String) (s : Segment)
    (ss : List Segment) : textUnder values (s :: ss) = s.textUnder values ++ textUnder values ss :=
  String.join_cons

variable {m : Type → Type} [Monad m] [LawfulMonad m] {values : String → Option String}

/-- Of two layers the second is asked where the first has no value. -/
theorem orElse_ofFunction (second : Lookup m) (name : String) :
    (Lookup.ofFunction values).orElse second name =
      match values name with
      | some value => pure (some value)
      | none => second name := by
  unfold Lookup.orElse Lookup.ofFunction
  cases values name <;> simp

namespace Template

variable [MonadLog m]

/-! ## Segments -/

theorem emit_leave_ofFunction (ss : List Segment) (out : String) :
    emit (m := m) (Lookup.ofFunction values) .leave ss out = do
      forM ((ss.filterMap Segment.placeholder?).filter (Placeholder.lacks values)) fun p =>
        MonadLog.log (.left p.name)
      return (out ++ textUnder values ss, none) := by
  induction ss generalizing out with
  | nil => simp [emit]
  | cons s ss ih =>
    cases s with
    | literal text span =>
      simp [emit, ih, Segment.textUnder, List.filterMap_cons, String.append_assoc]
    | placeholder p =>
      cases hvalue : values p.name <;>
        simp [emit, Lookup.ofFunction, Segment.textUnder, Placeholder.lacks, hvalue, ih,
          String.append_assoc]

/-- A strict render stops at the first placeholder without a value. If there
is none, everything is written. -/
theorem exists_emit_fail_ofFunction (values : String → Option String) (ss : List Segment)
    (out : String) :
    ∃ written,
      emit (m := m) (Lookup.ofFunction values) .fail ss out =
        pure (written, (ss.filterMap Segment.placeholder?).find? (Placeholder.lacks values)) ∧
      ((ss.filterMap Segment.placeholder?).find? (Placeholder.lacks values) = none →
        written = out ++ textUnder values ss) := by
  induction ss generalizing out with
  | nil => exact ⟨out, rfl, fun _ => by simp⟩
  | cons s ss ih =>
    cases s with
    | literal text span =>
      obtain ⟨written, hemit, hwritten⟩ := ih (out ++ text)
      refine ⟨written, hemit, ?_⟩
      intro hnone
      rw [hwritten hnone, textUnder_cons, Segment.textUnder, String.append_assoc]
    | placeholder p =>
      cases hvalue : values p.name with
      | none =>
        have hlacks : p.lacks values = true := by simp [Placeholder.lacks, hvalue]
        refine ⟨out, ?_, ?_⟩
        · simp [emit, Lookup.ofFunction, hvalue, hlacks]
        · simp [hlacks]
      | some value =>
        have hlacks : p.lacks values = false := by simp [Placeholder.lacks, hvalue]
        obtain ⟨written, hemit, hwritten⟩ := ih (out ++ value)
        refine ⟨written, ?_, ?_⟩
        · simp [emit, Lookup.ofFunction, hvalue, hlacks, hemit]
        · intro hnone
          rw [hwritten (by simpa [hlacks] using hnone), textUnder_cons, Segment.textUnder, hvalue,
            String.append_assoc]
          rfl

/-! ## Templates -/

theorem renderPartial_ofFunction (t : Template) :
    t.renderPartial (m := m) (Lookup.ofFunction values) = do
      forM (t.placeholders.filter (Placeholder.lacks values)) fun p => MonadLog.log (.left p.name)
      return textUnder values t.segments := by
  rw [renderPartial, emit_leave_ofFunction, placeholders]
  simp

theorem render_ofFunction (t : Template) :
    t.render (m := m) (Lookup.ofFunction values) =
      match t.placeholders.find? (Placeholder.lacks values) with
      | none => return .ok (textUnder values t.segments)
      | some p => do
        MonadLog.log (.missing p.name)
        return .error ⟨p.name⟩ := by
  obtain ⟨written, hemit, hwritten⟩ := exists_emit_fail_ofFunction (m := m) values t.segments ""
  rw [render, appendTo, hemit, placeholders]
  cases hfind : (t.segments.filterMap Segment.placeholder?).find? (Placeholder.lacks values) with
  | none => simp [hwritten hfind, Except.map]
  | some p => simp [Except.map]

/-! ## Outcomes -/

theorem run_render_ofFunction (t : Template) :
    Id.run (t.render (Lookup.ofFunction values)) =
      match t.placeholders.find? (Placeholder.lacks values) with
      | none => .ok (Id.run (t.renderPartial (Lookup.ofFunction values)))
      | some p => .error ⟨p.name⟩ := by
  rw [render_ofFunction, renderPartial_ofFunction]
  cases t.placeholders.find? (Placeholder.lacks values) <;> simp

theorem find?_lacks_eq_none_iff {t : Template} :
    t.placeholders.find? (Placeholder.lacks values) = none ↔
      ∀ p ∈ t.placeholders, values p.name ≠ none := by
  rw [List.find?_eq_none]
  simp [Placeholder.lacks]

/-- A strict render gives a text when everything has a value, and it is the
text of a partial one. -/
theorem run_render_eq_ok_iff {t : Template} {text : String} :
    Id.run (t.render (Lookup.ofFunction values)) = .ok text ↔
      (∀ p ∈ t.placeholders, values p.name ≠ none) ∧
        text = Id.run (t.renderPartial (Lookup.ofFunction values)) := by
  rw [run_render_ofFunction, ← find?_lacks_eq_none_iff]
  cases t.placeholders.find? (Placeholder.lacks values) <;> simp [eq_comm]

end Template

end TextTemplate
