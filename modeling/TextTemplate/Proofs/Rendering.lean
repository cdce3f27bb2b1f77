/-
TextTemplate.Proofs.Rendering — what rendering looks at.

Every way to render is `emit` with something done about a placeholder that
stopped it, and of that only the name is used. So rendering depends on the
texts, the names and the styles of the segments and on nothing else: two
templates that differ in spans alone (`Segment.Same`) render alike, in every
monad, with the same questions asked and the same events logged.

Of a lookup it uses the answers for the names of the placeholders. Two
lookups that do the same for each of these do the same for a render
(`emit_congr_lookup`).

And it goes through the segments once, whatever the lookup does when it is
asked: a render is the traversal of the segments that ends with the first
failure (`render_eq_mapM`).
-/
import Mathlib.Data.List.Forall2
import TextTemplate.Render

namespace TextTemplate

/-- Two segments that differ in their spans at most. -/
inductive Segment.Same : Segment → Segment → Prop where
  | literal (text : String) (a b : Span) : Same (.literal text a) (.literal text b)
  | placeholder (name : String) (style : Style) (a b : Span) :
      Same (.placeholder ⟨name, style, a⟩) (.placeholder ⟨name, style, b⟩)

/-- Segments one for one the same but for their spans. -/
abbrev SameSegments (ss ts : List Segment) : Prop :=
  List.Forall₂ Segment.Same ss ts

/-- What a segment comes to: a text, or the failure it ends a render with. -/
def Segment.rendered {m : Type → Type} [Monad m] [MonadLog m] (lookup : Lookup m)
    (policy : Policy) : Segment → ExceptT MissingKey m String
  | .literal text _ => return text
  | .placeholder p => do
    match ← lookup p.name with
    | some value => return value
    | none =>
      match policy with
      | .fail =>
        MonadLog.log (.missing p.name)
        throw ⟨p.name⟩
      | .leave =>
        MonadLog.log (.left p.name)
        return p.written

namespace Template

/-! ## What is asked -/

section

variable {m : Type → Type} [Monad m] [MonadLog m] {lookup other : Lookup m}

/-- Only the names of the placeholders are asked for. -/
theorem emit_congr_lookup {ss : List Segment}
    (h : ∀ p ∈ ss.filterMap Segment.placeholder?, lookup p.name = other p.name) (policy : Policy)
    (out : String) : emit lookup policy ss out = emit other policy ss out := by
  induction ss generalizing out with
  | nil => rfl
  | cons s ss ih =>
    cases s with
    | literal text => exact ih h (out ++ text)
    | placeholder p =>
      obtain ⟨hp, hss⟩ := List.forall_mem_cons.1 h
      simp only [emit, hp, ih hss]

variable {t : Template} (h : ∀ p ∈ t.placeholders, lookup p.name = other p.name)

include h

theorem appendTo_congr_lookup (options : Options) (buffer : String) :
    t.appendTo lookup options buffer = t.appendTo other options buffer := by
  rw [appendTo, appendTo, emit_congr_lookup h]

theorem render_congr_lookup (options : Options) :
    t.render lookup options = t.render other options := by
  rw [render, render, appendTo_congr_lookup h]

theorem renderPartial_congr_lookup : t.renderPartial lookup = t.renderPartial other := by
  rw [renderPartial, renderPartial, emit_congr_lookup h]

end

/-! ## What is written -/

section

variable {m : Type → Type} [Monad m] [MonadLog m] [LawfulMonad m]

/-- What a caller of `emit` goes by: the text and the name it stopped at. -/
def outcome : String × Option Placeholder → String × Option String
  | (out, stopped) => (out, stopped.map Placeholder.name)

theorem emit_congr {ss ts : List Segment} (h : SameSegments ss ts) (lookup : Lookup m)
    (policy : Policy) (out : String) :
    outcome <$> emit lookup policy ss out = outcome <$> emit lookup policy ts out := by
  induction h generalizing out with
  | nil => rfl
  | cons hsame _ ih =>
    cases hsame with
    | literal text => exact ih (out ++ text)
    | placeholder name style a b =>
      rw [emit.eq_def, emit.eq_def lookup policy (.placeholder _ :: _), map_bind, map_bind]
      refine bind_congr fun answer => ?_
      cases answer with
      | some value => exact ih (out ++ value)
      | none =>
        cases policy with
        | fail => simp [outcome]
        | leave =>
          have hwritten : (Placeholder.mk name style a).written =
              (Placeholder.mk name style b).written := rfl
          simp only [map_bind, hwritten, ih]

/-- What `appendTo` makes of an outcome. -/
theorem appendTo_eq (t : Template) (lookup : Lookup m) (options : Options) (buffer : String) :
    t.appendTo lookup options buffer = (do
      match ← outcome <$> emit lookup options.missing t.segments buffer with
      | (out, none) => return (out, .ok ())
      | (out, some name) =>
        MonadLog.log (.missing name)
        return (truncate out buffer.utf8ByteSize, .error ⟨name⟩)) := by
  rw [appendTo, bind_map_left]
  refine bind_congr fun (out, stopped) => ?_
  cases stopped with
  | none => rfl
  | some p => rfl

theorem appendTo_congr {t u : Template} (h : SameSegments t.segments u.segments)
    (lookup : Lookup m) (options : Options) (buffer : String) :
    t.appendTo lookup options buffer = u.appendTo lookup options buffer := by
  rw [appendTo_eq, appendTo_eq, emit_congr h]

theorem render_congr {t u : Template} (h : SameSegments t.segments u.segments)
    (lookup : Lookup m) (options : Options) :
    t.render lookup options = u.render lookup options := by
  rw [render, render, appendTo_congr h]

theorem renderPartial_congr {t u : Template} (h : SameSegments t.segments u.segments)
    (lookup : Lookup m) : t.renderPartial lookup = u.renderPartial lookup := by
  have houtcome (t : Template) : t.renderPartial lookup =
      Prod.fst <$> outcome <$> emit lookup .leave t.segments "" := by
    rw [renderPartial, ← comp_map, map_eq_pure_bind]
    rfl
  rw [houtcome, houtcome, emit_congr h]

/-! ## In one traversal -/

/-- What a render makes of what is written: the text, unless a placeholder
stopped the writing. -/
def concluded : String × Option Placeholder → m (Except MissingKey String)
  | (written, none) => return .ok written
  | (_, some p) => do
    MonadLog.log (.missing p.name)
    return .error ⟨p.name⟩

theorem render_eq_concluded (t : Template) (lookup : Lookup m) (options : Options) :
    t.render lookup options = emit lookup options.missing t.segments "" >>= concluded := by
  rw [render, appendTo, bind_assoc]
  apply bind_congr
  intro r
  obtain ⟨written, stopped⟩ := r
  cases stopped <;> simp [concluded, Except.map]

omit [LawfulMonad m] in
theorem run_log_exceptT (event : Event) :
    (MonadLog.log event : ExceptT MissingKey m Unit).run =
      Except.ok <$> (MonadLog.log event : m Unit) :=
  rfl

theorem emit_bind_concluded (lookup : Lookup m) (policy : Policy) (ss : List Segment)
    (out : String) :
    emit lookup policy ss out >>= concluded =
      ((fun texts => out ++ String.join texts) <$>
        ss.mapM (Segment.rendered lookup policy)).run := by
  induction ss generalizing out with
  | nil => simp [emit, concluded, String.join_nil]
  | cons s ss ih =>
    cases s with
    | literal text span =>
      rw [emit, ih]
      simp [Segment.rendered, String.append_assoc]
    | placeholder p =>
      simp only [emit, bind_assoc, List.mapM_cons, Segment.rendered, bind_pure_comp, map_bind,
        Functor.map_map, String.join_cons, ExceptT.run_bind, ExceptT.run_liftM, ExceptT.run_map,
        bind_map_left]
      apply bind_congr
      intro answer
      cases answer with
      | some value => simp [ih, String.append_assoc]
      | none =>
        cases policy with
        | fail => simp [concluded, run_log_exceptT, ExceptT.run_bind]
        | leave => simp [ih, String.append_assoc, run_log_exceptT, Except.map]

/-- A render goes through the segments once and ends with the first failure. -/
theorem render_eq_mapM (t : Template) (lookup : Lookup m) (options : Options) :
    t.render lookup options =
      (String.join <$> t.segments.mapM (Segment.rendered lookup options.missing)).run := by
  rw [render_eq_concluded, emit_bind_concluded]
  simp only [String.empty_append]

end

end Template

end TextTemplate
