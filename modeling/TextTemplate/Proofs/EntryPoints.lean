/-
TextTemplate.Proofs.EntryPoints — the ways to render agree.

A source can be parsed or salvaged, rendered strictly, leniently or
partially, or filled at once. They differ in what becomes of a malformed
placeholder and of one without a value, and in nothing else:

* what is left standing under one policy is left standing under the other
  name for it, in every monad (`render_lenient`);
* a strict render fails for the first placeholder in the source that has no
  value, and where it does not fail its text is that of a partial one
  (`run_render_ofFunction`);
* filling fails for the first malformed placeholder, whatever has a value,
  and is a strict render where there is none (`run_fill`).

"First" is a matter of the source. That the list of placeholders has the
order of the source is a consequence of the segments lying side by side.
-/
import TextTemplate.Proofs.Rendering
import TextTemplate.Proofs.Tiling
import TextTemplate.Proofs.Values

namespace TextTemplate

namespace Template

/-- The placeholder has no value, and none in front of it in the source is
without one. -/
structure FirstLacking (values : String → Option String) (t : Template) (p : Placeholder) :
    Prop where
  mem : p ∈ t.placeholders
  lacks : values p.name = none
  first : ∀ q ∈ t.placeholders, values q.name = none → p.span.start ≤ q.span.start

/-! ## The order of the source -/

/-- Placeholders are listed as they stand in the source. -/
theorem pairwise_placeholders {source : String} {t : Template}
    (h : parse source = .ok t ∨ t = salvage source) :
    t.placeholders.Pairwise fun p q => p.span.start < q.span.start := by
  obtain rfl : t = salvage source := h.elim eq_salvage_of_parse id
  have hsegments : (salvage source).segments.Pairwise fun a b => a.span.start < b.span.start := by
    rw [salvage_eq]
    exact (tiles_segmentsFrom (tokens source.toList) 0).pairwise
  refine hsegments.filterMap Segment.placeholder? ?_
  intro a b hab p hp q hq
  cases a with
  | literal => cases hp
  | placeholder =>
    cases b with
    | literal => cases hq
    | placeholder =>
      cases hp
      cases hq
      exact hab

/-- The first in the list is the first in the source. -/
theorem find?_lacks_eq_some_iff {t : Template} {values : String → Option String} {p : Placeholder}
    (h : t.placeholders.Pairwise fun p q => p.span.start < q.span.start) :
    t.placeholders.find? (Placeholder.lacks values) = some p ↔ FirstLacking values t p := by
  have hlacks (q : Placeholder) : q.lacks values = true ↔ values q.name = none :=
    Option.isNone_iff_eq_none
  rw [List.find?_eq_some_iff_append]
  constructor
  · rintro ⟨hp, front, back, hsplit, hfront⟩
    rw [hsplit, List.pairwise_append, List.pairwise_cons] at h
    refine ⟨by simp [hsplit], (hlacks p).1 hp, ?_⟩
    intro q hq hnone
    rw [hsplit, List.mem_append, List.mem_cons] at hq
    rcases hq with hq | rfl | hq
    · have := hfront q hq
      rw [(hlacks q).2 hnone] at this
      cases this
    · exact Nat.le_refl _
    · exact Nat.le_of_lt (h.2.1.1 q hq)
  · intro hp
    obtain ⟨front, back, hsplit⟩ := List.append_of_mem hp.mem
    refine ⟨(hlacks p).2 hp.lacks, front, back, hsplit, ?_⟩
    intro q hq
    have hlt : q.span.start < p.span.start := by
      rw [hsplit, List.pairwise_append] at h
      exact h.2.2 q hq p List.mem_cons_self
    -- one in front without a value would begin further on
    rw [Bool.not_eq_true', ← Bool.not_eq_true, hlacks]
    intro hnone
    have := hp.first q (by simp [hsplit, hq]) hnone
    omega

/-! ## Leaving -/

section

variable {m : Type → Type} [Monad m] [MonadLog m] [LawfulMonad m]

/-- Nothing stops a render that leaves what has no value. -/
theorem emit_leave (lookup : Lookup m) (ss : List Segment) (out : String) :
    emit lookup .leave ss out =
      (fun written => (written, none)) <$> Prod.fst <$> emit lookup .leave ss out := by
  induction ss generalizing out with
  | nil => simp [emit]
  | cons s ss ih =>
    cases s with
    | literal text span => exact ih (out ++ text)
    | placeholder p =>
      rw [emit]
      simp only [map_bind]
      apply bind_congr
      intro answer
      cases answer with
      | some value => exact ih (out ++ value)
      | none =>
        simp only [map_bind]
        apply bind_congr
        intro _
        exact ih (out ++ p.written)

theorem render_lenient (t : Template) (lookup : Lookup m) :
    t.render lookup Options.lenient = Except.ok <$> t.renderPartial lookup := by
  rw [render, appendTo, renderPartial, Options.lenient, emit_leave]
  simp [Except.map]

end

/-! ## Failing -/

theorem run_render_eq_error_iff {source : String} {t : Template}
    (h : parse source = .ok t ∨ t = salvage source) {values : String → Option String}
    {e : MissingKey} :
    Id.run (t.render (Lookup.ofFunction values)) = .error e ↔
      ∃ p, FirstLacking values t p ∧ e = ⟨p.name⟩ := by
  simp only [← find?_lacks_eq_some_iff (pairwise_placeholders h)]
  rw [run_render_ofFunction]
  cases t.placeholders.find? (Placeholder.lacks values) <;> simp [eq_comm]

/-- A strict render that does not fail has no use for a fallback. -/
theorem render_orElse_of_ok {t : Template} {values : String → Option String} {text : String}
    (h : Id.run (t.render (Lookup.ofFunction values)) = .ok text) {m : Type → Type} [Monad m]
    [MonadLog m] [LawfulMonad m] (fallback : Lookup m) :
    t.render ((Lookup.ofFunction values).orElse fallback) = pure (.ok text) := by
  obtain ⟨hvalues, rfl⟩ := run_render_eq_ok_iff.1 h
  have hanswers : ∀ p ∈ t.placeholders,
      (Lookup.ofFunction values).orElse fallback p.name = Lookup.ofFunction values p.name := by
    intro p hp
    obtain ⟨value, hvalue⟩ := Option.ne_none_iff_exists'.1 (hvalues p hp)
    rw [orElse_ofFunction, Lookup.ofFunction, hvalue]
  rw [render_congr_lookup hanswers, render_ofFunction, find?_lacks_eq_none_iff.2 hvalues,
    renderPartial_ofFunction]
  simp

end Template

/-! ## Filling -/

theorem run_fill_of_parse {source : String} {t : Template} (h : Template.parse source = .ok t)
    (lookup : Lookup Id) :
    Id.run (fill source lookup) = (Id.run (t.render lookup)).mapError .missing := by
  rw [Template.parse] at h
  rw [fill, Id.run_bind, h]
  rfl

theorem run_fill_of_refused {source : String} {e : SyntaxError}
    (h : Template.parse source = .error e) (lookup : Lookup Id) :
    Id.run (fill source lookup) = .error (.malformed e) := by
  rw [Template.parse] at h
  rw [fill, Id.run_bind, h]
  rfl

/-- Filling fails for the first malformed placeholder. Where there is none it
is a strict render. -/
theorem run_fill (source : String) (lookup : Lookup Id) :
    Id.run (fill source lookup) =
      match (Template.salvage source).errors with
      | [] => (Id.run ((Template.salvage source).render lookup)).mapError .missing
      | e :: _ => .error (.malformed e) := by
  have hparse := Template.parse_eq_salvage source
  cases herrors : (Template.salvage source).errors with
  | nil =>
    rw [herrors] at hparse
    exact run_fill_of_parse hparse lookup
  | cons e rest =>
    rw [herrors] at hparse
    exact run_fill_of_refused hparse lookup

/-- Filling says what is malformed before it looks at a value. -/
theorem run_fill_eq_malformed_iff {source : String} {lookup : Lookup Id} {e : SyntaxError} :
    Id.run (fill source lookup) = .error (.malformed e) ↔
      (Template.salvage source).errors.head? = some e := by
  rw [run_fill]
  cases (Template.salvage source).errors with
  | nil => cases Id.run ((Template.salvage source).render lookup) <;> simp [Except.mapError]
  | cons first rest => simp

/-- What is filled is filled partially alike. -/
theorem run_fillPartial_of_fill {source : String} {values : String → Option String} {text : String}
    (h : Id.run (fill source (Lookup.ofFunction values)) = .ok text) :
    Id.run (fillPartial source (Lookup.ofFunction values)) = text := by
  have hpartial : Id.run (fillPartial source (Lookup.ofFunction values)) =
      Id.run ((Template.salvage source).renderPartial (Lookup.ofFunction values)) := rfl
  rw [run_fill] at h
  cases herrors : (Template.salvage source).errors with
  | cons first rest =>
    rw [herrors] at h
    cases h
  | nil =>
    rw [herrors] at h
    cases hrender : Id.run ((Template.salvage source).render (Lookup.ofFunction values)) with
    | error e =>
      rw [hrender] at h
      cases h
    | ok rendered =>
      rw [hrender] at h
      cases h
      rw [hpartial, (Template.run_render_eq_ok_iff.1 hrender).2]

namespace Template

/-- **The ways to render agree**: what is left standing is left standing
either way; a strict render fails for the first placeholder in the source
without a value and otherwise has the text of a partial one, whatever it
could fall back on; and filling fails for what is malformed first, is a
strict render where nothing is, and has the text of a partial one too. -/
theorem entry_points_agree {source : String} {t : Template}
    (h : parse source = .ok t ∨ t = salvage source) (values : String → Option String) :
    (∀ (m : Type → Type) [Monad m] [MonadLog m] [LawfulMonad m] (lookup : Lookup m),
      t.render lookup Options.lenient = Except.ok <$> t.renderPartial lookup ∧
        t.render lookup = t.render lookup Options.strict) ∧
    (∀ e, Id.run (t.render (Lookup.ofFunction values)) = .error e ↔
      ∃ p, FirstLacking values t p ∧ e = ⟨p.name⟩) ∧
    (∀ text, Id.run (t.render (Lookup.ofFunction values)) = .ok text ↔
      (∀ p ∈ t.placeholders, values p.name ≠ none) ∧
        text = Id.run (t.renderPartial (Lookup.ofFunction values))) ∧
    (∀ text, Id.run (t.render (Lookup.ofFunction values)) = .ok text →
      ∀ (m : Type → Type) [Monad m] [MonadLog m] [LawfulMonad m] (fallback : Lookup m),
        t.render ((Lookup.ofFunction values).orElse fallback) = pure (.ok text)) ∧
    (∀ e, Id.run (fill source (Lookup.ofFunction values)) = .error (.malformed e) ↔
      (salvage source).errors.head? = some e) ∧
    ((salvage source).errors = [] →
      Id.run (fill source (Lookup.ofFunction values)) =
        (Id.run (t.render (Lookup.ofFunction values))).mapError .missing) ∧
    ∀ text, Id.run (fill source (Lookup.ofFunction values)) = .ok text →
      Id.run (fillPartial source (Lookup.ofFunction values)) = text := by
  refine ⟨?_, fun e => run_render_eq_error_iff h, fun text => run_render_eq_ok_iff, ?_,
    fun e => run_fill_eq_malformed_iff, ?_, fun text => run_fillPartial_of_fill⟩
  · intro m _ _ _ lookup
    exact ⟨render_lenient t lookup, rfl⟩
  · intro text hok m _ _ _ fallback
    exact render_orElse_of_ok hok fallback
  · intro hnone
    obtain rfl : t = salvage source := h.elim eq_salvage_of_parse id
    rw [run_fill, hnone]

/-- Two placeholders without a value and a dollar sign that begins nothing,
which is what filling stops at though it comes last. -/
theorem entry_points_agree_two_missing :
    Id.run ((salvage "$a ü$b$\x7bc\x7d$").render (Lookup.ofPairs [("a", "1")])) = .error ⟨"b"⟩ ∧
      Id.run ((salvage "$a ü$b$\x7bc\x7d$").render (Lookup.ofPairs [("a", "1")])
        Options.lenient) = .ok "1 ü$b$\x7bc\x7d$" ∧
      Id.run (fill "$a ü$b$\x7bc\x7d$" (Lookup.ofPairs [("a", "1")])) =
        .error (.malformed ⟨.invalidPlaceholder, 12, 11, 1, 12⟩) := by
  obtain ⟨hlenient, herror, -, -, hfill, -, -⟩ :=
    @entry_points_agree "$a ü$b$\x7bc\x7d$" (salvage "$a ü$b$\x7bc\x7d$") (.inr rfl)
      fun name => [("a", "1")].lookup name
  have hfirst : FirstLacking (fun name => [("a", "1")].lookup name)
      (salvage "$a ü$b$\x7bc\x7d$") ⟨"b", .bare, ⟨5, 7⟩⟩ :=
    ⟨by decide +kernel, by decide, by decide +kernel⟩
  refine ⟨(herror _).2 ⟨_, hfirst, rfl⟩, ?_, (hfill _).2 (by decide +kernel)⟩
  rw [(hlenient Id _).1]
  decide +kernel

end Template

end TextTemplate
