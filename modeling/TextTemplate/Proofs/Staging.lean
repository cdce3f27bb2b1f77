/-
TextTemplate.Proofs.Staging — rendering in two stages.

A template may be filled by halves: render what there are values for now,
keep the text, and render that text as a template later. That comes to the
same as rendering once with both lookups in layers, under three conditions.

* Values have no dollar sign, which would be read as one the second time.
* The source has no escape, which is collapsed the first time and would be
  gone the second.
* Behind a bare placeholder stands a literal or nothing. If a placeholder
  stood there, its value could go on with a name that was left in front of it.

The third is the only one that asks for a proof. A name that is left is
followed by what followed it in the source, so it ends where it ended then
(`Reads.resolved`). It does not matter what a value looks like, nor what it
stands in front of: an empty value, a brace, the letters of a name are text
the second time as well.

Both stages go by tokens. The first one makes text of some of them
(`Token.resolved`), and to write out what is left is to write out all of them
with the values at hand (`writeTokens_resolved`).
-/
import TextTemplate.Proofs.Identifiers
import TextTemplate.Proofs.Printing
import TextTemplate.Proofs.Substitution

namespace TextTemplate

/-! ## Placeholders as segments and as tokens -/

namespace Segment

/-- The segment is a placeholder without braces. -/
def isBare : Segment → Bool
  | .placeholder ⟨_, .bare, _⟩ => true
  | _ => false

/-- The second segment is no placeholder right behind a bare one. -/
def Apart (s t : Segment) : Prop :=
  s.isBare = true → t.isLiteral = true

instance : DecidableRel Apart :=
  fun s t => inferInstanceAs (Decidable (s.isBare = true → t.isLiteral = true))

end Segment

namespace Token

/-- The token is a placeholder without braces. -/
def isBare : Token → Bool
  | .placeholder .bare _ => true
  | _ => false

/-- The second token is no placeholder right behind a bare one. -/
def Apart (t u : Token) : Prop :=
  t.isBare = true → u.isText = true

theorem isBare_of_isText {t : Token} (h : t.isText = true) : t.isBare = false := by
  cases t with
  | placeholder => cases h
  | _ => rfl

/-- Only a bare name could go on into what follows. -/
theorem ends_of_isBare {t : Token} (h : t.isBare = false) (rest : List Char) : t.Ends rest := by
  cases t with
  | placeholder style =>
    cases style with
    | bare => cases h
    | braced => trivial
  | _ => trivial

end Token

theorem isChain_append_of_isText {run rest : List Token} (hrun : ∀ t ∈ run, t.isText = true)
    (hrest : rest.IsChain Token.Apart) : (run ++ rest).IsChain Token.Apart := by
  induction run with
  | nil => exact hrest
  | cons t run ih =>
    obtain ⟨ht, hrun⟩ := List.forall_mem_cons.1 hrun
    rw [List.cons_append, List.isChain_cons]
    refine ⟨?_, ih hrun⟩
    intro u _ hbare
    rw [Token.isBare_of_isText ht] at hbare
    cases hbare

/-- Where no placeholder stands right behind a bare one among the segments,
none does among the tokens. -/
theorem isChain_of_segmentsFrom {ts : List Token} {offset : Nat}
    (h : (segmentsFrom offset ts).IsChain Segment.Apart) : ts.IsChain Token.Apart := by
  induction ts using run_induction generalizing offset with
  | nil => exact .nil
  | placeholder style name rest ih =>
    rw [segmentsFrom_placeholder, List.isChain_cons] at h
    obtain ⟨hnext, hrest⟩ := h
    rw [List.isChain_cons]
    refine ⟨?_, ih hrest⟩
    intro u hu hbare
    cases style with
    | braced => cases hbare
    | bare =>
      cases htext : u.isText with
      | true => rfl
      | false =>
        obtain ⟨style, name, rfl⟩ := Token.eq_placeholder_of_isText htext
        obtain ⟨more, rfl⟩ := List.head?_eq_some_iff.1 hu
        rw [segmentsFrom_placeholder] at hnext
        cases hnext _ rfl rfl
  | run run rest hne hrun hrest ih =>
    rw [segmentsFrom_append_run offset hne hrun hrest, List.isChain_cons] at h
    exact isChain_append_of_isText hrun (ih h.2)

/-! ## Writing out tokens -/

section

variable {m : Type → Type} [Monad m] [MonadLog m]

/-- Write tokens behind `out`. Gives what is written then and the name
without a value that ended it, if one did. -/
def writeTokens (lookup : Lookup m) (policy : Policy) :
    List Token → String → m (String × Option String)
  | [], out => return (out, none)
  | .placeholder style name :: ts, out => do
    match ← lookup name with
    | some value => writeTokens lookup policy ts (out ++ value)
    | none =>
      match policy with
      | .fail => return (out, some name)
      | .leave =>
        MonadLog.log (.left name)
        writeTokens lookup policy ts (out ++ String.ofList (Token.placeholder style name).written)
  | t :: ts, out => writeTokens lookup policy ts (out ++ String.ofList t.text)

theorem writeTokens_run (lookup : Lookup m) (policy : Policy) {run : List Token}
    (h : ∀ t ∈ run, t.isText = true) (ts : List Token) (out : String) :
    writeTokens lookup policy (run ++ ts) out =
      writeTokens lookup policy ts (out ++ String.ofList (textOf run)) := by
  induction run generalizing out with
  | nil => simp
  | cons t run ih =>
    obtain ⟨ht, hrun⟩ := List.forall_mem_cons.1 h
    rw [List.cons_append]
    cases t with
    | placeholder => cases ht
    | _ =>
      rw [writeTokens, ih hrun]
      · simp [String.ofList_append, String.append_assoc]
      · rintro _ _ ⟨⟩

variable [LawfulMonad m]

/-- What a render comes to is told by the tokens. -/
theorem outcome_emit_segmentsFrom (lookup : Lookup m) (policy : Policy) (ts : List Token)
    (offset : Nat) (out : String) :
    Template.outcome <$> Template.emit lookup policy (segmentsFrom offset ts) out =
      writeTokens lookup policy ts out := by
  induction ts using run_induction generalizing offset out with
  | nil => simp [Template.emit, writeTokens, Template.outcome]
  | placeholder style name rest ih =>
    rw [segmentsFrom_placeholder]
    generalize Span.mk offset _ = span
    have hwritten := (Placeholder.mk name style span).ofList_written
    simp only [Template.emit, writeTokens, map_bind]
    apply bind_congr
    intro answer
    cases answer with
    | some value => exact ih _ _
    | none =>
      cases policy with
      | fail => simp [Template.outcome]
      | leave => simp [hwritten, ih]
  | run run rest hne hrun hrest ih =>
    rw [segmentsFrom_append_run offset hne hrun hrest, Template.emit, ih,
      writeTokens_run lookup policy hrun]

/-- Templates that write out the same render the same. -/
theorem Template.render_congr_writeTokens {ts us : List Token} {t u : Template}
    (ht : t.segments = segmentsFrom 0 ts) (hu : u.segments = segmentsFrom 0 us)
    {first second : Lookup m} {options : Options}
    (h : writeTokens first options.missing ts "" = writeTokens second options.missing us "") :
    t.render first options = u.render second options := by
  rw [render, render, appendTo_eq, appendTo_eq, ht, hu, outcome_emit_segmentsFrom,
    outcome_emit_segmentsFrom, h]

end

/-! ## The first stage -/

/-- A token as it is left by the first stage: the text of its value, if it is
a placeholder that has one. -/
def Token.resolved (values : String → Option String) : Token → List Token
  | .placeholder style name =>
    match values name with
    | some value => value.toList.map Token.ofChar
    | none => [.placeholder style name]
  | t => [t]

section

variable {values : String → Option String}

theorem Token.resolved_of_isText {t : Token} (h : t.isText = true) : t.resolved values = [t] := by
  cases t with
  | placeholder => cases h
  | _ => rfl

/-- What is left by the first stage is read as it was left. -/
theorem Reads.resolved {ts : List Token} {text : List Char} (h : Reads ts text)
    (hapart : ts.IsChain Token.Apart) :
    Reads (ts.flatMap (Token.resolved values)) (sourceOf (ts.flatMap (Token.resolved values))) := by
  induction ts generalizing text with
  | nil => exact reads_nil
  | cons t ts ih =>
    obtain ⟨htproper, hproper⟩ := List.forall_mem_cons.1 h.proper
    obtain ⟨hends, hgreedy⟩ := h.greedy
    obtain ⟨hnext, hchain⟩ := List.isChain_cons.1 hapart
    have hmore := ih ⟨hproper, hgreedy, rfl⟩ hchain
    -- a token that stays is still followed by what ended it
    have hstay (hself : t.resolved values = [t]) :
        Reads ((t :: ts).flatMap (Token.resolved values))
          (sourceOf ((t :: ts).flatMap (Token.resolved values))) := by
      have hfar : t.Ends (sourceOf (ts.flatMap (Token.resolved values))) := by
        cases hbare : t.isBare with
        | false => exact Token.ends_of_isBare hbare _
        | true =>
          cases ts with
          | nil => exact hends
          | cons u ts =>
            obtain ⟨c, more, hwritten⟩ := List.exists_cons_of_ne_nil u.written_ne_nil
            rw [List.flatMap_cons, Token.resolved_of_isText (hnext u rfl hbare)]
            exact hends.of_head? (by simp [hwritten])
      rw [List.flatMap_cons, hself, List.singleton_append, sourceOf_cons]
      exact hmore.cons htproper hfar
    cases t with
    | placeholder style name =>
      cases hvalue : values name with
      | none => exact hstay (by simp [Token.resolved, hvalue])
      | some value =>
        have htext := hmore.append_text value.toList
        simpa [Token.resolved, hvalue] using htext
    | _ => exact hstay rfl

/-- A text without a dollar sign is written as it is. -/
theorem sourceOf_map_ofChar {cs : List Char} (h : '$' ∉ cs) :
    sourceOf (cs.map Token.ofChar) = cs := by
  induction cs with
  | nil => rfl
  | cons c cs ih =>
    rw [List.mem_cons, not_or] at h
    rw [List.map_cons, sourceOf_cons, Token.written_ofChar, if_neg (Ne.symm h.1), ih h.2]
    rfl

/-- Where neither an escape nor a value brings in a dollar sign, the text of
the first stage is what is left by it. -/
theorem fillTokens_eq_sourceOf {ts : List Token} (hescape : .escape ∉ ts)
    (hplain : ∀ style name, .placeholder style name ∈ ts → ∀ value ∈ values name,
      '$' ∉ value.toList) :
    Id.run (fillTokens (Lookup.ofFunction values) ts) =
      String.ofList (sourceOf (ts.flatMap (Token.resolved values))) := by
  induction ts with
  | nil => rfl
  | cons t ts ih =>
    rw [List.mem_cons, not_or] at hescape
    have hmore := ih hescape.2 fun style name hmem =>
      hplain style name (List.mem_cons_of_mem t hmem)
    have hfirst : Id.run (t.fill (Lookup.ofFunction values)) =
        String.ofList (sourceOf (t.resolved values)) := by
      cases t with
      | escape => exact absurd rfl hescape.1
      | placeholder style name =>
        have hwritten := (Placeholder.mk name style ⟨0, 0⟩).ofList_written
        have hfill := Token.fill_placeholder (m := Id) (Lookup.ofFunction values)
          ⟨name, style, ⟨0, 0⟩⟩
        rw [hfill, valueOr, Lookup.ofFunction]
        cases hvalue : values name with
        | none => simp [Token.resolved, hvalue, hwritten]
        | some value =>
          have hvalueplain := hplain style name List.mem_cons_self value hvalue
          simp [Token.resolved, hvalue, sourceOf_map_ofChar hvalueplain]
      | _ => simp [Token.fill, Token.resolved, Token.text, Token.written]
    rw [List.flatMap_cons, sourceOf_append, String.ofList_append, ← hfirst, ← hmore]
    rfl

/-! ## The second stage -/

variable {m : Type → Type} [Monad m] [LawfulMonad m] [MonadLog m]

/-- To write out what is left is to write out all of it with the values at
hand. -/
theorem writeTokens_resolved (second : Lookup m) (policy : Policy) (ts : List Token)
    (out : String) :
    writeTokens second policy (ts.flatMap (Token.resolved values)) out =
      writeTokens ((Lookup.ofFunction values).orElse second) policy ts out := by
  induction ts generalizing out with
  | nil => rfl
  | cons t ts ih =>
    cases htext : t.isText with
    | true =>
      have hone : ∀ u ∈ [t], u.isText = true := by simpa using htext
      have hfirst := writeTokens_run ((Lookup.ofFunction values).orElse second) policy hone ts out
      rw [List.singleton_append] at hfirst
      rw [List.flatMap_cons, Token.resolved_of_isText htext, writeTokens_run second policy hone,
        ih, hfirst]
    | false =>
      obtain ⟨style, name, rfl⟩ := Token.eq_placeholder_of_isText htext
      simp only [List.flatMap_cons, writeTokens, orElse_ofFunction]
      cases hvalue : values name with
      | some value =>
        have hrun : ∀ u ∈ value.toList.map Token.ofChar, u.isText = true := by
          simp [Token.isText_ofChar]
        rw [Token.resolved, hvalue]
        simp [writeTokens_run second policy hrun, textOf_map_ofChar, ih]
      | none =>
        simp only [Token.resolved, hvalue, List.singleton_append, writeTokens]
        apply bind_congr
        intro answer
        cases answer with
        | some value => exact ih _
        | none =>
          cases policy with
          | fail => rfl
          | leave =>
            apply bind_congr
            intro _
            exact ih _

end

namespace Template

/-- **Rendering in stages**: without an escape in the source, without a
dollar sign in the values of the first stage, and with every bare placeholder
in front of a literal or at the end, the text of the first stage is a
template, and to render it is to render the one at the beginning with both
lookups in layers. -/
theorem render_renderPartial {source : String} {t : Template} (h : parse source = .ok t)
    (hescape : ¬ ['$', '$'] <:+: source.toList) (hapart : t.segments.IsChain Segment.Apart)
    {values : String → Option String}
    (hplain : ∀ name ∈ t.identifiers, ∀ value ∈ values name, '$' ∉ value.toList) :
    ∃ u, parse (Id.run (t.renderPartial (Lookup.ofFunction values))) = .ok u ∧
      ∀ (m : Type → Type) [Monad m] [MonadLog m] [LawfulMonad m] (second : Lookup m)
        (options : Options),
        u.render second options =
          t.render ((Lookup.ofFunction values).orElse second) options := by
  have hreads := reads_iff.2 ⟨rfl, exists_parse_eq_ok_iff.1 ⟨t, h⟩⟩
  obtain rfl := eq_salvage_of_parse h
  have hsegments : (salvage source).segments = segmentsFrom 0 (tokens source.toList) := by
    rw [salvage_eq]
  have hnone : .escape ∉ tokens source.toList := by
    intro hmem
    obtain ⟨pre, post, hsplit⟩ := List.append_of_mem hmem
    apply hescape
    rw [← hreads.source_eq, hsplit]
    exact ⟨sourceOf pre, sourceOf post, by simp [Token.written]⟩
  have htext : Id.run ((salvage source).renderPartial (Lookup.ofFunction values)) =
      String.ofList (sourceOf ((tokens source.toList).flatMap (Token.resolved values))) := by
    rw [renderPartial_salvage]
    apply fillTokens_eq_sourceOf hnone
    intro style name hmem
    exact hplain name (mem_identifiers_salvage hmem)
  rw [hsegments] at hapart
  have hleft : Reads ((tokens source.toList).flatMap (Token.resolved values))
      (Id.run ((salvage source).renderPartial (Lookup.ofFunction values))).toList := by
    rw [htext, String.toList_ofList]
    exact hreads.resolved (isChain_of_segmentsFrom hapart)
  refine ⟨_, parse_eq_ok_of_reads hleft, ?_⟩
  intro m _ _ _ second options
  exact render_congr_writeTokens rfl hsegments (writeTokens_resolved second options.missing _ "")

/-- A value that looks like more of a name and like a brace, beside names
that are left in either style. -/
theorem render_renderPartial_beside_names :
    ∃ u, parse "é$\x7ba\x7d$c.$\x7bc\x7d$\x7ba\x7d" =
        .ok (salvage "é$\x7ba\x7d$c.$\x7bc\x7d$\x7ba\x7d") ∧
      parse "é_1\x7b$c.$\x7bc\x7d_1\x7b" = .ok u ∧
      Id.run (u.render (Lookup.ofPairs [("a", "?"), ("c", "$")])) = .ok "é_1\x7b$.$_1\x7b" ∧
      Id.run (u.render (Lookup.ofPairs [])) = .error ⟨"c"⟩ := by
  have hparse : parse "é$\x7ba\x7d$c.$\x7bc\x7d$\x7ba\x7d" =
      .ok (salvage "é$\x7ba\x7d$c.$\x7bc\x7d$\x7ba\x7d") := by decide +kernel
  have hplain : ∀ name ∈ (salvage "é$\x7ba\x7d$c.$\x7bc\x7d$\x7ba\x7d").identifiers,
      ∀ value ∈ [("a", "_1\x7b")].lookup name, '$' ∉ value.toList := by decide +kernel
  obtain ⟨u, hu, hrender⟩ :=
    render_renderPartial hparse (by decide +kernel) (by decide +kernel) hplain
  have htext : Id.run ((salvage "é$\x7ba\x7d$c.$\x7bc\x7d$\x7ba\x7d").renderPartial
      (Lookup.ofFunction fun name => [("a", "_1\x7b")].lookup name)) =
      "é_1\x7b$c.$\x7bc\x7d_1\x7b" := by decide +kernel
  rw [htext] at hu
  refine ⟨u, hparse, hu, ?_, ?_⟩
  · rw [hrender Id]
    decide +kernel
  · rw [hrender Id]
    decide +kernel

end Template

end TextTemplate
