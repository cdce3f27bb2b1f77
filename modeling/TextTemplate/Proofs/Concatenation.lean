/-
TextTemplate.Proofs.Concatenation — reading a source behind an accepted one.

What is read of `b` does not depend on an accepted `a` in front of it, and
`a` is read as if it were alone, as long as no bare name at the end of `a`
goes on into `b`. The segments of `a ++ b` are those of `a` and behind them
those of `b`, as many bytes further on; only a literal that ends `a` and one
that begins `b` are one literal (`joined`). The errors are those of `b`, each
moved to where it now stands on the page (`SyntaxError.behind`).

At the seam everything has to be over: an escape, a brace, a name. In tokens
that is one condition on the last of them, and `Reads.tokenizes_append` has
it already. What is left is to see how segments, errors and rendered texts
go over `++`.
-/
import TextTemplate.Proofs.Substitution
import TextTemplate.Proofs.Tiling

namespace TextTemplate

/-! ## Moving and joining -/

/-- A segment some bytes further on. -/
def Segment.shift (bytes : Nat) (s : Segment) : Segment :=
  s.withSpan ⟨s.span.start + bytes, s.span.stop + bytes⟩

/-- Segments and the segments behind them. A literal goes on in a literal. -/
def joined : List Segment → List Segment → List Segment
  | [], us => us
  | [.literal text a], .literal more b :: us => .literal (text ++ more) ⟨a.start, b.stop⟩ :: us
  | s :: ss, us => s :: joined ss us

/-- The error of a source where the source stands behind a text: on its
first line there is the last line of the text in front of it. -/
def SyntaxError.behind (text : String) (e : SyntaxError) : SyntaxError where
  kind := e.kind
  position := e.position + text.utf8ByteSize
  opened := e.opened + text.utf8ByteSize
  line := e.line + text.toList.count '\n'
  column := if e.line = 1 then e.column + (lastLine text.toList).length else e.column

/-- The last of the segments is a bare placeholder. -/
def EndsBare (ss : List Segment) : Prop :=
  ∃ p, ss.getLast? = some (.placeholder p) ∧ p.style = .bare

/-! ## Segments -/

theorem segmentsFrom_shift (ts : List Token) (offset bytes : Nat) :
    segmentsFrom (offset + bytes) ts = (segmentsFrom offset ts).map (Segment.shift bytes) := by
  induction ts using run_induction generalizing offset with
  | nil => simp
  | placeholder style name rest ih =>
    rw [segmentsFrom_placeholder, segmentsFrom_placeholder, List.map_cons, ← ih,
      Nat.add_right_comm]
    rfl
  | run run rest hne hrun hrest ih =>
    rw [segmentsFrom_append_run _ hne hrun hrest, segmentsFrom_append_run _ hne hrun hrest,
      List.map_cons, ← ih, Nat.add_right_comm]
    rfl

theorem joined_placeholder (p : Placeholder) (ss us : List Segment) :
    joined (.placeholder p :: ss) us = .placeholder p :: joined ss us := by
  rw [joined]
  rintro _ _ _ _ _ _ ⟨⟩

theorem joined_cons_cons (s t : Segment) (ss us : List Segment) :
    joined (s :: t :: ss) us = s :: joined (t :: ss) us := by
  rw [joined]
  rintro _ _ _ _ _ _ _ ⟨⟩

/-- A run of text goes on in the tokens behind it. -/
theorem segmentsFrom_run_joined (offset : Nat) {run : List Token} (hne : run ≠ [])
    (hrun : ∀ t ∈ run, t.isText = true) (us : List Token) :
    segmentsFrom offset (run ++ us) =
      joined [.literal (String.ofList (textOf run)) ⟨offset, offset + byteLength (sourceOf run)⟩]
        (segmentsFrom (offset + byteLength (sourceOf run)) us) := by
  induction us using run_induction with
  | nil =>
    rw [segmentsFrom_append_run offset hne hrun endsRun_nil, segmentsFrom_nil]
    rfl
  | placeholder style name rest =>
    rw [segmentsFrom_append_run offset hne hrun (endsRun_placeholder style name rest),
      segmentsFrom_placeholder]
    rfl
  | run more rest hmorene hmore hrest =>
    have hboth : ∀ t ∈ run ++ more, t.isText = true := List.forall_mem_append.2 ⟨hrun, hmore⟩
    have hbothne : run ++ more ≠ [] := List.append_ne_nil_of_left_ne_nil hne more
    rw [← List.append_assoc, segmentsFrom_append_run offset hbothne hboth hrest,
      segmentsFrom_append_run _ hmorene hmore hrest, joined]
    simp [String.ofList_append, Nat.add_assoc]

/-- The segments of tokens behind tokens. -/
theorem segmentsFrom_append (ts us : List Token) (offset : Nat) :
    segmentsFrom offset (ts ++ us) =
      joined (segmentsFrom offset ts) (segmentsFrom (offset + byteLength (sourceOf ts)) us) := by
  induction ts using run_induction generalizing offset with
  | nil => simp [joined]
  | placeholder style name rest ih =>
    rw [List.cons_append, segmentsFrom_placeholder, segmentsFrom_placeholder, joined_placeholder,
      ih, sourceOf_cons, byteLength_append, Nat.add_assoc]
  | run run rest hne hrun hrest ih =>
    cases rest with
    | nil =>
      rw [segmentsFrom_append_run offset hne hrun hrest, segmentsFrom_nil, List.append_nil,
        segmentsFrom_run_joined offset hne hrun]
    | cons t rest =>
      -- the run ends at a placeholder, which shields it from what comes behind
      obtain ⟨style, name, rfl⟩ := Token.eq_placeholder_of_isText (hrest t rfl)
      rw [List.append_assoc, List.cons_append,
        segmentsFrom_append_run offset hne hrun (endsRun_placeholder style name _),
        segmentsFrom_append_run offset hne hrun hrest, ← List.cons_append, ih, sourceOf_append,
        byteLength_append, Nat.add_assoc]
      rw [segmentsFrom_placeholder, joined_cons_cons]

/-! ## Errors -/

theorem Token.error?_append (text : String) (before : List Char) (t : Token) :
    t.error? (text.toList ++ before) = (t.error? before).map (SyntaxError.behind text) := by
  cases t with
  | stray kind read =>
    have hline : before.count '\n' + 1 = 1 ↔ '\n' ∉ before := by
      rw [Nat.add_eq_right, List.count_eq_zero]
    simp only [error?, Option.map_some, SyntaxError.behind, Location.behind, byteLength_append,
      byteLength_toList, List.count_append, lastLine_append, hline]
    by_cases hmem : '\n' ∈ before
    · simp [hmem]
      omega
    · simp [hmem]
      omega
  | _ => rfl

/-- The errors of tokens behind a text are those of the tokens, moved. -/
theorem errorsFrom_behind (text : String) (before : List Char) (ts : List Token) :
    errorsFrom (text.toList ++ before) ts =
      (errorsFrom before ts).map (SyntaxError.behind text) := by
  induction ts generalizing before with
  | nil => rfl
  | cons t ts ih =>
    rw [errorsFrom, errorsFrom, List.map_append, ← ih, List.append_assoc, Token.error?_append]
    cases t.error? before <;> rfl

/-! ## Rendered texts -/

section

variable {m : Type → Type} [Monad m] [MonadLog m] [LawfulMonad m]

theorem fillTokens_append (lookup : Lookup m) (ts us : List Token) :
    fillTokens lookup (ts ++ us) = do
      return (← fillTokens lookup ts) ++ (← fillTokens lookup us) := by
  induction ts with
  | nil => simp only [List.nil_append, fillTokens, pure_bind, String.empty_append, bind_pure]
  | cons t ts ih =>
    rw [List.cons_append, fillTokens, fillTokens, ih]
    simp only [bind_assoc, pure_bind, String.append_assoc]

end

/-! ## The seam -/

/-- Where the last segment is no bare placeholder or the text does not begin
like the rest of a name, the last token ends in front of the text. -/
theorem ends_of_seam {ts : List Token} {rest : List Char}
    (h : ¬ EndsBare (segmentsFrom 0 ts) ∨ Identifier.Stops rest) :
    ∀ t ∈ ts.getLast?, t.Ends rest := by
  intro t ht
  rcases h with h | h
  · cases t with
    | placeholder style name =>
      cases style with
      | braced => trivial
      | bare =>
        obtain ⟨init, rfl⟩ := List.getLast?_eq_some_iff.1 ht
        rw [segmentsFrom_append_placeholder, segmentsFrom_placeholder, segmentsFrom_nil] at h
        exact absurd ⟨_, List.getLast?_concat, rfl⟩ h
    | _ => trivial
  · exact Token.ends_of_stops h t

namespace Template

/-- **Sources behind sources**: behind an accepted source whose last name
stops there, a source is read as it is read alone, some bytes further on. -/
theorem salvage_append {a b : String} {t : Template} (h : parse a = .ok t)
    (hseam : ¬ EndsBare t.segments ∨ Identifier.Stops b.toList) :
    (salvage (a ++ b)).segments =
        joined t.segments ((salvage b).segments.map (Segment.shift a.utf8ByteSize)) ∧
      (salvage (a ++ b)).errors = (salvage b).errors.map (SyntaxError.behind a) ∧
      ((∃ u, parse (a ++ b) = .ok u) ↔ ∃ u, parse b = .ok u) ∧
      ∀ (m : Type → Type) [Monad m] [MonadLog m] [LawfulMonad m] (lookup : Lookup m),
        (salvage (a ++ b)).renderPartial lookup = do
          return (← t.renderPartial lookup) ++ (← (salvage b).renderPartial lookup) := by
  have hstray := exists_parse_eq_ok_iff.1 ⟨t, h⟩
  obtain rfl := eq_salvage_of_parse h
  have hreads := reads_iff.2 ⟨rfl, hstray⟩
  have htokens : tokens (a ++ b).toList = tokens a.toList ++ tokens b.toList := by
    rw [salvage_eq] at hseam
    rw [String.toList_append]
    exact (Reads.tokenizes_append (tokenizes_tokens b.toList) hreads (ends_of_seam hseam)).tokens_eq
  refine ⟨?_, ?_, ?_, fun m _ _ _ lookup => ?_⟩
  · rw [salvage_eq, salvage_eq, salvage_eq, htokens, segmentsFrom_append, hreads.source_eq,
      byteLength_toList, segmentsFrom_shift]
  · rw [salvage_eq, salvage_eq, htokens, errorsFrom_append, hreads.source_eq,
      (errorsFrom_eq_nil_iff []).2 hstray, ← errorsFrom_behind]
    simp
  · rw [exists_parse_eq_ok_iff, exists_parse_eq_ok_iff, htokens, List.forall_mem_append]
    exact and_iff_right hstray
  · rw [renderPartial_salvage, renderPartial_salvage, renderPartial_salvage, htokens,
      fillTokens_append]

/-- A literal that goes on over the seam, and errors on the line of the seam
and on the next. -/
theorem salvage_append_two_lines :
    (salvage ("é\n$x$$" ++ "$$ $\x7by\n$")).segments =
        [.literal "é\n" ⟨0, 3⟩, .placeholder ⟨"x", .bare, ⟨3, 5⟩⟩,
          .literal "$$ $\x7by\n$" ⟨5, 15⟩] ∧
      (salvage ("é\n$x$$" ++ "$$ $\x7by\n$")).errors =
        [⟨.unterminatedBrace, 13, 10, 2, 11⟩, ⟨.invalidPlaceholder, 15, 14, 3, 2⟩] := by
  have hparse : parse "é\n$x$$" = .ok ⟨"é\n$x$$",
      [.literal "é\n" ⟨0, 3⟩, .placeholder ⟨"x", .bare, ⟨3, 5⟩⟩, .literal "$" ⟨5, 7⟩], []⟩ := by
    decide +kernel
  obtain ⟨hsegments, herrors, -⟩ := salvage_append (b := "$$ $\x7by\n$") hparse (.inr (by decide))
  rw [hsegments, herrors]
  exact ⟨by decide +kernel, by decide +kernel⟩

end Template

end TextTemplate
