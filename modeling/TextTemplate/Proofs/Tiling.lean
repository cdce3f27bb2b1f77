/-
TextTemplate.Proofs.Tiling — the segments of a template lie end to end over
its source.

`Tiles` is the arithmetic of it: spans that follow one another from the
first byte to the last, none of them empty. `Segment.Covers` is what a
segment says about the bytes under its span: a placeholder is what was
written, and a literal is what was written with its escapes collapsed.
`collapse` is the plain replacement of pairs of dollar signs, left to right,
and knows nothing of tokens.

Only the last is more than bookkeeping. A stray dollar sign is kept in a
literal as it is, and if another one came behind it `collapse` would pair
the two up. None does: what makes a dollar sign stray is never a dollar
sign (`Token.Begins.head?_ne_dollar`).

Everything here goes for both ways to read a source, since a template that
was parsed is the one that would have been salvaged.
-/
import Mathlib.Data.List.Chain
import TextTemplate.Proofs.Grammar

namespace TextTemplate

/-! ## What is to be said -/

/-- Spans that lie end to end from one offset to another, none of them
empty. -/
inductive Tiles : (start : Nat) → List Segment → (stop : Nat) → Prop where
  | nil (offset : Nat) : Tiles offset [] offset
  | cons {s : Segment} {ss : List Segment} {start stop : Nat} (hstart : s.span.start = start)
      (hpos : start < s.span.stop) (rest : Tiles s.span.stop ss stop) : Tiles start (s :: ss) stop

/-- A text with each pair of dollar signs, from the left and without
overlap, made one. -/
def collapse : List Char → List Char
  | '$' :: '$' :: rest => '$' :: collapse rest
  | c :: rest => c :: collapse rest
  | [] => []

namespace Segment

def isLiteral : Segment → Bool
  | .literal .. => true
  | .placeholder _ => false

/-- A segment and the part of the source under its span. -/
def Covers (source : String) : Segment → Prop
  | .literal text span =>
    text ≠ "" ∧ ∃ part, span.cut? source = some part ∧ text = String.ofList (collapse part.toList)
  | .placeholder p =>
    p.span.cut? source = some p.written ∧ Identifier.isName p.name = true ∧
      (p.style = .bare →
        ∀ unit ∈ unitAt? source p.span.stop, Identifier.isContinue unit = false)

theorem Covers.fits {source : String} {s : Segment} (h : s.Covers source) : s.span.Fits source := by
  rw [← Span.cut?_isSome_iff]
  cases s with
  | literal text span =>
    obtain ⟨-, part, hcut, -⟩ := h
    exact Option.isSome_of_mem hcut
  | placeholder p => exact Option.isSome_of_mem h.1

/-- The second segment may stand right behind the first: literals stand
apart, and a bare name is not made longer. -/
def MayPrecede : Segment → Segment → Prop
  | .literal .., .literal .. => False
  | .placeholder p, .literal text _ => p.style = .bare → Identifier.Stops text.toList
  | _, .placeholder _ => True

instance : DecidableRel MayPrecede
  | .literal .., .literal .. => inferInstanceAs (Decidable False)
  | .placeholder p, .literal text _ =>
    inferInstanceAs (Decidable (p.style = .bare → Identifier.Stops text.toList))
  | .literal .., .placeholder _ => inferInstanceAs (Decidable True)
  | .placeholder _, .placeholder _ => inferInstanceAs (Decidable True)

end Segment

/-! ## Spans -/

theorem tiles_segmentsFrom (ts : List Token) (offset : Nat) :
    Tiles offset (segmentsFrom offset ts) (offset + byteLength (sourceOf ts)) := by
  induction ts using run_induction generalizing offset with
  | nil =>
    rw [segmentsFrom_nil]
    exact .nil offset
  | placeholder style name rest ih =>
    have hpos := byteLength_pos (Token.placeholder style name).written_ne_nil
    rw [segmentsFrom_placeholder, sourceOf_cons, byteLength_append, ← Nat.add_assoc]
    exact .cons rfl (Nat.lt_add_of_pos_right hpos) (ih _)
  | run run rest hne hrun hrest ih =>
    have hpos := byteLength_sourceOf_pos hne
    rw [segmentsFrom_append_run offset hne hrun hrest, sourceOf_append, byteLength_append,
      ← Nat.add_assoc]
    exact .cons rfl (Nat.lt_add_of_pos_right hpos) (ih _)

theorem Tiles.le {start stop : Nat} {ss : List Segment} (h : Tiles start ss stop) :
    start ≤ stop := by
  induction h with
  | nil => exact Nat.le_refl _
  | cons _ hpos _ ih => omega

/-- Only where there is nothing to cover there are no segments. -/
theorem Tiles.eq_nil_iff {start stop : Nat} {ss : List Segment} (h : Tiles start ss stop) :
    ss = [] ↔ start = stop := by
  cases h with
  | nil => simp
  | cons _ hpos rest =>
    have := rest.le
    exact iff_of_false (List.cons_ne_nil _ _) (by omega)

theorem Tiles.le_start {start stop : Nat} {ss : List Segment} (h : Tiles start ss stop) :
    ∀ s ∈ ss, start ≤ s.span.start := by
  induction h with
  | nil => simp
  | cons hstart hpos _ ih =>
    rw [List.forall_mem_cons]
    refine ⟨Nat.le_of_eq hstart.symm, ?_⟩
    intro s hs
    have := ih s hs
    omega

/-- Segments begin one behind the other. -/
theorem Tiles.pairwise {start stop : Nat} {ss : List Segment} (h : Tiles start ss stop) :
    ss.Pairwise fun s t => s.span.start < t.span.start := by
  induction h with
  | nil => exact .nil
  | cons hstart hpos rest ih =>
    rw [List.pairwise_cons]
    refine ⟨?_, ih⟩
    intro t ht
    have := rest.le_start t ht
    omega

/-! ## Texts -/

theorem collapse_cons {c : Char} {cs : List Char} (h : c = '$' → cs.head? ≠ some '$') :
    collapse (c :: cs) = c :: collapse cs := by
  rw [collapse]
  rintro rest rfl rfl
  exact h rfl rfl

/-- What makes a dollar sign stray is not another one. -/
theorem Token.Begins.head?_ne_dollar {kind : SyntaxError.Kind} {read : Nat}
    {text rest : List Char} (h : (Token.stray kind read).Begins text rest) :
    rest.head? ≠ some '$' := by
  cases h with
  | alone h => exact fun hhead => (h '$' hhead).1 rfl
  | _ => simp

/-- Nor do the tokens behind a stray dollar sign begin with one. -/
theorem Tokenizes.head?_ne_dollar {kind : SyntaxError.Kind} {read : Nat} {run rest : List Token}
    {text : List Char} (h : Tokenizes (.stray kind read :: (run ++ rest)) text) :
    (sourceOf run).head? ≠ some '$' := by
  obtain _ | ⟨first, more⟩ := h
  intro hhead
  apply first.head?_ne_dollar
  rw [← more.source_eq, sourceOf_append, List.head?_append, hhead]
  rfl

/-- The text of a run of tokens is what is written there, collapsed. -/
theorem Tokenizes.collapse_run {run rest : List Token} {text : List Char}
    (h : Tokenizes (run ++ rest) text) (hrun : ∀ t ∈ run, t.isText = true) :
    collapse (sourceOf run) = textOf run := by
  induction run generalizing text with
  | nil => rfl
  | cons t run ih =>
    obtain ⟨ht, hrun⟩ := List.forall_mem_cons.1 hrun
    rw [List.cons_append] at h
    obtain _ | ⟨first, more⟩ := h
    have ih := ih more hrun
    cases t with
    | char c =>
      cases first with
      | char hc =>
        have hcollapse : collapse (c :: sourceOf run) = c :: collapse (sourceOf run) :=
          collapse_cons fun he => absurd he hc
        rw [ih] at hcollapse
        exact hcollapse
    | escape =>
      rw [sourceOf_cons, textOf_cons, ← ih]
      rfl
    | placeholder => cases ht
    | stray kind read =>
      have hnext := Tokenizes.head?_ne_dollar (.cons first more)
      have hcollapse := collapse_cons (c := '$') fun _ => hnext
      rw [ih] at hcollapse
      exact hcollapse

/-- A literal begins with what is written there first. -/
theorem head?_textOf {ts : List Token} (h : ∀ t ∈ ts.head?, t.isText = true) :
    (textOf ts).head? = (sourceOf ts).head? := by
  cases ts with
  | nil => rfl
  | cons t ts =>
    cases t with
    | placeholder => cases h _ rfl
    | _ => rfl

theorem textOf_ne_nil {run : List Token} (hne : run ≠ []) (hrun : ∀ t ∈ run, t.isText = true) :
    textOf run ≠ [] := by
  intro hnil
  have hhead := head?_textOf fun t ht => hrun t (List.mem_of_mem_head? ht)
  rw [hnil, List.head?_nil, eq_comm, List.head?_eq_none_iff] at hhead
  exact sourceOf_ne_nil hne hhead

/-! ## What is covered -/

/-- Whether a name stops is told by the byte behind it. -/
theorem stops_iff_unitAt? {text : String} {before after : List Char}
    (h : text.toList = before ++ after) :
    Identifier.Stops after ↔
      ∀ unit ∈ unitAt? text (byteLength before), Identifier.isContinue unit = false := by
  exact (forall_unitAt?_iff h fun unit c halike => by rw [halike.isContinue_eq]).symm

theorem Tokenizes.covers_segmentsFrom {source : String} {ts : List Token} {before text : List Char}
    (h : Tokenizes ts text) (hsource : source.toList = before ++ text) :
    ∀ s ∈ segmentsFrom (byteLength before) ts, s.Covers source := by
  induction ts using run_induction generalizing before text with
  | nil => simp
  | placeholder style name rest ih =>
    obtain _ | ⟨first, more⟩ := h
    have hsplit := hsource
    rw [first.text_eq, ← List.append_assoc] at hsplit
    rw [segmentsFrom_placeholder, List.forall_mem_cons, ← byteLength_append]
    refine ⟨⟨?_, ?_, ?_⟩, ih more hsplit⟩
    · rw [byteLength_append, Span.cut?_of_toList hsplit]
      exact congrArg some (Placeholder.ofList_written ⟨name, style, _⟩)
    · exact first.isProper rfl
    · rintro rfl
      exact (stops_iff_unitAt? hsplit).1 first.ends
  | run run rest hne hrun hrest ih =>
    obtain ⟨after, rfl, hafter⟩ := h.exists_append
    have hsplit := hsource
    rw [← List.append_assoc] at hsplit
    rw [segmentsFrom_append_run _ hne hrun hrest, List.forall_mem_cons, ← byteLength_append]
    refine ⟨⟨?_, String.ofList (sourceOf run), ?_, ?_⟩, ih hafter hsplit⟩
    · intro hempty
      exact textOf_ne_nil hne hrun (String.ofList_eq_empty_iff.1 hempty)
    · rw [byteLength_append, Span.cut?_of_toList hsplit]
    · rw [String.toList_ofList, h.collapse_run hrun]

/-! ## What stands next to what -/

theorem EndsRun.isLiteral_eq {ts : List Token} (h : EndsRun ts) (offset : Nat) :
    ∀ s ∈ (segmentsFrom offset ts).head?, s.isLiteral = false := by
  intro s hs
  cases ts with
  | nil => simp at hs
  | cons t ts =>
    obtain ⟨style, name, rfl⟩ := Token.eq_placeholder_of_isText (h t rfl)
    rw [segmentsFrom_placeholder] at hs
    cases hs
    rfl

/-- A literal in front begins as the source does. -/
theorem head?_of_literal {ts : List Token} {offset : Nat} {text : String} {span : Span}
    (h : .literal text span ∈ (segmentsFrom offset ts).head?) :
    text.toList.head? = (sourceOf ts).head? := by
  induction ts using run_induction with
  | nil => simp at h
  | placeholder style name rest =>
    rw [segmentsFrom_placeholder] at h
    cases h
  | run run rest hne hrun hrest =>
    rw [segmentsFrom_append_run offset hne hrun hrest] at h
    cases h
    rw [String.toList_ofList, head?_textOf fun t ht => hrun t (List.mem_of_mem_head? ht),
      sourceOf_append, List.head?_append_of_ne_nil _ (sourceOf_ne_nil hne)]

/-- Literals stand apart, and behind a bare name stands nothing it would go
on into. -/
theorem Tokenizes.isChain_segmentsFrom {ts : List Token} {text : List Char} (h : Tokenizes ts text)
    (offset : Nat) : (segmentsFrom offset ts).IsChain Segment.MayPrecede := by
  induction ts using run_induction generalizing text offset with
  | nil => simp
  | placeholder style name rest ih =>
    obtain _ | ⟨first, more⟩ := h
    rw [segmentsFrom_placeholder, List.isChain_cons]
    refine ⟨fun s hs => ?_, ih more _⟩
    cases s with
    | placeholder => trivial
    | literal literal span =>
      rintro rfl
      intro c hc
      rw [head?_of_literal hs, more.source_eq] at hc
      exact first.ends c hc
  | run run rest hne hrun hrest ih =>
    obtain ⟨after, rfl, hafter⟩ := h.exists_append
    rw [segmentsFrom_append_run _ hne hrun hrest, List.isChain_cons]
    refine ⟨fun s hs => ?_, ih hafter _⟩
    cases s with
    | placeholder => trivial
    | literal => cases hrest.isLiteral_eq _ _ hs

/-! ## Templates -/

namespace Template

/-- **Segments lie end to end**: read either way, a source is covered by its
segments from the first byte to the last, each of them says what stands
under its span, and no two literals touch. -/
theorem segments_tile {source : String} {t : Template}
    (h : parse source = .ok t ∨ t = salvage source) :
    Tiles 0 t.segments source.utf8ByteSize ∧ (t.segments = [] ↔ source = "") ∧
      (∀ s ∈ t.segments, s.span.Fits source ∧ s.Covers source) ∧
      t.segments.IsChain fun a b => ¬ (a.isLiteral = true ∧ b.isLiteral = true) := by
  obtain rfl : t = salvage source := h.elim eq_salvage_of_parse id
  have hcut := tokenizes_tokens source.toList
  have hsegments : (salvage source).segments = segmentsFrom 0 (tokens source.toList) := by
    rw [salvage_eq]
  have htiles : Tiles 0 (salvage source).segments source.utf8ByteSize := by
    have hbytes := tiles_segmentsFrom (tokens source.toList) 0
    rwa [Nat.zero_add, hcut.source_eq, byteLength_toList, ← hsegments] at hbytes
  have hcovers : ∀ s ∈ (salvage source).segments, s.Covers source := by
    have hsource : source.toList = [] ++ source.toList := rfl
    rw [hsegments]
    exact hcut.covers_segmentsFrom hsource
  refine ⟨htiles, ?_, fun s hs => ⟨(hcovers s hs).fits, hcovers s hs⟩, ?_⟩
  · rw [htiles.eq_nil_iff, eq_comm, String.utf8ByteSize_eq_zero_iff]
  · rw [hsegments]
    refine (hcut.isChain_segmentsFrom 0).imp fun a b hab hboth => ?_
    obtain ⟨ha, hb⟩ := hboth
    cases a with
    | placeholder => cases ha
    | literal =>
      cases b with
      | placeholder => cases hb
      | literal => exact hab

/-- Dollar signs of escapes, of placeholders and of nothing, side by side. -/
theorem segments_tile_dollars :
    (salvage "é$$$x$$$\x7by\x7d$").segments =
        [.literal "é$" ⟨0, 4⟩, .placeholder ⟨"x", .bare, ⟨4, 6⟩⟩, .literal "$" ⟨6, 8⟩,
          .placeholder ⟨"y", .braced, ⟨8, 12⟩⟩, .literal "$" ⟨12, 13⟩] ∧
      Tiles 0 (salvage "é$$$x$$$\x7by\x7d$").segments 13 ∧
      ∀ s ∈ (salvage "é$$$x$$$\x7by\x7d$").segments, s.Covers "é$$$x$$$\x7by\x7d$" := by
  obtain ⟨htiles, -, hsegments, -⟩ :=
    @segments_tile "é$$$x$$$\x7by\x7d$" (salvage "é$$$x$$$\x7by\x7d$") (.inr rfl)
  have hsize : "é$$$x$$$\x7by\x7d$".utf8ByteSize = 13 := by decide +kernel
  rw [hsize] at htiles
  exact ⟨by decide +kernel, htiles, fun s hs => (hsegments s hs).2⟩

end Template

end TextTemplate
