/-
TextTemplate.Proofs.Printing — printing segments and parsing them are
inverse.

`print` writes segments down: a literal with its dollar signs doubled, a
placeholder as it is written. `print_parse_inverse` says that this is the
way back from parsing, and that parsing is the way back from it. The second
asks for segments a source can have (`Printable`): no literal is empty, every
name is a name, literals stand apart, and a bare name is not followed by
text that would make it longer. These are not restrictions of the proof. The
segments of every accepted source are such segments, so that printing and
parsing match them one for one with the accepted sources.

Both go by tokens. A segment has tokens of its own (`Segment.toTokens`) and
printing it writes those down. Cut into segments again they give the
segment back, since every printed dollar sign of a literal is half of an
escape and no escape takes in anything of its neighbours.
-/
import TextTemplate.Proofs.Rendering
import TextTemplate.Proofs.Tiling

namespace TextTemplate

/-! ## Printing -/

/-- A text with its dollar signs doubled. -/
def escaped (text : String) : String :=
  String.ofList (text.toList.flatMap fun c => if c = '$' then ['$', '$'] else [c])

/-- A segment as it is written in a source. -/
def Segment.written : Segment → String
  | .literal text _ => escaped text
  | .placeholder p => p.written

/-- Segments as they are written in a source, one behind the other. -/
def print : List Segment → String
  | [] => ""
  | s :: ss => s.written ++ print ss

/-- Segments over the bytes they are printed at, from an offset on. -/
def placed (offset : Nat) : List Segment → List Segment
  | [] => []
  | s :: ss =>
    let stop := offset + s.written.utf8ByteSize
    s.withSpan ⟨offset, stop⟩ :: placed stop ss

/-! ## Segments that can be read back -/

/-- A segment that a source can have. -/
def Segment.IsProper : Segment → Prop
  | .literal text _ => text ≠ ""
  | .placeholder p => Identifier.isName p.name = true

instance : DecidablePred Segment.IsProper
  | .literal text _ => inferInstanceAs (Decidable (text ≠ ""))
  | .placeholder p => inferInstanceAs (Decidable (Identifier.isName p.name = true))

/-- Segments that a source can have in this order. -/
structure Printable (ss : List Segment) : Prop where
  proper : ∀ s ∈ ss, s.IsProper
  apart : ss.IsChain Segment.MayPrecede

theorem Segment.Covers.isProper {source : String} {s : Segment} (h : s.Covers source) :
    s.IsProper := by
  cases s with
  | literal => exact h.1
  | placeholder => exact h.2.1

/-! ## Tokens of segments -/

/-- The token that a character of a literal is printed as. -/
def Token.ofChar (c : Char) : Token :=
  if c = '$' then .escape else .char c

/-- The tokens that a segment is printed as. -/
def Segment.toTokens : Segment → List Token
  | .literal text _ => text.toList.map Token.ofChar
  | .placeholder p => [.placeholder p.style p.name]

namespace Token

theorem written_ofChar (c : Char) : (ofChar c).written = if c = '$' then ['$', '$'] else [c] := by
  unfold ofChar
  split <;> rfl

theorem text_ofChar (c : Char) : (ofChar c).text = [c] := by
  unfold ofChar
  split
  · next h => rw [h]; rfl
  · rfl

theorem isText_ofChar (c : Char) : (ofChar c).isText = true := by
  unfold ofChar
  split <;> rfl

theorem isProper_ofChar (c : Char) : (ofChar c).IsProper := by
  unfold ofChar
  split
  · trivial
  · next h => exact h

end Token

theorem textOf_map_ofChar (cs : List Char) : textOf (cs.map Token.ofChar) = cs := by
  induction cs with
  | nil => rfl
  | cons c cs ih => rw [List.map_cons, textOf_cons, Token.text_ofChar, ih]; rfl

/-- A literal without stray dollar signs has the tokens it was made of. -/
theorem map_ofChar_textOf {run : List Token} (hrun : ∀ t ∈ run, t.isText = true)
    (hproper : ∀ t ∈ run, t.IsProper) : (textOf run).map Token.ofChar = run := by
  induction run with
  | nil => rfl
  | cons t run ih =>
    obtain ⟨ht, hrun⟩ := List.forall_mem_cons.1 hrun
    obtain ⟨htproper, hproper⟩ := List.forall_mem_cons.1 hproper
    have hself : t.text.map Token.ofChar = [t] := by
      cases t with
      | char c =>
        have hc : c ≠ '$' := htproper
        simp [Token.text, Token.ofChar, hc]
      | escape => rfl
      | placeholder => cases ht
      | stray => exact htproper.elim
    rw [textOf_cons, List.map_append, hself, ih hrun hproper]
    rfl

theorem Segment.toList_written (s : Segment) : s.written.toList = sourceOf s.toTokens := by
  cases s with
  | literal text span =>
    rw [written, escaped, String.toList_ofList, toTokens, sourceOf, List.flatMap_map]
    simp only [Token.written_ofChar]
  | placeholder p =>
    rw [written, ← p.ofList_written, String.toList_ofList]
    simp [toTokens]

theorem toList_print (ss : List Segment) :
    (print ss).toList = sourceOf (ss.flatMap Segment.toTokens) := by
  induction ss with
  | nil => rfl
  | cons s ss ih =>
    rw [print, String.toList_append, s.toList_written, ih, List.flatMap_cons, sourceOf_append]

/-! ## From a source and back -/

/-- Cutting tokens into segments loses none of them. -/
theorem flatMap_toTokens_segmentsFrom {ts : List Token} (h : ∀ t ∈ ts, t.IsProper)
    (offset : Nat) : (segmentsFrom offset ts).flatMap Segment.toTokens = ts := by
  induction ts using run_induction generalizing offset with
  | nil => simp
  | placeholder style name rest ih =>
    obtain ⟨-, hrest⟩ := List.forall_mem_cons.1 h
    rw [segmentsFrom_placeholder, List.flatMap_cons, ih hrest]
    rfl
  | run run rest hne hrun hend ih =>
    obtain ⟨hproper, hrest⟩ := List.forall_mem_append.1 h
    rw [segmentsFrom_append_run offset hne hrun hend, List.flatMap_cons, ih hrest,
      Segment.toTokens, String.toList_ofList, map_ofChar_textOf hrun hproper]

/-! ## From segments and back -/

theorem Printable.tail {s : Segment} {ss : List Segment} (h : Printable (s :: ss)) :
    Printable ss where
  proper := (List.forall_mem_cons.1 h.proper).2
  apart := (List.isChain_cons.1 h.apart).2

/-- Text printed in front of what is read is read as well. -/
theorem Reads.append_text {ts : List Token} {text : List Char} (h : Reads ts text)
    (cs : List Char) :
    Reads (cs.map Token.ofChar ++ ts) (sourceOf (cs.map Token.ofChar) ++ text) := by
  induction cs with
  | nil => exact h
  | cons c cs ih =>
    rw [List.map_cons, sourceOf_cons, List.append_assoc]
    exact .cons (Token.isProper_ofChar c) (Token.ends_of_isText (Token.isText_ofChar c) _) ih

/-- Behind a bare name it is not made longer by what is printed. -/
theorem Segment.stops_written {p : Placeholder} {s : Segment} (hbare : p.style = .bare)
    (hnext : MayPrecede (.placeholder p) s) (hproper : s.IsProper) (more : List Char) :
    Identifier.Stops (s.written.toList ++ more) := by
  cases s with
  | literal text span =>
    have hne : text.toList ≠ [] := mt String.toList_eq_nil_iff.1 hproper
    obtain ⟨c, cs, hlist⟩ := List.exists_cons_of_ne_nil hne
    have hc : Identifier.isContinue c = false := hnext hbare c (by rw [hlist]; rfl)
    rw [written, escaped, String.toList_ofList, hlist, List.flatMap_cons]
    split
    · exact Identifier.stops_cons (by decide) _
    · exact Identifier.stops_cons hc _
  | placeholder q =>
    obtain ⟨name, style, span⟩ := q
    rw [written, ← Placeholder.ofList_written, String.toList_ofList]
    cases style with
    | bare => exact Identifier.stops_cons (by decide) _
    | braced => exact Identifier.stops_cons (by decide) _

/-- A name that is printed stops where it ends. -/
theorem Printable.ends {p : Placeholder} {ss : List Segment}
    (h : Printable (.placeholder p :: ss)) :
    (Token.placeholder p.style p.name).Ends (print ss).toList := by
  cases hstyle : p.style with
  | braced => trivial
  | bare =>
    cases ss with
    | nil => rintro c ⟨⟩
    | cons s ss =>
      have hnext := (List.isChain_cons.1 h.apart).1 s rfl
      rw [print, String.toList_append]
      exact Segment.stops_written hstyle hnext (h.tail.proper s List.mem_cons_self) _

/-- What is printed is read token by token as it was printed. -/
theorem Printable.reads {ss : List Segment} (h : Printable ss) :
    Reads (ss.flatMap Segment.toTokens) (print ss).toList := by
  induction ss with
  | nil => exact reads_nil
  | cons s ss ih =>
    have hmore := ih h.tail
    rw [print, String.toList_append, s.toList_written, List.flatMap_cons]
    cases s with
    | literal text => exact hmore.append_text text.toList
    | placeholder p =>
      have hname : Identifier.isName p.name = true := h.proper _ List.mem_cons_self
      have hreads := hmore.cons (t := .placeholder p.style p.name) hname h.ends
      simpa [Segment.toTokens] using hreads

theorem Printable.endsRun {text : String} {span : Span} {ss : List Segment}
    (h : Printable (.literal text span :: ss)) : EndsRun (ss.flatMap Segment.toTokens) := by
  cases ss with
  | nil => exact endsRun_nil
  | cons s ss =>
    cases s with
    | literal => exact ((List.isChain_cons.1 h.apart).1 _ rfl).elim
    | placeholder p => exact endsRun_placeholder p.style p.name _

/-- Cut into segments, the tokens of printed segments give those back. -/
theorem Printable.segmentsFrom_flatMap {ss : List Segment} (h : Printable ss) (offset : Nat) :
    segmentsFrom offset (ss.flatMap Segment.toTokens) = placed offset ss := by
  induction ss generalizing offset with
  | nil => simp [placed]
  | cons s ss ih =>
    have hbytes : byteLength (sourceOf s.toTokens) = s.written.utf8ByteSize := by
      rw [← s.toList_written, byteLength_toList]
    rw [List.flatMap_cons, placed, ← ih h.tail, ← hbytes]
    cases s with
    | literal text span =>
      have hne : text.toList ≠ [] :=
        mt String.toList_eq_nil_iff.1 (h.proper _ List.mem_cons_self)
      have hrun : ∀ t ∈ text.toList.map Token.ofChar, t.isText = true := by
        simp [Token.isText_ofChar]
      rw [Segment.toTokens, segmentsFrom_append_run offset (by simpa using hne) hrun h.endsRun,
        textOf_map_ofChar, String.ofList_toList]
      rfl
    | placeholder p =>
      rw [Segment.toTokens, List.singleton_append, segmentsFrom_placeholder]
      simp [Segment.withSpan]

theorem sameSegments_placed (ss : List Segment) (offset : Nat) :
    SameSegments (placed offset ss) ss := by
  induction ss generalizing offset with
  | nil => exact .nil
  | cons s ss ih =>
    refine .cons ?_ (ih _)
    cases s with
    | literal text span => exact .literal text _ _
    | placeholder p => exact .placeholder p.name p.style _ _

/-! ## Templates -/

namespace Template

/-- The segments of an accepted source can be printed. -/
theorem printable_of_parse {source : String} {t : Template} (h : parse source = .ok t) :
    Printable t.segments := by
  have hcut := tokenizes_tokens source.toList
  rw [eq_salvage_of_parse h, salvage_eq]
  have hsource : source.toList = [] ++ source.toList := rfl
  exact ⟨fun s hs => (hcut.covers_segmentsFrom hsource s hs).isProper, hcut.isChain_segmentsFrom 0⟩

theorem print_segments_of_parse {source : String} {t : Template} (h : parse source = .ok t) :
    print t.segments = source := by
  have hreads := reads_iff.2 ⟨rfl, exists_parse_eq_ok_iff.1 ⟨t, h⟩⟩
  rw [eq_salvage_of_parse h, salvage_eq, ← String.toList_inj, toList_print,
    flatMap_toTokens_segmentsFrom hreads.proper, hreads.source_eq]

theorem parse_print {ss : List Segment} (h : Printable ss) :
    parse (print ss) = .ok ⟨print ss, placed 0 ss, []⟩ := by
  rw [parse_eq_ok_of_reads h.reads, h.segmentsFrom_flatMap]

/-- **Printing and parsing are inverse**: what was parsed is printed as its
source, and what is printed is parsed as the segments it was printed from,
over the bytes they were printed at. -/
theorem print_parse_inverse :
    (∀ source t, parse source = .ok t → print t.segments = source ∧ Printable t.segments) ∧
      ∀ ss, Printable ss →
        parse (print ss) = .ok ⟨print ss, placed 0 ss, []⟩ ∧ SameSegments (placed 0 ss) ss :=
  ⟨fun _ _ h => ⟨print_segments_of_parse h, printable_of_parse h⟩,
    fun ss h => ⟨parse_print h, sameSegments_placed ss 0⟩⟩

/-- Literals that begin and end in dollar signs and braces, next to
placeholders of both styles. -/
theorem parse_print_dollars :
    print [.literal "é$" ⟨0, 0⟩, .placeholder ⟨"x", .bare, ⟨0, 0⟩⟩, .literal "$1$\x7b" ⟨0, 0⟩,
        .placeholder ⟨"y", .braced, ⟨0, 0⟩⟩, .literal "z\x7d$" ⟨0, 0⟩] =
      "é$$$x$$1$$\x7b$\x7by\x7dz\x7d$$" ∧
    parse "é$$$x$$1$$\x7b$\x7by\x7dz\x7d$$" =
      .ok ⟨"é$$$x$$1$$\x7b$\x7by\x7dz\x7d$$",
        [.literal "é$" ⟨0, 4⟩, .placeholder ⟨"x", .bare, ⟨4, 6⟩⟩, .literal "$1$\x7b" ⟨6, 12⟩,
          .placeholder ⟨"y", .braced, ⟨12, 16⟩⟩, .literal "z\x7d$" ⟨16, 20⟩], []⟩ := by
  have hprint : print [.literal "é$" ⟨0, 0⟩, .placeholder ⟨"x", .bare, ⟨0, 0⟩⟩,
      .literal "$1$\x7b" ⟨0, 0⟩, .placeholder ⟨"y", .braced, ⟨0, 0⟩⟩, .literal "z\x7d$" ⟨0, 0⟩] =
      "é$$$x$$1$$\x7b$\x7by\x7dz\x7d$$" := by decide +kernel
  obtain ⟨hparse, -⟩ := print_parse_inverse.2 [.literal "é$" ⟨0, 0⟩,
    .placeholder ⟨"x", .bare, ⟨0, 0⟩⟩, .literal "$1$\x7b" ⟨0, 0⟩,
    .placeholder ⟨"y", .braced, ⟨0, 0⟩⟩, .literal "z\x7d$" ⟨0, 0⟩] ⟨by decide, by decide⟩
  rw [hprint] at hparse
  exact ⟨hprint, hparse⟩

end Template

end TextTemplate
