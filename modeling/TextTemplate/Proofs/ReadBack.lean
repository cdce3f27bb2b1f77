/-
TextTemplate.Proofs.ReadBack — a template that is written is read back.

A template is written as its source, and what is malformed in a source is
not kept in it. So a template with errors is not written at all, and any
other is read back as it was: its source is read with the strict parser,
which finds nothing to refuse and makes of it what made the template in the
first place (`Made.parse_eq`).

What a document comes to is said for all of them, not only for those that
were written here: a document that holds a text is that text parsed
(`ofJson_of_holds`), and no other document gives a template
(`ofJson_eq_ok_iff`).
-/
import TextTemplate.Proofs.Agreement
import TextTemplate.Proofs.JsonText

namespace TextTemplate.Template

open Json.Text

/-! ## Writing -/

theorem toJson_eq_ok_iff {t : Template} {document : String} :
    t.toJson = .ok document ↔ t.errors = [] ∧ document = write t.source := by
  unfold toJson
  cases t.errors <;> simp [eq_comm]

theorem toJson_eq_error_iff {t : Template} {failure : Unwritable} :
    t.toJson = .error failure ↔ t.errors.head? = some failure.cause := by
  unfold toJson
  cases t.errors with
  | nil => simp
  | cons e es =>
    constructor
    · intro h
      cases h
      rfl
    · intro h
      cases h
      rfl

theorem isValid_iff {t : Template} : t.isValid = true ↔ t.errors = [] :=
  List.isEmpty_iff

/-! ## Reading -/

theorem source_of_parse {source : String} {t : Template} (h : parse source = .ok t) :
    t.source = source := by
  rw [eq_salvage_of_parse h, salvage_eq]

/-- The source of a template is accepted where the template has no errors,
and gives it again; otherwise it is refused for the first of them. -/
theorem Made.parse_eq {t : Template} (h : Made t) :
    parse t.source = t.errors.head?.elim (.ok t) .error := by
  have ht := h.eq_salvage
  have herrors : t.errors = errorsFrom [] (tokens t.source.toList) := by
    rw [ht, salvage_eq]
  rw [Template.parse_eq, ← ht, ← herrors]

theorem isValid_of_parse {source : String} {t : Template} (h : parse source = .ok t) :
    t.isValid = true := by
  have hparse := (Made.parsed h).parse_eq
  rw [source_of_parse h, h] at hparse
  rw [isValid_iff]
  cases herrors : t.errors with
  | nil => rfl
  | cons e es =>
    rw [herrors] at hparse
    cases hparse

/-- A document that holds a text is that text parsed. -/
theorem ofJson_of_holds {document source : String} (h : Holds document source) :
    ofJson document = (parse source).mapError fun e => .refused e.message := by
  obtain ⟨rest, hread, hfinish⟩ := (holds_iff "a string").1 h
  simp only [ofJson_eq, hread, hfinish]
  cases parse source <;> rfl

/-- No other document gives a template. -/
theorem ofJson_eq_ok_iff {document : String} {t : Template} :
    ofJson document = .ok t ↔ Holds document t.source ∧ parse t.source = .ok t := by
  constructor
  · intro h
    obtain ⟨source, rest, done, hread, hparse, hfinish⟩ := exists_of_ofJson h
    obtain ⟨-, hdone⟩ := run_finish_eq_ok_iff.1 hfinish
    rw [source_of_parse hparse]
    exact ⟨(holds_iff "a string").2 ⟨rest, hread, by rw [hfinish, ← hdone]⟩, hparse⟩
  · intro ⟨hholds, hparse⟩
    rw [ofJson_of_holds hholds, hparse]
    rfl

/-! ## Both -/

/-- **Templates survive as documents.** However a template was made, it can
be written exactly when it is valid; what is written holds its source and is
read back as the very same template; and where it is not written the message
carries the first of its errors, the one its source is refused for.

The other way round every document that gives a template holds the source of
it, the template is valid, and a document with any text in it comes to what
parsing the text comes to, the message of a refusal included. -/
theorem document_read_back :
    (∀ t, Made t →
      ((∃ document, t.toJson = .ok document) ↔ t.isValid = true) ∧
      (∀ document, t.toJson = .ok document →
        Holds document t.source ∧ ofJson document = .ok t) ∧
      ∀ failure, t.toJson = .error failure →
        t.errors.head? = some failure.cause ∧ parse t.source = .error failure.cause ∧
        failure.message =
          "template is not valid and cannot be read back: " ++ failure.cause.message) ∧
    (∀ document t, ofJson document = .ok t → t.isValid = true ∧ Holds document t.source) ∧
    ∀ document source, Holds document source →
      ofJson document = (parse source).mapError fun e => .refused e.message := by
  refine ⟨fun t ht => ⟨?written, ?back, ?message⟩, ?read, fun _ _ => ofJson_of_holds⟩
  case written =>
    simp only [toJson_eq_ok_iff, isValid_iff, exists_and_left, exists_eq, and_true]
  case back =>
    intro document h
    obtain ⟨herrors, rfl⟩ := toJson_eq_ok_iff.1 h
    have hparse := ht.parse_eq
    rw [herrors] at hparse
    exact ⟨holds_write _, ofJson_eq_ok_iff.2 ⟨holds_write _, hparse⟩⟩
  case message =>
    intro failure h
    have hfirst := toJson_eq_error_iff.1 h
    have hparse := ht.parse_eq
    rw [hfirst] at hparse
    exact ⟨hfirst, hparse, rfl⟩
  case read =>
    intro document t h
    obtain ⟨hholds, hparse⟩ := ofJson_eq_ok_iff.1 h
    exact ⟨isValid_of_parse hparse, hholds⟩

/-- A quote, a backslash, a control character and a character past U+FFFF
come back; a dollar sign that begins nothing is not written, and is refused
where it is read. -/
theorem document_read_back_escapes :
    ((salvage "\"é\\\n\x01😀\" $x").toJson = .ok "\"\\\"é\\\\\\n\\u0001😀\\\" $x\"" ∧
      ofJson "\"\\\"é\\\\\\n\\u0001😀\\\" $x\"" = .ok (salvage "\"é\\\n\x01😀\" $x") ∧
      (salvage "\"é\\\n\x01😀\" $x").isValid = true) ∧
    (∃ failure, (salvage "5$").toJson = .error failure ∧ parse "5$" = .error failure.cause ∧
      failure.message = "template is not valid and cannot be read back: " ++
        "invalid placeholder at line 1, column 3 (byte 2)") ∧
    ofJson " \"5\\u0024\"" =
      .error (.refused "invalid placeholder at line 1, column 3 (byte 2)") := by
  have hwritten : (salvage "\"é\\\n\x01😀\" $x").toJson =
      .ok "\"\\\"é\\\\\\n\\u0001😀\\\" $x\"" :=
    toJson_eq_ok_iff.2 ⟨by decide +kernel, by decide +kernel⟩
  have hread := ((document_read_back.1 _ (.salvaged _)).2.1 _ hwritten).2
  have hrefused : (salvage "5$").toJson = .error ⟨⟨.invalidPlaceholder, 2, 1, 1, 3⟩⟩ :=
    toJson_eq_error_iff.2 (by decide +kernel)
  have hparse : parse "5$" = .error ⟨.invalidPlaceholder, 2, 1, 1, 3⟩ :=
    ((document_read_back.1 _ (.salvaged _)).2.2 _ hrefused).2.1
  have hholds : Holds " \"5\\u0024\"" "5$" :=
    (holds_iff "").2 ⟨[], by decide +kernel, by decide⟩
  refine ⟨⟨hwritten, hread, (document_read_back.2.1 _ _ hread).1⟩,
    ⟨_, hrefused, hparse, rfl⟩, ?_⟩
  rw [document_read_back.2.2 _ _ hholds, hparse]
  rfl

end TextTemplate.Template
