/-
TextTemplate.Proofs.Agreement — strict and lenient reading agree, and a
source has one template.

Parsing and salvaging are the same scan up to the first malformed
placeholder. What parsing makes of a source can therefore be told from what
salvaging makes of it: the same template where nothing was skipped, and the
first thing that was skipped otherwise.

So it does not matter how a template was come by (`Made`). It is the one
that salvaging gives for its source, and two templates of one source are
equal in every part.
-/
import TextTemplate.Proofs.Template
import TextTemplate.Template.Document

namespace TextTemplate.Template

/-- The ways to come by a template. To convert a text is to parse it, and a
copy is the template it was made from. -/
inductive Made : Template → Prop where
  | parsed {source : String} {t : Template} (h : parse source = .ok t) : Made t
  | salvaged (source : String) : Made (salvage source)
  | read {document : String} {t : Template} (h : ofJson document = .ok t) : Made t

/-- What a document comes to: its text parsed, if nothing is wrong with the
rest of it. -/
theorem ofJson_eq (document : String) :
    ofJson document =
      match (Json.textOr "a string").run document.toList with
      | .error e => .error e
      | .ok (source, rest) =>
        match parse source with
        | .error e => .error (.refused e.message)
        | .ok t => (Json.Reader.finish.run rest).map fun _ => t := by
  unfold ofJson ofJsonM
  cases (Json.textOr "a string").run document.toList with
  | error e => rfl
  | ok text =>
    obtain ⟨source, rest⟩ := text
    simp only [parse, Id.run_bind]
    cases Id.run (parseM source) <;> rfl

/-- A template of a document was parsed from a string at its front, with
nothing wrong behind it. -/
theorem exists_of_ofJson {document : String} {t : Template} (h : ofJson document = .ok t) :
    ∃ source rest done, (Json.textOr "a string").run document.toList = .ok (source, rest) ∧
      parse source = .ok t ∧ Json.Reader.finish.run rest = .ok done := by
  rw [ofJson_eq] at h
  split at h
  · cases h
  · next source rest hread =>
    split at h
    · cases h
    · next u hparse =>
      cases hfinish : Json.Reader.finish.run rest with
      | error e =>
        rw [hfinish] at h
        cases h
      | ok done =>
        rw [hfinish] at h
        cases h
        exact ⟨source, rest, done, hread, hparse, hfinish⟩

theorem Made.eq_salvage {t : Template} (h : Made t) : t = salvage t.source := by
  cases h with
  | parsed h =>
    obtain rfl := eq_salvage_of_parse h
    rfl
  | salvaged source => rfl
  | read h =>
    obtain ⟨_, _, _, -, h, -⟩ := exists_of_ofJson h
    obtain rfl := eq_salvage_of_parse h
    rfl

/-- **One source, one template**: parsing gives what salvaging gives where
nothing was skipped, and what was skipped first where something was. However
they were come by, two templates are equal when their sources are. -/
theorem parse_agrees_salvage :
    (∀ source, parse source =
      match (salvage source).errors with
      | [] => .ok (salvage source)
      | e :: _ => .error e) ∧
    ∀ t u, Made t → Made u → (t = u ↔ t.source = u.source) := by
  refine ⟨parse_eq_salvage, fun t u ht hu => ⟨fun h => by rw [h], fun h => ?_⟩⟩
  rw [ht.eq_salvage, hu.eq_salvage, h]

/-- A document gives the template that its source was salvaged to. -/
theorem parse_agrees_document :
    ∃ t, ofJson "\"$$5 for\\n $item\"" = .ok t ∧ t = salvage "$$5 for\n $item" := by
  have hread : (ofJson "\"$$5 for\\n $item\"").toOption.map source =
      some "$$5 for\n $item" := by decide +kernel
  cases h : ofJson "\"$$5 for\\n $item\"" with
  | error e =>
    rw [h] at hread
    cases hread
  | ok t =>
    rw [h] at hread
    refine ⟨t, rfl, ?_⟩
    rw [parse_agrees_salvage.2 t _ (.read h) (.salvaged _)]
    exact Option.some.inj hread

end TextTemplate.Template
