/-
TextTemplate.Proofs.Template — a template is read off the tokens of its
source.

With the invariant of the scan behind them, `salvage_eq` and `parse_eq` say
what the two ways to read a source come to without a word about scans:
salvaging takes the segments and the errors of the tokens, and parsing gives
the same template where there are no errors and the first error where there
are some. What is proved about templates from here on is proved about
tokens.
-/
import TextTemplate.Proofs.ScanInvariant
import TextTemplate.Template

namespace TextTemplate.Template

/-- What salvaging comes to. -/
theorem salvage_eq (source : String) :
    salvage source =
      ⟨source, segmentsFrom 0 (tokens source.toList), errorsFrom [] (tokens source.toList)⟩ := by
  have hofScan : salvage source = ofScan source (Scan.ofSource source .lenient) := rfl
  rw [hofScan, ofScan]
  cases Scan.finished_ofSource source .lenient with
  | whole _ hsegments herrors => rw [hsegments, herrors]
  | broken hstrict => cases hstrict

/-- What parsing comes to. -/
theorem parse_eq (source : String) :
    parse source =
      (errorsFrom [] (tokens source.toList)).head?.elim (.ok (salvage source)) .error := by
  have hparse : parse source = (Scan.ofSource source .strict).errors.back?.elim
      (.ok (ofScan source (Scan.ofSource source .strict))) .error := by
    unfold parse parseM
    simp only
    cases (Scan.ofSource source .strict).errors.back? <;> rfl
  rw [hparse, ← Array.getLast?_toList]
  cases Scan.finished_ofSource source .strict with
  | whole hstrict hsegments herrors =>
    have hnone := (errorsFrom_eq_nil_iff []).2 (hstrict rfl)
    rw [herrors, hnone, salvage_eq, ofScan, hsegments, herrors]
    rfl
  | broken _ herrors hfirst =>
    rw [herrors, hfirst]
    rfl

/-- Parsing told by salvaging: the same template where nothing was skipped,
and the first thing skipped where something was. -/
theorem parse_eq_salvage (source : String) :
    parse source =
      match (salvage source).errors with
      | [] => .ok (salvage source)
      | e :: _ => .error e := by
  rw [parse_eq, salvage_eq]
  cases errorsFrom [] (tokens source.toList) <;> rfl

/-- A source is accepted when none of its dollar signs is stray. -/
theorem parse_eq_ok_salvage {source : String}
    (h : ∀ t ∈ tokens source.toList, t.isStray = false) : parse source = .ok (salvage source) := by
  rw [parse_eq, (errorsFrom_eq_nil_iff []).2 h]
  rfl

theorem exists_parse_eq_ok_iff {source : String} :
    (∃ t, parse source = .ok t) ↔ ∀ t ∈ tokens source.toList, t.isStray = false := by
  rw [parse_eq, ← errorsFrom_eq_nil_iff []]
  cases errorsFrom [] (tokens source.toList) <;> simp

/-- What is accepted is read alike either way. -/
theorem eq_salvage_of_parse {source : String} {t : Template} (h : parse source = .ok t) :
    t = salvage source := by
  rw [parse_eq_ok_salvage (exists_parse_eq_ok_iff.1 ⟨t, h⟩)] at h
  exact (Except.ok.inj h).symm

/-- A source is refused for the first of its stray dollar signs. -/
theorem parse_eq_error_iff {source : String} {e : SyntaxError} :
    parse source = .error e ↔
      ∃ pre t post, tokens source.toList = pre ++ t :: post ∧ (∀ u ∈ pre, u.isStray = false) ∧
        t.error? (sourceOf pre) = some e := by
  have hfirst := errorsFrom_eq_cons_iff [] (tokens source.toList) e
  simp only [List.nil_append] at hfirst
  rw [parse_eq, ← hfirst]
  cases errorsFrom [] (tokens source.toList) <;> simp

end TextTemplate.Template
