/-
TextTemplate.Proofs.Cuts — a scan cuts its source between characters only.

The machine walks over single bytes and a lenient one goes back, but it cuts
pieces out of a text: what it copies into a literal, the name of a
placeholder, and for the place of an error the source in front of it and the
last line of that. `Scan.cuts` lists what a step cuts in the state it is in.

For any state a step succeeds exactly where all of these cuts fit
(`exists_step_eq_ok_iff`), so the list leaves none out and has none too many.
A scan that its source leads to can always make its next step; so there all
of them fit. That is `cuts_fit`.
-/
import TextTemplate.Proofs.ScanSteps

namespace TextTemplate

namespace Scan

/-! ## The cuts of an operation -/

/-- A text and the part of it that is cut out. -/
structure Cut where
  text : String
  span : Span
  deriving DecidableEq, Repr

/-- The part lies in the text and is whole characters. -/
def Cut.Fits (c : Cut) : Prop :=
  c.span.Fits c.text

instance : DecidablePred Cut.Fits := fun c =>
  inferInstanceAs (Decidable (c.span.Fits c.text))

/-- Ending the literal at `stop` copies what is left of it, if anything is. -/
def literalCuts (source : String) (stop : Nat) (scan : Scan) : List Cut :=
  if scan.copiedTo < stop then [⟨source, ⟨scan.copiedTo, stop⟩⟩] else []

/-- A placeholder ends the literal in front of it and cuts out its name. -/
def placeholderCuts (source : String) (span name : Span) (scan : Scan) : List Cut :=
  scan.literalCuts source span.start ++ [⟨source, name⟩]

/-- An error takes the source in front of it, and of that the last line. -/
def errorCuts (source : String) (scan : Scan) : List Cut :=
  ⟨source, ⟨0, scan.position⟩⟩ ::
    ((Span.mk 0 scan.position).cut? source).toList.map fun before =>
      ⟨before, ⟨lineStart before, before.utf8ByteSize⟩⟩

/-- The cuts of a step, by what the scan was reading and what it reads next. -/
def cuts (source : String) (scan : Scan) : List Cut :=
  match scan.reading, unitAt? source scan.position with
  | .text, none => scan.literalCuts source source.utf8ByteSize
  | .text, some c => if c = '$' then [⟨source, ⟨scan.copiedTo, scan.position⟩⟩] else []
  | .dollar _, unit =>
    if unit.any fun c => c = '$' || c = '\x7b' || Identifier.isStart c then []
    else scan.errorCuts source
  | .brace _, unit => if unit.any Identifier.isStart then [] else scan.errorCuts source
  | .bareName start, unit =>
    if unit.any Identifier.isContinue then []
    else scan.placeholderCuts source ⟨start, scan.position⟩ ⟨start + 1, scan.position⟩
  | .bracedName start, unit =>
    if unit.any Identifier.isContinue then []
    else if unit = some '\x7d' then
      scan.placeholderCuts source ⟨start, scan.position + 1⟩ ⟨start + 2, scan.position⟩
    else scan.errorCuts source

section

variable {source : String} {strictness : Strictness} {scan : Scan}

theorem exists_map_eq_ok_iff {α β : Type} {x : Except Fault α} {f : α → β} :
    (∃ b, x.map f = .ok b) ↔ ∃ a, x = .ok a := by
  cases x <;> simp [Except.map]

theorem exists_cut_eq_ok_iff {span : Span} :
    (∃ text, cut source span = .ok text) ↔ span.Fits source := by
  rw [← Span.cut?_isSome_iff]
  unfold cut
  cases span.cut? source <;> simp

theorem exists_copyUpTo_eq_ok_iff {stop : Nat} :
    (∃ next, scan.copyUpTo source stop = .ok next) ↔
      (Span.mk scan.copiedTo stop).Fits source := by
  unfold copyUpTo
  rw [bind_pure_eq_map, exists_map_eq_ok_iff, exists_cut_eq_ok_iff]

theorem exists_endLiteral_eq_ok_iff {stop : Nat} :
    (∃ next, scan.endLiteral source stop = .ok next) ↔
      ∀ c ∈ scan.literalCuts source stop, c.Fits := by
  rw [endLiteral_eq_map, exists_map_eq_ok_iff, literalCuts]
  split
  · simp [exists_copyUpTo_eq_ok_iff, Cut.Fits]
  · simp

theorem exists_addPlaceholder_eq_ok_iff {style : Style} {span name : Span} :
    (∃ next, scan.addPlaceholder source style span name = .ok next) ↔
      ∀ c ∈ scan.placeholderCuts source span name, c.Fits := by
  have hadd : (∃ next, scan.addPlaceholder source style span name = .ok next) ↔
      (∃ ended, scan.endLiteral source span.start = .ok ended) ∧
        ∃ text, cut source name = .ok text := by
    unfold addPlaceholder
    constructor
    · intro ⟨next, h⟩
      obtain ⟨ended, hended, h⟩ := bind_eq_ok_iff.1 h
      obtain ⟨text, htext, -⟩ := bind_eq_ok_iff.1 h
      exact ⟨⟨ended, hended⟩, text, htext⟩
    · intro ⟨⟨ended, hended⟩, text, htext⟩
      exact ⟨_, bind_eq_ok_iff.2 ⟨ended, hended, bind_eq_ok_iff.2 ⟨text, htext, rfl⟩⟩⟩
  rw [hadd, exists_endLiteral_eq_ok_iff, exists_cut_eq_ok_iff, placeholderCuts,
    List.forall_mem_append, List.forall_mem_singleton, Cut.Fits]

theorem isSome_locate?_iff :
    (locate? source scan.position).isSome ↔ ∀ c ∈ scan.errorCuts source, c.Fits := by
  have hfits := @Span.cut?_isSome_iff ⟨0, scan.position⟩ source
  unfold locate? errorCuts
  cases hbefore : (Span.mk 0 scan.position).cut? source with
  | none =>
    rw [hbefore] at hfits
    simp_all [Cut.Fits]
  | some before =>
    have hline := @Span.cut?_isSome_iff ⟨lineStart before, before.utf8ByteSize⟩ before
    rw [hbefore] at hfits
    have hfirst : (Span.mk 0 scan.position).Fits source := hfits.1 rfl
    simp only [Option.toList_some, List.map_cons, List.map_nil, List.forall_mem_cons, Cut.Fits,
      hfirst, true_and, ← hline]
    cases hrest : (Span.mk (lineStart before) before.utf8ByteSize).cut? before <;> simp [hrest]

theorem exists_breakOff_eq_ok_iff {kind : SyntaxError.Kind} {start : Nat} :
    (∃ result, scan.breakOff source strictness kind start = .ok result) ↔
      ∀ c ∈ scan.errorCuts source, c.Fits := by
  rw [← isSome_locate?_iff]
  unfold breakOff SyntaxError.at?
  cases locate? source scan.position with
  | none => exact iff_of_false (fun ⟨_, h⟩ => (by cases h)) (by simp)
  | some place => cases strictness <;> exact iff_of_true ⟨_, rfl⟩ rfl

/-- **A step succeeds where its cuts do**, whatever state the scan is in. -/
theorem exists_step_eq_ok_iff (source : String) (strictness : Strictness) (scan : Scan) :
    (∃ result, scan.step source strictness = .ok result) ↔ ∀ c ∈ scan.cuts source, c.Fits := by
  have houtcome := outcome_step source strictness scan
  generalize scan.step source strictness = result at houtcome
  cases houtcome with
  | turn hunit hturns =>
    generalize hreading : scan.reading = reading at hturns
    cases hturns <;> simp_all [cuts]
  | escape hreading hunit => simp [cuts, hreading, hunit]
  | opens hreading hunit =>
    simp [exists_map_eq_ok_iff, exists_copyUpTo_eq_ok_iff, cuts, hreading, hunit, Cut.Fits]
  | ends hreading hunit =>
    simp [exists_map_eq_ok_iff, exists_endLiteral_eq_ok_iff, cuts, hreading, hunit]
  | lastName hreading hunit =>
    simp [exists_map_eq_ok_iff, exists_addPlaceholder_eq_ok_iff, cuts, hreading, hunit]
  | name hreading hunit hstops =>
    simp [exists_map_eq_ok_iff, exists_addPlaceholder_eq_ok_iff, cuts, hreading, hunit, hstops]
  | closes hreading hunit =>
    -- the brace is no character of a name, so the cuts are not those of going on
    have hstops : Identifier.isContinue '\x7d' = false := rfl
    simp [exists_map_eq_ok_iff, exists_addPlaceholder_eq_ok_iff, cuts, hreading, hunit, hstops]
  | fails hfails =>
    generalize hreading : scan.reading = reading at hfails
    generalize hunit : unitAt? source scan.position = unit at hfails
    rw [exists_breakOff_eq_ok_iff, cuts, hreading, hunit]
    cases hfails with
    | alone h =>
      cases unit with
      | none => simp
      | some c =>
        obtain ⟨hdollar, hbrace, hstart⟩ := h c rfl
        simp [hdollar, hbrace, hstart]
    | nameless hc h => simp [hc, h]
    | cutShort hnone => simp [hnone]
    | unclosed h =>
      cases unit with
      | none => simp
      | some c =>
        obtain ⟨hcontinue, hbrace⟩ := h c rfl
        simp [hcontinue, hbrace]

end

/-- **Every cut is whole characters**: a step of any scan succeeds exactly
where all its cuts fit, and those of a scan that a source leads to do, their
ends in order, inside the text and between characters. So reading a source is
never a fault. -/
theorem cuts_fit (source : String) (strictness : Strictness) :
    (∀ scan : Scan, (∃ result, scan.step source strictness = .ok result) ↔
      ∀ c ∈ scan.cuts source, c.span.Fits c.text) ∧
    (∀ (n : Nat) (scan : Scan), Leads source strictness n {} scan → ∀ c ∈ scan.cuts source,
      c.span.start ≤ c.span.stop ∧ c.span.stop ≤ c.text.utf8ByteSize ∧
        (String.Pos.Raw.mk c.span.start).IsValid c.text ∧
        (String.Pos.Raw.mk c.span.stop).IsValid c.text) ∧
    ∃ final, run source strictness (budget source) {} = .ok final := by
  have hinit := stands_init source strictness
  refine ⟨exists_step_eq_ok_iff source strictness, ?reached, ?whole⟩
  case reached =>
    intro n scan hleads c hc
    obtain ⟨left, -, hstands⟩ := hleads.stands hinit
    obtain ⟨left', -, hproceeds⟩ := hstands.proceeds
    have hok : ∃ result, scan.step source strictness = .ok result := by
      generalize scan.step source strictness = result at hproceeds ⊢
      cases hproceeds with
      | more => exact ⟨_, rfl⟩
      | finished => exact ⟨_, rfl⟩
    obtain ⟨hle, hstart, hstop⟩ := (exists_step_eq_ok_iff source strictness scan).1 hok c hc
    exact ⟨hle, hstop.le_utf8ByteSize, hstart, hstop⟩
  case whole =>
    obtain ⟨final, hrun, -⟩ := run_of_stands hinit
    exact ⟨final, hrun⟩

/-- Gone back behind the dollar sign, the scan walks through the bytes of one
character and copies it whole. -/
theorem cuts_fit_rewound :
    1 ≤ 3 ∧ 3 ≤ "$é".utf8ByteSize ∧
      (String.Pos.Raw.mk 1).IsValid "$é" ∧ (String.Pos.Raw.mk 3).IsValid "$é" := by
  let error : SyntaxError := ⟨.invalidPlaceholder, 1, 0, 1, 2⟩
  let broken : Scan := { position := 1, literal := "$", copiedTo := 1, errors := #[error] }
  have hdollar : step "$é" .lenient {} =
      .ok (.more { position := 1, reading := .dollar 0 }) := by decide +kernel
  have hback : step "$é" .lenient { position := 1, reading := .dollar 0 } =
      .ok (.more broken) := by decide +kernel
  have hinside : step "$é" .lenient broken = .ok (.more { broken with position := 2 }) := by
    decide +kernel
  have hbehind : step "$é" .lenient { broken with position := 2 } =
      .ok (.more { broken with position := 3 }) := by decide +kernel
  have hleads : Leads "$é" .lenient 4 {} { broken with position := 3 } :=
    .step hdollar (.step hback (.step hinside (.step hbehind (.refl _))))
  exact (cuts_fit "$é" .lenient).2.1 4 _ hleads ⟨"$é", ⟨1, 3⟩⟩ (by decide +kernel)

end Scan

end TextTemplate
