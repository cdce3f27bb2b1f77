/-
TextTemplate.Proofs.ScanSteps — every step of a scan, and how many there are.

A step reads one byte, and what it makes of it is one of a few things: it
turns to another reading, ends a segment, or breaks a placeholder off.
`Outcome` lists them with the cuts each makes, and `outcome_step` says that
there are no others. What follows about steps goes by that list.

`Leads` counts the steps from one scan to another, and a run is such a walk
with one last step (`run_eq_ok_iff`). Where a scan stands in its source and
how many steps it has left is `Stands`, which every step keeps; so the way
is never longer than the budget.

Not every step goes on. A bare name leaves the byte that ended it to be read
again, and a lenient scan goes back behind the dollar sign of a malformed
placeholder (`Moves`). What is read again then holds no dollar sign up to the
byte that broke it, and each error is over before the next begins; so no two
placeholders have the same bytes read again. That is `run_ends`.
-/
import TextTemplate.Proofs.Dollars

namespace TextTemplate

namespace Scan

/-! ## What a step does -/

/-- Reading a character that decides nothing. -/
inductive Turns : Reading → Char → Reading → Prop where
  | text {c : Char} (h : c ≠ '$') : Turns .text c .text
  | brace {start : Nat} : Turns (.dollar start) '\x7b' (.brace start)
  | bareName {start : Nat} {c : Char} (h : Identifier.isStart c = true) :
      Turns (.dollar start) c (.bareName start)
  | inBareName {start : Nat} {c : Char} (h : Identifier.isContinue c = true) :
      Turns (.bareName start) c (.bareName start)
  | bracedName {start : Nat} {c : Char} (h : Identifier.isStart c = true) :
      Turns (.brace start) c (.bracedName start)
  | inBracedName {start : Nat} {c : Char} (h : Identifier.isContinue c = true) :
      Turns (.bracedName start) c (.bracedName start)

/-- What was opened at `start` can become nothing any more. -/
inductive Fails (unit : Option Char) (start : Nat) : Reading → SyntaxError.Kind → Prop where
  | alone (h : ∀ c ∈ unit, c ≠ '$' ∧ c ≠ '\x7b' ∧ Identifier.isStart c = false) :
      Fails unit start (.dollar start) .invalidPlaceholder
  | nameless {c : Char} (hunit : unit = some c) (h : Identifier.isStart c = false) :
      Fails unit start (.brace start) .invalidPlaceholder
  | cutShort (hunit : unit = none) : Fails unit start (.brace start) .unterminatedBrace
  | unclosed (h : ∀ c ∈ unit, Identifier.isContinue c = false ∧ c ≠ '\x7d') :
      Fails unit start (.bracedName start) .unterminatedBrace

/-- What a step comes to, by what the scan was reading and what it reads
next. Where a piece of the source is cut out, the step succeeds if that
does. -/
inductive Outcome (source : String) (strictness : Strictness) (scan : Scan) :
    Except Fault Step → Prop where
  /-- A byte is looked at and nothing else. -/
  | turn {c : Char} {reading : Reading} (unit : unitAt? source scan.position = some c)
      (turns : Turns scan.reading c reading) : Outcome source strictness scan
        (.ok (advance reading scan))
  /-- Two dollar signs are one. -/
  | escape {start : Nat} (reading : scan.reading = .dollar start)
      (unit : unitAt? source scan.position = some '$') : Outcome source strictness scan
        (.ok (advance .text
          { scan with literal := scan.literal.push '$', copiedTo := scan.position + 1 }))
  /-- Text ends at a dollar sign. -/
  | opens (reading : scan.reading = .text) (unit : unitAt? source scan.position = some '$') :
      Outcome source strictness scan
        ((scan.copyUpTo source scan.position).map (advance (.dollar scan.position)))
  /-- Text ends with the source. -/
  | ends (reading : scan.reading = .text) (unit : unitAt? source scan.position = none) :
      Outcome source strictness scan
        ((scan.endLiteral source source.utf8ByteSize).map .finished)
  /-- A bare name ends with the source. -/
  | lastName {start : Nat} (reading : scan.reading = .bareName start)
      (unit : unitAt? source scan.position = none) : Outcome source strictness scan
        ((scan.addPlaceholder source .bare ⟨start, scan.position⟩
          ⟨start + 1, scan.position⟩).map .finished)
  /-- A bare name ends at a byte that is read again. -/
  | name {start : Nat} {c : Char} (reading : scan.reading = .bareName start)
      (unit : unitAt? source scan.position = some c) (stops : Identifier.isContinue c = false) :
      Outcome source strictness scan
        ((scan.addPlaceholder source .bare ⟨start, scan.position⟩ ⟨start + 1, scan.position⟩).map
          fun next => .more { next with reading := .text })
  /-- A braced name ends at its brace. -/
  | closes {start : Nat} (reading : scan.reading = .bracedName start)
      (unit : unitAt? source scan.position = some '\x7d') : Outcome source strictness scan
        ((scan.addPlaceholder source .braced ⟨start, scan.position + 1⟩
          ⟨start + 2, scan.position⟩).map (advance .text))
  /-- A malformed placeholder is broken off. -/
  | fails {kind : SyntaxError.Kind} {start : Nat}
      (fails : Fails (unitAt? source scan.position) start scan.reading kind) :
      Outcome source strictness scan (scan.breakOff source strictness kind start)

theorem bind_eq_ok_iff {α β : Type} {x : Except Fault α} {f : α → Except Fault β} {b : β} :
    x >>= f = .ok b ↔ ∃ a, x = .ok a ∧ f a = .ok b := by
  cases x with
  | error fault => exact ⟨fun h => (by cases h), fun ⟨_, h, _⟩ => (by cases h)⟩
  | ok a => exact ⟨fun h => ⟨a, rfl, h⟩, fun ⟨_, ha, h⟩ => (by cases ha; exact h)⟩

theorem map_eq_ok_iff {α β : Type} {x : Except Fault α} {f : α → β} {b : β} :
    x.map f = .ok b ↔ ∃ a, x = .ok a ∧ b = f a := by
  cases x with
  | error fault => exact ⟨fun h => (by cases h), fun ⟨_, h, _⟩ => (by cases h)⟩
  | ok a =>
    simp [Except.map, eq_comm]

theorem bind_pure_eq_map {α β : Type} (f : α → β) (x : Except Fault α) :
    (do return f (← x)) = x.map f := by
  cases x <;> rfl

section

variable {source : String} {strictness : Strictness} {scan : Scan} {start : Nat}

theorem outcome_stepText (h : scan.reading = .text) :
    Outcome source strictness scan (scan.stepText source (unitAt? source scan.position)) := by
  unfold stepText
  split
  · next hunit =>
    rw [bind_pure_eq_map]
    exact .ends h hunit
  · next hunit =>
    rw [bind_pure_eq_map]
    exact .opens h hunit
  · next c hdollar hunit =>
    exact .turn hunit (h ▸ .text hdollar)

theorem outcome_stepDollar (h : scan.reading = .dollar start) :
    Outcome source strictness scan
      (scan.stepDollar source strictness start (unitAt? source scan.position)) := by
  unfold stepDollar
  split
  · next hunit => exact .fails (by rw [hunit, h]; exact .alone (by simp))
  · next c hunit =>
    split
    · next hc => exact .escape h (by rw [hunit, hc])
    · next hdollar =>
      split
      · next hc => exact .turn hunit (by rw [h, hc]; exact .brace)
      · next hbrace =>
        split
        · next hc => exact .turn hunit (by rw [h]; exact .bareName hc)
        · next hc => exact .fails (by rw [hunit, h]; exact .alone (by simp [hdollar, hbrace, hc]))

theorem outcome_stepBrace (h : scan.reading = .brace start) :
    Outcome source strictness scan
      (scan.stepBrace source strictness start (unitAt? source scan.position)) := by
  unfold stepBrace
  split
  · next hunit => exact .fails (by rw [hunit, h]; exact .cutShort rfl)
  · next c hunit =>
    split
    · next hc => exact .turn hunit (by rw [h]; exact .bracedName hc)
    · next hc => exact .fails (by rw [hunit, h]; exact .nameless rfl (by simpa using hc))

theorem outcome_stepBareName (h : scan.reading = .bareName start) :
    Outcome source strictness scan
      (scan.stepBareName source start (unitAt? source scan.position)) := by
  unfold stepBareName
  simp only
  split
  · next hunit =>
    rw [bind_pure_eq_map]
    exact .lastName h hunit
  · next c hunit =>
    split
    · next hc => exact .turn hunit (by rw [h]; exact .inBareName hc)
    · next hc =>
      rw [bind_pure_eq_map]
      exact .name h hunit (by simpa using hc)

theorem outcome_stepBracedName (h : scan.reading = .bracedName start) :
    Outcome source strictness scan
      (scan.stepBracedName source strictness start (unitAt? source scan.position)) := by
  unfold stepBracedName
  split
  · next hunit => exact .fails (by rw [hunit, h]; exact .unclosed (by simp))
  · next c hunit =>
    split
    · next hc => exact .turn hunit (by rw [h]; exact .inBracedName hc)
    · next hc =>
      split
      · next hbrace =>
        simp only
        rw [bind_pure_eq_map]
        exact .closes h (by rw [hunit, hbrace])
      · next hbrace => exact .fails (by rw [hunit, h]; exact .unclosed (by simp [hc, hbrace]))

/-- **Every step** is one of these. -/
theorem outcome_step (source : String) (strictness : Strictness) (scan : Scan) :
    Outcome source strictness scan (scan.step source strictness) := by
  unfold step
  split
  · next h => exact outcome_stepText h
  · next h => exact outcome_stepDollar h
  · next h => exact outcome_stepBrace h
  · next h => exact outcome_stepBareName h
  · next h => exact outcome_stepBracedName h

end

/-! ## Many steps -/

/-- So many steps lead from one scan to another, and none of them is the
last. -/
inductive Leads (source : String) (strictness : Strictness) : Nat → Scan → Scan → Prop where
  | refl (scan : Scan) : Leads source strictness 0 scan scan
  | step {n : Nat} {scan between last : Scan}
      (first : scan.step source strictness = .ok (.more between))
      (more : Leads source strictness n between last) : Leads source strictness (n + 1) scan last

section

variable {source : String} {strictness : Strictness} {scan last : Scan} {n : Nat}

/-- A run is one step and, where that is not the last, the rest of the run. -/
theorem run_succ (budget : Nat) :
    run source strictness (budget + 1) scan =
      match scan.step source strictness with
      | .error fault => .error fault
      | .ok (.more next) => run source strictness budget next
      | .ok (.finished final) => .ok final := by
  rw [run]
  rcases scan.step source strictness with _ | _ | _ <;> rfl

/-- A run that comes to an end has taken fewer steps than its budget before
the last. -/
theorem run_eq_ok_iff {budget : Nat} {final : Scan} :
    run source strictness budget scan = .ok final ↔
      ∃ n last, n < budget ∧ Leads source strictness n scan last ∧
        last.step source strictness = .ok (.finished final) := by
  induction budget generalizing scan with
  | zero => simp [run]
  | succ budget ih =>
    rw [run_succ]
    constructor
    · intro h
      split at h
      · cases h
      · next next hstep =>
        obtain ⟨n, last, hlt, hleads, hlast⟩ := ih.1 h
        exact ⟨n + 1, last, by omega, .step hstep hleads, hlast⟩
      · next hstep =>
        cases h
        exact ⟨0, scan, by omega, .refl scan, hstep⟩
    · intro h
      obtain ⟨n, last, hlt, hleads, hlast⟩ := h
      cases hleads with
      | refl => rw [hlast]
      | @step n _ next _ hstep hleads =>
        rw [hstep]
        exact ih.2 ⟨n, last, by omega, hleads, hlast⟩

theorem Stands.proceeds {left : Nat} (h : Stands source strictness left scan) :
    ∃ left', left = left' + 1 ∧
      Proceeds source strictness left' (scan.step source strictness) := by
  obtain ⟨left, rfl⟩ := Nat.exists_eq_succ_of_ne_zero h.left_pos.ne'
  exact ⟨left, rfl, step_of_stands h⟩

theorem Stands.next {left : Nat} {next : Scan} (h : Stands source strictness left scan)
    (hstep : scan.step source strictness = .ok (.more next)) :
    ∃ left', left = left' + 1 ∧ Stands source strictness left' next := by
  obtain ⟨left', hleft, hproceeds⟩ := h.proceeds
  rw [hstep] at hproceeds
  cases hproceeds with
  | more hnext => exact ⟨left', hleft, hnext⟩

/-- A scan of a source stands somewhere in it after every step. -/
theorem Leads.stands {left : Nat} (h : Leads source strictness n scan last)
    (hstands : Stands source strictness left scan) :
    ∃ left', left = left' + n ∧ Stands source strictness left' last := by
  induction h generalizing left with
  | refl => exact ⟨left, rfl, hstands⟩
  | step hstep _ ih =>
    obtain ⟨left, rfl, hnext⟩ := hstands.next hstep
    obtain ⟨left', rfl, hlast⟩ := ih hnext
    exact ⟨left', by omega, hlast⟩

theorem Stands.exists_settled {left : Nat} (h : Stands source strictness left scan) :
    ∃ closed pending run rest, Settled source strictness closed pending run rest scan := by
  cases h with
  | text settled => exact ⟨_, _, _, _, settled⟩
  | opening settled => exact ⟨_, _, _, _, settled⟩

/-- What a scan has recorded so far are the first of the errors of its source. -/
theorem Stands.errors_prefix {left : Nat} (h : Stands source strictness left scan) :
    scan.errors.toList <+: (Template.salvage source).errors := by
  obtain ⟨closed, pending, run, rest, hsettled⟩ := h.exists_settled
  rw [Template.salvage_eq, hsettled.tokens_eq, errorsFrom_append, ← hsettled.errors_eq]
  exact List.prefix_append _ _

/-- It keeps them to its end. -/
theorem Stands.errors_prefix_ofSource {left : Nat} (h : Stands source strictness left scan) :
    scan.errors.toList <+: (ofSource source strictness).errors.toList := by
  cases strictness with
  | lenient => exact h.errors_prefix
  | strict =>
    -- a strict scan under way has recorded nothing
    obtain ⟨closed, pending, run, rest, hsettled⟩ := h.exists_settled
    rw [hsettled.errors_eq, (errorsFrom_eq_nil_iff []).2 (hsettled.strict rfl)]
    exact List.nil_prefix

end

end Scan

/-! ## Where a step leads -/

theorem SyntaxError.opened_of_at? {source : String} {kind : SyntaxError.Kind}
    {opened position : Nat} {e : SyntaxError} (h : at? source kind opened position = some e) :
    e.opened = opened ∧ e.position = position := by
  obtain ⟨place, -, he⟩ := Option.bind_eq_some_iff.1 h
  obtain rfl := Option.some.inj he
  exact ⟨rfl, rfl⟩

/-- An error begins with a dollar sign, and there is no other up to the byte
it is reported at. -/
theorem Template.dollar_of_mem_errors {source : String} {e : SyntaxError}
    (he : e ∈ (salvage source).errors) :
    unitAt? source e.opened = some '$' ∧
      ∀ i, e.opened < i → i < e.position → unitAt? source i ≠ some '$' := by
  obtain ⟨front, after, read, rest, hfront, hstray, hopened, hposition, -⟩ :=
    exists_begins_of_mem_errors he
  rw [hopened, hposition]
  exact ⟨(unitAt?_eq_some_iff hfront (by decide)).2 rfl,
    fun i hlt hi => hstray.unitAt?_ne_dollar hfront hlt hi⟩

namespace Scan

/-- A step that is not the last goes one byte on, or stays in front of the
byte that ends a bare name, or goes back behind the dollar sign of a
malformed placeholder, which it records. From there on to the byte that broke
the placeholder no other dollar sign is read again. -/
inductive Moves (source : String) (strictness : Strictness) (scan next : Scan) : Prop where
  | ahead (position : next.position = scan.position + 1) (errors : next.errors = scan.errors)
  | again {start : Nat} (reading : scan.reading = .bareName start) (resumes : next.reading = .text)
      (position : next.position = scan.position) (errors : next.errors = scan.errors)
  | back {error : SyntaxError} (lenient : strictness = .lenient) (resumes : next.reading = .text)
      (errors : next.errors = scan.errors.push error) (position : next.position = error.opened + 1)
      (broken : error.position = scan.position) (dollar : unitAt? source error.opened = some '$')
      (plain : ∀ i, next.position ≤ i → i < error.position → unitAt? source i ≠ some '$')

section

variable {source : String} {strictness : Strictness} {scan next : Scan}

theorem copyUpTo_keeps {stop : Nat} (h : scan.copyUpTo source stop = .ok next) :
    next.position = scan.position ∧ next.errors = scan.errors := by
  unfold copyUpTo at h
  obtain ⟨run, -, hnext⟩ := bind_eq_ok_iff.1 h
  cases hnext
  exact ⟨rfl, rfl⟩

/-- A literal is ended when what is left of it is copied. -/
theorem endLiteral_eq_map (source : String) (stop : Nat) (scan : Scan) :
    scan.endLiteral source stop =
      (if scan.copiedTo < stop then scan.copyUpTo source stop else .ok scan).map fun copied =>
        if copied.literalFrom < stop then
          { copied with
            literal := "", literalFrom := stop, copiedTo := stop
            segments := copied.segments.push (.literal copied.literal ⟨copied.literalFrom, stop⟩) }
        else { copied with literalFrom := stop, copiedTo := stop } := by
  unfold endLiteral
  split
  · cases scan.copyUpTo source stop with
    | error fault => rfl
    | ok copied =>
      show (if copied.literalFrom < stop then _ else _) =
        Except.ok (if copied.literalFrom < stop then _ else _)
      split <;> rfl
  · show (if scan.literalFrom < stop then _ else _) =
      Except.ok (if scan.literalFrom < stop then _ else _)
    split <;> rfl

theorem endLiteral_keeps {stop : Nat} (h : scan.endLiteral source stop = .ok next) :
    next.position = scan.position ∧ next.errors = scan.errors := by
  rw [endLiteral_eq_map] at h
  obtain ⟨copied, hcopied, hnext⟩ := map_eq_ok_iff.1 h
  have hkeeps : copied.position = scan.position ∧ copied.errors = scan.errors := by
    split at hcopied
    · exact copyUpTo_keeps hcopied
    · cases hcopied
      exact ⟨rfl, rfl⟩
  rw [hnext]
  split
  · exact hkeeps
  · exact hkeeps

theorem addPlaceholder_keeps {style : Style} {span name : Span}
    (h : scan.addPlaceholder source style span name = .ok next) :
    next.position = scan.position ∧ next.errors = scan.errors := by
  unfold addPlaceholder at h
  obtain ⟨ended, hended, h⟩ := bind_eq_ok_iff.1 h
  obtain ⟨text, -, hnext⟩ := bind_eq_ok_iff.1 h
  have hkeeps := endLiteral_keeps hended
  cases hnext
  exact hkeeps

/-- Breaking off and going on is going back, and only a lenient scan does. -/
theorem breakOff_eq_more_iff {kind : SyntaxError.Kind} {start : Nat} :
    scan.breakOff source strictness kind start = .ok (.more next) ↔
      strictness = .lenient ∧
        ∃ error, SyntaxError.at? source kind start scan.position = some error ∧
          next = { scan with
            literal := scan.literal.push '$', copiedTo := start + 1, reading := .text
            position := start + 1, errors := scan.errors.push error } := by
  unfold breakOff
  cases SyntaxError.at? source kind start scan.position with
  | none => exact ⟨fun h => (by cases h), fun ⟨_, _, h, _⟩ => (by cases h)⟩
  | some error =>
    cases strictness with
    | strict => exact ⟨fun h => (by cases h), fun ⟨h, _⟩ => (by cases h)⟩
    | lenient =>
      constructor
      · intro h
        cases h
        exact ⟨rfl, error, rfl, rfl⟩
      · intro ⟨_, error', herror, hnext⟩
        cases herror
        rw [hnext]
        rfl

/-- What is recorded is an error of the source, and it is told by its dollar
sign and the byte that broke it. -/
theorem Stands.moves {left : Nat} (h : Stands source strictness left scan)
    (hstep : scan.step source strictness = .ok (.more next)) :
    Moves source strictness scan next := by
  obtain ⟨left', -, hnext⟩ := h.next hstep
  have houtcome := outcome_step source strictness scan
  generalize scan.step source strictness = result at houtcome hstep
  cases houtcome with
  | turn =>
    cases hstep
    exact .ahead rfl rfl
  | escape =>
    cases hstep
    exact .ahead rfl rfl
  | opens =>
    obtain ⟨copied, hcopied, hmore⟩ := map_eq_ok_iff.1 hstep
    obtain ⟨hposition, herrors⟩ := copyUpTo_keeps hcopied
    cases hmore
    exact .ahead (congrArg (· + 1) hposition) herrors
  | ends =>
    obtain ⟨_, -, hmore⟩ := map_eq_ok_iff.1 hstep
    cases hmore
  | lastName =>
    obtain ⟨_, -, hmore⟩ := map_eq_ok_iff.1 hstep
    cases hmore
  | name hreading =>
    obtain ⟨added, hadded, hmore⟩ := map_eq_ok_iff.1 hstep
    obtain ⟨hposition, herrors⟩ := addPlaceholder_keeps hadded
    cases hmore
    exact .again hreading rfl hposition herrors
  | closes =>
    obtain ⟨added, hadded, hmore⟩ := map_eq_ok_iff.1 hstep
    obtain ⟨hposition, herrors⟩ := addPlaceholder_keeps hadded
    cases hmore
    exact .ahead (congrArg (· + 1) hposition) herrors
  | fails =>
    -- that what was recorded is an error of the source is known of the next scan
    obtain ⟨hlenient, error, hat, rfl⟩ := breakOff_eq_more_iff.1 hstep
    have hmem : error ∈ (Template.salvage source).errors :=
      hnext.errors_prefix.subset (by simp)
    obtain ⟨hopened, hposition⟩ := SyntaxError.opened_of_at? hat
    obtain ⟨hdollar, hplain⟩ := Template.dollar_of_mem_errors hmem
    refine .back hlenient rfl rfl (by rw [hopened]) hposition hdollar ?_
    intro i hle hlt
    exact hplain i (by rw [hopened]; exact hle) hlt

/-- The errors of a finished scan are among those of its source. -/
theorem Finished.errors_sublist {final : Scan} (h : Finished source strictness final) :
    final.errors.toList.Sublist (Template.salvage source).errors := by
  rw [Template.salvage_eq]
  cases h with
  | whole _ _ herrors => rw [herrors]
  | broken _ herrors hfirst =>
    rw [herrors, hfirst]
    exact List.Sublist.cons_cons _ (List.nil_sublist _)

/-- **A scan ends**: after two steps at most for every byte of its source and
two more. A step goes back only behind the dollar sign of a malformed
placeholder, which it records, and what is read again up to the byte that
broke it has no dollar sign in it. What is recorded stays recorded, and no
dollar sign is recorded twice; so no placeholder is broken twice, and no byte
is read again on account of two. -/
theorem run_ends (source : String) (strictness : Strictness) :
    (∃ n last final, n + 1 ≤ 2 * (source.utf8ByteSize + 1) ∧
      Leads source strictness n {} last ∧ last.step source strictness = .ok (.finished final) ∧
      final = ofSource source strictness) ∧
    (∀ n scan next, Leads source strictness n {} scan →
      scan.step source strictness = .ok (.more next) →
        Moves source strictness scan next ∧
          next.errors.toList <+: (ofSource source strictness).errors.toList) ∧
    (ofSource source strictness).errors.toList.Pairwise
      (fun e f => e.opened < f.opened ∧ e.position ≤ f.opened) := by
  have hinit := stands_init source strictness
  refine ⟨?ends, ?moves, ?once⟩
  case ends =>
    obtain ⟨final, hrun, -⟩ := run_of_stands hinit
    obtain ⟨n, last, hlt, hleads, hlast⟩ := run_eq_ok_iff.1 hrun
    exact ⟨n, last, final, hlt, hleads, hlast, by rw [ofSource, hrun]⟩
  case moves =>
    intro n scan next hleads hstep
    obtain ⟨left, -, hstands⟩ := hleads.stands hinit
    obtain ⟨left', -, hnext⟩ := hstands.next hstep
    exact ⟨hstands.moves hstep, hnext.errors_prefix_ofSource⟩
  case once =>
    have hsublist := (finished_ofSource source strictness).errors_sublist
    refine ((Template.pairwise_errors source).imp_of_mem ?_).sublist hsublist
    intro e f he _ hover
    have hwide := Template.opened_lt_position he
    exact ⟨by omega, hover⟩

/-- Back from the second dollar sign behind the first. -/
theorem run_ends_nested :
    Moves "$\x7ba$" .lenient { position := 3, reading := .bracedName 0 }
      { position := 1, literal := "$", copiedTo := 1
        errors := #[⟨.unterminatedBrace, 3, 0, 1, 4⟩] } := by
  have hdollar : step "$\x7ba$" .lenient {} =
      .ok (.more { position := 1, reading := .dollar 0 }) := by decide +kernel
  have hbrace : step "$\x7ba$" .lenient { position := 1, reading := .dollar 0 } =
      .ok (.more { position := 2, reading := .brace 0 }) := by decide +kernel
  have hname : step "$\x7ba$" .lenient { position := 2, reading := .brace 0 } =
      .ok (.more { position := 3, reading := .bracedName 0 }) := by decide +kernel
  have hopened : Leads "$\x7ba$" .lenient 3 {} { position := 3, reading := .bracedName 0 } :=
    .step hdollar (.step hbrace (.step hname (.refl _)))
  exact ((run_ends "$\x7ba$" .lenient).2.1 3 _ _ hopened (by decide +kernel)).1

end

end Scan

end TextTemplate
