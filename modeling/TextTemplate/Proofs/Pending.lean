/-
TextTemplate.Proofs.Pending — what a scan has in hand at every step.

Of the literal it is at a scan keeps a text and three offsets: where the
literal begins, up to where the source has gone into the text, and the byte
that is read next. They are set in different places and one of them goes
back. `Accounts` says how they hang together whenever a step is to be made:
they are in order, the segments there are lie over the source up to the first,
the text is the source from there to the second with its escapes collapsed,
and from the second on stands text without a dollar sign, or what was opened
and is not yet decided.

It follows that nothing pending gets lost. Ending a literal makes a segment
only where it covers something, and leaves the text behind otherwise; but
where it covers nothing there is no text. `endsLiteralAt?` says which steps
end a literal and where, and `step_pending` that any other step keeps the
text and at most adds to it.
-/
import TextTemplate.Proofs.ScanSteps
import TextTemplate.Proofs.Unresolved

namespace TextTemplate

/-- What follows without a dollar sign is not drawn into a pair. -/
theorem collapse_append_plain (cs : List Char) {rest : List Char} (h : '$' ∉ rest) :
    collapse (cs ++ rest) = collapse cs ++ rest := by
  induction cs using collapse.induct with
  | case1 cs ih =>
    show '$' :: collapse (cs ++ rest) = _
    rw [ih, collapse]
    rfl
  | case2 c cs hpair ih =>
    have hhead : c = '$' → (cs ++ rest).head? ≠ some '$' := by
      intro hc hsecond
      cases cs with
      | nil => exact h (List.mem_of_mem_head? hsecond)
      | cons d cs => exact hpair cs hc (congrArg (· :: cs) (Option.some.inj hsecond))
    rw [List.cons_append, collapse_cons hhead, ih, collapse]
    · rfl
    · exact hpair
  | case3 =>
    have hplain := collapse_append h []
    rw [List.append_nil] at hplain
    rw [List.nil_append, hplain]
    exact List.append_nil rest

/-- Nothing is read past the end only. -/
theorem le_of_unitAt?_eq_none {text : String} {offset : Nat} (h : unitAt? text offset = none) :
    text.utf8ByteSize ≤ offset := by
  unfold unitAt? at h
  split at h
  · cases h
  · next hlt => exact Nat.not_lt.1 hlt

/-- The scan that a step leads to, whether it goes on or not. -/
def Step.scan : Step → Scan
  | .more scan => scan
  | .finished scan => scan

namespace Scan

/-! ## What is in hand -/

/-- What the fields of a scan under way say about its source. -/
structure Accounts (source : String) (scan : Scan) : Prop where
  literalFrom_le : scan.literalFrom ≤ scan.copiedTo
  copiedTo_le : scan.copiedTo ≤ scan.position
  position_le : scan.position ≤ source.utf8ByteSize
  tiles : Tiles 0 scan.segments.toList scan.literalFrom
  covers : ∀ s ∈ scan.segments.toList, s.Covers source
  literal : ∃ part, (Span.mk scan.literalFrom scan.copiedTo).cut? source = some part ∧
    scan.literal = collapsed part
  /-- What is yet to be copied has no dollar sign in it. -/
  text : scan.reading = .text →
    ∀ i, scan.copiedTo ≤ i → i < scan.position → unitAt? source i ≠ some '$'
  /-- What was opened begins with the dollar sign that was copied up to. -/
  opened : scan.reading ≠ .text → scan.copiedTo < scan.position ∧
    unitAt? source scan.copiedTo = some '$' ∧
    ∃ read, Saw scan.copiedTo scan.reading read ∧
      (Span.mk scan.copiedTo scan.position).cut? source = some (String.ofList read)

/-- Where the next step ends the literal, if it does: at the end of the
source, or in front of the placeholder that it puts in. -/
def endsLiteralAt? (source : String) (scan : Scan) : Option Nat :=
  match scan.reading, unitAt? source scan.position with
  | .text, none => some source.utf8ByteSize
  | .bareName start, unit => if unit.any Identifier.isContinue then none else some start
  | .bracedName start, unit => if unit = some '\x7d' then some start else none
  | _, _ => none

section

variable {source : String} {strictness : Strictness} {closed pending : List Token}
  {run rest : List Char} {scan : Scan}

/-! ## From what is settled -/

/-- The source of the pending tokens can be cut out, whole or as far as it is
copied. -/
theorem Settled.cut_pending (h : Settled source strictness closed pending run rest scan) :
    (Span.mk scan.literalFrom (byteLength (sourceOf (closed ++ pending)))).cut? source =
      some (String.ofList (sourceOf pending)) := by
  have hsplit : source.toList = sourceOf closed ++ sourceOf pending ++ rest := by
    rw [h.source_eq, sourceOf_append]
  rw [h.literalFrom_eq, sourceOf_append, byteLength_append]
  exact Span.cut?_of_toList hsplit

theorem Settled.collapse_eq (h : Settled source strictness closed pending run rest scan) :
    collapse (sourceOf pending) = textOf pending := by
  have hwhole := tokenizes_tokens source.toList
  rw [h.tokens_eq, List.append_assoc] at hwhole
  obtain ⟨after, -, hafter⟩ := hwhole.exists_append
  exact hafter.collapse_run h.isText

/-- The text of a literal is what is copied of its source, collapsed. -/
theorem Settled.literal_eq_collapsed
    (h : Settled source strictness closed pending run rest scan) :
    ∃ part, (Span.mk scan.literalFrom scan.copiedTo).cut? source = some part ∧
      scan.literal = collapsed part := by
  obtain ⟨copied, hsource, hto⟩ := h.copied
  have hsplit : source.toList = sourceOf closed ++ copied ++ (run ++ rest) := by
    rw [h.source_eq, sourceOf_append, hsource]
    simp
  have hcut := Span.cut?_of_toList hsplit
  rw [← hto, ← h.literalFrom_eq] at hcut
  refine ⟨_, hcut, ?_⟩
  -- the run that is not copied stands behind both, the text and its source
  have hboth : scan.literal.toList ++ run = collapse copied ++ run := by
    rw [h.literal_eq, ← h.collapse_eq, hsource, collapse_append_plain copied h.plain]
  rw [collapsed, String.toList_ofList, ← List.append_cancel_right hboth, String.ofList_toList]

theorem Settled.covers (h : Settled source strictness closed pending run rest scan) :
    ∀ s ∈ scan.segments.toList, s.Covers source := by
  have hsource : source.toList = [] ++ source.toList := rfl
  have hall := (tokenizes_tokens source.toList).covers_segmentsFrom hsource
  rw [byteLength_nil, h.tokens_eq, List.append_assoc, segmentsFrom_append_of_closed h.isClosed,
    ← h.segments_eq, List.forall_mem_append] at hall
  exact hall.1

theorem Settled.tiles (h : Settled source strictness closed pending run rest scan) :
    Tiles 0 scan.segments.toList scan.literalFrom := by
  have htiles := tiles_segmentsFrom closed 0
  rwa [Nat.zero_add, ← h.segments_eq, ← h.literalFrom_eq] at htiles

theorem Settled.literalFrom_le (h : Settled source strictness closed pending run rest scan) :
    scan.literalFrom ≤ scan.copiedTo := by
  obtain ⟨copied, -, hto⟩ := h.copied
  rw [h.literalFrom_eq, hto]
  exact Nat.le_add_right _ _

/-- Where nothing is opened, all that was read and not copied is text. -/
theorem Settled.accounts_text {inside : Nat}
    (h : Settled source strictness closed pending run rest scan) (hreading : scan.reading = .text)
    (hposition : scan.position = byteLength (sourceOf (closed ++ pending)) + inside)
    (hwhole : inside = 0 ∨ ∃ c more, rest = c :: more ∧ inside < c.utf8Size) :
    Accounts source scan := by
  have hto := h.copiedTo_add
  obtain ⟨copied, hsource, hcopied⟩ := h.copied
  have hfront : scan.copiedTo = byteLength (sourceOf closed ++ copied) := by
    rw [hcopied, byteLength_append]
  have hsplit : source.toList = (sourceOf closed ++ copied) ++ run ++ rest := by
    rw [h.source_eq, sourceOf_append, hsource]
    simp
  have hinside : inside ≤ byteLength rest ∧
      ∀ i, scan.copiedTo ≤ i → i < scan.position → unitAt? source i ≠ some '$' := by
    rcases hwhole with rfl | ⟨c, more, rfl, hlt⟩
    · refine ⟨Nat.zero_le _, ?_⟩
      intro i hle hi
      exact unitAt?_ne_dollar hsplit h.plain (hfront ▸ hle) (by omega)
    · refine ⟨by rw [byteLength_cons]; omega, ?_⟩
      intro i hle hi
      by_cases hc : c = '$'
      · -- a dollar sign has only one byte, so the scan is in front of it
        have hone : inside < 1 := by
          rw [hc] at hlt
          exact hlt
        exact unitAt?_ne_dollar hsplit h.plain (hfront ▸ hle) (by omega)
      · have hlonger : source.toList = (sourceOf closed ++ copied) ++ (run ++ [c]) ++ more := by
          rw [hsplit]
          simp
        have hplain : '$' ∉ run ++ [c] := by
          rw [List.mem_append, List.mem_singleton, not_or]
          exact ⟨h.plain, Ne.symm hc⟩
        refine unitAt?_ne_dollar hlonger hplain (hfront ▸ hle) ?_
        rw [byteLength_append run, byteLength_cons, byteLength_nil]
        omega
  have hsize := h.size_eq
  have hrun : scan.copiedTo ≤ scan.position := by omega
  exact {
    literalFrom_le := h.literalFrom_le
    copiedTo_le := hrun
    position_le := by omega
    tiles := h.tiles
    covers := h.covers
    literal := h.literal_eq_collapsed
    text := fun _ => hinside.2
    opened := fun hne => absurd hreading hne }

/-- Where something is opened, all in front of it is copied. -/
theorem Settled.accounts_opening {read after : List Char}
    (h : Settled source strictness closed pending [] (read ++ after) scan)
    (hsaw : Saw (byteLength (sourceOf (closed ++ pending))) scan.reading read)
    (hposition : scan.position = byteLength (sourceOf (closed ++ pending)) + byteLength read) :
    Accounts source scan := by
  have hto := h.copiedTo_add
  rw [byteLength_nil, Nat.add_zero] at hto
  have hsize := h.size_eq
  rw [byteLength_append] at hsize
  have hsource : source.toList = sourceOf (closed ++ pending) ++ read ++ after := by
    rw [h.source_eq, List.append_assoc]
  obtain ⟨more, hread, -⟩ := hsaw.eq_cons
  have hpos : 0 < byteLength read := byteLength_pos (by rw [hread]; exact List.cons_ne_nil _ _)
  exact {
    literalFrom_le := h.literalFrom_le
    copiedTo_le := by omega
    position_le := by omega
    tiles := h.tiles
    covers := h.covers
    literal := h.literal_eq_collapsed
    text := by
      intro htext
      rw [htext] at hsaw
      cases hsaw
    opened := by
      intro _
      rw [hposition, hto]
      refine ⟨by omega, ?_, read, hsaw, Span.cut?_of_toList hsource⟩
      rw [List.append_assoc] at hsource
      refine (unitAt?_eq_some_iff hsource (by decide)).2 ?_
      rw [hread]
      rfl }

theorem Stands.accounts {left : Nat} (h : Stands source strictness left scan) :
    Accounts source scan := by
  cases h with
  | text settled reading position whole => exact settled.accounts_text reading position whole
  | opening settled saw position => exact settled.accounts_opening saw position

/-- The pending tokens are one literal, or there are none. -/
theorem Settled.segmentsFrom_pending
    (h : Settled source strictness closed pending run rest scan) :
    segmentsFrom (byteLength (sourceOf closed)) pending =
      if String.ofList (sourceOf pending) = "" then []
      else [.literal (collapsed (String.ofList (sourceOf pending)))
        ⟨scan.literalFrom, byteLength (sourceOf (closed ++ pending))⟩] := by
  by_cases hnone : pending = []
  · subst hnone
    rw [segmentsFrom_nil]
    rfl
  · have hne : String.ofList (sourceOf pending) ≠ "" := fun h =>
      sourceOf_ne_nil hnone (String.ofList_eq_empty_iff.1 h)
    rw [if_neg hne, segmentsFrom_text _ h.isText hnone, collapsed, String.toList_ofList,
      h.collapse_eq, h.literalFrom_eq, sourceOf_append, byteLength_append]

/-- Where the literal begins where the pending tokens end, it has no text. -/
theorem Settled.literal_eq_empty (h : Settled source strictness closed pending run rest scan)
    (hfrom : scan.literalFrom = byteLength (sourceOf (closed ++ pending))) :
    scan.literal = "" := by
  rw [h.literalFrom_eq, sourceOf_append, byteLength_append] at hfrom
  have hnone : pending = [] := by
    by_contra hne
    have hpos := byteLength_sourceOf_pos hne
    omega
  have htext := h.literal_eq
  rw [hnone, textOf_nil, List.append_eq_nil_iff] at htext
  exact String.toList_eq_nil_iff.1 htext.1

/-! ## What a step does to it -/

theorem addPlaceholder_eq_ok_iff {style : Style} {span name : Span} {next : Scan} :
    scan.addPlaceholder source style span name = .ok next ↔
      ∃ ended text, scan.endLiteral source span.start = .ok ended ∧ cut source name = .ok text ∧
        next = { ended with
          literalFrom := span.stop, copiedTo := span.stop
          segments := ended.segments.push (.placeholder ⟨text, style, span⟩) } := by
  unfold addPlaceholder
  constructor
  · intro h
    obtain ⟨ended, hended, h⟩ := bind_eq_ok_iff.1 h
    obtain ⟨text, htext, hnext⟩ := bind_eq_ok_iff.1 h
    exact ⟨ended, text, hended, htext, (Except.ok.inj hnext).symm⟩
  · intro ⟨ended, text, hended, htext, hnext⟩
    rw [hnext]
    exact bind_eq_ok_iff.2 ⟨ended, hended, bind_eq_ok_iff.2 ⟨text, htext, rfl⟩⟩

/-- The step leaves the segments alone and at most adds to the text. -/
structure KeepsLiteral (scan next : Scan) : Prop where
  segments : next.segments = scan.segments
  literalFrom : next.literalFrom = scan.literalFrom
  literal : scan.literal.toList <+: next.literal.toList

/-- The step ends its literal at `stop`, and puts in a placeholder or nothing. -/
def EndsLiteral (source : String) (stop : Nat) (scan next : Scan) : Prop :=
  ∃ ended added, scan.endLiteral source stop = .ok ended ∧ next.literal = ended.literal ∧
    next.segments.toList = ended.segments.toList ++ added ∧ ∀ s ∈ added, s.isLiteral = false

/-- What is pending when a placeholder is broken off stays so. -/
theorem keepsLiteral_of_breakOff {kind : SyntaxError.Kind} {start : Nat} {result : Step}
    (h : scan.breakOff source strictness kind start = .ok result) :
    KeepsLiteral scan result.scan := by
  unfold breakOff at h
  cases hat : SyntaxError.at? source kind start scan.position with
  | none =>
    rw [hat] at h
    cases h
  | some error =>
    rw [hat] at h
    cases strictness with
    | strict =>
      cases h
      exact ⟨rfl, rfl, List.prefix_refl _⟩
    | lenient =>
      cases h
      exact ⟨rfl, rfl, by simp [Step.scan]⟩

theorem endsLiteral_of_addPlaceholder {style : Style} {span name : Span} {next : Scan}
    (h : scan.addPlaceholder source style span name = .ok next) :
    EndsLiteral source span.start scan next := by
  obtain ⟨ended, text, hended, -, rfl⟩ := addPlaceholder_eq_ok_iff.1 h
  exact ⟨ended, [.placeholder ⟨text, style, span⟩], hended, rfl, Array.toList_push,
    List.forall_mem_singleton.2 rfl⟩

/-- **A step keeps the pending text**, or it begins by ending the literal. -/
theorem step_pending {result : Step} (hstep : scan.step source strictness = .ok result) :
    (scan.endsLiteralAt? source = none ∧ KeepsLiteral scan result.scan) ∨
      ∃ stop, scan.endsLiteralAt? source = some stop ∧
        EndsLiteral source stop scan result.scan := by
  have houtcome := outcome_step source strictness scan
  rw [hstep] at houtcome
  generalize hresult : (Except.ok result : Except Fault Step) = x at houtcome
  unfold endsLiteralAt?
  cases houtcome with
  | turn hunit hturns =>
    cases hresult
    refine .inl ⟨?_, rfl, rfl, List.prefix_refl _⟩
    rw [hunit]
    generalize scan.reading = reading at hturns
    cases hturns with
    | inBareName hc => exact if_pos hc
    | inBracedName hc =>
      exact if_neg fun h => Identifier.ne_of_isContinue hc rfl (Option.some.inj h)
    | _ => rfl
  | escape hreading hunit =>
    cases hresult
    refine .inl ⟨?_, rfl, rfl, ?_⟩
    · rw [hreading]
    · simp [Step.scan, advance]
  | opens hreading hunit =>
    obtain ⟨copied, hcopied, rfl⟩ := map_eq_ok_iff.1 hresult.symm
    obtain ⟨run, -, hnext⟩ := bind_eq_ok_iff.1 hcopied
    cases hnext
    refine .inl ⟨?_, rfl, rfl, ?_⟩
    · rw [hreading, hunit]
    · simp [Step.scan, advance]
  | ends hreading hunit =>
    obtain ⟨ended, hended, rfl⟩ := map_eq_ok_iff.1 hresult.symm
    refine .inr ⟨source.utf8ByteSize, ?_, ended, [], hended, rfl, (List.append_nil _).symm, by simp⟩
    rw [hreading, hunit]
  | @lastName start hreading hunit =>
    obtain ⟨next, hnext, rfl⟩ := map_eq_ok_iff.1 hresult.symm
    refine .inr ⟨start, ?_, endsLiteral_of_addPlaceholder hnext⟩
    rw [hreading, hunit]
    rfl
  | @name start c hreading hunit hstops =>
    obtain ⟨next, hnext, rfl⟩ := map_eq_ok_iff.1 hresult.symm
    refine .inr ⟨start, ?_, endsLiteral_of_addPlaceholder hnext⟩
    rw [hreading, hunit]
    exact if_neg (by rw [Option.any_some, hstops]; exact Bool.false_ne_true)
  | @closes start hreading hunit =>
    obtain ⟨next, hnext, rfl⟩ := map_eq_ok_iff.1 hresult.symm
    refine .inr ⟨start, ?_, endsLiteral_of_addPlaceholder hnext⟩
    rw [hreading, hunit]
    rfl
  | fails hfails =>
    refine .inl ⟨?_, keepsLiteral_of_breakOff hresult.symm⟩
    generalize scan.reading = reading at hfails
    cases hfails with
    | unclosed h => exact if_neg fun hclose => (h _ hclose).2 rfl
    | _ => rfl

/-- A literal is ended where the pending tokens end. -/
theorem Stands.exists_settled_of_ends {left stop : Nat} (h : Stands source strictness left scan)
    (hstop : scan.endsLiteralAt? source = some stop) :
    ∃ closed pending run rest, Settled source strictness closed pending run rest scan ∧
      stop = byteLength (sourceOf (closed ++ pending)) := by
  cases h with
  | @text closed pending run rest reread inside settled reading position whole =>
    refine ⟨closed, pending, run, rest, settled, ?_⟩
    unfold endsLiteralAt? at hstop
    rw [reading] at hstop
    split at hstop
    case h_1 hend =>
      -- there is nothing left that the scan could be in front of or inside
      have hsize := settled.size_eq
      have hend := le_of_unitAt?_eq_none hend
      rcases whole with rfl | ⟨c, more, rfl, hinside⟩
      · rw [← Option.some.inj hstop]
        omega
      · rw [byteLength_cons] at hsize
        omega
    all_goals contradiction
  | @opening closed pending read after settled saw position =>
    refine ⟨closed, pending, [], read ++ after, settled, ?_⟩
    unfold endsLiteralAt? at hstop
    generalize scan.reading = reading at saw hstop
    cases saw with
    | dollar => cases hstop
    | brace => cases hstop
    | bareName => 
      simp only at hstop
      split at hstop
      · cases hstop
      · exact (Option.some.inj hstop).symm
    | bracedName =>
      simp only at hstop
      split at hstop
      · exact (Option.some.inj hstop).symm
      · cases hstop

end

/-! ## At every step -/

/-- **Nothing pending is lost.** Before each of its steps a scan accounts for
its source up to the byte it reads next. A step that does not end the literal
keeps its text. One that does makes a segment of all the source from where the
literal begins, collapsed, and has no text left; where the literal begins in
the place where it is to end, there was none. -/
theorem pending_accounted (source : String) (strictness : Strictness) (n : Nat) (scan : Scan)
    (h : Leads source strictness n {} scan) :
    Accounts source scan ∧
    (∀ result, scan.step source strictness = .ok result →
      (scan.endsLiteralAt? source = none ∧ KeepsLiteral scan result.scan) ∨
      ∃ stop, scan.endsLiteralAt? source = some stop ∧
        EndsLiteral source stop scan result.scan) ∧
    ∀ stop, scan.endsLiteralAt? source = some stop →
      (scan.literalFrom = stop → scan.literal = "") ∧
      ∃ part ended, (Span.mk scan.literalFrom stop).cut? source = some part ∧
        scan.endLiteral source stop = .ok ended ∧ ended.literal = "" ∧
        ended.segments.toList = scan.segments.toList ++
          if part = "" then [] else [.literal (collapsed part) ⟨scan.literalFrom, stop⟩] := by
  obtain ⟨left, -, hstands⟩ := h.stands (stands_init source strictness)
  refine ⟨hstands.accounts, fun result => step_pending, ?_⟩
  intro stop hstop
  obtain ⟨closed, pending, run, rest, hsettled, hend⟩ := hstands.exists_settled_of_ends hstop
  refine ⟨?_, String.ofList (sourceOf pending), _, ?_, hsettled.endLiteral_eq hend, rfl, ?_⟩
  · intro hfrom
    exact hsettled.literal_eq_empty (hfrom.trans hend)
  · rw [hend]
    exact hsettled.cut_pending
  · rw [Array.toList_append, hsettled.segmentsFrom_pending, hend]

/-- Gone back behind the first dollar sign and come to the end of a name, the
scan ends the literal between them. -/
theorem pending_accounted_rewound :
    Accounts "$é$x" ⟨5, .bareName 3, "$é", 0, 3, #[], #[⟨.invalidPlaceholder, 1, 0, 1, 2⟩]⟩ ∧
      ∃ ended, endLiteral "$é$x" 3
          ⟨5, .bareName 3, "$é", 0, 3, #[], #[⟨.invalidPlaceholder, 1, 0, 1, 2⟩]⟩ = .ok ended ∧
        ended.literal = "" ∧ ended.segments.toList = [.literal "$é" ⟨0, 3⟩] := by
  let errors : Array SyntaxError := #[⟨.invalidPlaceholder, 1, 0, 1, 2⟩]
  have hdollar : step "$é$x" .lenient {} = .ok (.more ⟨1, .dollar 0, "", 0, 0, #[], #[]⟩) := by
    decide +kernel
  have hback : step "$é$x" .lenient ⟨1, .dollar 0, "", 0, 0, #[], #[]⟩ =
      .ok (.more ⟨1, .text, "$", 0, 1, #[], errors⟩) := by decide +kernel
  have hinside : step "$é$x" .lenient ⟨1, .text, "$", 0, 1, #[], errors⟩ =
      .ok (.more ⟨2, .text, "$", 0, 1, #[], errors⟩) := by decide +kernel
  have hbehind : step "$é$x" .lenient ⟨2, .text, "$", 0, 1, #[], errors⟩ =
      .ok (.more ⟨3, .text, "$", 0, 1, #[], errors⟩) := by decide +kernel
  have hopens : step "$é$x" .lenient ⟨3, .text, "$", 0, 1, #[], errors⟩ =
      .ok (.more ⟨4, .dollar 3, "$é", 0, 3, #[], errors⟩) := by decide +kernel
  have hname : step "$é$x" .lenient ⟨4, .dollar 3, "$é", 0, 3, #[], errors⟩ =
      .ok (.more ⟨5, .bareName 3, "$é", 0, 3, #[], errors⟩) := by decide +kernel
  have hleads : Leads "$é$x" .lenient 6 {} ⟨5, .bareName 3, "$é", 0, 3, #[], errors⟩ :=
    .step hdollar (.step hback (.step hinside (.step hbehind (.step hopens (.step hname
      (.refl _))))))
  obtain ⟨haccounts, -, hends⟩ := pending_accounted "$é$x" .lenient 6 _ hleads
  obtain ⟨-, part, ended, hcut, hended, hliteral, hsegments⟩ := hends 3 (by decide +kernel)
  have hpart : part = "$é" := by
    have hcut' : (Span.mk 0 3).cut? "$é$x" = some "$é" := by decide +kernel
    exact Option.some.inj (hcut.symm.trans hcut')
  refine ⟨haccounts, ended, hended, hliteral, ?_⟩
  rw [hsegments, hpart]
  decide +kernel

end Scan

end TextTemplate
