/-
TextTemplate.Proofs.ScanInvariant — what a scan knows at every step, and
what it knows at the end.

## The invariant

A scan under way divides its source in three: the tokens it is through with
(`closed`), the tokens of the literal it is at (`pending`), and what is not
yet known to be any token (`rest`). `Scan.Settled` ties the fields of the
scan to the first two; it says nothing about the byte that is read next and
so survives every step that only looks ahead. `Scan.Stands` adds where the
scan is in `rest`:

* reading text, it is at the front of `rest` or inside its first character;
* behind a dollar sign, it has looked at `read` and not yet decided.

Five operations change what is settled, one for each kind of token and one
for the end. Each has one lemma here, and `Scan.step_of_stands` puts them
together, one case for each reading and each kind of character.

## Why it ends

A malformed placeholder sends the scan back, so the position is no measure.
What was looked at then holds no dollar sign behind the first, so nothing of
it is looked ahead at a second time. The scan stands for at most `left` more
steps where `left` bounds two distances to the end of the source: that from
the front of `rest` and that from the furthest byte ever read. Every step
shortens one of them and lengthens none.
-/
import TextTemplate.Proofs.Segmentation
import TextTemplate.Scan

namespace TextTemplate

namespace Scan

/-- What is settled about a scan, wherever it looks. The end `run` of the
pending text is yet to be copied. -/
structure Settled (source : String) (strictness : Strictness) (closed pending : List Token)
    (run rest : List Char) (scan : Scan) : Prop where
  source_eq : source.toList = sourceOf (closed ++ pending) ++ rest
  tokens_eq : tokens source.toList = closed ++ pending ++ tokens rest
  isClosed : Closed closed
  isText : ∀ t ∈ pending, t.isText = true
  /-- A strict scan does not get past a stray dollar sign. -/
  strict : strictness = .strict → ∀ t ∈ closed ++ pending, t.isStray = false
  segments_eq : scan.segments.toList = segmentsFrom 0 closed
  errors_eq : scan.errors.toList = errorsFrom [] (closed ++ pending)
  literalFrom_eq : scan.literalFrom = byteLength (sourceOf closed)
  copied : ∃ copied, sourceOf pending = copied ++ run ∧
    scan.copiedTo = byteLength (sourceOf closed) + byteLength copied
  literal_eq : scan.literal.toList ++ run = textOf pending
  plain : '$' ∉ run

/-! ## What the operations do to it -/

section

variable {source : String} {strictness : Strictness} {closed pending : List Token}
  {run rest : List Char} {scan : Scan}

/-- Reading moves nothing. -/
theorem Settled.advance (h : Settled source strictness closed pending run rest scan)
    (position : Nat) (reading : Reading) :
    Settled source strictness closed pending run rest { scan with position, reading } :=
  { h with }

/-- A token more of the pending literal, wherever its text goes. -/
theorem Settled.concat {t : Token} {run' after : List Char} {next : Scan}
    (h : Settled source strictness closed pending run rest scan) (hbegins : t.Begins rest after)
    (htext : t.isText = true) (hstrict : strictness = .strict → t.isStray = false)
    (hsegments : next.segments = scan.segments) (hfrom : next.literalFrom = scan.literalFrom)
    (herrors : next.errors.toList =
      scan.errors.toList ++ (t.error? (sourceOf (closed ++ pending))).toList)
    (hcopied : next.copiedTo + byteLength run' = byteLength (sourceOf (closed ++ (pending ++ [t]))))
    (hsuffix : run' <:+ sourceOf (pending ++ [t]))
    (hliteral : next.literal.toList ++ run' = textOf (pending ++ [t])) (hplain : '$' ∉ run') :
    Settled source strictness closed (pending ++ [t]) run' after next where
  source_eq := by
    rw [h.source_eq, hbegins.text_eq]
    simp
  tokens_eq := by
    rw [h.tokens_eq, hbegins.tokens_eq]
    simp
  isClosed := h.isClosed
  isText := by
    rw [List.forall_mem_append]
    exact ⟨h.isText, by simpa using htext⟩
  strict hs := by
    rw [← List.append_assoc, List.forall_mem_append]
    exact ⟨h.strict hs, by simpa using hstrict hs⟩
  segments_eq := by rw [hsegments, h.segments_eq]
  errors_eq := by
    rw [← List.append_assoc, errorsFrom_append, ← h.errors_eq, herrors]
    simp [errorsFrom]
  literalFrom_eq := by rw [hfrom, h.literalFrom_eq]
  copied := by
    obtain ⟨copied, hcopy⟩ := hsuffix
    refine ⟨copied, hcopy.symm, ?_⟩
    rw [sourceOf_append, ← hcopy, byteLength_append, byteLength_append] at hcopied
    omega
  literal_eq := hliteral
  plain := hplain

theorem Settled.size_eq (h : Settled source strictness closed pending run rest scan) :
    source.utf8ByteSize = byteLength (sourceOf (closed ++ pending)) + byteLength rest := by
  rw [← byteLength_toList, h.source_eq, byteLength_append]

/-- Where the pending literal ends. -/
theorem Settled.copiedTo_add (h : Settled source strictness closed pending run rest scan) :
    scan.copiedTo + byteLength run = byteLength (sourceOf (closed ++ pending)) := by
  obtain ⟨copied, hsource, hto⟩ := h.copied
  rw [hto, sourceOf_append, hsource]
  simp [Nat.add_assoc]

/-- The run that is not yet copied can be cut out. -/
theorem Settled.cut_run (h : Settled source strictness closed pending run rest scan) :
    cut source ⟨scan.copiedTo, byteLength (sourceOf (closed ++ pending))⟩ =
      .ok (String.ofList run) := by
  obtain ⟨copied, hsource, hto⟩ := h.copied
  have hsplit : source.toList = (sourceOf closed ++ copied) ++ run ++ rest := by
    rw [h.source_eq, sourceOf_append, hsource]
    simp
  have hcut := Span.cut?_of_toList hsplit
  rw [byteLength_append, ← hto, h.copiedTo_add] at hcut
  rw [cut, hcut]

theorem Settled.copyUpTo_eq (h : Settled source strictness closed pending run rest scan)
    {stop : Nat} (hstop : stop = byteLength (sourceOf (closed ++ pending))) :
    scan.copyUpTo source stop =
      .ok { scan with literal := scan.literal ++ String.ofList run, copiedTo := stop } := by
  rw [Scan.copyUpTo, hstop, h.cut_run]
  rfl

theorem Settled.copyUpTo (h : Settled source strictness closed pending run rest scan)
    {stop : Nat} (hstop : stop = byteLength (sourceOf (closed ++ pending))) :
    Settled source strictness closed pending [] rest
      { scan with literal := scan.literal ++ String.ofList run, copiedTo := stop } :=
  { h with
    copied := ⟨sourceOf pending, (List.append_nil _).symm, by
      rw [hstop, sourceOf_append, byteLength_append]⟩
    literal_eq := by
      rw [← h.literal_eq]
      simp
    plain := List.not_mem_nil }

/-- A character of text is only taken note of. -/
theorem Settled.char {c : Char} (hc : c ≠ '$')
    (h : Settled source strictness closed pending run (c :: rest) scan) :
    Settled source strictness closed (pending ++ [.char c]) (run ++ [c]) rest scan := by
  refine h.concat (.char hc) rfl (fun _ => rfl) rfl rfl (by simp [Token.error?]) ?_ ?_ ?_ ?_
  · rw [byteLength_append, ← Nat.add_assoc, h.copiedTo_add, ← List.append_assoc,
      sourceOf_append (closed ++ pending), byteLength_append]
    rfl
  · obtain ⟨copied, hsource, -⟩ := h.copied
    exact ⟨copied, by rw [sourceOf_append, hsource, List.append_assoc]; rfl⟩
  · rw [textOf_append, ← h.literal_eq, List.append_assoc]
    rfl
  · rw [List.mem_append, not_or]
    exact ⟨h.plain, by simpa using hc.symm⟩

/-- An escape and a stray dollar sign are a dollar sign of the literal. -/
theorem Settled.dollar {t : Token} {after : List Char} {stop : Nat}
    (h : Settled source strictness closed pending [] rest scan) (errors : Array SyntaxError)
    (hbegins : t.Begins rest after)
    (htext : t.isText = true) (hdollar : t.text = ['$'])
    (hstrict : strictness = .strict → t.isStray = false)
    (herrors : errors.toList =
      scan.errors.toList ++ (t.error? (sourceOf (closed ++ pending))).toList)
    (hstop : stop = byteLength (sourceOf (closed ++ pending)) + byteLength t.written) :
    Settled source strictness closed (pending ++ [t]) [] after
      { scan with literal := scan.literal.push '$', copiedTo := stop, errors } := by
  refine h.concat hbegins htext hstrict rfl rfl herrors ?_ List.nil_suffix ?_ List.not_mem_nil
  · simp [hstop, Nat.add_assoc]
  · rw [textOf_append, ← h.literal_eq]
    simp [hdollar]

/-- Ending the literal adds the segment of the pending tokens, if any. -/
theorem Settled.endLiteral_eq (h : Settled source strictness closed pending run rest scan)
    {stop : Nat} (hstop : stop = byteLength (sourceOf (closed ++ pending))) :
    scan.endLiteral source stop =
      .ok { scan with
        literal := "", literalFrom := stop, copiedTo := stop
        segments := scan.segments ++
          (segmentsFrom (byteLength (sourceOf closed)) pending).toArray } := by
  have htext : scan.literal ++ String.ofList run = String.ofList (textOf pending) := by
    rw [← h.literal_eq, String.ofList_append, String.ofList_toList]
  -- what comes after the copying, whether there was any or not
  have hclose (text : String) (htext : text = String.ofList (textOf pending)) :
      (if scan.literalFrom < stop then
        pure { scan with
          literal := "", literalFrom := stop, copiedTo := stop
          segments := scan.segments.push (.literal text ⟨scan.literalFrom, stop⟩) }
      else
        pure { scan with literal := text, literalFrom := stop, copiedTo := stop }) =
      (.ok { scan with
        literal := "", literalFrom := stop, copiedTo := stop
        segments := scan.segments ++
          (segmentsFrom (byteLength (sourceOf closed)) pending).toArray } : Except Fault Scan) := by
    rw [sourceOf_append, byteLength_append] at hstop
    rw [h.literalFrom_eq, htext]
    by_cases hne : pending = []
    · subst hne
      simp [hstop, pure, Except.pure]
    · have hpos := byteLength_sourceOf_pos hne
      rw [if_pos (by omega), segmentsFrom_text _ h.isText hne, hstop]
      simp [pure, Except.pure]
  rw [endLiteral]
  split
  · rw [h.copyUpTo_eq hstop]
    exact hclose _ htext
  · have hto := h.copiedTo_add
    have hrun : run = [] := eq_nil_of_byteLength (by omega)
    subst hrun
    rw [String.ofList_nil, String.append_empty] at htext
    exact hclose _ htext

/-- A placeholder closes everything up to its end. -/
theorem Settled.addPlaceholder {style : Style} {name : String} {after : List Char}
    (h : Settled source strictness closed pending [] rest scan) (opening closing : List Char)
    (hbegins : (Token.placeholder style name).Begins rest after)
    (hwritten : (Token.placeholder style name).written = opening ++ name.toList ++ closing)
    {start stop nameStart nameStop : Nat}
    (hstart : start = byteLength (sourceOf (closed ++ pending)))
    (hstop : stop = start + byteLength (Token.placeholder style name).written)
    (hnameStart : nameStart = start + byteLength opening)
    (hnameStop : nameStop = nameStart + byteLength name.toList) :
    ∃ next, scan.addPlaceholder source style ⟨start, stop⟩ ⟨nameStart, nameStop⟩ = .ok next ∧
      next.position = scan.position ∧ next.copiedTo = stop ∧
      Settled source strictness (closed ++ pending ++ [.placeholder style name]) [] [] after
        next := by
  have hsource : source.toList =
      (sourceOf (closed ++ pending) ++ opening) ++ name.toList ++ (closing ++ after) := by
    rw [h.source_eq, hbegins.text_eq, hwritten]
    simp
  have hname : cut source ⟨nameStart, nameStop⟩ = .ok name := by
    have hcut := Span.cut?_of_toList hsource
    rw [byteLength_append, ← hstart, ← hnameStart, ← hnameStop, String.ofList_toList] at hcut
    rw [cut, hcut]
  have hsegments : segmentsFrom 0 (closed ++ pending ++ [.placeholder style name]) =
      segmentsFrom 0 closed ++ segmentsFrom (byteLength (sourceOf closed)) pending ++
        [.placeholder ⟨name, style, ⟨start, stop⟩⟩] := by
    rw [segmentsFrom_append_placeholder, segmentsFrom_append_of_closed h.isClosed,
      segmentsFrom_placeholder, hstop, hstart]
    simp
  have hadd : scan.addPlaceholder source style ⟨start, stop⟩ ⟨nameStart, nameStop⟩ =
      .ok { scan with
        literal := "", literalFrom := stop, copiedTo := stop
        segments := (scan.segments ++
          (segmentsFrom (byteLength (sourceOf closed)) pending).toArray).push
            (.placeholder ⟨name, style, ⟨start, stop⟩⟩) } := by
    rw [Scan.addPlaceholder, h.endLiteral_eq hstart, hname]
    rfl
  refine ⟨_, hadd, rfl, rfl, ?_⟩
  exact {
    source_eq := by
      rw [h.source_eq, hbegins.text_eq]
      simp
    tokens_eq := by
      rw [h.tokens_eq, hbegins.tokens_eq]
      simp
    isClosed := closed_concat _ style name
    isText := by simp
    strict := fun hs => by
      rw [List.append_nil, List.forall_mem_append]
      exact ⟨h.strict hs, by simp [Token.isStray]⟩
    segments_eq := by
      rw [hsegments, ← h.segments_eq]
      simp
    errors_eq := by
      rw [List.append_nil, errorsFrom_append, h.errors_eq]
      simp [errorsFrom, Token.error?]
    literalFrom_eq := by
      rw [sourceOf_append, byteLength_append, hstop, hstart]
      simp
    copied := ⟨[], rfl, by
      rw [sourceOf_append, byteLength_append, hstop, hstart]
      simp⟩
    literal_eq := rfl
    plain := List.not_mem_nil }

end

/-! ## Where the scan is -/

/-- What was read from the dollar sign at `start` on. -/
inductive Saw (start : Nat) : Reading → List Char → Prop where
  | dollar : Saw start (.dollar start) ['$']
  | brace : Saw start (.brace start) ['$', '\x7b']
  | bareName {name : String} (h : Identifier.isName name = true) :
      Saw start (.bareName start) ('$' :: name.toList)
  | bracedName {name : String} (h : Identifier.isName name = true) :
      Saw start (.bracedName start) ('$' :: '\x7b' :: name.toList)

/-- Behind the dollar sign stands what decides nothing. -/
theorem Saw.eq_cons {start : Nat} {reading : Reading} {read : List Char}
    (h : Saw start reading read) : ∃ more, read = '$' :: more ∧ Undecided more := by
  cases h with
  | dollar => exact ⟨[], rfl, .nil⟩
  | brace => exact ⟨['\x7b'], rfl, .brace⟩
  | bareName hname => exact ⟨_, rfl, .name hname⟩
  | bracedName hname => exact ⟨_, rfl, .bracedName hname⟩

theorem Saw.lineless {start : Nat} {reading : Reading} {read : List Char}
    (h : Saw start reading read) : '\n' ∉ read := by
  obtain ⟨more, rfl, hmore⟩ := h.eq_cons
  simpa using hmore.lineless

theorem Saw.byteLength_eq {start : Nat} {reading : Reading} {read : List Char}
    (h : Saw start reading read) : byteLength read = read.length := by
  obtain ⟨more, rfl, hmore⟩ := h.eq_cons
  rw [byteLength_cons, hmore.byteLength_eq, List.length_cons, Nat.add_comm]
  rfl

/-- The scan of a source stands somewhere in it, for at most `left` more
steps. -/
inductive Stands (source : String) (strictness : Strictness) (left : Nat) (scan : Scan) : Prop where
  /-- It reads text, and no dollar sign is found in what it reads again. -/
  | text {closed pending : List Token} {run rest reread : List Char} {inside : Nat}
      (settled : Settled source strictness closed pending run rest scan)
      (reading : scan.reading = .text)
      (position : scan.position = byteLength (sourceOf (closed ++ pending)) + inside)
      (whole : inside = 0 ∨ ∃ c more, rest = c :: more ∧ inside < c.utf8Size)
      (ahead : reread <+: rest) (plain : '$' ∉ reread)
      (steps : 2 * source.utf8ByteSize + 1 ≤ left + scan.position +
        max scan.position (byteLength (sourceOf (closed ++ pending)) + byteLength reread))
  /-- It looks for the end of what begins with a dollar sign. -/
  | opening {closed pending : List Token} {read after : List Char}
      (settled : Settled source strictness closed pending [] (read ++ after) scan)
      (saw : Saw (byteLength (sourceOf (closed ++ pending))) scan.reading read)
      (position : scan.position = byteLength (sourceOf (closed ++ pending)) + byteLength read)
      (steps : 2 * source.utf8ByteSize + 1 ≤
        left + byteLength (sourceOf (closed ++ pending)) + scan.position)

/-- A scan that is at its end has read everything, or it is strict and has
met the first stray dollar sign. -/
inductive Finished (source : String) (strictness : Strictness) (final : Scan) : Prop where
  | whole (strict : strictness = .strict → ∀ t ∈ tokens source.toList, t.isStray = false)
      (segments_eq : final.segments.toList = segmentsFrom 0 (tokens source.toList))
      (errors_eq : final.errors.toList = errorsFrom [] (tokens source.toList))
  | broken {error : SyntaxError} {more : List SyntaxError} (strict : strictness = .strict)
      (errors_eq : final.errors.toList = [error])
      (first : errorsFrom [] (tokens source.toList) = error :: more)

/-- What a step has to come to. -/
inductive Proceeds (source : String) (strictness : Strictness) (left : Nat) :
    Except Fault Step → Prop where
  | more {next : Scan} (h : Stands source strictness left next) :
      Proceeds source strictness left (.ok (.more next))
  | finished {final : Scan} (h : Finished source strictness final) :
      Proceeds source strictness left (.ok (.finished final))

section

variable {source : String} {strictness : Strictness} {closed pending : List Token}
  {run rest : List Char} {scan : Scan} {left : Nat}

/-- At the front of what is left a scan reads text. -/
theorem Settled.stands_front {reread : List Char}
    (h : Settled source strictness closed pending run rest scan) (hreading : scan.reading = .text)
    (hposition : scan.position = byteLength (sourceOf (closed ++ pending)))
    (hahead : reread <+: rest) (hplain : '$' ∉ reread)
    (hsteps : 2 * source.utf8ByteSize + 1 ≤ left + scan.position +
      max scan.position (byteLength (sourceOf (closed ++ pending)) + byteLength reread)) :
    Stands source strictness left scan :=
  .text h hreading (by rw [hposition, Nat.add_zero]) (.inl rfl) hahead hplain hsteps

/-- What is settled when nothing is left is the whole source. -/
theorem Settled.finished {final : Scan}
    (h : Settled source strictness closed pending run [] scan)
    (hsegments : final.segments.toList = segmentsFrom 0 (closed ++ pending))
    (herrors : final.errors = scan.errors) : Finished source strictness final := by
  have htokens : tokens source.toList = closed ++ pending := by
    rw [h.tokens_eq, tokens, List.append_nil]
  exact .whole (htokens ▸ h.strict) (htokens ▸ hsegments) (by rw [herrors, h.errors_eq, htokens])

/-- Breaking off at what was read ends a strict scan and sends a lenient one
back behind the dollar sign. -/
theorem Settled.breakOff {kind : SyntaxError.Kind} {start : Nat} {reading : Reading}
    {read after : List Char}
    (h : Settled source strictness closed pending [] (read ++ after) scan)
    (hsaw : Saw start reading read) (hstart : start = byteLength (sourceOf (closed ++ pending)))
    (hbegins : (Token.stray kind read.length).Begins (read ++ after) (read.tail ++ after))
    (hposition : scan.position = start + byteLength read)
    (hsteps : 2 * source.utf8ByteSize + 1 ≤ left + 1 + start + scan.position) :
    Proceeds source strictness left (scan.breakOff source strictness kind start) := by
  obtain ⟨error, herror, hat⟩ : ∃ error,
      (Token.stray kind read.length).error? (sourceOf (closed ++ pending)) = some error ∧
        SyntaxError.at? source kind start scan.position = some error := by
    have hsource : source.toList = sourceOf (closed ++ pending) ++ read ++ after := by
      rw [h.source_eq, List.append_assoc]
    refine ⟨_, rfl, ?_⟩
    rw [hposition, hstart, SyntaxError.at?_of_toList hsource hsaw.lineless, hsaw.byteLength_eq]
  rw [Scan.breakOff, hat]
  cases strictness with
  | strict =>
    -- nothing was stray before, so this error is the first one
    have hnone : errorsFrom [] (closed ++ pending) = [] :=
      (errorsFrom_eq_nil_iff []).2 (h.strict rfl)
    have hfirst : errorsFrom [] (tokens source.toList) = error ::
        errorsFrom (sourceOf (closed ++ pending) ++ ['$']) (tokens (read.tail ++ after)) := by
      rw [h.tokens_eq, hbegins.tokens_eq, errorsFrom_append, hnone, errorsFrom]
      simp only [List.nil_append, herror]
      rfl
    refine .finished (.broken rfl ?_ hfirst)
    simp [h.errors_eq, hnone]
  | lenient =>
    have hstop : start + 1 = byteLength (sourceOf (closed ++ pending)) +
        byteLength (Token.stray kind read.length).written := by
      rw [hstart]
      rfl
    have hsettled := h.dollar (scan.errors.push error) hbegins rfl rfl (by simp)
      (by rw [herror, Array.toList_push]; rfl) hstop
    have hplace : byteLength (sourceOf (closed ++ (pending ++ [.stray kind read.length]))) =
        start + 1 := by
      rw [← List.append_assoc, sourceOf_append, byteLength_append, hstart]
      rfl
    obtain ⟨hplain, hread⟩ : '$' ∉ read.tail ∧ byteLength read = 1 + byteLength read.tail := by
      obtain ⟨more, rfl, hmore⟩ := hsaw.eq_cons
      exact ⟨hmore.dollarless, rfl⟩
    refine .more ((hsettled.advance (start + 1) .text).stands_front rfl hplace.symm
      (List.prefix_append _ after) hplain ?_)
    rw [hplace]
    simp only
    omega

/-- Looking at one character more decides nothing yet. -/
theorem Settled.look {start : Nat} {reading reading' : Reading} {read after : List Char} {c : Char}
    (h : Settled source strictness closed pending [] (read ++ c :: after) scan)
    (hsaw : Saw start reading read) (hsaw' : Saw start reading' (read ++ [c]))
    (hstart : start = byteLength (sourceOf (closed ++ pending)))
    (hposition : scan.position = start + byteLength read)
    (hsteps : 2 * source.utf8ByteSize + 1 ≤ left + 1 + start + scan.position) :
    Proceeds source strictness left (.ok (Scan.advance reading' scan)) := by
  have hread : byteLength (read ++ [c]) = byteLength read + 1 := by
    rw [hsaw'.byteLength_eq, hsaw.byteLength_eq, List.length_append]
    rfl
  have hsettled : Settled source strictness closed pending [] ((read ++ [c]) ++ after)
      { scan with position := scan.position + 1, reading := reading' } := by
    rw [List.append_assoc]
    exact h.advance _ _
  refine .more (.opening hsettled (hstart ▸ hsaw') ?_ ?_)
  · simp only
    omega
  · simp only
    omega

/-- Behind a token of more than one character, reading goes on as text. -/
theorem Settled.resume (h : Settled source strictness closed pending [] rest scan)
    (hreading : scan.reading = .text) (hposition : scan.position = scan.copiedTo)
    (hsteps : 2 * source.utf8ByteSize + 1 ≤ left + 2 * scan.position) :
    Stands source strictness left scan := by
  have hto := h.copiedTo_add
  rw [byteLength_nil] at hto
  refine h.stands_front hreading (hposition.trans hto) List.nil_prefix List.not_mem_nil ?_
  rw [byteLength_nil]
  omega

/-! ## One step -/

theorem stepText_of_ne {unit : Char} (h : unit ≠ '$') :
    scan.stepText source (some unit) = .ok (Scan.advance .text scan) := by
  unfold stepText
  split
  · next heq => cases heq
  · next heq => exact absurd (Option.some.inj heq) h
  · rfl

/-- A byte of a text character is passed over, whichever of its bytes it is. -/
theorem Settled.stepText_char {c : Char} {more reread : List Char} {inside : Nat}
    (h : Settled source strictness closed pending run (c :: more) scan) (hc : c ≠ '$')
    (hposition : scan.position = byteLength (sourceOf (closed ++ pending)) + inside)
    (hinside : inside < c.utf8Size) (hahead : reread <+: c :: more) (hplain : '$' ∉ reread)
    (hsteps : 2 * source.utf8ByteSize + 1 ≤ left + 1 + scan.position +
      max scan.position (byteLength (sourceOf (closed ++ pending)) + byteLength reread)) :
    Proceeds source strictness left (.ok (Scan.advance .text scan)) := by
  refine .more ?_
  by_cases hlast : inside + 1 < c.utf8Size
  · refine .text (h.advance _ _) rfl ?_ (.inr ⟨c, more, rfl, hlast⟩) hahead hplain ?_
    · simp only
      omega
    · simp only
      omega
  · -- the last byte: the character is settled, and read again no more
    have hwritten : byteLength (sourceOf (closed ++ (pending ++ [.char c]))) =
        byteLength (sourceOf (closed ++ pending)) + c.utf8Size := by
      rw [← List.append_assoc, sourceOf_append, byteLength_append]
      simp [Token.written]
    have htail : reread.tail <+: more ∧
        byteLength reread ≤ c.utf8Size + byteLength reread.tail := by
      cases reread with
      | nil => exact ⟨List.nil_prefix, by simp⟩
      | cons d reread =>
        obtain ⟨rfl, htail⟩ := List.cons_prefix_cons.1 hahead
        exact ⟨htail, by simp⟩
    refine ((h.char hc).advance _ _).stands_front rfl ?_ htail.1
      (fun hmem => hplain (List.mem_of_mem_tail hmem)) ?_
    · simp only
      omega
    · have := htail.2
      simp only
      omega

/-- In front of a dollar sign the run is copied and the opening begins. -/
theorem Settled.stepText_dollar {more reread : List Char}
    (h : Settled source strictness closed pending run ('$' :: more) scan)
    (hposition : scan.position = byteLength (sourceOf (closed ++ pending)))
    (hahead : reread <+: '$' :: more) (hplain : '$' ∉ reread)
    (hsteps : 2 * source.utf8ByteSize + 1 ≤ left + 1 + scan.position +
      max scan.position (byteLength (sourceOf (closed ++ pending)) + byteLength reread)) :
    Proceeds source strictness left (scan.stepText source (some '$')) := by
  have hreread : reread = [] := by
    cases reread with
    | nil => rfl
    | cons d reread =>
      obtain ⟨rfl, -⟩ := List.cons_prefix_cons.1 hahead
      exact absurd List.mem_cons_self hplain
  subst hreread
  rw [byteLength_nil] at hsteps
  have hstep : scan.stepText source (some '$') =
      .ok (Scan.advance (.dollar scan.position)
        { scan with literal := scan.literal ++ String.ofList run, copiedTo := scan.position }) := by
    rw [stepText, h.copyUpTo_eq hposition]
    rfl
  rw [hstep]
  have hsettled : Settled source strictness closed pending [] (['$'] ++ more) _ :=
    (h.copyUpTo hposition).advance (scan.position + 1) (.dollar scan.position)
  refine .more (.opening hsettled (hposition ▸ .dollar) ?_ ?_)
  · rw [← hposition]
    rfl
  · rw [← hposition]
    simp only
    omega

theorem Settled.step_text {reread : List Char} {inside : Nat}
    (h : Settled source strictness closed pending run rest scan) (hreading : scan.reading = .text)
    (hposition : scan.position = byteLength (sourceOf (closed ++ pending)) + inside)
    (hwhole : inside = 0 ∨ ∃ c more, rest = c :: more ∧ inside < c.utf8Size)
    (hahead : reread <+: rest) (hplain : '$' ∉ reread)
    (hsteps : 2 * source.utf8ByteSize + 1 ≤ left + 1 + scan.position +
      max scan.position (byteLength (sourceOf (closed ++ pending)) + byteLength reread)) :
    Proceeds source strictness left (scan.step source strictness) := by
  have hstep : scan.step source strictness =
      scan.stepText source (unitAt? source scan.position) := by
    rw [step, hreading]
  rw [hstep]
  cases rest with
  | nil =>
    have hinside : inside = 0 := by
      rcases hwhole with h | ⟨c, more, h, -⟩
      · exact h
      · cases h
    have hsource : source.toList = sourceOf (closed ++ pending) := by
      rw [h.source_eq, List.append_nil]
    have hend : source.utf8ByteSize = byteLength (sourceOf (closed ++ pending)) := by
      rw [← byteLength_toList, hsource]
    rw [hposition, hinside, Nat.add_zero, unitAt?_end hsource, stepText, h.endLiteral_eq hend]
    refine .finished (h.finished ?_ rfl)
    rw [segmentsFrom_append_of_closed h.isClosed, ← h.segments_eq]
    simp
  | cons c more =>
    have hinside : inside < c.utf8Size := by
      rcases hwhole with h | ⟨_, _, ⟨⟩, h⟩
      · exact h ▸ c.utf8Size_pos
      · exact h
    by_cases hzero : inside = 0
    · subst hzero
      obtain ⟨unit, hunit, halike⟩ := unitAt?_of_toList h.source_eq
      rw [Nat.add_zero] at hposition
      rw [hposition, hunit]
      by_cases hc : c = '$'
      · subst hc
        rw [(halike.eq_iff (by decide)).2 rfl]
        exact h.stepText_dollar hposition hahead hplain hsteps
      · rw [stepText_of_ne fun hu => hc ((halike.eq_iff (by decide)).1 hu)]
        exact h.stepText_char hc hposition hinside hahead hplain hsteps
    · obtain ⟨unit, hunit, hwide⟩ := unitAt?_inside h.source_eq (by omega) hinside
      have hc : c ≠ '$' := by
        rintro rfl
        exact hzero (Nat.lt_one_iff.1 hinside)
      rw [hposition, hunit, stepText_of_ne (by rintro rfl; exact absurd hwide (by decide))]
      exact h.stepText_char hc hposition hinside hahead hplain hsteps

/-! What the opening readings make of a byte is what they make of the
character it belongs to. -/

variable {start : Nat} {before after : List Char}

theorem stepDollar_unitAt? (h : source.toList = before ++ after) :
    scan.stepDollar source strictness start (unitAt? source (byteLength before)) =
      scan.stepDollar source strictness start after.head? := by
  refine apply_unitAt? (f := fun unit => scan.stepDollar source strictness start unit)
    (fun unit c halike => ?_) h
  simp only [stepDollar, halike.isStart_eq, halike.eq_iff (d := '$') (by decide),
    halike.eq_iff (d := '\x7b') (by decide)]

theorem stepBrace_unitAt? (h : source.toList = before ++ after) :
    scan.stepBrace source strictness start (unitAt? source (byteLength before)) =
      scan.stepBrace source strictness start after.head? := by
  refine apply_unitAt? (f := fun unit => scan.stepBrace source strictness start unit)
    (fun unit c halike => ?_) h
  simp only [stepBrace, halike.isStart_eq]

theorem stepBareName_unitAt? (h : source.toList = before ++ after) :
    scan.stepBareName source start (unitAt? source (byteLength before)) =
      scan.stepBareName source start after.head? := by
  refine apply_unitAt? (f := fun unit => scan.stepBareName source start unit)
    (fun unit c halike => ?_) h
  simp only [stepBareName, halike.isContinue_eq]

theorem stepBracedName_unitAt? (h : source.toList = before ++ after) :
    scan.stepBracedName source strictness start (unitAt? source (byteLength before)) =
      scan.stepBracedName source strictness start after.head? := by
  refine apply_unitAt? (f := fun unit => scan.stepBracedName source strictness start unit)
    (fun unit c halike => ?_) h
  simp only [stepBracedName, halike.isContinue_eq, halike.eq_iff (d := '\x7d') (by decide)]

end

/-! ## Behind a dollar sign

In each reading the next character either is looked at and decides nothing,
or completes a token, or shows the dollar sign to be stray. -/

section

variable {source : String} {strictness : Strictness} {closed pending : List Token}
  {scan : Scan} {left start : Nat} {after : List Char}

theorem Settled.stepDollar
    (h : Settled source strictness closed pending [] (['$'] ++ after) scan)
    (hstart : start = byteLength (sourceOf (closed ++ pending)))
    (hposition : scan.position = start + byteLength ['$'])
    (hsteps : 2 * source.utf8ByteSize + 1 ≤ left + 1 + start + scan.position) :
    Proceeds source strictness left (scan.stepDollar source strictness start after.head?) := by
  cases after with
  | nil => exact h.breakOff .dollar hstart (.alone (by simp)) hposition hsteps
  | cons c more =>
    rw [List.head?_cons, Scan.stepDollar]
    split
    · next hc =>
      subst hc
      have hstop : scan.position + 1 =
          byteLength (sourceOf (closed ++ pending)) + byteLength Token.escape.written := by
        rw [hposition, hstart]
        rfl
      have hsettled := h.dollar scan.errors .escape rfl rfl (fun _ => rfl)
        (by simp [Token.error?]) hstop
      refine .more ((hsettled.advance (scan.position + 1) .text).resume rfl rfl ?_)
      simp only
      omega
    · next hdollar =>
      split
      · next hc =>
        subst hc
        exact h.look .dollar .brace hstart hposition hsteps
      · next hbrace =>
        split
        · next hc =>
          have hsaw : Saw start (.bareName start) ('$' :: (String.singleton c).toList) :=
            .bareName (Identifier.isName_singleton hc)
          rw [String.toList_singleton] at hsaw
          exact h.look .dollar hsaw hstart hposition hsteps
        · next hc =>
          refine h.breakOff .dollar hstart (.alone ?_) hposition hsteps
          rintro d ⟨⟩
          exact ⟨hdollar, hbrace, by simpa using hc⟩

theorem Settled.stepBrace
    (h : Settled source strictness closed pending [] (['$', '\x7b'] ++ after) scan)
    (hstart : start = byteLength (sourceOf (closed ++ pending)))
    (hposition : scan.position = start + byteLength ['$', '\x7b'])
    (hsteps : 2 * source.utf8ByteSize + 1 ≤ left + 1 + start + scan.position) :
    Proceeds source strictness left (scan.stepBrace source strictness start after.head?) := by
  cases after with
  | nil => exact h.breakOff .brace hstart .cutShort hposition hsteps
  | cons c more =>
    rw [List.head?_cons, Scan.stepBrace]
    split
    · next hc =>
      have hsaw : Saw start (.bracedName start) ('$' :: '\x7b' :: (String.singleton c).toList) :=
        .bracedName (Identifier.isName_singleton hc)
      rw [String.toList_singleton] at hsaw
      exact h.look .brace hsaw hstart hposition hsteps
    · next hc =>
      exact h.breakOff .brace hstart (.nameless (by simpa using hc)) hposition hsteps

theorem Settled.stepBareName {name : String} (hname : Identifier.isName name = true)
    (h : Settled source strictness closed pending [] ('$' :: name.toList ++ after) scan)
    (hstart : start = byteLength (sourceOf (closed ++ pending)))
    (hposition : scan.position = start + byteLength ('$' :: name.toList))
    (hsteps : 2 * source.utf8ByteSize + 1 ≤ left + 1 + start + scan.position) :
    Proceeds source strictness left (scan.stepBareName source start after.head?) := by
  have hadd (hstop : Identifier.Stops after) :
      ∃ next, scan.addPlaceholder source .bare ⟨start, scan.position⟩
          ⟨start + 1, scan.position⟩ = .ok next ∧
        next.position = scan.position ∧ next.copiedTo = scan.position ∧
        Settled source strictness (closed ++ pending ++ [.placeholder .bare name]) [] [] after
          next := by
    refine h.addPlaceholder ['$'] [] (.bare hname hstop) ?_ hstart
      hposition rfl ?_
    · simp [Token.written]
    · rw [hposition, byteLength_cons, ← Nat.add_assoc]
      rfl
  cases after with
  | nil =>
    obtain ⟨next, hnext, -, -, hsettled⟩ := hadd (by rintro d ⟨⟩)
    rw [List.head?_nil, Scan.stepBareName, hnext]
    exact .finished (hsettled.finished (by rw [List.append_nil, hsettled.segments_eq]) rfl)
  | cons c more =>
    rw [List.head?_cons, Scan.stepBareName]
    split
    · next hc =>
      have hsaw : Saw start (.bareName start) ('$' :: (name.push c).toList) :=
        .bareName (Identifier.isName_push hname hc)
      rw [String.toList_push] at hsaw
      exact h.look (.bareName hname) hsaw hstart hposition hsteps
    · next hc =>
      obtain ⟨next, hnext, hmoved, hto, hsettled⟩ :=
        hadd (Identifier.stops_cons (by simpa using hc) more)
      rw [hnext]
      refine .more ((hsettled.advance next.position .text).resume rfl (by rw [hmoved, hto]) ?_)
      have hread := byteLength_pos (List.cons_ne_nil '$' name.toList)
      rw [hmoved]
      omega

theorem Settled.stepBracedName {name : String} (hname : Identifier.isName name = true)
    (h : Settled source strictness closed pending [] ('$' :: '\x7b' :: name.toList ++ after) scan)
    (hstart : start = byteLength (sourceOf (closed ++ pending)))
    (hposition : scan.position = start + byteLength ('$' :: '\x7b' :: name.toList))
    (hsteps : 2 * source.utf8ByteSize + 1 ≤ left + 1 + start + scan.position) :
    Proceeds source strictness left (scan.stepBracedName source strictness start after.head?) := by
  have hstray (hstop : Identifier.Stops after) (hopen : after.head? ≠ some '\x7d') :
      (Token.stray .unterminatedBrace ('$' :: '\x7b' :: name.toList).length).Begins
        ('$' :: '\x7b' :: name.toList ++ after) (('$' :: '\x7b' :: name.toList).tail ++ after) := by
    have hlength : ('$' :: '\x7b' :: name.toList).length = 2 + name.length := by
      rw [List.length_cons, List.length_cons, String.length_toList, Nat.add_comm 2]
    rw [hlength]
    exact .unclosed hname hstop hopen
  cases after with
  | nil =>
    exact h.breakOff (.bracedName hname) hstart (hstray (by rintro d ⟨⟩) (by simp)) hposition hsteps
  | cons c more =>
    rw [List.head?_cons, Scan.stepBracedName]
    split
    · next hc =>
      have hsaw : Saw start (.bracedName start) ('$' :: '\x7b' :: (name.push c).toList) :=
        .bracedName (Identifier.isName_push hname hc)
      rw [String.toList_push] at hsaw
      exact h.look (.bracedName hname) hsaw hstart hposition hsteps
    · next hc =>
      have hstop : Identifier.Stops (c :: more) := Identifier.stops_cons (by simpa using hc) more
      split
      · next hclose =>
        subst hclose
        obtain ⟨next, hnext, hmoved, hto, hsettled⟩ :
            ∃ next, scan.addPlaceholder source .braced ⟨start, scan.position + 1⟩
                ⟨start + 2, scan.position⟩ = .ok next ∧
              next.position = scan.position ∧ next.copiedTo = scan.position + 1 ∧
              Settled source strictness (closed ++ pending ++ [.placeholder .braced name]) [] []
                more next := by
          refine h.addPlaceholder ['$', '\x7b'] ['\x7d'] ?_ ?_ hstart
            ?_ rfl ?_
          · exact .braced hname
          · simp [Token.written]
          · rw [hposition, Nat.add_assoc]
            simp [Token.written, Nat.add_assoc]
            rfl
          · rw [hposition, byteLength_cons, byteLength_cons, ← Nat.add_assoc, ← Nat.add_assoc]
            rfl
        simp only [hnext]
        refine .more ((hsettled.advance (next.position + 1) .text).resume rfl
          (by rw [hmoved, hto]) ?_)
        rw [hmoved]
        simp only
        omega
      · next hopen =>
        exact h.breakOff (.bracedName hname) hstart (hstray hstop (by simpa using hopen)) hposition
          hsteps

end

/-! ## The step and the run -/

section

variable {source : String} {strictness : Strictness} {scan : Scan} {left : Nat}

/-- **One step**: a scan that stands somewhere has a step to go, and the
step is no fault. -/
theorem step_of_stands (h : Stands source strictness (left + 1) scan) :
    Proceeds source strictness left (scan.step source strictness) := by
  cases h with
  | text settled reading position whole ahead plain steps =>
    exact settled.step_text reading position whole ahead plain steps
  | @opening closed pending read after settled saw position steps =>
    have hsource : source.toList = (sourceOf (closed ++ pending) ++ read) ++ after := by
      rw [settled.source_eq, List.append_assoc]
    have hposition : scan.position = byteLength (sourceOf (closed ++ pending) ++ read) := by
      rw [position, byteLength_append]
    rw [step, hposition]
    generalize scan.reading = reading at saw
    cases saw with
    | dollar =>
      change Proceeds source strictness left (scan.stepDollar source strictness _ _)
      rw [stepDollar_unitAt? hsource]
      exact settled.stepDollar rfl position steps
    | brace =>
      change Proceeds source strictness left (scan.stepBrace source strictness _ _)
      rw [stepBrace_unitAt? hsource]
      exact settled.stepBrace rfl position steps
    | bareName hname =>
      change Proceeds source strictness left (scan.stepBareName source _ _)
      rw [stepBareName_unitAt? hsource]
      exact settled.stepBareName hname rfl position steps
    | bracedName hname =>
      change Proceeds source strictness left (scan.stepBracedName source strictness _ _)
      rw [stepBracedName_unitAt? hsource]
      exact settled.stepBracedName hname rfl position steps

/-- Wherever a scan stands, it has a step to go. -/
theorem Stands.left_pos (h : Stands source strictness left scan) : 0 < left := by
  cases h with
  | @text closed pending run rest reread inside settled reading position whole ahead plain steps =>
    have hsize := settled.size_eq
    have hinside : inside ≤ byteLength rest := by
      rcases whole with rfl | ⟨c, more, rfl, hinside⟩
      · exact Nat.zero_le _
      · rw [byteLength_cons]
        omega
    obtain ⟨after, rfl⟩ := ahead
    rw [byteLength_append] at hsize hinside
    omega
  | opening settled saw position steps =>
    have hsize := settled.size_eq
    rw [byteLength_append] at hsize
    omega

/-- **The whole run**: with as many steps as it stands for, a scan ends and
is finished. -/
theorem run_of_stands {budget : Nat} (h : Stands source strictness budget scan) :
    ∃ final, run source strictness budget scan = .ok final ∧ Finished source strictness final := by
  induction budget generalizing scan with
  | zero => exact absurd h.left_pos (Nat.lt_irrefl 0)
  | succ budget ih =>
    have hstep := step_of_stands h
    rw [run]
    generalize scan.step source strictness = result at hstep
    cases hstep with
    | more hnext => exact ih hnext
    | finished hfinal => exact ⟨_, rfl, hfinal⟩

/-- At first nothing is settled and nothing was read. -/
theorem stands_init (source : String) (strictness : Strictness) :
    Stands source strictness (budget source) {} := by
  have hsettled : Settled source strictness [] [] [] source.toList {} := {
    source_eq := rfl
    tokens_eq := rfl
    isClosed := closed_nil
    isText := by simp
    strict := by simp
    segments_eq := by simp
    errors_eq := rfl
    literalFrom_eq := rfl
    copied := ⟨[], rfl, rfl⟩
    literal_eq := rfl
    plain := List.not_mem_nil }
  refine hsettled.stands_front rfl rfl List.nil_prefix List.not_mem_nil ?_
  rw [budget]
  omega

/-- A scan of a source is never a fault. -/
theorem finished_ofSource (source : String) (strictness : Strictness) :
    Finished source strictness (ofSource source strictness) := by
  obtain ⟨final, hrun, hfinal⟩ := run_of_stands (stands_init source strictness)
  rw [ofSource, hrun]
  exact hfinal

end

end Scan

end TextTemplate
