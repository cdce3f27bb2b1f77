/-
TextTemplate.Proofs.Dollars — every dollar sign of a source is accounted for.

A dollar sign is one half of an escape, or the first character of a
placeholder, or begins nothing and is reported as an error. Each is exactly
one of these, and no error is reported anywhere else: however often a scan
goes back behind a dollar sign and reads on, none is passed over and none is
taken twice. `Template.dollars_accounted` says so by counting, for every byte
of the source, how often it is listed.

What an error says can be told from the bytes behind its dollar sign alone
(`Breaks`), by the rules of the grammar and without a scan. The bytes that
were read before the error was found have no dollar sign among them
(`Token.Begins.unitAt?_ne_dollar`). So an error is over before the next one begins.
-/
import TextTemplate.Proofs.Tiling

namespace TextTemplate

/-! ## What there is to account for -/

/-- The offsets of the dollar signs of a text that begins at an offset. -/
def dollarsFrom (offset : Nat) : List Char → List Nat
  | [] => []
  | c :: cs => (if c = '$' then [offset] else []) ++ dollarsFrom (offset + c.utf8Size) cs

/-- The offsets of both halves of each escape, from the left and without
overlap, of a text that begins at an offset. -/
def escapesFrom (offset : Nat) : List Char → List Nat
  | '$' :: '$' :: rest => offset :: (offset + 1) :: escapesFrom (offset + 2) rest
  | c :: rest => escapesFrom (offset + c.utf8Size) rest
  | [] => []

/-- The offsets of the halves of escapes under a literal's span. -/
def Segment.escapeHalves (source : String) : Segment → List Nat
  | .literal _ span =>
    ((span.cut? source).map fun part => escapesFrom span.start part.toList).getD []
  | .placeholder _ => []

/-- The text of a literal. -/
def Segment.literal? : Segment → Option String
  | .literal text _ => some text
  | .placeholder _ => none

open Identifier in
/-- The dollar sign at `start` begins nothing, which shows at another byte: by
the bytes of the source from there on. -/
inductive Breaks (source : String) (start : Nat) : SyntaxError.Kind → (position : Nat) → Prop where
  /-- Behind the dollar sign comes nothing it could be the beginning of. -/
  | alone
      (h : ∀ unit ∈ unitAt? source (start + 1), unit ≠ '$' ∧ unit ≠ '\x7b' ∧ isStart unit = false) :
      Breaks source start .invalidPlaceholder (start + 1)
  /-- Behind the brace comes no name. -/
  | nameless {unit : Char} (hbrace : unitAt? source (start + 1) = some '\x7b')
      (hunit : unitAt? source (start + 2) = some unit) (h : isStart unit = false) :
      Breaks source start .invalidPlaceholder (start + 2)
  /-- The source ends at the brace. -/
  | cutShort (hbrace : unitAt? source (start + 1) = some '\x7b')
      (hend : unitAt? source (start + 2) = none) :
      Breaks source start .unterminatedBrace (start + 2)
  /-- Behind the name, as far as it goes, comes no closing brace. -/
  | unclosed {name : String} {stop : Nat} (hbrace : unitAt? source (start + 1) = some '\x7b')
      (hcut : Span.cut? ⟨start + 2, stop⟩ source = some name) (hname : isName name = true)
      (hstop : ∀ unit ∈ unitAt? source stop, isContinue unit = false ∧ unit ≠ '\x7d') :
      Breaks source start .unterminatedBrace stop

/-! ## Offsets of dollar signs -/

theorem dollarsFrom_append (offset : Nat) (a b : List Char) :
    dollarsFrom offset (a ++ b) =
      dollarsFrom offset a ++ dollarsFrom (offset + byteLength a) b := by
  induction a generalizing offset with
  | nil => rfl
  | cons c a ih => simp [dollarsFrom, ih, Nat.add_assoc]

theorem dollarsFrom_eq_nil {cs : List Char} (h : '$' ∉ cs) (offset : Nat) :
    dollarsFrom offset cs = [] := by
  induction cs generalizing offset with
  | nil => rfl
  | cons c cs ih =>
    rw [List.mem_cons, not_or] at h
    rw [dollarsFrom, if_neg (Ne.symm h.1), ih h.2]
    rfl

/-- The dollar signs of a text are the bytes that read as one. -/
theorem count_dollarsFrom {source : String} {before text : List Char}
    (h : source.toList = before ++ text) (i : Nat) :
    (dollarsFrom (byteLength before) text).count i =
      if byteLength before ≤ i ∧ unitAt? source i = some '$' then 1 else 0 := by
  induction text generalizing before with
  | nil =>
    have hend : byteLength before ≤ i → unitAt? source i = none := by
      intro hle
      obtain ⟨k, rfl⟩ := Nat.exists_eq_add_of_le hle
      rw [unitAt?_add h]
      rfl
    rw [dollarsFrom, List.count_nil, if_neg]
    rintro ⟨hle, hread⟩
    rw [hend hle] at hread
    cases hread
  | cons c text ih =>
    have hbehind : source.toList = before ++ [c] ++ text := by simpa using h
    have hmore := ih hbehind
    rw [byteLength_append, byteLength_cons, byteLength_nil, Nat.add_zero] at hmore
    have hpos := c.utf8Size_pos
    have hfirst : (if c = '$' then [byteLength before] else []).count i =
        if byteLength before = i ∧ c = '$' then 1 else 0 := by
      by_cases hc : c = '$'
      · simp [hc, List.count_singleton]
      · simp [hc]
    rw [dollarsFrom, List.count_append, hmore, hfirst]
    rcases Nat.lt_trichotomy i (byteLength before) with hlt | rfl | hgt
    · rw [if_neg (by omega), if_neg (by omega), if_neg (by omega)]
    · obtain ⟨unit, hunit, halike⟩ := unitAt?_of_toList h
      have hdollar : unit = '$' ↔ c = '$' := halike.eq_iff (by decide)
      rw [hunit, if_neg (by omega : ¬ (byteLength before + c.utf8Size ≤ byteLength before ∧ _))]
      simp [hdollar]
    · rw [if_neg (by omega)]
      -- inside the character no byte reads as a dollar sign
      by_cases hinside : i < byteLength before + c.utf8Size
      · obtain ⟨k, rfl⟩ := Nat.exists_eq_add_of_lt hgt
        obtain ⟨unit, hunit, hwide⟩ :=
          unitAt?_inside (k := k + 1) h (by omega) (by omega)
        have hne : unitAt? source (byteLength before + k + 1) ≠ some '$' := by
          rw [Nat.add_assoc, hunit]
          rintro ⟨⟩
          exact absurd hwide (by decide)
        simp [hne]
      · simp [show byteLength before + c.utf8Size ≤ i by omega, Nat.le_of_lt hgt]

/-! ## The account of a token -/

namespace Token

/-- The halves of the escape that a token at an offset is. -/
def halves (offset : Nat) : Token → List Nat
  | .escape => [offset, offset + 1]
  | _ => []

/-- A token of a literal has the dollar signs of an escape or of an error. -/
theorem Begins.dollarsFrom_written {t : Token} {text rest : List Char} (h : t.Begins text rest)
    (ht : t.isText = true) (before : List Char) :
    dollarsFrom (byteLength before) t.written =
      t.halves (byteLength before) ++ (t.error? before).toList.map SyntaxError.opened := by
  cases h with
  | char hc => exact dollarsFrom_eq_nil (by simpa [written] using Ne.symm hc) _
  | bare => cases ht
  | braced => cases ht
  | _ => rfl

/-- It has two of them for each in its text, or one and is an error. -/
theorem Begins.count_written {t : Token} {text rest : List Char} (h : t.Begins text rest)
    (ht : t.isText = true) (before : List Char) :
    t.written.count '$' + (t.error? before).toList.length = 2 * t.text.count '$' := by
  cases h with
  | char hc => simp [written, Token.text, error?, hc]
  | bare => cases ht
  | braced => cases ht
  | _ => rfl

end Token

theorem escapesFrom_cons {c : Char} {cs : List Char} (h : c = '$' → cs.head? ≠ some '$')
    (offset : Nat) : escapesFrom offset (c :: cs) = escapesFrom (offset + c.utf8Size) cs := by
  rw [escapesFrom]
  rintro rest rfl rfl
  exact h rfl rfl

/-- The escapes of a run are found token by token. -/
theorem Tokenizes.escapesFrom_run {t : Token} {run rest : List Token} {text : List Char}
    (h : Tokenizes (t :: (run ++ rest)) text) (ht : t.isText = true) (offset : Nat) :
    escapesFrom offset (sourceOf (t :: run)) =
      t.halves offset ++ escapesFrom (offset + byteLength t.written) (sourceOf run) := by
  cases t with
  | char c =>
    obtain _ | ⟨⟨hc⟩, -⟩ := h
    exact escapesFrom_cons (fun he => absurd he hc) offset
  | escape => rfl
  | placeholder => cases ht
  | stray kind read => exact escapesFrom_cons (fun _ => h.head?_ne_dollar) offset

/-! ## The account of a run of text -/

theorem Tokenizes.count_run {run rest : List Token} {text : List Char}
    (h : Tokenizes (run ++ rest) text) (hrun : ∀ t ∈ run, t.isText = true) (before : List Char)
    (i : Nat) :
    (escapesFrom (byteLength before) (sourceOf run)).count i +
        ((errorsFrom before run).map SyntaxError.opened).count i =
      (dollarsFrom (byteLength before) (sourceOf run)).count i := by
  induction run generalizing before text with
  | nil => simp [escapesFrom, errorsFrom, dollarsFrom]
  | cons t run ih =>
    obtain ⟨ht, hrun⟩ := List.forall_mem_cons.1 hrun
    have hescapes := h.escapesFrom_run ht (byteLength before)
    obtain _ | ⟨first, more⟩ := h
    have hmore := ih more hrun (before ++ t.written)
    rw [byteLength_append] at hmore
    rw [hescapes, errorsFrom, sourceOf_cons, dollarsFrom_append,
      first.dollarsFrom_written ht before]
    simp only [List.map_append, List.count_append]
    omega

theorem Tokenizes.balance_run {run rest : List Token} {text : List Char}
    (h : Tokenizes (run ++ rest) text) (hrun : ∀ t ∈ run, t.isText = true) (before : List Char) :
    (sourceOf run).count '$' + (errorsFrom before run).length = 2 * (textOf run).count '$' := by
  induction run generalizing before text with
  | nil => rfl
  | cons t run ih =>
    obtain ⟨ht, hrun⟩ := List.forall_mem_cons.1 hrun
    obtain _ | ⟨first, more⟩ := h
    have hmore := ih more hrun (before ++ t.written)
    have hfirst := first.count_written ht before
    rw [errorsFrom, sourceOf_cons, textOf_cons, List.count_append, List.count_append,
      List.length_append]
    omega

/-! ## The account of a text -/

/-- Where the placeholders among segments begin. -/
def placeholderStarts (ss : List Segment) : List Nat :=
  (ss.filterMap Segment.placeholder?).map fun p => p.span.start

/-- The dollar signs in the literals among segments. -/
def literalDollars (ss : List Segment) : Nat :=
  ((ss.filterMap Segment.literal?).flatMap String.toList).count '$'

@[simp] theorem placeholderStarts_placeholder (p : Placeholder) (ss : List Segment) :
    placeholderStarts (.placeholder p :: ss) = p.span.start :: placeholderStarts ss := rfl

@[simp] theorem placeholderStarts_literal (text : String) (span : Span) (ss : List Segment) :
    placeholderStarts (.literal text span :: ss) = placeholderStarts ss := rfl

@[simp] theorem literalDollars_placeholder (p : Placeholder) (ss : List Segment) :
    literalDollars (.placeholder p :: ss) = literalDollars ss := rfl

@[simp] theorem literalDollars_literal (text : String) (span : Span) (ss : List Segment) :
    literalDollars (.literal text span :: ss) = text.toList.count '$' + literalDollars ss := by
  simp [literalDollars, Segment.literal?]

/-- Each dollar sign is listed once: with an escape, a placeholder or an
error. -/
theorem Tokenizes.count_segments {source : String} {ts : List Token} {before text : List Char}
    (h : Tokenizes ts text) (hsource : source.toList = before ++ text) (i : Nat) :
    ((segmentsFrom (byteLength before) ts).flatMap (Segment.escapeHalves source)).count i +
        (placeholderStarts (segmentsFrom (byteLength before) ts)).count i +
        ((errorsFrom before ts).map SyntaxError.opened).count i =
      (dollarsFrom (byteLength before) text).count i := by
  induction ts using run_induction generalizing before text with
  | nil =>
    cases h
    simp [placeholderStarts, errorsFrom, dollarsFrom]
  | placeholder style name rest ih =>
    obtain _ | ⟨first, more⟩ := h
    have hsplit := hsource
    rw [first.text_eq, ← List.append_assoc] at hsplit
    have hmore := ih more hsplit
    obtain ⟨behind, -, hwritten, hplain⟩ := Token.IsProper.written_eq_cons (first.isProper rfl)
    have hone : dollarsFrom (byteLength before) (Token.placeholder style name).written =
        [byteLength before] := by
      rw [hwritten, dollarsFrom, dollarsFrom_eq_nil hplain, if_pos rfl, List.append_nil]
    rw [byteLength_append] at hmore
    rw [first.text_eq, dollarsFrom_append, hone, segmentsFrom_placeholder, List.count_append,
      ← hmore]
    simp [Segment.escapeHalves, errorsFrom, Token.error?, List.count_cons]
    omega
  | run run rest hne hrun hrest ih =>
    obtain ⟨after, rfl, hafter⟩ := h.exists_append
    have hsplit := hsource
    rw [← List.append_assoc] at hsplit
    have hmore := ih hafter hsplit
    have hhere := h.count_run hrun before i
    have hcut := Span.cut?_of_toList (hsource.trans (List.append_assoc _ _ _).symm)
    rw [byteLength_append] at hmore
    rw [segmentsFrom_append_run _ hne hrun hrest, dollarsFrom_append, errorsFrom_append,
      List.count_append, ← hmore, ← hhere]
    simp [Segment.escapeHalves, hcut]
    omega

/-- Each dollar sign of a literal stands for two of an escape, or for one and
an error. -/
theorem Tokenizes.balance_segments {ts : List Token} {text : List Char} (h : Tokenizes ts text)
    (before : List Char) (offset : Nat) :
    text.count '$' + (errorsFrom before ts).length =
      (placeholderStarts (segmentsFrom offset ts)).length +
        2 * literalDollars (segmentsFrom offset ts) := by
  induction ts using run_induction generalizing before text offset with
  | nil =>
    cases h
    simp [errorsFrom, placeholderStarts, literalDollars]
  | placeholder style name rest ih =>
    obtain _ | ⟨first, more⟩ := h
    have hmore := ih more (before ++ (Token.placeholder style name).written)
      (offset + byteLength (Token.placeholder style name).written)
    obtain ⟨behind, -, hwritten, hplain⟩ := Token.IsProper.written_eq_cons (first.isProper rfl)
    have hone : (Token.placeholder style name).written.count '$' = 1 := by
      rw [hwritten, List.count_cons_self, List.count_eq_zero_of_not_mem hplain]
    rw [first.text_eq, List.count_append, hone, segmentsFrom_placeholder]
    simp only [errorsFrom, Token.error?, Option.toList_none, List.nil_append,
      placeholderStarts_placeholder, literalDollars_placeholder, List.length_cons]
    omega
  | run run rest hne hrun hrest ih =>
    obtain ⟨after, rfl, hafter⟩ := h.exists_append
    have hmore := ih hafter (before ++ sourceOf run) (offset + byteLength (sourceOf run))
    have hhere := h.balance_run hrun before
    rw [segmentsFrom_append_run _ hne hrun hrest, errorsFrom_append, List.count_append,
      List.length_append]
    simp only [placeholderStarts_literal, literalDollars_literal, String.toList_ofList]
    omega

/-! ## What an error says -/

section

variable {source : String} {before after : List Char}

/-- The byte behind a dollar sign is a brace where the next character is. -/
theorem unitAt?_brace_iff (h : source.toList = before ++ '$' :: after) :
    unitAt? source (byteLength before + 1) = some '\x7b' ↔ after.head? = some '\x7b' := by
  have hbehind : source.toList = (before ++ ['$']) ++ after := by simpa using h
  have hone : byteLength (before ++ ['$']) = byteLength before + 1 := byteLength_append _ _
  rw [← hone, unitAt?_eq_some_iff hbehind (by decide)]

/-- Whether anything begins at a dollar sign shows in the byte behind it. -/
theorem forall_behind_dollar_iff (h : source.toList = before ++ '$' :: after) :
    (∀ unit ∈ unitAt? source (byteLength before + 1),
        unit ≠ '$' ∧ unit ≠ '\x7b' ∧ Identifier.isStart unit = false) ↔
      ∀ c ∈ after.head?, c ≠ '$' ∧ c ≠ '\x7b' ∧ Identifier.isStart c = false := by
  have hbehind : source.toList = (before ++ ['$']) ++ after := by simpa using h
  have hone : byteLength (before ++ ['$']) = byteLength before + 1 := byteLength_append _ _
  rw [← hone]
  apply forall_unitAt?_iff hbehind
  intro unit c halike
  rw [Ne, Ne, halike.eq_iff (by decide), halike.eq_iff (by decide), halike.isStart_eq]

/-- Whether a name in braces is at its end and open shows in the byte behind
it. -/
theorem forall_behind_name_iff (h : source.toList = before ++ after) :
    (∀ unit ∈ unitAt? source (byteLength before),
        Identifier.isContinue unit = false ∧ unit ≠ '\x7d') ↔
      Identifier.Stops after ∧ after.head? ≠ some '\x7d' := by
  rw [forall_unitAt?_iff h]
  · constructor
    · intro hall
      refine ⟨fun c hc => (hall c hc).1, ?_⟩
      intro hc
      exact (hall _ hc).2 rfl
    · rintro ⟨hstop, hopen⟩ c hc
      refine ⟨hstop c hc, ?_⟩
      rintro rfl
      exact hopen hc
  · intro unit c halike
    rw [Ne, halike.eq_iff (by decide), halike.isContinue_eq]

/-- What stands behind a dollar sign and a brace begins two bytes further on. -/
theorem behind_brace (h : source.toList = before ++ '$' :: '\x7b' :: after) :
    source.toList = (before ++ ['$', '\x7b']) ++ after ∧
      byteLength (before ++ ['$', '\x7b']) = byteLength before + 2 :=
  ⟨by simpa using h, byteLength_append _ _⟩

/-- What a stray dollar sign is judged by shows in the bytes. -/
theorem Token.Begins.breaks {kind : SyntaxError.Kind} {read : Nat} {rest : List Char}
    (h : (Token.stray kind read).Begins ('$' :: after) rest)
    (hsource : source.toList = before ++ '$' :: after) :
    Breaks source (byteLength before) kind (byteLength before + read) := by
  have hbrace := unitAt?_brace_iff hsource
  cases h with
  | alone h => exact .alone ((forall_behind_dollar_iff hsource).2 h)
  | nameless hstart =>
    obtain ⟨hbehind, htwo⟩ := behind_brace hsource
    obtain ⟨unit, hunit, halike⟩ := unitAt?_of_toList hbehind
    rw [htwo] at hunit
    exact .nameless (hbrace.2 rfl) hunit (by rw [halike.isStart_eq, hstart])
  | cutShort =>
    obtain ⟨hbehind, htwo⟩ := behind_brace hsource
    refine .cutShort (hbrace.2 rfl) ?_
    rw [← htwo]
    exact unitAt?_end (by simpa using hbehind)
  | @unclosed name inner hname hstop hopen =>
    obtain ⟨hbehind, htwo⟩ := behind_brace hsource
    rw [← List.append_assoc] at hbehind
    have hlength := Identifier.byteLength_of_isName hname
    have hcut := Span.cut?_of_toList hbehind
    rw [htwo, hlength, Nat.add_assoc, String.ofList_toList] at hcut
    have hend : byteLength (before ++ ['$', '\x7b'] ++ name.toList) =
        byteLength before + (2 + name.length) := by
      rw [byteLength_append, htwo, hlength, Nat.add_assoc]
    refine .unclosed (hbrace.2 rfl) hcut hname ?_
    rw [← hend]
    exact (forall_behind_name_iff hbehind).2 ⟨hstop, hopen⟩

/-- And what shows in the bytes is how it is judged. -/
theorem Breaks.exists_begins {kind : SyntaxError.Kind} {position : Nat}
    (h : Breaks source (byteLength before) kind position)
    (hsource : source.toList = before ++ '$' :: after) :
    ∃ read rest, (Token.stray kind read).Begins ('$' :: after) rest ∧
      position = byteLength before + read := by
  have hbrace := unitAt?_brace_iff hsource
  cases h with
  | alone h => exact ⟨1, after, .alone ((forall_behind_dollar_iff hsource).1 h), rfl⟩
  | @nameless unit hopened hunit hstart =>
    obtain ⟨inner, rfl⟩ := List.head?_eq_some_iff.1 (hbrace.1 hopened)
    obtain ⟨hbehind, htwo⟩ := behind_brace hsource
    rw [← htwo] at hunit
    cases inner with
    | nil =>
      rw [unitAt?_end (by simpa using hbehind)] at hunit
      cases hunit
    | cons c inner =>
      obtain ⟨unit', hunit', halike⟩ := unitAt?_of_toList hbehind
      rw [hunit', Option.some_inj] at hunit
      subst hunit
      exact ⟨2, _, .nameless (by rw [← halike.isStart_eq, hstart]), rfl⟩
  | cutShort hopened hend =>
    obtain ⟨inner, rfl⟩ := List.head?_eq_some_iff.1 (hbrace.1 hopened)
    obtain ⟨hbehind, htwo⟩ := behind_brace hsource
    rw [← htwo] at hend
    cases inner with
    | nil => exact ⟨2, _, .cutShort, rfl⟩
    | cons c inner =>
      obtain ⟨unit, hunit, -⟩ := unitAt?_of_toList hbehind
      rw [hunit] at hend
      cases hend
  | @unclosed name stop hopened hcut hname hstop =>
    obtain ⟨inner, rfl⟩ := List.head?_eq_some_iff.1 (hbrace.1 hopened)
    obtain ⟨hbehind, htwo⟩ := behind_brace hsource
    -- the cut is made right behind the brace, so the name is what stands there
    obtain ⟨front, back, happend, hspan⟩ := Span.cut?_eq_some_iff.1 hcut
    obtain ⟨hfront, rfl⟩ := Span.mk.inj hspan
    have hsplit : before ++ ['$', '\x7b'] ++ inner =
        front.toList ++ (name.toList ++ back.toList) := by
      rw [← hbehind, happend, String.toList_append, String.toList_append, List.append_assoc]
    obtain ⟨hbefore, rfl⟩ :=
      append_inj_of_byteLength hsplit (by rw [htwo, hfront, byteLength_toList])
    have hlength := Identifier.byteLength_of_isName hname
    have hend : byteLength (before ++ ['$', '\x7b'] ++ name.toList) =
        front.utf8ByteSize + name.utf8ByteSize := by
      rw [byteLength_append, htwo, hfront, byteLength_toList]
    rw [← List.append_assoc] at hbehind
    rw [← hend, forall_behind_name_iff hbehind] at hstop
    refine ⟨2 + name.length, _, .unclosed hname hstop.1 hstop.2, ?_⟩
    rw [← hfront, ← hlength, byteLength_toList, Nat.add_assoc]

/-- What was read behind a stray dollar sign decided nothing. -/
theorem Token.Begins.exists_undecided {kind : SyntaxError.Kind} {read : Nat} {rest : List Char}
    (h : (Token.stray kind read).Begins ('$' :: after) rest) :
    ∃ looked more, after = looked ++ more ∧ Undecided looked ∧ read = 1 + byteLength looked := by
  cases h with
  | alone => exact ⟨[], after, rfl, .nil, rfl⟩
  | nameless => exact ⟨['\x7b'], _, rfl, .brace, rfl⟩
  | cutShort => exact ⟨['\x7b'], [], rfl, .brace, rfl⟩
  | @unclosed name inner hname =>
    refine ⟨'\x7b' :: name.toList, inner, rfl, .bracedName hname, ?_⟩
    have hbrace : '\x7b'.utf8Size = 1 := rfl
    rw [byteLength_cons, Identifier.byteLength_of_isName hname, hbrace, ← Nat.add_assoc]

/-- Where a text has no dollar sign, no byte reads as one. -/
theorem unitAt?_ne_dollar {mid : List Char} (h : source.toList = before ++ mid ++ after)
    (hplain : '$' ∉ mid) {i : Nat} (hle : byteLength before ≤ i)
    (hlt : i < byteLength before + byteLength mid) : unitAt? source i ≠ some '$' := by
  intro hread
  have hwhole := count_dollarsFrom (h.trans (List.append_assoc _ _ _)) i
  have hafter := count_dollarsFrom h i
  rw [byteLength_append, if_neg (by omega)] at hafter
  rw [dollarsFrom_append, dollarsFrom_eq_nil hplain, List.nil_append, hafter,
    if_pos ⟨hle, hread⟩] at hwhole
  cases hwhole

/-- Between the dollar sign and where it is found stray there is no other. -/
theorem Token.Begins.unitAt?_ne_dollar {kind : SyntaxError.Kind} {read : Nat} {rest : List Char}
    (h : (Token.stray kind read).Begins ('$' :: after) rest)
    (hsource : source.toList = before ++ '$' :: after) {i : Nat} (hlt : byteLength before < i)
    (hi : i < byteLength before + read) : unitAt? source i ≠ some '$' := by
  obtain ⟨looked, more, rfl, hlooked, rfl⟩ := h.exists_undecided
  have hsplit : source.toList = (before ++ ['$']) ++ looked ++ more := by simpa using hsource
  have hone : byteLength (before ++ ['$']) = byteLength before + 1 := byteLength_append _ _
  exact TextTemplate.unitAt?_ne_dollar hsplit hlooked.dollarless (by omega) (by omega)

/-- Each error is that of a stray dollar sign in its place. -/
theorem Tokenizes.exists_begins_of_mem {ts : List Token} {before text : List Char}
    (h : Tokenizes ts text) (hsource : source.toList = before ++ text) :
    ∀ e ∈ errorsFrom before ts, ∃ front after read rest,
      source.toList = front ++ '$' :: after ∧
        (Token.stray e.kind read).Begins ('$' :: after) rest ∧
        (Token.stray e.kind read).error? front = some e := by
  induction h generalizing before with
  | nil => simp [errorsFrom]
  | @cons t ts text rest first more ih =>
    intro e he
    rw [errorsFrom, List.mem_append] at he
    rcases he with he | he
    · cases t with
      | stray kind read =>
        obtain ⟨after, rfl⟩ : ∃ after, text = '$' :: after := ⟨rest, first.text_eq⟩
        simp only [Token.error?, Option.toList_some, List.mem_singleton] at he
        subst he
        exact ⟨before, after, read, rest, hsource, first, rfl⟩
      | _ => simp [Token.error?] at he
    · rw [first.text_eq, ← List.append_assoc] at hsource
      exact ih hsource e he

/-- The error of a stray dollar sign is what is reported of its place. -/
theorem Token.Begins.at?_eq {kind : SyntaxError.Kind} {read : Nat} {rest : List Char}
    (h : (Token.stray kind read).Begins ('$' :: after) rest)
    (hsource : source.toList = before ++ '$' :: after) :
    SyntaxError.at? source kind (byteLength before) (byteLength before + read) =
      (Token.stray kind read).error? before := by
  obtain ⟨looked, more, rfl, hlooked, rfl⟩ := h.exists_undecided
  have hsplit : source.toList = before ++ '$' :: looked ++ more := by simpa using hsource
  have hread : byteLength ('$' :: looked) = 1 + byteLength looked := rfl
  have hlineless : '\n' ∉ '$' :: looked := by simpa using hlooked.lineless
  rw [← hread, SyntaxError.at?_of_toList hsplit hlineless, hread, hlooked.byteLength_eq,
    Token.error?, List.length_cons, Nat.add_comm 1]

end

namespace Template

/-- The offsets of the halves of all escapes in literals. -/
def escapeHalves (t : Template) : List Nat :=
  t.segments.flatMap (Segment.escapeHalves t.source)

/-- Every dollar sign is listed once, and no other byte is. -/
theorem count_dollars (source : String) (i : Nat) :
    (salvage source).escapeHalves.count i +
        (placeholderStarts (salvage source).segments).count i +
        ((salvage source).errors.map SyntaxError.opened).count i =
      if unitAt? source i = some '$' then 1 else 0 := by
  have hsource : source.toList = [] ++ source.toList := rfl
  have hlisted := (tokenizes_tokens source.toList).count_segments hsource i
  have hbytes := count_dollarsFrom hsource i
  rw [byteLength_nil] at hlisted hbytes
  rw [escapeHalves, salvage_eq, hlisted, hbytes]
  simp

/-- Each error is that of a stray dollar sign in its place. -/
theorem exists_begins_of_mem_errors {source : String} {e : SyntaxError}
    (he : e ∈ (salvage source).errors) :
    ∃ front after read rest, source.toList = front ++ '$' :: after ∧
      (Token.stray e.kind read).Begins ('$' :: after) rest ∧
      e.opened = byteLength front ∧ e.position = byteLength front + read ∧
      SyntaxError.at? source e.kind e.opened e.position = some e := by
  have hsource : source.toList = [] ++ source.toList := rfl
  rw [salvage_eq] at he
  obtain ⟨front, after, read, rest, hfront, hstray, herror⟩ :=
    (tokenizes_tokens source.toList).exists_begins_of_mem hsource e he
  have hopened : e.opened = byteLength front := by rw [← Option.some.inj herror]
  have hposition : e.position = byteLength front + read := by rw [← Option.some.inj herror]
  refine ⟨front, after, read, rest, hfront, hstray, hopened, hposition, ?_⟩
  rw [hopened, hposition, hstray.at?_eq hfront, herror]

/-- What an error says is what the bytes behind its dollar sign say. -/
theorem breaks_iff_of_mem_errors {source : String} {e : SyntaxError}
    (he : e ∈ (salvage source).errors) {kind : SyntaxError.Kind} {position : Nat} :
    Breaks source e.opened kind position ↔ kind = e.kind ∧ position = e.position := by
  obtain ⟨front, after, read, rest, hfront, hstray, hopened, hposition, -⟩ :=
    exists_begins_of_mem_errors he
  rw [hopened, hposition]
  constructor
  · intro h
    obtain ⟨read', rest', hstray', rfl⟩ := h.exists_begins hfront
    have hsame : Token.stray kind read' = .stray e.kind read := by
      rw [← hstray.first_eq, hstray'.first_eq]
    obtain ⟨rfl, rfl⟩ := Token.stray.inj hsame
    exact ⟨rfl, rfl⟩
  · intro h
    obtain ⟨rfl, rfl⟩ := h
    exact hstray.breaks hfront

theorem opened_lt_position {source : String} {e : SyntaxError}
    (he : e ∈ (salvage source).errors) : e.opened < e.position := by
  obtain ⟨front, after, read, rest, -, hstray, hopened, hposition, -⟩ :=
    exists_begins_of_mem_errors he
  obtain ⟨looked, -, -, -, rfl⟩ := hstray.exists_undecided
  omega

/-- An error is over before the next one begins. -/
theorem pairwise_errors (source : String) :
    (salvage source).errors.Pairwise fun e f => e.position ≤ f.opened := by
  have horder : (salvage source).errors.Pairwise fun e f => e.opened < f.opened := by
    rw [salvage_eq]
    exact pairwise_errorsFrom [] (tokens source.toList)
  refine horder.imp_of_mem ?_
  intro e f he hf hlt
  obtain ⟨front, after, read, rest, hfront, hstray, hopened, hposition, -⟩ :=
    exists_begins_of_mem_errors he
  -- the second dollar sign would be among what was read of the first
  by_contra hinside
  have hnone : unitAt? source f.opened ≠ some '$' :=
    hstray.unitAt?_ne_dollar hfront (by omega) (by omega)
  have hone := count_dollars source f.opened
  rw [if_neg hnone] at hone
  have hlisted : 0 < ((salvage source).errors.map SyntaxError.opened).count f.opened :=
    List.count_pos_iff.2 (List.mem_map_of_mem hf)
  omega

/-- **Every dollar sign is accounted for**: it is listed once, as half of an
escape, with a placeholder or with an error, and no other byte is. An error
says what the bytes behind its dollar sign say, and is over before the next
begins. Dollar signs and errors together are as many as placeholders and
twice the dollar signs that literals are left with. -/
theorem dollars_accounted (source : String) :
    (∀ i, (salvage source).escapeHalves.count i +
        (placeholderStarts (salvage source).segments).count i +
        ((salvage source).errors.map SyntaxError.opened).count i =
      if unitAt? source i = some '$' then 1 else 0) ∧
    (∀ e ∈ (salvage source).errors, ∀ kind position,
      Breaks source e.opened kind position ↔ kind = e.kind ∧ position = e.position) ∧
    (∀ e ∈ (salvage source).errors, e.opened < e.position) ∧
    (salvage source).errors.Pairwise (fun e f => e.position ≤ f.opened) ∧
    source.toList.count '$' + (salvage source).errors.length =
      (salvage source).placeholders.length + 2 * literalDollars (salvage source).segments := by
  refine ⟨count_dollars source, fun e he kind position => breaks_iff_of_mem_errors he,
    fun e he => opened_lt_position he, pairwise_errors source, ?_⟩
  have hbalance := (tokenizes_tokens source.toList).balance_segments [] 0
  have hplaceholders : (salvage source).placeholders.length =
      (placeholderStarts (salvage source).segments).length :=
    (List.length_map _).symm
  rw [hplaceholders, salvage_eq]
  exact hbalance

end Template

end TextTemplate
