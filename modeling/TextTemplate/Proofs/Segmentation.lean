/-
TextTemplate.Proofs.Segmentation — the segments and the errors of a list of
tokens.

`segmentsFrom` says in one piece what the scan does with three cursors: a
placeholder is a segment, and so is each longest run of other tokens between
two of them. `errorsFrom` lists the stray dollar signs with their places.

What is proved of segments is proved along them, over placeholders one by
one and over literals run by run (`run_induction`).

Both are read from the front, and a scan builds its segments from the back.
`segmentsFrom_append_placeholder` is what brings the two together: whatever
stands in front of a placeholder is segmented without regard to what comes
from there on.
-/
import TextTemplate.Proofs.Token

namespace TextTemplate

/-- A segment over other bytes. -/
def Segment.withSpan (span : Span) : Segment → Segment
  | .literal text _ => .literal text span
  | .placeholder p => .placeholder { p with span }

/-- The segments of tokens from an offset on. -/
def segmentsFrom (offset : Nat) : List Token → List Segment
  | [] => []
  | .placeholder style name :: rest =>
    let stop := offset + byteLength (Token.placeholder style name).written
    .placeholder ⟨name, style, ⟨offset, stop⟩⟩ :: segmentsFrom stop rest
  | t :: rest =>
    let run := t :: rest.takeWhile Token.isText
    let stop := offset + byteLength (sourceOf run)
    .literal (String.ofList (textOf run)) ⟨offset, stop⟩ ::
      segmentsFrom stop (rest.dropWhile Token.isText)
  termination_by ts => ts.length
  decreasing_by
    · simp
    · have := (List.dropWhile_suffix (l := rest) Token.isText).length_le
      simp only [List.length_cons]
      omega

/-- The error of a stray dollar sign behind `before`. It is reported where
reading stopped, which is on the same line. -/
def Token.error? (before : List Char) : Token → Option SyntaxError
  | .stray kind read =>
    let place := Location.behind before
    some ⟨kind, byteLength before + read, byteLength before, place.line, place.column + read⟩
  | _ => none

/-- The errors of tokens behind `before`. -/
def errorsFrom (before : List Char) : List Token → List SyntaxError
  | [] => []
  | t :: rest => (t.error? before).toList ++ errorsFrom (before ++ t.written) rest

/-! ## Segments -/

@[simp] theorem segmentsFrom_nil (offset : Nat) : segmentsFrom offset [] = [] := by
  rw [segmentsFrom]

theorem segmentsFrom_placeholder (offset : Nat) (style : Style) (name : String)
    (rest : List Token) :
    segmentsFrom offset (.placeholder style name :: rest) =
      .placeholder ⟨name, style,
          ⟨offset, offset + byteLength (Token.placeholder style name).written⟩⟩ ::
        segmentsFrom (offset + byteLength (Token.placeholder style name).written) rest := by
  rw [segmentsFrom]

/-- A token of a literal heads the longest run there is. -/
theorem segmentsFrom_run (offset : Nat) {t : Token} (ht : t.isText = true) (rest : List Token) :
    segmentsFrom offset (t :: rest) =
      .literal (String.ofList (textOf (t :: rest.takeWhile Token.isText)))
          ⟨offset, offset + byteLength (sourceOf (t :: rest.takeWhile Token.isText))⟩ ::
        segmentsFrom (offset + byteLength (sourceOf (t :: rest.takeWhile Token.isText)))
          (rest.dropWhile Token.isText) := by
  cases t with
  | placeholder => cases ht
  | _ => rw [segmentsFrom]; rintro _ _ ⟨⟩

/-! ## Going by runs -/

/-- Tokens in front of which a run of text is at its end. -/
def EndsRun (ts : List Token) : Prop :=
  ∀ t ∈ ts.head?, t.isText = false

theorem endsRun_nil : EndsRun [] := by
  rintro t ⟨⟩

theorem endsRun_placeholder (style : Style) (name : String) (rest : List Token) :
    EndsRun (.placeholder style name :: rest) := by
  rintro t ⟨⟩
  rfl

theorem EndsRun.append {ts us : List Token} (hts : EndsRun ts) (hus : EndsRun us) :
    EndsRun (ts ++ us) := by
  cases ts with
  | nil => exact hus
  | cons t ts => exact hts

theorem EndsRun.takeWhile_append {rest : List Token} (h : EndsRun rest) {run : List Token}
    (hrun : ∀ t ∈ run, t.isText = true) :
    (run ++ rest).takeWhile Token.isText = run ∧ (run ++ rest).dropWhile Token.isText = rest := by
  rw [List.takeWhile_append_of_pos hrun, List.dropWhile_append_of_pos hrun]
  cases rest with
  | nil => simp
  | cons t rest => simp [h t rfl]

/-- A run of text is one literal. -/
theorem segmentsFrom_append_run (offset : Nat) {run rest : List Token} (hne : run ≠ [])
    (hrun : ∀ t ∈ run, t.isText = true) (hrest : EndsRun rest) :
    segmentsFrom offset (run ++ rest) =
      .literal (String.ofList (textOf run)) ⟨offset, offset + byteLength (sourceOf run)⟩ ::
        segmentsFrom (offset + byteLength (sourceOf run)) rest := by
  cases run with
  | nil => exact absurd rfl hne
  | cons t run =>
    obtain ⟨ht, hrun⟩ := List.forall_mem_cons.1 hrun
    obtain ⟨htake, hdrop⟩ := hrest.takeWhile_append hrun
    rw [List.cons_append, segmentsFrom_run offset ht, htake, hdrop]

/-- Induction along the segments: over placeholders one by one and over text
run by run. -/
@[elab_as_elim]
theorem run_induction {motive : List Token → Prop} (nil : motive [])
    (placeholder : ∀ style name rest, motive rest → motive (.placeholder style name :: rest))
    (run : ∀ run rest, run ≠ [] → (∀ t ∈ run, t.isText = true) → EndsRun rest → motive rest →
      motive (run ++ rest)) :
    ∀ ts, motive ts
  | [] => nil
  | t :: ts => by
    cases ht : t.isText with
    | false =>
      obtain ⟨style, name, rfl⟩ := Token.eq_placeholder_of_isText ht
      exact placeholder style name ts (run_induction nil placeholder run ts)
    | true =>
      have hsplit : t :: ts =
          (t :: ts.takeWhile Token.isText) ++ ts.dropWhile Token.isText := by
        rw [List.cons_append, List.takeWhile_append_dropWhile]
      have hshort := (List.dropWhile_suffix (l := ts) Token.isText).length_le
      rw [hsplit]
      refine run _ _ (List.cons_ne_nil _ _) ?_ ?_ (run_induction nil placeholder run _)
      · rw [List.forall_mem_cons]
        exact ⟨ht, fun u hu => List.mem_takeWhile_imp hu⟩
      · intro u hu
        have hhead := List.head?_dropWhile_not Token.isText ts
        rw [Option.mem_def.1 hu] at hhead
        simpa using hhead
  termination_by ts => ts.length
  decreasing_by all_goals simp only [List.length_cons]; omega

/-! ## Placeholders as seams -/

/-- Where a run would end anyway, what is in front is cut off from what is
behind. -/
theorem segmentsFrom_append_of_endsRun {us : List Token} (hus : EndsRun us) (ts : List Token)
    (offset : Nat) :
    segmentsFrom offset (ts ++ us) =
      segmentsFrom offset ts ++ segmentsFrom (offset + byteLength (sourceOf ts)) us := by
  induction ts using run_induction generalizing offset with
  | nil => simp
  | placeholder style name rest ih =>
    rw [List.cons_append, segmentsFrom_placeholder, segmentsFrom_placeholder, ih, sourceOf_cons,
      byteLength_append, Nat.add_assoc, List.cons_append]
  | run run rest hne hrun hrest ih =>
    rw [List.append_assoc, segmentsFrom_append_run offset hne hrun (hrest.append hus),
      segmentsFrom_append_run offset hne hrun hrest, ih, sourceOf_append, byteLength_append,
      Nat.add_assoc, List.cons_append]

/-- A placeholder cuts what is in front of it off from what is behind. -/
theorem segmentsFrom_append_placeholder (style : Style) (name : String) (rest ts : List Token)
    (offset : Nat) :
    segmentsFrom offset (ts ++ .placeholder style name :: rest) =
      segmentsFrom offset ts ++
        segmentsFrom (offset + byteLength (sourceOf ts)) (.placeholder style name :: rest) :=
  segmentsFrom_append_of_endsRun (endsRun_placeholder style name rest) ts offset

/-- Tokens that a scan is through with: none, or the last is a placeholder. -/
def Closed (ts : List Token) : Prop :=
  ∀ t ∈ ts.getLast?, t.isText = false

theorem closed_nil : Closed [] := by
  rintro t ⟨⟩

theorem closed_concat (ts : List Token) (style : Style) (name : String) :
    Closed (ts ++ [.placeholder style name]) := by
  intro t ht
  rw [List.getLast?_concat, Option.mem_some] at ht
  subst ht
  rfl

theorem segmentsFrom_append_of_closed {closed : List Token} (h : Closed closed) (offset : Nat)
    (ts : List Token) :
    segmentsFrom offset (closed ++ ts) =
      segmentsFrom offset closed ++ segmentsFrom (offset + byteLength (sourceOf closed)) ts := by
  rcases List.eq_nil_or_concat closed with rfl | ⟨init, last, rfl⟩
  · simp
  · obtain ⟨style, name, rfl⟩ := Token.eq_placeholder_of_isText (h last (by simp))
    rw [List.concat_eq_append, List.append_assoc, List.singleton_append,
      segmentsFrom_append_placeholder,
      segmentsFrom_append_placeholder, segmentsFrom_placeholder, segmentsFrom_placeholder]
    simp [Nat.add_assoc]

/-- Text alone is one literal. -/
theorem segmentsFrom_text (offset : Nat) {ts : List Token} (h : ∀ t ∈ ts, t.isText = true)
    (hne : ts ≠ []) :
    segmentsFrom offset ts =
      [.literal (String.ofList (textOf ts)) ⟨offset, offset + byteLength (sourceOf ts)⟩] := by
  have hrun := segmentsFrom_append_run offset hne h endsRun_nil
  rwa [List.append_nil, segmentsFrom_nil] at hrun

/-! ## Errors -/

theorem errorsFrom_append (before : List Char) (ts us : List Token) :
    errorsFrom before (ts ++ us) =
      errorsFrom before ts ++ errorsFrom (before ++ sourceOf ts) us := by
  induction ts generalizing before with
  | nil => simp [errorsFrom]
  | cons t ts ih => simp [errorsFrom, ih]

/-- Errors begin where the tokens do, or further on. -/
theorem le_opened_of_mem {before : List Char} {ts : List Token} :
    ∀ e ∈ errorsFrom before ts, byteLength before ≤ e.opened := by
  induction ts generalizing before with
  | nil => simp [errorsFrom]
  | cons t ts ih =>
    intro e he
    rw [errorsFrom, List.mem_append] at he
    rcases he with he | he
    · cases t with
      | stray =>
        simp only [Token.error?, Option.toList_some, List.mem_singleton] at he
        rw [he]
      | _ => simp [Token.error?] at he
    · have hlater := ih e he
      rw [byteLength_append] at hlater
      omega

/-- Errors stand in the order of their dollar signs. -/
theorem pairwise_errorsFrom (before : List Char) (ts : List Token) :
    (errorsFrom before ts).Pairwise (fun e f => e.opened < f.opened) := by
  induction ts generalizing before with
  | nil => exact .nil
  | cons t ts ih =>
    rw [errorsFrom, List.pairwise_append]
    refine ⟨?_, ih (before ++ t.written), fun e he f hf => ?_⟩
    · cases t <;> simp [Token.error?]
    · have hlater := le_opened_of_mem f hf
      have hpos := byteLength_pos t.written_ne_nil
      rw [byteLength_append] at hlater
      cases t with
      | stray =>
        simp only [Token.error?, Option.toList_some, List.mem_singleton] at he
        rw [he]
        simp only
        omega
      | _ => simp [Token.error?] at he

/-- Without a stray dollar sign there is no error. -/
theorem errorsFrom_eq_nil_iff (before : List Char) {ts : List Token} :
    errorsFrom before ts = [] ↔ ∀ t ∈ ts, t.isStray = false := by
  induction ts generalizing before with
  | nil => simp [errorsFrom]
  | cons t ts ih =>
    rw [errorsFrom, List.append_eq_nil_iff, ih, List.forall_mem_cons]
    cases t <;> simp [Token.error?, Token.isStray]

/-- The first error is that of the first stray dollar sign. -/
theorem errorsFrom_eq_cons_iff (before : List Char) (ts : List Token) (e : SyntaxError) :
    (∃ es, errorsFrom before ts = e :: es) ↔
      ∃ pre t post, ts = pre ++ t :: post ∧ (∀ u ∈ pre, u.isStray = false) ∧
        t.error? (before ++ sourceOf pre) = some e := by
  constructor
  · rintro ⟨es, h⟩
    induction ts generalizing before with
    | nil => cases h
    | cons t ts ih =>
      rw [errorsFrom] at h
      cases herror : t.error? before with
      | some first =>
        rw [herror] at h
        obtain ⟨rfl, -⟩ := List.cons.inj h
        exact ⟨[], t, ts, rfl, by simp, by simpa using herror⟩
      | none =>
        rw [herror] at h
        obtain ⟨pre, u, post, rfl, hpre, hu⟩ := ih _ h
        have ht : t.isStray = false := by
          cases t with
          | stray => cases herror
          | _ => rfl
        refine ⟨t :: pre, u, post, rfl, ?_, by simpa using hu⟩
        rw [List.forall_mem_cons]
        exact ⟨ht, hpre⟩
  · rintro ⟨pre, t, post, rfl, hpre, ht⟩
    rw [errorsFrom_append, (errorsFrom_eq_nil_iff before).2 hpre, errorsFrom, ht]
    exact ⟨_, rfl⟩

end TextTemplate
