/-
TextTemplate.Proofs.Unresolved — filling a source when nothing has a value.

A placeholder without a value is put together again from its name and its
style, what is malformed is text, and an escape is one dollar sign. So where
no name has a value the whole machinery of scanning and rendering has to come
to what it would without knowing of placeholders at all: pairs of dollar
signs, taken from the left, are made one (`fillPartial_of_lacks`). Without
such a pair the source comes out as it went in (`collapsed_eq_self_iff`).

The plain replacement takes the pairs that are escapes and no others. What
stands in front of a dollar sign decides whether it is the second of a pair,
and neither a placeholder nor a dollar sign that begins nothing leaves half a
pair behind: the one ends in a character of a name or in a brace, the other
is not followed by a dollar sign (`Token.Begins.collapse_eq`).

A lookup has no value for a name if it never answers with one
(`Lookup.Lacks`). It is still asked, once for each placeholder, and may do
whatever it does when it is.
-/
import TextTemplate.Proofs.Identifiers
import TextTemplate.Proofs.Substitution
import TextTemplate.Proofs.Tiling

namespace TextTemplate

/-- A source with its pairs of dollar signs made one. -/
def collapsed (source : String) : String :=
  String.ofList (collapse source.toList)

/-- The lookup has no value for the name, whatever it does to find out. -/
def Lookup.Lacks {m : Type → Type} [Monad m] (lookup : Lookup m) (name : String) : Prop :=
  (fun _ => none) <$> lookup name = lookup name

/-! ## Collapsing -/

theorem collapse_append {cs : List Char} (h : '$' ∉ cs) (rest : List Char) :
    collapse (cs ++ rest) = cs ++ collapse rest := by
  induction cs with
  | nil => rfl
  | cons c cs ih =>
    rw [List.mem_cons, not_or] at h
    rw [List.cons_append, collapse_cons fun hc => absurd hc.symm h.1, ih h.2]
    rfl

theorem length_collapse_le (cs : List Char) : (collapse cs).length ≤ cs.length := by
  induction cs using collapse.induct with
  | case1 rest ih =>
    rw [collapse, List.length_cons, List.length_cons, List.length_cons]
    omega
  | case2 c rest hpair ih =>
    rw [collapse]
    · exact Nat.succ_le_succ ih
    · exact hpair
  | case3 => exact Nat.le_refl _

/-- What has no pairs is left as it is, and nothing else is. -/
theorem collapse_eq_self_iff {cs : List Char} : collapse cs = cs ↔ ¬ ['$', '$'] <:+: cs := by
  induction cs using collapse.induct with
  | case1 rest ih =>
    have hpair : ['$', '$'] <:+: '$' :: '$' :: rest := (List.prefix_append ['$', '$'] rest).isInfix
    have hshort := length_collapse_le rest
    constructor
    · intro hself
      have hlength := congrArg List.length hself
      rw [collapse, List.length_cons, List.length_cons, List.length_cons] at hlength
      omega
    · intro hnone
      exact absurd hpair hnone
  | case2 c rest hpair ih =>
    have hfront : ¬ ['$', '$'] <+: c :: rest := by
      rintro ⟨more, hsplit⟩
      cases hsplit
      exact hpair more rfl rfl
    rw [collapse]
    · rw [List.infix_cons_iff, not_or, List.cons.injEq, ih]
      simp only [hfront, not_false_eq_true, true_and]
    · exact hpair
  | case3 => decide

/-! ## Tokens without values -/

namespace Token

/-- What a token comes to when it has no value. -/
def unfilled : Token → List Char
  | .placeholder style name => (Token.placeholder style name).written
  | t => t.text

theorem unfilled_of_isText {t : Token} (h : t.isText = true) : t.unfilled = t.text := by
  cases t with
  | placeholder => cases h
  | _ => rfl

/-- No pair reaches from one token into the next. -/
theorem Begins.collapse_eq {t : Token} {text rest : List Char} (h : t.Begins text rest) :
    collapse text = t.unfilled ++ collapse rest := by
  cases t with
  | char c =>
    cases h with
    | char hc => exact collapse_cons fun he => absurd he hc
  | escape =>
    cases h
    rfl
  | placeholder style name =>
    obtain ⟨behind, hne, hwritten, hplain⟩ := IsProper.written_eq_cons (h.isProper rfl)
    -- the dollar sign in front has something of the placeholder behind it
    have hhead : (behind ++ rest).head? ≠ some '$' := by
      obtain ⟨c, more, rfl⟩ := List.exists_cons_of_ne_nil hne
      rintro ⟨⟩
      exact hplain List.mem_cons_self
    rw [h.text_eq, unfilled, hwritten, List.cons_append, collapse_cons fun _ => hhead,
      collapse_append hplain]
    rfl
  | stray kind read =>
    rw [h.text_eq]
    exact collapse_cons fun _ => h.head?_ne_dollar

end Token

theorem collapse_eq_flatMap_tokens (text : List Char) :
    collapse text = (tokens text).flatMap Token.unfilled := by
  have h := tokenizes_tokens text
  generalize tokens text = ts at h
  induction h with
  | nil => rfl
  | cons first _ ih => rw [first.collapse_eq, ih, List.flatMap_cons]

theorem textUnder_segmentsFrom (ts : List Token) (offset : Nat) :
    textUnder (fun _ => none) (segmentsFrom offset ts) =
      String.ofList (ts.flatMap Token.unfilled) := by
  induction ts using run_induction generalizing offset with
  | nil => simp
  | placeholder style name rest ih =>
    rw [segmentsFrom_placeholder, textUnder_cons, ih, List.flatMap_cons, String.ofList_append]
    congr 1
    exact (Placeholder.ofList_written _).symm
  | run run rest hne hrun hrest ih =>
    have htext : run.flatMap Token.unfilled = textOf run :=
      List.flatMap_congr fun t ht => Token.unfilled_of_isText (hrun t ht)
    rw [segmentsFrom_append_run offset hne hrun hrest, textUnder_cons, ih, List.flatMap_append,
      htext, String.ofList_append]
    rfl

/-- Without values a source is rendered to itself, collapsed. -/
theorem textUnder_salvage (source : String) :
    textUnder (fun _ => none) (Template.salvage source).segments = collapsed source := by
  rw [Template.salvage_eq, textUnder_segmentsFrom, collapsed, collapse_eq_flatMap_tokens]

/-! ## Lookups without values -/

section

variable {m : Type → Type} [Monad m] [LawfulMonad m]

/-- What is done with the answer is done with none. -/
theorem Lookup.Lacks.bind_eq {α : Type} {lookup : Lookup m} {name : String}
    (h : lookup.Lacks name) (f : Option String → m α) :
    lookup name >>= f = lookup name >>= fun _ => f none := by
  rw [← h, bind_map_left, bind_map_left]

variable [MonadLog m]

namespace Template

theorem emit_leave_of_lacks {lookup : Lookup m} {ss : List Segment}
    (h : ∀ p ∈ ss.filterMap Segment.placeholder?, lookup.Lacks p.name) (out : String) :
    emit lookup .leave ss out = do
      forM (ss.filterMap Segment.placeholder?) fun p => do
        let _ ← lookup p.name
        MonadLog.log (.left p.name)
      return (out ++ textUnder (fun _ => none) ss, none) := by
  induction ss generalizing out with
  | nil => simp [emit]
  | cons s ss ih =>
    cases s with
    | literal text span =>
      simp [emit, ih h, Segment.textUnder, List.filterMap_cons, String.append_assoc]
    | placeholder p =>
      obtain ⟨hp, hss⟩ := List.forall_mem_cons.1 h
      rw [emit, hp.bind_eq]
      simp [ih hss, Segment.textUnder, String.append_assoc]

end Template

/-- Filling when nothing has a value: every placeholder is asked for, nothing
comes of it, and the source comes out collapsed. -/
theorem fillPartial_of_lacks {source : String} {lookup : Lookup m}
    (h : ∀ name ∈ (Template.salvage source).identifiers, lookup.Lacks name) :
    fillPartial source lookup = do
      MonadLog.log (Template.salvage source).parsedEvent
      forM (Template.salvage source).placeholders fun p => do
        let _ ← lookup p.name
        MonadLog.log (.left p.name)
      return collapsed source := by
  have hplaceholders := Template.forall_mem_identifiers.1 h
  rw [fillPartial_eq_renderPartial, Template.renderPartial,
    Template.emit_leave_of_lacks hplaceholders, textUnder_salvage]
  simp [Template.placeholders]

end

theorem collapsed_eq_self_iff {source : String} :
    collapsed source = source ↔ ¬ ['$', '$'] <:+: source.toList := by
  rw [← collapse_eq_self_iff, collapsed, ← String.toList_inj, String.toList_ofList]

/-- **With nothing resolved, filling only collapses escapes**: whatever a
lookup without values does when it is asked, the text that comes out is the
source with each pair of dollar signs, from the left, made one. It is the
source exactly when there is no pair in it, and is then read as the source
was. -/
theorem fillPartial_unresolved (source : String) :
    (∀ (m : Type → Type) [Monad m] [LawfulMonad m] [MonadLog m] (lookup : Lookup m),
      (∀ name ∈ (Template.salvage source).identifiers, lookup.Lacks name) →
        fillPartial source lookup = do
          MonadLog.log (Template.salvage source).parsedEvent
          forM (Template.salvage source).placeholders fun p => do
            let _ ← lookup p.name
            MonadLog.log (.left p.name)
          return collapsed source) ∧
    (∀ values : String → Option String,
      (∀ name ∈ (Template.salvage source).identifiers, values name = none) →
        Id.run (fillPartial source (Lookup.ofFunction values)) = collapsed source) ∧
    (collapsed source = source ↔ ¬ ['$', '$'] <:+: source.toList) ∧
    (¬ ['$', '$'] <:+: source.toList →
      Template.salvage (collapsed source) = Template.salvage source ∧
        Template.parse (collapsed source) = Template.parse source) := by
  refine ⟨?_, ?_, collapsed_eq_self_iff, ?_⟩
  · intro m _ _ _ lookup h
    exact fillPartial_of_lacks h
  · intro values h
    have hlacks : ∀ name ∈ (Template.salvage source).identifiers,
        (Lookup.ofFunction (m := Id) values).Lacks name := by
      intro name hname
      exact (h name hname).symm
    rw [fillPartial_of_lacks hlacks]
    simp
  · intro hnone
    rw [collapsed_eq_self_iff.2 hnone]
    exact ⟨rfl, rfl⟩

/-- Runs of dollar signs of either parity in front of names and braces, beside
a brace that does not close, with a lookup that notes what it is asked; and a
source without a pair. -/
theorem fillPartial_unresolved_runs :
    Id.run ((fillPartial "$$$x$$y $$$\x7ba\x7d$ $\x7b$$é$$$"
        (Lookup.recorded 0 (Lookup.ofPairs [("y", "1")])) :
          StateM (Array Lookup.Question) String).run #[]) =
        ("$$x$y $$\x7ba\x7d$ $\x7b$é$$", #[⟨0, "x"⟩, ⟨0, "a"⟩]) ∧
      Id.run (fillPartial "$x $\x7ba\x7d$ $\x7b$é$\x7b_" (Lookup.ofPairs [("y", "1")])) =
        "$x $\x7ba\x7d$ $\x7b$é$\x7b_" ∧
      Template.salvage (collapsed "$x $\x7ba\x7d$ $\x7b$é$\x7b_") =
        Template.salvage "$x $\x7ba\x7d$ $\x7b$é$\x7b_" := by
  obtain ⟨hruns, -, -, -⟩ := fillPartial_unresolved "$$$x$$y $$$\x7ba\x7d$ $\x7b$$é$$$"
  obtain ⟨-, hplain, hself, hagain⟩ := fillPartial_unresolved "$x $\x7ba\x7d$ $\x7b$é$\x7b_"
  have hnames : (Template.salvage "$$$x$$y $$$\x7ba\x7d$ $\x7b$$é$$$").identifiers =
      ["x", "a"] := by decide +kernel
  have hnone : ∀ name ∈ (Template.salvage "$x $\x7ba\x7d$ $\x7b$é$\x7b_").identifiers,
      [("y", "1")].lookup name = none := by decide +kernel
  have hpair : ¬ ['$', '$'] <:+: "$x $\x7ba\x7d$ $\x7b$é$\x7b_".toList := by decide +kernel
  refine ⟨?_, (hplain _ hnone).trans (hself.2 hpair), (hagain hpair).1⟩
  rw [hruns (StateM (Array Lookup.Question))]
  · decide +kernel
  · rw [hnames, List.forall_mem_cons, List.forall_mem_singleton]
    exact ⟨rfl, rfl⟩

end TextTemplate
