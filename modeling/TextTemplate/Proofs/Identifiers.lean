/-
TextTemplate.Proofs.Identifiers — what a template depends on.

The names of a template are all that a render asks for, and each of them
matters. Two lookups that agree on the names come to the same under every
policy and in every monad, and a strict render fails for any one of the
names when that is the only one without a value. So the list of names is
complete and there is none in it to spare, however often and in whichever
style they occur.

A name that only looks like one, inside a brace that does not close, is text
and is not in the list: it is no placeholder of the template, and nothing
here refers to the source.
-/
import TextTemplate.Proofs.Rendering
import TextTemplate.Proofs.Template
import TextTemplate.Proofs.Values

namespace TextTemplate

/-! ## Names of tokens -/

namespace Token

/-- The name of a placeholder. -/
def name? : Token → Option String
  | .placeholder _ name => some name
  | _ => none

theorem name?_of_isText {t : Token} (h : t.isText = true) : t.name? = none := by
  cases t with
  | placeholder => cases h
  | _ => rfl

end Token

/-- The names of the segments are those of the tokens. -/
theorem names_segmentsFrom (ts : List Token) (offset : Nat) :
    ((segmentsFrom offset ts).filterMap Segment.placeholder?).map Placeholder.name =
      ts.filterMap Token.name? := by
  induction ts using run_induction generalizing offset with
  | nil => simp
  | placeholder style name rest ih =>
    rw [segmentsFrom_placeholder]
    simp [Segment.placeholder?, Token.name?, ih]
  | run run rest hne hrun hrest ih =>
    have hnone : run.filterMap Token.name? = [] := by
      rw [List.filterMap_eq_nil_iff]
      intro t ht
      exact Token.name?_of_isText (hrun t ht)
    rw [segmentsFrom_append_run offset hne hrun hrest, List.filterMap_append, hnone,
      List.nil_append, ← ih (offset + byteLength (sourceOf run))]
    rfl

theorem mem_identifiers_salvage {source : String} {style : Style} {name : String}
    (h : .placeholder style name ∈ tokens source.toList) :
    name ∈ (Template.salvage source).identifiers := by
  rw [Template.identifiers, List.mem_eraseDups, Template.placeholders, Template.salvage_eq,
    names_segmentsFrom, List.mem_filterMap]
  exact ⟨_, h, rfl⟩

/-! ## Names of a template -/

/-- Without repetitions, the names stand in the order in which each of them
comes first. -/
theorem pairwise_idxOf_eraseDups (names : List String) :
    names.eraseDups.Pairwise fun a b => names.idxOf a < names.idxOf b := by
  induction names using List.reverseRecOn with
  | nil => exact .nil
  | append_singleton names name ih =>
    -- one more name does not move the ones in front of it
    have hkept : names.eraseDups.Pairwise fun a b =>
        (names ++ [name]).idxOf a < (names ++ [name]).idxOf b := by
      refine ih.imp_of_mem ?_
      intro a b ha hb hab
      rw [List.mem_eraseDups] at ha hb
      rwa [List.idxOf_append_of_mem ha, List.idxOf_append_of_mem hb]
    rw [List.eraseDups_append, List.pairwise_append]
    by_cases hmem : name ∈ names
    · have hnone : ([name].removeAll names).eraseDups = [] := by simp [List.removeAll, hmem]
      rw [hnone]
      exact ⟨hkept, .nil, by simp⟩
    · have hone : ([name].removeAll names).eraseDups = [name] := by
        simp [List.removeAll, hmem, List.eraseDups_cons]
      rw [hone]
      refine ⟨hkept, List.pairwise_singleton _ _, ?_⟩
      intro a ha b hb
      obtain rfl : b = name := List.mem_singleton.1 hb
      rw [List.mem_eraseDups] at ha
      have hfirst := List.idxOf_lt_length_iff.2 ha
      rw [List.idxOf_append_of_mem ha, List.idxOf_append_of_notMem hmem]
      omega

namespace Template

theorem mem_identifiers {t : Template} {name : String} :
    name ∈ t.identifiers ↔ ∃ p ∈ t.placeholders, p.name = name := by
  rw [identifiers, List.mem_eraseDups, List.mem_map]

theorem forall_mem_identifiers {t : Template} {P : String → Prop} :
    (∀ name ∈ t.identifiers, P name) ↔ ∀ p ∈ t.placeholders, P p.name := by
  simp only [mem_identifiers]
  constructor
  · intro h p hp
    exact h p.name ⟨p, hp, rfl⟩
  · intro h name hname
    obtain ⟨p, hp, rfl⟩ := hname
    exact h p hp

theorem nodup_identifiers (t : Template) : t.identifiers.Nodup := by
  refine (pairwise_idxOf_eraseDups (t.placeholders.map Placeholder.name)).imp ?_
  intro a b hab heq
  rw [heq] at hab
  exact Nat.lt_irrefl _ hab

/-- The one name without a value is what a strict render fails for. -/
theorem run_render_of_only_lacking {t : Template} {values : String → Option String} {name : String}
    (hname : name ∈ t.identifiers)
    (hothers : ∀ other ∈ t.identifiers, other ≠ name → values other ≠ none)
    (hnone : values name = none) :
    Id.run (t.render (Lookup.ofFunction values)) = .error ⟨name⟩ := by
  rw [run_render_ofFunction]
  cases hfind : t.placeholders.find? (Placeholder.lacks values) with
  | none =>
    obtain ⟨p, hp, rfl⟩ := mem_identifiers.1 hname
    exact absurd hnone (find?_lacks_eq_none_iff.1 hfind p hp)
  | some p =>
    have hlacks : p.lacks values = true := List.find?_some hfind
    have hp : values p.name = none := Option.isNone_iff_eq_none.1 hlacks
    have hmem : p.name ∈ t.identifiers := mem_identifiers.2 ⟨p, List.mem_of_find?_eq_some hfind, rfl⟩
    have heq : p.name = name := by
      by_contra hne
      exact hothers p.name hmem hne hp
    simp only [heq]

/-- **What a template depends on**: its names are those of its placeholders,
each once and by first appearance. Lookups that agree on them come to the
same whatever is asked of the template, a strict render succeeds when each of
them has a value, and it fails for each of them that alone has none. -/
theorem depends_on_identifiers (t : Template) :
    t.identifiers.Nodup ∧
    (∀ name, name ∈ t.identifiers ↔ ∃ p ∈ t.placeholders, p.name = name) ∧
    t.identifiers.Pairwise (fun a b =>
      (t.placeholders.map Placeholder.name).idxOf a <
        (t.placeholders.map Placeholder.name).idxOf b) ∧
    (∀ (m : Type → Type) [Monad m] [MonadLog m] (lookup other : Lookup m),
      (∀ name ∈ t.identifiers, lookup name = other name) →
        (∀ options, t.render lookup options = t.render other options) ∧
        (∀ options buffer, t.appendTo lookup options buffer = t.appendTo other options buffer) ∧
        t.renderPartial lookup = t.renderPartial other) ∧
    (∀ values : String → Option String,
      (∃ text, Id.run (t.render (Lookup.ofFunction values)) = .ok text) ↔
        ∀ name ∈ t.identifiers, values name ≠ none) ∧
    ∀ (values : String → Option String), ∀ name ∈ t.identifiers,
      (∀ other ∈ t.identifiers, other ≠ name → values other ≠ none) → values name = none →
        Id.run (t.render (Lookup.ofFunction values)) = .error ⟨name⟩ := by
  refine ⟨nodup_identifiers t, fun name => mem_identifiers, pairwise_idxOf_eraseDups _, ?_, ?_, ?_⟩
  · intro m _ _ lookup other h
    have hsame := forall_mem_identifiers.1 h
    exact ⟨render_congr_lookup hsame, appendTo_congr_lookup hsame, renderPartial_congr_lookup hsame⟩
  · intro values
    simp only [run_render_eq_ok_iff, exists_and_left, exists_eq, and_true, forall_mem_identifiers]
  · intro values name hname hothers hnone
    exact run_render_of_only_lacking hname hothers hnone

/-- Names that repeat in both styles, beside one in a brace that does not
close. -/
theorem depends_on_identifiers_repeated :
    (salvage "$b $\x7ba\x7d$\x7bb\x7d$a$\x7bc").identifiers = ["b", "a"] ∧
      Id.run ((salvage "$b $\x7ba\x7d$\x7bb\x7d$a$\x7bc").render
        (Lookup.ofPairs [("b", "1"), ("c", "2")])) = .error ⟨"a"⟩ ∧
      (salvage "$b $\x7ba\x7d$\x7bb\x7d$a$\x7bc").render (m := Id)
          (Lookup.ofPairs [("a", "3"), ("b", "1"), ("c", "2")]) =
        (salvage "$b $\x7ba\x7d$\x7bb\x7d$a$\x7bc").render (m := Id)
          (Lookup.ofPairs [("b", "1"), ("a", "3")]) := by
  obtain ⟨-, -, -, hsame, -, hlacking⟩ :=
    depends_on_identifiers (salvage "$b $\x7ba\x7d$\x7bb\x7d$a$\x7bc")
  have hnames : (salvage "$b $\x7ba\x7d$\x7bb\x7d$a$\x7bc").identifiers = ["b", "a"] := by
    decide +kernel
  refine ⟨hnames, ?_, ?_⟩
  · refine hlacking (fun name => [("b", "1"), ("c", "2")].lookup name) "a" ?_ ?_ rfl
    · rw [hnames]
      decide
    · rw [hnames]
      decide
  · refine (hsame Id _ _ ?_).1 {}
    rw [hnames, List.forall_mem_cons, List.forall_mem_singleton]
    exact ⟨rfl, rfl⟩

end Template

end TextTemplate
