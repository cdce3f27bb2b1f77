/-
TextTemplate.Proofs.EarliestError — an error is reported as early as can be.

A source that is refused splits at its error in three: what stands before
the dollar sign, what was read from there on, and what was not looked at.
The first part is accepted by itself. The second could still have become a
token, so that the two together begin an accepted source. With the next
character it can no longer, whatever comes behind: every source that begins
in this way is refused for the same reason at the same place.

The last is not obvious, since the cut looks at everything that follows. It
comes down to the judgement of a stray dollar sign, each rule of which asks
for one character behind what was read (`Begins.exists_read`).
-/
import TextTemplate.Proofs.Grammar

namespace TextTemplate

/-- What was read of a stray dollar sign: it begins some token, and with the
next character no more. -/
theorem Token.Begins.exists_read {kind : SyntaxError.Kind} {read : Nat} {text rest : List Char}
    (h : (Token.stray kind read).Begins text rest) :
    ∃ looked after, text = looked ++ after ∧ byteLength looked = read ∧
      looked.head? = some '$' ∧
      (∃ t : Token, ∃ closing, t.IsProper ∧ t.written = looked ++ closing) ∧
      ∀ c ∈ after.head?, ∀ more, ∃ rest',
        (Token.stray kind read).Begins (looked ++ c :: more) rest' := by
  cases h with
  | alone hrest =>
    refine ⟨['$'], rest, rfl, rfl, rfl, ⟨.escape, ['$'], trivial, rfl⟩, fun c hc more => ?_⟩
    refine ⟨c :: more, .alone ?_⟩
    rintro d ⟨⟩
    exact hrest c hc
  | @nameless c inner hstart =>
    refine ⟨['$', '\x7b'], c :: inner, rfl, rfl, rfl,
      ⟨.placeholder .braced "a", ['a', '\x7d'], by decide, by decide⟩, ?_⟩
    rintro d ⟨⟩ more
    exact ⟨_, .nameless hstart⟩
  | cutShort =>
    refine ⟨['$', '\x7b'], [], rfl, rfl, rfl,
      ⟨.placeholder .braced "a", ['a', '\x7d'], by decide, by decide⟩, ?_⟩
    rintro d ⟨⟩
  | @unclosed name after hname hstop hopen =>
    refine ⟨'$' :: '\x7b' :: name.toList, after, rfl, ?_, rfl,
      ⟨.placeholder .braced name, ['\x7d'], hname, rfl⟩, fun c hc more => ?_⟩
    · have hlength := Identifier.byteLength_of_isName hname
      rw [byteLength_cons, byteLength_cons, hlength, ← Nat.add_assoc]
      rfl
    · refine ⟨_, .unclosed hname (Identifier.stops_cons (hstop c hc) more) ?_⟩
      intro hclose
      rw [List.head?_cons, Option.some_inj] at hclose
      exact hopen (hclose ▸ hc)

namespace Template

/-- **Errors are early**: a source is refused at the first character behind
which no accepted source is left, and what stands before the placeholder is
accepted. -/
theorem parse_eq_error_earliest {source : String} {e : SyntaxError}
    (h : parse source = .error e) :
    ∃ before read after : String, source = before ++ read ++ after ∧
      before.utf8ByteSize = e.opened ∧ (before ++ read).utf8ByteSize = e.position ∧
      (∃ t, parse before = .ok t) ∧
      (∃ more t, parse (before ++ read ++ more) = .ok t) ∧
      ∀ c ∈ after.toList.head?, ∀ more : String,
        parse (before ++ read ++ String.singleton c ++ more) = .error e := by
  obtain ⟨pre, t, post, htokens, hpre, he⟩ := parse_eq_error_iff.1 h
  obtain ⟨kind, read, rfl⟩ : ∃ kind read, t = .stray kind read := by
    cases t with
    | stray kind read => exact ⟨kind, read, rfl⟩
    | _ => cases he
  have hcut := tokens_eq_iff.1 htokens
  have hreads := hcut.reads_left hpre
  obtain ⟨rest, hsource, hrest⟩ := hcut.exists_append
  obtain _ | ⟨first, -⟩ := hrest
  obtain ⟨looked, after, hsplit, hlength, hhead, ⟨u, closing, hu, hwritten⟩, hfixed⟩ :=
    first.exists_read
  have hopened : byteLength (sourceOf pre) = e.opened := by
    rw [← Option.some.inj he]
  have hposition : byteLength (sourceOf pre) + read = e.position := by
    rw [← Option.some.inj he]
  refine ⟨String.ofList (sourceOf pre), String.ofList looked, String.ofList after, ?_, ?_, ?_, ?_,
    ?_, ?_⟩
  · rw [← String.ofList_append, ← String.ofList_append, List.append_assoc, ← hsplit, ← hsource,
      String.ofList_toList]
  · rw [utf8ByteSize_ofList, hopened]
  · rw [← String.ofList_append, utf8ByteSize_ofList, byteLength_append, hlength, hposition]
  · exact exists_parse_eq_ok_of_isProper hreads.proper (by simp)
  · -- the token that `looked` could have become is put in its place
    have hproper : ∀ v ∈ pre ++ [u], v.IsProper := by
      rw [List.forall_mem_append]
      exact ⟨hreads.proper, by simpa using hu⟩
    exact ⟨String.ofList closing, exists_parse_eq_ok_of_isProper hproper (by simp [hwritten])⟩
  · intro c hc more
    rw [String.toList_ofList] at hc
    obtain ⟨rest', hbegins⟩ := hfixed c hc more.toList
    have hstop : Identifier.Stops (looked ++ c :: more.toList) := by
      intro d hd
      rw [List.head?_append, hhead] at hd
      cases hd
      decide
    have htokens' := (Reads.tokenizes_append (.cons hbegins (tokenizes_tokens rest')) hreads
      fun v _ => Token.ends_of_stops hstop v).tokens_eq
    refine parse_eq_error_iff.2 ⟨pre, .stray kind read, tokens rest', ?_, hpre, he⟩
    simpa using htokens'

/-- Behind a name in braces that a blank cuts off, no brace helps. -/
theorem parse_cut_off_name :
    parse "é$a $\x7bb c" = .error ⟨.unterminatedBrace, 8, 5, 1, 8⟩ ∧
      parse "é$a $\x7bb \x7d$" = .error ⟨.unterminatedBrace, 8, 5, 1, 8⟩ := by
  have hparse : parse "é$a $\x7bb c" = .error ⟨.unterminatedBrace, 8, 5, 1, 8⟩ := by decide +kernel
  obtain ⟨before, read, after, hsource, -, hposition, -, -, hfixed⟩ :=
    parse_eq_error_earliest hparse
  have hread : "é$a $\x7bb" = before ++ read := by
    have hcut := Span.cut?_append "" (before ++ read) after
    have hbytes : Span.cut? ⟨0, 8⟩ "é$a $\x7bb c" = some "é$a $\x7bb" := by decide +kernel
    simp only [String.empty_append, String.utf8ByteSize_empty, Nat.zero_add, hposition] at hcut
    rwa [← hsource, hbytes, Option.some_inj] at hcut
  have hafter : " c" = after := by
    rw [← hread] at hsource
    exact (String.append_right_inj "é$a $\x7bb").1 hsource
  refine ⟨hparse, ?_⟩
  rw [← hread, ← hafter] at hfixed
  exact hfixed ' ' (by decide) "\x7d$"

end Template

end TextTemplate
