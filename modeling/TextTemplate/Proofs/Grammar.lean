/-
TextTemplate.Proofs.Grammar — the sources that are accepted, and what they
are cut into, said without a scan.

A source is accepted when it can be written down token by token: characters
other than the dollar sign, escapes, and placeholders with names. There are
several ways to write most sources down, since a character that could go on
with a name may as well stand behind it. Exactly one of them makes every
bare name as long as it can be (`Reads`), and that is the one a template is
made of.

The hard half is to find that one when any other is given. What follows a
bare name that is too short is a run of character tokens, so the name takes
the run in (`exists_longest`) and the rest is shorter than it was.
-/
import TextTemplate.Proofs.Template

namespace TextTemplate

/-! ## Well-formed tokens -/

namespace Token

/-- What the grammar has for tokens. A stray dollar sign is none. -/
def IsProper : Token → Prop
  | .char c => c ≠ '$'
  | .escape => True
  | .placeholder _ name => Identifier.isName name = true
  | .stray .. => False

instance : DecidablePred IsProper
  | .char c => inferInstanceAs (Decidable (c ≠ '$'))
  | .escape => inferInstanceAs (Decidable True)
  | .placeholder _ name => inferInstanceAs (Decidable (Identifier.isName name = true))
  | .stray .. => inferInstanceAs (Decidable False)

/-- The token in front of `rest` does not go on into it. Only a bare name
could. -/
def Ends (rest : List Char) : Token → Prop
  | .placeholder .bare _ => Identifier.Stops rest
  | _ => True

/-- Such a token is what stands at the front. -/
theorem begins_of_isProper {t : Token} {rest : List Char} (h : t.IsProper) (hends : t.Ends rest) :
    t.Begins (t.written ++ rest) rest := by
  cases t with
  | char c => exact .char h
  | escape => exact .escape
  | placeholder style name =>
    cases style with
    | bare => exact .bare h hends
    | braced =>
      have hbegins : Begins (.placeholder .braced name) _ rest := .braced h
      simpa [written] using hbegins
  | stray => exact h.elim

/-- What stands at the front is such a token, if it is not stray. -/
theorem Begins.isProper {t : Token} {text rest : List Char} (h : t.Begins text rest)
    (hstray : t.isStray = false) : t.IsProper := by
  cases h with
  | char hc => exact hc
  | escape => trivial
  | bare hname => exact hname
  | braced hname => exact hname
  | _ => cases hstray

theorem Begins.ends {t : Token} {text rest : List Char} (h : t.Begins text rest) :
    t.Ends rest := by
  cases h with
  | bare _ hstop => exact hstop
  | _ => trivial

/-- Whether a token ends is a matter of the next character. -/
theorem Ends.of_head? {t : Token} {rest rest' : List Char} (h : t.Ends rest)
    (hhead : rest'.head? = rest.head?) : t.Ends rest' := by
  cases t with
  | placeholder style =>
    cases style with
    | bare =>
      intro c hc
      exact h c (hhead ▸ hc)
    | braced => trivial
  | _ => trivial

theorem Ends.of_append {t : Token} {rest more : List Char} (h : t.Ends (rest ++ more)) :
    t.Ends rest := by
  cases rest with
  | nil =>
    cases t with
    | placeholder style => cases style <;> simp [Ends, Identifier.Stops]
    | _ => trivial
  | cons c rest => exact h.of_head? rfl

theorem ends_of_stops {rest : List Char} (h : Identifier.Stops rest) (t : Token) :
    t.Ends rest := by
  cases t with
  | placeholder style =>
    cases style with
    | bare => exact h
    | braced => trivial
  | _ => trivial

theorem ends_of_isText {t : Token} (h : t.isText = true) (rest : List Char) : t.Ends rest := by
  cases t with
  | placeholder => cases h
  | _ => trivial

/-- A placeholder begins with a dollar sign, and that is the only one. -/
theorem IsProper.written_eq_cons {style : Style} {name : String}
    (h : (Token.placeholder style name).IsProper) :
    ∃ more, more ≠ [] ∧ (Token.placeholder style name).written = '$' :: more ∧ '$' ∉ more := by
  have hname : '$' ∉ name.toList := by
    intro hmem
    cases Identifier.isContinue_of_isName h '$' hmem
  cases style with
  | bare =>
    obtain ⟨c, more, hlist, -⟩ := Identifier.isName_iff.1 h
    exact ⟨name.toList, by simp [hlist], rfl, hname⟩
  | braced => exact ⟨'\x7b' :: (name.toList ++ ['\x7d']), by simp, rfl, by simp [hname]⟩

theorem IsProper.isStray_eq {t : Token} (h : t.IsProper) : t.isStray = false := by
  cases t with
  | stray => exact h.elim
  | _ => rfl

end Token

/-! ## Ways to write a source down -/

/-- No name goes on into what follows it. -/
def Greedy : List Token → Prop
  | [] => True
  | t :: ts => t.Ends (sourceOf ts) ∧ Greedy ts

/-- The tokens write the text down with every bare name as long as it can
be. -/
structure Reads (ts : List Token) (text : List Char) : Prop where
  proper : ∀ t ∈ ts, t.IsProper
  greedy : Greedy ts
  source_eq : sourceOf ts = text

theorem reads_nil : Reads [] [] where
  proper := by simp
  greedy := trivial
  source_eq := rfl

theorem Reads.cons {t : Token} {ts : List Token} {text : List Char} (ht : t.IsProper)
    (hends : t.Ends text) (h : Reads ts text) : Reads (t :: ts) (t.written ++ text) where
  proper := by
    rw [List.forall_mem_cons]
    exact ⟨ht, h.proper⟩
  greedy := by
    rw [Greedy, h.source_eq]
    exact ⟨hends, h.greedy⟩
  source_eq := by rw [sourceOf_cons, h.source_eq]

/-- The one way to read a text, token by token. -/
theorem Reads.tokenizes : ∀ {ts : List Token} {text : List Char}, Reads ts text → Tokenizes ts text
  | [], text, h => by
    rw [← h.source_eq]
    exact .nil
  | t :: ts, text, h => by
    obtain ⟨ht, hts⟩ := List.forall_mem_cons.1 h.proper
    obtain ⟨hends, hgreedy⟩ := h.greedy
    rw [← h.source_eq]
    exact .cons (Token.begins_of_isProper ht hends) (Reads.tokenizes ⟨hts, hgreedy, rfl⟩)

theorem Tokenizes.reads {ts : List Token} {text : List Char} (h : Tokenizes ts text)
    (hstray : ∀ t ∈ ts, t.isStray = false) : Reads ts text := by
  induction h with
  | nil => exact reads_nil
  | cons first _ ih =>
    obtain ⟨ht, hts⟩ := List.forall_mem_cons.1 hstray
    rw [first.text_eq]
    exact .cons (first.isProper ht) first.ends (ih hts)

/-- What was read is read alike in front of another text, unless a name
would go on into it. -/
theorem Reads.tokenizes_append {rest : List Char} {us : List Token} (hus : Tokenizes us rest) :
    ∀ {ts : List Token} {text : List Char}, Reads ts text →
      (∀ t ∈ ts.getLast?, t.Ends rest) → Tokenizes (ts ++ us) (text ++ rest)
  | [], text, h, _ => by
    rw [← h.source_eq]
    exact hus
  | t :: ts, text, h, hlast => by
    obtain ⟨ht, hts⟩ := List.forall_mem_cons.1 h.proper
    obtain ⟨hends, hgreedy⟩ := h.greedy
    have hfar : t.Ends (sourceOf ts ++ rest) := by
      cases ts with
      | nil => exact hlast t rfl
      | cons u ts =>
        obtain ⟨c, more, hwritten⟩ := List.exists_cons_of_ne_nil u.written_ne_nil
        exact hends.of_head? (by simp [hwritten])
    have hmore : Tokenizes (ts ++ us) (sourceOf ts ++ rest) := by
      refine Reads.tokenizes_append hus ⟨hts, hgreedy, rfl⟩ fun u hu => hlast u ?_
      cases ts with
      | nil => cases hu
      | cons v ts => rwa [List.getLast?_cons_cons]
    rw [← h.source_eq, sourceOf_cons, List.append_assoc]
    exact .cons (Token.begins_of_isProper ht hfar) hmore

/-- Tokens in front of others are in front of what those stand for. -/
theorem Tokenizes.exists_append : ∀ {ts us : List Token} {text : List Char},
    Tokenizes (ts ++ us) text → ∃ rest, text = sourceOf ts ++ rest ∧ Tokenizes us rest
  | [], us, text, h => ⟨text, rfl, h⟩
  | t :: ts, us, text, h => by
    obtain _ | ⟨first, more⟩ := h
    obtain ⟨rest, rfl, hus⟩ := Tokenizes.exists_append more
    refine ⟨rest, ?_, hus⟩
    rw [first.text_eq, sourceOf_cons, List.append_assoc]

/-- Tokens in front of others read what they stand for. -/
theorem Tokenizes.reads_left : ∀ {ts us : List Token} {text : List Char},
    Tokenizes (ts ++ us) text → (∀ t ∈ ts, t.isStray = false) → Reads ts (sourceOf ts)
  | [], _, _, _, _ => reads_nil
  | t :: ts, us, text, h, hstray => by
    obtain ⟨ht, hts⟩ := List.forall_mem_cons.1 hstray
    obtain _ | ⟨first, more⟩ := h
    have hends : t.Ends (sourceOf ts) := by
      have hrest : sourceOf (ts ++ us) = _ := more.source_eq
      have hall := first.ends
      rw [← hrest, sourceOf_append] at hall
      exact hall.of_append
    rw [sourceOf_cons]
    exact .cons (first.isProper ht) hends (Tokenizes.reads_left more hts)

/-- The cut of a text without stray dollar signs is the way to read it. -/
theorem reads_iff {ts : List Token} {text : List Char} :
    Reads ts text ↔ tokens text = ts ∧ ∀ t ∈ tokens text, t.isStray = false := by
  constructor
  · intro h
    rw [h.tokenizes.tokens_eq]
    exact ⟨rfl, fun t ht => (h.proper t ht).isStray_eq⟩
  · rintro ⟨rfl, hstray⟩
    exact (tokenizes_tokens text).reads hstray

/-! ## From any way to the longest names -/

/-- A name in front of tokens can take in a run of characters, and then it
is as long as it can be. -/
theorem exists_longest : ∀ ts : List Token, ∃ run rest, rest <:+ ts ∧
    sourceOf ts = run ++ sourceOf rest ∧ (∀ c ∈ run, Identifier.isContinue c = true) ∧
    Identifier.Stops (sourceOf rest)
  | [] => ⟨[], [], List.suffix_rfl, rfl, by simp, by rintro c ⟨⟩⟩
  | t :: ts => by
    have hstay (hstop : Identifier.Stops (sourceOf (t :: ts))) :
        ∃ run rest, rest <:+ t :: ts ∧ sourceOf (t :: ts) = run ++ sourceOf rest ∧
          (∀ c ∈ run, Identifier.isContinue c = true) ∧ Identifier.Stops (sourceOf rest) :=
      ⟨[], t :: ts, List.suffix_rfl, rfl, by simp, hstop⟩
    cases t with
    | char c =>
      cases hc : Identifier.isContinue c with
      | false => exact hstay (Identifier.stops_cons hc _)
      | true =>
        obtain ⟨run, rest, hsuffix, hsource, hrun, hstop⟩ := exists_longest ts
        refine ⟨c :: run, rest, hsuffix.trans (List.suffix_cons _ _), ?_, ?_, hstop⟩
        · rw [sourceOf_cons, hsource]
          rfl
        · rw [List.forall_mem_cons]
          exact ⟨hc, hrun⟩
    | placeholder style name =>
      cases style with
      | bare => exact hstay (Identifier.stops_cons (by decide) _)
      | braced => exact hstay (Identifier.stops_cons (by decide) _)
    | _ => exact hstay (Identifier.stops_cons (by decide) _)

theorem Identifier.isName_append {name : String} {run : List Char} (h : isName name = true)
    (hrun : ∀ c ∈ run, isContinue c = true) :
    isName (String.ofList (name.toList ++ run)) = true := by
  obtain ⟨c, more, hlist, hstart, hmore⟩ := isName_iff.1 h
  refine isName_iff.2 ⟨c, more ++ run, by simp [hlist], hstart, ?_⟩
  rw [List.forall_mem_append]
  exact ⟨hmore, hrun⟩

/-- Whatever can be written down can be written down with the longest names. -/
theorem exists_reads : ∀ ts : List Token, (∀ t ∈ ts, t.IsProper) → ∃ us, Reads us (sourceOf ts)
  | [], _ => ⟨[], reads_nil⟩
  | t :: ts, h => by
    obtain ⟨ht, hts⟩ := List.forall_mem_cons.1 h
    have hkeep (hends : ∀ rest, t.Ends rest) : ∃ us, Reads us (sourceOf (t :: ts)) := by
      obtain ⟨us, hus⟩ := exists_reads ts hts
      exact ⟨t :: us, hus.cons ht (hends _)⟩
    cases t with
    | placeholder style name =>
      cases style with
      | braced => exact hkeep fun _ => trivial
      | bare =>
        obtain ⟨run, rest, hsuffix, hsource, hrun, hstop⟩ := exists_longest ts
        have hshort := hsuffix.length_le
        obtain ⟨us, hus⟩ := exists_reads rest fun u hu => hts u (hsuffix.mem hu)
        refine ⟨.placeholder .bare (String.ofList (name.toList ++ run)) :: us, ?_⟩
        have hlong := hus.cons (t := .placeholder .bare (String.ofList (name.toList ++ run)))
          (Identifier.isName_append ht hrun) hstop
        simpa [Token.written, hsource] using hlong
    | _ => exact hkeep fun _ => trivial
  termination_by ts => ts.length
  decreasing_by all_goals simp only [List.length_cons]; omega

/-! ## Accepted sources -/

namespace Template

theorem exists_parse_eq_ok_of_isProper {source : String} {ts : List Token}
    (h : ∀ t ∈ ts, t.IsProper) (hsource : sourceOf ts = source.toList) :
    ∃ t, parse source = .ok t := by
  obtain ⟨us, hus⟩ := exists_reads ts h
  rw [hsource] at hus
  exact exists_parse_eq_ok_iff.2 (reads_iff.1 hus).2

/-- A template is made of the one way to read its source. -/
theorem parse_eq_ok_of_reads {source : String} {ts : List Token} (h : Reads ts source.toList) :
    parse source = .ok ⟨source, segmentsFrom 0 ts, []⟩ := by
  obtain ⟨rfl, hstray⟩ := reads_iff.1 h
  rw [parse_eq_ok_salvage hstray, salvage_eq, (errorsFrom_eq_nil_iff []).2 hstray]

/-- **The grammar of accepted sources**: a source is accepted exactly when
it can be written down token by token, exactly one way to do so makes every
bare name as long as it can be, and the template is cut after that one. -/
theorem parse_eq_ok_iff_grammar (source : String) :
    ((∃ t, parse source = .ok t) ↔
      ∃ ts : List Token, (∀ t ∈ ts, t.IsProper) ∧ sourceOf ts = source.toList) ∧
    ((∃ t, parse source = .ok t) ↔ ∃! ts, Reads ts source.toList) ∧
    ∀ t, parse source = .ok t ↔
      ∃ ts, Reads ts source.toList ∧ t = ⟨source, segmentsFrom 0 ts, []⟩ := by
  have hreads : (∃ t, parse source = .ok t) → Reads (tokens source.toList) source.toList := by
    intro h
    exact reads_iff.2 ⟨rfl, exists_parse_eq_ok_iff.1 h⟩
  refine ⟨⟨?_, ?_⟩, ⟨?_, ?_⟩, fun t => ⟨?_, ?_⟩⟩
  · intro h
    exact ⟨_, (hreads h).proper, (hreads h).source_eq⟩
  · rintro ⟨ts, hproper, hsource⟩
    exact exists_parse_eq_ok_of_isProper hproper hsource
  · intro h
    exact ⟨_, hreads h, fun us hus => (reads_iff.1 hus).1.symm⟩
  · rintro ⟨ts, hts, -⟩
    exact ⟨_, parse_eq_ok_of_reads hts⟩
  · intro h
    have hts := hreads ⟨t, h⟩
    rw [parse_eq_ok_of_reads hts] at h
    exact ⟨_, hts, (Except.ok.inj h).symm⟩
  · rintro ⟨ts, hts, rfl⟩
    exact parse_eq_ok_of_reads hts

end Template

end TextTemplate
