/-
TextTemplate.Proofs.Token — a source as a list of tokens, from left to
right.

The scan is a machine over bytes. Its result is a matter of characters: a
source is cut into TOKENS, and everything a template says about its source
can be read off them. `tokens` is the cut.

## The judgement

`t.Begins text rest` says that `t` stands at the front of `text` and that
`rest` is left behind it. It has one rule for each way a token can come
about and looks at what FOLLOWS wherever that matters: a bare name ends
where it could not go on, and a dollar sign is stray only because of what
comes after it. `tokens_eq_iff` ties the cut to it, so no proof below has
to walk through the case distinctions of `Token.first` again.

A stray dollar sign is a token of one character. What was read behind it
before it turned out to be stray belongs to the tokens that follow; how far
that was is kept in the token, for the error is reported there.
-/
import TextTemplate.Proofs.Offset
import TextTemplate.Segment

namespace TextTemplate

/-- What a source consists of. -/
inductive Token where
  /-- A character other than the dollar sign. -/
  | char (c : Char)
  /-- Two dollar signs, for one. -/
  | escape
  | placeholder (style : Style) (name : String)
  /-- A dollar sign that begins nothing, and the number of characters from
  it on that were read before this was known. -/
  | stray (kind : SyntaxError.Kind) (read : Nat)
  deriving DecidableEq, Repr

namespace Token

/-- The token as it stands in the source. -/
def written : Token → List Char
  | .char c => [c]
  | .escape => ['$', '$']
  | .placeholder .bare name => '$' :: name.toList
  | .placeholder .braced name => '$' :: '\x7b' :: (name.toList ++ ['\x7d'])
  | .stray .. => ['$']

/-- What the token adds to a literal. -/
def text : Token → List Char
  | .char c => [c]
  | .placeholder .. => []
  | _ => ['$']

/-- The token is part of a literal. -/
def isText : Token → Bool
  | .placeholder .. => false
  | _ => true

def isStray : Token → Bool
  | .stray .. => true
  | _ => false

theorem eq_placeholder_of_isText {t : Token} (h : t.isText = false) :
    ∃ style name, t = .placeholder style name := by
  cases t with
  | placeholder style name => exact ⟨style, name, rfl⟩
  | _ => cases h

/-! ## Cutting a source -/

/-- The token of a dollar sign and an opening brace, by what follows. -/
def firstBraced : List Char → Token
  | [] => .stray .unterminatedBrace 2
  | c :: rest =>
    if Identifier.isStart c then
      let name := c :: rest.takeWhile Identifier.isContinue
      if (rest.dropWhile Identifier.isContinue).head? = some '\x7d' then
        .placeholder .braced (String.ofList name)
      else
        .stray .unterminatedBrace (2 + name.length)
    else
      .stray .invalidPlaceholder 2

/-- The token of a dollar sign, by what follows. -/
def firstDollar : List Char → Token
  | [] => .stray .invalidPlaceholder 1
  | c :: rest =>
    if c = '$' then
      .escape
    else if c = '\x7b' then
      firstBraced rest
    else if Identifier.isStart c then
      .placeholder .bare (String.ofList (c :: rest.takeWhile Identifier.isContinue))
    else
      .stray .invalidPlaceholder 1

/-- The token a text begins with. -/
def first (c : Char) (rest : List Char) : Token :=
  if c = '$' then firstDollar rest else .char c

end Token

/-- The tokens of a text. -/
def tokens : List Char → List Token
  | [] => []
  | c :: rest =>
    Token.first c rest :: tokens (rest.drop ((Token.first c rest).written.length - 1))
  termination_by cs => cs.length
  decreasing_by
    rw [List.length_cons, List.length_drop]
    omega

/-- The source that tokens stand for. -/
def sourceOf (ts : List Token) : List Char :=
  ts.flatMap Token.written

/-- The text of a literal made of tokens. -/
def textOf (ts : List Token) : List Char :=
  ts.flatMap Token.text

@[simp] theorem sourceOf_nil : sourceOf [] = [] := rfl

@[simp] theorem sourceOf_cons (t : Token) (ts : List Token) :
    sourceOf (t :: ts) = t.written ++ sourceOf ts := rfl

@[simp] theorem sourceOf_append (ts us : List Token) :
    sourceOf (ts ++ us) = sourceOf ts ++ sourceOf us :=
  List.flatMap_append

theorem Token.written_ne_nil (t : Token) : t.written ≠ [] := by
  cases t with
  | placeholder style => cases style <;> simp [written]
  | _ => simp [written]

theorem sourceOf_ne_nil {ts : List Token} (h : ts ≠ []) : sourceOf ts ≠ [] := by
  cases ts with
  | nil => exact absurd rfl h
  | cons t ts => simp [t.written_ne_nil]

/-- Tokens take up room. -/
theorem byteLength_sourceOf_pos {ts : List Token} (h : ts ≠ []) : 0 < byteLength (sourceOf ts) :=
  byteLength_pos (sourceOf_ne_nil h)

@[simp] theorem textOf_nil : textOf [] = [] := rfl

@[simp] theorem textOf_cons (t : Token) (ts : List Token) :
    textOf (t :: ts) = t.text ++ textOf ts := rfl

@[simp] theorem textOf_append (ts us : List Token) : textOf (ts ++ us) = textOf ts ++ textOf us :=
  List.flatMap_append

/-- A placeholder is written as its token. -/
theorem Placeholder.ofList_written (p : Placeholder) :
    String.ofList (Token.placeholder p.style p.name).written = p.written := by
  obtain ⟨name, style, span⟩ := p
  rw [← String.toList_inj, String.toList_ofList]
  cases style <;> simp [written, Token.written]

/-! ## Names -/

namespace Identifier

theorem isName_iff {name : String} :
    isName name = true ↔
      ∃ c more, name.toList = c :: more ∧ isStart c = true ∧ ∀ d ∈ more, isContinue d = true := by
  unfold isName
  cases name.toList with
  | nil => simp
  | cons c more => simp

theorem isContinue_of_isName {name : String} (h : isName name = true) :
    ∀ c ∈ name.toList, isContinue c = true := by
  obtain ⟨c, more, hlist, hstart, hmore⟩ := isName_iff.1 h
  intro d hd
  rw [hlist, List.mem_cons] at hd
  rcases hd with rfl | hd
  · exact isContinue_of_isStart hstart
  · exact hmore d hd

theorem isName_singleton {c : Char} (h : isStart c = true) :
    isName (String.singleton c) = true :=
  isName_iff.2 ⟨c, [], String.toList_singleton c, h, by simp⟩

theorem isName_push {name : String} (h : isName name = true) {c : Char}
    (hc : isContinue c = true) : isName (name.push c) = true := by
  obtain ⟨d, more, hlist, hstart, hmore⟩ := isName_iff.1 h
  refine isName_iff.2 ⟨d, more ++ [c], by simp [hlist], hstart, ?_⟩
  rw [List.forall_mem_append]
  exact ⟨hmore, by simpa using hc⟩

/-- A name of some characters takes up as many bytes. -/
theorem byteLength_of_isName {name : String} (h : isName name = true) :
    byteLength name.toList = name.length := by
  rw [byteLength_of_ascii fun c hc => toNat_lt_of_isContinue (isContinue_of_isName h c hc),
    String.length_toList]

theorem ne_of_isContinue {c d : Char} (h : isContinue c = true) (hd : isContinue d = false) :
    c ≠ d := by
  rintro rfl
  rw [h] at hd
  cases hd

/-- A name in front of `rest` does not go on into it. -/
def Stops (rest : List Char) : Prop :=
  ∀ c ∈ rest.head?, isContinue c = false

theorem stops_cons {c : Char} (h : isContinue c = false) (rest : List Char) :
    Stops (c :: rest) := by
  rintro d ⟨⟩
  exact h

instance : DecidablePred Stops
  | [] => .isTrue (by rintro c ⟨⟩)
  | c :: rest =>
    decidable_of_iff (isContinue c = false) ⟨fun h => stops_cons h rest, fun h => h c rfl⟩

/-- A text that begins like a name begins with a longest one. -/
theorem exists_isName {c : Char} (h : isStart c = true) (more : List Char) :
    ∃ name rest, isName name = true ∧ Stops rest ∧ c :: more = name.toList ++ rest := by
  refine ⟨String.ofList (c :: more.takeWhile isContinue), more.dropWhile isContinue, ?_, ?_, ?_⟩
  · rw [isName_iff]
    exact ⟨c, _, String.toList_ofList, h, fun d hd => List.mem_takeWhile_imp hd⟩
  · intro d hd
    have := List.head?_dropWhile_not isContinue more
    rw [Option.mem_def.1 hd] at this
    exact this
  · rw [String.toList_ofList, List.cons_append, List.takeWhile_append_dropWhile]

end Identifier

/-! ## Openings -/

/-- Characters that can be read behind a dollar sign without a token being
found: an opening brace and those of a name. -/
def Undecided (cs : List Char) : Prop :=
  ∀ c ∈ cs, c = '\x7b' ∨ Identifier.isContinue c = true

namespace Undecided

theorem nil : Undecided [] := by
  simp [Undecided]

theorem brace : Undecided ['\x7b'] := by
  simp [Undecided]

theorem name {name : String} (h : Identifier.isName name = true) : Undecided name.toList :=
  fun c hc => .inr (Identifier.isContinue_of_isName h c hc)

theorem bracedName {name : String} (h : Identifier.isName name = true) :
    Undecided ('\x7b' :: name.toList) := by
  intro c hc
  cases hc with
  | head => exact .inl rfl
  | tail _ hc => exact Undecided.name h c hc

theorem dollarless {cs : List Char} (h : Undecided cs) : '$' ∉ cs := by
  intro hmem
  have hdollar := h '$' hmem
  revert hdollar
  decide

theorem lineless {cs : List Char} (h : Undecided cs) : '\n' ∉ cs := by
  intro hmem
  have hline := h '\n' hmem
  revert hline
  decide

theorem byteLength_eq {cs : List Char} (h : Undecided cs) : byteLength cs = cs.length := by
  refine byteLength_of_ascii fun c hc => ?_
  rcases h c hc with rfl | hc
  · decide
  · exact Identifier.toNat_lt_of_isContinue hc

end Undecided

/-! ## The judgement -/

open Identifier in
/-- The token stands at the front of a text, and `rest` is left behind it. -/
inductive Token.Begins : Token → (text rest : List Char) → Prop where
  | char {c : Char} {rest : List Char} (h : c ≠ '$') : Begins (.char c) (c :: rest) rest
  | escape {rest : List Char} : Begins .escape ('$' :: '$' :: rest) rest
  | bare {name : String} {rest : List Char} (hname : isName name = true) (hstop : Stops rest) :
      Begins (.placeholder .bare name) ('$' :: (name.toList ++ rest)) rest
  | braced {name : String} {rest : List Char} (hname : isName name = true) :
      Begins (.placeholder .braced name) ('$' :: '\x7b' :: (name.toList ++ '\x7d' :: rest)) rest
  /-- Behind the dollar sign comes nothing it could be the beginning of. -/
  | alone {rest : List Char}
      (h : ∀ c ∈ rest.head?, c ≠ '$' ∧ c ≠ '\x7b' ∧ isStart c = false) :
      Begins (.stray .invalidPlaceholder 1) ('$' :: rest) rest
  /-- Behind the brace comes no name. -/
  | nameless {c : Char} {rest : List Char} (h : isStart c = false) :
      Begins (.stray .invalidPlaceholder 2) ('$' :: '\x7b' :: c :: rest) ('\x7b' :: c :: rest)
  /-- The text ends at the brace. -/
  | cutShort : Begins (.stray .unterminatedBrace 2) ['$', '\x7b'] ['\x7b']
  /-- Behind the name comes no closing brace. -/
  | unclosed {name : String} {rest : List Char} (hname : isName name = true) (hstop : Stops rest)
      (hopen : rest.head? ≠ some '\x7d') :
      Begins (.stray .unterminatedBrace (2 + name.length)) ('$' :: '\x7b' :: (name.toList ++ rest))
        ('\x7b' :: (name.toList ++ rest))

namespace Token

/-- A token and what is left make up the text. -/
theorem Begins.text_eq {t : Token} {text rest : List Char} (h : t.Begins text rest) :
    text = t.written ++ rest := by
  cases h <;> simp [written]

/-- Something stands at the front of every text that is not empty. -/
theorem exists_begins (c : Char) (more : List Char) : ∃ t rest, Begins t (c :: more) rest := by
  by_cases hc : c = '$'
  · subst hc
    cases more with
    | nil => exact ⟨_, _, .alone (by simp)⟩
    | cons d inner =>
      by_cases hdollar : d = '$'
      · subst hdollar; exact ⟨_, _, .escape⟩
      by_cases hbrace : d = '\x7b'
      · subst hbrace
        cases inner with
        | nil => exact ⟨_, _, .cutShort⟩
        | cons e inner =>
          cases hstart : Identifier.isStart e with
          | false => exact ⟨_, _, .nameless hstart⟩
          | true =>
            obtain ⟨name, rest, hname, hstop, hsplit⟩ := Identifier.exists_isName hstart inner
            rw [hsplit]
            by_cases hclose : rest.head? = some '\x7d'
            · obtain ⟨after, rfl⟩ := List.head?_eq_some_iff.1 hclose
              exact ⟨_, _, .braced hname⟩
            · exact ⟨_, _, .unclosed hname hstop hclose⟩
      cases hstart : Identifier.isStart d with
      | false => exact ⟨_, _, .alone (by rintro e ⟨⟩; exact ⟨hdollar, hbrace, hstart⟩)⟩
      | true =>
        obtain ⟨name, rest, hname, hstop, hsplit⟩ := Identifier.exists_isName hstart inner
        rw [hsplit]
        exact ⟨_, _, .bare hname hstop⟩
  · exact ⟨_, _, .char hc⟩

/-! ## The cut follows the judgement -/

theorem takeWhile_of_stops {more rest : List Char}
    (hmore : ∀ d ∈ more, Identifier.isContinue d = true) (hstop : Identifier.Stops rest) :
    (more ++ rest).takeWhile Identifier.isContinue = more := by
  rw [List.takeWhile_append_of_pos hmore]
  cases rest with
  | nil => simp
  | cons c rest => simp [hstop c rfl]

theorem dropWhile_of_stops {more rest : List Char}
    (hmore : ∀ d ∈ more, Identifier.isContinue d = true) (hstop : Identifier.Stops rest) :
    (more ++ rest).dropWhile Identifier.isContinue = rest := by
  rw [List.dropWhile_append_of_pos hmore]
  cases rest with
  | nil => rfl
  | cons c rest => simp [hstop c rfl]

theorem firstDollar_of_isName {name : String} {rest : List Char}
    (hname : Identifier.isName name = true) (hstop : Identifier.Stops rest) :
    firstDollar (name.toList ++ rest) = .placeholder .bare name := by
  obtain ⟨c, more, hlist, hstart, hmore⟩ := Identifier.isName_iff.1 hname
  have hcont := Identifier.isContinue_of_isStart hstart
  rw [hlist, List.cons_append, firstDollar,
    if_neg (Identifier.ne_of_isContinue hcont (by decide)),
    if_neg (Identifier.ne_of_isContinue hcont (by decide)), if_pos hstart,
    takeWhile_of_stops hmore hstop, ← hlist, String.ofList_toList]

theorem firstBraced_of_isName {name : String} {rest : List Char}
    (hname : Identifier.isName name = true) (hstop : Identifier.Stops rest) :
    firstBraced (name.toList ++ rest) =
      if rest.head? = some '\x7d' then .placeholder .braced name
      else .stray .unterminatedBrace (2 + name.length) := by
  obtain ⟨c, more, hlist, hstart, hmore⟩ := Identifier.isName_iff.1 hname
  rw [hlist, List.cons_append, firstBraced, if_pos hstart, takeWhile_of_stops hmore hstop,
    dropWhile_of_stops hmore hstop, ← hlist]
  simp only [String.ofList_toList, String.length_toList]

/-- What stands at the front is what the cut takes off. -/
theorem Begins.first_eq {t : Token} {c : Char} {more rest : List Char}
    (h : t.Begins (c :: more) rest) : first c more = t := by
  have hdollar : first '$' = firstDollar := by funext; rfl
  cases h with
  | char hc => rw [first, if_neg hc]
  | escape => rfl
  | bare hname hstop => rw [hdollar, firstDollar_of_isName hname hstop]
  | @braced name rest hname =>
    have hstop : Identifier.Stops ('\x7d' :: rest) := Identifier.stops_cons (by decide) rest
    have : firstBraced (name.toList ++ '\x7d' :: rest) = .placeholder .braced name := by
      rw [firstBraced_of_isName hname hstop, List.head?_cons, if_pos rfl]
    simpa [hdollar, firstDollar] using this
  | alone hrest =>
    cases more with
    | nil => rfl
    | cons d inner =>
      obtain ⟨h1, h2, h3⟩ := hrest d rfl
      simp [hdollar, firstDollar, h1, h2, h3]
  | nameless hstart => simp [hdollar, firstDollar, firstBraced, hstart]
  | cutShort => rfl
  | @unclosed name rest hname hstop hopen =>
    have : firstBraced (name.toList ++ rest) = .stray .unterminatedBrace (2 + name.length) := by
      rw [firstBraced_of_isName hname hstop, if_neg hopen]
    simpa [hdollar, firstDollar] using this

theorem Begins.tokens_eq {t : Token} {text rest : List Char} (h : t.Begins text rest) :
    tokens text = t :: tokens rest := by
  have htext := h.text_eq
  cases text with
  | nil => cases h
  | cons c more =>
    obtain ⟨d, tail, hwritten⟩ := List.exists_cons_of_ne_nil t.written_ne_nil
    rw [tokens, h.first_eq]
    rw [hwritten, List.cons_append, List.cons.injEq] at htext
    rw [hwritten, List.length_cons, Nat.add_sub_cancel, htext.2, List.drop_left]

end Token

/-! ## Whole texts -/

/-- The tokens make up the text, each of them at the front of what is left. -/
inductive Tokenizes : List Token → List Char → Prop where
  | nil : Tokenizes [] []
  | cons {t : Token} {ts : List Token} {text rest : List Char} (first : t.Begins text rest)
      (more : Tokenizes ts rest) : Tokenizes (t :: ts) text

theorem Tokenizes.tokens_eq {ts : List Token} {text : List Char} (h : Tokenizes ts text) :
    tokens text = ts := by
  induction h with
  | nil => rw [tokens]
  | cons first _ ih => rw [first.tokens_eq, ih]

theorem tokenizes_tokens : ∀ text : List Char, Tokenizes (tokens text) text
  | [] => by rw [tokens]; exact .nil
  | c :: more => by
    obtain ⟨t, rest, hbegins⟩ := Token.exists_begins c more
    have hshort : rest.length < (c :: more).length := by
      rw [hbegins.text_eq, List.length_append]
      exact Nat.lt_add_of_pos_left (List.length_pos_iff.2 t.written_ne_nil)
    rw [hbegins.tokens_eq]
    exact .cons hbegins (tokenizes_tokens rest)
  termination_by text => text.length
  decreasing_by exact hshort

/-- The cut is the only list of tokens that a text is made of in this way. -/
theorem tokens_eq_iff {ts : List Token} {text : List Char} :
    tokens text = ts ↔ Tokenizes ts text := by
  constructor
  · rintro rfl
    exact tokenizes_tokens text
  · exact Tokenizes.tokens_eq

theorem Tokenizes.source_eq {ts : List Token} {text : List Char} (h : Tokenizes ts text) :
    sourceOf ts = text := by
  induction h with
  | nil => rfl
  | cons first _ ih => rw [sourceOf_cons, ih, ← first.text_eq]

end TextTemplate
