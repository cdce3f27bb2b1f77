/-
TextTemplate.Proofs.Substitution — filling a source is one pass of
substitution over its text.

`substitute` is what one would write who never heard of segments: it looks
at the front of the text, puts something out, and goes on with what is left.
`fillPartial` scans the whole source first, bytes and all, goes back behind
every dollar sign that turns out to be stray, and renders from what it
kept. `fillPartial_eq_substitute` says that they are the same computation,
whatever the lookup does when it is asked: the same text, the same questions
in the same order, and the same entries in the log behind the one that every
parse leaves.

Values go into the output and are not looked at again, in the one by the
shape of the recursion and in the other because rendering does not scan.
-/
import TextTemplate.Proofs.Template
import TextTemplate.Render

namespace TextTemplate

/-! ## Substitution -/

/-- The longest name a text begins with, and what is left of the text. -/
def name? : List Char → Option (String × List Char)
  | [] => none
  | c :: rest =>
    if Identifier.isStart c then
      some (String.ofList (c :: rest.takeWhile Identifier.isContinue),
        rest.dropWhile Identifier.isContinue)
    else
      none

/-- The name in braces that a text begins with, and what is left. -/
def bracedName? : List Char → Option (String × List Char)
  | '\x7b' :: rest =>
    match name? rest with
    | some (name, '\x7d' :: rest) => some (name, rest)
    | _ => none
  | _ => none

theorem length_of_name? {text rest : List Char} {name : String}
    (h : name? text = some (name, rest)) : rest.length < text.length := by
  cases text with
  | nil => cases h
  | cons c more =>
    rw [name?] at h
    split at h
    · obtain ⟨-, rfl⟩ := Prod.mk.inj (Option.some.inj h)
      have := (List.dropWhile_suffix (l := more) Identifier.isContinue).length_le
      rw [List.length_cons]
      omega
    · cases h

theorem length_of_bracedName? {text rest : List Char} {name : String}
    (h : bracedName? text = some (name, rest)) : rest.length < text.length := by
  unfold bracedName? at h
  split at h
  · next inner =>
    split at h
    · next hname =>
      cases h
      have := length_of_name? hname
      simp only [List.length_cons] at this ⊢
      omega
    · cases h
  · cases h

section

variable {m : Type → Type} [Monad m] [MonadLog m]

/-- The value of a name, or what was written if it has none. -/
def valueOr (lookup : Lookup m) (name written : String) : m String := do
  match ← lookup name with
  | some value => return value
  | none =>
    MonadLog.log (.left name)
    return written

/-- A text with the values of its names put in for them. -/
def substitute (lookup : Lookup m) : List Char → m String
  | [] => return ""
  | '$' :: '$' :: rest => return "$" ++ (← substitute lookup rest)
  | '$' :: rest =>
    match _h : name? rest with
    | some (name, rest) => do
      let value ← valueOr lookup name ("$" ++ name)
      return value ++ (← substitute lookup rest)
    | none =>
      match _h : bracedName? rest with
      | some (name, rest) => do
        let value ← valueOr lookup name ("$\x7b" ++ name ++ "\x7d")
        return value ++ (← substitute lookup rest)
      | none => return "$" ++ (← substitute lookup rest)
  | c :: rest => return c.toString ++ (← substitute lookup rest)
  termination_by text => text.length
  decreasing_by
    all_goals simp only [List.length_cons]
    · omega
    · have := length_of_name? _h
      omega
    · have := length_of_bracedName? _h
      omega
    · omega
    · omega

/-! ## Substitution goes by tokens -/

/-- What a token comes to. -/
def Token.fill (lookup : Lookup m) : Token → m String
  | .placeholder .bare name => valueOr lookup name ("$" ++ name)
  | .placeholder .braced name => valueOr lookup name ("$\x7b" ++ name ++ "\x7d")
  | t => return String.ofList t.text

/-- A placeholder comes to its value, wherever it stands. -/
theorem Token.fill_placeholder (lookup : Lookup m) : ∀ p : Placeholder,
    (Token.placeholder p.style p.name).fill lookup = valueOr lookup p.name p.written
  | ⟨_, .bare, _⟩ => rfl
  | ⟨_, .braced, _⟩ => rfl

/-- What a list of tokens comes to. -/
def fillTokens (lookup : Lookup m) : List Token → m String
  | [] => return ""
  | t :: ts => return (← t.fill lookup) ++ (← fillTokens lookup ts)

end

theorem name?_of_isName {name : String} {rest : List Char}
    (hname : Identifier.isName name = true) (hstop : Identifier.Stops rest) :
    name? (name.toList ++ rest) = some (name, rest) := by
  obtain ⟨c, more, hlist, hstart, hmore⟩ := Identifier.isName_iff.1 hname
  rw [hlist, List.cons_append, name?, if_pos hstart, Token.takeWhile_of_stops hmore hstop,
    Token.dropWhile_of_stops hmore hstop, ← hlist, String.ofList_toList]

theorem name?_eq_none {text : List Char} (h : ∀ c ∈ text.head?, Identifier.isStart c = false) :
    name? text = none := by
  cases text with
  | nil => rfl
  | cons c rest => simp [name?, h c rfl]

theorem bracedName?_eq_none {text : List Char} (h : '\x7b' ∉ text.head?) :
    bracedName? text = none := by
  cases text with
  | nil => rfl
  | cons c rest =>
    have hc : c ≠ '\x7b' := fun he => h (he ▸ rfl)
    simp [bracedName?, hc]

theorem bracedName?_of_closed {rest after : List Char} {name : String}
    (h : name? rest = some (name, '\x7d' :: after)) :
    bracedName? ('\x7b' :: rest) = some (name, after) := by
  simp [bracedName?, h]

theorem bracedName?_of_nameless {rest : List Char} (h : name? rest = none) :
    bracedName? ('\x7b' :: rest) = none := by
  simp [bracedName?, h]

theorem bracedName?_of_unclosed {rest after : List Char} {name : String}
    (h : name? rest = some (name, after)) (hopen : after.head? ≠ some '\x7d') :
    bracedName? ('\x7b' :: rest) = none := by
  cases after with
  | nil => simp [bracedName?, h]
  | cons c after =>
    have hc : c ≠ '\x7d' := fun he => hopen (he ▸ rfl)
    simp [bracedName?, h, hc]

section

variable {m : Type → Type} [Monad m] [MonadLog m]

/-- The three ways to go on behind a dollar sign that is no escape. -/
theorem substitute_dollar (lookup : Lookup m) {rest : List Char} (h : rest.head? ≠ some '$') :
    substitute lookup ('$' :: rest) =
      match name? rest with
      | some (name, rest) => do
        let value ← valueOr lookup name ("$" ++ name)
        return value ++ (← substitute lookup rest)
      | none =>
        match bracedName? rest with
        | some (name, rest) => do
          let value ← valueOr lookup name ("$\x7b" ++ name ++ "\x7d")
          return value ++ (← substitute lookup rest)
        | none => return "$" ++ (← substitute lookup rest) := by
  rw [substitute]
  · split
    · next hname => simp only [hname]
    · next hname =>
      split
      · next hbraced => simp only [hname, hbraced]
      · next hbraced => simp only [hname, hbraced]
  · rintro more rfl
    exact h rfl

variable [LawfulMonad m]

/-- Substitution puts out what the token in front comes to. -/
theorem Token.Begins.substitute_eq {t : Token} {text rest : List Char} (h : t.Begins text rest)
    (lookup : Lookup m) :
    substitute lookup text = do return (← t.fill lookup) ++ (← substitute lookup rest) := by
  -- however a dollar sign comes to be stray, it goes out alone
  have hstray {kind : SyntaxError.Kind} {read : Nat} {rest : List Char}
      (hdollar : rest.head? ≠ some '$') (hname : name? rest = none)
      (hbraced : bracedName? rest = none) :
      substitute lookup ('$' :: rest) = do
        return (← (Token.stray kind read).fill lookup) ++ (← substitute lookup rest) := by
    rw [substitute_dollar lookup hdollar, hname, hbraced]
    simp [Token.fill, Token.text]
  cases h with
  | char hc =>
    rw [substitute]
    · simp [Token.fill, Token.text]
    · exact fun _ he _ => hc he
    · exact hc
  | escape =>
    rw [substitute]
    simp [Token.fill, Token.text]
  | @bare name rest hname hstop =>
    have hdollar : (name.toList ++ rest).head? ≠ some '$' := by
      obtain ⟨c, more, hlist, hstart, -⟩ := Identifier.isName_iff.1 hname
      rw [hlist, List.cons_append, List.head?_cons]
      rintro ⟨⟩
      cases hstart
    rw [substitute_dollar lookup hdollar, name?_of_isName hname hstop]
    rfl
  | @braced name rest hname =>
    have hname? := name?_of_isName hname (Identifier.stops_cons (c := '\x7d') (by decide) rest)
    rw [substitute_dollar lookup (by simp), bracedName?_of_closed hname?]
    rfl
  | alone h =>
    exact hstray (fun he => (h _ he).1 rfl) (name?_eq_none fun c hc => (h c hc).2.2)
      (bracedName?_eq_none fun he => (h _ he).2.1 rfl)
  | @nameless c rest h =>
    have hname? : name? (c :: rest) = none := name?_eq_none (by rintro d ⟨⟩; exact h)
    exact hstray (by simp) rfl (bracedName?_of_nameless hname?)
  | cutShort => exact hstray (by simp) rfl rfl
  | unclosed hname hstop hopen =>
    exact hstray (by simp) rfl (bracedName?_of_unclosed (name?_of_isName hname hstop) hopen)

/-- Substitution puts out what the tokens come to, one after the other. -/
theorem substitute_eq_fillTokens (lookup : Lookup m) (text : List Char) :
    substitute lookup text = fillTokens lookup (tokens text) := by
  have h := tokenizes_tokens text
  generalize tokens text = ts at h
  induction h with
  | nil => rw [substitute, fillTokens]
  | cons first _ ih => rw [first.substitute_eq, ih, fillTokens]

/-! ## Rendering goes by tokens -/

theorem fillTokens_text (lookup : Lookup m) {run : List Token} (h : ∀ t ∈ run, t.isText = true)
    (ts : List Token) :
    fillTokens lookup (run ++ ts) =
      (String.ofList (textOf run) ++ ·) <$> fillTokens lookup ts := by
  induction run with
  | nil => simp
  | cons t run ih =>
    have hfill : t.fill lookup = pure (String.ofList t.text) := by
      cases t with
      | placeholder => exact absurd (h _ List.mem_cons_self) (by simp [Token.isText])
      | _ => rfl
    rw [List.cons_append, fillTokens, hfill, ih fun u hu => h u (List.mem_cons_of_mem t hu)]
    simp [String.append_assoc]

/-- Rendering segments with nothing to fail for puts out what the tokens
come to. -/
theorem emit_segmentsFrom (lookup : Lookup m) (ts : List Token) (offset : Nat) (out : String) :
    Template.emit lookup .leave (segmentsFrom offset ts) out =
      (fun more => (out ++ more, none)) <$> fillTokens lookup ts := by
  induction ts using run_induction generalizing offset out with
  | nil => simp [Template.emit, fillTokens]
  | placeholder style name rest ih =>
    rw [segmentsFrom_placeholder]
    generalize Span.mk offset _ = span
    -- whatever the lookup answers, both go on in the same way
    rw [Template.emit, fillTokens, Token.fill_placeholder lookup ⟨name, style, span⟩, valueOr,
      bind_assoc, map_bind]
    refine bind_congr fun answer => ?_
    cases answer with
    | some value => simp [ih, String.append_assoc]
    | none => simp [ih, String.append_assoc]
  | run run rest hne hrun hrest ih =>
    rw [segmentsFrom_append_run offset hne hrun hrest, Template.emit, ih,
      fillTokens_text lookup hrun]
    simp [String.append_assoc]

/-- A salvaged source renders to what its tokens come to. -/
theorem Template.renderPartial_salvage (lookup : Lookup m) (source : String) :
    (salvage source).renderPartial lookup = fillTokens lookup (tokens source.toList) := by
  rw [renderPartial, salvage_eq, emit_segmentsFrom]
  simp

/-- Filling is rendering what is salvaged, behind the entry that every parse
leaves in the log. -/
theorem fillPartial_eq_renderPartial (lookup : Lookup m) (source : String) :
    fillPartial source lookup = (do
      MonadLog.log (Template.salvage source).parsedEvent
      (Template.salvage source).renderPartial lookup) := by
  simp only [fillPartial, Template.salvageM, bind_assoc, pure_bind]
  rfl

/-- **Filling is substitution**: filling a source is one pass over its text,
behind the entry that every parse leaves in the log. -/
theorem fillPartial_eq_substitute (lookup : Lookup m) (source : String) :
    fillPartial source lookup = (do
      MonadLog.log (Template.salvage source).parsedEvent
      substitute lookup source.toList) := by
  rw [fillPartial_eq_renderPartial, Template.renderPartial, Template.salvage_eq,
    emit_segmentsFrom, substitute_eq_fillTokens]
  simp

end

/-- An escape, a name without a value, a value with a dollar sign, and two
braces that do not close. -/
theorem fillPartial_nested :
    fillPartial (m := Id) "$$$x: $\x7ba_1\x7d$\x7b$\x7bé" (Lookup.ofPairs [("a_1", "$x")]) =
      "$$x: $x$\x7b$\x7bé" := by
  rw [fillPartial_eq_substitute]
  have htext : Id.run (substitute (Lookup.ofPairs [("a_1", "$x")])
      "$$$x: $\x7ba_1\x7d$\x7b$\x7bé".toList) = "$$x: $x$\x7b$\x7bé" := by
    decide +kernel
  exact htext

end TextTemplate
