/-
TextTemplate.Proofs.JsonText — what stands in quotes and what it says.

A text can be written as a JSON string in many ways: nearly every character
may stand for itself or be escaped, some have an escape of their own, and
the digits of an escape may be in either case. `Spells written text` says
that `written` is one of them. It knows nothing of the reader and follows
the definition of JSON: what is escaped with `\u` is escaped as its UTF-16
code units, so a character past U+FFFF takes two escapes.

* `run_body_eq_ok_iff`: the reader of a string whose escapes have to name
  characters accepts exactly what spells a text, and gives that text;
* `spells_write`: what is written for a text spells it;
* `Holds document text`: nothing but a string and blanks is in the document,
  and the string spells the text. A document holds one text at most
  (`Holds.unique`).

Each reader has one lemma that says when it succeeds and with what, in the
form `reader.run cs = .ok (a, rest) ↔ …`, and is not unfolded after that.
-/
import Mathlib.Data.List.Forall2
import Mathlib.Data.List.TakeWhile
import TextTemplate.Json.Expected
import TextTemplate.Proofs.Offset

namespace TextTemplate.Json.Text

open Reader

/-! ## The strings of JSON -/

/-- A hexadecimal digit, in either case, and its value. -/
def IsHexDigit (c : Char) (n : Nat) : Prop :=
  n < 16 ∧ (c = n.digitChar ∨ c = n.digitChar.toUpper)

/-- Four hexadecimal digits and the code unit they are. -/
def IsCodeUnit (written : List Char) (n : Nat) : Prop :=
  ∃ a b c d, List.Forall₂ IsHexDigit written [a, b, c, d] ∧ n = ((a * 16 + b) * 16 + c) * 16 + d

/-- The UTF-16 code units of a character. -/
def units (c : Char) : List Nat :=
  if c.toNat < 0x10000 then [c.toNat]
  else [0xd800 + (c.toNat - 0x10000) / 0x400, 0xdc00 + (c.toNat - 0x10000) % 0x400]

/-- Code units as they stand in a string. -/
def escapes (written : List (List Char)) : List Char :=
  written.flatMap fun digits => '\\' :: 'u' :: digits

@[simp] theorem escapes_cons (digits : List Char) (written : List (List Char)) :
    escapes (digits :: written) = '\\' :: 'u' :: (digits ++ escapes written) := rfl

@[simp] theorem escapes_nil : escapes [] = [] := rfl

/-- The characters with an escape of their own, each behind the one that
stands for it. -/
def shortEscapes : List (Char × Char) :=
  [('"', '"'), ('\\', '\\'), ('/', '/'), ('b', '\x08'), ('f', '\x0c'), ('n', '\n'), ('r', '\r'),
    ('t', '\t')]

/-- The ways to write a character. -/
inductive SpellsChar : (written : List Char) → Char → Prop where
  | plain {c : Char} (hcontrol : ' ' ≤ c) (hquote : c ≠ '"') (hback : c ≠ '\\') : SpellsChar [c] c
  | short {key c : Char} (h : (key, c) ∈ shortEscapes) : SpellsChar ['\\', key] c
  | escaped {c : Char} {written : List (List Char)}
      (h : List.Forall₂ IsCodeUnit written (units c)) : SpellsChar (escapes written) c

/-- The ways to write a text. -/
inductive Spells : (written text : List Char) → Prop where
  | nil : Spells [] []
  | cons {front written text : List Char} {c : Char} (hc : SpellsChar front c)
      (h : Spells written text) : Spells (front ++ written) (c :: text)

/-- A document that is a string with a certain text in it. -/
def Holds (document text : String) : Prop :=
  ∃ before written after, (∀ c ∈ before, isBlank c) ∧ Spells written text.toList ∧
    (∀ c ∈ after, isBlank c) ∧ document.toList = before ++ '"' :: (written ++ '"' :: after)

/-! ## Digits -/

/-- No digit is past the last letter of them. -/
theorem toNat_of_hexDigit? {c : Char} {n : Nat} (h : hexDigit? c = some n) : c.toNat < 103 := by
  unfold hexDigit? at h
  split at h
  · next hdigit =>
    simp only [Char.isDigit, Bool.and_eq_true, decide_eq_true_eq] at hdigit
    exact Nat.lt_of_le_of_lt hdigit.2 (by decide)
  · split at h
    · next hlower => exact Nat.lt_succ_of_le hlower.2
    · split at h
      · next hupper => exact Nat.lt_of_le_of_lt hupper.2 (by decide)
      · cases h

theorem hexDigit?_eq_some_iff {c : Char} {n : Nat} : hexDigit? c = some n ↔ IsHexDigit c n := by
  constructor
  · intro h
    have hall : ∀ k < 103, ∀ n ∈ hexDigit? (Char.ofNat k), n < 16 ∧
        (Char.ofNat k = n.digitChar ∨ Char.ofNat k = n.digitChar.toUpper) := by decide
    have hc := hall c.toNat (toNat_of_hexDigit? h) n
    rw [Char.ofNat_toNat] at hc
    exact hc h
  · intro ⟨hlt, hc⟩
    have hall : ∀ n < 16, hexDigit? n.digitChar = some n ∧
        hexDigit? n.digitChar.toUpper = some n := by decide
    rcases hc with rfl | rfl
    · exact (hall n hlt).1
    · exact (hall n hlt).2

theorem mapM_hexDigit?_eq_some_iff {cs : List Char} {ns : List Nat} :
    cs.mapM hexDigit? = some ns ↔ List.Forall₂ IsHexDigit cs ns := by
  induction cs generalizing ns with
  | nil => simp [eq_comm]
  | cons c cs ih =>
    simp only [List.mapM_cons, Option.bind_eq_bind, Option.pure_def, Option.bind_eq_some_iff,
      Option.some.injEq, ih, hexDigit?_eq_some_iff, List.forall₂_cons_left_iff]
    grind

/-! ## Code units -/

theorem IsCodeUnit.length_eq {written : List Char} {n : Nat} (h : IsCodeUnit written n) :
    written.length = 4 := by
  obtain ⟨_, _, _, _, hdigits, -⟩ := h
  exact hdigits.length_eq

theorem IsCodeUnit.lt {written : List Char} {n : Nat} (h : IsCodeUnit written n) :
    n < 0x10000 := by
  obtain ⟨a, b, c, d, hdigits, rfl⟩ := h
  simp only [List.forall₂_cons_right_iff] at hdigits
  obtain ⟨_, _, ⟨ha, -⟩, ⟨_, _, ⟨hb, -⟩, ⟨_, _, ⟨hc, -⟩, ⟨_, _, ⟨hd, -⟩, -⟩, -⟩, -⟩, -⟩ := hdigits
  omega

/-- What reading four digits comes to. -/
theorem run_codeUnit (cs : List Char) :
    codeUnit.run cs =
      if byteLength (cs.take 4) < 4 then .error .truncated
      else
        match (cs.take 4).mapM hexDigit? with
        | some [a, b, c, d] => .ok (((a * 16 + b) * 16 + c) * 16 + d, cs.drop 4)
        | _ => .error .malformed := by
  rw [← utf8ByteSize_ofList]
  show (if (String.ofList (cs.take 4)).utf8ByteSize < 4 then _ else _ : Reader Nat).run cs = _
  split
  · rfl
  · generalize (cs.take 4).mapM hexDigit? = field
    rcases field with _ | _ | ⟨a, _ | ⟨b, _ | ⟨c, _ | ⟨d, _ | ⟨_, _⟩⟩⟩⟩⟩ <;> rfl

theorem run_codeUnit_eq_ok_iff {cs rest : List Char} {n : Nat} :
    codeUnit.run cs = .ok (n, rest) ↔ ∃ written, IsCodeUnit written n ∧ cs = written ++ rest := by
  rw [run_codeUnit]
  constructor
  · intro h
    split at h
    · cases h
    · split at h
      · next a b c d hfield =>
        cases h
        exact ⟨cs.take 4, ⟨a, b, c, d, mapM_hexDigit?_eq_some_iff.1 hfield, rfl⟩,
          (List.take_append_drop 4 cs).symm⟩
      · cases h
  · intro ⟨written, hunit, hcs⟩
    have hlength := hunit.length_eq
    have hbytes := length_le_byteLength written
    obtain ⟨a, b, c, d, hdigits, rfl⟩ := hunit
    rw [hcs, List.take_left' hlength, List.drop_left' hlength, if_neg (by omega),
      mapM_hexDigit?_eq_some_iff.2 hdigits]

/-! ## Characters by their code units -/

theorem units_cases (c : Char) : (∃ n, units c = [n]) ∨ ∃ high low, units c = [high, low] := by
  unfold units
  split
  · exact .inl ⟨_, rfl⟩
  · exact .inr ⟨_, _, rfl⟩

theorem exists_cons_of_units {c : Char} {written : List (List Char)}
    (h : List.Forall₂ IsCodeUnit written (units c)) : ∃ digits more, written = digits :: more := by
  cases h' : written with
  | nil =>
    rw [h', List.forall₂_nil_left_iff] at h
    rcases units_cases c with ⟨_, hc⟩ | ⟨_, _, hc⟩ <;> simp [hc] at h
  | cons digits more => exact ⟨digits, more, rfl⟩

/-- A code unit that belongs to no pair is a character. -/
theorem units_eq_alone_iff {c : Char} {n : Nat} :
    units c = [n] ↔ n < 0x10000 ∧ isHigh n = false ∧ isLow n = false ∧ c = Char.ofNat n := by
  have hc : c.toNat.isValidChar := c.valid
  unfold Nat.isValidChar at hc
  simp only [isHigh, isLow, Bool.and_eq_false_iff, decide_eq_false_iff_not, units]
  constructor
  · intro h
    split at h
    · next hlt =>
      obtain rfl := List.singleton_inj.1 h
      exact ⟨hlt, by omega, by omega, (Char.ofNat_toNat c).symm⟩
    · simp at h
  · intro ⟨hlt, hhigh, hlow, heq⟩
    have hvalid : n.isValidChar := by
      unfold Nat.isValidChar
      omega
    rw [heq, toNat_ofNat_of_isValidChar hvalid, if_pos hlt]

/-- So are the two of a pair. -/
theorem units_eq_pair_iff {c : Char} {high low : Nat} :
    units c = [high, low] ↔ isHigh high ∧ isLow low ∧
      c = Char.ofNat (0x10000 + (high - 0xd800) * 0x400 + (low - 0xdc00)) := by
  have hc : c.toNat.isValidChar := c.valid
  unfold Nat.isValidChar at hc
  simp only [isHigh, isLow, Bool.and_eq_true, decide_eq_true_eq, units]
  constructor
  · intro h
    split at h
    · simp at h
    · simp only [List.cons.injEq, and_true] at h
      have hn : 0x10000 + (high - 0xd800) * 0x400 + (low - 0xdc00) = c.toNat := by omega
      exact ⟨by omega, by omega, by rw [hn, Char.ofNat_toNat]⟩
  · intro ⟨hhigh, hlow, heq⟩
    have hvalid : (0x10000 + (high - 0xd800) * 0x400 + (low - 0xdc00)).isValidChar := by
      unfold Nat.isValidChar
      omega
    have hn := toNat_ofNat_of_isValidChar hvalid
    rw [← heq] at hn
    rw [if_neg (by omega)]
    simp only [List.cons.injEq, and_true]
    omega

/-- No code unit is the first and the second of a pair. -/
theorem isLow_of_isHigh {n : Nat} (h : isHigh n) : isLow n = false := by
  simp only [isHigh, isLow, Bool.and_eq_true, Bool.and_eq_false_iff, decide_eq_true_eq,
    decide_eq_false_iff_not] at h ⊢
  omega

/-- Behind `\u` stands a character in one code unit, or in two with another
`\u` between them. -/
theorem run_character_eq_ok_iff {cs rest : List Char} {c : Char} :
    character.run cs = .ok (c, rest) ↔
      (∃ n, units c = [n] ∧ codeUnit.run cs = .ok (n, rest)) ∨
      ∃ high low between, units c = [high, low] ∧
        codeUnit.run cs = .ok (high, '\\' :: 'u' :: between) ∧
        codeUnit.run between = .ok (low, rest) := by
  rw [character, run_bind_eq_ok_iff]
  constructor
  · intro ⟨n, between, hfirst, hrun⟩
    cases hlow : isLow n
    · cases hhigh : isHigh n
      · simp only [hlow, hhigh, Bool.false_eq_true, if_false, run_pure_eq_ok_iff] at hrun
        obtain ⟨rfl, rfl⟩ := hrun
        obtain ⟨written, hwritten, -⟩ := run_codeUnit_eq_ok_iff.1 hfirst
        exact .inl ⟨n, units_eq_alone_iff.2 ⟨hwritten.lt, hhigh, hlow, rfl⟩, hfirst⟩
      · simp only [hlow, hhigh, Bool.false_eq_true, if_false, if_true, run_bind_eq_ok_iff,
          run_expect_eq_ok_iff] at hrun
        obtain ⟨-, _, rfl, -, second, rfl, low, _, hsecond, hrun⟩ := hrun
        cases hlow' : isLow low
        · rw [hlow'] at hrun
          cases hrun
        · simp only [hlow', if_true, run_pure_eq_ok_iff] at hrun
          obtain ⟨rfl, rfl⟩ := hrun
          exact .inr ⟨n, low, second, units_eq_pair_iff.2 ⟨hhigh, hlow', rfl⟩, hfirst, hsecond⟩
    · rw [hlow] at hrun
      cases hrun
  · intro h
    rcases h with ⟨n, hc, hunit⟩ | ⟨high, low, second, hc, hfirst, hsecond⟩
    · obtain ⟨-, hhigh, hlow, heq⟩ := units_eq_alone_iff.1 hc
      refine ⟨n, rest, hunit, ?_⟩
      simp only [hlow, hhigh, Bool.false_eq_true, if_false, run_pure_eq_ok_iff, heq, and_self]
    · obtain ⟨hhigh, hlow, heq⟩ := units_eq_pair_iff.1 hc
      refine ⟨high, _, hfirst, ?_⟩
      simp only [isLow_of_isHigh hhigh, hhigh, Bool.false_eq_true, if_false, if_true,
        run_bind_eq_ok_iff, run_expect_eq_ok_iff]
      refine ⟨(), _, rfl, (), second, rfl, low, rest, hsecond, ?_⟩
      simp only [hlow, if_true, run_pure_eq_ok_iff, heq, and_self]

/-- In the words of the definition: the code units of a character are
escaped one by one. -/
theorem run_character_eq_ok_iff_escapes {cs rest : List Char} {c : Char} :
    character.run cs = .ok (c, rest) ↔
      ∃ written, List.Forall₂ IsCodeUnit written (units c) ∧
        '\\' :: 'u' :: cs = escapes written ++ rest := by
  rw [run_character_eq_ok_iff]
  simp only [run_codeUnit_eq_ok_iff]
  constructor
  · intro h
    rcases h with ⟨n, hc, written, hunit, rfl⟩ | ⟨high, low, _, hc, hfirst, second, hsecond, rfl⟩
    · rw [hc]
      exact ⟨[written], .cons hunit .nil, by simp⟩
    · obtain ⟨first, hfirst, rfl⟩ := hfirst
      rw [hc]
      exact ⟨[first, second], .cons hfirst (.cons hsecond .nil), by simp⟩
  · intro ⟨written, hunits, hcs⟩
    rcases units_cases c with ⟨n, hc⟩ | ⟨high, low, hc⟩
    · rw [hc] at hunits
      cases hunits with
      | cons hunit hnil =>
        cases hnil
        exact .inl ⟨n, hc, _, hunit, by simpa using hcs⟩
    · rw [hc] at hunits
      cases hunits with
      | cons hfirst hunits =>
        cases hunits with
        | cons hsecond hnil =>
          cases hnil
          exact .inr ⟨high, low, _, hc, ⟨_, hfirst, by simpa using hcs⟩, _, hsecond, rfl⟩

/-! ## Strings -/

theorem run_escape_eq_ok_iff {unicode : Reader Char} {cs rest : List Char} {c : Char} :
    (escape unicode).run cs = .ok (c, rest) ↔
      (∃ key, (key, c) ∈ shortEscapes ∧ cs = key :: rest) ∨
      ∃ between, cs = 'u' :: between ∧ unicode.run between = .ok (c, rest) := by
  constructor
  · intro h
    obtain ⟨key, between, hnext, hrun⟩ := run_bind_eq_ok_iff.1 h
    obtain rfl := run_next_eq_ok_iff.1 hnext
    split at hrun
    -- `u` and what is no escape; the others are in the table
    case h_9 => exact .inr ⟨between, rfl, hrun⟩
    case h_10 => cases hrun
    all_goals
      cases hrun
      exact .inl ⟨_, by decide, rfl⟩
  · intro h
    rcases h with ⟨key, hkey, rfl⟩ | ⟨between, rfl, hrun⟩
    · simp only [shortEscapes, List.mem_cons, Prod.mk.injEq, List.not_mem_nil, or_false] at hkey
      rcases hkey with ⟨rfl, rfl⟩ | ⟨rfl, rfl⟩ | ⟨rfl, rfl⟩ | ⟨rfl, rfl⟩ | ⟨rfl, rfl⟩ | ⟨rfl, rfl⟩ |
        ⟨rfl, rfl⟩ | ⟨rfl, rfl⟩ <;> rfl
    · exact hrun

/-- A step takes off the closing quote, a character that stands for itself,
or one that is escaped. -/
theorem run_bodyStep_eq_ok_iff {unicode : Reader Char} {text : String} {cs rest : List Char}
    {r : String ⊕ String} :
    (bodyStep unicode text).run cs = .ok (r, rest) ↔
      (r = .inr text ∧ cs = '"' :: rest) ∨
      ∃ c, r = .inl (text.push c) ∧
        ((' ' ≤ c ∧ c ≠ '"' ∧ c ≠ '\\' ∧ cs = c :: rest) ∨
          ∃ between, cs = '\\' :: between ∧ (escape unicode).run between = .ok (c, rest)) := by
  constructor
  · intro h
    obtain ⟨c, left, hnext, hrun⟩ := run_bind_eq_ok_iff.1 h
    obtain rfl := run_next_eq_ok_iff.1 hnext
    split at hrun
    · cases hrun
      exact .inl ⟨rfl, rfl⟩
    · obtain ⟨d, between, hescape, hpush⟩ := run_bind_eq_ok_iff.1 hrun
      cases hpush
      exact .inr ⟨d, rfl, .inr ⟨left, rfl, hescape⟩⟩
    · next hquote hback =>
      split at hrun
      · cases hrun
      · next hcontrol =>
        cases hrun
        exact .inr ⟨c, rfl, .inl ⟨Char.not_lt.1 hcontrol, hquote, hback, rfl⟩⟩
  · intro h
    rcases h with ⟨rfl, rfl⟩ | ⟨c, rfl, ⟨hcontrol, hquote, hback, rfl⟩ | ⟨between, rfl, hescape⟩⟩
    · rfl
    · refine run_bind_eq_ok_iff.2 ⟨c, rest, rfl, ?_⟩
      split
      · exact absurd rfl hquote
      · exact absurd rfl hback
      · rw [if_neg (Char.not_lt.2 hcontrol)]
        rfl
    · exact run_bind_eq_ok_iff.2 ⟨'\\', between, rfl, run_bind_eq_ok_iff.2 ⟨c, rest, hescape, rfl⟩⟩

/-- A step that goes on has read one character. -/
theorem run_bodyStep_inl_iff {text text' : String} {cs rest : List Char} :
    (bodyStep character text).run cs = .ok (.inl text', rest) ↔
      ∃ front c, SpellsChar front c ∧ cs = front ++ rest ∧ text' = text.push c := by
  rw [run_bodyStep_eq_ok_iff]
  simp only [reduceCtorEq, false_and, false_or, Sum.inl.injEq, run_escape_eq_ok_iff,
    run_character_eq_ok_iff_escapes]
  constructor
  · intro ⟨c, htext, h⟩
    rcases h with ⟨hcontrol, hquote, hback, rfl⟩ | ⟨_, rfl, ⟨key, hkey, rfl⟩ | ⟨_, rfl, hunits⟩⟩
    · exact ⟨[c], c, .plain hcontrol hquote hback, rfl, htext⟩
    · exact ⟨['\\', key], c, .short hkey, rfl, htext⟩
    · obtain ⟨written, hunits, hcs⟩ := hunits
      exact ⟨escapes written, c, .escaped hunits, hcs, htext⟩
  · intro h
    obtain ⟨front, c, hc, rfl, rfl⟩ := h
    refine ⟨c, rfl, ?_⟩
    cases hc with
    | plain hcontrol hquote hback => exact .inl ⟨hcontrol, hquote, hback, rfl⟩
    | @short key _ hkey => exact .inr ⟨key :: rest, rfl, .inl ⟨key, hkey, rfl⟩⟩
    | @escaped _ written hunits =>
      obtain ⟨digits, more, rfl⟩ := exists_cons_of_units hunits
      exact .inr ⟨'u' :: (digits ++ escapes more ++ rest), by simp,
        .inr ⟨_, rfl, _, hunits, by simp⟩⟩

theorem run_bodyStep_inr_iff {unicode : Reader Char} {text text' : String} {cs rest : List Char} :
    (bodyStep unicode text).run cs = .ok (.inr text', rest) ↔ text' = text ∧ cs = '"' :: rest := by
  rw [run_bodyStep_eq_ok_iff]
  simp

theorem SpellsChar.ne_nil {written : List Char} {c : Char} (h : SpellsChar written c) :
    written ≠ [] := by
  cases h with
  | plain => simp
  | short => simp
  | escaped hunits =>
    obtain ⟨digits, more, rfl⟩ := exists_cons_of_units hunits
    simp

theorem advances_bodyStep : Advances (bodyStep character) := by
  intro text cs text' rest h
  obtain ⟨front, c, hc, rfl, -⟩ := run_bodyStep_inl_iff.1 h
  have := List.length_pos_iff.2 hc.ne_nil
  rw [List.length_append]
  omega

theorem push_append_ofList (text : String) (c : Char) (added : List Char) :
    text.push c ++ String.ofList added = text ++ String.ofList (c :: added) := by
  apply String.toList_inj.1
  simp

/-- The loop behind an opening quote adds what is spelled before the next
one to what it has. -/
theorem repeats_bodyStep_iff {text text' : String} {cs rest : List Char} :
    Repeats (bodyStep character) text' rest text cs ↔
      ∃ written added, Spells written added ∧ cs = written ++ '"' :: rest ∧
        text' = text ++ String.ofList added := by
  constructor
  · intro h
    induction h with
    | last h =>
      obtain ⟨rfl, rfl⟩ := run_bodyStep_inr_iff.1 h
      exact ⟨[], [], .nil, rfl, by simp⟩
    | turn h _ ih =>
      obtain ⟨front, c, hc, rfl, rfl⟩ := run_bodyStep_inl_iff.1 h
      obtain ⟨written, added, hspells, rfl, rfl⟩ := ih
      exact ⟨front ++ written, c :: added, .cons hc hspells, by simp, push_append_ofList ..⟩
  · intro h
    obtain ⟨written, added, hspells, rfl, rfl⟩ := h
    induction hspells generalizing text with
    | nil => exact .last (run_bodyStep_inr_iff.2 ⟨by simp, rfl⟩)
    | @cons front written _ c hc _ ih =>
      rw [← push_append_ofList, List.append_assoc]
      exact .turn (run_bodyStep_inl_iff.2 ⟨front, c, hc, rfl, rfl⟩) ih

/-- **What is read of a string**: behind an opening quote, the text that is
spelled up to the next one. -/
theorem run_body_eq_ok_iff {cs rest : List Char} {text : String} :
    (body character).run cs = .ok (text, rest) ↔
      ∃ written, Spells written text.toList ∧ cs = written ++ '"' :: rest := by
  rw [body, run_iterate_eq_ok_iff advances_bodyStep, repeats_bodyStep_iff]
  constructor
  · intro ⟨written, added, hspells, hcs, htext⟩
    exact ⟨written, by simpa [htext] using hspells, hcs⟩
  · intro ⟨written, hspells, hcs⟩
    exact ⟨written, text.toList, hspells, hcs, by simp⟩

/-! ## What is written -/

theorem isHexDigit_hexChar {n : Nat} (h : n < 16) : IsHexDigit (hexChar n) n := by
  have hall : ∀ n < 16, hexChar n = n.digitChar := by decide
  exact ⟨h, .inl (hall n h)⟩

theorem spellsChar_writeChar (c : Char) : SpellsChar (writeChar c) c := by
  unfold writeChar
  split
  case h_8 hquote hback _ _ _ _ _ =>
    split
    · next hcontrol =>
      have hlt : c.toNat < 32 := hcontrol
      have hunit : IsCodeUnit ['0', '0', hexChar (c.toNat / 16), hexChar (c.toNat % 16)] c.toNat :=
        ⟨0, 0, c.toNat / 16, c.toNat % 16,
          .cons (isHexDigit_hexChar (by omega)) (.cons (isHexDigit_hexChar (by omega))
            (.cons (isHexDigit_hexChar (by omega)) (.cons (isHexDigit_hexChar (by omega)) .nil))),
          by omega⟩
      have hunits : units c = [c.toNat] := if_pos (by omega)
      exact .escaped (by rw [hunits]; exact .cons hunit .nil)
    · next hcontrol => exact .plain (Char.not_lt.1 hcontrol) hquote hback
  all_goals exact .short (by decide)

theorem spells_flatMap_writeChar (text : List Char) : Spells (text.flatMap writeChar) text := by
  induction text with
  | nil => exact .nil
  | cons c text ih => exact .cons (spellsChar_writeChar c) ih

/-- What needs no escape stands for itself. -/
theorem spells_self {text : List Char}
    (h : text.all fun c => ' ' ≤ c ∧ c ≠ '"' ∧ c ≠ '\\') : Spells text text := by
  induction text with
  | nil => exact .nil
  | cons c text ih =>
    rw [List.all_cons, Bool.and_eq_true, decide_eq_true_eq] at h
    obtain ⟨⟨hcontrol, hquote, hback⟩, hmore⟩ := h
    exact .cons (.plain hcontrol hquote hback) (ih hmore)

/-- **What is written for a text is a document with that text in it.** -/
theorem holds_write (text : String) : Holds (write text) text :=
  ⟨[], text.toList.flatMap writeChar, [], by simp, spells_flatMap_writeChar _, by simp,
    by simp [write]⟩

/-! ## Documents that are strings -/

theorem dropWhile_isBlank_eq_cons_iff {c : Char} (hc : isBlank c = false) {cs rest : List Char} :
    cs.dropWhile isBlank = c :: rest ↔
      ∃ before, (∀ b ∈ before, isBlank b) ∧ cs = before ++ c :: rest := by
  constructor
  · intro h
    refine ⟨cs.takeWhile isBlank, fun b hb => List.mem_takeWhile_imp hb, ?_⟩
    rw [← h, List.takeWhile_append_dropWhile]
  · intro ⟨before, hbefore, hcs⟩
    rw [hcs, List.dropWhile_append_of_pos hbefore, List.dropWhile_cons_of_neg (by simp [hc])]

theorem dropWhile_isBlank_append {before rest : List Char} {c : Char}
    (hbefore : ∀ b ∈ before, isBlank b) (hc : isBlank c = false) :
    (before ++ c :: rest).dropWhile isBlank = c :: rest :=
  (dropWhile_isBlank_eq_cons_iff hc).2 ⟨before, hbefore, rfl⟩

/-- Where something else than a string stands there is an error. -/
theorem run_wrongType_ne_ok {α : Type} (expected : String) (cs : List Char) (r : α × List Char) :
    (wrongType expected : Reader α).run cs ≠ .ok r := by
  intro h
  obtain ⟨_, _, -, hthrow⟩ := run_bind_eq_ok_iff.1 h
  cases hthrow

theorem run_textOr (expected : String) (cs : List Char) :
    (textOr expected).run cs =
      if (cs.dropWhile isBlank).head? = some '"' then
        (body character).run (cs.dropWhile isBlank).tail
      else (wrongType expected).run (cs.dropWhile isBlank) := by
  show (if (cs.dropWhile isBlank).head? = some '"' then _ else _ : Reader String).run _ = _
  split <;> rfl

theorem run_textOr_eq_ok_iff {expected text : String} {cs rest : List Char} :
    (textOr expected).run cs = .ok (text, rest) ↔
      ∃ before written, (∀ c ∈ before, isBlank c) ∧ Spells written text.toList ∧
        cs = before ++ '"' :: (written ++ '"' :: rest) := by
  rw [run_textOr]
  constructor
  · intro h
    split at h
    · next hquote =>
      obtain ⟨behind, hbehind⟩ := List.head?_eq_some_iff.1 hquote
      rw [hbehind, List.tail_cons] at h
      obtain ⟨before, hbefore, hcs⟩ := (dropWhile_isBlank_eq_cons_iff rfl).1 hbehind
      obtain ⟨written, hspells, rfl⟩ := run_body_eq_ok_iff.1 h
      exact ⟨before, written, hbefore, hspells, hcs⟩
    · exact absurd h (run_wrongType_ne_ok expected _ _)
  · intro ⟨before, written, hbefore, hspells, hcs⟩
    rw [hcs, dropWhile_isBlank_append hbefore rfl, List.head?_cons, if_pos rfl]
    exact run_body_eq_ok_iff.2 ⟨written, hspells, rfl⟩

theorem run_word_eq_ok_iff {written cs rest : List Char} {done : Unit} :
    (word written).run cs = .ok (done, rest) ↔ cs = written ++ rest := by
  induction written generalizing cs with
  | nil => exact run_pure_eq_ok_iff.trans (by simp [eq_comm])
  | cons c written ih =>
    rw [word, run_bind_eq_ok_iff]
    simp only [run_expect_eq_ok_iff, ih]
    simp

theorem run_nullOr_eq_ok_iff {expected : String} {cs rest : List Char} {done : Unit} :
    (nullOr expected).run cs = .ok (done, rest) ↔
      cs.dropWhile isBlank = 'n' :: 'u' :: 'l' :: 'l' :: rest := by
  unfold nullOr
  rw [run_bind_of_ok (run_blanks cs), run_bind_of_ok (run_peek _)]
  split
  · exact run_word_eq_ok_iff
  · next hnull =>
    refine iff_of_false (run_wrongType_ne_ok expected _ _) fun hdrop => hnull ?_
    rw [hdrop, List.head?_cons]

theorem run_finish_eq_ok_iff {cs rest : List Char} {done : Unit} :
    finish.run cs = .ok (done, rest) ↔ (∀ c ∈ cs, isBlank c) ∧ rest = [] := by
  rw [← List.dropWhile_eq_nil_iff]
  constructor
  · intro h
    obtain ⟨_, _, hblanks, h⟩ := run_bind_eq_ok_iff.1 h
    cases hblanks
    obtain ⟨_, _, hpeek, h⟩ := run_bind_eq_ok_iff.1 h
    cases hpeek
    cases hleft : cs.dropWhile isBlank with
    | nil =>
      rw [hleft] at h
      cases h
      exact ⟨rfl, rfl⟩
    | cons c more =>
      rw [hleft] at h
      cases h
  · intro h
    obtain ⟨hleft, rfl⟩ := h
    have hpeek : peek.run (cs.dropWhile isBlank) = .ok (none, []) := by rw [hleft, run_peek]; rfl
    exact run_bind_eq_ok_iff.2 ⟨(), _, run_blanks cs, run_bind_eq_ok_iff.2 ⟨none, [], hpeek, rfl⟩⟩

/-- A document holds a text when reading it gives the text and leaves
blanks. -/
theorem holds_iff (expected : String) {document text : String} :
    Holds document text ↔
      ∃ rest, (textOr expected).run document.toList = .ok (text, rest) ∧
        finish.run rest = .ok ((), []) := by
  simp only [run_textOr_eq_ok_iff, run_finish_eq_ok_iff]
  constructor
  · intro ⟨before, written, after, hbefore, hspells, hafter, hdocument⟩
    exact ⟨after, ⟨before, written, hbefore, hspells, hdocument⟩, hafter, trivial⟩
  · intro ⟨after, ⟨before, written, hbefore, hspells, hdocument⟩, hafter, _⟩
    exact ⟨before, written, after, hbefore, hspells, hafter, hdocument⟩

/-- A pair of surrogates, digits of either case, and an escape of its own
all stand for the character they name. -/
example : Holds " \"\\uD83d\\uDE00\\/\"\n" "😀/" :=
  (holds_iff "").2 ⟨['\n'], by decide +kernel, by decide⟩

/-- No document can be taken for two texts. -/
theorem Holds.unique {document a b : String} (ha : Holds document a) (hb : Holds document b) :
    a = b := by
  obtain ⟨_, ha, -⟩ := (holds_iff "").1 ha
  obtain ⟨_, hb, -⟩ := (holds_iff "").1 hb
  rw [ha] at hb
  cases hb
  rfl

end TextTemplate.Json.Text
