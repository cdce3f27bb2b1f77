/-
TextTemplate.Json.Reader — readers of a document, and the few of them that
everything else is made of.

A `Reader` takes characters off the front of what is left of a document.
`Reader.iterate` is the only loop: it repeats a step for as long as the
step asks for more, at most once for every character left and once again,
which is no limit to a step that takes a character whenever it asks. The
characters left are themselves the clock it runs by.
`items` is a list between brackets and knows nothing of what its items
mean, so arrays, objects and documents of a fixed form share it.
-/
import TextTemplate.Json.Error

namespace TextTemplate.Json

/-- Takes something off the front of a document. -/
abbrev Reader (α : Type) : Type :=
  StateT (List Char) (Except Error) α

namespace Reader

variable {α β σ : Type}

/-! ## Characters -/

/-- The next character, left where it is. -/
def peek : Reader (Option Char) := do
  return (← get).head?

/-- Take the next character off, if there is one. -/
def skip : Reader Unit :=
  modify List.tail

/-- Take off the next character, which has to be there. -/
def next : Reader Char := do
  match ← get with
  | [] => throw .truncated
  | c :: rest =>
    set rest
    return c

/-- Take off one certain character. -/
def expect (c : Char) : Reader Unit := do
  if (← next) = c then return () else throw .malformed

/-- Take off a certain row of characters. -/
def word : List Char → Reader Unit
  | [] => return ()
  | c :: rest => do
    expect c
    word rest

/-- Take off as many characters of a class as there are. -/
def takeWhile (p : Char → Bool) : Reader (List Char) := do
  let cs ← get
  set (cs.dropWhile p)
  return cs.takeWhile p

/-- Space, tab, line feed and carriage return. -/
def isBlank (c : Char) : Bool :=
  c == ' ' || c == '\t' || c == '\n' || c == '\r'

/-- Take off blanks. -/
def blanks : Reader Unit :=
  modify (List.dropWhile isBlank)

/-! ## Repetition -/

/-- Repeat a step from state to state until it gives a result, once for
each character of `clock` at most. -/
def iterateFor (step : σ → Reader (σ ⊕ α)) : (clock : List Char) → σ → Reader α
  | [], _ => throw .malformed
  | _ :: clock, s => do
    match ← step s with
    | .inl s => iterateFor step clock s
    | .inr a => return a

/-- Repeat a step that takes a character whenever it is to be repeated. -/
def iterate (step : σ → Reader (σ ⊕ α)) (s : σ) : Reader α := do
  iterateFor step (' ' :: (← get)) s

/-- One item, and the comma or bracket behind it. -/
def itemStep (close : Char) (item : σ → Reader σ) (s : σ) : Reader (σ ⊕ σ) := do
  let s ← item s
  blanks
  let c ← next
  if c = ',' then return .inl s
  else if c = close then return .inr s
  else throw .malformed

/-- Items between commas up to a closing bracket, each of which takes a
state on. The opening bracket is taken off already. -/
def items (close : Char) (item : σ → Reader σ) (s : σ) : Reader σ := do
  blanks
  match ← peek with
  | none => throw .truncated
  | some c =>
    if c = close then
      skip
      return s
    else
      iterate (itemStep close item) s

/-! ## Whole documents -/

/-- Nothing but blanks is left. -/
def finish : Reader Unit := do
  blanks
  match ← peek with
  | none => return ()
  | some _ => throw .malformed

/-- Read a document that holds one thing and blanks. -/
def document (read : Reader α) (text : String) : Except Error α :=
  (do let a ← read; finish; return a : Reader α).run' text.toList

/-! ## What the readers do to the rest of a document -/

@[simp] theorem run_peek (cs : List Char) : peek.run cs = .ok (cs.head?, cs) := rfl

@[simp] theorem run_skip (cs : List Char) : skip.run cs = .ok ((), cs.tail) := rfl

@[simp] theorem run_blanks (cs : List Char) :
    blanks.run cs = .ok ((), cs.dropWhile isBlank) := rfl

@[simp] theorem run_takeWhile (p : Char → Bool) (cs : List Char) :
    (takeWhile p).run cs = .ok (cs.takeWhile p, cs.dropWhile p) := rfl

@[simp] theorem run_next_nil : next.run [] = .error .truncated := rfl

@[simp] theorem run_next_cons (c : Char) (cs : List Char) : next.run (c :: cs) = .ok (c, cs) := rfl

@[simp] theorem run_expect_nil (c : Char) : (expect c).run [] = .error .truncated := rfl

@[simp] theorem run_expect_self (c : Char) (cs : List Char) :
    (expect c).run (c :: cs) = .ok ((), cs) := by
  show (if c = c then _ else _ : Reader Unit).run cs = _
  rw [if_pos rfl]
  rfl

theorem run_expect_ne {c d : Char} (h : d ≠ c) (cs : List Char) :
    (expect c).run (d :: cs) = .error .malformed := by
  show (if d = c then _ else _ : Reader Unit).run cs = _
  rw [if_neg h]
  rfl

@[simp] theorem run_throw (e : Error) (cs : List Char) :
    (throw e : Reader α).run cs = .error e := rfl

theorem run_pure_eq_ok_iff {a b : α} {cs rest : List Char} :
    (pure a : Reader α).run cs = .ok (b, rest) ↔ a = b ∧ cs = rest := by
  show Except.ok (a, cs) = .ok (b, rest) ↔ _
  simp

theorem run_next_eq_ok_iff {cs rest : List Char} {c : Char} :
    next.run cs = .ok (c, rest) ↔ cs = c :: rest := by
  cases cs <;> simp

theorem run_expect_eq_ok_iff {c : Char} {cs rest : List Char} {done : Unit} :
    (expect c).run cs = .ok (done, rest) ↔ cs = c :: rest := by
  cases cs with
  | nil => simp
  | cons d cs =>
    by_cases h : d = c
    · subst h
      simp
    · rw [run_expect_ne h]
      simp [h]

/-- One reader and then another succeed where the first does and the second
does with what the first leaves. -/
theorem run_bind_eq_ok_iff {first : Reader α} {after : α → Reader β} {cs rest : List Char} {b : β} :
    (first >>= after).run cs = .ok (b, rest) ↔
      ∃ a between, first.run cs = .ok (a, between) ∧ (after a).run between = .ok (b, rest) := by
  rw [StateT.run_bind]
  constructor
  · intro h
    cases hfirst : first.run cs with
    | error e =>
      rw [hfirst] at h
      cases h
    | ok r =>
      rw [hfirst] at h
      exact ⟨r.1, r.2, rfl, h⟩
  · intro h
    obtain ⟨a, between, hfirst, hafter⟩ := h
    rw [hfirst]
    exact hafter

/-- Where the first succeeds, the second is what is left to be run. -/
theorem run_bind_of_ok {first : Reader α} {after : α → Reader β} {cs between : List Char} {a : α}
    (h : first.run cs = .ok (a, between)) : (first >>= after).run cs = (after a).run between := by
  rw [StateT.run_bind, h]
  rfl

/-- A step that takes a character whenever it is to be repeated. -/
def Advances (step : σ → Reader (σ ⊕ α)) : Prop :=
  ∀ s cs s' rest, (step s).run cs = .ok (.inl s', rest) → rest.length < cs.length

/-- One turn of a repetition. -/
theorem run_iterateFor_cons (step : σ → Reader (σ ⊕ α)) (tick : Char) (clock : List Char) (s : σ)
    (cs : List Char) : (iterateFor step (tick :: clock) s).run cs =
      match (step s).run cs with
      | .error e => .error e
      | .ok (.inl s', rest) => (iterateFor step clock s').run rest
      | .ok (.inr a, rest) => .ok (a, rest) := by
  show ((step s >>= _ : Reader α).run cs) = _
  rw [StateT.run_bind]
  rcases (step s).run cs with _ | ⟨_ | _, _⟩ <;> rfl

/-- A clock that outlasts the document makes no difference. -/
theorem run_iterateFor_eq {step : σ → Reader (σ ⊕ α)} (h : Advances step) :
    ∀ (clock clock' : List Char) (s : σ) (cs : List Char),
      cs.length < clock.length → cs.length < clock'.length →
      (iterateFor step clock s).run cs = (iterateFor step clock' s).run cs
  | [], _, _, _, hlt, _ => absurd hlt (Nat.not_lt_zero _)
  | _ :: _, [], _, _, _, hlt => absurd hlt (Nat.not_lt_zero _)
  | _ :: clock, _ :: clock', s, cs, hlt, hlt' => by
    rw [run_iterateFor_cons, run_iterateFor_cons]
    cases hs : (step s).run cs with
    | error e => rfl
    | ok r =>
      obtain ⟨s' | a, rest⟩ := r
      · have := h s cs s' rest hs
        simp only [List.length_cons] at hlt hlt'
        exact run_iterateFor_eq h clock clock' s' rest (by omega) (by omega)
      · rfl

/-- A repetition is its step and, where that asks for more, itself. -/
theorem run_iterate {step : σ → Reader (σ ⊕ α)} (h : Advances step) (s : σ) (cs : List Char) :
    (iterate step s).run cs =
      match (step s).run cs with
      | .error e => .error e
      | .ok (.inl s', rest) => (iterate step s').run rest
      | .ok (.inr a, rest) => .ok (a, rest) := by
  show (iterateFor step (' ' :: cs) s).run cs = _
  rw [run_iterateFor_cons]
  cases hs : (step s).run cs with
  | error e => rfl
  | ok r =>
    obtain ⟨s' | a, rest⟩ := r
    · have := h s cs s' rest hs
      exact run_iterateFor_eq h cs (' ' :: rest) s' rest this (by simp)
    · rfl

/-- The turns of a repetition that comes to a result: what it starts from,
the result, and what is left of the document. -/
inductive Repeats (step : σ → Reader (σ ⊕ α)) (a : α) (rest : List Char) :
    σ → List Char → Prop where
  | last {s : σ} {cs : List Char} (h : (step s).run cs = .ok (.inr a, rest)) :
      Repeats step a rest s cs
  | turn {s s' : σ} {cs between : List Char} (h : (step s).run cs = .ok (.inl s', between))
      (hrest : Repeats step a rest s' between) : Repeats step a rest s cs

theorem run_iterate_eq_ok_iff {step : σ → Reader (σ ⊕ α)} (h : Advances step) {s : σ}
    {cs rest : List Char} {a : α} :
    (iterate step s).run cs = .ok (a, rest) ↔ Repeats step a rest s cs := by
  constructor
  · intro hrun
    -- what is left gets shorter with every turn
    induction hlength : cs.length using Nat.strongRecOn generalizing s cs with
    | ind n ih =>
      subst hlength
      rw [run_iterate h] at hrun
      split at hrun
      · cases hrun
      · next s' between hs => exact .turn hs (ih _ (h s cs s' between hs) hrun rfl)
      · next hs =>
        cases hrun
        exact .last hs
  · intro hrepeats
    induction hrepeats with
    | last hs => rw [run_iterate h, hs]
    | turn hs _ ih =>
      rw [run_iterate h, hs]
      exact ih

end Reader

end TextTemplate.Json
