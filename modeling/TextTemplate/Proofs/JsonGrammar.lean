/-
TextTemplate.Proofs.JsonGrammar — JSON apart from its readers.

`IsValue written` says that `written` is a value of JSON and nothing else,
without blanks around it: it follows the definition of JSON, in which a
string may hold any `\u` escape, one that names no character included, and
brackets may be as deep as they like.

Lists between brackets are the same everywhere (`Listed`), and so is the loop
that reads them. What it comes to is said once, for items of any kind
(`Bracketed.run_items_eq_ok_iff`): where every item takes the reader from
state to state by a relation, the list does so by the relation's steps. The
items of an array, the members of an object that is passed over and the
members of one that is looked at differ in the relation.

Behind a value stands a blank, a comma or a closing bracket (`Follows`). A
number needs that, for another digit would be one of its own.
-/
import TextTemplate.Proofs.JsonText

namespace TextTemplate.Json

open Reader Text

/-! ## Lists -/

section

variable {α σ : Type}

/-- Items with commas between them. -/
inductive Listed (Item : List Char → α → Prop) : (written : List Char) → List α → Prop where
  | last {before written after : List Char} {a : α} (hbefore : ∀ c ∈ before, isBlank c)
      (h : Item written a) (hafter : ∀ c ∈ after, isBlank c) :
      Listed Item (before ++ (written ++ after)) [a]
  | cons {before written after more : List Char} {a : α} {as : List α}
      (hbefore : ∀ c ∈ before, isBlank c) (h : Item written a) (hafter : ∀ c ∈ after, isBlank c)
      (hmore : Listed Item more as) :
      Listed Item (before ++ (written ++ (after ++ ',' :: more))) (a :: as)

/-- What stands between brackets: items, or blanks where there are none. -/
def Bracketed (Item : List Char → α → Prop) (inside : List Char) (as : List α) : Prop :=
  (as = [] ∧ ∀ c ∈ inside, isBlank c) ∨ Listed Item inside as

/-- What may stand behind a value. -/
def Follows (rest : List Char) : Prop :=
  ∀ c ∈ rest.head?, isBlank c ∨ c = ',' ∨ c = ']' ∨ c = '\x7d'

/-- What may stand behind an opening bracket and is neither a blank nor the end
of the brackets. -/
def Starts (written : List Char) : Prop :=
  ∃ c more, written = c :: more ∧ isBlank c = false ∧ c ≠ ']' ∧ c ≠ '\x7d'

/-- The steps along a list. -/
def Steps (step : σ → α → σ → Prop) : σ → List α → σ → Prop
  | s, [], s' => s' = s
  | s, a :: as, s' => ∃ between, step s a between ∧ Steps step between as s'

/-- The reader takes the item off and makes a step by it. Nothing is said of
where it stops where no value can end, for a loop over items stops there too. -/
def Takes (item : σ → Reader σ) (step : σ → α → σ → Prop) (written : List Char) (a : α) : Prop :=
  ∀ before rest s s' left, (∀ c ∈ before, isBlank c) → Follows rest → Follows left →
    ((item s).run (before ++ (written ++ rest)) = .ok (s', left) ↔ step s a s' ∧ left = rest)

end

/-! ## Values -/

/-- What stands in quotes. -/
inductive IsBody : List Char → Prop where
  | nil : IsBody []
  | plain {c : Char} {written : List Char} (hcontrol : ' ' ≤ c) (hquote : c ≠ '"')
      (hback : c ≠ '\\') (h : IsBody written) : IsBody (c :: written)
  | short {key c : Char} {written : List Char} (hkey : (key, c) ∈ shortEscapes)
      (h : IsBody written) : IsBody ('\\' :: key :: written)
  | unicode {digits written : List Char} {n : Nat} (hdigits : IsCodeUnit digits n)
      (h : IsBody written) : IsBody ('\\' :: 'u' :: (digits ++ written))

/-- Digits, and at least one. -/
def IsDigits (written : List Char) : Prop :=
  written ≠ [] ∧ ∀ c ∈ written, c.isDigit

/-- The digits before the point: a zero alone, or digits that begin with
another. -/
def IsWhole (written : List Char) : Prop :=
  written = ['0'] ∨ IsDigits written ∧ written.head? ≠ some '0'

/-- The digits behind a point, if there is one. -/
def IsFraction (written : List Char) : Prop :=
  written = [] ∨ ∃ digits, IsDigits digits ∧ written = '.' :: digits

/-- A power of ten, if there is one. -/
def IsExponent (written : List Char) : Prop :=
  written = [] ∨ ∃ mark sign digits, (mark = 'e' ∨ mark = 'E') ∧
    (sign = [] ∨ sign = ['+'] ∨ sign = ['-']) ∧ IsDigits digits ∧ written = mark :: (sign ++ digits)

/-- A number. -/
def IsNumeral (written : List Char) : Prop :=
  ∃ sign whole fraction exponent, (sign = [] ∨ sign = ['-']) ∧ IsWhole whole ∧
    IsFraction fraction ∧ IsExponent exponent ∧
    written = sign ++ (whole ++ (fraction ++ exponent))

/-- A key, a colon and a value. -/
def IsMember {κ : Type} (Key : List Char → κ → Prop) (written : List Char)
    (member : κ × List Char) : Prop :=
  ∃ key before after, Key key member.1 ∧ (∀ c ∈ before, isBlank c) ∧ (∀ c ∈ after, isBlank c) ∧
    written = '"' :: (key ++ '"' :: (before ++ ':' :: (after ++ member.2)))

/-- A value of JSON. -/
inductive IsValue : List Char → Prop where
  | null : IsValue ['n', 'u', 'l', 'l']
  | true : IsValue ['t', 'r', 'u', 'e']
  | false : IsValue ['f', 'a', 'l', 's', 'e']
  | number {written : List Char} (h : IsNumeral written) : IsValue written
  | text {written : List Char} (h : IsBody written) : IsValue ('"' :: (written ++ ['"']))
  | array {inside : List Char} {items : List (List Char)} (hitems : ∀ item ∈ items, IsValue item)
      (h : Bracketed Eq inside items) : IsValue ('[' :: (inside ++ [']']))
  | object {inside : List Char} {members : List (List Char × List Char)}
      (hmembers : ∀ member ∈ members, IsValue member.2)
      (h : Bracketed (IsMember fun key body => key = body ∧ IsBody body) inside members) :
      IsValue ('\x7b' :: (inside ++ ['\x7d']))

/-! ## Spelled text is a string -/

theorem IsBody.escapes_append {written : List (List Char)} {units : List Nat} {more : List Char}
    (hunits : List.Forall₂ IsCodeUnit written units) (h : IsBody more) :
    IsBody (escapes written ++ more) := by
  induction hunits with
  | nil => exact h
  | cons hunit _ ih =>
    simp only [escapes_cons, List.cons_append, List.append_assoc]
    exact .unicode hunit ih

theorem Text.Spells.isBody {written text : List Char} (h : Spells written text) :
    IsBody written := by
  induction h with
  | nil => exact .nil
  | cons hc _ ih =>
    cases hc with
    | plain hcontrol hquote hback => exact .plain hcontrol hquote hback ih
    | short hkey => exact .short hkey ih
    | escaped hunits => exact .escapes_append hunits ih

/-! ## Reading lists -/

section

variable {α σ : Type} {Item : List Char → α → Prop} {item : σ → Reader σ}
  {step : σ → α → σ → Prop} {close c : Char} {before written after inside rest left : List Char}
  {a : α} {as : List α} {s s' : σ}

theorem follows_cons (hc : isBlank c ∨ c = ',' ∨ c = ']' ∨ c = '\x7d') : Follows (c :: rest) := by
  intro d hd
  obtain rfl := Option.some.inj hd
  exact hc

theorem Follows.of_dropWhile (hc : c = ',' ∨ c = ']' ∨ c = '\x7d')
    (h : rest.dropWhile isBlank = c :: left) : Follows rest := by
  cases rest with
  | nil => cases h
  | cons d rest =>
    rw [List.dropWhile_cons] at h
    split at h
    · next hblank => exact follows_cons (.inl hblank)
    · cases h
      exact follows_cons (.inr hc)

theorem follows_append (hafter : ∀ c ∈ after, isBlank c)
    (hc : c = ',' ∨ c = ']' ∨ c = '\x7d') : Follows (after ++ c :: rest) := by
  cases after with
  | nil => exact follows_cons (.inr hc)
  | cons d after => exact follows_cons (.inl (hafter d List.mem_cons_self))

/-- One turn of a repetition that comes to a result. -/
theorem run_iterateFor_cons_eq_ok_iff {β : Type} {turn : σ → Reader (σ ⊕ β)} {tick : Char}
    {clock cs : List Char} {b : β} :
    (iterateFor turn (tick :: clock) s).run cs = .ok (b, left) ↔
      (∃ s' between, (turn s).run cs = .ok (.inl s', between) ∧
        (iterateFor turn clock s').run between = .ok (b, left)) ∨
      (turn s).run cs = .ok (.inr b, left) := by
  rw [run_iterateFor_cons]
  split <;> simp_all

/-- What ends an item may stand behind a value. -/
theorem behind_of_close (hclose : close = ']' ∨ close = '\x7d') (hc : c = ',' ∨ c = close) :
    c = ',' ∨ c = ']' ∨ c = '\x7d' := by
  rcases hc with rfl | rfl
  · exact .inl rfl
  · exact .inr hclose

theorem isBlank_of_behind (hc : c = ',' ∨ c = ']' ∨ c = '\x7d') : isBlank c = false := by
  rcases hc with rfl | rfl | rfl <;> rfl

/-- A step reads one item, and the character behind it says whether there is
another. -/
theorem run_itemStep_eq_ok_iff {cs : List Char} {r : σ ⊕ σ} :
    (itemStep close item s).run cs = .ok (r, rest) ↔
      ∃ s' between c, (item s).run cs = .ok (s', between) ∧
        between.dropWhile isBlank = c :: rest ∧
        (c = ',' ∧ r = .inl s' ∨ c ≠ ',' ∧ c = close ∧ r = .inr s') := by
  unfold itemStep
  simp only [run_bind_eq_ok_iff, run_blanks, run_next_eq_ok_iff, Except.ok.injEq, Prod.mk.injEq,
    exists_const, true_and, exists_eq_left']
  constructor
  · intro ⟨s', between, hitem, c, left, hdrop, hrun⟩
    split at hrun
    · next hcomma =>
      cases hrun
      exact ⟨s', between, c, hitem, hdrop, .inl ⟨hcomma, rfl⟩⟩
    · next hcomma =>
      split at hrun
      · next hclose =>
        cases hrun
        exact ⟨s', between, c, hitem, hdrop, .inr ⟨hcomma, hclose, rfl⟩⟩
      · cases hrun
  · intro ⟨s', between, c, hitem, hdrop, h⟩
    refine ⟨s', between, hitem, c, rest, hdrop, ?_⟩
    rcases h with ⟨hcomma, rfl⟩ | ⟨hcomma, hclose, rfl⟩
    · rw [if_pos hcomma]
      rfl
    · rw [if_neg hcomma, if_pos hclose]
      rfl

theorem run_itemStep_of_takes (hitem : Takes item step written a)
    (hbefore : ∀ c ∈ before, isBlank c) (hafter : ∀ c ∈ after, isBlank c)
    (hclose : close = ']' ∨ close = '\x7d') (hc : c = ',' ∨ c = close) {r : σ ⊕ σ} :
    (itemStep close item s).run (before ++ (written ++ (after ++ c :: rest))) = .ok (r, left) ↔
      ∃ s', step s a s' ∧ left = rest ∧ (c = ',' ∧ r = .inl s' ∨ c ≠ ',' ∧ r = .inr s') := by
  have hbehind := behind_of_close hclose hc
  have hfollows : Follows (after ++ c :: rest) := follows_append hafter hbehind
  have hdrop : (after ++ c :: rest).dropWhile isBlank = c :: rest :=
    dropWhile_isBlank_append hafter (isBlank_of_behind hbehind)
  rw [run_itemStep_eq_ok_iff]
  constructor
  · intro ⟨s', between, d, hrun, hbetween, hd⟩
    have hd' : d = ',' ∨ d = close := by
      rcases hd with ⟨hcomma, -⟩ | ⟨-, hend, -⟩
      · exact .inl hcomma
      · exact .inr hend
    -- the reader may have stopped anywhere, but the step goes on from an end only
    have hleft : Follows between := .of_dropWhile (behind_of_close hclose hd') hbetween
    obtain ⟨hstep, rfl⟩ := (hitem before _ s s' between hbefore hfollows hleft).1 hrun
    rw [hdrop] at hbetween
    obtain ⟨rfl, rfl⟩ := List.cons.inj hbetween
    exact ⟨s', hstep, rfl, hd.imp_right fun ⟨hne, _, hr⟩ => ⟨hne, hr⟩⟩
  · intro ⟨s', hstep, hleft, hr⟩
    exact ⟨s', _, c, (hitem before _ s s' _ hbefore hfollows hfollows).2 ⟨hstep, rfl⟩,
      hleft ▸ hdrop, hr.imp_right fun ⟨hne, hr⟩ => ⟨hne, hc.resolve_left hne, hr⟩⟩

/-- One item alone has blanks around it and nothing else. -/
theorem bracketed_singleton_iff :
    Bracketed Item inside [a] ↔
      ∃ before written after, (∀ c ∈ before, isBlank c) ∧ Item written a ∧
        (∀ c ∈ after, isBlank c) ∧ inside = before ++ (written ++ after) := by
  constructor
  · intro h
    rcases h with ⟨hnil, -⟩ | h
    · cases hnil
    · cases h with
      | last hbefore hitem hafter => exact ⟨_, _, _, hbefore, hitem, hafter, rfl⟩
      | cons _ _ _ hmore => cases hmore
  · intro ⟨before, written, after, hbefore, hitem, hafter, hinside⟩
    exact .inr (hinside ▸ .last hbefore hitem hafter)

theorem listed_singleton (h : Item written a) : Listed Item written [a] := by
  have hlisted : Listed Item ([] ++ (written ++ [])) [a] := .last (by simp) h (by simp)
  simpa using hlisted

theorem Listed.cons_comma {more : List Char} (hmore : Listed Item more as) (h : Item written a) :
    Listed Item (written ++ ',' :: more) (a :: as) := by
  have hlisted : Listed Item ([] ++ (written ++ ([] ++ ',' :: more))) (a :: as) :=
    .cons (by simp) h (by simp) hmore
  simpa using hlisted

/-- Items that can be written one by one can be written as a list. -/
theorem exists_bracketed (h : ∀ a ∈ as, ∃ written, Item written a) :
    ∃ inside, Bracketed Item inside as := by
  induction as with
  | nil => exact ⟨[], .inl ⟨rfl, by simp⟩⟩
  | cons a as ih =>
    obtain ⟨written, hitem⟩ := h a List.mem_cons_self
    obtain ⟨more, ⟨rfl, -⟩ | hmore⟩ := ih fun b hb => h b (List.mem_cons_of_mem _ hb)
    · exact ⟨written, .inr (listed_singleton hitem)⟩
    · exact ⟨_, .inr (hmore.cons_comma hitem)⟩

theorem Listed.imp {Item' : List Char → α → Prop} (h : Listed Item written as)
    (himp : ∀ written, ∀ a ∈ as, Item written a → Item' written a) : Listed Item' written as := by
  induction h with
  | last hbefore hitem hafter => exact .last hbefore (himp _ _ (by simp) hitem) hafter
  | cons hbefore hitem hafter _ ih =>
    exact .cons hbefore (himp _ _ (by simp) hitem) hafter
      (ih fun written a ha => himp written a (List.mem_cons_of_mem _ ha))

/-- The loop over items takes them off one by one, and any clock that has a
tick for each is enough. -/
theorem Listed.run_iterateFor_eq_ok_iff (h : Listed (Takes item step) written as)
    (hclose : close = ']' ∨ close = '\x7d') {clock : List Char}
    (hclock : as.length ≤ clock.length) :
    (iterateFor (itemStep close item) clock s).run (written ++ close :: rest) = .ok (s', left) ↔
      Steps step s as s' ∧ left = rest := by
  have hne : close ≠ ',' := by rcases hclose with rfl | rfl <;> decide
  -- on the items, each of which uses up one tick
  induction h generalizing s clock with
  | @last before written after a hbefore hitem hafter =>
    obtain ⟨tick, clock, rfl⟩ := List.exists_cons_of_length_pos hclock
    simp only [run_iterateFor_cons_eq_ok_iff, List.append_assoc,
      run_itemStep_of_takes hitem hbefore hafter hclose (.inr rfl), Steps]
    simp [hne]
  | @cons before written after more a as hbefore hitem hafter _ ih =>
    obtain ⟨tick, clock, rfl⟩ := List.exists_cons_of_length_pos (Nat.zero_lt_of_lt hclock)
    have hmore (between : σ) := ih (s := between) (Nat.le_of_succ_le_succ hclock)
    simp only [run_iterateFor_cons_eq_ok_iff, List.append_assoc, List.cons_append,
      run_itemStep_of_takes hitem hbefore hafter hclose (.inl rfl), Steps]
    constructor
    · intro hrun
      simp only [ne_eq, not_true_eq_false, false_and, or_false, true_and, Sum.inl.injEq,
        reduceCtorEq, and_false, exists_false] at hrun
      obtain ⟨between, _, ⟨_, hstep, rfl, rfl⟩, hrun⟩ := hrun
      obtain ⟨hsteps, hleft⟩ := (hmore between).1 hrun
      exact ⟨⟨between, hstep, hsteps⟩, hleft⟩
    · intro ⟨⟨between, hstep, hsteps⟩, hleft⟩
      exact .inl ⟨between, _, ⟨between, hstep, rfl, .inl ⟨trivial, rfl⟩⟩,
        (hmore between).2 ⟨hsteps, hleft⟩⟩

theorem Listed.length_le (h : Listed Item written as)
    (hstarts : ∀ written, ∀ a ∈ as, Item written a → Starts written) :
    as.length ≤ written.length := by
  induction h with
  | last _ hitem _ =>
    obtain ⟨c, more, rfl, -⟩ := hstarts _ _ (by simp) hitem
    simp
    omega
  | cons _ _ _ _ ih =>
    have := ih fun written a ha => hstarts written a (List.mem_cons_of_mem _ ha)
    simp only [List.length_append, List.length_cons]
    omega

theorem Starts.append (h : Starts written) : Starts (written ++ rest) := by
  obtain ⟨c, more, rfl, hc⟩ := h
  exact ⟨c, more ++ rest, rfl, hc⟩

/-- Blanks in front of the first item make no difference. -/
theorem Listed.exists_trimmed (h : Listed Item written as)
    (hstarts : ∀ written, ∀ a ∈ as, Item written a → Starts written) :
    ∃ before trimmed, (∀ c ∈ before, isBlank c) ∧ written = before ++ trimmed ∧ Starts trimmed ∧
      Listed Item trimmed as := by
  cases h with
  | @last before item after a hbefore hitem hafter =>
    have htrimmed : Listed Item ([] ++ (item ++ after)) [a] := .last (by simp) hitem hafter
    exact ⟨before, _, hbefore, rfl, (hstarts _ _ (by simp) hitem).append, htrimmed⟩
  | @cons before item after more a as hbefore hitem hafter hmore =>
    have htrimmed : Listed Item ([] ++ (item ++ (after ++ ',' :: more))) (a :: as) :=
      .cons (by simp) hitem hafter hmore
    exact ⟨before, _, hbefore, rfl, (hstarts _ _ (by simp) hitem).append, htrimmed⟩

theorem run_items_of_close {cs : List Char} (h : cs.dropWhile isBlank = close :: rest) :
    (items close item s).run cs = .ok (s, rest) := by
  unfold items
  rw [StateT.run_bind, run_blanks, h]
  show (if close = close then _ else _ : Reader σ).run (close :: rest) = _
  rw [if_pos rfl]
  rfl

theorem run_items_of_ne {cs : List Char} (h : cs.dropWhile isBlank = c :: rest) (hc : c ≠ close) :
    (items close item s).run cs =
      (iterateFor (itemStep close item) (' ' :: c :: rest) s).run (c :: rest) := by
  unfold items
  rw [StateT.run_bind, run_blanks, h]
  show (if c = close then _ else _ : Reader σ).run (c :: rest) = _
  rw [if_neg hc]
  rfl

/-- **A list in brackets is read by the steps its items make**, whatever the
items are: up to the bracket that closes it, and not where a step fails. -/
theorem Bracketed.run_items_eq_ok_iff (h : Bracketed Item inside as)
    (hclose : close = ']' ∨ close = '\x7d')
    (hstarts : ∀ written, ∀ a ∈ as, Item written a → Starts written)
    (htakes : ∀ written, ∀ a ∈ as, Item written a → Takes item step written a) :
    (items close item s).run (inside ++ close :: rest) = .ok (s', left) ↔
      Steps step s as s' ∧ left = rest := by
  rcases h with ⟨rfl, hblank⟩ | h
  · have hdrop : (inside ++ close :: rest).dropWhile isBlank = close :: rest :=
      dropWhile_isBlank_append hblank (isBlank_of_behind (.inr hclose))
    rw [run_items_of_close hdrop]
    simp [Steps, eq_comm]
  · obtain ⟨before, _, hbefore, rfl, ⟨c, more, rfl, hc, hbracket, hbrace⟩, htrimmed⟩ :=
      h.exists_trimmed hstarts
    have hlength := htrimmed.length_le hstarts
    have hdrop : (before ++ c :: more ++ close :: rest).dropWhile isBlank =
        c :: (more ++ close :: rest) := by
      rw [List.append_assoc]
      exact dropWhile_isBlank_append hbefore hc
    have hclock : as.length ≤ (' ' :: c :: (more ++ close :: rest)).length := by
      simp only [List.length_cons, List.length_append] at hlength ⊢
      omega
    have hne : c ≠ close := by rcases hclose with rfl | rfl <;> assumption
    rw [run_items_of_ne hdrop hne]
    exact (htrimmed.imp htakes).run_iterateFor_eq_ok_iff hclose hclock

theorem steps_foldl (next : σ → α → σ) (s : σ) (as : List α) :
    Steps (fun s a s' => s' = next s a) s as (as.foldl next s) := by
  induction as generalizing s with
  | nil => rfl
  | cons a as ih => exact ⟨next s a, rfl, ih (next s a)⟩

/-- Items none of which can fail take the state on one by one. -/
theorem Bracketed.run_items_eq_foldl {next : σ → α → σ} (h : Bracketed Item inside as)
    (hclose : close = ']' ∨ close = '\x7d')
    (hstarts : ∀ written, ∀ a ∈ as, Item written a → Starts written)
    (hrun : ∀ written, ∀ a ∈ as, Item written a → ∀ before rest s, (∀ c ∈ before, isBlank c) →
      Follows rest → (item s).run (before ++ (written ++ rest)) = .ok (next s a, rest)) :
    (items close item s).run (inside ++ close :: rest) = .ok (as.foldl next s, rest) := by
  have htakes : ∀ written, ∀ a ∈ as, Item written a →
      Takes item (fun s a s' => s' = next s a) written a := by
    intro written a ha hitem before rest s s' left hbefore hrest _
    rw [hrun written a ha hitem before rest s hbefore hrest]
    simp [eq_comm]
  exact (h.run_items_eq_ok_iff hclose hstarts htakes).2 ⟨steps_foldl next s as, rfl⟩

end

end TextTemplate.Json
