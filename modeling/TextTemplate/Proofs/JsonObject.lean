/-
TextTemplate.Proofs.JsonObject — objects whose values are strings.

`HoldsObject document pairs` says that a document is an object with these
pairs as its members, in this order and with repetitions: any blanks where
blanks may stand, and every key and every value in any spelling. It follows
the definition of JSON and knows nothing of the reader.

Such a document is read as its members (`HoldsObject.parse`), by the reader
of any value and by the reader of an object alike, and every list of pairs is
the members of some document (`holdsObject_write`).

The loop over members is that of any list in brackets; what is said here is
what one member adds.
-/
import TextTemplate.Proofs.JsonGrammar

namespace TextTemplate.Json

open Reader Text

/-! ## Objects of strings -/

/-- A key and a value in quotes, and a colon between them. -/
def SpellsMember (written : List Char) (pair : String × String) : Prop :=
  ∃ key before after value, Spells key pair.1.toList ∧ (∀ c ∈ before, isBlank c) ∧
    (∀ c ∈ after, isBlank c) ∧ Spells value pair.2.toList ∧
    written = '"' :: (key ++ '"' :: (before ++ ':' :: (after ++ '"' :: (value ++ ['"']))))

/-- Members with commas between them. -/
inductive SpellsMembers : (written : List Char) → List (String × String) → Prop where
  | last {before written after : List Char} {pair : String × String}
      (hbefore : ∀ c ∈ before, isBlank c) (h : SpellsMember written pair)
      (hafter : ∀ c ∈ after, isBlank c) : SpellsMembers (before ++ (written ++ after)) [pair]
  | cons {before written after more : List Char} {pair : String × String}
      {pairs : List (String × String)} (hbefore : ∀ c ∈ before, isBlank c)
      (h : SpellsMember written pair) (hafter : ∀ c ∈ after, isBlank c)
      (hmore : SpellsMembers more pairs) :
      SpellsMembers (before ++ (written ++ (after ++ ',' :: more))) (pair :: pairs)

/-- A document that is an object with these members, in this order and with
repetitions. -/
def HoldsObject (document : String) (pairs : List (String × String)) : Prop :=
  ∃ before inside after, (∀ c ∈ before, isBlank c) ∧
    ((pairs = [] ∧ ∀ c ∈ inside, isBlank c) ∨ SpellsMembers inside pairs) ∧
    (∀ c ∈ after, isBlank c) ∧ document.toList = before ++ '\x7b' :: (inside ++ '\x7d' :: after)

/-- The members of an object of strings. -/
def textMembers (pairs : List (String × String)) : List (String × Value) :=
  pairs.map fun pair => (pair.1, .text pair.2)

/-! ## Members -/

theorem run_member_eq_ok_iff {κ α : Type} {key : Reader κ} {value : κ → Reader α}
    {cs rest : List Char} {a : α} :
    (member key value).run cs = .ok (a, rest) ↔
      ∃ behind k between after, cs.dropWhile isBlank = '"' :: behind ∧
        key.run behind = .ok (k, between) ∧ between.dropWhile isBlank = ':' :: after ∧
        (value k).run after = .ok (a, rest) := by
  unfold member
  simp only [run_bind_eq_ok_iff, run_expect_eq_ok_iff, run_blanks, Except.ok.injEq, Prod.mk.injEq,
    exists_const, true_and, exists_eq_left']
  constructor
  · intro ⟨behind, hquote, k, between, hkey, after, hcolon, h⟩
    exact ⟨behind, k, between, after, hquote, hkey, hcolon, h⟩
  · intro ⟨behind, k, between, after, hquote, hkey, hcolon, h⟩
    exact ⟨behind, hquote, k, between, hkey, after, hcolon, h⟩

/-! ## Values -/

section

variable {κ α : Type} {handler : Handler κ α} {cs behind rest : List Char}

theorem run_valueWith_text {inner : Option (Reader α)} (h : cs.dropWhile isBlank = '"' :: behind) :
    (handler.valueWith inner).run cs = handler.text.run behind := by
  unfold Handler.valueWith
  rw [StateT.run_bind, run_blanks, h]
  rfl

/-- One more member of an object. -/
def readMember (handler : Handler κ α) (inner : Reader α) (ms : Array (κ × α)) :
    Reader (Array (κ × α)) := do
  return ms.push (← member handler.key fun k => return (k, ← inner))

theorem run_valueWith_object {inner : Reader α} (h : cs.dropWhile isBlank = '\x7b' :: behind) :
    (handler.valueWith (some inner)).run cs =
      (do return handler.object (← items '\x7d' (readMember handler inner) #[]).toList :
        Reader α).run behind := by
  unfold Handler.valueWith
  rw [StateT.run_bind, run_blanks, h]
  rfl

end

/-- A value that begins with a quote is a string, at any depth. -/
theorem run_value_text {text : String} {written before rest : List Char}
    (hbefore : ∀ c ∈ before, isBlank c) (h : Spells written text.toList) (depth : Nat) :
    (Value.handler.value depth).run (before ++ '"' :: (written ++ '"' :: rest)) =
      .ok (.text text, rest) := by
  have hdrop : (before ++ '"' :: (written ++ '"' :: rest)).dropWhile isBlank =
      '"' :: (written ++ '"' :: rest) := dropWhile_isBlank_append hbefore rfl
  have htext : Value.handler.text.run (written ++ '"' :: rest) = .ok (.text text, rest) :=
    run_bind_eq_ok_iff.2 ⟨text, rest, run_body_eq_ok_iff.2 ⟨written, h, rfl⟩, rfl⟩
  cases depth with
  | zero => exact (run_valueWith_text hdrop).trans htext
  | succ depth => exact (run_valueWith_text hdrop).trans htext

/-! ## Members between braces -/

section

variable {written before rest : List Char} {pair : String × String}
  {pairs : List (String × String)}

theorem SpellsMember.run_readMember (h : SpellsMember written pair)
    (hbefore : ∀ c ∈ before, isBlank c) (depth : Nat) (ms : Array (String × Value)) :
    (readMember Value.handler (Value.handler.value depth) ms).run (before ++ (written ++ rest)) =
      .ok (ms.push (pair.1, .text pair.2), rest) := by
  obtain ⟨key, between, after, value, hkey, hbetween, hafter, hvalue, rfl⟩ := h
  refine run_bind_eq_ok_iff.2 ⟨(pair.1, .text pair.2), rest, ?_, rfl⟩
  simp only [List.cons_append, List.append_assoc, List.nil_append]
  exact run_member_eq_ok_iff.2 ⟨_, pair.1, _, _, dropWhile_isBlank_append hbefore rfl,
    run_body_eq_ok_iff.2 ⟨key, hkey, rfl⟩, dropWhile_isBlank_append hbetween rfl,
    run_bind_eq_ok_iff.2 ⟨.text pair.2, rest, run_value_text hafter hvalue depth, rfl⟩⟩

theorem SpellsMember.starts (h : SpellsMember written pair) : Starts written := by
  obtain ⟨key, between, after, value, -, -, -, -, rfl⟩ := h
  exact ⟨'"', _, rfl, by decide⟩

theorem SpellsMembers.listed (h : SpellsMembers written pairs) :
    Listed SpellsMember written pairs := by
  induction h with
  | last hbefore hmember hafter => exact .last hbefore hmember hafter
  | cons hbefore hmember hafter _ ih => exact .cons hbefore hmember hafter ih

/-- What stands between the braces of an object is read from its first
member on. -/
theorem run_items_readMember {inside : List Char}
    (h : (pairs = [] ∧ ∀ c ∈ inside, isBlank c) ∨ SpellsMembers inside pairs) (depth : Nat) :
    (items '\x7d' (readMember Value.handler (Value.handler.value depth)) #[]).run
        (inside ++ '\x7d' :: rest) =
      .ok ((textMembers pairs).toArray, rest) := by
  have hinside : Bracketed SpellsMember inside pairs := h.imp_right SpellsMembers.listed
  rw [hinside.run_items_eq_foldl (.inr rfl) (fun _ _ _ hmember => hmember.starts)
    fun _ _ _ hmember before rest ms hbefore _ => hmember.run_readMember hbefore depth ms]
  simp [textMembers]

/-! ## Documents -/

theorem run_read_object {inside : List Char} (hbefore : ∀ c ∈ before, isBlank c)
    (h : (pairs = [] ∧ ∀ c ∈ inside, isBlank c) ∨ SpellsMembers inside pairs) :
    Value.read.run (before ++ '\x7b' :: (inside ++ '\x7d' :: rest)) =
      .ok (.object (Members.ofList (textMembers pairs)), rest) := by
  show (Value.handler.valueWith (some (Value.handler.value 126))).run _ = _
  rw [run_valueWith_object (dropWhile_isBlank_append hbefore rfl)]
  exact run_bind_eq_ok_iff.2 ⟨_, rest, run_items_readMember h 126, rfl⟩

end

/-- A document is read where a value is and nothing but blanks is left. -/
theorem document_eq_ok_iff {α : Type} {read : Reader α} {document : String} {a : α} :
    Reader.document read document = .ok a ↔
      ∃ rest, read.run document.toList = .ok (a, rest) ∧ ∀ c ∈ rest, isBlank c := by
  have hrun : Reader.document read document = .ok a ↔ ∃ left,
      (do let a ← read; finish; return a : Reader α).run document.toList = .ok (a, left) := by
    unfold Reader.document
    rw [StateT.run'_eq]
    cases (do let a ← read; finish; return a : Reader α).run document.toList with
    | error e => exact iff_of_false (fun h => (by cases h)) fun ⟨_, h⟩ => (by cases h)
    | ok r => simp [Prod.ext_iff]
  rw [hrun]
  simp only [run_bind_eq_ok_iff, run_finish_eq_ok_iff, run_pure_eq_ok_iff]
  constructor
  · intro h
    obtain ⟨left, _, rest, hread, _, _, ⟨hblank, -⟩, rfl, -⟩ := h
    exact ⟨rest, hread, hblank⟩
  · intro ⟨rest, hread, hblank⟩
    exact ⟨[], a, rest, hread, (), [], ⟨hblank, rfl⟩, rfl, rfl⟩

/-- **An object is read with its members in order**, the last of a key in the
place of those before it. -/
theorem HoldsObject.parse {document : String} {pairs : List (String × String)}
    (h : HoldsObject document pairs) :
    Value.parse document = .ok (.object (Members.ofList (textMembers pairs))) ∧
      Members.parse document = .ok (Members.ofList (textMembers pairs)) := by
  obtain ⟨before, inside, after, hbefore, hinside, hafter, hdocument⟩ := h
  constructor
  · refine document_eq_ok_iff.2 ⟨after, ?_, hafter⟩
    rw [hdocument]
    exact run_read_object hbefore hinside
  · refine document_eq_ok_iff.2 ⟨after, ?_, hafter⟩
    have hread : Value.read.run ([] ++ '\x7b' :: (inside ++ '\x7d' :: after)) =
        .ok (.object (Members.ofList (textMembers pairs)), after) :=
      run_read_object (by simp) hinside
    have hpeek : peek.run (document.toList.dropWhile isBlank) =
        .ok (some '\x7b', '\x7b' :: (inside ++ '\x7d' :: after)) := by
      rw [hdocument, dropWhile_isBlank_append hbefore rfl]
      rfl
    unfold membersOr
    refine run_bind_eq_ok_iff.2 ⟨(), _, run_blanks _, run_bind_eq_ok_iff.2 ⟨_, _, hpeek, ?_⟩⟩
    rw [if_pos rfl]
    exact run_bind_eq_ok_iff.2 ⟨_, after, hread, rfl⟩

/-! ## What is written -/

theorem SpellsMember.alone {written : List Char} {pair : String × String}
    (h : SpellsMember written pair) : SpellsMembers written [pair] := by
  have hmembers : SpellsMembers ([] ++ (written ++ [])) [pair] := .last (by simp) h (by simp)
  simpa using hmembers

theorem SpellsMember.cons {written more : List Char} {pair : String × String}
    {pairs : List (String × String)} (h : SpellsMember written pair)
    (hmore : SpellsMembers more pairs) :
    SpellsMembers (written ++ ',' :: more) (pair :: pairs) := by
  have hmembers : SpellsMembers ([] ++ (written ++ ([] ++ ',' :: more))) (pair :: pairs) :=
    .cons (by simp) h (by simp) hmore
  simpa using hmembers

theorem spellsMember_write (pair : String × String) :
    SpellsMember ((Text.write pair.1).toList ++ ':' :: (Text.write pair.2).toList) pair :=
  ⟨_, [], [], _, spells_flatMap_writeChar _, by simp, by simp, spells_flatMap_writeChar _,
    by simp [Text.write]⟩

theorem spellsMembers_memberChars {pairs : List (String × String)} (h : pairs ≠ []) :
    SpellsMembers (Value.memberChars (textMembers pairs)) pairs := by
  induction pairs with
  | nil => exact absurd rfl h
  | cons pair pairs ih =>
    cases pairs with
    | nil => exact (spellsMember_write pair).alone
    | cons next pairs => exact (spellsMember_write pair).cons (ih (by simp))

/-- Any list of pairs is the members of some document. -/
theorem holdsObject_write (pairs : List (String × String)) :
    HoldsObject (Value.object (textMembers pairs)).write pairs := by
  refine ⟨[], Value.memberChars (textMembers pairs), [], by simp, ?_, by simp,
    by simp [Value.write, Value.chars]⟩
  cases pairs with
  | nil => exact .inl ⟨rfl, by simp [textMembers, Value.memberChars]⟩
  | cons pair pairs => exact .inr (spellsMembers_memberChars (by simp))

end TextTemplate.Json
