/-
TextTemplate.Proofs.OptionsDocument — what a document of options comes to.

`HoldsMembers document members` says that a document is an object with these
members, in this order and with repetitions: every key a text in any spelling,
every value any value of JSON. Of all that the options are told by the values
of the members `missing-key` alone (`policyValues`), and by how many there are:
none is the default, one is the policy it writes, and more are refused
(`Options.IsMeant`).

A member takes the policy found so far on to the next (`Options.Finds`). Where
it is not `missing-key` its value is passed over; where it is, the policy's own
reader has to end where passing over would, which it does because what it
accepts is a value and the front of a document is one value at most.
-/
import TextTemplate.Options.Document
import TextTemplate.Proofs.JsonSkipping

namespace TextTemplate

open Json Json.Reader Json.Text

/-! ## Documents of options -/

/-- The ways to write a policy: its word in quotes, or an object of one member
with the word as its key and null. -/
inductive Policy.IsWritten (policy : Policy) : List Char → Prop where
  | word {written : List Char} (h : Spells written policy.word.toList) :
      IsWritten policy ('"' :: (written ++ ['"']))
  | unit {inside : List Char}
      (h : Bracketed (IsMember Spells) inside [(policy.word.toList, ['n', 'u', 'l', 'l'])]) :
      IsWritten policy ('\x7b' :: (inside ++ ['\x7d']))

/-- A document that is an object with these members, in this order and with
repetitions. The values are as they are written. -/
def HoldsMembers (document : String) (members : List (String × List Char)) : Prop :=
  ∃ before inside after, (∀ c ∈ before, isBlank c) ∧
    Bracketed (IsMember fun key (text : String) => Spells key text.toList) inside members ∧
    (∀ member ∈ members, IsValue member.2) ∧ (∀ c ∈ after, isBlank c) ∧
    document.toList = before ++ '\x7b' :: (inside ++ '\x7d' :: after)

namespace Options

/-- The values of the members that say what the policy is. -/
def policyValues (members : List (String × List Char)) : List (List Char) :=
  (members.filter fun member => member.1 = policyKey).map Prod.snd

/-- What options are meant by the values of these members. -/
inductive IsMeant : List (List Char) → Options → Prop where
  | default : IsMeant [] {}
  | policy {written : List Char} {policy : Policy} (h : policy.IsWritten written) :
      IsMeant [written] ⟨policy⟩

/-- What a member does to the policy found so far. -/
def Finds (found : Option Policy) (member : String × List Char) (found' : Option Policy) : Prop :=
  if member.1 = policyKey then
    found = none ∧ ∃ policy : Policy, policy.IsWritten member.2 ∧ found' = some policy
  else found' = found

end Options

/-! ## Reading policies -/

namespace Policy

theorem ofWord?_eq_some_iff {word : String} {policy : Policy} :
    ofWord? word = some policy ↔ word = policy.word := by
  unfold ofWord?
  cases policy <;> (split <;> simp_all [Policy.word])

theorem run_readWord_eq_ok_iff {cs rest : List Char} {policy : Policy} :
    readWord.run cs = .ok (policy, rest) ↔
      ∃ written, Spells written policy.word.toList ∧ cs = written ++ '"' :: rest := by
  unfold readWord
  rw [run_bind_eq_ok_iff]
  simp only [run_body_eq_ok_iff]
  constructor
  · intro ⟨word, between, ⟨written, hspells, hcs⟩, hrun⟩
    split at hrun
    · next hword =>
      cases hrun
      rw [ofWord?_eq_some_iff] at hword
      exact ⟨written, hword ▸ hspells, hcs⟩
    · cases hrun
  · intro ⟨written, hspells, hcs⟩
    refine ⟨policy.word, rest, ⟨written, hspells, hcs⟩, ?_⟩
    rw [ofWord?_eq_some_iff.2 rfl]
    rfl

theorem run_readUnit_eq_ok_iff {word policy : Policy} {cs rest : List Char} :
    (readUnit word).run cs = .ok (policy, rest) ↔
      policy = word ∧ cs.dropWhile isBlank = 'n' :: 'u' :: 'l' :: 'l' :: rest := by
  unfold readUnit
  rw [run_bind_eq_ok_iff]
  simp only [run_nullOr_eq_ok_iff, run_pure_eq_ok_iff]
  constructor
  · intro ⟨_, _, hnull, hpolicy, hrest⟩
    exact ⟨hpolicy.symm, hrest ▸ hnull⟩
  · intro ⟨hpolicy, hnull⟩
    exact ⟨(), rest, hnull, hpolicy.symm, rfl⟩

/-- A policy as the one member of an object. -/
theorem run_unit_eq_ok_iff {policy : Policy} {cs rest : List Char} :
    (member readWord readUnit).run cs = .ok (policy, rest) ↔
      ∃ before written, (∀ c ∈ before, isBlank c) ∧
        IsMember Spells written (policy.word.toList, ['n', 'u', 'l', 'l']) ∧
        cs = before ++ (written ++ rest) := by
  simp only [run_member_eq_ok_iff, run_readWord_eq_ok_iff, run_readUnit_eq_ok_iff,
    dropWhile_isBlank_eq_cons_iff (c := '"') rfl, dropWhile_isBlank_eq_cons_iff (c := ':') rfl,
    dropWhile_isBlank_eq_cons_iff (c := 'n') rfl]
  constructor
  · rintro ⟨_, _, _, _, ⟨before, hbefore, rfl⟩, ⟨key, hkey, rfl⟩, ⟨between, hbetween, rfl⟩, rfl,
      after, hafter, rfl⟩
    exact ⟨before, _, hbefore, ⟨key, between, after, hkey, hbetween, hafter, rfl⟩, by simp⟩
  · rintro ⟨before, _, hbefore, ⟨key, between, after, hkey, hbetween, hafter, rfl⟩, rfl⟩
    exact ⟨_, policy, _, _, ⟨before, hbefore, by simp⟩, ⟨key, hkey, rfl⟩, ⟨between, hbetween, rfl⟩,
      rfl, after, hafter, rfl⟩

/-- What stands behind the opening brace of a policy. -/
theorem run_braced_eq_ok_iff {policy : Policy} {cs rest : List Char} :
    (do
      let policy ← member readWord readUnit
      blanks
      expect '\x7d'
      return policy : Reader Policy).run cs = .ok (policy, rest) ↔
      ∃ inside, Bracketed (IsMember Spells) inside [(policy.word.toList, ['n', 'u', 'l', 'l'])] ∧
        cs = inside ++ '\x7d' :: rest := by
  simp only [run_bind_eq_ok_iff, run_unit_eq_ok_iff, run_expect_eq_ok_iff, run_blanks,
    run_pure_eq_ok_iff, bracketed_singleton_iff]
  constructor
  · rintro ⟨_, between, ⟨before, written, hbefore, hmember, rfl⟩, _, _, hblanks, _, _, hclose, rfl,
      rfl⟩
    cases hblanks
    obtain ⟨after, hafter, rfl⟩ := (dropWhile_isBlank_eq_cons_iff rfl).1 hclose
    exact ⟨_, ⟨before, written, after, hbefore, hmember, hafter, rfl⟩, by simp⟩
  · rintro ⟨_, ⟨before, written, after, hbefore, hmember, hafter, rfl⟩, rfl⟩
    exact ⟨policy, after ++ '\x7d' :: rest, ⟨before, written, hbefore, hmember, by simp⟩,
      (), _, rfl, (), rest, dropWhile_isBlank_append hafter rfl, rfl, rfl⟩

/-- The policy that is read is the one that is written there. -/
theorem run_read_eq_ok_iff {policy : Policy} {cs rest : List Char} :
    read.run cs = .ok (policy, rest) ↔
      ∃ before written, (∀ c ∈ before, isBlank c) ∧ policy.IsWritten written ∧
        cs = before ++ (written ++ rest) := by
  unfold read
  rw [run_bind_of_ok (run_blanks cs), run_bind_of_ok (run_peek _)]
  constructor
  · intro h
    -- the end, a quote, a brace, and what no policy begins with
    split at h
    · cases h
    · next hquote =>
      obtain ⟨behind, hbehind⟩ := List.head?_eq_some_iff.1 hquote
      obtain ⟨before, hbefore, rfl⟩ := (dropWhile_isBlank_eq_cons_iff rfl).1 hbehind
      rw [hbehind, run_bind_of_ok (run_skip _), List.tail_cons, run_readWord_eq_ok_iff] at h
      obtain ⟨written, hspells, rfl⟩ := h
      exact ⟨before, _, hbefore, .word hspells, by simp⟩
    · next hbrace =>
      obtain ⟨behind, hbehind⟩ := List.head?_eq_some_iff.1 hbrace
      obtain ⟨before, hbefore, rfl⟩ := (dropWhile_isBlank_eq_cons_iff rfl).1 hbehind
      rw [hbehind, run_bind_of_ok (run_skip _), List.tail_cons, run_braced_eq_ok_iff] at h
      obtain ⟨inside, hinside, rfl⟩ := h
      exact ⟨before, _, hbefore, .unit hinside, by simp⟩
    · cases h
  · rintro ⟨before, _, hbefore, h, rfl⟩
    cases h with
    | @word written hspells =>
      rw [List.cons_append, List.append_assoc, dropWhile_isBlank_append hbefore rfl]
      exact run_readWord_eq_ok_iff.2 ⟨written, hspells, rfl⟩
    | @unit inside hinside =>
      rw [List.cons_append, List.append_assoc, dropWhile_isBlank_append hbefore rfl]
      exact run_braced_eq_ok_iff.2 ⟨inside, hinside, rfl⟩

/-- What says what the policy is, is a value. -/
theorem IsWritten.isValue {policy : Policy} {written : List Char} (h : policy.IsWritten written) :
    IsValue written := by
  cases h with
  | word hspells => exact .text hspells.isBody
  | unit hinside =>
    obtain ⟨before, _, after, hbefore, hmember, hafter, rfl⟩ :=
      bracketed_singleton_iff.1 hinside
    obtain ⟨key, between, behind, hkey, hbetween, hbehind, rfl⟩ := hmember
    have hmember' : IsMember (fun key body => key = body ∧ IsBody body)
        ('"' :: (key ++ '"' :: (between ++ ':' :: (behind ++ ['n', 'u', 'l', 'l']))))
        (key, ['n', 'u', 'l', 'l']) :=
      ⟨key, between, behind, ⟨rfl, hkey.isBody⟩, hbetween, hbehind, rfl⟩
    exact .object (by simp [IsValue.null])
      (bracketed_singleton_iff.2 ⟨before, _, after, hbefore, hmember', hafter, rfl⟩)

/-- **A document is a policy** where it holds one as it is written, and blanks. -/
theorem ofJson_eq_ok_iff {document : String} {policy : Policy} :
    Policy.ofJson document = .ok policy ↔
      ∃ before written after, (∀ c ∈ before, isBlank c) ∧ policy.IsWritten written ∧
        (∀ c ∈ after, isBlank c) ∧ document.toList = before ++ (written ++ after) := by
  unfold Policy.ofJson
  rw [document_eq_ok_iff]
  simp only [run_read_eq_ok_iff]
  constructor
  · intro ⟨after, ⟨before, written, hbefore, h, hdocument⟩, hafter⟩
    exact ⟨before, written, after, hbefore, h, hafter, hdocument⟩
  · intro ⟨before, written, after, hbefore, h, hafter, hdocument⟩
    exact ⟨after, ⟨before, written, hbefore, h, hdocument⟩, hafter⟩

/-- What is no string is no key, and not one of another type. -/
example : Policy.ofJson "\x7b5:null\x7d" = .error .malformed := by decide +kernel

end Policy

namespace Options

/-! ## Reading members -/

section

variable {found found' : Option Policy} {member : String × List Char}
  {members : List (String × List Char)} {before written rest left cs : List Char} {key : String}

theorem run_readKey_eq_ok_iff {cs rest : List Char} :
    (readKey found).run cs = .ok (key, rest) ↔
      (body character).run cs = .ok (key, rest) ∧ ¬(key = policyKey ∧ found.isSome) := by
  unfold readKey
  rw [run_bind_eq_ok_iff]
  constructor
  · intro ⟨text, between, hbody, hrun⟩
    split at hrun
    · cases hrun
    · next hfresh =>
      cases hrun
      exact ⟨hbody, hfresh⟩
  · intro ⟨hbody, hfresh⟩
    refine ⟨key, rest, hbody, ?_⟩
    rw [if_neg hfresh]
    rfl

/-- The policy's own reader ends where passing over its value would. -/
theorem run_read_some_eq_ok_iff (hvalue : IsValue written) (hbefore : ∀ c ∈ before, isBlank c)
    (hrest : Follows rest) (hleft : Follows left) {policy : Policy} :
    Policy.read.run (before ++ (written ++ rest)) = .ok (policy, left) ↔
      policy.IsWritten written ∧ left = rest := by
  rw [Policy.run_read_eq_ok_iff]
  constructor
  · intro ⟨before', written', hbefore', h, hcs⟩
    obtain ⟨rfl, rfl⟩ := hvalue.unique h.isValue hbefore hbefore' hrest hleft hcs
    exact ⟨h, rfl⟩
  · intro ⟨h, hleft⟩
    exact ⟨before, written, hbefore, h, hleft ▸ rfl⟩

theorem finds_of_eq (h : member.1 = policyKey) :
    Finds found member found' ↔
      found = none ∧ ∃ policy : Policy, policy.IsWritten member.2 ∧ found' = some policy := by
  rw [Finds, if_pos h]

theorem finds_of_ne (h : member.1 ≠ policyKey) : Finds found member found' ↔ found' = found := by
  rw [Finds, if_neg h]

theorem Finds.fresh (h : Finds found member found') : ¬(member.1 = policyKey ∧ found.isSome) := by
  intro ⟨hpolicy, hsome⟩
  obtain ⟨rfl, -⟩ := (finds_of_eq hpolicy).1 h
  cases hsome

/-- Behind the colon the value is the policy or is passed over. -/
theorem run_memberValue_eq_ok_iff (hvalue : IsValue member.2) (hbefore : ∀ c ∈ before, isBlank c)
    (hrest : Follows rest) (hleft : Follows left)
    (hfresh : ¬(member.1 = policyKey ∧ found.isSome)) :
    (if member.1 = policyKey then do
        return some (← Policy.read)
      else do
        skipValue
        return found : Reader (Option Policy)).run (before ++ (member.2 ++ rest)) =
          .ok (found', left) ↔
      Finds found member found' ∧ left = rest := by
  by_cases hpolicy : member.1 = policyKey
  · have hnone : found = none := by simpa [hpolicy] using hfresh
    simp only [if_pos hpolicy, finds_of_eq hpolicy, run_bind_eq_ok_iff, run_pure_eq_ok_iff]
    constructor
    · rintro ⟨policy, _, hread, rfl, rfl⟩
      obtain ⟨hwritten, hend⟩ := (run_read_some_eq_ok_iff hvalue hbefore hrest hleft).1 hread
      exact ⟨⟨hnone, policy, hwritten, rfl⟩, hend⟩
    · rintro ⟨⟨-, policy, hwritten, rfl⟩, hend⟩
      exact ⟨policy, left, (run_read_some_eq_ok_iff hvalue hbefore hrest hleft).2 ⟨hwritten, hend⟩,
        rfl, rfl⟩
  · rw [if_neg hpolicy, finds_of_ne hpolicy,
      run_bind_of_ok (hvalue.passes before rest hbefore hrest), run_pure_eq_ok_iff]
    exact and_congr eq_comm eq_comm

/-- A member is read by what it does to the policy found so far, whatever its
value is. -/
theorem takes_readMember
    (h : IsMember (fun key (text : String) => Spells key text.toList) written member)
    (hvalue : IsValue member.2) : Takes readMember Finds written member := by
  intro before rest found found' left hbefore hrest hleft
  obtain ⟨key, between, after, hkey, hbetween, hafter, rfl⟩ := h
  have hbody : ∀ behind, (body character).run (key ++ '"' :: behind) = .ok (member.1, behind) :=
    fun _ => run_body_eq_ok_iff.2 ⟨key, hkey, rfl⟩
  simp only [List.cons_append, List.append_assoc]
  rw [readMember, run_member_eq_ok_iff]
  constructor
  · intro ⟨_, _, _, _, hquote, hread, hcolon, hrun⟩
    rw [dropWhile_isBlank_append hbefore rfl] at hquote
    cases hquote
    rw [run_readKey_eq_ok_iff, hbody] at hread
    obtain ⟨hread, hfresh⟩ := hread
    cases hread
    rw [dropWhile_isBlank_append hbetween rfl] at hcolon
    cases hcolon
    exact (run_memberValue_eq_ok_iff hvalue hafter hrest hleft hfresh).1 hrun
  · intro h
    exact ⟨_, member.1, _, _, dropWhile_isBlank_append hbefore rfl,
      run_readKey_eq_ok_iff.2 ⟨hbody _, h.1.fresh⟩, dropWhile_isBlank_append hbetween rfl,
      (run_memberValue_eq_ok_iff hvalue hafter hrest hleft h.1.fresh).2 h⟩

/-! ## What is found -/

theorem policyValues_cons_of_eq (h : member.1 = policyKey) :
    policyValues (member :: members) = member.2 :: policyValues members := by
  simp [policyValues, h]

theorem policyValues_cons_of_ne (h : member.1 ≠ policyKey) :
    policyValues (member :: members) = policyValues members := by
  simp [policyValues, h]

/-- Behind a policy there is not to be another. -/
theorem steps_finds_some_iff {policy : Policy} :
    Steps Finds (some policy) members found' ↔
      policyValues members = [] ∧ found' = some policy := by
  induction members with
  | nil => simp [Steps, policyValues]
  | cons member members ih =>
    by_cases h : member.1 = policyKey
    · simp [Steps, finds_of_eq h, policyValues_cons_of_eq h]
    · simp [Steps, finds_of_ne h, policyValues_cons_of_ne h, ih]

theorem steps_finds_none_iff :
    Steps Finds none members found' ↔
      (policyValues members = [] ∧ found' = none) ∨
      ∃ written, ∃ policy : Policy, policyValues members = [written] ∧ policy.IsWritten written ∧
        found' = some policy := by
  induction members with
  | nil => simp [Steps, policyValues]
  | cons member members ih =>
    by_cases h : member.1 = policyKey
    · simp only [Steps, finds_of_eq h, policyValues_cons_of_eq h]
      constructor
      · rintro ⟨_, ⟨-, policy, hwritten, rfl⟩, hsteps⟩
        obtain ⟨hnil, hfound⟩ := steps_finds_some_iff.1 hsteps
        exact .inr ⟨member.2, policy, by rw [hnil], hwritten, hfound⟩
      · rintro (⟨hnil, -⟩ | ⟨_, policy, hvalues, hwritten, hfound⟩)
        · cases hnil
        · obtain ⟨rfl, hnil⟩ := List.cons.inj hvalues
          exact ⟨some policy, ⟨trivial, policy, hwritten, rfl⟩,
            steps_finds_some_iff.2 ⟨hnil, hfound⟩⟩
    · simp [Steps, finds_of_ne h, policyValues_cons_of_ne h, ih]

theorem exists_steps_finds_iff {options : Options} :
    (∃ found, Steps Finds none members found ∧ options = ⟨found.getD .fail⟩) ↔
      IsMeant (policyValues members) options := by
  simp only [steps_finds_none_iff]
  constructor
  · rintro ⟨_, ⟨hnil, rfl⟩ | ⟨written, policy, hvalues, hwritten, rfl⟩, rfl⟩
    · rw [hnil]
      exact .default
    · rw [hvalues]
      exact .policy hwritten
  · intro h
    generalize policyValues members = values at h ⊢
    cases h with
    | default => exact ⟨none, .inl ⟨rfl, rfl⟩, rfl⟩
    | policy hwritten => exact ⟨_, .inr ⟨_, _, rfl, hwritten, rfl⟩, rfl⟩

end

/-! ## Documents -/

section

variable {document : String} {members : List (String × List Char)} {options : Options}

theorem run_read_of_brace {cs behind : List Char} (h : cs.dropWhile isBlank = '\x7b' :: behind) :
    read.run cs =
      (do return ⟨(← items '\x7d' readMember none).getD .fail⟩ : Reader Options).run behind := by
  unfold read
  rw [run_bind_of_ok (run_blanks cs), h]
  rfl

theorem ofJson_eq_ok_iff_document :
    Options.ofJson document = .ok options ↔ Reader.document read document = .ok options := by
  unfold Options.ofJson
  cases Reader.document read document <;> simp [Except.mapError]

/-- An object of options is read, and as what its members say, exactly where
they say something. -/
theorem ofJson_eq_ok_iff (h : HoldsMembers document members) :
    Options.ofJson document = .ok options ↔ IsMeant (policyValues members) options := by
  obtain ⟨before, inside, after, hbefore, hinside, hvalues, hafter, hdocument⟩ := h
  have hitems : ∀ found left, (items '\x7d' readMember none).run (inside ++ '\x7d' :: after) =
      .ok (found, left) ↔ Steps Finds none members found ∧ left = after := fun found left =>
    hinside.run_items_eq_ok_iff (.inr rfl) (fun _ _ _ hmember => hmember.starts)
      fun _ member hmem hmember => takes_readMember hmember (hvalues member hmem)
  have hbrace : document.toList.dropWhile isBlank = '\x7b' :: (inside ++ '\x7d' :: after) := by
    rw [hdocument]
    exact dropWhile_isBlank_append hbefore rfl
  rw [ofJson_eq_ok_iff_document, document_eq_ok_iff, run_read_of_brace hbrace,
    ← exists_steps_finds_iff]
  simp only [run_bind_eq_ok_iff, hitems, run_pure_eq_ok_iff]
  constructor
  · rintro ⟨_, ⟨found, _, ⟨hsteps, rfl⟩, rfl, rfl⟩, -⟩
    exact ⟨found, hsteps, rfl⟩
  · intro ⟨found, hsteps, hoptions⟩
    exact ⟨after, ⟨found, after, ⟨hsteps, rfl⟩, hoptions.symm, rfl⟩, hafter⟩

/-- There are options that are meant where there is one policy at most. -/
theorem exists_isMeant_iff {values : List (List Char)} :
    (∃ options, IsMeant values options) ↔
      values.length ≤ 1 ∧ ∀ written ∈ values, ∃ policy : Policy, policy.IsWritten written := by
  constructor
  · intro ⟨options, h⟩
    cases h with
    | default => simp
    | @policy written policy hwritten => simpa using ⟨policy, hwritten⟩
  · intro ⟨hlength, hwritten⟩
    match values with
    | [] => exact ⟨{}, .default⟩
    | [written] =>
      obtain ⟨policy, h⟩ := hwritten written (by simp)
      exact ⟨⟨policy⟩, .policy h⟩
    | _ :: _ :: _ => simp at hlength

theorem exists_of_ofJson_eq_error {failure : Failure}
    (h : Options.ofJson document = .error failure) : ∃ cause, failure = .options cause := by
  unfold Options.ofJson at h
  cases hread : Reader.document read document with
  | error cause =>
    rw [hread] at h
    cases h
    exact ⟨cause, rfl⟩
  | ok options =>
    rw [hread] at h
    cases h

/-- Any list of members is the members of some document. -/
theorem exists_holdsMembers (h : ∀ member ∈ members, IsValue member.2) :
    ∃ document, HoldsMembers document members := by
  have hitems : ∀ member ∈ members, ∃ written,
      IsMember (fun key (text : String) => Spells key text.toList) written member := fun member _ =>
    ⟨_, member.1.toList.flatMap writeChar, [], [], spells_flatMap_writeChar _, by simp, by simp,
      rfl⟩
  obtain ⟨inside, hinside⟩ := exists_bracketed hitems
  exact ⟨String.ofList ('\x7b' :: (inside ++ ['\x7d'])), [], inside, [], by simp, hinside, h,
    by simp, by simp⟩

/-- **What an object of options comes to is what its members `missing-key`
say**: the default without one, its policy with one whose value is a policy,
and a refusal with any other or with more, even where they agree. Other members
come to nothing, whatever their values are and wherever they stand, and any
members there can be have a document that holds them. -/
theorem options_of_members (h : HoldsMembers document members) :
    (∀ options, Options.ofJson document = .ok options ↔ IsMeant (policyValues members) options) ∧
    ((∃ options, Options.ofJson document = .ok options) ↔
      (policyValues members).length ≤ 1 ∧
        ∀ written ∈ policyValues members, ∃ policy : Policy, policy.IsWritten written) ∧
    (1 < (policyValues members).length →
      ∃ cause, Options.ofJson document = .error (.options cause)) ∧
    (∀ failure, Options.ofJson document = .error failure → ∃ cause, failure = .options cause) ∧
    (∀ other members', HoldsMembers other members' →
      policyValues members' = policyValues members →
        ∀ options, Options.ofJson other = .ok options ↔ Options.ofJson document = .ok options) ∧
    ∀ members', (∀ member ∈ members', IsValue member.2) →
      ∃ other, HoldsMembers other members' := by
  have hmeant : ∀ options, Options.ofJson document = .ok options ↔
      IsMeant (policyValues members) options := fun options => ofJson_eq_ok_iff h
  have hexists : (∃ options, Options.ofJson document = .ok options) ↔
      (policyValues members).length ≤ 1 ∧
        ∀ written ∈ policyValues members, ∃ policy : Policy, policy.IsWritten written := by
    simp only [hmeant]
    exact exists_isMeant_iff
  refine ⟨hmeant, hexists, fun hlength => ?_, fun failure => exists_of_ofJson_eq_error,
    fun other members' hother hvalues options => ?_, fun members' => exists_holdsMembers⟩
  · cases hread : Options.ofJson document with
    | error failure =>
      obtain ⟨cause, rfl⟩ := exists_of_ofJson_eq_error hread
      exact ⟨cause, rfl⟩
    | ok options => exact absurd (hexists.1 ⟨options, hread⟩).1 (Nat.not_le_of_lt hlength)
  · rw [ofJson_eq_ok_iff hother, hvalues, hmeant]

end

/-- Half a pair of surrogates is passed over with the brackets around it, and a
policy may be an object. -/
theorem options_of_members_nested :
    HoldsMembers "\x7b\"a\":[1,\"\\uD800\"],\"missing-key\":\x7b\"leave\":null\x7d\x7d"
        [("a", "[1,\"\\uD800\"]".toList), ("missing-key", "\x7b\"leave\":null\x7d".toList)] ∧
      Options.ofJson
        "\x7b\"a\":[1,\"\\uD800\"],\"missing-key\":\x7b\"leave\":null\x7d\x7d" =
          .ok .lenient := by
  have hone : IsValue "1".toList := .number ⟨[], ['1'], [], [], .inl rfl,
    .inr ⟨⟨by simp, List.forall_mem_singleton.2 rfl⟩, by decide⟩, .inl rfl, .inl rfl, rfl⟩
  have hunit : IsCodeUnit "D800".toList 0xd800 :=
    ⟨13, 8, 0, 0, mapM_hexDigit?_eq_some_iff.1 (by decide), rfl⟩
  have hhalf : IsValue "\"\\uD800\"".toList := .text (.unicode hunit .nil)
  have hinside : Listed Eq ("1".toList ++ ',' :: "\"\\uD800\"".toList)
      ["1".toList, "\"\\uD800\"".toList] := (listed_singleton rfl).cons_comma rfl
  have hitems : IsValue "[1,\"\\uD800\"]".toList :=
    .array (by simpa using ⟨hone, hhalf⟩) (.inr hinside)
  have hkey (key : String) (h : key.toList.all fun c => ' ' ≤ c ∧ c ≠ '"' ∧ c ≠ '\\')
      (written : List Char) : IsMember (fun key (text : String) => Spells key text.toList)
        ('"' :: (key.toList ++ '"' :: ':' :: written)) (key, written) :=
    ⟨key.toList, [], [], spells_self h, by simp, by simp, rfl⟩
  have hleave : Policy.IsWritten .leave "\x7b\"leave\":null\x7d".toList :=
    .unit (.inr (listed_singleton
      ⟨"leave".toList, [], [], spells_self (by decide), by simp, by simp, rfl⟩))
  suffices h : HoldsMembers _ _ from ⟨h, ((options_of_members h).1 _).2 (.policy hleave)⟩
  exact ⟨[], _, [], by simp, .inr ((listed_singleton (hkey _ (by decide) _)).cons_comma
    (hkey _ (by decide) _)), by simpa using ⟨hitems, hleave.isValue⟩, by simp, rfl⟩

end Options

end TextTemplate
