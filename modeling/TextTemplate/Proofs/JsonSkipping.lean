/-
TextTemplate.Proofs.JsonSkipping — all of JSON can be passed over.

A member that is not looked at may hold any value whatever, as deep as it
likes. What is needed of its reader is only that it takes the value off up to
the end and no further (`IsValue.passes`); then what stands behind it is read
as if it were not there. With that the front of a document is one value at
most (`IsValue.unique`), so no two readers that take values off can disagree
about where one ends.

Each part of the grammar has one lemma, in the order of the definitions. Only
success is shown: that there are no other values than those of the grammar is
not needed here.
-/
import TextTemplate.Proofs.JsonObject

namespace TextTemplate.Json

open Reader Text

/-- The reader takes a value off, and the blanks in front of it. -/
def Passes (reader : Reader Unit) (written : List Char) : Prop :=
  ∀ before rest, (∀ c ∈ before, isBlank c) → Follows rest →
    reader.run (before ++ (written ++ rest)) = .ok ((), rest)

/-- The values that are words. -/
def Handler.words {κ α : Type} (handler : Handler κ α) : List (List Char × α) :=
  [(['n', 'u', 'l', 'l'], handler.null), (['t', 'r', 'u', 'e'], handler.boolean true),
    (['f', 'a', 'l', 's', 'e'], handler.boolean false)]

theorem exists_run_bind {α β : Type} {first : Reader α} {after : α → Reader β}
    {cs between rest : List Char} {a : α} (h : first.run cs = .ok (a, between))
    (hafter : ∃ b, (after a).run between = .ok (b, rest)) :
    ∃ b, (first >>= after).run cs = .ok (b, rest) := by
  rw [run_bind_of_ok h]
  exact hafter

/-! ## Passing over strings -/

section

variable {c : Char} {cs before written rest behind : List Char}

theorem run_anyUnit_eq_ok_iff :
    anyUnit.run cs = .ok (c, rest) ↔
      c = Lossy.replacement ∧ ∃ digits n, IsCodeUnit digits n ∧ cs = digits ++ rest := by
  rw [anyUnit, run_bind_eq_ok_iff]
  simp only [run_codeUnit_eq_ok_iff, run_pure_eq_ok_iff]
  constructor
  · intro ⟨n, between, ⟨digits, hunit, hcs⟩, hc, hrest⟩
    exact ⟨hc.symm, digits, n, hunit, hrest ▸ hcs⟩
  · intro ⟨hc, digits, n, hunit, hcs⟩
    exact ⟨n, rest, ⟨digits, hunit, hcs⟩, hc.symm, rfl⟩

theorem advances_bodyStep_anyUnit : Advances (bodyStep anyUnit) := by
  intro text cs text' rest h
  simp only [run_bodyStep_eq_ok_iff, run_escape_eq_ok_iff, run_anyUnit_eq_ok_iff, reduceCtorEq,
    false_and, false_or] at h
  obtain ⟨_, _, ⟨-, -, -, rfl⟩ | ⟨_, rfl, ⟨_, -, rfl⟩ | ⟨_, rfl, -, _, _, -, rfl⟩⟩⟩ := h
  · simp
  · simp only [List.length_cons]
    omega
  · simp only [List.length_cons, List.length_append]
    omega

theorem IsBody.exists_repeats (h : IsBody written) (text : String) :
    ∃ text', Repeats (bodyStep anyUnit) text' rest text (written ++ '"' :: rest) := by
  have hturn {cs between : List Char} {c : Char} (text : String)
      (hescape : (escape anyUnit).run cs = .ok (c, between)) :
      (bodyStep anyUnit text).run ('\\' :: cs) = .ok (.inl (text.push c), between) :=
    run_bodyStep_eq_ok_iff.2 (.inr ⟨c, rfl, .inr ⟨cs, rfl, hescape⟩⟩)
  induction h generalizing text with
  | nil => exact ⟨text, .last (run_bodyStep_inr_iff.2 ⟨rfl, rfl⟩)⟩
  | @plain c _ hcontrol hquote hback _ ih =>
    obtain ⟨text', hrepeats⟩ := ih (text.push c)
    exact ⟨text', .turn (run_bodyStep_eq_ok_iff.2
      (.inr ⟨c, rfl, .inl ⟨hcontrol, hquote, hback, rfl⟩⟩)) hrepeats⟩
  | @short key c _ hkey _ ih =>
    obtain ⟨text', hrepeats⟩ := ih (text.push c)
    exact ⟨text', .turn (hturn text (run_escape_eq_ok_iff.2 (.inl ⟨key, hkey, rfl⟩))) hrepeats⟩
  | @unicode digits more n hdigits _ ih =>
    obtain ⟨text', hrepeats⟩ := ih (text.push Lossy.replacement)
    have hunit : anyUnit.run (digits ++ more ++ '"' :: rest) =
        .ok (Lossy.replacement, more ++ '"' :: rest) :=
      run_anyUnit_eq_ok_iff.2 ⟨rfl, digits, n, hdigits, List.append_assoc ..⟩
    exact ⟨text', .turn (hturn text (run_escape_eq_ok_iff.2 (.inr ⟨_, rfl, hunit⟩))) hrepeats⟩

/-- What stands in quotes is passed over, and is a key where one is wanted. -/
theorem IsBody.run_text (h : IsBody written) :
    skipHandler.text.run (written ++ '"' :: rest) = .ok ((), rest) := by
  obtain ⟨text, hrepeats⟩ := h.exists_repeats ""
  exact run_bind_eq_ok_iff.2
    ⟨text, rest, (run_iterate_eq_ok_iff advances_bodyStep_anyUnit).2 hrepeats, rfl⟩

/-! ## Passing over numbers -/

theorem IsDigits.run_someDigits (h : IsDigits written) (hrest : ∀ c ∈ rest.head?, ¬c.isDigit)
    (atEnd : Error) :
    (Numeral.someDigits atEnd).run (written ++ rest) = .ok (written.map Numeral.digit, rest) := by
  obtain ⟨hne, hdigits⟩ := h
  have hbehind : rest.takeWhile Char.isDigit = [] ∧ rest.dropWhile Char.isDigit = rest := by
    cases rest with
    | nil => exact ⟨rfl, rfl⟩
    | cons c rest =>
      have hc := hrest c rfl
      exact ⟨List.takeWhile_cons_of_neg hc, List.dropWhile_cons_of_neg hc⟩
  cases written with
  | nil => exact absurd rfl hne
  | cons c written =>
    refine run_bind_eq_ok_iff.2 ⟨some c, _, rfl, ?_⟩
    show (if c.isDigit then Numeral.digits else throw .malformed : Reader _).run _ = _
    rw [if_pos (hdigits c List.mem_cons_self)]
    refine run_bind_eq_ok_iff.2 ⟨c :: written, rest, ?_, rfl⟩
    rw [run_takeWhile, List.takeWhile_append_of_pos hdigits, List.dropWhile_append_of_pos hdigits,
      hbehind.1, hbehind.2, List.append_nil]

theorem ne_of_isDigit {d : Char} (hc : c.isDigit) (hd : d.isDigit = false) : c ≠ d := by
  rintro rfl
  rw [hc] at hd
  cases hd

theorem IsDigits.exists_cons (h : IsDigits written) :
    ∃ c more, written = c :: more ∧ c.isDigit := by
  cases written with
  | nil => exact absurd rfl h.1
  | cons c more => exact ⟨c, more, rfl, h.2 c List.mem_cons_self⟩

theorem eq_of_digit_eq_zero (hc : c.isDigit) (h : Numeral.digit c = 0) : c = '0' := by
  simp only [Char.isDigit, Bool.and_eq_true, decide_eq_true_eq] at hc
  have hle : 48 ≤ c.toNat := hc.1
  have hsub : c.toNat - 48 = 0 := h
  rw [← Char.ofNat_toNat c, show c.toNat = 48 by omega]

theorem IsWhole.isDigits (h : IsWhole written) : IsDigits written := by
  rcases h with rfl | ⟨h, -⟩
  · exact ⟨by simp, List.forall_mem_singleton.2 rfl⟩
  · exact h

theorem IsWhole.exists_run (h : IsWhole written) (hrest : ∀ c ∈ rest.head?, ¬c.isDigit)
    (atEnd : Error) : ∃ ds, (Numeral.wholePart atEnd).run (written ++ rest) = .ok (ds, rest) := by
  refine exists_run_bind (h.isDigits.run_someDigits hrest atEnd) ?_
  split
  · next hzero =>
    exfalso
    rcases h with rfl | ⟨hdigits, hhead⟩
    · simp at hzero
    · obtain ⟨c, _, rfl, hc, -⟩ := List.map_eq_cons_iff.1 hzero
      exact hhead (congrArg some (eq_of_digit_eq_zero (hdigits.2 c List.mem_cons_self) hc))
  · exact ⟨_, rfl⟩

theorem IsFraction.exists_run (h : IsFraction written)
    (hrest : ∀ c ∈ rest.head?, ¬c.isDigit ∧ c ≠ '.') (atEnd : Error) :
    ∃ ds, (Numeral.fractionPart atEnd).run (written ++ rest) = .ok (ds, rest) := by
  rcases h with rfl | ⟨digits, hdigits, rfl⟩
  · have hnone : ¬rest.head? = some '.' := fun hpoint => (hrest _ hpoint).2 rfl
    refine exists_run_bind (run_peek _) ?_
    rw [List.nil_append, if_neg hnone]
    exact ⟨[], rfl⟩
  · refine exists_run_bind (run_peek _) ?_
    rw [List.cons_append, List.head?_cons, if_pos rfl]
    exact exists_run_bind (run_skip _)
      ⟨_, hdigits.run_someDigits (fun c hc => (hrest c hc).1) atEnd⟩

theorem IsDigits.head?_append_ne {d : Char} (h : IsDigits written) (hd : d.isDigit = false) :
    (written ++ rest).head? ≠ some d := by
  obtain ⟨c, more, rfl, hc⟩ := h.exists_cons
  exact fun hhead => ne_of_isDigit hc hd (Option.some.inj hhead)

theorem IsExponent.exists_run (h : IsExponent written)
    (hrest : ∀ c ∈ rest.head?, ¬c.isDigit ∧ c ≠ 'e' ∧ c ≠ 'E') (atEnd : Error) :
    ∃ n, (Numeral.exponentPart atEnd).run (written ++ rest) = .ok (n, rest) := by
  rcases h with rfl | ⟨mark, sign, digits, hmark, hsign, hdigits, rfl⟩
  · have hnone : ¬(rest.head? = some 'e' ∨ rest.head? = some 'E') := by
      rintro (he | he)
      · exact (hrest _ he).2.1 rfl
      · exact (hrest _ he).2.2 rfl
    refine exists_run_bind (run_peek _) ?_
    rw [List.nil_append, if_neg hnone]
    exact ⟨none, rfl⟩
  · have hsome := hdigits.run_someDigits (fun c hc => (hrest c hc).1) atEnd
    refine exists_run_bind (run_peek _) ?_
    rw [List.cons_append, List.head?_cons, if_pos (by simpa using hmark), List.append_assoc]
    refine exists_run_bind (run_skip _) (exists_run_bind (run_peek _) ?_)
    rcases hsign with rfl | rfl | rfl
    · have hnone : ¬((digits ++ rest).head? = some '+' ∨ (digits ++ rest).head? = some '-') := by
        rintro (h | h)
        · exact hdigits.head?_append_ne rfl h
        · exact hdigits.head?_append_ne rfl h
      rw [List.tail_cons, List.nil_append]
      simp only [if_neg hnone]
      exact exists_run_bind hsome ⟨_, rfl⟩
    · exact exists_run_bind (run_skip _) (exists_run_bind hsome ⟨_, rfl⟩)
    · exact exists_run_bind (run_skip _) (exists_run_bind hsome ⟨_, rfl⟩)

/-- Behind a value the number is at its end. -/
theorem Follows.ends (h : Follows rest) :
    ∀ c ∈ rest.head?, ¬c.isDigit ∧ c ≠ '.' ∧ c ≠ 'e' ∧ c ≠ 'E' := by
  intro c hc
  rcases h c hc with hblank | rfl | rfl | rfl
  · simp only [isBlank, Bool.or_eq_true, beq_iff_eq] at hblank
    rcases hblank with ((rfl | rfl) | rfl) | rfl <;> decide
  · decide
  · decide
  · decide

theorem IsNumeral.exists_run (h : IsNumeral written) (hrest : Follows rest) (atEnd : Error) :
    ∃ n, (Numeral.read atEnd).run (written ++ rest) = .ok (n, rest) := by
  obtain ⟨sign, whole, fraction, exponent, hsign, hwhole, hfraction, hexponent, rfl⟩ := h
  have hends := hrest.ends
  have hbehind : ∀ c ∈ (exponent ++ rest).head?, ¬c.isDigit ∧ c ≠ '.' := by
    intro c hc
    rcases hexponent with rfl | ⟨mark, _, _, hmark, -, -, rfl⟩
    · exact ⟨(hends c hc).1, (hends c hc).2.1⟩
    · obtain rfl := Option.some.inj hc
      rcases hmark with rfl | rfl <;> decide
  have hpoint : ∀ c ∈ (fraction ++ (exponent ++ rest)).head?, ¬c.isDigit := by
    intro c hc
    rcases hfraction with rfl | ⟨_, -, rfl⟩
    · exact (hbehind c hc).1
    · obtain rfl := Option.some.inj hc
      decide
  obtain ⟨_, hwhole'⟩ := hwhole.exists_run hpoint atEnd
  obtain ⟨_, hfraction'⟩ := hfraction.exists_run hbehind atEnd
  obtain ⟨_, hexponent'⟩ :=
    hexponent.exists_run (fun c hc => ⟨(hends c hc).1, (hends c hc).2.2⟩) atEnd
  simp only [List.append_assoc]
  refine exists_run_bind (run_peek _) ?_
  rcases hsign with rfl | rfl
  · have hnone : ¬(whole ++ (fraction ++ (exponent ++ rest))).head? = some '-' :=
      hwhole.isDigits.head?_append_ne rfl
    simp only [List.nil_append, hnone, decide_false, if_false]
    exact exists_run_bind hwhole' (exists_run_bind hfraction' (exists_run_bind hexponent' ⟨_, rfl⟩))
  · refine exists_run_bind (run_skip _) ?_
    exact exists_run_bind hwhole' (exists_run_bind hfraction' (exists_run_bind hexponent' ⟨_, rfl⟩))

/-! ## Passing over values -/

theorem IsNumeral.exists_cons (h : IsNumeral written) :
    ∃ c more, written = c :: more ∧ (c = '-' ∨ c.isDigit) := by
  obtain ⟨sign, whole, fraction, exponent, hsign, hwhole, -, -, rfl⟩ := h
  obtain ⟨c, more, rfl, hc⟩ := hwhole.isDigits.exists_cons
  rcases hsign with rfl | rfl
  · exact ⟨c, _, rfl, .inr hc⟩
  · exact ⟨'-', _, rfl, .inl rfl⟩

theorem starts_of_numeral (hc : c = '-' ∨ c.isDigit) :
    isBlank c = false ∧ c ≠ ']' ∧ c ≠ '\x7d' := by
  rcases hc with rfl | hc
  · decide
  · simp [isBlank, ne_of_isDigit hc]

theorem IsValue.starts (h : IsValue written) : Starts written := by
  cases h with
  | number hnumeral =>
    obtain ⟨c, more, rfl, hc⟩ := hnumeral.exists_cons
    exact ⟨c, more, rfl, starts_of_numeral hc⟩
  | _ => exact ⟨_, _, rfl, by decide⟩

section

variable {κ α : Type} {handler : Handler κ α} {inner : Option (Reader α)}

theorem dropWhile_isBlank_word {a : α} (hword : (written, a) ∈ handler.words)
    (hbefore : ∀ c ∈ before, isBlank c) :
    (before ++ (written ++ rest)).dropWhile isBlank = written ++ rest := by
  simp only [Handler.words, List.mem_cons, Prod.mk.injEq, List.not_mem_nil, or_false] at hword
  obtain ⟨rfl, -⟩ | ⟨rfl, -⟩ | ⟨rfl, -⟩ := hword
  all_goals exact dropWhile_isBlank_append hbefore rfl

theorem run_valueWith_word {a : α} (hword : (written, a) ∈ handler.words)
    (h : cs.dropWhile isBlank = written ++ rest) :
    (handler.valueWith inner).run cs = .ok (a, rest) := by
  unfold Handler.valueWith
  rw [run_bind_of_ok (run_blanks cs), h]
  simp only [Handler.words, List.mem_cons, Prod.mk.injEq, List.not_mem_nil, or_false] at hword
  obtain ⟨rfl, rfl⟩ | ⟨rfl, rfl⟩ | ⟨rfl, rfl⟩ := hword
  all_goals rfl

theorem run_valueWith_number (h : cs.dropWhile isBlank = c :: behind) (hc : c = '-' ∨ c.isDigit) :
    (handler.valueWith inner).run cs = handler.number.run (c :: behind) := by
  unfold Handler.valueWith
  rw [run_bind_of_ok (run_blanks cs), h, run_bind_of_ok (run_peek _), List.head?_cons]
  split
  case h_8 heq =>
    obtain rfl := Option.some.inj heq
    rw [if_pos (by simpa using hc)]
  -- no other character begins a number
  all_goals
    next heq =>
      cases heq <;> simp at hc

/-- One more item of an array. -/
def readItem (inner : Reader α) (xs : Array α) : Reader (Array α) := do
  return xs.push (← inner)

theorem run_valueWith_array {inner : Reader α} (h : cs.dropWhile isBlank = '[' :: behind) :
    (handler.valueWith (some inner)).run cs =
      (do return handler.array (← items ']' (readItem inner) #[]).toList :
        Reader α).run behind := by
  unfold Handler.valueWith
  rw [run_bind_of_ok (run_blanks cs), h]
  rfl

end

/-! ## Values are passed over -/

theorem Handler.exists_value_eq {κ α : Type} (handler : Handler κ α) (depth : Nat) :
    ∃ inner, handler.value depth = handler.valueWith inner := by
  cases depth with
  | zero => exact ⟨none, rfl⟩
  | succ depth => exact ⟨some (handler.value depth), rfl⟩

theorem Listed.forall_length_le {α : Type} {Item : List Char → α → Prop} {size : α → Nat}
    {as : List α} (h : Listed Item written as)
    (hitem : ∀ written, ∀ a ∈ as, Item written a → size a ≤ written.length) :
    ∀ a ∈ as, size a ≤ written.length := by
  induction h with
  | last _ h _ =>
    have := hitem _ _ (by simp) h
    simp
    omega
  | cons _ h _ _ ih =>
    have := hitem _ _ (by simp) h
    have hmore := ih fun written a ha => hitem written a (List.mem_cons_of_mem _ ha)
    simp only [List.mem_cons, forall_eq_or_imp, List.length_append, List.length_cons]
    exact ⟨by omega, fun a ha => by have := hmore a ha; omega⟩

theorem Bracketed.forall_length_le {α : Type} {Item : List Char → α → Prop} {size : α → Nat}
    {as : List α} (h : Bracketed Item written as)
    (hitem : ∀ written, ∀ a ∈ as, Item written a → size a ≤ written.length) :
    ∀ a ∈ as, size a ≤ written.length := by
  rcases h with ⟨rfl, -⟩ | h
  · simp
  · exact h.forall_length_le hitem

theorem IsMember.starts {κ : Type} {Key : List Char → κ → Prop} {member : κ × List Char}
    (h : IsMember Key written member) : Starts written := by
  obtain ⟨key, between, after, -, -, -, rfl⟩ := h
  exact ⟨'"', _, rfl, by decide⟩

theorem IsMember.length_le {κ : Type} {Key : List Char → κ → Prop} {member : κ × List Char}
    (h : IsMember Key written member) : member.2.length ≤ written.length := by
  obtain ⟨key, between, after, -, -, -, rfl⟩ := h
  simp only [List.length_cons, List.length_append]
  omega

theorem passes_word {inner : Option (Reader Unit)} (hword : (written, ()) ∈ skipHandler.words) :
    Passes (skipHandler.valueWith inner) written := by
  intro before rest hbefore _
  exact run_valueWith_word hword (dropWhile_isBlank_word hword hbefore)

theorem passes_number {inner : Option (Reader Unit)} (h : IsNumeral written) :
    Passes (skipHandler.valueWith inner) written := by
  intro before rest hbefore hrest
  obtain ⟨n, hrun⟩ := h.exists_run hrest .malformed
  obtain ⟨c, more, rfl, hc⟩ := h.exists_cons
  have hdrop : (before ++ (c :: more ++ rest)).dropWhile isBlank = c :: (more ++ rest) :=
    dropWhile_isBlank_append hbefore (starts_of_numeral hc).1
  rw [run_valueWith_number hdrop hc]
  exact run_bind_of_ok hrun

theorem passes_text {inner : Option (Reader Unit)} (h : IsBody written) :
    Passes (skipHandler.valueWith inner) ('"' :: (written ++ ['"'])) := by
  intro before rest hbefore _
  simp only [List.cons_append, List.append_assoc, List.nil_append]
  rw [run_valueWith_text (dropWhile_isBlank_append hbefore rfl)]
  exact h.run_text

theorem passes_array {inner : Reader Unit} {items : List (List Char)}
    (h : Bracketed Eq written items) (hstarts : ∀ item ∈ items, Starts item)
    (hinner : ∀ item ∈ items, Passes inner item) :
    Passes (skipHandler.valueWith (some inner)) ('[' :: (written ++ [']'])) := by
  intro before rest hbefore _
  have hitem : ∀ written, ∀ item ∈ items, written = item → ∀ before rest xs,
      (∀ c ∈ before, isBlank c) → Follows rest →
      (readItem inner xs).run (before ++ (written ++ rest)) = .ok (xs.push (), rest) := by
    rintro _ item hitem rfl before rest xs hbefore hrest
    exact run_bind_of_ok (hinner _ hitem before rest hbefore hrest)
  simp only [List.cons_append, List.append_assoc, List.nil_append]
  rw [run_valueWith_array (dropWhile_isBlank_append hbefore rfl)]
  exact run_bind_of_ok (h.run_items_eq_foldl (.inl rfl)
    (fun _ item hitem heq => heq ▸ hstarts item hitem) hitem)

theorem passes_object {inner : Reader Unit} {members : List (List Char × List Char)}
    (h : Bracketed (IsMember fun key body => key = body ∧ IsBody body) written members)
    (hinner : ∀ member ∈ members, Passes inner member.2) :
    Passes (skipHandler.valueWith (some inner)) ('\x7b' :: (written ++ ['\x7d'])) := by
  intro before rest hbefore _
  have hmember : ∀ written, ∀ member ∈ members,
      IsMember (fun key body => key = body ∧ IsBody body) written member → ∀ before rest ms,
      (∀ c ∈ before, isBlank c) → Follows rest →
      (readMember skipHandler inner ms).run (before ++ (written ++ rest)) =
        .ok (ms.push ((), ()), rest) := by
    rintro _ member hmem ⟨_, between, after, ⟨rfl, hkey⟩, hbetween, hafter, rfl⟩ before rest ms
      hbefore hrest
    have hvalue := hinner member hmem after rest hafter hrest
    refine run_bind_eq_ok_iff.2 ⟨((), ()), rest, ?_, rfl⟩
    simp only [List.cons_append, List.append_assoc]
    exact run_member_eq_ok_iff.2 ⟨_, (), _, _, dropWhile_isBlank_append hbefore rfl,
      hkey.run_text, dropWhile_isBlank_append hbetween rfl, run_bind_of_ok hvalue⟩
  simp only [List.cons_append, List.append_assoc, List.nil_append]
  rw [run_valueWith_object (dropWhile_isBlank_append hbefore rfl)]
  exact run_bind_of_ok (h.run_items_eq_foldl (.inr rfl)
    (fun _ _ _ hmember => hmember.starts) hmember)

/-- Brackets as deep as a value is long are deep enough for it. -/
theorem IsValue.passes_value (h : IsValue written) {depth : Nat}
    (hdepth : written.length ≤ depth) : Passes (skipHandler.value depth) written := by
  obtain ⟨inner, hvalue⟩ := skipHandler.exists_value_eq depth
  -- on the value; what is in brackets is shorter by two
  induction h generalizing depth inner with
  | null =>
    rw [hvalue]
    exact passes_word (by simp [Handler.words])
  | true =>
    rw [hvalue]
    exact passes_word (by simp [Handler.words])
  | false =>
    rw [hvalue]
    exact passes_word (by simp [Handler.words])
  | number h =>
    rw [hvalue]
    exact passes_number h
  | text h =>
    rw [hvalue]
    exact passes_text h
  | array hitems h ih =>
    cases depth with
    | zero => simp at hdepth
    | succ depth =>
      have hlength := h.forall_length_le fun _ _ _ heq => (congrArg List.length heq).ge
      simp only [List.length_cons, List.length_append, List.length_nil] at hdepth
      refine passes_array h (fun item hitem => (hitems item hitem).starts) fun item hitem => ?_
      obtain ⟨inner, hvalue⟩ := skipHandler.exists_value_eq depth
      have := hlength item hitem
      exact ih item hitem (by omega) inner hvalue
  | object _ h ih =>
    cases depth with
    | zero => simp at hdepth
    | succ depth =>
      have hlength := h.forall_length_le fun _ _ _ hmember => hmember.length_le
      simp only [List.length_cons, List.length_append, List.length_nil] at hdepth
      refine passes_object h fun member hmem => ?_
      obtain ⟨inner, hvalue⟩ := skipHandler.exists_value_eq depth
      have := hlength member hmem
      exact ih member hmem (by omega) inner hvalue

/-- **Whatever is a value can be passed over**, up to its end and no further. -/
theorem IsValue.passes (h : IsValue written) : Passes skipValue written := by
  intro before rest hbefore hrest
  refine h.passes_value ?_ before rest hbefore hrest
  simp only [List.length_append]
  omega

/-- The front of a document is one value at most. -/
theorem IsValue.unique {before' written' rest' : List Char} (h : IsValue written)
    (h' : IsValue written') (hbefore : ∀ c ∈ before, isBlank c)
    (hbefore' : ∀ c ∈ before', isBlank c) (hrest : Follows rest) (hrest' : Follows rest')
    (heq : before ++ (written ++ rest) = before' ++ (written' ++ rest')) :
    written = written' ∧ rest = rest' := by
  have hrun := h.passes before rest hbefore hrest
  rw [heq, h'.passes before' rest' hbefore' hrest'] at hrun
  cases hrun
  refine ⟨?_, rfl⟩
  have hdrop := congrArg (List.dropWhile isBlank) heq
  obtain ⟨c, more, rfl, hc, -⟩ := h.starts
  obtain ⟨c', more', rfl, hc', -⟩ := h'.starts
  rw [List.cons_append, List.cons_append, dropWhile_isBlank_append hbefore hc,
    dropWhile_isBlank_append hbefore' hc'] at hdrop
  exact List.append_cancel_right hdrop

end

end TextTemplate.Json
