/-
TextTemplate.Proofs.Offset — a byte offset as the characters before it.

A scan counts bytes, and everything it is compared with is said over
`List Char`. The two views meet here. Wherever a text reads
`before ++ mid ++ after`, the offset `byteLength before` is a place between
two characters, and the four things a scan does at an offset have an answer
in characters:

* `Span.cut?_of_toList` — the cut is `mid`;
* `unitAt?_of_toList` — the byte that is read tells the next character, as
  far as anything the scan asks of it goes (`Alike`);
* `unitAt?_inside` — inside a character that is longer than a byte nothing
  looks like ASCII;
* `locate?_of_toList` — the place on the page depends on `before` alone.
-/
import Mathlib.Data.List.Induction
import Mathlib.Data.List.TakeWhile
import TextTemplate.Identifier
import TextTemplate.SyntaxError
import TextTemplate.Text.Bytes

namespace TextTemplate

/-! ## Counting bytes -/

/-- The bytes that characters take up. -/
def byteLength : List Char → Nat
  | [] => 0
  | c :: cs => c.utf8Size + byteLength cs

@[simp] theorem byteLength_nil : byteLength [] = 0 := rfl

@[simp] theorem byteLength_cons (c : Char) (cs : List Char) :
    byteLength (c :: cs) = c.utf8Size + byteLength cs := rfl

@[simp] theorem byteLength_append (a b : List Char) :
    byteLength (a ++ b) = byteLength a + byteLength b := by
  induction a with
  | nil => simp
  | cons c a ih => simp [ih, Nat.add_assoc]

theorem length_flatMap_utf8EncodeChar (cs : List Char) :
    (cs.flatMap String.utf8EncodeChar).length = byteLength cs := by
  induction cs with
  | nil => rfl
  | cons c cs ih =>
    rw [List.flatMap_cons, List.length_append, ih, String.length_utf8EncodeChar, byteLength_cons]

@[simp] theorem byteLength_toList (text : String) : byteLength text.toList = text.utf8ByteSize := by
  rw [← length_flatMap_utf8EncodeChar, ← length_bytesOf, bytesOf]

@[simp] theorem utf8ByteSize_ofList (cs : List Char) :
    (String.ofList cs).utf8ByteSize = byteLength cs := by
  rw [← byteLength_toList, String.toList_ofList]

theorem byteLength_pos {cs : List Char} (h : cs ≠ []) : 0 < byteLength cs := by
  cases cs with
  | nil => exact absurd rfl h
  | cons c cs =>
    have := c.utf8Size_pos
    rw [byteLength_cons]
    omega

theorem length_le_byteLength (cs : List Char) : cs.length ≤ byteLength cs := by
  induction cs with
  | nil => simp
  | cons c cs ih =>
    have := c.utf8Size_pos
    rw [List.length_cons, byteLength_cons]
    omega

theorem eq_nil_of_byteLength {cs : List Char} (h : byteLength cs = 0) : cs = [] := by
  by_cases hne : cs = []
  · exact hne
  · have := byteLength_pos hne
    omega

/-- As many bytes from the front are the same characters. -/
theorem append_inj_of_byteLength {a b c d : List Char} (h : a ++ b = c ++ d)
    (hlength : byteLength a = byteLength c) : a = c ∧ b = d := by
  induction a generalizing c with
  | nil =>
    obtain rfl := eq_nil_of_byteLength hlength.symm
    exact ⟨rfl, h⟩
  | cons x a ih =>
    cases c with
    | nil => cases eq_nil_of_byteLength hlength
    | cons y c =>
      obtain ⟨rfl, htail⟩ := List.cons.inj h
      rw [byteLength_cons, byteLength_cons, Nat.add_left_cancel_iff] at hlength
      obtain ⟨rfl, rfl⟩ := ih htail hlength
      exact ⟨rfl, rfl⟩

/-- An ASCII text has as many bytes as characters. -/
theorem byteLength_of_ascii {cs : List Char} (h : ∀ c ∈ cs, c.toNat < 0x80) :
    byteLength cs = cs.length := by
  induction cs with
  | nil => rfl
  | cons c cs ih =>
    have hc : c.utf8Size = 1 :=
      Char.utf8Size_eq_one_iff.2 (Nat.le_of_lt_succ (h c List.mem_cons_self))
    rw [byteLength_cons, hc, ih fun d hd => h d (List.mem_cons_of_mem c hd), List.length_cons,
      Nat.add_comm]

/-! ## Cutting -/

theorem Span.cut?_of_toList {text : String} {before mid after : List Char}
    (h : text.toList = before ++ mid ++ after) :
    (Span.mk (byteLength before) (byteLength before + byteLength mid)).cut? text =
      some (String.ofList mid) := by
  have htext : text = String.ofList before ++ String.ofList mid ++ String.ofList after := by
    rw [← String.ofList_append, ← String.ofList_append, ← h, String.ofList_toList]
  have hcut := Span.cut?_append (String.ofList before) (String.ofList mid) (String.ofList after)
  rwa [← htext, utf8ByteSize_ofList, utf8ByteSize_ofList] at hcut

/-- The offset behind some characters stands between two of the text. -/
theorem isValid_of_toList {text : String} {before after : List Char}
    (h : text.toList = before ++ after) : (String.Pos.Raw.mk (byteLength before)).IsValid text := by
  have htext : text = String.ofList before ++ String.ofList after := by
    rw [← String.ofList_append, ← h, String.ofList_toList]
  exact String.Pos.Raw.isValid_iff_exists_append.2
    ⟨String.ofList before, String.ofList after, htext,
      congrArg String.Pos.Raw.mk (utf8ByteSize_ofList before).symm⟩

/-! ## Reading a byte -/

/-- A byte and a character that no ASCII test tells apart: they are the
same, or neither is ASCII. -/
def Alike (unit c : Char) : Prop :=
  unit = c ∨ 0x80 ≤ unit.toNat ∧ 0x80 ≤ c.toNat

namespace Identifier

theorem toNat_lt_of_isContinue {c : Char} (h : isContinue c = true) : c.toNat < 0x80 := by
  have hranges : isContinue c = (decide (c.val ≥ 65 ∧ c.val ≤ 90) ||
      (decide (c.val ≥ 97) && decide (c.val ≤ 122)) ||
      (decide (c.val ≥ 48) && decide (c.val ≤ 57)) || c == '_') := rfl
  simp only [hranges, Bool.or_eq_true, Bool.and_eq_true, decide_eq_true_eq, beq_iff_eq,
    UInt32.le_iff_toNat_le] at h
  rcases h with ((⟨_, h⟩ | ⟨_, h⟩) | ⟨_, h⟩) | rfl
  · exact Nat.lt_of_le_of_lt h (by decide)
  · exact Nat.lt_of_le_of_lt h (by decide)
  · exact Nat.lt_of_le_of_lt h (by decide)
  · decide

theorem isContinue_of_wide {c : Char} (h : 0x80 ≤ c.toNat) : isContinue c = false := by
  cases hc : isContinue c with
  | false => rfl
  | true => exact absurd (toNat_lt_of_isContinue hc) (by omega)

theorem isStart_of_wide {c : Char} (h : 0x80 ≤ c.toNat) : isStart c = false := by
  cases hc : isStart c with
  | false => rfl
  | true => exact absurd (toNat_lt_of_isContinue (isContinue_of_isStart hc)) (by omega)

end Identifier

namespace Alike

theorem isStart_eq {unit c : Char} (h : Alike unit c) :
    Identifier.isStart unit = Identifier.isStart c := by
  rcases h with rfl | ⟨hu, hc⟩
  · rfl
  · rw [Identifier.isStart_of_wide hu, Identifier.isStart_of_wide hc]

theorem isContinue_eq {unit c : Char} (h : Alike unit c) :
    Identifier.isContinue unit = Identifier.isContinue c := by
  rcases h with rfl | ⟨hu, hc⟩
  · rfl
  · rw [Identifier.isContinue_of_wide hu, Identifier.isContinue_of_wide hc]

theorem eq_iff {unit c d : Char} (h : Alike unit c) (hd : d.toNat < 0x80) :
    unit = d ↔ c = d := by
  rcases h with rfl | ⟨hu, hc⟩
  · rfl
  · constructor
    · rintro rfl; omega
    · rintro rfl; omega

end Alike

/-- Bytes of the text from an offset on that stands between characters. -/
theorem unitAt?_add {text : String} {before after : List Char} (h : text.toList = before ++ after)
    (k : Nat) :
    unitAt? text (byteLength before + k) =
      ((after.flatMap String.utf8EncodeChar)[k]?).map Char.ofUInt8 := by
  have hlen := length_flatMap_utf8EncodeChar before
  rw [unitAt?_eq, bytesOf, h, List.flatMap_append,
    List.getElem?_append_right (by omega), hlen, Nat.add_sub_cancel_left]

theorem unitAt?_end {text : String} {before : List Char} (h : text.toList = before) :
    unitAt? text (byteLength before) = none := by
  have hend : text.toList = before ++ [] := by rw [h, List.append_nil]
  have hread := unitAt?_add hend 0
  simpa using hread

/-- What is read in front of a character. -/
theorem unitAt?_of_toList {text : String} {before after : List Char} {c : Char}
    (h : text.toList = before ++ c :: after) :
    ∃ unit, unitAt? text (byteLength before) = some unit ∧ Alike unit c := by
  have hpos := c.utf8Size_pos
  have hlen : 0 < (String.utf8EncodeChar c).length := by rwa [String.length_utf8EncodeChar]
  have hread := unitAt?_add h 0
  rw [Nat.add_zero, List.flatMap_cons, List.getElem?_append_left hlen,
    List.getElem?_eq_getElem hlen, Option.map_some] at hread
  refine ⟨_, hread, ?_⟩
  by_cases hc : c.toNat < 0x80
  · obtain ⟨b, hb, hbc⟩ := utf8EncodeChar_of_ascii hc
    left
    simp [hb, hbc]
  · right
    exact ⟨le_of_mem_utf8EncodeChar (by omega) (List.getElem_mem hlen), by omega⟩

/-- What cannot tell alike characters apart reads the next character. -/
theorem apply_unitAt? {α : Type} {f : Option Char → α}
    (hf : ∀ unit c, Alike unit c → f (some unit) = f (some c)) {text : String}
    {before after : List Char} (h : text.toList = before ++ after) :
    f (unitAt? text (byteLength before)) = f after.head? := by
  cases after with
  | nil => rw [unitAt?_end (by rw [h, List.append_nil])]; rfl
  | cons c after =>
    obtain ⟨unit, hunit, halike⟩ := unitAt?_of_toList h
    rw [hunit, hf unit c halike, List.head?_cons]

/-- An ASCII character is the next one when its byte is. -/
theorem unitAt?_eq_some_iff {text : String} {before after : List Char}
    (h : text.toList = before ++ after) {c : Char} (hc : c.toNat < 0x80) :
    unitAt? text (byteLength before) = some c ↔ after.head? = some c := by
  have hread := apply_unitAt? (f := fun unit => unit = some c)
    (fun unit d halike => by simp [halike.eq_iff hc]) h
  exact iff_of_eq hread

/-- What does not tell alike characters apart is asked of the next one. -/
theorem forall_unitAt?_iff {text : String} {before after : List Char}
    (h : text.toList = before ++ after) {p : Char → Prop}
    (hp : ∀ unit c, Alike unit c → (p unit ↔ p c)) :
    (∀ unit ∈ unitAt? text (byteLength before), p unit) ↔ ∀ c ∈ after.head?, p c := by
  have hread := apply_unitAt? (f := fun unit => ∀ c ∈ unit, p c)
    (fun unit d halike => by simp [hp unit d halike]) h
  exact iff_of_eq hread

/-- What is read inside a character. -/
theorem unitAt?_inside {text : String} {before after : List Char} {c : Char}
    (h : text.toList = before ++ c :: after) {k : Nat} (hk : 0 < k) (hkc : k < c.utf8Size) :
    ∃ unit, unitAt? text (byteLength before + k) = some unit ∧ 0x80 ≤ unit.toNat := by
  have hlen : k < (String.utf8EncodeChar c).length := by rwa [String.length_utf8EncodeChar]
  have hwide : 0x80 ≤ c.toNat := by
    rcases Nat.lt_or_ge c.toNat 0x80 with hc | hc
    · have : c.utf8Size = 1 := Char.utf8Size_eq_one_iff.2 (Nat.le_of_lt_succ hc)
      omega
    · exact hc
  have hread := unitAt?_add h k
  rw [List.flatMap_cons, List.getElem?_append_left hlen, List.getElem?_eq_getElem hlen,
    Option.map_some] at hread
  exact ⟨_, hread, le_of_mem_utf8EncodeChar hwide (List.getElem_mem hlen)⟩

/-! ## Lines and columns -/

/-- The characters behind the last line feed. -/
def lastLine (cs : List Char) : List Char :=
  (cs.reverse.takeWhile (· != '\n')).reverse

@[simp] theorem lastLine_nil : lastLine [] = [] := rfl

theorem lastLine_concat (cs : List Char) (c : Char) :
    lastLine (cs ++ [c]) = if c = '\n' then [] else lastLine cs ++ [c] := by
  by_cases hc : c = '\n' <;> simp [lastLine, hc]

/-- The last line goes back to the characters in front only where none
behind begins a new one. -/
theorem lastLine_append (cs more : List Char) :
    lastLine (cs ++ more) =
      if '\n' ∈ more then lastLine more else lastLine cs ++ lastLine more := by
  induction more using List.reverseRecOn with
  | nil => simp
  | append_singleton more c ih =>
    rw [← List.append_assoc, lastLine_concat, lastLine_concat, ih]
    by_cases hc : c = '\n'
    · simp [hc]
    · by_cases hmore : '\n' ∈ more <;> simp [hc, hmore, Ne.symm hc]

/-- The place behind some characters. -/
def Location.behind (cs : List Char) : Location :=
  ⟨cs.count '\n' + 1, (lastLine cs).length + 1⟩

/-- Characters other than the line feed move the place to the right. -/
theorem Location.behind_append (cs more : List Char) (h : '\n' ∉ more) :
    Location.behind (cs ++ more) =
      ⟨(Location.behind cs).line, (Location.behind cs).column + more.length⟩ := by
  have htake : more.reverse.takeWhile (· != '\n') = more.reverse := by
    refine List.takeWhile_eq_self_iff.2 fun c hc => ?_
    have : c ≠ '\n' := fun he => h (he ▸ List.mem_reverse.1 hc)
    simpa using this
  simp only [Location.behind, lastLine, List.count_append, List.count_eq_zero_of_not_mem h,
    List.reverse_append, List.takeWhile_append, htake]
  simp [Nat.add_comm, Nat.add_left_comm]

/-- `lineStart` finds the byte at which the last line begins. -/
theorem lineStart_eq (text : String) :
    ∃ head, text.toList = head ++ lastLine text.toList ∧ lineStart text = byteLength head := by
  -- the fold carries the offset along; the induction adds a character at the end
  have fold : ∀ cs : List Char, ∃ head, cs = head ++ lastLine cs ∧
      cs.foldl (fun place c => (place.1 + c.utf8Size,
          if c = '\n' then place.1 + c.utf8Size else place.2)) (0, 0) =
        (byteLength cs, byteLength head) := by
    intro cs
    induction cs using List.reverseRecOn with
    | nil => exact ⟨[], rfl, rfl⟩
    | append_singleton cs c ih =>
      obtain ⟨head, hsplit, hfold⟩ := ih
      rw [List.foldl_append, hfold, lastLine_concat]
      by_cases hc : c = '\n'
      · exact ⟨cs ++ [c], by simp [hc], by simp [hc]⟩
      · refine ⟨head, ?_, by simp [hc]⟩
        rw [if_neg hc, ← List.append_assoc, ← hsplit]
  obtain ⟨head, hsplit, hfold⟩ := fold text.toList
  exact ⟨head, hsplit, congrArg Prod.snd hfold⟩

theorem locate?_of_toList {text : String} {before after : List Char}
    (h : text.toList = before ++ after) :
    locate? text (byteLength before) = some (Location.behind before) := by
  have hcut : text.toList = [] ++ before ++ after := h
  have hbefore := Span.cut?_of_toList hcut
  obtain ⟨head, hsplit, hstart⟩ := lineStart_eq (String.ofList before)
  rw [String.toList_ofList] at hsplit
  have hline : Span.cut? ⟨lineStart (String.ofList before), byteLength before⟩
      (String.ofList before) = some (String.ofList (lastLine before)) := by
    have hend : byteLength before = byteLength head + byteLength (lastLine before) := by
      rw [← byteLength_append, ← hsplit]
    have hline : (String.ofList before).toList = head ++ lastLine before ++ [] := by
      rw [String.toList_ofList, List.append_nil, ← hsplit]
    rw [hstart, hend]
    exact Span.cut?_of_toList hline
  simp only [byteLength_nil, Nat.zero_add] at hbefore
  simp [locate?, hbefore, hline, Location.behind]

/-- An error at a place between characters is never in want of a line. -/
theorem SyntaxError.at?_of_toList {source : String} {before read after : List Char}
    (h : source.toList = before ++ read ++ after) (hread : '\n' ∉ read) (kind : Kind)
    (opened : Nat) :
    SyntaxError.at? source kind opened (byteLength before + byteLength read) =
      some ⟨kind, byteLength before + byteLength read, opened, (Location.behind before).line,
        (Location.behind before).column + read.length⟩ := by
  rw [SyntaxError.at?, ← byteLength_append, locate?_of_toList h, Location.behind_append _ _ hread]
  rfl

end TextTemplate
