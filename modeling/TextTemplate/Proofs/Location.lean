/-
TextTemplate.Proofs.Location — line and column lead back to the byte.

A place on the page is for a reader of the source, an offset is what a scan
goes by, and `locate?` makes the first of the second. `Location.offset?` is
the way back. It knows nothing of scans: it splits the text at its line
feeds and counts the bytes of the lines in front of the place, each with its
line feed, and of the characters in front of its column.

The way back ends where the way there began (`Location.offset?_of_locate?`),
so no two offsets have one place, and places come in the order of reading
where offsets do (`Location.lt_of_locate?`). An error is reported with the
place of its position, and errors are over before the next one begins. Both
together are `Template.errors_located`.
-/
import TextTemplate.Proofs.Dollars

namespace TextTemplate

/-! ## Lines -/

/-- The lines of a text, without the line feeds between them. -/
def linesOf (cs : List Char) : List (List Char) :=
  cs.splitOn '\n'

theorem linesOf_ne_nil (cs : List Char) : linesOf cs ≠ [] :=
  List.splitOnP_ne_nil _ _

theorem linesOf_cons (c : Char) (cs : List Char) :
    linesOf (c :: cs) =
      if c = '\n' then [] :: linesOf cs else (linesOf cs).modifyHead (List.cons c) := by
  simp [linesOf, List.splitOn, List.splitOnP_cons_eq_if_modifyHead]

theorem lastLine_cons (c : Char) (cs : List Char) :
    lastLine (c :: cs) = if c = '\n' ∨ '\n' ∈ cs then lastLine cs else c :: lastLine cs := by
  have hone : lastLine [c] = if c = '\n' then [] else [c] := lastLine_concat [] c
  rw [← List.singleton_append, lastLine_append, hone]
  by_cases hc : c = '\n' <;> by_cases hcs : '\n' ∈ cs <;> simp [hc, hcs]

/-- The last line of a front part of a text begins one of its lines, and
what is in front of it are the lines before. -/
theorem exists_line (before after : List Char) :
    ∃ own, (linesOf (before ++ after))[before.count '\n']? = some own ∧
      lastLine before <+: own ∧
      ((linesOf (before ++ after)).take (before.count '\n')).flatMap (· ++ ['\n']) ++
        lastLine before = before := by
  induction before with
  | nil =>
    obtain ⟨own, more, hlines⟩ := List.exists_cons_of_ne_nil (linesOf_ne_nil after)
    exact ⟨own, by simp [hlines], List.nil_prefix, by simp⟩
  | cons c before ih =>
    obtain ⟨own, hown, hlast, hfront⟩ := ih
    rw [List.cons_append, linesOf_cons, lastLine_cons]
    by_cases hc : c = '\n'
    · subst hc
      exact ⟨own, by simpa using hown, by simpa using hlast, by simpa using hfront⟩
    · obtain ⟨line, more, hlines⟩ := List.exists_cons_of_ne_nil (linesOf_ne_nil (before ++ after))
      have hcount : (c :: before).count '\n' = before.count '\n' := List.count_cons_of_ne hc
      rw [hlines] at hown hfront
      rw [hcount, if_neg hc, hlines, List.modifyHead_cons]
      by_cases hbefore : '\n' ∈ before
      · -- the line is none of the first, which is the one that `c` is put in front of
        obtain ⟨n, hn⟩ := Nat.exists_eq_add_of_lt (List.count_pos_iff.2 hbefore)
        rw [Nat.zero_add] at hn
        rw [hn] at hown hfront ⊢
        exact ⟨own, by simpa using hown, by simpa [hbefore] using hlast,
          by simpa [hbefore] using hfront⟩
      · rw [List.count_eq_zero_of_not_mem hbefore] at hown hfront ⊢
        obtain rfl : line = own := by simpa using hown
        exact ⟨c :: line, by simp, by simpa [hc, hbefore] using hlast,
          by simpa [hc, hbefore] using hfront⟩

/-! ## From a place to its byte -/

namespace Location

/-- The byte offset of a place in a text: the lines in front of its line,
with the line feed behind each, and the characters in front of its column.
None if there is no such line or the line has no such column. -/
def offset? (text : String) : Location → Option Nat
  | ⟨line + 1, column + 1⟩ =>
    match (linesOf text.toList)[line]? with
    | none => none
    | some own =>
      if column ≤ own.length then
        some (byteLength (((linesOf text.toList).take line).flatMap (· ++ ['\n'])) +
          byteLength (own.take column))
      else
        none
  | _ => none

/-- Places in the order of reading. -/
instance : LT Location where
  lt a b := a.line < b.line ∨ a.line = b.line ∧ a.column < b.column

theorem lt_iff {a b : Location} :
    a < b ↔ a.line < b.line ∨ a.line = b.line ∧ a.column < b.column :=
  Iff.rfl

theorem lt_irrefl (a : Location) : ¬ a < a := by
  simp [lt_iff]

theorem offset?_behind {text : String} {before after : List Char}
    (h : text.toList = before ++ after) : (behind before).offset? text = some (byteLength before) := by
  obtain ⟨own, hown, hlast, hfront⟩ := exists_line before after
  have htake : own.take (lastLine before).length = lastLine before :=
    (List.prefix_iff_eq_take.1 hlast).symm
  rw [behind, offset?, h, hown]
  simp only
  rw [if_pos hlast.length_le, htake, ← byteLength_append, hfront]

theorem behind_lt_behind (before : List Char) {more : List Char} (h : more ≠ []) :
    behind before < behind (before ++ more) := by
  rw [lt_iff]
  by_cases hmore : '\n' ∈ more
  · left
    have := List.count_pos_iff.2 hmore
    simp [behind]
    omega
  · right
    have := List.length_pos_iff.2 h
    rw [behind_append before more hmore]
    simp
    omega

end Location

/-- Only an offset between characters has a place. -/
theorem exists_of_locate? {text : String} {offset : Nat} {place : Location}
    (h : locate? text offset = some place) :
    ∃ before after, text.toList = before ++ after ∧ offset = byteLength before ∧
      place = Location.behind before := by
  obtain ⟨front, hcut, -⟩ := Option.bind_eq_some_iff.1 h
  obtain ⟨empty, after, rfl, hspan⟩ := Span.cut?_eq_some_iff.1 hcut
  have hsource : (empty ++ front ++ after).toList = (empty ++ front).toList ++ after.toList := by
    simp
  have hoffset : offset = byteLength (empty ++ front).toList := by
    rw [byteLength_toList, String.utf8ByteSize_append]
    exact congrArg Span.stop hspan
  refine ⟨_, _, hsource, hoffset, ?_⟩
  rw [hoffset, locate?_of_toList hsource] at h
  exact (Option.some.inj h).symm

/-- **The way back**: a place leads to the offset whose place it is. -/
theorem Location.offset?_of_locate? {text : String} {offset : Nat} {place : Location}
    (h : locate? text offset = some place) : place.offset? text = some offset := by
  obtain ⟨before, after, htext, rfl, rfl⟩ := exists_of_locate? h
  exact offset?_behind htext

/-- Places come in the order of their offsets. -/
theorem Location.lt_of_locate? {text : String} {offset offset' : Nat} {place place' : Location}
    (h : locate? text offset = some place) (h' : locate? text offset' = some place')
    (hlt : offset < offset') : place < place' := by
  obtain ⟨before, after, htext, rfl, rfl⟩ := exists_of_locate? h
  obtain ⟨before', after', htext', rfl, rfl⟩ := exists_of_locate? h'
  rw [htext] at htext'
  rcases List.append_eq_append_iff.1 htext' with ⟨more, rfl, -⟩ | ⟨more, rfl, -⟩
  · refine behind_lt_behind before ?_
    intro hmore
    simp [hmore] at hlt
  · rw [byteLength_append] at hlt
    omega

/-! ## Errors -/

namespace SyntaxError

/-- Where the error is reported. -/
def place (e : SyntaxError) : Location :=
  ⟨e.line, e.column⟩

theorem locate?_of_at? {source : String} {kind : Kind} {opened position : Nat} {e : SyntaxError}
    (h : at? source kind opened position = some e) :
    locate? source e.position = some e.place := by
  obtain ⟨place, hplace, he⟩ := Option.bind_eq_some_iff.1 h
  obtain rfl := Option.some.inj he
  exact hplace

end SyntaxError

namespace Template

/-- An error is reported with the place of its position. -/
theorem locate?_of_mem_errors {source : String} {e : SyntaxError}
    (he : e ∈ (salvage source).errors) : locate? source e.position = some e.place := by
  obtain ⟨_, _, _, _, -, -, -, -, hat⟩ := exists_begins_of_mem_errors he
  exact SyntaxError.locate?_of_at? hat

/-- Errors come in the order of reading. -/
theorem pairwise_place_errors (source : String) :
    (salvage source).errors.Pairwise fun e f => e.place < f.place := by
  refine (pairwise_errors source).imp_of_mem ?_
  intro e f he hf hover
  have hbehind := opened_lt_position hf
  exact Location.lt_of_locate? (locate?_of_mem_errors he) (locate?_of_mem_errors hf) (by omega)

/-- **Errors can be found again**: the dollar sign and the byte that broke a
placeholder stand between characters of the source, the first in front of the
second, and from the line and the column alone the second is got back. So no
two errors share a place, and they are listed in the order of reading. -/
theorem errors_located (source : String) :
    (∀ e, parse source = .error e ∨ e ∈ (salvage source).errors →
      e.opened < e.position ∧ e.position ≤ source.utf8ByteSize ∧
        (String.Pos.Raw.mk e.opened).IsValid source ∧
        (String.Pos.Raw.mk e.position).IsValid source ∧
        e.place.offset? source = some e.position) ∧
    (salvage source).errors.Pairwise (fun e f => e.place < f.place) ∧
    ((salvage source).errors.map SyntaxError.place).Nodup := by
  have horder := pairwise_place_errors source
  refine ⟨?single, horder, ?distinct⟩
  case single =>
    intro e h
    have he : e ∈ (salvage source).errors := by
      cases h with
      | inr he => exact he
      | inl hparse =>
        rw [parse_eq_salvage] at hparse
        cases herrors : (salvage source).errors with
        | nil => simp [herrors] at hparse
        | cons first rest => simp_all
    obtain ⟨front, after, _, _, hfront, -, hopened, -, -⟩ := exists_begins_of_mem_errors he
    have hplace := locate?_of_mem_errors he
    obtain ⟨before, rest, hbefore, hposition, -⟩ := exists_of_locate? hplace
    have hvalid : (String.Pos.Raw.mk e.position).IsValid source :=
      hposition ▸ isValid_of_toList hbefore
    exact ⟨opened_lt_position he, hvalid.le_utf8ByteSize, hopened ▸ isValid_of_toList hfront,
      hvalid, Location.offset?_of_locate? hplace⟩
  case distinct =>
    rw [List.Nodup, List.pairwise_map]
    refine horder.imp ?_
    intro e f hlt heq
    rw [heq] at hlt
    exact Location.lt_irrefl _ hlt

/-- Behind wide characters, at a line feed, on an empty line and at the end. -/
theorem errors_located_lines :
    (salvage "é$\n\nü $\x7b😀\n$\x7bab").errors.map SyntaxError.place =
        [⟨1, 3⟩, ⟨3, 5⟩, ⟨4, 5⟩] ∧
      (Location.mk 1 3).offset? "é$\n\nü $\x7b😀\n$\x7bab" = some 3 ∧
      (Location.mk 3 5).offset? "é$\n\nü $\x7b😀\n$\x7bab" = some 10 ∧
      (Location.mk 4 5).offset? "é$\n\nü $\x7b😀\n$\x7bab" = some 19 := by
  obtain ⟨hsingle, -, -⟩ := errors_located "é$\n\nü $\x7b😀\n$\x7bab"
  refine ⟨by decide +kernel, ?_, ?_, ?_⟩
  · exact (hsingle ⟨.invalidPlaceholder, 3, 2, 1, 3⟩ (.inr (by decide +kernel))).2.2.2.2
  · exact (hsingle ⟨.invalidPlaceholder, 10, 8, 3, 5⟩ (.inr (by decide +kernel))).2.2.2.2
  · exact (hsingle ⟨.unterminatedBrace, 19, 15, 4, 5⟩ (.inr (by decide +kernel))).2.2.2.2

end Template

end TextTemplate
