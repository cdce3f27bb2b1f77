/-
TextTemplate.Proofs.LossyText — what becomes of bytes that are read as text.

Reading with replacements never fails, so what is to be said of it is what it
keeps. It keeps every complete text that the bytes begin with, whatever
follows (`decode_bytesOf_append`), and where it had to put in no replacement
it kept everything (`bytesOf_decode`).

Both rest on what is announced by a first byte. `Pending.Completes` says
which bytes complete a character begun and what its code is then; that these
are the bytes of the character (`utf8EncodeChar_of_completes`), and that the
bytes of every character are found so (`exists_completes`), is where the
ranges of the second byte come in: they are what keeps a code from having two
encodings and from being none of a character.
-/
import TextTemplate.Text.Bytes
import TextTemplate.Text.Lossy

namespace TextTemplate.Lossy

/-! ## Completing a character -/

/-- The bytes that complete a character begun, and its code. -/
inductive Pending.Completes : Pending → List UInt8 → Nat → Prop where
  | last {p : Pending} {b : UInt8} {code : Nat} (hleft : p.left = 0) (hlow : p.low ≤ b)
      (hhigh : b ≤ p.high) (hcode : p.extend b = code) : Completes p [b] code
  | more {p : Pending} {b : UInt8} {left : Nat} {rest : List UInt8} {code : Nat}
      (hleft : p.left = left + 1) (hlow : p.low ≤ b) (hhigh : b ≤ p.high)
      (h : Completes ⟨p.extend b, left, 0x80, 0xbf⟩ rest code) : Completes p (b :: rest) code

namespace Pending.Completes

variable {p : Pending} {bytes : List UInt8} {code : Nat}

theorem decodeFrom_append (h : p.Completes bytes code) (rest : List UInt8) :
    decodeFrom (some p) (bytes ++ rest) = Char.ofNat code :: decodeFrom none rest := by
  induction h with
  | last hleft hlow hhigh hcode =>
    rw [List.cons_append, List.nil_append, decodeFrom, if_pos ⟨hlow, hhigh⟩, hleft, ← hcode]
  | more hleft hlow hhigh _ ih =>
    rw [List.cons_append, decodeFrom, if_pos ⟨hlow, hhigh⟩, hleft]
    exact ih

/-- One byte completes a character of which one is to come. -/
theorem zero_iff (hleft : p.left = 0) :
    p.Completes bytes code ↔ ∃ b, bytes = [b] ∧ p.low.toNat ≤ b.toNat ∧ b.toNat ≤ p.high.toNat ∧
      code = p.code * 64 + (b.toNat - 0x80) := by
  simp only [← UInt8.le_iff_toNat_le]
  constructor
  · intro h
    cases h with
    | last _ hlow hhigh hcode => exact ⟨_, rfl, hlow, hhigh, hcode.symm⟩
    | more hmore => exact absurd (hleft.symm.trans hmore) (Nat.zero_ne_add_one _)
  · intro h
    obtain ⟨b, rfl, hlow, hhigh, hcode⟩ := h
    exact .last hleft hlow hhigh hcode.symm

theorem succ_iff {left : Nat} (hleft : p.left = left + 1) :
    p.Completes bytes code ↔ ∃ b rest, bytes = b :: rest ∧ p.low.toNat ≤ b.toNat ∧
      b.toNat ≤ p.high.toNat ∧
      Pending.Completes ⟨p.code * 64 + (b.toNat - 0x80), left, 0x80, 0xbf⟩ rest code := by
  simp only [← UInt8.le_iff_toNat_le]
  constructor
  · intro h
    cases h with
    | last hlast => exact absurd (hlast.symm.trans hleft) (Nat.zero_ne_add_one _)
    | more hmore hlow hhigh h =>
      obtain rfl := Nat.succ.inj (hmore.symm.trans hleft)
      exact ⟨_, _, rfl, hlow, hhigh, h⟩
  · intro h
    obtain ⟨b, rest, rfl, hlow, hhigh, h⟩ := h
    exact .more hleft hlow hhigh h

end Pending.Completes

/-- A character begun is completed or replaced. -/
theorem exists_completes_of_notMem {p : Pending} {bytes : List UInt8}
    (h : replacement ∉ decodeFrom (some p) bytes) :
    ∃ front rest code, bytes = front ++ rest ∧ p.Completes front code := by
  induction bytes generalizing p with
  | nil => exact absurd List.mem_cons_self h
  | cons b bytes ih =>
    rw [decodeFrom] at h
    split at h
    · next hrange =>
      cases hleft : p.left with
      | zero => exact ⟨[b], bytes, _, rfl, .last hleft hrange.1 hrange.2 rfl⟩
      | succ left =>
        rw [hleft] at h
        obtain ⟨front, rest, code, rfl, hcompletes⟩ := ih h
        exact ⟨b :: front, rest, code, rfl, .more hleft hrange.1 hrange.2 hcompletes⟩
    · exact absurd List.mem_cons_self h

/-! ## The first byte -/

/-- The characters of two, three and four bytes begun by a byte of the number
`n`. -/
def pendingTwo (n : Nat) : Pending :=
  ⟨n - 0xc0, 0, 0x80, 0xbf⟩

def pendingThree (n : Nat) : Pending :=
  ⟨n - 0xe0, 1, if n = 0xe0 then 0xa0 else 0x80, if n = 0xed then 0x9f else 0xbf⟩

def pendingFour (n : Nat) : Pending :=
  ⟨n - 0xf0, 2, if n = 0xf0 then 0x90 else 0x80, if n = 0xf4 then 0x8f else 0xbf⟩

theorem pendingThree_low (n : Nat) :
    (pendingThree n).low = if n = 0xe0 then 0xa0 else 0x80 := rfl

theorem pendingThree_high (n : Nat) :
    (pendingThree n).high = if n = 0xed then 0x9f else 0xbf := rfl

theorem pendingFour_low (n : Nat) :
    (pendingFour n).low = if n = 0xf0 then 0x90 else 0x80 := rfl

theorem pendingFour_high (n : Nat) :
    (pendingFour n).high = if n = 0xf4 then 0x8f else 0xbf := rfl

theorem lead_eq (b : UInt8) :
    lead b =
      if b.toNat < 0x80 then .whole (Char.ofUInt8 b)
      else if b.toNat < 0xc2 then .stray
      else if b.toNat < 0xe0 then .opens (pendingTwo b.toNat)
      else if b.toNat < 0xf0 then .opens (pendingThree b.toNat)
      else if b.toNat < 0xf5 then .opens (pendingFour b.toNat)
      else .stray := by
  simp only [lead, UInt8.lt_iff_toNat_lt, ← UInt8.toNat_inj]
  rfl

theorem lead_opens_cases {b : UInt8} {p : Pending} (h : lead b = .opens p) :
    0xc2 ≤ b.toNat ∧ b.toNat < 0xe0 ∧ p = pendingTwo b.toNat ∨
      0xe0 ≤ b.toNat ∧ b.toNat < 0xf0 ∧ p = pendingThree b.toNat ∨
      0xf0 ≤ b.toNat ∧ b.toNat < 0xf5 ∧ p = pendingFour b.toNat := by
  rw [lead_eq] at h
  split at h
  · cases h
  split at h
  · cases h
  split at h
  · exact .inl ⟨by omega, by omega, (Lead.opens.inj h).symm⟩
  split at h
  · exact .inr (.inl ⟨by omega, by omega, (Lead.opens.inj h).symm⟩)
  split at h
  · exact .inr (.inr ⟨by omega, by omega, (Lead.opens.inj h).symm⟩)
  · cases h

theorem lead_two {b : UInt8} (hlow : 0xc2 ≤ b.toNat) (hhigh : b.toNat < 0xe0) :
    lead b = .opens (pendingTwo b.toNat) := by
  rw [lead_eq, if_neg (by omega), if_neg (by omega), if_pos hhigh]

theorem lead_three {b : UInt8} (hlow : 0xe0 ≤ b.toNat) (hhigh : b.toNat < 0xf0) :
    lead b = .opens (pendingThree b.toNat) := by
  rw [lead_eq, if_neg (by omega), if_neg (by omega), if_neg (by omega), if_pos hhigh]

theorem lead_four {b : UInt8} (hlow : 0xf0 ≤ b.toNat) (hhigh : b.toNat < 0xf5) :
    lead b = .opens (pendingFour b.toNat) := by
  rw [lead_eq, if_neg (by omega), if_neg (by omega), if_neg (by omega), if_neg (by omega),
    if_pos hhigh]

/-! ## What completes it -/

theorem le_toNat_ite {p : Prop} [Decidable p] {a b : UInt8} {n : Nat} :
    n ≤ (if p then a else b).toNat ↔ (p → n ≤ a.toNat) ∧ (¬ p → n ≤ b.toNat) := by
  split <;> simp_all

theorem toNat_ite_le {p : Prop} [Decidable p] {a b : UInt8} {n : Nat} :
    (if p then a else b).toNat ≤ n ↔ (p → a.toNat ≤ n) ∧ (¬ p → b.toNat ≤ n) := by
  split <;> simp_all

theorem pendingTwo_completes_iff {n code : Nat} {bytes : List UInt8} :
    (pendingTwo n).Completes bytes code ↔ ∃ c, bytes = [c] ∧ 0x80 ≤ c.toNat ∧ c.toNat ≤ 0xbf ∧
      code = (n - 0xc0) * 64 + (c.toNat - 0x80) :=
  Pending.Completes.zero_iff rfl

/-- The second of three bytes keeps out what has two bytes and surrogates. -/
theorem pendingThree_completes_iff {n code : Nat} {bytes : List UInt8} :
    (pendingThree n).Completes bytes code ↔ ∃ c d, bytes = [c, d] ∧
      ((n = 0xe0 → 0xa0 ≤ c.toNat) ∧ (n ≠ 0xe0 → 0x80 ≤ c.toNat)) ∧
      ((n = 0xed → c.toNat ≤ 0x9f) ∧ (n ≠ 0xed → c.toNat ≤ 0xbf)) ∧
      0x80 ≤ d.toNat ∧ d.toNat ≤ 0xbf ∧
      code = ((n - 0xe0) * 64 + (c.toNat - 0x80)) * 64 + (d.toNat - 0x80) := by
  rw [Pending.Completes.succ_iff rfl]
  simp only [pendingThree_low, pendingThree_high, toNat_ite_le, le_toNat_ite, UInt8.reduceToNat]
  constructor
  · intro h
    obtain ⟨c, _, rfl, hlow, hhigh, hrest⟩ := h
    obtain ⟨d, rfl, hlast⟩ := (Pending.Completes.zero_iff rfl).1 hrest
    exact ⟨c, d, rfl, hlow, hhigh, hlast⟩
  · intro h
    obtain ⟨c, d, rfl, hlow, hhigh, h⟩ := h
    exact ⟨c, _, rfl, hlow, hhigh, (Pending.Completes.zero_iff rfl).2 ⟨d, rfl, h⟩⟩

/-- The second of four bytes keeps out what has three bytes and what is past
the last character. -/
theorem pendingFour_completes_iff {n code : Nat} {bytes : List UInt8} :
    (pendingFour n).Completes bytes code ↔ ∃ c d e, bytes = [c, d, e] ∧
      ((n = 0xf0 → 0x90 ≤ c.toNat) ∧ (n ≠ 0xf0 → 0x80 ≤ c.toNat)) ∧
      ((n = 0xf4 → c.toNat ≤ 0x8f) ∧ (n ≠ 0xf4 → c.toNat ≤ 0xbf)) ∧
      0x80 ≤ d.toNat ∧ d.toNat ≤ 0xbf ∧ 0x80 ≤ e.toNat ∧ e.toNat ≤ 0xbf ∧
      code = (((n - 0xf0) * 64 + (c.toNat - 0x80)) * 64 + (d.toNat - 0x80)) * 64 +
        (e.toNat - 0x80) := by
  rw [Pending.Completes.succ_iff rfl]
  simp only [pendingFour_low, pendingFour_high, toNat_ite_le, le_toNat_ite, UInt8.reduceToNat]
  constructor
  · intro h
    obtain ⟨c, _, rfl, hlow, hhigh, hrest⟩ := h
    obtain ⟨d, _, rfl, hlow', hhigh', hrest'⟩ := (Pending.Completes.succ_iff rfl).1 hrest
    obtain ⟨e, rfl, hlast⟩ := (Pending.Completes.zero_iff rfl).1 hrest'
    exact ⟨c, d, e, rfl, hlow, hhigh, hlow', hhigh', hlast⟩
  · intro h
    obtain ⟨c, d, e, rfl, hlow, hhigh, hlow', hhigh', hlast⟩ := h
    exact ⟨c, _, rfl, hlow, hhigh, (Pending.Completes.succ_iff rfl).2
      ⟨d, _, rfl, hlow', hhigh', (Pending.Completes.zero_iff rfl).2 ⟨e, rfl, hlast⟩⟩⟩

/-! ## The bytes of a character -/

theorem utf8EncodeChar_two {n : Nat} (hlow : 0x80 ≤ n) (hhigh : n ≤ 0x7ff) :
    String.utf8EncodeChar (Char.ofNat n) =
      [UInt8.ofNat (n / 64 + 0xc0), UInt8.ofNat (n % 64 + 0x80)] := by
  have hn : (Char.ofNat n).val.toNat = n := toNat_ofNat_of_isValidChar (.inl (by omega))
  rw [String.utf8EncodeChar, hn, if_neg (by omega), if_pos hhigh,
    Nat.mod_eq_of_lt (a := n / 64) (by omega)]

theorem utf8EncodeChar_three {n : Nat} (hvalid : n.isValidChar) (hlow : 0x800 ≤ n)
    (hhigh : n ≤ 0xffff) :
    String.utf8EncodeChar (Char.ofNat n) =
      [UInt8.ofNat (n / 4096 + 0xe0), UInt8.ofNat (n / 64 % 64 + 0x80),
        UInt8.ofNat (n % 64 + 0x80)] := by
  have hn : (Char.ofNat n).val.toNat = n := toNat_ofNat_of_isValidChar hvalid
  rw [String.utf8EncodeChar, hn, if_neg (by omega), if_neg (by omega), if_pos hhigh,
    Nat.mod_eq_of_lt (a := n / 4096) (by omega)]

theorem utf8EncodeChar_four {n : Nat} (hlow : 0x10000 ≤ n) (hhigh : n < 0x110000) :
    String.utf8EncodeChar (Char.ofNat n) =
      [UInt8.ofNat (n / 262144 + 0xf0), UInt8.ofNat (n / 4096 % 64 + 0x80),
        UInt8.ofNat (n / 64 % 64 + 0x80), UInt8.ofNat (n % 64 + 0x80)] := by
  have hn : (Char.ofNat n).val.toNat = n := toNat_ofNat_of_isValidChar (.inr ⟨by omega, hhigh⟩)
  rw [String.utf8EncodeChar, hn, if_neg (by omega), if_neg (by omega), if_neg (by omega),
    Nat.mod_eq_of_lt (a := n / 262144) (by omega)]

theorem ofNat_eq {n : Nat} {b : UInt8} (h : n = b.toNat) : UInt8.ofNat n = b := by
  rw [h, UInt8.ofNat_toNat]

theorem toNat_ofNat_of_lt {n : Nat} (h : n < 0x100) : (UInt8.ofNat n).toNat = n := by
  rw [UInt8.toNat_ofNat', Nat.mod_eq_of_lt h]

/-- A byte that is a character is all of its bytes. -/
theorem utf8EncodeChar_of_whole {b : UInt8} {c : Char} (h : lead b = .whole c) :
    String.utf8EncodeChar c = [b] := by
  rw [lead_eq] at h
  split at h
  · next hascii =>
    obtain rfl := Lead.whole.inj h
    have hb : (Char.ofUInt8 b).toNat < 0x80 := hascii
    obtain ⟨b', hbytes, hchar⟩ := utf8EncodeChar_of_ascii hb
    have heq : b' = b := UInt8.toNat_inj.1 (congrArg Char.toNat hchar)
    rw [hbytes, heq]
  · repeat' split at h
    all_goals cases h

/-- What completes a character is the rest of its bytes. -/
theorem utf8EncodeChar_of_completes {b : UInt8} {p : Pending} {bytes : List UInt8} {code : Nat}
    (hlead : lead b = .opens p) (h : p.Completes bytes code) :
    String.utf8EncodeChar (Char.ofNat code) = b :: bytes := by
  obtain ⟨hlow, hhigh, rfl⟩ | ⟨hlow, hhigh, rfl⟩ | ⟨hlow, hhigh, rfl⟩ := lead_opens_cases hlead
  · obtain ⟨c, rfl, hc, hc', hcode⟩ := pendingTwo_completes_iff.1 h
    rw [utf8EncodeChar_two (by omega) (by omega), ofNat_eq (b := b) (by omega),
      ofNat_eq (b := c) (by omega)]
  · obtain ⟨c, d, rfl, hc, hc', hd, hd', hcode⟩ := pendingThree_completes_iff.1 h
    have hvalid : code.isValidChar := by
      unfold Nat.isValidChar
      omega
    rw [utf8EncodeChar_three hvalid (by omega) (by omega), ofNat_eq (b := b) (by omega),
      ofNat_eq (b := c) (by omega), ofNat_eq (b := d) (by omega)]
  · obtain ⟨c, d, e, rfl, hc, hc', hd, hd', he, he', hcode⟩ := pendingFour_completes_iff.1 h
    rw [utf8EncodeChar_four (by omega) (by omega), ofNat_eq (b := b) (by omega),
      ofNat_eq (b := c) (by omega), ofNat_eq (b := d) (by omega), ofNat_eq (b := e) (by omega)]

/-- The bytes of a character past the ASCII ones are one that announces it and
those that complete it. -/
theorem exists_completes (c : Char) (h : 0x80 ≤ c.toNat) :
    ∃ b bytes p, String.utf8EncodeChar c = b :: bytes ∧ lead b = .opens p ∧
      p.Completes bytes c.toNat := by
  have hvalid : c.toNat.isValidChar := c.valid
  have hrange := hvalid
  unfold Nat.isValidChar at hrange
  rw [← Char.ofNat_toNat c, toNat_ofNat_of_isValidChar hvalid]
  generalize c.toNat = n at h hvalid hrange
  have hlast := toNat_ofNat_of_lt (n := n % 64 + 0x80) (by omega)
  have hmiddle := toNat_ofNat_of_lt (n := n / 64 % 64 + 0x80) (by omega)
  by_cases htwo : n ≤ 0x7ff
  · have hfirst := toNat_ofNat_of_lt (n := n / 64 + 0xc0) (by omega)
    exact ⟨_, _, _, utf8EncodeChar_two h htwo, lead_two (by omega) (by omega),
      pendingTwo_completes_iff.2 ⟨_, rfl, by omega, by omega, by omega⟩⟩
  · by_cases hthree : n ≤ 0xffff
    · have hfirst := toNat_ofNat_of_lt (n := n / 4096 + 0xe0) (by omega)
      exact ⟨_, _, _, utf8EncodeChar_three hvalid (by omega) hthree,
        lead_three (by omega) (by omega), pendingThree_completes_iff.2
          ⟨_, _, rfl, by omega, by omega, by omega, by omega, by omega⟩⟩
    · have hfirst := toNat_ofNat_of_lt (n := n / 262144 + 0xf0) (by omega)
      have hsecond := toNat_ofNat_of_lt (n := n / 4096 % 64 + 0x80) (by omega)
      exact ⟨_, _, _, utf8EncodeChar_four (by omega) (by omega),
        lead_four (by omega) (by omega), pendingFour_completes_iff.2
          ⟨_, _, _, rfl, by omega, by omega, by omega, by omega, by omega, by omega, by omega⟩⟩

/-! ## What is kept -/

theorem decodeFrom_cons_whole {b : UInt8} {c : Char} (h : lead b = .whole c) (rest : List UInt8) :
    decodeFrom none (b :: rest) = c :: decodeFrom none rest := by
  rw [decodeFrom, h]

theorem decodeFrom_cons_opens {b : UInt8} {p : Pending} (h : lead b = .opens p)
    (rest : List UInt8) : decodeFrom none (b :: rest) = decodeFrom (some p) rest := by
  rw [decodeFrom, h]

theorem decodeFrom_utf8EncodeChar_append (c : Char) (rest : List UInt8) :
    decodeFrom none (String.utf8EncodeChar c ++ rest) = c :: decodeFrom none rest := by
  by_cases hascii : c.toNat < 0x80
  · obtain ⟨b, hbytes, rfl⟩ := utf8EncodeChar_of_ascii hascii
    have hlead : lead b = .whole (Char.ofUInt8 b) := by
      rw [lead_eq]
      exact if_pos hascii
    rw [hbytes, List.singleton_append, decodeFrom_cons_whole hlead]
  · obtain ⟨b, bytes, p, hbytes, hlead, hcompletes⟩ := exists_completes c (Nat.not_lt.1 hascii)
    rw [hbytes, List.cons_append, decodeFrom_cons_opens hlead, hcompletes.decodeFrom_append,
      Char.ofNat_toNat]

/-- What is text is kept, and does not bear on what follows. -/
theorem decode_bytesOf_append (text : String) (rest : List UInt8) :
    decode (bytesOf text ++ rest) = text ++ decode rest := by
  have hchars (cs : List Char) : decodeFrom none (cs.flatMap String.utf8EncodeChar ++ rest) =
      cs ++ decodeFrom none rest := by
    induction cs with
    | nil => rfl
    | cons c cs ih =>
      rw [List.flatMap_cons, List.append_assoc, decodeFrom_utf8EncodeChar_append, ih,
        List.cons_append]
  rw [decode, bytesOf, hchars, String.ofList_append, String.ofList_toList, decode]

/-- Nothing is lost without a replacement. -/
theorem flatMap_utf8EncodeChar_decodeFrom {bytes : List UInt8}
    (h : replacement ∉ decodeFrom none bytes) :
    (decodeFrom none bytes).flatMap String.utf8EncodeChar = bytes := by
  -- a character takes as many bytes as it has
  induction hlength : bytes.length using Nat.strongRecOn generalizing bytes with
  | ind n ih =>
    subst hlength
    cases bytes with
    | nil => rfl
    | cons b bytes =>
      cases hlead : lead b with
      | whole c =>
        rw [decodeFrom_cons_whole hlead] at h ⊢
        rw [List.flatMap_cons, utf8EncodeChar_of_whole hlead, List.singleton_append,
          ih bytes.length (Nat.lt_succ_self _) (fun hmem => h (List.mem_cons_of_mem _ hmem)) rfl]
      | stray =>
        rw [decodeFrom, hlead] at h
        exact absurd List.mem_cons_self h
      | opens p =>
        rw [decodeFrom_cons_opens hlead] at h ⊢
        obtain ⟨front, rest, code, rfl, hcompletes⟩ := exists_completes_of_notMem h
        rw [hcompletes.decodeFrom_append] at h ⊢
        rw [List.flatMap_cons, utf8EncodeChar_of_completes hlead hcompletes,
          ih rest.length ?_ (fun hmem => h (List.mem_cons_of_mem _ hmem)) rfl, List.cons_append]
        simp only [List.length_cons, List.length_append]
        omega

theorem bytesOf_decode {bytes : List UInt8} (h : replacement ∉ (decode bytes).toList) :
    bytesOf (decode bytes) = bytes := by
  rw [decode, String.toList_ofList] at h
  rw [bytesOf, decode, String.toList_ofList, flatMap_utf8EncodeChar_decodeFrom h]

end TextTemplate.Lossy
