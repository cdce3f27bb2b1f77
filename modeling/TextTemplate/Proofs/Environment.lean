/-
TextTemplate.Proofs.Environment — what a template gets to see of the
environment.

A variable is there or not, and it has bytes. That it is there shows in every
lookup: its bytes may be no text at all and it still has a value, so that a
strict render does not fail for it and a layer below is not asked
(`isSome_value?_iff`, `Lookup.run_environment_orElse`). Of its bytes as much shows as
can: what is text stays text, and a value in which nothing was replaced is the
bytes it was read from (`Lossy.decode_bytesOf_append`, `Lossy.bytesOf_decode`).

The environment is one list of entries that begin with a name and an equals
sign. Two names that have no such sign in them cannot share an entry
(`key_append_inj`), which makes every variable a cell of its own whatever is
done to the others (`bytes?_foldl_change`).
-/
import TextTemplate.Proofs.Layers
import TextTemplate.Proofs.LossyText

namespace TextTemplate

theorem bytesOf_inj {a b : String} : bytesOf a = bytesOf b ↔ a = b := by
  constructor
  · intro h
    rw [← String.toByteArray_inj, toByteArray_eq, toByteArray_eq, h]
  · intro h
    rw [h]

/-- An ASCII byte of a text is one of its characters. -/
theorem mem_toList_of_mem_bytesOf {text : String} {b : UInt8} (hb : b ∈ bytesOf text)
    (hascii : b.toNat < 0x80) : Char.ofUInt8 b ∈ text.toList := by
  obtain ⟨c, hc, hbc⟩ := List.mem_flatMap.1 hb
  by_cases h : c.toNat < 0x80
  · obtain ⟨b', hbytes, hchar⟩ := utf8EncodeChar_of_ascii h
    rw [hbytes, List.mem_singleton] at hbc
    rwa [hbc, hchar]
  · have := le_of_mem_utf8EncodeChar (Nat.not_lt.1 h) hbc
    rw [toNat_ofUInt8] at this
    omega

namespace Environment

/-- A name that a variable can have. -/
structure IsVariable (name : String) : Prop where
  ne_empty : name ≠ ""
  noNul : '\x00' ∉ name.toList
  noEquals : '=' ∉ name.toList

/-- The variable has an entry. -/
def IsSet (env : Environment) (name : String) : Prop :=
  ∃ value, key name ++ value ∈ env.entries

/-! ## Entries -/

theorem valueIn?_eq_some_iff {name : String} {entry value : List UInt8} :
    valueIn? name entry = some value ↔ entry = key name ++ value := by
  unfold valueIn?
  split
  · next h =>
    obtain ⟨rest, rfl⟩ := List.isPrefixOf_iff_prefix.1 h
    rw [List.drop_left, Option.some_inj, List.append_cancel_left_eq]
  · next h =>
    constructor
    · intro hnone
      cases hnone
    · intro heq
      rw [heq] at h
      exact absurd (List.isPrefixOf_iff_prefix.2 (List.prefix_append _ _)) h

theorem takeWhile_key_append {name : String} (h : '=' ∉ name.toList) (value : List UInt8) :
    (key name ++ value).takeWhile (· != 0x3d) = bytesOf name := by
  have hname : ∀ b ∈ bytesOf name, (b != 0x3d) = true := by
    intro b hb
    rw [bne_iff_ne]
    rintro rfl
    exact h (mem_toList_of_mem_bytesOf hb (by decide))
  rw [key, List.append_assoc, List.takeWhile_append_of_pos hname]
  show bytesOf name ++ [] = _
  exact List.append_nil _

/-- An entry is of one variable and has one value. -/
theorem key_append_inj {name other : String} (hname : '=' ∉ name.toList)
    (hother : '=' ∉ other.toList) {value value' : List UInt8} :
    key name ++ value = key other ++ value' ↔ name = other ∧ value = value' := by
  constructor
  · intro h
    have hkeys := congrArg (List.takeWhile (· != 0x3d)) h
    rw [takeWhile_key_append hname, takeWhile_key_append hother, bytesOf_inj] at hkeys
    subst hkeys
    exact ⟨rfl, List.append_cancel_left h⟩
  · intro h
    rw [h.1, h.2]

section

variable {name other : String} (h : IsVariable name) (hother : IsVariable other)

include h

theorem bytes?_eq (env : Environment) :
    env.bytes? name = env.entries.findSome? (valueIn? name) := by
  have hempty : name.isEmpty = false := by
    rw [← Bool.not_eq_true, String.isEmpty_iff]
    exact h.ne_empty
  have hnul : name.toList.contains '\x00' = false := by
    rw [← Bool.not_eq_true, List.contains_iff_mem]
    exact h.noNul
  rw [bytes?, hempty, hnul]
  rfl

/-- A variable has a value exactly when it has an entry. -/
theorem isSome_value?_iff (env : Environment) : (env.value? name).isSome ↔ env.IsSet name := by
  rw [value?, Option.isSome_map, bytes?_eq h, List.findSome?_isSome_iff]
  constructor
  · intro hsome
    obtain ⟨entry, hentry, hvalue⟩ := hsome
    obtain ⟨value, hvalue⟩ := Option.isSome_iff_exists.1 hvalue
    obtain rfl := valueIn?_eq_some_iff.1 hvalue
    exact ⟨value, hentry⟩
  · intro hset
    obtain ⟨value, hentry⟩ := hset
    exact ⟨_, hentry, Option.isSome_iff_exists.2 ⟨value, valueIn?_eq_some_iff.2 rfl⟩⟩

include hother

theorem valueIn?_key_append (value : List UInt8) :
    valueIn? name (key other ++ value) = if other = name then some value else none := by
  split
  · next heq =>
    subst heq
    exact valueIn?_eq_some_iff.2 rfl
  · next hne =>
    rw [Option.eq_none_iff_forall_ne_some]
    intro value' hvalue
    have hkeys := valueIn?_eq_some_iff.1 hvalue
    exact hne ((key_append_inj hother.noEquals h.noEquals).1 hkeys).1

/-- An entry of another variable says nothing. -/
theorem valueIn?_eq_none {entry : List UInt8} (hne : other ≠ name)
    (hsome : (valueIn? other entry).isSome = true) : valueIn? name entry = none := by
  obtain ⟨value, hvalue⟩ := Option.isSome_iff_exists.1 hsome
  rw [valueIn?_eq_some_iff.1 hvalue, valueIn?_key_append h hother, if_neg hne]

theorem bytes?_set (env : Environment) (value : List UInt8) :
    (env.set other value).bytes? name = if other = name then some value else env.bytes? name := by
  have hnew := valueIn?_key_append h hother value
  rw [bytes?_eq h, bytes?_eq h, set]
  simp only
  induction env.entries with
  | nil =>
    rw [replaceFirst, List.findSome?_singleton, hnew]
    rfl
  | cons entry entries ih =>
    rw [replaceFirst]
    split
    · next hsome =>
      -- the new entry stands where the old one stood
      rw [List.findSome?_cons, List.findSome?_cons, hnew]
      split_ifs with heq
      · rfl
      · rw [valueIn?_eq_none h hother heq hsome]
    · next hsome =>
      rw [List.findSome?_cons, List.findSome?_cons, ih]
      split_ifs with heq
      · subst heq
        rw [Option.not_isSome_iff_eq_none.1 hsome]
      · rfl

theorem bytes?_unset (env : Environment) :
    (env.unset other).bytes? name = if other = name then none else env.bytes? name := by
  rw [bytes?_eq h, bytes?_eq h, unset]
  simp only
  induction env.entries with
  | nil => simp
  | cons entry entries ih =>
    rw [List.filter_cons]
    split
    · next hnone =>
      rw [List.findSome?_cons, List.findSome?_cons, ih]
      split_ifs with heq
      · subst heq
        rw [Option.isNone_iff_eq_none.1 hnone]
      · rfl
    · next hnone =>
      rw [ih, List.findSome?_cons]
      split_ifs with heq
      · rfl
      · have hsome : (valueIn? other entry).isSome = true := by
          rw [Option.isSome_iff_ne_none, ne_eq, ← Option.isNone_iff_eq_none]
          exact hnone
        rw [valueIn?_eq_none h hother heq hsome]

end

/-! ## Changes -/

/-- A variable that is given a value, or taken out. -/
structure Change where
  name : String
  value : Option (List UInt8)

/-- The environment after a change. -/
def change (env : Environment) (c : Change) : Environment :=
  match c.value with
  | some value => env.set c.name value
  | none => env.unset c.name

theorem bytes?_change {name : String} (h : IsVariable name) (env : Environment) {c : Change}
    (hc : IsVariable c.name) :
    (env.change c).bytes? name = if c.name = name then c.value else env.bytes? name := by
  unfold change
  cases hvalue : c.value with
  | none => exact bytes?_unset h hc env
  | some value => exact bytes?_set h hc env value

/-- However often the environment is changed, each of its variables changes
with its own changes. -/
theorem bytes?_foldl_change {name : String} (h : IsVariable name) (changes : List Change)
    (hchanges : ∀ c ∈ changes, IsVariable c.name) (env : Environment) :
    (changes.foldl change env).bytes? name =
      changes.foldl (fun value c => if c.name = name then c.value else value)
        (env.bytes? name) := by
  induction changes generalizing env with
  | nil => rfl
  | cons c changes ih =>
    obtain ⟨hc, hchanges⟩ := List.forall_mem_cons.1 hchanges
    rw [List.foldl_cons, List.foldl_cons, ih hchanges, bytes?_change h env hc]

end Environment

/-! ## Looking up and rendering -/

section

variable {m : Type → Type} [Monad m] [LawfulMonad m] {env : Environment}

namespace Lookup

theorem run_environment (name : String) :
    (environment (m := StateT Environment m) name).run env = pure (env.value? name, env) := by
  simp [environment]

/-- A layer below the environment is asked for what is not set. -/
theorem run_environment_orElse (fallback : Lookup (StateT Environment m)) (name : String) :
    (environment.orElse fallback name).run env =
      match env.value? name with
      | some value => pure (some value, env)
      | none => (fallback name).run env := by
  rw [orElse, StateT.run_bind, run_environment, pure_bind]
  cases env.value? name <;> rfl

end Lookup

namespace Template

variable [MonadLog m]

/-- Where the state stays as it is, the answers are those of a function. -/
theorem run_emit_of_values {σ : Type} {s : σ} {lookup : Lookup (StateT σ m)}
    {values : String → Option String}
    (h : ∀ name, (lookup name).run s = pure (values name, s)) (policy : Policy) (ss : List Segment)
    (out : String) :
    (emit lookup policy ss out).run s =
      (fun r => (r, s)) <$> emit (Lookup.ofFunction values) policy ss out := by
  induction ss generalizing out with
  | nil => simp [emit]
  | cons seg ss ih =>
    cases seg with
    | literal text span => exact ih (out ++ text)
    | placeholder p =>
      simp only [emit, StateT.run_bind, h, pure_bind, Lookup.ofFunction]
      cases values p.name with
      | some value => exact ih (out ++ value)
      | none =>
        cases policy with
        | fail => simp
        | leave => simp [run_log, ih]

theorem run_render_of_values {σ : Type} {s : σ} {lookup : Lookup (StateT σ m)}
    {values : String → Option String}
    (h : ∀ name, (lookup name).run s = pure (values name, s)) (t : Template) (options : Options) :
    (t.render lookup options).run s =
      (fun r => (r, s)) <$> t.render (Lookup.ofFunction values) options := by
  rw [render_eq_concluded, render_eq_concluded, StateT.run_bind, run_emit_of_values h,
    bind_map_left, map_bind]
  apply bind_congr
  intro r
  obtain ⟨written, stopped⟩ := r
  cases stopped <;> simp [concluded, run_log]

/-- A strict render fails for a name that has no value. -/
theorem lacks_of_run_render {σ : Type} {s s' : σ} {lookup : Lookup (StateM σ)}
    {values : String → Option String}
    (h : ∀ name, (lookup name).run s = pure (values name, s)) {t : Template} {e : MissingKey}
    (herror : Id.run ((t.render lookup Options.strict).run s) = (.error e, s')) :
    values e.name = none := by
  have hrender : Id.run (t.render (Lookup.ofFunction values)) = .error e := by
    rw [run_render_of_values h] at herror
    exact congrArg Prod.fst herror
  rw [run_render_ofFunction] at hrender
  split at hrender
  · cases hrender
  · next p hfind =>
    cases hrender
    have hlacks : p.lacks values = true := List.find?_some hfind
    exact Option.isNone_iff_eq_none.1 hlacks

end Template

end

namespace Environment

/-- **What is set is found, and its text is kept**: whatever its bytes, a
variable that is looked up has a value exactly when it has an entry, and each
change of the environment is one of its own variable. So a strict render never fails for
one that is set, and a layer below the environment is asked for none. A text
that the value begins with is what the value is found to begin with, and a
value without a replacement is the bytes of its text. -/
theorem values_of_environment {name : String} (h : IsVariable name) :
    (∀ (m : Type → Type) [Monad m] [LawfulMonad m] (env : Environment),
      (Lookup.environment name : StateT Environment m (Option String)).run env =
        pure (env.value? name, env)) ∧
    (∀ env : Environment, (env.value? name).isSome ↔ env.IsSet name) ∧
    (∀ (changes : List Change) (env : Environment), (∀ c ∈ changes, IsVariable c.name) →
      (changes.foldl change env).bytes? name =
        changes.foldl (fun value c => if c.name = name then c.value else value)
          (env.bytes? name)) ∧
    (∀ (t : Template) (env env' : Environment), env.IsSet name →
      Id.run ((t.render Lookup.environment Options.strict :
        StateM Environment (Except MissingKey String)).run env) ≠ (.error ⟨name⟩, env')) ∧
    (∀ (t : Template) (values : String → Option String) (env env' : Environment), env.IsSet name →
      Id.run ((t.render (Lookup.environment.orElse (Lookup.ofFunction values)) Options.strict :
        StateM Environment (Except MissingKey String)).run env) ≠ (.error ⟨name⟩, env')) ∧
    (∀ (m : Type → Type) [Monad m] [LawfulMonad m] (fallback : Lookup (StateT Environment m))
      (env : Environment), env.IsSet name →
        (Lookup.environment.orElse fallback name).run env =
          (Lookup.environment name : StateT Environment m (Option String)).run env) ∧
    (∀ (env : Environment) (text : String) (rest : List UInt8),
      env.bytes? name = some (bytesOf text ++ rest) →
        env.value? name = some (text ++ Lossy.decode rest)) ∧
    (∀ (env : Environment) (text : String),
      env.bytes? name = some (bytesOf text) → env.value? name = some text) ∧
    ∀ (env : Environment) (text : String),
      env.value? name = some text → Lossy.replacement ∉ text.toList →
        env.bytes? name = some (bytesOf text) := by
  have hne {env : Environment} (hset : env.IsSet name) : env.value? name ≠ none :=
    Option.isSome_iff_ne_none.1 ((isSome_value?_iff h env).2 hset)
  refine ⟨?_, isSome_value?_iff h, ?_, ?_, ?_, ?_, ?_, ?_, ?_⟩
  · intro m _ _ env
    exact Lookup.run_environment name
  · intro changes env hchanges
    exact bytes?_foldl_change h changes hchanges env
  · intro t env env' hset herror
    exact hne hset (Template.lacks_of_run_render Lookup.run_environment herror)
  · intro t values env env' hset herror
    have hlayers (name : String) : ((Lookup.environment (m := StateM Environment)).orElse
        (Lookup.ofFunction values) name).run env =
          pure ((env.value? name).or (values name), env) := by
      rw [Lookup.run_environment_orElse]
      cases env.value? name <;> rfl
    have hnone := Template.lacks_of_run_render hlayers herror
    exact hne hset (Option.or_eq_none_iff.1 hnone).1
  · intro m _ _ fallback env hset
    rw [Lookup.run_environment_orElse, Lookup.run_environment]
    obtain ⟨value, hvalue⟩ := Option.ne_none_iff_exists'.1 (hne hset)
    rw [hvalue]
  · intro env text rest hbytes
    rw [value?, hbytes, Option.map_some, Lossy.decode_bytesOf_append]
  · intro env text hbytes
    have hempty := Lossy.decode_bytesOf_append text []
    rw [List.append_nil] at hempty
    rw [value?, hbytes, Option.map_some, hempty]
    exact congrArg some (String.append_empty)
  · intro env text hvalue hkept
    obtain ⟨bytes, hbytes, rfl⟩ := Option.map_eq_some_iff.1 hvalue
    rw [hbytes, Lossy.bytesOf_decode hkept]

/-- A value that ends in a surrogate, which is no text, beside a variable whose
name begins with its name. -/
theorem values_of_environment_surrogate :
    let env := [⟨"NN", some (bytesOf "1")⟩, ⟨"N", some (bytesOf "é" ++ [0xed, 0xa0, 0x80])⟩,
      ⟨"NN", none⟩].foldl change {}
    IsVariable "N" ∧ env.IsSet "N" ∧
      env.bytes? "N" = some (bytesOf "é" ++ [0xed, 0xa0, 0x80]) ∧
      env.value? "N" = some "é\ufffd\ufffd\ufffd" ∧
      Id.run ((((Template.salvage "$N").render Lookup.environment Options.strict :
        StateM Environment (Except MissingKey String))).run env) ≠ (.error ⟨"N"⟩, env) ∧
      (Lookup.environment.orElse (Lookup.ofPairs [("N", "0")]) "N" :
          StateM Environment (Option String)).run env =
        (Lookup.environment "N" : StateM Environment (Option String)).run env := by
  intro env
  have hname : IsVariable "N" := ⟨by decide, by decide, by decide⟩
  obtain ⟨-, hset, hchanges, hstrict, -, hlayer, htext, -, -⟩ := values_of_environment hname
  have hbytes : env.bytes? "N" = some (bytesOf "é" ++ [0xed, 0xa0, 0x80]) := by
    refine (hchanges _ _ ?_).trans (by decide +kernel)
    intro c hc
    simp only [List.mem_cons, List.not_mem_nil, or_false] at hc
    obtain rfl | rfl | rfl := hc
    · exact ⟨by decide, by decide, by decide⟩
    · exact hname
    · exact ⟨by decide, by decide, by decide⟩
  have hvalue := htext env "é" [0xed, 0xa0, 0x80] hbytes
  have hsome : env.IsSet "N" := (hset env).1 (by rw [hvalue]; rfl)
  refine ⟨hname, hsome, hbytes, ?_, hstrict _ env env hsome, hlayer Id _ env hsome⟩
  rw [hvalue]
  decide +kernel

end Environment

end TextTemplate
