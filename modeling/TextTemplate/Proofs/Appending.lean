/-
TextTemplate.Proofs.Appending — appending to a buffer is all or nothing, call
after call.

A render writes as it goes, so one that fails has written something already:
the literals and values in front of the placeholder it stopped at, behind
whatever the calls before it had left. It is taken back by length. That this
takes back what was written and nothing else is not a matter of counting:
it rests on the buffer still standing in front of it (`emit_append`), which
makes the old length a place between characters again.

With that, what a call does to a buffer is told by the text that `render`
gives, and a run of calls on one buffer is the run of these texts.
-/
import TextTemplate.Proofs.Rendering

namespace TextTemplate

/-! ## Runs of calls -/

/-- A template to be rendered, and how. -/
structure Rendering (m : Type → Type) where
  template : Template
  lookup : Lookup m
  options : Options

/-- What a rendering puts behind a buffer. -/
def added : Except MissingKey String → String
  | .ok text => text
  | .error _ => ""

/-- How it went, without the text. -/
def verdict : Except MissingKey String → Except MissingKey Unit
  | .ok _ => .ok ()
  | .error e => .error e

section

variable {m : Type → Type} [Monad m] [MonadLog m]

/-- The text of a rendering by itself. -/
def Rendering.text (r : Rendering m) : m (Except MissingKey String) :=
  r.template.render r.lookup r.options

/-- Append one rendering after the other to a buffer. -/
def appendAll : List (Rendering m) → String → m (String × List (Except MissingKey Unit))
  | [], buffer => return (buffer, [])
  | r :: rs, buffer => do
    let (buffer, result) ← r.template.appendTo r.lookup r.options buffer
    let (buffer, results) ← appendAll rs buffer
    return (buffer, result :: results)

variable [LawfulMonad m]

/-! ## One call -/

namespace Template

/-- Writing leaves alone what is in front. -/
theorem emit_append (lookup : Lookup m) (policy : Policy) (ss : List Segment)
    (buffer out : String) :
    emit lookup policy ss (buffer ++ out) =
      (fun (more, stopped) => (buffer ++ more, stopped)) <$> emit lookup policy ss out := by
  induction ss generalizing out with
  | nil => simp [emit]
  | cons s ss ih =>
    cases s with
    | literal text span =>
      simp only [emit]
      rw [String.append_assoc, ih]
    | placeholder p =>
      simp only [emit, map_bind]
      apply bind_congr
      intro answer
      cases answer with
      | some value =>
        simp only
        rw [String.append_assoc, ih]
      | none =>
        cases policy with
        | fail => simp
        | leave =>
          simp only [map_bind]
          apply bind_congr
          intro _
          rw [String.append_assoc, ih]

/-- A call does to a buffer what its text by itself says. -/
theorem appendTo_eq_render (t : Template) (lookup : Lookup m) (options : Options)
    (buffer : String) :
    t.appendTo lookup options buffer =
      (fun result => (buffer ++ added result, verdict result)) <$> t.render lookup options := by
  have hbuffer := emit_append lookup options.missing t.segments buffer ""
  rw [String.append_empty] at hbuffer
  rw [render, appendTo, appendTo, hbuffer]
  simp only [map_bind, bind_map_left, bind_assoc]
  apply bind_congr
  intro r
  obtain ⟨out, stopped⟩ := r
  cases stopped with
  | none => simp [added, verdict, Except.map]
  | some p =>
    have hrestored : truncate (buffer ++ out) buffer.utf8ByteSize = buffer :=
      truncate_append buffer out
    simp [added, verdict, Except.map, hrestored]

end Template

/-! ## The whole run -/

/-- **Appending is atomic**: a call that succeeds puts its text behind the
buffer and one that fails leaves the buffer as it is, with the failure that
the text by itself has, whatever is in the buffer. A run of calls does so one
after the other. -/
theorem appendAll_eq_mapM :
    (∀ (r : Rendering m) (buffer : String),
      r.template.appendTo r.lookup r.options buffer =
        (fun result => (buffer ++ added result, verdict result)) <$> r.text) ∧
    ∀ (rs : List (Rendering m)) (buffer : String),
      appendAll rs buffer =
        (fun results => (buffer ++ String.join (results.map added), results.map verdict)) <$>
          rs.mapM Rendering.text := by
  have hcall (r : Rendering m) (buffer : String) :
      r.template.appendTo r.lookup r.options buffer =
        (fun result => (buffer ++ added result, verdict result)) <$> r.text :=
    r.template.appendTo_eq_render r.lookup r.options buffer
  refine ⟨hcall, ?_⟩
  intro rs
  induction rs with
  | nil =>
    intro buffer
    simp [appendAll, String.join_nil]
  | cons r rs ih =>
    intro buffer
    rw [appendAll, hcall, List.mapM_cons, bind_map_left, map_bind]
    apply bind_congr
    intro result
    -- what this call added is part of the buffer of the calls behind it
    simp [ih, String.join_cons, String.append_assoc]

end

/-- A call that fails behind a value, between two that do not. -/
theorem appendAll_over_failure :
    Id.run (appendAll
        [⟨Template.salvage "$a$", Lookup.ofPairs [("a", "ü")], {}⟩,
          ⟨Template.salvage "– $\x7ba\x7d$b", Lookup.ofPairs [("a", "ö")], Options.strict⟩,
          ⟨Template.salvage "$b$$\n", Lookup.ofPairs [], Options.lenient⟩] "é:") =
      ("é:ü$$b$\n", [.ok (), .error ⟨"b"⟩, .ok ()]) := by
  rw [appendAll_eq_mapM.2]
  decide +kernel

end TextTemplate
