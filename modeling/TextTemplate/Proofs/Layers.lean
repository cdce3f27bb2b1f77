/-
TextTemplate.Proofs.Layers — who is asked for what, and in which order.

Layers are lazy and a render keeps nothing it was told, so the questions of
one render can be written down beforehand. For each placeholder it comes to,
in order and every time anew, the layers are asked for exactly its name, from
the top down to the first that has a value; under the strict policy the
placeholder that nobody has a value for is the last. The text put in is the
answer of the layer asked last. `questions` is the list, made of two cuts of
the same kind (`upToFirst`), and `run_render_layers` says that rendering with
layers that note what they are asked is rendering with those answers, and the
list behind what was noted before.

How the layers are nested makes no difference. Whatever a lookup does when it
is asked, a nesting of lookups asks them one after the other until one answers
(`layers_eq_findSomeM?`), so two nestings of the same lookups in the same
order are the same computation.
-/
import TextTemplate.Proofs.Rendering
import TextTemplate.Proofs.Values

namespace TextTemplate

/-- The elements of a list up to the first with a property, and that one. -/
def upToFirst {α : Type} (p : α → Bool) (xs : List α) : List α :=
  xs.take (xs.findIdx p + 1)

@[simp] theorem upToFirst_nil {α : Type} (p : α → Bool) : upToFirst p [] = [] :=
  List.take_nil

theorem upToFirst_cons {α : Type} (p : α → Bool) (x : α) (xs : List α) :
    upToFirst p (x :: xs) = if p x = true then [x] else x :: upToFirst p xs := by
  cases hx : p x <;> simp [upToFirst, List.findIdx_cons, hx]

namespace Lookup

/-! ## Nestings -/

/-- Layers put over one another, in any grouping. -/
inductive Layering (α : Type) where
  | single (layer : α)
  | stack (upper lower : Layering α)

namespace Layering

variable {α : Type}

/-- The layers from the top down. -/
def layers : Layering α → List α
  | single layer => [layer]
  | stack upper lower => upper.layers ++ lower.layers

variable {m : Type → Type} [Monad m]

/-- The lookup of a nesting, of which each layer is a lookup. -/
def lookup (f : α → Lookup m) : Layering α → Lookup m
  | single layer => f layer
  | stack upper lower => (upper.lookup f).orElse (lower.lookup f)

end Layering

section

variable {m : Type → Type} [Monad m] [LawfulMonad m]

theorem orElse_assoc (a b c : Lookup m) : (a.orElse b).orElse c = a.orElse (b.orElse c) := by
  funext name
  simp only [orElse, bind_assoc]
  apply bind_congr
  intro answer
  cases answer <;> simp

/-- A layer on top is asked first. -/
theorem layers_cons (top : Lookup m) (rest : List (Lookup m)) :
    layers (top :: rest) = top.orElse (layers rest) := by
  cases rest with
  | cons => rfl
  | nil =>
    funext name
    have hagain : top.orElse (layers []) name = top name >>= pure := by
      apply bind_congr
      intro answer
      cases answer <;> rfl
    rw [hagain, bind_pure, layers]

theorem layers_append (upper lower : List (Lookup m)) :
    layers (upper ++ lower) = (layers upper).orElse (layers lower) := by
  induction upper with
  | nil =>
    funext name
    simp [layers, orElse]
  | cons top rest ih => rw [List.cons_append, layers_cons, layers_cons, ih, orElse_assoc]

/-- A nesting is its layers one over the other. -/
theorem Layering.lookup_eq_layers {α : Type} (f : α → Lookup m) (nesting : Layering α) :
    nesting.lookup f = Lookup.layers (nesting.layers.map f) := by
  induction nesting with
  | single layer => rfl
  | stack upper lower ihupper ihlower =>
    rw [lookup, ihupper, ihlower, layers, List.map_append, layers_append]

/-- The layers are asked one after the other until one answers. -/
theorem layers_eq_findSomeM? {α : Type} (f : α → Lookup m) (ls : List α) (name : String) :
    layers (ls.map f) name = ls.findSomeM? fun l => f l name := by
  induction ls with
  | nil => rfl
  | cons l ls ih =>
    rw [List.map_cons, layers_cons, orElse, ih, List.findSomeM?_cons]
    apply bind_congr
    intro answer
    cases answer <;> rfl

end

/-! ## Layers that note their questions -/

/-- A function as a layer, and the number its questions are noted under. -/
structure Layer where
  number : Nat
  values : String → Option String

namespace Layer

def lookup {m : Type → Type} [Monad m] [MonadStateOf (Array Question) m] (l : Layer) : Lookup m :=
  recorded l.number (ofFunction l.values)

/-- The layers asked for a name: from the top down to the first that has a
value for it. -/
def asked (ls : List Layer) (name : String) : List Layer :=
  upToFirst (fun l => (l.values name).isSome) ls

/-- What the layer asked last answers. -/
def answer (ls : List Layer) (name : String) : Option String :=
  (asked ls name).getLast?.bind fun l => l.values name

/-- The questions for one name. -/
def questions (ls : List Layer) (name : String) : List Question :=
  (asked ls name).map fun l => ⟨l.number, name⟩

theorem asked_cons (l : Layer) (ls : List Layer) (name : String) :
    asked (l :: ls) name =
      if (l.values name).isSome = true then [l] else l :: asked ls name :=
  upToFirst_cons _ l ls

theorem answer_cons (l : Layer) (ls : List Layer) (name : String) :
    answer (l :: ls) name = (l.values name).or (answer ls name) := by
  rw [answer, asked_cons]
  cases hvalue : l.values name with
  | some value => simp [hvalue]
  | none =>
    rw [if_neg (by simp)]
    -- the layer that has no value is asked last only if it is the lowest
    cases ls with
    | nil => simp [answer, asked, hvalue]
    | cons next ls =>
      rw [answer, asked_cons]
      split <;> rfl

theorem questions_cons (l : Layer) (ls : List Layer) (name : String) :
    questions (l :: ls) name =
      ⟨l.number, name⟩ :: if (l.values name).isSome = true then [] else questions ls name := by
  rw [questions, asked_cons]
  split <;> rfl

/-- A question to layers is noted down from the top, and answered. -/
theorem run_layers {m : Type → Type} [Monad m] [LawfulMonad m] (ls : List Layer) (name : String)
    (noted : Array Question) :
    (layers (ls.map lookup) name : StateT (Array Question) m (Option String)).run noted =
      pure (answer ls name, noted ++ (questions ls name).toArray) := by
  induction ls generalizing noted with
  | nil => simp [layers, answer, questions, asked]
  | cons l ls ih =>
    rw [List.map_cons, layers_cons, answer_cons, questions_cons]
    cases hvalue : l.values name <;>
      simp [orElse, lookup, recorded, ofFunction, hvalue, ih]

end Layer

end Lookup

/-! ## The questions of a render -/

open Lookup

/-- The placeholders a render comes to: all of them, or those up to the first
without a value. -/
def reached (values : String → Option String) (policy : Policy) (ps : List Placeholder) :
    List Placeholder :=
  match policy with
  | .fail => upToFirst (Placeholder.lacks values) ps
  | .leave => ps

/-- The questions of a render: those of each placeholder it comes to. -/
def questions (ls : List Layer) (policy : Policy) (ps : List Placeholder) : List Question :=
  (reached (Layer.answer ls) policy ps).flatMap fun p => Layer.questions ls p.name

theorem questions_cons_of_value {ls : List Layer} {p : Placeholder}
    (h : p.lacks (Layer.answer ls) = false) (policy : Policy) (ps : List Placeholder) :
    questions ls policy (p :: ps) = Layer.questions ls p.name ++ questions ls policy ps := by
  cases policy <;> simp [questions, reached, upToFirst_cons, h]

theorem questions_cons_of_lacks {ls : List Layer} {p : Placeholder}
    (h : p.lacks (Layer.answer ls) = true) (policy : Policy) (ps : List Placeholder) :
    questions ls policy (p :: ps) =
      Layer.questions ls p.name ++
        match policy with
        | .fail => []
        | .leave => questions ls .leave ps := by
  cases policy <;> simp [questions, reached, upToFirst_cons, h]

namespace Template

variable {m : Type → Type} [Monad m] [MonadLog m] [LawfulMonad m]

theorem run_log {σ : Type} (event : Event) (s : σ) :
    (MonadLog.log event : StateT σ m Unit).run s =
      (fun done => (done, s)) <$> (MonadLog.log event : m Unit) := by
  rw [map_eq_pure_bind]
  rfl

theorem run_emit_layers (ls : List Layer) (policy : Policy) (ss : List Segment) (out : String)
    (noted : Array Question) :
    (emit (layers (ls.map Layer.lookup)) policy ss out :
        StateT (Array Question) m (String × Option Placeholder)).run noted =
      (fun written => (written, noted ++
          (questions ls policy (ss.filterMap Segment.placeholder?)).toArray)) <$>
        emit (ofFunction (Layer.answer ls)) policy ss out := by
  induction ss generalizing out noted with
  | nil => cases policy <;> simp [emit, questions, reached]
  | cons s ss ih =>
    cases s with
    | literal text span => exact ih (out ++ text) noted
    | placeholder p =>
      have hps : (Segment.placeholder p :: ss).filterMap Segment.placeholder? =
          p :: ss.filterMap Segment.placeholder? := rfl
      simp only [emit, StateT.run_bind, Layer.run_layers, pure_bind, ofFunction, hps]
      cases hanswer : Layer.answer ls p.name with
      | some value =>
        have hlacks : p.lacks (Layer.answer ls) = false := by simp [Placeholder.lacks, hanswer]
        rw [questions_cons_of_value hlacks]
        simp [ih]
      | none =>
        have hlacks : p.lacks (Layer.answer ls) = true := by simp [Placeholder.lacks, hanswer]
        rw [questions_cons_of_lacks hlacks]
        cases policy with
        | fail => simp
        | leave => simp [ih, run_log]

theorem run_render_layers (ls : List Layer) (t : Template) (options : Options)
    (noted : Array Question) :
    (t.render (layers (ls.map Layer.lookup)) options :
        StateT (Array Question) m (Except MissingKey String)).run noted =
      (fun result => (result, noted ++
          (questions ls options.missing t.placeholders).toArray)) <$>
        t.render (ofFunction (Layer.answer ls)) options := by
  rw [render_eq_concluded, render_eq_concluded, StateT.run_bind, run_emit_layers, bind_map_left,
    map_bind]
  apply bind_congr
  intro r
  obtain ⟨written, stopped⟩ := r
  cases stopped with
  | none => simp [concluded, placeholders]
  | some p => simp [concluded, run_log, placeholders]

/-- **Who is asked for what**: a render goes through the segments once and
asks for the name of each placeholder it comes to, and a nesting of lookups,
whatever they do, asks them from the top down until one answers. So two
groupings of the same lookups are the same computation. Where the layers are
functions that note what they are asked, a render notes its `questions` and
is otherwise the render with the answers of the layers asked last. -/
theorem render_asks_in_order :
    (∀ (t : Template) (lookup : Lookup m) (options : Options),
      t.render lookup options =
        (String.join <$> t.segments.mapM (Segment.rendered lookup options.missing)).run) ∧
    (∀ {α : Type} (f : α → Lookup m) (nesting : Layering α) (name : String),
      nesting.lookup f name = nesting.layers.findSomeM? fun l => f l name) ∧
    (∀ a b c : Lookup m, (a.orElse b).orElse c = a.orElse (b.orElse c)) ∧
    ∀ (t : Template) (nesting : Layering Layer) (options : Options) (noted : Array Question),
      (t.render (nesting.lookup Layer.lookup) options :
          StateT (Array Question) m (Except MissingKey String)).run noted =
        (fun result => (result, noted ++
            (questions nesting.layers options.missing t.placeholders).toArray)) <$>
          t.render (ofFunction (Layer.answer nesting.layers)) options := by
  refine ⟨render_eq_mapM, ?_, orElse_assoc, ?_⟩
  · intro α f nesting name
    rw [Layering.lookup_eq_layers, layers_eq_findSomeM?]
  · intro t nesting options noted
    rw [Layering.lookup_eq_layers, run_render_layers]

/-- A name asked for twice, one that only the lowest layer has, and one that
none has, behind which nothing is asked. -/
theorem render_asks_in_order_nested :
    Id.run (((salvage "$a$b $\x7ba\x7d$c$a").render
        (Layering.lookup Layer.lookup
          (.stack
            (.stack (.single ⟨0, fun name => [("a", "1")].lookup name⟩)
              (.single ⟨1, fun name => [("d", "2")].lookup name⟩))
            (.single ⟨2, fun name => [("a", "3"), ("b", "4")].lookup name⟩)))
        Options.strict : StateM (Array Question) (Except MissingKey String)).run #[]) =
      (.error ⟨"c"⟩,
        #[⟨0, "a"⟩, ⟨0, "b"⟩, ⟨1, "b"⟩, ⟨2, "b"⟩, ⟨0, "a"⟩, ⟨0, "c"⟩, ⟨1, "c"⟩, ⟨2, "c"⟩]) := by
  rw [render_asks_in_order.2.2.2]
  decide +kernel

end Template

end TextTemplate
