/-
TextTemplate.Proofs.Log — what the log says of a call.

An entry of the log is made in the midst of a call, and what it tells of is
settled elsewhere: the numbers of a parse by the segments, the key that is
missing by the placeholder the render stopped at, the names left standing by
what the lookup answered. Here every call is run with its log and without,
and the log is told by what the other run returns (`log_tells_results`).

A lookup may be anything that answers from a state and changes it
(`Lookup (StateM σ)`), so that it may give one occurrence of a name a value
and the next none. What it may not do is write to the log, for the entries
spoken of are those of the call. `Lookup.quiet` is the same lookup beside a
log; the kinds of lookups there are write nothing to begin with
(`Lookup.quiet_ofFunction` and the lemmas behind it).

A call that comes to its result after some events is those events and the
result (`LogM.writing`), and of calls in a row the events stand one behind
the other. No call looks at the log, so nothing more is needed of it.
-/
import TextTemplate.Proofs.Agreement
import TextTemplate.Proofs.Appending
import TextTemplate.Proofs.EntryPoints
import TextTemplate.Proofs.Layers
import TextTemplate.Proofs.Substitution

namespace TextTemplate

variable {σ α β : Type}

/-! ## Computations with a log -/

/-- An event as it stands in the log. -/
def Event.line (event : Event) : Level × String :=
  (event.level, event.text)

namespace LogM

/-- Write events and give a result. -/
def writing : List Event → α → LogM α
  | [], a => return a
  | event :: rest, a => do
    MonadLog.log event
    writing rest a

theorem writing_bind {more : List Event} {a : α} {b : β} {f : α → LogM β}
    (h : f a = writing more b) (events : List Event) :
    writing events a >>= f = writing (events ++ more) b := by
  induction events with
  | nil => rw [writing, pure_bind, h, List.nil_append]
  | cons event events ih => rw [writing, bind_assoc, ih, List.cons_append, writing]

theorem map_writing (f : α → β) (events : List Event) (a : α) :
    f <$> writing events a = writing events (f a) := by
  induction events with
  | nil => exact map_pure f a
  | cons event events ih => rw [writing, map_bind, ih, writing]

theorem run_writing (events : List Event) (a : α) : (writing events a).run = (a, events) := by
  have hfrom (kept : Array Event) :
      StateT.run (m := Id) (writing events a) kept = (a, kept ++ events.toArray) := by
    induction events generalizing kept with
    | nil => simp [writing]; rfl
    | cons event events ih =>
      show StateT.run (m := Id) (writing events a) (kept.push event) = _
      rw [ih]
      simp
  rw [run, hfrom]
  simp

end LogM

open LogM

/-- One computation after another writes its events behind those of the first. -/
theorem run_bind_of_writing {x : StateT σ LogM α} {f : α → StateT σ LogM β} {s : σ} {a : α × σ}
    {b : β × σ} {events more : List Event} (hx : x.run s = writing events a)
    (hf : (f a.1).run a.2 = writing more b) : (x >>= f).run s = writing (events ++ more) b := by
  rw [StateT.run_bind, hx]
  exact writing_bind (f := fun r : α × σ => (f r.1).run r.2) hf events

/-- The result of a computation, the state it leaves, and the lines it puts in
the log. -/
def logged (x : StateT σ LogM α) (s : σ) : (α × σ) × List (Level × String) :=
  let (result, events) := (x.run s).run
  (result, events.map Event.line)

theorem logged_of_writing {x : StateT σ LogM α} {s : σ} {events : List Event} {result : α × σ}
    (h : x.run s = writing events result) : logged x s = (result, events.map Event.line) := by
  rw [logged, h, run_writing]

/-! ## Lookups beside a log -/

namespace Lookup

/-- A lookup that writes nothing to the log. -/
def quiet (lookup : Lookup (StateM σ)) : Lookup (StateT σ LogM) :=
  fun name => modifyGet fun s => Id.run ((lookup name).run s)

theorem run_quiet (lookup : Lookup (StateM σ)) (name : String) (s : σ) :
    (lookup.quiet name).run s = pure (Id.run ((lookup name).run s)) := rfl

theorem quiet_ofFunction (values : String → Option String) :
    quiet (σ := σ) (ofFunction values) = ofFunction values := rfl

theorem quiet_environment :
    quiet (σ := Environment) environment = environment := rfl

theorem quiet_orElse (primary fallback : Lookup (StateM σ)) :
    (primary.orElse fallback).quiet = primary.quiet.orElse fallback.quiet := by
  funext name
  apply StateT.ext
  intro s
  simp only [run_quiet, orElse, StateT.run_bind, Id.run_bind, pure_bind]
  cases (Id.run ((primary name).run s)).1 <;> rfl

end Lookup

/-! ## Placeholders without a value -/

/-- The placeholders that are answered with nothing when all are asked for in
order. -/
def unanswered (lookup : Lookup (StateM σ)) : List Placeholder → σ → List Placeholder
  | [], _ => []
  | p :: ps, s =>
    match (lookup p.name).run s with
    | (some _, s) => unanswered lookup ps s
    | (none, s) => p :: unanswered lookup ps s

theorem unanswered_sublist (lookup : Lookup (StateM σ)) (ps : List Placeholder) (s : σ) :
    (unanswered lookup ps s).Sublist ps := by
  induction ps generalizing s with
  | nil => exact .slnil
  | cons p ps ih =>
    rw [unanswered]
    split
    · exact (ih _).cons p
    · exact (ih _).cons_cons p

/-- Where the answers are those of a function, they are the ones that lack a
value. -/
theorem unanswered_ofFunction (values : String → Option String) (ps : List Placeholder) (s : σ) :
    unanswered (Lookup.ofFunction values) ps s = ps.filter (Placeholder.lacks values) := by
  induction ps with
  | nil => rfl
  | cons p ps ih =>
    have hanswer : (Lookup.ofFunction (m := StateM σ) values p.name).run s =
        (values p.name, s) := rfl
    rw [unanswered, hanswer]
    cases hvalue : values p.name <;> simp [Placeholder.lacks, hvalue, ih]

/-! ## Parsing -/

namespace Template

/-- The event of a parse, by what it comes to. -/
def parseEvent : Except SyntaxError Template → Event
  | .error e => .rejected e
  | .ok t => t.parsedEvent

/-- A parse writes its event and is the parse there is without a log. -/
theorem parseM_eq {m : Type → Type} [Monad m] [MonadLog m] (source : String) :
    (parseM source : m (Except SyntaxError Template)) = do
      MonadLog.log (parseEvent (parse source))
      return parse source := by
  unfold parse parseM
  simp only
  cases (Scan.ofSource source .strict).errors.back? <;> rfl

theorem run_log_quiet (event : Event) (s : σ) :
    (MonadLog.log event : StateT σ LogM Unit).run s = writing [event] ((), s) :=
  rfl

theorem run_parseM (source : String) (s : σ) :
    (parseM source : StateT σ LogM _).run s =
      writing [parseEvent (parse source)] (parse source, s) := by
  rw [parseM_eq]
  rfl

theorem run_salvageM (source : String) (s : σ) :
    (salvageM source : StateT σ LogM _).run s =
      writing [(salvage source).parsedEvent] (salvage source, s) :=
  rfl

/-- The events of reading a document: that of the parse, if there is a string
to parse. -/
def documentEvents (document : String) : List Event :=
  match (Json.textOr "a string").run document.toList with
  | .error _ => []
  | .ok (source, _) => [parseEvent (parse source)]

theorem run_ofJsonM (document : String) (s : σ) :
    (ofJsonM document : StateT σ LogM _).run s =
      writing (documentEvents document) (ofJson document, s) := by
  rw [ofJson_eq, ofJsonM, documentEvents]
  cases (Json.textOr "a string").run document.toList with
  | error e => rfl
  | ok text =>
    obtain ⟨source, rest⟩ := text
    simp only [parseM_eq, bind_assoc, pure_bind]
    cases parse source with
    | error e => rfl
    | ok t => rfl

end Template

/-! ## Rendering -/

namespace Template

/-- What is left standing is entered where that is the policy. -/
def leftEvents (policy : Policy) (left : List Placeholder) : List Event :=
  match policy with
  | .fail => []
  | .leave => left.map fun p => .left p.name

theorem run_emit_quiet (lookup : Lookup (StateM σ)) (policy : Policy) (ss : List Segment)
    (out : String) (s : σ) :
    (emit lookup.quiet policy ss out).run s =
      writing (leftEvents policy (unanswered lookup (ss.filterMap Segment.placeholder?) s))
        (Id.run ((emit lookup policy ss out).run s)) := by
  induction ss generalizing out s with
  | nil => cases policy <;> rfl
  | cons seg ss ih =>
    cases seg with
    | literal text span => exact ih (out ++ text) s
    | placeholder p =>
      have hps : (Segment.placeholder p :: ss).filterMap Segment.placeholder? =
          p :: ss.filterMap Segment.placeholder? := rfl
      rw [hps, unanswered]
      simp only [emit, StateT.run_bind, Lookup.run_quiet, pure_bind, Id.run_bind]
      cases (lookup p.name).run s with
      | mk answer s' =>
        cases answer with
        | some value => exact ih (out ++ value) s'
        | none =>
          cases policy with
          | fail => rfl
          | leave =>
            show (MonadLog.log (.left p.name) >>= fun _ =>
              emit lookup.quiet .leave ss (out ++ p.written) : StateT σ LogM _).run s' = _
            rw [StateT.run_bind, run_log, bind_map_left]
            exact bind_congr fun _ => ih (out ++ p.written) s'

/-- The events of a render, by what it comes to and what was left standing. -/
def renderEvents {α : Type} (policy : Policy) (result : Except MissingKey α)
    (left : List Placeholder) : List Event :=
  match policy, result with
  | .leave, _ => left.map fun p => .left p.name
  | .fail, .ok _ => []
  | .fail, .error e => [.missing e.name]

theorem run_concluded_quiet (r : String × Option Placeholder) (s : σ) :
    (concluded r : StateT σ LogM (Except MissingKey String)).run s =
      writing (r.2.elim [] fun p => [.missing p.name])
        (Id.run ((concluded r : StateM σ (Except MissingKey String)).run s)) := by
  obtain ⟨written, stopped⟩ := r
  cases stopped <;> rfl

/-- Nothing stops a render that leaves what has no value. -/
theorem stopped_emit_leave (lookup : Lookup (StateM σ)) (ss : List Segment) (out : String) (s : σ) :
    (Id.run ((emit lookup .leave ss out).run s)).1.2 = none := by
  rw [emit_leave]
  rfl

theorem run_render_quiet (lookup : Lookup (StateM σ)) (t : Template) (options : Options) (s : σ) :
    (t.render lookup.quiet options).run s =
      writing (renderEvents options.missing (Id.run ((t.render lookup options).run s)).1
          (unanswered lookup t.placeholders s))
        (Id.run ((t.render lookup options).run s)) := by
  rw [render_eq_concluded, render_eq_concluded,
    run_bind_of_writing (run_emit_quiet _ _ _ _ _) (run_concluded_quiet _ _), StateT.run_bind,
    Id.run_bind]
  congr 1
  cases options.missing with
  | fail =>
    obtain ⟨⟨written, stopped⟩, s'⟩ := Id.run ((emit lookup .fail t.segments "").run s)
    cases stopped <;> rfl
  | leave =>
    rw [stopped_emit_leave]
    exact List.append_nil _

theorem run_appendTo_quiet (lookup : Lookup (StateM σ)) (t : Template) (options : Options)
    (buffer : String) (s : σ) :
    (t.appendTo lookup.quiet options buffer).run s =
      writing (renderEvents options.missing (Id.run ((t.appendTo lookup options buffer).run s)).1.2
          (unanswered lookup t.placeholders s))
        (Id.run ((t.appendTo lookup options buffer).run s)) := by
  rw [appendTo_eq_render, appendTo_eq_render, StateT.run_map, run_render_quiet, map_writing,
    StateT.run_map, Id.run_map]
  congr 1
  obtain ⟨result, s'⟩ := Id.run ((t.render lookup options).run s)
  cases options.missing <;> cases result <;> rfl

theorem run_renderPartial_quiet (lookup : Lookup (StateM σ)) (t : Template) (s : σ) :
    (t.renderPartial lookup.quiet).run s =
      writing ((unanswered lookup t.placeholders s).map fun p => .left p.name)
        (Id.run ((t.renderPartial lookup).run s)) := by
  rw [renderPartial, renderPartial, bind_pure_comp, bind_pure_comp, StateT.run_map, run_emit_quiet,
    map_writing, StateT.run_map, Id.run_map]
  rfl

end Template

/-! ## Filling -/

/-- Filling is a parse, its event, and a render of what is parsed. -/
theorem fill_eq {m : Type → Type} [Monad m] [LawfulMonad m] [MonadLog m] (source : String)
    (lookup : Lookup m) :
    fill source lookup = (do
      MonadLog.log (Template.parseEvent (Template.parse source))
      match Template.parse source with
      | .error e => return .error (.malformed e)
      | .ok t => Except.mapError Failure.missing <$> t.render lookup) := by
  rw [fill, Template.parseM_eq, bind_assoc]
  apply bind_congr
  intro _
  rw [pure_bind]
  cases Template.parse source with
  | error e => rfl
  | ok t => exact bind_pure_comp _ _

/-- The event of the render in filling, by what filling comes to. -/
def fillEvents : Except Failure String → List Event
  | .error (.missing e) => [.missing e.name]
  | _ => []

theorem run_fill_quiet (lookup : Lookup (StateM σ)) (source : String) (s : σ) :
    (fill source lookup.quiet).run s =
      writing
        (Template.parseEvent (Template.parse source) ::
          fillEvents (Id.run ((fill source lookup).run s)).1)
        (Id.run ((fill source lookup).run s)) := by
  cases hparse : Template.parse source with
  | error e =>
    rw [fill_eq, fill_eq, hparse]
    rfl
  | ok t =>
    have hfilled : Id.run ((fill source lookup).run s) =
        ((Id.run ((t.render lookup).run s)).1.mapError .missing,
          (Id.run ((t.render lookup).run s)).2) := by
      rw [fill_eq, hparse]
      rfl
    rw [hfilled, fill_eq, hparse]
    refine run_bind_of_writing (Template.run_log_quiet _ s) ?_
    rw [StateT.run_map, Template.run_render_quiet, map_writing]
    cases (Id.run ((t.render lookup).run s)).1 <;> rfl

theorem run_fillPartial_quiet (lookup : Lookup (StateM σ)) (source : String) (s : σ) :
    (fillPartial source lookup.quiet).run s =
      writing
        ((Template.salvage source).parsedEvent ::
          (unanswered lookup (Template.salvage source).placeholders s).map fun p => .left p.name)
        (Id.run ((fillPartial source lookup).run s)) := by
  rw [fillPartial, run_bind_of_writing (Template.run_salvageM source s)
    (Template.run_renderPartial_quiet lookup _ s)]
  rfl

/-! ## The story -/

/-- The line of a parse, by what it comes to. -/
def parseLine (source : String) : Except SyntaxError Template → Level × String
  | .error e => (.debug, s!"template rejected: {e.message}")
  | .ok t =>
    let bytes := source.utf8ByteSize
    let segments := t.segments.length
    let placeholders := t.placeholders.length
    let skipped := t.errors.length
    let found := s!"{bytes} bytes, {segments} segments, {placeholders} placeholders, "
    (.debug, "parsed template: " ++ found ++ s!"{skipped} skipped")

/-- The line of a placeholder that is left standing. -/
def leftLine (p : Placeholder) : Level × String :=
  (.trace, s!"leaving \"{p.name}\" unresolved")

/-- The line of a render that fails. -/
def missingLine (e : MissingKey) : Level × String :=
  (.debug, s!"missing key \"{e.name}\"")

/-- The lines of a render, by what it comes to and what was left standing. -/
def renderLines {α : Type} (policy : Policy) (result : Except MissingKey α)
    (left : List Placeholder) : List (Level × String) :=
  match policy, result with
  | .leave, _ => left.map leftLine
  | .fail, .ok _ => []
  | .fail, .error e => [missingLine e]

theorem line_parseEvent (source : String) :
    (Template.parseEvent (Template.parse source)).line =
      parseLine source (Template.parse source) := by
  cases h : Template.parse source with
  | error e => rfl
  | ok t =>
    obtain rfl := Template.eq_salvage_of_parse h
    rfl

theorem map_line_renderEvents {α : Type} (policy : Policy) (result : Except MissingKey α)
    (left : List Placeholder) :
    (Template.renderEvents policy result left).map Event.line = renderLines policy result left := by
  cases policy with
  | fail => cases result <;> rfl
  | leave => exact List.map_map

namespace Template

/-- **The log tells what the calls return**: a parse puts in one line, with the
error it refuses the source for or with the numbers of the template it gives;
a document puts in that of the parse, if it holds a string. A render changes
nothing else by being logged. Where what has no value is left standing it puts
in one line for each placeholder that is not answered, by name and in the
order of the source; otherwise it puts in one line if it fails, with the key
it fails for. Filling puts in the lines of the parse and those of the render. -/
theorem log_tells_results :
    (∀ (source : String) (s : σ),
      logged (parseM source) s = ((parse source, s), [parseLine source (parse source)])) ∧
    (∀ (source : String) (s : σ),
      logged (salvageM source) s =
        ((salvage source, s), [parseLine source (.ok (salvage source))])) ∧
    (∀ (document : String) (s : σ),
      logged (ofJsonM document) s =
        ((ofJson document, s),
          match (Json.textOr "a string").run document.toList with
          | .error _ => []
          | .ok (source, _) => [parseLine source (parse source)])) ∧
    (∀ (t : Template) (lookup : Lookup (StateM σ)) (options : Options) (s : σ),
      let r := Id.run ((t.render lookup options).run s)
      logged (t.render lookup.quiet options) s =
        (r, renderLines options.missing r.1 (unanswered lookup t.placeholders s))) ∧
    (∀ (t : Template) (lookup : Lookup (StateM σ)) (options : Options) (buffer : String) (s : σ),
      let r := Id.run ((t.appendTo lookup options buffer).run s)
      logged (t.appendTo lookup.quiet options buffer) s =
        (r, renderLines options.missing r.1.2 (unanswered lookup t.placeholders s))) ∧
    (∀ (t : Template) (lookup : Lookup (StateM σ)) (s : σ),
      logged (t.renderPartial lookup.quiet) s =
        (Id.run ((t.renderPartial lookup).run s),
          (unanswered lookup t.placeholders s).map leftLine)) ∧
    (∀ (source : String) (lookup : Lookup (StateM σ)) (s : σ),
      let r := Id.run ((fill source lookup).run s)
      logged (fill source lookup.quiet) s =
        (r, parseLine source (parse source) ::
          match r.1 with
          | .error (.missing e) => [missingLine e]
          | _ => [])) ∧
    (∀ (source : String) (lookup : Lookup (StateM σ)) (s : σ),
      logged (fillPartial source lookup.quiet) s =
        (Id.run ((fillPartial source lookup).run s),
          parseLine source (.ok (salvage source)) ::
            (unanswered lookup (salvage source).placeholders s).map leftLine)) ∧
    (∀ (t : Template) (lookup : Lookup (StateM σ)) (s : σ), Made t →
      (unanswered lookup t.placeholders s).Pairwise fun p q => p.span.start < q.span.start) ∧
    ∀ (t : Template) (values : String → Option String) (s : σ),
      unanswered (Lookup.ofFunction values) t.placeholders s =
        t.placeholders.filter (Placeholder.lacks values) := by
  refine ⟨?_, ?_, ?_, ?_, ?_, ?_, ?_, ?_, ?_, ?_⟩
  · intro source s
    rw [logged_of_writing (run_parseM source s), List.map_singleton, line_parseEvent]
  · intro source s
    exact logged_of_writing (run_salvageM source s)
  · intro document s
    rw [logged_of_writing (run_ofJsonM document s), documentEvents]
    cases (Json.textOr "a string").run document.toList with
    | error e => rfl
    | ok text => simp only [List.map_singleton, line_parseEvent]
  · intro t lookup options s r
    rw [logged_of_writing (run_render_quiet lookup t options s), map_line_renderEvents]
  · intro t lookup options buffer s r
    rw [logged_of_writing (run_appendTo_quiet lookup t options buffer s), map_line_renderEvents]
  · intro t lookup s
    rw [logged_of_writing (run_renderPartial_quiet lookup t s), List.map_map]
    rfl
  · intro source lookup s r
    rw [logged_of_writing (run_fill_quiet lookup source s), List.map_cons, line_parseEvent]
    rcases r.1 with (_ | _ | _) | _ <;> rfl
  · intro source lookup s
    rw [logged_of_writing (run_fillPartial_quiet lookup source s), List.map_cons, List.map_map]
    rfl
  · intro t lookup s hmade
    exact (pairwise_placeholders (.inr hmade.eq_salvage)).sublist (unanswered_sublist _ _ _)
  · intro t values s
    exact unanswered_ofFunction values t.placeholders s

/-- A source that is refused, and one with two names that have a value in one
of two layers and two that have none. -/
theorem log_tells_results_layered :
    logged (parseM "a\n$ü") ({} : Environment) =
        ((.error ⟨.invalidPlaceholder, 3, 2, 2, 2⟩, {}),
          [(.debug, "template rejected: invalid placeholder at line 2, column 2 (byte 3)")]) ∧
      logged (fill "$a $\x7bc\x7d$$$b$d"
          (Lookup.environment.orElse (Lookup.ofPairs [("a", "1"), ("b", "2")])))
          (Environment.set {} "a" (bytesOf "0")) =
        ((.error (.missing ⟨"c"⟩), Environment.set {} "a" (bytesOf "0")),
          [(.debug, "parsed template: 13 bytes, 6 segments, 4 placeholders, 0 skipped"),
            (.debug, "missing key \"c\"")]) ∧
      logged ((salvage "$a $\x7bc\x7d$$$b$d").renderPartial
          (Lookup.environment.orElse (Lookup.ofPairs [("a", "1"), ("b", "2")])))
          (Environment.set {} "a" (bytesOf "0")) =
        (("0 $\x7bc\x7d$2$d", Environment.set {} "a" (bytesOf "0")),
          [(.trace, "leaving \"c\" unresolved"), (.trace, "leaving \"d\" unresolved")]) ∧
      (unanswered (Lookup.environment.orElse (Lookup.ofPairs [("a", "1"), ("b", "2")]))
          (salvage "$a $\x7bc\x7d$$$b$d").placeholders
          (Environment.set {} "a" (bytesOf "0"))).Pairwise fun p q =>
            p.span.start < q.span.start := by
  obtain ⟨hparse, -, -, -, -, hpartial, hfill, -, horder, -⟩ :=
    log_tells_results (σ := Environment)
  have hquiet : Lookup.quiet (σ := Environment)
      (Lookup.environment.orElse (Lookup.ofPairs [("a", "1"), ("b", "2")])) =
        Lookup.environment.orElse (Lookup.ofPairs [("a", "1"), ("b", "2")]) := by
    rw [Lookup.quiet_orElse, Lookup.quiet_environment]
    exact congrArg _ (Lookup.quiet_ofFunction _)
  refine ⟨?_, ?_, ?_, horder _ _ _ (.salvaged _)⟩
  · rw [hparse]
    decide +kernel
  · rw [← hquiet, hfill]
    decide +kernel
  · rw [← hquiet, hpartial]
    decide +kernel

end Template

end TextTemplate
