/-
TextTemplate.Lookup — where the values of placeholders come from.

A lookup answers a name with a text or with nothing, in a monad, so that
one may count its questions, read the environment of the moment or do
nothing of the kind. Layering is lazy: the fallback is asked only for what
the layer above it does not have.
-/
import Std.Data.HashMap
import Std.Data.TreeMap
import TextTemplate.Environment
import TextTemplate.Json.Value

namespace TextTemplate

/-- The text for a name, if there is one. -/
abbrev Lookup (m : Type → Type) : Type :=
  String → m (Option String)

namespace Lookup

variable {m : Type → Type} [Monad m]

/-! ## Kinds of lookups -/

/-- The values of a function. -/
def ofFunction (f : String → Option String) : Lookup m :=
  fun name => return f name

/-- The values of a list of pairs, of which the first with a name counts. -/
def ofPairs (pairs : List (String × String)) : Lookup m :=
  ofFunction fun name => pairs.lookup name

/-- The values of a hash map. -/
def ofHashMap (map : Std.HashMap String String) : Lookup m :=
  ofFunction fun name => map[name]?

/-- The values of an ordered map. -/
def ofTreeMap (map : Std.TreeMap String String) : Lookup m :=
  ofFunction fun name => map[name]?

/-- The text of a JSON value: a string is itself, any other its document. -/
def textOf : Json.Value → String
  | .text s => s
  | v => v.write

/-- The texts of the members of a JSON object. -/
def ofMembers (members : Json.Members) : Lookup m :=
  ofFunction fun name => (members.lookup name).map textOf

/-- The texts of the members of a JSON value. One that is no object has
none. -/
def ofJson : Json.Value → Lookup m
  | .object members => ofMembers members
  | _ => ofMembers []

/-- The variables of the environment, as it is when it is asked. -/
def environment [MonadStateOf Environment m] : Lookup m :=
  fun name => return (← getThe Environment).value? name

/-! ## Layers -/

/-- Ask `primary`, and `fallback` for what it does not have. -/
def orElse (primary fallback : Lookup m) : Lookup m :=
  fun name => do
    match ← primary name with
    | some value => return some value
    | none => fallback name

/-- Layers, the first on top. -/
def layers : List (Lookup m) → Lookup m
  | [] => fun _ => return none
  | [layer] => layer
  | layer :: rest => orElse layer (layers rest)

/-! ## Keeping count -/

/-- A name that a layer was asked for. -/
structure Question where
  layer : Nat
  name : String
  deriving DecidableEq, Repr

/-- A lookup that notes each question before it answers. -/
def recorded [MonadStateOf (Array Question) m] (layer : Nat) (lookup : Lookup m) : Lookup m :=
  fun name => do
    modifyThe (Array Question) fun asked => asked.push ⟨layer, name⟩
    lookup name

end Lookup

end TextTemplate
