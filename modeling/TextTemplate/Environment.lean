/-
TextTemplate.Environment — the variables of a process, as the byte strings
`name=value` that they are.

A name is looked up by its bytes: the first entry that begins with the
name and an equals sign holds its value. Values are any bytes and are read
as text with replacements, so whether a variable is set never depends on
whether its value is text.
-/
import TextTemplate.Text.Bytes
import TextTemplate.Text.Lossy

namespace TextTemplate

/-- The entries, in the order they were made. -/
structure Environment where
  entries : List (List UInt8) := []
  deriving DecidableEq, Repr

namespace Environment

/-- What every entry of a variable begins with. -/
def key (name : String) : List UInt8 :=
  bytesOf name ++ bytesOf "="

/-- The value an entry gives a variable, if it is one of its entries. -/
def valueIn? (name : String) (entry : List UInt8) : Option (List UInt8) :=
  if (key name).isPrefixOf entry then some (entry.drop (key name).length) else none

/-- The bytes of a variable. No variable is called by the empty name or by
one with a NUL in it. -/
def bytes? (env : Environment) (name : String) : Option (List UInt8) :=
  if name.isEmpty || name.toList.contains '\x00' then none
  else env.entries.findSome? (valueIn? name)

/-- The text of a variable. -/
def value? (env : Environment) (name : String) : Option String :=
  (env.bytes? name).map Lossy.decode

/-- Put an entry in the place of the first that `old` holds of, or last. -/
def replaceFirst (old : List UInt8 → Bool) (new : List UInt8) : List (List UInt8) → List (List UInt8)
  | [] => [new]
  | entry :: rest => if old entry then new :: rest else entry :: replaceFirst old new rest

/-- Give a variable a value. -/
def set (env : Environment) (name : String) (value : List UInt8) : Environment where
  entries := replaceFirst (fun entry => (valueIn? name entry).isSome) (key name ++ value) env.entries

/-- Take a variable out. -/
def unset (env : Environment) (name : String) : Environment where
  entries := env.entries.filter fun entry => (valueIn? name entry).isNone

end Environment

end TextTemplate
