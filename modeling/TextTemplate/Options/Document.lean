/-
TextTemplate.Options.Document — options and policies as JSON.

A policy is a string, `"fail"` or `"leave"`, or an object of one member
with such a key and null. As in any object, a key that is no string is
malformed: its type is not looked at. Options are an object in which the member
`missing-key` holds the policy; members of any other name are passed over,
whatever they hold, and without that member the policy is the default one.
An array of the policy alone, or of nothing, stands for the same. Two
members `missing-key` are refused even if they agree.
-/
import TextTemplate.Failure
import TextTemplate.Json.Expected
import TextTemplate.Options

namespace TextTemplate

open Json Json.Reader

namespace Policy

/-! ## Policies -/

def word : Policy → String
  | .fail => "fail"
  | .leave => "leave"

/-- The policy of a word. -/
def ofWord? (word : String) : Option Policy :=
  if word = "fail" then some .fail
  else if word = "leave" then some .leave
  else none

/-- The word of a policy, whose opening quote is taken off already. -/
def readWord : Reader Policy := do
  let word ← Json.Text.body Json.Text.character
  match ofWord? word with
  | some policy => return policy
  | none => throw (.refused s!"unknown variant `{word}`, expected `fail` or `leave`")

/-- What stands behind a policy that is written as a key. -/
def readUnit (policy : Policy) : Reader Policy := do
  nullOr "unit"
  return policy

/-- A policy. -/
def read : Reader Policy := do
  blanks
  match ← peek with
  | none => throw .truncated
  | some '"' =>
    skip
    readWord
  | some '\x7b' =>
    skip
    let policy ← member readWord readUnit
    blanks
    expect '\x7d'
    return policy
  | some _ => throw .malformed

/-- The policy of a document. -/
def ofJson (document : String) : Except Json.Error Policy :=
  Reader.document read document

/-- A policy as a document. -/
def toJson (policy : Policy) : String :=
  Json.Text.write policy.word

end Policy

namespace Options

/-! ## Options -/

/-- The key of the policy. -/
def policyKey : String :=
  "missing-key"

/-- A key, which is not to be the policy's again. -/
def readKey (found : Option Policy) : Reader String := do
  let key ← Json.Text.body Json.Text.character
  if key = policyKey ∧ found.isSome then
    throw (.refused s!"duplicate field `{policyKey}`")
  return key

/-- One member of an options object, after those that gave `found`. -/
def readMember (found : Option Policy) : Reader (Option Policy) :=
  member (readKey found) fun key => do
    if key = policyKey then
      return some (← Policy.read)
    else
      skipValue
      return found

/-- Options. -/
def read : Reader Options := do
  blanks
  match ← peek with
  | some '\x7b' =>
    skip
    let found ← items '\x7d' readMember none
    return ⟨found.getD .fail⟩
  | some '[' =>
    skip
    blanks
    if (← peek) = some ']' then
      skip
      return {}
    let policy ← Policy.read
    blanks
    expect ']'
    return ⟨policy⟩
  | _ => wrongType "struct RenderOptions"

/-- The options of a document. -/
def ofJson (document : String) : Except Failure Options :=
  (Reader.document read document).mapError .options

/-- Options as a document. -/
def toJson (options : Options) : String :=
  (Value.object [(policyKey, .text options.missing.word)]).write

end Options

end TextTemplate
