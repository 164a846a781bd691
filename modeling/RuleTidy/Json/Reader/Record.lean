import RuleTidy.Json.Reader.Number
import RuleTidy.Json.Reader.Skip
import RuleTidy.Json.Reader.Value
import RuleTidy.Text.Escape

/-! Records in JSON text: values of known types, written as objects with known names or as lists in
the order of the fields. -/

namespace RuleTidy.Json.Reader

def describeNumber : Number → String
  | .integer n => s!"integer `{n}`"
  | .real x => s!"floating point `{(Number.real x).render}`"

def typeInvalid {α : Type} (expected : String) : Reader α := do
  match ← peek? with
  | some 'n' => do
    drop 1
    word "ull".toList
    fail (.typeInvalid "null" expected)
  | some 't' => do
    drop 1
    word "rue".toList
    fail (.typeInvalid "boolean `true`" expected)
  | some 'f' => do
    drop 1
    word "alse".toList
    fail (.typeInvalid "boolean `false`" expected)
  | some '"' => do
    drop 1
    let text ← stringBody
    fail (.typeInvalid ("string " ++ Text.quoteDisplay text) expected)
  | some '[' => fail (.typeInvalid "sequence" expected)
  | some '\x7b' => fail (.typeInvalid "map" expected)
  | some c =>
    if c = '-' || c.isDigit then do
      let n ← number
      fail (.typeInvalid (describeNumber n) expected)
    else failAhead .valueExpected
  | none => failAhead .valueExpected

def valueStart : Reader Char := do
  match ← peekToken? with
  | some c => return c
  | none => fail .endInValue

def natural (name : String) (bound : Nat) : Reader Nat := do
  let c ← valueStart
  if c = '-' || c.isDigit then
    match ← number with
    | .integer n =>
      if 0 ≤ n ∧ n < bound then return n.toNat
      else fail (.valueInvalid (describeNumber (.integer n)) name)
    | .real x => fail (.typeInvalid (describeNumber (.real x)) name)
  else typeInvalid name

def string (expected : String) : Reader String := do
  if (← valueStart) = '"' then
    drop 1
    stringBody
  else typeInvalid expected

def nullable {α : Type} (value : Reader α) : Reader (Option α) := do
  match ← peekToken? with
  | some 'n' => do
    drop 1
    word "ull".toList
    return none
  | _ => return some (← value)

def list {α : Type} (item : Reader α) (expected : String) : Reader (List α) := do
  if (← valueStart) = '[' then
    drop 1
    enclosed (items item ((← rest).length + 1) true) closeList
  else typeInvalid expected

def itemAt {α : Type} (expected : String) (index : Nat) (item : Reader α) : Reader α := do
  if ← nextItem (index = 0) then item else failAround (.lengthInvalid index expected)

def itemsFrom {α : Type} (expected : String) (item : Reader α) : Nat → Nat → Reader (List α)
  | 0, _ => return []
  | n + 1, index => do
    let head ← itemAt expected index item
    return head :: (← itemsFrom expected item n (index + 1))

/-- A record, written as an object or as a list. -/
def record {α : Type} (expected : String) (positional named : Reader α) : Reader α := do
  match ← valueStart with
  | '[' => do
    drop 1
    enclosed positional closeList
  | '\x7b' => do
    drop 1
    enclosed named closeObject
  | _ => typeInvalid expected

def fold {σ : Type} (entry : String → σ → Reader σ) : Nat → Bool → σ → Reader σ
  | 0, _, _ => fail .endInObject
  | fuel + 1, first, state => do
    match ← nextName first with
    | none => return state
    | some name => fold entry fuel false (← entry name state)

def foldEntries {σ : Type} (entry : String → σ → Reader σ) (state : σ) : Reader σ := do
  fold entry ((← rest).length + 1) true state

def field {α : Type} (name : String) (old : Option α) (value : Reader α) : Reader (Option α) := do
  if old.isSome then failAround (.fieldRepeated name)
  else
    colon
    return some (← value)

def unknownField : Reader Unit := do
  colon
  skipValue

def required {α : Type} (name : String) : Option α → Reader α
  | some value => pure value
  | none => failAround (.fieldMissing name)

/-- One of several words, or an object with one of them and null. -/
def variant {α : Type} (known : List (String × α)) : Reader α := do
  let named : Reader α := do
    if (← valueStart) = '"' then
      drop 1
      let name ← stringBody
      match known.lookup name with
      | some value => return value
      | none => fail (.variantUnknown name (known.map (·.1)))
    else typeInvalid "variant identifier"
  match ← valueStart with
  | '"' => named
  | '\x7b' => do
    drop 1
    let value ← named
    colon
    if (← valueStart) = 'n' then
      drop 1
      word "ull".toList
      match ← peekToken? with
      | some '\x7d' => do
        drop 1
        return value
      | some _ => fail .valueExpected
      | none => fail .endInObject
    else typeInvalid "unit"
  | _ => failAhead .valueExpected

end RuleTidy.Json.Reader
