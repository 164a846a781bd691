import RuleTidy.Json.Reader.Number
import RuleTidy.Json.Value

/-! Values in JSON text. -/

namespace RuleTidy.Json

namespace Reader

def maxDepth : Nat := 127

def items {α : Type} (item : Reader α) : Nat → Bool → Reader (List α)
  | 0, _ => fail .endInList
  | fuel + 1, first => do
    if ← nextItem first then
      let head ← item
      return head :: (← items item fuel false)
    else return []

def entries {α : Type} (value : Reader α) : Nat → Bool → Reader (List (String × α))
  | 0, _ => fail .endInObject
  | fuel + 1, first => do
    match ← nextName first with
    | none => return []
    | some name => do
      colon
      let head ← value
      return (name, head) :: (← entries value fuel false)

/-- A value whose items and entries are read by `inner`, if it may have any. -/
def valueWith (inner : Option (Reader Json)) : Reader Json := do
  match ← peekToken? with
  | none => fail .endInValue
  | some 'n' => do
    drop 1
    word "ull".toList
    return .null
  | some 't' => do
    drop 1
    word "rue".toList
    return .bool true
  | some 'f' => do
    drop 1
    word "alse".toList
    return .bool false
  | some '"' => do
    drop 1
    return .string (← stringBody)
  | some '[' =>
    match inner with
    | none => failAhead .nestingTooDeep
    | some inner => do
      drop 1
      return .array (← enclosed (items inner ((← rest).length + 1) true) closeList)
  | some '\x7b' =>
    match inner with
    | none => failAhead .nestingTooDeep
    | some inner => do
      drop 1
      return .ofEntries (← enclosed (entries inner ((← rest).length + 1) true) closeObject)
  | some c =>
    if c = '-' || c.isDigit then return .number (← number)
    else failAhead .valueExpected

def valueWithin : Nat → Reader Json
  | 0 => valueWith none
  | levels + 1 => valueWith (some (valueWithin levels))

def value : Reader Json := valueWithin maxDepth

end Reader

def parse (text : String) : Except ReadError Json := Reader.value.run text

end RuleTidy.Json
