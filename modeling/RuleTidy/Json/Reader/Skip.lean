import RuleTidy.Json.Reader.Basic

/-! Values that nothing asks for. They are taken without being built, to any depth, and with fewer
demands: numbers may have any size and surrogates need no partner. -/

namespace RuleTidy.Json.Reader

inductive Bracket where
  | list
  | object
  deriving DecidableEq

def skipStringTail : Nat → Reader Unit
  | 0 => fail .endInString
  | fuel + 1 => do
    match ← peek? with
    | none => fail .endInString
    | some '"' => drop 1
    | some '\\' => do
      drop 1
      match ← peek? with
      | none => fail .endInString
      | some 'u' => do
        drop 1
        let _ ← hexQuad
        skipStringTail fuel
      | some c =>
        if (simpleEscape? c).isSome then do
          drop 1
          skipStringTail fuel
        else failAhead .escapeInvalid
    | some c =>
      if c.toNat < 0x20 then failAhead .controlCharacter
      else do
        drop 1
        skipStringTail fuel

def skipString : Reader Unit := do skipStringTail ((← rest).length + 1)

def skipExponent : Reader Unit := do
  drop 1
  let sign ← peek?
  if sign = some '+' ∨ sign = some '-' then drop 1
  if (← digits).isEmpty then failAhead .numberInvalid

def skipFraction : Reader Unit := do
  drop 1
  if (← digits).isEmpty then failAhead .numberInvalid
  else
    match ← peek? with
    | some 'e' | some 'E' => skipExponent
    | _ => pure ()

def skipNumber : Reader Unit := do
  let first ← peek?
  if !first.any Char.isDigit then failAhead .numberInvalid
  else
    if first = some '0' then drop 1
    else
      let _ ← digits
    if first = some '0' && (← peek?).any Char.isDigit then failAhead .numberInvalid
    else
      match ← peek? with
      | some '.' => skipFraction
      | some 'e' | some 'E' => skipExponent
      | _ => pure ()

def skipName : Bracket → Reader Unit
  | .list => pure ()
  | .object => do
    match ← peekToken? with
    | none => fail .endInObject
    | some '"' => do
      drop 1
      skipString
      colon
    | some _ => failAhead .keyNotString

inductive Place where
  | value
  | inside
  | behindValue
  deriving DecidableEq

/-- Takes a value inside the given brackets and goes on until they are closed. -/
def skipWithin : Nat → Place → List Bracket → Reader Unit
  | 0, _, _ => fail .endInValue
  | fuel + 1, .value, brackets => do
    match ← peekToken? with
    | none => fail .endInValue
    | some 'n' => do
      drop 1
      word "ull".toList
      skipWithin fuel .behindValue brackets
    | some 't' => do
      drop 1
      word "rue".toList
      skipWithin fuel .behindValue brackets
    | some 'f' => do
      drop 1
      word "alse".toList
      skipWithin fuel .behindValue brackets
    | some '"' => do
      drop 1
      skipString
      skipWithin fuel .behindValue brackets
    | some '[' => do
      drop 1
      skipWithin fuel .inside (.list :: brackets)
    | some '\x7b' => do
      drop 1
      skipWithin fuel .inside (.object :: brackets)
    | some '-' => do
      drop 1
      skipNumber
      skipWithin fuel .behindValue brackets
    | some c =>
      if c.isDigit then do
        skipNumber
        skipWithin fuel .behindValue brackets
      else failAhead .valueExpected
  | _ + 1, _, [] => pure ()
  | fuel + 1, place, bracket :: outer => do
    let next ← peekToken?
    match next with
    | none => fail (if bracket = .list then .endInList else .endInObject)
    | some c =>
      if c = (if bracket = .list then ']' else '\x7d') then do
        drop 1
        skipWithin fuel .behindValue outer
      else if place = .inside then do
        skipName bracket
        skipWithin fuel .value (bracket :: outer)
      else if c = ',' then do
        drop 1
        skipName bracket
        skipWithin fuel .value (bracket :: outer)
      else failAhead (if bracket = .list then .listEndExpected else .objectEndExpected)

def skipValue : Reader Unit := do skipWithin (2 * (← rest).length + 2) .value []

end RuleTidy.Json.Reader
