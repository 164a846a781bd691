import RuleTidy.Number.Basic

/-! JSON values. The names of an object are distinct and stand in the order of their characters,
which is the order of their UTF-8 bytes. -/

namespace RuleTidy

inductive Json where
  | null
  | bool (value : Bool)
  | number (value : Number)
  | string (text : String)
  | array (items : List Json)
  | object (entries : List (String × Json))

namespace Json

mutual

/-- Equality of values, by which a whole number differs from a floating-point number. -/
protected def beq : Json → Json → Bool
  | .null, .null => true
  | .bool a, .bool b => a == b
  | .number a, .number b => a == b
  | .string a, .string b => a == b
  | .array a, .array b => beqItems a b
  | .object a, .object b => beqEntries a b
  | _, _ => false

def beqItems : List Json → List Json → Bool
  | [], [] => true
  | a :: as, b :: bs => Json.beq a b && beqItems as bs
  | _, _ => false

def beqEntries : List (String × Json) → List (String × Json) → Bool
  | [], [] => true
  | (k, a) :: as, (l, b) :: bs => k == l && Json.beq a b && beqEntries as bs
  | _, _ => false

end

instance : BEq Json := ⟨Json.beq⟩

def insertEntry (name : String) (value : Json) : List (String × Json) → List (String × Json)
  | [] => [(name, value)]
  | (other, old) :: rest =>
    if name = other then (name, value) :: rest
    else if name < other then (name, value) :: (other, old) :: rest
    else (other, old) :: insertEntry name value rest

/-- The object with the given entries, where the last value of a name counts. -/
def ofEntries (entries : List (String × Json)) : Json :=
  .object (entries.foldl (fun acc (name, value) => insertEntry name value acc) [])

def get? (json : Json) (name : String) : Option Json :=
  match json with
  | .object entries => entries.lookup name
  | _ => none

mutual

def depth : Json → Nat
  | .array items => depthItems items + 1
  | .object entries => depthEntries entries + 1
  | _ => 0

def depthItems : List Json → Nat
  | [] => 0
  | item :: rest => max (depth item) (depthItems rest)

def depthEntries : List (String × Json) → Nat
  | [] => 0
  | (_, value) :: rest => max (depth value) (depthEntries rest)

end

end Json

end RuleTidy
