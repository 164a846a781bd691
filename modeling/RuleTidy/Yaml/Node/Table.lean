import RuleTidy.Yaml.Node

/-! Tables whose keys are nodes. Entries are looked up by a hash and then by equality, for both of
which a node counts by its value. The value alone is enough to look an entry up. -/

namespace RuleTidy.Yaml

/-- What a node stands for: a node without its own span and layout. The nodes inside keep theirs. -/
inductive Value where
  | scalar (value : Scalar)
  | sequence (items : List Node)
  | mapping (entries : List (Node × Node))

namespace Value

protected def beq : Value → Value → Bool
  | .scalar a, .scalar b => a == b
  | .sequence a, .sequence b => a == b
  | .mapping a, .mapping b => a == b
  | _, _ => false

instance : BEq Value := ⟨Value.beq⟩

end Value

def Node.value : Node → Value
  | .scalar _ value => .scalar value
  | .sequence _ items => .sequence items
  | .mapping _ entries => .mapping entries

def Value.words : Value → List Word
  | .scalar value => .variant 0 :: value.words
  | .sequence items => .variant 1 :: .length items.length :: items.flatMap Node.words
  | .mapping entries =>
    .variant 2 :: .length entries.length ::
      entries.flatMap fun (key, value) => key.words ++ value.words

structure Table (α : Type) where
  hasher : List Word → UInt64
  entries : List (UInt64 × Node × α) := []

namespace Table

variable {α : Type}

def find? (table : Table α) (hash : UInt64) (same : Node → Bool) : Option α :=
  (table.entries.find? fun (stored, key, _) => stored == hash && same key).map (·.2.2)

def get? (table : Table α) (node : Node) : Option α :=
  table.find? (table.hasher node.words) (node == ·)

def getByValue? (table : Table α) (value : Value) : Option α :=
  table.find? (table.hasher value.words) (value == ·.value)

/-- Stores a value under a node. If a node is there already that is equal, this one stays. -/
def store (hash : UInt64) (node : Node) (value : α) :
    List (UInt64 × Node × α) → List (UInt64 × Node × α)
  | [] => [(hash, node, value)]
  | (stored, key, old) :: rest =>
    -- of equal keys the first one stays
    if stored == hash && node == key then (stored, key, value) :: rest
    else (stored, key, old) :: store hash node value rest

def insert (table : Table α) (node : Node) (value : α) : Table α :=
  { table with entries := store (table.hasher node.words) node value table.entries }

def ofList (hasher : List Word → UInt64) (nodes : List (Node × α)) : Table α :=
  nodes.foldl (fun table (node, value) => table.insert node value) { hasher }

def size (table : Table α) : Nat := table.entries.length

end Table

end RuleTidy.Yaml
