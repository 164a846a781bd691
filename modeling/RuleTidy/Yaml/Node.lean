import RuleTidy.Source.Span
import RuleTidy.Yaml.Scalar
import RuleTidy.Yaml.Token

/-! The nodes of a configuration, each with the span it was read from and the way it was written.
Neither counts for equality: a node stands for its value. -/

namespace RuleTidy.Yaml

open Source

inductive Layout where
  | scalar (style : ScalarStyle)
  /-- A collection by indentation. -/
  | block
  /-- A collection in brackets or braces. -/
  | flow
  /-- Not written anywhere. -/
  | synthetic
  deriving DecidableEq

structure Info where
  span : Span
  layout : Layout
  deriving DecidableEq

deriving instance Hashable for Binary64, Number

inductive Word where
  /-- Which alternative of a type follows. -/
  | variant (index : Nat)
  /-- How many items follow. -/
  | length (n : Nat)
  | bool (value : Bool)
  | number (value : Number)
  | text (text : String)
  deriving DecidableEq, Hashable

/-- A number as a hasher sees it, for which a zero has no sign. -/
def unsignedZero : Number → Number
  | .real x => if x.isZero then .real (.zero false) else .real x
  | n => n

def Scalar.words : Scalar → List Word
  | .null => [.variant 0]
  | .bool b => [.variant 1, .bool b]
  | .number n => [.variant 2, .number (unsignedZero n)]
  | .string text => [.variant 3, .text text]

inductive Node where
  | scalar (info : Info) (value : Scalar)
  | sequence (info : Info) (items : List Node)
  /-- Entries in their order. Keys are nodes too, and may repeat. -/
  | mapping (info : Info) (entries : List (Node × Node))

namespace Node

theorem induction {P : Node → Prop} (node : Node)
    (scalar : ∀ info value, P (.scalar info value))
    (sequence : ∀ info items, (∀ item ∈ items, P item) → P (.sequence info items))
    (mapping : ∀ info entries, (∀ entry ∈ entries, P entry.1 ∧ P entry.2) →
      P (.mapping info entries)) : P node :=
  @Node.rec P (fun items => ∀ item ∈ items, P item)
    (fun entries => ∀ entry ∈ entries, P entry.1 ∧ P entry.2) (fun entry => P entry.1 ∧ P entry.2)
    scalar sequence mapping
    nofun (fun _ _ hitem hrest => List.forall_mem_cons.2 ⟨hitem, hrest⟩)
    nofun (fun _ _ hentry hrest => List.forall_mem_cons.2 ⟨hentry, hrest⟩)
    (fun _ _ hkey hvalue => ⟨hkey, hvalue⟩) node

def info : Node → Info
  | .scalar info _ => info
  | .sequence info _ => info
  | .mapping info _ => info

def withInfo (info : Info) : Node → Node
  | .scalar _ value => .scalar info value
  | .sequence _ items => .sequence info items
  | .mapping _ entries => .mapping info entries

def span (node : Node) : Span := node.info.span

def layout (node : Node) : Layout := node.info.layout

def scalar? : Node → Option Scalar
  | .scalar _ value => some value
  | _ => none

def text? : Node → Option String
  | .scalar _ (.string text) => some text
  | _ => none

def items? : Node → Option (List Node)
  | .sequence _ items => some items
  | _ => none

def entries? : Node → Option (List (Node × Node))
  | .mapping _ entries => some entries
  | _ => none

def ofString (text : String) (span : Span) : Node := .scalar ⟨span, .synthetic⟩ (.string text)

/-- The value of the first entry whose key is the string `key`. -/
def get? (node : Node) (key : String) : Option Node :=
  match node with
  | .mapping _ entries => (entries.find? fun entry => entry.1.text? = some key).map (·.2)
  | _ => none

mutual

protected def beq : Node → Node → Bool
  | .scalar _ a, .scalar _ b => a == b
  | .sequence _ a, .sequence _ b => beqItems a b
  | .mapping _ a, .mapping _ b => beqEntries a b
  | _, _ => false

def beqItems : List Node → List Node → Bool
  | [], [] => true
  | a :: as, b :: bs => Node.beq a b && beqItems as bs
  | _, _ => false

def beqEntries : List (Node × Node) → List (Node × Node) → Bool
  | [], [] => true
  | (k, a) :: as, (l, b) :: bs => Node.beq k l && Node.beq a b && beqEntries as bs
  | _, _ => false

end

instance : BEq Node := ⟨Node.beq⟩

mutual

def words : Node → List Word
  | .scalar _ value => .variant 0 :: value.words
  | .sequence _ items => .variant 1 :: .length items.length :: wordsOfItems items
  | .mapping _ entries => .variant 2 :: .length entries.length :: wordsOfEntries entries

def wordsOfItems : List Node → List Word
  | [] => []
  | item :: rest => words item ++ wordsOfItems rest

def wordsOfEntries : List (Node × Node) → List Word
  | [] => []
  | (key, value) :: rest => words key ++ words value ++ wordsOfEntries rest

end

instance : Hashable Node := ⟨fun node => hash node.words⟩

mutual

def depth : Node → Nat
  | .scalar .. => 0
  | .sequence _ items => depthItems items + 1
  | .mapping _ entries => depthEntries entries + 1

def depthItems : List Node → Nat
  | [] => 0
  | item :: rest => max (depth item) (depthItems rest)

def depthEntries : List (Node × Node) → Nat
  | [] => 0
  | (key, value) :: rest => max (max (depth key) (depth value)) (depthEntries rest)

end

end Node

end RuleTidy.Yaml
