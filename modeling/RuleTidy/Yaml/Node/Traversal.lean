import RuleTidy.Yaml.Node.Json

/-! Configurations and JSON values, made of each other one node at a time. The collections that are
open wait on a stack, so that no depth of nesting is too much for the traversal itself. -/

namespace RuleTidy.Yaml.Node

open Source

/-! ### Configurations of JSON values -/

/-- A collection of which a configuration is being made. Its children are complete, newest first, or
still to be visited. The name of the one that is being visited waits as a key. -/
inductive WrapFrame where
  | sequence (items : List Node) (rest : List Json)
  | mapping (entries : List (Node × Node)) (rest : List (String × Json)) (key : Option Node)

namespace WrapFrame

def attach (child : Node) : WrapFrame → WrapFrame
  | .sequence items rest => .sequence (child :: items) rest
  | .mapping entries rest (some key) => .mapping ((key, child) :: entries) rest none
  | .mapping entries rest none => .mapping entries rest none

noncomputable def pending : WrapFrame → Nat
  | .sequence _ rest => sizeOf rest
  | .mapping _ rest _ => sizeOf rest

@[simp] theorem pending_sequence (items : List Node) (rest : List Json) :
    (sequence items rest).pending = sizeOf rest := rfl

@[simp] theorem pending_mapping (entries : List (Node × Node)) (rest : List (String × Json))
    (key : Option Node) : (mapping entries rest key).pending = sizeOf rest := rfl

@[simp] theorem pending_attach (child : Node) (frame : WrapFrame) :
    (frame.attach child).pending = frame.pending := by
  rcases frame with _ | ⟨_, _, _ | _⟩ <;> rfl

end WrapFrame

mutual

/-- Makes a configuration of a value inside the collections on the stack. That too many are open
shows before it does whether the new one is empty. -/
def wrapDown (span : Span) (stack : List WrapFrame) : Json → Except ParseError Node
  | .null => wrapUp span stack (.scalar ⟨span, .synthetic⟩ .null)
  | .bool b => wrapUp span stack (.scalar ⟨span, .synthetic⟩ (.bool b))
  | .number n => wrapUp span stack (.scalar ⟨span, .synthetic⟩ (.number n))
  | .string text => wrapUp span stack (.ofString text span)
  | .array items =>
    if stack.length ≥ maxDepth then .error .nestingTooDeep
    else wrapOn span stack (.sequence [] items)
  | .object entries =>
    if stack.length ≥ maxDepth then .error .nestingTooDeep
    else wrapOn span stack (.mapping [] entries none)
termination_by value => (sizeOf value + stack.foldr (·.pending + ·) 0, 0)

def wrapOn (span : Span) (outer : List WrapFrame) : WrapFrame → Except ParseError Node
  | .sequence items (child :: rest) => wrapDown span (.sequence items rest :: outer) child
  | .sequence items [] => wrapUp span outer (.sequence ⟨span, .synthetic⟩ items.reverse)
  | .mapping entries ((name, child) :: rest) _ =>
    wrapDown span (.mapping entries rest (some (.ofString name span)) :: outer) child
  | .mapping entries [] _ => wrapUp span outer (.mapping ⟨span, .synthetic⟩ entries.reverse)
termination_by frame => (frame.pending + outer.foldr (·.pending + ·) 0, 0)

def wrapUp (span : Span) (stack : List WrapFrame) (node : Node) : Except ParseError Node :=
  match stack with
  | [] => .ok node
  | frame :: outer => wrapOn span outer (frame.attach node)
termination_by (stack.foldr (·.pending + ·) 0, 1)

end

def wrap (span : Span) (json : Json) : Except ParseError Node := wrapDown span [] json

/-! ### JSON values of configurations -/

/-- A collection whose value is being made. The text of the key of the child that is being visited
waits for the value. -/
inductive UnrollFrame where
  | sequence (items : List Json) (rest : List Node)
  | mapping (entries : List (String × Json)) (rest : List (Node × Node)) (key : String)

namespace UnrollFrame

def attach (child : Json) : UnrollFrame → UnrollFrame
  | .sequence items rest => .sequence (child :: items) rest
  | .mapping entries rest key => .mapping (Json.insertEntry key child entries) rest ""

noncomputable def pending : UnrollFrame → Nat
  | .sequence _ rest => sizeOf rest
  | .mapping _ rest _ => sizeOf rest

@[simp] theorem pending_sequence (items : List Json) (rest : List Node) :
    (sequence items rest).pending = sizeOf rest := rfl

@[simp] theorem pending_mapping (entries : List (String × Json)) (rest : List (Node × Node))
    (key : String) : (mapping entries rest key).pending = sizeOf rest := rfl

@[simp] theorem pending_attach (child : Json) (frame : UnrollFrame) :
    (frame.attach child).pending = frame.pending := by
  cases frame <;> rfl

end UnrollFrame

mutual

def unrollDown (stack : List UnrollFrame) : Node → Json
  | .scalar _ value => unrollUp stack (scalarJson value)
  | .sequence _ items => unrollOn stack (.sequence [] items)
  | .mapping _ entries => unrollOn stack (.mapping [] entries "")
termination_by node => (sizeOf node + stack.foldr (·.pending + ·) 0, 0)

def unrollOn (outer : List UnrollFrame) : UnrollFrame → Json
  | .sequence items (child :: rest) => unrollDown (.sequence items rest :: outer) child
  | .sequence items [] => unrollUp outer (.array items.reverse)
  | .mapping entries ((key, child) :: rest) _ =>
    unrollDown (.mapping entries rest (unrollKey key) :: outer) child
  | .mapping entries [] _ => unrollUp outer (.object entries)
termination_by frame => (frame.pending + outer.foldr (·.pending + ·) 0, 0)

def unrollUp (stack : List UnrollFrame) (value : Json) : Json :=
  match stack with
  | [] => value
  | frame :: outer => unrollOn outer (frame.attach value)
termination_by (stack.foldr (·.pending + ·) 0, 1)

def unrollKey (key : Node) : String :=
  match key with
  | .scalar _ value => value.display
  -- a collection is traversed on a stack of its own
  | .sequence info items => (unrollDown [] (.sequence info items)).render
  | .mapping info entries => (unrollDown [] (.mapping info entries)).render
termination_by (sizeOf key, 1)

end

def unroll (node : Node) : Json := unrollDown [] node

end RuleTidy.Yaml.Node
