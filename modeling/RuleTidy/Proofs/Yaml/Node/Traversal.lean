import RuleTidy.Proofs.Yaml.Node.Depth
import RuleTidy.Yaml.Node.Traversal

/-! Traversals with a stack do what the recursion does. To visit a value comes to the same as to go on
with what the recursion makes of it, whatever waits on the stack. -/

namespace RuleTidy.Yaml.Node

open Source

/-- Goes on with what the recursion made of a value. -/
def wrapMade (span : Span) (stack : List WrapFrame) : Option Node → Except ParseError Node
  | some node => wrapUp span stack node
  | none => .error .nestingTooDeep

def wrapItems (span : Span) (outer : List WrapFrame) (items : List Node) :
    Option (List Node) → Except ParseError Node
  | some rest => wrapUp span outer (.sequence ⟨span, .synthetic⟩ (items.reverse ++ rest))
  | none => .error .nestingTooDeep

def wrapEntries (span : Span) (outer : List WrapFrame) (entries : List (Node × Node)) :
    Option (List (Node × Node)) → Except ParseError Node
  | some rest => wrapUp span outer (.mapping ⟨span, .synthetic⟩ (entries.reverse ++ rest))
  | none => .error .nestingTooDeep

mutual

theorem wrapDown_eq (span : Span) :
    ∀ (levels : Nat) (stack : List WrapFrame) (json : Json), stack.length + levels = maxDepth →
      wrapDown span stack json = wrapMade span stack (ofJsonWithin span levels json)
  | _, _, .null, _ => by rw [wrapDown, ofJsonWithin, wrapMade]
  | _, _, .bool _, _ => by rw [wrapDown, ofJsonWithin, wrapMade]
  | _, _, .number _, _ => by rw [wrapDown, ofJsonWithin, wrapMade]
  | _, _, .string _, _ => by rw [wrapDown, ofJsonWithin, wrapMade]
  | 0, stack, .array _, h => by
      rw [wrapDown, if_pos (by omega), ofJsonWithin, wrapMade]
  | 0, stack, .object _, h => by
      rw [wrapDown, if_pos (by omega), ofJsonWithin, wrapMade]
  | levels + 1, stack, .array items, h => by
      rw [wrapDown, if_neg (by omega), wrapOn_sequence span levels stack [] items (by omega),
        ofJsonWithin]
      cases ofItemsWithin span levels items <;> rfl
  | levels + 1, stack, .object entries, h => by
      rw [wrapDown, if_neg (by omega), wrapOn_mapping span levels stack [] entries none (by omega),
        ofJsonWithin]
      cases ofEntriesWithin span levels entries <;> rfl

theorem wrapOn_sequence (span : Span) :
    ∀ (levels : Nat) (outer : List WrapFrame) (items : List Node) (rest : List Json),
      outer.length + 1 + levels = maxDepth →
        wrapOn span outer (.sequence items rest) =
          wrapItems span outer items (ofItemsWithin span levels rest)
  | levels, outer, items, [], _ => by
      rw [wrapOn, ofItemsWithin, wrapItems, List.append_nil]
  | levels, outer, items, child :: rest, h => by
      rw [wrapOn, wrapDown_eq span levels (.sequence items rest :: outer) child h, ofItemsWithin]
      cases ofJsonWithin span levels child with
      | none => rfl
      | some node =>
          rw [wrapMade, wrapUp, WrapFrame.attach, wrapOn_sequence span levels outer _ rest h]
          cases ofItemsWithin span levels rest <;> simp [wrapItems]

theorem wrapOn_mapping (span : Span) :
    ∀ (levels : Nat) (outer : List WrapFrame) (entries : List (Node × Node))
      (rest : List (String × Json)) (key : Option Node), outer.length + 1 + levels = maxDepth →
        wrapOn span outer (.mapping entries rest key) =
          wrapEntries span outer entries (ofEntriesWithin span levels rest)
  | levels, outer, entries, [], key, _ => by
      rw [wrapOn, ofEntriesWithin, wrapEntries, List.append_nil]
  | levels, outer, entries, (name, child) :: rest, key, h => by
      rw [wrapOn, wrapDown_eq span levels (.mapping entries rest _ :: outer) child h,
        ofEntriesWithin]
      cases ofJsonWithin span levels child with
      | none => rfl
      | some node =>
          rw [wrapMade, wrapUp, WrapFrame.attach, wrapOn_mapping span levels outer _ rest none h]
          cases ofEntriesWithin span levels rest <;> simp [wrapEntries]

end

theorem wrap_eq_ofJson (span : Span) (json : Json) : wrap span json = ofJson span json := by
  rw [wrap, wrapDown_eq span maxDepth [] json (Nat.zero_add _), ofJson]
  cases ofJsonWithin span maxDepth json with
  | none => rfl
  | some node => rw [wrapMade, wrapUp, Option.elim_some]

mutual

theorem unrollDown_eq :
    ∀ (stack : List UnrollFrame) (node : Node), unrollDown stack node = unrollUp stack node.toJson
  | stack, .scalar _ value => by rw [unrollDown, toJson]
  | stack, .sequence _ items => by
      rw [unrollDown, unrollOn_sequence stack [] items, toJson, List.reverse_nil, List.nil_append]
  | stack, .mapping _ entries => by
      rw [unrollDown, unrollOn_mapping stack [] entries "", toJson, Json.ofEntries]

theorem unrollOn_sequence :
    ∀ (outer : List UnrollFrame) (items : List Json) (rest : List Node),
      unrollOn outer (.sequence items rest) =
        unrollUp outer (.array (items.reverse ++ itemsJson rest))
  | outer, items, [] => by rw [unrollOn, itemsJson, List.append_nil]
  | outer, items, child :: rest => by
      rw [unrollOn, unrollDown_eq _ child, unrollUp, UnrollFrame.attach,
        unrollOn_sequence outer _ rest, itemsJson, List.reverse_cons, List.append_assoc,
        List.singleton_append]

theorem unrollOn_mapping :
    ∀ (outer : List UnrollFrame) (entries : List (String × Json)) (rest : List (Node × Node))
      (key : String), unrollOn outer (.mapping entries rest key) =
        unrollUp outer (.object
          ((entriesJson rest).foldl (fun acc (name, value) => Json.insertEntry name value acc)
            entries))
  | outer, entries, [], key => by rw [unrollOn, entriesJson, List.foldl_nil]
  | outer, entries, (name, child) :: rest, key => by
      rw [unrollOn, unrollDown_eq _ child, unrollUp, UnrollFrame.attach,
        unrollOn_mapping outer _ rest "", unrollKey_eq name, entriesJson, List.foldl_cons]

theorem unrollKey_eq : ∀ key : Node, unrollKey key = key.keyText
  | .scalar _ value => by rw [unrollKey, keyText]
  | .sequence info items => by
      rw [unrollKey, unrollDown, unrollOn_sequence [] [] items, unrollUp, keyText]
      rfl
  | .mapping info entries => by
      rw [unrollKey, unrollDown, unrollOn_mapping [] [] entries "", unrollUp, keyText,
        Json.ofEntries]

end

theorem unroll_eq_toJson (node : Node) : unroll node = node.toJson := by
  rw [unroll, unrollDown_eq, unrollUp]

end RuleTidy.Yaml.Node
