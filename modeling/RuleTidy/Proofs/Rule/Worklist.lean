import RuleTidy.Proofs.Rule.Visits

/-! A stack visits what the recursion visits, in the same order. So the problems that are found with a
stack are those of the recursion, and so are the lists of alternatives up to their order. -/

namespace RuleTidy.Rule

open Report Yaml

namespace Stop

def follow (stop : Stop) (visit : Visit) : Stop :=
  ⟨visit.node, stop.path ++ visit.path, stop.depth + visit.path.length⟩

/-- The stops at and below a stop, in the order of the recursion. -/
def reach (stop : Stop) : List Stop := (visits stop.node).map stop.follow

theorem follow_inside (stop : Stop) (place : Nat) (segment : Segment) (node : Node)
    (visit : Visit) :
    stop.follow (visit.inside place segment) = (stop.under segment node).follow visit := by
  have hpath : stop.path ++ segment :: visit.path = stop.path ++ [segment] ++ visit.path := by simp
  have hdepth : stop.depth + (visit.path.length + 1) = stop.depth + 1 + visit.path.length := by omega
  simp only [follow, Visit.inside, under, List.length_cons, hpath, hdepth]

theorem map_follow_inside (stop : Stop) (place : Nat) (segment : Segment) (node : Node) :
    ((visits node).map (·.inside place segment)).map stop.follow =
      (stop.under segment node).reach := by
  rw [List.map_map]
  exact List.map_congr_left fun visit _ => stop.follow_inside place segment node visit

theorem map_follow_visitsOfItems (stop : Stop) (items : List Node) (start : Nat) :
    (visitsOfItems start items).map stop.follow =
      ((items.zipIdx start).map fun (item, index) =>
        stop.under (.index index) item).reverse.flatMap reach := by
  induction items generalizing start with
  | nil => rfl
  | cons item rest ih =>
      rw [visitsOfItems, List.map_append, ih, map_follow_inside stop start (.index start) item,
        List.zipIdx_cons, List.map_cons, List.reverse_cons, List.flatMap_append,
        List.flatMap_singleton]

theorem map_follow_visitsOfEntries (stop : Stop) (entries : List (Node × Node)) (start : Nat) :
    (visitsOfEntries start entries).map stop.follow =
      (stop.operands entries).reverse.flatMap reach := by
  induction entries generalizing start with
  | nil => rfl
  | cons entry rest ih =>
      obtain ⟨key, value⟩ := entry
      rw [visitsOfEntries, List.map_append, ih, operands_cons, List.reverse_append,
        List.flatMap_append]
      cases listOperator? key value with
      | none => rfl
      | some name =>
          have hbelow := map_follow_inside stop start (.key name) value
          simp only [hbelow, Option.map_some, Option.toList_some, List.reverse_singleton,
            List.flatMap_singleton]

theorem reach_eq (stop : Stop) : stop.reach = stop :: stop.below.reverse.flatMap reach := by
  obtain ⟨node, path, depth⟩ := stop
  have hhere : follow ⟨node, path, depth⟩ ⟨[], [], node⟩ = ⟨node, path, depth⟩ := by
    simp [follow]
  cases node with
  | scalar info value => simp [reach, visits, hhere, below]
  | sequence info items =>
      rw [reach, visits, List.map_cons, hhere, map_follow_visitsOfItems]
      rfl
  | mapping info entries =>
      rw [reach, visits, List.map_cons, hhere, map_follow_visitsOfEntries]
      rfl

end Stop

/-- A stack leads to the same nodes as the recursion at each of the stops that are on it. -/
theorem visited_eq (stack : List Stop) : visited stack = stack.flatMap (·.reach) := by
  fun_induction visited stack with
  | case1 => rfl
  | case2 stop rest ih =>
      rw [ih, List.flatMap_cons, stop.reach_eq, List.flatMap_append, List.cons_append]

theorem visited_start (rule : Rule) :
    visited [rule.start] = (visits rule.node).map rule.start.follow := by
  rw [visited_eq, List.flatMap_singleton, Stop.reach]
  rfl

/-! Problems. -/

theorem isSome_listOperator? (key value : Node) :
    (listOperator? key value).isSome =
      (decide (key.text?.getD "" ∈ listOperators) && value.items?.isSome) := by
  unfold listOperator?
  cases key.text? with
  | none =>
      have hempty : "" ∉ listOperators := by decide
      simp [hempty]
  | some name => cases hlist : decide (name ∈ listOperators) && value.items?.isSome <;> simp_all

mutual

theorem operatorProblems_eq (rule : Rule) :
    ∀ node, operatorProblems rule node =
      (visits node).flatMap fun visit => rule.entryProblems (visit.node.entries?.getD [])
  | .scalar info value => by
      rw [operatorProblems, visits]
      rfl
  | .sequence info items => by
      rw [operatorProblems, visits, List.flatMap_cons, itemProblems_eq rule 0 items]
      rfl
  | .mapping info entries => by
      rw [operatorProblems, visits, List.flatMap_cons, listProblems_eq rule 0 entries]
      rfl

theorem itemProblems_eq (rule : Rule) :
    ∀ (start : Nat) (items : List Node), itemProblems rule items =
      (visitsOfItems start items).flatMap fun visit =>
        rule.entryProblems (visit.node.entries?.getD [])
  | _, [] => by
      rw [itemProblems, visitsOfItems]
      rfl
  | start, item :: rest => by
      rw [itemProblems, visitsOfItems, List.flatMap_append, List.flatMap_map,
        itemProblems_eq rule (start + 1) rest, operatorProblems_eq rule item]
      rfl

theorem listProblems_eq (rule : Rule) :
    ∀ (start : Nat) (entries : List (Node × Node)), listProblems rule entries =
      (visitsOfEntries start entries).flatMap fun visit =>
        rule.entryProblems (visit.node.entries?.getD [])
  | _, [] => by
      rw [listProblems, visitsOfEntries]
      rfl
  | start, (key, value) :: rest => by
      rw [listProblems, visitsOfEntries, List.flatMap_append,
        listProblems_eq rule (start + 1) rest, operatorProblems_eq rule value,
        ← isSome_listOperator?]
      cases listOperator? key value with
      | none => rfl
      | some name =>
          rw [Option.isSome_some, if_pos rfl, List.flatMap_map]
          rfl

end

theorem check_eq_problems (rule : Rule) : rule.check = rule.problems := by
  rw [check, problems, visited_start, List.flatMap_map, operatorProblems_eq]
  rfl

end RuleTidy.Rule
