import Mathlib.Data.List.Nodup
import RuleTidy.Rule.Worklist

/-! The nodes that the operators of a rule lead to. A way to a node is told by the place of each step
among the children, so that two entries with one key are two ways. Every node that there is a way to
is visited, and along no way is there a second visit. -/

namespace RuleTidy.Rule

open Report Yaml

theorem listOperator?_eq_some {key value : Node} {name : String} :
    listOperator? key value = some name ↔
      key.text? = some name ∧ name ∈ listOperators ∧ value.items?.isSome = true := by
  simp [listOperator?, Option.filter_eq_some_iff]

/-- A way down to a node, given by the places of its steps and spelled as a path. It leads to any
item of a sequence, and from a mapping to the operands that are lists. -/
inductive Leads : Node → List Nat → Path → Node → Prop
  | here (node : Node) : Leads node [] [] node
  | item {info : Info} {items : List Node} {index : Nat} {item found : Node} {places : List Nat}
      {path : Path} (at_index : items[index]? = some item) (rest : Leads item places path found) :
      Leads (.sequence info items) (index :: places) (.index index :: path) found
  | operand {info : Info} {entries : List (Node × Node)} {place : Nat} {key value found : Node}
      {name : String} {places : List Nat} {path : Path}
      (at_place : entries[place]? = some (key, value)) (named : key.text? = some name)
      (operator : name ∈ listOperators) (is_list : value.items?.isSome = true)
      (rest : Leads value places path found) :
      Leads (.mapping info entries) (place :: places) (.key name :: path) found

structure Visit where
  places : List Nat
  path : Path
  node : Node

def Visit.inside (place : Nat) (segment : Segment) (visit : Visit) : Visit :=
  ⟨place :: visit.places, segment :: visit.path, visit.node⟩

mutual

/-- The visits at a node and below it, in the order in which a stack makes them. -/
def visits : Node → List Visit
  | .scalar info value => [⟨[], [], .scalar info value⟩]
  | .sequence info items => ⟨[], [], .sequence info items⟩ :: visitsOfItems 0 items
  | .mapping info entries => ⟨[], [], .mapping info entries⟩ :: visitsOfEntries 0 entries

def visitsOfItems (index : Nat) : List Node → List Visit
  | [] => []
  | item :: rest =>
    visitsOfItems (index + 1) rest ++ (visits item).map (·.inside index (.index index))

def visitsOfEntries (place : Nat) : List (Node × Node) → List Visit
  | [] => []
  | (key, value) :: rest =>
    visitsOfEntries (place + 1) rest ++
      match listOperator? key value with
      | none => []
      | some name => (visits value).map (·.inside place (.key name))

end

theorem mem_visitsOfItems {visit : Visit} {start : Nat} {items : List Node} :
    visit ∈ visitsOfItems start items ↔
      ∃ i item, items[i]? = some item ∧
        ∃ inner ∈ visits item, inner.inside (start + i) (.index (start + i)) = visit := by
  induction items generalizing start with
  | nil => simp [visitsOfItems]
  | cons first items ih =>
      rw [visitsOfItems, List.mem_append, List.mem_map, ih]
      constructor
      · rintro (⟨i, item, hitem, hvisit⟩ | hvisit)
        · rw [Nat.add_assoc, Nat.add_comm 1 i] at hvisit
          exact ⟨i + 1, item, hitem, hvisit⟩
        · exact ⟨0, first, rfl, hvisit⟩
      · rintro ⟨i, item, hitem, hvisit⟩
        cases i with
        | zero =>
            obtain rfl := Option.some.inj hitem
            exact .inr hvisit
        | succ i =>
            rw [Nat.add_comm i 1, ← Nat.add_assoc] at hvisit
            exact .inl ⟨i, item, hitem, hvisit⟩

theorem mem_visitsOfEntries {visit : Visit} {start : Nat} {entries : List (Node × Node)} :
    visit ∈ visitsOfEntries start entries ↔
      ∃ i key value name, entries[i]? = some (key, value) ∧ listOperator? key value = some name ∧
        ∃ inner ∈ visits value, inner.inside (start + i) (.key name) = visit := by
  induction entries generalizing start with
  | nil => simp [visitsOfEntries]
  | cons entry entries ih =>
      obtain ⟨key, value⟩ := entry
      rw [visitsOfEntries, List.mem_append, ih]
      constructor
      · rintro (⟨i, key', value', name, hentry, hname, hvisit⟩ | hvisit)
        · rw [Nat.add_assoc, Nat.add_comm 1 i] at hvisit
          exact ⟨i + 1, key', value', name, hentry, hname, hvisit⟩
        · cases hname : listOperator? key value with
          | none => simp [hname] at hvisit
          | some name =>
              rw [hname] at hvisit
              exact ⟨0, key, value, name, rfl, hname, List.mem_map.1 hvisit⟩
      · rintro ⟨i, key', value', name, hentry, hname, hvisit⟩
        cases i with
        | zero =>
            obtain ⟨rfl, rfl⟩ := Prod.mk.inj (Option.some.inj hentry)
            rw [hname]
            exact .inr (List.mem_map.2 hvisit)
        | succ i =>
            rw [Nat.add_comm i 1, ← Nat.add_assoc] at hvisit
            exact .inl ⟨i, key', value', name, hentry, hname, hvisit⟩

theorem mem_visits_here (node : Node) : ⟨[], [], node⟩ ∈ visits node := by
  cases node <;> simp [visits]

theorem mem_visits_of_leads {node found : Node} {places : List Nat} {path : Path}
    (h : Leads node places path found) : ⟨places, path, found⟩ ∈ visits node := by
  induction h with
  | here node => exact mem_visits_here node
  | @item info items index item found places path at_index _ ih =>
      rw [visits]
      refine List.mem_cons_of_mem _ (mem_visitsOfItems.2 ⟨index, item, at_index, _, ih, ?_⟩)
      rw [Nat.zero_add]
      rfl
  | @operand info entries place key value found name places path at_place named operator is_list
      _ ih =>
      rw [visits]
      refine List.mem_cons_of_mem _ (mem_visitsOfEntries.2 ⟨place, key, value, name, at_place,
        listOperator?_eq_some.2 ⟨named, operator, is_list⟩, _, ih, ?_⟩)
      rw [Nat.zero_add]
      rfl

theorem visits_cases {visit : Visit} {node : Node} (h : visit ∈ visits node) :
    ⟨[], [], node⟩ = visit ∨
      (∃ info items, node = .sequence info items ∧ visit ∈ visitsOfItems 0 items) ∨
      ∃ info entries, node = .mapping info entries ∧ visit ∈ visitsOfEntries 0 entries := by
  cases node with
  | scalar info value => exact .inl (List.mem_singleton.1 h).symm
  | sequence info items =>
      rcases List.mem_cons.1 h with hhere | hbelow
      · exact .inl hhere.symm
      · exact .inr (.inl ⟨info, items, rfl, hbelow⟩)
  | mapping info entries =>
      rcases List.mem_cons.1 h with hhere | hbelow
      · exact .inl hhere.symm
      · exact .inr (.inr ⟨info, entries, rfl, hbelow⟩)

theorem leads_of_mem_visits {visit : Visit} {node : Node} (h : visit ∈ visits node) :
    Leads node visit.places visit.path visit.node := by
  obtain ⟨places, path, found⟩ := visit
  induction places generalizing node path with
  | nil =>
      rcases visits_cases h with hhere | ⟨info, items, rfl, hbelow⟩ | ⟨info, entries, rfl, hbelow⟩
      · cases hhere
        exact .here _
      · obtain ⟨i, item, -, inner, -, hinner⟩ := mem_visitsOfItems.1 hbelow
        cases hinner
      · obtain ⟨i, key, value, name, -, -, inner, -, hinner⟩ := mem_visitsOfEntries.1 hbelow
        cases hinner
  | cons place places ih =>
      rcases visits_cases h with hhere | ⟨info, items, rfl, hbelow⟩ | ⟨info, entries, rfl, hbelow⟩
      · cases hhere
      · obtain ⟨i, item, hitem, inner, hmem, hinner⟩ := mem_visitsOfItems.1 hbelow
        rw [Nat.zero_add] at hinner
        cases hinner
        exact .item hitem (ih _ hmem)
      · obtain ⟨i, key, value, name, hentry, hname, inner, hmem, hinner⟩ :=
          mem_visitsOfEntries.1 hbelow
        obtain ⟨hkey, hoperator, hlist⟩ := listOperator?_eq_some.1 hname
        rw [Nat.zero_add] at hinner
        cases hinner
        exact .operand hentry hkey hoperator hlist (ih _ hmem)

/-- The nodes that are visited are those that there is a way to. -/
theorem mem_visits {visit : Visit} {node : Node} :
    visit ∈ visits node ↔ Leads node visit.places visit.path visit.node :=
  ⟨leads_of_mem_visits, mem_visits_of_leads⟩

/-! Every visit is along a way of its own. -/

theorem exists_places_of_mem_visitsOfItems {visit : Visit} {start : Nat} {items : List Node}
    (h : visit ∈ visitsOfItems start items) :
    ∃ i places, visit.places = i :: places ∧ start ≤ i := by
  obtain ⟨i, item, -, inner, -, rfl⟩ := mem_visitsOfItems.1 h
  exact ⟨start + i, inner.places, rfl, Nat.le_add_right start i⟩

theorem exists_places_of_mem_visitsOfEntries {visit : Visit} {start : Nat}
    {entries : List (Node × Node)} (h : visit ∈ visitsOfEntries start entries) :
    ∃ i places, visit.places = i :: places ∧ start ≤ i := by
  obtain ⟨i, key, value, name, -, -, inner, -, rfl⟩ := mem_visitsOfEntries.1 h
  exact ⟨start + i, inner.places, rfl, Nat.le_add_right start i⟩

theorem nodup_append_inside {below inner : List Visit} {place : Nat} {segment : Segment}
    (hbelow : (below.map (·.places)).Nodup) (hinner : (inner.map (·.places)).Nodup)
    (hlater : ∀ visit ∈ below, ∃ i places, visit.places = i :: places ∧ place + 1 ≤ i) :
    ((below ++ inner.map (·.inside place segment)).map (·.places)).Nodup := by
  have hinside : ((inner.map (·.inside place segment)).map (·.places)).Nodup := by
    have hmap : (inner.map (·.inside place segment)).map (·.places) =
        (inner.map (·.places)).map (place :: ·) := by
      rw [List.map_map, List.map_map]
      rfl
    rw [hmap]
    exact hinner.map fun a b h => (List.cons.inj h).2
  rw [List.map_append]
  refine hbelow.append hinside (List.disjoint_left.2 fun places hfirst hsecond => ?_)
  obtain ⟨visit, hvisit, rfl⟩ := List.mem_map.1 hfirst
  obtain ⟨i, rest, hplaces, hle⟩ := hlater visit hvisit
  obtain ⟨_, hmem, heq⟩ := List.mem_map.1 hsecond
  obtain ⟨other, -, rfl⟩ := List.mem_map.1 hmem
  rw [hplaces] at heq
  obtain ⟨rfl, -⟩ := List.cons.inj heq
  omega

mutual

theorem nodup_visits : ∀ node, ((visits node).map (·.places)).Nodup
  | .scalar info value => by
      rw [visits]
      exact List.nodup_singleton _
  | .sequence info items => by
      rw [visits, List.map_cons, List.nodup_cons]
      refine ⟨fun hmem => ?_, nodup_visitsOfItems 0 items⟩
      obtain ⟨visit, hvisit, hnil⟩ := List.mem_map.1 hmem
      obtain ⟨i, places, hplaces, -⟩ := exists_places_of_mem_visitsOfItems hvisit
      rw [hplaces] at hnil
      cases hnil
  | .mapping info entries => by
      rw [visits, List.map_cons, List.nodup_cons]
      refine ⟨fun hmem => ?_, nodup_visitsOfEntries 0 entries⟩
      obtain ⟨visit, hvisit, hnil⟩ := List.mem_map.1 hmem
      obtain ⟨i, places, hplaces, -⟩ := exists_places_of_mem_visitsOfEntries hvisit
      rw [hplaces] at hnil
      cases hnil

theorem nodup_visitsOfItems :
    ∀ (start : Nat) (items : List Node), ((visitsOfItems start items).map (·.places)).Nodup
  | _, [] => by
      rw [visitsOfItems]
      exact List.nodup_nil
  | start, item :: rest => by
      rw [visitsOfItems]
      exact nodup_append_inside (nodup_visitsOfItems (start + 1) rest) (nodup_visits item)
        fun visit hvisit => exists_places_of_mem_visitsOfItems hvisit

theorem nodup_visitsOfEntries :
    ∀ (start : Nat) (entries : List (Node × Node)),
      ((visitsOfEntries start entries).map (·.places)).Nodup
  | _, [] => by
      rw [visitsOfEntries]
      exact List.nodup_nil
  | start, (key, value) :: rest => by
      have hrest := nodup_visitsOfEntries (start + 1) rest
      rw [visitsOfEntries]
      cases listOperator? key value with
      | none => simpa using hrest
      | some name =>
          exact nodup_append_inside hrest (nodup_visits value)
            fun visit hvisit => exists_places_of_mem_visitsOfEntries hvisit

end

/-! The entries of the mappings that are visited. -/

structure Operand where
  places : List Nat
  path : Path
  key : Node
  value : Node

def Operand.LiesIn (operand : Operand) (node : Node) : Prop :=
  ∃ way place info entries, Leads node way operand.path (.mapping info entries) ∧
    entries[place]? = some (operand.key, operand.value) ∧ way ++ [place] = operand.places

def Visit.operands (visit : Visit) : List Operand :=
  (visit.node.entries?.getD []).zipIdx.map fun (entry, place) =>
    ⟨visit.places ++ [place], visit.path, entry.1, entry.2⟩

def operands (node : Node) : List Operand := (visits node).flatMap (·.operands)

theorem mem_operands {operand : Operand} {node : Node} :
    operand ∈ operands node ↔ operand.LiesIn node := by
  obtain ⟨places, path, key, value⟩ := operand
  unfold operands Operand.LiesIn Visit.operands
  simp only [List.mem_flatMap, List.mem_map, Prod.exists, List.mem_zipIdx_iff_getElem?, mem_visits]
  constructor
  · rintro ⟨⟨way, trail, found⟩, hleads, key', value', place, hentry, heq⟩
    cases heq
    cases found with
    | scalar info old => simp [Node.entries?] at hentry
    | sequence info items => simp [Node.entries?] at hentry
    | mapping info entries => exact ⟨way, place, info, entries, hleads, hentry, rfl⟩
  · rintro ⟨way, place, info, entries, hleads, hentry, rfl⟩
    exact ⟨⟨way, path, .mapping info entries⟩, hleads, key, value, place, hentry, rfl⟩

theorem nodup_operands (node : Node) : ((operands node).map (·.places)).Nodup := by
  have hplaces : (operands node).map (·.places) =
      (visits node).flatMap fun visit =>
        ((visit.node.entries?.getD []).zipIdx.map Prod.snd).map (visit.places ++ [·]) := by
    unfold operands Visit.operands
    simp only [List.map_flatMap, List.map_map, Function.comp_def]
  rw [hplaces, List.nodup_flatMap]
  constructor
  · intro visit _
    rw [List.zipIdx_map_snd]
    exact List.Nodup.map (fun a b h => by simpa using h) List.nodup_range'
  · refine (List.pairwise_map.1 (nodup_visits node)).imp fun {a b} hne => ?_
    refine List.disjoint_left.2 fun places hfirst hsecond => hne ?_
    obtain ⟨i, -, rfl⟩ := List.mem_map.1 hfirst
    obtain ⟨j, -, heq⟩ := List.mem_map.1 hsecond
    exact (List.append_inj_left' heq rfl).symm

end RuleTidy.Rule
