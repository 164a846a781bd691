import RuleTidy.Proofs.Yaml.Path
import RuleTidy.Rule.Alternatives
import Mathlib.Data.String.Basic

/-! Which paths lead to lists of alternatives, and the order they come in. -/

namespace RuleTidy.Rule

open Yaml

/-- The shape of the path of a list of alternatives. Its keys are operators that take a list, each
followed by an index, and the key `pattern-either` is at the end. -/
def IsListPath : Path → Prop
  | [] => False
  | .index _ :: rest => IsListPath rest
  | [.key name] => name = "pattern-either"
  | .key name :: .index n :: rest => name ∈ listOperators ∧ IsListPath (.index n :: rest)
  | .key _ :: .key _ :: _ => False

theorem IsListPath.ne_nil {path : Path} (h : IsListPath path) : path ≠ [] := by
  rintro rfl
  exact h

theorem IsListPath.key_mem {name : String} {rest : Path} (h : IsListPath (.key name :: rest)) :
    name ∈ listOperators := by
  cases rest with
  | nil =>
      obtain rfl : name = "pattern-either" := h
      decide
  | cons segment rest =>
      cases segment with
      | key other => exact h.elim
      | index n => exact h.1

theorem IsListPath.inside {path rest : Path} (hpath : IsListPath path) (hrest : rest ≠ [])
    (h : IsListPath (path ++ rest)) : ∃ n tail, rest = .index n :: tail ∧ IsListPath tail := by
  induction path with
  | nil => exact hpath.elim
  | cons segment path ih =>
      cases segment with
      | index n => exact ih hpath h
      | key name =>
          cases path with
          | cons next path =>
              cases next with
              | key other => exact h.elim
              | index n => exact ih hpath.2 h.2
          | nil =>
              cases rest with
              | nil => exact absurd rfl hrest
              | cons next tail =>
                  cases next with
                  | key other => exact h.elim
                  | index n => exact ⟨n, tail, rfl, h.2⟩

theorem IsListPath.append {path tail : Path} (hpath : IsListPath path) (n : Nat)
    (htail : IsListPath tail) : IsListPath (path ++ .index n :: tail) := by
  induction path with
  | nil => exact hpath.elim
  | cons segment path ih =>
      cases segment with
      | index m => exact ih hpath
      | key name =>
          cases path with
          | nil => exact ⟨hpath.key_mem, htail⟩
          | cons next path =>
              cases next with
              | key other => exact hpath.elim
              | index m => exact ⟨hpath.1, ih hpath.2⟩

theorem mem_alternativesOfItems {path : Path} {start : Nat} {items : List Node} :
    path ∈ alternativesOfItems start items ↔
      ∃ i item rest, items[i]? = some item ∧ path = .index (start + i) :: rest ∧
        rest ∈ alternativesBelow item := by
  induction items generalizing start with
  | nil => simp [alternativesOfItems]
  | cons first items ih =>
      rw [alternativesOfItems, List.mem_append, List.mem_map, ih]
      constructor
      · rintro (⟨rest, hrest, rfl⟩ | ⟨i, item, rest, hitem, rfl, hrest⟩)
        · exact ⟨0, first, rest, rfl, rfl, hrest⟩
        · refine ⟨i + 1, item, rest, hitem, ?_, hrest⟩
          rw [Nat.add_assoc, Nat.add_comm 1 i]
      · rintro ⟨i, item, rest, hitem, rfl, hrest⟩
        cases i with
        | zero =>
            obtain rfl := Option.some.inj hitem
            exact .inl ⟨rest, hrest, rfl⟩
        | succ i =>
            refine .inr ⟨i, item, rest, hitem, ?_, hrest⟩
            rw [Nat.add_assoc, Nat.add_comm 1 i]

def listsOfEntry (name : String) (value : Node) : List Path :=
  if name ∈ listOperators && value.items?.isSome then
    (if name = "pattern-either" then [[.key name]] else []) ++
      (alternativesBelow value).map (.key name :: ·)
  else []

theorem mem_listsOfEntry {path : Path} {name : String} {value : Node} :
    path ∈ listsOfEntry name value ↔
      name ∈ listOperators ∧ value.items?.isSome = true ∧ ∃ rest, path = .key name :: rest ∧
        (rest = [] ∧ name = "pattern-either" ∨ rest ∈ alternativesBelow value) := by
  unfold listsOfEntry
  by_cases hlist : name ∈ listOperators ∧ value.items?.isSome = true
  · have hmem : path ∈ (if name = "pattern-either" then [[Segment.key name]] else []) ↔
        path = [.key name] ∧ name = "pattern-either" := by
      by_cases heither : name = "pattern-either" <;> simp [heither]
    simp only [hlist, decide_true, Bool.and_self, if_true, List.mem_append, hmem, List.mem_map,
      true_and]
    constructor
    · rintro (⟨rfl, heither⟩ | ⟨rest, hrest, rfl⟩)
      · exact ⟨[], rfl, .inl ⟨rfl, heither⟩⟩
      · exact ⟨rest, rfl, .inr hrest⟩
    · rintro ⟨rest, rfl, ⟨rfl, heither⟩ | hrest⟩
      · exact .inl ⟨rfl, heither⟩
      · exact .inr ⟨rest, hrest, rfl⟩
  · have hif : ¬(name ∈ listOperators && value.items?.isSome) = true := by simpa using hlist
    rw [if_neg hif]
    simp only [List.not_mem_nil, false_iff]
    rintro ⟨hname, hvalue, -⟩
    exact hlist ⟨hname, hvalue⟩

theorem alternativesOfEntries_cons (key value : Node) (rest : List (Node × Node)) :
    alternativesOfEntries ((key, value) :: rest) =
      (key.text?.elim [] (listsOfEntry · value)) ++ alternativesOfEntries rest := by
  rw [alternativesOfEntries]
  cases key.text? <;> rfl

theorem mem_alternativesOfEntries {path : Path} {entries : List (Node × Node)} :
    path ∈ alternativesOfEntries entries ↔
      ∃ key value name, (key, value) ∈ entries ∧ key.text? = some name ∧
        path ∈ listsOfEntry name value := by
  induction entries with
  | nil => simp [alternativesOfEntries]
  | cons entry entries ih =>
      obtain ⟨key, value⟩ := entry
      rw [alternativesOfEntries_cons, List.mem_append, ih]
      constructor
      · rintro (hfirst | ⟨key', value', name, hmem, h⟩)
        · cases hkey : key.text? with
          | none => simp [hkey] at hfirst
          | some name =>
              rw [hkey] at hfirst
              exact ⟨key, value, name, List.mem_cons_self, hkey, hfirst⟩
        · exact ⟨key', value', name, List.mem_cons_of_mem _ hmem, h⟩
      · rintro ⟨key', value', name, hmem, hkey, h⟩
        rcases List.mem_cons.1 hmem with heq | hmem
        · obtain ⟨rfl, rfl⟩ := Prod.mk.inj heq
          rw [hkey]
          exact .inl h
        · exact .inr ⟨key', value', name, hmem, hkey, h⟩

theorem alternativesBelow_sequence (info : Info) (items : List Node) :
    alternativesBelow (.sequence info items) = alternativesOfItems 0 items := by
  rw [alternativesBelow]

theorem alternativesBelow_mapping (info : Info) (entries : List (Node × Node)) :
    alternativesBelow (.mapping info entries) = alternativesOfEntries entries := by
  rw [alternativesBelow]

theorem isListPath_of_mem {path : Path} {node : Node} (h : path ∈ alternativesBelow node) :
    IsListPath path := by
  induction path generalizing node with
  | nil =>
      cases node with
      | scalar info value => simp [alternativesBelow] at h
      | sequence info items =>
          rw [alternativesBelow_sequence, mem_alternativesOfItems] at h
          obtain ⟨i, item, rest, -, heq, -⟩ := h
          cases heq
      | mapping info entries =>
          rw [alternativesBelow_mapping, mem_alternativesOfEntries] at h
          obtain ⟨key, value, name, -, -, h⟩ := h
          obtain ⟨-, -, rest, heq, -⟩ := mem_listsOfEntry.1 h
          cases heq
  | cons segment path ih =>
      cases node with
      | scalar info value => simp [alternativesBelow] at h
      | sequence info items =>
          rw [alternativesBelow_sequence, mem_alternativesOfItems] at h
          obtain ⟨i, item, rest, -, heq, hrest⟩ := h
          obtain ⟨rfl, rfl⟩ := List.cons.inj heq
          exact ih hrest
      | mapping info entries =>
          rw [alternativesBelow_mapping, mem_alternativesOfEntries] at h
          obtain ⟨key, value, name, -, -, h⟩ := h
          obtain ⟨hname, hvalue, rest, heq, hrest⟩ := mem_listsOfEntry.1 h
          obtain ⟨rfl, rfl⟩ := List.cons.inj heq
          rcases hrest with ⟨rfl, heither⟩ | hrest
          · exact heither
          -- below an operand that is a list, the path goes on with an index
          · have hpath : IsListPath path := ih hrest
            cases value with
            | scalar info old => simp [Node.items?] at hvalue
            | mapping info old => simp [Node.items?] at hvalue
            | sequence info items =>
                rw [alternativesBelow_sequence, mem_alternativesOfItems] at hrest
                obtain ⟨i, item, rest, -, rfl, -⟩ := hrest
                exact ⟨hname, hpath⟩

theorem mem_alternativesBelow {path : Path} {node : Node} {info : Info} {items : List Node}
    (hpath : IsListPath path) (h : node.at? path = some (.sequence info items)) :
    path ∈ alternativesBelow node := by
  induction path generalizing node with
  | nil => exact hpath.elim
  | cons segment path ih =>
      rw [Node.at?_cons, Option.bind_eq_some_iff] at h
      obtain ⟨child, hchild, h⟩ := h
      cases segment with
      | index n =>
          obtain ⟨info', items', rfl, hitem⟩ := Node.child?_index_eq_some.1 hchild
          rw [alternativesBelow_sequence, mem_alternativesOfItems]
          exact ⟨n, child, path, hitem, by rw [Nat.zero_add], ih hpath h⟩
      | key name =>
          obtain ⟨info', entries, rfl, hvalue⟩ := Node.child?_key_eq_some.1 hchild
          obtain ⟨⟨key, value⟩, hfind, rfl⟩ := Option.map_eq_some_iff.1 hvalue
          have hkey : key.text? = some name := by simpa using List.find?_some hfind
          rw [alternativesBelow_mapping, mem_alternativesOfEntries]
          refine ⟨key, value, name, List.mem_of_find?_eq_some hfind, hkey, mem_listsOfEntry.2 ?_⟩
          refine ⟨hpath.key_mem, ?_⟩
          cases path with
          | nil =>
              obtain rfl := Option.some.inj h
              exact ⟨rfl, [], rfl, .inl ⟨rfl, hpath⟩⟩
          | cons next path =>
              cases next with
              | key other => exact hpath.elim
              | index n =>
                  have hrest : .index n :: path ∈ alternativesBelow value := ih hpath.2 h
                  rw [Node.at?_cons, Option.bind_eq_some_iff] at h
                  obtain ⟨item, hitem, -⟩ := h
                  obtain ⟨info', items', rfl, -⟩ := Node.child?_index_eq_some.1 hitem
                  exact ⟨rfl, _, rfl, .inr hrest⟩

/-! The order of the paths. -/

theorem precedes_eq_false {p q : Path} :
    precedes p q = false ↔ p.length ≤ q.length ∧ (p.length = q.length → q.render ≤ p.render) := by
  simp only [precedes, Bool.or_eq_false_iff, decide_eq_false_iff_not, Bool.and_eq_false_imp,
    decide_eq_true_eq, gt_iff_lt, not_lt]

theorem precedes_asymm {p q : Path} (h : precedes p q = true) : precedes q p = false := by
  simp only [precedes, Bool.or_eq_true, decide_eq_true_eq, Bool.and_eq_true] at h
  rw [precedes_eq_false]
  rcases h with hlength | ⟨hlength, hrender⟩
  · exact ⟨by omega, fun heq => by omega⟩
  · exact ⟨by omega, fun _ => le_of_lt hrender⟩

theorem precedes_trans {p q r : Path} (hqp : precedes q p = false) (hrq : precedes r q = false) :
    precedes r p = false := by
  rw [precedes_eq_false] at hqp hrq ⊢
  refine ⟨hrq.1.trans hqp.1, fun heq => ?_⟩
  have hlength : r.length = q.length := le_antisymm hrq.1 (heq ▸ hqp.1)
  exact (hqp.2 (hlength ▸ heq)).trans (hrq.2 hlength)

theorem insertPath_perm (path : Path) (paths : List Path) :
    (insertPath path paths).Perm (path :: paths) := by
  induction paths with
  | nil => rfl
  | cons other rest ih =>
      unfold insertPath
      split
      · rfl
      · exact (ih.cons other).trans (.swap path other rest)

theorem pairwise_insertPath {path : Path} {paths : List Path}
    (h : paths.Pairwise fun p q => precedes q p = false) :
    (insertPath path paths).Pairwise fun p q => precedes q p = false := by
  induction paths with
  | nil => exact List.pairwise_singleton _ _
  | cons other rest ih =>
      obtain ⟨hother, hrest⟩ := List.pairwise_cons.1 h
      unfold insertPath
      split
      case isTrue hbefore =>
          have hfirst : precedes other path = false := precedes_asymm hbefore
          refine List.pairwise_cons.2 ⟨fun q hq => ?_, h⟩
          rcases List.mem_cons.1 hq with rfl | hq
          · exact hfirst
          · exact precedes_trans hfirst (hother q hq)
      case isFalse hafter =>
          refine List.pairwise_cons.2 ⟨fun q hq => ?_, ih hrest⟩
          rcases List.mem_cons.1 ((insertPath_perm path rest).mem_iff.1 hq) with rfl | hq
          · exact Bool.eq_false_of_not_eq_true hafter
          · exact hother q hq

theorem foldl_insertPath_perm (sorted paths : List Path) :
    (paths.foldl (fun sorted path => insertPath path sorted) sorted).Perm (sorted ++ paths) := by
  induction paths generalizing sorted with
  | nil => rw [List.foldl_nil, List.append_nil]
  | cons path rest ih =>
      rw [List.foldl_cons]
      exact (ih _).trans (((insertPath_perm path sorted).append_right rest).trans
        List.perm_middle.symm)

theorem innermostFirst_perm (paths : List Path) : (innermostFirst paths).Perm paths :=
  foldl_insertPath_perm [] paths

theorem pairwise_innermostFirst (paths : List Path) :
    (innermostFirst paths).Pairwise fun p q => precedes q p = false := by
  have hfold : ∀ sorted : List Path, (sorted.Pairwise fun p q => precedes q p = false) →
      (paths.foldl (fun sorted path => insertPath path sorted) sorted).Pairwise
        fun p q => precedes q p = false := by
    induction paths with
    | nil => exact fun sorted h => h
    | cons path rest ih => exact fun sorted h => ih _ (pairwise_insertPath h)
  exact hfold [] List.Pairwise.nil

theorem mem_alternatives {path : Path} {rule : Rule} :
    path ∈ rule.alternatives ↔ ∃ rest ∈ alternativesBelow rule.node, rule.path ++ rest = path := by
  rw [alternatives, (innermostFirst_perm _).mem_iff, List.mem_map]

theorem pairwise_alternatives (rule : Rule) :
    rule.alternatives.Pairwise fun p q => p <+: q → p = q := by
  refine (pairwise_innermostFirst _).imp fun {p q} h hprefix => ?_
  exact hprefix.eq_of_length_le (precedes_eq_false.1 h).1

end RuleTidy.Rule
