import RuleTidy.Yaml.Node.Json

/-! How deep configurations and JSON values nest. A configuration is made of every JSON value that is
not too deep, and its own value is no deeper than itself. -/

namespace RuleTidy

open Source

namespace Json

variable {n : Nat}

theorem depthEntries_insertEntry_le {name : String} {value : Json} {entries : List (String × Json)}
    (hvalue : value.depth ≤ n) (h : depthEntries entries ≤ n) :
    depthEntries (insertEntry name value entries) ≤ n := by
  induction entries with
  | nil => simpa [insertEntry, depthEntries] using hvalue
  | cons entry rest ih =>
      obtain ⟨other, old⟩ := entry
      obtain ⟨hold, hrest⟩ := Nat.max_le.1 h
      unfold insertEntry
      split
      · exact Nat.max_le.2 ⟨hvalue, hrest⟩
      · split
        · exact Nat.max_le.2 ⟨hvalue, h⟩
        · exact Nat.max_le.2 ⟨hold, ih hrest⟩

theorem depth_ofEntries_le {entries : List (String × Json)} (h : depthEntries entries ≤ n) :
    (ofEntries entries).depth ≤ n + 1 := by
  suffices hfold : ∀ acc, depthEntries acc ≤ n →
      depthEntries (entries.foldl (fun acc entry => insertEntry entry.1 entry.2 acc) acc) ≤ n from
    Nat.succ_le_succ (hfold [] (Nat.zero_le n))
  induction entries with
  | nil => exact fun acc hacc => hacc
  | cons entry rest ih =>
      obtain ⟨hentry, hrest⟩ := Nat.max_le.1 h
      exact fun acc hacc => ih hrest _ (depthEntries_insertEntry_le hentry hacc)

end Json

namespace Yaml.Node

variable {n : Nat}

theorem depthItems_le {items : List Node} :
    depthItems items ≤ n ↔ ∀ item ∈ items, item.depth ≤ n := by
  induction items with
  | nil => simp [depthItems]
  | cons item rest ih => rw [depthItems, Nat.max_le, ih, List.forall_mem_cons]

theorem depthEntries_le {entries : List (Node × Node)} :
    depthEntries entries ≤ n ↔ ∀ entry ∈ entries, entry.1.depth ≤ n ∧ entry.2.depth ≤ n := by
  induction entries with
  | nil => simp [depthEntries]
  | cons entry rest ih => rw [depthEntries, Nat.max_le, Nat.max_le, ih, List.forall_mem_cons]

theorem depth_scalarJson (value : Scalar) : (scalarJson value).depth = 0 := by
  cases value <;> rfl

mutual

theorem depth_toJson_le : ∀ node : Node, node.toJson.depth ≤ node.depth
  | .scalar _ value => Nat.le_of_eq (depth_scalarJson value)
  | .sequence _ items => Nat.succ_le_succ (depthItems_itemsJson_le items)
  | .mapping _ entries => Json.depth_ofEntries_le (depthEntries_entriesJson_le entries)

theorem depthItems_itemsJson_le :
    ∀ items : List Node, Json.depthItems (itemsJson items) ≤ depthItems items
  | [] => Nat.le_refl 0
  | item :: rest => by
      have hitem := depth_toJson_le item
      have hrest := depthItems_itemsJson_le rest
      rw [itemsJson, Json.depthItems, depthItems]
      omega

theorem depthEntries_entriesJson_le :
    ∀ entries : List (Node × Node), Json.depthEntries (entriesJson entries) ≤ depthEntries entries
  | [] => Nat.le_refl 0
  | (_, value) :: rest => by
      have hvalue := depth_toJson_le value
      have hrest := depthEntries_entriesJson_le rest
      rw [entriesJson, Json.depthEntries, depthEntries]
      omega

end

mutual

theorem isSome_ofJsonWithin (span : Span) :
    ∀ (levels : Nat) (json : Json), (ofJsonWithin span levels json).isSome ↔ json.depth ≤ levels
  | _, .null => by simp [ofJsonWithin, Json.depth]
  | _, .bool _ => by simp [ofJsonWithin, Json.depth]
  | _, .number _ => by simp [ofJsonWithin, Json.depth]
  | _, .string _ => by simp [ofJsonWithin, Json.depth]
  | 0, .array _ => by simp [ofJsonWithin, Json.depth]
  | 0, .object _ => by simp [ofJsonWithin, Json.depth]
  | levels + 1, .array items => by
      rw [Json.depth, Nat.succ_le_succ_iff, ← isSome_ofItemsWithin span levels items, ofJsonWithin]
      cases ofItemsWithin span levels items <;> simp
  | levels + 1, .object entries => by
      rw [Json.depth, Nat.succ_le_succ_iff, ← isSome_ofEntriesWithin span levels entries,
        ofJsonWithin]
      cases ofEntriesWithin span levels entries <;> simp

theorem isSome_ofItemsWithin (span : Span) :
    ∀ (levels : Nat) (items : List Json),
      (ofItemsWithin span levels items).isSome ↔ Json.depthItems items ≤ levels
  | _, [] => by simp [ofItemsWithin, Json.depthItems]
  | levels, item :: rest => by
      rw [Json.depthItems, Nat.max_le, ← isSome_ofJsonWithin span levels item,
        ← isSome_ofItemsWithin span levels rest, ofItemsWithin]
      cases ofJsonWithin span levels item <;> cases ofItemsWithin span levels rest <;> simp

theorem isSome_ofEntriesWithin (span : Span) :
    ∀ (levels : Nat) (entries : List (String × Json)),
      (ofEntriesWithin span levels entries).isSome ↔ Json.depthEntries entries ≤ levels
  | _, [] => by simp [ofEntriesWithin, Json.depthEntries]
  | levels, (_, value) :: rest => by
      rw [Json.depthEntries, Nat.max_le, ← isSome_ofJsonWithin span levels value,
        ← isSome_ofEntriesWithin span levels rest, ofEntriesWithin]
      cases ofJsonWithin span levels value <;> cases ofEntriesWithin span levels rest <;> simp

end

theorem exists_ofJson_iff {span : Span} {json : Json} :
    (∃ node, ofJson span json = .ok node) ↔ json.depth ≤ maxDepth := by
  rw [← isSome_ofJsonWithin span, ofJson]
  cases ofJsonWithin span maxDepth json <;> simp

theorem ofJson_eq_error_iff {span : Span} {json : Json} :
    ofJson span json = .error .nestingTooDeep ↔ maxDepth < json.depth := by
  rw [← Nat.not_le, ← isSome_ofJsonWithin span, ofJson]
  cases ofJsonWithin span maxDepth json <;> simp

end Yaml.Node

end RuleTidy
