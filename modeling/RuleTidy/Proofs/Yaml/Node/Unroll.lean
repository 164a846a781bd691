import Mathlib.Data.List.Find
import RuleTidy.Proofs.Json.Compact
import RuleTidy.Proofs.Json.Ordered
import RuleTidy.Proofs.Yaml.Node.Equality
import RuleTidy.Proofs.Yaml.Node.Traversal

/-! The value of a configuration by the values of its parts. A mapping is the object in which a name
has the value of the last entry whose key has this name, and there is one way only to give all
configurations such values. -/

namespace RuleTidy.Yaml.Node

/-- The name of a key: a string as it is, another leaf as it would be written, and a collection as
the compact text of what it is read as. -/
def nameBy (read : Node → Json) : Node → String
  | .scalar _ (.string text) => text
  | .scalar _ .null => "null"
  | .scalar _ (.bool true) => "true"
  | .scalar _ (.bool false) => "false"
  | .scalar _ (.number (.integer n)) => toString n
  | .scalar _ (.number (.real x)) => .ofList (Number.renderReal x)
  | .sequence info items => .ofList (read (.sequence info items)).compact
  | .mapping info entries => .ofList (read (.mapping info entries)).compact

def lastBy (read : Node → Json) (entries : List (Node × Node)) (name : String) : Option Json :=
  (entries.reverse.find? fun entry => nameBy read entry.1 = name).map fun entry => read entry.2

/-- Configurations are read by way of their parts. -/
structure IsReading (read : Node → Json) : Prop where
  null : ∀ info, read (.scalar info .null) = .null
  bool : ∀ info b, read (.scalar info (.bool b)) = .bool b
  number : ∀ info n, read (.scalar info (.number n)) = .number n
  string : ∀ info text, read (.scalar info (.string text)) = .string text
  sequence : ∀ info items, read (.sequence info items) = .array (items.map read)
  mapping : ∀ info entries, ∃ fields, read (.mapping info entries) = .object fields ∧
    fields.Pairwise (fun a b => a.1 < b.1) ∧ ∀ name, fields.lookup name = lastBy read entries name

theorem itemsJson_eq_map (items : List Node) : itemsJson items = items.map toJson := by
  induction items with
  | nil => rfl
  | cons item rest ih => rw [itemsJson, ih, List.map_cons]

theorem entriesJson_eq_map (entries : List (Node × Node)) :
    entriesJson entries = entries.map fun entry => (entry.1.keyText, entry.2.toJson) := by
  induction entries with
  | nil => rfl
  | cons entry rest ih => rw [entriesJson, ih, List.map_cons]

theorem display_eq_nameBy (read : Node → Json) (info : Info) (value : Scalar) :
    value.display = nameBy read (.scalar info value) := by
  rcases value with - | ⟨- | -⟩ | ⟨n | x⟩ | text
  case number.integer =>
    rw [Scalar.display, Number.render, nameBy, Number.renderInteger_eq_toString,
      String.ofList_toList]
  all_goals rfl

theorem keyText_eq_nameBy (key : Node) : key.keyText = nameBy toJson key := by
  cases key with
  | scalar info value => exact display_eq_nameBy toJson info value
  | sequence info items => rw [keyText, nameBy, toJson, Json.render_eq_compact]
  | mapping info entries => rw [keyText, nameBy, toJson, Json.render_eq_compact]

theorem isReading_toJson : IsReading toJson where
  null _ := by rw [toJson, scalarJson]
  bool _ _ := by rw [toJson, scalarJson]
  number _ _ := by rw [toJson, scalarJson]
  string _ _ := by rw [toJson, scalarJson]
  sequence info items := by rw [toJson, itemsJson_eq_map]
  mapping info entries := by
    refine ⟨_, by rw [toJson, Json.ofEntries], Json.pairwise_foldl_insertEntry _ .nil, fun name => ?_⟩
    rw [Json.lookup_foldl_insertEntry, entriesJson_eq_map, lastBy, ← List.map_reverse, List.find?_map]
    simp only [Function.comp_def, keyText_eq_nameBy, Option.map_map, List.lookup_nil, Option.or_none]

variable {read other : Node → Json}

theorem nameBy_congr {key : Node} (h : read key = other key) : nameBy read key = nameBy other key := by
  cases key with
  | scalar info value => rw [← display_eq_nameBy read, ← display_eq_nameBy other]
  | sequence info items => rw [nameBy, nameBy, h]
  | mapping info entries => rw [nameBy, nameBy, h]

theorem lastBy_congr {entries : List (Node × Node)}
    (h : ∀ entry ∈ entries, read entry.1 = other entry.1 ∧ read entry.2 = other entry.2)
    (name : String) : lastBy read entries name = lastBy other entries name := by
  have hfind : (entries.reverse.find? fun entry => nameBy read entry.1 = name) =
      entries.reverse.find? fun entry => nameBy other entry.1 = name :=
    List.find?_congr fun entry hentry => by
      rw [nameBy_congr (h entry (List.mem_reverse.1 hentry)).1]
  rw [lastBy, lastBy, hfind]
  refine Option.map_congr fun entry hentry => ?_
  exact (h entry (List.mem_reverse.1 (List.mem_of_find?_eq_some hentry))).2

theorem IsReading.eq_toJson (h : IsReading read) (node : Node) : read node = node.toJson := by
  induction node using Node.induction with
  | scalar info value =>
      cases value with
      | null => exact h.null info
      | bool b => exact h.bool info b
      | number n => exact h.number info n
      | string text => exact h.string info text
  | sequence info items ih => rw [h.sequence, toJson, itemsJson_eq_map, List.map_congr_left ih]
  | mapping info entries ih =>
      obtain ⟨fields, hread, hordered, hfields⟩ := h.mapping info entries
      obtain ⟨others, htoJson, hothers, hlookup⟩ := isReading_toJson.mapping info entries
      rw [hread, htoJson]
      exact congrArg _ (Json.eq_of_lookup_eq hordered hothers fun name => by
        rw [hfields, hlookup, lastBy_congr ih])

/-- The traversal is the one way to read configurations by way of their parts. -/
theorem isReading_iff_eq_unroll (read : Node → Json) : IsReading read ↔ read = unroll := by
  have hunroll : unroll = toJson := funext unroll_eq_toJson
  constructor
  · intro h
    rw [hunroll]
    exact funext h.eq_toJson
  · rintro rfl
    rw [hunroll]
    exact isReading_toJson

def manyKeys : Node :=
  let leaf (value : Scalar) : Node := .scalar ⟨.synthetic, .synthetic⟩ value
  let list : Node := .sequence ⟨.synthetic, .synthetic⟩ [leaf (.string "a\"\n"), leaf .null]
  .mapping ⟨.synthetic, .synthetic⟩ [
    (leaf (.number (.integer (-3))), leaf (.string "replaced")),
    (leaf .null, leaf (.bool false)),
    (leaf (.bool true), list),
    (leaf (.number (.real ⟨false, 6755399441055744, -52⟩)), leaf (.bool true)),
    (leaf (.number (.real ⟨true, 5000000000000000, 1⟩)), leaf (.number (.integer 0))),
    (.mapping ⟨.synthetic, .synthetic⟩ [(list, leaf (.number (.integer 7)))], leaf .null),
    (leaf (.string "-3"), leaf (.string "kept"))]

theorem isReading_iff_eq_unroll_manyKeys :
    IsReading unroll ∧ unroll manyKeys = .object [
      ("-1e+16", .number (.integer 0)),
      ("-3", .string "kept"),
      ("1.5", .bool true),
      ("null", .bool false),
      ("true", .array [.string "a\"\n", .null]),
      ("\x7b\"[\\\"a\\\\\\\"\\\\n\\\",null]\":7\x7d", .null)] := by
  have hreading : IsReading unroll := (isReading_iff_eq_unroll unroll).2 rfl
  refine ⟨hreading, ?_⟩
  rw [hreading.eq_toJson]
  rfl

end RuleTidy.Yaml.Node
