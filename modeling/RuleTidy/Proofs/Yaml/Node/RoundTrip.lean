import Mathlib.Data.List.Forall2
import RuleTidy.Proofs.Json.Ordered
import RuleTidy.Proofs.Yaml.Node.Labelled
import RuleTidy.Proofs.Yaml.Node.Traversal

/-! Configurations that are made of JSON values. Each has the value that it was made of for its own,
and all of its nodes bear the same mark. -/

namespace RuleTidy.Yaml.Node

open Source

variable {span : Span} {levels : Nat} {json : Json} {node : Node}

def madeInfo (span : Span) : Info := ⟨span, .synthetic⟩

theorem forall₂_ofItemsWithin {items : List Json} {nodes : List Node}
    (h : ofItemsWithin span levels items = some nodes) :
    List.Forall₂ (fun item node => ofJsonWithin span levels item = some node) items nodes := by
  induction items generalizing nodes with
  | nil =>
      obtain rfl := Option.some.inj h
      exact .nil
  | cons item rest ih =>
      simp only [ofItemsWithin, Option.bind_eq_bind, Option.pure_def, Option.bind_eq_some_iff,
        Option.some.injEq] at h
      obtain ⟨node, hnode, others, hothers, rfl⟩ := h
      exact .cons hnode (ih hothers)

theorem forall₂_ofEntriesWithin {entries : List (String × Json)} {nodes : List (Node × Node)}
    (h : ofEntriesWithin span levels entries = some nodes) :
    List.Forall₂ (fun entry node => node.1 = ofString entry.1 span ∧
      ofJsonWithin span levels entry.2 = some node.2) entries nodes := by
  induction entries generalizing nodes with
  | nil =>
      obtain rfl := Option.some.inj h
      exact .nil
  | cons entry rest ih =>
      simp only [ofEntriesWithin, Option.bind_eq_bind, Option.pure_def, Option.bind_eq_some_iff,
        Option.some.injEq] at h
      obtain ⟨node, hnode, others, hothers, rfl⟩ := h
      exact .cons ⟨rfl, hnode⟩ (ih hothers)

theorem ofJsonWithin_cases (h : ofJsonWithin span levels json = some node) :
    (∃ value, json = scalarJson value ∧ node = .scalar (madeInfo span) value) ∨
    (∃ n items nodes, levels = n + 1 ∧ json = .array items ∧
      node = .sequence (madeInfo span) nodes ∧
      List.Forall₂ (fun item node => ofJsonWithin span n item = some node) items nodes) ∨
    ∃ n entries nodes, levels = n + 1 ∧ json = .object entries ∧
      node = .mapping (madeInfo span) nodes ∧
      List.Forall₂ (fun entry node => node.1 = ofString entry.1 span ∧
        ofJsonWithin span n entry.2 = some node.2) entries nodes := by
  unfold ofJsonWithin at h
  split at h
  · exact .inl ⟨.null, rfl, (Option.some.inj h).symm⟩
  · exact .inl ⟨.bool _, rfl, (Option.some.inj h).symm⟩
  · exact .inl ⟨.number _, rfl, (Option.some.inj h).symm⟩
  · exact .inl ⟨.string _, rfl, (Option.some.inj h).symm⟩
  · split at h
    · cases h
    · obtain ⟨nodes, hnodes, heq⟩ := Option.bind_eq_some_iff.1 h
      exact .inr (.inl ⟨_, _, nodes, rfl, rfl, (Option.some.inj heq).symm,
        forall₂_ofItemsWithin hnodes⟩)
  · split at h
    · cases h
    · obtain ⟨nodes, hnodes, heq⟩ := Option.bind_eq_some_iff.1 h
      exact .inr (.inr ⟨_, _, nodes, rfl, rfl, (Option.some.inj heq).symm,
        forall₂_ofEntriesWithin hnodes⟩)

theorem forall_mem_right_of_forall₂ {α β : Type} {R : α → β → Prop} {P : β → Prop} {as : List α}
    {bs : List β} (h : List.Forall₂ R as bs) (hP : ∀ a b, R a b → P b) : ∀ b ∈ bs, P b := by
  induction h with
  | nil => exact List.forall_mem_nil P
  | cons hab _ ih => exact List.forall_mem_cons.2 ⟨hP _ _ hab, ih⟩

theorem labelled_ofJsonWithin (h : ofJsonWithin span levels json = some node) :
    node.Labelled (· = madeInfo span) (· = madeInfo span) := by
  induction levels generalizing json node with
  | zero =>
      obtain ⟨value, -, rfl⟩ | ⟨_, _, _, hlevels, _⟩ | ⟨_, _, _, hlevels, _⟩ :=
        ofJsonWithin_cases h
      · exact .scalar rfl
      · cases hlevels
      · cases hlevels
  | succ levels ih =>
      obtain ⟨value, -, rfl⟩ | ⟨n, items, nodes, hlevels, -, rfl, hnodes⟩ |
        ⟨n, entries, nodes, hlevels, -, rfl, hnodes⟩ := ofJsonWithin_cases h
      · exact .scalar rfl
      · cases hlevels
        refine .sequence rfl ?_
        exact forall_mem_right_of_forall₂ hnodes fun _ _ => ih
      · cases hlevels
        refine .mapping rfl ?_ ?_
        · refine forall_mem_right_of_forall₂ hnodes fun entry made hentry => ?_
          rw [hentry.1]
          exact .scalar rfl
        · exact forall_mem_right_of_forall₂ hnodes fun _ _ hentry => ih hentry.2

theorem itemsJson_eq_of_forall₂ {items : List Json} {nodes : List Node}
    (h : List.Forall₂ (fun item node => node.toJson = item) items nodes) :
    itemsJson nodes = items := by
  induction h with
  | nil => rfl
  | cons hitem _ ih => rw [itemsJson, hitem, ih]

theorem entriesJson_eq_of_forall₂ {entries : List (String × Json)} {nodes : List (Node × Node)}
    (h : List.Forall₂ (fun entry node => node.1 = ofString entry.1 span ∧
      node.2.toJson = entry.2) entries nodes) : entriesJson nodes = entries := by
  induction h with
  | nil => rfl
  | cons hentry _ ih =>
      obtain ⟨hkey, hvalue⟩ := hentry
      rw [entriesJson, hkey, hvalue, ih]
      rfl

theorem toJson_ofJsonWithin (hordered : json.Ordered)
    (h : ofJsonWithin span levels json = some node) : node.toJson = json := by
  induction levels generalizing json node with
  | zero =>
      obtain ⟨value, rfl, rfl⟩ | ⟨_, _, _, hlevels, _⟩ | ⟨_, _, _, hlevels, _⟩ :=
        ofJsonWithin_cases h
      · rfl
      · cases hlevels
      · cases hlevels
  | succ levels ih =>
      obtain ⟨value, rfl, rfl⟩ | ⟨n, items, nodes, hlevels, rfl, rfl, hnodes⟩ |
        ⟨n, entries, nodes, hlevels, rfl, rfl, hnodes⟩ := ofJsonWithin_cases h
      · rfl
      · cases hlevels
        cases hordered with | array below =>
        have hitems : List.Forall₂ (fun item node => node.toJson = item) items nodes :=
          ((List.forall₂_and_left _ _).2 ⟨below, hnodes⟩).imp fun _ _ hitem => ih hitem.1 hitem.2
        rw [toJson, itemsJson_eq_of_forall₂ hitems]
      · cases hlevels
        cases hordered with | object names below =>
        have hentries : List.Forall₂ (fun entry node => node.1 = ofString entry.1 span ∧
            node.2.toJson = entry.2) entries nodes :=
          ((List.forall₂_and_left _ _).2 ⟨below, hnodes⟩).imp fun _ _ hentry =>
            ⟨hentry.2.1, ih hentry.1 hentry.2.2⟩
        rw [toJson, entriesJson_eq_of_forall₂ hentries, Json.ofEntries_of_pairwise names]

theorem ofJson_eq_ok : ofJson span json = .ok node ↔ ofJsonWithin span maxDepth json = some node := by
  unfold ofJson
  cases ofJsonWithin span maxDepth json <;> simp

/-- A value becomes a configuration if its collections nest no deeper than the limit. Then every node
bears the mark of the span, and the value is read again from the nodes. -/
theorem unroll_wrap (span : Span) (json : Json) :
    ((∃ node, wrap span json = .ok node) ↔ json.depth ≤ 255) ∧
      (∀ node, wrap span json = .ok node →
        node.Labelled (· = ⟨span, .synthetic⟩) (· = ⟨span, .synthetic⟩) ∧
          (json.Ordered → node.unroll = json)) ∧
      (255 < json.depth → wrap span json = .error .nestingTooDeep) := by
  rw [wrap_eq_ofJson]
  refine ⟨exists_ofJson_iff, fun node hnode => ?_, ofJson_eq_error_iff.2⟩
  rw [ofJson_eq_ok] at hnode
  rw [unroll_eq_toJson]
  exact ⟨labelled_ofJsonWithin hnode, fun hordered => toJson_ofJsonWithin hordered hnode⟩

def listed (json : Json) : Nat → Json
  | 0 => json
  | n + 1 => .array [listed json n]

theorem depth_listed (json : Json) (n : Nat) : (listed json n).depth = json.depth + n := by
  induction n with
  | zero => rfl
  | succ n ih => simp [listed, Json.depth, Json.depthItems, ih, Nat.add_assoc]

theorem ordered_listed (h : json.Ordered) (n : Nat) : (listed json n).Ordered := by
  induction n with
  | zero => exact h
  | succ n ih => exact .array (by simpa using ih)

def emptyInside : Json := .object [("a", .array []), ("b", .string "x")]

theorem ordered_emptyInside : emptyInside.Ordered := by
  have hnames : ("a" : String) < "b" := by decide
  exact .object (by simpa using hnames) (by simpa using ⟨.array nofun, .string⟩)

theorem unroll_wrap_listed :
    (∃ node, wrap .synthetic (listed emptyInside 253) = .ok node ∧
      node.Labelled (· = ⟨.synthetic, .synthetic⟩) (· = ⟨.synthetic, .synthetic⟩) ∧
      node.unroll = listed emptyInside 253) ∧
    wrap .synthetic (listed emptyInside 254) = .error .nestingTooDeep := by
  have hdepth : emptyInside.depth = 2 := rfl
  obtain ⟨hexists, hmade, -⟩ := unroll_wrap .synthetic (listed emptyInside 253)
  obtain ⟨node, hnode⟩ := hexists.2 (by rw [depth_listed, hdepth])
  obtain ⟨hlabelled, hvalue⟩ := hmade node hnode
  refine ⟨⟨node, hnode, hlabelled, hvalue (ordered_listed ordered_emptyInside 253)⟩, ?_⟩
  apply (unroll_wrap .synthetic (listed emptyInside 254)).2.2
  rw [depth_listed, hdepth]
  decide

end RuleTidy.Yaml.Node
