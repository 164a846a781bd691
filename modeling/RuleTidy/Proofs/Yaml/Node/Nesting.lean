import RuleTidy.Proofs.Yaml.Node.Builder
import RuleTidy.Proofs.Yaml.Node.Depth

/-! How deep the configuration of a text nests. The limit holds for the collections that are open at
once. An alias puts a node where it stands without a look at how deep the node is, so that each of
them may add as much as the limit again. -/

namespace RuleTidy.Yaml

open Source

variable {limit : Nat} {node : Node}

def Event.isAlias (event : Event) : Bool := event.kind matches .alias _

theorem SourceText.depth_close_le {source : SourceText} {frame : Frame} {n : Nat} (stop : Nat)
    (h : ∀ child ∈ frame.nodes, child.depth ≤ n) : (source.close frame stop).1.depth ≤ n + 1 := by
  cases frame with
  | sequence start anchor items =>
      refine Nat.succ_le_succ (Node.depthItems_le.2 fun item hitem => ?_)
      exact h item (List.mem_reverse.1 hitem)
  | mapping start anchor entries key =>
      refine Nat.succ_le_succ (Node.depthEntries_le.2 fun entry hentry => ?_)
      exact ⟨h _ (Frame.mem_nodes_of_mem (List.mem_reverse.1 hentry)).1,
        h _ (Frame.mem_nodes_of_mem (List.mem_reverse.1 hentry)).2⟩

/-- With the collections that are open around it, no child of an open collection is too deep. -/
def Within (limit : Nat) : List Frame → Prop
  | [] => True
  | frame :: outer =>
    (∀ child ∈ frame.nodes, child.depth + outer.length + 1 ≤ limit) ∧ Within limit outer

theorem Within.mono {limit' : Nat} (hlimit : limit ≤ limit') :
    ∀ {frames : List Frame}, Within limit frames → Within limit' frames
  | [], _ => trivial
  | _ :: _, ⟨hchildren, houter⟩ =>
    ⟨fun child hchild => Nat.le_trans (hchildren child hchild) hlimit, houter.mono hlimit⟩

structure Builder.Nested (limit : Nat) (b : Builder) : Prop where
  frames : b.frames.length ≤ maxDepth
  within : Within limit b.frames
  anchors : ∀ anchor ∈ b.anchors, anchor.2.depth ≤ limit
  root : ∀ node ∈ b.root, node.depth ≤ limit

namespace Builder.Nested

variable {b after : Builder} {source : SourceText} {event : Event}

theorem mono {limit' : Nat} (h : b.Nested limit) (hlimit : limit ≤ limit') : b.Nested limit' where
  frames := h.frames
  within := h.within.mono hlimit
  anchors anchor hanchor := Nat.le_trans (h.anchors anchor hanchor) hlimit
  root node hnode := Nat.le_trans (h.root node hnode) hlimit

theorem complete (h : b.Nested limit) (hnode : node.depth + b.frames.length ≤ limit)
    (anchor : Option Nat) : (b.complete node anchor).Nested limit := by
  have hdepth : node.depth ≤ limit := Nat.le_trans (Nat.le_add_right _ _) hnode
  have hanchors : ∀ entry ∈ (b.complete node anchor).anchors, entry.2.depth ≤ limit :=
    forall_anchors_complete (P := fun node => node.depth ≤ limit) hdepth h.anchors
  have hroot : ∀ root ∈ (b.complete node anchor).root, root.depth ≤ limit :=
    forall_root_complete (P := fun node => node.depth ≤ limit) hdepth h.root
  obtain ⟨hframes, hwithin⟩ : (b.complete node anchor).frames.length ≤ maxDepth ∧
      Within limit (b.complete node anchor).frames := by
    have hlength := h.frames
    have hwithin := h.within
    cases hframes : b.frames with
    | nil =>
        rw [complete_of_eq_nil hframes]
        exact ⟨Nat.zero_le _, trivial⟩
    | cons frame outer =>
        rw [hframes] at hlength hwithin hnode
        rw [complete_of_eq_cons hframes]
        exact ⟨hlength, Frame.forall_nodes_add hnode hwithin.1, hwithin.2⟩
  exact ⟨hframes, hwithin, hanchors, hroot⟩

theorem openFrame {frame : Frame} (h : b.Nested limit) (hroom : b.frames.length < maxDepth)
    (hframe : frame.nodes = []) : Builder.Nested limit { b with frames := frame :: b.frames } where
  frames := hroom
  within := ⟨by simp [hframe], h.within⟩
  anchors := h.anchors
  root := h.root

theorem step (hlimit : maxDepth ≤ limit) (h : b.Nested limit) (hstep : Step source b event after) :
    after.Nested (if event.isAlias then limit + maxDepth else limit) := by
  cases hstep with
  | scalar kind =>
      rw [Event.isAlias, kind]
      refine h.complete ?_ _
      rw [Node.depth, Nat.zero_add]
      exact Nat.le_trans h.frames hlimit
  | «alias» kind known =>
      rw [Event.isAlias, kind]
      obtain ⟨before, after, heq, -⟩ := List.lookup_eq_some_iff.1 known
      have hdepth := h.anchors _ (heq ▸ List.mem_append_right before List.mem_cons_self)
      exact (h.mono (Nat.le_add_right _ _)).complete (Nat.add_le_add hdepth h.frames) none
  | openSequence kind room =>
      rw [Event.isAlias, kind]
      exact h.openFrame room rfl
  | openMapping kind room =>
      rw [Event.isAlias, kind]
      exact h.openFrame room rfl
  | @close frame outer kind frames =>
      obtain ⟨hchildren, houter⟩ := frames ▸ h.within
      have hlength : outer.length + 1 ≤ maxDepth := by simpa [frames] using h.frames
      have hdepth : (source.close frame event.stop).1.depth ≤ limit - outer.length - 1 + 1 :=
        source.depth_close_le event.stop fun child hchild => by
          have := hchildren child hchild
          omega
      have hopen : Builder.Nested limit { b with frames := outer } :=
        ⟨Nat.le_of_succ_le hlength, houter, h.anchors, h.root⟩
      have hroom : (source.close frame event.stop).1.depth + outer.length ≤ limit := by omega
      rcases kind with kind | kind <;> rw [Event.isAlias, kind] <;> exact hopen.complete hroom _
  | ignore kind frames => rcases kind with kind | kind <;> rwa [Event.isAlias, kind]

theorem foldlM_accept {events : List Event}
    (h : events.foldlM (Builder.accept source) {} = .ok after) :
    after.Nested (maxDepth * (events.countP Event.isAlias + 1)) := by
  have hempty : Builder.Nested (maxDepth * ([].countP Event.isAlias + 1)) {} :=
    ⟨Nat.zero_le _, trivial, by simp, by simp⟩
  refine foldlM_induction
    (P := fun events b => b.Nested (maxDepth * (events.countP Event.isAlias + 1)))
    hempty (fun done b event after hb hstep => ?_) h
  have hnested := hb.step (Nat.le_mul_of_pos_right _ (Nat.succ_pos _)) hstep
  rw [List.countP_append, List.countP_singleton]
  split
  · next halias => rwa [if_pos halias] at hnested
  · next halias => rwa [if_neg halias] at hnested

end Builder.Nested

/-- The configuration of a text is no deeper than the limit, as often as the text has aliases and
once more. So the value of a configuration without aliases can be made a configuration again, and
that of one with aliases can unless it is itself too deep. -/
theorem depth_le_of_parse {registry registry' : Registry} {text : String} {file : Option String}
    {root : Node} (h : parse registry text file = (.ok root, registry')) :
    let events := SourceText.events ⟨⟨file, Digest.of text⟩, text.toList⟩
    root.depth ≤ maxDepth * (events.countP Event.isAlias + 1) ∧
      ((∀ event ∈ events, event.isAlias = false) →
        ∀ span, ∃ node, Node.ofJson span root.toJson = .ok node) ∧
      ∀ span, Node.ofJson span root.toJson = .error .nestingTooDeep ↔
        maxDepth < root.toJson.depth := by
  intro events
  have hparse := (Prod.mk.inj h).1
  obtain ⟨b, hb, hroot⟩ := SourceText.exists_foldlM_of_parse hparse
  have hdepth : root.depth ≤ maxDepth * (events.countP Event.isAlias + 1) := by
    cases hfound : b.root with
    | none =>
        rw [hroot, hfound]
        exact Nat.zero_le _
    | some found =>
        rw [hroot, hfound]
        exact (Builder.Nested.foldlM_accept hb).root found hfound
  refine ⟨hdepth, fun hnone span => Node.exists_ofJson_iff.2 ?_, fun _ => Node.ofJson_eq_error_iff⟩
  have hcount : events.countP Event.isAlias = 0 := by simpa [List.countP_eq_zero] using hnone
  calc root.toJson.depth ≤ root.depth := Node.depth_toJson_le root
    _ ≤ maxDepth * (events.countP Event.isAlias + 1) := hdepth
    _ = maxDepth := by rw [hcount, Nat.zero_add, Nat.mul_one]

/-- A list that is repeated inside another, and lists within each other without aliases. -/
theorem depth_le_of_parse_repeated :
    (∃ root registry', parse .empty "- &a [x]\n- [*a]\n" none = (.ok root, registry') ∧
      root.depth = 3 ∧ root.depth ≤ maxDepth * 2 ∧
      ∀ span, Node.ofJson span root.toJson = .error .nestingTooDeep ↔
        maxDepth < root.toJson.depth) ∧
    ∃ root registry', parse .empty "[[x]]" none = (.ok root, registry') ∧
      ∀ span, ∃ node, Node.ofJson span root.toJson = .ok node := by
  have hrepeated : (parse .empty "- &a [x]\n- [*a]\n" none).1.toOption.map Node.depth = some 3 := by
    decide +kernel
  have hnested : (parse .empty "[[x]]" none).1.toOption.map Node.depth = some 2 := by decide +kernel
  obtain ⟨root, registry', hroot, hdepth⟩ := exists_parse_of_map hrepeated
  obtain ⟨inner, inner', hinner, -⟩ := exists_parse_of_map hnested
  obtain ⟨hle, -, htooDeep⟩ := depth_le_of_parse hroot
  have hcount : ((SourceText.events ⟨⟨none, Digest.of "- &a [x]\n- [*a]\n"⟩,
      "- &a [x]\n- [*a]\n".toList⟩).countP Event.isAlias) = 1 := by decide +kernel
  rw [hcount] at hle
  exact ⟨⟨root, registry', hroot, hdepth, hle, htooDeep⟩,
    ⟨inner, inner', hinner, (depth_le_of_parse hinner).2.1 (by decide +kernel)⟩⟩

def deepAlias : String :=
  "- &a\n" ++ String.join (List.replicate 128 " -") ++ "\n- " ++
    String.join (List.replicate 127 "- ") ++ "*a\n"

/-- With an alias a configuration may be too deep to be made of its own value. -/
theorem exists_nestingTooDeep_deepAlias :
    ∃ root registry', parse .empty deepAlias none = (.ok root, registry') ∧
      maxDepth < root.depth ∧ ∀ span, Node.ofJson span root.toJson = .error .nestingTooDeep := by
  have hdepth : (parse .empty deepAlias none).1.toOption.map (·.toJson.depth) = some 256 := by
    decide +kernel
  obtain ⟨root, registry', hroot, hjson⟩ := exists_parse_of_map hdepth
  have hdeep : maxDepth < root.toJson.depth := by
    rw [hjson]
    exact Nat.lt_succ_self 255
  exact ⟨root, registry', hroot, Nat.lt_of_lt_of_le hdeep (Node.depth_toJson_le root),
    fun _ => Node.ofJson_eq_error_iff.2 hdeep⟩

end RuleTidy.Yaml
