import RuleTidy.Proofs.Yaml.Node.Builder
import RuleTidy.Proofs.Yaml.Path

/-! What the nodes of a configuration are marked with, keys included. A property that the marks of
all nodes have when they are read from a text is one that all nodes of the configuration have, and
so do the nodes that come of it when one is changed. -/

namespace RuleTidy.Yaml

open Source

variable {leaf inner : Info → Prop} {node : Node}

namespace Node

/-- The marks of the leaves and those of the collections of a configuration, its root included, have
a property each. -/
inductive Labelled (leaf inner : Info → Prop) : Node → Prop
  | scalar {info : Info} {value : Scalar} (mark : leaf info) :
      Labelled leaf inner (.scalar info value)
  | sequence {info : Info} {items : List Node} (mark : inner info)
      (below : ∀ item ∈ items, Labelled leaf inner item) :
      Labelled leaf inner (.sequence info items)
  | mapping {info : Info} {entries : List (Node × Node)} (mark : inner info)
      (keys : ∀ entry ∈ entries, Labelled leaf inner entry.1)
      (values : ∀ entry ∈ entries, Labelled leaf inner entry.2) :
      Labelled leaf inner (.mapping info entries)

namespace Labelled

theorem imp {leaf' inner' : Info → Prop} (h : Labelled leaf inner node)
    (hleaf : ∀ info, leaf info → leaf' info) (hinner : ∀ info, inner info → inner' info) :
    Labelled leaf' inner' node := by
  induction h with
  | scalar mark => exact .scalar (hleaf _ mark)
  | sequence mark _ ih => exact .sequence (hinner _ mark) ih
  | mapping mark _ _ keys values => exact .mapping (hinner _ mark) keys values

theorem of_items? {items : List Node} (h : Labelled leaf inner node)
    (hitems : node.items? = some items) : ∀ item ∈ items, Labelled leaf inner item := by
  cases h with
  | scalar mark => cases hitems
  | mapping mark keys values => cases hitems
  | sequence mark below =>
      obtain rfl := Option.some.inj hitems
      exact below

theorem of_get? {name : String} {child : Node} (h : Labelled leaf inner node)
    (hchild : node.get? name = some child) : Labelled leaf inner child := by
  cases h with
  | scalar mark => cases hchild
  | sequence mark below => cases hchild
  | mapping mark keys values =>
      obtain ⟨entry, hentry, rfl⟩ := Option.map_eq_some_iff.1 hchild
      exact values entry (List.mem_of_find?_eq_some hentry)

theorem of_child? {segment : Segment} {child : Node} (h : Labelled leaf inner node)
    (hchild : node.child? segment = some child) : Labelled leaf inner child := by
  cases segment with
  | key name => exact h.of_get? hchild
  | index n =>
      obtain ⟨items, hitems, hindex⟩ := Option.bind_eq_some_iff.1 hchild
      exact h.of_items? hitems child (List.mem_of_getElem? hindex)

theorem of_at? {path : Path} {found : Node} (h : Labelled leaf inner node)
    (hfound : node.at? path = some found) : Labelled leaf inner found := by
  induction path generalizing node with
  | nil =>
      obtain rfl := Option.some.inj hfound
      exact h
  | cons segment rest ih =>
      obtain ⟨child, hchild, hfound⟩ := Option.bind_eq_some_iff.1 hfound
      exact ih (h.of_child? hchild) hfound

theorem setEntry {name : String} {value : Node} {entries : List (Node × Node)}
    (hvalue : Labelled leaf inner value) (hkeys : ∀ entry ∈ entries, Labelled leaf inner entry.1)
    (hvalues : ∀ entry ∈ entries, Labelled leaf inner entry.2) :
    ∀ entry ∈ setEntry name value entries,
      Labelled leaf inner entry.1 ∧ Labelled leaf inner entry.2 := by
  induction entries with
  | nil => exact fun entry hentry => nomatch hentry
  | cons first rest ih =>
      obtain ⟨key, old⟩ := first
      obtain ⟨hkey, hkeys⟩ := List.forall_mem_cons.1 hkeys
      obtain ⟨hold, hvalues⟩ := List.forall_mem_cons.1 hvalues
      unfold Node.setEntry
      split
      · exact List.forall_mem_cons.2
          ⟨⟨hkey, hvalue⟩, fun entry hentry => ⟨hkeys entry hentry, hvalues entry hentry⟩⟩
      · exact List.forall_mem_cons.2 ⟨⟨hkey, hold⟩, ih hkeys hvalues⟩

theorem setChild {segment : Segment} {value : Node} (h : Labelled leaf inner node)
    (hvalue : Labelled leaf inner value) : Labelled leaf inner (node.setChild segment value) := by
  cases segment with
  | key name =>
      cases h with
      | scalar mark => exact .scalar mark
      | sequence mark below => exact .sequence mark below
      | mapping mark keys values =>
          have hentries := @setEntry leaf inner name value _ hvalue keys values
          exact .mapping mark (fun entry hentry => (hentries entry hentry).1)
            fun entry hentry => (hentries entry hentry).2
  | index n =>
      cases h with
      | scalar mark => exact .scalar mark
      | mapping mark keys values => exact .mapping mark keys values
      | sequence mark below =>
          refine .sequence mark fun item hitem => ?_
          rcases List.mem_or_eq_of_mem_set hitem with hold | rfl
          · exact below item hold
          · exact hvalue

theorem update? {path : Path} {f : Node → Node} {after : Node} (h : Labelled leaf inner node)
    (hf : ∀ old, node.at? path = some old → Labelled leaf inner (f old))
    (hafter : node.update? path f = some after) : Labelled leaf inner after := by
  induction path generalizing node after with
  | nil =>
      obtain rfl := Option.some.inj hafter
      exact hf node rfl
  | cons segment rest ih =>
      obtain ⟨child, child', hchild, hupdate, rfl⟩ := Node.update?_cons_eq_some.1 hafter
      refine h.setChild (ih (h.of_child? hchild) (fun old hold => hf old ?_) hupdate)
      rw [Node.at?_cons, hchild, Option.bind_some, hold]

end Labelled

end Node

/-! Reading. -/

structure Builder.Labelled (leaf inner : Info → Prop) (b : Builder) : Prop where
  frames : ∀ frame ∈ b.frames, ∀ child ∈ frame.nodes, child.Labelled leaf inner
  anchors : ∀ anchor ∈ b.anchors, anchor.2.Labelled leaf inner
  root : ∀ node ∈ b.root, node.Labelled leaf inner

structure SourceText.Labels (source : SourceText) (leaf inner : Info → Prop) : Prop where
  scalar : ∀ start stop style, leaf ⟨source.span start stop, .scalar style⟩
  collection : ∀ start stop, inner ⟨source.span start stop, source.collectionLayout start⟩

namespace Builder.Labelled

variable {b : Builder} {source : SourceText} {event : Event}

theorem complete (h : b.Labelled leaf inner) (hnode : node.Labelled leaf inner)
    (anchor : Option Nat) : (b.complete node anchor).Labelled leaf inner where
  anchors := forall_anchors_complete hnode h.anchors
  root := forall_root_complete hnode h.root
  frames := by
    cases hframes : b.frames with
    | nil =>
        rw [complete_of_eq_nil hframes]
        exact fun frame hframe => nomatch hframe
    | cons frame outer =>
        obtain ⟨hframe, houter⟩ := List.forall_mem_cons.1 (hframes ▸ h.frames)
        rw [complete_of_eq_cons hframes]
        exact List.forall_mem_cons.2 ⟨Frame.forall_nodes_add hnode hframe, houter⟩

theorem close {frame : Frame} (hlabels : source.Labels leaf inner)
    (h : ∀ child ∈ frame.nodes, child.Labelled leaf inner) (stop : Nat) :
    (source.close frame stop).1.Labelled leaf inner := by
  cases frame with
  | sequence start anchor items =>
      exact .sequence (hlabels.collection _ stop) fun item hitem => h item (List.mem_reverse.1 hitem)
  | mapping start anchor entries key =>
      exact .mapping (hlabels.collection _ stop)
        (fun entry hentry => h _ (Frame.mem_nodes_of_mem (List.mem_reverse.1 hentry)).1)
        fun entry hentry => h _ (Frame.mem_nodes_of_mem (List.mem_reverse.1 hentry)).2

theorem step {after : Builder} (hlabels : source.Labels leaf inner) (h : b.Labelled leaf inner)
    (hstep : Step source b event after) : after.Labelled leaf inner := by
  cases hstep with
  | scalar kind => exact h.complete (.scalar (hlabels.scalar _ _ _)) _
  | «alias» kind known =>
      obtain ⟨before, after, heq, -⟩ := List.lookup_eq_some_iff.1 known
      exact h.complete (h.anchors _ (heq ▸ List.mem_append_right _ List.mem_cons_self)) none
  | openSequence kind room =>
      exact ⟨List.forall_mem_cons.2 ⟨nofun, h.frames⟩, h.anchors, h.root⟩
  | openMapping kind room =>
      exact ⟨List.forall_mem_cons.2 ⟨nofun, h.frames⟩, h.anchors, h.root⟩
  | @close frame outer kind frames =>
      obtain ⟨hframe, houter⟩ := List.forall_mem_cons.1 (frames ▸ h.frames)
      have hopen : Builder.Labelled leaf inner { b with frames := outer } :=
        ⟨houter, h.anchors, h.root⟩
      exact hopen.complete (close hlabels hframe event.stop) _
  | ignore kind frames => exact h

end Builder.Labelled

namespace SourceText

theorem labelled_parse {source : SourceText} {root : Node} (hlabels : source.Labels leaf inner)
    (h : source.parse = .ok root) : root.Labelled leaf inner := by
  obtain ⟨b, hb, rfl⟩ := exists_foldlM_of_parse h
  have hempty : Builder.Labelled leaf inner {} := ⟨by simp, by simp, by simp⟩
  have hlabelled : b.Labelled leaf inner :=
    Builder.foldlM_induction (P := fun _ b => b.Labelled leaf inner) hempty
      (fun _ _ _ _ hb hstep => hb.step hlabels hstep) hb
  cases hroot : b.root with
  | none => exact .scalar (hlabels.scalar 0 0 .plain)
  | some root => exact hlabelled.root root hroot

end SourceText

end RuleTidy.Yaml
