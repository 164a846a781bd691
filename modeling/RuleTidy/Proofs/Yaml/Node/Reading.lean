import RuleTidy.Proofs.Yaml.Node.Builder

/-! Nodes as their events spell them. A node is read from its spelling by recursion: its children
first, in their order, each with the anchors that the nodes before it have left. The builder, which
sees one event after the other and keeps open collections on a stack, makes the same node. -/

namespace RuleTidy.Yaml

open Source

structure Extent where
  start : Nat
  stop : Nat

/-- The spelling of a node. A collection has an event at its start and another at its end. -/
inductive Form where
  | scalar (extent : Extent) (style : ScalarStyle) (text : String) (anchor : Option Nat)
      (tag : Option Tag)
  | alias (extent : Extent) (anchor : Nat)
  | sequence (first last : Extent) (anchor : Option Nat) (items : List Form)
  | mapping (first last : Extent) (anchor : Option Nat) (entries : List (Form × Form))

namespace Form

theorem induction {P : Form → Prop} (form : Form)
    (scalar : ∀ extent style text anchor tag, P (.scalar extent style text anchor tag))
    («alias» : ∀ extent n, P (.alias extent n))
    (sequence : ∀ first last anchor items, (∀ item ∈ items, P item) →
      P (.sequence first last anchor items))
    (mapping : ∀ first last anchor entries, (∀ entry ∈ entries, P entry.1 ∧ P entry.2) →
      P (.mapping first last anchor entries)) : P form :=
  @Form.rec P (fun items => ∀ item ∈ items, P item)
    (fun entries => ∀ entry ∈ entries, P entry.1 ∧ P entry.2) (fun entry => P entry.1 ∧ P entry.2)
    scalar «alias» sequence mapping
    nofun (fun _ _ hitem hrest => List.forall_mem_cons.2 ⟨hitem, hrest⟩)
    nofun (fun _ _ hentry hrest => List.forall_mem_cons.2 ⟨hentry, hrest⟩)
    (fun _ _ hkey hvalue => ⟨hkey, hvalue⟩) form

def anchor? : Form → Option Nat
  | .scalar _ _ _ anchor _ => anchor
  | .alias _ _ => none
  | .sequence _ _ anchor _ => anchor
  | .mapping _ _ anchor _ => anchor

mutual

def events : Form → List Event
  | .scalar extent style text anchor tag =>
    [⟨.scalar style text anchor tag, extent.start, extent.stop⟩]
  | .alias extent n => [⟨.alias n, extent.start, extent.stop⟩]
  | .sequence first last anchor items =>
    ⟨.sequenceStart anchor, first.start, first.stop⟩ ::
      (itemEvents items ++ [⟨.sequenceEnd, last.start, last.stop⟩])
  | .mapping first last anchor entries =>
    ⟨.mappingStart anchor, first.start, first.stop⟩ ::
      (entryEvents entries ++ [⟨.mappingEnd, last.start, last.stop⟩])

def itemEvents : List Form → List Event
  | [] => []
  | item :: rest => events item ++ itemEvents rest

def entryEvents : List (Form × Form) → List Event
  | [] => []
  | (key, value) :: rest => events key ++ (events value ++ entryEvents rest)

end

def scalarOf (style : ScalarStyle) (text : String) (tag : Option Tag) : Scalar :=
  match style with
  | .plain => if tag.any (·.suffix = "str") then .string text else Schema.resolve text
  | _ => .string text

mutual

/-- The node that is spelled inside `level` collections, and the nodes that bear an anchor then, the
last first. An alias is the last node of its anchor that is complete. -/
def read (source : SourceText) (level : Nat) (known : List (Nat × Node)) :
    Form → Except ParseError (Node × List (Nat × Node))
  | .scalar extent style text anchor tag =>
    let info := ⟨source.span extent.start extent.stop, .scalar style⟩
    let node := .scalar info (scalarOf style text tag)
    .ok (node, named anchor node known)
  | .alias extent n =>
    match known.lookup n with
    | some node => .ok (node, known)
    | none => .error (.unknownAnchor (source.span extent.start extent.stop))
  | .sequence first last anchor items =>
    if level < maxDepth then do
      let (items, known) ← readItems source (level + 1) known items
      let info := ⟨source.span first.start last.stop, source.collectionLayout first.start⟩
      let node := .sequence info items
      .ok (node, named anchor node known)
    else .error .nestingTooDeep
  | .mapping first last anchor entries =>
    if level < maxDepth then do
      let (entries, known) ← readEntries source (level + 1) known entries
      let info := ⟨source.span first.start last.stop, source.collectionLayout first.start⟩
      let node := .mapping info entries
      .ok (node, named anchor node known)
    else .error .nestingTooDeep

def readItems (source : SourceText) (level : Nat) (known : List (Nat × Node)) :
    List Form → Except ParseError (List Node × List (Nat × Node))
  | [] => .ok ([], known)
  | item :: rest => do
    let (item, known) ← read source level known item
    let (rest, known) ← readItems source level known rest
    .ok (item :: rest, known)

def readEntries (source : SourceText) (level : Nat) (known : List (Nat × Node)) :
    List (Form × Form) → Except ParseError (List (Node × Node) × List (Nat × Node))
  | [] => .ok ([], known)
  | (key, value) :: rest => do
    let (key, known) ← read source level known key
    let (value, known) ← read source level known value
    let (rest, known) ← readEntries source level known rest
    .ok ((key, value) :: rest, known)

end

end Form

namespace Builder

variable {source : SourceText} {b : Builder}

def give (b : Builder) (node : Node) (anchors : List (Nat × Node)) : Builder :=
  { b with anchors }.complete node none

theorem complete_eq_give (b : Builder) (node : Node) (anchor : Option Nat) :
    b.complete node anchor = b.give node (named anchor node b.anchors) := by
  cases anchor <;> rfl

theorem length_frames_give (node : Node) (anchors : List (Nat × Node)) :
    (b.give node anchors).frames.length = b.frames.length := by
  obtain ⟨frames, before, root⟩ := b
  cases frames <;> rfl

theorem anchors_give (node : Node) (anchors : List (Nat × Node)) :
    (b.give node anchors).anchors = anchors := anchors_complete

theorem scalarValue_eq (style : ScalarStyle) (text : String) (tag : Option Tag) :
    SourceText.scalarValue style text tag = Form.scalarOf style text tag := by
  cases style <;> cases tag <;> simp [SourceText.scalarValue, Form.scalarOf]

/-- The events of a node give it to the innermost collection that is open. -/
def Reads (source : SourceText) (form : Form) : Prop :=
  ∀ b : Builder, form.events.foldlM (accept source) b =
    (form.read source b.frames.length b.anchors).map fun found => b.give found.1 found.2

theorem foldlM_itemEvents {items : List Form} (h : ∀ item ∈ items, Reads source item) (start : Nat)
    (anchor : Option Nat) (before : List Node) (outer : List Frame) (known : List (Nat × Node))
    (root : Option Node) :
    (Form.itemEvents items).foldlM (accept source)
        ⟨.sequence start anchor before :: outer, known, root⟩ =
      (Form.readItems source (outer.length + 1) known items).map fun found =>
        ⟨.sequence start anchor (found.1.reverse ++ before) :: outer, found.2, root⟩ := by
  induction items generalizing before known with
  | nil => rfl
  | cons item rest ih =>
      obtain ⟨hitem, hrest⟩ := List.forall_mem_cons.1 h
      rw [Form.itemEvents, List.foldlM_append, hitem, Form.readItems, bind_of_map, map_of_bind]
      refine bind_congr fun ⟨item, known⟩ => (ih hrest (item :: before) known).trans ?_
      rw [map_of_bind]
      cases Form.readItems source (outer.length + 1) known rest with
      | error e => rfl
      | ok found => exact congrArg Except.ok (by simp)

theorem foldlM_entryEvents {entries : List (Form × Form)}
    (h : ∀ entry ∈ entries, Reads source entry.1 ∧ Reads source entry.2) (start : Nat)
    (anchor : Option Nat) (before : List (Node × Node)) (outer : List Frame)
    (known : List (Nat × Node)) (root : Option Node) :
    (Form.entryEvents entries).foldlM (accept source)
        ⟨.mapping start anchor before none :: outer, known, root⟩ =
      (Form.readEntries source (outer.length + 1) known entries).map fun found =>
        ⟨.mapping start anchor (found.1.reverse ++ before) none :: outer, found.2, root⟩ := by
  induction entries generalizing before known with
  | nil => rfl
  | cons entry rest ih =>
      obtain ⟨key, value⟩ := entry
      obtain ⟨⟨hkey, hvalue⟩, hrest⟩ := List.forall_mem_cons.1 h
      rw [Form.entryEvents, List.foldlM_append, hkey, Form.readEntries, bind_of_map, map_of_bind]
      refine bind_congr fun ⟨key, known⟩ => ?_
      rw [List.foldlM_append, hvalue, bind_of_map, map_of_bind]
      refine bind_congr fun ⟨value, known⟩ => (ih hrest ((key, value) :: before) known).trans ?_
      rw [map_of_bind]
      cases Form.readEntries source (outer.length + 1) known rest with
      | error e => rfl
      | ok found => exact congrArg Except.ok (by simp)

theorem accept_end {event : Event} {frame : Frame} {outer : List Frame} {known : List (Nat × Node)}
    {root : Option Node} (hkind : event.kind = .sequenceEnd ∨ event.kind = .mappingEnd) :
    accept source ⟨frame :: outer, known, root⟩ event =
      .ok (give ⟨outer, known, root⟩ (source.close frame event.stop).1
        (named (source.close frame event.stop).2 (source.close frame event.stop).1 known)) := by
  rw [← complete_eq_give]
  rcases hkind with hkind | hkind <;> rw [accept, hkind]

theorem foldlM_collection {α : Type} {first last : Event} {inner : List Event} {frame : Frame}
    {children : Except ParseError (α × List (Nat × Node))} (filled : α → Frame)
    (hfirst : b.accept source first = b.openFrame frame)
    (hinner : inner.foldlM (accept source) { b with frames := frame :: b.frames } =
      children.map fun found => ⟨filled found.1 :: b.frames, found.2, b.root⟩)
    (hlast : last.kind = .sequenceEnd ∨ last.kind = .mappingEnd) :
    (first :: (inner ++ [last])).foldlM (accept source) b =
      if b.frames.length < maxDepth then
        children.map fun found =>
          let (node, anchor) := source.close (filled found.1) last.stop
          b.give node (named anchor node found.2)
      else .error .nestingTooDeep := by
  rw [List.foldlM_cons, hfirst]
  split
  · next hroom =>
      rw [openFrame_eq_ok.2 ⟨hroom, rfl⟩]
      change (inner ++ [last]).foldlM (accept source) _ = _
      rw [List.foldlM_append, hinner, bind_of_map]
      cases children with
      | error e => rfl
      | ok found =>
          change [last].foldlM (accept source) _ = _
          rw [List.foldlM_cons, accept_end hlast]
          rfl
  · next hfull =>
      rw [openFrame, if_pos (Nat.le_of_not_lt hfull)]
      rfl

theorem foldlM_events (source : SourceText) (form : Form) : Reads source form := by
  induction form using Form.induction with
  | scalar extent style text anchor tag =>
      intro b
      rw [Form.events, List.foldlM_cons, Form.read, ← scalarValue_eq]
      exact congrArg Except.ok (complete_eq_give b _ anchor)
  | «alias» extent n =>
      intro b
      rw [Form.events, List.foldlM_cons, Form.read, accept]
      dsimp only
      cases b.anchors.lookup n with
      | none => rfl
      | some node => rfl
  | sequence first last anchor items ih =>
      intro b
      have hitems := foldlM_itemEvents ih first.start anchor [] b.frames b.anchors b.root
      simp only [List.append_nil] at hitems
      rw [Form.events, Form.read, foldlM_collection
        (fun items : List Node => .sequence first.start anchor items.reverse) rfl hitems (.inl rfl)]
      split
      · rw [map_of_bind]
        cases Form.readItems source (b.frames.length + 1) b.anchors items with
        | error e => rfl
        | ok found => simp [Except.map, SourceText.close, bind, Except.bind]
      · rfl
  | mapping first last anchor entries ih =>
      intro b
      have hentries := foldlM_entryEvents ih first.start anchor [] b.frames b.anchors b.root
      simp only [List.append_nil] at hentries
      rw [Form.events, Form.read, foldlM_collection
        (fun entries : List (Node × Node) => .mapping first.start anchor entries.reverse none) rfl
        hentries (.inr rfl)]
      split
      · rw [map_of_bind]
        cases Form.readEntries source (b.frames.length + 1) b.anchors entries with
        | error e => rfl
        | ok found => simp [Except.map, SourceText.close, bind, Except.bind]
      · rfl

end Builder

end RuleTidy.Yaml
