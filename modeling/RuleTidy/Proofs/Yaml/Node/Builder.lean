import RuleTidy.Proofs.Chain
import RuleTidy.Yaml.Parse

/-! What a configuration under construction becomes by an event, and by the events of a text. -/

namespace RuleTidy.Yaml

open Source

variable {P : Node → Prop} {node : Node}

def named (anchor : Option Nat) (node : Node) (anchors : List (Nat × Node)) : List (Nat × Node) :=
  match anchor with
  | some n => (n, node) :: anchors
  | none => anchors

def Event.opens (event : Event) : Bool := event.kind matches .sequenceStart _ | .mappingStart _

def Event.closes (event : Event) : Bool := event.kind matches .sequenceEnd | .mappingEnd

namespace Frame

def nodes : Frame → List Node
  | .sequence _ _ items => items
  | .mapping _ _ entries key => key.toList ++ entries.flatMap fun entry => [entry.1, entry.2]

theorem mem_nodes_of_mem {start : Nat} {anchor : Option Nat} {entries : List (Node × Node)}
    {key : Option Node} {entry : Node × Node} (h : entry ∈ entries) :
    entry.1 ∈ nodes (.mapping start anchor entries key) ∧
      entry.2 ∈ nodes (.mapping start anchor entries key) := by
  have hmem : ∀ child ∈ [entry.1, entry.2], child ∈ nodes (.mapping start anchor entries key) :=
    fun child hchild => List.mem_append_right _ (List.mem_flatMap.2 ⟨entry, h, hchild⟩)
  exact ⟨hmem _ List.mem_cons_self, hmem _ (List.mem_cons_of_mem _ List.mem_cons_self)⟩

theorem forall_nodes_add {frame : Frame} (hnode : P node) (h : ∀ child ∈ frame.nodes, P child) :
    ∀ child ∈ (frame.add node).nodes, P child := by
  cases frame with
  | sequence start anchor items => exact List.forall_mem_cons.2 ⟨hnode, h⟩
  | mapping start anchor entries key =>
      cases key with
      | none => exact List.forall_mem_cons.2 ⟨hnode, h⟩
      | some key =>
          obtain ⟨hkey, hentries⟩ := List.forall_mem_cons.1 h
          exact List.forall_mem_cons.2 ⟨hkey, List.forall_mem_cons.2 ⟨hnode, hentries⟩⟩

end Frame

namespace Builder

variable {source : SourceText} {b after : Builder} {event : Event} {anchor : Option Nat}

/-! A complete node goes to its anchor, and to the innermost collection that is open. -/

theorem complete_of_eq_nil (h : b.frames = []) :
    b.complete node anchor = ⟨[], named anchor node b.anchors, b.root <|> some node⟩ := by
  obtain ⟨frames, anchors, root⟩ := b
  obtain rfl : frames = [] := h
  cases anchor <;> rfl

theorem complete_of_eq_cons {frame : Frame} {outer : List Frame} (h : b.frames = frame :: outer) :
    b.complete node anchor = ⟨frame.add node :: outer, named anchor node b.anchors, b.root⟩ := by
  obtain ⟨frames, anchors, root⟩ := b
  obtain rfl : frames = frame :: outer := h
  cases anchor <;> rfl

theorem anchors_complete : (b.complete node anchor).anchors = named anchor node b.anchors := by
  cases hframes : b.frames with
  | nil => rw [complete_of_eq_nil hframes]
  | cons frame outer => rw [complete_of_eq_cons hframes]

theorem forall_anchors_complete (hnode : P node) (h : ∀ entry ∈ b.anchors, P entry.2) :
    ∀ entry ∈ (b.complete node anchor).anchors, P entry.2 := by
  rw [anchors_complete]
  cases anchor with
  | none => exact h
  | some n => exact List.forall_mem_cons.2 ⟨hnode, h⟩

theorem forall_root_complete (hnode : P node) (h : ∀ root ∈ b.root, P root) :
    ∀ root ∈ (b.complete node anchor).root, P root := by
  cases hframes : b.frames with
  | cons frame outer =>
      rw [complete_of_eq_cons hframes]
      exact h
  | nil =>
      rw [complete_of_eq_nil hframes]
      cases hroot : b.root with
      | none => simpa using hnode
      | some root => simpa using h root hroot

/-! Events. -/

/-- What one event makes of a configuration under construction that takes it. -/
inductive Step (source : SourceText) (b : Builder) (event : Event) : Builder → Prop
  | scalar {style : ScalarStyle} {text : String} {anchor : Option Nat} {tag : Option Tag}
      (kind : event.kind = .scalar style text anchor tag) :
      Step source b event (b.complete (.scalar ⟨source.span event.start event.stop, .scalar style⟩
        (SourceText.scalarValue style text tag)) anchor)
  | alias {n : Nat} {node : Node} (kind : event.kind = .alias n)
      (known : b.anchors.lookup n = some node) : Step source b event (b.complete node none)
  | openSequence {anchor : Option Nat} (kind : event.kind = .sequenceStart anchor)
      (room : b.frames.length < maxDepth) :
      Step source b event { b with frames := .sequence event.start anchor [] :: b.frames }
  | openMapping {anchor : Option Nat} (kind : event.kind = .mappingStart anchor)
      (room : b.frames.length < maxDepth) :
      Step source b event { b with frames := .mapping event.start anchor [] none :: b.frames }
  | close {frame : Frame} {outer : List Frame}
      (kind : event.kind = .sequenceEnd ∨ event.kind = .mappingEnd)
      (frames : b.frames = frame :: outer) :
      Step source b event ({ b with frames := outer }.complete (source.close frame event.stop).1
        (source.close frame event.stop).2)
  /-- An end without a collection to end. -/
  | ignore (kind : event.kind = .sequenceEnd ∨ event.kind = .mappingEnd) (frames : b.frames = []) :
      Step source b event b

theorem openFrame_eq_ok {frame : Frame} :
    b.openFrame frame = .ok after ↔
      b.frames.length < maxDepth ∧ { b with frames := frame :: b.frames } = after := by
  unfold openFrame
  split
  · next h => exact ⟨nofun, fun hroom => absurd hroom.1 (Nat.not_lt.2 h)⟩
  · next h => exact ⟨fun heq => ⟨Nat.lt_of_not_le h, Except.ok.inj heq⟩, fun hroom => hroom.2 ▸ rfl⟩

theorem Step.of_end (kind : event.kind = .sequenceEnd ∨ event.kind = .mappingEnd)
    (h : b.accept source event = .ok after) : Step source b event after := by
  unfold accept at h
  cases hframes : b.frames with
  | nil =>
      obtain rfl : b = after := by rcases kind with hkind | hkind <;> simpa [hkind, hframes] using h
      exact .ignore kind hframes
  | cons frame outer =>
      obtain rfl : { b with frames := outer }.complete (source.close frame event.stop).1
          (source.close frame event.stop).2 = after := by
        rcases kind with hkind | hkind <;> simpa [hkind, hframes] using h
      exact .close kind hframes

theorem Step.of_accept (h : b.accept source event = .ok after) : Step source b event after := by
  cases hkind : event.kind with
  | scalar style text anchor tag =>
      rw [accept, hkind] at h
      obtain rfl := Except.ok.inj h
      exact .scalar hkind
  | «alias» n =>
      rw [accept, hkind] at h
      dsimp only at h
      split at h
      · next node hnode =>
          obtain rfl := Except.ok.inj h
          exact .alias hkind hnode
      · cases h
  | sequenceStart anchor =>
      rw [accept, hkind] at h
      obtain ⟨hroom, rfl⟩ := openFrame_eq_ok.1 h
      exact .openSequence hkind hroom
  | mappingStart anchor =>
      rw [accept, hkind] at h
      obtain ⟨hroom, rfl⟩ := openFrame_eq_ok.1 h
      exact .openMapping hkind hroom
  | sequenceEnd => exact .of_end (.inl hkind) h
  | mappingEnd => exact .of_end (.inr hkind) h

theorem openFrame_eq_error {frame : Frame} {e : ParseError} :
    b.openFrame frame = .error e ↔ maxDepth ≤ b.frames.length ∧ e = .nestingTooDeep := by
  unfold openFrame
  split
  · next h => exact ⟨fun heq => ⟨h, (Except.error.inj heq).symm⟩, fun heq => heq.2 ▸ rfl⟩
  · next h => exact ⟨nofun, fun hfull => absurd hfull.1 h⟩

theorem accept_eq_error {e : ParseError} :
    b.accept source event = .error e ↔
      event.opens ∧ maxDepth ≤ b.frames.length ∧ e = .nestingTooDeep ∨
        ∃ n, event.kind = .alias n ∧ b.anchors.lookup n = none ∧
          e = .unknownAnchor (source.span event.start event.stop) := by
  obtain ⟨kind, start, stop⟩ := event
  cases kind with
  | scalar style text anchor tag => simp [accept, Event.opens]
  | sequenceStart anchor => simp [accept, Event.opens, openFrame_eq_error]
  | mappingStart anchor => simp [accept, Event.opens, openFrame_eq_error]
  | sequenceEnd => cases hframes : b.frames <;> simp [accept, Event.opens, hframes]
  | mappingEnd => cases hframes : b.frames <;> simp [accept, Event.opens, hframes]
  | «alias» n =>
      simp only [accept, Event.opens, EventKind.alias.injEq, exists_eq_left', Bool.false_eq_true,
        false_and, false_or]
      cases hnode : b.anchors.lookup n with
      | some node => simp
      | none => exact ⟨fun h => ⟨rfl, (Except.error.inj h).symm⟩, fun h => h.2 ▸ rfl⟩

/-- What holds at first and is kept by each event, given the events before it, holds in the end. -/
theorem foldlM_induction {P : List Event → Builder → Prop} {events : List Event} (start : P [] b)
    (step : ∀ done b event after, P done b → Step source b event after → P (done ++ [event]) after)
    (h : events.foldlM (accept source) b = .ok after) : P events after := by
  suffices hsuffix : ∀ rest done b, P done b → rest.foldlM (accept source) b = .ok after →
      P (done ++ rest) after from hsuffix events [] b start h
  intro rest
  induction rest with
  | nil =>
      intro done b hb h
      obtain rfl := Except.ok.inj h
      rwa [List.append_nil]
  | cons event rest ih =>
      intro done b hb h
      obtain ⟨next, hnext, h⟩ := bind_eq_ok.1 h
      rw [← List.singleton_append, ← List.append_assoc]
      exact ih _ next (step done b event next hb (.of_accept hnext)) h

end Builder

namespace SourceText

variable {source : SourceText} {root : Node}

def events (source : SourceText) : List Event :=
  (eventsOf (tokensOf source.text).1 (tokensOf source.text).2).1

theorem exists_foldlM_of_parse (h : source.parse = .ok root) :
    ∃ b, source.events.foldlM (Builder.accept source) {} = .ok b ∧
      root = b.root.getD source.emptyRoot := by
  unfold parse at h
  obtain ⟨found?, hfound, h⟩ := bind_eq_ok.1 h
  obtain ⟨b, hb, heq⟩ := bind_eq_ok.1 hfound
  obtain rfl := Except.ok.inj heq
  split at h
  · cases h
  · obtain rfl := Except.ok.inj h
    exact ⟨b, hb, rfl⟩

end SourceText

theorem exists_parse_of_map {registry : Registry} {text : String} {file : Option String}
    {f : Node → Nat} {n : Nat} (h : (parse registry text file).1.toOption.map f = some n) :
    ∃ root registry', parse registry text file = (.ok root, registry') ∧ f root = n := by
  obtain ⟨root, hroot, hf⟩ := Option.map_eq_some_iff.1 h
  exact ⟨root, (parse registry text file).2, Prod.ext (toOption_eq_some.1 hroot) rfl, hf⟩

end RuleTidy.Yaml
