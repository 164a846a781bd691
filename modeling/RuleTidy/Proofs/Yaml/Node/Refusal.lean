import RuleTidy.Proofs.Yaml.Node.Reading

/-! Which event of a node stops its reading, and why. -/

namespace RuleTidy.Yaml

open Source

variable {source : SourceText} {form : Form} {b after : Builder} {event : Event}
variable {events before : List Event} {n : Nat}

def Completes (n : Nat) (events : List Event) : Prop :=
  ∃ before form after, events = before ++ (Form.events form ++ after) ∧ form.anchor? = some n

def StopsAt (source : SourceText) (before : List Event) (event : Event) (error : ParseError) :
    Prop :=
  ∃ b, before.foldlM (Builder.accept source) {} = .ok b ∧ b.accept source event = .error error

/-! What nodes are complete. -/

theorem Completes.append_left (earlier : List Event) (h : Completes n events) :
    Completes n (earlier ++ events) := by
  obtain ⟨before, form, after, rfl, hanchor⟩ := h
  exact ⟨earlier ++ before, form, after, (List.append_assoc ..).symm, hanchor⟩

theorem Completes.append_right (later : List Event) (h : Completes n events) :
    Completes n (events ++ later) := by
  obtain ⟨before, form, after, rfl, hanchor⟩ := h
  exact ⟨before, form, after ++ later, by simp only [List.append_assoc], hanchor⟩

theorem Completes.of_anchor? (h : form.anchor? = some n) : Completes n form.events :=
  ⟨[], form, [], by simp, h⟩

/-- The nodes that bear an anchor after others are those of before and those that are complete. -/
def Gains (events : List Event) (known after : List (Nat × Node)) : Prop :=
  ∀ n, (after.lookup n).isSome → (known.lookup n).isSome ∨ Completes n events

namespace Gains

variable {known next final : List (Nat × Node)} {events' : List Event} {node : Node}

theorem refl (events : List Event) (known : List (Nat × Node)) : Gains events known known :=
  fun _ h => .inl h

theorem trans (h : Gains events known next) (h' : Gains events' next final) :
    Gains (events ++ events') known final := by
  intro n hn
  rcases h' n hn with hnext | hcompletes
  · exact (h n hnext).imp id (Completes.append_right events')
  · exact .inr (hcompletes.append_left events)

theorem complete (h : Gains form.events known next) :
    Gains form.events known (named form.anchor? node next) := by
  intro n hn
  cases hform : form.anchor? with
  | none =>
      rw [hform] at hn
      exact h n hn
  | some m =>
      rw [hform, named, List.lookup_cons] at hn
      cases heq : n == m with
      | true =>
          obtain rfl := eq_of_beq heq
          exact .inr (.of_anchor? hform)
      | false =>
          rw [heq] at hn
          exact h n hn

end Gains

namespace Form

variable {level : Nat}

theorem gains_readItems {items : List Form} {known : List (Nat × Node)}
    {found : List Node × List (Nat × Node)}
    (h : ∀ item ∈ items, ∀ known found, item.read source level known = .ok found →
      Gains item.events known found.2)
    (hread : readItems source level known items = .ok found) :
    Gains (itemEvents items) known found.2 := by
  induction items generalizing known found with
  | nil =>
      obtain rfl := Except.ok.inj hread
      exact .refl [] known
  | cons item rest ih =>
      obtain ⟨hitem, hrest⟩ := List.forall_mem_cons.1 h
      obtain ⟨first, hfirst, hread⟩ := bind_eq_ok.1 hread
      obtain ⟨others, hothers, heq⟩ := bind_eq_ok.1 hread
      obtain rfl := Except.ok.inj heq
      have hgains : Gains (itemEvents rest) first.2 others.2 := ih hrest hothers
      exact (hitem known first hfirst).trans hgains

theorem gains_readEntries {entries : List (Form × Form)} {known : List (Nat × Node)}
    {found : List (Node × Node) × List (Nat × Node)}
    (h : ∀ entry ∈ entries,
      (∀ known found, entry.1.read source level known = .ok found →
        Gains entry.1.events known found.2) ∧
      ∀ known found, entry.2.read source level known = .ok found →
        Gains entry.2.events known found.2)
    (hread : readEntries source level known entries = .ok found) :
    Gains (entryEvents entries) known found.2 := by
  induction entries generalizing known found with
  | nil =>
      obtain rfl := Except.ok.inj hread
      exact .refl [] known
  | cons entry rest ih =>
      obtain ⟨⟨hkey, hvalue⟩, hrest⟩ := List.forall_mem_cons.1 h
      obtain ⟨key, hreadKey, hread⟩ := bind_eq_ok.1 hread
      obtain ⟨value, hreadValue, hread⟩ := bind_eq_ok.1 hread
      obtain ⟨others, hothers, heq⟩ := bind_eq_ok.1 hread
      obtain rfl := Except.ok.inj heq
      have hgains : Gains (entryEvents rest) value.2 others.2 := ih hrest hothers
      exact (hkey known key hreadKey).trans ((hvalue key.2 value hreadValue).trans hgains)

theorem gains_read {known : List (Nat × Node)} {found : Node × List (Nat × Node)}
    (h : form.read source level known = .ok found) : Gains form.events known found.2 := by
  induction form using Form.induction generalizing level known found with
  | scalar extent style text anchor tag =>
      rw [read] at h
      obtain rfl := Except.ok.inj h
      exact (Gains.refl (events (.scalar extent style text anchor tag)) known).complete
  | «alias» extent n =>
      rw [read] at h
      split at h
      · obtain rfl := Except.ok.inj h
        exact .refl _ known
      · cases h
  | sequence first last anchor items ih =>
      rw [read] at h
      split at h
      · obtain ⟨children, hchildren, heq⟩ := bind_eq_ok.1 h
        obtain rfl := Except.ok.inj heq
        have hitems := gains_readItems (fun item hitem _ _ => ih item hitem) hchildren
        have hinside : Gains (events (.sequence first last anchor items)) known children.2 :=
          (Gains.refl [⟨.sequenceStart anchor, first.start, first.stop⟩] known).trans
            (hitems.trans (.refl [⟨.sequenceEnd, last.start, last.stop⟩] children.2))
        exact hinside.complete
      · cases h
  | mapping first last anchor entries ih =>
      rw [read] at h
      split at h
      · obtain ⟨children, hchildren, heq⟩ := bind_eq_ok.1 h
        obtain rfl := Except.ok.inj heq
        have hentries := gains_readEntries (fun entry hentry =>
          ⟨fun _ _ => (ih entry hentry).1, fun _ _ => (ih entry hentry).2⟩) hchildren
        have hinside : Gains (events (.mapping first last anchor entries)) known children.2 :=
          (Gains.refl [⟨.mappingStart anchor, first.start, first.stop⟩] known).trans
            (hentries.trans (.refl [⟨.mappingEnd, last.start, last.stop⟩] children.2))
        exact hinside.complete
      · cases h

end Form

/-! The builder behind some of the events of a node. -/

/-- What the builder has become by events that open no fewer collections than they close. -/
structure Follows (events : List Event) (b after : Builder) : Prop where
  closed : events.countP Event.closes ≤ events.countP Event.opens
  frames : after.frames.length + events.countP Event.closes =
    b.frames.length + events.countP Event.opens
  anchors : Gains events b.anchors after.anchors

namespace Follows

variable {next : Builder} {events' : List Event}

theorem nil (b : Builder) : Follows [] b b := ⟨Nat.le_refl _, rfl, .refl [] b.anchors⟩

theorem trans (h : Follows events b next) (h' : Follows events' next after) :
    Follows (events ++ events') b after where
  closed := by
    rw [List.countP_append, List.countP_append]
    exact Nat.add_le_add h.closed h'.closed
  frames := by
    have hframes := h.frames
    have hframes' := h'.frames
    rw [List.countP_append, List.countP_append]
    omega
  anchors := h.anchors.trans h'.anchors

theorem opening (h : event.opens) (hstep : b.accept source event = .ok after) :
    Follows [event] b after := by
  cases Builder.Step.of_accept hstep with
  | openSequence kind room =>
      exact ⟨by simp [Event.closes, kind], by simp [Event.closes, Event.opens, kind], .refl _ _⟩
  | openMapping kind room =>
      exact ⟨by simp [Event.closes, kind], by simp [Event.closes, Event.opens, kind], .refl _ _⟩
  | scalar kind => simp [Event.opens, kind] at h
  | «alias» kind known => simp [Event.opens, kind] at h
  | close kind frames => rcases kind with kind | kind <;> simp [Event.opens, kind] at h
  | ignore kind frames => rcases kind with kind | kind <;> simp [Event.opens, kind] at h

end Follows

namespace Form

theorem countP_itemEvents {items : List Form}
    (h : ∀ item ∈ items, item.events.countP Event.opens = item.events.countP Event.closes) :
    (itemEvents items).countP Event.opens = (itemEvents items).countP Event.closes := by
  induction items with
  | nil => rfl
  | cons item rest ih =>
      obtain ⟨hitem, hrest⟩ := List.forall_mem_cons.1 h
      rw [itemEvents, List.countP_append, List.countP_append, hitem, ih hrest]

theorem countP_entryEvents {entries : List (Form × Form)}
    (h : ∀ entry ∈ entries,
      entry.1.events.countP Event.opens = entry.1.events.countP Event.closes ∧
        entry.2.events.countP Event.opens = entry.2.events.countP Event.closes) :
    (entryEvents entries).countP Event.opens = (entryEvents entries).countP Event.closes := by
  induction entries with
  | nil => rfl
  | cons entry rest ih =>
      obtain ⟨⟨hkey, hvalue⟩, hrest⟩ := List.forall_mem_cons.1 h
      simp only [entryEvents, List.countP_append, hkey, hvalue, ih hrest]

theorem countP_events (form : Form) :
    form.events.countP Event.opens = form.events.countP Event.closes := by
  induction form using Form.induction with
  | scalar extent style text anchor tag => rfl
  | «alias» extent n => rfl
  | sequence first last anchor items ih =>
      simp [events, List.countP_cons, Event.opens, Event.closes, countP_itemEvents ih]
  | mapping first last anchor entries ih =>
      simp [events, List.countP_cons, Event.opens, Event.closes, countP_entryEvents ih]

end Form

theorem follows_events (h : form.events.foldlM (Builder.accept source) b = .ok after) :
    Follows form.events b after := by
  rw [Builder.foldlM_events source form b] at h
  obtain ⟨found, hread, rfl⟩ := map_eq_ok.1 h
  refine ⟨Nat.le_of_eq form.countP_events.symm, ?_, ?_⟩
  · rw [Builder.length_frames_give, form.countP_events]
  · rw [Builder.anchors_give]
    exact Form.gains_read hread

/-- Wherever events are cut off, the builder has followed them up to there. -/
def Tracked (source : SourceText) (events : List Event) : Prop :=
  ∀ before, before <+: events → ∀ b after,
    before.foldlM (Builder.accept source) b = .ok after → Follows before b after

namespace Tracked

theorem nil : Tracked source [] := by
  intro before hbefore b after h
  obtain rfl := List.prefix_nil.1 hbefore
  obtain rfl := Except.ok.inj h
  exact .nil b

theorem append_form (h : Tracked source form.events) (hevents : Tracked source events) :
    Tracked source (form.events ++ events) := by
  intro before hbefore b after hafter
  rcases List.prefix_or_prefix_of_prefix hbefore (List.prefix_append _ _) with hinside | ⟨rest, rfl⟩
  · exact h before hinside b after hafter
  · rw [List.foldlM_append] at hafter
    obtain ⟨next, hnext, hafter⟩ := bind_eq_ok.1 hafter
    exact (follows_events hnext).trans
      (hevents rest ((List.prefix_append_right_inj _).1 hbefore) next after hafter)

theorem collection {first last : Event} {inner : List Event} (hopens : first.opens)
    (hform : form.events = first :: (inner ++ [last])) (hinner : Tracked source inner) :
    Tracked source form.events := by
  intro before hbefore b after hafter
  rw [hform] at hbefore
  rcases List.prefix_cons_iff.1 hbefore with rfl | ⟨rest, rfl, hrest⟩
  · obtain rfl := Except.ok.inj hafter
    exact .nil b
  · rcases List.prefix_concat_iff.1 hrest with rfl | hrest
    · rw [← hform] at hafter ⊢
      exact follows_events hafter
    · obtain ⟨next, hnext, hafter⟩ := bind_eq_ok.1 hafter
      exact (Follows.opening hopens hnext).trans (hinner rest hrest next after hafter)

theorem leaf (hform : form.events = [event]) : Tracked source form.events := by
  intro before hbefore b after hafter
  rw [hform] at hbefore
  rcases List.prefix_cons_iff.1 hbefore with rfl | ⟨rest, rfl, hrest⟩
  · obtain rfl := Except.ok.inj hafter
    exact .nil b
  · obtain rfl := List.prefix_nil.1 hrest
    rw [← hform] at hafter ⊢
    exact follows_events hafter

theorem itemEvents {items : List Form} (h : ∀ item ∈ items, Tracked source item.events) :
    Tracked source (Form.itemEvents items) := by
  induction items with
  | nil => exact nil
  | cons item rest ih =>
      obtain ⟨hitem, hrest⟩ := List.forall_mem_cons.1 h
      exact hitem.append_form (ih hrest)

theorem entryEvents {entries : List (Form × Form)}
    (h : ∀ entry ∈ entries, Tracked source entry.1.events ∧ Tracked source entry.2.events) :
    Tracked source (Form.entryEvents entries) := by
  induction entries with
  | nil => exact nil
  | cons entry rest ih =>
      obtain ⟨⟨hkey, hvalue⟩, hrest⟩ := List.forall_mem_cons.1 h
      exact hkey.append_form (hvalue.append_form (ih hrest))

end Tracked

end RuleTidy.Yaml
