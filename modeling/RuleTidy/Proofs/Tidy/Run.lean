import RuleTidy.Proofs.Tidy.Findings

/-! The edits of a run, each with the document as it finds it and as it leaves it. An edit takes one
alternative of a list away and keeps another one for it, and what stands elsewhere in the list moves
up at most. -/

namespace RuleTidy.Tidy

open Document Pattern Source Yaml

variable {asts : AstSource Id} {maxPasses : Nat}

namespace Pair

def dropped (pair : Pair) : Nat :=
  match pair.relation with
  | .returnPaired side _ => side.other.pick pair.first pair.second
  | _ => pair.second

def kept (pair : Pair) : Nat :=
  match pair.relation with
  | .returnPaired side _ => side.pick pair.first pair.second
  | _ => pair.first

theorem kept_ne_dropped {pair : Pair} (h : pair.first < pair.second) :
    pair.kept ≠ pair.dropped := by
  unfold kept dropped
  cases pair.relation with
  | same => exact Nat.ne_of_lt h
  | different => exact Nat.ne_of_lt h
  | returnPaired side rewritten =>
      cases side with
      | first => exact Nat.ne_of_lt h
      | second => exact Nat.ne_of_gt h

def revise (pair : Pair) (n : Nat) (alternative : Node) : Node :=
  match pair.relation with
  | .returnPaired _ rewritten =>
    if n = pair.kept then withPattern rewritten alternative else alternative
  | _ => alternative

theorem sameBelow_revise (pair : Pair) (n : Nat) (alternative : Node) :
    SameBelow alternative (pair.revise n alternative) := by
  unfold revise
  split
  · split
    · exact sameBelow_withPattern _ _
    · exact fun _ _ => rfl
  · exact fun _ _ => rfl

theorem trimmed_eq (items : List Node) {pair : Pair} (h : pair.relation ≠ .different) :
    trimmed items pair = (items.mapIdx pair.revise).eraseIdx pair.dropped := by
  have hmodify : ∀ (n : Nat) (f : Node → Node),
      items.modify n f = items.mapIdx fun i item => if i = n then f item else item := by
    intro n f
    apply List.ext_getElem?
    intro i
    rw [List.getElem?_modify, List.getElem?_mapIdx]
    by_cases hi : n = i
    · simp [hi]
    · simp [hi, Ne.symm hi]
  have hsame : items.mapIdx (fun _ item => item) = items := by
    apply List.ext_getElem?
    intro i
    rw [List.getElem?_mapIdx, Option.map_id']
  obtain ⟨first, second, relation⟩ := pair
  cases relation with
  | different => exact absurd rfl h
  | same => exact congrArg (fun items : List Node => items.eraseIdx second) hsame.symm
  | returnPaired side rewritten =>
      exact congrArg (fun items : List Node => items.eraseIdx (side.other.pick first second))
        (hmodify (side.pick first second) (withPattern rewritten))

theorem getElem?_trimmed {items : List Node} {item : Node} {pair : Pair} {n : Nat}
    (h : pair.relation ≠ .different) (hitem : items[n]? = some item) (hn : n ≠ pair.dropped) :
    (trimmed items pair)[if pair.dropped < n then n - 1 else n]? = some (pair.revise n item) := by
  have hrevised : (items.mapIdx pair.revise)[n]? = some (pair.revise n item) := by
    rw [List.getElem?_mapIdx, hitem, Option.map_some]
  rw [trimmed_eq items h, List.getElem?_eraseIdx]
  by_cases hlt : pair.dropped < n
  · have hback : n - 1 + 1 = n := by omega
    have hnot : ¬n - 1 < pair.dropped := by omega
    rw [if_pos hlt, if_neg hnot, hback, hrevised]
  · have hbefore : n < pair.dropped := by omega
    rw [if_neg hlt, if_pos hbefore, hrevised]

end Pair

/-- The edit of a pair of alternatives, with the states of the document around it. -/
structure Edit where
  target : Target
  pair : Pair
  before : Progress
  after : Progress

namespace Edit

structure Made (asts : AstSource Id) (e : Edit) : Prop where
  found : (firstRelated asts e.before.document.root e.target).run.run = .ok (some e.pair)
  merged : (mergePair asts e.target e.before e.pair).run.run = .ok e.after

/-- Where the node at a path is after an edit. An alternative behind the one that goes moves up, and
nothing is left of what stands in the one that goes. -/
def follow (e : Edit) (path : Path) : Option Path :=
  if e.target.path.isPrefixOf path then
    match path.drop e.target.path.length with
    | .index n :: tail =>
      if n = e.pair.dropped then none
      else some (e.target.path ++ .index (if e.pair.dropped < n then n - 1 else n) :: tail)
    | _ => some path
  else some path

theorem follow_of_apart {e : Edit} {path : Path} (h : ¬e.target.path <+: path) :
    e.follow path = some path := by
  have hfalse : ¬e.target.path.isPrefixOf path = true := by rwa [List.isPrefixOf_iff_prefix]
  rw [follow, if_neg hfalse]

theorem follow_self (e : Edit) : e.follow e.target.path = some e.target.path := by
  have htrue : e.target.path.isPrefixOf e.target.path = true :=
    List.isPrefixOf_iff_prefix.2 List.prefix_rfl
  rw [follow, if_pos htrue, List.drop_length]

theorem follow_alternative (e : Edit) (n : Nat) (tail : Path) :
    e.follow (e.target.path ++ .index n :: tail) =
      if n = e.pair.dropped then none
      else some (e.target.path ++ .index (if e.pair.dropped < n then n - 1 else n) :: tail) := by
  have htrue : e.target.path.isPrefixOf (e.target.path ++ .index n :: tail) = true :=
    List.isPrefixOf_iff_prefix.2 (List.prefix_append _ _)
  rw [follow, if_pos htrue, List.drop_left]

namespace Made

variable {e : Edit}

theorem related (h : e.Made asts) : e.pair.relation ≠ .different := by
  obtain ⟨_, _, _, _, _, _, -, hrelates⟩ := firstRelated_eq_some h.found
  exact hrelates.related

theorem at?_of_stays (h : e.Made asts) {n : Nat} {item : Node}
    (hitem : e.before.document.root.at? (e.target.path ++ [.index n]) = some item)
    (hn : n ≠ e.pair.dropped) :
    e.after.document.root.at?
      (e.target.path ++ [.index (if e.pair.dropped < n then n - 1 else n)]) =
        some (e.pair.revise n item) := by
  obtain ⟨info, items, hlist, hafter⟩ := root_mergePair h.merged
  have hseen := Node.at?_update? hafter
  rw [hlist, Option.map_some] at hseen
  exact at?_alternative hseen (Pair.getElem?_trimmed h.related (getElem?_of_at? hlist hitem) hn)

theorem at?_inside (h : e.Made asts) {n : Nat} {tail rest : Path} {found : Node}
    (htail : Rule.IsListPath tail)
    (hfound : e.before.document.root.at? (e.target.path ++ .index n :: (tail ++ rest)) = some found)
    (hn : n ≠ e.pair.dropped) :
    e.after.document.root.at?
      (e.target.path ++ .index (if e.pair.dropped < n then n - 1 else n) :: (tail ++ rest)) =
        some found := by
  have hsplit : ∀ m, e.target.path ++ .index m :: (tail ++ rest) =
      (e.target.path ++ [.index m]) ++ (tail ++ rest) := by simp
  rw [hsplit, Node.at?_append, Option.bind_eq_some_iff] at hfound
  obtain ⟨item, hitem, hfound⟩ := hfound
  rw [hsplit, Node.at?_append, h.at?_of_stays hitem hn, Option.bind_some, Node.at?_append,
    (Pair.sameBelow_revise _ _ _).at?_eq htail, ← Node.at?_append, hfound]

end Made

end Edit

/-- The edits of lists one after the other, each list until it has no related pair. -/
inductive Run (asts : AstSource Id) : List Target → Progress → List Edit → Progress → Prop
  | nil (p : Progress) : Run asts [] p [] p
  | settled {target : Target} {rest : List Target} {p after : Progress} {edits : List Edit}
      (unrelated : (firstRelated asts p.document.root target).run.run = .ok none)
      (next : Run asts rest p edits after) : Run asts (target :: rest) p edits after
  | edit {e : Edit} {rest : List Target} {edits : List Edit} {after : Progress}
      (made : e.Made asts) (next : Run asts (e.target :: rest) e.after edits after) :
      Run asts (e.target :: rest) e.before (e :: edits) after

namespace Run

variable {lists more : List Target} {p q after : Progress} {edits later : List Edit}

theorem append (h : Run asts lists p edits q) (hlater : Run asts more q later after) :
    Run asts (lists ++ more) p (edits ++ later) after := by
  induction h with
  | nil p => exact hlater
  | settled unrelated _ ih => exact .settled unrelated (ih hlater)
  | edit made _ ih => exact .edit made (ih hlater)

theorem made (h : Run asts lists p edits after) : ∀ e ∈ edits, e.Made asts := by
  induction h with
  | nil p => exact fun e he => nomatch he
  | settled _ _ ih => exact ih
  | edit made _ ih => exact List.forall_mem_cons.2 ⟨made, ih⟩

theorem target_mem (h : Run asts lists p edits after) : ∀ e ∈ edits, e.target ∈ lists := by
  induction h with
  | nil p => exact fun e he => nomatch he
  | settled _ _ ih => exact fun e he => List.mem_cons_of_mem _ (ih e he)
  | edit _ _ ih => exact List.forall_mem_cons.2 ⟨List.mem_cons_self, ih⟩

theorem removed (h : Run asts lists p edits after) :
    after.removed = p.removed + edits.length := by
  induction h with
  | nil p => rfl
  | settled _ _ ih => exact ih
  | edit made _ ih =>
      rw [ih, removed_mergePair made.merged, List.length_cons]
      omega

theorem eq_of_nil (h : Run asts lists p [] after) : p = after := by
  induction lists with
  | nil =>
      cases h
      rfl
  | cons target rest ih =>
      cases h with
      | settled _ next => exact ih next

end Run

theorem exists_run_fixList {target : Target} {passes : Nat} {p after : Progress}
    (h : (fixList asts maxPasses target passes p).run.run = .ok after) :
    ∃ edits, Run asts [target] p edits after := by
  induction passes generalizing p with
  | zero =>
      rcases fixList_eq_ok.1 h with ⟨hnone, rfl⟩ | ⟨_, _, _, _, heq, _⟩
      · exact ⟨[], .settled hnone (.nil p)⟩
      · cases heq
  | succ left ih =>
      rcases fixList_eq_ok.1 h with ⟨hnone, rfl⟩ | ⟨pair, _, next, hpair, heq, hmerge, h⟩
      · exact ⟨[], .settled hnone (.nil p)⟩
      · obtain rfl := Nat.succ.inj heq
        obtain ⟨edits, hrun⟩ := ih h
        have hmade : (Edit.mk target pair p next).Made asts := ⟨hpair, hmerge⟩
        exact ⟨_, .edit hmade hrun⟩

theorem exists_run_fixLists {lists : List Target} {p after : Progress}
    (h : (fixLists asts maxPasses lists p).run.run = .ok after) :
    ∃ edits, Run asts lists p edits after := by
  induction lists generalizing p with
  | nil =>
      obtain rfl := run_pure_eq_ok.1 h
      exact ⟨[], .nil p⟩
  | cons target rest ih =>
      obtain ⟨next, hnext, h⟩ := run_bind_eq_ok.1 h
      obtain ⟨edits, hrun⟩ := exists_run_fixList hnext
      obtain ⟨later, hlater⟩ := ih h
      exact ⟨edits ++ later, hrun.append hlater⟩

def Tidies (asts : AstSource Id) (d : Document) (edits : List Edit) (after : Document) : Prop :=
  ∃ p, Run asts (targets d.root) { document := d } edits p ∧ p.document = after

theorem exists_tidies {d after : Document} {outcome : Outcome}
    (h : (fixDocument asts maxPasses d).run.run = .ok (outcome, after)) :
    ∃ edits, Tidies asts d edits after ∧ outcome.removed = edits.length := by
  obtain ⟨p, hfix, heq⟩ := run_bind_eq_ok.1 h
  obtain ⟨rfl, rfl⟩ := Prod.mk.inj (run_pure_eq_ok.1 heq)
  obtain ⟨edits, hrun⟩ := exists_run_fixLists hfix
  have hremoved := hrun.removed
  rw [Nat.zero_add] at hremoved
  exact ⟨edits, ⟨p, hrun, rfl⟩, hremoved⟩

end RuleTidy.Tidy
