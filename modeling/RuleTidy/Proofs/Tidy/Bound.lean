import RuleTidy.Proofs.Tidy.Fix
import RuleTidy.Proofs.Tidy.Reach

/-! How many edits a list can take. Each edit makes it shorter by one and needs a pair in it, so that
a list of `n` alternatives is done after `n - 1` edits at most. A bound on the edits is felt only if
it is lower than that. -/

namespace RuleTidy.Tidy

open Document Pattern Source Yaml

variable {asts : AstSource Id} {target : Target} {maxPasses n : Nat} {p q next : Progress}
  {info : Info} {items : List Node}

/-! One edit. -/

theorem length_removeItem {d after : Document} {path : Path} {index : Nat} {removed : Node}
    (h : d.removeItem path index = .ok (removed, after))
    (hlist : d.root.at? path = some (.sequence info items)) :
    ∃ items', after.root.at? path = some (.sequence info items') ∧
      items'.length + 1 = items.length := by
  obtain ⟨info', items', hfound, hitem, hroot⟩ := root_removeItem h
  rw [hlist] at hfound
  obtain ⟨rfl, rfl⟩ := Node.sequence.inj (Option.some.inj hfound)
  have hlt : index < items.length := (List.getElem?_eq_some_iff.1 hitem).1
  have hlength := List.length_eraseIdx_of_lt hlt
  refine ⟨items.eraseIdx index, ?_, by omega⟩
  rw [Node.at?_update? hroot, hlist]
  rfl

theorem length_replaceScalar {d after : Document} {path : Path} {index : Nat} {text : String}
    (h : d.replaceScalar (patternPath path index) text = .ok after)
    (hlist : d.root.at? path = some (.sequence info items)) :
    ∃ items', after.root.at? path = some (.sequence info items') ∧
      items'.length = items.length := by
  obtain ⟨scalarInfo, old, hold, hroot⟩ := root_replaceScalar h
  obtain ⟨info', items', hfound, hafter⟩ := update?_patternPath hold hroot
  rw [hlist] at hfound
  obtain ⟨rfl, rfl⟩ := Node.sequence.inj (Option.some.inj hfound)
  refine ⟨items.modify index (withPattern text), ?_, List.length_modify ..⟩
  rw [Node.at?_update? hafter, hlist]
  rfl

theorem length_mergePair {pair : Pair} (h : (mergePair asts target p pair).run.run = .ok next)
    (hlist : p.document.root.at? target.path = some (.sequence info items)) :
    ∃ items', next.document.root.at? target.path = some (.sequence info items') ∧
      items'.length + 1 = items.length := by
  unfold mergePair at h
  cases hrelation : pair.relation with
  | different =>
      rw [hrelation] at h
      cases h
  | same =>
      rw [hrelation] at h
      obtain ⟨_, _, removed, document, -, -, -, hremove, rfl⟩ := dropDuplicate_eq_ok.1 h
      exact length_removeItem hremove hlist
  | returnPaired side rewritten =>
      rw [hrelation] at h
      obtain ⟨_, -, h⟩ := run_bind_eq_ok.1 h
      obtain ⟨between, removed, document, hreplace, hremove, rfl⟩ := mergeReturn_eq_ok.1 h
      obtain ⟨written, hwritten, hlength⟩ := length_replaceScalar hreplace hlist
      rw [← hlength]
      exact length_removeItem hremove hwritten

theorem two_le_length_of_firstRelated {root : Node} {pair : Pair}
    (h : (firstRelated asts root target).run.run = .ok (some pair))
    (hlist : root.at? target.path = some (.sequence info items)) : 2 ≤ items.length := by
  obtain ⟨info', items', _, _, _, _, hfound, hrelates⟩ := firstRelated_eq_some h
  rw [hlist] at hfound
  obtain ⟨rfl, rfl⟩ := Node.sequence.inj (Option.some.inj hfound)
  have hsecond : pair.second < items.length := (List.getElem?_eq_some_iff.1 hrelates.secondAt).1
  have hlt := hrelates.lt
  omega

/-! Any number of edits. -/

theorem Edits.length_eq (h : Edits asts target n p q)
    (hlist : p.document.root.at? target.path = some (.sequence info items)) :
    ∃ items', q.document.root.at? target.path = some (.sequence info items') ∧
      items'.length + n = items.length := by
  induction h generalizing items with
  | refl p => exact ⟨items, hlist, rfl⟩
  | head found merged _ ih =>
      obtain ⟨between, hbetween, hone⟩ := length_mergePair merged hlist
      obtain ⟨items', hat, hlength⟩ := ih hbetween
      exact ⟨items', hat, by omega⟩

theorem Edits.le_length_sub_one (h : Edits asts target n p q)
    (hlist : p.document.root.at? target.path = some (.sequence info items)) :
    n ≤ items.length - 1 := by
  induction h generalizing items with
  | refl p => exact Nat.zero_le _
  | head found merged _ ih =>
      have htwo := two_le_length_of_firstRelated found hlist
      obtain ⟨between, hbetween, hone⟩ := length_mergePair merged hlist
      have hrest := ih hbetween
      omega

def lengthAt (target : Target) (p : Progress) : Nat :=
  (((p.document.root.at? target.path).bind (·.items?)).getD []).length

theorem lengthAt_eq (hlist : p.document.root.at? target.path = some (.sequence info items)) :
    lengthAt target p = items.length := by
  rw [lengthAt, hlist]
  rfl

theorem wellFounded_edits (asts : AstSource Id) (target : Target) :
    WellFounded fun next p => Edits asts target 1 p next := by
  refine Subrelation.wf (r := (measure (lengthAt target)).rel) ?_ (measure (lengthAt target)).wf
  intro next p h
  cases h with
  | head found merged rest =>
      obtain ⟨info, items, _, _, _, _, hlist, -⟩ := firstRelated_eq_some found
      obtain ⟨items', hat, hlength⟩ := (Edits.head found merged rest).length_eq hlist
      change lengthAt target next < lengthAt target p
      rw [lengthAt_eq hlist, lengthAt_eq hat]
      omega

/-! The run. -/

section Passes

variable {passes : Nat} {pair : Pair}

theorem fixList_of_unrelated
    (h : (firstRelated asts p.document.root target).run.run = .ok none) :
    (fixList asts maxPasses target passes p).run.run = .ok p :=
  fixList_eq_ok.2 (.inl ⟨h, rfl⟩)

theorem fixList_of_unknown {l : LookupError}
    (h : (firstRelated asts p.document.root target).run.run = .error l) :
    (fixList asts maxPasses target passes p).run.run = .error (.lookup l) := by
  rw [fixList]
  exact run_bind_of_error (run_lookup_eq_error.2 ⟨l, h, rfl⟩)

theorem fixList_zero
    (h : (firstRelated asts p.document.root target).run.run = .ok (some pair)) :
    (fixList asts maxPasses target 0 p).run.run =
      .error (.inconsistent (.stillRelated target.path maxPasses)
        ((p.document.root.at? target.path).map (·.span))) := by
  rw [fixList]
  exact run_bind_of_ok (run_lookup_eq_ok.2 h)

theorem fixList_succ
    (h : (firstRelated asts p.document.root target).run.run = .ok (some pair)) :
    (fixList asts maxPasses target (passes + 1) p).run.run =
      (mergePair asts target p pair >>= fixList asts maxPasses target passes).run.run := by
  rw [fixList]
  exact run_bind_of_ok (run_lookup_eq_ok.2 h)

end Passes

/-- How the edits of a list end when `n` of them have been made, in state `p`. Either nothing is left
to do, or a pattern has no tree, or the next edit fails, or it is not allowed any more. -/
inductive Ends (asts : AstSource Id) (target : Target) (maxPasses n : Nat) (p : Progress) :
    Except Error Progress → Prop
  | settled (unrelated : (firstRelated asts p.document.root target).run.run = .ok none) :
      Ends asts target maxPasses n p (.ok p)
  | unknown {l : LookupError}
      (failed : (firstRelated asts p.document.root target).run.run = .error l) :
      Ends asts target maxPasses n p (.error (.lookup l))
  | refused {pair : Pair} {e : Error}
      (found : (firstRelated asts p.document.root target).run.run = .ok (some pair))
      (allowed : n < maxPasses) (failed : (mergePair asts target p pair).run.run = .error e) :
      Ends asts target maxPasses n p (.error e)
  | stillRelated {pair : Pair}
      (found : (firstRelated asts p.document.root target).run.run = .ok (some pair))
      (exhausted : n = maxPasses) :
      Ends asts target maxPasses n p (.error (.inconsistent (.stillRelated target.path maxPasses)
        ((p.document.root.at? target.path).map (·.span))))

theorem exists_ends_fixList {passes done : Nat} (h : done + passes = maxPasses) (p : Progress) :
    ∃ n q, Edits asts target n p q ∧
      Ends asts target maxPasses (done + n) q
        (fixList asts maxPasses target passes p).run.run := by
  induction passes generalizing done p with
  | zero =>
      refine ⟨0, p, .refl p, ?_⟩
      cases hfound : (firstRelated asts p.document.root target).run.run with
      | error l => exact fixList_of_unknown hfound ▸ .unknown hfound
      | ok found =>
          cases found with
          | none => exact fixList_of_unrelated hfound ▸ .settled hfound
          | some pair => exact fixList_zero hfound ▸ .stillRelated hfound h
  | succ left ih =>
      cases hfound : (firstRelated asts p.document.root target).run.run with
      | error l => exact ⟨0, p, .refl p, fixList_of_unknown hfound ▸ .unknown hfound⟩
      | ok found =>
          cases found with
          | none => exact ⟨0, p, .refl p, fixList_of_unrelated hfound ▸ .settled hfound⟩
          | some pair =>
              rw [fixList_succ hfound]
              cases hmerge : (mergePair asts target p pair).run.run with
              | error e =>
                  rw [run_bind_of_error hmerge]
                  exact ⟨0, p, .refl p, .refused hfound (by omega) hmerge⟩
              | ok next =>
                  have hleft : done + 1 + left = maxPasses := by omega
                  obtain ⟨n, q, hedits, hends⟩ := ih hleft next
                  rw [run_bind_of_ok hmerge]
                  rw [Nat.add_assoc, Nat.add_comm 1 n] at hends
                  exact ⟨n + 1, q, .head hfound hmerge hedits, hends⟩

theorem fixList_eq_of_length_le {other passes passes' : Nat}
    (hlist : p.document.root.at? target.path = some (.sequence info items))
    (h : items.length - 1 ≤ passes) (h' : items.length - 1 ≤ passes') :
    (fixList asts maxPasses target passes p).run.run =
      (fixList asts other target passes' p).run.run := by
  induction passes generalizing passes' p items with
  | zero =>
      cases hfound : (firstRelated asts p.document.root target).run.run with
      | error l => rw [fixList_of_unknown hfound, fixList_of_unknown hfound]
      | ok found =>
          cases found with
          | none => rw [fixList_of_unrelated hfound, fixList_of_unrelated hfound]
          | some pair =>
              have htwo := two_le_length_of_firstRelated hfound hlist
              omega
  | succ left ih =>
      cases hfound : (firstRelated asts p.document.root target).run.run with
      | error l => rw [fixList_of_unknown hfound, fixList_of_unknown hfound]
      | ok found =>
          cases found with
          | none => rw [fixList_of_unrelated hfound, fixList_of_unrelated hfound]
          | some pair =>
              have htwo := two_le_length_of_firstRelated hfound hlist
              obtain ⟨left', rfl⟩ : ∃ left', passes' = left' + 1 := ⟨passes' - 1, by omega⟩
              rw [fixList_succ hfound, fixList_succ hfound]
              cases hmerge : (mergePair asts target p pair).run.run with
              | error e => rw [run_bind_of_error hmerge, run_bind_of_error hmerge]
              | ok next =>
                  obtain ⟨items', hat, hlength⟩ := length_mergePair hmerge hlist
                  rw [run_bind_of_ok hmerge, run_bind_of_ok hmerge]
                  exact ih hat (by omega) (by omega)

theorem fixList_of_edits_add {passes : Nat} (h : Edits asts target n p q) :
    (fixList asts maxPasses target (n + passes) p).run.run =
      (fixList asts maxPasses target passes q).run.run := by
  induction h with
  | refl p => rw [Nat.zero_add]
  | head found merged _ ih =>
      rw [Nat.add_right_comm, fixList_succ found, run_bind_of_ok merged, ih]

theorem fixList_eq_stillRelated {list : Path} {passes : Nat} {span : Option Span} :
    (fixList asts maxPasses target maxPasses p).run.run =
        .error (.inconsistent (.stillRelated list passes) span) ↔
      ∃ q pair, Edits asts target maxPasses p q ∧
        (firstRelated asts q.document.root target).run.run = .ok (some pair) ∧
        target.path = list ∧ maxPasses = passes ∧
        (q.document.root.at? target.path).map (·.span) = span := by
  constructor
  · intro h
    obtain ⟨n, q, hedits, hends⟩ := exists_ends_fixList (Nat.zero_add maxPasses) p
    rw [h, Nat.zero_add] at hends
    cases hends with
    | refused found _ failed =>
        rcases mergePair_eq_error found failed with ⟨refusal, heq⟩ | ⟨kept, dropped, -, heq⟩
        · cases heq
        · cases heq
    | stillRelated found exhausted =>
        exact ⟨q, _, exhausted ▸ hedits, found, rfl, rfl, rfl⟩
  · rintro ⟨q, pair, hedits, hpair, rfl, rfl, rfl⟩
    have hrun : (fixList asts maxPasses target (maxPasses + 0) p).run.run =
        (fixList asts maxPasses target 0 q).run.run := fixList_of_edits_add hedits
    rw [Nat.add_zero] at hrun
    rw [hrun, fixList_zero hpair]

/-- Every edit of a list takes one alternative away, and with one less than there are alternatives it
is done. So edits of a list end whether or not their number is bounded, and a bound that is not lower
than that is never the reason. -/
theorem fixList_within_length
    (hlist : p.document.root.at? target.path = some (.sequence info items)) :
    (∀ q next pair info items,
      q.document.root.at? target.path = some (.sequence info items) →
        (mergePair asts target q pair).run.run = .ok next →
          ∃ items', next.document.root.at? target.path = some (.sequence info items') ∧
            items'.length + 1 = items.length) ∧
    (∀ n q, Edits asts target n p q → n ≤ items.length - 1 ∧
      ∃ items', q.document.root.at? target.path = some (.sequence info items') ∧
        items'.length + n = items.length) ∧
    (WellFounded fun next q => Edits asts target 1 q next) ∧
    (∀ maxPasses, ∃ n q, Edits asts target n p q ∧
      Ends asts target maxPasses n q (fixList asts maxPasses target maxPasses p).run.run) ∧
    ∀ maxPasses, items.length - 1 ≤ maxPasses →
      (fixList asts maxPasses target maxPasses p).run.run =
          (fixList asts (items.length - 1) target (items.length - 1) p).run.run ∧
        ∀ list passes span, (fixList asts maxPasses target maxPasses p).run.run ≠
          .error (.inconsistent (.stillRelated list passes) span) := by
  refine ⟨fun q next pair info items hat hmerge => length_mergePair hmerge hat,
    fun n q hedits => ⟨hedits.le_length_sub_one hlist, hedits.length_eq hlist⟩,
    wellFounded_edits asts target, fun maxPasses => ?_, fun maxPasses hbound =>
      ⟨fixList_eq_of_length_le hlist hbound (Nat.le_refl _), fun list passes span hstill => ?_⟩⟩
  · simpa only [Nat.zero_add] using exists_ends_fixList (Nat.zero_add maxPasses) p
  · obtain ⟨q, pair, hedits, hpair, -⟩ := fixList_eq_stillRelated.1 hstill
    obtain ⟨items', hat, hlength⟩ := hedits.length_eq hlist
    have htwo := two_le_length_of_firstRelated hpair hat
    omega

def returnedNames : String :=
  "rules:\n- languages: [python]\n  pattern-either:\n  - pattern: return x\n  - pattern: x\n" ++
    "  - pattern: x\n"

/-- Two edits are enough for three alternatives, and one edit is not. -/
theorem fixList_within_length_returnedNames :
    ∃ d registry' info items after e,
      Document.parse .empty returnedNames none = (.ok d, registry') ∧
      let target : Target := ⟨"python", [.key "rules", .index 0, .key "pattern-either"]⟩
      d.root.at? target.path = some (.sequence info items) ∧ items.length = 3 ∧
      (fixList nameAsts 2 target 2 { document := d }).run.run = .ok after ∧ after.removed = 2 ∧
      (∀ maxPasses, 2 ≤ maxPasses →
        (fixList nameAsts maxPasses target maxPasses { document := d }).run.run = .ok after) ∧
      (fixList nameAsts 1 target 1 { document := d }).run.run = .error e ∧
      e.message = "internal consistency check failed: `rules[0].pattern-either` still has " ++
        "related alternatives after 1 passes" := by
  let target : Target := ⟨"python", [.key "rules", .index 0, .key "pattern-either"]⟩
  have hrun : ((Document.parse .empty returnedNames none).1.toOption.bind fun d =>
      (d.root.at? target.path).bind fun node => node.items?.map fun items =>
        (items.length,
          (fixList nameAsts 2 target 2 { document := d }).run.run.toOption.map (·.removed),
          match (fixList nameAsts 1 target 1 { document := d }).run.run with
          | .error e => some e.message
          | .ok _ => none)) =
      some (3, some 2, some ("internal consistency check failed: `rules[0].pattern-either` still " ++
        "has related alternatives after 1 passes")) := by decide +kernel
  obtain ⟨d, registry', hparse, hrun⟩ := exists_parse_of_bind hrun
  obtain ⟨node, hnode, hrun⟩ := Option.bind_eq_some_iff.1 hrun
  obtain ⟨items, hitems, heq⟩ := Option.map_eq_some_iff.1 hrun
  simp only [Prod.mk.injEq] at heq
  obtain ⟨hthree, htwo, hone⟩ := heq
  obtain ⟨after, hafter, hremoved⟩ := Option.map_eq_some_iff.1 htwo
  cases node with
  | scalar info value => cases hitems
  | mapping info entries => cases hitems
  | sequence info items' =>
      obtain rfl := Option.some.inj hitems
      have hok := toOption_eq_some.1 hafter
      split at hone
      · next e he =>
          refine ⟨d, registry', info, items', after, e, hparse, hnode, hthree, hok, hremoved,
            fun maxPasses hbound => ?_, he, Option.some.inj hone⟩
          obtain ⟨-, -, -, -, henough⟩ :=
            @fixList_within_length nameAsts target { document := d } info items' hnode
          rw [hthree] at henough
          rw [(henough maxPasses hbound).1, hok]
      · cases hone

end RuleTidy.Tidy
