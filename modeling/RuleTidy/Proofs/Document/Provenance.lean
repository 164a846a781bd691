import RuleTidy.Proofs.Document.Conflict
import RuleTidy.Proofs.Source.Registry
import RuleTidy.Proofs.Yaml.Node.Labelled

/-! Where the nodes of a document come from. All of them are marked with places in its text, and an
edit makes no others: what it removes is gone, and what it writes keeps the mark of the scalar that
stood there. So no node of a document is ever taken for one from elsewhere. -/

namespace RuleTidy.Document

open InPlace Source Text Yaml

variable {d after : Document} {leaf inner : Info → Prop} {path : Path}

/-! Changes. -/

theorem labelled_perform {change : Change} (h : d.root.Labelled leaf inner)
    (hafter : d.perform change = .ok after) : after.root.Labelled leaf inner := by
  cases change with
  | removeItem path index =>
      obtain ⟨⟨removed, _⟩, hremove, rfl⟩ := map_eq_ok.1 hafter
      obtain ⟨info, items, hlist, -, hroot⟩ := root_removeItem hremove
      refine h.update? (fun old _ => ?_) hroot
      cases h.of_at? hlist with
      | sequence mark below =>
          exact .sequence mark fun item hitem => below item (List.mem_of_mem_eraseIdx hitem)
  | replaceScalar path value =>
      obtain ⟨info, old, hold, hroot⟩ := root_replaceScalar hafter
      refine h.update? (fun _ _ => ?_) hroot
      cases h.of_at? hold with
      | scalar mark => exact .scalar mark

theorem labelled_run (h : d.root.Labelled leaf inner) (changes : List Change) :
    (d.run changes).root.Labelled leaf inner :=
  run_induction h (fun _ _ _ => labelled_perform) changes

/-! Refusals. -/

theorem avoids_removalRange_of_labelled {index : Nat} (h : d.root.Labelled leaf inner)
    (hleaf : ∀ info, leaf info → info.span.source = some d.digest)
    (hinner : ∀ info, inner info → info.span.source = some d.digest) :
    Avoids EditError.IsForeign (d.removalRange path index) := by
  refine avoids_removalRange (fun _ => .inr) fun sequence items item hsequence hitems hitem => ?_
  refine avoids_checkOwned fun _ => ?_
  have hlabelled := (h.of_at? (nodeAt_eq_ok.1 hsequence)).of_items? hitems item
    (List.mem_of_getElem? hitem)
  cases hlabelled with
  | scalar mark => exact hleaf _ mark
  | sequence mark _ => exact hinner _ mark
  | mapping mark _ _ => exact hinner _ mark

theorem avoids_record (d : Document) (edit : TextEdit) :
    Avoids EditError.IsForeign (d.record path edit) := by
  unfold record
  split
  · exact .ok _
  · exact .error not_false

theorem avoids_removeItem {index : Nat} (h : d.root.Labelled leaf inner)
    (hleaf : ∀ info, leaf info → info.span.source = some d.digest)
    (hinner : ∀ info, inner info → info.span.source = some d.digest) :
    Avoids EditError.IsForeign (d.removeItem path index) := by
  refine (avoids_removalRange_of_labelled h hleaf hinner).bind fun range _ => ?_
  exact (avoids_record d _).bind fun recorded _ => avoids_takeItem not_false d recorded index

theorem avoids_replaceScalar {value : String} (h : d.root.Labelled leaf inner)
    (hleaf : ∀ info, leaf info →
      info.span.source = some d.digest ∧ ∃ style, info.layout = .scalar style) :
    Avoids EditError.IsForeign (d.replaceScalar path value) := by
  rw [replaceScalar_eq]
  have hmark : ∀ info value, d.nodeAt path = .ok (.scalar info value) → leaf info := by
    intro info value hnode
    cases h.of_at? (nodeAt_eq_ok.1 hnode) with
    | scalar mark => exact mark
  have hscalar : Avoids EditError.IsForeign (scalarAt d path) :=
    avoids_scalarAt (fun _ => .inr)
      (fun info value hnode => avoids_checkOwned fun _ => (hleaf info (hmark info value hnode)).1)
      fun _ info value hnode => (hleaf info (hmark info value hnode)).2
  refine hscalar.bind fun place _ => ?_
  refine (avoids_replacement (fun _ => .inr) d _ _ _).bind fun edit _ => ?_
  refine (avoids_record d edit).bind fun recorded _ => ?_
  split
  · exact .ok _
  · exact .error not_false

/-! Documents that are read and edited. -/

/-- A mark with the file and the text of an origin. -/
def IsFrom (origin : Origin) (info : Info) : Prop :=
  info.span.file = origin.file ∧ info.span.source = some origin.digest

def IsScalarFrom (origin : Origin) (info : Info) : Prop :=
  IsFrom origin info ∧ ∃ style, info.layout = .scalar style

def IsCollectionFrom (origin : Origin) (info : Info) : Prop :=
  IsFrom origin info ∧ (info.layout = .block ∨ info.layout = .flow)

/-- A mark by which a registry finds a text. -/
def Finds (registry : Registry) (text : String) (info : Info) : Prop :=
  info.span.source.bind registry.get? = some text

theorem labels_isFrom (source : SourceText) :
    source.Labels (IsScalarFrom source.origin) (IsCollectionFrom source.origin) where
  scalar _ _ style := ⟨⟨rfl, rfl⟩, style, rfl⟩
  collection start stop := by
    refine ⟨⟨rfl, rfl⟩, ?_⟩
    change source.collectionLayout start = .block ∨ source.collectionLayout start = .flow
    unfold SourceText.collectionLayout
    split
    · exact .inr rfl
    · exact .inl rfl

theorem source_of_parse {registry registry' : Registry} {text : String} {file : Option String}
    (h : Document.parse registry text file = (.ok d, registry')) :
    d.source = ⟨⟨file, Digest.of text⟩, text.toList⟩ ∧ d.source.parse = .ok d.root := by
  obtain ⟨hparse, -⟩ := Prod.mk.inj h
  obtain ⟨root, hroot, rfl⟩ := map_eq_ok.1 hparse
  exact ⟨rfl, hroot⟩

theorem get?_registerAll_parse {before : List String} {registry' : Registry} {text : String}
    {file : Option String}
    (h : Document.parse (Registry.empty.registerAll before) text file = (.ok d, registry'))
    (hdigests : ∀ other ∈ before, Digest.of other = Digest.of text → other = text)
    (later : List String) : (registry'.registerAll later).get? (Digest.of text) = some text := by
  obtain ⟨-, rfl⟩ := Prod.mk.inj h
  refine Registry.get?_registerAll_of_some
    (Registry.get?_register_self fun stored hstored => ?_) later
  rcases Registry.of_get?_registerAll hstored with hnone | ⟨hmem, hdigest⟩
  · cases hnone
  · exact hdigests stored hmem hdigest

/-- However a document is edited, all its nodes, keys included, name its file and its text, its
scalars have the layout of a scalar and its collections that of a block or of a flow. So no change is
refused because a node is foreign. The text of every node is found in the registry that the document
was parsed with, as long as only texts are registered there and no other of them has the same
digest. -/
theorem labelled_run_parse {registry registry' : Registry} {text : String} {file : Option String}
    (h : Document.parse registry text file = (.ok d, registry')) (changes : List Change) :
    (d.run changes).source.origin = ⟨file, Digest.of text⟩ ∧
      (d.run changes).root.Labelled (IsScalarFrom ⟨file, Digest.of text⟩)
        (IsCollectionFrom ⟨file, Digest.of text⟩) ∧
      (∀ change, Avoids EditError.IsForeign ((d.run changes).perform change)) ∧
      ∀ before, registry = Registry.empty.registerAll before →
        (∀ other ∈ before, Digest.of other = Digest.of text → other = text) →
          ∀ later, (d.run changes).root.Labelled (Finds (registry'.registerAll later) text)
            (Finds (registry'.registerAll later) text) := by
  obtain ⟨hsource, hroot⟩ := source_of_parse h
  have horigin : (d.run changes).source.origin = ⟨file, Digest.of text⟩ := by
    rw [source_run, hsource]
  have hlabelled := labelled_run (SourceText.labelled_parse (labels_isFrom d.source) hroot) changes
  rw [hsource] at hlabelled
  refine ⟨horigin, hlabelled, fun change => ?_, fun before hbefore hdigests later => ?_⟩
  · have hdigest : (d.run changes).digest = Digest.of text := by rw [Document.digest, horigin]
    rw [← hdigest] at hlabelled
    cases change with
    | removeItem path index =>
        have hremove : Avoids EditError.IsForeign ((d.run changes).removeItem path index) :=
          avoids_removeItem hlabelled (fun _ hinfo => hinfo.1.2) fun _ hinfo => hinfo.1.2
        exact hremove.bind fun _ _ => .ok _
    | replaceScalar path value =>
        exact avoids_replaceScalar hlabelled fun _ hinfo => ⟨hinfo.1.2, hinfo.2⟩
  · subst hbefore
    have hfound := get?_registerAll_parse h hdigests later
    have hfinds : ∀ info, IsFrom ⟨file, Digest.of text⟩ info →
        Finds (registry'.registerAll later) text info := by
      intro info hinfo
      rw [Finds, hinfo.2, Option.bind_some, hfound]
    exact hlabelled.imp (fun info hinfo => hfinds info hinfo.1) fun info hinfo => hfinds info hinfo.1

def repeatedList : String := "- x\n- k: &a [y]\n- l: *a\n- |\n  z\n"

/-- Two changes are granted and one is refused, and the repeated list still names the text. -/
theorem labelled_run_parse_repeatedList :
    let changes := [.replaceScalar [.index 3] "w\n", .removeItem [] 7, .removeItem [] 0]
    let origin : Origin := ⟨some "list.yaml", Digest.of repeatedList⟩
    ∃ d registry', Document.parse .empty repeatedList (some "list.yaml") = (.ok d, registry') ∧
      (d.run changes).render = "- k: &a [y]\n- l: *a\n- |\n  w\n" ∧
      (d.run changes).source.origin = origin ∧
      (d.run changes).root.Labelled (IsScalarFrom origin) (IsCollectionFrom origin) ∧
      Avoids EditError.IsForeign
        ((d.run changes).perform (.replaceScalar [.index 0, .key "k", .index 0] "v")) ∧
      (d.run changes).root.Labelled (Finds (registry'.registerAll ["a: b"]) repeatedList)
        (Finds (registry'.registerAll ["a: b"]) repeatedList) := by
  intro changes origin
  have hrun : ((Document.parse .empty repeatedList (some "list.yaml")).1.toOption.bind fun d =>
      some (d.run changes).render) = some "- k: &a [y]\n- l: *a\n- |\n  w\n" := by decide +kernel
  obtain ⟨d, registry', hparse, hrender⟩ := exists_parse_of_bind hrun
  obtain ⟨horigin, hlabelled, havoids, hfinds⟩ := labelled_run_parse hparse changes
  exact ⟨d, registry', hparse, Option.some.inj hrender, horigin, hlabelled, havoids _,
    hfinds [] rfl (by simp) ["a: b"]⟩

end RuleTidy.Document
