import RuleTidy.Source.Registry

/-! Registries that are filled with texts. A text is found under its digest from then on, as long as
no other text has the same digest. -/

namespace RuleTidy.Source.Registry

variable {registry : Registry} {text stored : String} {digest : Digest}

theorem get?_register (registry : Registry) (key : Digest) (text : String) :
    (registry.register text).2.get? key =
      if key = Digest.of text then some ((registry.get? (Digest.of text)).getD text)
      else registry.get? key :=
  get?_insert registry key (Digest.of text) text

theorem get?_register_of_some (h : registry.get? digest = some stored) (text : String) :
    (registry.register text).2.get? digest = some stored := by
  rw [get?_register]
  split
  · next heq => rw [← heq, h, Option.getD_some]
  · exact h

theorem get?_register_self
    (h : ∀ stored, registry.get? (Digest.of text) = some stored → stored = text) :
    (registry.register text).2.get? (Digest.of text) = some text := by
  rw [get?_register, if_pos rfl]
  refine congrArg some ?_
  cases hstored : registry.get? (Digest.of text) with
  | none => rfl
  | some stored => exact h stored hstored

def registerAll (registry : Registry) (texts : List String) : Registry :=
  texts.foldl (fun registry text => (registry.register text).2) registry

theorem get?_registerAll_of_some (h : registry.get? digest = some stored) (texts : List String) :
    (registry.registerAll texts).get? digest = some stored := by
  induction texts generalizing registry with
  | nil => exact h
  | cons text rest ih => exact ih (get?_register_of_some h text)

theorem of_get?_registerAll {texts : List String}
    (h : (registry.registerAll texts).get? digest = some stored) :
    registry.get? digest = some stored ∨ stored ∈ texts ∧ Digest.of stored = digest := by
  induction texts generalizing registry with
  | nil => exact .inl h
  | cons text rest ih =>
      rcases ih h with hbefore | ⟨hmem, hdigest⟩
      · rw [get?_register] at hbefore
        split at hbefore
        · next heq =>
            subst heq
            cases hold : registry.get? (Digest.of text) with
            | none =>
                rw [hold, Option.getD_none] at hbefore
                obtain rfl := Option.some.inj hbefore
                exact .inr ⟨List.mem_cons_self, rfl⟩
            | some old =>
                rw [hold, Option.getD_some] at hbefore
                exact .inl hbefore
        · exact .inl hbefore
      · exact .inr ⟨List.mem_cons_of_mem _ hmem, hdigest⟩

end RuleTidy.Source.Registry
