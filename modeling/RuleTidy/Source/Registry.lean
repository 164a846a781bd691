import RuleTidy.Source.Sha256

/-! The texts of a run, each found again by its digest. -/

namespace RuleTidy.Source

structure Registry where
  entries : List (Digest × String) := []

namespace Registry

def empty : Registry := {}

def get? (registry : Registry) (digest : Digest) : Option String :=
  registry.entries.lookup digest

/-- Stores a text under a digest, unless the digest has one already. -/
def insert (registry : Registry) (digest : Digest) (text : String) : Registry :=
  if (registry.get? digest).isSome then registry else ⟨registry.entries ++ [(digest, text)]⟩

def register (registry : Registry) (text : String) : Digest × Registry :=
  let digest := Digest.of text
  (digest, registry.insert digest text)

def size (registry : Registry) : Nat := registry.entries.length

def isEmpty (registry : Registry) : Bool := registry.entries.isEmpty

@[simp] theorem get?_empty (digest : Digest) : empty.get? digest = none := rfl

private theorem lookup_append_single (entries : List (Digest × String)) (key digest : Digest)
    (text : String) (h : entries.lookup digest = none) :
    (entries ++ [(digest, text)]).lookup key =
      if key = digest then some text else entries.lookup key := by
  induction entries with
  | nil =>
    by_cases hk : key = digest
    · simp [hk]
    · simp [hk, List.lookup_cons, beq_eq_false_iff_ne.2 hk]
  | cons entry rest ih =>
    obtain ⟨d, t⟩ := entry
    rw [List.lookup_cons] at h
    split at h
    · contradiction
    · rename_i hd
      simp only [List.cons_append, List.lookup_cons, ih h]
      by_cases hk : key = digest
      · subst hk; simp [hd]
      · simp [hk]

theorem get?_insert (registry : Registry) (key digest : Digest) (text : String) :
    (registry.insert digest text).get? key =
      if key = digest then some ((registry.get? digest).getD text) else registry.get? key := by
  unfold insert
  split
  · rename_i h
    obtain ⟨t, ht⟩ := Option.isSome_iff_exists.1 h
    by_cases hk : key = digest
    · subst hk; simp [ht]
    · simp [hk]
  · rename_i h
    have hn : registry.get? digest = none := by simpa using h
    simp only [get?] at hn ⊢
    rw [lookup_append_single _ _ _ _ hn]
    simp [hn]

end Registry

end RuleTidy.Source
