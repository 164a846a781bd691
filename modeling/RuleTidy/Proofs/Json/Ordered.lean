import Mathlib.Data.String.Basic
import RuleTidy.Json.Value

/-! JSON values whose objects have distinct names in their order. Entries that are put into an empty
object one after the other stay as they are if their names are so ordered. -/

namespace RuleTidy.Json

/-- The entries of every object, at any depth, stand in the order of their names, which are
distinct. -/
inductive Ordered : Json → Prop
  | null : Ordered .null
  | bool {value : Bool} : Ordered (.bool value)
  | number {value : Number} : Ordered (.number value)
  | string {text : String} : Ordered (.string text)
  | array {items : List Json} (below : ∀ item ∈ items, Ordered item) : Ordered (.array items)
  | object {entries : List (String × Json)} (names : entries.Pairwise fun a b => a.1 < b.1)
      (below : ∀ entry ∈ entries, Ordered entry.2) : Ordered (.object entries)

theorem insertEntry_of_forall_lt {name : String} {value : Json} {entries : List (String × Json)}
    (h : ∀ entry ∈ entries, entry.1 < name) :
    insertEntry name value entries = entries ++ [(name, value)] := by
  induction entries with
  | nil => rfl
  | cons entry rest ih =>
      obtain ⟨hentry, hrest⟩ := List.forall_mem_cons.1 h
      unfold insertEntry
      rw [if_neg hentry.ne', if_neg hentry.not_gt, ih hrest, List.cons_append]

theorem lookup_cons (key name : String) (value : Json) (rest : List (String × Json)) :
    ((name, value) :: rest).lookup key = if key = name then some value else rest.lookup key := by
  rw [List.lookup_cons]
  by_cases hkey : key = name
  · simp [hkey]
  · simp [hkey, beq_eq_false_iff_ne.2 hkey]

theorem lookup_insertEntry (name : String) (value : Json) (entries : List (String × Json))
    (key : String) :
    (insertEntry name value entries).lookup key =
      if key = name then some value else entries.lookup key := by
  induction entries with
  | nil => exact lookup_cons key name value []
  | cons entry rest ih =>
      obtain ⟨other, old⟩ := entry
      unfold insertEntry
      by_cases hname : name = other
      · subst hname
        rw [if_pos rfl, lookup_cons, lookup_cons]
        split <;> rfl
      · rw [if_neg hname]
        split
        · exact lookup_cons key name value _
        · rw [lookup_cons, lookup_cons, ih]
          by_cases hother : key = other
          · rw [if_pos hother, if_neg (hother ▸ Ne.symm hname), if_pos hother]
          · rw [if_neg hother, if_neg hother]

theorem mem_of_mem_insertEntry {name : String} {value : Json} {entries : List (String × Json)}
    {entry : String × Json} (h : entry ∈ insertEntry name value entries) :
    entry = (name, value) ∨ entry ∈ entries := by
  induction entries with
  | nil => exact .inl (List.mem_singleton.1 h)
  | cons first rest ih =>
      unfold insertEntry at h
      split at h
      · exact (List.mem_cons.1 h).imp_right (List.mem_cons_of_mem _)
      · split at h
        · exact List.mem_cons.1 h
        · rcases List.mem_cons.1 h with rfl | hrest
          · exact .inr List.mem_cons_self
          · exact (ih hrest).imp_right (List.mem_cons_of_mem _)

theorem pairwise_insertEntry (name : String) (value : Json) {entries : List (String × Json)}
    (h : entries.Pairwise fun a b => a.1 < b.1) :
    (insertEntry name value entries).Pairwise fun a b => a.1 < b.1 := by
  induction entries with
  | nil => exact List.pairwise_singleton _ _
  | cons first rest ih =>
      obtain ⟨hfirst, hrest⟩ := List.pairwise_cons.1 h
      unfold insertEntry
      split
      · next heq => exact List.pairwise_cons.2 ⟨fun entry hentry => heq ▸ hfirst entry hentry, hrest⟩
      · split
        · next hlt =>
            refine List.pairwise_cons.2 ⟨?_, h⟩
            exact List.forall_mem_cons.2 ⟨hlt, fun entry hentry => hlt.trans (hfirst entry hentry)⟩
        · next hne hnot =>
            refine List.pairwise_cons.2 ⟨fun entry hentry => ?_, ih hrest⟩
            rcases mem_of_mem_insertEntry hentry with rfl | hentry
            · exact lt_of_le_of_ne (not_lt.1 hnot) (Ne.symm hne)
            · exact hfirst entry hentry

theorem lookup_foldl_insertEntry (entries acc : List (String × Json)) (name : String) :
    (entries.foldl (fun acc (name, value) => insertEntry name value acc) acc).lookup name =
      ((entries.reverse.find? fun entry => entry.1 = name).map (·.2)).or (acc.lookup name) := by
  induction entries generalizing acc with
  | nil => rfl
  | cons entry rest ih =>
      rw [List.foldl_cons, ih, lookup_insertEntry, List.reverse_cons, List.find?_append,
        List.find?_singleton]
      cases rest.reverse.find? fun entry => entry.1 = name with
      | some last => rfl
      | none =>
          by_cases hname : entry.1 = name
          · simp [hname]
          · simp [hname, Ne.symm hname]

theorem pairwise_foldl_insertEntry (entries : List (String × Json)) {acc : List (String × Json)}
    (h : acc.Pairwise fun a b => a.1 < b.1) :
    (entries.foldl (fun acc (name, value) => insertEntry name value acc) acc).Pairwise
      fun a b => a.1 < b.1 := by
  induction entries generalizing acc with
  | nil => exact h
  | cons entry rest ih => exact ih (pairwise_insertEntry entry.1 entry.2 h)

theorem lookup_eq_none_of_forall_lt {name : String} {entries : List (String × Json)}
    (h : ∀ entry ∈ entries, name < entry.1) : entries.lookup name = none :=
  List.lookup_eq_none_iff.2 fun entry hentry => by simpa using (h entry hentry).ne

theorem not_lt_of_lookup_eq {a b : String × Json} {as bs : List (String × Json)}
    (hb : ∀ entry ∈ bs, b.1 < entry.1) (h : (a :: as).lookup a.1 = (b :: bs).lookup a.1) :
    ¬ a.1 < b.1 := fun hlt => by
  have hbehind : (b :: bs).lookup a.1 = none := lookup_eq_none_of_forall_lt
    (List.forall_mem_cons.2 ⟨hlt, fun entry hentry => hlt.trans (hb entry hentry)⟩)
  rw [hbehind, lookup_cons, if_pos rfl] at h
  nomatch h

theorem eq_of_lookup_eq {as bs : List (String × Json)} (has : as.Pairwise fun a b => a.1 < b.1)
    (hbs : bs.Pairwise fun a b => a.1 < b.1) (h : ∀ name, as.lookup name = bs.lookup name) :
    as = bs := by
  induction as generalizing bs with
  | nil =>
      cases bs with
      | nil => rfl
      | cons b bs =>
          obtain ⟨name, value⟩ := b
          simpa [lookup_cons] using h name
  | cons a as ih =>
      cases bs with
      | nil =>
          obtain ⟨name, value⟩ := a
          simpa [lookup_cons] using h name
      | cons b bs =>
          obtain ⟨ha, hasBehind⟩ := List.pairwise_cons.1 has
          obtain ⟨hb, hbsBehind⟩ := List.pairwise_cons.1 hbs
          have hname : a.1 = b.1 :=
            le_antisymm (not_lt.1 (not_lt_of_lookup_eq ha (h b.1).symm))
              (not_lt.1 (not_lt_of_lookup_eq hb (h a.1)))
          obtain ⟨name, value⟩ := a
          obtain ⟨other, stored⟩ := b
          obtain rfl : name = other := hname
          have hvalue : value = stored := by simpa [lookup_cons] using h name
          have hrest : ∀ key, as.lookup key = bs.lookup key := fun key => by
            by_cases hkey : key = name
            · rw [hkey, lookup_eq_none_of_forall_lt ha, lookup_eq_none_of_forall_lt hb]
            · simpa [lookup_cons, hkey] using h key
          rw [hvalue, ih hasBehind hbsBehind hrest]

theorem ofEntries_of_pairwise {entries : List (String × Json)}
    (h : entries.Pairwise fun a b => a.1 < b.1) : ofEntries entries = .object entries := by
  suffices hfold : ∀ acc, (acc ++ entries).Pairwise (fun a b => a.1 < b.1) →
      entries.foldl (fun acc entry => insertEntry entry.1 entry.2 acc) acc = acc ++ entries from
    congrArg object (hfold [] h)
  clear h
  induction entries with
  | nil => simp
  | cons entry rest ih =>
      intro acc hacc
      have hlt : ∀ other ∈ acc, other.1 < entry.1 := fun other hother =>
        (List.pairwise_append.1 hacc).2.2 other hother entry List.mem_cons_self
      rw [List.foldl_cons, insertEntry_of_forall_lt hlt, ih, List.append_assoc, List.singleton_append]
      simpa using hacc

end RuleTidy.Json
