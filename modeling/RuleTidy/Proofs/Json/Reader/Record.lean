import RuleTidy.Proofs.Json.Reader.Leaf
import RuleTidy.Proofs.Json.Text

/-! Lists, options and records are read as they were written, when their parts are. -/

namespace RuleTidy.Json

open Text

namespace Reader

variable {α σ : Type} {reader : Reader α} {write : α → List Char} {rest : List Char}

theorem stops_comma (rest : List Char) : Stops (',' :: rest) := by
  intro c hc
  exact .inl (Option.some.inj hc).symm

theorem stops_bracket (rest : List Char) : Stops (']' :: rest) := by
  intro c hc
  exact .inr (.inl (Option.some.inj hc).symm)

theorem stops_brace (rest : List Char) : Stops ('\x7d' :: rest) := by
  intro c hc
  exact .inr (.inr (Option.some.inj hc).symm)

theorem StartsValue.exists_cons {text : List Char} (h : StartsValue text) :
    ∃ c cs, text = c :: cs ∧ isSpace c = false ∧ c ≠ ']' ∧ c ≠ 'n' := by
  obtain ⟨c, hc, hstart⟩ := h
  obtain ⟨cs, rfl⟩ := List.head?_eq_some_iff.1 hc
  refine ⟨c, cs, rfl, ?_⟩
  rcases hstart with rfl | rfl | rfl | hdigit
  · decide
  · decide
  · decide
  · refine ⟨isSpace_of_isDigit hdigit, ?_, ?_⟩
    all_goals
      rintro rfl
      nomatch hdigit

structure ReadsValue (reader : Reader α) (text : List Char) (value : α) : Prop where
  reads : Reads reader text value
  starts : StartsValue text

theorem reads_nullable {o : Option α} (h : ∀ a ∈ o, ReadsValue reader (write a) a) :
    Reads (nullable reader) (writeOption write o) o := by
  intro rest hrest
  cases o with
  | none => rfl
  | some a =>
      obtain ⟨c, cs, hcons, hspace, -, hnull⟩ := (h a rfl).starts.exists_cons
      have htoken : peekToken? (write a ++ rest) = .ok (some c, write a ++ rest) := by
        rw [hcons]
        exact peekToken?_cons hspace _
      rw [writeOption, nullable, bind_of_ok htoken]
      simpa [hnull] using map_of_ok ((h a rfl).reads rest hrest) some

section Lists

theorem enclosed_closeList {inside : Reader α} {a : α} {cs : List Char}
    (h : inside cs = .ok (a, ']' :: rest)) : enclosed inside closeList cs = .ok (a, rest) := by
  rw [enclosed, h]
  rfl

theorem nextItem_first {text : List Char} (h : StartsValue text) (rest : List Char) :
    nextItem true (text ++ rest) = .ok (true, text ++ rest) := by
  obtain ⟨c, cs, rfl, hspace, hend, -⟩ := h.exists_cons
  rw [List.cons_append, nextItem, bind_of_ok (peekToken?_cons hspace _)]
  -- By `hend` the character is not the one that ends the list.
  simp [pure_eq]

theorem nextItem_comma {text : List Char} (h : StartsValue text) (rest : List Char) :
    nextItem false (',' :: (text ++ rest)) = .ok (true, text ++ rest) := by
  obtain ⟨c, cs, rfl, hspace, hend, -⟩ := h.exists_cons
  have hcomma : peekToken? (',' :: (c :: cs ++ rest)) = .ok (some ',', ',' :: (c :: cs ++ rest)) :=
    peekToken?_cons rfl _
  have hdrop : drop 1 (',' :: (c :: cs ++ rest)) = .ok ((), c :: (cs ++ rest)) := rfl
  rw [nextItem, bind_of_ok hcomma]
  simp only [Bool.false_eq_true, if_false]
  refine (bind_of_ok hdrop).trans ?_
  rw [bind_of_ok (peekToken?_cons hspace _)]
  simp [pure_eq]

theorem items_of_nextItem {fuel : Nat} {first : Bool} {a : α} {values : List α}
    {cs text tail : List Char} (hnext : nextItem first cs = .ok (true, text ++ tail))
    (ha : Reads reader text a) (htail : Stops tail)
    (hitems : items reader fuel false tail = .ok (values, rest)) :
    items reader (fuel + 1) first cs = .ok (a :: values, rest) := by
  rw [items, bind_of_ok hnext]
  simp only [if_true]
  rw [bind_of_ok (ha tail htail)]
  exact map_of_ok hitems _

theorem stops_flatMap (values : List α) (rest : List Char) :
    Stops (values.flatMap (',' :: write ·) ++ ']' :: rest) := by
  cases values with
  | nil => exact stops_bracket rest
  | cons a values => exact stops_comma _

theorem items_flatMap {values : List α} (h : ∀ a ∈ values, ReadsValue reader (write a) a)
    {fuel : Nat} (hfuel : values.length < fuel) (rest : List Char) :
    items reader fuel false (values.flatMap (',' :: write ·) ++ ']' :: rest) =
      .ok (values, ']' :: rest) := by
  induction values generalizing fuel with
  | nil =>
      obtain ⟨fuel, rfl⟩ := Nat.exists_eq_add_of_lt hfuel
      rfl
  | cons a values ih =>
      obtain ⟨fuel, rfl⟩ := Nat.exists_eq_add_of_lt hfuel
      obtain ⟨ha, hvalues⟩ := List.forall_mem_cons.1 h
      have hnext := nextItem_comma ha.starts (values.flatMap (',' :: write ·) ++ ']' :: rest)
      rw [List.flatMap_cons, List.append_assoc, List.cons_append]
      exact items_of_nextItem hnext ha.reads (stops_flatMap values rest)
        (ih hvalues (by rw [List.length_cons]; omega))

theorem writeList_append (texts : List (List Char)) (rest : List Char) :
    writeList texts ++ rest = '[' :: ([','].intercalate texts ++ ']' :: rest) := by
  rw [writeList, List.append_assoc, List.cons_append]
  rfl

theorem length_le_length_flatMap_cons (write : α → List Char) (values : List α) :
    values.length ≤ (values.flatMap (',' :: write ·)).length := by
  induction values with
  | nil => exact Nat.le_refl 0
  | cons a values ih =>
      rw [List.flatMap_cons, List.length_append, List.length_cons, List.length_cons]
      omega

theorem list_bracket (expected : String) (cs : List Char) :
    list reader expected ('[' :: cs) =
      enclosed (items reader (cs.length + 1) true) closeList cs := rfl

theorem reads_list (expected : String) {values : List α}
    (h : ∀ a ∈ values, ReadsValue reader (write a) a) :
    Reads (list reader expected) (writeList (values.map write)) values := by
  intro rest _
  cases values with
  | nil => rfl
  | cons a values =>
      obtain ⟨ha, hvalues⟩ := List.forall_mem_cons.1 h
      have hlength := length_le_length_flatMap_cons write values
      rw [writeList_append, List.map_cons, intercalate_cons, List.flatMap_map, List.append_assoc,
        list_bracket]
      refine enclosed_closeList (items_of_nextItem (nextItem_first ha.starts _) ha.reads
        (stops_flatMap values rest) (items_flatMap hvalues ?_ rest))
      simp only [List.length_append, List.length_cons]
      omega

theorem startsValue_writeList (texts : List (List Char)) : StartsValue (writeList texts) :=
  ⟨'[', rfl, .inr (.inl rfl)⟩

end Lists

section FixedLists

theorem itemAt_of_nextItem {expected : String} {index : Nat} {first : Bool} {a : α}
    {cs text tail : List Char} (hfirst : decide (index = 0) = first)
    (hnext : nextItem first cs = .ok (true, text ++ tail))
    (ha : Reads reader text a) (htail : Stops tail) :
    itemAt expected index reader cs = .ok (a, tail) := by
  rw [itemAt, hfirst, bind_of_ok hnext]
  exact ha tail htail

theorem itemsFrom_succ {expected : String} {index n : Nat} {a : α} {values : List α}
    {cs tail : List Char} (ha : itemAt expected index reader cs = .ok (a, tail))
    (hvalues : itemsFrom expected reader n (index + 1) tail = .ok (values, rest)) :
    itemsFrom expected reader (n + 1) index cs = .ok (a :: values, rest) := by
  rw [itemsFrom, bind_of_ok ha]
  exact map_of_ok hvalues _

theorem itemsFrom_flatMap (expected : String) {values : List α}
    (h : ∀ a ∈ values, ReadsValue reader (write a) a) (index : Nat) (rest : List Char) :
    itemsFrom expected reader values.length (index + 1)
        (values.flatMap (',' :: write ·) ++ ']' :: rest) = .ok (values, ']' :: rest) := by
  induction values generalizing index with
  | nil => rfl
  | cons a values ih =>
      obtain ⟨ha, hvalues⟩ := List.forall_mem_cons.1 h
      have hnext := nextItem_comma ha.starts (values.flatMap (',' :: write ·) ++ ']' :: rest)
      rw [List.flatMap_cons, List.append_assoc, List.cons_append]
      exact itemsFrom_succ (itemAt_of_nextItem rfl hnext ha.reads (stops_flatMap values rest))
        (ih hvalues (index + 1))

theorem itemsFrom_intercalate (expected : String) {values : List α}
    (h : ∀ a ∈ values, ReadsValue reader (write a) a) (rest : List Char) :
    itemsFrom expected reader values.length 0
        ([','].intercalate (values.map write) ++ ']' :: rest) = .ok (values, ']' :: rest) := by
  cases values with
  | nil => rfl
  | cons a values =>
      obtain ⟨ha, hvalues⟩ := List.forall_mem_cons.1 h
      rw [List.map_cons, intercalate_cons, List.flatMap_map, List.append_assoc]
      exact itemsFrom_succ
        (itemAt_of_nextItem rfl (nextItem_first ha.starts _) ha.reads (stops_flatMap values rest))
        (itemsFrom_flatMap expected hvalues 0 rest)

end FixedLists

section Records

def fieldText (entry : String × List Char) : List Char := quote entry.1 ++ ':' :: entry.2

/-- Reading the fields of an object one after the other turns one state into another. -/
inductive Steps (read : String → σ → Reader σ) : List (String × List Char) → σ → σ → Prop
  | nil (s : σ) : Steps read [] s s
  | cons {name : String} {text : List Char} {fields : List (String × List Char)} {s s' s'' : σ}
      (head : Reads (read name s) (':' :: text) s') (tail : Steps read fields s' s'') :
      Steps read ((name, text) :: fields) s s''

variable {read : String → σ → Reader σ} {fields : List (String × List Char)} {s s' : σ}

theorem stops_fields (fields : List (String × List Char)) (rest : List Char) :
    Stops (fields.flatMap (',' :: fieldText ·) ++ '\x7d' :: rest) := by
  cases fields with
  | nil => exact stops_brace rest
  | cons field fields => exact stops_comma _

theorem nextName_first (name : String) (rest : List Char) :
    nextName true (quote name ++ rest) = .ok (some name, rest) := by
  change (do return some (← stringBody) : Reader (Option String))
    (name.toList.flatMap escapeChar ++ ['"'] ++ rest) = _
  rw [List.append_assoc]
  exact map_of_ok (stringBody_flatMap name rest) some

theorem nextName_comma (name : String) (rest : List Char) :
    nextName false (',' :: (quote name ++ rest)) = .ok (some name, rest) :=
  nextName_first name rest

theorem fold_of_nextName {fuel : Nat} {first : Bool} {name : String} {cs text tail : List Char}
    {s'' : σ} (hnext : nextName first cs = .ok (some name, ':' :: text ++ tail))
    (hentry : Reads (read name s) (':' :: text) s') (htail : Stops tail)
    (hfold : fold read fuel false s' tail = .ok (s'', rest)) :
    fold read (fuel + 1) first s cs = .ok (s'', rest) := by
  rw [fold, bind_of_ok hnext]
  exact (bind_of_ok (hentry tail htail)).trans hfold

theorem fieldText_append (name : String) (text tail : List Char) :
    fieldText (name, text) ++ tail = quote name ++ (':' :: text ++ tail) := by
  rw [fieldText, List.append_assoc]

theorem fold_fields (h : Steps read fields s s') {fuel : Nat} (hfuel : fields.length < fuel)
    (rest : List Char) :
    fold read fuel false s (fields.flatMap (',' :: fieldText ·) ++ '\x7d' :: rest) =
      .ok (s', '\x7d' :: rest) := by
  induction h generalizing fuel with
  | nil =>
      obtain ⟨fuel, rfl⟩ := Nat.exists_eq_add_of_lt hfuel
      rfl
  | @cons name text fields _ _ _ head tail ih =>
      obtain ⟨fuel, rfl⟩ := Nat.exists_eq_add_of_lt hfuel
      rw [List.flatMap_cons, List.append_assoc, List.cons_append, fieldText_append]
      exact fold_of_nextName (nextName_comma name _) head (stops_fields fields rest)
        (ih (by rw [List.length_cons]; omega))

theorem foldEntries_fields (h : Steps read fields s s') (rest : List Char) :
    foldEntries read s ([','].intercalate (fields.map fieldText) ++ '\x7d' :: rest) =
      .ok (s', '\x7d' :: rest) := by
  cases h with
  | nil => rfl
  | @cons name text fields _ _ _ head tail =>
      have hlength := length_le_length_flatMap_cons fieldText fields
      rw [List.map_cons, intercalate_cons, List.flatMap_map, List.append_assoc, fieldText_append]
      refine fold_of_nextName (nextName_first name _) head (stops_fields fields rest)
        (fold_fields tail ?_ rest)
      simp only [List.length_append, List.length_cons]
      omega

theorem enclosed_closeObject {inside : Reader α} {a : α} {cs : List Char}
    (h : inside cs = .ok (a, '\x7d' :: rest)) : enclosed inside closeObject cs = .ok (a, rest) := by
  rw [enclosed, h]
  rfl

theorem reads_record {expected : String} {positional : Reader α} {finish : σ → Reader α} {a : α}
    (h : Steps read fields s s') (hfinish : finish s' = pure a) :
    Reads (record expected positional (do finish (← foldEntries read s)))
      (writeObject fields) a := by
  intro rest _
  have htext : writeObject fields ++ rest =
      '\x7b' :: ([','].intercalate (fields.map fieldText) ++ '\x7d' :: rest) := by
    rw [writeObject, List.append_assoc, List.cons_append]
    rfl
  have hnamed : (do finish (← foldEntries read s) : Reader α)
      ([','].intercalate (fields.map fieldText) ++ '\x7d' :: rest) = .ok (a, '\x7d' :: rest) := by
    rw [bind_of_ok (foldEntries_fields h rest), hfinish]
    rfl
  rw [htext]
  exact enclosed_closeObject hnamed

theorem startsValue_writeObject (fields : List (String × List Char)) :
    StartsValue (writeObject fields) :=
  ⟨'\x7b', rfl, .inr (.inr (.inl rfl))⟩

theorem reads_field (name : String) {value : Reader α} {text : List Char} {a : α}
    (h : Reads value text a) : Reads (field name none value) (':' :: text) (some a) :=
  fun rest hrest => map_of_ok (h rest hrest) some

theorem reads_variant {known : List (String × α)} {name : String} {a : α}
    (h : known.lookup name = some a) : Reads (variant known) (quote name) a := by
  intro rest _
  have hstart : valueStart (quote name ++ rest) = .ok ('"', quote name ++ rest) :=
    valueStart_cons rfl _
  have hdrop : drop 1 (quote name ++ rest) =
      .ok ((), name.toList.flatMap escapeChar ++ '"' :: rest) := by
    rw [quote, List.append_assoc]
    rfl
  rw [variant, bind_of_ok hstart]
  simp only [bind_of_ok hstart, if_true]
  rw [bind_of_ok hdrop, bind_of_ok (stringBody_flatMap name rest), h]
  rfl

end Records

end Reader

end RuleTidy.Json
