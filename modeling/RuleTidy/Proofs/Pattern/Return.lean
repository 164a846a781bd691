import Mathlib.Data.List.Basic
import RuleTidy.Pattern.Return.Search
import RuleTidy.Proofs.Source.Slice
import RuleTidy.Proofs.Text.Front

/-! The keyword that is taken away is the last one, and one is found wherever the text has one. The
search from the end by offsets finds the same as the one by characters. -/

namespace RuleTidy.Pattern

open Source Text

variable {text before behind : List Char}

/-- A text has the keyword between two parts: it is no part of a longer word, and a space or a tab
follows. -/
structure HasKeyword (text before behind : List Char) : Prop where
  eq_append : text = before ++ returnKeyword ++ behind
  alone : ∀ c, before.getLast? = some c → ¬(c.isAlphanum = true ∨ c = '_' ∨ c = '$')
  spaced : ∃ c, behind.head? = some c ∧ (c = ' ' ∨ c = '\t')

/-- The keyword between two parts of a text is the last one. -/
structure HasLastKeyword (text before behind : List Char) : Prop
    extends HasKeyword text before behind where
  last : ∀ before' behind', HasKeyword text before' behind' → before'.length ≤ before.length

theorem isWordChar_iff {c : Char} :
    isWordChar c = true ↔ c.isAlphanum = true ∨ c = '_' ∨ c = '$' := by
  simp [isWordChar, or_assoc]

theorem isSpace_iff {c : Char} : isSpace c = true ↔ c = ' ' ∨ c = '\t' := by simp [isSpace]

theorem not_any_isWordChar {previous : Option Char} :
    (!previous.any isWordChar) = true ↔
      ∀ c, previous = some c → ¬(c.isAlphanum = true ∨ c = '_' ∨ c = '$') := by
  cases previous <;> simp [← isWordChar_iff]

theorem any_isSpace {next : Option Char} :
    next.any isSpace = true ↔ ∃ c, next = some c ∧ (c = ' ' ∨ c = '\t') := by
  cases next <;> simp [← isSpace_iff]

section Split

variable {front rest : List Char}

theorem afterKeyword?_eq_some :
    afterKeyword? front.getLast? rest = some behind ↔ HasKeyword (front ++ rest) front behind := by
  unfold afterKeyword?
  dsimp only
  constructor
  · intro h
    split at h
    case isFalse => cases h
    case isTrue hword =>
      simp only [Bool.and_eq_true, List.isPrefixOf_iff_prefix] at hword
      obtain ⟨⟨⟨behind', rfl⟩, halone⟩, hspaced⟩ := hword
      rw [List.drop_left] at h hspaced
      obtain rfl := Option.some.inj h
      exact ⟨(List.append_assoc ..).symm, not_any_isWordChar.1 halone, any_isSpace.1 hspaced⟩
  · rintro ⟨heq, halone, hspaced⟩
    rw [List.append_assoc] at heq
    obtain rfl := List.append_cancel_left heq
    have hword : returnKeyword.isPrefixOf (returnKeyword ++ behind) = true :=
      List.isPrefixOf_iff_prefix.2 (List.prefix_append _ _)
    rw [List.drop_left, hword, not_any_isWordChar.2 halone, any_isSpace.2 hspaced]
    rfl

theorem HasKeyword.length_lt (h : HasKeyword text before behind) : before.length < text.length := by
  have hword : 0 < returnKeyword.length := by decide
  rw [h.eq_append, List.length_append, List.length_append]
  omega

theorem HasKeyword.eq_of_length_eq (h : HasKeyword (front ++ rest) before behind)
    (hlength : before.length = front.length) : before = front := by
  have heq := h.eq_append
  rw [List.append_assoc] at heq
  exact (List.append_inj_left heq hlength.symm).symm

theorem length_lt_of_splitAtReturn_eq_none (hnone : splitAtReturn front.getLast? rest = none)
    (h : HasKeyword (front ++ rest) before behind) : before.length < front.length := by
  induction rest generalizing front with
  | nil =>
      rw [List.append_nil] at h
      exact h.length_lt
  | cons c rest ih =>
      rw [splitAtReturn] at hnone
      split at hnone
      case h_1 => cases hnone
      case h_2 hrest =>
        have hfront : front ++ c :: rest = front ++ [c] ++ rest := List.append_cons ..
        have hlt : before.length < (front ++ [c]).length :=
          ih (by rwa [List.getLast?_concat]) (hfront ▸ h)
        rw [List.length_append, List.length_singleton] at hlt
        refine Nat.lt_of_le_of_ne (Nat.le_of_lt_succ hlt) fun hlength => ?_
        rw [h.eq_of_length_eq hlength] at h
        rw [afterKeyword?_eq_some.2 h] at hnone
        cases hnone

theorem hasLastKeyword_of_splitAtReturn
    (h : splitAtReturn front.getLast? rest = some (before, behind)) :
    HasLastKeyword (front ++ rest) (front ++ before) behind := by
  induction rest generalizing front before with
  | nil => cases h
  | cons c rest ih =>
      have hfront : front ++ c :: rest = front ++ [c] ++ rest := List.append_cons ..
      rw [splitAtReturn] at h
      split at h
      case h_1 before' behind' hrest =>
        obtain ⟨rfl, rfl⟩ := Prod.mk.inj (Option.some.inj h)
        rw [hfront, List.append_cons front c before']
        exact ih (by rwa [List.getLast?_concat])
      case h_2 hrest =>
        obtain ⟨behind', hbehind, heq⟩ := Option.map_eq_some_iff.1 h
        obtain ⟨rfl, rfl⟩ := Prod.mk.inj heq
        rw [List.append_nil]
        refine ⟨afterKeyword?_eq_some.1 hbehind, fun before' behind' hkeyword => ?_⟩
        have hlt : before'.length < (front ++ [c]).length :=
          length_lt_of_splitAtReturn_eq_none (by rwa [List.getLast?_concat]) (hfront ▸ hkeyword)
        rw [List.length_append, List.length_singleton] at hlt
        exact Nat.le_of_lt_succ hlt

theorem HasLastKeyword.unique {before' behind' : List Char} (h : HasLastKeyword text before behind)
    (h' : HasLastKeyword text before' behind') : before = before' ∧ behind = behind' := by
  have hlength : before.length = before'.length :=
    Nat.le_antisymm (h'.last _ _ h.toHasKeyword) (h.last _ _ h'.toHasKeyword)
  have heq : before ++ (returnKeyword ++ behind) = before' ++ (returnKeyword ++ behind') := by
    rw [← List.append_assoc, ← List.append_assoc, ← h.eq_append, ← h'.eq_append]
  obtain ⟨hbefore, hrest⟩ := List.append_inj heq hlength
  exact ⟨hbefore, List.append_cancel_left hrest⟩

theorem not_hasKeyword_of_splitAtReturn (hnone : splitAtReturn none text = none) :
    ¬HasKeyword text before behind := by
  intro h
  have hlt : before.length < ([] : List Char).length :=
    length_lt_of_splitAtReturn_eq_none hnone h
  exact absurd hlt (Nat.not_lt_zero _)

theorem splitAtReturn_eq_some :
    splitAtReturn none text = some (before, behind) ↔ HasLastKeyword text before behind := by
  have hfinds : ∀ {before behind}, splitAtReturn none text = some (before, behind) →
      HasLastKeyword ([] ++ text) ([] ++ before) behind := by
    intro before behind h
    exact hasLastKeyword_of_splitAtReturn h
  constructor
  · exact hfinds
  · intro h
    cases hsplit : splitAtReturn none text with
    | none => exact absurd h.toHasKeyword (not_hasKeyword_of_splitAtReturn hsplit)
    | some parts =>
        obtain ⟨rfl, rfl⟩ := h.unique (hfinds hsplit)
        rfl

theorem exists_hasLastKeyword (h : HasKeyword text before behind) :
    ∃ before' behind', HasLastKeyword text before' behind' := by
  cases hsplit : splitAtReturn none text with
  | none => exact absurd h (not_hasKeyword_of_splitAtReturn hsplit)
  | some parts => exact ⟨_, _, splitAtReturn_eq_some.1 hsplit⟩

end Split

section Search

theorem unbordered_returnKeyword : Unbordered returnKeyword := by
  unfold Unbordered
  decide

theorem isKeywordAt_byteLength (h : text = before ++ returnKeyword ++ behind) :
    isKeywordAt text (Utf8.byteLength before) = true ↔ HasKeyword text before behind := by
  have htake : takeBytes? text (Utf8.byteLength before) = some before := by
    rw [h, List.append_assoc]
    exact takeBytes?_byteLength _ _
  have hdrop : LineIndex.dropBytes? text
      (Utf8.byteLength before + Utf8.byteLength returnKeyword) = some behind := by
    rw [h, ← byteLength_append]
    exact LineIndex.dropBytes?_byteLength _ _
  rw [isKeywordAt, htake, hdrop]
  simp only [Option.bind_some, Bool.and_eq_true, not_any_isWordChar, any_isSpace]
  exact ⟨fun ⟨halone, hspaced⟩ => ⟨h, halone, hspaced⟩, fun hkeyword => ⟨hkeyword.2, hkeyword.3⟩⟩

theorem mem_wordOffsets_of_hasKeyword (h : HasKeyword text before behind) :
    Utf8.byteLength before ∈ wordOffsets returnKeyword 0 text.reverse := by
  rw [← byteLength_reverse]
  refine mem_wordOffsets unbordered_returnKeyword (by decide) List.nil_prefix ⟨behind.reverse, ?_⟩
  rw [h.eq_append, List.reverse_append, List.reverse_append]

theorem exists_hasKeyword_of_mem {offset : Nat}
    (hmem : offset ∈ wordOffsets returnKeyword 0 text.reverse) (hat : isKeywordAt text offset = true) :
    ∃ before behind, offset = Utf8.byteLength before ∧ HasKeyword text before behind := by
  obtain ⟨before, rfl, behind, hplace⟩ := exists_of_mem_wordOffsets hmem
  have htext : text = before.reverse ++ returnKeyword ++ behind.reverse := by
    have hreversed := congrArg List.reverse hplace
    rw [List.drop_zero, List.reverse_reverse] at hreversed
    rw [← hreversed, List.reverse_append, List.reverse_append, List.reverse_reverse]
  rw [← byteLength_reverse] at hat ⊢
  exact ⟨_, _, rfl, (isKeywordAt_byteLength htext).1 hat⟩

theorem HasKeyword.byteLength_le {before' behind' : List Char} (h : HasKeyword text before behind)
    (h' : HasKeyword text before' behind') (hlength : before'.length ≤ before.length) :
    Utf8.byteLength before' ≤ Utf8.byteLength before := by
  have hbefore : before <+: text := ⟨_, by rw [h.eq_append, List.append_assoc]⟩
  have hbefore' : before' <+: text := ⟨_, by rw [h'.eq_append, List.append_assoc]⟩
  obtain ⟨rest, hrest⟩ := List.prefix_of_prefix_length_le hbefore' hbefore hlength
  rw [← hrest, byteLength_append]
  exact Nat.le_add_right _ _

theorem lastKeyword?_of_hasLastKeyword (h : HasLastKeyword text before behind) :
    lastKeyword? text = some (Utf8.byteLength before) := by
  refine find?_eq_some_of_pairwise (pairwise_wordOffsets (by decide) _ _)
    (mem_wordOffsets_of_hasKeyword h.toHasKeyword)
    ((isKeywordAt_byteLength h.eq_append).2 h.toHasKeyword) fun offset hmem hat => ?_
  obtain ⟨before', behind', rfl, hkeyword⟩ := exists_hasKeyword_of_mem hmem hat
  exact h.byteLength_le hkeyword (h.last _ _ hkeyword)

/-- The search from the end finds the keyword that the other one finds. -/
theorem lastKeyword?_eq (text : List Char) :
    lastKeyword? text = (splitAtReturn none text).map fun parts => Utf8.byteLength parts.1 := by
  cases hsplit : splitAtReturn none text with
  | some parts => exact lastKeyword?_of_hasLastKeyword (splitAtReturn_eq_some.1 hsplit)
  | none =>
      refine List.find?_eq_none.2 fun offset hmem hat => ?_
      obtain ⟨before, behind, -, hkeyword⟩ := exists_hasKeyword_of_mem hmem hat
      obtain ⟨before', behind', hlast⟩ := exists_hasLastKeyword hkeyword
      rw [splitAtReturn_eq_some.2 hlast] at hsplit
      cases hsplit

theorem cutReturn?_eq (pattern : String) : cutReturn? pattern = stripReturn? pattern := by
  rw [cutReturn?, stripReturn?, lastKeyword?_eq]
  cases hsplit : splitAtReturn none pattern.toList with
  | none => rfl
  | some parts =>
      have hlast := splitAtReturn_eq_some.1 hsplit
      rw [hlast.eq_append, List.append_assoc]
      simp only [Option.map_some, Option.bind_eq_bind, Option.bind_some, takeBytes?_byteLength]
      rw [← List.append_assoc, ← byteLength_append, LineIndex.dropBytes?_byteLength]
      rfl

theorem showsReturn_eq (pattern : String) : showsReturn pattern = hasReturn pattern := by
  rw [showsReturn, hasReturn, lastKeyword?_eq, Option.isSome_map]

end Search

section Strip

variable {pattern stripped : String}

theorem stripReturn?_eq_some :
    stripReturn? pattern = some stripped ↔
      ∃ before behind, HasLastKeyword pattern.toList before behind ∧
        stripped.toList = before ++ behind.dropWhile isSpace := by
  rw [stripReturn?, Option.map_eq_some_iff]
  constructor
  · rintro ⟨⟨before, behind⟩, hsplit, rfl⟩
    exact ⟨before, behind, splitAtReturn_eq_some.1 hsplit, String.toList_ofList⟩
  · rintro ⟨before, behind, hlast, hstripped⟩
    refine ⟨(before, behind), splitAtReturn_eq_some.2 hlast, ?_⟩
    dsimp only
    rw [← hstripped, String.ofList_toList]

theorem isSome_stripReturn? (pattern : String) :
    (stripReturn? pattern).isSome = hasReturn pattern := by
  rw [stripReturn?, hasReturn, Option.isSome_map]

theorem hasReturn_iff :
    hasReturn pattern = true ↔ ∃ before behind, HasKeyword pattern.toList before behind := by
  rw [hasReturn, Option.isSome_iff_exists]
  constructor
  · rintro ⟨parts, hsplit⟩
    exact ⟨_, _, (splitAtReturn_eq_some.1 hsplit).toHasKeyword⟩
  · rintro ⟨before, behind, hkeyword⟩
    obtain ⟨before', behind', hlast⟩ := exists_hasLastKeyword hkeyword
    exact ⟨_, splitAtReturn_eq_some.2 hlast⟩

structure IsSpaceRun (spaces rest : List Char) : Prop where
  nonempty : spaces ≠ []
  spaces : ∀ c ∈ spaces, c = ' ' ∨ c = '\t'
  ended : ∀ c, rest.head? = some c → ¬(c = ' ' ∨ c = '\t')

theorem HasKeyword.isSpaceRun (h : HasKeyword text before behind) :
    IsSpaceRun (behind.takeWhile isSpace) (behind.dropWhile isSpace) where
  nonempty := by
    obtain ⟨c, hhead, hc⟩ := h.spaced
    obtain ⟨rest, rfl⟩ := List.head?_eq_some_iff.1 hhead
    rw [List.takeWhile_cons_of_pos (isSpace_iff.2 hc)]
    exact List.cons_ne_nil _ _
  spaces c hc := isSpace_iff.1 (List.all_eq_true.1 List.all_takeWhile c hc)
  ended c hhead hc := by
    have hspace : isSpace c = false := head?_dropWhile isSpace behind c hhead
    exact absurd (isSpace_iff.2 hc) (Bool.eq_false_iff.1 hspace)

theorem IsSpaceRun.dropWhile_eq {spaces rest : List Char} (h : IsSpaceRun spaces rest) :
    (spaces ++ rest).dropWhile isSpace = rest := by
  apply dropWhile_run
  · exact fun c hc => isSpace_iff.2 (h.spaces c hc)
  · exact fun c hc => Bool.eq_false_iff.2 (mt isSpace_iff.1 (h.ended c hc))

/-- Exactly the patterns with a keyword can be stripped, and they lose the last one and all spaces
behind it. The search from the end by offsets comes to the same. -/
theorem stripReturn?_iff_keyword (pattern : String) :
    (cutReturn? pattern = stripReturn? pattern ∧ showsReturn pattern = hasReturn pattern) ∧
    ((∃ stripped, stripReturn? pattern = some stripped) ↔
      ∃ before behind, HasKeyword pattern.toList before behind) ∧
    (∀ stripped, stripReturn? pattern = some stripped ↔
      ∃ before spaces rest, HasLastKeyword pattern.toList before (spaces ++ rest) ∧
        IsSpaceRun spaces rest ∧ stripped.toList = before ++ rest) ∧
    (hasReturn pattern = true ↔ ∃ stripped, stripReturn? pattern = some stripped) := by
  have hsome : hasReturn pattern = true ↔ ∃ stripped, stripReturn? pattern = some stripped := by
    rw [← isSome_stripReturn?, Option.isSome_iff_exists]
  refine ⟨⟨cutReturn?_eq pattern, showsReturn_eq pattern⟩, hsome.symm.trans hasReturn_iff,
    fun stripped => ?_, hsome⟩
  rw [stripReturn?_eq_some]
  constructor
  · rintro ⟨before, behind, hlast, hstripped⟩
    refine ⟨before, _, _, ?_, hlast.isSpaceRun, hstripped⟩
    rwa [List.takeWhile_append_dropWhile]
  · rintro ⟨before, spaces, rest, hlast, hrun, hstripped⟩
    refine ⟨before, _, hlast, ?_⟩
    rw [hrun.dropWhile_eq, hstripped]

/-- The last `return` is no keyword, as no space follows, and the one before it is part of a word. -/
example : cutReturn? "é return\t x $return y return" = some "é x $return y return" := by decide

end Strip

end RuleTidy.Pattern
