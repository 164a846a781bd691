import RuleTidy.Json.Reader.Record
import RuleTidy.Proofs.Text.Digit
import RuleTidy.Proofs.Text.Front
import RuleTidy.Json.Text

/-! Strings and whole numbers are read as they were written, whatever follows them in a list or an
object. -/

namespace RuleTidy.Json.Reader

open Text

variable {α β : Type} {x : Reader α} {f : α → Reader β} {a : α} {cs rest : List Char}

theorem bind_of_ok (h : x cs = .ok (a, rest)) : (x >>= f) cs = f a rest := by
  change (x cs >>= fun p => f p.1 p.2) = f a rest
  rw [h]
  rfl

theorem map_of_ok (h : x cs = .ok (a, rest)) (g : α → β) :
    (do return g (← x) : Reader β) cs = .ok (g a, rest) :=
  bind_of_ok h

theorem pure_eq (a : α) (cs : List Char) : (pure a : Reader α) cs = .ok (a, cs) := rfl

theorem peek?_eq (cs : List Char) : peek? cs = .ok (cs.head?, cs) := rfl

theorem peekToken?_cons {c : Char} (h : isSpace c = false) (cs : List Char) :
    peekToken? (c :: cs) = .ok (some c, c :: cs) := by
  have hskip : skipSpace (c :: cs) = .ok ((), c :: cs) := by
    change Except.ok ((), (c :: cs).dropWhile isSpace) = _
    rw [List.dropWhile_cons_of_neg (by simp [h])]
  exact bind_of_ok hskip

theorem valueStart_cons {c : Char} (h : isSpace c = false) (cs : List Char) :
    valueStart (c :: cs) = .ok (c, c :: cs) :=
  bind_of_ok (peekToken?_cons h cs)

/-- What can follow a value inside a list or an object, or behind all of the text. -/
def Stops (rest : List Char) : Prop := ∀ c ∈ rest.head?, c = ',' ∨ c = ']' ∨ c = '\x7d'

theorem Stops.cases (h : Stops rest) :
    rest = [] ∨ ∃ tail, rest = ',' :: tail ∨ rest = ']' :: tail ∨ rest = '\x7d' :: tail := by
  cases rest with
  | nil => exact .inl rfl
  | cons c tail =>
      rcases h c rfl with rfl | rfl | rfl
      · exact .inr ⟨tail, .inl rfl⟩
      · exact .inr ⟨tail, .inr (.inl rfl)⟩
      · exact .inr ⟨tail, .inr (.inr rfl)⟩

/-- A reader finds a value in its text and leaves what follows. -/
def Reads (reader : Reader α) (text : List Char) (value : α) : Prop :=
  ∀ rest, Stops rest → reader (text ++ rest) = .ok (value, rest)

theorem Reads.map {text : List Char} (h : Reads x text a) (g : α → β) :
    Reads (do return g (← x)) text (g a) :=
  fun rest hrest => map_of_ok (h rest hrest) g

theorem Reads.run {text : List Char} (h : Reads x text a) : x.run (String.ofList text) = .ok a := by
  have hstops : Stops [] := fun c hc => nomatch hc
  have hx := h [] hstops
  rw [List.append_nil] at hx
  unfold Reader.run
  dsimp only
  rw [String.toList_ofList, bind_of_ok hx]
  rfl

def StartsValue (text : List Char) : Prop :=
  ∃ c ∈ text.head?, c = '"' ∨ c = '[' ∨ c = '\x7b' ∨ c.isDigit

section Strings

variable {fuel : Nat} {text : List Char}

theorem length_le_byteLength (text : List Char) : text.length ≤ Utf8.byteLength text := by
  induction text with
  | nil => exact Nat.le_refl 0
  | cons c rest ih =>
      have := c.utf8Size_pos
      rw [List.length_cons, Utf8.byteLength]
      omega

theorem hexQuad_hexDigits {n : Nat} (h : n < 16 ^ 4) (cs : List Char) :
    hexQuad (hexDigits 4 n ++ cs) = .ok (n, cs) := by
  have hwidth := length_hexDigits 4 n
  have hbytes := length_le_byteLength (hexDigits 4 n ++ cs)
  rw [List.length_append] at hbytes
  have hread : hexNumber? (hexDigits 4 n) = some n := by
    simpa using hexNumber?_hexDigits id (by decide) h
  rw [hexQuad, if_neg (by omega), List.take_left' hwidth, hread, List.drop_left' hwidth]

theorem hexEscape_hexDigits {c : Char} (h : c.toNat < 0x20) (cs : List Char) :
    hexEscape (hexDigits 4 c.toNat ++ cs) = .ok (c, cs) := by
  have hlead : isLeadingSurrogate c.toNat = false := by
    simp [isLeadingSurrogate]
    omega
  have htrail : isTrailingSurrogate c.toNat = false := by
    simp [isTrailingSurrogate]
    omega
  rw [hexEscape, bind_of_ok (hexQuad_hexDigits (Nat.lt_trans h (by decide)) cs), htrail, hlead]
  exact congrArg (fun d => Except.ok (d, cs)) c.ofNat_toNat

theorem stringTail_of_escape {c : Char} {written : List Char}
    (hescape : escape written = .ok (c, cs)) (h : stringTail fuel cs = .ok (text, rest)) :
    stringTail (fuel + 1) ('\\' :: written) = .ok (c :: text, rest) := by
  change (escape >>= fun c => do return c :: (← stringTail fuel)) written = _
  rw [bind_of_ok hescape]
  exact map_of_ok h _

theorem stringTail_of_plain {c : Char} (hquote : c ≠ '"') (hslash : c ≠ '\\')
    (hplain : ¬ c.toNat < 0x20) (h : stringTail fuel cs = .ok (text, rest)) :
    stringTail (fuel + 1) (c :: cs) = .ok (c :: text, rest) := by
  have hpeek : peek? (c :: cs) = .ok (some c, c :: cs) := rfl
  rw [stringTail, bind_of_ok hpeek]
  simp only [if_neg hplain]
  exact map_of_ok (x := stringTail fuel) h _

theorem stringTail_escapeChar (c : Char) (h : stringTail fuel cs = .ok (text, rest)) :
    stringTail (fuel + 1) (escapeChar c ++ cs) = .ok (c :: text, rest) := by
  unfold escapeChar
  split
  -- The characters that have a letter of their own.
  any_goals exact stringTail_of_escape rfl h
  next hquote hslash _ _ _ _ _ =>
    split
    · next hcontrol => exact stringTail_of_escape (hexEscape_hexDigits hcontrol cs) h
    · next hplain => exact stringTail_of_plain hquote hslash hplain h

theorem stringTail_flatMap (text : List Char) (rest : List Char) (h : text.length < fuel) :
    stringTail fuel (text.flatMap escapeChar ++ '"' :: rest) = .ok (text, rest) := by
  induction text generalizing fuel with
  | nil =>
      obtain ⟨fuel, rfl⟩ := Nat.exists_eq_add_of_lt h
      rfl
  | cons c text ih =>
      obtain ⟨fuel, rfl⟩ := Nat.exists_eq_add_of_lt h
      rw [List.flatMap_cons, List.append_assoc]
      exact stringTail_escapeChar c (ih (by rw [List.length_cons]; omega))

theorem escapeChar_ne_nil (c : Char) : escapeChar c ≠ [] := by
  unfold escapeChar
  split
  any_goals exact List.cons_ne_nil _ _
  split <;> exact List.cons_ne_nil _ _

theorem length_le_length_flatMap (text : List Char) :
    text.length ≤ (text.flatMap escapeChar).length := by
  induction text with
  | nil => exact Nat.le_refl 0
  | cons c text ih =>
      have := List.length_pos_iff.2 (escapeChar_ne_nil c)
      rw [List.flatMap_cons, List.length_append, List.length_cons]
      omega

theorem stringBody_flatMap (text : String) (rest : List Char) :
    stringBody (text.toList.flatMap escapeChar ++ '"' :: rest) = .ok (text, rest) := by
  have hlength := length_le_length_flatMap text.toList
  refine (map_of_ok (stringTail_flatMap text.toList rest ?_) String.ofList).trans ?_
  · rw [List.length_append]
    omega
  · rw [String.ofList_toList]

theorem reads_string (expected text : String) : Reads (string expected) (quote text) text := by
  intro rest _
  change stringBody (text.toList.flatMap escapeChar ++ ['"'] ++ rest) = _
  rw [List.append_assoc]
  exact stringBody_flatMap text rest

theorem startsValue_quote (text : String) : StartsValue (quote text) :=
  ⟨'"', rfl, .inl rfl⟩

end Strings

section Numbers

theorem isDigit_of_mem_decimal {n : Nat} {c : Char} (h : c ∈ decimal n) : c.isDigit :=
  Nat.isDigit_of_mem_toDigits (by decide) (by decide) h

theorem exists_decimal_eq_cons (n : Nat) : ∃ c cs, decimal n = c :: cs ∧ c.isDigit := by
  have hne : decimal n ≠ [] := Nat.toDigits_ne_nil
  obtain ⟨c, cs, hcons⟩ := List.exists_cons_of_ne_nil hne
  have hmem : c ∈ decimal n := by
    rw [hcons]
    exact List.mem_cons_self
  exact ⟨c, cs, hcons, isDigit_of_mem_decimal hmem⟩

theorem decimalValue_decimal (n : Nat) : decimalValue (decimal n) = n :=
  Nat.ofDigitChars_toDigits (by decide) (by decide)

theorem eq_zero_of_head?_decimal {n : Nat} (h : (decimal n).head? = some '0') : n = 0 := by
  induction n using Nat.strongRecOn with
  | ind n ih =>
      unfold decimal at h ih
      by_cases hn : n < 10
      · have hdigit : ∀ n < 10, n.digitChar = '0' → n = 0 := by decide
        rw [Nat.toDigits_of_lt_base hn] at h
        exact hdigit n hn (Option.some.inj h)
      · have hfirst : (Nat.toDigits 10 (n / 10)).head? = some '0' := by
          rw [Nat.toDigits_of_base_le (by decide) (by omega), List.head?_append] at h
          cases hcons : Nat.toDigits 10 (n / 10) with
          | nil => exact absurd hcons Nat.toDigits_ne_nil
          | cons c digits => rwa [hcons] at h
        have := ih (n / 10) (by omega) hfirst
        omega

theorem le_foldl_digits (digits : List Char) (n : Nat) :
    n ≤ digits.foldl (fun n c => 10 * n + digitValue c) n := by
  induction digits generalizing n with
  | nil => exact Nat.le_refl n
  | cons c digits ih =>
      have := ih (10 * n + digitValue c)
      rw [List.foldl_cons]
      omega

theorem significandOf_eq {digits : List Char} {n : Nat}
    (h : digits.foldl (fun n c => 10 * n + digitValue c) n < Number.unsignedLimit) :
    significandOf n digits = (digits.foldl (fun n c => 10 * n + digitValue c) n, 0) := by
  induction digits generalizing n with
  | nil => rfl
  | cons c digits ih =>
      rw [List.foldl_cons] at h ⊢
      have hnext := Nat.lt_of_le_of_lt (le_foldl_digits digits (10 * n + digitValue c)) h
      rw [significandOf, if_pos hnext, ih h]

theorem significandOf_decimal {n : Nat} (h : n < Number.unsignedLimit) :
    significandOf 0 (decimal n) = (n, 0) := by
  have hvalue := decimalValue_decimal n
  unfold decimalValue at hvalue
  rw [significandOf_eq (by rwa [hvalue]), hvalue]

theorem takeWhile_decimal (n : Nat) (h : Stops rest) :
    (decimal n ++ rest).takeWhile Char.isDigit = decimal n := by
  apply takeWhile_run
  · exact fun c hc => isDigit_of_mem_decimal hc
  · intro c hc
    rcases h c hc with rfl | rfl | rfl <;> rfl

theorem isSpace_of_isDigit {c : Char} (h : c.isDigit) : isSpace c = false := by
  have hne : ∀ d, d.isDigit = false → c ≠ d := by
    rintro d hd rfl
    rw [hd] at h
    nomatch h
  simp only [isSpace, hne ' ' rfl, hne '\n' rfl, hne '\t' rfl, hne '\r' rfl, decide_false,
    Bool.or_self]

theorem digits_decimal (n : Nat) (h : Stops rest) :
    digits (decimal n ++ rest) = .ok (decimal n, rest) := by
  change Except.ok ((decimal n ++ rest).takeWhile Char.isDigit,
    (decimal n ++ rest).drop ((decimal n ++ rest).takeWhile Char.isDigit).length) = _
  rw [takeWhile_decimal n h, List.drop_left]

theorem unsignedNumber_zero (h : Stops rest) :
    unsignedNumber false ('0' :: rest) = .ok (.integer 0, rest) := by
  rcases h.cases with rfl | ⟨rest, rfl | rfl | rfl⟩ <;> rfl

theorem unsignedNumber_decimal {n : Nat} (hn : n < Number.unsignedLimit) (h : Stops rest) :
    unsignedNumber false (decimal n ++ rest) = .ok (.integer n, rest) := by
  obtain ⟨c, cs, hcons, hdigit⟩ := exists_decimal_eq_cons n
  by_cases hzero : c = '0'
  · have hhead : (decimal n).head? = some '0' := by rw [hcons, hzero, List.head?_cons]
    obtain rfl := eq_zero_of_head?_decimal hhead
    exact unsignedNumber_zero h
  · have hpeek : peek? (decimal n ++ rest) = .ok (some c, decimal n ++ rest) := by
      rw [peek?_eq, hcons]
      rfl
    rw [unsignedNumber, bind_of_ok hpeek]
    simp only [hdigit, Bool.not_true, Bool.false_eq_true, if_false, if_neg hzero]
    rw [bind_of_ok (digits_decimal n h), bind_of_ok (peek?_eq rest)]
    simp only [hzero, decide_false, Bool.false_and, Bool.false_eq_true, if_false,
      significandOf_decimal hn]
    rcases h.cases with rfl | ⟨rest, rfl | rfl | rfl⟩ <;> rfl

theorem number_decimal {n : Nat} (hn : n < Number.unsignedLimit) (h : Stops rest) :
    number (decimal n ++ rest) = .ok (.integer n, rest) := by
  obtain ⟨c, cs, hcons, hdigit⟩ := exists_decimal_eq_cons n
  have hsign : c ≠ '-' := by
    rintro rfl
    nomatch hdigit
  have hpeek : peek? (decimal n ++ rest) = .ok (some c, decimal n ++ rest) := by
    rw [peek?_eq, hcons]
    rfl
  rw [number, bind_of_ok hpeek]
  simpa [hsign] using unsignedNumber_decimal hn h

theorem reads_natural (name : String) {n bound : Nat} (hn : n < bound)
    (hbound : bound ≤ Number.unsignedLimit) : Reads (natural name bound) (decimal n) n := by
  intro rest hrest
  obtain ⟨c, cs, hcons, hdigit⟩ := exists_decimal_eq_cons n
  have hstart : valueStart (decimal n ++ rest) = .ok (c, decimal n ++ rest) := by
    rw [hcons]
    exact valueStart_cons (isSpace_of_isDigit hdigit) _
  rw [natural, bind_of_ok hstart]
  simp only [hdigit, Bool.or_true, if_true]
  rw [bind_of_ok (number_decimal (Nat.lt_of_lt_of_le hn hbound) hrest)]
  simp only [Int.natCast_nonneg, Int.ofNat_lt, hn, and_self, if_true, Int.toNat_natCast]
  rfl

theorem startsValue_decimal (n : Nat) : StartsValue (decimal n) := by
  obtain ⟨c, cs, hcons, hdigit⟩ := exists_decimal_eq_cons n
  rw [hcons]
  exact ⟨c, rfl, .inr (.inr (.inr hdigit))⟩

end Numbers

end RuleTidy.Json.Reader
