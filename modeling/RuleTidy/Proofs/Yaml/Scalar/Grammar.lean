import Mathlib.Computability.RegularExpressions
import Mathlib.Data.Bool.AllAny
import Mathlib.Data.List.TakeWhile
import RuleTidy.Proofs.Source.Slice
import RuleTidy.Proofs.Text.Front
import RuleTidy.Yaml.Scalar.Numeral

/-! The notations of numbers as regular expressions. A text is checked by taking it apart at a sign,
at the first exponent letter and at the first point, and this finds the parts that the expressions
name. -/

namespace RuleTidy.Yaml.Grammar

open Schema Source Text

variable {text : List Char}

section Expressions

def oneOf : List Char → RegularExpression Char
  | [] => 0
  | c :: others => .char c + oneOf others

def optional (e : RegularExpression Char) : RegularExpression Char := 1 + e

def exactly : List Char → RegularExpression Char
  | [] => 1
  | c :: rest => .char c * exactly rest

def repeated (e : RegularExpression Char) : RegularExpression Char := e * e.star

variable {chars : List Char} {e f : RegularExpression Char}

theorem mem_oneOf : text ∈ (oneOf chars).matches' ↔ ∃ c ∈ chars, text = [c] := by
  induction chars with
  | nil => simp [oneOf]
  | cons c others ih =>
      have hchar : text ∈ (RegularExpression.char c).matches' ↔ text = [c] := Iff.rfl
      rw [oneOf, RegularExpression.matches'_add, Language.mem_add, ih, hchar]
      simp

theorem mem_optional : text ∈ (optional e).matches' ↔ text = [] ∨ text ∈ e.matches' := by
  rw [optional, RegularExpression.matches'_add, Language.mem_add,
    RegularExpression.matches'_epsilon, Language.mem_one]

theorem mem_mul : text ∈ (e * f).matches' ↔
    ∃ a ∈ e.matches', ∃ b ∈ f.matches', text = a ++ b := by
  rw [RegularExpression.matches'_mul, Language.mem_mul]
  simp only [eq_comm]

theorem mem_exactly {word : List Char} : text ∈ (exactly word).matches' ↔ text = word := by
  induction word generalizing text with
  | nil => rw [exactly, RegularExpression.matches'_epsilon, Language.mem_one]
  | cons c rest ih =>
      rw [exactly, mem_mul]
      constructor
      · rintro ⟨a, ha, b, hb, rfl⟩
        have hchar : a = [c] := ha
        rw [hchar, ih.1 hb]
        rfl
      · rintro rfl
        exact ⟨[c], rfl, rest, ih.2 rfl, rfl⟩

theorem mem_exactly_mul {word : List Char} :
    text ∈ (exactly word * e).matches' ↔ ∃ rest ∈ e.matches', text = word ++ rest := by
  rw [mem_mul]
  constructor
  · rintro ⟨_, hword, rest, hrest, rfl⟩
    exact ⟨rest, hrest, by rw [mem_exactly.1 hword]⟩
  · rintro ⟨rest, hrest, rfl⟩
    exact ⟨word, mem_exactly.2 rfl, rest, hrest, rfl⟩

theorem mem_oneOf_mul :
    text ∈ (oneOf chars * e).matches' ↔ ∃ c ∈ chars, ∃ rest ∈ e.matches', text = c :: rest := by
  rw [mem_mul]
  constructor
  · rintro ⟨_, hfirst, rest, hrest, rfl⟩
    obtain ⟨c, hc, rfl⟩ := mem_oneOf.1 hfirst
    exact ⟨c, hc, rest, hrest, rfl⟩
  · rintro ⟨c, hc, rest, hrest, rfl⟩
    exact ⟨[c], mem_oneOf.2 ⟨c, hc, rfl⟩, rest, hrest, rfl⟩

theorem mem_star_oneOf : text ∈ (oneOf chars).star.matches' ↔ ∀ c ∈ text, c ∈ chars := by
  rw [RegularExpression.matches'_star, Language.mem_kstar]
  constructor
  · rintro ⟨words, rfl, hwords⟩ c hc
    obtain ⟨word, hword, hc⟩ := List.mem_flatten.1 hc
    obtain ⟨d, hd, rfl⟩ := mem_oneOf.1 (hwords word hword)
    rwa [List.mem_singleton.1 hc]
  · intro h
    refine ⟨text.map ([·]), (text.flatMap_singleton').symm, fun word hword => ?_⟩
    obtain ⟨c, hc, rfl⟩ := List.mem_map.1 hword
    exact mem_oneOf.2 ⟨c, h c hc, rfl⟩

theorem mem_repeated_oneOf :
    text ∈ (repeated (oneOf chars)).matches' ↔ text ≠ [] ∧ ∀ c ∈ text, c ∈ chars := by
  rw [repeated, mem_oneOf_mul]
  constructor
  · rintro ⟨c, hc, rest, hrest, rfl⟩
    exact ⟨List.cons_ne_nil c rest, List.forall_mem_cons.2 ⟨hc, mem_star_oneOf.1 hrest⟩⟩
  · rintro ⟨hne, hall⟩
    obtain ⟨c, rest, rfl⟩ := List.exists_cons_of_ne_nil hne
    obtain ⟨hc, hrest⟩ := List.forall_mem_cons.1 hall
    exact ⟨c, hc, rest, mem_star_oneOf.2 hrest, rfl⟩

end Expressions

section Notation

def decimalDigits : List Char := ['0', '1', '2', '3', '4', '5', '6', '7', '8', '9']

def digit : RegularExpression Char := oneOf decimalDigits

def sign : RegularExpression Char := oneOf ['-', '+']

def point : RegularExpression Char := exactly ['.']

def decimalInt : RegularExpression Char := optional sign * repeated digit

def mantissa : RegularExpression Char :=
  point * repeated digit + repeated digit * optional (point * digit.star)

def exponent : RegularExpression Char := oneOf ['e', 'E'] * (optional sign * repeated digit)

/-- The expression `[-+]?(\.[0-9]+|[0-9]+(\.[0-9]*)?)([eE][-+]?[0-9]+)?`. -/
def decimalFloat : RegularExpression Char := optional sign * (mantissa * optional exponent)

end Notation

section Digits

theorem of_toNat_lt {P : Char → Prop} {bound : Nat} (h : ∀ n < bound, P (Char.ofNat n)) {c : Char}
    (hc : c.toNat < bound) : P c := by
  rw [← Char.ofNat_toNat c]
  exact h c.toNat hc

theorem toNat_lt_of_isDigit {c : Char} (h : c.isDigit = true) : c.toNat < 58 := by
  simp only [Char.isDigit, Bool.and_eq_true, decide_eq_true_eq] at h
  exact Nat.lt_succ_of_le (UInt32.le_iff_toNat_le.1 h.2)

theorem isDigit_iff {c : Char} : c.isDigit = true ↔ c ∈ decimalDigits := by
  constructor
  · intro h
    have hdigits : ∀ n < 58, (Char.ofNat n).isDigit = true → Char.ofNat n ∈ decimalDigits := by
      decide
    have hlt := toNat_lt_of_isDigit h
    revert h
    exact of_toNat_lt (P := fun d => d.isDigit = true → d ∈ decimalDigits) hdigits hlt
  · intro h
    exact List.all_eq_true.1 (by decide : decimalDigits.all Char.isDigit = true) c h

theorem isDigits_iff : isDigits text = true ↔ ∀ c ∈ text, c ∈ decimalDigits := by
  simp only [isDigits, List.all_eq_true, isDigit_iff]

theorem mem_digits : text ∈ (repeated digit).matches' ↔ text ≠ [] ∧ isDigits text = true := by
  rw [digit, mem_repeated_oneOf, isDigits_iff]

end Digits

section Signs

inductive Sign where
  | none
  | plus
  | minus

namespace Sign

def chars : Sign → List Char
  | .none => []
  | .plus => ['+']
  | .minus => ['-']

def negative : Sign → Bool
  | .minus => true
  | _ => false

end Sign

theorem mem_sign : text ∈ (optional sign).matches' ↔ ∃ s : Sign, text = s.chars := by
  rw [mem_optional, sign, mem_oneOf]
  constructor
  · rintro (rfl | ⟨c, hc, rfl⟩)
    · exact ⟨.none, rfl⟩
    · rcases List.mem_pair.1 hc with rfl | rfl
      · exact ⟨.minus, rfl⟩
      · exact ⟨.plus, rfl⟩
  · rintro ⟨_ | _ | _, rfl⟩
    · exact .inl rfl
    · exact .inr ⟨'+', by simp, rfl⟩
    · exact .inr ⟨'-', by simp, rfl⟩

def Unsigned (text : List Char) : Prop := ∀ c, text.head? = some c → c ≠ '-' ∧ c ≠ '+'

theorem splitSign_append (s : Sign) (h : Unsigned text) :
    splitSign (s.chars ++ text) = (s.negative, text) := by
  cases s with
  | plus => rfl
  | minus => rfl
  | none =>
      change splitSign text = (false, text)
      unfold splitSign
      split
      · exact absurd rfl (h '-' rfl).1
      · exact absurd rfl (h '+' rfl).2
      · rfl

theorem exists_sign (text : List Char) :
    ∃ s : Sign, text = s.chars ++ (splitSign text).2 ∧ (splitSign text).1 = s.negative := by
  unfold splitSign
  split
  · exact ⟨.minus, rfl, rfl⟩
  · exact ⟨.plus, rfl, rfl⟩
  · exact ⟨.none, rfl, rfl⟩

theorem mem_signed {e : RegularExpression Char} (he : ∀ rest ∈ e.matches', Unsigned rest) :
    text ∈ (optional sign * e).matches' ↔ (splitSign text).2 ∈ e.matches' := by
  rw [mem_mul]
  constructor
  · rintro ⟨_, hsign, rest, hrest, rfl⟩
    obtain ⟨s, rfl⟩ := mem_sign.1 hsign
    rwa [splitSign_append s (he rest hrest)]
  · intro h
    obtain ⟨s, htext, -⟩ := exists_sign text
    exact ⟨s.chars, mem_sign.2 ⟨s, rfl⟩, _, h, htext⟩

theorem unsigned_of_forall {chars : List Char} (hchars : chars.all (· ∉ ['-', '+']) = true)
    (h : ∀ c ∈ text, c ∈ chars) : Unsigned text := by
  intro c hhead
  have hc : c ∉ ['-', '+'] := List.all_iff_forall_prop.1 hchars c (h c (List.mem_of_head? hhead))
  simpa using hc

theorem isDecimalInt_iff : isDecimalInt text = true ↔ text ∈ decimalInt.matches' := by
  have hunsigned : ∀ rest ∈ (repeated digit).matches', Unsigned rest := fun rest hrest =>
    unsigned_of_forall (by decide) (mem_repeated_oneOf.1 hrest).2
  rw [decimalInt, mem_signed hunsigned, mem_digits, isDecimalInt]
  simp

end Signs

section Parts

variable {before rest : List Char}

theorem takeWhile_append_cons {p : Char → Bool} {c : Char} (hbefore : ∀ d ∈ before, p d = true)
    (hc : p c = false) (rest : List Char) :
    (before ++ c :: rest).takeWhile p = before ∧ (before ++ c :: rest).dropWhile p = c :: rest :=
  have hrest : ∀ d ∈ (c :: rest).head?, p d = false := by simpa using hc
  ⟨takeWhile_run hbefore hrest, dropWhile_run hbefore hrest⟩

theorem splitPoint_append (h : '.' ∉ before) :
    splitPoint (before ++ '.' :: rest) = (before, some rest) := by
  obtain ⟨htake, hdrop⟩ := takeWhile_append_cons (p := (· ≠ '.')) (c := '.')
    (fun d hd => by simpa using fun heq : d = '.' => h (heq ▸ hd)) rfl rest
  rw [splitPoint, hdrop, htake]

theorem splitPoint_of_not_mem (h : '.' ∉ text) : splitPoint text = (text, none) := by
  have hdrop : text.dropWhile (· ≠ '.') = [] :=
    List.dropWhile_eq_nil_iff.2 fun d hd => by simpa using fun heq : d = '.' => h (heq ▸ hd)
  rw [splitPoint, hdrop]

theorem isExponentLetter_iff {c : Char} :
    Numeral.isExponentLetter c = true ↔ c ∈ ['e', 'E'] := by
  simp [Numeral.isExponentLetter]

theorem splitExponent_append {c : Char} (hc : c ∈ ['e', 'E'])
    (hbefore : ∀ d ∈ before, d ∉ ['e', 'E']) :
    splitExponent (before ++ c :: rest) = (before, some rest) := by
  obtain ⟨htake, hdrop⟩ := takeWhile_append_cons (p := fun d => d ≠ 'e' && d ≠ 'E') (c := c)
    (fun d hd => by simpa using hbefore d hd)
    (by rcases List.mem_pair.1 hc with rfl | rfl <;> rfl) rest
  rw [splitExponent, hdrop, htake]

theorem splitExponent_of_forall (h : ∀ d ∈ text, d ∉ ['e', 'E']) :
    splitExponent text = (text, none) := by
  have hdrop : text.dropWhile (fun d => d ≠ 'e' && d ≠ 'E') = [] :=
    List.dropWhile_eq_nil_iff.2 fun d hd => by simpa using h d hd
  rw [splitExponent, hdrop]

theorem exponent_cases (text : List Char) :
    (∀ d ∈ text, d ∉ ['e', 'E']) ∨ ∃ before c rest, text = before ++ c :: rest ∧ c ∈ ['e', 'E'] ∧
      ∀ d ∈ before, d ∉ ['e', 'E'] := by
  cases hfind : text.find? Numeral.isExponentLetter with
  | none =>
      exact .inl fun d hd => mt isExponentLetter_iff.2 (List.find?_eq_none.1 hfind d hd)
  | some c =>
      obtain ⟨hc, before, rest, htext, hbefore⟩ := List.find?_eq_some_iff_append.1 hfind
      refine .inr ⟨before, c, rest, htext, isExponentLetter_iff.1 hc, fun d hd hmem => ?_⟩
      have hnot := hbefore d hd
      rw [isExponentLetter_iff.2 hmem] at hnot
      cases hnot

theorem cutExponent_eq (text : List Char) : Numeral.cutExponent text = splitExponent text := by
  rcases exponent_cases text with hnone | ⟨before, c, rest, rfl, hc, hbefore⟩
  · rw [splitExponent_of_forall hnone, Numeral.cutExponent, firstOffset?_eq_none]
    exact fun d hd => Bool.eq_false_iff.2 (mt isExponentLetter_iff.1 (hnone d hd))
  · have hsize : Utf8.byteLength before + 1 = Utf8.byteLength (before ++ [c]) := by
      rcases List.mem_pair.1 hc with rfl | rfl <;> rw [byteLength_append] <;> rfl
    rw [splitExponent_append hc hbefore, Numeral.cutExponent, firstOffset?_append
      (fun d hd => Bool.eq_false_iff.2 (mt isExponentLetter_iff.1 (hbefore d hd)))
      (isExponentLetter_iff.2 hc)]
    dsimp only
    rw [takeBytes?_byteLength, hsize, List.append_cons, LineIndex.dropBytes?_byteLength]
    rfl

theorem isDecimalFloat_eq_and (text : List Char) :
    isDecimalFloat text = (isMantissa (splitExponent (splitSign text).2).1 &&
      (splitExponent (splitSign text).2).2.all isDecimalInt) := by
  rw [isDecimalFloat]
  cases splitExponent (splitSign text).2 with
  | mk mantissa exponent => cases exponent <;> simp

theorem isDecimalFloat_eq (text : List Char) :
    Numeral.isDecimalFloat text = isDecimalFloat text := by
  rw [Numeral.isDecimalFloat, cutExponent_eq, isDecimalFloat_eq_and]

end Parts

section Floats

theorem mem_mantissa : text ∈ mantissa.matches' ↔
    (∃ fraction ∈ (repeated digit).matches', text = '.' :: fraction) ∨
      ∃ whole ∈ (repeated digit).matches', text = whole ∨
        ∃ fraction, isDigits fraction = true ∧ text = whole ++ '.' :: fraction := by
  have hpoint : ∀ {e : RegularExpression Char} {text : List Char},
      text ∈ (point * e).matches' ↔ ∃ fraction ∈ e.matches', text = '.' :: fraction :=
    mem_exactly_mul
  have hstar : ∀ fraction : List Char, fraction ∈ digit.star.matches' ↔ isDigits fraction = true :=
    fun fraction => mem_star_oneOf.trans isDigits_iff.symm
  rw [mantissa, RegularExpression.matches'_add, Language.mem_add, hpoint, mem_mul]
  refine or_congr Iff.rfl (exists_congr fun whole => and_congr_right fun _ => ?_)
  simp only [mem_optional, hpoint, hstar]
  constructor
  · rintro ⟨_, rfl | ⟨fraction, hfraction, rfl⟩, rfl⟩
    · exact .inl (List.append_nil whole)
    · exact .inr ⟨fraction, hfraction, rfl⟩
  · rintro (rfl | ⟨fraction, hfraction, rfl⟩)
    · exact ⟨[], .inl rfl, (List.append_nil text).symm⟩
    · exact ⟨_, .inr ⟨fraction, hfraction, rfl⟩, rfl⟩

theorem point_not_mem (h : isDigits text = true) : '.' ∉ text :=
  fun hmem => absurd (isDigits_iff.1 h '.' hmem) (by decide)

theorem isMantissa_iff : isMantissa text = true ↔ text ∈ mantissa.matches' := by
  rw [mem_mantissa]
  constructor
  · intro h
    rw [isMantissa] at h
    by_cases hmem : '.' ∈ text
    · obtain ⟨whole, fraction, rfl, hwhole⟩ := List.eq_append_cons_of_mem hmem
      rw [splitPoint_append hwhole] at h
      simp only [Bool.and_eq_true, Bool.not_eq_true', Bool.and_eq_false_iff] at h
      obtain ⟨⟨hdigits, hfraction⟩, hsome⟩ := h
      cases whole with
      | nil =>
          have hne : fraction ≠ [] := by
            rintro rfl
            simp at hsome
          exact .inl ⟨fraction, mem_digits.2 ⟨hne, hfraction⟩, rfl⟩
      | cons c whole =>
          exact .inr ⟨_, mem_digits.2 ⟨List.cons_ne_nil c whole, hdigits⟩,
            .inr ⟨fraction, hfraction, rfl⟩⟩
    · rw [splitPoint_of_not_mem hmem] at h
      simp only [Bool.and_eq_true, Bool.not_eq_true', List.isEmpty_eq_false_iff] at h
      exact .inr ⟨text, mem_digits.2 h, .inl rfl⟩
  · rintro (⟨fraction, hfraction, rfl⟩ | ⟨whole, hwhole, rfl | ⟨fraction, hfraction, rfl⟩⟩)
    · obtain ⟨hne, hdigits⟩ := mem_digits.1 hfraction
      have hsplit : splitPoint ('.' :: fraction) = ([], some fraction) := rfl
      have hempty : isDigits [] = true := rfl
      simp [isMantissa, hsplit, hempty, hdigits, hne]
    · obtain ⟨hne, hdigits⟩ := mem_digits.1 hwhole
      simp [isMantissa, splitPoint_of_not_mem (point_not_mem hdigits), hdigits, hne]
    · obtain ⟨hne, hdigits⟩ := mem_digits.1 hwhole
      simp [isMantissa, splitPoint_append (point_not_mem hdigits), hdigits, hfraction, hne]

theorem mem_cons_point (h : isDigits text = true) : ∀ c ∈ '.' :: text, c ∈ '.' :: decimalDigits :=
  fun _ hc => (List.mem_cons.1 hc).elim (fun heq => heq ▸ List.mem_cons_self)
    fun hc => List.mem_cons_of_mem _ (isDigits_iff.1 h _ hc)

theorem chars_of_mem_mantissa (h : text ∈ mantissa.matches') :
    text ≠ [] ∧ ∀ c ∈ text, c ∈ '.' :: decimalDigits := by
  rcases mem_mantissa.1 h with
    ⟨fraction, hfraction, rfl⟩ | ⟨whole, hwhole, rfl | ⟨fraction, hfraction, rfl⟩⟩
  · exact ⟨List.cons_ne_nil _ _, mem_cons_point (mem_digits.1 hfraction).2⟩
  · obtain ⟨hne, hdigits⟩ := mem_digits.1 hwhole
    exact ⟨hne, fun c hc => mem_cons_point hdigits c (List.mem_cons_of_mem _ hc)⟩
  · obtain ⟨-, hdigits⟩ := mem_digits.1 hwhole
    refine ⟨List.append_ne_nil_of_right_ne_nil _ (List.cons_ne_nil _ _), fun c hc => ?_⟩
    rcases List.mem_append.1 hc with hc | hc
    · exact mem_cons_point hdigits c (List.mem_cons_of_mem _ hc)
    · exact mem_cons_point hfraction c hc

theorem mem_exponent : text ∈ exponent.matches' ↔
    ∃ c ∈ ['e', 'E'], ∃ rest ∈ decimalInt.matches', text = c :: rest := mem_oneOf_mul

theorem mem_body {body : List Char} : body ∈ (mantissa * optional exponent).matches' ↔
    isMantissa (splitExponent body).1 = true ∧ (splitExponent body).2.all isDecimalInt = true := by
  have hletters : ∀ {m : List Char}, m ∈ mantissa.matches' → ∀ d ∈ m, d ∉ ['e', 'E'] := by
    intro m hm d hd
    have hchars : ∀ c ∈ '.' :: decimalDigits, c ∉ ['e', 'E'] :=
      List.all_iff_forall_prop.1 (by decide)
    exact hchars d ((chars_of_mem_mantissa hm).2 d hd)
  rw [mem_mul]
  constructor
  · rintro ⟨m, hm, e, he, rfl⟩
    rcases mem_optional.1 he with rfl | he
    · rw [List.append_nil, splitExponent_of_forall (hletters hm)]
      exact ⟨isMantissa_iff.2 hm, rfl⟩
    · obtain ⟨c, hc, rest, hrest, rfl⟩ := mem_exponent.1 he
      rw [splitExponent_append hc (hletters hm)]
      exact ⟨isMantissa_iff.2 hm, isDecimalInt_iff.2 hrest⟩
  · rintro ⟨hm, he⟩
    rcases exponent_cases body with hnone | ⟨m, c, rest, rfl, hc, hbefore⟩
    · rw [splitExponent_of_forall hnone] at hm
      exact ⟨body, isMantissa_iff.1 hm, [], mem_optional.2 (.inl rfl), (List.append_nil body).symm⟩
    · rw [splitExponent_append hc hbefore] at hm he
      exact ⟨m, isMantissa_iff.1 hm, c :: rest,
        mem_optional.2 (.inr (mem_exponent.2 ⟨c, hc, rest, isDecimalInt_iff.1 he, rfl⟩)), rfl⟩

theorem unsigned_of_mem_body {body : List Char} (h : body ∈ (mantissa * optional exponent).matches') :
    Unsigned body := by
  obtain ⟨m, hm, e, -, rfl⟩ := mem_mul.1 h
  obtain ⟨hne, hchars⟩ := chars_of_mem_mantissa hm
  have hunsigned : Unsigned m := unsigned_of_forall (by decide) hchars
  rwa [Unsigned, List.head?_append_of_ne_nil _ hne]

theorem isDecimalFloat_iff : isDecimalFloat text = true ↔ text ∈ decimalFloat.matches' := by
  rw [decimalFloat, mem_signed fun _ => unsigned_of_mem_body, mem_body, isDecimalFloat_eq_and,
    Bool.and_eq_true]

/-- The texts that are taken for decimal numbers with a point or an exponent are those of the
expression. Cut at offsets in bytes, they come apart in the same way. -/
theorem isDecimalFloat_iff_matches (text : String) :
    (isDecimalFloat text.toList = true ↔ text.toList ∈ decimalFloat.matches') ∧
      Numeral.isDecimalFloat text.toList = isDecimalFloat text.toList :=
  ⟨isDecimalFloat_iff, isDecimalFloat_eq text.toList⟩

end Floats

end RuleTidy.Yaml.Grammar
