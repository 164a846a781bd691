import Mathlib.Data.Nat.Digits.Defs
import RuleTidy.Proofs.Yaml.Scalar.Grammar

/-! Whole numbers have the value that their digits denote, or they are no numbers. Reading in
sixty-four bits refuses exactly what does not fit, however many digits there are. -/

namespace RuleTidy.Yaml

open Grammar Schema Text

section Denoted

def digitOf (c : Char) : Nat :=
  (decimalDigits ++ ['a', 'b', 'c', 'd', 'e', 'f']).idxOf c.toLower

def denoted (base : Nat) (digits : List Char) : Nat :=
  Nat.ofDigits base (digits.map digitOf).reverse

/-- The bases of whole numbers. -/
inductive Base where
  | octal
  | decimal
  | hexadecimal
  deriving DecidableEq

namespace Base

def size : Base → Nat
  | octal => 8
  | decimal => 10
  | hexadecimal => 16

def digits : Base → List Char
  | octal => ['0', '1', '2', '3', '4', '5', '6', '7']
  | decimal => decimalDigits
  | hexadecimal =>
    decimalDigits ++ ['a', 'b', 'c', 'd', 'e', 'f'] ++ ['A', 'B', 'C', 'D', 'E', 'F']

def lead : Base → List Char
  | octal => ['0', 'o']
  | decimal => []
  | hexadecimal => ['0', 'x']

theorem size_pos (b : Base) : 0 < b.size := by cases b <;> decide

end Base

namespace Grammar.Sign

def value : Sign → Nat → Int
  | minus, n => -n
  | _, n => n

theorem value_eq (s : Sign) (n : Nat) : s.value n = if s.negative then -(n : Int) else n := by
  cases s <;> rfl

end Grammar.Sign

theorem denoted_concat (base : Nat) (digits : List Char) (c : Char) :
    denoted base (digits ++ [c]) = base * denoted base digits + digitOf c := by
  rw [denoted, List.map_append, List.reverse_append]
  exact Nat.ofDigits_cons.trans (Nat.add_comm _ _)

theorem toNat_lt_of_hexValue? {c : Char} (h : hexValue? c ≠ none) : c.toNat < 128 := by
  refine Nat.lt_of_not_le fun hle => h ?_
  have hgreater : ∀ d : Char, d.toNat < 128 → ¬c ≤ d := fun d hd hcd =>
    absurd (UInt32.le_iff_toNat_le.1 hcd) (Nat.not_le.2 (Nat.lt_of_lt_of_le hd hle))
  have hdigit : c.isDigit = false := by
    refine Bool.eq_false_iff.2 fun hdigit => ?_
    have hlt := toNat_lt_of_isDigit hdigit
    omega
  simp [hexValue?, hdigit, hgreater 'f' (by decide), hgreater 'F' (by decide)]

theorem radixDigit?_size (b : Base) (c : Char) :
    radixDigit? b.size c = if c ∈ b.digits then some (digitOf c) else none := by
  by_cases hc : c.toNat < 128
  · have hall : ∀ n < 128, radixDigit? b.size (Char.ofNat n) =
        if Char.ofNat n ∈ b.digits then some (digitOf (Char.ofNat n)) else none := by
      cases b <;> decide +kernel
    exact of_toNat_lt (P := fun d => radixDigit? b.size d =
      if d ∈ b.digits then some (digitOf d) else none) hall hc
  · have hnone : hexValue? c = none := Decidable.byContradiction fun h => hc (toNat_lt_of_hexValue? h)
    have hdigits : ∀ d ∈ b.digits, d.toNat < 128 := by
      cases b <;> exact List.all_iff_forall_prop.1 (by decide)
    rw [radixDigit?, hnone, if_neg fun hmem => hc (hdigits c hmem)]
    rfl

theorem radixValue?_concat (base : Nat) (digits : List Char) (c : Char) :
    radixValue? base (digits ++ [c]) =
      do return base * (← radixValue? base digits) + (← radixDigit? base c) := by
  rw [radixValue?, List.foldl_append]
  rfl

theorem radixValue?_size (b : Base) (digits : List Char) :
    radixValue? b.size digits =
      if digits.all (· ∈ b.digits) then some (denoted b.size digits) else none := by
  induction digits using List.reverseRecOn with
  | nil => simp [radixValue?, denoted]
  | append_singleton digits c ih =>
      rw [radixValue?_concat, ih, radixDigit?_size, denoted_concat, List.all_append]
      by_cases hdigits : digits.all (· ∈ b.digits) = true
      · by_cases hc : c ∈ b.digits <;> simp [hdigits, hc]
      · simp [hdigits]

end Denoted

section Read

open Numeral

variable {bits : Bits} {base : Nat} {s : Sign} {digits text : List Char} {m n : Nat}

theorem check?_eq (bits : Bits) (k : Int) :
    bits.check? k = if bits.least ≤ k ∧ k < bits.limit then some k else none := by
  simp [Bits.check?]

theorem signed_check? (k : Int) :
    Bits.signed.check? k = if -2 ^ 63 ≤ k ∧ k < 2 ^ 63 then some k else none := by
  have hleast : Bits.signed.least = -2 ^ 63 := by decide
  have hlimit : Bits.signed.limit = 2 ^ 63 := by decide
  rw [check?_eq, hleast, hlimit]

theorem unsigned_check? (k : Int) :
    Bits.unsigned.check? k = if 0 ≤ k ∧ k < 2 ^ 64 then some k else none := by
  have hlimit : Bits.unsigned.limit = 2 ^ 64 := by decide
  rw [check?_eq, hlimit]
  rfl

theorem eq_of_check?_eq_some {k l : Int} (h : bits.check? k = some l) : l = k := by
  rw [check?_eq] at h
  split at h
  · exact (Option.some.inj h).symm
  · cases h

theorem check?_zero (bits : Bits) : bits.check? 0 = some 0 := by cases bits <;> decide

theorem check?_eq_none_of_le (hle : m ≤ n) (h : bits.check? (s.value m) = none) :
    bits.check? (s.value n) = none := by
  have hleast : bits.least ≤ 0 := by cases bits <;> decide
  have hlimit : 0 < bits.limit := by cases bits <;> decide
  rw [check?_eq, if_neg]
  intro hfits
  have hfits' : bits.least ≤ s.value m ∧ s.value m < bits.limit := by
    cases s <;> simp only [Sign.value] at hfits ⊢ <;> omega
  rw [check?_eq, if_pos hfits'] at h
  cases h

theorem push?_value (c : Char) :
    bits.push? base s.negative (s.value m) c =
      (radixDigit? base c).bind fun d => bits.check? (s.value (base * m + d)) := by
  have hscaled : s.value m * base = s.value (base * m) := by
    cases s <;> simp [Sign.value, Int.mul_comm]
  have hsum : ∀ d : Nat, (if s.negative then s.value (base * m) - d
      else s.value (base * m) + d) = s.value (base * m + d) := by
    intro d
    cases s <;> simp [Sign.value, Sign.negative]
    omega
  rw [Bits.push?, hscaled]
  cases radixDigit? base c with
  | none => rfl
  | some d =>
      simp only [Option.bind_eq_bind, Option.bind_some]
      cases hcheck : bits.check? (s.value (base * m)) with
      | none => exact (check?_eq_none_of_le (Nat.le_add_right _ d) hcheck).symm
      | some k =>
          obtain rfl := eq_of_check?_eq_some hcheck
          rw [Option.bind_some, hsum]

theorem foldlM_push? (hbase : 0 < base) (digits : List Char) :
    digits.foldlM (bits.push? base s.negative) 0 =
      (radixValue? base digits).bind fun n => bits.check? (s.value n) := by
  induction digits using List.reverseRecOn with
  | nil => cases s <;> exact (check?_zero bits).symm
  | append_singleton digits c ih =>
      rw [List.foldlM_append, ih, radixValue?_concat]
      cases radixValue? base digits with
      | none => rfl
      | some m =>
          simp only [Option.bind_some, Option.bind_eq_bind, List.foldlM_cons, List.foldlM_nil]
          cases hcheck : bits.check? (s.value m) with
          | some k =>
              obtain rfl := eq_of_check?_eq_some hcheck
              simp [push?_value, Option.bind_assoc]
          | none =>
              cases radixDigit? base c with
              | none => rfl
              | some d =>
                  have hle : m ≤ base * m + d :=
                    Nat.le_trans (Nat.le_mul_of_pos_left m hbase) (Nat.le_add_right _ d)
                  exact (check?_eq_none_of_le hle hcheck).symm

theorem read?_of_splitSign (hbase : 0 < base)
    (hsplit : bits.splitSign text = (s.negative, digits)) :
    bits.read? base text =
      if digits = [] then none
      else (radixValue? base digits).bind fun n => bits.check? (s.value n) := by
  rw [Bits.read?, hsplit]
  simp only [foldlM_push? hbase, List.isEmpty_iff]

theorem unsigned_splitSign (h : text.head? ≠ some '-') :
    Bits.unsigned.splitSign text = splitSign text := by
  unfold Bits.splitSign
  split
  · exact absurd rfl h
  · rfl

theorem signed_splitSign (text : List Char) : Bits.signed.splitSign text = splitSign text := by
  cases text <;> rfl

theorem exists_signed_splitSign (text : List Char) :
    ∃ s : Sign, text = s.chars ++ (splitSign text).2 ∧
      Bits.signed.splitSign text = (s.negative, (splitSign text).2) := by
  obtain ⟨s, htext, hnegative⟩ := exists_sign text
  exact ⟨s, htext, by rw [signed_splitSign, ← hnegative]⟩

theorem signed_read?_eq (hbase : 0 < base) (text : List Char) :
    Bits.signed.read? base text = radixInt? base text := by
  obtain ⟨s, -, hsplit⟩ := exists_signed_splitSign text
  rw [read?_of_splitSign hbase hsplit, radixInt?, ← signed_splitSign, hsplit]
  simp only [List.isEmpty_iff, ← Sign.value_eq]
  rfl

structure IsNumeral (b : Base) (digits : List Char) : Prop where
  nonempty : digits ≠ []
  mem : ∀ c ∈ digits, c ∈ b.digits

variable {b : Base}

instance : Decidable (IsNumeral b digits) :=
  decidable_of_iff (digits ≠ [] ∧ digits.all (· ∈ b.digits) = true)
    ⟨fun h => ⟨h.1, List.all_iff_forall_prop.1 h.2⟩,
      fun h => ⟨h.nonempty, List.all_iff_forall_prop.2 h.mem⟩⟩

theorem IsNumeral.unsigned (h : IsNumeral b digits) : Unsigned digits :=
  unsigned_of_forall (by cases b <;> decide) h.mem

theorem IsNumeral.radixValue?_eq (h : IsNumeral b digits) :
    radixValue? b.size digits = some (denoted b.size digits) := by
  rw [radixValue?_size, if_pos (List.all_iff_forall_prop.2 h.mem)]

theorem IsNumeral.read?_of_splitSign (h : IsNumeral b digits)
    (hsplit : bits.splitSign text = (s.negative, digits)) :
    bits.read? b.size text = bits.check? (s.value (denoted b.size digits)) := by
  rw [Yaml.read?_of_splitSign b.size_pos hsplit, if_neg h.nonempty, h.radixValue?_eq,
    Option.bind_some]

theorem IsNumeral.signed_read? (h : IsNumeral b digits) (s : Sign) :
    Bits.signed.read? b.size (s.chars ++ digits) =
      Bits.signed.check? (s.value (denoted b.size digits)) :=
  h.read?_of_splitSign (by rw [signed_splitSign, splitSign_append s h.unsigned])

theorem IsNumeral.unsigned_read? (h : IsNumeral b digits) (s : Sign) :
    Bits.unsigned.read? b.size (s.chars ++ digits) =
      if s.negative then none else Bits.unsigned.check? (s.value (denoted b.size digits)) := by
  have hhead : digits.head? ≠ some '-' := fun hhead => (h.unsigned _ hhead).1 rfl
  cases s with
  | none =>
      have hsplit : Bits.unsigned.splitSign (Sign.none.chars ++ digits) =
          (Sign.none.negative, digits) :=
        (unsigned_splitSign hhead).trans (splitSign_append .none h.unsigned)
      rw [h.read?_of_splitSign hsplit, if_neg (by decide)]
  | plus =>
      have hsplit : Bits.unsigned.splitSign (Sign.plus.chars ++ digits) =
          (Sign.plus.negative, digits) := rfl
      rw [h.read?_of_splitSign hsplit, if_neg (by decide)]
  | minus =>
      -- the minus stays and is no digit
      have hminus : '-' ∉ b.digits := by cases b <;> decide
      have hsplit : Bits.unsigned.splitSign (Sign.minus.chars ++ digits) =
          (Sign.none.negative, '-' :: digits) := rfl
      rw [Yaml.read?_of_splitSign b.size_pos hsplit, if_neg (List.cons_ne_nil _ _),
        radixValue?_size, if_neg fun hall => hminus
          (List.all_iff_forall_prop.1 hall '-' List.mem_cons_self), if_pos (by decide)]
      rfl

theorem IsNumeral.read?_or_read? (h : IsNumeral b digits) (s : Sign) :
    (Bits.signed.read? b.size (s.chars ++ digits)).or
        (Bits.unsigned.read? b.size (s.chars ++ digits)) =
      if -2 ^ 63 ≤ s.value (denoted b.size digits) ∧ s.value (denoted b.size digits) < 2 ^ 64 then
        some (s.value (denoted b.size digits))
      else none := by
  rw [h.signed_read?, h.unsigned_read?, signed_check?, unsigned_check?, Sign.value_eq]
  cases s.negative with
  | true =>
      simp only [if_true, Option.or_none]
      exact if_congr (by omega) rfl rfl
  | false =>
      simp only [Bool.false_eq_true, if_false]
      by_cases hsmall : (denoted b.size digits : Int) < 2 ^ 63
      · rw [if_pos (by omega), Option.some_or, if_pos (by omega)]
      · rw [if_neg (by omega), Option.none_or]
        exact if_congr (by omega) rfl rfl

end Read

section Number

variable {b : Base} {digits text : List Char}

theorem isDecimalInt_of_isNumeral (h : IsNumeral .decimal digits) (s : Sign) :
    isDecimalInt (s.chars ++ digits) = true := by
  rw [isDecimalInt, splitSign_append s h.unsigned]
  simp [h.nonempty, isDigits_iff.2 h.mem]

theorem exists_of_isDecimalInt (h : isDecimalInt text = true) :
    ∃ (s : Sign) (digits : List Char), IsNumeral .decimal digits ∧ text = s.chars ++ digits := by
  obtain ⟨s, htext, -⟩ := exists_sign text
  simp only [isDecimalInt, Bool.and_eq_true, Bool.not_eq_true', List.isEmpty_eq_false_iff] at h
  exact ⟨s, _, ⟨h.1, isDigits_iff.1 h.2⟩, htext⟩

theorem decimalValue_eq_denoted (h : ∀ c ∈ digits, c ∈ decimalDigits) :
    decimalValue digits = denoted 10 digits := by
  induction digits using List.reverseRecOn with
  | nil => rfl
  | append_singleton digits c ih =>
      have hdigit : ∀ d ∈ decimalDigits, digitValue d = digitOf d :=
        List.all_iff_forall_prop.1 (by decide)
      rw [decimalValue_append, denoted_concat, ih fun d hd => h d (List.mem_append_left _ hd),
        hdigit c (h c (by simp))]

theorem ofInt?_eq (n : Int) :
    Number.ofInt? n = if -2 ^ 63 ≤ n ∧ n < 2 ^ 64 then some (.integer n) else none := by
  have hleast : (Number.signedLimit : Int) = 2 ^ 63 := by decide
  have hlimit : (Number.unsignedLimit : Int) = 2 ^ 64 := by decide
  simp [Number.ofInt?, Number.fits, hleast, hlimit]

theorem number?_of_ne (hoctal : ∀ rest, text ≠ '0' :: 'o' :: rest)
    (hhexadecimal : ∀ rest, text ≠ '0' :: 'x' :: rest) :
    number? text =
      if isDecimalInt text then
        Number.ofInt? (if (splitSign text).1 then -(decimalValue (splitSign text).2 : Int)
          else decimalValue (splitSign text).2)
      else if isDecimalFloat text then (floatValue? text).map .real
      else none := by
  unfold number?
  split
  · exact absurd rfl (hoctal _)
  · exact absurd rfl (hhexadecimal _)
  · rfl

theorem number?_decimal (h : IsNumeral .decimal digits) (s : Sign) :
    number? (s.chars ++ digits) =
      if -2 ^ 63 ≤ s.value (denoted 10 digits) ∧ s.value (denoted 10 digits) < 2 ^ 64 then
        some (.integer (s.value (denoted 10 digits)))
      else none := by
  have hint := isDecimalInt_of_isNumeral h s
  have hne : ∀ c rest, c ∉ decimalDigits → s.chars ++ digits ≠ '0' :: c :: rest := by
    intro c rest hc heq
    have hsplit : (splitSign ('0' :: c :: rest)).2 = '0' :: c :: rest := rfl
    rw [heq, isDecimalInt, hsplit, Bool.and_eq_true_iff, isDigits_iff] at hint
    exact hc (hint.2 c (List.mem_cons_of_mem _ List.mem_cons_self))
  rw [number?_of_ne (fun rest => hne 'o' rest (by decide)) (fun rest => hne 'x' rest (by decide)),
    if_pos hint, splitSign_append s h.unsigned]
  dsimp only
  rw [decimalValue_eq_denoted h.mem, ofInt?_eq, ← Sign.value_eq]

theorem number?_eq (text : List Char) : Numeral.number? text = number? text := by
  unfold Numeral.number?
  split
  case h_1 digits =>
    rw [signed_read?_eq (by decide)]
    rfl
  case h_2 digits =>
    rw [signed_read?_eq (by decide)]
    rfl
  case h_3 hoctal hhexadecimal =>
    split
    case isTrue hint =>
      obtain ⟨s, digits, hdigits, rfl⟩ := exists_of_isDecimalInt hint
      have hread := hdigits.read?_or_read? s
      rw [Base.size] at hread
      rw [number?_decimal hdigits, hread]
      split <;> rfl
    case isFalse hint =>
      rw [number?_of_ne hoctal hhexadecimal, if_neg hint, Grammar.isDecimalFloat_eq]

theorem number?_lead (hb : b ≠ .decimal) (h : IsNumeral b digits) (s : Sign) :
    number? (b.lead ++ (s.chars ++ digits)) =
      if -2 ^ 63 ≤ s.value (denoted b.size digits) ∧ s.value (denoted b.size digits) < 2 ^ 63 then
        some (.integer (s.value (denoted b.size digits)))
      else none := by
  have hread : (radixInt? b.size (s.chars ++ digits)).map Number.integer =
      if -2 ^ 63 ≤ s.value (denoted b.size digits) ∧ s.value (denoted b.size digits) < 2 ^ 63 then
        some (.integer (s.value (denoted b.size digits)))
      else none := by
    rw [← signed_read?_eq b.size_pos, h.signed_read?, signed_check?]
    split <;> rfl
  cases b with
  | decimal => exact absurd rfl hb
  | octal => exact hread
  | hexadecimal => exact hread

end Number

section Resolve

variable {b : Base} {digits : List Char} {text : String}

theorem number?_of_resolve {n : Number} (h : resolve text = .number n) :
    number? text.toList = some n := by
  unfold resolve at h
  split at h
  · cases h
  split at h
  · cases h
  split at h
  · cases h
  split at h
  · obtain rfl := Scalar.number.inj h
    assumption
  · cases h

theorem resolve_of_digit {c : Char} (hc : c ∈ text.toList) (hdigit : c ∈ decimalDigits) :
    resolve text = ((number? text.toList).map Scalar.number).getD (.string text) := by
  let words := ["", "~", "null", "Null", "NULL"] ++ ["true", "True", "TRUE"] ++
    ["false", "False", "FALSE"]
  have hwords : (words.all fun word => word.toList.all (· ∉ decimalDigits)) = true := by
    decide +kernel
  have hnot : text ∉ words := fun hmem =>
    List.all_iff_forall_prop.1 (List.all_eq_true.1 hwords text hmem) c hc hdigit
  rw [List.mem_append, List.mem_append, not_or, not_or] at hnot
  unfold resolve
  rw [if_neg hnot.1.1, if_neg hnot.1.2, if_neg hnot.2]
  cases number? text.toList <;> rfl

/-- A whole number in decimal digits is the number that they denote if it fits sixty-four bits with
or without a sign, and a string if it does not. -/
theorem resolve_wholeNumber (h : IsNumeral .decimal digits) (s : Sign) :
    let text := s.chars ++ digits
    let n := s.value (denoted 10 digits)
    Numeral.number? text = (if -2 ^ 63 ≤ n ∧ n < 2 ^ 64 then some (.integer n) else none) ∧
      resolve (String.ofList text) =
        if -2 ^ 63 ≤ n ∧ n < 2 ^ 64 then .number (.integer n) else .string (String.ofList text) := by
  intro text n
  have hnumber : number? text = if -2 ^ 63 ≤ n ∧ n < 2 ^ 64 then some (.integer n) else none :=
    number?_decimal h s
  obtain ⟨c, rest, rfl⟩ := List.exists_cons_of_ne_nil h.nonempty
  have hc : c ∈ (String.ofList text).toList := by
    rw [String.toList_ofList]
    exact List.mem_append_right _ List.mem_cons_self
  refine ⟨(number?_eq text).trans hnumber, ?_⟩
  rw [resolve_of_digit hc (h.mem c List.mem_cons_self), String.toList_ofList, hnumber]
  split <;> rfl

/-- The largest number that fits, behind zeros that do not count, and one that is too small. -/
theorem resolve_wholeNumber_atLimits :
    IsNumeral .decimal "0018446744073709551615".toList ∧
      resolve "0018446744073709551615" = .number (.integer 18446744073709551615) ∧
      IsNumeral .decimal "9223372036854775809".toList ∧
      resolve "-9223372036854775809" = .string "-9223372036854775809" := by
  have hlarge : IsNumeral .decimal "0018446744073709551615".toList := by decide +kernel
  have hsmall : IsNumeral .decimal "9223372036854775809".toList := by decide +kernel
  have hplain : String.ofList (Sign.none.chars ++ "0018446744073709551615".toList) =
      "0018446744073709551615" := String.ofList_toList
  have hminus : String.ofList (Sign.minus.chars ++ "9223372036854775809".toList) =
      "-9223372036854775809" := by decide +kernel
  obtain ⟨-, hnumber⟩ := resolve_wholeNumber hlarge .none
  obtain ⟨-, hstring⟩ := resolve_wholeNumber hsmall .minus
  rw [hplain, if_pos (by decide +kernel)] at hnumber
  rw [hminus, if_neg (by decide +kernel)] at hstring
  refine ⟨hlarge, hnumber.trans ?_, hsmall, hstring⟩
  decide +kernel

end Resolve

section Notations

variable {b : Base} {digits text : List Char}

namespace Base

def expression (b : Base) : RegularExpression Char := exactly b.lead * repeated (oneOf b.digits)

/-- The same with a sign between the letter and the digits. -/
def signedExpression (b : Base) : RegularExpression Char :=
  exactly b.lead * (sign * repeated (oneOf b.digits))

end Base

theorem isNumeral_iff : IsNumeral b digits ↔ digits ∈ (repeated (oneOf b.digits)).matches' :=
  ⟨fun h => mem_repeated_oneOf.2 ⟨h.nonempty, h.mem⟩,
    fun h => ⟨(mem_repeated_oneOf.1 h).1, (mem_repeated_oneOf.1 h).2⟩⟩

theorem mem_expression (h : IsNumeral b digits) (s : Sign)
    (htext : text = b.lead ++ (s.chars ++ digits)) :
    text ∈ b.expression.matches' ∨ text ∈ b.signedExpression.matches' := by
  have hmem := isNumeral_iff.1 h
  rcases mem_optional.1 (mem_sign.2 ⟨s, rfl⟩) with hnone | hsign
  · rw [hnone, List.nil_append] at htext
    exact .inl (mem_exactly_mul.2 ⟨_, hmem, htext⟩)
  · exact .inr (mem_exactly_mul.2 ⟨_, mem_mul.2 ⟨_, hsign, _, hmem, rfl⟩, htext⟩)

theorem exists_of_radixInt? {n : Int} (h : radixInt? b.size text = some n) :
    ∃ (s : Sign) (digits : List Char), IsNumeral b digits ∧ text = s.chars ++ digits := by
  obtain ⟨s, htext, hsplit⟩ := exists_signed_splitSign text
  rw [← signed_read?_eq b.size_pos, read?_of_splitSign b.size_pos hsplit, radixValue?_size] at h
  split at h
  · cases h
  · next hne =>
      split at h
      · next hdigits => exact ⟨s, _, ⟨hne, List.all_iff_forall_prop.1 hdigits⟩, htext⟩
      · cases h

theorem matches_of_number? {n : Number} (h : number? text = some n) :
    text ∈ decimalInt.matches' ∨ text ∈ decimalFloat.matches' ∨
      ∃ b ≠ Base.decimal, text ∈ b.expression.matches' ∨ text ∈ b.signedExpression.matches' := by
  unfold number? at h
  split at h
  case h_1 rest =>
    obtain ⟨_, hvalue, -⟩ := Option.map_eq_some_iff.1 h
    obtain ⟨s, digits, hdigits, rfl⟩ := exists_of_radixInt? (b := .octal) hvalue
    exact .inr (.inr ⟨.octal, by decide, mem_expression hdigits s rfl⟩)
  case h_2 rest =>
    obtain ⟨_, hvalue, -⟩ := Option.map_eq_some_iff.1 h
    obtain ⟨s, digits, hdigits, rfl⟩ := exists_of_radixInt? (b := .hexadecimal) hvalue
    exact .inr (.inr ⟨.hexadecimal, by decide, mem_expression hdigits s rfl⟩)
  case h_3 =>
    split at h
    case isTrue hint => exact .inl (isDecimalInt_iff.1 hint)
    case isFalse =>
      split at h
      case isTrue hfloat => exact .inr (.inl (isDecimalFloat_iff.1 hfloat))
      case isFalse => cases h

/-- A plain text is a number only in one of the four notations, or with a sign where the notations of
the other bases have none. In these bases it is the number that the digits denote behind the sign, or
a string if that does not fit. -/
theorem matches_of_resolve (text : String) :
    (∀ n, resolve text = .number n →
      text.toList ∈ decimalInt.matches' ∨ text.toList ∈ decimalFloat.matches' ∨
        ∃ b ≠ Base.decimal,
          text.toList ∈ b.expression.matches' ∨ text.toList ∈ b.signedExpression.matches') ∧
    ∀ (b : Base) (s : Sign) (digits : List Char), b ≠ .decimal → IsNumeral b digits →
      text.toList = b.lead ++ (s.chars ++ digits) →
        let n := s.value (denoted b.size digits)
        Numeral.number? text.toList =
            (if -2 ^ 63 ≤ n ∧ n < 2 ^ 63 then some (.integer n) else none) ∧
          resolve text = if -2 ^ 63 ≤ n ∧ n < 2 ^ 63 then .number (.integer n) else .string text := by
  refine ⟨fun n h => matches_of_number? (number?_of_resolve h), fun b s digits hb h htext => ?_⟩
  intro n
  have hnumber : number? text.toList =
      if -2 ^ 63 ≤ n ∧ n < 2 ^ 63 then some (.integer n) else none :=
    htext ▸ number?_lead hb h s
  have hzero : '0' ∈ text.toList := by
    rw [htext]
    cases b with
    | decimal => exact absurd rfl hb
    | octal => exact List.mem_cons_self
    | hexadecimal => exact List.mem_cons_self
  refine ⟨(number?_eq _).trans hnumber, ?_⟩
  rw [resolve_of_digit hzero (by decide), hnumber]
  split <;> rfl

theorem matches_of_resolve_signedOctal :
    IsNumeral .octal "17".toList ∧ resolve "0o-17" = .number (.integer (-15)) ∧
      ("0o-17".toList ∈ decimalInt.matches' ∨ "0o-17".toList ∈ decimalFloat.matches' ∨
        ∃ b ≠ Base.decimal,
          "0o-17".toList ∈ b.expression.matches' ∨ "0o-17".toList ∈ b.signedExpression.matches') := by
  have hdigits : IsNumeral .octal "17".toList := by decide +kernel
  obtain ⟨hmatches, hvalue⟩ := matches_of_resolve "0o-17"
  obtain ⟨-, hresolve⟩ := hvalue .octal .minus _ (by decide +kernel) hdigits (by decide +kernel)
  rw [if_pos (by decide +kernel)] at hresolve
  have hnumber : resolve "0o-17" = .number (.integer (-15)) := hresolve.trans (by decide +kernel)
  exact ⟨hdigits, hnumber, hmatches _ hnumber⟩

/-- A sign is read where the notations have none. -/
theorem not_matches_of_resolve :
    ¬∀ (text : String) (n : Number), resolve text = .number n →
      text.toList ∈ decimalInt.matches' ∨ text.toList ∈ decimalFloat.matches' ∨
        ∃ b ≠ Base.decimal, text.toList ∈ b.expression.matches' := by
  intro h
  have hresolve : resolve "0o-7" = .number (.integer (-7)) := by decide +kernel
  rcases h _ _ hresolve with hint | hfloat | ⟨b, -, hmem⟩
  · exact absurd (isDecimalInt_iff.2 hint) (by decide +kernel)
  · exact absurd (isDecimalFloat_iff.2 hfloat) (by decide +kernel)
  · cases b <;> exact absurd hmem (by decide +kernel)

end Notations

end RuleTidy.Yaml
