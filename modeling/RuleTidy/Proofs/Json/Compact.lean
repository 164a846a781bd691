import RuleTidy.Json.Text

/-! The compact text of a JSON value by the texts of its parts. -/

namespace RuleTidy

namespace Number

theorem renderInteger_eq_toString (n : Int) : renderInteger n = (toString n).toList := by
  cases n with
  | ofNat n => simp [renderInteger, Text.decimal, toString, Int.repr, Nat.repr]
  | negSucc n => simp [renderInteger, Text.decimal, toString, Int.repr, Nat.repr]

end Number

namespace Json

mutual

/-- The text of a value without blanks: commas stand between its parts, and a colon behind each
name. -/
def compact : Json → List Char
  | .null => "null".toList
  | .bool true => "true".toList
  | .bool false => "false".toList
  | .number (.integer n) => (toString n).toList
  | .number (.real x) => Number.renderReal x
  | .string text => quote text
  | .array items => '[' :: [','].intercalate (compactItems items) ++ [']']
  | .object entries => '\x7b' :: [','].intercalate (compactEntries entries) ++ ['\x7d']

def compactItems : List Json → List (List Char)
  | [] => []
  | item :: rest => compact item :: compactItems rest

def compactEntries : List (String × Json) → List (List Char)
  | [] => []
  | (name, value) :: rest => (quote name ++ ':' :: compact value) :: compactEntries rest

end

mutual

theorem chars_eq_compact : ∀ json : Json, json.chars = json.compact
  | .null => rfl
  | .bool true => rfl
  | .bool false => rfl
  | .number (.integer n) => by
      rw [chars, compact, ← Number.renderInteger_eq_toString, Number.render, String.toList_ofList]
  | .number (.real x) => by rw [chars, compact, Number.render, String.toList_ofList]
  | .string text => rfl
  | .array items => by rw [chars, compact, charsOfItems_eq items]
  | .object entries => by rw [chars, compact, charsOfEntries_eq entries]

theorem charsOfItems_eq : ∀ items : List Json,
    charsOfItems items = [','].intercalate (compactItems items)
  | [] => rfl
  | [item] => by simp [charsOfItems, compactItems, chars_eq_compact item]
  | item :: next :: rest => by
      rw [charsOfItems, chars_eq_compact item, charsOfItems_eq (next :: rest)]
      · simp [compactItems, List.intercalate]
      · exact List.cons_ne_nil _ _

theorem charsOfEntries_eq : ∀ entries : List (String × Json),
    charsOfEntries entries = [','].intercalate (compactEntries entries)
  | [] => rfl
  | [(name, value)] => by simp [charsOfEntries, compactEntries, chars_eq_compact value]
  | (name, value) :: next :: rest => by
      rw [charsOfEntries, chars_eq_compact value, charsOfEntries_eq (next :: rest)]
      · simp [compactEntries, List.intercalate]
      · exact List.cons_ne_nil _ _

end

theorem render_eq_compact (json : Json) : json.render = String.ofList json.compact := by
  rw [render, chars_eq_compact]

end Json

end RuleTidy
