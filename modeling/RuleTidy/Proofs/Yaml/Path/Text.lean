import Mathlib.Data.List.Basic
import RuleTidy.Yaml.Path

/-! Texts of paths. A path whose keys hold no point and no bracket can be read off its text, for each
step ends where the next one has such a character. -/

namespace RuleTidy.Yaml.Path

def isPlain (c : Char) : Bool := c ≠ '.' && c ≠ '['

/-- None of the keys of a path holds a character that starts a step. -/
def Plain (path : Path) : Prop :=
  ∀ name, .key name ∈ path → ∀ c ∈ name.toList, isPlain c = true

theorem Plain.tail {segment : Segment} {path : Path} (h : Plain (segment :: path)) : Plain path :=
  fun name hname => h name (List.mem_cons_of_mem _ hname)

def stepText (segment : Segment) : List Char := (renderStep segment).toList

theorem stepText_key (name : String) : stepText (.key name) = '.' :: name.toList := by
  simp [stepText, renderStep, toString]

theorem stepText_index (n : Nat) : stepText (.index n) = '[' :: (Nat.toDigits 10 n ++ [']']) := by
  simp [stepText, renderStep, toString, Nat.toList_repr]

theorem toList_render (name : String) (path : Path) :
    (render (.key name :: path)).toList = name.toList ++ path.flatMap stepText := by
  rw [render, String.toList_append, String.toList_join, List.flatMap_map]
  rfl

theorem takeWhile_key {name : String} (h : ∀ c ∈ name.toList, isPlain c = true) (path : Path) :
    (name.toList ++ path.flatMap stepText).takeWhile isPlain = name.toList := by
  rw [List.takeWhile_append_of_pos h]
  cases path with
  | nil => simp
  | cons segment rest =>
      cases segment with
      | key other => simp [stepText_key, isPlain]
      | index n => simp [stepText_index, isPlain]

theorem takeWhile_index (n : Nat) (rest : List Char) :
    (Nat.toDigits 10 n ++ ']' :: rest).takeWhile Char.isDigit = Nat.toDigits 10 n := by
  rw [List.takeWhile_append_of_pos fun c hc =>
    Nat.isDigit_of_mem_toDigits (by decide) (by decide) hc]
  simp

theorem toDigits_inj {m n : Nat} (h : Nat.toDigits 10 m = Nat.toDigits 10 n) : m = n := by
  rw [← Nat.ofDigitChars_ten_toDigits (n := m), h, Nat.ofDigitChars_ten_toDigits]

theorem eq_of_flatMap_stepText {p q : Path} (hp : Plain p) (hq : Plain q)
    (h : p.flatMap stepText = q.flatMap stepText) : p = q := by
  induction p generalizing q with
  | nil =>
      cases q with
      | nil => rfl
      | cons segment q => cases segment <;> simp [stepText_key, stepText_index] at h
  | cons segment p ih =>
      cases q with
      | nil => cases segment <;> simp [stepText_key, stepText_index] at h
      | cons segment' q =>
          rw [List.flatMap_cons, List.flatMap_cons] at h
          cases segment with
          | key name =>
              cases segment' with
              | index n => simp [stepText_key, stepText_index] at h
              | key name' =>
                  rw [stepText_key, stepText_key] at h
                  have htext : name.toList ++ p.flatMap stepText =
                      name'.toList ++ q.flatMap stepText := (List.cons.inj h).2
                  have hname : name.toList = name'.toList := by
                    rw [← takeWhile_key (hp name List.mem_cons_self) p, htext,
                      takeWhile_key (hq name' List.mem_cons_self) q]
                  rw [hname] at htext
                  rw [String.toList_inj.1 hname, ih hp.tail hq.tail (List.append_cancel_left htext)]
          | index m =>
              cases segment' with
              | key name => simp [stepText_key, stepText_index] at h
              | index n =>
                  rw [stepText_index, stepText_index] at h
                  simp only [List.cons_append, List.append_assoc, List.nil_append, List.cons.injEq,
                    true_and] at h
                  have hdigits : Nat.toDigits 10 m = Nat.toDigits 10 n := by
                    rw [← takeWhile_index m (p.flatMap stepText), h, takeWhile_index]
                  rw [hdigits] at h
                  have hrest := (List.cons.inj (List.append_cancel_left h)).2
                  rw [toDigits_inj hdigits, ih hp.tail hq.tail hrest]

/-- Two paths below one key are the same if they have the same text. -/
theorem eq_of_render_eq {name : String} {p q : Path} (hp : Plain p) (hq : Plain q)
    (h : render (.key name :: p) = render (.key name :: q)) : p = q := by
  have htext := congrArg String.toList h
  rw [toList_render, toList_render] at htext
  exact eq_of_flatMap_stepText hp hq (List.append_cancel_left htext)

end RuleTidy.Yaml.Path
