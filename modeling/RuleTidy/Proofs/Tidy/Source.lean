import RuleTidy.Proofs.Chain
import RuleTidy.Tidy.Fix

/-! Sources of trees that have effects. Where every request is answered as a function answers it,
tidying comes to what it comes to with the function. -/

namespace RuleTidy

/-- A way to tell that the steps of a monad return a value, closed under their composition. -/
structure Returning (m : Type → Type) [Monad m] where
  Returns : {α : Type} → m α → α → Prop
  pure : ∀ {α : Type} (a : α), Returns (pure a) a
  bind : ∀ {α β : Type} {x : m α} {f : α → m β} {a : α} {b : β}, Returns x a → Returns (f a) b →
    Returns (x >>= f) b

namespace Tidy

open Document Pattern Source Yaml

variable {m : Type → Type} [Monad m] {R : Returning m} {ε α β : Type}

def Agrees (R : Returning m) (x : ExceptT ε m α) (y : ExceptT ε Id α) : Prop :=
  R.Returns x.run y.run.run

namespace Agrees

theorem result (r : Except ε α) : Agrees R (ExceptT.mk (pure r)) (ExceptT.mk (pure r)) := R.pure r

theorem pure (a : α) : Agrees R (pure a : ExceptT ε m α) (pure a) := R.pure _

theorem bind {x : ExceptT ε m α} {y : ExceptT ε Id α} {f : α → ExceptT ε m β}
    {g : α → ExceptT ε Id β} (h : Agrees R x y) (hf : ∀ a, Agrees R (f a) (g a)) :
    Agrees R (x >>= f) (y >>= g) := by
  refine R.bind h ?_
  cases hy : y.run.run with
  | error e =>
      rw [run_bind_of_error hy]
      exact R.pure _
  | ok a =>
      rw [run_bind_of_ok hy]
      exact hf a

theorem lookup [LawfulMonad m] {x : ExceptT LookupError m α} {y : ExceptT LookupError Id α}
    (h : Agrees R x y) : Agrees R (Tidy.lookup x) (Tidy.lookup y) := by
  unfold Agrees Tidy.lookup
  rw [ExceptT.run_mk, map_eq_pure_bind]
  exact R.bind h (R.pure _)

end Agrees

variable {asts' : AstSource m} {asts : AstSource Id}

/-- Every request is answered as a function answers it. -/
def Simulates (R : Returning m) (asts' : AstSource m) (asts : AstSource Id) : Prop :=
  ∀ language text, Agrees R (asts' language text) (asts language text)

namespace Simulates

theorem classify (h : Simulates R asts' asts) (language first second : String) :
    Agrees R (classify asts' language first second) (classify asts language first second) := by
  refine (h language first).bind fun a => (h language second).bind fun b => ?_
  split
  · exact .pure _
  · split
    · exact .pure _
    · split
      · exact .pure _
      · refine (h language _).bind fun c => ?_
        split <;> exact .pure _

theorem firstRelatedTo (h : Simulates R asts' asts) (language : String) (first : Nat × String)
    (patterns : List (Nat × String)) :
    Agrees R (firstRelatedTo asts' language first patterns)
      (firstRelatedTo asts language first patterns) := by
  induction patterns with
  | nil => exact .pure _
  | cons second rest ih =>
      refine (h.classify language first.2 second.2).bind fun relation => ?_
      cases relation with
      | different => exact ih
      | same => exact .pure _
      | returnPaired side rewritten => exact .pure _

theorem firstRelatedAmong (h : Simulates R asts' asts) (language : String)
    (patterns : List (Nat × String)) :
    Agrees R (firstRelatedAmong asts' language patterns)
      (firstRelatedAmong asts language patterns) := by
  induction patterns with
  | nil => exact .pure _
  | cons first rest ih =>
      refine (h.firstRelatedTo language first rest).bind fun pair => ?_
      cases pair with
      | none => exact ih
      | some pair => exact .pure _

theorem firstRelated (h : Simulates R asts' asts) (root : Node) (target : Target) :
    Agrees R (firstRelated asts' root target) (firstRelated asts root target) := by
  unfold Tidy.firstRelated
  cases (root.at? target.path).bind (·.items?) with
  | none => exact .pure _
  | some items => exact h.firstRelatedAmong _ _

variable [LawfulMonad m]

theorem checkReturning (h : Simulates R asts' asts) (root : Node) (language : String)
    (pattern : Path) :
    Agrees R (checkReturning asts' root language pattern)
      (checkReturning asts root language pattern) := by
  refine (Agrees.result _).bind fun text => (h language text).lookup.bind fun ast => ?_
  split
  · exact .result _
  · exact .pure _

theorem mergePair (h : Simulates R asts' asts) (target : Target) (p : Progress) (pair : Pair) :
    Agrees R (mergePair asts' target p pair) (mergePair asts target p pair) := by
  unfold Tidy.mergePair
  cases pair.relation with
  | same => exact .result _
  | returnPaired side rewritten =>
      exact (h.checkReturning _ _ _).bind fun _ => .result _
  | different => exact .result _

theorem fixList (h : Simulates R asts' asts) (maxPasses : Nat) (target : Target) (passes : Nat)
    (p : Progress) :
    Agrees R (fixList asts' maxPasses target passes p) (fixList asts maxPasses target passes p) := by
  induction passes generalizing p with
  | zero =>
      unfold Tidy.fixList
      refine (h.firstRelated _ target).lookup.bind fun pair => ?_
      cases pair with
      | none => exact .pure _
      | some pair => exact .result _
  | succ left ih =>
      unfold Tidy.fixList
      refine (h.firstRelated _ target).lookup.bind fun pair => ?_
      cases pair with
      | none => exact .pure _
      | some pair => exact (h.mergePair target p pair).bind ih

theorem fixLists (h : Simulates R asts' asts) (maxPasses : Nat) (lists : List Target)
    (p : Progress) :
    Agrees R (fixLists asts' maxPasses lists p) (fixLists asts maxPasses lists p) := by
  induction lists generalizing p with
  | nil => exact .pure _
  | cons target rest ih => exact (h.fixList maxPasses target maxPasses p).bind ih

theorem fixDocument (h : Simulates R asts' asts) (maxPasses : Nat) (d : Document) :
    Agrees R (fixDocument asts' maxPasses d) (fixDocument asts maxPasses d) :=
  (h.fixLists maxPasses (targets d.root) { document := d }).bind fun _ => .pure _

end Simulates

end Tidy

end RuleTidy
