/-! Chains of steps that may fail, and when the whole of a chain succeeds. -/

namespace RuleTidy

variable {ε ε' α β γ : Type}

theorem bind_eq_ok {x : Except ε α} {f : α → Except ε β} {b : β} :
    x >>= f = .ok b ↔ ∃ a, x = .ok a ∧ f a = .ok b := by
  cases x <;> simp [bind, Except.bind]

theorem bind_eq_error {x : Except ε α} {f : α → Except ε β} {e : ε} :
    x >>= f = .error e ↔ x = .error e ∨ ∃ a, x = .ok a ∧ f a = .error e := by
  cases x <;> simp [bind, Except.bind]

theorem guard_eq_ok {c : Prop} [Decidable c] {e : ε} {f : α → Except ε β} {x : Except ε β} {b : β} :
    (if c then Except.error e >>= f else x) = .ok b ↔ ¬c ∧ x = .ok b := by
  split <;> simp_all [bind, Except.bind]

theorem pure_eq_ok {a b : α} : (pure a : Except ε α) = .ok b ↔ a = b := by
  simp [pure, Except.pure]

theorem bind_of_map {x : Except ε α} {f : α → β} {g : β → Except ε γ} :
    x.map f >>= g = x >>= fun a => g (f a) := by
  cases x <;> rfl

theorem map_of_bind {x : Except ε α} {f : α → Except ε β} {g : β → γ} :
    (x >>= f).map g = x >>= fun a => (f a).map g := by
  cases x <;> rfl

theorem map_eq_ok {x : Except ε α} {f : α → β} {b : β} :
    x.map f = .ok b ↔ ∃ a, x = .ok a ∧ f a = b := by
  cases x <;> simp [Except.map]

theorem map_eq_error {x : Except ε α} {f : α → β} {e : ε} :
    x.map f = .error e ↔ x = .error e := by
  cases x <;> simp [Except.map]

theorem mapError_eq_ok {x : Except ε α} {f : ε → ε'} {a : α} :
    x.mapError f = .ok a ↔ x = .ok a := by
  cases x with
  | error e => exact ⟨nofun, nofun⟩
  | ok b =>
      have hb : (Except.ok b : Except ε α).mapError f = .ok b := rfl
      simp only [hb, Except.ok.injEq]

theorem mapError_eq_error {x : Except ε α} {f : ε → ε'} {e' : ε'} :
    x.mapError f = .error e' ↔ ∃ e, x = .error e ∧ f e = e' := by
  cases x with
  | error e =>
      have he : (Except.error e : Except ε α).mapError f = .error (f e) := rfl
      simp [he]
  | ok b => exact ⟨nofun, nofun⟩

theorem toOption_eq_some {x : Except ε α} {a : α} : x.toOption = some a ↔ x = .ok a := by
  cases x <;> simp [Except.toOption]

theorem foldlM_eq_error {f : β → α → Except ε β} {steps : List α} {b : β} {e : ε} :
    steps.foldlM f b = .error e ↔
      ∃ done step rest held, steps = done ++ step :: rest ∧
        done.foldlM f b = .ok held ∧ f held step = .error e := by
  induction steps generalizing b with
  | nil =>
      refine ⟨nofun, ?_⟩
      rintro ⟨done, step, rest, held, heq, -⟩
      exact absurd heq (by simp)
  | cons first steps ih =>
      rw [List.foldlM_cons, bind_eq_error]
      simp only [ih]
      constructor
      · rintro (h | ⟨next, hnext, done, step, rest, held, rfl, hdone, h⟩)
        · exact ⟨[], first, steps, b, rfl, rfl, h⟩
        · exact ⟨first :: done, step, rest, held, rfl, bind_eq_ok.2 ⟨next, hnext, hdone⟩, h⟩
      · rintro ⟨done, step, rest, held, heq, hdone, h⟩
        cases done with
        | nil =>
            obtain ⟨rfl, rfl⟩ := List.cons.inj heq
            obtain rfl := pure_eq_ok.1 hdone
            exact .inl h
        | cons head done =>
            obtain ⟨rfl, rfl⟩ := List.cons.inj heq
            obtain ⟨next, hnext, hdone⟩ := bind_eq_ok.1 hdone
            exact .inr ⟨next, hnext, done, step, rest, held, rfl, hdone, h⟩

/-- Whether a step succeeds or not, no error of a kind stops it. -/
def Avoids (bad : ε → Prop) (x : Except ε α) : Prop := ∀ e, bad e → x ≠ .error e

namespace Avoids

variable {bad : ε → Prop} {x : Except ε α}

theorem ok (a : α) : Avoids bad (.ok a) := fun _ _ => nofun

theorem error {e : ε} (he : ¬bad e) : Avoids bad (.error e : Except ε α) :=
  fun _ hbad h => he (Except.error.inj h ▸ hbad)

theorem bind {f : α → Except ε β} (hx : Avoids bad x) (hf : ∀ a, x = .ok a → Avoids bad (f a)) :
    Avoids bad (x >>= f) := by
  intro e hbad h
  rcases bind_eq_error.1 h with h | ⟨a, ha, h⟩
  · exact hx e hbad h
  · exact hf a ha e hbad h

theorem guard {c : Prop} [Decidable c] {e : ε} {f : α → Except ε β} {y : Except ε β} (he : ¬bad e)
    (hy : Avoids bad y) : Avoids bad (if c then Except.error e >>= f else y) := by
  split
  · exact error he
  · exact hy

end Avoids

/-! Chains with effects, where the effect is none. -/

theorem run_bind_eq_ok {x : ExceptT ε Id α} {f : α → ExceptT ε Id β} {b : β} :
    (x >>= f).run.run = .ok b ↔ ∃ a, x.run.run = .ok a ∧ (f a).run.run = .ok b := by
  rw [ExceptT.run_bind]
  cases h : x.run.run <;> simp [Id.run_bind, h]

theorem run_bind_eq_error {x : ExceptT ε Id α} {f : α → ExceptT ε Id β} {e : ε} :
    (x >>= f).run.run = .error e ↔
      x.run.run = .error e ∨ ∃ a, x.run.run = .ok a ∧ (f a).run.run = .error e := by
  rw [ExceptT.run_bind]
  cases h : x.run.run <;> simp [Id.run_bind, h]

theorem run_bind_of_ok {x : ExceptT ε Id α} {f : α → ExceptT ε Id β} {a : α}
    (h : x.run.run = .ok a) : (x >>= f).run.run = (f a).run.run := by
  rw [ExceptT.run_bind]
  simp [Id.run_bind, h]

theorem run_bind_of_error {x : ExceptT ε Id α} {f : α → ExceptT ε Id β} {e : ε}
    (h : x.run.run = .error e) : (x >>= f).run.run = .error e :=
  run_bind_eq_error.2 (.inl h)

theorem run_pure_eq_ok {a b : α} : (pure a : ExceptT ε Id α).run.run = .ok b ↔ a = b := by
  simp

end RuleTidy
