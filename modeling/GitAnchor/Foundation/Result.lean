import Mathlib.Logic.Basic

/-! How a computation that may fail with an error succeeds, and how two that may fail succeed
alike. -/

namespace GitAnchor.Foundation.Result
variable {Error Value Out : Type}

theorem bind_eq_ok {x : Except Error Value} {f : Value → Except Error Out} {out : Out} :
    (x >>= f) = .ok out ↔ ∃ value, x = .ok value ∧ f value = .ok out := by
  cases x <;> simp [bind, Except.bind]

theorem pure_eq_ok {value out : Value} :
    (pure value : Except Error Value) = .ok out ↔ value = out := by
  simp [pure, Except.pure]

theorem throw_ne_ok {error : Error} {out : Value} :
    (throw error : Except Error Value) = .ok out ↔ False := by
  simp [throw, throwThe, MonadExceptOf.throw]

theorem ok_bind {value : Value} {f : Value → Except Error Out} :
    ((.ok value : Except Error Value) >>= f) = f value := rfl

theorem error_bind {error : Error} {f : Value → Except Error Out} :
    ((.error error : Except Error Value) >>= f) = .error error := rfl

/-- Rewording an error changes no success. -/
theorem mapError_eq_ok {Other : Type} {x : Except Error Value} {word : Error → Other} {value : Value} :
    x.mapError word = .ok value ↔ x = .ok value := by
  cases x with
  | error source => exact iff_of_false nofun nofun
  | ok found =>
    constructor
    · intro same
      rw [Except.ok.inj same]
    · intro same
      rw [Except.ok.inj same]
      rfl

/-! Results in a relation, where there are any. -/

end GitAnchor.Foundation.Result
