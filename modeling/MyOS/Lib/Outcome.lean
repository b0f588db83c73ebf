import Mathlib.Tactic.Common

/-!
# Computations that may stop

`Except` as the outcome of code that returns or halts. The rewrite rules for
a computation known to return, and the inversion of a sequence that
returned: proofs peel a run apart with `bind_eq_ok` and put it together with
`ok_bind`, and never unfold `Except.bind`.

Two computations are compared with `Related R`: they stop alike, or both
return and the results are related. Sequences keep it (`Related.bind`).
-/

namespace MyOS.Lib

variable {ε α β : Type}

theorem ok_bind (a : α) (f : α → Except ε β) : (Except.ok a).bind f = f a := rfl

theorem error_bind (e : ε) (f : α → Except ε β) : (Except.error e).bind f = .error e := rfl

theorem ok_map (a : α) (f : α → β) : (Except.ok a : Except ε α).map f = .ok (f a) := rfl

theorem error_map (e : ε) (f : α → β) : (Except.error e : Except ε α).map f = .error e := rfl

theorem ok_mapError {ε' : Type} (a : α) (f : ε → ε') :
    (Except.ok a : Except ε α).mapError f = .ok a := rfl

/-- A sequence that returned: both parts did. -/
theorem bind_eq_ok {x : Except ε α} {f : α → Except ε β} {b : β} (h : x.bind f = .ok b) :
    ∃ a, x = .ok a ∧ f a = .ok b := by
  cases x with
  | ok a => exact ⟨a, rfl, h⟩
  | error e => exact absurd h (by simp [error_bind])

theorem map_eq_ok {x : Except ε α} {f : α → β} {b : β} (h : x.map f = .ok b) :
    ∃ a, x = .ok a ∧ f a = b := by
  cases x with
  | ok a => exact ⟨a, rfl, Except.ok.inj h⟩
  | error e => exact absurd h (by simp [error_map])

theorem mapError_eq_ok {ε' : Type} {x : Except ε α} {f : ε → ε'} {a : α}
    (h : x.mapError f = .ok a) : x = .ok a := by
  cases x with
  | ok b => exact congrArg Except.ok (Except.ok.inj h)
  | error e => exact absurd h (by simp [Except.mapError])

/-- A sequence that stopped: one of the parts did. -/
theorem bind_eq_error {x : Except ε α} {f : α → Except ε β} {e : ε} (h : x.bind f = .error e) :
    x = .error e ∨ ∃ a, x = .ok a ∧ f a = .error e := by
  cases x with
  | ok a => exact Or.inr ⟨a, rfl, h⟩
  | error e' => exact Or.inl (congrArg Except.error (Except.error.inj h))

theorem mapError_eq_error {ε' : Type} {x : Except ε α} {f : ε → ε'} {e : ε'}
    (h : x.mapError f = .error e) : ∃ e', f e' = e := by
  cases x with
  | ok a => exact absurd h (by simp [ok_mapError])
  | error e' => exact ⟨e', Except.error.inj h⟩

theorem toOption_eq_some {x : Except ε α} {a : α} (h : x.toOption = some a) : x = .ok a := by
  cases x with
  | ok b => exact congrArg Except.ok (Option.some.inj h)
  | error e => exact absurd h (by simp [Except.toOption])

/-! ## Two computations -/

/-- They stop with one error, or return related results. -/
inductive Related (R : α → β → Prop) : Except ε α → Except ε β → Prop
  | ok {a : α} {b : β} (h : R a b) : Related R (.ok a) (.ok b)
  | error (e : ε) : Related R (.error e) (.error e)

section

variable {α' β' : Type} {R : α → β → Prop} {S : α' → β' → Prop} {x : Except ε α} {y : Except ε β}

theorem Related.bind {f : α → Except ε α'} {g : β → Except ε β'} (h : Related R x y)
    (hfg : ∀ a b, R a b → Related S (f a) (g b)) : Related S (x.bind f) (y.bind g) := by
  cases h with
  | ok hab => exact hfg _ _ hab
  | error e => exact .error e

theorem Related.map {f : α → α'} {g : β → β'} (h : Related R x y)
    (hfg : ∀ a b, R a b → S (f a) (g b)) : Related S (x.map f) (y.map g) := by
  cases h with
  | ok hab => exact .ok (hfg _ _ hab)
  | error e => exact .error e

end

end MyOS.Lib
