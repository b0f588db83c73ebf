import Mathlib.Logic.Function.Basic

/-!
# Counting loops over an array of cells

`forUp body n` is `for (i = 0; i < n; i++) body(i)`, with the invariant rule
`forUp_induction`. The array is a function from indices to cells; a loop that
stores to consecutive cells is `fill`, and `fill_apply` reads the result off,
provided that what the loop stores does not depend on the cells it has
already overwritten.
-/

namespace MyOS.Lib

section

variable {σ : Type}

/-- `for (i = 0; i < n; i++) body(i)`. -/
def forUp (body : Nat → σ → σ) : Nat → σ → σ
  | 0, s => s
  | n + 1, s => body n (forUp body n s)

/-- The invariant rule. -/
theorem forUp_induction {body : Nat → σ → σ} {P : Nat → σ → Prop} {s : σ} (hinit : P 0 s) :
    ∀ (n : Nat), (∀ i < n, ∀ s, P i s → P (i + 1) (body i s)) → P n (forUp body n s) := by
  intro n
  induction n with
  | zero =>
    intro _
    exact hinit
  | succ n ih =>
    intro hstep
    have hbefore := ih fun i hi => hstep i (Nat.lt_succ_of_lt hi)
    exact hstep n (Nat.lt_succ_self n) _ hbefore

end

section

variable {α : Type} {base : Nat} {f : (Nat → α) → Nat → α} {g : Nat → α}

/-- `for (x = 0; x < n; x++) cells[base + x] = f(x)`; `f` may read cells. -/
def fill (base : Nat) (f : (Nat → α) → Nat → α) (n : Nat) (cells : Nat → α) : Nat → α :=
  forUp (fun x b => Function.update b (base + x) (f b x)) n cells

/-- The loop stores `g x` at `base + x`, if `f` gives `g x` whatever the loop
has stored before. -/
theorem fill_apply {cells : Nat → α} (n : Nat)
    (hf : ∀ x < n, ∀ b : Nat → α, (∀ i, i < base ∨ base + x ≤ i → b i = cells i) → f b x = g x)
    (i : Nat) :
    fill base f n cells i = if base ≤ i ∧ i < base + n then g (i - base) else cells i := by
  refine forUp_induction (s := cells) (P := fun x b => ∀ i,
    b i = if base ≤ i ∧ i < base + x then g (i - base) else cells i) ?_ n ?_ i
  · intro i
    rw [if_neg (by omega)]
  · intro x hx b hb i
    have hfx : f b x = g x := hf x hx b fun j hj => by
      rw [hb j, if_neg (by omega)]
    by_cases hi : i = base + x
    · rw [hi, Function.update_self, hfx, if_pos (by omega), Nat.add_sub_cancel_left]
    · rw [Function.update_of_ne hi, hb i]
      by_cases hin : base ≤ i ∧ i < base + x
      · rw [if_pos hin, if_pos (by omega)]
      · rw [if_neg hin, if_neg (by omega)]

end

end MyOS.Lib
