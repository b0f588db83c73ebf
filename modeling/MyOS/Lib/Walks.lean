import MyOS.Lib.Chain
import Mathlib.Data.Fintype.Card
import Mathlib.Data.List.Chain
import Mathlib.Logic.Relation

/-!
# Walks along `next` pointers

Two facts about following pointers in a finite structure.

Without cycles every walk ends. `Acyclic next` says that no node reaches
itself; then each start has a chain (`Acyclic.exists_chain`), so the walk to
the tail ends (`Chain.tailFrom_isSome`). Linking a node behind another one and
cutting it off from its old successor makes no cycle, wherever it stood
before (`Acyclic.link`): the only new pointer leads to a node without one.

A walk that wraps from the end to the head goes round. `Round succ c w` says
that from `c` it meets `w` and then `c` again. A chain gives a round from its
head (`Chain.round`), and a round can be started at any of its nodes
(`Round.rotate`).
-/

namespace MyOS.Lib

section Acyclic

variable {α : Type} {next : α → Option α}

/-- No node is reached from itself. -/
def Acyclic (next : α → Option α) : Prop :=
  ∀ a, ¬Relation.TransGen (fun x y => next x = some y) a a

/-- In a finite structure without cycles every walk ends. -/
theorem Acyclic.exists_chain [Finite α] (h : Acyclic next) (p : Option α) : ∃ l, Chain next p l := by
  let r : α → α → Prop := fun y x => Relation.TransGen (fun x y => next x = some y) x y
  have htrans : IsTrans α r := ⟨fun _ _ _ h₁ h₂ => Relation.TransGen.trans h₂ h₁⟩
  have hirrefl : Std.Irrefl r := ⟨h⟩
  have hwf : WellFounded r := Finite.wellFounded_of_trans_of_irrefl r
  have hsome : ∀ a, ∃ l, Chain next (some a) l := by
    intro a
    induction a using hwf.induction with
    | h a ih =>
      cases hn : next a with
      | none => exact ⟨[a], rfl, hn⟩
      | some b =>
        obtain ⟨l, hl⟩ := ih b (Relation.TransGen.single hn)
        exact ⟨a :: l, rfl, hn ▸ hl⟩
  cases p with
  | none => exact ⟨[], rfl⟩
  | some a => exact hsome a

/-- The walk to the tail ends within the length of the chain. -/
theorem Chain.tailFrom_isSome : ∀ {l : List α} {a : α} {fuel : Nat}, Chain next (some a) l →
    l.length ≤ fuel → ∃ t, tailFrom next fuel a = some t := by
  intro l
  induction l with
  | nil =>
    intro a fuel h _
    exact absurd h (by simp [Chain])
  | cons b l ih =>
    intro a fuel h hfuel
    rw [List.length_cons] at hfuel
    obtain ⟨fuel, rfl⟩ : ∃ n, fuel = n + 1 := Nat.exists_eq_succ_of_ne_zero (by omega)
    have hab : a = b := Option.some.inj h.1
    subst hab
    unfold tailFrom
    cases hn : next a with
    | none => exact ⟨a, rfl⟩
    | some c =>
      have hrest := h.2
      rw [hn] at hrest
      exact ih hrest (Nat.le_of_succ_le_succ hfuel)

variable [DecidableEq α]

/-- Tail insertion makes no cycle, even of a node that was linked already. -/
theorem Acyclic.link (h : Acyclic next) (t b : α) :
    Acyclic (Function.update (Function.update next t (some b)) b none) := by
  have hedge : ∀ {x y}, Function.update (Function.update next t (some b)) b none x = some y →
      x ≠ b ∧ (next x = some y ∨ y = b) := by
    intro x y hxy
    by_cases hxb : x = b
    · rw [hxb, Function.update_self] at hxy
      exact absurd hxy (by simp)
    · refine ⟨hxb, ?_⟩
      rw [Function.update_of_ne hxb] at hxy
      by_cases hxt : x = t
      · rw [hxt, Function.update_self] at hxy
        exact Or.inr (Option.some.inj hxy).symm
      · rw [Function.update_of_ne hxt] at hxy
        exact Or.inl hxy
  -- a walk is an old one, unless it ends in `b`
  have hwalk : ∀ {x y}, Relation.TransGen
      (fun x y => Function.update (Function.update next t (some b)) b none x = some y) x y →
      Relation.TransGen (fun x y => next x = some y) x y ∨ y = b := by
    intro x y hxy
    induction hxy with
    | single he => exact (hedge he).2.imp_left Relation.TransGen.single
    | tail _ he ih =>
      obtain ⟨hne, hold⟩ := hedge he
      exact hold.imp_left fun hold => (ih.resolve_right hne).tail hold
  intro a ha
  obtain ⟨c, hac, -⟩ := Relation.TransGen.head'_iff.mp ha
  rcases hwalk ha with hold | hab
  · exact h a hold
  · exact (hedge hac).1 hab

end Acyclic

section Round

variable {α : Type} {succ : α → Option α} {c : α} {w : List α}

/-- From `c` the walk meets `w` and then `c` again. -/
def Round (succ : α → Option α) (c : α) (w : List α) : Prop :=
  List.IsChain (fun a b => succ a = some b) (c :: w ++ [c])

/-- A round started at another of its nodes. -/
theorem Round.rotate {a b : List α} {d : α} (h : Round succ c (a ++ d :: b)) :
    Round succ d (b ++ c :: a) := by
  have hsplit : List.IsChain (fun x y => succ x = some y) ((c :: a) ++ d :: (b ++ [c])) := by
    have heq : (c :: a) ++ d :: (b ++ [c]) = c :: (a ++ d :: b) ++ [c] := by simp
    rw [heq]
    exact h
  obtain ⟨hfront, hback⟩ := List.isChain_split.mp hsplit
  have hjoin : List.IsChain (fun x y => succ x = some y) ((d :: b) ++ c :: (a ++ [d])) :=
    List.isChain_split.mpr ⟨hback, hfront⟩
  have heq : (d :: b) ++ c :: (a ++ [d]) = d :: (b ++ c :: a) ++ [d] := by simp
  rw [heq] at hjoin
  exact hjoin

/-- Following a chain and wrapping at its end goes round. -/
theorem Chain.round {next : α → Option α} {head : α} :
    ∀ {l : List α} {a : α}, Chain next (some a) (a :: l) →
      List.IsChain (fun x y => (next x).or (some head) = some y) (a :: l ++ [head]) := by
  intro l
  induction l with
  | nil =>
    intro a h
    refine List.isChain_cons_cons.mpr ⟨?_, List.isChain_singleton _⟩
    rw [h.2, Option.none_or]
  | cons b l ih =>
    intro a h
    have hnext : next a = some b := h.2.1
    refine List.isChain_cons_cons.mpr ⟨?_, ih (hnext ▸ h.2)⟩
    rw [hnext, Option.some_or]

end Round

end MyOS.Lib
