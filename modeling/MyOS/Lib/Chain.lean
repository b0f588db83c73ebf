import Mathlib.Data.List.Nodup
import Mathlib.Logic.Function.Basic

/-!
# Chains of `next` pointers

A singly linked list without a header: `Chain next p l` says that following
`next` from `p` visits the nodes of `l` and then ends. Nodes are unboxed
values of any type and `next` is a function, so a write to a node's pointer
is `Function.update`.

A chain is determined by its start, so it never repeats a node
(`Chain.nodup`). Appending is the two writes a tail insertion makes, the old
tail's pointer and the new node's (`Chain.append`); the walk that finds the
tail is `tailFrom`, with fuel.
-/

namespace MyOS.Lib

variable {α : Type}

/-- The nodes met from `p` on, to the end. -/
def Chain (next : α → Option α) : Option α → List α → Prop
  | p, [] => p = none
  | p, a :: l => p = some a ∧ Chain next (next a) l

/-- `while (curr->next) curr = curr->next`, at most `fuel` tests. -/
def tailFrom (next : α → Option α) : Nat → α → Option α
  | 0, _ => none
  | fuel + 1, a => (next a).elim (some a) (tailFrom next fuel)

variable {next next' : α → Option α} {p : Option α} {l l' : List α}

/-- A start has one chain. -/
theorem Chain.unique : ∀ {l l' : List α} {p : Option α}, Chain next p l → Chain next p l' → l = l'
  | [], [], _, _, _ => rfl
  | [], a :: _, _, h, h' => absurd (h.symm.trans h'.1) (by simp)
  | a :: _, [], _, h, h' => absurd (h.1.symm.trans h') (by simp)
  | a :: l, b :: l', p, h, h' => by
    have hab : a = b := Option.some.inj (h.1.symm.trans h'.1)
    subst hab
    rw [Chain.unique h.2 h'.2]

/-- The rest of a chain from one of its nodes. -/
theorem Chain.of_mem : ∀ {l : List α} {p : Option α} {a : α}, Chain next p l → a ∈ l →
    ∃ l₁ l₂, l = l₁ ++ a :: l₂ ∧ Chain next (some a) (a :: l₂)
  | b :: l, p, a, h, ha => by
    rcases List.mem_cons.mp ha with rfl | ha
    · exact ⟨[], l, rfl, rfl, h.2⟩
    · obtain ⟨l₁, l₂, heq, hc⟩ := Chain.of_mem h.2 ha
      exact ⟨b :: l₁, l₂, by rw [heq, List.cons_append], hc⟩

/-- A chain that ends does not come back to a node. -/
theorem Chain.nodup : ∀ {l : List α} {p : Option α}, Chain next p l → l.Nodup := by
  intro l
  induction l with
  | nil =>
    intro _ _
    exact List.nodup_nil
  | cons a l ih =>
    intro p h
    refine List.nodup_cons.mpr ⟨fun ha => ?_, ih h.2⟩
    -- the chain from `a` would be a proper part of itself
    obtain ⟨l₁, l₂, heq, hc⟩ := h.2.of_mem ha
    have hsame : l = l₂ := h.2.unique hc.2
    have hlen := congrArg List.length heq
    rw [hsame, List.length_append, List.length_cons] at hlen
    omega

/-- Only the pointers of its nodes matter. -/
theorem Chain.congr : ∀ {l : List α} {p : Option α}, Chain next p l → (∀ a ∈ l, next' a = next a) →
    Chain next' p l := by
  intro l
  induction l with
  | nil =>
    intro _ h _
    exact h
  | cons a l ih =>
    intro p h hs
    refine ⟨h.1, ?_⟩
    rw [hs a List.mem_cons_self]
    exact ih h.2 fun b hb => hs b (List.mem_cons_of_mem _ hb)

/-- What holds of the start and of every pointer's target holds of all
nodes. -/
theorem Chain.forall_mem {P : α → Prop} (hnext : ∀ a b, next a = some b → P b) :
    ∀ {l : List α} {p : Option α}, Chain next p l → (∀ a, p = some a → P a) → ∀ a ∈ l, P a := by
  intro l
  induction l with
  | nil =>
    intro _ _ _ a ha
    exact absurd ha List.not_mem_nil
  | cons b l ih =>
    intro p h hp a ha
    rcases List.mem_cons.mp ha with rfl | ha
    · exact hp a h.1
    · exact ih h.2 (fun c hc => hnext b c hc) a ha

/-- The walk ends at the last node. -/
theorem Chain.tailFrom_eq : ∀ {l : List α} {a t : α} {fuel : Nat}, Chain next (some a) l →
    tailFrom next fuel a = some t → ∃ l₀, l = l₀ ++ [t]
  | [], a, t, fuel, h, _ => absurd h (by simp [Chain])
  | b :: l, a, t, 0, _, ht => absurd ht (by simp [tailFrom])
  | b :: l, a, t, fuel + 1, h, ht => by
    have hab : a = b := Option.some.inj h.1
    subst hab
    unfold tailFrom at ht
    cases hn : next a with
    | none =>
      rw [hn, Option.elim_none] at ht
      have hrest := h.2
      rw [hn] at hrest
      have hnil : l = [] := hrest.unique rfl
      rw [Option.some.inj ht, hnil]
      exact ⟨[], rfl⟩
    | some c =>
      rw [hn, Option.elim_some] at ht
      have hrest := h.2
      rw [hn] at hrest
      obtain ⟨l₀, heq⟩ := Chain.tailFrom_eq hrest ht
      exact ⟨a :: l₀, by rw [heq, List.cons_append]⟩

/-- The last node has no successor. -/
theorem Chain.last_next : ∀ {l₀ : List α} {p : Option α} {t : α}, Chain next p (l₀ ++ [t]) →
    next t = none := by
  intro l₀
  induction l₀ with
  | nil =>
    intro _ _ h
    exact h.2
  | cons _ _ ih =>
    intro _ _ h
    exact ih h.2

/-- A node without a successor is the last one. -/
theorem Chain.eq_last {t : α} (h : Chain next p l) (ht : t ∈ l) (hn : next t = none) :
    ∃ l₀, l = l₀ ++ [t] := by
  obtain ⟨l₁, l₂, heq, hc⟩ := h.of_mem ht
  have hrest := hc.2
  rw [hn] at hrest
  have hnil : l₂ = [] := hrest.unique rfl
  rw [heq, hnil]
  exact ⟨l₁, rfl⟩

variable [DecidableEq α]

/-- Tail insertion: the old tail points to the new node, the new node
nowhere. -/
theorem Chain.append {t b : α} : ∀ {l₀ : List α} {p : Option α}, Chain next p (l₀ ++ [t]) →
    b ∉ l₀ ++ [t] → Chain (Function.update (Function.update next t (some b)) b none) p
      (l₀ ++ [t] ++ [b]) := by
  intro l₀
  induction l₀ with
  | nil =>
    intro p h hb
    have htb : t ≠ b := fun heq => hb (heq ▸ List.mem_cons_self)
    refine ⟨h.1, ?_, ?_⟩
    · rw [Function.update_of_ne htb, Function.update_self]
    · exact Function.update_self ..
  | cons a l₀ ih =>
    intro p h hb
    have hnd := h.nodup
    have hab : a ≠ b := fun heq => hb (heq ▸ List.mem_cons_self)
    have hat : a ≠ t := fun heq => (List.nodup_cons.mp hnd).1 (by simp [heq])
    refine ⟨h.1, ?_⟩
    rw [Function.update_of_ne hab, Function.update_of_ne hat]
    exact ih h.2 fun hmem => hb (List.mem_cons_of_mem _ hmem)

/-- Inserting the tail itself again changes nothing. -/
theorem Chain.append_self {t : α} {l₀ : List α} (h : Chain next p (l₀ ++ [t])) :
    Chain (Function.update (Function.update next t (some t)) t none) p (l₀ ++ [t]) := by
  refine h.congr fun a _ => ?_
  rw [Function.update_idem]
  by_cases hat : a = t
  · rw [hat, Function.update_self, h.last_next]
  · rw [Function.update_of_ne hat]

/-- Inserting a node from the middle again cuts the chain behind it. -/
theorem Chain.cut {t b : α} {x : Option α} : ∀ {l₁ l₂ : List α} {p : Option α},
    Chain next p (l₁ ++ b :: l₂) → t ∉ l₁ → b ∉ l₁ →
    Chain (Function.update (Function.update next t x) b none) p (l₁ ++ [b]) := by
  intro l₁
  induction l₁ with
  | nil =>
    intro l₂ p h _ _
    exact ⟨h.1, Function.update_self ..⟩
  | cons a l₁ ih =>
    intro l₂ p h ht hb
    have hab : a ≠ b := fun heq => hb (heq ▸ List.mem_cons_self)
    have hat : a ≠ t := fun heq => ht (heq ▸ List.mem_cons_self)
    refine ⟨h.1, ?_⟩
    rw [Function.update_of_ne hab, Function.update_of_ne hat]
    exact ih h.2 (fun hm => ht (List.mem_cons_of_mem _ hm))
      fun hm => hb (List.mem_cons_of_mem _ hm)

end MyOS.Lib
