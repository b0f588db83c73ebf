import MyOS.Lib.Outcome

/-!
# Computations that leave events behind

Code that returns or halts, together with the events it wrote up to then. A
halt does not take back what was written before it, so the events are kept
beside the outcome and not inside it: `mem_bind_events` says where an event
of a sequence comes from, whether or not the sequence returned.
-/

namespace MyOS.Lib

/-- The events, in order, and the outcome. -/
structure Traced (ω ε α : Type) where
  events : List ω
  out : Except ε α

namespace Traced

variable {ω ε α β : Type}

/-- One call whose events are known. -/
def call (ws : List ω) (x : Except ε α) : Traced ω ε α := ⟨ws, x⟩

def bind (x : Traced ω ε α) (f : α → Traced ω ε β) : Traced ω ε β :=
  match x.out with
  | .ok a => ⟨x.events ++ (f a).events, (f a).out⟩
  | .error e => ⟨x.events, .error e⟩

theorem bind_ok {x : Traced ω ε α} {a : α} (h : x.out = .ok a) (f : α → Traced ω ε β) :
    x.bind f = ⟨x.events ++ (f a).events, (f a).out⟩ := by
  unfold bind
  rw [h]

theorem bind_error {x : Traced ω ε α} {e : ε} (h : x.out = .error e) (f : α → Traced ω ε β) :
    x.bind f = ⟨x.events, .error e⟩ := by
  unfold bind
  rw [h]

/-- A sequence that returned: both parts did. -/
theorem bind_out_eq_ok {x : Traced ω ε α} {f : α → Traced ω ε β} {b : β}
    (h : (x.bind f).out = .ok b) :
    ∃ a, x.out = .ok a ∧ (f a).out = .ok b ∧ (x.bind f).events = x.events ++ (f a).events := by
  cases hx : x.out with
  | ok a =>
    rw [bind_ok hx] at h ⊢
    exact ⟨a, rfl, h, rfl⟩
  | error e =>
    rw [bind_error hx] at h
    exact absurd h (by simp)

/-- An event of a sequence is one of the first part, or one of the second
after the first returned. -/
theorem mem_bind_events {x : Traced ω ε α} {f : α → Traced ω ε β} {w : ω} :
    w ∈ (x.bind f).events ↔ w ∈ x.events ∨ ∃ a, x.out = .ok a ∧ w ∈ (f a).events := by
  cases hx : x.out with
  | ok a =>
    rw [bind_ok hx, List.mem_append]
    refine or_congr_right ⟨fun hw => ⟨a, rfl, hw⟩, ?_⟩
    rintro ⟨a', ha', hw⟩
    cases ha'
    exact hw
  | error e =>
    rw [bind_error hx]
    refine ⟨Or.inl, ?_⟩
    rintro (hw | ⟨a, ha, -⟩)
    · exact hw
    · exact absurd ha (by simp)

end Traced

end MyOS.Lib
