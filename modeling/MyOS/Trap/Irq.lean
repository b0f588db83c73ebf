import MyOS.Lib.Pic
import MyOS.Boot.Main
import MyOS.Trap.RoundTrip

/-!
# Interrupt requests

`timer_init` maps the lines of the two interrupt controllers to the vectors 32
to 47 and unmasks them. From then on devices raise their lines, and take them
back, at any time. When the CPU accepts an interrupt it gets a vector, and
`irq_dispatch` sends one EOI or two, before it calls the handler: the handler of
the timer changes to another task and may not come back for long.

A line in service blocks others, and an EOI ends whichever line is first. So
what has to be right is which EOIs are sent for which vector, also for a vector
that stands for no request.

`irqRun_queue`: in every run the kernel sees the requests through a plain queue
ordered by priority. The vectors are those of `queueRun`, which knows no chips
and no EOIs, and no line stays in service.

Mirroring notes vs the source:
- From the acceptance to the last EOI interrupts are off. Devices go on.
- Behind the EOIs the CPU may accept the next interrupt at any time: the
  handler returns to code with interrupts on, or changes to such code.
-/

namespace MyOS

open Lib Lib.Pic

/-! ## The run -/

/-- The controllers, and what `irq_dispatch` has still to send. -/
structure IrqState where
  pics : Pair
  todo : List Output

/-- A line goes up or down, the CPU accepts an interrupt, or a byte goes
out. -/
inductive IrqEvent where
  | raise (i : Irq)
  | withdraw (i : Irq)
  | deliver (gone : Finset (Fin 8))
  | send

def picOutput (p : Pair) : Output → Pair
  | .char _ => p
  | .outb port value => p.out (port, value)

/-- The vector, if there is one, and the state afterwards. No device is on
the slave's line. -/
def IrqState.step (s : IrqState) : IrqEvent → Option (List Nat × IrqState)
  | .raise i => if i = slaveLine then none else some ([], { s with pics := s.pics.raise i })
  | .withdraw i => some ([], { s with pics := s.pics.withdraw i })
  | .deliver gone =>
    if s.todo.isEmpty then
      some ([(s.pics.ack gone).1], ⟨(s.pics.ack gone).2, eoi (s.pics.ack gone).1⟩)
    else none
  | .send => s.todo.head?.map fun o => ([], ⟨picOutput s.pics o, s.todo.tail⟩)

def irqRun : List IrqEvent → IrqState → Option (List Nat × IrqState)
  | [], s => some ([], s)
  | e :: es, s => (s.step e).bind fun r => (irqRun es r.2).map fun r' => (r.1 ++ r'.1, r'.2)

/-- The controllers when `timer_init` has run, whatever they were. -/
def timerPics (callback frequency : Nat) (d : Devices) (p : Pair) : Pair :=
  (timerInit callback frequency d).outb.foldl Pair.out p

/-! ## The queue -/

def queueStep : IrqEvent → Finset Irq → List Nat × Finset Irq
  | .raise i, q => ([], insert i q)
  | .withdraw i, q => ([], q.erase i)
  | .deliver gone, q => ([(take gone q).1.vector 32 40], (take gone q).2)
  | .send, q => ([], q)

/-- The vectors, and the requests that are left. -/
def queueRun : List IrqEvent → Finset Irq → List Nat × Finset Irq
  | [], q => ([], q)
  | e :: es, q => ((queueStep e q).1 ++ (queueRun es (queueStep e q).2).1,
      (queueRun es (queueStep e q).2).2)

/-! ## The invariant -/

/-- What is in service follows from what has still to be sent. -/
inductive Served (p : Pair) : List Output → Prop where
  | idle (hm : p.master.isr = ∅) (hs : p.slave.isr = ∅) : Served p []
  | master {l : Fin 8} (hm : p.master.isr ⊆ {l}) (hs : p.slave.isr = ∅) :
      Served p [.outb 0x20 0x20]
  | both {l l' : Fin 8} (hm : p.master.isr ⊆ {l}) (hs : p.slave.isr ⊆ {l'}) :
      Served p [.outb 0xA0 0x20, .outb 0x20 0x20]

structure IrqInv (s : IrqState) : Prop where
  ready : s.pics.Ready 32 40
  served : Served s.pics s.todo

section Steps

variable {s : IrqState}

theorem Served.congr {p p' : Pair} {todo : List Output} (h : Served p todo)
    (hm : p'.master.isr = p.master.isr) (hs : p'.slave.isr = p.slave.isr) : Served p' todo := by
  cases h with
  | idle h1 h2 => exact .idle (hm.trans h1) (hs.trans h2)
  | master h1 h2 => exact .master (hm ▸ h1) (hs.trans h2)
  | both h1 h2 => exact .both (hm ▸ h1) (hs ▸ h2)

/-- The EOIs fit the vector: both for a line of the slave, and for a request
that has left it. -/
theorem served_eoi {r : Irq × Finset Irq} {a : Nat × Pair} (h : Pair.Answered 32 40 r a) :
    Served a.2 (eoi a.1) := by
  obtain ⟨l, hm⟩ := h.master
  obtain ⟨l', hs⟩ := h.slave
  have hv := h.vector
  have hdirect := h.direct
  unfold eoi
  cases hr : r.1 with
  | inl j =>
    have hlt : ¬40 ≤ a.1 := by
      rw [hv, hr]
      show ¬40 ≤ 32 + j.val
      omega
    rw [if_neg hlt]
    rw [hr] at hdirect
    exact .master hm (hdirect rfl)
  | inr j =>
    have hge : 40 ≤ a.1 := by
      rw [hv, hr]
      exact Nat.le_add_right 40 j.val
    rw [if_pos hge]
    exact .both hm hs

/-- An EOI leaves the requests as they are. -/
theorem IrqInv.send {o : Output} {os : List Output} {p : Pair} (h : IrqInv ⟨p, o :: os⟩) :
    IrqInv ⟨picOutput p o, os⟩ ∧ (picOutput p o).requests = p.requests := by
  obtain ⟨hready, hserved⟩ := h
  cases hserved with
  | master hm hs =>
    have hout : picOutput p (.outb 0x20 0x20) = _ := Pair.out_eoi_master hm
    rw [hout]
    exact ⟨⟨{ hready with }, .idle rfl hs⟩, rfl⟩
  | both hm hs =>
    have hout : picOutput p (.outb 0xA0 0x20) = _ := Pair.out_eoi_slave hs
    rw [hout]
    exact ⟨⟨{ hready with }, .master hm rfl⟩, rfl⟩

/-- One step is a step of the queue. -/
theorem IrqInv.step {e : IrqEvent} {r : List Nat × IrqState} (h : IrqInv s) (hstep : s.step e = some r) :
    IrqInv r.2 ∧ r.1 = (queueStep e s.pics.requests).1 ∧
      r.2.pics.requests = (queueStep e s.pics.requests).2 := by
  cases e with
  | raise i =>
    simp only [IrqState.step] at hstep
    split at hstep
    · cases hstep
    next hi =>
      cases hstep
      obtain ⟨hm, hs⟩ := s.pics.isr_raise i
      exact ⟨⟨h.ready.raise hi, h.served.congr hm hs⟩, rfl, Pair.requests_raise i⟩
  | withdraw i =>
    cases hstep
    obtain ⟨hm, hs⟩ := s.pics.isr_withdraw i
    exact ⟨⟨h.ready.withdraw i, h.served.congr hm hs⟩, rfl, Pair.requests_withdraw i⟩
  | deliver gone =>
    simp only [IrqState.step] at hstep
    split at hstep
    next hempty =>
      cases hstep
      have hserved := h.served
      rw [List.isEmpty_iff.mp hempty] at hserved
      cases hserved with
      | idle hm hs =>
        have hack : Pair.Answered 32 40 (take gone s.pics.requests) (s.pics.ack gone) :=
          Pair.ack_take h.ready hm hs
        exact ⟨⟨hack.ready, served_eoi hack⟩, congrArg (fun v => [v]) hack.vector, hack.requests⟩
    · cases hstep
  | send =>
    obtain ⟨p, todo⟩ := s
    cases todo with
    | nil => cases hstep
    | cons o os =>
      cases hstep
      exact ⟨h.send.1, rfl, h.send.2⟩

/-- `timer_init` leaves nothing of what was: no request, no mask, nothing in
service. -/
theorem timerPics_inv (callback frequency : Nat) (d : Devices) (p : Pair) :
    IrqInv ⟨timerPics callback frequency d p, []⟩ ∧
    (timerPics callback frequency d p).requests = ∅ := by
  have hlines : lines 0 = ∅ := by decide
  obtain ⟨q, hq⟩ : ∃ q, q = d.outb.foldl Pair.out p := ⟨_, rfl⟩
  have hpics : timerPics callback frequency d p =
      ⟨⟨∅, ∅, lines 0, 32, .ready⟩, ⟨∅, ∅, lines 0, 40, .ready⟩⟩ := by
    unfold timerPics timerInit idtRegisterHandler
    dsimp only
    rw [List.foldl_append, ← hq]
    simp [Pair.out, Chip.command, Chip.data, Nat.testBit]
  rw [hpics, hlines]
  refine ⟨⟨⟨rfl, rfl, rfl, rfl, rfl, rfl, by simp⟩, .idle rfl rfl⟩, ?_⟩
  rfl

theorem IrqInv.run {es : List IrqEvent} : ∀ {s : IrqState} {r : List Nat × IrqState}, IrqInv s →
    irqRun es s = some r → IrqInv r.2 ∧ r.1 = (queueRun es s.pics.requests).1 ∧
      r.2.pics.requests = (queueRun es s.pics.requests).2 := by
  induction es with
  | nil =>
    intro s r h hrun
    cases hrun
    exact ⟨h, rfl, rfl⟩
  | cons e es ih =>
    intro s r h hrun
    obtain ⟨r₁, hstep, hrest⟩ := Option.bind_eq_some_iff.mp hrun
    obtain ⟨r₂, hrun₂, rfl⟩ := Option.map_eq_some_iff.mp hrest
    obtain ⟨hinv, hout, hreq⟩ := h.step hstep
    obtain ⟨hinv₂, hout₂, hreq₂⟩ := ih hinv hrun₂
    rw [hreq] at hout₂ hreq₂
    refine ⟨hinv₂, ?_, hreq₂⟩
    show r₁.1 ++ r₂.1 = _
    rw [hout, hout₂]
    rfl

/-- The vectors of the queue are those of the IRQ stubs. -/
theorem queueRun_vectors {es : List IrqEvent} : ∀ {q : Finset Irq} {v : Nat},
    v ∈ (queueRun es q).1 → 32 ≤ v ∧ v < 48 := by
  induction es with
  | nil =>
    intro q v hv
    cases hv
  | cons e es ih =>
    intro q v hv
    rcases List.mem_append.mp hv with hv | hv
    · cases e with
      | raise i => cases hv
      | withdraw i => cases hv
      | send => cases hv
      | deliver gone =>
        rw [List.mem_singleton.mp hv]
        cases (take gone q).1 with
        | inl l => exact ⟨Nat.le_add_right 32 l.val, show 32 + l.val < 48 by omega⟩
        | inr l => exact ⟨show 32 ≤ 40 + l.val by omega, show 40 + l.val < 48 by omega⟩
    · exact ih hv

/-- The gate of such a vector has the stub of its line. -/
theorem stubOf_irq {v : Nat} (hlo : 32 ≤ v) (hhi : v < 48) :
    stubOf v = some (.irq (v - 32), irqStub v) := by
  have hall : ∀ i < 16, stubOf (32 + i) = some (.irq i, irqStub (32 + i)) := by decide
  have hline := hall (v - 32) (by omega)
  rw [Nat.add_sub_cancel' hlo] at hline
  exact hline

end Steps

/-- In every run from `timer_init` on, however requests come and go and however
they fall between the EOIs, the vectors are those of the queue. Each leads to
the stub of its line, at most two EOIs are still to be sent, and when none is,
no line is in service. -/
theorem irqRun_queue (callback frequency : Nat) (d : Devices) (p : Pair) (es : List IrqEvent)
    {vs : List Nat} {s : IrqState}
    (hrun : irqRun es ⟨timerPics callback frequency d p, []⟩ = some (vs, s)) :
    vs = (queueRun es ∅).1 ∧ s.pics.requests = (queueRun es ∅).2 ∧
    (∀ v ∈ vs, stubOf v = some (.irq (v - 32), irqStub v)) ∧ s.todo.length ≤ 2 ∧
    (s.todo = [] → s.pics.master.isr = ∅ ∧ s.pics.slave.isr = ∅) := by
  obtain ⟨hinv, hempty⟩ := timerPics_inv callback frequency d p
  obtain ⟨hend, hout, hreq⟩ := hinv.run hrun
  dsimp only at hend hout hreq
  rw [hempty] at hout hreq
  refine ⟨hout, hreq, fun v hv => ?_, ?_, fun htodo => ?_⟩
  · rw [hout] at hv
    obtain ⟨hlo, hhi⟩ := queueRun_vectors hv
    exact stubOf_irq hlo hhi
  · have hserved := hend.served
    cases hs : s.todo with
    | nil => simp
    | cons o os =>
      rw [hs] at hserved
      cases hserved <;> simp
  · have hserved := hend.served
    rw [htodo] at hserved
    cases hserved with
    | idle hm hs => exact ⟨hm, hs⟩

/-- The timer, the keyboard and a line of the slave, served in this order, and
then an interrupt without a request. -/
def demoIrqs : List IrqEvent :=
  [.raise (.inr ⟨3, by omega⟩), .raise (.inl ⟨1, by omega⟩), .deliver ∅, .raise (.inl ⟨0, by omega⟩),
    .send, .deliver ∅, .send, .deliver ∅, .send, .send, .deliver ∅]

theorem irqRun_queue_demo : ∃ s,
    irqRun demoIrqs ⟨timerPics 0 100 ⟨[], fun _ => none⟩ ⟨⟨∅, {5}, ∅, 8, .ready⟩, ⟨∅, ∅, ∅, 112, .icw3⟩⟩,
      []⟩ = some ([33, 32, 43, 39], s) ∧ s.todo.length ≤ 2 := by
  obtain ⟨⟨vs, s⟩, hrun⟩ := Option.isSome_iff_exists.mp (show (irqRun demoIrqs ⟨timerPics 0 100
    ⟨[], fun _ => none⟩ ⟨⟨∅, {5}, ∅, 8, .ready⟩, ⟨∅, ∅, ∅, 112, .icw3⟩⟩, []⟩).isSome = true by decide)
  obtain ⟨hvs, -, -, htodo, -⟩ := irqRun_queue 0 100 ⟨[], fun _ => none⟩ _ demoIrqs hrun
  have hqueue : (queueRun demoIrqs ∅).1 = [33, 32, 43, 39] := by decide
  rw [hqueue] at hvs
  exact ⟨s, hvs ▸ hrun, htodo⟩

end MyOS
