import Mathlib.Data.Finset.Sum
import Mathlib.Data.Fintype.Basic

/-!
# A pair of 8259 interrupt controllers

Each chip has eight lines. A request is kept (`irr`) until the CPU acknowledges
it, then the line is in service (`isr`) until the CPU says that it is done
(EOI). A line in service keeps every line behind it from being served. The
slave's output is line 2 of the master.

`take` is what the pair is for: a set of requests from which the first in the
order of priority is taken. The pair is `take` as long as nothing is in service
(`Pair.ack_take`), so everything depends on the EOIs.

A request may go away before the CPU asks for its number. The chip that finds
none then answers with line 7, and does not put it in service. On the slave it
can go even after the master has answered.

Mirroring notes vs the hardware:
- Edge triggered, fixed priorities, and no automatic EOI. The initialisation is
  the one with four words, for two chips.
- An initialisation forgets requests and lines in service, as an emulated
  chip does.
-/

namespace MyOS.Lib.Pic

/-! ## One chip -/

/-- What the next byte at the data port is. -/
inductive Stage where
  | ready
  | icw2
  | icw3
  | icw4
  deriving DecidableEq

structure Chip where
  irr : Finset (Fin 8)
  isr : Finset (Fin 8)
  imr : Finset (Fin 8)
  base : Nat
  stage : Stage

/-- The lines whose bits are set in a byte. -/
def lines (v : Nat) : Finset (Fin 8) := Finset.univ.filter fun l => v.testBit l

/-- The line with the highest priority. -/
def first (s : Finset (Fin 8)) : Option (Fin 8) := (List.finRange 8).find? (· ∈ s)

namespace Chip

/-- A byte at the command port: the start of an initialisation, or an EOI. -/
def command (v : Nat) (c : Chip) : Chip :=
  if v.testBit 4 then { c with irr := ∅, isr := ∅, imr := ∅, stage := .icw2 }
  else if v = 0x20 then (first c.isr).elim c fun l => { c with isr := c.isr.erase l }
  else c

/-- A byte at the data port: the mask, except in an initialisation. -/
def data (v : Nat) (c : Chip) : Chip :=
  match c.stage with
  | .ready => { c with imr := lines v }
  | .icw2 => { c with base := v / 8 * 8, stage := .icw3 }
  | .icw3 => { c with stage := .icw4 }
  | .icw4 => { c with stage := .ready }

/-- The line the chip asks the CPU to serve. -/
def next (c : Chip) : Option (Fin 8) :=
  first ((c.irr \ c.imr).filter fun l => ∀ j ∈ c.isr, l < j)

/-- The answer to the CPU. -/
def ack (c : Chip) : Fin 8 × Chip :=
  c.next.elim (7, c) fun l => (l, { c with irr := c.irr.erase l, isr := insert l c.isr })

end Chip

/-! ## Two chips -/

structure Pair where
  master : Chip
  slave : Chip

/-- A line of the master, or of the slave. -/
abbrev Irq := Fin 8 ⊕ Fin 8

/-- The line of the master that the slave is on. -/
def slaveLine : Irq := .inl 2

namespace Pair

/-- A byte at a port. -/
def out (p : Pair) (w : Nat × Nat) : Pair :=
  if w.1 = 0x20 then { p with master := p.master.command w.2 }
  else if w.1 = 0x21 then { p with master := p.master.data w.2 }
  else if w.1 = 0xA0 then { p with slave := p.slave.command w.2 }
  else if w.1 = 0xA1 then { p with slave := p.slave.data w.2 }
  else p

def raise (p : Pair) : Irq → Pair
  | .inl l => { p with master := { p.master with irr := insert l p.master.irr } }
  | .inr l => { p with slave := { p.slave with irr := insert l p.slave.irr } }

def withdraw (p : Pair) : Irq → Pair
  | .inl l => { p with master := { p.master with irr := p.master.irr.erase l } }
  | .inr l => { p with slave := { p.slave with irr := p.slave.irr.erase l } }

/-- The master with the slave's output on line 2. -/
def cascade (p : Pair) : Chip :=
  if p.slave.next.isSome then { p.master with irr := insert 2 p.master.irr } else p.master

/-- The CPU asks for a vector. For line 2 the slave answers, and the requests
`gone` have left it since the master has answered. -/
def ack (gone : Finset (Fin 8)) (p : Pair) : Nat × Pair :=
  let m := p.cascade.ack
  let master := { m.2 with irr := m.2.irr.erase 2 }
  if m.1 = 2 then
    let s := { p.slave with irr := p.slave.irr \ gone }.ack
    (p.slave.base + s.1, ⟨master, s.2⟩)
  else (p.master.base + m.1, ⟨master, p.slave⟩)

/-- All requests. -/
def requests (p : Pair) : Finset Irq := p.master.irr.disjSum p.slave.irr

/-- Initialised, nothing masked, and line 2 left to the slave. -/
structure Ready (base base' : Nat) (p : Pair) : Prop where
  masterBase : p.master.base = base
  slaveBase : p.slave.base = base'
  masterMask : p.master.imr = ∅
  slaveMask : p.slave.imr = ∅
  masterStage : p.master.stage = .ready
  slaveStage : p.slave.stage = .ready
  line2 : 2 ∉ p.master.irr

end Pair

/-! ## Requests by priority -/

/-- The slave's lines stand in the place of line 2. -/
def order : List Irq :=
  [.inl 0, .inl 1] ++ (List.finRange 8).map .inr ++ [.inl 3, .inl 4, .inl 5, .inl 6, .inl 7]

/-- The answer of a chip for a request it no longer has. -/
def takeSlave (q : Finset Irq) : Irq × Finset Irq :=
  (((List.finRange 8).map Sum.inr).find? (· ∈ q)).elim (.inr 7, q) fun i => (i, q.erase i)

/-- The first request is taken from `q`; `gone` leave the slave too late. -/
def take (gone : Finset (Fin 8)) (q : Finset Irq) : Irq × Finset Irq :=
  (order.find? (· ∈ q)).elim (.inl 7, q) fun
    | .inl l => (.inl l, q.erase (.inl l))
    | .inr _ => takeSlave (q \ gone.map .inr)

/-! ## A chip with nothing in service -/

section Chip

variable {c : Chip} {s : Finset (Fin 8)} {l : Fin 8}

theorem first_eq_none_iff : first s = none ↔ s = ∅ := by
  unfold first
  rw [List.find?_eq_none]
  refine ⟨fun h => Finset.eq_empty_of_forall_notMem fun l hl => ?_, fun h l _ => by simp [h]⟩
  exact h l (List.mem_finRange l) (by simpa using hl)

theorem mem_of_first (h : first s = some l) : l ∈ s := by simpa using List.find?_some h

/-- One EOI ends the service of the one line there is. -/
theorem Chip.command_eoi (h : c.isr ⊆ {l}) : c.command 0x20 = { c with isr := ∅ } := by
  have hno : ¬Nat.testBit 0x20 4 = true := by decide
  unfold Chip.command
  rw [if_neg hno, if_pos rfl]
  cases hf : first c.isr with
  | none =>
    rw [Option.elim_none]
    rw [first_eq_none_iff] at hf
    cases c
    simpa using hf
  | some j =>
    have hj := mem_of_first hf
    have hjl : j = l := Finset.mem_singleton.mp (h hj)
    have herase : c.isr.erase j = ∅ := by
      rw [Finset.erase_eq_empty_iff]
      exact Or.inr (hjl ▸ Finset.Subset.antisymm h (Finset.singleton_subset_iff.mpr (hjl ▸ hj)))
    rw [Option.elim_some, herase]

theorem Chip.next_idle (hmask : c.imr = ∅) (hisr : c.isr = ∅) : c.next = first c.irr := by
  unfold Chip.next
  rw [hmask, hisr]
  simp

/-- The answer puts one line in service, or none. -/
theorem Chip.ack_idle (hmask : c.imr = ∅) (hisr : c.isr = ∅) :
    (∃ l, first c.irr = some l ∧ c.ack = (l, { c with irr := c.irr.erase l, isr := {l} })) ∨
    (first c.irr = none ∧ c.ack = (7, c)) := by
  unfold Chip.ack
  rw [Chip.next_idle hmask hisr]
  cases first c.irr with
  | none => exact Or.inr ⟨rfl, rfl⟩
  | some l =>
    refine Or.inl ⟨l, rfl, ?_⟩
    rw [Option.elim_some, hisr]
    rfl

end Chip

/-! ## The pair with nothing in service -/

section Pair

variable {p : Pair} {base base' : Nat} {M S gone : Finset (Fin 8)}

/-- The vector of a line. -/
def Irq.vector (base base' : Nat) : Irq → Nat := Sum.elim (fun l => base + l) fun l => base' + l

/-- The lines before and behind line 2. -/
def high : List (Fin 8) := [0, 1]

def low : List (Fin 8) := [3, 4, 5, 6, 7]

theorem finRange_eq : List.finRange 8 = high ++ [2] ++ low := rfl

theorem order_eq : order = high.map .inl ++ (List.finRange 8).map .inr ++ low.map .inl := rfl

theorem ne_two_of_mem_high {l : Fin 8} (h : l ∈ high) : l ≠ 2 := by
  rintro rfl
  exact absurd h (by decide)

theorem find?_inl (ls : List (Fin 8)) :
    (ls.map (Sum.inl : Fin 8 → Irq)).find? (· ∈ M.disjSum S) = (ls.find? (· ∈ M)).map .inl := by
  rw [List.find?_map]
  congr 2
  funext l
  simp

theorem find?_inr : ((List.finRange 8).map (Sum.inr : Fin 8 → Irq)).find? (· ∈ M.disjSum S)
    = (first S).map .inr := by
  unfold first
  rw [List.find?_map]
  congr 2
  funext l
  simp

/-- The first request of the pair, from those of the chips. -/
theorem find?_order : order.find? (· ∈ M.disjSum S) =
    (((high.find? (· ∈ M)).map .inl).or ((first S).map .inr)).or ((low.find? (· ∈ M)).map .inl) := by
  rw [order_eq, List.find?_append, List.find?_append, find?_inl, find?_inr, find?_inl]

theorem first_of_notMem_two (h2 : 2 ∉ M) :
    first M = (high.find? (· ∈ M)).or (low.find? (· ∈ M)) := by
  have hmid : ([2] : List (Fin 8)).find? (· ∈ M) = none := by simp [h2]
  unfold first
  rw [finRange_eq, List.find?_append, List.find?_append, hmid, Option.or_none]

theorem first_insert_two : first (insert 2 M) = (high.find? (· ∈ M)).or (some 2) := by
  have hhigh : high.find? (· ∈ insert 2 M) = high.find? (· ∈ M) := by simp [high, List.find?_cons]
  have hmid : ([2] : List (Fin 8)).find? (· ∈ insert 2 M) = some 2 := by simp
  unfold first
  rw [finRange_eq, List.find?_append, List.find?_append, hhigh, hmid]
  cases high.find? (· ∈ M) <;> rfl

theorem requests_erase_inl (l : Fin 8) :
    (M.disjSum S).erase (.inl l) = (M.erase l).disjSum S := by
  ext i
  cases i <;> simp

theorem requests_erase_inr (l : Fin 8) :
    (M.disjSum S).erase (.inr l) = M.disjSum (S.erase l) := by
  ext i
  cases i <;> simp

theorem requests_sdiff : M.disjSum S \ gone.map .inr = M.disjSum (S \ gone) := by
  ext i
  cases i <;> simp

/-- The pair has answered as `r` says, and at most one line of each chip is in
service: none of the slave's if the line is the master's. -/
structure Pair.Answered (base base' : Nat) (r : Irq × Finset Irq) (a : Nat × Pair) : Prop where
  vector : a.1 = r.1.vector base base'
  requests : a.2.requests = r.2
  ready : a.2.Ready base base'
  master : ∃ l, a.2.master.isr ⊆ {l}
  slave : ∃ l, a.2.slave.isr ⊆ {l}
  direct : r.1.isLeft = true → a.2.slave.isr = ∅

/-- The slave's requests are on line 2. -/
theorem Pair.cascade_eq (hmask : p.slave.imr = ∅) (hisr : p.slave.isr = ∅) : p.cascade =
    if first p.slave.irr = none then p.master
    else { p.master with irr := insert 2 p.master.irr } := by
  unfold Pair.cascade
  rw [Chip.next_idle hmask hisr]
  cases first p.slave.irr <;> rfl

/-- A line of the master. -/
theorem Pair.answered_master {l : Fin 8} {irr : Finset (Fin 8)} (h : p.Ready base base')
    (hs : p.slave.isr = ∅) (hl : l ≠ 2) (hirr : irr.erase 2 = p.master.irr)
    (hack : p.cascade.ack = (l, { p.master with irr := irr.erase l, isr := {l} })) :
    Pair.Answered base base' (.inl l, p.requests.erase (.inl l)) (p.ack gone) := by
  have hirr' : (irr.erase l).erase 2 = p.master.irr.erase l := by
    rw [Finset.erase_right_comm, hirr]
  unfold Pair.ack
  rw [hack]
  dsimp only
  rw [if_neg hl, hirr']
  refine ⟨?_, ?_, ⟨h.masterBase, h.slaveBase, h.masterMask, h.slaveMask, h.masterStage, h.slaveStage,
    ?_⟩, ⟨l, subset_rfl⟩, ⟨l, ?_⟩, fun _ => hs⟩
  · rw [h.masterBase]
    rfl
  · unfold Pair.requests
    rw [requests_erase_inl]
  · exact fun h2 => h.line2 (Finset.mem_of_mem_erase h2)
  · show p.slave.isr ⊆ _
    rw [hs]
    exact Finset.empty_subset _

/-- No request. -/
theorem Pair.answered_none (h : p.Ready base base') (hm : p.master.isr = ∅) (hs : p.slave.isr = ∅)
    (hack : p.cascade.ack = (7, p.master)) :
    Pair.Answered base base' (.inl 7, p.requests) (p.ack gone) := by
  have hirr : p.master.irr.erase 2 = p.master.irr := Finset.erase_eq_of_notMem h.line2
  have hne : (7 : Fin 8) ≠ 2 := by decide
  unfold Pair.ack
  rw [hack]
  dsimp only
  rw [if_neg hne, hirr]
  refine ⟨?_, rfl, h, ⟨7, ?_⟩, ⟨7, ?_⟩, fun _ => hs⟩
  · rw [h.masterBase]
    rfl
  · show p.master.isr ⊆ _
    rw [hm]
    exact Finset.empty_subset _
  · show p.slave.isr ⊆ _
    rw [hs]
    exact Finset.empty_subset _

/-- A line of the slave, or none of those it had. -/
theorem Pair.answered_slave (h : p.Ready base base') (hs : p.slave.isr = ∅)
    (hack : p.cascade.ack = (2, { p.master with irr := (insert 2 p.master.irr).erase 2, isr := {2} })) :
    Pair.Answered base base' (takeSlave (p.requests \ gone.map .inr)) (p.ack gone) := by
  have hirr : ((insert 2 p.master.irr).erase 2).erase 2 = p.master.irr := by
    rw [Finset.erase_idem, Finset.erase_insert h.line2]
  obtain ⟨c, hc⟩ : ∃ c, c = { p.slave with irr := p.slave.irr \ gone } := ⟨_, rfl⟩
  have hcirr : c.irr = p.slave.irr \ gone := by rw [hc]
  have hcmask : c.imr = ∅ := by
    rw [hc]
    exact h.slaveMask
  have hcisr : c.isr = ∅ := by
    rw [hc]
    exact hs
  have hcbase : c.base = base' := by
    rw [hc]
    exact h.slaveBase
  have hcstage : c.stage = .ready := by
    rw [hc]
    exact h.slaveStage
  have hq : p.requests \ gone.map .inr = p.master.irr.disjSum c.irr := by
    unfold Pair.requests
    rw [requests_sdiff, hcirr]
  unfold Pair.ack takeSlave
  rw [hack, hq, find?_inr, ← hc]
  dsimp only
  rw [if_pos rfl, hirr]
  rcases Chip.ack_idle hcmask hcisr with ⟨l, hfirst, hcack⟩ | ⟨hfirst, hcack⟩
  · rw [hfirst, hcack, Option.map_some, Option.elim_some, requests_erase_inr]
    refine ⟨?_, rfl, ⟨h.masterBase, hcbase, h.masterMask, hcmask, h.masterStage, hcstage, h.line2⟩,
      ⟨2, subset_rfl⟩, ⟨l, subset_rfl⟩, fun hleft => by cases hleft⟩
    rw [h.slaveBase]
    rfl
  · rw [hfirst, hcack, Option.map_none, Option.elim_none]
    refine ⟨?_, rfl, ⟨h.masterBase, hcbase, h.masterMask, hcmask, h.masterStage, hcstage, h.line2⟩,
      ⟨2, subset_rfl⟩, ⟨7, ?_⟩, fun hleft => by cases hleft⟩
    · rw [h.slaveBase]
      rfl
    · show c.isr ⊆ _
      rw [hcisr]
      exact Finset.empty_subset _

/-- With nothing in service the pair takes the first of all requests. -/
theorem Pair.ack_take (h : p.Ready base base') (hm : p.master.isr = ∅) (hs : p.slave.isr = ∅) :
    Pair.Answered base base' (take gone p.requests) (p.ack gone) := by
  have hcascade := Pair.cascade_eq h.slaveMask hs
  have hcmask : p.cascade.imr = ∅ := by
    rw [hcascade]
    split <;> exact h.masterMask
  have hcisr : p.cascade.isr = ∅ := by
    rw [hcascade]
    split <;> exact hm
  have hack := Chip.ack_idle hcmask hcisr
  have hfind : order.find? (· ∈ p.requests) = _ := find?_order
  unfold take
  rw [hfind]
  by_cases hslave : first p.slave.irr = none
  · -- the master alone
    rw [if_pos hslave] at hcascade
    rw [hcascade, first_of_notMem_two h.line2] at hack
    rw [hslave, Option.map_none, Option.or_none, ← Option.map_or]
    rcases hack with ⟨l, hl, hack⟩ | ⟨hl, hack⟩
    · have hmem : l ∈ p.master.irr := by
        rw [← first_of_notMem_two h.line2] at hl
        exact mem_of_first hl
      rw [hl, Option.map_some, Option.elim_some]
      have hline : l ≠ 2 := fun h2 => h.line2 (h2 ▸ hmem)
      refine Pair.answered_master h hs hline (Finset.erase_eq_of_notMem h.line2) ?_
      rw [hcascade]
      exact hack
    · rw [hl, Option.map_none, Option.elim_none]
      exact Pair.answered_none h hm hs (hcascade.symm ▸ hack)
  · rw [if_neg hslave] at hcascade
    rw [hcascade] at hack
    dsimp only at hack
    rw [first_insert_two] at hack
    obtain ⟨j, hj⟩ := Option.ne_none_iff_exists'.mp hslave
    rw [hj, Option.map_some]
    cases hhigh : high.find? (· ∈ p.master.irr) with
    | some l =>
      rw [hhigh, Option.some_or] at hack
      rcases hack with ⟨l', hl', hack⟩ | ⟨hl', -⟩
      · cases hl'
        rw [Option.map_some, Option.some_or, Option.some_or, Option.elim_some]
        refine Pair.answered_master h hs (ne_two_of_mem_high (List.mem_of_find?_eq_some hhigh)) ?_
          (hcascade.symm ▸ hack)
        exact Finset.erase_insert h.line2
      · cases hl'
    | none =>
      rw [hhigh, Option.none_or] at hack
      rcases hack with ⟨l', hl', hack⟩ | ⟨hl', -⟩
      · cases hl'
        rw [Option.map_none, Option.none_or, Option.some_or, Option.elim_some]
        exact Pair.answered_slave h hs (hcascade.symm ▸ hack)
      · cases hl'

/-! ## Lines and bytes -/

theorem Pair.requests_raise (i : Irq) : (p.raise i).requests = insert i p.requests := by
  ext j
  cases i <;> cases j <;> simp [Pair.raise, Pair.requests]

theorem Pair.requests_withdraw (i : Irq) : (p.withdraw i).requests = p.requests.erase i := by
  cases i with
  | inl l => exact (requests_erase_inl l).symm
  | inr l => exact (requests_erase_inr l).symm

theorem Pair.Ready.raise {i : Irq} (h : p.Ready base base') (hi : i ≠ slaveLine) :
    (p.raise i).Ready base base' := by
  cases i with
  | inl l =>
    refine { h with line2 := fun h2 => ?_ }
    rcases Finset.mem_insert.mp h2 with h2 | h2
    · exact hi (congrArg Sum.inl h2.symm)
    · exact h.line2 h2
  | inr l => exact { h with }

theorem Pair.Ready.withdraw (h : p.Ready base base') (i : Irq) : (p.withdraw i).Ready base base' := by
  cases i with
  | inl l => exact { h with line2 := fun h2 => h.line2 (Finset.mem_of_mem_erase h2) }
  | inr l => exact { h with }

theorem Pair.isr_raise (i : Irq) : (p.raise i).master.isr = p.master.isr ∧
    (p.raise i).slave.isr = p.slave.isr := by
  cases i <;> exact ⟨rfl, rfl⟩

theorem Pair.isr_withdraw (i : Irq) : (p.withdraw i).master.isr = p.master.isr ∧
    (p.withdraw i).slave.isr = p.slave.isr := by
  cases i <;> exact ⟨rfl, rfl⟩

/-- An EOI to the master. -/
theorem Pair.out_eoi_master {l : Fin 8} (h : p.master.isr ⊆ {l}) :
    p.out (0x20, 0x20) = { p with master := { p.master with isr := ∅ } } := by
  unfold Pair.out
  rw [if_pos rfl, Chip.command_eoi h]

/-- An EOI to the slave. -/
theorem Pair.out_eoi_slave {l : Fin 8} (h : p.slave.isr ⊆ {l}) :
    p.out (0xA0, 0x20) = { p with slave := { p.slave with isr := ∅ } } := by
  unfold Pair.out
  dsimp only
  rw [if_neg (by decide), if_neg (by decide), if_pos rfl, Chip.command_eoi h]

end Pair

end MyOS.Lib.Pic
