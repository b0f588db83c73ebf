import MyOS.Trap.RoundTrip
import Mathlib.Data.List.TakeWhile

/-!
# A program in Ring 3, from `enter_user_mode` on

`enter_user_mode` builds the frame of an interrupt that never was and leaves
through `iret`. From there on the program runs, is interrupted and goes on, any
number of times. `UserRun` is such a run: steps of the program, which may change
its registers and any memory, and traps through the stubs with handlers in C.

Between two traps the CPU is in Ring 3 with the program's segments and with
interrupts on (`InUser`), and nothing of a trap stays behind on the kernel's
stack: every one finds `struct registers` at the same place, 64 bytes below
`esp0`, and holding the program's registers (`userRun_traps`).

For the program a system call is one instruction that prints and sets EAX. What
it prints and returns is a function of the program's own state
(`syscallMeaning`), in every run (`userRun_syscalls`), as long as the buffer of
a `sys_write` is mapped.

Mirroring notes vs the source:
- A program never loads a segment register, leaves the descriptor tables and
  the stubs alone, and in Ring 3 it cannot change IF.
- `sys_write` reads the buffer as Ring 0. `mapped` are the addresses it can read
  without a page fault; a call that comes to another one is followed up to
  there, and the run ends.
- `sys_exit` ends in `task_exit`, which does not return to the program: the
  handler returns no memory, and a run ends there.
-/

namespace MyOS

open Lib Lib.Mem Lib.X86

/-! ## Into Ring 3 -/

/-- `enter_user_mode`, from its first instruction: the arguments lie above the
return address. -/
def enterUserMode (s : Core) : Core :=
  let s := s.set .ecx (ldw s.mem (add32 (s.regs .esp) 4))
  let s := s.set .edx (ldw s.mem (add32 (s.regs .esp) 8))
  let s := s.cli
  let s := (s.setAx 0x23).loadData
  let s := ((((s.push 0x23).push (s.regs .edx)).push 0x202).push 0x1B).push (s.regs .ecx)
  s.iret segmentDpl

/-- The selectors of a program. -/
def userSegs : Segs := ⟨0x1B, 0x23, 0x23, 0x23, 0x23, 0x23⟩

/-- A program is running, and can be interrupted. -/
structure InUser (s : Core) : Prop where
  regs : ∀ r, s.regs r < 2 ^ 32
  eip : s.eip < 2 ^ 32
  eflags : s.eflags < 2 ^ 32
  intFlag : s.eflags.testBit 9 = true
  segs : s.segs = userSegs

theorem InUser.interrupted {s : Core} (h : InUser s) : Interrupted s := by
  refine ⟨h.regs, h.eip, h.eflags, ?_, ?_, ?_, ?_⟩
  all_goals rw [h.segs]
  all_goals decide

theorem InUser.cpl {s : Core} (h : InUser s) : s.segs.cpl ≠ 0 := by
  rw [h.segs]
  decide

/-- A program starts at the entry and on the stack it was given, with clean
flags and its own segments. -/
theorem enterUserMode_spec {s : Core} (hregs : ∀ r, s.regs r < 2 ^ 32) (hcs : s.segs.cs = 0x08) :
    InUser (enterUserMode s) ∧ (enterUserMode s).eip = ldw s.mem (add32 (s.regs .esp) 4) ∧
    (enterUserMode s).regs .esp = ldw s.mem (add32 (s.regs .esp) 8) ∧
    (enterUserMode s).eflags = 0x202 := by
  obtain ⟨entry, hentry⟩ : ∃ e, e = ldw s.mem (add32 (s.regs .esp) 4) := ⟨_, rfl⟩
  obtain ⟨stack, hstack⟩ : ∃ e, e = ldw s.mem (add32 (s.regs .esp) 8) := ⟨_, rfl⟩
  have hentrylt : entry < 2 ^ 32 := hentry ▸ ldw_lt _ _
  have hstacklt : stack < 2 ^ 32 := hstack ▸ ldw_lt _ _
  -- the registers when the frame is built
  obtain ⟨u, hu⟩ : ∃ u, u = ((((s.set .ecx entry).set .edx stack).cli).setAx 0x23).loadData := ⟨_, rfl⟩
  obtain ⟨w, hwlt, hw⟩ : ∃ w, w < 2 ^ 32 ∧
      u.regs = (((s.set .ecx entry).set .edx stack).set .eax w).regs := by
    refine ⟨s.regs .eax / 2 ^ 16 * 2 ^ 16 + 0x23, ?_, ?_⟩
    · have heax := hregs .eax
      omega
    · rw [hu]
      rfl
  have hult : ∀ r, u.regs r < 2 ^ 32 := by
    intro r
    rw [hw]
    unfold Core.set
    simp only [Function.update_apply]
    split
    · exact hwlt
    split
    · exact hstacklt
    split
    · exact hentrylt
    · exact hregs r
  have hesp : u.regs .esp = s.regs .esp := by
    rw [hw, Core.set_ne _ _ (by decide), Core.set_ne _ _ (by decide), Core.set_ne _ _ (by decide)]
  have hedx : u.regs .edx = stack := by
    rw [hw, Core.set_ne _ _ (by decide), Core.set_self]
  have hecx : u.regs .ecx = entry := by
    rw [hw, Core.set_ne _ _ (by decide), Core.set_ne _ _ (by decide), Core.set_self]
  have hsegs : u.segs = s.segs.setData 0x23 := by
    rw [hu, Core.setAx_loadData _ (by omega)]
    rfl
  have hrun : enterUserMode s
      = (((((u.push 0x23).push stack).push 0x202).push 0x1B).push entry).iret segmentDpl := by
    unfold enterUserMode
    rw [← hentry]
    have hsame : (s.set .ecx entry).regs .esp = s.regs .esp := Core.set_ne _ _ (by decide)
    have hmem : (s.set .ecx entry).mem = s.mem := rfl
    simp only [hsame, hmem]
    rw [← hstack, ← hu, hedx, hecx]
  have h0 : StackHolds (s.regs .esp) [] u := by
    have h := stackHolds_nil (s := u) (by rw [hesp]; exact hregs .esp)
    rw [hesp] at h
    exact h
  have h1 := h0.push (v := 0x23) (by omega) (by simp)
  have h2 := h1.push hstacklt (by simp)
  have h3 := h2.push (v := 0x202) (by omega) (by simp)
  have h4 := h3.push (v := 0x1B) (by omega) (by simp)
  have h5 := h4.push hentrylt (by simp)
  obtain ⟨f, hf⟩ : ∃ f, f = ((((u.push 0x23).push stack).push 0x202).push 0x1B).push entry := ⟨_, rfl⟩
  rw [← hf] at h5 hrun
  have hring : f.segs.cpl < 0x1B % 4 := by
    rw [hf]
    simp only [Core.push_segs, hsegs]
    show s.segs.cs % 4 < _
    rw [hcs]
    decide
  have hiret : f.iret segmentDpl = _ := h5.iret_outer (by omega) (by omega) hring
  have hpop := (h5.popFrame (by simp) (by omega)).1
  have hfregs : ∀ r, r ≠ .esp → f.regs r = u.regs r := by
    intro r hr
    rw [hf, Core.push_ne _ _ hr, Core.push_ne _ _ hr, Core.push_ne _ _ hr, Core.push_ne _ _ hr,
      Core.push_ne _ _ hr]
  have hfsegs : f.popFrame.segs = { s.segs.setData 0x23 with cs := 0x1B } := by
    rw [hpop, hf]
    simp only [Core.push_segs, hsegs]
  have hcheck : Segs.checkData segmentDpl { s.segs.setData 0x23 with cs := 0x1B }
      = { s.segs.setData 0x23 with cs := 0x1B } := by
    refine Segs.checkData_eq_self rfl (Or.inr ?_)
    show 0x1B % 4 ≤ segmentDpl 0x23
    decide
  have hstackset : ((((f.drop 4).drop 4).drop 4).set .esp stack).regs .esp = stack :=
    Core.set_self _ _ _
  rw [hrun, hiret, hfsegs, hcheck, hpop]
  refine ⟨⟨fun r => ?_, ?_, ?_, ?_, ?_⟩, ?_, ?_, ?_⟩
  · by_cases hr : r = .esp
    · rw [hr]
      exact lt_of_eq_of_lt hstackset hstacklt
    · have hsame : ((((f.drop 4).drop 4).drop 4).set .esp stack).regs r = u.regs r := by
        rw [Core.set_ne _ _ hr, Core.drop_ne _ _ hr, Core.drop_ne _ _ hr, Core.drop_ne _ _ hr,
          hfregs r hr]
      exact lt_of_eq_of_lt hsame (hult r)
  · exact hentrylt
  · show 0x202 < 2 ^ 32
    omega
  · show Nat.testBit 0x202 9 = true
    decide
  · rfl
  · exact hentry
  · exact hstackset.trans hstack
  · rfl

/-! ## One trap -/

section Trap

variable (im : TrapImage) {handlers : Nat → Option Handler} {v err : Nat} {s : Core}

/-- A trap of a program: the struct lies 64 bytes below `esp0` and holds the
program's registers, and the program goes on with them. -/
theorem userTrap (hs : InUser s) (hv : v < 48 ∨ v = 128) (herr : err < 2 ^ 32) {label : Label}
    {st : Stub} (hst : stubOf v = some (label, st))
    (hkeep : ∀ handler, handlers v = some handler → KeepsFrame handler) :
    argument (im.atDispatcher v err label st s) = sub32 im.tss.esp0 64 ∧
    Saved v err s (registersAt (im.atDispatcher v err label st s).mem (sub32 im.tss.esp0 64)) ∧
    ∀ m t, (st.common.dispatch handlers (im.atDispatcher v err label st s).mem
        (sub32 im.tss.esp0 64)).2 = some m →
      Returns m (sub32 im.tss.esp0 64) (im.atDispatcher v err label st s) t →
      Restored s (registersAt m (sub32 im.tss.esp0 64)).eax (leaveCommon segmentDpl t) := by
  obtain ⟨label', st', hst', hint, hdummy⟩ := stubOf_of_vector hv
  rw [hst] at hst'
  cases hst'
  have hi := hs.interrupted
  obtain ⟨w, f, hw, hf, hstack⟩ := stackHolds_atDispatcher im label hi herr hv hint hdummy
  obtain ⟨e, he⟩ : ∃ e, e = im.atDispatcher v err label st s := ⟨_, rfl⟩
  have hsegs := atDispatcher_segs im label v err st s
  rw [← he] at hstack hsegs ⊢
  -- from Ring 3 the CPU pushes the old stack too: seven words in all
  have hwords : (trapWords v err s).length = 7 := by
    unfold trapWords outerWords
    rw [if_neg hs.cpl]
    rfl
  have hbase : stackBase im.tss s = im.tss.esp0 := if_neg hs.cpl
  rw [hbase, hwords] at hstack
  have hlen : (frameWords w f (trapWords v err s)).length = 16 := by
    rw [frameWords_length, hwords]
  obtain ⟨harg, hfields⟩ := stackHolds_struct hstack (by omega) (by rw [hlen])
  have hsaved := saved_of_words hw hf hfields
  refine ⟨harg, hsaved, fun m t hrun hret => ?_⟩
  have hsame := dispatch_keeps st.common hsaved.intNo hkeep hrun
  have hback := hret.stackHolds hstack (by omega) (by rw [hlen]) hsame
  rw [frameWords_set] at hback
  obtain ⟨hframe, hregs, hsegs'⟩ := stackHolds_undoCommon hback (by
    have hout := outerWords_length s
    simp only [List.length_cons]
    omega)
  have hkernel : (undoCommon t).segs = { s.segs with cs := 0x08, ss := t.segs.ss } := by
    rw [hsegs', hw, hs.segs]
    simp only [Segs.setData, userSegs, hret.cs.trans hsegs.1]
  have hregs' : ∀ r, r ≠ .esp → r ≠ .eax → (undoCommon t).regs r = s.regs r := by
    intro r hr hr'
    rw [hregs r hr, Function.update_of_ne hr', hf r hr]
  rw [← hbase] at hframe
  have hres := restored_iret hi (by rw [hs.segs]; rfl) hframe hregs' hkernel
    fun hring => absurd hring hs.cpl
  have heax : (undoCommon t).regs .eax = field m (sub32 im.tss.esp0 64) 8 :=
    (hregs .eax (by decide)).trans (Function.update_self ..)
  rw [heax] at hres
  exact hres

theorem InUser.restored {t : Core} {eax : Nat} (hs : InUser s) (h : Restored s eax t)
    (heax : eax < 2 ^ 32) : InUser t := by
  refine ⟨fun r => ?_, ?_, ?_, ?_, ?_⟩
  · by_cases hr : r = .eax
    · rw [hr, h.eax]
      exact heax
    · rw [h.regs r hr]
      exact hs.regs r
  · rw [h.eip]
    exact hs.eip
  · rw [h.eflags]
    exact hs.eflags
  · rw [h.eflags]
    exact hs.intFlag
  · rw [h.segs]
    exact hs.segs

end Trap

/-! ## Runs -/

/-- What a program does between two traps: anything with its registers and
with memory. -/
structure UserStep (s t : Core) : Prop where
  regs : ∀ r, t.regs r < 2 ^ 32
  eip : t.eip < 2 ^ 32
  eflags : t.eflags < 2 ^ 32
  intFlag : t.eflags.testBit 9 = s.eflags.testBit 9
  segs : t.segs = s.segs

/-- A trap as the kernel and the program see it: the state it came in, the
pointer the dispatcher was given and what it found there, what went out, and
the state the program goes on in, if it does. -/
structure TrapEvent where
  vector : Nat
  err : Nat
  before : Core
  regs : Nat
  saved : SavedRegisters
  output : List Output
  after : Option Core

/-- The stub of the vector, its dispatcher and, if this returns, the way
back. -/
structure TrapEvent.Happens (im : TrapImage) (handlers : Nat → Option Handler) (ev : TrapEvent) :
    Prop where
  vector : ev.vector < 48 ∨ ev.vector = 128
  err : ev.err < 2 ^ 32
  runs : ∃ label st, stubOf ev.vector = some (label, st) ∧
    let e := im.atDispatcher ev.vector ev.err label st ev.before
    let d := st.common.dispatch handlers e.mem (argument e)
    ev.regs = argument e ∧ ev.saved = registersAt e.mem (argument e) ∧ ev.output = d.1 ∧
      (d.2 = none → ev.after = none) ∧
      ∀ m, d.2 = some m → ∃ t, Returns m (argument e) e t ∧ ev.after = some (leaveCommon segmentDpl t)

/-- The program runs from `s`, with these traps; it is over if it is not in a
state at the end. -/
inductive UserRun (im : TrapImage) (handlers : Nat → Option Handler) :
    Core → List TrapEvent → Option Core → Prop where
  | done (s : Core) : UserRun im handlers s [] (some s)
  | step {s s' : Core} {evs : List TrapEvent} {t : Option Core} (hstep : UserStep s s')
      (hrest : UserRun im handlers s' evs t) : UserRun im handlers s evs t
  | trap {ev : TrapEvent} {s' : Core} {evs : List TrapEvent} {t : Option Core}
      (hev : ev.Happens im handlers) (hafter : ev.after = some s')
      (hrest : UserRun im handlers s' evs t) : UserRun im handlers ev.before (ev :: evs) t
  | stop {ev : TrapEvent} (hev : ev.Happens im handlers) (hafter : ev.after = none) :
      UserRun im handlers ev.before [ev] none

/-- What a trap is to the program and to the kernel: the struct is at the one
place and has the program's registers, and the program goes on with all of them
but EAX. -/
structure TrapEvent.Transparent (im : TrapImage) (ev : TrapEvent) : Prop where
  before : InUser ev.before
  regs : ev.regs = sub32 im.tss.esp0 64
  saved : Saved ev.vector ev.err ev.before ev.saved
  after : ∀ t ∈ ev.after, InUser t ∧ ∃ eax, Restored ev.before eax t

section Runs

variable {im : TrapImage} {handlers : Nat → Option Handler}

theorem InUser.step {s t : Core} (hs : InUser s) (h : UserStep s t) : InUser t :=
  ⟨h.regs, h.eip, h.eflags, h.intFlag.trans hs.intFlag, h.segs.trans hs.segs⟩

theorem TrapEvent.Happens.transparent {ev : TrapEvent} (h : ev.Happens im handlers)
    (hs : InUser ev.before) (hkeep : ∀ v handler, handlers v = some handler → KeepsFrame handler) :
    ev.Transparent im := by
  obtain ⟨label, st, hst, hregs, hsaved, -, hnone, hsome⟩ := h.runs
  obtain ⟨harg, hframe, hback⟩ :=
    userTrap im hs h.vector h.err hst fun handler hh => hkeep ev.vector handler hh
  rw [harg] at hregs hsaved hnone hsome
  refine ⟨hs, hregs, hsaved ▸ hframe, fun t ht => ?_⟩
  obtain ⟨d, hd⟩ : ∃ d, d = (st.common.dispatch handlers
    (im.atDispatcher ev.vector ev.err label st ev.before).mem (sub32 im.tss.esp0 64)).2 := ⟨_, rfl⟩
  rw [← hd] at hnone hsome hback
  cases d with
  | none => exact absurd (hnone rfl ▸ ht) (by simp)
  | some m =>
    obtain ⟨u, hret, hafter⟩ := hsome m rfl
    have hres := hback m u rfl hret
    rw [hafter] at ht
    rw [← Option.some.inj ht]
    exact ⟨hs.restored hres (ldw_lt _ _), _, hres⟩

/-- Whatever holds of a trap that comes in Ring 3 holds of every trap of a
run. -/
theorem UserRun.forall_events {P : TrapEvent → Prop}
    (hkeep : ∀ v handler, handlers v = some handler → KeepsFrame handler)
    (hP : ∀ ev : TrapEvent, InUser ev.before → ev.Happens im handlers → P ev) {s : Core}
    {evs : List TrapEvent} {t : Option Core} (h : UserRun im handlers s evs t) (hs : InUser s) :
    (∀ u ∈ t, InUser u) ∧ ∀ ev ∈ evs, P ev := by
  induction h with
  | done s => exact ⟨fun u hu => Option.some.inj hu ▸ hs, by simp⟩
  | step hstep _ ih => exact ih (hs.step hstep)
  | trap hev hafter _ ih =>
    have hnext := (hev.transparent hs hkeep).after _ hafter
    obtain ⟨hend, hall⟩ := ih hnext.1
    refine ⟨hend, fun e he => ?_⟩
    rcases List.mem_cons.mp he with rfl | he
    · exact hP _ hs hev
    · exact hall e he
  | stop hev _ =>
    refine ⟨by simp, fun e he => ?_⟩
    rw [List.mem_singleton.mp he]
    exact hP _ hs hev

/-- From `enter_user_mode` on the program is in Ring 3 whenever it runs, and
every trap is transparent, whatever was interrupted and however often. -/
theorem userRun_traps {s : Core} {evs : List TrapEvent} {t : Option Core}
    (hregs : ∀ r, s.regs r < 2 ^ 32) (hcs : s.segs.cs = 0x08)
    (hkeep : ∀ v handler, handlers v = some handler → KeepsFrame handler)
    (hrun : UserRun im handlers (enterUserMode s) evs t) :
    (enterUserMode s).eip = ldw s.mem (add32 (s.regs .esp) 4) ∧
    (enterUserMode s).regs .esp = ldw s.mem (add32 (s.regs .esp) 8) ∧
    (∀ u ∈ t, InUser u) ∧ ∀ ev ∈ evs, ev.Transparent im := by
  obtain ⟨huser, heip, hesp, -⟩ := enterUserMode_spec hregs hcs
  exact ⟨heip, hesp,
    hrun.forall_events hkeep (fun _ hs hev => hev.transparent hs hkeep) huser⟩

end Runs

/-! ## System calls -/

/-- `sys_write`: the bytes go out, and their number is in `eax`, unless one of
them is not mapped. -/
def sysWriteSaved (mapped : Nat → Bool) : Handler := fun m regs =>
  let r := registersAt m regs
  let buf := (List.range r.edx).map (add32 r.ecx)
  (((buf.takeWhile mapped).map m).map .char,
    if buf.all mapped then some (setSavedEax m regs r.edx) else none)

/-- What `sys_exit` prints. -/
def exitText (status : Nat) : List UInt8 :=
  writestring "\n[Kernel] Process exited with status " ++ [UInt8.ofNat (0x30 + status % 10)] ++
    writestring ".\n"

/-- `sys_exit` -/
def sysExitSaved : Handler := fun m regs =>
  ((exitText (registersAt m regs).ebx).map .char, none)

/-- `syscall_dispatch` on the struct that the stub has left; `syscall_init`
registers it for vector 128. -/
def syscallHandler (mapped : Nat → Bool) : Handler := fun m regs =>
  if (registersAt m regs).eax = syscallWrite.toNat then sysWriteSaved mapped m regs
  else if (registersAt m regs).eax = syscallExit.toNat then sysExitSaved m regs
  else
    ((writestring "[Kernel] Warning: unknown syscall\n").map .char,
      some (setSavedEax m regs 0xFFFFFFFF))

/-- What `int 0x80` is to a program: it prints, and EAX is set unless the
program is over. -/
def syscallMeaning (s : Core) : List UInt8 × Option Nat :=
  if s.regs .eax = 0 then
    ((List.range (s.regs .edx)).map fun i => s.mem (add32 (s.regs .ecx) i), some (s.regs .edx))
  else if s.regs .eax = 1 then (exitText (s.regs .ebx), none)
  else (writestring "[Kernel] Warning: unknown syscall\n", some 0xFFFFFFFF)

/-- The buffer of a `sys_write` is mapped, and not where the trap itself writes:
the 72 bytes below `esp0`. -/
def BufferReadable (mapped : Nat → Bool) (esp0 : Nat) (s : Core) : Prop :=
  ∀ i < s.regs .edx, mapped (add32 (s.regs .ecx) i) = true ∧
    72 ≤ sub32 (add32 (s.regs .ecx) i) (sub32 esp0 72)

/-- At the mapped addresses the pages of `k` show the memory `m`. -/
def PagesShow (mapped : Nat → Bool) (m : Mem) (k : Machine) : Prop :=
  ∀ a, mapped a = true → ∃ p, Paging.translate k.mem k.cr3 a = some p ∧ k.mem p = m a

/-- The call has the meaning it has for the program. -/
def TrapEvent.Means (ev : TrapEvent) : Prop :=
  ev.output = (syscallMeaning ev.before).1.map .char ∧
    ev.after.map (fun t => t.regs .eax) = (syscallMeaning ev.before).2

section Syscalls

variable {im : TrapImage} {handlers : Nat → Option Handler} {mapped : Nat → Bool}

theorem syscallHandler_write {m : Mem} {regs : Nat} (h : (registersAt m regs).eax = 0) :
    syscallHandler mapped m regs = sysWriteSaved mapped m regs := if_pos h

/-- On a mapped buffer nothing is left out. -/
theorem sysWriteSaved_mapped {m : Mem} {regs : Nat}
    (h : ∀ i < (registersAt m regs).edx, mapped (add32 (registersAt m regs).ecx i) = true) :
    sysWriteSaved mapped m regs =
      (((List.range (registersAt m regs).edx).map fun i => m (add32 (registersAt m regs).ecx i)).map
        .char, some (setSavedEax m regs (registersAt m regs).edx)) := by
  have hall : ∀ a ∈ (List.range (registersAt m regs).edx).map (add32 (registersAt m regs).ecx),
      mapped a = true := by
    intro a ha
    obtain ⟨i, hi, rfl⟩ := List.mem_map.mp ha
    exact h i (List.mem_range.mp hi)
  unfold sysWriteSaved
  dsimp only
  rw [List.takeWhile_eq_self_iff.mpr hall, if_pos (List.all_eq_true.mpr hall),
    List.map_map (f := add32 _)]
  rfl

theorem syscallHandler_exit {m : Mem} {regs : Nat} (h : (registersAt m regs).eax = 1) :
    syscallHandler mapped m regs = sysExitSaved m regs := by
  have hne : ¬(registersAt m regs).eax = syscallWrite.toNat := by
    rw [h]
    decide
  exact (if_neg hne).trans (if_pos h)

theorem syscallHandler_unknown {m : Mem} {regs : Nat} (h0 : (registersAt m regs).eax ≠ 0)
    (h1 : (registersAt m regs).eax ≠ 1) :
    syscallHandler mapped m regs = ((writestring "[Kernel] Warning: unknown syscall\n").map .char,
      some (setSavedEax m regs 0xFFFFFFFF)) := (if_neg h0).trans (if_neg h1)

theorem keepsFrame_syscallHandler : KeepsFrame (syscallHandler mapped) := by
  intro m regs m' hm i hi hne
  have hset : ∀ v, field (setSavedEax m regs v) regs i = field m regs i :=
    fun v => field_stw_ne m regs v (by omega) (by omega) hne
  by_cases h0 : (registersAt m regs).eax = 0
  · rw [syscallHandler_write h0] at hm
    unfold sysWriteSaved at hm
    dsimp only at hm
    split at hm
    · rw [← Option.some.inj hm]
      exact hset _
    · cases hm
  by_cases h1 : (registersAt m regs).eax = 1
  · rw [syscallHandler_exit h1] at hm
    cases hm
  · rw [syscallHandler_unknown h0 h1] at hm
    rw [← Option.some.inj hm]
    exact hset _

/-- `int 0x80` has a stub of `isr_common_stub`, and its handler is the system
calls'. -/
theorem dispatch_syscall {label : Label} {st : Stub} {m : Mem} {regs : Nat}
    (hst : stubOf 128 = some (label, st)) (hhandler : handlers 128 = some (syscallHandler mapped))
    (hint : (registersAt m regs).intNo = 128) :
    st.common.dispatch handlers m regs = syscallHandler mapped m regs := by
  have hisr : st.common = .isr := by
    have hall : (stubOf 128).all fun x => x.2.common == .isr := by decide
    rw [hst] at hall
    exact eq_of_beq hall
  rw [hisr]
  simp only [Common.dispatch, isrDispatch, hint, hhandler]

/-- In front of the dispatcher a trap from Ring 3 has pushed 18 words, and
written nothing else. -/
theorem onlyPushed_atDispatcher {v err : Nat} {s : Core} {st : Stub} (label : Label)
    (hring : s.segs.cpl ≠ 0) (hdummy : st.dummy = decide (v ∉ errorVectors)) :
    OnlyPushed im.tss.esp0 s.mem 18 (im.atDispatcher v err label st s) := by
  obtain ⟨u, hu⟩ : ∃ u, u = st.entry (s.interrupt im.tss ⟨0x08, im.label label⟩
    (if v ∈ errorVectors then some err else none)) := ⟨_, rfl⟩
  have hcpu := fun code => onlyPushed_interrupt (s := s) ⟨0x08, im.label label⟩ code im.esp0_lt hring
  have hentry : OnlyPushed im.tss.esp0 s.mem 7 u := by
    rw [hu]
    unfold Stub.entry
    by_cases hmem : v ∈ errorVectors
    · have hno : ¬st.dummy = true := by simpa [hdummy] using hmem
      rw [if_pos hmem, if_neg hno]
      exact (hcpu (some err)).cli.push st.intNo (by simp)
    · have hyes : st.dummy = true := by simpa [hdummy] using hmem
      rw [if_neg hmem, if_pos hyes]
      exact ((hcpu none).cli.push 0 (by simp)).push st.intNo (by simp)
  have h15 := (hentry.pusha (by omega)).setAx u.pusha.segs.ds
  have h16 := h15.push ((u.pusha.setAx u.pusha.segs.ds).regs .eax) (by omega)
  have h17 := (h16.setAx 0x10).loadData
  unfold TrapImage.atDispatcher
  rw [← hu]
  unfold enterCommon
  dsimp only
  exact (h17.push _ (by omega)).push _ (by omega)

/-- The handler makes of the struct what the program means by the call. -/
theorem syscallHandler_saved {err esp0 : Nat} {s : Core} {m : Mem} {regs : Nat}
    (hsaved : Saved 128 err s (registersAt m regs)) (hedx : s.regs .edx < 2 ^ 32)
    (hmem : ∀ x, 72 ≤ sub32 x (sub32 esp0 72) → m x = s.mem x)
    (hbuf : s.regs .eax = 0 → BufferReadable mapped esp0 s) :
    (syscallHandler mapped m regs).1 = (syscallMeaning s).1.map .char ∧
    (syscallHandler mapped m regs).2.map (fun m' => (registersAt m' regs).eax)
      = (syscallMeaning s).2 := by
  have heax : (registersAt m regs).eax = s.regs .eax := hsaved.eax
  have hset : ∀ v < 2 ^ 32, (registersAt (setSavedEax m regs v) regs).eax = v :=
    fun v hv => field_stw_self m regs 8 hv
  by_cases h0 : s.regs .eax = 0
  · have hbytes : ((List.range (s.regs .edx)).map fun i => m (add32 (s.regs .ecx) i))
        = (List.range (s.regs .edx)).map fun i => s.mem (add32 (s.regs .ecx) i) :=
      List.map_congr_left fun i hi => hmem _ (hbuf h0 i (List.mem_range.mp hi)).2
    have hmeans : syscallMeaning s = _ := if_pos h0
    have hmapped : ∀ i < (registersAt m regs).edx,
        mapped (add32 (registersAt m regs).ecx i) = true := by
      rw [hsaved.edx, hsaved.ecx]
      exact fun i hi => (hbuf h0 i hi).1
    rw [syscallHandler_write (heax.trans h0), hmeans, sysWriteSaved_mapped hmapped]
    dsimp only
    rw [hsaved.edx, hsaved.ecx, hbytes, Option.map_some, hset _ hedx]
    exact ⟨rfl, rfl⟩
  by_cases h1 : s.regs .eax = 1
  · have hmeans : syscallMeaning s = _ := (if_neg h0).trans (if_pos h1)
    rw [syscallHandler_exit (heax.trans h1), hmeans]
    unfold sysExitSaved
    dsimp only
    rw [hsaved.ebx]
    exact ⟨rfl, rfl⟩
  · have hmeans : syscallMeaning s = _ := (if_neg h0).trans (if_neg h1)
    rw [syscallHandler_unknown (by rw [heax]; exact h0) (by rw [heax]; exact h1), hmeans]
    dsimp only
    rw [Option.map_some, hset _ (by omega)]
    exact ⟨rfl, rfl⟩

/-- On the machine with its pages the loop of `sys_write` reads the bytes of the
memory that these show. -/
theorem writeLoop_mapped {k : Machine} {m : Mem} {buf : Nat} : ∀ n,
    (∀ i < n, ∃ p, Paging.translate k.mem k.cr3 (add32 buf i) = some p ∧
      k.mem p = m (add32 buf i)) →
    writeLoop buf n k = ((List.range n).map fun i => m (add32 buf i), .ok k) := by
  intro n
  induction n with
  | zero =>
    intro _
    rfl
  | succ n ih =>
    intro hmapped
    obtain ⟨p, hp, hbyte⟩ := hmapped n (by omega)
    have hread : (Except.ok k).bind (vread (add32 buf n)) = .ok (k.mem p, k) := by
      rw [ok_bind]
      exact vread_mapped hp
    have hstep : writeLoop buf (n + 1) k = putNext (add32 buf n) (writeLoop buf n k) := by
      unfold add32
      rw [writeLoop]
    rw [hstep, ih fun i hi => hmapped i (by omega)]
    rw [putNext_ok (r := (_, .ok k)) hread, List.range_succ, List.map_append, List.map_singleton, hbyte]

theorem TrapEvent.Happens.means {ev : TrapEvent} (h : ev.Happens im handlers) (hs : InUser ev.before)
    (hhandler : handlers 128 = some (syscallHandler mapped)) (hv : ev.vector = 128)
    (hbuf : ev.before.regs .eax = 0 → BufferReadable mapped im.tss.esp0 ev.before) : ev.Means := by
  obtain ⟨label, st, hst, -, -, hout, hnone, hsome⟩ := h.runs
  obtain ⟨label', st', hst', -, hdummy⟩ := stubOf_of_vector h.vector
  rw [hst] at hst'
  cases hst'
  have hpushed : OnlyPushed im.tss.esp0 ev.before.mem 18
      (im.atDispatcher ev.vector ev.err label st ev.before) :=
    onlyPushed_atDispatcher label hs.cpl hdummy
  have hkeep : ∀ handler, handlers ev.vector = some handler → KeepsFrame handler := by
    intro handler hh
    rw [hv, hhandler] at hh
    exact Option.some.inj hh ▸ keepsFrame_syscallHandler
  obtain ⟨harg, hframe, hback⟩ := userTrap im hs h.vector h.err hst hkeep
  rw [harg] at hout hnone hsome
  obtain ⟨e, he⟩ : ∃ e, e = im.atDispatcher ev.vector ev.err label st ev.before := ⟨_, rfl⟩
  rw [← he] at hout hnone hsome hback hframe hpushed
  rw [hv] at hframe hst
  have hrun := dispatch_syscall hst hhandler hframe.intNo
  rw [hrun] at hout hnone hsome hback
  obtain ⟨hprint, hret⟩ := syscallHandler_saved hframe (hs.regs .edx) hpushed.mem hbuf
  refine ⟨hout.trans hprint, ?_⟩
  rw [← hret]
  cases hd : (syscallHandler mapped e.mem (sub32 im.tss.esp0 64)).2 with
  | none =>
    rw [hnone hd]
    rfl
  | some m =>
    obtain ⟨u, hreturns, hafter⟩ := hsome m hd
    rw [hafter, Option.map_some, Option.map_some, (hback m u hd hreturns).eax]

/-- In every run a system call is what it means to the program, if the buffer of
a write is mapped and not on the kernel's stack; and the loop of `sys_write` on
a machine whose pages show the program's memory prints the same, without a
fault. -/
theorem userRun_syscalls {s : Core} {evs : List TrapEvent} {t : Option Core}
    (hregs : ∀ r, s.regs r < 2 ^ 32) (hcs : s.segs.cs = 0x08)
    (hkeep : ∀ v handler, handlers v = some handler → KeepsFrame handler)
    (hhandler : handlers 128 = some (syscallHandler mapped))
    (hrun : UserRun im handlers (enterUserMode s) evs t) :
    ∀ ev ∈ evs, ev.vector = 128 →
      (ev.before.regs .eax = 0 → BufferReadable mapped im.tss.esp0 ev.before) →
      ev.Means ∧ (ev.before.regs .eax = 0 → ∀ k, PagesShow mapped ev.before.mem k →
        writeLoop (ev.before.regs .ecx) (ev.before.regs .edx) k
          = ((syscallMeaning ev.before).1, .ok k)) := by
  refine (hrun.forall_events hkeep (fun ev hs hev hv hbuf => ?_) (enterUserMode_spec hregs hcs).1).2
  refine ⟨hev.means hs hhandler hv hbuf, fun h0 k hk => ?_⟩
  have hmeans : syscallMeaning ev.before = _ := if_pos h0
  rw [hmeans]
  exact writeLoop_mapped _ fun i hi => hk _ (hbuf h0 i hi).1

end Syscalls

/-! ## A run that exists -/

/-- A program in Ring 3 can write. -/
theorem exists_write (im : TrapImage) {handlers : Nat → Option Handler} {s : Core} (hs : InUser s)
    (hkeep : ∀ v handler, handlers v = some handler → KeepsFrame handler) {mapped : Nat → Bool}
    (hhandler : handlers 128 = some (syscallHandler mapped)) (heax : s.regs .eax = 0)
    (hbuf : ∀ i < s.regs .edx, mapped (add32 (s.regs .ecx) i) = true) :
    ∃ ev t, TrapEvent.Happens im handlers ev ∧ ev.vector = 128 ∧ ev.before = s ∧
      ev.after = some t := by
  obtain ⟨label, st, hst, -⟩ := stubOf_of_vector (v := 128) (.inr rfl)
  obtain ⟨harg, hsaved, -⟩ :=
    userTrap im hs (.inr rfl) (show 0 < 2 ^ 32 by omega) hst (hkeep 128)
  obtain ⟨e, he⟩ : ∃ e, e = im.atDispatcher 128 0 label st s := ⟨_, rfl⟩
  rw [← he] at harg hsaved
  rw [← harg] at hsaved
  have hwrite : (registersAt e.mem (argument e)).eax = 0 := hsaved.eax.trans heax
  obtain ⟨d, hd⟩ : ∃ d, d = st.common.dispatch handlers e.mem (argument e) := ⟨_, rfl⟩
  have hrun : d = sysWriteSaved mapped e.mem (argument e) := by
    rw [hd, dispatch_syscall hst hhandler hsaved.intNo, syscallHandler_write hwrite]
  obtain ⟨m, hm⟩ : ∃ m, d.2 = some m := by
    rw [hrun, sysWriteSaved_mapped (by rw [hsaved.edx, hsaved.ecx]; exact hbuf)]
    exact ⟨_, rfl⟩
  -- a C function that changes the struct and nothing else
  obtain ⟨t, hreturns⟩ : ∃ t, Returns m (argument e) e t :=
    ⟨{ e.drop 4 with mem := m }, e.set_self .esp _, rfl, rfl, fun _ _ => rfl⟩
  refine ⟨⟨128, 0, s, argument e, registersAt e.mem (argument e), d.1,
    some (leaveCommon segmentDpl t)⟩, leaveCommon segmentDpl t,
    ⟨.inr rfl, show 0 < 2 ^ 32 by omega, label, st, hst, ?_⟩, rfl, rfl, rfl⟩
  dsimp only
  rw [← he, ← hd, hm]
  refine ⟨rfl, rfl, rfl, fun hnone => ?_, fun m' hm' => ?_⟩
  · cases hnone
  · rw [← Option.some.inj hm']
    exact ⟨t, hreturns, rfl⟩

/-- The kernel in front of `enter_user_mode`. -/
def demoKernel : Core where
  regs _ := 0x104F00
  eip := 0x101000
  eflags := 0x2
  segs := ⟨0x08, 0x10, 0x10, 0x10, 0x10, 0x10⟩
  mem _ := 0

/-- A program that is about to write the two bytes at `0x8049000`. -/
def demoProgram : Core where
  regs
    | .eax => 0
    | .ebx => 1
    | .ecx => 0x8049000
    | .edx => 2
    | _ => 0x804A000
  eip := 0x8048002
  eflags := 0x202
  segs := userSegs
  mem x := if x = 0x8049000 then 0x48 else 0x69

/-- Its three pages. -/
def demoMapped (a : Nat) : Bool := 0x8048000 ≤ a && a < 0x804B000

def demoHandlers (v : Nat) : Option Handler :=
  if v = 128 then some (syscallHandler demoMapped) else none

theorem demoHandlers_keep (v : Nat) (handler : Handler) (h : demoHandlers v = some handler) :
    KeepsFrame handler := by
  unfold demoHandlers at h
  split at h
  · exact Option.some.inj h ▸ keepsFrame_syscallHandler
  · cases h

theorem demoProgram_inUser : InUser demoProgram := by
  refine ⟨fun r => ?_, by decide, by decide, by decide, rfl⟩
  cases r <;> decide

theorem demoBuffer : BufferReadable demoMapped userImage.tss.esp0 demoProgram := by
  intro i hi
  have hi' : i < 2 := hi
  have haddr : add32 0x8049000 i = 0x8049000 + i := Nat.mod_eq_of_lt (by omega)
  show demoMapped (add32 0x8049000 i) = true ∧ 72 ≤ sub32 (add32 0x8049000 i) (sub32 0x105000 72)
  rw [haddr]
  refine ⟨?_, ?_⟩
  · unfold demoMapped
    simp only [Bool.and_eq_true, decide_eq_true_eq]
    omega
  · unfold sub32
    omega

theorem demoKernel_inUser : InUser (enterUserMode demoKernel) :=
  (enterUserMode_spec (fun _ => show 0x104F00 < 2 ^ 32 by decide) rfl).1

/-- The program gets there, and its call returns. -/
theorem demoRun : ∃ ev t, UserRun userImage demoHandlers (enterUserMode demoKernel) [ev] (some t) ∧
    ev.vector = 128 ∧ ev.before = demoProgram := by
  obtain ⟨ev, t, hev, hv, hbefore, hafter⟩ :=
    exists_write userImage demoProgram_inUser demoHandlers_keep (if_pos rfl) rfl
      fun i hi => (demoBuffer i hi).1
  have hstep : UserStep (enterUserMode demoKernel) demoProgram :=
    ⟨demoProgram_inUser.regs, demoProgram_inUser.eip, demoProgram_inUser.eflags,
      demoProgram_inUser.intFlag.trans demoKernel_inUser.intFlag.symm,
      demoProgram_inUser.segs.trans demoKernel_inUser.segs.symm⟩
  have htrap := UserRun.trap hev hafter (.done t)
  rw [hbefore] at htrap
  exact ⟨ev, t, .step hstep htrap, hv, hbefore⟩

theorem userRun_traps_demo : ∃ ev t,
    UserRun userImage demoHandlers (enterUserMode demoKernel) [ev] (some t) ∧
    ev.before = demoProgram ∧ ev.Transparent userImage := by
  obtain ⟨ev, t, hrun, -, hbefore⟩ := demoRun
  have htraps := userRun_traps (fun _ => show 0x104F00 < 2 ^ 32 by decide) rfl demoHandlers_keep hrun
  exact ⟨ev, t, hrun, hbefore, htraps.2.2.2 ev (List.mem_singleton_self ev)⟩

theorem userRun_syscalls_demo : ∃ ev t,
    UserRun userImage demoHandlers (enterUserMode demoKernel) [ev] (some t) ∧
    ev.output = [.char 0x48, .char 0x69] ∧ ev.after.map (fun u => u.regs .eax) = some 2 := by
  obtain ⟨ev, t, hrun, hv, hbefore⟩ := demoRun
  have hmeans := (userRun_syscalls (fun _ => show 0x104F00 < 2 ^ 32 by decide) rfl demoHandlers_keep
    (if_pos rfl) hrun ev (List.mem_singleton_self ev) hv fun _ => hbefore ▸ demoBuffer).1
  unfold TrapEvent.Means at hmeans
  rw [hbefore] at hmeans
  exact ⟨ev, t, hrun, hmeans⟩

end MyOS
