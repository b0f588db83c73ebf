import MyOS.Trap.Stubs

/-!
# Through a trap and back

What the dispatcher is given is what was interrupted (`Saved`), and what goes
on is what was interrupted, with EAX from the struct (`Restored`).

The words on the stack are followed as one list, `frameWords`: the CPU, the
stub, `pusha` and the common stub each put theirs in front, the dispatcher
exchanges one, and the way back takes them off in the same order. The list
is the struct read from its first field on.

Main result: `trap_round_trip`.
-/

namespace MyOS

open Lib Lib.Mem Lib.X86

/-! ## What is said of it -/

/-- A register state code can be interrupted in. Code runs with data segments
its ring may use: the CPU checks that when they are loaded. -/
structure Interrupted (s : Core) : Prop where
  regs : ∀ r, s.regs r < 2 ^ 32
  eip : s.eip < 2 ^ 32
  eflags : s.eflags < 2 ^ 32
  cs : s.segs.cs < 2 ^ 16
  ss : s.segs.ss < 2 ^ 16
  ds : s.segs.ds < 2 ^ 16
  usable : s.segs.ds / 4 = 0 ∨ s.segs.cpl ≤ segmentDpl s.segs.ds

/-- The struct has the interrupted values. -/
structure Saved (v err : Nat) (s : Core) (r : SavedRegisters) : Prop where
  ds : r.ds % 2 ^ 16 = s.segs.ds
  edi : r.edi = s.regs .edi
  esi : r.esi = s.regs .esi
  ebp : r.ebp = s.regs .ebp
  ebx : r.ebx = s.regs .ebx
  edx : r.edx = s.regs .edx
  ecx : r.ecx = s.regs .ecx
  eax : r.eax = s.regs .eax
  intNo : r.intNo = v
  errCode : r.errCode = if v ∈ errorVectors then err else 0
  eip : r.eip = s.eip
  cs : r.cs = s.segs.cs
  eflags : r.eflags = s.eflags
  stack : s.segs.cpl ≠ 0 → r.useresp = s.regs .esp ∧ r.ss = s.segs.ss

/-- The code that was interrupted in `s` goes on in `t`, with its registers
except for EAX. -/
structure Restored (s : Core) (eax : Nat) (t : Core) : Prop where
  regs : ∀ r, r ≠ .eax → t.regs r = s.regs r
  eax : t.regs .eax = eax
  segs : t.segs = s.segs
  eip : t.eip = s.eip
  eflags : t.eflags = s.eflags

/-- The handler changes no field but `eax`. -/
def KeepsFrame (handler : Handler) : Prop :=
  ∀ m regs m', (handler m regs).2 = some m' →
    ∀ i, i < 16 → i ≠ 8 → field m' regs i = field m regs i

/-- `regs->eax = v` -/
theorem keepsFrame_setSavedEax (v : Nat) :
    KeepsFrame fun m regs => ([], some (setSavedEax m regs v)) := by
  intro m regs m' hm i hi hne
  rw [← Option.some.inj hm]
  exact field_stw_ne m regs v (by omega) (by omega) hne

/-! ## Stubs and dispatchers -/

/-- Each vector leads to a stub that pushes this vector, and a dummy exactly if
the CPU has pushed no error code. -/
theorem stubOf_of_vector {v : Nat} (hv : v < 48 ∨ v = 128) :
    ∃ label st, stubOf v = some (label, st) ∧ st.intNo = v ∧
      st.dummy = decide (v ∉ errorVectors) := by
  have hall : ∀ v ∈ List.range 48 ++ [128], ((stubOf v).any fun x =>
      x.2.intNo == v && x.2.dummy == decide (v ∉ errorVectors)) = true := by decide
  have hmem : v ∈ List.range 48 ++ [128] := by
    rw [List.mem_append, List.mem_range, List.mem_singleton]
    exact hv
  have hv' := hall v hmem
  rw [Option.any_eq_true] at hv'
  obtain ⟨⟨label, st⟩, hst, hboth⟩ := hv'
  rw [Bool.and_eq_true, beq_iff_eq, beq_iff_eq] at hboth
  exact ⟨label, st, hst, hboth⟩

section Dispatchers

variable {handlers : Nat → Option Handler} {m m' : Mem} {regs v : Nat}

/-- A dispatcher passes the struct on to the handler of the vector. -/
theorem dispatch_keeps (c : Common) (hv : (registersAt m regs).intNo = v)
    (hkeep : ∀ handler, handlers v = some handler → KeepsFrame handler)
    (hret : (c.dispatch handlers m regs).2 = some m') :
    ∀ i, i < 16 → i ≠ 8 → field m' regs i = field m regs i := by
  intro i hi hne
  cases hh : handlers v with
  | some handler =>
    have hrun : (handler m regs).2 = some m' := by
      cases c <;> simpa only [Common.dispatch, isrDispatch, irqDispatch, hv, hh] using hret
    exact hkeep handler hh m regs m' hrun i hi hne
  | none =>
    cases c with
    | isr =>
      simp only [Common.dispatch, isrDispatch, hv, hh, reduceCtorEq] at hret
    | irq =>
      simp only [Common.dispatch, irqDispatch, hv, hh, Option.some.injEq] at hret
      rw [hret]

end Dispatchers

/-! ## The words on the stack -/

/-- What the CPU and the stub push, from the vector on. -/
def trapWords (v err : Nat) (s : Core) : List Nat :=
  v :: (if v ∈ errorVectors then err else 0) :: s.eip :: s.segs.cs :: s.eflags :: outerWords s

/-- The struct: `w` is the word with DS, `f` are the registers of `pusha`. -/
def frameWords (w : Nat) (f : Reg → Nat) (ws : List Nat) : List Nat := w :: (pushaWords f ++ ws)

theorem trapWords_length (v err : Nat) (s : Core) : (trapWords v err s).length ≤ 7 := by
  have hlen := outerWords_length s
  simp only [trapWords, List.length_cons]
  omega

/-- Word 8 is EAX. -/
theorem frameWords_set (w x : Nat) (f : Reg → Nat) (ws : List Nat) :
    (frameWords w f ws).set 8 x = frameWords w (Function.update f .eax x) ws := rfl

theorem frameWords_length (w : Nat) (f : Reg → Nat) (ws : List Nat) :
    (frameWords w f ws).length = ws.length + 9 := by
  simp [frameWords, pushaWords]

section Entry

variable {tss : Tss} {gate : Gate} {st : Stub} {s : Core} {v err base : Nat} {ws : List Nat}

theorem entry_ne (st : Stub) (s : Core) {r : Reg} (hr : r ≠ .esp) :
    (st.entry s).regs r = s.regs r := by
  unfold Stub.entry
  split
  · rw [Core.push_ne _ _ hr, Core.push_ne _ _ hr]
    rfl
  · rw [Core.push_ne _ _ hr]
    rfl

theorem entry_segs (st : Stub) (s : Core) : (st.entry s).segs = s.segs := by
  unfold Stub.entry
  split <;> rfl

theorem stackHolds_entry (hs : Interrupted s) (hesp0 : tss.esp0 < 2 ^ 32) (herr : err < 2 ^ 32)
    (hv : v < 48 ∨ v = 128) (hint : st.intNo = v)
    (hdummy : st.dummy = decide (v ∉ errorVectors)) :
    StackHolds (stackBase tss s) (trapWords v err s)
      (st.entry (s.interrupt tss gate (if v ∈ errorVectors then some err else none))) := by
  have hlen := outerWords_length s
  have hss := hs.ss
  have hcs := hs.cs
  have hvlt : st.intNo < 2 ^ 32 := by omega
  have hcpu : ∀ code : Option Nat, (∀ e ∈ code, e < 2 ^ 32) →
      StackHolds (stackBase tss s) (code.toList ++ s.eip :: s.segs.cs :: s.eflags :: outerWords s)
        (s.interrupt tss gate code).cli := by
    intro code hcode
    have h := stackHolds_interrupt gate hesp0 (hs.regs .esp) (by omega) hs.eflags (by omega) hs.eip
      hcode
    exact h.cli
  unfold Stub.entry trapWords
  by_cases hmem : v ∈ errorVectors
  · -- the CPU's error code is in place
    have hno : ¬st.dummy = true := by simpa [hdummy] using hmem
    rw [if_pos hmem, if_pos hmem, if_neg hno, hint]
    have h := hcpu (some err) (fun e he => Option.some.inj he ▸ herr)
    exact h.push (by omega) (by simp; omega)
  · have hyes : st.dummy = true := by simpa [hdummy] using hmem
    rw [if_neg hmem, if_neg hmem, if_pos hyes, hint]
    have hcode := hcpu none (fun e he => absurd he (by simp))
    have h := hcode.push (v := 0) (by omega) (by simp; omega)
    exact h.push (by omega) (by simp; omega)

/-- The common stub completes the struct and passes its address. -/
theorem stackHolds_enterCommon {ret : Nat} (h : StackHolds base ws s) (hregs : ∀ r, s.regs r < 2 ^ 32)
    (hds : s.segs.ds < 2 ^ 16) (hret : ret < 2 ^ 32) (hlen : ws.length ≤ 7) :
    StackHolds base (ret :: sub32 base (4 * (ws.length + 9)) ::
      frameWords (s.regs .eax / 2 ^ 16 * 2 ^ 16 + s.segs.ds) s.regs ws) (enterCommon ret s) := by
  have heax := hregs .eax
  obtain ⟨w, hw⟩ : ∃ w, w = s.regs .eax / 2 ^ 16 * 2 ^ 16 + s.segs.ds := ⟨_, rfl⟩
  have hsave : s.pusha.setAx s.pusha.segs.ds = s.pusha.set .eax w := by
    unfold Core.setAx
    rw [Core.pusha_segs, Core.pusha_ne s (by decide), hw]
  have h1 : StackHolds base (pushaWords s.regs ++ ws) (s.pusha.set .eax w) :=
    (h.pusha hregs (by omega)).set w (by decide)
  have h2 : StackHolds base (frameWords w s.regs ws) ((s.pusha.set .eax w).push w) :=
    h1.push (by omega) (by simp [pushaWords]; omega)
  have h3 : StackHolds base (frameWords w s.regs ws)
      (((s.pusha.set .eax w).push w).setAx 0x10).loadData := (h2.set _ (by decide)).loadData
  have hlen3 := frameWords_length w s.regs ws
  have hesp := h3.esp
  rw [hlen3] at hesp
  unfold enterCommon
  dsimp only
  rw [hsave, Core.set_self, ← hw, hesp]
  have h4 := h3.push (v := sub32 base (4 * (ws.length + 9))) (Nat.mod_lt _ (by omega)) (by omega)
  exact h4.push hret (by rw [List.length_cons]; omega)

/-- The dispatcher runs with the kernel's data segment. -/
theorem enterCommon_segs (ret : Nat) (s : Core) :
    (enterCommon ret s).segs = s.segs.setData 0x10 := by
  unfold enterCommon
  dsimp only
  rw [Core.push_segs, Core.push_segs, Core.setAx_loadData _ (by omega), Core.push_segs,
    Core.setAx_segs, Core.pusha_segs]

end Entry

section Exit

variable {s : Core} {base w a b eip cs eflags : Nat} {f : Reg → Nat} {ws : List Nat}

/-- The way back up to `iret`. -/
theorem stackHolds_undoCommon (h : StackHolds base (frameWords w f (a :: b :: ws)) (s.drop 4))
    (hlen : ws.length ≤ 5) :
    StackHolds base ws (undoCommon s) ∧ (∀ r, r ≠ .esp → (undoCommon s).regs r = f r) ∧
      (undoCommon s).segs = s.segs.setData (w % 2 ^ 16) := by
  have h0 : StackHolds base (w :: (pushaWords f ++ a :: b :: ws)) (s.drop 4) := h
  obtain ⟨heax, h1⟩ := h0.pop (r := .eax) (by simp [pushaWords]; omega) (by decide)
  obtain ⟨h2, hregs⟩ := h1.loadData.popa (by simp; omega)
  have h3 := h2.drop (by simp; omega)
  have h4 := h3.drop (by omega)
  unfold undoCommon
  refine ⟨?_, fun r hr => ?_, ?_⟩
  · rw [Core.drop_drop] at h4
    exact h4
  · rw [Core.drop_ne _ _ hr]
    exact hregs r hr
  · rw [Core.drop_segs, Core.popa_segs]
    unfold Core.loadData
    rw [heax, Core.pop_segs, Core.drop_segs]

/-- `iret` in `t`, with what the CPU pushed on the stack again. -/
theorem restored_iret {t : Core} {tss : Tss} {ss : Nat} (hs : Interrupted s)
    (hdata : s.segs.setData s.segs.ds = s.segs)
    (h : StackHolds (stackBase tss s) (s.eip :: s.segs.cs :: s.eflags :: outerWords s) t)
    (hregs : ∀ r, r ≠ .esp → r ≠ .eax → t.regs r = s.regs r)
    (hsegs : t.segs = { s.segs with cs := 0x08, ss := ss })
    (hss : s.segs.cpl = 0 → ss = s.segs.ss) :
    Restored s (t.regs .eax) (t.iret segmentDpl) := by
  have hlen := outerWords_length s
  obtain ⟨heq, hrest⟩ := h.popFrame (by omega) hs.cs
  have hpop : ∀ r, r ≠ .esp → t.popFrame.regs r = t.regs r := by
    intro r hr
    rw [heq]
    exact (Core.drop_ne _ _ hr).trans ((Core.drop_ne _ _ hr).trans (Core.drop_ne _ _ hr))
  have hpopsegs : t.popFrame.segs = { s.segs with ss := ss } := by
    rw [heq, hsegs]
  have heip : t.popFrame.eip = s.eip := by rw [heq]
  have hflags : t.popFrame.eflags = s.eflags := by rw [heq]
  by_cases hring : s.segs.cpl = 0
  · have hsame : t.iret segmentDpl = t.popFrame := by
      refine h.iret_same (by omega) hs.cs ?_
      unfold Segs.cpl at hring
      omega
    have hesp : t.popFrame.regs .esp = s.regs .esp := by
      have hbase := hrest.esp
      rw [stackBase, if_pos hring, outerWords, if_pos hring, List.length_nil, Nat.mul_zero] at hbase
      have hlt := hs.regs .esp
      rw [hbase]
      unfold sub32
      omega
    rw [hsame]
    refine ⟨fun r hr => ?_, hpop .eax (by decide), ?_, heip, hflags⟩
    · by_cases hr' : r = .esp
      · rw [hr', hesp]
      · exact (hpop r hr').trans (hregs r hr' hr)
    · rw [hpopsegs, hss hring]
  · have hwords : StackHolds (stackBase tss s)
        [s.eip, s.segs.cs, s.eflags, s.regs .esp, s.segs.ss] t := by
      rw [outerWords, if_neg hring] at h
      exact h
    have hcpl : t.segs.cpl < s.segs.cs % 4 := by
      have hkernel : t.segs.cpl = 0 := by simp [Segs.cpl, hsegs]
      rw [hkernel]
      exact Nat.pos_of_ne_zero hring
    have houter : t.iret segmentDpl = _ := hwords.iret_outer hs.cs hs.ss hcpl
    have hcheck : Segs.checkData segmentDpl { s.segs with ss := ss } =
        { s.segs with ss := ss } := by
      refine Segs.checkData_eq_self ?_ hs.usable
      rw [← hdata]
      rfl
    rw [houter, hpopsegs, hcheck]
    refine ⟨fun r hr => ?_, hpop .eax (by decide), rfl, heip, hflags⟩
    by_cases hr' : r = .esp
    · rw [hr']
      exact t.popFrame.set_self .esp _
    · exact (t.popFrame.set_ne _ hr').trans ((hpop r hr').trans (hregs r hr' hr))

end Exit

/-! ## The call -/

section Call

variable {base ret regs : Nat} {ws : List Nat} {s t : Core} {m : Mem}

/-- The argument points to the words that were on the stack. -/
theorem stackHolds_struct (h : StackHolds base (ret :: regs :: ws) s) (hlen : ws.length ≤ 16)
    (hregs : regs = sub32 base (4 * ws.length)) :
    argument s = regs ∧ ∀ i x, ws[i]? = some x → field s.mem regs i = x := by
  have h1 := h.drop (by rw [List.length_cons]; omega)
  have h2 := h1.drop (by omega)
  refine ⟨h1.top, fun i x hi => ?_⟩
  have hword := h2.words i x hi
  rw [h2.esp, ← hregs] at hword
  exact hword

/-- A dispatcher that keeps every field but `eax` leaves the stack as it was,
with the new `eax`. -/
theorem Returns.stackHolds (hret : Returns m regs s t) (h : StackHolds base (ret :: regs :: ws) s)
    (hlen : ws.length ≤ 16) (hregs : regs = sub32 base (4 * ws.length))
    (hkeep : ∀ i, i < 16 → i ≠ 8 → field m regs i = field s.mem regs i) :
    StackHolds base (ws.set 8 (field m regs 8)) (t.drop 4) := by
  have hfields := (stackHolds_struct h hlen hregs).2
  have hesp : (t.drop 4).regs .esp = regs := by
    have h1 := h.drop (by rw [List.length_cons]; omega)
    have h2 := h1.drop (by omega)
    unfold Core.drop
    rw [Core.set_self, hret.esp, hregs, ← h2.esp]
    unfold Core.drop
    rw [Core.set_self, Core.set_self]
  refine ⟨?_, fun i x hi => ?_⟩
  · rw [hesp, List.length_set, hregs]
  · rw [hesp]
    obtain ⟨hi16, -⟩ := List.getElem?_eq_some_iff.mp hi
    rw [List.length_set] at hi16
    have hframe : field (t.drop 4).mem regs i = field m regs i := hret.frame i (by omega)
    rw [hframe]
    by_cases h8 : i = 8
    · subst h8
      rw [List.getElem?_set_self hi16] at hi
      exact Option.some.inj hi
    · rw [List.getElem?_set_ne (Ne.symm h8)] at hi
      rw [hkeep i (by omega) h8]
      exact hfields i x hi

end Call

/-! ## The round trip -/

section RoundTrip

variable (im : TrapImage) (label : Label) {v err : Nat} {st : Stub} {s : Core}

/-- What the dispatcher finds on the stack. -/
theorem stackHolds_atDispatcher (hs : Interrupted s) (herr : err < 2 ^ 32) (hv : v < 48 ∨ v = 128)
    (hint : st.intNo = v) (hdummy : st.dummy = decide (v ∉ errorVectors)) :
    ∃ w f, w % 2 ^ 16 = s.segs.ds ∧ (∀ r, r ≠ .esp → f r = s.regs r) ∧
      StackHolds (stackBase im.tss s)
        (im.ret st.common :: sub32 (stackBase im.tss s) (4 * ((trapWords v err s).length + 9)) ::
          frameWords w f (trapWords v err s)) (im.atDispatcher v err label st s) := by
  have hlen := trapWords_length v err s
  unfold TrapImage.atDispatcher
  obtain ⟨t, ht⟩ : ∃ t, t = st.entry (s.interrupt im.tss ⟨0x08, im.label label⟩
    (if v ∈ errorVectors then some err else none)) := ⟨_, rfl⟩
  have hstack : StackHolds (stackBase im.tss s) (trapWords v err s) t :=
    ht ▸ stackHolds_entry hs im.esp0_lt herr hv hint hdummy
  have hregs : ∀ r, r ≠ .esp → t.regs r = s.regs r := by
    intro r hr
    rw [ht, entry_ne _ _ hr, interrupt_ne _ _ hr]
  have hds : t.segs.ds = s.segs.ds := by rw [ht, entry_segs, interrupt_segs]
  have hlt : ∀ r, t.regs r < 2 ^ 32 := by
    intro r
    by_cases hr : r = .esp
    · rw [hr]
      exact hstack.esp_lt
    · rw [hregs r hr]
      exact hs.regs r
  rw [← ht]
  refine ⟨_, t.regs, ?_, hregs, stackHolds_enterCommon hstack hlt (hds ▸ hs.ds) (im.ret_lt _) hlen⟩
  have hds16 := hs.ds
  rw [hds]
  omega

theorem atDispatcher_segs (v err : Nat) (st : Stub) (s : Core) :
    (im.atDispatcher v err label st s).segs.cs = 0x08 ∧
    (im.atDispatcher v err label st s).segs.ss =
      if s.segs.cpl = 0 then s.segs.ss else im.tss.ss0 := by
  unfold TrapImage.atDispatcher
  rw [enterCommon_segs, entry_segs, interrupt_segs]
  exact ⟨rfl, rfl⟩

/-- The fields of the struct, word by word. -/
theorem saved_of_words {m : Mem} {regs w : Nat} {f : Reg → Nat} (hw : w % 2 ^ 16 = s.segs.ds)
    (hf : ∀ r, r ≠ .esp → f r = s.regs r)
    (h : ∀ i x, (frameWords w f (trapWords v err s))[i]? = some x → field m regs i = x) :
    Saved v err s (registersAt m regs) := by
  have hreg : ∀ i r, r ≠ .esp → (frameWords w f (trapWords v err s))[i]? = some (f r) →
      field m regs i = s.regs r := by
    intro i r hr hi
    rw [h i _ hi, hf r hr]
  refine
    { ds := ?_
      edi := hreg 1 .edi (by decide) rfl
      esi := hreg 2 .esi (by decide) rfl
      ebp := hreg 3 .ebp (by decide) rfl
      ebx := hreg 5 .ebx (by decide) rfl
      edx := hreg 6 .edx (by decide) rfl
      ecx := hreg 7 .ecx (by decide) rfl
      eax := hreg 8 .eax (by decide) rfl
      intNo := h 9 _ rfl
      errCode := h 10 _ rfl
      eip := h 11 _ rfl
      cs := h 12 _ rfl
      eflags := h 13 _ rfl
      stack := fun hring => ?_ }
  · have hds : (registersAt m regs).ds = w := h 0 w rfl
    rw [hds, hw]
  · -- the last two fields are there only if the ring changed
    have houter : outerWords s = [s.regs .esp, s.segs.ss] := if_neg hring
    unfold trapWords at h
    rw [houter] at h
    exact ⟨h 14 _ rfl, h 15 _ rfl⟩

/-- Every vector with a stub, every register state: the dispatcher gets the
interrupted values, and if it returns, having changed no field but `eax`, the
interrupted code goes on with its registers and the `eax` of the struct. -/
theorem trap_round_trip (handlers : Nat → Option Handler)
    (hv : v < 48 ∨ v = 128) (herr : err < 2 ^ 32) (hs : Interrupted s)
    (hdata : s.segs.es = s.segs.ds ∧ s.segs.fs = s.segs.ds ∧ s.segs.gs = s.segs.ds)
    (hkeep : ∀ handler, handlers v = some handler → KeepsFrame handler) :
    ∃ label st, stubOf v = some (label, st) ∧
      let e := im.atDispatcher v err label st s
      Saved v err s (registersAt e.mem (argument e)) ∧
        ∀ m t, (st.common.dispatch handlers e.mem (argument e)).2 = some m →
          Returns m (argument e) e t →
          Restored s (registersAt m (argument e)).eax (leaveCommon segmentDpl t) := by
  obtain ⟨label, st, hst, hint, hdummy⟩ := stubOf_of_vector hv
  refine ⟨label, st, hst, ?_⟩
  intro e
  obtain ⟨w, f, hw, hf, hstack⟩ :=
    stackHolds_atDispatcher im label hs herr hv hint hdummy
  have hlen := trapWords_length v err s
  have hlen9 := frameWords_length w f (trapWords v err s)
  obtain ⟨harg, hfields⟩ := stackHolds_struct hstack (by omega) (by rw [hlen9])
  have hsaved : Saved v err s (registersAt e.mem (argument e)) := by
    rw [harg]
    exact saved_of_words hw hf hfields
  refine ⟨hsaved, fun m t hrun hret => ?_⟩
  have hsame := dispatch_keeps st.common hsaved.intNo hkeep hrun
  rw [harg] at hret hsame ⊢
  have hback := hret.stackHolds hstack (by omega) (by rw [hlen9]) hsame
  rw [frameWords_set] at hback
  obtain ⟨hframe, hregs, hsegs⟩ := stackHolds_undoCommon hback (by
    have := outerWords_length s
    simp only [List.length_cons]
    omega)
  obtain ⟨hcs, hss⟩ := atDispatcher_segs im label v err st s
  have hsegs' : (undoCommon t).segs = { s.segs with cs := 0x08, ss := t.segs.ss } := by
    obtain ⟨hes, hfs, hgs⟩ := hdata
    rw [hsegs, hw]
    simp only [Segs.setData, hes, hfs, hgs, hret.cs.trans hcs]
  have hregs' : ∀ r, r ≠ .esp → r ≠ .eax → (undoCommon t).regs r = s.regs r := by
    intro r hr hr'
    rw [hregs r hr, Function.update_of_ne hr', hf r hr]
  have hss' : s.segs.cpl = 0 → t.segs.ss = s.segs.ss := by
    intro hring
    rw [hret.ss, hss, if_pos hring]
  have hback := restored_iret hs (Segs.setData_self hdata) hframe hregs' hsegs' hss'
  have heax : (undoCommon t).regs .eax = _ :=
    (hregs .eax (by decide)).trans (Function.update_self ..)
  rw [heax] at hback
  exact hback

end RoundTrip

/-- A program in Ring 3. -/
def userCore : Core where
  regs _ := 0x8049000
  eip := 0x8048002
  eflags := 0x202
  segs := ⟨0x1B, 0x23, 0x23, 0x23, 0x23, 0x23⟩
  mem _ := 0

def userImage : TrapImage where
  label _ := 0x100000
  ret _ := 0x101000
  tss := ⟨0x10, 0x105000⟩
  ret_lt _ := by decide
  esp0_lt := by decide

/-- Its system call returns `7`. -/
theorem trap_round_trip_syscall : ∃ label st m t, stubOf 128 = some (label, st) ∧
    Returns m (argument (userImage.atDispatcher 128 0 label st userCore))
      (userImage.atDispatcher 128 0 label st userCore) t ∧
    Restored userCore 7 (leaveCommon segmentDpl t) := by
  have hs : Interrupted userCore :=
    ⟨fun _ => show 0x8049000 < 2 ^ 32 by decide, by decide, by decide, by decide, by decide,
      by decide, by decide⟩
  obtain ⟨label, st, hst, -, hback⟩ := trap_round_trip userImage
    (fun _ => some fun m regs => ([], some (setSavedEax m regs 7))) (v := 128) (s := userCore)
    (.inr rfl) (show 0 < 2 ^ 32 by decide) hs ⟨rfl, rfl, rfl⟩
    fun handler hh => Option.some.inj hh ▸ keepsFrame_setSavedEax 7
  obtain ⟨e, he⟩ : ∃ e, e = userImage.atDispatcher 128 0 label st userCore := ⟨_, rfl⟩
  rw [← he] at hback
  have hret : Returns (setSavedEax e.mem (argument e) 7) (argument e) e
      { e.drop 4 with mem := setSavedEax e.mem (argument e) 7 } :=
    ⟨e.set_self .esp _, rfl, rfl, fun _ _ => rfl⟩
  have hrun := hback (setSavedEax e.mem (argument e) 7) _ (by cases st.common <;> rfl) hret
  have heax : (registersAt (setSavedEax e.mem (argument e) 7) (argument e)).eax = 7 :=
    field_stw_self e.mem (argument e) 8 (by decide)
  rw [heax] at hrun
  refine ⟨label, st, setSavedEax e.mem (argument e) 7, _, hst, ?_, hrun⟩
  rw [← he]
  exact hret

end MyOS
