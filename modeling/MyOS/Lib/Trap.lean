import MyOS.Lib.X86

/-!
# Interrupts of a 32-bit x86

A CPU with its segment registers, flags and flat memory: what it does on an
interrupt through a gate to Ring 0, `pusha` and `popa`, and `iret`. Addresses
wrap at 32 bits, also those of the single bytes of a word (`ldw`, `stw`), so
nothing has to be assumed of the stack pointer.

`StackHolds base ws s` is the state of a stack: the words `ws` were pushed since
the stack pointer was `base`, the last one first. `push` puts a word in front
(`StackHolds.push`), `pop` takes it off (`StackHolds.drop`), and `field` reads the
stack as the structure that lies there.

An interrupt gate clears NT, so `iret` is never a return from a nested task
as long as nothing sets it in between.
-/

namespace MyOS.Lib.X86

open Mem

/-! ## Words at wrapping addresses -/

def ldw (m : Mem) (a : Nat) : Nat := rd32 (fun i => m (add32 a i)) 0

def stw (m : Mem) (a v : Nat) : Mem := fun x =>
  if sub32 x a < 4 then byteOf v (sub32 x a) else m x

theorem add32_zero {a : Nat} (ha : a < 2 ^ 32) : add32 a 0 = a := add32_eq ha

theorem ldw_lt (m : Mem) (a : Nat) : ldw m a < 2 ^ 32 := rd32_lt _ _

section Words

variable (m : Mem) {a v d : Nat}

theorem ldw_stw_self (ha : a < 2 ^ 32) (hv : v < 2 ^ 32) : ldw (stw m a v) a = v := by
  refine Eq.trans (rd32_congr fun k hk => ?_) (rd32_wr32_self m 0 hv)
  have hback : sub32 (add32 a (0 + k)) a = k := by
    unfold sub32 add32
    omega
  show (if sub32 (add32 a (0 + k)) a < 4 then byteOf v (sub32 (add32 a (0 + k)) a)
    else m (add32 a (0 + k))) =
      if 0 ≤ 0 + k ∧ 0 + k < 0 + 4 then byteOf v (0 + k - 0) else m (0 + k)
  rw [hback, if_pos hk, if_pos (by omega), Nat.zero_add, Nat.sub_zero]

/-- Words that do not overlap, going round. -/
theorem ldw_stw_of_apart (v : Nat) (ha : a < 2 ^ 32) (hlo : 4 ≤ d) (hhi : d + 4 ≤ 2 ^ 32) :
    ldw (stw m a v) (add32 a d) = ldw m (add32 a d) := by
  refine rd32_congr fun k hk => ?_
  have hfar : ¬sub32 (add32 (add32 a d) (0 + k)) a < 4 := by
    unfold sub32 add32
    omega
  exact if_neg hfar

end Words

/-! ## The CPU -/

/-- The selectors in the segment registers. -/
structure Segs where
  cs : Nat
  ss : Nat
  ds : Nat
  es : Nat
  fs : Nat
  gs : Nat

namespace Segs

/-- The ring that code runs in. -/
def cpl (g : Segs) : Nat := g.cs % 4

def setData (g : Segs) (sel : Nat) : Segs := { g with ds := sel, es := sel, fs := sel, gs := sel }

theorem setData_self {g : Segs} (h : g.es = g.ds ∧ g.fs = g.ds ∧ g.gs = g.ds) :
    g.setData g.ds = g := by
  obtain ⟨hes, hfs, hgs⟩ := h
  cases g with
  | mk cs ss ds es fs gs =>
    dsimp only at hes hfs hgs
    unfold setData
    rw [hes, hfs, hgs]

/-- On a return to an outer ring the CPU clears a data segment register that
the ring may not use. -/
def checkData (dpl : Nat → Nat) (g : Segs) : Segs :=
  let check sel := if sel / 4 ≠ 0 ∧ dpl sel < g.cpl then 0 else sel
  { g with ds := check g.ds, es := check g.es, fs := check g.fs, gs := check g.gs }

theorem checkData_eq_self {dpl : Nat → Nat} {g : Segs} (hdata : g.setData g.ds = g)
    (husable : g.ds / 4 = 0 ∨ g.cpl ≤ dpl g.ds) : g.checkData dpl = g := by
  have hkeep : ¬(g.ds / 4 ≠ 0 ∧ dpl g.ds < g.cpl) := by omega
  have hes : g.es = g.ds := congrArg es hdata.symm
  have hfs : g.fs = g.ds := congrArg fs hdata.symm
  have hgs : g.gs = g.ds := congrArg gs hdata.symm
  unfold checkData
  dsimp only
  rw [hes, hfs, hgs, if_neg hkeep]
  exact hdata

end Segs

structure Core where
  regs : Reg → Nat
  eip : Nat
  eflags : Nat
  segs : Segs
  mem : Mem

/-- The stack for Ring 0 in the task state segment. -/
structure Tss where
  ss0 : Nat
  esp0 : Nat

/-- An interrupt gate: a code segment of Ring 0 and an address in it. -/
structure Gate where
  selector : Nat
  offset : Nat

namespace Core

def set (s : Core) (r : Reg) (v : Nat) : Core := { s with regs := Function.update s.regs r v }

/-- The word the stack pointer points to. -/
def top (s : Core) : Nat := ldw s.mem (s.regs .esp)

def push (s : Core) (v : Nat) : Core :=
  { s.set .esp (sub32 (s.regs .esp) 4) with mem := stw s.mem (sub32 (s.regs .esp) 4) v }

/-- `add esp, n` -/
def drop (s : Core) (n : Nat) : Core := s.set .esp (add32 (s.regs .esp) n)

def pop (s : Core) (r : Reg) : Core := (s.drop 4).set r s.top

/-- `mov ax, v` -/
def setAx (s : Core) (v : Nat) : Core := s.set .eax (s.regs .eax / 2 ^ 16 * 2 ^ 16 + v)

/-- `mov ds, ax`, and the same for ES, FS and GS. -/
def loadData (s : Core) : Core := { s with segs := s.segs.setData (s.regs .eax % 2 ^ 16) }

/-- The stack pointer pushed is the one before the first push. -/
def pusha (s : Core) : Core :=
  (((((((s.push (s.regs .eax)).push (s.regs .ecx)).push (s.regs .edx)).push (s.regs .ebx)).push
    (s.regs .esp)).push (s.regs .ebp)).push (s.regs .esi)).push (s.regs .edi)

/-- The word of the stack pointer is skipped. -/
def popa (s : Core) : Core :=
  (((((((s.pop .edi).pop .esi).pop .ebp).drop 4).pop .ebx).pop .edx).pop .ecx).pop .eax

/-- `cli` -/
def cli (s : Core) : Core := { s with eflags := s.eflags &&& (0xFFFFFFFF ^^^ 0x200) }

/-- IF, TF, NT, RF and VM are clear in the handler. -/
def gateFlags (eflags : Nat) : Nat := eflags &&& (0xFFFFFFFF ^^^ 0x34300)

/-- From an outer ring the CPU changes to the stack in the TSS and saves the
old one there. -/
def enterStack (tss : Tss) (s : Core) : Core :=
  if s.segs.cpl = 0 then s
  else
    ({ s.set .esp tss.esp0 with segs := { s.segs with ss := tss.ss0 } }.push s.segs.ss).push
      (s.regs .esp)

/-- What the CPU pushes: some exceptions have an error code. -/
def pushFrame (err : Option Nat) (s t : Core) : Core :=
  let saved := ((t.push s.eflags).push s.segs.cs).push s.eip
  err.elim saved saved.push

/-- An interrupt or exception through `gate`. -/
def interrupt (tss : Tss) (gate : Gate) (err : Option Nat) (s : Core) : Core :=
  let saved := pushFrame err s (enterStack tss s)
  { saved with
    eip := gate.offset
    eflags := gateFlags s.eflags
    segs := { saved.segs with cs := gate.selector } }

/-- EIP, CS and EFLAGS off the stack. -/
def popFrame (s : Core) : Core :=
  { ((s.drop 4).drop 4).drop 4 with
    eip := s.top
    eflags := ((s.drop 4).drop 4).top
    segs := { s.segs with cs := (s.drop 4).top % 2 ^ 16 } }

/-- The stack of the outer ring. -/
def popStack (dpl : Nat → Nat) (s : Core) : Core :=
  { s.set .esp s.top with
    segs := { s.segs.checkData dpl with ss := (s.drop 4).top % 2 ^ 16 } }

/-- `iret`; `dpl` is the privilege level of a selector's segment. -/
def iret (dpl : Nat → Nat) (s : Core) : Core :=
  if s.segs.cpl < s.popFrame.segs.cpl then s.popFrame.popStack dpl else s.popFrame

@[simp]
theorem set_self (s : Core) (r : Reg) (v : Nat) : (s.set r v).regs r = v :=
  Function.update_self ..

theorem set_ne (s : Core) {r r' : Reg} (v : Nat) (h : r' ≠ r) :
    (s.set r v).regs r' = s.regs r' := Function.update_of_ne h ..

theorem push_regs (s : Core) (v : Nat) :
    (s.push v).regs = (s.set .esp (sub32 (s.regs .esp) 4)).regs := rfl

theorem push_mem (s : Core) (v : Nat) :
    (s.push v).mem = stw s.mem (sub32 (s.regs .esp) 4) v := by
  simp only [push]

theorem push_ne (s : Core) (v : Nat) {r : Reg} (h : r ≠ .esp) : (s.push v).regs r = s.regs r := by
  rw [push_regs, set_ne s _ h]

@[simp]
theorem set_segs (s : Core) (r : Reg) (v : Nat) : (s.set r v).segs = s.segs := rfl

@[simp]
theorem push_segs (s : Core) (v : Nat) : (s.push v).segs = s.segs := rfl

@[simp]
theorem setAx_segs (s : Core) (v : Nat) : (s.setAx v).segs = s.segs := rfl

@[simp]
theorem drop_segs (s : Core) (n : Nat) : (s.drop n).segs = s.segs := rfl

@[simp]
theorem pop_segs (s : Core) (r : Reg) : (s.pop r).segs = s.segs := rfl

theorem drop_ne (s : Core) (n : Nat) {r : Reg} (h : r ≠ .esp) : (s.drop n).regs r = s.regs r :=
  set_ne s _ h

theorem drop_drop (s : Core) (a b : Nat) : (s.drop a).drop b = s.drop (a + b) := by
  have hadd : add32 (add32 (s.regs .esp) a) b = add32 (s.regs .esp) (a + b) := by
    unfold add32
    omega
  unfold drop
  rw [set_self, hadd]
  unfold set
  rw [Function.update_idem]

theorem pop_ne (s : Core) {r r' : Reg} (hr : r' ≠ r) (h : r' ≠ .esp) :
    (s.pop r).regs r' = s.regs r' := by
  unfold pop
  rw [set_ne _ _ hr, drop_ne _ _ h]

/-- `mov ax, v` and then `mov ds, ax`. -/
theorem setAx_loadData (s : Core) {v : Nat} (hv : v < 2 ^ 16) :
    (s.setAx v).loadData.segs = s.segs.setData v := by
  have hax : (s.setAx v).regs .eax % 2 ^ 16 = v := by
    unfold setAx
    rw [set_self]
    omega
  unfold loadData
  rw [hax, setAx_segs]

/-- `pusha` changes the stack pointer only. -/
theorem pusha_ne (s : Core) {r : Reg} (h : r ≠ .esp) : s.pusha.regs r = s.regs r := by
  unfold pusha
  rw [push_ne _ _ h, push_ne _ _ h, push_ne _ _ h, push_ne _ _ h, push_ne _ _ h, push_ne _ _ h,
    push_ne _ _ h, push_ne _ _ h]

@[simp]
theorem pusha_segs (s : Core) : s.pusha.segs = s.segs := by simp [pusha]

@[simp]
theorem popa_segs (s : Core) : s.popa.segs = s.segs := by simp [popa]

end Core

/-! ## The stack -/

/-- Word `i` of the structure at `p`. -/
def field (m : Mem) (p i : Nat) : Nat := ldw m (add32 p (4 * i))

theorem field_stw_self (m : Mem) (p i : Nat) {v : Nat} (hv : v < 2 ^ 32) :
    field (stw m (add32 p (4 * i)) v) p i = v :=
  ldw_stw_self m (Nat.mod_lt _ (by omega)) hv

theorem field_stw_ne (m : Mem) (p v : Nat) {i j : Nat} (hi : i < 1024) (hj : j < 1024)
    (hne : i ≠ j) : field (stw m (add32 p (4 * j)) v) p i = field m p i := by
  have hword : add32 p (4 * i) = add32 (add32 p (4 * j)) ((4 * i + (2 ^ 32 - 4 * j)) % 2 ^ 32) := by
    unfold add32
    omega
  unfold field
  rw [hword]
  exact ldw_stw_of_apart m v (Nat.mod_lt _ (by omega)) (by omega) (by omega)

/-- The words `ws` were pushed since the stack pointer was `base`, the last
one first. -/
structure StackHolds (base : Nat) (ws : List Nat) (s : Core) : Prop where
  esp : s.regs .esp = sub32 base (4 * ws.length)
  words : ∀ i w, ws[i]? = some w → field s.mem (s.regs .esp) i = w

section Stack

variable {base v : Nat} {ws : List Nat} {s : Core}

theorem stackHolds_nil (h : s.regs .esp < 2 ^ 32) : StackHolds (s.regs .esp) [] s := by
  refine ⟨?_, fun i w hi => absurd hi (by simp)⟩
  rw [List.length_nil]
  unfold sub32
  omega

theorem StackHolds.esp_lt (h : StackHolds base ws s) : s.regs .esp < 2 ^ 32 := by
  rw [h.esp]
  exact Nat.mod_lt _ (by omega)

/-- Only the stack pointer and memory matter. -/
theorem StackHolds.congr {t : Core} (h : StackHolds base ws s) (hesp : t.regs .esp = s.regs .esp)
    (hmem : t.mem = s.mem) : StackHolds base ws t := by
  refine ⟨hesp.trans h.esp, fun i w hi => ?_⟩
  rw [hesp, hmem]
  exact h.words i w hi

theorem StackHolds.cli (h : StackHolds base ws s) : StackHolds base ws s.cli := h.congr rfl rfl

theorem StackHolds.loadData (h : StackHolds base ws s) : StackHolds base ws s.loadData := h.congr rfl rfl

theorem StackHolds.set (h : StackHolds base ws s) {r : Reg} (v : Nat) (hr : r ≠ .esp) :
    StackHolds base ws (s.set r v) := h.congr (s.set_ne v hr.symm) rfl

theorem StackHolds.push (h : StackHolds base ws s) (hv : v < 2 ^ 32) (hlen : ws.length < 1024) :
    StackHolds base (v :: ws) (s.push v) := by
  have hlt := h.esp_lt
  have hnew : (s.push v).regs .esp = sub32 (s.regs .esp) 4 := by
    rw [Core.push_regs, Core.set_self]
  have hnewlt : sub32 (s.regs .esp) 4 < 2 ^ 32 := Nat.mod_lt _ (by omega)
  refine ⟨?_, fun i w hi => ?_⟩
  · rw [hnew, h.esp, List.length_cons]
    unfold sub32
    omega
  · rw [hnew, Core.push_mem]
    unfold field
    cases i with
    | zero =>
      rw [Nat.mul_zero, add32_zero hnewlt, ldw_stw_self _ hnewlt hv]
      exact Option.some.inj hi
    | succ i =>
      have hi' : ws[i]? = some w := hi
      have hbound : i < ws.length := (List.getElem?_eq_some_iff.mp hi').1
      have hold : add32 (sub32 (s.regs .esp) 4) (4 * (i + 1)) = add32 (s.regs .esp) (4 * i) := by
        unfold add32 sub32
        omega
      rw [ldw_stw_of_apart _ _ hnewlt (by omega) (by omega), hold]
      exact h.words i w hi'

theorem StackHolds.top (h : StackHolds base (v :: ws) s) : s.top = v := by
  have hfirst := h.words 0 v rfl
  unfold field at hfirst
  rw [Nat.mul_zero, add32_zero h.esp_lt] at hfirst
  exact hfirst

theorem StackHolds.drop (h : StackHolds base (v :: ws) s) (hlen : ws.length < 1024) :
    StackHolds base ws (s.drop 4) := by
  have hnew : (s.drop 4).regs .esp = add32 (s.regs .esp) 4 := s.set_self .esp _
  refine ⟨?_, fun i w hi => ?_⟩
  · rw [hnew, h.esp, List.length_cons]
    unfold add32 sub32
    omega
  · rw [hnew]
    have hsame : field s.mem (add32 (s.regs .esp) 4) i = field s.mem (s.regs .esp) (i + 1) := by
      unfold field
      congr 1
      unfold add32
      omega
    exact hsame.trans (h.words (i + 1) w hi)

theorem StackHolds.pop (h : StackHolds base (v :: ws) s) (hlen : ws.length < 1024) {r : Reg}
    (hr : r ≠ .esp) : (s.pop r).regs r = v ∧ StackHolds base ws (s.pop r) := by
  unfold Core.pop
  rw [h.top]
  exact ⟨Core.set_self .., (h.drop hlen).set v hr⟩

/-- What `pusha` pushes for the registers `f`. -/
def pushaWords (f : Reg → Nat) : List Nat :=
  [f .edi, f .esi, f .ebp, f .esp, f .ebx, f .edx, f .ecx, f .eax]

theorem StackHolds.pusha (h : StackHolds base ws s) (hregs : ∀ r, s.regs r < 2 ^ 32)
    (hlen : ws.length < 1000) : StackHolds base (pushaWords s.regs ++ ws) s.pusha := by
  have h1 := h.push (hregs .eax) (by omega)
  have h2 := h1.push (hregs .ecx) (by simp only [List.length_cons]; omega)
  have h3 := h2.push (hregs .edx) (by simp only [List.length_cons]; omega)
  have h4 := h3.push (hregs .ebx) (by simp only [List.length_cons]; omega)
  have h5 := h4.push (hregs .esp) (by simp only [List.length_cons]; omega)
  have h6 := h5.push (hregs .ebp) (by simp only [List.length_cons]; omega)
  have h7 := h6.push (hregs .esi) (by simp only [List.length_cons]; omega)
  exact h7.push (hregs .edi) (by simp only [List.length_cons]; omega)

/-- `popa` brings back the registers that `pusha` pushed, all but the stack
pointer. -/
theorem StackHolds.popa {f : Reg → Nat} (h : StackHolds base (pushaWords f ++ ws) s)
    (hlen : ws.length < 1000) :
    StackHolds base ws s.popa ∧ ∀ r, r ≠ .esp → s.popa.regs r = f r := by
  have h0 : StackHolds base (f .edi :: f .esi :: f .ebp :: f .esp :: f .ebx :: f .edx :: f .ecx ::
    f .eax :: ws) s := h
  obtain ⟨hedi, h1⟩ := h0.pop (r := .edi) (by simp only [List.length_cons]; omega) (by decide)
  obtain ⟨hesi, h2⟩ := h1.pop (r := .esi) (by simp only [List.length_cons]; omega) (by decide)
  obtain ⟨hebp, h3⟩ := h2.pop (r := .ebp) (by simp only [List.length_cons]; omega) (by decide)
  have h4 := h3.drop (by simp only [List.length_cons]; omega)
  obtain ⟨hebx, h5⟩ := h4.pop (r := .ebx) (by simp only [List.length_cons]; omega) (by decide)
  obtain ⟨hedx, h6⟩ := h5.pop (r := .edx) (by simp only [List.length_cons]; omega) (by decide)
  obtain ⟨hecx, h7⟩ := h6.pop (r := .ecx) (by simp only [List.length_cons]; omega) (by decide)
  obtain ⟨heax, h8⟩ := h7.pop (r := .eax) (by omega) (by decide)
  refine ⟨h8, fun r hr => ?_⟩
  unfold Core.popa
  cases r with
  | eax => exact heax
  | ecx => simpa (disch := decide) only [Core.pop_ne] using hecx
  | edx => simpa (disch := decide) only [Core.pop_ne] using hedx
  | ebx => simpa (disch := decide) only [Core.pop_ne] using hebx
  | ebp => simpa (disch := decide) only [Core.pop_ne, Core.drop_ne] using hebp
  | esi => simpa (disch := decide) only [Core.pop_ne, Core.drop_ne] using hesi
  | edi => simpa (disch := decide) only [Core.pop_ne, Core.drop_ne] using hedi
  | esp => exact absurd rfl hr

/-! ## In and out of a trap -/

/-- The stack an interrupt is served on. -/
def stackBase (tss : Tss) (s : Core) : Nat := if s.segs.cpl = 0 then s.regs .esp else tss.esp0

/-- The old stack, where the CPU leaves it. -/
def outerWords (s : Core) : List Nat :=
  if s.segs.cpl = 0 then [] else [s.regs .esp, s.segs.ss]

theorem outerWords_length (s : Core) : (outerWords s).length ≤ 2 := by
  unfold outerWords
  split <;> simp

variable {tss : Tss}

theorem stackHolds_enterStack (hesp0 : tss.esp0 < 2 ^ 32) (hesp : s.regs .esp < 2 ^ 32)
    (hss : s.segs.ss < 2 ^ 32) :
    StackHolds (stackBase tss s) (outerWords s) (s.enterStack tss) := by
  unfold stackBase outerWords Core.enterStack
  split
  · exact stackHolds_nil hesp
  · have h0 : StackHolds tss.esp0 [] { s.set .esp tss.esp0 with
        segs := { s.segs with ss := tss.ss0 } } := by
      have hset := s.set_self .esp tss.esp0
      have h := stackHolds_nil (s := s.set .esp tss.esp0) (by rw [hset]; exact hesp0)
      rw [hset] at h
      exact h.congr rfl rfl
    have h1 := h0.push hss (by simp)
    exact h1.push hesp (by simp)

theorem StackHolds.pushFrame {err : Option Nat} {t : Core} (h : StackHolds base ws t)
    (hflags : s.eflags < 2 ^ 32) (hcs : s.segs.cs < 2 ^ 32) (heip : s.eip < 2 ^ 32)
    (herr : ∀ e ∈ err, e < 2 ^ 32) (hlen : ws.length < 1000) :
    StackHolds base (err.toList ++ s.eip :: s.segs.cs :: s.eflags :: ws) (Core.pushFrame err s t) := by
  have h1 := h.push hflags (by omega)
  have h2 := h1.push hcs (by simp only [List.length_cons]; omega)
  have h3 := h2.push heip (by simp only [List.length_cons]; omega)
  cases err with
  | none => exact h3
  | some e => exact h3.push (herr e rfl) (by simp only [List.length_cons]; omega)

theorem enterStack_ne (tss : Tss) (s : Core) {r : Reg} (hr : r ≠ .esp) :
    (s.enterStack tss).regs r = s.regs r := by
  unfold Core.enterStack
  split
  · rfl
  · rw [Core.push_ne _ _ hr, Core.push_ne _ _ hr]
    exact s.set_ne _ hr

theorem pushFrame_ne (err : Option Nat) (s t : Core) {r : Reg} (hr : r ≠ .esp) :
    (Core.pushFrame err s t).regs r = t.regs r := by
  unfold Core.pushFrame
  cases err with
  | none => exact (Core.push_ne _ _ hr).trans ((Core.push_ne _ _ hr).trans (Core.push_ne _ _ hr))
  | some e =>
    exact (Core.push_ne _ _ hr).trans
      ((Core.push_ne _ _ hr).trans ((Core.push_ne _ _ hr).trans (Core.push_ne _ _ hr)))

theorem pushFrame_segs (err : Option Nat) (s t : Core) :
    (Core.pushFrame err s t).segs = t.segs := by
  unfold Core.pushFrame
  cases err <;> simp

theorem interrupt_ne (gate : Gate) (err : Option Nat) {r : Reg} (hr : r ≠ .esp) :
    (s.interrupt tss gate err).regs r = s.regs r :=
  (pushFrame_ne err s _ hr).trans (enterStack_ne tss s hr)

/-- The CPU changes CS, and SS from an outer ring. -/
theorem interrupt_segs (gate : Gate) (err : Option Nat) :
    (s.interrupt tss gate err).segs =
      { s.segs with
        cs := gate.selector
        ss := if s.segs.cpl = 0 then s.segs.ss else tss.ss0 } := by
  unfold Core.interrupt
  dsimp only
  rw [pushFrame_segs]
  unfold Core.enterStack
  split <;> simp

theorem stackHolds_interrupt (gate : Gate) {err : Option Nat} (hesp0 : tss.esp0 < 2 ^ 32)
    (hesp : s.regs .esp < 2 ^ 32) (hss : s.segs.ss < 2 ^ 32) (hflags : s.eflags < 2 ^ 32)
    (hcs : s.segs.cs < 2 ^ 32) (heip : s.eip < 2 ^ 32) (herr : ∀ e ∈ err, e < 2 ^ 32) :
    StackHolds (stackBase tss s) (err.toList ++ s.eip :: s.segs.cs :: s.eflags :: outerWords s)
      (s.interrupt tss gate err) := by
  have hlen := outerWords_length s
  have h := (stackHolds_enterStack hesp0 hesp hss).pushFrame hflags hcs heip herr (by omega)
  exact h.congr rfl rfl

variable {eip cs eflags : Nat} {dpl : Nat → Nat}

theorem StackHolds.popFrame (h : StackHolds base (eip :: cs :: eflags :: ws) s)
    (hlen : ws.length < 1000) (hcs : cs < 2 ^ 16) :
    s.popFrame = { ((s.drop 4).drop 4).drop 4 with
      eip := eip
      eflags := eflags
      segs := { s.segs with cs := cs } } ∧ StackHolds base ws s.popFrame := by
  have h1 := h.drop (by simp only [List.length_cons]; omega)
  have h2 := h1.drop (by simp only [List.length_cons]; omega)
  have h3 := h2.drop (by omega)
  refine ⟨?_, h3.congr rfl rfl⟩
  unfold Core.popFrame
  rw [h.top, h1.top, h2.top, Nat.mod_eq_of_lt hcs]

/-- `iret` to the same ring goes on with the stack as it is. -/
theorem StackHolds.iret_same (h : StackHolds base (eip :: cs :: eflags :: ws) s)
    (hlen : ws.length < 1000) (hcs : cs < 2 ^ 16) (hring : cs % 4 ≤ s.segs.cpl) :
    s.iret dpl = s.popFrame := by
  have hcpl : s.popFrame.segs.cpl = cs % 4 := by
    rw [(h.popFrame hlen hcs).1]
    rfl
  unfold Core.iret
  rw [hcpl, if_neg (Nat.not_lt.mpr hring)]

/-- `iret` to an outer ring takes the stack from the frame. -/
theorem StackHolds.iret_outer {esp ss : Nat}
    (h : StackHolds base [eip, cs, eflags, esp, ss] s) (hcs : cs < 2 ^ 16) (hss : ss < 2 ^ 16)
    (hring : s.segs.cpl < cs % 4) :
    s.iret dpl = { s.popFrame.set .esp esp with
      segs := { s.popFrame.segs.checkData dpl with ss := ss } } := by
  obtain ⟨heq, hrest⟩ := h.popFrame (by simp) hcs
  have hcpl : s.popFrame.segs.cpl = cs % 4 := by
    rw [heq]
    rfl
  have hlast := hrest.drop (by simp)
  unfold Core.iret Core.popStack
  rw [hcpl, if_pos hring, hrest.top, hlast.top, Nat.mod_eq_of_lt hss]

end Stack

/-! ## What pushing leaves alone -/

/-- `n` words were pushed since the stack pointer was `base` and memory was `m`,
and nothing else was written. -/
structure OnlyPushed (base : Nat) (m : Mem) (n : Nat) (s : Core) : Prop where
  esp : s.regs .esp = sub32 base (4 * n)
  mem : ∀ x, 4 * n ≤ sub32 x (sub32 base (4 * n)) → s.mem x = m x

section OnlyPushed

variable {base n : Nat} {m : Mem} {s : Core} {tss : Tss}

theorem OnlyPushed.congr {t : Core} (h : OnlyPushed base m n s) (hesp : t.regs .esp = s.regs .esp)
    (hmem : t.mem = s.mem) : OnlyPushed base m n t :=
  ⟨hesp.trans h.esp, fun x hx => (congrFun hmem x).trans (h.mem x hx)⟩

theorem OnlyPushed.cli (h : OnlyPushed base m n s) : OnlyPushed base m n s.cli := h.congr rfl rfl

theorem OnlyPushed.loadData (h : OnlyPushed base m n s) : OnlyPushed base m n s.loadData :=
  h.congr rfl rfl

theorem OnlyPushed.setAx (h : OnlyPushed base m n s) (v : Nat) : OnlyPushed base m n (s.setAx v) :=
  h.congr (s.set_ne _ (by decide)) rfl

theorem OnlyPushed.push (h : OnlyPushed base m n s) (v : Nat) (hn : n < 1024) :
    OnlyPushed base m (n + 1) (s.push v) := by
  have hnew : sub32 (s.regs .esp) 4 = sub32 base (4 * (n + 1)) := by
    rw [h.esp]
    unfold sub32
    omega
  refine ⟨?_, fun x hx => ?_⟩
  · rw [Core.push_regs, Core.set_self, hnew]
  · have hout : ¬sub32 x (sub32 base (4 * (n + 1))) < 4 := by omega
    have hold : 4 * n ≤ sub32 x (sub32 base (4 * n)) := by
      unfold sub32 at hx ⊢
      omega
    rw [Core.push_mem, hnew]
    exact (if_neg hout).trans (h.mem x hold)

theorem OnlyPushed.pusha (h : OnlyPushed base m n s) (hn : n < 1000) :
    OnlyPushed base m (n + 8) s.pusha := by
  have h1 := h.push (s.regs .eax) (by omega)
  have h2 := h1.push (s.regs .ecx) (by omega)
  have h3 := h2.push (s.regs .edx) (by omega)
  have h4 := h3.push (s.regs .ebx) (by omega)
  have h5 := h4.push (s.regs .esp) (by omega)
  have h6 := h5.push (s.regs .ebp) (by omega)
  have h7 := h6.push (s.regs .esi) (by omega)
  exact h7.push (s.regs .edi) (by omega)

/-- From an outer ring: five words, and the error code if there is one. -/
theorem onlyPushed_interrupt (gate : Gate) (err : Option Nat) (hesp0 : tss.esp0 < 2 ^ 32)
    (hring : s.segs.cpl ≠ 0) :
    OnlyPushed tss.esp0 s.mem (5 + err.toList.length) (s.interrupt tss gate err) := by
  have h0 : OnlyPushed tss.esp0 s.mem 0 { s.set .esp tss.esp0 with
      segs := { s.segs with ss := tss.ss0 } } := by
    refine ⟨?_, fun _ _ => rfl⟩
    show (s.set .esp tss.esp0).regs .esp = _
    rw [Core.set_self]
    unfold sub32
    omega
  have h2 : OnlyPushed tss.esp0 s.mem 2 (s.enterStack tss) := by
    unfold Core.enterStack
    rw [if_neg hring]
    exact (h0.push s.segs.ss (by omega)).push (s.regs .esp) (by omega)
  have h3 := h2.push s.eflags (by omega)
  have h4 := h3.push s.segs.cs (by omega)
  have h5 := h4.push s.eip (by omega)
  have hframe : OnlyPushed tss.esp0 s.mem (5 + err.toList.length)
      (Core.pushFrame err s (s.enterStack tss)) := by
    cases err with
    | none => exact h5
    | some e => exact h5.push e (by omega)
  exact hframe.congr rfl rfl

end OnlyPushed

end MyOS.Lib.X86
