import MyOS.Lib.Trap
import MyOS.Task.Syscall

/-!
# Interrupt stubs

Every gate of the IDT leads to a stub in `isr.s`. The stub completes what the
CPU pushed (a `0` where there is no error code, then the vector) and jumps to
one of two common stubs, which save the rest, call a dispatcher in C with a
pointer to the lot and undo everything. To C the lot is `struct registers`.

Mirroring notes vs the source:
- The two common stubs differ in the dispatcher they call. The code before the
  call is `enterCommon`, the code behind it `leaveCommon`.
- The addresses of the stubs and of the instructions behind the two calls are
  the linker's: they are fields of `TrapImage`.
- Memory is as the kernel sees it on the stack it runs on: pages that are
  there. EIP is followed from the interrupted instruction to the gate and back,
  not through the straight code in between.
- A compiled C function is what it does to memory. `Returns` is the calling
  convention: the return address is gone and CS and SS are as they were.
- All gates are interrupt gates with the selector `0x08`. Virtual-8086 mode
  is not used.
-/

namespace MyOS

open Lib Lib.Mem Lib.X86

/-! ## `struct registers` -/

structure SavedRegisters where
  ds : Nat
  edi : Nat
  esi : Nat
  ebp : Nat
  esp : Nat
  ebx : Nat
  edx : Nat
  ecx : Nat
  eax : Nat
  intNo : Nat
  errCode : Nat
  eip : Nat
  cs : Nat
  eflags : Nat
  useresp : Nat
  ss : Nat

/-- `*regs`: the struct is packed, sixteen words. -/
def registersAt (m : Mem) (regs : Nat) : SavedRegisters where
  ds := field m regs 0
  edi := field m regs 1
  esi := field m regs 2
  ebp := field m regs 3
  esp := field m regs 4
  ebx := field m regs 5
  edx := field m regs 6
  ecx := field m regs 7
  eax := field m regs 8
  intNo := field m regs 9
  errCode := field m regs 10
  eip := field m regs 11
  cs := field m regs 12
  eflags := field m regs 13
  useresp := field m regs 14
  ss := field m regs 15

/-- `regs->eax = v` -/
def setSavedEax (m : Mem) (regs v : Nat) : Mem := stw m (add32 regs (4 * 8)) v

/-! ## The dispatchers -/

/-- What leaves the kernel: characters for the terminal and bytes for ports. -/
inductive Output where
  | char (c : UInt8)
  | outb (port value : Nat)

/-- A handler does not return if there is no memory afterwards. -/
abbrev Handler := Mem → Nat → List Output × Option Mem

/-- The vector in decimal, at least three characters. -/
def vectorText (n : Nat) : List UInt8 :=
  [if 100 ≤ n then UInt8.ofNat (0x30 + n / 100) else 0x20,
    if 10 ≤ n then UInt8.ofNat (0x30 + n % 100 / 10) else 0x20,
    UInt8.ofNat (0x30 + n % 10)]

/-- The error code in hex, from the last digit to the first. -/
def hexText (ec : Nat) : List UInt8 :=
  writestring "0x" ++ (List.range 8).map fun i =>
    (writestring "0123456789ABCDEF").getD (ec / 16 ^ (7 - i) % 16) 0

def panicText (r : SavedRegisters) : List UInt8 :=
  writestring "\n\n*** KERNEL PANIC: Unhandled Exception ***\n" ++ writestring "Exception #" ++
    vectorText r.intNo ++ writestring "  Error Code: " ++ hexText r.errCode ++
    writestring "System Halted.\n"

section Dispatch

variable (handlers : Nat → Option Handler) (m : Mem) (regs : Nat)

def isrDispatch : List Output × Option Mem :=
  match handlers (registersAt m regs).intNo with
  | some handler => handler m regs
  | none => ((panicText (registersAt m regs)).map .char, none)

/-- `irq_dispatch` acknowledges the interrupt to one PIC or both. -/
def eoi (intNo : Nat) : List Output :=
  (if 40 ≤ intNo then [.outb 0xA0 0x20] else []) ++ [.outb 0x20 0x20]

def irqDispatch : List Output × Option Mem :=
  match handlers (registersAt m regs).intNo with
  | some handler => (eoi (registersAt m regs).intNo ++ (handler m regs).1, (handler m regs).2)
  | none => (eoi (registersAt m regs).intNo, some m)

end Dispatch

/-! ## The stubs -/

inductive Common where
  | isr
  | irq
  deriving DecidableEq

def Common.dispatch : Common → (Nat → Option Handler) → Mem → Nat → List Output × Option Mem
  | .isr => isrDispatch
  | .irq => irqDispatch

/-- What a macro of `isr.s` makes: does it push a dummy error code, which
vector does it push, and where does it jump to. -/
structure Stub where
  dummy : Bool
  intNo : Nat
  common : Common
  deriving DecidableEq

/-- `ISR_NOERR n` -/
def isrNoErr (n : Nat) : Stub := ⟨true, n, .isr⟩

/-- `ISR_ERR n` -/
def isrErr (n : Nat) : Stub := ⟨false, n, .isr⟩

/-- `IRQ i, n` -/
def irqStub (n : Nat) : Stub := ⟨true, n, .irq⟩

def Stub.entry (st : Stub) (s : Core) : Core :=
  if st.dummy then (s.cli.push 0).push st.intNo else s.cli.push st.intNo

inductive Label where
  | isr (n : Nat)
  | irq (i : Nat)
  deriving DecidableEq

/-- The stubs of `isr.s`, in its order. -/
def stubs : List (Label × Stub) :=
  ([isrNoErr 0, isrNoErr 1, isrNoErr 2, isrNoErr 3, isrNoErr 4, isrNoErr 5, isrNoErr 6, isrNoErr 7,
    isrErr 8, isrNoErr 9, isrErr 10, isrErr 11, isrErr 12, isrErr 13, isrErr 14, isrNoErr 15,
    isrNoErr 16, isrErr 17, isrNoErr 18, isrNoErr 19, isrNoErr 20, isrNoErr 21, isrNoErr 22,
    isrNoErr 23, isrNoErr 24, isrNoErr 25, isrNoErr 26, isrNoErr 27, isrNoErr 28, isrNoErr 29,
    isrErr 30, isrNoErr 31, isrNoErr 128].map fun st => (.isr st.intNo, st)) ++
  (List.range 16).map fun i => (.irq i, irqStub (32 + i))

/-- The gates that `idt_init` sets. -/
def idtGates : List (Nat × Label) :=
  (List.range 32).map (fun n => (n, .isr n)) ++ [(128, .isr 128)] ++
    (List.range 16).map fun i => (32 + i, .irq i)

/-- The stub that a vector leads to. -/
def stubOf (v : Nat) : Option (Label × Stub) :=
  (idtGates.lookup v).bind fun label => (stubs.lookup label).map (label, ·)

/-- The vectors for which the CPU pushes an error code. -/
def errorVectors : List Nat := [8, 10, 11, 12, 13, 14, 17, 30]

/-! ## The common stubs -/

/-- `pusha / mov ax, ds / push eax / mov ax, 0x10 / mov ds, ax / mov es, ax /
mov fs, ax / mov gs, ax / push esp / call`, to the first instruction of the
dispatcher. -/
def enterCommon (ret : Nat) (s : Core) : Core :=
  let s := s.pusha
  let s := s.setAx s.segs.ds
  let s := s.push (s.regs .eax)
  let s := (s.setAx 0x10).loadData
  let s := s.push (s.regs .esp)
  s.push ret

/-- `add esp, 4 / pop eax / mov ds, ax / mov es, ax / mov fs, ax / mov gs, ax /
popa / add esp, 8` -/
def undoCommon (s : Core) : Core := ((s.drop 4).pop .eax).loadData.popa.drop 8

/-- From the return of the dispatcher to the interrupted code. -/
def leaveCommon (dpl : Nat → Nat) (s : Core) : Core := (undoCommon s).iret dpl

/-- The access bytes of the GDT, as `gdt_init` writes them. -/
def gdtAccess : List Nat := [0x00, 0x9A, 0x92, 0xFA, 0xF2, 0x89]

/-- The privilege level of a selector's segment. -/
def segmentDpl (sel : Nat) : Nat := gdtAccess.getD (sel / 8) 0 / 32 % 4

/-- What is not in the source: addresses, and the stack in the TSS. -/
structure TrapImage where
  label : Label → Nat
  ret : Common → Nat
  tss : Tss
  ret_lt : ∀ c, ret c < 2 ^ 32
  esp0_lt : tss.esp0 < 2 ^ 32

/-- From the interrupted instruction to the dispatcher. The CPU pushes `err`
if the vector has an error code. -/
def TrapImage.atDispatcher (im : TrapImage) (v err : Nat) (label : Label) (st : Stub) (s : Core) :
    Core :=
  enterCommon (im.ret st.common) (st.entry (s.interrupt im.tss ⟨0x08, im.label label⟩
    (if v ∈ errorVectors then some err else none)))

/-- The argument of the C function that is called. -/
def argument (s : Core) : Nat := (s.drop 4).top

/-- A C function was entered in `s` and has returned in `t`, having made `m` of
the struct at `regs`. -/
structure Returns (m : Mem) (regs : Nat) (s t : Core) : Prop where
  esp : t.regs .esp = add32 (s.regs .esp) 4
  cs : t.segs.cs = s.segs.cs
  ss : t.segs.ss = s.segs.ss
  frame : ∀ i, i < 16 → field t.mem regs i = field m regs i

end MyOS
