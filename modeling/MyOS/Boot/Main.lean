import MyOS.Elf.Interrupts
import MyOS.Lib.Traced
import MyOS.Task.Steps
import MyOS.Task.Switch
import MyOS.Vfs.TarInit

/-!
# `kernel_main` behind `vmm_init`

The second half of the boot: `cli`, the tests of the page tables, the file
system, the scheduler, two kernel tasks, the program `/hello` and the timer,
up to the `sti` that lets the first interrupt in. Interrupts are to stay off
until then ("Keep interrupts off until scheduler is fully ready"): the PIC
has not been remapped and the timer has no handler before `timer_init`.

`kernelMain` is that run, with the values written to the interrupt flag as
events. `kernelMain_true_iff` finds the one call that writes `true`:
`elf_load`, which turns interrupts on behind every segment.

Mirroring notes vs the C:
- The machine is the one `vmm_init` returns with; memory, page tables and the
  allocator are arbitrary, so the Multiboot information and the RAM disk are
  any bytes.
- The events are the instructions `cli` and `sti`. A page fault goes through
  an interrupt gate and `iret` restores the flag, so it is no event.
- `for (;;) hlt` ends the run, with the message on the screen. What else is
  printed is left out.
- The walk over the task list and the loop over the archive have fuel. A name
  in the archive that overruns its node ends the run (`BootStop.tar`), since
  the `strcpy` there is undefined.
- Code behind the first `sti` is run as if no interrupt came.
-/

namespace MyOS

open Lib Lib.Mem Lib.Paging

/-- The tests that end in a halt. -/
inductive BootTest where
  | mapFrame
  | signature
  | demandValue
  | securityFrame
  deriving DecidableEq, Repr

def BootTest.message : BootTest → String
  | mapFrame => "  [VMM TEST FAILED] PMM allocation returned NULL!\n"
  | signature => "  [VMM TEST FAILED] Read/write verification signature mismatch!\n"
  | demandValue => "  [VMM TEST FAILED] Demand paging value mismatch!\n"
  | securityFrame => "  [Kernel] Error: Failed to allocate physical frame for security test.\n"

/-- Why the boot does not get to its end. -/
inductive BootStop where
  | panic (p : Panic)
  | test (t : BootTest)
  | tar (e : TarError)
  | task (s : Stuck)
  deriving DecidableEq, Repr

/-- What the link and the boot loader fix: the addresses of the functions, and
the Multiboot information. -/
structure BootEnv where
  sym : Symbols
  taskA : Nat
  taskB : Nat
  timerCallback : Nat
  mbiAddr : Nat
  fuel : Nat

/-! ## The tests of the page tables -/

/-- `*p = v` and the `*p` that is compared with it. -/
def writeBack (a v : Nat) (k : Machine) : Except Panic (Nat × Machine) :=
  (vwrite32 a v k).bind (vread32 a)

/-- Test A: a frame is mapped at `0xA0000000`, written and read. -/
def vmmTestA (k : Machine) : Except BootStop Machine :=
  let physTest := (pmmAllocBlock k.pmm).1
  let k₁ := { k with pmm := (pmmAllocBlock k.pmm).2 }
  if physTest = 0 then .error (.test .mapFrame)
  else
    (((vmmMapPage physTest 0xA0000000 (flagPresent ||| flagWrite ||| flagUser) k₁).bind
      (writeBack 0xA0000000 0xCAFEBABE)).mapError .panic).bind fun r =>
    if r.1 ≠ 0xCAFEBABE then .error (.test .signature)
    else
      let k₂ := vmmUnmapPage 0xA0000000 r.2
      .ok { k₂ with pmm := pmmFreeBlock physTest k₂.pmm }

/-- Test B: `0x40000000` is mapped by the page fault its write causes. -/
def vmmTestB (k : Machine) : Except BootStop Machine :=
  ((writeBack 0x40000000 0x12345678 k).mapError .panic).bind fun r =>
  if r.1 ≠ 0x12345678 then .error (.test .demandValue)
  else .ok (vmmUnmapPage 0x40000000 r.2)

/-- A page at `0xD0000000` for the kernel alone. -/
def securityPage (k : Machine) : Except BootStop Machine :=
  let physSec := (pmmAllocBlock k.pmm).1
  if physSec = 0 then .error (.test .securityFrame)
  else
    (vmmMapPage physSec 0xD0000000 (flagPresent ||| flagWrite)
      { k with pmm := (pmmAllocBlock k.pmm).2 }).mapError .panic

/-! ## The RAM disk -/

/-- `mods`, if the Multiboot information has modules. -/
def moduleList (mbiAddr : Nat) (k : Machine) : Except Panic (Option Nat × Machine) :=
  (vread32 mbiAddr k).bind fun flags =>
  if flags.1 &&& 0x8 = 0 then .ok (none, flags.2)
  else
    (vread32 ((mbiAddr + 20) % 2 ^ 32) flags.2).bind fun count =>
    if count.1 = 0 then .ok (none, count.2)
    else (vread32 ((mbiAddr + 24) % 2 ^ 32) count.2).map fun mods => (some mods.1, mods.2)

/-- The probe: the first byte of the first module is printed. -/
def postVmmProbe (mbiAddr : Nat) (k : Machine) : Except Panic Machine :=
  (moduleList mbiAddr k).bind fun mods =>
  mods.1.elim (.ok mods.2) fun a =>
    (vread32 a mods.2).bind fun s => (vread s.1 s.2).map Prod.snd

/-- `initrd_start` and `initrd_end`. -/
def initrdModule (mbiAddr : Nat) (k : Machine) : Except Panic ((Nat × Nat) × Machine) :=
  (moduleList mbiAddr k).bind fun mods =>
  mods.1.elim (.ok ((0, 0), mods.2)) fun a =>
    (vread32 a mods.2).bind fun s =>
    (vread32 ((a + 4) % 2 ^ 32) s.2).map fun e => ((s.1, e.1), e.2)

/-- The variables of the file system before `tar_init`: no node, no root. -/
def unmounted : Vfs := ⟨[], ⟨[], 0, 0, 0, false, false, false⟩, none⟩

/-- `tar_init` on the module, if it is one, behind the print of its first
byte. -/
def mountInitrd (fuel : Nat) (initrd : Nat × Nat) (k : Machine) : Except BootStop (Vfs × Machine) :=
  if initrd.1 ≠ 0 ∧ initrd.1 < initrd.2 then
    ((vread initrd.1 k).mapError .panic).bind fun r =>
    (tarInit fuel initrd.1 (initrd.2 - initrd.1) r.2).mapError .tar
  else .ok (unmounted, k)

/-! ## The timer -/

/-- The bytes written to ports, and the handlers in the table of the IDT. -/
structure Devices where
  outb : List (Nat × Nat)
  handlers : Nat → Option Nat

def idtRegisterHandler (vector handler : Nat) (d : Devices) : Devices :=
  { d with handlers := Function.update d.handlers vector (some handler) }

/-- The PIC is remapped to the vectors from 32 on, and the PIT set to
`frequency`. -/
def timerInit (callback frequency : Nat) (d : Devices) : Devices :=
  let divisor := 1193182 / frequency
  idtRegisterHandler 32 callback { d with
    outb := d.outb ++ [(0x20, 0x11), (0xA0, 0x11), (0x21, 0x20), (0xA1, 0x28), (0x21, 0x04),
      (0xA1, 0x02), (0x21, 0x01), (0xA1, 0x01), (0x21, 0x00), (0xA1, 0x00),
      (0x43, 0x36), (0x40, divisor &&& 0xFF), (0x40, divisor >>> 8 &&& 0xFF)] }

/-! ## The run -/

/-- A run of the boot, with the values written to the interrupt flag. -/
abbrev BootRun := Traced Bool BootStop

/-- `task_create` starts with `cli` and has no `sti`. -/
def createTask (env : BootEnv) (entry pageDir : Nat) (isUser : Bool) (k : Kernel) : BootRun Kernel :=
  .call [false] (((taskCreate env.sym env.fuel entry pageDir isUser k).map Prod.snd).mapError .task)

/-- The tests and the file system, behind the `cli`. -/
def bootMachines (env : BootEnv) (k : Machine) : Except BootStop ((Nat × Nat) × Vfs × Machine) :=
  ((postVmmProbe env.mbiAddr { k with intFlag := false }).mapError .panic).bind fun k₁ =>
  (vmmTestA k₁).bind fun k₂ =>
  (vmmTestB k₂).bind fun k₃ =>
  (securityPage k₃).bind fun k₄ =>
  ((initrdModule env.mbiAddr k₄).mapError .panic).bind fun m =>
  (mountInitrd env.fuel m.1 m.2).map fun v => (m.1, v.1, v.2)

/-- The state when `/hello` is loaded. -/
structure BootState where
  initrdStart : Nat
  vfs : Vfs
  kernel : Kernel

/-- Steps 8 to 12, from the `cli` behind `vmm_init` on. -/
def beforeHello (env : BootEnv) (k : Machine) : BootRun BootState :=
  (Traced.call [false] (bootMachines env k)).bind fun b =>
  (Traced.call [false] (.ok (schedulerInit b.2.2))).bind fun k₁ =>
  (createTask env env.taskA 0 false k₁).bind fun k₂ =>
  (createTask env env.taskB 0 false k₂).bind fun k₃ =>
  .call [] (.ok ⟨b.1.1, b.2.1, k₃⟩)

/-- The task of a program that was loaded. -/
def spawnHello (env : BootEnv) (k : Kernel) : ElfResult × Machine → BootRun Kernel
  | (.ok (entry, pd), m) => createTask env entry pd true { k with toMachine := m }
  | (.error _, m) => .call [] (.ok { k with toMachine := m })

/-- Step 13. -/
def loadHello (env : BootEnv) (s : BootState) : BootRun Kernel :=
  if s.initrdStart ≠ 0 then
    (Traced.call (elfFlags s.vfs (cstr "/hello") s.kernel.toMachine)
      ((elfLoad s.vfs (cstr "/hello") s.kernel.toMachine).mapError .panic)).bind
      (spawnHello env s.kernel)
  else .call [] (.ok s.kernel)

/-- `kernel_main` from the `cli` behind `vmm_init` to the last `sti`, which is
not an event of it. -/
def kernelMain (env : BootEnv) (d : Devices) (k : Machine) : BootRun (Kernel × Devices) :=
  (beforeHello env k).bind fun s =>
  (loadHello env s).bind fun k' => .call [] (.ok (k', timerInit env.timerCallback 100 d))

end MyOS
