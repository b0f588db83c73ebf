import MyOS.Lib.X86
import MyOS.Task.Sched

/-!
# `switch_task`, instruction by instruction

The scheduler's model of `switch_task` is its effect on the kernel's data.
Here is the code of `switch.s` itself: what it pushes on the stack of the
task that leaves, where it finds the stack of the task that goes on, and what
it pops there.

Mirroring notes vs the assembly:
- Words at `task_table` are fields of the table, at the offsets of `task_t`;
  every other access goes through the MMU, byte by byte, as the kernel's other
  accesses at virtual addresses do.
- `switch.s` writes offset 4 of a task only.
- `current_page_directory` and the TSS are components of the machine.
- `tss_set_kernel_stack` is compiled C. `Callee` is what such a function may
  leave behind: EAX, ECX and EDX, and any bytes below its return address.
-/

namespace MyOS

open Lib Lib.Mem Lib.Paging Lib.X86

/-! ## Memory as `switch_task` sees it -/

/-- A word read at a virtual address. -/
def vread32 (a : Nat) (k : Machine) : Except Panic (Nat × Machine) :=
  (vcopyOut a 4 k).map fun r => (rd32 r.1 0, r.2)

/-- The first `n` bytes of `v` are written at a virtual address. -/
def vwriteBytes (a v : Nat) : Nat → Machine → Except Panic Machine
  | 0, k => .ok k
  | n + 1, k => (vwriteBytes a v n k).bind (vwrite ((a + n) % 2 ^ 32) (byteOf v n))

def vwrite32 (a v : Nat) (k : Machine) : Except Panic Machine := vwriteBytes a v 4 k

/-- `sizeof(task_t)` -/
def taskSize : Nat := 28

/-- `&task_table[i]`, the table being at `base`. -/
def taskAddr (base : Nat) (i : Slot) : Nat := base + taskSize * i

def InTable (base a : Nat) : Prop := base ≤ a ∧ a < base + taskSize * 32

instance (base a : Nat) : Decidable (InTable base a) := inferInstanceAs (Decidable (_ ∧ _))

def slotAt (base a : Nat) : Slot := Fin.ofNat 32 ((a - base) / taskSize)

def TaskState.code : TaskState → Nat
  | .ready => 0
  | .running => 1
  | .blocked => 2
  | .zombie => 3

/-- The field at an offset. -/
def Task.word (base : Nat) (t : Task) : Nat → Nat
  | 0 => t.pid
  | 4 => t.esp
  | 8 => t.eip
  | 12 => t.pageDirectory
  | 16 => t.kstack
  | 20 => t.state.code
  | 24 => t.next.elim 0 (taskAddr base)
  | _ => 0

def Task.setWord (t : Task) (v : Nat) : Nat → Task
  | 4 => { t with esp := v }
  | _ => t

def kernelBus (base : Nat) : Bus Kernel Panic where
  load a k :=
    if InTable base a then
      .ok ((k.taskTable (slotAt base a)).word base ((a - base) % taskSize), k)
    else (vread32 a k.toMachine).map fun r => (r.1, { k with toMachine := r.2 })
  store a v k :=
    if InTable base a then
      .ok { k with
        taskTable := Function.update k.taskTable (slotAt base a)
          ((k.taskTable (slotAt base a)).setWord v ((a - base) % taskSize)) }
    else (vwrite32 a v k.toMachine).map fun m => { k with toMachine := m }

/-! ## The code -/

/-- What the compiled `tss_set_kernel_stack` leaves behind, and the address it
returns to. -/
structure Callee where
  ret : Nat
  eax : Nat
  ecx : Nat
  edx : Nat
  depth : Nat
  below : Mem

section Code

variable (base : Nat) (callee : Callee)

/-- The registers go on the stack, the stack pointer into the task. -/
def saveContext (s : Cpu Kernel) : Except Panic (Cpu Kernel) :=
  (push (kernelBus base) (s.regs .ebp) s).bind fun s =>
  (push (kernelBus base) (s.regs .ebx) s).bind fun s =>
  (push (kernelBus base) (s.regs .esi) s).bind fun s =>
  (push (kernelBus base) (s.regs .edi) s).bind fun s =>
  (load (kernelBus base) .eax .esp 20 s).bind fun s =>
  (load (kernelBus base) .edx .esp 24 s).bind fun s =>
  store (kernelBus base) .eax 4 .esp s

/-- `mov ebx, cr3 / cmp ecx, ebx / je .no_paging_switch / mov cr3, ecx /
mov [current_page_directory], ecx` -/
def switchPaging (s : Cpu Kernel) : Cpu Kernel :=
  let s := s.set .ebx s.sys.cr3
  if s.regs .ecx = s.regs .ebx then s
  else { s with sys := { s.sys with cr3 := s.regs .ecx, currentPageDirectory := s.regs .ecx } }

/-- `tss_set_kernel_stack` from its entry in `s`, with the argument `x.1`: it
writes the TSS and returns. -/
def tssSetKernelStack (s : Cpu Kernel) (x : Nat × Kernel) : Cpu Kernel :=
  let regs := (((s.set .eax callee.eax).set .ecx callee.ecx).set .edx callee.edx).set .esp
    (add32 (s.regs .esp) 4)
  { regs with
    sys := { x.2 with
      esp0 := x.1
      mem := fun a => if s.regs .esp ≤ a + callee.depth ∧ a < s.regs .esp then callee.below a
        else x.2.mem a } }

/-- `call tss_set_kernel_stack / add esp, 4` -/
def callTss (s : Cpu Kernel) : Except Panic (Cpu Kernel) :=
  (push (kernelBus base) callee.ret s).bind fun s =>
  ((kernelBus base).load (add32 (s.regs .esp) 4) s.sys).map fun x =>
    let s := tssSetKernelStack callee s x
    s.set .esp (add32 (s.regs .esp) 4)

/-- The stack of the next task, its directory, and its trap stack. -/
def swapStacks (s : Cpu Kernel) : Except Panic (Cpu Kernel) :=
  (load (kernelBus base) .esp .edx 4 s).bind fun s =>
  (load (kernelBus base) .ecx .edx 12 s).bind fun s =>
  (load (kernelBus base) .ecx .edx 16 (switchPaging s)).bind fun s =>
  (push (kernelBus base) (s.regs .ecx) s).bind (callTss base callee)

def restoreContext (s : Cpu Kernel) : Except Panic (Cpu Kernel) :=
  (pop (kernelBus base) .edi s).bind fun s =>
  (pop (kernelBus base) .esi s).bind fun s =>
  (pop (kernelBus base) .ebx s).bind fun s =>
  (pop (kernelBus base) .ebp s).bind (ret (kernelBus base))

/-- `switch_task`, from its first instruction to its `ret`. -/
def switchTaskAsm (s : Cpu Kernel) : Except Panic (Cpu Kernel) :=
  (saveContext base s).bind fun s => (swapStacks base callee s).bind (restoreContext base)

/-- `switch_task(prev, next)` in C, with `back` as the return address. -/
def callSwitchTask (prev next : Slot) (back : Nat) (s : Cpu Kernel) : Except Panic (Cpu Kernel) :=
  (push (kernelBus base) (taskAddr base next) s).bind fun s =>
  (push (kernelBus base) (taskAddr base prev) s).bind fun s =>
  (push (kernelBus base) back s).bind (switchTaskAsm base callee)

end Code

end MyOS
