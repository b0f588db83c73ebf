import MyOS.Lib.Chain
import MyOS.Vmm.Mmu

/-!
# Tasks: the table, the list and the scheduler

`task_table` holds 32 tasks; the ones in use are linked through `next` from
`task_list`, which is slot 0, the boot task, from `scheduler_init` on.
`task_create` takes the first slot that was never used (pid 0) or whose task
has exited (ZOMBIE), gives it a stack and appends it to the list. `schedule`
looks for the next READY task behind the current one and switches to it.
`task_exit` marks the current task and calls `schedule`; nothing unlinks it.

Mirroring notes vs the C:
- A task pointer is a slot number. The table is a component of its own, not
  bytes of memory, like the allocator's bitmap.
- The stack of a new task is cleared and filled at its physical address (all
  RAM is identity-mapped, and `vmm_map_page` has just mapped it so).
- `switch_task` here is its effect on the kernel's data. `esp` is the stack
  pointer it saves, whatever the caller's frames make it; the registers and
  the stack contents are modelled in `Task.Switch`.
- The loops over `next` run with fuel. `Stuck.loop` is a loop that did not
  end; results are about every fuel.
- `for (;;) hlt` at the end of `task_exit`, with interrupts off, is reached
  exactly if `schedule` did not switch. Then `halted` is set and nothing runs
  any more.
- A block number is below `2 ^ 20 - 1`, so `stack + PMM_BLOCK_SIZE` does not
  wrap.
- `intFlag` after a switch is that of the task switched to, once it is back
  from its own `task_yield` or timer interrupt: on. Up to there, or if it had
  called `schedule` itself with interrupts off, the flag is still off. No result
  reads it after a switch.
-/

namespace MyOS

open Lib Lib.Mem Lib.Paging

inductive TaskState where
  | ready
  | running
  | blocked
  | zombie
  deriving DecidableEq, Repr

/-- A `task_t` pointer other than `NULL`: an index of `task_table`. -/
abbrev Slot := Fin 32

/-- There is a slot 0. -/
instance maxTasks_ne_zero : NeZero 32 := ⟨by decide⟩

/-- `task_t` -/
structure Task where
  pid : Nat
  esp : Nat
  eip : Nat
  pageDirectory : Nat
  kstack : Nat
  state : TaskState
  next : Option Slot
  deriving DecidableEq

/-- A slot after `memset(task_table, 0, ..)`. -/
def Task.zero : Task := ⟨0, 0, 0, 0, 0, .ready, none⟩

/-- The machine with the scheduler's variables. -/
structure Kernel extends Machine where
  taskTable : Slot → Task
  taskList : Option Slot
  currentTask : Option Slot
  nextPid : Nat
  halted : Bool

/-- Addresses of kernel functions that go into a stack frame. -/
structure Symbols where
  taskUserBootstrap : Nat
  taskExit : Nat
  taskKernelBootstrap : Nat

/-- Why a call does not return. -/
inductive Stuck where
  | halt (p : Panic)
  | loop
  deriving DecidableEq, Repr

/-- The `next` pointers of a table. -/
def links (t : Slot → Task) (i : Slot) : Option Slot := (t i).next

def setNext (t : Slot → Task) (i : Slot) (n : Option Slot) : Slot → Task :=
  Function.update t i { t i with next := n }

def setState (t : Slot → Task) (i : Slot) (s : TaskState) : Slot → Task :=
  Function.update t i { t i with state := s }

def schedulerInit (k : Machine) : Kernel :=
  { k with
    intFlag := false
    taskTable := fun i =>
      if i = 0 then { Task.zero with pid := 1, state := .running, pageDirectory := k.cr3 }
      else Task.zero
    taskList := some 0
    currentTask := some 0
    nextPid := 2
    halted := false }

/-! ## `task_create` -/

/-- The slot is free for a new task. -/
def Reusable (t : Task) : Prop := t.pid = 0 ∨ t.state = .zombie

instance (t : Task) : Decidable (Reusable t) := inferInstanceAs (Decidable (_ ∨ _))

/-- `for (i = 1; i < MAX_TASKS; i++)` -/
def findSlot (t : Slot → Task) : Option Slot :=
  ((List.finRange 32).drop 1).find? fun i => Reusable (t i)

/-- The words `switch_task` pops on the first switch to the task. -/
def initialFrame (sym : Symbols) (entry : Nat) (isUser : Bool) (kstack : Nat) (m : Mem) : Mem :=
  (((((((m.wr32 (kstack - 4) (if isUser then sym.taskUserBootstrap else entry)).wr32
    (kstack - 8) sym.taskExit).wr32
    (kstack - 12) sym.taskKernelBootstrap).wr32
    (kstack - 16) 0).wr32
    (kstack - 20) 0).wr32
    (kstack - 24) 0).wr32
    (kstack - 28) 0)

/-- The new task's fields, `next` excepted. -/
def newTask (entry pageDir stack : Nat) (k : Kernel) (old : Task) : Task :=
  { old with
    pid := k.nextPid
    state := .ready
    pageDirectory := if pageDir ≠ 0 then pageDir else k.cr3
    kstack := stack + 4096
    eip := entry
    esp := stack + 4096 - 28 }

/-- The walk to the tail and the two writes that append `i`. -/
def appendTask (fuel : Nat) (i : Slot) (k : Kernel) : Except Stuck Kernel :=
  k.taskList.elim (.ok { k with taskList := some i, taskTable := setNext k.taskTable i none })
    fun head => (tailFrom (links k.taskTable) fuel head).elim (.error .loop) fun t =>
      .ok { k with taskTable := setNext (setNext k.taskTable t (some i)) i none }

/-- The part after the slot and the stack have been found. -/
def startTask (sym : Symbols) (fuel entry pageDir : Nat) (isUser : Bool) (i : Slot) (stack : Nat)
    (k : Kernel) (m : Machine) : Except Stuck (Option Slot × Kernel) :=
  (appendTask fuel i { k with
    toMachine := { m with mem := initialFrame sym entry isUser (stack + 4096) m.mem }
    taskTable := Function.update k.taskTable i
      (newTask entry pageDir stack { k with toMachine := m } (k.taskTable i))
    nextPid := (k.nextPid + 1) % 2 ^ 32 }).map fun k' => (some i, k')

/-- The slot is known. -/
def createIn (sym : Symbols) (fuel entry pageDir : Nat) (isUser : Bool) (k : Kernel) (i : Slot) :
    Except Stuck (Option Slot × Kernel) :=
  let stack := (pmmAllocBlock k.pmm).1
  let m := { k.toMachine with pmm := (pmmAllocBlock k.pmm).2 }
  if stack = 0 then .ok (none, { k with toMachine := m })
  else
    ((vmmMapPage stack stack (flagPresent ||| flagWrite)
      { m with mem := m.mem.memset stack 0 4096 }).mapError Stuck.halt).bind
      (startTask sym fuel entry pageDir isUser i stack k)

def taskCreate (sym : Symbols) (fuel entry pageDir : Nat) (isUser : Bool) (k : Kernel) :
    Except Stuck (Option Slot × Kernel) :=
  let k₁ := { k with intFlag := false }
  (findSlot k.taskTable).elim (.ok (none, k₁)) (createIn sym fuel entry pageDir isUser k₁)

/-! ## `schedule` -/

/-- `curr = curr->next; if (!curr) curr = task_list;` -/
def nextOrHead (k : Kernel) (i : Slot) : Option Slot := ((k.taskTable i).next).or k.taskList

/-- The `while` loop of `schedule`, standing at `c`. -/
def searchReady (k : Kernel) (cur : Slot) : Nat → Slot → Option Slot
  | 0, _ => none
  | fuel + 1, c =>
    if c = cur ∨ (k.taskTable c).state = .ready then some c
    else (nextOrHead k c).bind (searchReady k cur fuel)

/-- The task `schedule` ends its search at. -/
def pickNext (fuel : Nat) (k : Kernel) (cur : Slot) : Option Slot :=
  (nextOrHead k cur).bind (searchReady k cur fuel)

/-- The effect of `switch_task`: CR3 and `current_page_directory` are written
only if the directories differ. -/
def switchTask (esp : Nat) (prev next : Slot) (k : Kernel) : Kernel :=
  let table := Function.update k.taskTable prev { k.taskTable prev with esp := esp }
  let dir := (table next).pageDirectory
  let k₁ := { k with taskTable := table }
  let k₂ := if dir = k.cr3 then k₁ else { k₁ with cr3 := dir, currentPageDirectory := dir }
  { k₂ with esp0 := (table next).kstack }

/-- The states as `schedule` leaves them, then the switch. -/
def switchTo (esp : Nat) (prev c : Slot) (k : Kernel) : Kernel :=
  let table :=
    if (k.taskTable prev).state = .running then setState k.taskTable prev .ready else k.taskTable
  switchTask esp prev c { k with taskTable := setState table c .running, currentTask := some c }

def scheduleFrom (fuel esp : Nat) (k : Kernel) (cur : Slot) : Option Kernel :=
  (pickNext fuel k cur).map fun c =>
    if c ≠ cur ∧ (k.taskTable c).state = .ready then switchTo esp cur c k else k

def schedule (fuel esp : Nat) (k : Kernel) : Option Kernel :=
  k.currentTask.elim (some k) (scheduleFrom fuel esp k)

def taskYield (fuel esp : Nat) (k : Kernel) : Option Kernel :=
  (schedule fuel esp { k with intFlag := false }).map fun k' => { k' with intFlag := true }

def taskExit (fuel esp : Nat) (k : Kernel) : Option Kernel :=
  k.currentTask.bind fun cur =>
    (schedule fuel esp
      { k with intFlag := false, taskTable := setState k.taskTable cur .zombie }).map fun k' =>
      let stopped := decide (k'.currentTask = k.currentTask)
      { k' with halted := stopped, intFlag := !stopped }

/-! ## `task_user_bootstrap` -/

def ustackVirt : Nat := 0xBFFF0000

/-- Up to the jump to user mode, by the task in slot `cur`. -/
def bootstrapIn (k : Kernel) (cur : Slot) : Except Panic Kernel :=
  let dir := (k.taskTable cur).pageDirectory
  let m := if dir ≠ 0 ∧ dir ≠ k.currentPageDirectory then
      { k.toMachine with currentPageDirectory := dir, cr3 := dir }
    else k.toMachine
  (vmmMapPage (pmmAllocBlock m.pmm).1 ustackVirt (flagPresent ||| flagWrite ||| flagUser)
    { m with pmm := (pmmAllocBlock m.pmm).2 }).map fun m' =>
      { k with toMachine := { m' with esp0 := (k.taskTable cur).kstack } }

def taskUserBootstrap (k : Kernel) : Except Panic Kernel :=
  k.currentTask.elim (.ok k) (bootstrapIn k)

end MyOS
