import MyOS.Task.Steps
import MyOS.Task.SwitchSpec

/-!
# Context switches are transparent

Runs of tasks that create tasks, compute, and call `switch_task`, at the
level of registers and stacks. `Switching` adds to the CPU which task runs,
and for each task how it left the CPU: not yet started (`fresh`), or in a
call of `switch_task` whose registers are remembered (`saved`). Nothing of
this is read by the code; it is what the code is compared with.

`SwitchInv` ties the two together: the words on top of a waiting task's stack
are those of its context. `switch_transparent` reads the result off it.

What is assumed of a run (`Assumed` and `SwitchOp.Legal`): the stacks of the
tasks are disjoint from each other and from `task_table`, identity-mapped in
every task's directory, and written by their owner only; CR3 is the running
task's; and stack pointers stay in their stacks.
-/

namespace MyOS

open Lib Lib.Mem Lib.Paging Lib.X86

/-- Where the kernel's functions, `task_table` and the boot task's stack are. -/
structure SwitchConfig where
  sym : Symbols
  fuel : Nat
  base : Nat
  bootLow : Nat
  bootTop : Nat

/-- The registers at the `call` of `switch_task`, and where it returns to. -/
structure CallFrame where
  ebp : Nat
  ebx : Nat
  esi : Nat
  edi : Nat
  esp : Nat
  ret : Nat
  deriving DecidableEq

/-- How a task left the CPU. -/
inductive Context where
  | unused
  | fresh (entry : Nat)
  | running
  | saved (f : CallFrame)
  deriving DecidableEq

structure Switching where
  cpu : Cpu Kernel
  running : Slot
  ctx : Slot → Context

def Switching.Used (s : Switching) (i : Slot) : Prop := s.ctx i ≠ .unused

instance (s : Switching) (i : Slot) : Decidable (s.Used i) := inferInstanceAs (Decidable (_ ≠ _))

inductive SwitchOp where
  | create (entry pageDir : Nat) (isUser : Bool)
  | switch (next : Slot) (back : Nat) (callee : Callee)
  | work (cpu : Cpu Kernel)

/-! ## Stacks -/

def stackLow (c : SwitchConfig) (k : Kernel) (i : Slot) : Nat :=
  if i = 0 then c.bootLow else (k.taskTable i).kstack - 4096

def stackTop (c : SwitchConfig) (k : Kernel) (i : Slot) : Nat :=
  if i = 0 then c.bootTop else (k.taskTable i).kstack

def InStack (c : SwitchConfig) (k : Kernel) (i : Slot) (a : Nat) : Prop :=
  stackLow c k i ≤ a ∧ a < stackTop c k i

/-- The stacks of all tasks. -/
def AllStacks (c : SwitchConfig) (s : Switching) (a : Nat) : Prop :=
  ∃ i, s.Used i ∧ InStack c s.cpu.sys i a

structure Assumed (c : SwitchConfig) (s : Switching) : Prop where
  disjoint : ∀ i j a, s.Used i → s.Used j → InStack c s.cpu.sys i a → InStack c s.cpu.sys j a → i = j
  table : ∀ a, AllStacks c s a → ¬InTable c.base a
  ident : ∀ i, s.Used i →
    Identity s.cpu.sys.mem (s.cpu.sys.taskTable i).pageDirectory (AllStacks c s)
  cr3 : s.cpu.sys.cr3 = (s.cpu.sys.taskTable s.running).pageDirectory

/-! ## Runs -/

namespace SwitchOp

def apply (c : SwitchConfig) (s : Switching) : SwitchOp → Option Switching
  | create entry pageDir isUser =>
    (taskCreate c.sym c.fuel entry pageDir isUser s.cpu.sys).toOption.map fun r =>
      { s with
        cpu := { s.cpu with sys := r.2 }
        ctx := r.1.elim s.ctx fun i => Function.update s.ctx i
          (.fresh (if isUser then c.sym.taskUserBootstrap else entry)) }
  | switch next back callee =>
    (callSwitchTask c.base callee s.running next back s.cpu).toOption.map fun cpu =>
      { cpu := cpu
        running := next
        ctx := Function.update (Function.update s.ctx s.running (.saved {
          ebp := s.cpu.regs .ebp
          ebx := s.cpu.regs .ebx
          esi := s.cpu.regs .esi
          edi := s.cpu.regs .edi
          -- both arguments have been pushed
          esp := s.cpu.regs .esp - 8
          ret := back })) next .running }
  | work cpu => some { s with cpu := cpu }

/-- `create`: the running task has not exited, and the call writes to no other
task's stack. `switch`: to another task that exists, from a stack with room
for the call to one with room for `tss_set_kernel_stack`. `work`: the running
task writes to its own stack only and leaves the fields `switch_task` uses. -/
def Legal (c : SwitchConfig) (s : Switching) : SwitchOp → Prop
  | create entry pageDir isUser => entry < 2 ^ 32 ∧
      findSlot s.cpu.sys.taskTable ≠ some s.running ∧
      ∀ i k', taskCreate c.sym c.fuel entry pageDir isUser s.cpu.sys = .ok (some i, k') →
        ∀ j, j ≠ i → s.Used j → ∀ a, InStack c s.cpu.sys j a → k'.mem a = s.cpu.sys.mem a
  | switch next back callee => next ≠ s.running ∧ s.Used next ∧ back < 2 ^ 32 ∧
      callee.ret < 2 ^ 32 ∧ (∀ r, s.cpu.regs r < 2 ^ 32) ∧
      stackLow c s.cpu.sys s.running + 28 ≤ s.cpu.regs .esp ∧
      s.cpu.regs .esp ≤ stackTop c s.cpu.sys s.running ∧
      stackLow c s.cpu.sys next + 8 + callee.depth ≤ (s.cpu.sys.taskTable next).esp
  | work cpu =>
      (∀ j, j ≠ s.running → s.Used j → ∀ a, InStack c s.cpu.sys j a →
        cpu.sys.mem a = s.cpu.sys.mem a) ∧
      ∀ j, (cpu.sys.taskTable j).esp = (s.cpu.sys.taskTable j).esp ∧
        (cpu.sys.taskTable j).kstack = (s.cpu.sys.taskTable j).kstack

end SwitchOp

def switchRun (c : SwitchConfig) (s : Switching) : List SwitchOp → Option Switching
  | [] => some s
  | op :: ops => (op.apply c s).bind fun s' => switchRun c s' ops

def LegalSwitchRun (c : SwitchConfig) (s : Switching) : List SwitchOp → Prop
  | [] => True
  | op :: ops => Assumed c s ∧ op.Legal c s ∧ ∀ s', op.apply c s = some s' → LegalSwitchRun c s' ops

/-- Addresses are addresses. -/
structure SwitchConfig.Ok (c : SwitchConfig) : Prop where
  table : c.base + taskSize * 32 < 2 ^ 32
  boot : c.bootTop < 2 ^ 32
  userBootstrap : c.sym.taskUserBootstrap < 2 ^ 32
  exit : c.sym.taskExit < 2 ^ 32
  kernelBootstrap : c.sym.taskKernelBootstrap < 2 ^ 32

/-- After `scheduler_init`: the boot task runs. -/
def startSwitching (regs : Reg → Nat) (eip : Nat) (m : Machine) : Switching :=
  ⟨⟨regs, eip, schedulerInit m⟩, 0, fun i => if i = 0 then .running else .unused⟩

/-! ## The invariant -/

/-- The words a task's context puts on top of its stack. -/
def Context.words (sym : Symbols) : Context → List Nat
  | fresh entry => [0, 0, 0, 0, sym.taskKernelBootstrap, sym.taskExit, entry]
  | saved f => [f.edi, f.esi, f.ebx, f.ebp, f.ret]
  | _ => []

/-- A waiting task. -/
structure Held (c : SwitchConfig) (s : Switching) (i : Slot) : Prop where
  words : Holds s.cpu.sys.mem (s.cpu.sys.taskTable i).esp ((s.ctx i).words c.sym)
  low : stackLow c s.cpu.sys i ≤ (s.cpu.sys.taskTable i).esp
  top : (s.cpu.sys.taskTable i).esp + 28 ≤ stackTop c s.cpu.sys i
  saved : ∀ f, s.ctx i = .saved f → f.esp = (s.cpu.sys.taskTable i).esp + 20
  fresh : ∀ entry, s.ctx i = .fresh entry →
    (s.cpu.sys.taskTable i).esp + 28 = (s.cpu.sys.taskTable i).kstack ∧ i ≠ 0

structure SwitchInv (c : SwitchConfig) (s : Switching) : Prop where
  running : s.ctx s.running = .running
  only : ∀ i, s.ctx i = .running → i = s.running
  kstack : ∀ i, (s.cpu.sys.taskTable i).kstack < 2 ^ 32
  held : ∀ i, s.Used i → i ≠ s.running → Held c s i

section Steps

variable {c : SwitchConfig} {s : Switching}

/-- A context waits under a kernel that has the same words on the task's
stack. -/
theorem Held.congr {s' : Switching} {i : Slot} (h : Held c s i) (hctx : s'.ctx i = s.ctx i)
    (hesp : (s'.cpu.sys.taskTable i).esp = (s.cpu.sys.taskTable i).esp)
    (hk : (s'.cpu.sys.taskTable i).kstack = (s.cpu.sys.taskTable i).kstack)
    (hm : ∀ a, InStack c s.cpu.sys i a → s'.cpu.sys.mem a = s.cpu.sys.mem a) : Held c s' i := by
  have hlow : stackLow c s'.cpu.sys i = stackLow c s.cpu.sys i := by
    unfold stackLow
    rw [hk]
  have htop : stackTop c s'.cpu.sys i = stackTop c s.cpu.sys i := by
    unfold stackTop
    rw [hk]
  have hlen : ((s.ctx i).words c.sym).length ≤ 7 := by
    cases s.ctx i <;> simp [Context.words]
  have h₁ := h.low
  have h₂ := h.top
  refine ⟨?_, ?_, ?_, fun f hf => ?_, fun entry he => ?_⟩
  · rw [hctx, hesp]
    exact h.words.congr fun x hx hx' => hm x ⟨by omega, by omega⟩
  · rw [hlow, hesp]
    exact h.low
  · rw [htop, hesp]
    exact h.top
  · rw [hesp]
    exact h.saved f (hctx ▸ hf)
  · rw [hesp, hk]
    exact h.fresh entry (hctx ▸ he)

/-- The frame `task_create` builds is the one of a fresh context. -/
theorem initialFrame_holds {sym : Symbols} {entry K : Nat} {isUser : Bool} (m : Mem) (hK : 28 ≤ K)
    (hexit : sym.taskExit < 2 ^ 32) (hboot : sym.taskKernelBootstrap < 2 ^ 32)
    (hentry : (if isUser then sym.taskUserBootstrap else entry) < 2 ^ 32) :
    Holds (initialFrame sym entry isUser K m) (K - 28) ((Context.fresh
      (if isUser then sym.taskUserBootstrap else entry)).words sym) := by
  have hstep : ∀ {m : Mem} {ws : List Nat} {n v : Nat}, n + 4 ≤ K → Holds m (K - n) ws → v < 2 ^ 32 →
      Holds (m.wr32 (K - (n + 4)) v) (K - (n + 4)) (v :: ws) := by
    intro m ws n v hn hws hv
    refine Holds.push ?_ hv
    rw [show K - (n + 4) + 4 = K - n by omega]
    exact hws
  unfold initialFrame
  exact hstep (n := 24) (by omega) (hstep (n := 20) (by omega) (hstep (n := 16) (by omega)
    (hstep (n := 12) (by omega) (hstep (n := 8) (by omega) (hstep (n := 4) (by omega)
    (hstep (n := 0) (by omega) trivial hentry) hexit) hboot) (by decide)) (by decide)) (by decide))
    (by decide)

/-- The new task's stack and frame. -/
theorem taskCreate_frame {sym : Symbols} {fuel entry pageDir : Nat} {isUser : Bool} {k k' : Kernel}
    {i : Slot} (h : taskCreate sym fuel entry pageDir isUser k = .ok (some i, k')) :
    findSlot k.taskTable = some i ∧ ∃ b m, b + 1 < 2 ^ 20 ∧
      k'.mem = initialFrame sym entry isUser (b * 4096 + 4096) m ∧
      (k'.taskTable i).kstack = b * 4096 + 4096 ∧
      (k'.taskTable i).esp = b * 4096 + 4096 - 28 ∧
      ∀ j, j ≠ i → (k'.taskTable j).esp = (k.taskTable j).esp ∧
        (k'.taskTable j).kstack = (k.taskTable j).kstack := by
  rcases taskCreate_runs h with ⟨hr, -⟩ | ⟨hr, -⟩ | ⟨i', b, m, hr, hm⟩
  · exact absurd hr (by simp)
  · exact absurd hr (by simp)
  cases hr
  have hb : b + 1 < 2 ^ 20 := Nat.lt_of_le_of_lt hm.free.1 k.pmm.total_lt
  refine ⟨hm.slot, b, m.mem, hb, congrArg Machine.mem hm.machine, ?_, ?_, fun j hj => ?_⟩
  · rw [hm.new]
    rfl
  · rw [hm.new]
    rfl
  · rw [hm.old hj]
    exact ⟨rfl, rfl⟩

theorem SwitchInv.create (h : SwitchInv c s) (hc : c.Ok) {entry pageDir : Nat} {isUser : Bool}
    {s' : Switching} (hl : (SwitchOp.create entry pageDir isUser).Legal c s)
    (hstep : (SwitchOp.create entry pageDir isUser).apply c s = some s') : SwitchInv c s' := by
  obtain ⟨⟨r, k'⟩, hcreate, rfl⟩ := Option.map_eq_some_iff.mp hstep
  obtain ⟨hentry, hrun, hown⟩ := hl
  have hok := toOption_eq_some hcreate
  cases r with
  | none =>
    obtain ⟨htable, hmem⟩ := taskCreate_null hok
    refine ⟨h.running, h.only, fun i => ?_, fun i hu hi => ?_⟩
    · exact (congrArg (fun t => (t i).kstack) htable).trans_lt (h.kstack i)
    · exact (h.held i hu hi).congr rfl (congrArg (fun t => (t i).esp) htable)
        (congrArg (fun t => (t i).kstack) htable) fun a _ => congrFun hmem a
  | some i =>
    obtain ⟨hslot, b, m, hb, hmem, hk, hesp, hold⟩ := taskCreate_frame hok
    have hir : i ≠ s.running := fun heq => hrun (heq ▸ hslot)
    have hi0 : i ≠ 0 := (findSlot_some hslot).1
    have hctx : ∀ {j}, j ≠ i → Function.update s.ctx i
        (.fresh (if isUser then c.sym.taskUserBootstrap else entry)) j = s.ctx j :=
      fun hj => Function.update_of_ne hj ..
    refine ⟨(hctx hir.symm).trans h.running, fun j hj => ?_, fun j => ?_, fun j hu hj => ?_⟩
    · by_cases hji : j = i
      · have hnew : Function.update s.ctx i
            (.fresh (if isUser then c.sym.taskUserBootstrap else entry)) j = .running := hj
        rw [hji, Function.update_self] at hnew
        exact absurd hnew (by simp)
      · exact h.only j ((hctx hji).symm.trans hj)
    · show (k'.taskTable j).kstack < 2 ^ 32
      by_cases hji : j = i
      · rw [hji, hk]
        omega
      · rw [(hold j hji).2]
        exact h.kstack j
    · by_cases hji : j = i
      · subst hji
        have hlow : stackLow c k' j = b * 4096 := by
          unfold stackLow
          rw [if_neg hi0, hk]
          omega
        have htop : stackTop c k' j = b * 4096 + 4096 := by
          unfold stackTop
          rw [if_neg hi0, hk]
        refine ⟨?_, ?_, ?_, fun f hf => ?_, fun e he => ⟨?_, hi0⟩⟩
        · show Holds k'.mem (k'.taskTable j).esp ((Function.update s.ctx j _ j).words c.sym)
          rw [Function.update_self, hesp, hmem]
          refine initialFrame_holds m (by omega) hc.exit hc.kernelBootstrap ?_
          split
          · exact hc.userBootstrap
          · exact hentry
        · show stackLow c k' j ≤ (k'.taskTable j).esp
          rw [hlow, hesp]
          omega
        · show (k'.taskTable j).esp + 28 ≤ stackTop c k' j
          rw [htop, hesp]
          omega
        · have hnew : Function.update s.ctx j
              (.fresh (if isUser then c.sym.taskUserBootstrap else entry)) j = .saved f := hf
          rw [Function.update_self] at hnew
          exact absurd hnew (by simp)
        · show (k'.taskTable j).esp + 28 = (k'.taskTable j).kstack
          rw [hesp, hk]
          omega
      · have hu' : s.Used j := fun hn => hu ((hctx hji).trans hn)
        exact (h.held j hu' hj).congr (hctx hji) (hold j hji).1 (hold j hji).2
          (hown i k' hok j hji hu')

theorem SwitchInv.work (h : SwitchInv c s) {cpu : Cpu Kernel} (hl : (SwitchOp.work cpu).Legal c s) :
    SwitchInv c { s with cpu := cpu } := by
  obtain ⟨hown, hfields⟩ := hl
  refine ⟨h.running, h.only, fun i => (hfields i).2.trans_lt (h.kstack i), fun i hu hi => ?_⟩
  exact (h.held i hu hi).congr rfl (hfields i).1 (hfields i).2 (hown i hi hu)

/-- The running task and a waiting one have their stacks apart. -/
theorem Assumed.apart (ha : Assumed c s) {i j : Slot} (hi : s.Used i) (hj : s.Used j) (hne : i ≠ j)
    {a₁ b₁ a₂ b₂ : Nat} (h₁ : stackLow c s.cpu.sys i ≤ a₁) (h₁' : b₁ ≤ stackTop c s.cpu.sys i)
    (h₂ : stackLow c s.cpu.sys j ≤ a₂) (h₂' : b₂ ≤ stackTop c s.cpu.sys j) (hlt₁ : a₁ < b₁)
    (hlt₂ : a₂ < b₂) : b₁ ≤ a₂ ∨ b₂ ≤ a₁ := by
  by_contra hover
  have hcommon := ha.disjoint i j (max a₁ a₂) hi hj ⟨by omega, by omega⟩ ⟨by omega, by omega⟩
  exact hne hcommon

theorem SwitchInv.used_running (h : SwitchInv c s) : s.Used s.running := by
  intro hn
  rw [h.running] at hn
  exact absurd hn (by simp)

/-- **The code pops what the context says.** -/
theorem SwitchInv.call (h : SwitchInv c s) (hc : c.Ok) (ha : Assumed c s) {next : Slot} {back : Nat}
    {callee : Callee} (hl : (SwitchOp.switch next back callee).Legal c s)
    {edi esi ebx ebp ret : Nat} {rest : List Nat}
    (hw : (s.ctx next).words c.sym = edi :: esi :: ebx :: ebp :: ret :: rest) :
    ∃ cpu m, callSwitchTask c.base callee s.running next back s.cpu = .ok cpu ∧
      cpu.sys = { switchTask (s.cpu.regs .esp - 28) s.running next s.cpu.sys with mem := m } ∧
      cpu.eip = ret ∧ cpu.regs .edi = edi ∧ cpu.regs .esi = esi ∧ cpu.regs .ebx = ebx ∧
      cpu.regs .ebp = ebp ∧ cpu.regs .esp = (s.cpu.sys.taskTable next).esp + 20 ∧
      Holds m (s.cpu.regs .esp - 28)
        [s.cpu.regs .edi, s.cpu.regs .esi, s.cpu.regs .ebx, s.cpu.regs .ebp, back] ∧
      ∀ x, (x < s.cpu.regs .esp - 28 ∨ s.cpu.regs .esp ≤ x) →
        (x < (s.cpu.sys.taskTable next).esp - 8 - callee.depth ∨
          (s.cpu.sys.taskTable next).esp ≤ x) → m x = s.cpu.sys.mem x := by
  obtain ⟨hne, hused, hback, hret, hregs, hlow, htop, hdepth⟩ := hl
  have hheld := h.held next hused hne
  have hwords := hheld.words
  rw [hw] at hwords
  have hfive : Holds s.cpu.sys.mem (s.cpu.sys.taskTable next).esp [edi, esi, ebx, ebp, ret] :=
    ⟨hwords.1, hwords.2.1, hwords.2.2.1, hwords.2.2.2.1, hwords.2.2.2.2.1, trivial⟩
  have hnext := hheld.top
  have hid := ha.ident s.running h.used_running
  rw [← ha.cr3] at hid
  refine callSwitchTask_spec hne hid (ha.ident next hused) ha.table hc.table hregs hback hret
    (h.kstack next) (by omega) (fun a ha₁ ha₂ => ?_) (by omega) (fun a ha₁ ha₂ => ?_) ?_ hfive
  · exact ⟨s.running, h.used_running, by omega, by omega⟩
  · exact ⟨next, hused, by omega, by omega⟩
  · exact ha.apart h.used_running hused hne.symm (by omega) htop (by omega) (by omega) (by omega)
      (by omega)

/-- A waiting task has its first five words. -/
theorem SwitchInv.words_waiting (h : SwitchInv c s) {i : Slot} (hu : s.Used i) (hi : i ≠ s.running) :
    ∃ edi esi ebx ebp ret rest,
      (s.ctx i).words c.sym = edi :: esi :: ebx :: ebp :: ret :: rest := by
  cases hctx : s.ctx i with
  | unused => exact absurd hctx hu
  | running => exact absurd (h.only i hctx) hi
  | fresh entry => exact ⟨0, 0, 0, 0, _, _, rfl⟩
  | saved f => exact ⟨_, _, _, _, _, [], rfl⟩

theorem SwitchInv.switch (h : SwitchInv c s) (hc : c.Ok) (ha : Assumed c s) {next : Slot} {back : Nat}
    {callee : Callee} (hl : (SwitchOp.switch next back callee).Legal c s) {s' : Switching}
    (hstep : (SwitchOp.switch next back callee).apply c s = some s') : SwitchInv c s' := by
  obtain ⟨hne, hused, -, -, -, hlow, htop, hdepth⟩ := id hl
  obtain ⟨edi, esi, ebx, ebp, ret, rest, hw⟩ := h.words_waiting hused hne
  obtain ⟨cpu, m, hcall, hsys, -, -, -, -, -, -, hframe, hm⟩ := h.call hc ha hl hw
  have hnext := (h.held next hused hne).top
  obtain ⟨cpu', hcpu, rfl⟩ := Option.map_eq_some_iff.mp hstep
  rw [hcall] at hcpu
  cases hcpu
  -- saving ESP is all that happens to the table
  have htable : cpu.sys.taskTable = Function.update s.cpu.sys.taskTable s.running
      { s.cpu.sys.taskTable s.running with esp := s.cpu.regs .esp - 28 } := by
    rw [hsys]
    exact switchTask_taskTable ..
  have hmem : cpu.sys.mem = m := by rw [hsys]
  have hk : ∀ i, (cpu.sys.taskTable i).kstack = (s.cpu.sys.taskTable i).kstack := by
    intro i
    rw [htable]
    by_cases hi : i = s.running
    · rw [hi, Function.update_self]
    · rw [Function.update_of_ne hi]
  have hctx : ∀ {i}, i ≠ next → i ≠ s.running → Function.update (Function.update s.ctx s.running
      (.saved ⟨s.cpu.regs .ebp, s.cpu.regs .ebx, s.cpu.regs .esi, s.cpu.regs .edi,
        s.cpu.regs .esp - 8, back⟩)) next .running i = s.ctx i := by
    intro i hi hi'
    rw [Function.update_of_ne hi, Function.update_of_ne hi']
  refine ⟨Function.update_self .., fun i hi => ?_, fun i => (hk i).trans_lt (h.kstack i),
    fun i hu hi => ?_⟩
  · by_contra hin
    by_cases hir : i = s.running
    · have hsaved : Function.update (Function.update s.ctx s.running _) next .running i = .running := hi
      rw [Function.update_of_ne hin, hir, Function.update_self] at hsaved
      exact absurd hsaved (by simp)
    · exact hir (h.only i ((hctx hin hir).symm.trans hi))
  · by_cases hir : i = s.running
    · -- the task that just left
      subst hir
      have hesp : (cpu.sys.taskTable s.running).esp = s.cpu.regs .esp - 28 := by
        rw [htable, Function.update_self]
      have hsaved : Function.update (Function.update s.ctx s.running
          (.saved ⟨s.cpu.regs .ebp, s.cpu.regs .ebx, s.cpu.regs .esi, s.cpu.regs .edi,
            s.cpu.regs .esp - 8, back⟩)) next .running s.running =
          .saved ⟨s.cpu.regs .ebp, s.cpu.regs .ebx, s.cpu.regs .esi, s.cpu.regs .edi,
            s.cpu.regs .esp - 8, back⟩ := by
        rw [Function.update_of_ne hi, Function.update_self]
      refine ⟨?_, ?_, ?_, fun f hf => ?_, fun entry he => ?_⟩
      · show Holds cpu.sys.mem (cpu.sys.taskTable s.running).esp (Context.words c.sym
          (Function.update (Function.update s.ctx s.running _) next .running s.running))
        rw [hsaved, hesp, hmem]
        exact hframe
      · show stackLow c cpu.sys s.running ≤ (cpu.sys.taskTable s.running).esp
        unfold stackLow at hlow ⊢
        rw [hk, hesp]
        omega
      · show (cpu.sys.taskTable s.running).esp + 28 ≤ stackTop c cpu.sys s.running
        unfold stackTop at htop ⊢
        rw [hk, hesp]
        omega
      · have heq := hsaved.symm.trans hf
        cases heq
        show s.cpu.regs .esp - 8 = (cpu.sys.taskTable s.running).esp + 20
        rw [hesp]
        omega
      · exact absurd (hsaved.symm.trans he) (by simp)
    · -- a task that waits through the switch
      have hin : i ≠ next := hi
      have hu' : s.Used i := fun hn => hu ((hctx hin hir).trans hn)
      have hti : cpu.sys.taskTable i = s.cpu.sys.taskTable i := by
        rw [htable, Function.update_of_ne hir]
      refine (h.held i hu' hir).congr (hctx hin hir) (congrArg Task.esp hti)
        (congrArg Task.kstack hti) fun a hain => ?_
      show cpu.sys.mem a = s.cpu.sys.mem a
      rw [hmem]
      refine hm a ?_ ?_
      · by_contra hover
        exact hir (ha.disjoint i s.running a hu' h.used_running hain ⟨by omega, by omega⟩)
      · by_contra hover
        exact hin (ha.disjoint i next a hu' hused hain ⟨by omega, by omega⟩)

/-- A switch writes to stacks only, so what is assumed of the stacks still
holds after it. -/
theorem Assumed.switch (ha : Assumed c s) (h : SwitchInv c s) (hc : c.Ok) {next : Slot} {back : Nat}
    {callee : Callee} (hl : (SwitchOp.switch next back callee).Legal c s) {s' : Switching}
    (hstep : (SwitchOp.switch next back callee).apply c s = some s') : Assumed c s' := by
  obtain ⟨hne, hused, -, -, -, hlow, htop, hdepth⟩ := id hl
  obtain ⟨edi, esi, ebx, ebp, ret, rest, hw⟩ := h.words_waiting hused hne
  obtain ⟨cpu, m, hcall, hsys, -, -, -, -, -, -, -, hm⟩ := h.call hc ha hl hw
  have hnext := (h.held next hused hne).top
  obtain ⟨cpu', hcpu, rfl⟩ := Option.map_eq_some_iff.mp hstep
  rw [hcall] at hcpu
  cases hcpu
  have hfields : ∀ i, (cpu.sys.taskTable i).kstack = (s.cpu.sys.taskTable i).kstack ∧
      (cpu.sys.taskTable i).pageDirectory = (s.cpu.sys.taskTable i).pageDirectory := by
    intro i
    rw [hsys]
    show (((switchTask _ s.running next s.cpu.sys).taskTable i).kstack = _) ∧
      ((switchTask _ s.running next s.cpu.sys).taskTable i).pageDirectory = _
    rw [switchTask_taskTable]
    by_cases hi : i = s.running
    · rw [hi, Function.update_self]
      exact ⟨rfl, rfl⟩
    · rw [Function.update_of_ne hi]
      exact ⟨rfl, rfl⟩
  have hin : ∀ i a, InStack c cpu.sys i a ↔ InStack c s.cpu.sys i a := by
    intro i a
    unfold InStack stackLow stackTop
    rw [(hfields i).1]
  have hu : ∀ i, Function.update (Function.update s.ctx s.running (.saved ⟨s.cpu.regs .ebp,
      s.cpu.regs .ebx, s.cpu.regs .esi, s.cpu.regs .edi, s.cpu.regs .esp - 8, back⟩)) next .running i ≠
      .unused ↔ s.Used i := by
    intro i
    by_cases hin : i = next
    · rw [hin, Function.update_self]
      exact iff_of_true (by simp) hused
    · by_cases hir : i = s.running
      · rw [Function.update_of_ne hin, hir, Function.update_self]
        exact iff_of_true (by simp) h.used_running
      · rw [Function.update_of_ne hin, Function.update_of_ne hir]
        exact Iff.rfl
  have hall : AllStacks c ⟨cpu, next, Function.update (Function.update s.ctx s.running
      (.saved ⟨s.cpu.regs .ebp, s.cpu.regs .ebx, s.cpu.regs .esi, s.cpu.regs .edi,
        s.cpu.regs .esp - 8, back⟩)) next .running⟩ = AllStacks c s := by
    funext a
    exact propext (exists_congr fun i => and_congr (hu i) (hin i a))
  have hmem : cpu.sys.mem = m := by rw [hsys]
  refine ⟨fun i j a hi hj hai haj => ?_, fun a hstack => ?_, fun i hi => ?_, ?_⟩
  · exact ha.disjoint i j a ((hu i).mp hi) ((hu j).mp hj) ((hin i a).mp hai) ((hin j a).mp haj)
  · exact ha.table a (hall ▸ hstack)
  · have hid := ha.ident i ((hu i).mp hi)
    show Identity cpu.sys.mem (cpu.sys.taskTable i).pageDirectory (AllStacks c _)
    rw [hall, (hfields i).2, hmem]
    refine hid.congr fun x hx => hm x ?_ ?_
    · by_contra hover
      exact hx ⟨s.running, h.used_running, by omega, by omega⟩
    · by_contra hover
      exact hx ⟨next, hused, by omega, by omega⟩
  · show cpu.sys.cr3 = (cpu.sys.taskTable next).pageDirectory
    rw [(hfields next).2, hsys]
    exact congrArg Machine.cr3 (switchTask_machine ..)

theorem SwitchInv.step (h : SwitchInv c s) (hc : c.Ok) (ha : Assumed c s) {op : SwitchOp}
    (hl : op.Legal c s) {s' : Switching} (hstep : op.apply c s = some s') : SwitchInv c s' := by
  cases op with
  | create entry pageDir isUser => exact h.create hc hl hstep
  | switch next back callee => exact h.switch hc ha hl hstep
  | work cpu =>
    cases hstep
    exact h.work hl

theorem SwitchInv.run (hc : c.Ok) : ∀ (ops : List SwitchOp) {s s' : Switching}, SwitchInv c s →
    LegalSwitchRun c s ops → switchRun c s ops = some s' → SwitchInv c s' := by
  intro ops
  induction ops with
  | nil =>
    intro s s' h _ hrun
    cases hrun
    exact h
  | cons op ops ih =>
    intro s s' h hl hrun
    obtain ⟨s₁, hstep, hrest⟩ := Option.bind_eq_some_iff.mp hrun
    exact ih (h.step hc hl.1 hl.2.1 hstep) (hl.2.2 s₁ hstep) hrest

end Steps

theorem switchInv_start (c : SwitchConfig) (regs : Reg → Nat) (eip : Nat) (m : Machine) :
    SwitchInv c (startSwitching regs eip m) := by
  have hctx : ∀ {i : Slot}, i ≠ 0 → (startSwitching regs eip m).ctx i = .unused := fun hi => if_neg hi
  refine ⟨rfl, fun i hi => ?_, fun i => ?_, fun i hu hi => absurd (hctx hi) hu⟩
  · by_contra h0
    exact absurd ((hctx h0).symm.trans hi) (by simp)
  · show ((schedulerInit m).taskTable i).kstack < 2 ^ 32
    by_cases hi : i = 0
    · rw [hi]
      exact Nat.two_pow_pos 32
    · rw [show (schedulerInit m).taskTable i = Task.zero from if_neg hi]
      exact Nat.two_pow_pos 32

/-- **Context switches are transparent.** In every state a run reaches, a
legal switch returns. The first switch to a task enters
`task_kernel_bootstrap` with zeros in EBP, EBX, ESI and EDI, and with
`task_exit` and the entry function on top of its own stack. A later switch
returns from the task's own last call of `switch_task`, with the registers of
that call. -/
theorem switch_transparent {c : SwitchConfig} (hc : c.Ok) {regs : Reg → Nat} {eip : Nat} {m : Machine}
    {ops : List SwitchOp} {s : Switching} (hlegal : LegalSwitchRun c (startSwitching regs eip m) ops)
    (hrun : switchRun c (startSwitching regs eip m) ops = some s) (ha : Assumed c s) {next : Slot}
    {back : Nat} {callee : Callee} (hl : (SwitchOp.switch next back callee).Legal c s) :
    ∃ s', (SwitchOp.switch next back callee).apply c s = some s' ∧ s'.running = next ∧
      (∀ entry, s.ctx next = .fresh entry →
        s'.cpu.eip = c.sym.taskKernelBootstrap ∧
        s'.cpu.regs .ebp = 0 ∧ s'.cpu.regs .ebx = 0 ∧ s'.cpu.regs .esi = 0 ∧ s'.cpu.regs .edi = 0 ∧
        s'.cpu.regs .esp + 8 = (s'.cpu.sys.taskTable next).kstack ∧
        InStack c s'.cpu.sys next (s'.cpu.regs .esp) ∧
        vread32 (s'.cpu.regs .esp) s'.cpu.sys.toMachine =
          .ok (c.sym.taskExit, s'.cpu.sys.toMachine) ∧
        vread32 (s'.cpu.regs .esp + 4) s'.cpu.sys.toMachine = .ok (entry, s'.cpu.sys.toMachine)) ∧
      ∀ f, s.ctx next = .saved f →
        s'.cpu.eip = f.ret ∧ s'.cpu.regs .ebp = f.ebp ∧ s'.cpu.regs .ebx = f.ebx ∧
        s'.cpu.regs .esi = f.esi ∧ s'.cpu.regs .edi = f.edi ∧ s'.cpu.regs .esp = f.esp := by
  have h := SwitchInv.run hc ops (switchInv_start c regs eip m) hlegal hrun
  obtain ⟨hne, hused, -⟩ := id hl
  have hheld := h.held next hused hne
  obtain ⟨edi, esi, ebx, ebp, ret, rest, hw⟩ := h.words_waiting hused hne
  obtain ⟨cpu, m', hcall, hsys, heip, hedi, hesi, hebx, hebp, hesp, -, hm⟩ := h.call hc ha hl hw
  have happly : (SwitchOp.switch next back callee).apply c s = some ⟨cpu, next,
      Function.update (Function.update s.ctx s.running (.saved ⟨s.cpu.regs .ebp, s.cpu.regs .ebx,
        s.cpu.regs .esi, s.cpu.regs .edi, s.cpu.regs .esp - 8, back⟩)) next .running⟩ := by
    simp only [SwitchOp.apply, hcall]
    rfl
  refine ⟨_, happly, rfl, fun entry hfresh => ?_, fun f hsaved => ?_⟩
  · rw [hfresh] at hw
    cases hw
    obtain ⟨htop, hn0⟩ := hheld.fresh entry hfresh
    obtain ⟨-, -, -, -, hlow, hrtop, hdepth⟩ := hl
    have htask : cpu.sys.taskTable next = s.cpu.sys.taskTable next := by
      rw [hsys]
      exact (congrFun (switchTask_taskTable ..) next).trans (Function.update_of_ne hne ..)
    have hin : ∀ a, stackLow c s.cpu.sys next ≤ a → a < (s.cpu.sys.taskTable next).kstack →
        InStack c s.cpu.sys next a := by
      intro a hlo hhi
      refine ⟨hlo, ?_⟩
      unfold stackTop
      rw [if_neg hn0]
      exact hhi
    have hmem : cpu.sys.mem = m' := by rw [hsys]
    have hcr3 : cpu.sys.cr3 = (s.cpu.sys.taskTable next).pageDirectory := by
      rw [hsys]
      exact congrArg Machine.cr3 (switchTask_machine ..)
    have hid : Identity cpu.sys.mem cpu.sys.cr3 (AllStacks c s) := by
      rw [hmem, hcr3]
      refine (ha.ident next hused).congr fun x hx => hm x ?_ ?_
      · by_contra hover
        exact hx ⟨s.running, h.used_running, by omega, by omega⟩
      · by_contra hover
        exact hx ⟨next, hused, hin x (by omega) (by omega)⟩
    -- the two words above the frame are still there
    have hwords : Holds cpu.sys.mem (s.cpu.sys.taskTable next).esp
        ((Context.fresh entry).words c.sym) := by
      have hold := hheld.words
      rw [hfresh] at hold
      refine hold.congr fun x hx hx' => ?_
      simp only [Context.words, List.length_cons, List.length_nil] at hx'
      rw [hmem]
      refine hm x ?_ (Or.inr hx)
      by_contra hover
      exact hne (ha.disjoint next s.running x hused h.used_running (hin x (by omega) (by omega))
        ⟨by omega, by omega⟩)
    obtain ⟨-, -, -, -, -, hexit, hentry, -⟩ := hwords
    have hstack : ∀ i, i < 8 → AllStacks c s (cpu.regs .esp + i) := fun i hi =>
      ⟨next, hused, hin _ (by omega) (by omega)⟩
    have hread := vread32_ident (k := cpu.sys.toMachine) hid fun i hi => hstack i (by omega)
    have hread' := vread32_ident (k := cpu.sys.toMachine) hid (a := cpu.regs .esp + 4)
      fun i hi => by
        rw [Nat.add_assoc]
        exact hstack (4 + i) (by omega)
    rw [show cpu.regs .esp = (s.cpu.sys.taskTable next).esp + 4 + 4 + 4 + 4 + 4 by omega] at hread hread'
    rw [hexit] at hread
    rw [hentry] at hread'
    refine ⟨heip, hebp, hebx, hesi, hedi, ?_, ?_, ?_, ?_⟩
    · show cpu.regs .esp + 8 = (cpu.sys.taskTable next).kstack
      rw [htask]
      omega
    · have hinst := hin (cpu.regs .esp) (by omega) (by omega)
      unfold InStack stackLow stackTop at hinst ⊢
      show (if next = 0 then c.bootLow else (cpu.sys.taskTable next).kstack - 4096) ≤ _ ∧
        _ < (if next = 0 then c.bootTop else (cpu.sys.taskTable next).kstack)
      rw [htask]
      exact hinst
    · show vread32 (cpu.regs .esp) cpu.sys.toMachine = _
      rw [hesp]
      exact hread
    · show vread32 (cpu.regs .esp + 4) cpu.sys.toMachine = _
      rw [hesp]
      exact hread'
  · rw [hsaved] at hw
    cases hw
    exact ⟨heip, hebp, hebx, hesi, hedi, hesp.trans (hheld.saved f hsaved).symm⟩

/-! ## A small kernel -/

/-- Block 255 as a directory with block 254 as its first table, which maps
4 MiB to themselves. -/
def identMem : Mem := fun x =>
  bif x / 4096 == 254 then byteOf (x % 4096 / 4 * 4096 + 3) (x % 4)
  else bif x / 4 == 255 * 1024 then byteOf (254 * 4096 + 3) (x % 4)
  else 0

/-- The boot task has 64 bytes of stack below `0xA000`. -/
def switchConfig : SwitchConfig := ⟨⟨0x100000, 0x100100, 0x100200⟩, 40, 0x20000, 0x9FC0, 0xA000⟩

def switchStart : Switching :=
  startSwitching (fun r => if r = .esp then 0xA000 else 7) 0x100300
    (demoMachine 300 demo_total identMem)

def tssCallee : Callee := ⟨0x100400, 1, 2, 3, 16, fun _ => 0xAA⟩

/-- At most slots 0 and 1 are used, and pages 9 and 256, where their stacks
are, are identity-mapped. -/
def SmallState (s : Switching) : Prop :=
  (∀ i, s.Used i → (i = 0 ∨ i = 1) ∧ (s.cpu.sys.taskTable i).pageDirectory = 255 * 4096 ∧
    (i = 1 → (s.cpu.sys.taskTable i).kstack = 257 * 4096)) ∧
  s.cpu.sys.cr3 = (s.cpu.sys.taskTable s.running).pageDirectory ∧
  (∀ f ∈ [9, 256], lookup s.cpu.sys.mem (255 * 4096) (f * 4096) = f * 4096 + 3) ∧
  (List.range 1024).all fun i =>
    pde s.cpu.sys.mem (255 * 4096) i == 0 || pde s.cpu.sys.mem (255 * 4096) i / 4096 == 254

instance (s : Switching) : Decidable (SmallState s) := inferInstanceAs (Decidable (_ ∧ _ ∧ _ ∧ _))

theorem SmallState.page {s : Switching} (h : SmallState s) {a : Nat} (ha : AllStacks switchConfig s a) :
    a / 4096 = 9 ∨ a / 4096 = 256 := by
  obtain ⟨i, hi, hlow, htop⟩ := ha
  unfold stackLow at hlow
  unfold stackTop at htop
  obtain ⟨h01, -, hk⟩ := h.1 i hi
  rcases h01 with rfl | rfl
  · have h₁ : 0x9FC0 ≤ a := hlow
    have h₂ : a < 0xA000 := htop
    exact Or.inl (by omega)
  · rw [if_neg (by decide), hk rfl] at hlow htop
    exact Or.inr (by omega)

theorem SmallState.assumed {s : Switching} (h : SmallState s) : Assumed switchConfig s := by
  refine ⟨fun i j a hi hj hai haj => ?_, fun a ha hin => ?_, fun i hi => ⟨?_, fun a ha => ?_,
    fun a ha => ?_, fun a ha => ?_⟩, h.2.1⟩
  · -- slot 0 is in page 9, slot 1 in page 256
    by_contra hne
    have hpage : ∀ {i}, s.Used i → InStack switchConfig s.cpu.sys i a →
        (i = 0 ∧ a < 0xA000) ∨ (i = 1 ∧ 256 * 4096 ≤ a) := by
      intro i hi hin
      obtain ⟨h01, -, hk⟩ := h.1 i hi
      rcases h01 with rfl | rfl
      · exact Or.inl ⟨rfl, hin.2⟩
      · have hlow := hin.1
        unfold stackLow at hlow
        rw [if_neg (by decide), hk rfl] at hlow
        exact Or.inr ⟨rfl, by omega⟩
    rcases hpage hi hai with ⟨rfl, h₁⟩ | ⟨rfl, h₁⟩ <;> rcases hpage hj haj with ⟨rfl, h₂⟩ | ⟨rfl, h₂⟩
    · exact hne rfl
    · omega
    · omega
    · exact hne rfl
  · have h₁ : 0x20000 ≤ a := hin.1
    have h₂ : a < 0x20000 + 28 * 32 := hin.2
    rcases h.page ha with hp | hp <;> omega
  · rw [(h.1 i hi).2.1]
  · rcases h.page ha with hp | hp <;> omega
  · rw [(h.1 i hi).2.1]
    have hlook : lookup s.cpu.sys.mem (255 * 4096) a = a / 4096 * 4096 + 3 := by
      rw [lookup_page (w := a / 4096 * 4096) (by omega)]
      rcases h.page ha with hp | hp
      · rw [hp]
        exact h.2.2.1 9 (by decide)
      · rw [hp]
        exact h.2.2.1 256 (by decide)
    have hpres : Present (lookup s.cpu.sys.mem (255 * 4096) a) := by
      rw [hlook, present_iff]
      omega
    rw [translate_of_present hpres, hlook]
    congr 1
    omega
  · rw [(h.1 i hi).2.1]
    rintro (hf | ⟨j, hj, hpres, hf⟩)
    · rcases h.page ha with hp | hp <;> omega
    · have hj' := List.all_eq_true.mp h.2.2.2 j (List.mem_range.mpr hj)
      rw [Bool.or_eq_true, beq_iff_eq, beq_iff_eq] at hj'
      rcases hj' with hzero | htable
      · rw [hzero] at hpres
        exact not_present_zero hpres
      · rcases h.page ha with hp | hp <;> omega

instance (c : SwitchConfig) (s : Switching) (next : Slot) (back : Nat) (callee : Callee) :
    Decidable ((SwitchOp.switch next back callee).Legal c s) :=
  inferInstanceAs (Decidable (_ ∧ _ ∧ _ ∧ _ ∧ _ ∧ _ ∧ _ ∧ _))

/-- The boot task creates a task, switches to it, and is switched back to. -/
theorem switch_transparent_back : ∃ s s', switchRun switchConfig switchStart
      [.create 0x102000 0 false, .switch 1 0x100500 tssCallee] = some s ∧
    (SwitchOp.switch 0 0x100600 tssCallee).apply switchConfig s = some s' ∧
    s'.cpu.eip = 0x100500 ∧ s'.cpu.regs .ebp = 7 ∧ s'.cpu.regs .esp = 0xA000 - 8 := by
  have hok : switchConfig.Ok := ⟨by decide, by decide, by decide, by decide, by decide⟩
  have hcreate : (SwitchOp.create 0x102000 0 false).Legal switchConfig switchStart := by
    refine ⟨by decide, by decide, fun i k' hk j hj hused a ha => ?_⟩
    have hj0 : j = 0 := (by decide : ∀ j, switchStart.Used j → j = 0) j hused
    rw [hj0] at ha
    have hlow : 0x9FC0 ≤ a := ha.1
    have htop : a < 0xA000 := ha.2
    have hmem : (taskCreate switchConfig.sym switchConfig.fuel 0x102000 0 false
        switchStart.cpu.sys).toOption.map (fun r : Option Slot × Kernel => (List.range 64).all
          fun x => r.2.mem (0x9FC0 + x) == switchStart.cpu.sys.mem (0x9FC0 + x)) = some true := by
      decide +kernel
    rw [hk] at hmem
    have hbyte := List.all_eq_true.mp (Option.some.inj hmem) (a - 0x9FC0)
      (List.mem_range.mpr (by omega))
    rw [show 0x9FC0 + (a - 0x9FC0) = a by omega] at hbyte
    exact eq_of_beq hbyte
  have hstart : SmallState switchStart := by decide +kernel
  have hmid : ((SwitchOp.create 0x102000 0 false).apply switchConfig switchStart).map
      (fun s => decide (SmallState s ∧
        (SwitchOp.switch 1 0x100500 tssCallee).Legal switchConfig s)) = some true := by
    decide +kernel
  obtain ⟨s₁, hs₁, hfacts⟩ := Option.map_eq_some_iff.mp hmid
  obtain ⟨hsmall, hswitch⟩ := of_decide_eq_true hfacts
  have hend : (switchRun switchConfig switchStart
      [.create 0x102000 0 false, .switch 1 0x100500 tssCallee]).map (fun s => decide (
        (SwitchOp.switch 0 0x100600 tssCallee).Legal switchConfig s ∧
        s.ctx 0 = .saved ⟨7, 7, 7, 7, 0xA000 - 8, 0x100500⟩)) = some true := by decide +kernel
  obtain ⟨s, hrun, hs⟩ := Option.map_eq_some_iff.mp hend
  obtain ⟨hlegal, hctx⟩ := of_decide_eq_true hs
  have hlegalRun : LegalSwitchRun switchConfig switchStart
      [.create 0x102000 0 false, .switch 1 0x100500 tssCallee] := by
    refine ⟨hstart.assumed, hcreate, fun s₂ hs₂ => ?_⟩
    rw [hs₁] at hs₂
    cases hs₂
    exact ⟨hsmall.assumed, hswitch, fun _ _ => trivial⟩
  have hstep₁ : (SwitchOp.switch 1 0x100500 tssCallee).apply switchConfig s₁ = some s := by
    unfold switchRun at hrun
    rw [hs₁, Option.bind_some] at hrun
    unfold switchRun at hrun
    obtain ⟨s₂, hs₂, hrest⟩ := Option.bind_eq_some_iff.mp hrun
    cases hrest
    exact hs₂
  have hinv₁ := (switchInv_start switchConfig _ _ _).create hok hcreate hs₁
  obtain ⟨s', hstep, -, -, hback⟩ := switch_transparent hok hlegalRun hrun
    (hsmall.assumed.switch hinv₁ hok hswitch hstep₁) hlegal
  obtain ⟨heip, hebp, -, -, -, hesp⟩ := hback _ hctx
  exact ⟨s, s', hrun, hstep, heip, hebp, hesp⟩

end MyOS
