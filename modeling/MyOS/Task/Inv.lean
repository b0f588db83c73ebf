import MyOS.Task.Steps

/-!
# The task table along every run

The kernel from `scheduler_init` on, as a run of calls: tasks are created,
the timer calls `schedule`, tasks yield, exit, enter user mode or load
programs, and in between anything else may happen to memory and to the
allocator as long as it leaves the kernel stacks and the CPU's directory
alone (`KernelOp.env`). `Trace` adds one piece of ghost state, the blocks
`task_create` has obtained for stacks so far.

`TaskInv` holds in every state such a run reaches. Its first half is about
the table: pids are distinct and below `next_pid`, pointers lead to assigned
slots only, each stack is a block of its own. Since no stack is ever given
back, fewer than `2 ^ 20` tasks are ever created, and `next_pid` does not
wrap. Its second half is about the running task: it is the only one in state
RUNNING, and CR3, `current_page_directory` and the TSS follow it.
-/

namespace MyOS

open Lib Lib.Mem Lib.Paging

/-- What a run does not change: addresses of functions, the files, and the
fuel for loops over `next`. -/
structure Config where
  sym : Symbols
  vfs : Vfs
  fuel : Nat

/-- The kernel, and every block `task_create` has taken for a stack. -/
structure Trace where
  kernel : Kernel
  kstacks : List Nat

inductive KernelOp where
  | create (entry pageDir : Nat) (isUser : Bool)
  | schedule (esp : Nat)
  | yield (esp : Nat)
  | exit (esp : Nat)
  | userBootstrap
  | load (path : List UInt8)
  | env (m : Machine)

/-- After `task_create`: a new task has its stack below `kstack`. -/
def Trace.created (s : Trace) : Option Slot × Kernel → Trace
  | (none, k) => ⟨k, s.kstacks⟩
  | (some i, k) => ⟨k, ((k.taskTable i).kstack / 4096 - 1) :: s.kstacks⟩

namespace KernelOp

/-- The effect of a call that returns, if the kernel has not stopped. -/
def effect (c : Config) (s : Trace) : KernelOp → Option Trace
  | create entry pageDir isUser =>
    (taskCreate c.sym c.fuel entry pageDir isUser s.kernel).toOption.map s.created
  | schedule esp => (MyOS.schedule c.fuel esp s.kernel).map fun k => { s with kernel := k }
  | yield esp => (taskYield c.fuel esp s.kernel).map fun k => { s with kernel := k }
  | exit esp => (taskExit c.fuel esp s.kernel).map fun k => { s with kernel := k }
  | userBootstrap => (taskUserBootstrap s.kernel).toOption.map fun k => { s with kernel := k }
  | load path => (elfLoad c.vfs path s.kernel.toMachine).toOption.map fun r =>
      { s with kernel := { s.kernel with toMachine := r.2 } }
  | env m => some { s with kernel := { s.kernel with toMachine := m } }

def apply (c : Config) (s : Trace) (op : KernelOp) : Option Trace :=
  if s.kernel.halted then none else op.effect c s

/-- What the rest of the kernel may not do: free a kernel stack or block 0,
or switch the directory behind the scheduler's back. -/
def Legal (s : Trace) : KernelOp → Prop
  | env m => bitmapTest m.pmm 0 = true ∧ (∀ b ∈ s.kstacks, InUse m.pmm b) ∧
      m.cr3 = s.kernel.cr3 ∧ m.currentPageDirectory = s.kernel.currentPageDirectory ∧
      m.esp0 = s.kernel.esp0
  | _ => True

end KernelOp

def kernelRun (c : Config) (s : Trace) : List KernelOp → Option Trace
  | [] => some s
  | op :: ops => (op.apply c s).bind fun s' => kernelRun c s' ops

/-- The operation is a call of the modelled code. -/
def KernelOp.isCall : KernelOp → Bool
  | env _ => false
  | _ => true

/-- Every step of the run is legal when it is made. -/
def LegalKernelRun (c : Config) (s : Trace) : List KernelOp → Prop
  | [] => True
  | op :: ops => op.Legal s ∧ ∀ s', op.apply c s = some s' → LegalKernelRun c s' ops

/-- Calls of the modelled code are always legal. -/
theorem LegalKernelRun.of_calls {c : Config} : ∀ (ops : List KernelOp) (s : Trace),
    ops.all KernelOp.isCall = true → LegalKernelRun c s ops := by
  intro ops
  induction ops with
  | nil =>
    intro _ _
    trivial
  | cons op ops ih =>
    intro s h
    rw [List.all_cons, Bool.and_eq_true] at h
    refine ⟨?_, fun s' _ => ih s' h.2⟩
    cases op with
    | env m => exact absurd h.1 (by simp [KernelOp.isCall])
    | _ => trivial

/-- The first part of a legal run is legal. -/
theorem LegalKernelRun.initial {c : Config} : ∀ {ops pre : List KernelOp} {s : Trace},
    LegalKernelRun c s ops → pre <+: ops → LegalKernelRun c s pre
  | _, [], _, _, _ => trivial
  | [], _ :: _, _, _, hp => absurd hp (by simp)
  | op :: ops, op' :: pre, s, h, hp => by
    obtain ⟨rfl, hrest⟩ := List.cons_prefix_cons.mp hp
    exact ⟨h.1, fun s' hs' => (h.2 s' hs').initial hrest⟩

/-- The machine as `pmm_init` and `vmm_init` leave it: block 0 reserved, CR3
and `current_page_directory` equal. -/
structure Booted (m : Machine) : Prop where
  zero : bitmapTest m.pmm 0 = true
  cr3 : m.cr3 = m.currentPageDirectory

def startTrace (m : Machine) : Trace := ⟨schedulerInit m, []⟩

/-! ## The invariant -/

/-- The task table and the stacks. -/
structure TableInv (k : Kernel) (kstacks : List Nat) : Prop where
  zero : bitmapTest k.pmm 0 = true
  list : k.taskList = some 0
  boot : (k.taskTable 0).pid = 1
  lt : ∀ i, (k.taskTable i).pid < k.nextPid
  inj : ∀ i j, (k.taskTable i).pid ≠ 0 → (k.taskTable i).pid = (k.taskTable j).pid → i = j
  count : k.nextPid = kstacks.length + 2
  nodup : kstacks.Nodup
  used : ∀ b ∈ kstacks, InUse k.pmm b
  stack : ∀ i, i ≠ 0 → (k.taskTable i).pid ≠ 0 →
    ∃ b ∈ kstacks, (k.taskTable i).kstack = b * 4096 + 4096
  unused : ∀ i, (k.taskTable i).pid = 0 → (k.taskTable i).kstack = 0
  target : ∀ i j, links k.taskTable i = some j → (k.taskTable j).pid ≠ 0

/-- The running task `c`: it alone is RUNNING, or it has exited with no other
task to run; and the CPU's directory and trap stack are its own. -/
structure RunInv (fuel : Nat) (k : Kernel) (c : Slot) : Prop where
  cur : k.currentTask = some c
  pid : (k.taskTable c).pid ≠ 0
  state : ((k.taskTable c).state = .running ∧ k.halted = false) ∨
    ((k.taskTable c).state = .zombie ∧ k.halted = true ∧ pickNext fuel k c = some c)
  others : ∀ j, j ≠ c → (k.taskTable j).state ≠ .running
  cr3 : k.cr3 = k.currentPageDirectory
  dir : (k.taskTable c).pageDirectory = k.cr3
  esp0 : c ≠ 0 → k.esp0 = (k.taskTable c).kstack

structure TaskInv (fuel : Nat) (s : Trace) : Prop where
  table : TableInv s.kernel s.kstacks
  run : ∃ c, RunInv fuel s.kernel c

section Table

variable {k k' : Kernel} {kstacks : List Nat}

/-- Fewer tasks are ever created than there are blocks. -/
theorem TableInv.length_lt (h : TableInv k kstacks) : kstacks.length < 2 ^ 20 := by
  have hsub : kstacks ⊆ List.range k.pmm.totalBlocks := fun b hb =>
    List.mem_range.mpr (h.used b hb).1
  have hle := (List.subperm_of_subset h.nodup hsub).length_le
  rw [List.length_range] at hle
  exact Nat.lt_of_le_of_lt hle k.pmm.total_lt

/-- So the pid counter does not wrap. -/
theorem TableInv.no_wrap (h : TableInv k kstacks) : (k.nextPid + 1) % 2 ^ 32 = k.nextPid + 1 := by
  have hlen := h.length_lt
  rw [h.count]
  exact Nat.mod_eq_of_lt (by omega)

/-- The table part looks at pids, stacks and pointers only. -/
theorem TableInv.congr (h : TableInv k kstacks) (hzero : bitmapTest k'.pmm 0 = true)
    (hused : ∀ b ∈ kstacks, InUse k'.pmm b) (hlist : k'.taskList = k.taskList)
    (hnext : k'.nextPid = k.nextPid) (hpid : ∀ j, (k'.taskTable j).pid = (k.taskTable j).pid)
    (hstack : ∀ j, (k'.taskTable j).kstack = (k.taskTable j).kstack)
    (hlinks : ∀ j, (k'.taskTable j).next = (k.taskTable j).next) : TableInv k' kstacks := by
  refine ⟨hzero, hlist.trans h.list, (hpid 0).trans h.boot, fun i => ?_, fun i j hi hij => ?_,
    hnext.trans h.count, h.nodup, hused, fun i hi hp => ?_, fun i hp => ?_, fun i j hij => ?_⟩
  · rw [hpid, hnext]
    exact h.lt i
  · rw [hpid] at hi hij
    rw [hpid] at hij
    exact h.inj i j hi hij
  · rw [hpid] at hp
    rw [hstack]
    exact h.stack i hi hp
  · rw [hpid] at hp
    rw [hstack]
    exact h.unused i hp
  · rw [hpid]
    exact h.target i j ((hlinks i).symm.trans hij)

/-- Every task the search meets is an assigned one. -/
theorem TableInv.nextOrHead_pid (h : TableInv k kstacks) {i j : Slot} (hj : nextOrHead k i = some j) :
    (k.taskTable j).pid ≠ 0 := by
  unfold nextOrHead at hj
  rw [h.list] at hj
  cases hn : (k.taskTable i).next with
  | none =>
    rw [hn, Option.none_or] at hj
    cases hj
    rw [h.boot]
    exact Nat.one_ne_zero
  | some t =>
    rw [hn, Option.some_or] at hj
    cases hj
    exact h.target i _ hn

theorem TableInv.searchReady_pid (h : TableInv k kstacks) {cur : Slot} : ∀ (fuel : Nat) {c d : Slot},
    (k.taskTable c).pid ≠ 0 → searchReady k cur fuel c = some d → (k.taskTable d).pid ≠ 0 := by
  intro fuel
  induction fuel with
  | zero =>
    intro _ _ _ hs
    exact absurd hs (by simp [searchReady])
  | succ fuel ih =>
    intro c d hc hs
    unfold searchReady at hs
    split at hs
    · cases hs
      exact hc
    · obtain ⟨e, he, hrest⟩ := Option.bind_eq_some_iff.mp hs
      exact ih (h.nextOrHead_pid he) hrest

theorem TableInv.pickNext_pid (h : TableInv k kstacks) {fuel : Nat} {cur d : Slot}
    (hp : pickNext fuel k cur = some d) : (k.taskTable d).pid ≠ 0 := by
  obtain ⟨c, hc, hs⟩ := Option.bind_eq_some_iff.mp hp
  exact h.searchReady_pid fuel (h.nextOrHead_pid hc) hs

/-- A new task: its pid is fresh, its stack a new block. -/
theorem TableInv.created (h : TableInv k kstacks) {entry pageDir b : Nat} {i t : Slot}
    (hc : Created entry pageDir i b t k k') :
    b ∉ kstacks ∧ TableInv k' (b :: kstacks) := by
  have hi0 : i ≠ 0 := (findSlot_some hc.slot).1
  obtain ⟨ts, hts⟩ := hc.taken
  have hfresh : b ∉ kstacks := fun hb => hc.free.not_inUse (h.used b hb)
  have hnew := hc.new
  have hpid : (k'.taskTable i).pid = k.nextPid := by
    rw [hnew]
    rfl
  have hold : ∀ {j}, j ≠ i → (k'.taskTable j).pid = (k.taskTable j).pid ∧
      (k'.taskTable j).kstack = (k.taskTable j).kstack := by
    intro j hj
    rw [hc.old hj]
    exact ⟨rfl, rfl⟩
  have hpos : k.nextPid ≠ 0 := by
    rw [h.count]
    omega
  have hnext : k'.nextPid = k.nextPid + 1 := hc.pid.trans h.no_wrap
  refine ⟨hfresh, (hts.test 0).mpr (Or.inl h.zero), hc.list.trans h.list, ?_, fun j => ?_,
    fun j j' hp hjj => ?_, ?_, List.nodup_cons.mpr ⟨hfresh, h.nodup⟩, fun x hx => ?_,
    fun j hj hp => ?_, fun j hp => ?_, fun j j' hjj => ?_⟩
  · rw [(hold hi0.symm).1]
    exact h.boot
  · rw [hnext]
    by_cases hj : j = i
    · rw [hj, hpid]
      exact Nat.lt_succ_self _
    · rw [(hold hj).1]
      exact Nat.lt_succ_of_lt (h.lt j)
  · -- the new pid is above all others
    by_cases hj : j = i
    · by_cases hj' : j' = i
      · rw [hj, hj']
      · rw [hj, hpid, (hold hj').1] at hjj
        have hlt := h.lt j'
        omega
    · by_cases hj' : j' = i
      · rw [hj', hpid, (hold hj).1] at hjj
        have hlt := h.lt j
        omega
      · rw [(hold hj).1] at hp hjj
        rw [(hold hj').1] at hjj
        exact h.inj j j' hp hjj
  · rw [hnext, h.count, List.length_cons]
  · rcases List.mem_cons.mp hx with rfl | hx
    · exact hts.inUse_iff.mpr (Or.inr (List.mem_append_right _ List.mem_cons_self))
    · exact hts.inUse_iff.mpr (Or.inl (h.used x hx))
  · by_cases hji : j = i
    · refine ⟨b, List.mem_cons_self, ?_⟩
      rw [hji, hnew]
      rfl
    · rw [(hold hji).1] at hp
      obtain ⟨x, hx, hk⟩ := h.stack j hj hp
      exact ⟨x, List.mem_cons_of_mem _ hx, (hold hji).2.trans hk⟩
  · by_cases hji : j = i
    · rw [hji, hpid] at hp
      exact absurd hp hpos
    · rw [(hold hji).1] at hp
      exact (hold hji).2.trans (h.unused j hp)
  · rw [hc.links_eq] at hjj
    by_cases hj' : j' = i
    · rw [hj', hpid]
      exact hpos
    · rw [(hold hj').1]
      by_cases hji : j = i
      · rw [hji, Function.update_self] at hjj
        exact absurd hjj (by simp)
      · rw [Function.update_of_ne hji] at hjj
        by_cases hjt : j = t
        · rw [hjt, Function.update_self] at hjj
          exact absurd (Option.some.inj hjj).symm hj'
        · rw [Function.update_of_ne hjt] at hjj
          exact h.target j j' hjj

end Table

/-! ## The steps -/

section Steps

variable {fuel : Nat} {s : Trace}

/-- Something happened to the machine only. -/
theorem TaskInv.machine (h : TaskInv fuel s) (hrun : s.kernel.halted = false) {m : Machine}
    (hzero : bitmapTest m.pmm 0 = true) (hused : ∀ b ∈ s.kstacks, InUse m.pmm b)
    (hcr3 : m.cr3 = s.kernel.cr3) (hdir : m.currentPageDirectory = s.kernel.currentPageDirectory)
    (hesp : ∀ c, s.kernel.currentTask = some c →
      m.esp0 = s.kernel.esp0 ∨ m.esp0 = (s.kernel.taskTable c).kstack) :
    TaskInv fuel { s with kernel := { s.kernel with toMachine := m } } := by
  obtain ⟨c, hc⟩ := h.run
  refine ⟨h.table.congr hzero hused rfl rfl (fun _ => rfl) (fun _ => rfl) (fun _ => rfl), c,
    hc.cur, hc.pid, Or.inl ?_, hc.others, ?_, ?_, fun h0 => ?_⟩
  · rcases hc.state with hs | ⟨-, hs, -⟩
    · exact hs
    · rw [hrun] at hs
      exact absurd hs Bool.false_ne_true
  · exact hcr3.trans (hc.cr3.trans hdir.symm)
  · exact hc.dir.trans hcr3.symm
  · rcases hesp c hc.cur with heq | heq
    · exact heq.trans (hc.esp0 h0)
    · exact heq

/-- Blocks were taken at most. -/
theorem TaskInv.grows (h : TaskInv fuel s) (hrun : s.kernel.halted = false) {m : Machine}
    (hg : Grows s.kernel.toMachine m) :
    TaskInv fuel { s with kernel := { s.kernel with toMachine := m } } := by
  obtain ⟨l, hl⟩ := hg.taken
  exact h.machine hrun ((hl.test 0).mpr (Or.inl h.table.zero))
    (fun b hb => hl.inUse_iff.mpr (Or.inl (h.table.used b hb))) hg.cr3 hg.cur fun _ _ => Or.inl hg.esp0

/-- The current task is not a slot for a new one. -/
theorem RunInv.ne_slot {k : Kernel} {c i : Slot} (h : RunInv fuel k c) (hrun : k.halted = false)
    (hi : findSlot k.taskTable = some i) : c ≠ i := by
  intro hci
  rcases h.state with ⟨hs, -⟩ | ⟨-, hh, -⟩
  · rcases (findSlot_some hi).2 with hp | hz
    · exact h.pid (hci ▸ hp)
    · rw [← hci, hs] at hz
      exact absurd hz (by simp)
  · rw [hrun] at hh
    exact Bool.false_ne_true hh

theorem TaskInv.create (h : TaskInv fuel s) (hrun : s.kernel.halted = false) {entry pageDir b : Nat}
    {i t : Slot} {k' : Kernel} (hc : Created entry pageDir i b t s.kernel k') :
    TaskInv fuel ⟨k', b :: s.kstacks⟩ := by
  obtain ⟨c, hr⟩ := h.run
  have hci := hr.ne_slot hrun hc.slot
  have hsame := hc.old hci
  refine ⟨(h.table.created hc).2, c, hc.cur.trans hr.cur, ?_, Or.inl ⟨?_, hc.halted.trans hrun⟩,
    fun j hj => ?_, ?_, ?_, fun h0 => ?_⟩
  · rw [hsame]
    exact hr.pid
  · rw [hsame]
    rcases hr.state with hs | ⟨-, hh, -⟩
    · exact hs.1
    · rw [hrun] at hh
      exact absurd hh Bool.false_ne_true
  · by_cases hji : j = i
    · rw [hji, hc.new]
      exact fun hready => absurd hready (by simp [newTask])
    · rw [hc.old hji]
      exact hr.others j hj
  · exact hc.cr3.trans (hr.cr3.trans hc.dir.symm)
  · rw [hsame]
    exact hr.dir.trans hc.cr3.symm
  · rw [hsame]
    exact hc.esp0.trans (hr.esp0 h0)

theorem TaskInv.notCreated (h : TaskInv fuel s) (hrun : s.kernel.halted = false) {k' : Kernel}
    (hn : NotCreated s.kernel k') : TaskInv fuel ⟨k', s.kstacks⟩ := by
  obtain ⟨c, hc⟩ := h.run
  have hpmm : k'.pmm = s.kernel.pmm := hn.pmm
  refine ⟨h.table.congr (by rw [hpmm]; exact h.table.zero) (by rw [hpmm]; exact h.table.used) hn.list
    hn.pid (fun j => by rw [hn.table]) (fun j => by rw [hn.table]) (fun j => by rw [hn.table]), c,
    hn.cur.trans hc.cur, ?_, Or.inl ⟨?_, hn.halted.trans hrun⟩, ?_, ?_, ?_, fun h0 => ?_⟩
  · rw [hn.table]
    exact hc.pid
  · rw [hn.table]
    rcases hc.state with hs | ⟨-, hs, -⟩
    · exact hs.1
    · rw [hrun] at hs
      exact absurd hs Bool.false_ne_true
  · rw [hn.table]
    exact hc.others
  · exact hn.cr3.trans (hc.cr3.trans hn.dir.symm)
  · rw [hn.table]
    exact hc.dir.trans hn.cr3.symm
  · rw [hn.table]
    exact hn.esp0.trans (hc.esp0 h0)

/-- Marking the current task changes its state only. -/
theorem markZombie_fields (k : Kernel) (cur j : Slot) :
    ((markZombie k cur).taskTable j).pid = (k.taskTable j).pid ∧
    ((markZombie k cur).taskTable j).kstack = (k.taskTable j).kstack ∧
    ((markZombie k cur).taskTable j).next = (k.taskTable j).next ∧
    ((markZombie k cur).taskTable j).pageDirectory = (k.taskTable j).pageDirectory := by
  have htask : (markZombie k cur).taskTable j = setState k.taskTable cur .zombie j := rfl
  by_cases hj : j = cur
  · rw [htask, hj, setState_self]
    exact ⟨rfl, rfl, rfl, rfl⟩
  · rw [htask, setState_of_ne _ _ hj]
    exact ⟨rfl, rfl, rfl, rfl⟩

theorem TableInv.markZombie {k : Kernel} {kstacks : List Nat} (h : TableInv k kstacks) (cur : Slot) :
    TableInv (MyOS.markZombie k cur) kstacks :=
  h.congr h.zero h.used rfl rfl (fun j => (markZombie_fields k cur j).1)
    (fun j => (markZombie_fields k cur j).2.1) fun j => (markZombie_fields k cur j).2.2.1

/-- A switch changes states and one saved ESP. -/
theorem Switched.fields {esp : Nat} {cur c : Slot} {k k' : Kernel} (h : Switched esp cur c k k')
    (j : Slot) : (k'.taskTable j).pid = (k.taskTable j).pid ∧
    (k'.taskTable j).kstack = (k.taskTable j).kstack ∧
    (k'.taskTable j).next = (k.taskTable j).next ∧
    (k'.taskTable j).pageDirectory = (k.taskTable j).pageDirectory ∧
    (k'.taskTable j).eip = (k.taskTable j).eip := by
  by_cases hc : j = c
  · rw [hc, h.new]
    exact ⟨rfl, rfl, rfl, rfl, rfl⟩
  · by_cases hcur : j = cur
    · rw [hcur, h.prev]
      exact ⟨rfl, rfl, rfl, rfl, rfl⟩
    · rw [h.others j hc hcur]
      exact ⟨rfl, rfl, rfl, rfl, rfl⟩

/-- After a switch the new task runs, whether the old one goes on later or
has exited. -/
theorem TaskInv.switched {k k' : Kernel} {kstacks : List Nat} {esp : Nat} {cur c : Slot}
    (h : TableInv k kstacks) (hrun : k.halted = false) (hcr3 : k.cr3 = k.currentPageDirectory)
    (hothers : ∀ j, j ≠ cur → (k.taskTable j).state ≠ .running)
    (hpid : (k.taskTable c).pid ≠ 0) (hs : Switched esp cur c k k') :
    TaskInv fuel ⟨k', kstacks⟩ := by
  refine ⟨h.congr ?_ ?_ hs.list hs.pid (fun j => (hs.fields j).1) (fun j => (hs.fields j).2.1)
    fun j => (hs.fields j).2.2.1, c, hs.cur, ?_, Or.inl ⟨?_, hs.halted.trans hrun⟩, fun j hj => ?_,
    ?_, ?_, fun _ => ?_⟩
  · show bitmapTest k'.pmm 0 = true
    rw [hs.pmm]
    exact h.zero
  · show ∀ b ∈ kstacks, InUse k'.pmm b
    rw [hs.pmm]
    exact h.used
  · rw [(hs.fields c).1]
    exact hpid
  · rw [hs.new]
  · by_cases hcur : j = cur
    · -- the old task was RUNNING and is READY now, or has exited
      rw [hcur, hs.prev]
      show (if (k.taskTable cur).state = .running then TaskState.ready
        else (k.taskTable cur).state) ≠ .running
      split
      · simp
      next hne => exact hne
    · rw [hs.others j hj hcur]
      exact hothers j hcur
  · show k'.cr3 = k'.currentPageDirectory
    rw [hs.cr3, hs.dir]
    split
    next heq => rw [heq, hcr3]
    next => rfl
  · rw [(hs.fields c).2.2.2.1]
    exact hs.cr3.symm
  · rw [(hs.fields c).2.1]
    exact hs.esp0

/-- **One step.** Every operation keeps the invariant. -/
theorem TaskInv.step {c : Config} {s s' : Trace} (h : TaskInv c.fuel s) {op : KernelOp}
    (hl : op.Legal s) (hstep : op.apply c s = some s') : TaskInv c.fuel s' := by
  unfold KernelOp.apply at hstep
  split at hstep
  · exact absurd hstep (by simp)
  next hgo =>
  have hrun : s.kernel.halted = false := Bool.eq_false_of_not_eq_true hgo
  obtain ⟨cur, hc⟩ := h.run
  cases op with
  | create entry pageDir isUser =>
    obtain ⟨⟨r, k'⟩, hcreate, rfl⟩ := Option.map_eq_some_iff.mp hstep
    rcases taskCreate_cases h.table.zero h.table.list (toOption_eq_some hcreate) with
      ⟨rfl, hn⟩ | ⟨i, b, t, rfl, hnew⟩
    · exact h.notCreated hrun hn
    · have hb : (k'.taskTable i).kstack / 4096 - 1 = b := by
        rw [hnew.new]
        show (b * 4096 + 4096) / 4096 - 1 = b
        omega
      show TaskInv c.fuel ⟨k', ((k'.taskTable i).kstack / 4096 - 1) :: s.kstacks⟩
      rw [hb]
      exact h.create hrun hnew
  | schedule esp =>
    obtain ⟨k', hs, rfl⟩ := Option.map_eq_some_iff.mp hstep
    rcases schedule_cases hc.cur hs with ⟨-, rfl⟩ | ⟨d, hpick, hsw⟩
    · exact h
    · exact TaskInv.switched h.table hrun hc.cr3 hc.others (h.table.pickNext_pid hpick) hsw
  | yield esp =>
    obtain ⟨k', hs, rfl⟩ := Option.map_eq_some_iff.mp hstep
    rcases taskYield_cases hc.cur hs with rfl | ⟨d, hpick, hsw⟩
    · exact h.grows hrun (m := { s.kernel.toMachine with intFlag := true })
        ⟨⟨[], Taken.refl _⟩, rfl, rfl, rfl⟩
    · exact TaskInv.switched h.table hrun hc.cr3 hc.others (h.table.pickNext_pid hpick) hsw
  | exit esp =>
    obtain ⟨k', hs, rfl⟩ := Option.map_eq_some_iff.mp hstep
    have hz := h.table.markZombie cur
    rcases taskExit_cases hc.cur hrun hs with ⟨hpick, rfl⟩ | ⟨d, hpick, hsw⟩
    · refine ⟨hz.congr hz.zero hz.used rfl rfl (fun _ => rfl) (fun _ => rfl) (fun _ => rfl), cur,
        hc.cur, ?_, Or.inr ⟨?_, rfl, ?_⟩, fun j hj => ?_, hc.cr3, ?_, fun h0 => ?_⟩
      · exact (markZombie_fields s.kernel cur cur).1 ▸ hc.pid
      · exact congrArg Task.state (setState_self ..)
      · have hsame : pickNext c.fuel { markZombie s.kernel cur with halted := true } cur
            = pickNext c.fuel (markZombie s.kernel cur) cur :=
          pickNext_congr (by rfl) (by rfl) c.fuel cur
        exact hsame.trans hpick
      · exact (congrArg Task.state (setState_of_ne _ _ hj)).trans_ne (hc.others j hj)
      · exact (markZombie_fields s.kernel cur cur).2.2.2 ▸ hc.dir
      · exact (markZombie_fields s.kernel cur cur).2.1 ▸ hc.esp0 h0
    · refine TaskInv.switched hz hrun hc.cr3 (fun j hj => ?_) (hz.pickNext_pid hpick) hsw
      exact (congrArg Task.state (setState_of_ne _ _ hj)).trans_ne (hc.others j hj)
  | userBootstrap =>
    obtain ⟨k', hs, rfl⟩ := Option.map_eq_some_iff.mp hstep
    obtain ⟨m, hg, rfl⟩ := taskUserBootstrap_spec hc.cur (hc.dir.trans hc.cr3) (toOption_eq_some hs)
    obtain ⟨l, hl⟩ := hg.taken
    refine h.machine hrun ((hl.test 0).mpr (Or.inl h.table.zero))
      (fun b hb => hl.inUse_iff.mpr (Or.inl (h.table.used b hb))) hg.cr3 hg.cur fun d hd => Or.inr ?_
    rw [hc.cur] at hd
    cases hd
    rfl
  | load path =>
    obtain ⟨⟨r, m⟩, hload, rfl⟩ := Option.map_eq_some_iff.mp hstep
    exact h.grows hrun (elfLoad_grows hc.cr3 (toOption_eq_some hload))
  | env m =>
    cases hstep
    obtain ⟨hzero, hused, hcr3, hdir, hesp⟩ := hl
    exact h.machine hrun hzero hused hcr3 hdir fun _ _ => Or.inl hesp

theorem TaskInv.kernelRun {c : Config} : ∀ (ops : List KernelOp) {s s' : Trace}, TaskInv c.fuel s →
    LegalKernelRun c s ops → MyOS.kernelRun c s ops = some s' → TaskInv c.fuel s' := by
  intro ops
  induction ops with
  | nil =>
    intro s s' h _ hrun
    cases hrun
    exact h
  | cons op ops ih =>
    intro s s' h hl hrun
    obtain ⟨s₁, hstep, hrest⟩ := Option.bind_eq_some_iff.mp hrun
    exact ih (h.step hl.1 hstep) (hl.2 s₁ hstep) hrest

end Steps

/-- After `scheduler_init` only the boot task is there. -/
theorem taskInv_start {m : Machine} (hb : Booted m) (fuel : Nat) : TaskInv fuel (startTrace m) := by
  have hboot : (schedulerInit m).taskTable 0 = ⟨1, 0, 0, m.cr3, 0, .running, none⟩ := rfl
  have hrest : ∀ {i : Slot}, i ≠ 0 → (schedulerInit m).taskTable i = Task.zero := fun hi => if_neg hi
  have hlinks : ∀ i, links (schedulerInit m).taskTable i = none := by
    intro i
    unfold links
    by_cases hi : i = 0
    · rw [hi, hboot]
    · rw [hrest hi]
      rfl
  have hpid : ∀ {i}, ((schedulerInit m).taskTable i).pid ≠ 0 → i = 0 := by
    intro i hp
    by_contra hi
    rw [hrest hi] at hp
    exact hp rfl
  refine ⟨⟨hb.zero, rfl, ?_, fun i => ?_, fun i j hi hij => ?_, rfl, List.nodup_nil,
    fun b hb' => absurd hb' List.not_mem_nil, fun i hi hp => absurd (hpid hp) hi, fun i _ => ?_,
    fun i j hij => ?_⟩, 0, rfl, ?_, Or.inl ⟨?_, rfl⟩, fun j hj => ?_, hb.cr3, ?_,
    fun h0 => absurd rfl h0⟩
  · exact congrArg Task.pid hboot
  · show ((schedulerInit m).taskTable i).pid < 2
    by_cases hi : i = 0
    · rw [hi, hboot]
      exact Nat.one_lt_two
    · rw [hrest hi]
      exact Nat.zero_lt_two
  · have hj : ((schedulerInit m).taskTable j).pid ≠ 0 := fun h0 => hi (hij.trans h0)
    exact (hpid hi).trans (hpid hj).symm
  · show ((schedulerInit m).taskTable i).kstack = 0
    by_cases hi : i = 0
    · rw [hi, hboot]
    · rw [hrest hi]
      rfl
  · exact absurd ((hlinks i).symm.trans hij) (by simp)
  · show ((schedulerInit m).taskTable 0).pid ≠ 0
    rw [hboot]
    exact Nat.one_ne_zero
  · exact congrArg Task.state hboot
  · show ((schedulerInit m).taskTable j).state ≠ .running
    rw [hrest hj]
    simp [Task.zero]
  · exact congrArg Task.pageDirectory hboot

/-- The invariant in every state a run from `scheduler_init` reaches. -/
theorem kernelRun_inv {c : Config} {m : Machine} {ops : List KernelOp} {s : Trace} (hb : Booted m)
    (hlegal : LegalKernelRun c (startTrace m) ops)
    (hrun : kernelRun c (startTrace m) ops = some s) : TaskInv c.fuel s :=
  (taskInv_start hb c.fuel).kernelRun ops hlegal hrun

/-! ## A small kernel -/

/-- 44 free blocks behind the first 256. -/
def taskMachine : Machine := demoMachine 300 demo_total fun _ => 0

def taskConfig : Config := ⟨⟨0x100000, 0x100100, 0x100200⟩, smallVfs, 40⟩

theorem taskMachine_booted : Booted taskMachine := ⟨by decide, rfl⟩

end MyOS
