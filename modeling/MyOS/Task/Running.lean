import MyOS.Task.Inv

/-!
# The running task

Three readings of `TaskInv` along any run. `kernelRun_one_running`: at most
one task is RUNNING, it is the current one, and an exited task comes back
only as a new task. `kernelRun_follows`: CR3, `current_page_directory` and
the TSS belong to the current task. `kernelRun_create`: `task_create` takes
free slots only, and pids never repeat.
-/

namespace MyOS

open Lib Lib.Mem Lib.Paging

variable {c : Config} {m : Machine} {ops : List KernelOp} {s : Trace}

/-- A switch leaves exited tasks exited. -/
theorem Switched.zombie {esp : Nat} {cur d : Slot} {k k' : Kernel} (h : Switched esp cur d k k')
    {i : Slot} (hi : (k.taskTable i).state = .zombie) : (k'.taskTable i).state = .zombie := by
  by_cases hd : i = d
  · rw [hd, h.ready] at hi
    exact absurd hi (by simp)
  · by_cases hcur : i = cur
    · rw [hcur] at hi ⊢
      rw [h.prev, hi]
      simp
    · rw [h.others i hd hcur]
      exact hi

/-- An exited task in its slot, and another one there after one step: the
step was a `task_create`. -/
theorem TaskInv.zombie_step (h : TaskInv c.fuel s) {op : KernelOp} {s' : Trace}
    (hstep : op.apply c s = some s') {i : Slot} (hi : (s.kernel.taskTable i).state = .zombie)
    (hi' : (s'.kernel.taskTable i).state ≠ .zombie) :
    ∃ entry pageDir isUser b, op = .create entry pageDir isUser ∧ b ∉ s.kstacks ∧
      (s'.kernel.taskTable i).state = .ready ∧ (s'.kernel.taskTable i).pid = s.kernel.nextPid ∧
      (s'.kernel.taskTable i).eip = entry ∧ (s'.kernel.taskTable i).kstack = b * 4096 + 4096 := by
  unfold KernelOp.apply at hstep
  split at hstep
  · exact absurd hstep (by simp)
  next hgo =>
  have hrun : s.kernel.halted = false := Bool.eq_false_of_not_eq_true hgo
  obtain ⟨cur, hc⟩ := h.run
  cases op with
  | create entry pageDir isUser =>
    obtain ⟨⟨r, k'⟩, hcreate, rfl⟩ := Option.map_eq_some_iff.mp hstep
    rcases taskCreate_cases h.table.zero h.table.list (toOption_eq_some hcreate) with
      ⟨rfl, hn⟩ | ⟨j, b, t, rfl, hnew⟩
    · have htable : (s.created (none, k')).kernel.taskTable = s.kernel.taskTable := hn.table
      rw [htable] at hi'
      exact absurd hi hi'
    · have hkernel : (s.created (some j, k')).kernel = k' := rfl
      rw [hkernel] at hi' ⊢
      by_cases hij : i = j
      · refine ⟨entry, pageDir, isUser, b, rfl, (h.table.created hnew).1, ?_⟩
        rw [hij, hnew.new]
        exact ⟨rfl, rfl, rfl, rfl⟩
      · rw [hnew.old hij] at hi'
        exact absurd hi hi'
  | schedule esp =>
    obtain ⟨k', hs, rfl⟩ := Option.map_eq_some_iff.mp hstep
    rcases schedule_cases hc.cur hs with ⟨-, rfl⟩ | ⟨d, -, hsw⟩
    · exact absurd hi hi'
    · exact absurd (hsw.zombie hi) hi'
  | yield esp =>
    obtain ⟨k', hs, rfl⟩ := Option.map_eq_some_iff.mp hstep
    rcases taskYield_cases hc.cur hs with rfl | ⟨d, -, hsw⟩
    · exact absurd hi hi'
    · exact absurd (hsw.zombie hi) hi'
  | exit esp =>
    obtain ⟨k', hs, rfl⟩ := Option.map_eq_some_iff.mp hstep
    have hz : ((markZombie s.kernel cur).taskTable i).state = .zombie := by
      by_cases hcur : i = cur
      · rw [hcur]
        exact congrArg Task.state (setState_self ..)
      · exact (congrArg Task.state (setState_of_ne _ _ hcur)).trans hi
    rcases taskExit_cases hc.cur hrun hs with ⟨-, rfl⟩ | ⟨d, -, hsw⟩
    · exact absurd hz hi'
    · exact absurd (hsw.zombie hz) hi'
  | userBootstrap =>
    obtain ⟨k', hs, rfl⟩ := Option.map_eq_some_iff.mp hstep
    obtain ⟨m', -, rfl⟩ := taskUserBootstrap_spec hc.cur (hc.dir.trans hc.cr3) (toOption_eq_some hs)
    exact absurd hi hi'
  | load path =>
    obtain ⟨r, -, rfl⟩ := Option.map_eq_some_iff.mp hstep
    exact absurd hi hi'
  | env m' =>
    cases hstep
    exact absurd hi hi'

/-- **At most one task runs.** In every state a run reaches: two RUNNING
slots are the same, the current one; the current task is RUNNING, or it has
exited and the kernel has stopped because the search came back to it; and a
ZOMBIE slot leaves that state in a `task_create` only, with a pid no task had
before, a stack that was never one, and the entry given. -/
theorem kernelRun_one_running (hb : Booted m) (hlegal : LegalKernelRun c (startTrace m) ops)
    (hrun : kernelRun c (startTrace m) ops = some s) :
    (∃ cur, s.kernel.currentTask = some cur ∧
      (∀ i, (s.kernel.taskTable i).state = .running → i = cur) ∧
      (((s.kernel.taskTable cur).state = .running ∧ s.kernel.halted = false) ∨
        ((s.kernel.taskTable cur).state = .zombie ∧ s.kernel.halted = true ∧
          pickNext c.fuel s.kernel cur = some cur))) ∧
    ∀ (op : KernelOp) (s' : Trace), op.apply c s = some s' → ∀ i, (s.kernel.taskTable i).state = .zombie →
      (s'.kernel.taskTable i).state ≠ .zombie →
      ∃ entry pageDir isUser b, op = .create entry pageDir isUser ∧
        (s'.kernel.taskTable i).state = .ready ∧
        (∀ j, (s.kernel.taskTable j).pid < (s'.kernel.taskTable i).pid) ∧
        (s'.kernel.taskTable i).eip = entry ∧ b ∉ s.kstacks ∧
        (s'.kernel.taskTable i).kstack = b * 4096 + 4096 := by
  have hinv := kernelRun_inv hb hlegal hrun
  obtain ⟨cur, hc⟩ := hinv.run
  refine ⟨⟨cur, hc.cur, fun i hi => ?_, hc.state⟩, fun op s' hstep i hi hi' => ?_⟩
  · by_contra hne
    exact hc.others i hne hi
  · obtain ⟨entry, pageDir, isUser, b, hop, hb', hstate, hpid, heip, hk⟩ :=
      hinv.zombie_step hstep hi hi'
    refine ⟨entry, pageDir, isUser, b, hop, hstate, fun j => ?_, heip, hb', hk⟩
    rw [hpid]
    exact hinv.table.lt j

/-- A task is created, runs and exits, and its slot is taken again. -/
theorem kernelRun_one_running_reuse : ∃ s, kernelRun taskConfig (startTrace taskMachine)
      [.create 0x101000 0 false, .schedule 0x9000, .exit 0x101F00] = some s ∧
    (s.kernel.taskTable 1).state = .zombie ∧
    ∀ s', (KernelOp.create 0x102000 0 true).apply taskConfig s = some s' →
      (s'.kernel.taskTable 1).state ≠ .zombie →
      ∀ j, (s.kernel.taskTable j).pid < (s'.kernel.taskTable 1).pid := by
  obtain ⟨s, hrun⟩ := Option.isSome_iff_exists.mp
    (show (kernelRun taskConfig (startTrace taskMachine)
      [.create 0x101000 0 false, .schedule 0x9000, .exit 0x101F00]).isSome by decide +kernel)
  have hzombie : ∀ s, kernelRun taskConfig (startTrace taskMachine)
      [.create 0x101000 0 false, .schedule 0x9000, .exit 0x101F00] = some s →
      (s.kernel.taskTable 1).state = .zombie := by
    intro s hs
    have hstate : (kernelRun taskConfig (startTrace taskMachine)
        [.create 0x101000 0 false, .schedule 0x9000, .exit 0x101F00]).map
        (fun s => (s.kernel.taskTable 1).state) = some .zombie := by decide +kernel
    rw [hs] at hstate
    exact Option.some.inj hstate
  refine ⟨s, hrun, hzombie s hrun, fun s' hstep hne => ?_⟩
  obtain ⟨-, hreuse⟩ := kernelRun_one_running taskMachine_booted
    (LegalKernelRun.of_calls _ _ rfl) hrun
  obtain ⟨entry, pageDir, isUser, b, -, -, hpid, -⟩ := hreuse _ s' hstep 1 (hzombie s hrun) hne
  exact hpid

/-- **The CPU follows the current task.** In every state a run reaches, CR3,
`current_page_directory` and the current task's directory are equal, and if
it is not the boot task the TSS points to its stack. -/
theorem kernelRun_follows (hb : Booted m) (hlegal : LegalKernelRun c (startTrace m) ops)
    (hrun : kernelRun c (startTrace m) ops = some s) :
    ∃ cur, s.kernel.currentTask = some cur ∧
      s.kernel.cr3 = s.kernel.currentPageDirectory ∧
      s.kernel.cr3 = (s.kernel.taskTable cur).pageDirectory ∧
      (cur ≠ 0 → s.kernel.esp0 = (s.kernel.taskTable cur).kstack) := by
  obtain ⟨cur, hc⟩ := (kernelRun_inv hb hlegal hrun).run
  exact ⟨cur, hc.cur, hc.cr3, hc.dir.symm, hc.esp0⟩

/-- A user task with the directory in block 100 enters user mode. -/
theorem kernelRun_follows_user : ∃ s, kernelRun taskConfig (startTrace taskMachine)
      [.create 0x101000 0x64000 true, .schedule 0x9000, .userBootstrap] = some s ∧
    ∃ cur, s.kernel.currentTask = some cur ∧
      s.kernel.cr3 = (s.kernel.taskTable cur).pageDirectory := by
  obtain ⟨s, hrun⟩ := Option.isSome_iff_exists.mp
    (show (kernelRun taskConfig (startTrace taskMachine)
      [.create 0x101000 0x64000 true, .schedule 0x9000, .userBootstrap]).isSome by decide +kernel)
  obtain ⟨cur, hcur, -, hdir, -⟩ := kernelRun_follows taskMachine_booted
    (LegalKernelRun.of_calls _ _ rfl) hrun
  exact ⟨s, hrun, cur, hcur, hdir⟩

/-- **`task_create` destroys no task and repeats no pid.** In every state a
run reaches the assigned pids are distinct, not 0 and below `next_pid`, which
counts the stacks taken, fewer than `2 ^ 20`, and so does not wrap. The next
call returns `NULL` and changes neither the table, the list, the counter nor
the allocator, or it takes a slot other than 0 that was never used or has
exited; the other slots keep every field but `next`. -/
theorem kernelRun_create (hb : Booted m) (hlegal : LegalKernelRun c (startTrace m) ops)
    (hrun : kernelRun c (startTrace m) ops = some s) :
    (∀ i, (s.kernel.taskTable i).pid < s.kernel.nextPid) ∧
    (∀ i j, (s.kernel.taskTable i).pid ≠ 0 →
      (s.kernel.taskTable i).pid = (s.kernel.taskTable j).pid → i = j) ∧
    s.kernel.nextPid = s.kstacks.length + 2 ∧ s.kstacks.length < 2 ^ 20 ∧
    ∀ entry pageDir isUser r k',
      taskCreate c.sym c.fuel entry pageDir isUser s.kernel = .ok (r, k') →
      (r = none → k'.taskTable = s.kernel.taskTable ∧ k'.taskList = s.kernel.taskList ∧
        k'.nextPid = s.kernel.nextPid ∧ k'.pmm = s.kernel.pmm) ∧
      ∀ i, r = some i → i ≠ 0 ∧ Reusable (s.kernel.taskTable i) ∧
        k'.nextPid = s.kernel.nextPid + 1 ∧
        ∀ j, j ≠ i → k'.taskTable j = { s.kernel.taskTable j with next := (k'.taskTable j).next } := by
  have hinv := (kernelRun_inv hb hlegal hrun).table
  refine ⟨hinv.lt, hinv.inj, hinv.count, hinv.length_lt, fun entry pageDir isUser r k' hcreate => ?_⟩
  rcases taskCreate_cases hinv.zero hinv.list hcreate with ⟨rfl, hn⟩ | ⟨i, b, t, rfl, hnew⟩
  · exact ⟨fun _ => ⟨hn.table, hn.list, hn.pid, hn.pmm⟩, fun i hi => absurd hi (by simp)⟩
  · refine ⟨fun hi => absurd hi (by simp), fun j hj => ?_⟩
    cases hj
    obtain ⟨h0, hfree⟩ := findSlot_some hnew.slot
    exact ⟨h0, hfree, hnew.pid.trans hinv.no_wrap, fun j hj => hnew.old hj⟩

/-- Two tasks, the second in the slot of the first. -/
theorem kernelRun_create_reuse : ∃ s, kernelRun taskConfig (startTrace taskMachine)
      [.create 0x101000 0 false, .schedule 0x9000, .exit 0x101F00, .create 0x102000 0 false] = some s ∧
    s.kernel.nextPid = s.kstacks.length + 2 ∧ s.kstacks.length < 2 ^ 20 := by
  obtain ⟨s, hrun⟩ := Option.isSome_iff_exists.mp
    (show (kernelRun taskConfig (startTrace taskMachine)
      [.create 0x101000 0 false, .schedule 0x9000, .exit 0x101F00,
        .create 0x102000 0 false]).isSome by decide +kernel)
  obtain ⟨-, -, hcount, hlen, -⟩ := kernelRun_create taskMachine_booted
    (LegalKernelRun.of_calls _ _ rfl) hrun
  exact ⟨s, hrun, hcount, hlen⟩

end MyOS
