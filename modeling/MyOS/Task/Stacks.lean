import MyOS.Task.Inv

/-!
# What a task leaves behind

Nothing gives a kernel stack back. As long as `task_create` takes slots that
were never used, the stacks are those the table names, 31 at most. When it
takes the slot of an exited task it writes the new stack over the old one,
and the old block is named by nothing any more and stays in use for ever.

`TaskInv.step_cases` says what one step does to the table: nothing that
matters here, or a new task. `kernelRun_stacks_iff` is the exact condition: no
block is lost along a run if and only if no call of the run replaces an
exited task (`FreshRun`).
-/

namespace MyOS

open Lib Lib.Mem Lib.Paging

/-! ## One step on the table -/

/-- Pids, stacks and pointers are the same. -/
structure SameTable (s s' : Trace) : Prop where
  kstacks : s'.kstacks = s.kstacks
  list : s'.kernel.taskList = s.kernel.taskList
  pid : ∀ j, (s'.kernel.taskTable j).pid = (s.kernel.taskTable j).pid
  kstack : ∀ j, (s'.kernel.taskTable j).kstack = (s.kernel.taskTable j).kstack
  next : ∀ j, (s'.kernel.taskTable j).next = (s.kernel.taskTable j).next

/-- `task_create` failed: the table is full or there is no block. -/
theorem taskCreate_none {sym : Symbols} {fuel entry pageDir : Nat} {isUser : Bool} {k k' : Kernel}
    (hzero : bitmapTest k.pmm 0 = true)
    (h : taskCreate sym fuel entry pageDir isUser k = .ok (none, k')) :
    findSlot k.taskTable = none ∨ freeCount k.pmm = 0 := by
  rcases taskCreate_runs h with ⟨-, hslot, -⟩ | ⟨-, hnull, -⟩ | ⟨i, b, m, hr, -⟩
  · exact Or.inl hslot
  · exact Or.inr (pmmAllocBlock_null hzero hnull).2
  · exact absurd hr (by simp)

/-- A free block is counted. -/
theorem IsFree.count_ne_zero {s : Pmm} {b : Nat} (h : IsFree s b) : freeCount s ≠ 0 := by
  have hcount := freeCount_markUsed h.1 h.2
  omega

section Cases

variable {c : Config} {s s' : Trace} {op : KernelOp}

/-- **One step on the table.** Nothing changes in it, and if the step was a
`task_create` that call failed; or there is a new task. -/
theorem TaskInv.step_cases (h : TaskInv c.fuel s) (hstep : op.apply c s = some s') :
    (SameTable s s' ∧ ∀ entry pageDir isUser, op = .create entry pageDir isUser →
      findSlot s.kernel.taskTable = none ∨ freeCount s.kernel.pmm = 0) ∨
    ∃ entry pageDir isUser i b t, op = .create entry pageDir isUser ∧
      Created entry pageDir i b t s.kernel s'.kernel ∧ s'.kstacks = b :: s.kstacks := by
  unfold KernelOp.apply at hstep
  split at hstep
  · exact absurd hstep (by simp)
  next hgo =>
  have hrun : s.kernel.halted = false := Bool.eq_false_of_not_eq_true hgo
  obtain ⟨cur, hc⟩ := h.run
  cases op with
  | create entry pageDir isUser =>
    obtain ⟨⟨r, k'⟩, hcreate, rfl⟩ := Option.map_eq_some_iff.mp hstep
    have hok := toOption_eq_some hcreate
    rcases taskCreate_cases h.table.zero h.table.list hok with ⟨rfl, hn⟩ | ⟨i, b, t, rfl, hnew⟩
    · have hfail := taskCreate_none h.table.zero hok
      refine Or.inl ⟨⟨rfl, hn.list, fun j => ?_, fun j => ?_, fun j => ?_⟩, fun _ _ _ _ => hfail⟩
      · exact congrArg (fun t => (t j).pid) hn.table
      · exact congrArg (fun t => (t j).kstack) hn.table
      · exact congrArg (fun t => (t j).next) hn.table
    · refine Or.inr ⟨entry, pageDir, isUser, i, b, t, rfl, hnew, ?_⟩
      show ((k'.taskTable i).kstack / 4096 - 1) :: s.kstacks = b :: s.kstacks
      rw [hnew.new]
      show ((b * 4096 + 4096) / 4096 - 1) :: s.kstacks = b :: s.kstacks
      rw [show (b * 4096 + 4096) / 4096 - 1 = b by omega]
  | schedule esp =>
    obtain ⟨k', hs, rfl⟩ := Option.map_eq_some_iff.mp hstep
    refine Or.inl ⟨?_, fun _ _ _ hop => absurd hop (by simp)⟩
    rcases schedule_cases hc.cur hs with ⟨-, rfl⟩ | ⟨d, -, hsw⟩
    · exact ⟨rfl, rfl, fun _ => rfl, fun _ => rfl, fun _ => rfl⟩
    · exact ⟨rfl, hsw.list, fun j => (hsw.fields j).1, fun j => (hsw.fields j).2.1,
        fun j => (hsw.fields j).2.2.1⟩
  | yield esp =>
    obtain ⟨k', hs, rfl⟩ := Option.map_eq_some_iff.mp hstep
    refine Or.inl ⟨?_, fun _ _ _ hop => absurd hop (by simp)⟩
    rcases taskYield_cases hc.cur hs with rfl | ⟨d, -, hsw⟩
    · exact ⟨rfl, rfl, fun _ => rfl, fun _ => rfl, fun _ => rfl⟩
    · exact ⟨rfl, hsw.list, fun j => (hsw.fields j).1, fun j => (hsw.fields j).2.1,
        fun j => (hsw.fields j).2.2.1⟩
  | exit esp =>
    obtain ⟨k', hs, rfl⟩ := Option.map_eq_some_iff.mp hstep
    refine Or.inl ⟨?_, fun _ _ _ hop => absurd hop (by simp)⟩
    have hz := markZombie_fields s.kernel cur
    rcases taskExit_cases hc.cur hrun hs with ⟨-, rfl⟩ | ⟨d, -, hsw⟩
    · exact ⟨rfl, rfl, fun j => (hz j).1, fun j => (hz j).2.1, fun j => (hz j).2.2.1⟩
    · exact ⟨rfl, hsw.list, fun j => (hsw.fields j).1.trans (hz j).1,
        fun j => (hsw.fields j).2.1.trans (hz j).2.1,
        fun j => (hsw.fields j).2.2.1.trans (hz j).2.2.1⟩
  | userBootstrap =>
    obtain ⟨k', hs, rfl⟩ := Option.map_eq_some_iff.mp hstep
    obtain ⟨m, -, rfl⟩ := taskUserBootstrap_spec hc.cur (hc.dir.trans hc.cr3) (toOption_eq_some hs)
    exact Or.inl ⟨⟨rfl, rfl, fun _ => rfl, fun _ => rfl, fun _ => rfl⟩,
      fun _ _ _ hop => absurd hop (by simp)⟩
  | load path =>
    obtain ⟨r, -, rfl⟩ := Option.map_eq_some_iff.mp hstep
    exact Or.inl ⟨⟨rfl, rfl, fun _ => rfl, fun _ => rfl, fun _ => rfl⟩,
      fun _ _ _ hop => absurd hop (by simp)⟩
  | env m =>
    cases hstep
    exact Or.inl ⟨⟨rfl, rfl, fun _ => rfl, fun _ => rfl, fun _ => rfl⟩,
      fun _ _ _ hop => absurd hop (by simp)⟩

end Cases

/-! ## Stacks -/

/-- Every block that was taken for a stack and is in use is the stack of some
slot. -/
def Covered (s : Trace) : Prop :=
  ∀ b ∈ s.kstacks, InUse s.kernel.pmm b → ∃ i, (s.kernel.taskTable i).kstack = b * 4096 + 4096

/-- Two slots do not share a stack. -/
def OwnStacks (s : Trace) : Prop :=
  ∀ i j, (s.kernel.taskTable i).kstack ≠ 0 →
    (s.kernel.taskTable i).kstack = (s.kernel.taskTable j).kstack → i = j

/-- The call does not replace an exited task: the slot it would take was
never used, or there is no block for it. -/
def KernelOp.Fresh (s : Trace) : KernelOp → Prop
  | create _ _ _ => ∀ i, findSlot s.kernel.taskTable = some i →
      (s.kernel.taskTable i).pid = 0 ∨ freeCount s.kernel.pmm = 0
  | _ => True

/-- No call of the run replaces an exited task. -/
def FreshRun (c : Config) (s : Trace) : List KernelOp → Prop
  | [] => True
  | op :: ops => op.Fresh s ∧ ∀ s', op.apply c s = some s' → FreshRun c s' ops

section Stacks

variable {c : Config} {s s' : Trace}

/-- The boot task has no stack of its own, and a slot with one is assigned. -/
theorem TableInv.kstack_mem {k : Kernel} {kstacks : List Nat} (h : TableInv k kstacks)
    (hboot : (k.taskTable 0).kstack = 0) {i : Slot} (hi : (k.taskTable i).kstack ≠ 0) :
    ∃ b ∈ kstacks, (k.taskTable i).kstack = b * 4096 + 4096 := by
  refine h.stack i (fun h0 => ?_) fun hp => hi (h.unused i hp)
  rw [h0] at hi
  exact hi hboot

/-- The parts of the invariant that only this file needs. -/
structure StackInv (s : Trace) : Prop where
  boot : (s.kernel.taskTable 0).kstack = 0
  own : OwnStacks s

theorem StackInv.same (h : StackInv s) (hs : SameTable s s') : StackInv s' := by
  refine ⟨(hs.kstack 0).trans h.boot, fun i j hi hij => ?_⟩
  rw [hs.kstack] at hi hij
  rw [hs.kstack] at hij
  exact h.own i j hi hij

theorem StackInv.created {entry pageDir b : Nat} {i t : Slot} (h : StackInv s)
    (hinv : TaskInv c.fuel s) (hnew : Created entry pageDir i b t s.kernel s'.kernel) :
    StackInv s' := by
  have hi0 : i ≠ 0 := (findSlot_some hnew.slot).1
  have hfresh := (hinv.table.created hnew).1
  have hat : (s'.kernel.taskTable i).kstack = b * 4096 + 4096 := by
    rw [hnew.new]
    rfl
  have hold : ∀ {j}, j ≠ i → (s'.kernel.taskTable j).kstack = (s.kernel.taskTable j).kstack := by
    intro j hj
    rw [hnew.old hj]
  -- no slot had the new block before
  have hne : ∀ {j}, j ≠ i → (s'.kernel.taskTable j).kstack ≠ b * 4096 + 4096 := by
    intro j hj heq
    rw [hold hj] at heq
    obtain ⟨b', hb', heq'⟩ := hinv.table.kstack_mem h.boot (i := j) (by omega)
    have hbb : b' = b := by omega
    exact hfresh (hbb ▸ hb')
  refine ⟨(hold hi0.symm).trans h.boot, fun j j' hj hjj => ?_⟩
  by_cases hji : j = i
  · by_cases hji' : j' = i
    · rw [hji, hji']
    · rw [hji, hat] at hjj
      exact absurd hjj.symm (hne hji')
  · by_cases hji' : j' = i
    · rw [hji', hat] at hjj
      exact absurd hjj (hne hji)
    · rw [hold hji] at hj hjj
      rw [hold hji'] at hjj
      exact h.own j j' hj hjj

theorem StackInv.step (h : StackInv s) (hinv : TaskInv c.fuel s) {op : KernelOp}
    (hstep : op.apply c s = some s') : StackInv s' := by
  rcases hinv.step_cases hstep with ⟨hs, -⟩ | ⟨_, _, _, i, b, t, -, hnew, -⟩
  · exact h.same hs
  · exact h.created hinv hnew

theorem StackInv.run : ∀ (ops : List KernelOp) {s s' : Trace}, StackInv s → TaskInv c.fuel s →
    LegalKernelRun c s ops → kernelRun c s ops = some s' → StackInv s' := by
  intro ops
  induction ops with
  | nil =>
    intro s s' h _ _ hrun
    cases hrun
    exact h
  | cons op ops ih =>
    intro s s' h hinv hl hrun
    obtain ⟨s₁, hstep, hrest⟩ := Option.bind_eq_some_iff.mp hrun
    exact ih (h.step hinv hstep) (hinv.step hl.1 hstep) (hl.2 s₁ hstep) hrest

/-- A new task covers its own block, and keeps the others covered exactly if
its slot had no stack before. -/
theorem covered_created_iff {entry pageDir b : Nat} {i t : Slot} (h : StackInv s)
    (hinv : TaskInv c.fuel s) (hinv' : TaskInv c.fuel s')
    (hnew : Created entry pageDir i b t s.kernel s'.kernel) (hk : s'.kstacks = b :: s.kstacks) :
    Covered s' ↔ Covered s ∧ (s.kernel.taskTable i).pid = 0 := by
  have hi0 : i ≠ 0 := (findSlot_some hnew.slot).1
  have hfresh := (hinv.table.created hnew).1
  have hat : (s'.kernel.taskTable i).kstack = b * 4096 + 4096 := by
    rw [hnew.new]
    rfl
  have hold : ∀ {j}, j ≠ i → (s'.kernel.taskTable j).kstack = (s.kernel.taskTable j).kstack := by
    intro j hj
    rw [hnew.old hj]
  constructor
  · intro hcov
    -- an old block has a slot other than `i` after the step
    have hother : ∀ x ∈ s.kstacks, ∃ j, j ≠ i ∧ (s.kernel.taskTable j).kstack = x * 4096 + 4096 := by
      intro x hx
      have hx' : x ∈ s'.kstacks := hk ▸ List.mem_cons_of_mem _ hx
      obtain ⟨j, hj⟩ := hcov x hx' (hinv'.table.used x hx')
      have hji : j ≠ i := by
        intro heq
        rw [heq, hat] at hj
        have hbx : b = x := by omega
        exact hfresh (hbx ▸ hx)
      exact ⟨j, hji, (hold hji).symm.trans hj⟩
    refine ⟨fun x hx _ => ?_, ?_⟩
    · obtain ⟨j, -, hj⟩ := hother x hx
      exact ⟨j, hj⟩
    · by_contra hp
      obtain ⟨x, hx, hix⟩ := hinv.table.stack i hi0 hp
      obtain ⟨j, hji, hj⟩ := hother x hx
      exact hji (h.own j i (by omega) (hj.trans hix.symm))
  · rintro ⟨hcov, hp⟩ x hx -
    rw [hk] at hx
    rcases List.mem_cons.mp hx with rfl | hx
    · exact ⟨i, hat⟩
    · obtain ⟨j, hj⟩ := hcov x hx (hinv.table.used x hx)
      have hji : j ≠ i := by
        intro heq
        rw [heq, hinv.table.unused i hp] at hj
        omega
      exact ⟨j, (hold hji).trans hj⟩

/-- **One step** covers what the state before covers, if it is fresh; what is
lost stays lost. -/
theorem covered_step_iff (h : StackInv s) (hinv : TaskInv c.fuel s) {op : KernelOp}
    (hl : op.Legal s) (hstep : op.apply c s = some s') :
    Covered s' ↔ Covered s ∧ op.Fresh s := by
  have hinv' := hinv.step hl hstep
  rcases hinv.step_cases hstep with ⟨hs, hfail⟩ | ⟨entry, pageDir, isUser, i, b, t, hop, hnew, hk⟩
  · have hfresh : op.Fresh s := by
      cases op with
      | create entry pageDir isUser =>
        intro i hi
        rcases hfail entry pageDir isUser rfl with hnone | hfull
        · exact absurd (hnone.symm.trans hi) (by simp)
        · exact Or.inr hfull
      | _ => trivial
    have hsame : Covered s' ↔ Covered s := by
      unfold Covered
      rw [hs.kstacks]
      constructor
      · intro hcov b hb _
        obtain ⟨i, hi⟩ := hcov b hb (hinv'.table.used b (hs.kstacks ▸ hb))
        exact ⟨i, (hs.kstack i).symm.trans hi⟩
      · intro hcov b hb _
        obtain ⟨i, hi⟩ := hcov b hb (hinv.table.used b hb)
        exact ⟨i, (hs.kstack i).trans hi⟩
    exact hsame.trans (and_iff_left hfresh).symm
  · rw [covered_created_iff h hinv hinv' hnew hk, hop]
    refine and_congr_right fun _ => ⟨fun hp j hj => ?_, fun hfresh => ?_⟩
    · rw [hnew.slot] at hj
      cases hj
      exact Or.inl hp
    · exact (hfresh i hnew.slot).resolve_right hnew.free.count_ne_zero

theorem covered_run_iff : ∀ (ops : List KernelOp) {s s' : Trace}, StackInv s → TaskInv c.fuel s →
    LegalKernelRun c s ops → kernelRun c s ops = some s' →
    (Covered s' ↔ Covered s ∧ FreshRun c s ops) := by
  intro ops
  induction ops with
  | nil =>
    intro s s' _ _ _ hrun
    cases hrun
    exact (and_iff_left trivial).symm
  | cons op ops ih =>
    intro s s' h hinv hl hrun
    obtain ⟨s₁, hstep, hrest⟩ := Option.bind_eq_some_iff.mp hrun
    have htail := ih (h.step hinv hstep) (hinv.step hl.1 hstep) (hl.2 s₁ hstep) hrest
    rw [htail, covered_step_iff h hinv hl.1 hstep, and_assoc]
    refine and_congr_right fun _ => and_congr_right fun _ => ⟨fun hf s₂ hs₂ => ?_, fun hf => hf s₁ hstep⟩
    rw [hstep] at hs₂
    cases hs₂
    exact hf

/-- Covered blocks are no more than the slots behind the boot task's. -/
theorem Covered.length_le (hcov : Covered s) (h : StackInv s) (hinv : TaskInv c.fuel s) :
    s.kstacks.length ≤ 31 := by
  have hnodup : (s.kstacks.map (· * 4096 + 4096)).Nodup :=
    hinv.table.nodup.map fun a b hab => by
      have heq : a * 4096 + 4096 = b * 4096 + 4096 := hab
      omega
  have hsub : s.kstacks.map (· * 4096 + 4096) ⊆
      ((List.finRange 32).drop 1).map fun i => (s.kernel.taskTable i).kstack := by
    intro x hx
    obtain ⟨b, hb, rfl⟩ := List.mem_map.mp hx
    obtain ⟨i, hi⟩ := hcov b hb (hinv.table.used b hb)
    have hi0 : i ≠ 0 := by
      intro h0
      rw [h0, h.boot] at hi
      omega
    refine List.mem_map.mpr ⟨i, ?_, hi⟩
    revert hi0
    exact (by decide : ∀ i : Slot, i ≠ 0 → i ∈ (List.finRange 32).drop 1) i
  have hle := (List.subperm_of_subset hnodup hsub).length_le
  rw [List.length_map, List.length_map] at hle
  exact Nat.le_trans hle (by decide)

end Stacks

theorem stackInv_start (m : Machine) : StackInv (startTrace m) := by
  have hzero : ∀ i, ((schedulerInit m).taskTable i).kstack = 0 := by
    intro i
    by_cases hi : i = 0
    · rw [hi]
      rfl
    · rw [show (schedulerInit m).taskTable i = Task.zero from if_neg hi]
      rfl
  exact ⟨hzero 0, fun i _ hi => absurd (hzero i) hi⟩

/-- **No stack is lost if and only if no slot is taken twice.** In a state a
run reaches, every block obtained for a stack is the stack of some slot, and
31 such blocks at most are held, exactly if no `task_create` of the run
replaced an exited task. -/
theorem kernelRun_stacks_iff {c : Config} {m : Machine} {ops : List KernelOp} {s : Trace}
    (hb : Booted m) (hlegal : LegalKernelRun c (startTrace m) ops)
    (hrun : kernelRun c (startTrace m) ops = some s) :
    ((∀ b ∈ s.kstacks, InUse s.kernel.pmm b →
        ∃ i, (s.kernel.taskTable i).kstack = b * 4096 + 4096) ∧ s.kstacks.length ≤ 31) ↔
      FreshRun c (startTrace m) ops := by
  have hstart := taskInv_start hb c.fuel
  have hiff := covered_run_iff ops (stackInv_start m) hstart hlegal hrun
  have hempty : Covered (startTrace m) := fun b hb' => absurd hb' List.not_mem_nil
  rw [and_iff_right hempty] at hiff
  refine Iff.trans ⟨fun hcov => hcov.1, fun hcov => ⟨hcov, ?_⟩⟩ hiff
  have hinv := kernelRun_inv hb hlegal hrun
  exact Covered.length_le hcov (StackInv.run ops (stackInv_start m) hstart hlegal hrun) hinv

/-- Two tasks one after the other: the stack of the first is lost. -/
theorem kernelRun_loses_stack : ∃ s, kernelRun taskConfig (startTrace taskMachine)
      [.create 0x101000 0 false, .schedule 0x9000, .exit 0x101F00, .create 0x102000 0 false] = some s ∧
    256 ∈ s.kstacks ∧ InUse s.kernel.pmm 256 ∧
    ∀ i, (s.kernel.taskTable i).kstack ≠ 256 * 4096 + 4096 := by
  have hmap : (kernelRun taskConfig (startTrace taskMachine)
      [.create 0x101000 0 false, .schedule 0x9000, .exit 0x101F00, .create 0x102000 0 false]).map
      (fun s => decide (256 ∈ s.kstacks ∧ InUse s.kernel.pmm 256 ∧
        ∀ i, (s.kernel.taskTable i).kstack ≠ 256 * 4096 + 4096)) = some true := by decide +kernel
  obtain ⟨s, hrun, hs⟩ := Option.map_eq_some_iff.mp hmap
  exact ⟨s, hrun, of_decide_eq_true hs⟩

/-- Two tasks side by side. -/
theorem kernelRun_stacks_two : ∃ s, kernelRun taskConfig (startTrace taskMachine)
      [.create 0x101000 0 false, .create 0x102000 0 false] = some s ∧
    ∀ b ∈ s.kstacks, InUse s.kernel.pmm b →
      ∃ i, (s.kernel.taskTable i).kstack = b * 4096 + 4096 := by
  obtain ⟨s, hrun⟩ := Option.isSome_iff_exists.mp
    (show (kernelRun taskConfig (startTrace taskMachine)
      [.create 0x101000 0 false, .create 0x102000 0 false]).isSome by decide +kernel)
  refine ⟨s, hrun, ((kernelRun_stacks_iff taskMachine_booted
    (LegalKernelRun.of_calls _ _ rfl) hrun).mpr ⟨fun i hi => ?_, fun s₁ hs₁ =>
      ⟨fun i hi => ?_, fun _ _ => trivial⟩⟩).1⟩
  · have hi1 : i = 1 := Option.some.inj (hi.symm.trans (by decide +kernel))
    rw [hi1]
    exact Or.inl rfl
  · -- slot 1 is taken, slot 2 is not
    have hmap : ((KernelOp.create 0x101000 0 false).apply taskConfig (startTrace taskMachine)).map
        (fun s => (findSlot s.kernel.taskTable, (s.kernel.taskTable 2).pid)) = some (some 2, 0) := by
      decide +kernel
    rw [hs₁] at hmap
    obtain ⟨hslot, hpid⟩ := Prod.mk.inj (Option.some.inj hmap)
    have hi2 : i = 2 := Option.some.inj (hi.symm.trans hslot)
    rw [hi2]
    exact Or.inl hpid

end MyOS
