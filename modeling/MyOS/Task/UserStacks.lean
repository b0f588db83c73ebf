import MyOS.Task.Steps
import MyOS.Vmm.Family

/-!
# The user stacks of two tasks

Every user task maps its stack at the same virtual page, in the directory
`task_create` gave it. Whether two tasks end up with stacks of their own
depends on that directory and on the allocator, which `task_user_bootstrap`
does not check: with no frame left the stack is mapped to frame 0, and two
tasks with one directory, or with one page table for that page, have one
stack, the one mapped last.

`userStacks_private_iff` says that these are the only ways to fail. The
second bootstrap is a mapping under the second directory, so the first task's
page is looked up as before unless it is looked up in the same table
(`Family.lookup_mapped`).
-/

namespace MyOS

open Lib Lib.Mem Lib.Paging

/-- `pmm_alloc_block` has a block to give that is not block 0. -/
def Available (s : Pmm) : Prop := (∃ b, IsFree s b) ∧ ¬IsFree s 0

theorem pmmAllocBlock_ne_zero {s : Pmm} : (pmmAllocBlock s).1 ≠ 0 ↔ Available s := by
  rcases pmmAllocBlock_cases s with ⟨b, hb, hclear, hmin, he⟩ | ⟨hall, he⟩
  · rw [he]
    constructor
    · intro h0
      refine ⟨⟨b, hb, hclear⟩, fun hfree => ?_⟩
      -- the first free block is not block 0
      have hpos : 0 < b := Nat.pos_of_ne_zero fun hb0 => h0 (by rw [hb0])
      exact absurd ((hmin 0 hpos).symm.trans hfree.2) (by simp)
    · intro hav h0
      have hb0 : b = 0 := by
        dsimp only at h0
        omega
      exact hav.2 (hb0 ▸ ⟨hb, hclear⟩)
  · rw [he]
    refine ⟨fun h0 => absurd rfl h0, fun hav => ?_⟩
    obtain ⟨c, hc, hclear⟩ := hav.1
    rw [hall c hc] at hclear
    exact absurd hclear (by simp)

/-- Slot `i` holds a user task made by `task_create` with paging on, and its
directory is `d`. -/
structure UserTask (k : Kernel) (i : Slot) (d : Nat) : Prop where
  made : ∃ sym fuel entry pageDir c c', taskCreate sym fuel entry pageDir true c = .ok (some i, c') ∧
    c.cr3 ≠ 0 ∧ (k.taskTable i).pageDirectory = (c'.taskTable i).pageDirectory
  dir : (k.taskTable i).pageDirectory = d

/-- Between the two bootstraps blocks are allocated, and the stack page under
`d` is not mapped again. -/
structure Meanwhile (d : Nat) (k k' : Kernel) : Prop where
  taken : ∃ l, Taken k.pmm l k'.pmm
  page : lookup k'.mem d ustackVirt = lookup k.mem d ustackVirt

/-- The stack page is two frames under the two directories, each in use and
the block that `pmm_alloc_block` gave the task's own bootstrap. The bootstraps
ran in `k₁` and `k₃`, and `k` is after both. -/
def PrivateStacks (k₁ k₃ k : Kernel) (dA dB : Nat) : Prop :=
  ∃ fA fB, fA ≠ fB ∧ fA ≠ 0 ∧ fB ≠ 0 ∧
    translate k.mem dA ustackVirt = some (fA * 4096) ∧
    translate k.mem dB ustackVirt = some (fB * 4096) ∧
    InUse k.pmm fA ∧ InUse k.pmm fB ∧
    (pmmAllocBlock k₁.pmm).1 = fA * 4096 ∧ (pmmAllocBlock k₃.pmm).1 = fB * 4096

theorem UserTask.dir_ne_zero {k : Kernel} {i : Slot} {d : Nat} (h : UserTask k i d) : d ≠ 0 := by
  obtain ⟨sym, fuel, entry, pageDir, c, c', hcreate, hcr3, hdir⟩ := h.made
  rcases taskCreate_runs hcreate with ⟨hr, -⟩ | ⟨hr, -⟩ | ⟨i', b, m, hr, hm⟩
  · exact absurd hr (by simp)
  · exact absurd hr (by simp)
  · cases hr
    have hnew : (c'.taskTable i).pageDirectory = if pageDir ≠ 0 then pageDir else c.cr3 :=
      congrArg Task.pageDirectory hm.new
    rw [← h.dir, hdir, hnew]
    split
    next h0 => exact h0
    next => exact hcr3

/-! ## One bootstrap -/

/-- The entry it writes. -/
def stackEntry (k : Kernel) : Nat :=
  (pmmAllocBlock k.pmm).1 ||| (flagPresent ||| flagWrite ||| flagUser)

theorem stackEntry_eq (k : Kernel) : stackEntry k = (pmmAllocBlock k.pmm).1 + 7 := by
  obtain ⟨b, -, hb⟩ := pmmAllocBlock_addr k.pmm
  refine or_flags ?_ (by decide)
  rw [hb]
  exact Nat.mul_mod_left b 4096

/-- `task_user_bootstrap` of a task in a sound directory: a block is taken,
then the page is mapped. -/
theorem taskUserBootstrap_mapped {k k' : Kernel} {i : Slot} {d : Nat}
    (hcur : k.currentTask = some i) (hdir : (k.taskTable i).pageDirectory = d) (h0 : d ≠ 0)
    (hok : DirOk k.toMachine d) (h : taskUserBootstrap k = .ok k') :
    ∃ ts m m', m.mem = k.mem ∧ m.pmm = (pmmAllocBlock k.pmm).2 ∧
      Mapped d ustackVirt (stackEntry k) ts m m' ∧ k'.mem = m'.mem ∧ k'.pmm = m'.pmm := by
  obtain ⟨m, m', hmem, hpmm, hcpd, -, hmap, rfl⟩ := taskUserBootstrap_runs hcur h
  have hboot : bootDir k i = d := by
    unfold bootDir
    rw [hdir, if_pos h0]
  rw [hboot] at hcpd
  obtain ⟨l, hl⟩ := pmmAllocBlock_takes k.pmm
  have hok' : DirOk m m.currentPageDirectory := by
    unfold DirOk
    rw [hcpd, hmem, hpmm]
    exact hok.mono fun b hb => hl.inUse_iff.mpr (Or.inl hb)
  have hlt : stackEntry k < 2 ^ 32 := by
    obtain ⟨b, hlt, hb⟩ := pmmAllocBlock_addr k.pmm
    rw [stackEntry_eq, hb]
    omega
  have hu : ustackVirt < 2 ^ 32 := by decide
  rcases vmmMapPage_cases hok' hu hlt with ⟨ts, m'', hrun, hm⟩ | ⟨-, -, herr⟩
  · rw [hrun] at hmap
    cases hmap
    rw [hcpd] at hm
    exact ⟨ts, m, m', hmem, hpmm, hm, rfl, rfl⟩
  · rw [herr] at hmap
    exact absurd hmap (by simp)

/-- The page translates to the block the bootstrap took, or to frame 0. -/
theorem translate_stackEntry {m : Mem} {d : Nat} {k : Kernel}
    (h : lookup m d ustackVirt = stackEntry k) :
    translate m d ustackVirt = some (pmmAllocBlock k.pmm).1 := by
  obtain ⟨b, -, hb⟩ := pmmAllocBlock_addr k.pmm
  rw [stackEntry_eq, hb] at h
  have hoff : ustackVirt % 4096 = 0 := by decide
  rw [translate_of_lookup h, hb, hoff, Nat.add_zero]

/-! ## Two bootstraps -/

section Two

variable {k₁ k₂ k₃ k₄ : Kernel} {i j : Slot} {dA dB : Nat}

/-- What the two pages are in the end. -/
theorem bootstraps_lookup (hA : UserTask k₁ i dA) (hB : UserTask k₃ j dB)
    (hi : k₁.currentTask = some i) (hj : k₃.currentTask = some j) (hokA : DirOk k₁.toMachine dA)
    (hfam : Family (InUse k₃.pmm) k₃.mem [dA, dB]) (h₁ : taskUserBootstrap k₁ = .ok k₂)
    (hmid : Meanwhile dA k₂ k₃) (h₃ : taskUserBootstrap k₃ = .ok k₄) :
    lookup k₄.mem dB ustackVirt = stackEntry k₃ ∧
    (dA = dB ∨ SharesTable k₃.mem dA dB (pdIndex ustackVirt) →
      lookup k₄.mem dA ustackVirt = stackEntry k₃) ∧
    (¬(dA = dB ∨ SharesTable k₃.mem dA dB (pdIndex ustackVirt)) →
      lookup k₄.mem dA ustackVirt = stackEntry k₁) := by
  have hu : ustackVirt < 2 ^ 32 := by decide
  have hmemA : dA ∈ [dA, dB] := List.mem_cons_self
  have hmemB : dB ∈ [dA, dB] := List.mem_cons_of_mem _ List.mem_cons_self
  obtain ⟨ts, m, m', -, -, hm, hk₂, -⟩ := taskUserBootstrap_mapped hi hA.dir hA.dir_ne_zero hokA h₁
  obtain ⟨ts', n, n', hn, hnp, hm', hk₄, -⟩ :=
    taskUserBootstrap_mapped hj hB.dir hB.dir_ne_zero (hfam.sep hmemB) h₃
  have hfirst : lookup k₃.mem dA ustackVirt = stackEntry k₁ := by
    rw [hmid.page, hk₂, hm.lookup_eq _ hu, if_pos rfl]
  have hfam' : Family (InUse n.pmm) n.mem [dA, dB] := by
    obtain ⟨l, hl⟩ := pmmAllocBlock_takes k₃.pmm
    rw [hn, hnp]
    exact hfam.mono fun b hb => hl.inUse_iff.mpr (Or.inl hb)
  have hlast : lookup n'.mem dB ustackVirt = stackEntry k₃ := by
    rw [hm'.lookup_eq _ hu, if_pos rfl]
  rw [hk₄]
  refine ⟨hlast, fun hsame => ?_, fun hsep => ?_⟩
  · rcases hsame with heq | hs
    · rw [heq]
      exact hlast
    · exact hfam'.lookup_shared hmemB hu hm' hmemA (by rw [hn]; exact hs)
  · rcases hfam'.lookup_mapped hmemB hu hm' hmemA hu with hold | ⟨-, -, hs⟩
    · rw [hold, hn, hfirst]
    · rw [hn] at hs
      exact absurd hs hsep

/-- **User stacks are private** exactly if the allocator has a block at each
bootstrap and the directories neither are one nor have one table for the
stack page. -/
theorem userStacks_private_iff (hA : UserTask k₁ i dA) (hB : UserTask k₃ j dB)
    (hi : k₁.currentTask = some i) (hj : k₃.currentTask = some j) (hokA : DirOk k₁.toMachine dA)
    (hfam : Family (InUse k₃.pmm) k₃.mem [dA, dB]) (h₁ : taskUserBootstrap k₁ = .ok k₂)
    (hmid : Meanwhile dA k₂ k₃) (h₃ : taskUserBootstrap k₃ = .ok k₄) :
    PrivateStacks k₁ k₃ k₄ dA dB ↔
      Available k₁.pmm ∧ Available k₃.pmm ∧ dA ≠ dB ∧
        ¬SharesTable k₃.mem dA dB (pdIndex ustackVirt) := by
  obtain ⟨hlast, hsame, hsep⟩ := bootstraps_lookup hA hB hi hj hokA hfam h₁ hmid h₃
  rw [← pmmAllocBlock_ne_zero, ← pmmAllocBlock_ne_zero]
  constructor
  · rintro ⟨fA, fB, hne, hfA, hfB, htrA, htrB, -, -, haA, haB⟩
    have hdiff : ¬(dA = dB ∨ SharesTable k₃.mem dA dB (pdIndex ustackVirt)) := by
      -- otherwise both pages are the second bootstrap's frame
      intro hs
      have htr := translate_stackEntry (hsame hs)
      rw [htrA, haB] at htr
      have hmul := Option.some.inj htr
      omega
    refine ⟨by rw [haA]; omega, by rw [haB]; omega, fun h => hdiff (Or.inl h),
      fun h => hdiff (Or.inr h)⟩
  · rintro ⟨hav, hav', hne, hshare⟩
    have hlookA := hsep fun h => h.elim hne hshare
    obtain ⟨fA, hfA, -, haA, htA⟩ := pmmAllocBlock_taken hav
    obtain ⟨fB, hfB, hfreeB, haB, htB⟩ := pmmAllocBlock_taken hav'
    obtain ⟨ts, m, m', -, hmp, hm, -, hk₂⟩ :=
      taskUserBootstrap_mapped hi hA.dir hA.dir_ne_zero hokA h₁
    obtain ⟨ts', n, n', -, hnp, hm', -, hk₄⟩ := taskUserBootstrap_mapped hj hB.dir hB.dir_ne_zero
      (hfam.sep (List.mem_cons_of_mem _ List.mem_cons_self)) h₃
    obtain ⟨l, hl⟩ := hmid.taken
    -- the first block is in use when the second is taken
    have hused₂ : InUse k₂.pmm fA := by
      rw [hk₂]
      refine hm.taken.inUse_iff.mpr (Or.inl ?_)
      rw [hmp]
      exact htA.inUse_iff.mpr (Or.inr List.mem_cons_self)
    have hused₃ : InUse k₃.pmm fA := hl.inUse_iff.mpr (Or.inl hused₂)
    have hup : ∀ {b}, InUse n.pmm b → InUse k₄.pmm b := fun hb => by
      rw [hk₄]
      exact hm'.taken.inUse_iff.mpr (Or.inl hb)
    refine ⟨fA, fB, fun heq => hfreeB.not_inUse (heq ▸ hused₃), hfA, hfB, ?_, ?_, hup ?_, hup ?_,
      haA, haB⟩
    · rw [translate_stackEntry hlookA, haA]
    · rw [translate_stackEntry hlast, haB]
    · rw [hnp]
      exact htB.inUse_iff.mpr (Or.inl hused₃)
    · rw [hnp]
      exact htB.inUse_iff.mpr (Or.inr List.mem_cons_self)

end Two

/-! ## One directory, one stack -/

/-- Tasks with one directory see one frame. -/
theorem not_privateStacks_self (k₁ k₃ k : Kernel) (d : Nat) : ¬PrivateStacks k₁ k₃ k d d := by
  rintro ⟨fA, fB, hne, -, -, hA, hB, -⟩
  rw [hA] at hB
  have := Option.some.inj hB
  omega

def bootSym : Symbols := ⟨0x100000, 0x100100, 0x100200⟩

/-- 44 free blocks behind the first 256, and the boot task. -/
def bootKernel : Kernel := schedulerInit (demoMachine 300 demo_total fun _ => 0)

/-- Two user tasks are made, then each is scheduled and runs its bootstrap. -/
def bootTwo (pageDir : Nat) (k : Kernel) :
    Option ((Option Slot × Kernel) × (Option Slot × Kernel) × Kernel × Kernel × Kernel × Kernel) :=
  (taskCreate bootSym 40 0x400000 pageDir true k).toOption.bind fun a =>
  (taskCreate bootSym 40 0x500000 pageDir true a.2).toOption.bind fun b =>
  (schedule 40 0 b.2).bind fun k₁ =>
  (taskUserBootstrap k₁).toOption.bind fun k₂ =>
  (schedule 40 0 k₂).bind fun k₃ =>
  (taskUserBootstrap k₃).toOption.map fun k₄ => (a, b, k₁, k₂, k₃, k₄)

/-- Two tasks made with `page_dir = 0` run in the kernel's directory, and
their stack pages are one frame. -/
theorem userStacks_one_directory : ∃ a b k₁ k₂ k₃ k₄,
    taskCreate bootSym 40 0x400000 0 true bootKernel = .ok (some 1, a) ∧
    taskCreate bootSym 40 0x500000 0 true a = .ok (some 2, b) ∧
    schedule 40 0 b = some k₁ ∧ k₁.currentTask = some 1 ∧ taskUserBootstrap k₁ = .ok k₂ ∧
    schedule 40 0 k₂ = some k₃ ∧ k₃.currentTask = some 2 ∧ taskUserBootstrap k₃ = .ok k₄ ∧
    ¬PrivateStacks k₁ k₃ k₄ (k₁.taskTable 1).pageDirectory (k₃.taskTable 2).pageDirectory := by
  have hrun : (bootTwo 0 bootKernel).any (fun r => decide (r.1.1 = some 1 ∧ r.2.1.1 = some 2 ∧
      r.2.2.1.currentTask = some 1 ∧ r.2.2.2.2.1.currentTask = some 2 ∧
      (r.2.2.1.taskTable 1).pageDirectory = 255 * 4096 ∧
      (r.2.2.2.2.1.taskTable 2).pageDirectory = 255 * 4096)) = true := by decide +kernel
  obtain ⟨r, hr, hcheck⟩ := (Option.any_eq_true _ _).mp hrun
  obtain ⟨a, ha, hr⟩ := Option.bind_eq_some_iff.mp hr
  obtain ⟨b, hb, hr⟩ := Option.bind_eq_some_iff.mp hr
  obtain ⟨k₁, hs₁, hr⟩ := Option.bind_eq_some_iff.mp hr
  obtain ⟨k₂, hk₂, hr⟩ := Option.bind_eq_some_iff.mp hr
  obtain ⟨k₃, hs₃, hr⟩ := Option.bind_eq_some_iff.mp hr
  obtain ⟨k₄, hk₄, rfl⟩ := Option.map_eq_some_iff.mp hr
  obtain ⟨hslotA, hslotB, hcurA, hcurB, hdirA, hdirB⟩ := of_decide_eq_true hcheck
  dsimp only at hslotA hslotB hcurA hcurB hdirA hdirB
  refine ⟨a.2, b.2, k₁, k₂, k₃, k₄, ?_, ?_, hs₁, hcurA, toOption_eq_some hk₂, hs₃, hcurB,
    toOption_eq_some hk₄, ?_⟩
  · rw [← hslotA]
    exact toOption_eq_some ha
  · rw [← hslotB]
    exact toOption_eq_some hb
  · rw [hdirA, hdirB]
    exact not_privateStacks_self k₁ k₃ k₄ _

/-! ## Two directories, two stacks -/

/-- The tasks in slots 1 and 2 have the empty directories in blocks 253 and
254. -/
def ownKernel : Kernel :=
  { bootKernel with
    taskTable := fun i =>
      if i = 1 then { Task.zero with pid := 2, state := .running, pageDirectory := 253 * 4096 }
      else if i = 2 then { Task.zero with pid := 3, state := .ready, pageDirectory := 254 * 4096 }
      else Task.zero
    currentTask := some 1 }

/-- The directory `task_create` gives a task, where it was given one. -/
theorem userTask_of_create {k c : Kernel} {i : Slot} {d : Nat} (h0 : d ≠ 0) (hcr3 : c.cr3 ≠ 0)
    (hdir : (k.taskTable i).pageDirectory = d)
    (h : ((taskCreate bootSym 40 0x400000 d true c).toOption.any
      fun r => decide (r.1 = some i)) = true) : UserTask k i d := by
  obtain ⟨⟨r, c'⟩, hr, hslot⟩ := (Option.any_eq_true _ _).mp h
  have hslot : r = some i := of_decide_eq_true hslot
  subst hslot
  have hcreate := toOption_eq_some hr
  refine ⟨⟨bootSym, 40, 0x400000, d, c, c', hcreate, hcr3, ?_⟩, hdir⟩
  rcases taskCreate_runs hcreate with ⟨hr, -⟩ | ⟨hr, -⟩ | ⟨i', b, m, hr, hm⟩
  · exact absurd hr (by simp)
  · exact absurd hr (by simp)
  · cases hr
    have hnew : (c'.taskTable i).pageDirectory = if d ≠ 0 then d else c.cr3 :=
      congrArg Task.pageDirectory hm.new
    rw [hdir, hnew, if_pos h0]

/-- Two empty directories in blocks in use. -/
theorem ownKernel_family :
    Family (InUse ownKernel.pmm) ownKernel.mem [253 * 4096, 254 * 4096] := by
  have hzero : ∀ d i, pde ownKernel.mem d i = 0 := fun d i => by
    show rd32 (fun _ => 0) (d + 4 * i) = 0
    simp [rd32]
  have habs : ∀ {d i}, ¬Present (pde ownKernel.mem d i) := fun {d i} hp => by
    rw [hzero] at hp
    exact not_present_zero hp
  refine ⟨fun d hd => ⟨?_, ?_, fun i _ hp => absurd hp habs⟩, fun d _ i _ hp => absurd hp habs,
    fun d _ i _ hp => absurd hp habs⟩
  · rcases List.mem_cons.mp hd with rfl | hd
    · decide
    · rw [List.mem_singleton.mp hd]
  · rcases List.mem_cons.mp hd with rfl | hd
    · decide +kernel
    · rw [List.mem_singleton.mp hd]
      decide +kernel

/-- The first task runs its bootstrap, the second is scheduled and runs its
own: two frames. -/
theorem userStacks_two_directories : ∃ k₂ k₄,
    taskUserBootstrap ownKernel = .ok k₂ ∧
    taskUserBootstrap { k₂ with currentTask := some 2 } = .ok k₄ ∧
    PrivateStacks ownKernel { k₂ with currentTask := some 2 } k₄ (253 * 4096) (254 * 4096) := by
  have hrun : ((taskUserBootstrap ownKernel).toOption.bind fun k₂ =>
      (taskUserBootstrap { k₂ with currentTask := some 2 }).toOption.map fun k₄ => (k₂, k₄)).any
      (fun r => decide ((pmmAllocBlock r.1.pmm).1 ≠ 0 ∧
        ¬SharesTable r.1.mem (253 * 4096) (254 * 4096) (pdIndex ustackVirt))) = true := by
    decide +kernel
  obtain ⟨r, hr, hcheck⟩ := (Option.any_eq_true _ _).mp hrun
  obtain ⟨k₂, hk₂, hr⟩ := Option.bind_eq_some_iff.mp hr
  obtain ⟨k₄, hk₄, rfl⟩ := Option.map_eq_some_iff.mp hr
  obtain ⟨hav, hshare⟩ := of_decide_eq_true hcheck
  have h₁ := toOption_eq_some hk₂
  have h₃ := toOption_eq_some hk₄
  have hA : UserTask ownKernel 1 (253 * 4096) :=
    userTask_of_create (c := bootKernel) (by decide) (by decide) rfl (by decide +kernel)
  have hokA : DirOk ownKernel.toMachine (253 * 4096) := ownKernel_family.sep List.mem_cons_self
  -- the first bootstrap keeps the task table and the two directories sound
  obtain ⟨ts, m, m', hmem, hpmm, hm, hk₂m, hk₂p⟩ :=
    taskUserBootstrap_mapped rfl rfl hA.dir_ne_zero hokA h₁
  have hcur : ownKernel.currentTask = some 1 := rfl
  obtain ⟨n, n', -, -, -, -, -, hk₂eq⟩ := taskUserBootstrap_runs hcur h₁
  have hdirB : (k₂.taskTable 2).pageDirectory = 254 * 4096 := by
    rw [hk₂eq]
    rfl
  have hB : UserTask { k₂ with currentTask := some 2 } 2 (254 * 4096) :=
    userTask_of_create
      (c := { bootKernel with taskTable := Function.update ownKernel.taskTable 2 Task.zero })
      (by decide) (by decide) hdirB (by decide +kernel)
  have hfam : Family (InUse k₂.pmm) k₂.mem [253 * 4096, 254 * 4096] := by
    obtain ⟨l, hl⟩ := pmmAllocBlock_takes ownKernel.pmm
    have hold : Family (InUse m.pmm) m.mem [253 * 4096, 254 * 4096] := by
      rw [hmem, hpmm]
      exact ownKernel_family.mono fun b hb => hl.inUse_iff.mpr (Or.inl hb)
    rw [hk₂m, hk₂p]
    exact hold.mapped List.mem_cons_self (by decide) hm
  have hmid : Meanwhile (253 * 4096) k₂ { k₂ with currentTask := some 2 } :=
    ⟨⟨[], Taken.refl _⟩, rfl⟩
  refine ⟨k₂, k₄, h₁, h₃, (userStacks_private_iff hA hB rfl rfl hokA hfam h₁ hmid h₃).mpr
    ⟨?_, ?_, by decide, hshare⟩⟩
  · exact pmmAllocBlock_ne_zero.mp (by decide +kernel)
  · exact pmmAllocBlock_ne_zero.mp hav

end MyOS
