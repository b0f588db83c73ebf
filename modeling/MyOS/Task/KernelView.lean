import MyOS.Elf.Isolation
import MyOS.Elf.Shared
import MyOS.Task.Steps

/-!
# All address spaces share the kernel's view of RAM

`switch_task` loads the next task's directory into CR3 and then pops that
task's stack. This works because a kernel stack is mapped alike under every
directory, and nothing in the code says so: `task_create` maps the stack only
under the directory that happens to be active. It follows from how
directories come about (`Vmm.View`).

`Shared` is the kernel with the directories there are and the kernel stacks
mapped so far. A run is any sequence of the calls that touch page tables,
each made under whichever directory is active, with faults and other code in
between. `SharedInv` holds along every such run, and `kernelView_shared` is
read off it.

Mirroring notes vs the C:
- A directory is there from the `vmm_init` or `elf_load` that made it; a load
  that fails frees its own. A kernel stack is followed until its page is
  mapped or unmapped by an explicit call, the one for the user stack in
  `task_user_bootstrap` included.
- `other` is all code that neither writes a directory or a page table nor
  frees one: task switches to a task with a directory (`otherCode_switched`),
  stores of programs and of the kernel, allocations. If RAM has been
  remapped, the clearing of a new stack, which comes before its mapping, goes
  to another block: then that is a store of this kind.
- A page fault is raised for an address whose page is not present, or it is a
  protection fault and the handler halts.
-/

namespace MyOS

open Lib Lib.Mem Lib.Paging

structure Shared where
  k : Kernel
  dirs : List Nat
  kstacks : List Nat

/-- What other code may do: it leaves the directories and their tables alone
and in use, runs under one of the directories and gives no task another
one. -/
structure OtherCode (s : Shared) (k' : Kernel) : Prop where
  mem : ∀ x, FamilyFrame s.k.mem s.dirs (x / 4096) → k'.mem x = s.k.mem x
  used : ∀ b, FamilyFrame s.k.mem s.dirs b → InUse k'.pmm b
  total : k'.pmm.totalBlocks = s.k.pmm.totalBlocks
  active : k'.currentPageDirectory ∈ s.dirs
  cr3 : k'.cr3 = k'.currentPageDirectory
  tasks : ∀ i, (k'.taskTable i).pageDirectory = 0 ∨ (k'.taskTable i).pageDirectory ∈ s.dirs

inductive SharedOp where
  | map (physAddr virtAddr flags : Nat)
  | unmap (virtAddr : Nat)
  | fault (address err : Nat)
  | load (path : List UInt8)
  | create (entry pageDir : Nat) (isUser : Bool)
  | bootstrap
  | other (k' : Kernel)

/-- The stacks that are still followed after the page `pg` was mapped anew. -/
def Shared.remapped (s : Shared) (pg : Nat) : List Nat := s.kstacks.filter (· ≠ pg)

/-- After `task_create`: the stack's block is the one below `kstack`. -/
def Shared.created (s : Shared) : Option Slot × Kernel → Shared
  | (none, k) => { s with k }
  | (some i, k) => { s with k, kstacks := ((k.taskTable i).kstack / 4096 - 1) :: s.kstacks }

namespace SharedOp

def apply (v : Vfs) (sym : Symbols) (fuel : Nat) (s : Shared) : SharedOp → Except Stuck Shared
  | map p a f => ((vmmMapPage p a f s.k.toMachine).map fun m =>
      { s with k := { s.k with toMachine := m }, kstacks := s.remapped (a / 4096) }).mapError .halt
  | unmap a => .ok { s with
      k := { s.k with toMachine := vmmUnmapPage a s.k.toMachine }
      kstacks := s.remapped (a / 4096) }
  | fault a err => ((pageFaultHandler a err s.k.toMachine).map fun m =>
      { s with k := { s.k with toMachine := m } }).mapError .halt
  | load path => ((elfLoad v path s.k.toMachine).map fun r =>
      { s with k := { s.k with toMachine := r.2 }, dirs := loadedDirs s.dirs r.1 }).mapError .halt
  | create entry pageDir isUser => (taskCreate sym fuel entry pageDir isUser s.k).map s.created
  | bootstrap => ((taskUserBootstrap s.k).map fun k =>
      { s with k, kstacks := s.remapped (ustackVirt / 4096) }).mapError .halt
  | other k' => .ok { s with k := k' }

/-- Arguments are 32-bit values, a fault is one the CPU raises, a loaded file
has segments that can be placed outside `ram` blocks of RAM, and a task is
given a directory that exists. -/
def Legal (v : Vfs) (ram : Nat) (s : Shared) : SharedOp → Prop
  | map p a f => p < 2 ^ 32 ∧ a < 2 ^ 32 ∧ f < 2 ^ 32
  | unmap a => a < 2 ^ 32
  | fault a err => a < 2 ^ 32 ∧ (err &&& 0x1 = 0 → translate s.k.mem s.k.cr3 a = none)
  | load path => SegmentsOk ram v path s.k.toMachine
  | create _ pageDir _ => pageDir = 0 ∨ pageDir ∈ s.dirs
  | bootstrap => True
  | other k' => OtherCode s k'

end SharedOp

def sharedRun (v : Vfs) (sym : Symbols) (fuel : Nat) (s : Shared) : List SharedOp → Except Stuck Shared
  | [] => .ok s
  | op :: ops => (op.apply v sym fuel s).bind fun s' => sharedRun v sym fuel s' ops

/-- Every step of the run is legal when it is made. -/
def LegalSharedRun (v : Vfs) (ram : Nat) (sym : Symbols) (fuel : Nat) (s : Shared) :
    List SharedOp → Prop
  | [] => True
  | op :: ops => op.Legal v ram s ∧
      ∀ s', op.apply v sym fuel s = .ok s' → LegalSharedRun v ram sym fuel s' ops

/-- What holds between any two steps: the view, and one of the directories is
active and each task's. -/
structure SharedInv (ram d₀ : Nat) (s : Shared) : Prop where
  view : View ram d₀ s.kstacks s.dirs s.k.toMachine
  total : s.k.pmm.totalBlocks = ram
  active : s.k.currentPageDirectory ∈ s.dirs
  cr3 : s.k.cr3 = s.k.currentPageDirectory
  tasks : ∀ i, (s.k.taskTable i).pageDirectory = 0 ∨ (s.k.taskTable i).pageDirectory ∈ s.dirs

/-! ## One step -/

section Steps

variable {ram d₀ : Nat} {s : Shared}

/-- A step of the machine that takes blocks at most and keeps the registers. -/
theorem SharedInv.grows (h : SharedInv ram d₀ s) {m : Machine} {S D : List Nat}
    (hg : Grows s.k.toMachine m) (hv : View ram d₀ S D m) (hD : ∀ d ∈ s.dirs, d ∈ D) :
    SharedInv ram d₀ ⟨{ s.k with toMachine := m }, D, S⟩ := by
  obtain ⟨l, ht⟩ := hg.taken
  refine ⟨hv, ht.total.trans h.total, ?_, ?_, fun i => (h.tasks i).imp id (hD _)⟩
  · show m.currentPageDirectory ∈ D
    rw [hg.cur]
    exact hD _ h.active
  · show m.cr3 = m.currentPageDirectory
    rw [hg.cr3, hg.cur]
    exact h.cr3

theorem not_mem_remapped (s : Shared) (pg : Nat) : pg ∉ s.remapped pg := fun hmem =>
  absurd rfl (of_decide_eq_true (List.mem_filter.mp hmem).2)

/-- The page is not followed any more. -/
theorem SharedInv.remap (h : SharedInv ram d₀ s) (pg : Nat) :
    View ram d₀ (s.remapped pg) s.dirs s.k.toMachine :=
  h.view.fewer fun _ hb => (List.mem_filter.mp hb).1

theorem SharedInv.map (h : SharedInv ram d₀ s) {p a f : Nat} {m : Machine}
    (hp : p < 2 ^ 32) (ha : a < 2 ^ 32) (hf : f < 2 ^ 32)
    (hrun : vmmMapPage p a f s.k.toMachine = .ok m) :
    SharedInv ram d₀ ⟨{ s.k with toMachine := m }, s.dirs, s.remapped (a / 4096)⟩ := by
  obtain ⟨ts, hm⟩ := h.view.map_runs rfl h.active ha (Nat.or_lt_two_pow hp hf) hrun
  exact h.grows (vmmMapPage_quiet hrun).toGrows
    ((h.remap (a / 4096)).mapped h.active ha hm (not_mem_remapped s _)) fun _ hd => hd

theorem SharedInv.unmap (h : SharedInv ram d₀ s) {a : Nat} (ha : a < 2 ^ 32) :
    SharedInv ram d₀
      ⟨{ s.k with toMachine := vmmUnmapPage a s.k.toMachine }, s.dirs, s.remapped (a / 4096)⟩ := by
  by_cases hp : Present (pde s.k.mem s.k.currentPageDirectory (pdIndex a))
  · have hm := vmmUnmapPage_mapped (h.view.family.sep h.active) ha hp
    refine h.grows ⟨⟨_, hm.taken⟩, ?_, ?_, ?_⟩
      ((h.remap (a / 4096)).mapped h.active ha hm (not_mem_remapped s _)) fun _ hd => hd
    all_goals rw [hm.regs]
  · have hsame : vmmUnmapPage a s.k.toMachine = s.k.toMachine := if_neg hp
    rw [hsame]
    exact h.grows (Grows.refl _) (h.remap (a / 4096)) fun _ hd => hd

theorem SharedInv.loading (h : SharedInv ram d₀ s) :
    Loading ram d₀ s.kstacks s.dirs s.k.currentPageDirectory [] [] s.k.toMachine :=
  ⟨h.view, h.active, ⟨rfl, h.cr3⟩, fun _ he => absurd he List.not_mem_nil,
    fun _ hx => absurd hx List.not_mem_nil⟩

theorem SharedInv.fault (h : SharedInv ram d₀ s) {a err : Nat} {m : Machine} (ha : a < 2 ^ 32)
    (habs : err &&& 0x1 = 0 → translate s.k.mem s.k.cr3 a = none)
    (hrun : pageFaultHandler a err s.k.toMachine = .ok m) :
    SharedInv ram d₀ ⟨{ s.k with toMachine := m }, s.dirs, s.kstacks⟩ := by
  have herr : err &&& 0x1 = 0 := by
    by_contra hne
    unfold pageFaultHandler at hrun
    rw [if_neg fun hc => hne hc.1] at hrun
    exact absurd hrun (by simp)
  have habs' := habs herr
  rw [h.cr3] at habs'
  exact h.grows (pageFaultHandler_quiet hrun).toGrows (h.loading.fault ha habs' hrun).view fun _ hd => hd

theorem SharedInv.load (h : SharedInv ram d₀ s) {v : Vfs} {path : List UInt8} {r : ElfResult}
    {m : Machine} (hok : SegmentsOk ram v path s.k.toMachine)
    (hrun : elfLoad v path s.k.toMachine = .ok (r, m)) :
    SharedInv ram d₀ ⟨{ s.k with toMachine := m }, loadedDirs s.dirs r, s.kstacks⟩ := by
  refine h.grows (elfLoad_grows h.cr3 hrun) (elfLoad_shared h.view h.active h.cr3 hok hrun)
    fun d hd => ?_
  match r with
  | .ok (_, _) => exact List.mem_cons_of_mem _ hd
  | .error _ => exact hd

/-! ### `task_create` -/

/-- The initial frame is the last 28 bytes of the stack. -/
theorem initialFrame_of_outside {sym : Symbols} {entry K x : Nat} {isUser : Bool} (m : Mem)
    (hK : 28 ≤ K) (hx : x < K - 28 ∨ K ≤ x) : initialFrame sym entry isUser K m x = m x := by
  unfold initialFrame
  rw [wr32_of_outside _ _ (by omega), wr32_of_outside _ _ (by omega), wr32_of_outside _ _ (by omega),
    wr32_of_outside _ _ (by omega), wr32_of_outside _ _ (by omega), wr32_of_outside _ _ (by omega),
    wr32_of_outside _ _ (by omega)]

/-- The stack's block is data from its allocation on, so clearing and filling
it does not matter, and its mapping is one of a page of RAM. -/
theorem SharedInv.made (h : SharedInv ram d₀ s) {sym : Symbols} {fuel entry pageDir b : Nat}
    {isUser : Bool} {i : Slot} {m : Machine} {k' : Kernel}
    (hm : Made sym fuel entry pageDir isUser i b m s.k k') :
    View ram d₀ (b :: s.kstacks) s.dirs k'.toMachine := by
  have hlt := hm.free.lt
  have hb : b < ram := h.total ▸ hm.free.1
  have hva : View ram d₀ s.kstacks s.dirs { s.k.toMachine with pmm := (pmmAllocBlock s.k.pmm).2 } :=
    h.view.taken hm.taken rfl
  have hda := isData_fresh h.view.family hm.taken
  have hclear := hda.agrees (m := s.k.mem.memset (b * 4096) 0 4096) fun x hx =>
    memset_of_outside _ _ (by omega)
  have hvb : View ram d₀ s.kstacks s.dirs { s.k.toMachine with
      intFlag := false
      pmm := (pmmAllocBlock s.k.pmm).2
      mem := s.k.mem.memset (b * 4096) 0 4096 } :=
    hva.congr hclear fun _ hf => hva.family.frame_used hf
  have hdb : IsData s.dirs { s.k.toMachine with
      intFlag := false
      pmm := (pmmAllocBlock s.k.pmm).2
      mem := s.k.mem.memset (b * 4096) 0 4096 } b :=
    hda.congr (fun _ hd _ hi => hva.family.pde_congr hclear hd hi) id
  have hflags : b * 4096 ||| (flagPresent ||| flagWrite) = b * 4096 + 3 :=
    or_flags (by omega) (by decide)
  obtain ⟨ts, hmap⟩ := hvb.map_runs rfl h.active (by omega) (by rw [hflags]; omega) hm.map
  have hdc := hdb.mapped hvb.family h.active (by omega) hmap
  rw [hflags] at hmap
  have hvc := hvb.kstack hb h.active hmap
  rw [hm.machine]
  refine hvc.congr (hdc.agrees fun x hx => ?_) fun _ hf => hvc.family.frame_used hf
  exact initialFrame_of_outside _ (by omega) (by omega)

theorem SharedInv.create (h : SharedInv ram d₀ s) {sym : Symbols} {fuel entry pageDir : Nat}
    {isUser : Bool} {r : Option Slot} {k' : Kernel} (hdir : pageDir = 0 ∨ pageDir ∈ s.dirs)
    (hrun : taskCreate sym fuel entry pageDir isUser s.k = .ok (r, k')) :
    SharedInv ram d₀ (s.created (r, k')) := by
  rcases taskCreate_runs hrun with ⟨rfl, -, rfl⟩ | ⟨rfl, -, rfl⟩ | ⟨i, b, m, rfl, hm⟩
  · have hv : View ram d₀ s.kstacks s.dirs { s.k.toMachine with intFlag := false } :=
      h.view.congr (fun _ _ => rfl) fun _ hf => h.view.family.frame_used hf
    exact ⟨hv, h.total, h.active, h.cr3, h.tasks⟩
  · obtain ⟨l, ht⟩ := pmmAllocBlock_takes s.k.pmm
    have hv : View ram d₀ s.kstacks s.dirs { s.k.toMachine with
        intFlag := false
        pmm := (pmmAllocBlock s.k.pmm).2 } := h.view.taken ht rfl
    exact ⟨hv, ht.total.trans h.total, h.active, h.cr3, h.tasks⟩
  · have hg := (vmmMapPage_quiet hm.map).toGrows
    obtain ⟨l, ht⟩ := hg.taken
    have hblock : (k'.taskTable i).kstack / 4096 - 1 = b := by
      have hk : (k'.taskTable i).kstack = b * 4096 + 4096 := congrArg Task.kstack hm.new
      omega
    refine ⟨?_, ?_, ?_, ?_, fun j => ?_⟩
    · show View ram d₀ (((k'.taskTable i).kstack / 4096 - 1) :: s.kstacks) s.dirs k'.toMachine
      rw [hblock]
      exact h.made hm
    · show k'.pmm.totalBlocks = ram
      rw [hm.machine]
      exact ht.total.trans (hm.taken.total.trans h.total)
    · show k'.currentPageDirectory ∈ s.dirs
      rw [hm.machine]
      exact hg.cur.symm ▸ h.active
    · show k'.cr3 = k'.currentPageDirectory
      rw [hm.machine]
      exact hg.cr3.trans (h.cr3.trans hg.cur.symm)
    · show (k'.taskTable j).pageDirectory = 0 ∨ (k'.taskTable j).pageDirectory ∈ s.dirs
      by_cases hj : j = i
      · have hnew : (k'.taskTable i).pageDirectory = if pageDir ≠ 0 then pageDir else s.k.cr3 :=
          congrArg Task.pageDirectory hm.new
        rw [hj, hnew]
        split
        next => exact hdir
        next =>
          rw [h.cr3]
          exact Or.inr h.active
      · rw [hm.old hj]
        exact h.tasks j

/-! ### `task_user_bootstrap` and other code -/

/-- The directory the bootstrap changes to is one of ours. -/
theorem SharedInv.bootDir (h : SharedInv ram d₀ s) (cur : Slot) : bootDir s.k cur ∈ s.dirs := by
  unfold MyOS.bootDir
  split
  next h0 => exact (h.tasks cur).resolve_left h0
  next => exact h.active

theorem SharedInv.bootstrap (h : SharedInv ram d₀ s) {k' : Kernel}
    (hrun : taskUserBootstrap s.k = .ok k') :
    SharedInv ram d₀ ⟨k', s.dirs, s.remapped (ustackVirt / 4096)⟩ := by
  cases hcur : s.k.currentTask with
  | none =>
    unfold taskUserBootstrap at hrun
    rw [hcur, Option.elim_none] at hrun
    cases hrun
    exact ⟨h.remap _, h.total, h.active, h.cr3, h.tasks⟩
  | some cur =>
    obtain ⟨m, m', hmem, hpmm, hcpd, hcr3, hmap, rfl⟩ := taskUserBootstrap_runs hcur hrun
    obtain ⟨l, ht⟩ := pmmAllocBlock_takes s.k.pmm
    have hv : View ram d₀ (s.remapped (ustackVirt / 4096)) s.dirs m :=
      (h.remap _).taken (hpmm ▸ ht) hmem
    have hlt : (pmmAllocBlock s.k.pmm).1 ||| (flagPresent ||| flagWrite ||| flagUser) < 2 ^ 32 := by
      obtain ⟨b, hb, haddr⟩ := pmmAllocBlock_addr s.k.pmm
      refine Nat.or_lt_two_pow ?_ (by decide)
      rw [haddr]
      omega
    obtain ⟨ts, hm⟩ := hv.map_runs hcpd (h.bootDir cur) (by decide) hlt hmap
    have hv' := hv.mapped (h.bootDir cur) (by decide) hm (not_mem_remapped s _)
    have hg := (vmmMapPage_quiet hmap).toGrows
    refine ⟨hv'.congr (fun _ _ => rfl) fun _ hf => hv'.family.frame_used hf, ?_, ?_, ?_, h.tasks⟩
    · show m'.pmm.totalBlocks = ram
      rw [hm.taken.total, hpmm, ht.total]
      exact h.total
    · show m'.currentPageDirectory ∈ s.dirs
      rw [hg.cur, hcpd]
      exact h.bootDir cur
    · show m'.cr3 = m'.currentPageDirectory
      rw [hg.cr3, hg.cur, hcpd]
      exact hcr3 h.cr3

theorem SharedInv.other (h : SharedInv ram d₀ s) {k' : Kernel} (ho : OtherCode s k') :
    SharedInv ram d₀ { s with k := k' } :=
  ⟨h.view.congr ho.mem ho.used, ho.total.trans h.total, ho.active, ho.cr3, ho.tasks⟩

/-- A switch to a task that has a directory. -/
theorem otherCode_switched (h : SharedInv ram d₀ s) {esp : Nat} {cur c : Slot} {k' : Kernel}
    (hsw : Switched esp cur c s.k k') (h0 : (s.k.taskTable c).pageDirectory ≠ 0) :
    OtherCode s k' := by
  have hdir := (h.tasks c).resolve_left h0
  have hcur : k'.currentPageDirectory = (s.k.taskTable c).pageDirectory := by
    rw [hsw.dir]
    split
    next heq => rw [heq, h.cr3]
    next => rfl
  refine ⟨fun x _ => by rw [hsw.mem], fun b hf => ?_, by rw [hsw.pmm], ?_, ?_, fun i => ?_⟩
  · rw [hsw.pmm]
    exact h.view.family.frame_used hf
  · rw [hcur]
    exact hdir
  · rw [hcur]
    exact hsw.cr3
  · by_cases hic : i = c
    · rw [hic, hsw.new]
      exact h.tasks c
    by_cases hir : i = cur
    · rw [hir, hsw.prev]
      exact h.tasks cur
    · rw [hsw.others i hic hir]
      exact h.tasks i

end Steps

/-! ## Whole runs -/

section Runs

variable {v : Vfs} {sym : Symbols} {fuel ram d₀ : Nat}

theorem SharedOp.apply_inv {s s' : Shared} (op : SharedOp) (h : SharedInv ram d₀ s)
    (hl : op.Legal v ram s) (hrun : op.apply v sym fuel s = .ok s') : SharedInv ram d₀ s' := by
  cases op with
  | map p a f =>
    obtain ⟨m, hmap, rfl⟩ := map_eq_ok (mapError_eq_ok hrun)
    exact h.map hl.1 hl.2.1 hl.2.2 hmap
  | unmap a =>
    cases hrun
    exact h.unmap hl
  | fault a err =>
    obtain ⟨m, hfault, rfl⟩ := map_eq_ok (mapError_eq_ok hrun)
    exact h.fault hl.1 hl.2 hfault
  | load path =>
    obtain ⟨⟨r, m⟩, hload, rfl⟩ := map_eq_ok (mapError_eq_ok hrun)
    exact h.load hl hload
  | create entry pageDir isUser =>
    obtain ⟨⟨r, k'⟩, hcreate, rfl⟩ := map_eq_ok hrun
    exact h.create hl hcreate
  | bootstrap =>
    obtain ⟨k', hboot, rfl⟩ := map_eq_ok (mapError_eq_ok hrun)
    exact h.bootstrap hboot
  | other k' =>
    cases hrun
    exact h.other hl

theorem sharedRun_inv : ∀ (ops : List SharedOp) {s s' : Shared}, SharedInv ram d₀ s →
    LegalSharedRun v ram sym fuel s ops → sharedRun v sym fuel s ops = .ok s' →
    SharedInv ram d₀ s' := by
  intro ops
  induction ops with
  | nil =>
    intro _ _ h _ hrun
    cases hrun
    exact h
  | cons op ops ih =>
    intro s s' h hl hrun
    obtain ⟨s₁, hop, hrest⟩ := bind_eq_ok hrun
    exact ih (op.apply_inv h hl.1 hop) (hl.2 s₁ hop) hrest

end Runs

/-- The kernel when `vmm_init` returns: one directory and no stack yet. The
task table is still zero. -/
structure Initialised (k₀ : Machine) (s : Shared) : Prop where
  init : vmmInit k₀ = .ok s.k.toMachine
  table : ∀ i, s.k.taskTable i = Task.zero
  dirs : s.dirs = [s.k.currentPageDirectory]
  kstacks : s.kstacks = []

theorem Initialised.inv {k₀ : Machine} {s : Shared} (h : Initialised k₀ s) :
    SharedInv k₀.pmm.totalBlocks s.k.currentPageDirectory s := by
  obtain ⟨hcr3, -, -, hfresh⟩ := vmmInit_spec h.init
  obtain ⟨l, ht⟩ := hfresh.taken
  refine ⟨?_, ht.total, ?_, hcr3, fun i => Or.inl ?_⟩
  · rw [h.dirs, h.kstacks]
    exact view_init h.init
  · rw [h.dirs]
    exact List.mem_cons_self
  · rw [h.table i]
    rfl

/-- **One view of RAM.** In every state reached after `vmm_init`, every
directory has the kernel directory's entry, which is present, in each slot
that covers an address of RAM; and a kernel stack, until its page is mapped
anew, translates to itself under every directory and is not accessible to
user code. -/
theorem kernelView_shared {k₀ : Machine} {s₀ s : Shared} {v : Vfs} {sym : Symbols} {fuel : Nat}
    {ops : List SharedOp} (h₀ : Initialised k₀ s₀)
    (hlegal : LegalSharedRun v k₀.pmm.totalBlocks sym fuel s₀ ops)
    (hrun : sharedRun v sym fuel s₀ ops = .ok s) :
    s₀.k.currentPageDirectory ∈ s.dirs ∧
    (∀ d ∈ s.dirs, ∀ a < k₀.pmm.totalBlocks * 4096, Present (pde s.k.mem d (pdIndex a)) ∧
      pde s.k.mem d (pdIndex a) = pde s.k.mem s₀.k.currentPageDirectory (pdIndex a)) ∧
    ∀ b ∈ s.kstacks, ∀ d ∈ s.dirs, ∀ a, a / 4096 = b →
      translate s.k.mem d a = some a ∧ lookup s.k.mem d a &&& flagUser = 0 := by
  have hv := (sharedRun_inv ops h₀.inv hlegal hrun).view
  have hram := hv.ram_le
  refine ⟨hv.kernel, fun d hd a ha => ?_, fun b hb d hd a ha => hv.kstack_translate hb hd ha⟩
  have hslot : pdIndex a * 1024 < k₀.pmm.totalBlocks := by
    rw [pdIndex_eq]
    omega
  exact hv.slots d hd _ (pdIndex_lt (by omega)) hslot

/-! ## A run

32 blocks of RAM, and a file without program headers: it is loaded, and its
directory is a copy of the kernel's. -/

def emptyBoot : Machine := { bootMachine 0 with mem := wordMem ((smallElf 0 0).drop 2) }

/-- After `vmm_init`, with the scheduler's variables still zero. -/
def emptyShared : Shared :=
  let m := (vmmInit emptyBoot).toOption.getD emptyBoot
  ⟨{ m with
    taskTable := fun _ => Task.zero
    taskList := none
    currentTask := none
    nextPid := 0
    halted := false }, [m.currentPageDirectory], []⟩

/-- A load, a task with the kernel's directory, and two explicit calls. -/
def emptyRun : List SharedOp :=
  [.load [slash, 97], .create 0x100000 0 false, .map 0x5000 0x400000 7, .unmap 0x3000]

theorem kernelView_shared_two : ∃ s b,
    sharedRun smallVfs ⟨0x100000, 0x100100, 0x100200⟩ 40 emptyShared emptyRun = .ok s ∧
    s.dirs.length = 2 ∧ s.kstacks = [b] ∧
    ∀ d ∈ s.dirs, translate s.k.mem d (b * 4096) = some (b * 4096) := by
  have hinit : Initialised emptyBoot emptyShared := by
    refine ⟨?_, fun _ => rfl, rfl, rfl⟩
    have hok : (vmmInit emptyBoot).toOption.isSome = true := by decide +kernel
    obtain ⟨m, hm⟩ := Option.isSome_iff_exists.mp hok
    have hget : (vmmInit emptyBoot).toOption.getD emptyBoot = m := by
      rw [hm, Option.getD_some]
    rw [toOption_eq_some hm]
    show Except.ok m = .ok ((vmmInit emptyBoot).toOption.getD emptyBoot)
    rw [hget]
  have hlegal : LegalSharedRun smallVfs emptyBoot.pmm.totalBlocks ⟨0x100000, 0x100100, 0x100200⟩ 40
      emptyShared emptyRun := by
    refine ⟨?_, fun _ _ => ⟨Or.inl rfl, fun _ _ => ⟨⟨by decide, by decide, by decide⟩, fun _ _ =>
      ⟨by show 0x3000 < 2 ^ 32; decide, fun _ _ => trivial⟩⟩⟩⟩
    show SegmentsOk 32 smallVfs [slash, 97] emptyShared.k.toMachine
    decide +kernel
  have hrun : ((sharedRun smallVfs ⟨0x100000, 0x100100, 0x100200⟩ 40 emptyShared emptyRun).toOption.any
      fun s => decide (s.dirs.length = 2 ∧ s.kstacks.length = 1)) = true := by
    decide +kernel
  obtain ⟨s, hs, hcheck⟩ := (Option.any_eq_true _ _).mp hrun
  obtain ⟨hdirs, hlen⟩ := of_decide_eq_true hcheck
  obtain ⟨b, hb⟩ := List.length_eq_one_iff.mp hlen
  have hok := toOption_eq_some hs
  obtain ⟨-, -, hstack⟩ := kernelView_shared hinit hlegal hok
  refine ⟨s, b, hok, hdirs, hb, fun d hd => ?_⟩
  exact (hstack b (by rw [hb]; exact List.mem_cons_self) d hd (b * 4096)
    (Nat.mul_div_cancel _ (by omega))).1

end MyOS
