import MyOS.Task.UserStacks

/-!
# What a process finds in a page it is given

`page_fault_handler` and `task_user_bootstrap` both take a block and map it
for Ring 3. Neither clears it first, although the same kernel clears a block
that becomes a page table, a kernel stack or a segment. What the program then
reads is what the last owner of the block left there.

The statement is about two runs, from two memories that differ only in free
blocks. `vmmMapPage_fresh` is what both paths rest on: a block just taken is
behind the page afterwards, byte for byte as it was. So the two runs show the
program two different pages as soon as the block's old contents differ, and
`freshPage_clean_iff` says when they cannot: no block was free, or the
program cannot reach the page.
-/

namespace MyOS

open Lib Lib.Mem Lib.Paging

/-- The byte at offset `o` of the page of `v`, as Ring 3 sees it under
`dir`. -/
def pageView (m : Mem) (dir v o : Nat) : Option UInt8 :=
  (userTranslate m dir (v / 4096 * 4096 + o)).map m

/-- The fault shows the program the same page, whatever the free blocks
hold. -/
def FaultClean (a err : Nat) (k : Machine) : Prop :=
  ∀ m, AgreeOff (IsFree k.pmm) k.mem m → ∀ k₁ k₂, pageFaultHandler a err k = .ok k₁ →
    pageFaultHandler a err { k with mem := m } = .ok k₂ → ∀ o < 4096,
      pageView k₁.mem k.currentPageDirectory a o = pageView k₂.mem k.currentPageDirectory a o

/-- So does the user stack of the task in slot `cur`. -/
def BootClean (k : Kernel) (cur : Slot) : Prop :=
  ∀ m, AgreeOff (IsFree k.pmm) k.mem m → ∀ k₁ k₂, taskUserBootstrap k = .ok k₁ →
    taskUserBootstrap { k with toMachine := { k.toMachine with mem := m } } = .ok k₂ → ∀ o < 4096,
      pageView k₁.mem (bootDir k cur) ustackVirt o = pageView k₂.mem (bootDir k cur) ustackVirt o

/-- The table of the page of `v`, if there is one, is open to Ring 3. -/
def UserSlot (m : Mem) (dir v : Nat) : Prop :=
  Present (pde m dir (pdIndex v)) → User (pde m dir (pdIndex v))

/-! ## A block just taken, mapped -/

section Fresh

variable {s : Pmm} {k k' : Machine} {d b v : Nat}

/-- The entry written for block `b`. -/
theorem user_flags (b : Nat) :
    b * 4096 ||| (flagPresent ||| flagWrite ||| flagUser) = b * 4096 + 7 :=
  or_flags (by omega) (by decide)

/-- The block is behind the page, its contents unchanged, and Ring 3 sees the
page unless the slot's old table is closed to it. -/
theorem vmmMapPage_fresh (hd : k.currentPageDirectory = d) (hsep : Sep (InUse s) k.mem d)
    (ht : Taken s [b] k.pmm) (hv : v < 2 ^ 32)
    (h : vmmMapPage (b * 4096) v (flagPresent ||| flagWrite ||| flagUser) k = .ok k') :
    (∀ w < 2 ^ 32, w / 4096 = v / 4096 → lookup k'.mem d w = b * 4096 + 7) ∧
    (∀ x, x / 4096 = b → k'.mem x = k.mem x) ∧
    (User (pde k'.mem d (pdIndex v)) ↔ UserSlot k.mem d v) := by
  have hfree : IsFree s b := ht.mem_isFree List.mem_cons_self
  have hused : InUse k.pmm b := ht.inUse_iff.mpr (Or.inr List.mem_cons_self)
  have hok : DirOk k k.currentPageDirectory := by
    rw [hd]
    exact hsep.mono fun c hc => ht.inUse_iff.mpr (Or.inl hc)
  have hlt : b * 4096 ||| (flagPresent ||| flagWrite ||| flagUser) < 2 ^ 32 := by
    have := hfree.lt
    rw [user_flags]
    omega
  rcases vmmMapPage_cases hok hv hlt with ⟨ts, k'', hrun, hm⟩ | ⟨-, -, herr⟩
  · rw [h] at hrun
    cases hrun
    rw [hd, user_flags] at hm
    refine ⟨fun w hw hpage => ?_, fun x hx => ?_, ?_⟩
    · rw [hm.lookup_eq w hw, if_pos hpage]
    · -- neither the directory nor its tables are the block
      subst hx
      refine hm.frame x (fun hmem => ?_) (fun heq => ?_) (fun heq => ?_)
      · exact (hm.taken.mem_isFree hmem).not_inUse hused
      · exact hfree.not_inUse (heq ▸ hsep.dir_used)
      · rcases hm.slot_table hv with ⟨hp, hsame⟩ | hnew
        · rw [hsame] at heq
          exact hfree.not_inUse (heq ▸ hsep.table_used _ (pdIndex_lt hv) hp)
        · exact (heq ▸ hnew).not_inUse hused
    · by_cases hp : Present (pde k.mem d (pdIndex v))
      · rw [hm.keep _ (pdIndex_lt hv) (Or.inr hp)]
        exact ⟨fun hu _ => hu, fun hu => hu hp⟩
      · obtain ⟨t, rfl⟩ := hm.absent hp
        rw [hm.slot t List.mem_cons_self]
        exact ⟨fun _ hpres => absurd hpres hp, fun _ => user_entry t⟩
  · rw [herr] at h
    exact absurd h (by simp)

/-- An offset stays in its block. -/
theorem block_offset (b : Nat) {o : Nat} (ho : o < 4096) : (b * 4096 + o) / 4096 = b := by omega

/-- The old contents of the block, or nothing. -/
theorem pageView_fresh (hd : k.currentPageDirectory = d) (hsep : Sep (InUse s) k.mem d)
    (ht : Taken s [b] k.pmm) (hv : v < 2 ^ 32)
    (h : vmmMapPage (b * 4096) v (flagPresent ||| flagWrite ||| flagUser) k = .ok k') {o : Nat}
    (ho : o < 4096) :
    (UserSlot k.mem d v → pageView k'.mem d v o = some (k.mem (b * 4096 + o))) ∧
    (¬UserSlot k.mem d v → pageView k'.mem d v o = none) := by
  have hpage : (v / 4096 * 4096 + o) / 4096 = v / 4096 := block_offset _ ho
  have hlt : v / 4096 * 4096 + o < 2 ^ 32 := by omega
  have hoff : (v / 4096 * 4096 + o) % 4096 = o := by omega
  obtain ⟨hlook, hkeep, huser⟩ := vmmMapPage_fresh hd hsep ht hv h
  have hlook := hlook _ hlt hpage
  have hslot : pdIndex (v / 4096 * 4096 + o) = pdIndex v := (page_eq_iff.mp hpage).1
  unfold pageView userTranslate
  rw [hslot, hlook]
  constructor
  · intro hopen
    rw [if_pos ⟨huser.mpr hopen, user_entry b⟩, translate_of_lookup hlook, hoff, Option.map_some,
      hkeep _ (block_offset b ho)]
  · intro hclosed
    rw [if_neg fun hand => hclosed (huser.mp hand.1)]
    rfl

/-- The directory entries lie in a block in use. -/
theorem pde_agree {m : Mem} (hm : AgreeOff (IsFree s) k.mem m) (hsep : Sep (InUse s) k.mem d)
    {i : Nat} (hi : i < 1024) : pde m d i = pde k.mem d i :=
  hsep.toBacked.pde_congr (fun x hx => hm x fun hfree => hfree.not_inUse hx) hi

/-- `vmm_map_page` returns if the slot has a table or there is a block for
one. -/
theorem vmmMapPage_returns {p f : Nat} {k : Machine} : (∃ k', vmmMapPage p v f k = .ok k') ↔
    Present (pde k.mem k.currentPageDirectory (pdIndex v)) ∨ (pmmAllocBlock k.pmm).1 ≠ 0 := by
  unfold vmmMapPage
  by_cases hp : Present (pde k.mem k.currentPageDirectory (pdIndex v))
  · rw [if_neg (not_not_intro hp)]
    exact ⟨fun _ => Or.inl hp, fun _ => ⟨_, rfl⟩⟩
  · rw [if_pos hp]
    by_cases hnull : (pmmAllocBlock k.pmm).1 = 0
    · simp only [if_pos hnull]
      exact ⟨fun ⟨_, h⟩ => absurd h (by simp), fun h => absurd hnull (h.resolve_left hp)⟩
    · simp only [if_neg hnull]
      exact ⟨fun _ => Or.inr hnull, fun _ => ⟨_, rfl⟩⟩

/-- Whether it returns does not depend on the free blocks. -/
theorem vmmMapPage_agree (hd : k.currentPageDirectory = d) (hsep : Sep (InUse s) k.mem d)
    (hv : v < 2 ^ 32) {m : Mem} (hm : AgreeOff (IsFree s) k.mem m) {p f : Nat}
    (h : vmmMapPage p v f k = .ok k') : ∃ k'', vmmMapPage p v f { k with mem := m } = .ok k'' := by
  refine vmmMapPage_returns.mpr ?_
  have hpde : pde m k.currentPageDirectory (pdIndex v)
      = pde k.mem k.currentPageDirectory (pdIndex v) := by
    rw [hd]
    exact pde_agree hm hsep (pdIndex_lt hv)
  show Present (pde m k.currentPageDirectory (pdIndex v)) ∨ _
  rw [hpde]
  exact vmmMapPage_returns.mp ⟨k', h⟩

/-- **Two mappings of a block just taken.** From some memory with other
contents in it, Ring 3 sees another page, if it sees the page at all. -/
theorem fresh_views_iff (hd : k.currentPageDirectory = d) (hsep : Sep (InUse s) k.mem d)
    (ht : Taken s [b] k.pmm) (hv : v < 2 ^ 32)
    (h : vmmMapPage (b * 4096) v (flagPresent ||| flagWrite ||| flagUser) k = .ok k') :
    (∀ m, AgreeOff (IsFree s) k.mem m → ∀ k'',
      vmmMapPage (b * 4096) v (flagPresent ||| flagWrite ||| flagUser) { k with mem := m } = .ok k'' →
      ∀ o < 4096, pageView k'.mem d v o = pageView k''.mem d v o) ↔ ¬UserSlot k.mem d v := by
  have hother : ∀ {m}, AgreeOff (IsFree s) k.mem m → Sep (InUse s) m d ∧
      (UserSlot m d v ↔ UserSlot k.mem d v) := fun {m} hm => by
    unfold UserSlot
    rw [pde_agree hm hsep (pdIndex_lt hv)]
    exact ⟨hsep.of_pde fun i hi => pde_agree hm hsep hi, Iff.rfl⟩
  constructor
  · intro hclean hopen
    -- the second memory has another byte at the start of the block
    obtain ⟨m, hdef⟩ : ∃ m, m = k.mem.write (b * 4096) (k.mem (b * 4096) + 1) := ⟨_, rfl⟩
    have hm : AgreeOff (IsFree s) k.mem m := by
      intro x hx
      rw [hdef]
      refine write_ne _ _ fun heq => hx ?_
      rw [heq, Nat.mul_div_cancel _ (by omega)]
      exact ht.mem_isFree List.mem_cons_self
    obtain ⟨k'', hrun⟩ := vmmMapPage_agree hd hsep hv hm h
    have hview := hclean m hm k'' hrun 0 (by omega)
    rw [(pageView_fresh hd hsep ht hv h (by omega)).1 hopen,
      (pageView_fresh (k := { k with mem := m }) hd (hother hm).1 ht hv hrun (by omega)).1
        ((hother hm).2.mpr hopen), Nat.add_zero] at hview
    have hbyte := Option.some.inj hview
    simp only [hdef, write_self] at hbyte
    exact absurd hbyte (by simp)
  · intro hclosed m hm k'' hrun o ho
    rw [(pageView_fresh hd hsep ht hv h ho).2 hclosed,
      (pageView_fresh (k := { k with mem := m }) hd (hother hm).1 ht hv hrun ho).2
        fun hopen => hclosed ((hother hm).2.mp hopen)]

end Fresh

/-! ## A page fault -/

theorem pageView_page {m : Mem} {d v w o : Nat} (h : v / 4096 = w / 4096) :
    pageView m d v o = pageView m d w o := by
  unfold pageView
  rw [h]

/-- A fault that is resolved: a block is taken and mapped at the page. -/
theorem pageFaultHandler_runs {a err : Nat} {k k' : Machine} (ha : a < 2 ^ 32)
    (h : pageFaultHandler a err k = .ok k') :
    ∃ b, Taken k.pmm [b] (pmmAllocBlock k.pmm).2 ∧ ∀ m,
      pageFaultHandler a err { k with mem := m } =
        vmmMapPage (b * 4096) (a / 4096 * 4096) (flagPresent ||| flagWrite ||| flagUser)
          { k with mem := m, pmm := (pmmAllocBlock k.pmm).2 } := by
  unfold pageFaultHandler at h ⊢
  by_cases hcond : err &&& 0x1 = 0 ∧ 0x1000 ≤ a ∧ ¬(err &&& 0x4 = 0 ∧ 0xC0000000 ≤ a)
  · simp only [if_pos hcond] at h ⊢
    by_cases hnull : (pmmAllocBlock k.pmm).1 = 0
    · simp only [if_pos hnull] at h
      exact absurd h (by simp)
    · obtain ⟨b, -, -, haddr, ht⟩ := pmmAllocBlock_taken hnull
      refine ⟨b, ht, fun m => ?_⟩
      simp only [if_neg hnull]
      rw [haddr, and_mask ha]
  · rw [if_neg hcond] at h
    exact absurd h (by simp)

theorem faultClean_iff {a err : Nat} {k k' : Machine} (ha : a < 2 ^ 32)
    (hok : DirOk k k.currentPageDirectory) (h : pageFaultHandler a err k = .ok k') :
    FaultClean a err k ↔ ¬UserSlot k.mem k.currentPageDirectory a := by
  obtain ⟨b, ht, hrun⟩ := pageFaultHandler_runs ha h
  have hpage : a / 4096 * 4096 / 4096 = a / 4096 := by omega
  have hslot : UserSlot k.mem k.currentPageDirectory (a / 4096 * 4096)
      ↔ UserSlot k.mem k.currentPageDirectory a := by
    unfold UserSlot
    rw [(page_eq_iff.mp hpage).1]
  have hfirst := hrun k.mem
  rw [h] at hfirst
  rw [← hslot, ← fresh_views_iff (k := { k with pmm := (pmmAllocBlock k.pmm).2 }) rfl hok ht
    (by omega) hfirst.symm]
  unfold FaultClean
  constructor
  · intro hclean m hm k'' hk'' o ho
    rw [pageView_page hpage, pageView_page hpage]
    exact hclean m hm k' k'' h ((hrun m).trans hk'') o ho
  · intro hviews m hm k₁ k₂ hk₁ hk₂ o ho
    rw [h] at hk₁
    cases hk₁
    rw [← pageView_page hpage, ← pageView_page hpage]
    exact hviews m hm k₂ ((hrun m).symm.trans hk₂) o ho

/-! ## A user stack -/

/-- The machine in which the stack page is mapped. -/
def stackMachine (k : Kernel) (cur : Slot) : Machine :=
  { k.toMachine with
    pmm := (pmmAllocBlock k.pmm).2
    currentPageDirectory := bootDir k cur
    cr3 := if (k.taskTable cur).pageDirectory ≠ 0 ∧
        (k.taskTable cur).pageDirectory ≠ k.currentPageDirectory then
      (k.taskTable cur).pageDirectory else k.cr3 }

section Boot

variable {k k' : Kernel} {cur : Slot}

theorem taskUserBootstrap_eq (hcur : k.currentTask = some cur) :
    taskUserBootstrap k =
      (vmmMapPage (pmmAllocBlock k.pmm).1 ustackVirt (flagPresent ||| flagWrite ||| flagUser)
        (stackMachine k cur)).map fun m' =>
          { k with toMachine := { m' with esp0 := (k.taskTable cur).kstack } } := by
  have hrun : taskUserBootstrap k = bootstrapIn k cur := by
    unfold taskUserBootstrap
    rw [hcur, Option.elim_some]
  rw [hrun]
  unfold bootstrapIn stackMachine bootDir
  by_cases h0 : (k.taskTable cur).pageDirectory = 0
  · simp only [h0, ne_eq, not_true, false_and, if_false]
  · by_cases hne : (k.taskTable cur).pageDirectory = k.currentPageDirectory
    · simp only [hne, ne_eq, not_true, and_false, if_false, ite_self]
    · simp only [h0, hne, ne_eq, not_false_iff, and_self, if_true]

theorem bootClean_iff (hcur : k.currentTask = some cur) (hok : DirOk k.toMachine (bootDir k cur))
    (h : taskUserBootstrap k = .ok k') :
    BootClean k cur ↔ (∀ b, ¬IsFree k.pmm b) ∨ ¬UserSlot k.mem (bootDir k cur) ustackVirt := by
  have hrun : ∀ m, taskUserBootstrap { k with toMachine := { k.toMachine with mem := m } } =
      (vmmMapPage (pmmAllocBlock k.pmm).1 ustackVirt (flagPresent ||| flagWrite ||| flagUser)
        { stackMachine k cur with mem := m }).map fun m' =>
          { k with toMachine := { m' with esp0 := (k.taskTable cur).kstack } } := fun m =>
    taskUserBootstrap_eq (k := { k with toMachine := { k.toMachine with mem := m } }) hcur
  rcases (Taken.refl k.pmm).alloc with ⟨b, hb, hclear, -, -, haddr, ht⟩ | ⟨hall, -⟩
  · have hfree : ¬∀ b, ¬IsFree k.pmm b := fun hno => hno b ⟨hb, hclear⟩
    rw [or_iff_right hfree]
    have h' := h
    rw [taskUserBootstrap_eq hcur, haddr] at h'
    obtain ⟨m', hmap, rfl⟩ := map_eq_ok h'
    have hviews : _ ↔ ¬UserSlot k.mem (bootDir k cur) ustackVirt :=
      fresh_views_iff (k := stackMachine k cur) rfl hok ht (by decide) hmap
    rw [← hviews]
    constructor
    · intro hclean m hm k'' hk'' o ho
      have hk₂ : taskUserBootstrap { k with toMachine := { k.toMachine with mem := m } } =
          .ok { k with toMachine := { k'' with esp0 := (k.taskTable cur).kstack } } := by
        rw [hrun, haddr, hk'', ok_map]
      exact hclean m hm _ _ h hk₂ o ho
    · intro hsame m hm k₁ k₂ hk₁ hk₂ o ho
      rw [h] at hk₁
      cases hk₁
      rw [hrun, haddr] at hk₂
      obtain ⟨m₂, hmap₂, rfl⟩ := map_eq_ok hk₂
      exact hsame m hm m₂ hmap₂ o ho
  · -- no free block: the two memories are one
    have hnone : ∀ b, ¬IsFree k.pmm b := fun b hb =>
      absurd hb.2 (by rw [hall b hb.1]; simp)
    refine iff_of_true (fun m hm k₁ k₂ hk₁ hk₂ o ho => ?_) (Or.inl hnone)
    have hsame : m = k.mem := funext fun x => hm x (hnone _)
    subst hsame
    rw [hk₁] at hk₂
    cases hk₂
    rfl

end Boot

/-- **Fresh pages carry old data.** A fault that is resolved shows the
program what its block held before, unless the slot's table is closed to
Ring 3 and the program sees nothing. The stack `task_user_bootstrap` maps
does so too, unless no block is free. -/
theorem freshPage_clean_iff (a err : Nat) (m m' : Machine) (k k' : Kernel) (cur : Slot) :
    (a < 2 ^ 32 → DirOk m m.currentPageDirectory → pageFaultHandler a err m = .ok m' →
      (FaultClean a err m ↔ ¬UserSlot m.mem m.currentPageDirectory a)) ∧
    (k.currentTask = some cur → DirOk k.toMachine (bootDir k cur) → taskUserBootstrap k = .ok k' →
      (BootClean k cur ↔
        (∀ b, ¬IsFree k.pmm b) ∨ ¬UserSlot k.mem (bootDir k cur) ustackVirt)) :=
  ⟨fun ha hok h => faultClean_iff ha hok h, fun hcur hok h => bootClean_iff hcur hok h⟩

/-- Memory with an old byte in block 256, which is free there. -/
def staleMem : Mem := fun x => if x = 256 * 4096 then 0xAA else 0

theorem freshPage_clean_demo :
    ¬FaultClean 0x400000 4 emptyMachine ∧ ¬BootClean ownKernel 1 := by
  obtain ⟨k', hk', -⟩ := (Option.any_eq_true _ _).mp (by decide +kernel :
    (pageFaultHandler 0x400000 4 emptyMachine).toOption.any (fun _ => true) = true)
  obtain ⟨k'', hk'', -⟩ := (Option.any_eq_true _ _).mp (by decide +kernel :
    (taskUserBootstrap ownKernel).toOption.any (fun _ => true) = true)
  have hboot : DirOk ownKernel.toMachine (bootDir ownKernel 1) :=
    ownKernel_family.sep List.mem_cons_self
  obtain ⟨hfault, hstack⟩ := freshPage_clean_iff 0x400000 4 emptyMachine k' ownKernel k'' 1
  refine ⟨fun hclean => ?_, fun hclean => ?_⟩
  · refine (hfault (by decide) emptyMachine_ok (toOption_eq_some hk')).mp hclean
      fun hp => absurd hp ?_
    decide +kernel
  · rcases (hstack rfl hboot (toOption_eq_some hk'')).mp hclean with hnone | hclosed
    · exact hnone 256 (by decide +kernel)
    · exact hclosed fun hp => absurd hp (by decide +kernel)

/-- Ring 3 touches `0x400000`, and the page it gets starts with the old
byte. -/
theorem freshPage_shows_old : ∃ k₁ k₂,
    AgreeOff (IsFree emptyMachine.pmm) emptyMachine.mem staleMem ∧
    pageFaultHandler 0x400000 4 emptyMachine = .ok k₁ ∧
    pageFaultHandler 0x400000 4 { emptyMachine with mem := staleMem } = .ok k₂ ∧
    pageView k₁.mem emptyMachine.currentPageDirectory 0x400000 0 = some 0 ∧
    pageView k₂.mem emptyMachine.currentPageDirectory 0x400000 0 = some 0xAA ∧
    ¬FaultClean 0x400000 4 emptyMachine := by
  have hagree : AgreeOff (IsFree emptyMachine.pmm) emptyMachine.mem staleMem := by
    intro x hx
    refine if_neg fun heq => hx ?_
    rw [heq]
    decide +kernel
  obtain ⟨k₁, hk₁, hv₁⟩ := (Option.any_eq_true _ _).mp (by decide +kernel :
    (pageFaultHandler 0x400000 4 emptyMachine).toOption.any (fun k₁ => decide
      (pageView k₁.mem emptyMachine.currentPageDirectory 0x400000 0 = some 0)) = true)
  obtain ⟨k₂, hk₂, hv₂⟩ := (Option.any_eq_true _ _).mp (by decide +kernel :
    (pageFaultHandler 0x400000 4 { emptyMachine with mem := staleMem }).toOption.any (fun k₂ => decide
      (pageView k₂.mem emptyMachine.currentPageDirectory 0x400000 0 = some 0xAA)) = true)
  have hv₁ := of_decide_eq_true hv₁
  have hv₂ := of_decide_eq_true hv₂
  refine ⟨k₁, k₂, hagree, toOption_eq_some hk₁, toOption_eq_some hk₂, hv₁, hv₂, fun hclean => ?_⟩
  have hsame := hclean staleMem hagree k₁ k₂ (toOption_eq_some hk₁) (toOption_eq_some hk₂) 0
    (by omega)
  rw [hv₁, hv₂] at hsame
  exact absurd hsame (by decide)

end MyOS
