import MyOS.Vmm.Family
import MyOS.Vmm.Mmu

/-!
# The kernel's view of RAM

`vmm_init` gives the kernel directory a table for every slot that covers RAM,
and from then on nothing takes such an entry away: `vmm_map_page` writes an
entry of a directory only where there was no table, and a new directory is a
copy. So all directories have the kernel's entries there, and the page tables
behind RAM are the same ones under every directory. A page of RAM mapped
under one of them is mapped under all.

`View ram d₀ S D k` says this of the directories `D`, with the kernel
directory `d₀`, for `ram` blocks of RAM; `S` are the blocks mapped to
themselves, for the kernel only, under every directory. One lemma for each
thing that can happen to a directory: a mapping (`View.mapped`), a mapping
that adds to `S` (`View.kstack`), a copy (`View.copy`), and a change of memory
elsewhere (`View.congr`).
-/

namespace MyOS

open Lib Lib.Mem Lib.Paging

structure View (ram d₀ : Nat) (S D : List Nat) (k : Machine) : Prop where
  ram_le : ram ≤ 2 ^ 20
  family : Family (InUse k.pmm) k.mem D
  kernel : d₀ ∈ D
  slots : ∀ d ∈ D, ∀ i < 1024, i * 1024 < ram →
    Present (pde k.mem d i) ∧ pde k.mem d i = pde k.mem d₀ i
  kstacks : ∀ b ∈ S, b < ram ∧ ∀ d ∈ D, lookup k.mem d (b * 4096) = b * 4096 + 3

section

variable {ram d₀ : Nat} {S D : List Nat} {k k' : Machine}

theorem View.lt (h : View ram d₀ S D k) {b : Nat} (hb : b ∈ S) : b * 4096 < 2 ^ 32 := by
  have hram := h.ram_le
  have hlt := (h.kstacks b hb).1
  omega

/-- Fewer stacks are claimed. -/
theorem View.fewer (h : View ram d₀ S D k) {S' : List Nat} (hs : ∀ b ∈ S', b ∈ S) :
    View ram d₀ S' D k :=
  ⟨h.ram_le, h.family, h.kernel, h.slots, fun b hb => h.kstacks b (hs b hb)⟩

/-- Fewer directories, the kernel's still among them. -/
theorem View.subset (h : View ram d₀ S D k) {D' : List Nat} (hs : ∀ d ∈ D', d ∈ D) (h₀ : d₀ ∈ D') :
    View ram d₀ S D' k :=
  ⟨h.ram_le, h.family.subset hs, h₀, fun d hd => h.slots d (hs d hd),
    fun b hb => ⟨(h.kstacks b hb).1, fun d hd => (h.kstacks b hb).2 d (hs d hd)⟩⟩

/-- Memory outside the directories' frames does not matter. -/
theorem View.congr (h : View ram d₀ S D k)
    (hm : ∀ x, FamilyFrame k.mem D (x / 4096) → k'.mem x = k.mem x)
    (hU : ∀ b, FamilyFrame k.mem D b → InUse k'.pmm b) : View ram d₀ S D k' := by
  refine ⟨h.ram_le, h.family.congr hm hU, h.kernel, fun d hd i hi hram => ?_, fun b hb => ?_⟩
  · rw [h.family.pde_congr hm hd hi, h.family.pde_congr hm h.kernel hi]
    exact h.slots d hd i hi hram
  · refine ⟨(h.kstacks b hb).1, fun d hd => ?_⟩
    rw [h.family.lookup_congr hm hd (h.lt hb)]
    exact (h.kstacks b hb).2 d hd

/-- Blocks were taken, and nothing else changed that a directory reads. -/
theorem View.taken (h : View ram d₀ S D k) {l : List Nat} (ht : Taken k.pmm l k'.pmm)
    (hm : k'.mem = k.mem) : View ram d₀ S D k' :=
  h.congr (fun x _ => by rw [hm]) fun _ hb => ht.inUse_iff.mpr (Or.inl (h.family.frame_used hb))

/-! ## Blocks that hold data -/

/-- A block in use that is neither a directory nor a table. -/
def IsData (D : List Nat) (k : Machine) (b : Nat) : Prop :=
  InUse k.pmm b ∧ ¬FamilyFrame k.mem D b

/-- A write there changes nothing that a directory reads. -/
theorem IsData.agrees {b : Nat} (h : IsData D k b) {m : Mem}
    (hm : ∀ x, x / 4096 ≠ b → m x = k.mem x) :
    ∀ x, FamilyFrame k.mem D (x / 4096) → m x = k.mem x :=
  fun x hx => hm x fun heq => h.2 (heq ▸ hx)

/-- Data is still data in a memory with the same directories. -/
theorem IsData.congr {b : Nat} (h : IsData D k b)
    (hd : ∀ d ∈ D, ∀ i < 1024, pde k'.mem d i = pde k.mem d i)
    (hU : InUse k.pmm b → InUse k'.pmm b) : IsData D k' b :=
  ⟨hU h.1, fun hf => h.2 ((familyFrame_congr hd).mp hf)⟩

/-- A mapping makes tables out of free blocks only. -/
theorem IsData.mapped {b d a e : Nat} {ts : List Nat} (h : IsData D k b)
    (hfam : Family (InUse k.pmm) k.mem D) (hd : d ∈ D) (ha : a < 2 ^ 32)
    (hm : Mapped d a e ts k k') : IsData D k' b := by
  refine ⟨hm.taken.inUse_iff.mpr (Or.inl h.1), fun hf => ?_⟩
  rcases hfam.frame_mapped hd ha hm hf with hold | hfree
  · exact h.2 hold
  · exact hfree.not_inUse h.1

/-- A block just allocated is data. -/
theorem isData_fresh (hfam : Family (InUse k.pmm) k.mem D) {b : Nat} {s' : Pmm}
    (ht : Taken k.pmm [b] s') : IsData D { k with pmm := s' } b :=
  ⟨ht.inUse_iff.mpr (Or.inr List.mem_cons_self), fun hf =>
    (ht.mem_isFree List.mem_cons_self).not_inUse (hfam.frame_used hf)⟩

/-! ## A mapping -/

/-- The page of an absent address is none of the stacks. -/
theorem View.absent (h : View ram d₀ S D k) {d a : Nat} (hd : d ∈ D)
    (habs : translate k.mem d a = none) : a / 4096 ∉ S := by
  intro hs
  have hlook : lookup k.mem d a = a / 4096 * 4096 + 3 := by
    rw [lookup_page (w := a / 4096 * 4096) (by omega)]
    exact (h.kstacks _ hs).2 d hd
  have hp : Present (lookup k.mem d a) := by
    rw [hlook, present_iff]
    omega
  rw [translate_of_present hp] at habs
  exact absurd habs (by simp)

section Mapping

variable {d a e : Nat} {ts : List Nat}

/-- The entries of RAM stay, whatever is mapped. -/
theorem View.slots_mapped (h : View ram d₀ S D k) (hd : d ∈ D) (ha : a < 2 ^ 32)
    (hm : Mapped d a e ts k k') : ∀ d' ∈ D, ∀ i < 1024, i * 1024 < ram →
      Present (pde k'.mem d' i) ∧ pde k'.mem d' i = pde k'.mem d₀ i := by
  intro d' hd' i hi hram
  obtain ⟨hp, heq⟩ := h.slots d' hd' i hi hram
  have hp₀ := (h.slots d₀ h.kernel i hi hram).1
  rw [h.family.pde_present hd ha hm hd' hi hp, h.family.pde_present hd ha hm h.kernel hi hp₀]
  exact ⟨hp, heq⟩

/-- A mapping of a page that is none of the stacks. -/
theorem View.mapped (h : View ram d₀ S D k) (hd : d ∈ D) (ha : a < 2 ^ 32)
    (hm : Mapped d a e ts k k') (hpage : a / 4096 ∉ S) : View ram d₀ S D k' := by
  refine ⟨h.ram_le, h.family.mapped hd ha hm, h.kernel, h.slots_mapped hd ha hm, fun b hb => ?_⟩
  refine ⟨(h.kstacks b hb).1, fun d' hd' => ?_⟩
  rcases h.family.lookup_mapped hd ha hm hd' (h.lt hb) with hold | ⟨heq, -⟩
  · rw [hold]
    exact (h.kstacks b hb).2 d' hd'
  · rw [Nat.mul_div_cancel _ (by omega)] at heq
    exact absurd (heq ▸ hb) hpage

/-- Every directory has the kernel's table for a page of RAM. -/
theorem View.shares (h : View ram d₀ S D k) {b : Nat} (hb : b < ram) (hd : d ∈ D) {d' : Nat}
    (hd' : d' ∈ D) : SharesTable k.mem d' d (pdIndex (b * 4096)) := by
  have hram := h.ram_le
  have hslot : pdIndex (b * 4096) < 1024 := pdIndex_lt (by omega)
  have hcover : pdIndex (b * 4096) * 1024 < ram := by
    rw [pdIndex_eq]
    omega
  obtain ⟨hp, heq⟩ := h.slots d hd _ hslot hcover
  obtain ⟨hp', heq'⟩ := h.slots d' hd' _ hslot hcover
  exact ⟨hp', hp, by rw [heq', heq]⟩

/-- A block mapped to itself for the kernel is so under every directory. -/
theorem View.kstack (h : View ram d₀ S D k) {b : Nat} (hb : b < ram) (hd : d ∈ D)
    (hm : Mapped d (b * 4096) (b * 4096 + 3) ts k k') : View ram d₀ (b :: S) D k' := by
  have hram := h.ram_le
  have ha : b * 4096 < 2 ^ 32 := by omega
  refine ⟨h.ram_le, h.family.mapped hd ha hm, h.kernel, h.slots_mapped hd ha hm, fun c hc => ?_⟩
  rcases List.mem_cons.mp hc with rfl | hc
  · exact ⟨hb, fun d' hd' => h.family.lookup_shared hd ha hm hd' (h.shares hb hd hd')⟩
  · refine ⟨(h.kstacks c hc).1, fun d' hd' => ?_⟩
    rcases h.family.lookup_mapped hd ha hm hd' (h.lt hc) with hold | ⟨heq, hnew, -⟩
    · rw [hold]
      exact (h.kstacks c hc).2 d' hd'
    · have hcb : c = b := by omega
      rw [hnew, hcb]

/-- `vmm_map_page` under one of the directories. -/
theorem View.map_runs (h : View ram d₀ S D k) (hcur : k.currentPageDirectory = d) (hd : d ∈ D)
    {p v f : Nat} (hv : v < 2 ^ 32) (he : p ||| f < 2 ^ 32) (hrun : vmmMapPage p v f k = .ok k') :
    ∃ ts, Mapped d v (p ||| f) ts k k' := by
  subst hcur
  rcases vmmMapPage_cases (h.family.sep hd) hv he with ⟨ts, k'', hok, hm⟩ | ⟨-, -, herr⟩
  · rw [hok] at hrun
    cases hrun
    exact ⟨ts, hm⟩
  · rw [herr] at hrun
    exact absurd hrun (by simp)

end Mapping

/-! ## A new directory -/

/-- A copy of one of the directories into a fresh block. -/
theorem View.copy (h : View ram d₀ S D k) {d P : Nat} (hd : d ∈ D) {s' : Pmm}
    (ht : Taken k.pmm [P] s') :
    View ram d₀ S (P * 4096 :: D)
      { k with pmm := s', mem := k.mem.memcpy (P * 4096) d 4096 } := by
  have hP : ¬InUse k.pmm P := (ht.mem_isFree List.mem_cons_self).not_inUse
  have hagree : ∀ x, FamilyFrame k.mem D (x / 4096) → k.mem.memcpy (P * 4096) d 4096 x = k.mem x :=
    fun x hx => memcpy_of_block_ne fun heq => hP (heq ▸ h.family.frame_used hx)
  have hold := fun {d' i} hd' hi => h.family.pde_congr hagree (d := d') (i := i) hd' hi
  refine ⟨h.ram_le, h.family.copy hd hP (fun b hb => ht.inUse_iff.mpr (Or.inl hb))
    (ht.inUse_iff.mpr (Or.inr List.mem_cons_self)), List.mem_cons_of_mem _ h.kernel,
    fun d' hd' i hi hram => ?_, fun b hb => ⟨(h.kstacks b hb).1, fun d' hd' => ?_⟩⟩
  · show Present (pde (k.mem.memcpy (P * 4096) d 4096) d' i) ∧
      pde (k.mem.memcpy (P * 4096) d 4096) d' i = pde (k.mem.memcpy (P * 4096) d 4096) d₀ i
    rw [hold h.kernel hi]
    rcases List.mem_cons.mp hd' with rfl | hd'
    · rw [pde_memcpy_self hi]
      exact h.slots d hd i hi hram
    · rw [hold hd' hi]
      exact h.slots d' hd' i hi hram
  · show lookup (k.mem.memcpy (P * 4096) d 4096) d' (b * 4096) = _
    rcases List.mem_cons.mp hd' with rfl | hd'
    · rw [h.family.lookup_copy hd hP (h.lt hb)]
      exact (h.kstacks b hb).2 d hd
    · rw [h.family.lookup_congr hagree hd' (h.lt hb)]
      exact (h.kstacks b hb).2 d' hd'

/-- What is claimed of a stack. -/
theorem View.kstack_translate (h : View ram d₀ S D k) {b d : Nat} (hb : b ∈ S) (hd : d ∈ D) {a : Nat}
    (ha : a / 4096 = b) : translate k.mem d a = some a ∧ lookup k.mem d a &&& flagUser = 0 := by
  have hlook : lookup k.mem d a = b * 4096 + 3 := by
    rw [lookup_page (w := b * 4096) (by omega)]
    exact (h.kstacks b hb).2 d hd
  have hp : Present (lookup k.mem d a) := by
    rw [hlook, present_iff]
    omega
  refine ⟨?_, ?_⟩
  · rw [translate_of_present hp, hlook]
    congr 1
    omega
  · have hbit : Nat.testBit (b * 4096 + 3) 2 = false := by
      rw [Nat.testBit_eq_decide_div_mod_eq]
      exact decide_eq_false (by omega)
    have hflag : flagUser = 2 ^ 2 := rfl
    rw [hlook, hflag, Nat.and_two_pow, hbit]
    rfl

end

/-- The first page of a slot. -/
theorem slot_start {i : Nat} (hi : i < 1024) :
    i * 1024 * 4096 < 2 ^ 32 ∧ pdIndex (i * 1024 * 4096) = i := by
  rw [pdIndex_eq]
  omega

/-- `vmm_init` starts the view, with no stack yet. -/
theorem view_init {k k' : Machine} (h : vmmInit k = .ok k') :
    View k.pmm.totalBlocks k'.currentPageDirectory [] [k'.currentPageDirectory] k' := by
  obtain ⟨-, hok, hlook, -⟩ := vmmInit_spec h
  have htotal := k.pmm.total_lt
  refine ⟨Nat.le_of_lt htotal, ⟨fun d hd => ?_, fun d hd i hi hp d' hd' => ?_,
    fun d hd i hi hp d' hd' j hj hq heq => ?_⟩, List.mem_cons_self, fun d hd i hi hram => ?_,
    fun b hb => absurd hb List.not_mem_nil⟩
  · rw [List.mem_singleton.mp hd]
    exact hok.toBacked
  · rw [List.mem_singleton.mp hd] at hp ⊢
    rw [List.mem_singleton.mp hd']
    exact hok.table_ne i hi hp
  · rw [List.mem_singleton.mp hd] at hp heq
    rw [List.mem_singleton.mp hd'] at hq heq
    exact hok.table_inj i hi j hj hp hq heq
  · rw [List.mem_singleton.mp hd]
    refine ⟨?_, rfl⟩
    -- the first page of the slot is mapped
    obtain ⟨hlt, hslot⟩ := slot_start hi
    have hpage : i * 1024 * 4096 / 4096 = i * 1024 := Nat.mul_div_cancel _ (by omega)
    have hp : Present (lookup k'.mem k'.currentPageDirectory (i * 1024 * 4096)) := by
      rw [hlook _ hlt, hpage]
      unfold identityUpTo
      rw [if_pos hram]
      exact present_entry _
    rw [← hslot]
    exact pde_present_of_lookup hp

end MyOS
