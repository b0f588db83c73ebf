import MyOS.Lib.Paging
import MyOS.Pmm.Owner

/-!
# The virtual memory manager: `vmm_map_page` and `vmm_unmap_page`

The machine the kernel runs on, as far as the kernel's own logic sees it:
physical memory, the allocator, the active directory in the variable
`current_page_directory` and in CR3, the TSS stack pointer and the interrupt
flag. `vmm_map_page` creates the missing page table out of the same allocator
that hands frames to everyone else.

Mirroring notes vs the C:
- Directories and page tables are read and written at their physical
  addresses. The code uses pointers, which is the same while the pages of the
  tables are mapped to themselves (`vmmMapPageVirt_eq`), as `vmm_init` maps all
  RAM.
- The allocator's bitmap is the `pmm` component, not bytes of `mem`: it lies
  in blocks `pmm_init` reserves, which nothing hands out.
- `for (;;) hlt` is `Except.error`, with the message printed before it.
- The TLB is not modelled: `vmm_map_page` and `vmm_unmap_page` invalidate
  the entry they change and every switch of CR3 flushes the rest. Nor are the
  accessed and dirty bits the CPU sets, which the kernel never reads.
-/

namespace MyOS

open Lib Lib.Mem Lib.Paging

/-- Where the kernel halts. -/
inductive Panic where
  | pageTable
  | demandPaging
  | pageDirectory
  | pageFault (address err : Nat)
  deriving DecidableEq, Repr

/-- What is on the screen then. -/
def Panic.message : Panic → String
  | pageTable => "[VMM] Critical: Out of physical memory for page table allocation!\n"
  | demandPaging => "[VMM] Error: Out of physical memory to satisfy demand paging!\n"
  | pageDirectory => "[VMM] Error: Failed to allocate physical page for Page Directory!\n"
  | pageFault _ _ => "\n\n*** KERNEL PANIC: Page Fault Memory Access Violation ***\n"

structure Machine where
  mem : Mem
  pmm : Pmm
  currentPageDirectory : Nat
  cr3 : Nat
  esp0 : Nat
  intFlag : Bool

/-- Block `b` is tracked and taken. -/
def InUse (s : Pmm) (b : Nat) : Prop := b < s.totalBlocks ∧ bitmapTest s b = true

/-- Block `b` is tracked and free. -/
def IsFree (s : Pmm) (b : Nat) : Prop := b < s.totalBlocks ∧ bitmapTest s b = false

instance (s : Pmm) (b : Nat) : Decidable (InUse s b) := inferInstanceAs (Decidable (_ ∧ _))

instance (s : Pmm) (b : Nat) : Decidable (IsFree s b) := inferInstanceAs (Decidable (_ ∧ _))

/-- The directory at `dir` is sound: it and its tables are distinct frames in
use. -/
def DirOk (k : Machine) (dir : Nat) : Prop := Sep (InUse k.pmm) k.mem dir

def flagPresent : Nat := 0x001
def flagWrite : Nat := 0x002
def flagUser : Nat := 0x004

def vmmMapPage (physAddr virtAddr flags : Nat) (k : Machine) : Except Panic Machine :=
  if ¬Present (pde k.mem k.currentPageDirectory (pdIndex virtAddr)) then
    let ptPhys := (pmmAllocBlock k.pmm).1
    if ptPhys = 0 then .error .pageTable
    else
      let mem := (k.mem.memset ptPhys 0 4096).wr32
        (k.currentPageDirectory + 4 * pdIndex virtAddr)
        (ptPhys ||| flagPresent ||| flagWrite ||| flagUser)
      .ok { k with
        pmm := (pmmAllocBlock k.pmm).2
        mem := mem.wr32 (ptPhys + 4 * ptIndex virtAddr) (physAddr ||| flags) }
  else
    .ok { k with
      mem := k.mem.wr32
        (base (pde k.mem k.currentPageDirectory (pdIndex virtAddr)) + 4 * ptIndex virtAddr)
        (physAddr ||| flags) }

def vmmUnmapPage (virtAddr : Nat) (k : Machine) : Machine :=
  if Present (pde k.mem k.currentPageDirectory (pdIndex virtAddr)) then
    { k with
      mem := k.mem.wr32
        (base (pde k.mem k.currentPageDirectory (pdIndex virtAddr)) + 4 * ptIndex virtAddr) 0 }
  else k

/-! ## Blocks in use and free -/

theorem IsFree.not_inUse {s : Pmm} {b : Nat} (h : IsFree s b) : ¬InUse s b := fun hu =>
  Bool.false_ne_true (h.2.symm.trans hu.2)

theorem IsFree.lt {s : Pmm} {b : Nat} (h : IsFree s b) : b < 2 ^ 20 :=
  Nat.lt_trans h.1 s.total_lt

theorem InUse.lt {s : Pmm} {b : Nat} (h : InUse s b) : b < 2 ^ 20 := Nat.lt_trans h.1 s.total_lt

theorem Taken.inUse_iff {s₀ s : Pmm} {l : List Nat} (h : Taken s₀ l s) {b : Nat} :
    InUse s b ↔ InUse s₀ b ∨ b ∈ l := by
  unfold InUse
  rw [h.total, h.test]
  constructor
  · intro hb
    exact hb.2.imp (fun ht => ⟨hb.1, ht⟩) id
  · intro hb
    rcases hb with hb | hb
    · exact ⟨hb.1, Or.inl hb.2⟩
    · exact ⟨(h.fresh b hb).1, Or.inr hb⟩

theorem Taken.isFree {s₀ s : Pmm} {l : List Nat} (h : Taken s₀ l s) {b : Nat} (hb : IsFree s b) :
    IsFree s₀ b ∧ b ∉ l := by
  obtain ⟨hclear, hnot⟩ := h.test_false.mp hb.2
  exact ⟨⟨h.total ▸ hb.1, hclear⟩, hnot⟩

theorem Taken.mem_isFree {s₀ s : Pmm} {l : List Nat} (h : Taken s₀ l s) {b : Nat} (hb : b ∈ l) :
    IsFree s₀ b := h.fresh b hb

theorem Taken.trans {s₀ s₁ s₂ : Pmm} {l₁ l₂ : List Nat} (h₁ : Taken s₀ l₁ s₁)
    (h₂ : Taken s₁ l₂ s₂) : Taken s₀ (l₂ ++ l₁) s₂ where
  total := h₂.total.trans h₁.total
  nodup := List.nodup_append.mpr ⟨h₂.nodup, h₁.nodup, fun _ ha _ hb he =>
    (h₁.isFree (h₂.mem_isFree ha)).2 (he ▸ hb)⟩
  fresh b hb := by
    rcases List.mem_append.mp hb with hb | hb
    · exact (h₁.isFree (h₂.mem_isFree hb)).1
    · exact h₁.fresh b hb
  test b := by
    rw [h₂.test, h₁.test, List.mem_append, or_assoc, or_comm (a := b ∈ l₁)]
  used := by
    rw [h₂.used, h₁.used, List.length_append, UInt32.ofNat_add, UInt32.add_assoc,
      UInt32.add_comm (UInt32.ofNat l₁.length)]

/-- A successful allocation takes one free block, which is not block 0 if
the pointer is not `NULL`. -/
theorem pmmAllocBlock_taken {s : Pmm} (h : (pmmAllocBlock s).1 ≠ 0) :
    ∃ b, b ≠ 0 ∧ IsFree s b ∧ (pmmAllocBlock s).1 = b * 4096 ∧ Taken s [b] (pmmAllocBlock s).2 := by
  rcases (Taken.refl s).alloc with ⟨b, hb, hclear, -, -, haddr, ht⟩ | ⟨-, hnone⟩
  · exact ⟨b, by omega, ⟨hb, hclear⟩, haddr, ht⟩
  · rw [hnone] at h
    exact absurd rfl h

/-- What `pmm_alloc_block` returns is the address of a block. -/
theorem pmmAllocBlock_addr (s : Pmm) : ∃ b < 2 ^ 20, (pmmAllocBlock s).1 = b * 4096 := by
  rcases pmmAllocBlock_cases s with ⟨b, hb, -, -, he⟩ | ⟨-, he⟩
  · exact ⟨b, Nat.lt_trans hb s.total_lt, by rw [he]⟩
  · exact ⟨0, by decide, by rw [he]⟩

/-! ## First fit -/

/-- The free blocks below block `n`. -/
def freeBelow (s : Pmm) (n : Nat) : Nat :=
  Nat.count (fun b => bitmapTest s b = false) (min n s.totalBlocks)

theorem freeBelow_le_freeCount (s : Pmm) (n : Nat) : freeBelow s n ≤ freeCount s :=
  Nat.count_monotone _ (Nat.min_le_right n s.totalBlocks)

/-- What was taken since `s₀` lies below what is free. -/
def FirstFit (s₀ s : Pmm) : Prop := ∀ b c, IsFree s₀ b → ¬IsFree s b → IsFree s c → b < c

section FirstFit

variable {s₀ s : Pmm} {l : List Nat}

theorem FirstFit.refl (s : Pmm) : FirstFit s s := fun _ _ hb hnot => absurd hb hnot

theorem FirstFit.trans {s' : Pmm} (h : FirstFit s₀ s) (h' : FirstFit s s') (ht : Taken s l s') :
    FirstFit s₀ s' := by
  intro b c hb hnot hc
  by_cases hbs : IsFree s b
  · exact h' b c hbs hnot hc
  · exact h b c hb hbs (ht.isFree hc).1

theorem FirstFit.alloc (h : FirstFit s₀ s) : FirstFit s₀ (pmmAllocBlock s).2 := by
  rcases pmmAllocBlock_cases s with ⟨a, ha, hclear, hbelow, he⟩ | ⟨-, he⟩
  · have ht : Taken s [a] (markUsed s a) := (Taken.refl s).cons ha hclear
    rw [he]
    refine h.trans (fun b c hb hnot hc => ?_) ht
    obtain ⟨hcs, hca⟩ := ht.isFree hc
    -- `b` is the block taken, the lowest free one
    have hba : b = a := by
      by_contra hne
      exact hnot ⟨ht.total ▸ hb.1, ht.test_false.mpr ⟨hb.2, by simpa using hne⟩⟩
    rw [hba]
    have hne : c ≠ a := by simpa using hca
    have hge : ¬c < a := fun hlt => absurd ((hbelow c hlt).symm.trans hcs.2) (by simp)
    omega
  · rw [he]
    exact h

/-- As many blocks as are free below `n` are all taken from there. -/
theorem FirstFit.low {n : Nat} (h : FirstFit s₀ s) (ht : Taken s₀ l s)
    (hroom : l.length ≤ freeBelow s₀ n) : ∀ b ∈ l, b < n := by
  intro b hb
  by_contra hge
  -- with `b` gone, everything that was free below `n` has gone too
  have hsub : (Finset.range (min n s₀.totalBlocks)).filter (fun c => bitmapTest s₀ c = false) ⊆
      l.toFinset.erase b := by
    intro c hc
    rw [Finset.mem_filter, Finset.mem_range] at hc
    rw [Finset.mem_erase, List.mem_toFinset]
    refine ⟨by omega, ?_⟩
    by_contra hnot
    have hfree : IsFree s c := ⟨by rw [ht.total]; omega, ht.test_false.mpr ⟨hc.2, hnot⟩⟩
    have hlt := h b c (ht.mem_isFree hb) (fun hbs => (ht.isFree hbs).2 hb) hfree
    omega
  have hcard := Finset.card_le_card hsub
  rw [← Nat.count_eq_card_filter_range, Finset.card_erase_of_mem (List.mem_toFinset.mpr hb)] at hcard
  have hlen := List.toFinset_card_le l
  have hpos := List.length_pos_of_mem hb
  have hroom' : l.length ≤ Nat.count (fun c => bitmapTest s₀ c = false) (min n s₀.totalBlocks) := hroom
  omega

end FirstFit

/-! ## What a mapping does -/

/-- `k'` is `k` after the entry of the page of `v` under `dir` became `e`.
The frames of `ts` were taken for page tables: none if the slot had a table,
one otherwise. -/
structure Mapped (dir v e : Nat) (ts : List Nat) (k k' : Machine) : Prop where
  taken : Taken k.pmm ts k'.pmm
  sep : Sep (InUse k'.pmm) k'.mem dir
  lookup_eq : ∀ w < 2 ^ 32,
    lookup k'.mem dir w = if w / 4096 = v / 4096 then e else lookup k.mem dir w
  present : Present (pde k.mem dir (pdIndex v)) → ts = []
  absent : ¬Present (pde k.mem dir (pdIndex v)) → ∃ t, ts = [t]
  slot : ∀ t ∈ ts, pde k'.mem dir (pdIndex v) = t * 4096 + 7
  keep : ∀ i < 1024, i ≠ pdIndex v ∨ Present (pde k.mem dir i) →
    pde k'.mem dir i = pde k.mem dir i
  frame : ∀ x, x / 4096 ∉ ts → x / 4096 ≠ dir / 4096 →
    x / 4096 ≠ pde k'.mem dir (pdIndex v) / 4096 → k'.mem x = k.mem x
  regs : k' = { k with mem := k'.mem, pmm := k'.pmm }

/-- A table write alone. -/
theorem mapped_putEntry {k : Machine} {dir v e : Nat} (h : DirOk k dir) (hv : v < 2 ^ 32)
    (he : e < 2 ^ 32) (hp : Present (pde k.mem dir (pdIndex v))) :
    Mapped dir v e [] k { k with mem := putEntry k.mem dir v e } where
  taken := Taken.refl _
  sep := h.of_pde fun _ hi => pde_putEntry h hv hp hi
  lookup_eq _ hw := lookup_putEntry h hv he hp hw
  present _ := rfl
  absent ha := absurd hp ha
  slot _ ht := absurd ht List.not_mem_nil
  keep _ hi _ := pde_putEntry h hv hp hi
  frame x _ _ hx := by
    rw [pde_putEntry h hv hp (pdIndex_lt hv)] at hx
    exact putEntry_of_frame_ne hx
  regs := rfl

/-- A new table, then the table write. -/
theorem mapped_install {k : Machine} {dir v e t : Nat} {s' : Pmm} (h : DirOk k dir)
    (hv : v < 2 ^ 32) (he : e < 2 ^ 32) (habs : ¬Present (pde k.mem dir (pdIndex v)))
    (ht : Taken k.pmm [t] s') :
    Mapped dir v e [t] k
      { k with pmm := s', mem := putEntry (install k.mem dir (pdIndex v) t) dir v e } := by
  have hfree : IsFree k.pmm t := ht.mem_isFree List.mem_cons_self
  have hslot := pdIndex_lt hv
  have htd : t ≠ dir / 4096 := fun heq => hfree.not_inUse (by rw [heq]; exact h.dir_used)
  have hsep : Sep (InUse s') (install k.mem dir (pdIndex v) t) dir :=
    h.install hfree.lt hfree.not_inUse (fun b hb => ht.inUse_iff.mpr (Or.inl hb))
      (ht.inUse_iff.mpr (Or.inr List.mem_cons_self))
  have hpde : ∀ i < 1024, pde (install k.mem dir (pdIndex v) t) dir i
      = if i = pdIndex v then t * 4096 + 7 else pde k.mem dir i :=
    fun i hi => pde_install h.aligned hfree.lt htd hi
  have hp : Present (pde (install k.mem dir (pdIndex v) t) dir (pdIndex v)) := by
    rw [hpde _ hslot, if_pos rfl]
    exact present_entry t
  refine ⟨ht, hsep.of_pde fun i hi => pde_putEntry hsep hv hp hi, fun w hw => ?_,
    fun hpres => absurd hpres habs, fun _ => ⟨t, rfl⟩, fun t' ht' => ?_, fun i hi hk => ?_,
    fun x hxt hxd hxs => ?_, rfl⟩
  · show lookup (putEntry (install k.mem dir (pdIndex v) t) dir v e) dir w = _
    rw [lookup_putEntry hsep hv he hp hw]
    split
    · rfl
    · exact lookup_install h hslot hfree.lt habs hfree.not_inUse hw
  · show pde (putEntry (install k.mem dir (pdIndex v) t) dir v e) dir (pdIndex v) = _
    rw [List.mem_singleton.mp ht', pde_putEntry hsep hv hp hslot, hpde _ hslot, if_pos rfl]
  · show pde (putEntry (install k.mem dir (pdIndex v) t) dir v e) dir i = _
    have hne : i ≠ pdIndex v := fun heq => by
      rcases hk with hk | hk
      · exact hk heq
      · rw [heq] at hk
        exact habs hk
    rw [pde_putEntry hsep hv hp hi, hpde i hi, if_neg hne]
  · show putEntry (install k.mem dir (pdIndex v) t) dir v e x = _
    have hxs' : x / 4096 ≠ pde (install k.mem dir (pdIndex v) t) dir (pdIndex v) / 4096 := by
      rw [← pde_putEntry hsep hv hp hslot (e := e)]
      exact hxs
    rw [putEntry_of_frame_ne hxs']
    exact install_of_frame_ne h.aligned hslot (fun hx => hxt (hx ▸ List.mem_cons_self)) hxd

/-- **`vmm_map_page`.** On a sound directory it maps the page and nothing
else, or halts because the slot has no table and no frame is left for one. -/
theorem vmmMapPage_cases {k : Machine} {p v f : Nat} (h : DirOk k k.currentPageDirectory)
    (hv : v < 2 ^ 32) (he : p ||| f < 2 ^ 32) :
    (∃ ts k', vmmMapPage p v f k = .ok k' ∧ Mapped k.currentPageDirectory v (p ||| f) ts k k') ∨
    (¬Present (pde k.mem k.currentPageDirectory (pdIndex v)) ∧ (pmmAllocBlock k.pmm).1 = 0 ∧
      vmmMapPage p v f k = .error .pageTable) := by
  unfold vmmMapPage
  by_cases hp : Present (pde k.mem k.currentPageDirectory (pdIndex v))
  · rw [if_neg (not_not_intro hp)]
    exact Or.inl ⟨[], _, rfl, mapped_putEntry h hv he hp⟩
  rw [if_pos hp]
  by_cases hnull : (pmmAllocBlock k.pmm).1 = 0
  · rw [if_pos hnull]
    exact Or.inr ⟨hp, hnull, rfl⟩
  rw [if_neg hnull]
  obtain ⟨t, -, hfree, haddr, ht⟩ := pmmAllocBlock_taken hnull
  have htd : t ≠ k.currentPageDirectory / 4096 := fun heq =>
    hfree.not_inUse (by rw [heq]; exact h.dir_used)
  have hflags : t * 4096 ||| flagPresent ||| flagWrite ||| flagUser = t * 4096 + 7 := by
    rw [Nat.or_assoc, Nat.or_assoc]
    exact or_flags (by omega) (by decide)
  have hbase : base (pde (install k.mem k.currentPageDirectory (pdIndex v) t)
      k.currentPageDirectory (pdIndex v)) = t * 4096 := by
    have hlt := hfree.lt
    rw [pde_install h.aligned hlt htd (pdIndex_lt hv), if_pos rfl, base_eq (by omega)]
    omega
  refine Or.inl ⟨[t], _, rfl, ?_⟩
  rw [haddr, hflags]
  have hmap := mapped_install (e := p ||| f) h hv he hp ht
  unfold putEntry at hmap
  rw [hbase] at hmap
  exact hmap

/-- `vmm_unmap_page` clears the page's entry, if its slot has a table. -/
theorem vmmUnmapPage_mapped {k : Machine} {v : Nat} (h : DirOk k k.currentPageDirectory)
    (hv : v < 2 ^ 32) (hp : Present (pde k.mem k.currentPageDirectory (pdIndex v))) :
    Mapped k.currentPageDirectory v 0 [] k (vmmUnmapPage v k) := by
  unfold vmmUnmapPage
  rw [if_pos hp]
  exact mapped_putEntry h hv (by omega) hp

end MyOS
