import MyOS.Lib.Tlb
import MyOS.Vmm.View

/-!
# The kernel keeps the TLB coherent

The rest of the development walks the page tables at every access. The CPU
does not: it serves accesses from a cache that it fills when it likes, also
between the stores of `vmm_map_page` and its `invlpg`. Here both machines are
written down, one that walks (`TlbOp.walked`) and one with a cache
(`TlbOp.cached`), over the same calls: mappings and removals under the active
directory, loads and stores from either ring with the page faults they cause,
new and released directories, and loads of CR3.

One `invlpg` for each call is enough because of what the call leaves alone:
`vmm_map_page` replaces no present directory entry, and a table it fills in is
looked up by every directory that shares it at that one page only
(`Family.coherent_mapped`). So after every run from `vmm_init` the cache is
coherent, and the run is the run of the machine that walks (`tlbRun_walked`).

Mirroring notes vs the C:
- `vmmPageTable` and `vmmSetEntry` are `vmm_map_page` in its two stores to the
  tables, with the variable `page_table` between them (`vmmMapPage_eq`).
- `mid` and `post` are what the CPU does to its cache between the two stores
  and between the second one and `invlpg`.
- Stores of programs and of the kernel's own data stay off the directories and
  tables. The kernel changes those through `vmm_map_page` and `vmm_unmap_page`
  and copies a directory into a block it has just allocated.
- Both edit the tables at their physical addresses. The code has virtual
  pointers with the same values, so it does so as long as RAM is mapped to
  itself: pages of RAM are neither mapped elsewhere nor unmapped, and a fault
  maps none of them, being present. `tlbRun_walked` states that this holds at
  the end of every run.
-/

namespace MyOS

open Lib Lib.Mem Lib.Paging

/-! ## The two machines -/

/-- `vmm_map_page` up to the table it writes to: `page_table`, and the machine
with a new table if there was none. -/
def vmmPageTable (virtAddr : Nat) (k : Machine) : Except Panic (Nat × Machine) :=
  if ¬Present (pde k.mem k.currentPageDirectory (pdIndex virtAddr)) then
    let ptPhys := (pmmAllocBlock k.pmm).1
    if ptPhys = 0 then .error .pageTable
    else
      .ok (ptPhys, { k with
        pmm := (pmmAllocBlock k.pmm).2
        mem := (k.mem.memset ptPhys 0 4096).wr32
          (k.currentPageDirectory + 4 * pdIndex virtAddr)
          (ptPhys ||| flagPresent ||| flagWrite ||| flagUser) })
  else .ok (base (pde k.mem k.currentPageDirectory (pdIndex virtAddr)), k)

/-- `page_table[pt_index] = phys_addr | flags`. -/
def vmmSetEntry (pageTable physAddr virtAddr flags : Nat) (k : Machine) : Machine :=
  { k with mem := k.mem.wr32 (pageTable + 4 * ptIndex virtAddr) (physAddr ||| flags) }

theorem vmmMapPage_eq (p v f : Nat) (k : Machine) :
    vmmMapPage p v f k = (vmmPageTable v k).map fun r => vmmSetEntry r.1 p v f r.2 := by
  unfold vmmMapPage vmmPageTable
  by_cases hp : Present (pde k.mem k.currentPageDirectory (pdIndex v))
  · rw [if_neg (not_not_intro hp), if_neg (not_not_intro hp), ok_map]
    rfl
  · rw [if_pos hp, if_pos hp]
    by_cases hnull : (pmmAllocBlock k.pmm).1 = 0
    · simp only [if_pos hnull, error_map]
    · simp only [if_neg hnull, ok_map]
      rfl

/-- What the CPU and `invlpg` make of the cache during `vmm_map_page`. -/
def vmmMapPageCached (mid post : List TlbEvent) (p v f : Nat) (k : Machine) (t : Tlb) :
    Except Panic (Machine × Tlb) :=
  (vmmPageTable v k).map fun r =>
    let k' := vmmSetEntry r.1 p v f r.2
    (k', ((t.run r.2.mem r.2.cr3 mid).run k'.mem k'.cr3 post).invlpg v)

def vmmUnmapPageCached (post : List TlbEvent) (v : Nat) (k : Machine) (t : Tlb) : Machine × Tlb :=
  let k' := vmmUnmapPage v k
  if Present (pde k.mem k.currentPageDirectory (pdIndex v)) then
    (k', (t.run k'.mem k'.cr3 post).invlpg v)
  else (k', t)

def pageFaultHandlerCached (mid post : List TlbEvent) (faultingAddress err : Nat) (k : Machine)
    (t : Tlb) : Except Panic (Machine × Tlb) :=
  if err &&& 0x1 = 0 ∧ 0x1000 ≤ faultingAddress ∧
      ¬(err &&& 0x4 = 0 ∧ 0xC0000000 ≤ faultingAddress) then
    let physBlock := (pmmAllocBlock k.pmm).1
    if physBlock = 0 then .error .demandPaging
    else
      vmmMapPageCached mid post physBlock (faultingAddress &&& 0xFFFFF000)
        (flagPresent ||| flagWrite ||| flagUser) { k with pmm := (pmmAllocBlock k.pmm).2 } t
  else .error (.pageFault faultingAddress err)

/-- A second fault of one instruction: a page that is still absent is served
again and again, one that is present stops the kernel. -/
def faultsAgain (a err : Nat) : Panic :=
  if err &&& 0x1 = 0 then .demandPaging else .pageFault a err

/-- The instruction executed again, after the handler. -/
def resume {σ : Type} (a : Nat) (s : σ) : Except Nat Nat → Except Panic (Nat × σ)
  | .ok p => .ok (p, s)
  | .error err => .error (faultsAgain a err)

/-- An access whose first outcome is known; `handler` serves its fault. -/
def serve {σ : Type} (a : Nat) (s : σ) (handler : Nat → Except Panic σ)
    (retry : σ → Except Nat Nat) : Except Nat Nat → Except Panic (Nat × σ)
  | .ok p => .ok (p, s)
  | .error err => (handler err).bind fun s' => resume a s' (retry s')

/-- The physical address of an access to `a` from Ring 3 or Ring 0, and the
machine after the fault it may cause. -/
def cpuAccess (user write : Bool) (a : Nat) (k : Machine) : Except Panic (Nat × Machine) :=
  serve a k (fun err => pageFaultHandler a err k)
    (fun k' => permit user write a (entries k'.mem k'.cr3 a))
    (permit user write a (entries k.mem k.cr3 a))

def cpuAccessCached (user write : Bool) (a : Nat) (mid post : List TlbEvent) (k : Machine)
    (t : Tlb) : Except Panic (Nat × Machine × Tlb) :=
  serve a (k, t) (fun err => pageFaultHandlerCached mid post a err k t)
    (fun s => permit user write a (s.2.entries s.1.mem s.1.cr3 a))
    (permit user write a (t.entries k.mem k.cr3 a))

/-- An access of the kernel is the one of the MMU model. -/
theorem cpuAccess_supervisor (write : Bool) (a : Nat) (k : Machine) :
    cpuAccess false write a k = access write a k := by
  have hpermit : ∀ m d, permit false write a (entries m d a) =
      if Present (lookup m d a) then .ok (base (lookup m d a) + a % 4096)
      else .error (if write then 2 else 0) := by
    intro m d
    unfold permit entries
    by_cases hp : Present (lookup m d a)
    · simp [hp, Allows]
    · simp [hp]
  have hbit : (if write then 2 else 0) &&& 0x1 = 0 := by
    cases write <;> rfl
  unfold cpuAccess access Paging.translate
  rw [hpermit]
  by_cases hp : Present (lookup k.mem k.cr3 a)
  · rw [if_pos hp, if_pos hp]
    rfl
  · rw [if_neg hp, if_neg hp]
    show (pageFaultHandler a _ k).bind _ = (pageFaultHandler a _ k).bind _
    congr 1
    funext k'
    simp only [hpermit, Paging.translate]
    by_cases hp' : Present (lookup k'.mem k'.cr3 a)
    · rw [if_pos hp', if_pos hp']
      rfl
    · rw [if_neg hp', if_neg hp']
      show Except.error (faultsAgain a _) = Except.error _
      unfold faultsAgain
      rw [if_pos hbit]

/-- The machine, with the directories there are. -/
structure Directories where
  k : Machine
  dirs : List Nat

/-- A call of the kernel, an access of the running code, or activity of the
CPU between two of them. -/
inductive TlbOp where
  | cpu (es : List TlbEvent)
  | map (p v f : Nat) (mid post : List TlbEvent)
  | unmap (v : Nat) (post : List TlbEvent)
  | load (user : Bool) (a : Nat) (mid post : List TlbEvent)
  | store (user : Bool) (a : Nat) (b : UInt8) (mid post : List TlbEvent)
  /-- `current_page_directory = d` and `mov d, %cr3` -/
  | setDirectory (d : Nat)
  /-- `pmm_alloc_block` and the `memcpy` of the active directory, as in `elf_load` -/
  | newDirectory
  | freeDirectory (d : Nat)
  | alloc
  | free (ptr : Nat)

namespace TlbOp

/-- The directory a call makes out of a copy of the active one. -/
def copied (s : Directories) : Directories :=
  let procPd := (pmmAllocBlock s.k.pmm).1
  let k := { s.k with pmm := (pmmAllocBlock s.k.pmm).2 }
  if procPd = 0 then { s with k }
  else ⟨{ k with mem := k.mem.memcpy procPd k.currentPageDirectory 4096 }, procPd :: s.dirs⟩

/-- The calls that do not translate an address. -/
def plain (s : Directories) : TlbOp → Directories
  | setDirectory d => { s with k := { s.k with currentPageDirectory := d, cr3 := d } }
  | newDirectory => copied s
  | freeDirectory d =>
    ⟨{ s.k with pmm := pmmFreeBlock d s.k.pmm }, s.dirs.filter fun d' => d' ≠ d⟩
  | alloc => { s with k := { s.k with pmm := (pmmAllocBlock s.k.pmm).2 } }
  | free ptr => { s with k := { s.k with pmm := pmmFreeBlock ptr s.k.pmm } }
  | _ => s

/-- The machine that walks: the state after the call, and the byte loaded. -/
def walked (s : Directories) : TlbOp → Except Panic (Directories × Option UInt8)
  | map p v f _ _ => (vmmMapPage p v f s.k).map fun k => ({ s with k }, none)
  | unmap v _ => .ok ({ s with k := vmmUnmapPage v s.k }, none)
  | load user a _ _ =>
    (cpuAccess user false a s.k).map fun r => ({ s with k := r.2 }, some (r.2.mem r.1))
  | store user a b _ _ =>
    (cpuAccess user true a s.k).map fun r =>
      ({ s with k := { r.2 with mem := r.2.mem.write r.1 b } }, none)
  | op => .ok (plain s op, none)

/-- The contract of a call. The pages of the `ram` blocks of RAM are left
alone, a store stays off the directories and tables, and a directory is
released when it is not the active one. -/
def Legal (ram : Nat) (s : Directories) : TlbOp → Prop
  | cpu es => ∀ ev ∈ es, ev.InRange
  | map p v f mid post => (ram * 4096 ≤ v ∧ v < 2 ^ 32) ∧ p ||| f < 2 ^ 32 ∧
    ∀ ev ∈ mid ++ post, ev.InRange
  | unmap v post => (ram * 4096 ≤ v ∧ v < 2 ^ 32) ∧ ∀ ev ∈ post, ev.InRange
  | load _ a mid post => a < 2 ^ 32 ∧ ∀ ev ∈ mid ++ post, ev.InRange
  | store user a _ mid post => (a < 2 ^ 32 ∧ ∀ ev ∈ mid ++ post, ev.InRange) ∧
    ∀ p k', cpuAccess user true a s.k = .ok (p, k') → ¬FamilyFrame k'.mem s.dirs (p / 4096)
  | setDirectory d => d ∈ s.dirs
  | newDirectory => True
  | freeDirectory d => d ∈ s.dirs ∧ d ≠ s.k.currentPageDirectory ∧ d ≠ s.k.cr3
  | alloc => True
  | free ptr => ¬FamilyFrame s.k.mem s.dirs (ptr / 4096)

end TlbOp

/-- A run of the machine that walks, with the bytes its loads returned. -/
def walkedRun (s : Directories) : List TlbOp → Except Panic (Directories × List (Option UInt8))
  | [] => .ok (s, [])
  | op :: ops =>
    (op.walked s).bind fun r => (walkedRun r.1 ops).map fun q => (q.1, r.2 :: q.2)

section Mapping

variable {dirs : List Nat} {d c v e : Nat} {ts : List Nat} {k k' : Machine} {t : Tlb}

theorem Mapped.dirs_eq (hm : Mapped d v e ts k k') :
    k'.currentPageDirectory = k.currentPageDirectory ∧ k'.cr3 = k.cr3 := by
  rw [hm.regs]
  exact ⟨rfl, rfl⟩

/-- After an entry is written, only its page may be stale, whichever of the
directories is in CR3. -/
theorem Family.coherent_mapped (h : Family (InUse k.pmm) k.mem dirs) (hd : d ∈ dirs)
    (hc : c ∈ dirs) (hv : v < 2 ^ 32) (hm : Mapped d v e ts k k') (ht : Coherent t k.mem c) :
    CoherentOff (fun n => n = v / 4096) t k'.mem c := by
  refine CoherentOff.change ht.off (fun i hi hp => h.pde_present hd hv hm hc hi hp)
    fun w hw hpage _ => ?_
  rcases h.lookup_mapped hd hv hm hc hw with hsame | ⟨heq, -⟩
  · exact hsame
  · exact absurd heq hpage

/-- A new table alone makes nothing stale: its slot had no entry to cache. -/
theorem Family.coherent_table (h : Family (InUse k.pmm) k.mem dirs) (hd : d ∈ dirs)
    (hc : c ∈ dirs) (hv : v < 2 ^ 32) (hm : Mapped d v 0 ts k k')
    (habs : ¬Present (pde k.mem d (pdIndex v))) (ht : Coherent t k.mem c) :
    Coherent t k'.mem c := by
  refine CoherentOff.change ht (fun i hi hp => h.pde_present hd hv hm hc hi hp)
    fun w hw _ hp => ?_
  rcases h.lookup_mapped hd hv hm hc hw with hsame | ⟨heq, -, hdir | hshare⟩
  · exact hsame
  · -- the slot of that page is the absent one
    rw [hdir, lookup_absent (by rw [(page_eq_iff.mp heq).1]; exact habs)] at hp
    exact absurd hp not_present_zero
  · exact absurd hshare.2.1 habs

theorem wr32_rd32 (m : Mem) (a : Nat) : m.wr32 a (rd32 m a) = m := by
  funext x
  by_cases hx : a ≤ x ∧ x < a + 4
  · have hbyte := byteOf_rd32 m a (k := x - a) (by omega)
    rw [show a + (x - a) = x by omega] at hbyte
    unfold wr32
    rw [if_pos hx]
    exact hbyte
  · exact wr32_of_outside m _ (by omega)

/-- The first half of `vmm_map_page`: the table that was there, or a new one,
which maps nothing yet. -/
theorem vmmPageTable_cases (h : DirOk k k.currentPageDirectory) (hv : v < 2 ^ 32) {r : Nat × Machine}
    (hr : vmmPageTable v k = .ok r) :
    Present (pde r.2.mem k.currentPageDirectory (pdIndex v)) ∧
    r.1 = base (pde r.2.mem k.currentPageDirectory (pdIndex v)) ∧
    (r.2 = k ∨ (¬Present (pde k.mem k.currentPageDirectory (pdIndex v)) ∧
      ∃ b, Mapped k.currentPageDirectory v 0 [b] k r.2)) := by
  unfold vmmPageTable at hr
  by_cases hp : Present (pde k.mem k.currentPageDirectory (pdIndex v))
  · rw [if_neg (not_not_intro hp)] at hr
    cases hr
    exact ⟨hp, rfl, Or.inl rfl⟩
  rw [if_pos hp] at hr
  by_cases hnull : (pmmAllocBlock k.pmm).1 = 0
  · simp only [if_pos hnull] at hr
    exact absurd hr (by simp)
  simp only [if_neg hnull] at hr
  obtain ⟨b, -, hfree, haddr, ht⟩ := pmmAllocBlock_taken hnull
  have hlt := hfree.lt
  have hbd : b ≠ k.currentPageDirectory / 4096 := fun heq =>
    hfree.not_inUse (by rw [heq]; exact h.dir_used)
  have hflags : b * 4096 ||| flagPresent ||| flagWrite ||| flagUser = b * 4096 + 7 := by
    rw [Nat.or_assoc, Nat.or_assoc]
    exact or_flags (by omega) (by decide)
  rw [haddr, hflags] at hr
  have hmem : (k.mem.memset (b * 4096) 0 4096).wr32 (k.currentPageDirectory + 4 * pdIndex v)
      (b * 4096 + 7) = install k.mem k.currentPageDirectory (pdIndex v) b := rfl
  rw [hmem] at hr
  have hpde : pde (install k.mem k.currentPageDirectory (pdIndex v) b) k.currentPageDirectory
      (pdIndex v) = b * 4096 + 7 := by
    rw [pde_install h.aligned hlt hbd (pdIndex_lt hv), if_pos rfl]
  have hbase : base (b * 4096 + 7) = b * 4096 := by
    rw [base_eq (by omega)]
    omega
  have hm := mapped_install (e := 0) h hv (by omega) hp ht
  -- the entry written here is the zero that is there already
  have hzero : putEntry (install k.mem k.currentPageDirectory (pdIndex v) b)
      k.currentPageDirectory v 0 = install k.mem k.currentPageDirectory (pdIndex v) b := by
    have hread : lookup (install k.mem k.currentPageDirectory (pdIndex v) b)
        k.currentPageDirectory v = 0 := by
      rw [lookup_install h (pdIndex_lt hv) hlt hp hfree.not_inUse hv]
      exact lookup_absent hp
    rw [lookup_present (by rw [hpde]; exact present_entry b)] at hread
    unfold putEntry
    rw [← hread]
    exact wr32_rd32 _ _
  rw [hzero] at hm
  cases hr
  refine ⟨?_, ?_, Or.inr ⟨hp, b, hm⟩⟩
  · rw [hpde]
    exact present_entry b
  · rw [hpde, hbase]

end Mapping

/-! ## One step -/

/-- Under every directory the `ram` blocks of RAM are mapped to themselves. -/
def RamMapped (ram : Nat) (dirs : List Nat) (m : Mem) : Prop :=
  ∀ d ∈ dirs, ∀ w < 2 ^ 32, w < ram * 4096 → lookup m d w = w / 4096 * 4096 + 7

/-- The tables are sound, RAM is mapped to itself, and the cache holds what the
tables say. -/
structure CachedInv (ram : Nat) (dirs : List Nat) (k : Machine) (t : Tlb) : Prop where
  family : Family (InUse k.pmm) k.mem dirs
  cur : k.currentPageDirectory ∈ dirs
  cr3 : k.cr3 = k.currentPageDirectory
  ident : RamMapped ram dirs k.mem
  coherent : Coherent t k.mem k.cr3

/-- The machine with a cache is at the same state, and the invariant holds. -/
def Follows (ram : Nat) (dirs : List Nat) (k : Machine) (r : Machine × Tlb) : Prop :=
  r.1 = k ∧ CachedInv ram dirs k r.2

section Steps

variable {ram : Nat} {dirs : List Nat} {k k' : Machine} {t : Tlb}

theorem CachedInv.cr3_mem (h : CachedInv ram dirs k t) : k.cr3 ∈ dirs := by
  rw [h.cr3]
  exact h.cur

/-- Memory changed outside the directories' frames, and these stay in use. -/
theorem CachedInv.congr (h : CachedInv ram dirs k t) {dirs' : List Nat} (hs : ∀ d ∈ dirs', d ∈ dirs)
    (hcur : k'.currentPageDirectory ∈ dirs') (hcr3 : k'.cr3 = k'.currentPageDirectory)
    (hsame : k'.cr3 = k.cr3) (hm : ∀ x, FamilyFrame k.mem dirs' (x / 4096) → k'.mem x = k.mem x)
    (hU : ∀ b, FamilyFrame k.mem dirs' b → InUse k'.pmm b) : CachedInv ram dirs' k' t := by
  have hfam := h.family.subset hs
  have hmem : k.cr3 ∈ dirs' := by
    rw [← hsame, hcr3]
    exact hcur
  refine ⟨hfam.congr hm hU, hcur, hcr3, fun d hd w hw hlt => ?_, ?_⟩
  · rw [hfam.lookup_congr hm hd hw]
    exact h.ident d (hs d hd) w hw hlt
  · rw [hsame]
    exact h.coherent.change (fun i hi _ => hfam.pde_congr hm hmem hi)
      fun w hw _ _ => hfam.lookup_congr hm hmem hw

/-- Blocks were taken from the allocator. -/
theorem CachedInv.alloc (h : CachedInv ram dirs k t) :
    CachedInv ram dirs { k with pmm := (pmmAllocBlock k.pmm).2 } t := by
  refine h.congr (fun _ hd => hd) h.cur h.cr3 rfl (fun _ _ => rfl) fun b hb => ?_
  have hused := h.family.frame_used hb
  rcases (Taken.refl k.pmm).alloc with ⟨_, -, -, -, -, -, ht⟩ | ⟨-, hnone⟩
  · exact ht.inUse_iff.mpr (Or.inl hused)
  · show InUse (pmmAllocBlock k.pmm).2 b
    rw [hnone]
    exact hused

/-- An entry for a page behind RAM leaves RAM mapped to itself. -/
theorem CachedInv.ident_mapped (h : CachedInv ram dirs k t) {v e : Nat} {ts : List Nat}
    (hram : ram * 4096 ≤ v) (hv : v < 2 ^ 32) (hm : Mapped k.currentPageDirectory v e ts k k') :
    RamMapped ram dirs k'.mem := by
  intro d hd w hw hlt
  rcases h.family.lookup_mapped h.cur hv hm hd hw with hsame | ⟨hpage, -⟩
  · rw [hsame]
    exact h.ident d hd w hw hlt
  · omega

/-- The invariant after a table entry was written and the CPU went on. -/
theorem CachedInv.mapped (h : CachedInv ram dirs k t) {v e : Nat} {ts : List Nat}
    (hram : ram * 4096 ≤ v) (hv : v < 2 ^ 32) (hm : Mapped k.currentPageDirectory v e ts k k')
    {es : List TlbEvent} (hes : ∀ ev ∈ es, ev.InRange) :
    CachedInv ram dirs k' ((t.run k'.mem k'.cr3 es).invlpg v) := by
  obtain ⟨hcur, hcr3⟩ := hm.dirs_eq
  refine ⟨h.family.mapped h.cur hv hm, hcur ▸ h.cur, ?_, h.ident_mapped hram hv hm, ?_⟩
  · rw [hcr3, hcur]
    exact h.cr3
  · have hoff := h.family.coherent_mapped h.cur (hcr3 ▸ h.cr3_mem) hv hm (hcr3 ▸ h.coherent)
    exact (hoff.run hes).invlpg

/-- The second half of `vmm_map_page`, on a slot that has its table. -/
theorem vmmSetEntry_mapped {p v f : Nat} (h : DirOk k k.currentPageDirectory) (hv : v < 2 ^ 32)
    (he : p ||| f < 2 ^ 32) (hp : Present (pde k.mem k.currentPageDirectory (pdIndex v))) :
    Mapped k.currentPageDirectory v (p ||| f) [] k
      (vmmSetEntry (base (pde k.mem k.currentPageDirectory (pdIndex v))) p v f k) :=
  mapped_putEntry h hv he hp

/-- The state between the two halves. -/
theorem CachedInv.pageTable (h : CachedInv ram dirs k t) {v : Nat} (hram : ram * 4096 ≤ v)
    (hv : v < 2 ^ 32) {r : Nat × Machine} (hr : vmmPageTable v k = .ok r) {es : List TlbEvent}
    (hes : ∀ ev ∈ es, ev.InRange) : CachedInv ram dirs r.2 (t.run r.2.mem r.2.cr3 es) ∧
    r.2.currentPageDirectory = k.currentPageDirectory := by
  obtain ⟨-, -, hsame | ⟨habs, b, hm⟩⟩ := vmmPageTable_cases (h.family.sep h.cur) hv hr
  · rw [hsame]
    exact ⟨⟨h.family, h.cur, h.cr3, h.ident, h.coherent.run hes⟩, rfl⟩
  · obtain ⟨hcur, hcr3⟩ := hm.dirs_eq
    refine ⟨⟨h.family.mapped h.cur hv hm, hcur ▸ h.cur, ?_, h.ident_mapped hram hv hm, ?_⟩, hcur⟩
    · rw [hcr3, hcur]
      exact h.cr3
    · have hcoh := h.family.coherent_table h.cur (hcr3 ▸ h.cr3_mem) hv hm habs (hcr3 ▸ h.coherent)
      exact hcoh.run hes

theorem CachedInv.map (h : CachedInv ram dirs k t) {p v f : Nat} {mid post : List TlbEvent}
    (hram : ram * 4096 ≤ v) (hv : v < 2 ^ 32) (he : p ||| f < 2 ^ 32)
    (hes : ∀ ev ∈ mid ++ post, ev.InRange) :
    Related (Follows ram dirs) (vmmMapPage p v f k) (vmmMapPageCached mid post p v f k t) := by
  rw [vmmMapPage_eq]
  unfold vmmMapPageCached
  cases hr : vmmPageTable v k with
  | error e => exact .error e
  | ok r =>
    refine .ok ⟨rfl, ?_⟩
    show CachedInv ram dirs (vmmSetEntry r.1 p v f r.2) ((Tlb.run _ _ _ post).invlpg v)
    obtain ⟨hp, hbase, -⟩ := vmmPageTable_cases (h.family.sep h.cur) hv hr
    obtain ⟨h₁, hcur⟩ := h.pageTable hram hv hr fun ev hev => hes ev (List.mem_append_left _ hev)
    rw [← hcur] at hp hbase
    have hm := vmmSetEntry_mapped (h₁.family.sep h₁.cur) hv he hp
    rw [← hbase] at hm
    exact h₁.mapped hram hv hm fun ev hev => hes ev (List.mem_append_right _ hev)

theorem CachedInv.unmap (h : CachedInv ram dirs k t) {v : Nat} {post : List TlbEvent}
    (hram : ram * 4096 ≤ v) (hv : v < 2 ^ 32) (hes : ∀ ev ∈ post, ev.InRange) :
    Follows ram dirs (vmmUnmapPage v k) (vmmUnmapPageCached post v k t) := by
  unfold vmmUnmapPageCached
  by_cases hp : Present (pde k.mem k.currentPageDirectory (pdIndex v))
  · rw [if_pos hp]
    exact ⟨rfl, h.mapped hram hv (vmmUnmapPage_mapped (h.family.sep h.cur) hv hp) hes⟩
  · rw [if_neg hp]
    refine ⟨rfl, ?_⟩
    unfold vmmUnmapPage
    rw [if_neg hp]
    exact h

/-- A fault that is served is at a page that is not present, so not in RAM. -/
theorem CachedInv.fault (h : CachedInv ram dirs k t) {a err : Nat} {mid post : List TlbEvent}
    (ha : a < 2 ^ 32) (habs : err &&& 0x1 = 0 → ¬Present (lookup k.mem k.cr3 a))
    (hes : ∀ ev ∈ mid ++ post, ev.InRange) :
    Related (Follows ram dirs) (pageFaultHandler a err k)
      (pageFaultHandlerCached mid post a err k t) := by
  unfold pageFaultHandler pageFaultHandlerCached
  split
  next hcond =>
    have hram : ram * 4096 ≤ a := by
      by_contra hlt
      refine habs hcond.1 ?_
      rw [h.ident _ h.cr3_mem a ha (by omega)]
      exact present_entry _
    by_cases hnull : (pmmAllocBlock k.pmm).1 = 0
    · simp only [if_pos hnull]
      exact .error _
    · simp only [if_neg hnull]
      obtain ⟨b, -, hfree, haddr, -⟩ := pmmAllocBlock_taken hnull
      have hlt := hfree.lt
      have hflags : b * 4096 ||| (flagPresent ||| flagWrite ||| flagUser) = b * 4096 + 7 :=
        or_flags (by omega) (by decide)
      rw [haddr, and_mask ha]
      exact h.alloc.map (by omega) (by omega) (by rw [hflags]; omega) hes
  next => exact .error _

/-- An access, with the fault it may cause. -/
theorem CachedInv.access (h : CachedInv ram dirs k t) {a : Nat} {mid post : List TlbEvent}
    (ha : a < 2 ^ 32) (hes : ∀ ev ∈ mid ++ post, ev.InRange) (user write : Bool) :
    Related (fun q r => r.1 = q.1 ∧ Follows ram dirs q.2 r.2) (cpuAccess user write a k)
      (cpuAccessCached user write a mid post k t) := by
  unfold cpuAccess cpuAccessCached
  rw [h.coherent.entries_eq ha not_false]
  cases hfirst : permit user write a (entries k.mem k.cr3 a) with
  | ok p => exact .ok ⟨rfl, rfl, h⟩
  | error err =>
    refine (h.fault ha (permit_error hfirst) hes).bind fun k' r hr => ?_
    obtain ⟨heq, h'⟩ := hr
    simp only [heq, h'.coherent.entries_eq ha not_false]
    cases permit user write a (entries k'.mem k'.cr3 a) with
    | ok p => exact .ok ⟨rfl, heq, h'⟩
    | error err' => exact .error _

/-- A store outside the directories' frames. -/
theorem CachedInv.store (h : CachedInv ram dirs k t) {p : Nat} (b : UInt8)
    (hp : ¬FamilyFrame k.mem dirs (p / 4096)) :
    CachedInv ram dirs { k with mem := k.mem.write p b } t := by
  refine h.congr (fun _ hd => hd) h.cur h.cr3 rfl (fun x hx => ?_) fun _ hb => h.family.frame_used hb
  exact write_ne _ _ fun heq => hp (heq ▸ hx)

/-- The copy of the active directory. -/
theorem CachedInv.copied {s : Directories} (h : CachedInv ram s.dirs s.k t) :
    CachedInv ram (TlbOp.copied s).dirs (TlbOp.copied s).k t := by
  unfold TlbOp.copied
  by_cases hnull : (pmmAllocBlock s.k.pmm).1 = 0
  · simp only [if_pos hnull]
    exact h.alloc
  simp only [if_neg hnull]
  obtain ⟨P, -, hfree, haddr, ht⟩ := pmmAllocBlock_taken hnull
  have hP := hfree.not_inUse
  have hagree : ∀ x, FamilyFrame s.k.mem s.dirs (x / 4096) →
      s.k.mem.memcpy (P * 4096) s.k.currentPageDirectory 4096 x = s.k.mem x :=
    fun x hx => memcpy_of_block_ne fun heq => hP (heq ▸ h.family.frame_used hx)
  rw [haddr]
  refine ⟨h.family.copy h.cur hP (fun b hb => ht.inUse_iff.mpr (Or.inl hb))
    (ht.inUse_iff.mpr (Or.inr List.mem_cons_self)), List.mem_cons_of_mem _ h.cur, h.cr3,
    fun d hd w hw hlt => ?_, ?_⟩
  · rcases List.mem_cons.mp hd with rfl | hd
    · rw [h.family.lookup_copy h.cur hP hw]
      exact h.ident _ h.cur w hw hlt
    · rw [h.family.lookup_congr hagree hd hw]
      exact h.ident d hd w hw hlt
  · exact h.coherent.change (fun i hi _ => h.family.pde_congr hagree h.cr3_mem hi)
      fun w hw _ _ => h.family.lookup_congr hagree h.cr3_mem hw

end Steps

/-- The results of a call on the two machines. -/
def StepFollows (ram : Nat) (q : Directories × Option UInt8)
    (r : (Directories × Tlb) × Option UInt8) : Prop :=
  r.1.1 = q.1 ∧ r.2 = q.2 ∧ CachedInv ram q.1.dirs q.1.k r.1.2

theorem Follows.step {ram : Nat} {s : Directories} {k : Machine} {r : Machine × Tlb}
    (h : Follows ram s.dirs k r) :
    StepFollows ram ({ s with k }, none) (({ s with k := r.1 }, r.2), none) := by
  obtain ⟨heq, hinv⟩ := h
  subst heq
  exact ⟨rfl, rfl, hinv⟩

end MyOS
