import MyOS.Boot.Main
import MyOS.Pmm.Blocks
import MyOS.Vmm.Demand
import MyOS.Vmm.Identity

/-!
# The diagnostic tests of the boot

`kernel_main` tests the memory managers on the machine it is about to run: the
tests allocate, map and write for real, and clean up behind them. Two questions:
can a test fail on a machine that is in order, and is the machine in order
behind it?

The test of the PMM fails only if there are not three free blocks, and leaves
the PMM as it was, bit for bit (`pmmDiagnostics_exact`).

The tests of the VMM pass on the identity map that `vmm_init` leaves
(`vmmDiagnostics_exact`), if five free blocks below 1 GiB are left, too. They
are written for virtual addresses behind the RAM. `0x40000000` is one only up to
1 GiB: with more, test B writes into the RAM that is identity-mapped there, and
unmaps it when it is done. With less, the page fault maps a frame, and
`vmm_unmap_page` does not give it back.

Test B must not write into a page table. `FirstFit` rules that out: the tables
are the lowest blocks that were free.

Mirroring notes vs the C:
- A test that fails halts: `.error` with the test.
-/

namespace MyOS

open Lib Lib.Mem Lib.Paging

/-! ## The PMM -/

/-- The tests of the PMM, by their messages. -/
inductive PmmTest where
  | null
  | align
  | reuse
  | leak
  deriving DecidableEq, Repr

def PmmTest.message : PmmTest → String
  | null => "[Kernel] PMM TEST FAILED: Allocation returned NULL!\n"
  | align => "[Kernel] PMM TEST FAILED: Blocks are not 4KB aligned!\n"
  | reuse => "[Kernel] PMM TEST FAILED: First-fit reuse failed!\n"
  | leak => "[Kernel] PMM TEST FAILED: Memory leak detected! Free blocks did not restore.\n"

/-- The second half: block 2 is freed and must come back, then all three are
freed. -/
def pmmReuseTest (freeBlocks : UInt32) (block1 block2 block3 : Nat) (s : Pmm) :
    Except PmmTest Pmm :=
  let r := pmmAllocBlock (pmmFreeBlock block2 s)
  if r.1 ≠ block2 then .error .reuse
  else
    let s' := pmmFreeBlock block3 (pmmFreeBlock r.1 (pmmFreeBlock block1 r.2))
    if pmmGetFreeBlocks s' ≠ freeBlocks then .error .leak else .ok s'

/-- Step 6 of `kernel_main`. -/
def pmmDiagnostics (s : Pmm) : Except PmmTest Pmm :=
  let a := pmmAllocBlock s
  let b := pmmAllocBlock a.2
  let c := pmmAllocBlock b.2
  if a.1 = 0 ∨ b.1 = 0 ∨ c.1 = 0 then .error .null
  else if a.1 % 4096 ≠ 0 ∨ b.1 % 4096 ≠ 0 ∨ c.1 % 4096 ≠ 0 then .error .align
  else pmmReuseTest (pmmGetFreeBlocks s) a.1 b.1 c.1 c.2

section Pmm

variable {s₀ s : Pmm} {l : List Nat}

/-- With a block left the allocation takes the lowest free one. -/
theorem Taken.alloc_least (h : Taken s₀ l s) (hfree : l.length < MyOS.freeCount s₀) :
    ∃ b, (pmmAllocBlock s).1 = b * 4096 ∧ Taken s₀ (b :: l) (pmmAllocBlock s).2 ∧
      IsLeast {c | IsFree s c} b := by
  have hcount := h.freeCount
  rcases pmmAllocBlock_cases s with ⟨b, hb, hclear, hbelow, he⟩ | ⟨hall, -⟩
  · refine ⟨b, by rw [he], ?_, ⟨hb, hclear⟩, fun c hc => ?_⟩
    · rw [he]
      exact h.cons hb hclear
    · by_contra hlt
      have hused := hbelow c (Nat.lt_of_not_le hlt)
      rw [hc.2] at hused
      exact Bool.false_ne_true hused
  · have hnone := freeCount_eq_zero hall
    omega

/-- A block handed out is not `NULL`. -/
theorem Taken.addr_ne_zero (h : Taken s₀ l s) (hzero : bitmapTest s₀ 0 = true) {b : Nat}
    (hb : b ∈ l) : b * 4096 ≠ 0 := by
  intro hnull
  have hb0 : b = 0 := by omega
  have hclear := (h.fresh b hb).2
  rw [hb0, hzero] at hclear
  exact absurd hclear (by simp)

/-- First fit: a block that was the lowest free one is so again when it is
freed, and what was taken meanwhile does not matter. -/
theorem alloc_freed {s₁ s₃ : Pmm} {a b c : Nat} (h₁ : Taken s₀ [a] s₁)
    (hleast : IsLeast {d | IsFree s₁ d} b) (h₃ : Taken s₀ [c, b, a] s₃) :
    (pmmAllocBlock (pmmFreeBlock (b * 4096) s₃)).1 = b * 4096 ∧
    Taken s₀ [b, c, a] (pmmAllocBlock (pmmFreeBlock (b * 4096) s₃)).2 := by
  have hnodup := h₃.nodup
  have hcb : c ≠ b := by
    rintro rfl
    simp at hnodup
  have h₄ : Taken s₀ [c, a] (pmmFreeBlock (b * 4096) s₃) := by
    have h := h₃.free (b := b) (by simp)
    rw [List.erase_cons_tail (by simpa using hcb), List.erase_cons_head] at h
    exact h
  have hfresh := h₃.fresh b (by simp)
  have hba : b ∉ [c, a] := by
    simp only [List.nodup_cons, List.mem_cons, List.not_mem_nil, or_false] at hnodup ⊢
    rintro (rfl | rfl)
    · exact hcb rfl
    · exact hnodup.2.1 rfl
  have hclear : bitmapTest (pmmFreeBlock (b * 4096) s₃) b = false :=
    h₄.test_false.mpr ⟨hfresh.2, hba⟩
  rcases pmmAllocBlock_cases (pmmFreeBlock (b * 4096) s₃) with
    ⟨d, hd, hdclear, hbelow, he⟩ | ⟨hall, -⟩
  · -- `d` was free when `b` was handed out
    obtain ⟨hd₀, hdnot⟩ := h₄.test_false.mp hdclear
    have hd₁ : IsFree s₁ d := by
      refine ⟨?_, h₁.test_false.mpr ⟨hd₀, fun hda => hdnot (by simp_all)⟩⟩
      rw [h₁.total, ← h₄.total]
      exact hd
    have hle : b ≤ d := hleast.2 hd₁
    have hge : ¬b < d := by
      intro hlt
      rw [hbelow b hlt] at hclear
      exact Bool.false_ne_true hclear.symm
    have heq : d = b := by omega
    rw [heq] at hd
    rw [he, heq]
    exact ⟨rfl, h₄.cons hd hclear⟩
  · rw [hall b (by rw [h₄.total]; exact hfresh.1)] at hclear
    exact absurd hclear (by simp)

/-- The second half passes and gives everything back. -/
theorem pmmReuseTest_ok {s₁ s₃ : Pmm} {a b c : Nat} (h₁ : Taken s₀ [a] s₁)
    (hleast : IsLeast {d | IsFree s₁ d} b) (h₃ : Taken s₀ [c, b, a] s₃) :
    pmmReuseTest (pmmGetFreeBlocks s₀) (a * 4096) (b * 4096) (c * 4096) s₃ = .ok s₀ := by
  obtain ⟨haddr, h₅⟩ := alloc_freed h₁ hleast h₃
  obtain ⟨r, hr⟩ : ∃ r, r = pmmAllocBlock (pmmFreeBlock (b * 4096) s₃) := ⟨_, rfl⟩
  rw [← hr] at haddr h₅
  have hnodup := h₅.nodup
  simp only [List.nodup_cons, List.mem_cons, List.not_mem_nil, or_false, not_or] at hnodup
  obtain ⟨⟨hbc, hba⟩, hca, -⟩ := hnodup
  -- freed in the order of the source: block 1, the reused one, block 3
  have h₆ := h₅.free (b := a) (by simp)
  rw [List.erase_cons_tail (by simpa using hba), List.erase_cons_tail (by simpa using hca),
    List.erase_cons_head] at h₆
  have h₇ := h₆.free (b := b) (by simp)
  rw [List.erase_cons_head] at h₇
  have h₈ := h₇.free (b := c) (by simp)
  rw [List.erase_cons_head] at h₈
  have hback := h₈.eq_of_nil
  unfold pmmReuseTest
  dsimp only
  rw [← hr, haddr, if_neg (fun h => h rfl), hback, if_neg (fun h => h rfl)]

end Pmm

/-- **The test of the PMM.** With block 0 reserved: it passes exactly if three
blocks are free, fails with the message of the `NULL` pointer otherwise, and
leaves the PMM as it was. -/
theorem pmmDiagnostics_exact (s : Pmm) (hzero : bitmapTest s 0 = true) :
    pmmDiagnostics s = if 3 ≤ freeCount s then .ok s else .error .null := by
  obtain ⟨x, hx⟩ : ∃ x, x = pmmAllocBlock s := ⟨_, rfl⟩
  obtain ⟨y, hy⟩ : ∃ y, y = pmmAllocBlock x.2 := ⟨_, rfl⟩
  obtain ⟨z, hz⟩ : ∃ z, z = pmmAllocBlock y.2 := ⟨_, rfl⟩
  unfold pmmDiagnostics
  dsimp only
  rw [← hx, ← hy, ← hz]
  by_cases hfree : 3 ≤ freeCount s
  · obtain ⟨a, ha, h₁, -⟩ := (Taken.refl s).alloc_least (by rw [List.length_nil]; omega)
    rw [← hx] at ha h₁
    obtain ⟨b, hb, h₂, hleast⟩ := h₁.alloc_least (by rw [List.length_singleton]; omega)
    rw [← hy] at hb h₂
    obtain ⟨c, hc, h₃, -⟩ := h₂.alloc_least
      (by simp only [List.length_cons, List.length_nil]; omega)
    rw [← hz] at hc h₃
    have ha0 := h₃.addr_ne_zero hzero (b := a) (by simp)
    have hb0 := h₃.addr_ne_zero hzero (b := b) (by simp)
    have hc0 := h₃.addr_ne_zero hzero (b := c) (by simp)
    have hnull : ¬(x.1 = 0 ∨ y.1 = 0 ∨ z.1 = 0) := by omega
    have halign : ¬(x.1 % 4096 ≠ 0 ∨ y.1 % 4096 ≠ 0 ∨ z.1 % 4096 ≠ 0) := by omega
    rw [if_neg hnull, if_neg halign, if_pos hfree, ha, hb, hc]
    exact pmmReuseTest_ok h₁ hleast h₃
  · -- the allocations stop at the last free block
    rw [if_neg hfree]
    refine if_pos ?_
    by_contra hall
    obtain ⟨ha, hb, hc⟩ : x.1 ≠ 0 ∧ y.1 ≠ 0 ∧ z.1 ≠ 0 :=
      ⟨fun h => hall (Or.inl h), fun h => hall (Or.inr (Or.inl h)),
        fun h => hall (Or.inr (Or.inr h))⟩
    rw [hx] at ha
    obtain ⟨a, -, -, -, h₁⟩ := pmmAllocBlock_taken ha
    rw [← hx] at h₁
    rw [hy] at hb
    obtain ⟨b, -, -, -, h₂⟩ := pmmAllocBlock_taken hb
    rw [← hy] at h₂
    rw [hz] at hc
    obtain ⟨c, -, -, -, h₃⟩ := pmmAllocBlock_taken hc
    rw [← hz] at h₃
    have hcount := ((h₁.trans h₂).trans h₃).freeCount
    simp only [List.length_append, List.length_singleton] at hcount
    omega

/-- Three free blocks, 33, 35 and 37. -/
theorem pmmDiagnostics_forty : pmmDiagnostics fortyBlocks = .ok fortyBlocks := by
  have hexact := pmmDiagnostics_exact fortyBlocks (by decide)
  have hthree : 3 ≤ freeCount fortyBlocks := by decide +kernel
  rw [if_pos hthree] at hexact
  exact hexact

/-! ## First fit -/

section FirstFit

variable {s₀ : Pmm} {k k' : Machine}

theorem FirstFit.map {p v f : Nat} (h : FirstFit s₀ k.pmm) (hrun : vmmMapPage p v f k = .ok k') :
    FirstFit s₀ k'.pmm := by
  unfold vmmMapPage at hrun
  split at hrun
  · dsimp only at hrun
    split at hrun
    · exact absurd hrun (by simp)
    · cases hrun
      exact h.alloc
  · cases hrun
    exact h

theorem FirstFit.identityMap (h : FirstFit s₀ k.pmm) :
    ∀ {n : Nat} {k' : Machine}, MyOS.identityMap n k = .ok k' → FirstFit s₀ k'.pmm := by
  intro n
  induction n with
  | zero =>
    intro k' hrun
    cases hrun
    exact h
  | succ n ih =>
    intro k' hrun
    obtain ⟨k₁, hrest, hmap⟩ := bind_eq_ok hrun
    exact (ih hrest).map hmap

theorem firstFit_init (hrun : vmmInit k = .ok k') : FirstFit k.pmm k'.pmm := by
  unfold vmmInit at hrun
  dsimp only at hrun
  split at hrun
  · exact absurd hrun (by simp)
  · obtain ⟨k₁, hmap, rfl⟩ := map_eq_ok hrun
    have hfit : FirstFit k.pmm k₁.pmm := FirstFit.identityMap (FirstFit.refl k.pmm).alloc hmap
    exact hfit

end FirstFit

/-! ## A word through the page tables -/

section Words

variable {k : Machine} {a v f : Nat}

/-- The bytes of a word at mapped addresses. -/
theorem vwriteBytes_spec {n : Nat} {d : Nat → Nat} (hdir : k.cr3 % 4096 = 0)
    (hdest : ∀ i < n, translate k.mem k.cr3 ((a + i) % 2 ^ 32) = some (d i))
    (hd : ∀ i < n, ¬Frames k.mem k.cr3 (d i / 4096)) (hinj : ∀ i < n, ∀ j < n, d i = d j → i = j) :
    ∃ m, vwriteBytes a v n k = .ok { k with mem := m } ∧ (∀ i < n, m (d i) = byteOf v i) ∧
      ∀ x, (∀ i < n, x ≠ d i) → m x = k.mem x := by
  induction n with
  | zero => exact ⟨k.mem, rfl, fun i hi => absurd hi (Nat.not_lt_zero i), fun _ _ => rfl⟩
  | succ n ih =>
    obtain ⟨m, hrun, hval, hrest⟩ := ih (fun i hi => hdest i (by omega))
      (fun i hi => hd i (by omega)) fun i hi j hj => hinj i (by omega) j (by omega)
    -- the bytes written so far are in no page table
    have htr : translate m k.cr3 ((a + n) % 2 ^ 32) = some (d n) := by
      rw [translate_of_writes hdir (fun i hi => hd i (by omega)) hrest (Nat.mod_lt _ (by omega))]
      exact hdest n (by omega)
    refine ⟨m.write (d n) (byteOf v n), ?_, fun i hi => ?_, fun x hx => ?_⟩
    · unfold vwriteBytes
      rw [hrun, ok_bind, vwrite_mapped (k := { k with mem := m }) _ htr]
    · rcases Nat.lt_succ_iff_lt_or_eq.mp hi with hin | hin
      · rw [write_ne _ _ fun he => absurd (hinj i hi n (by omega) he) (by omega), hval i hin]
      · rw [hin, write_self]
    · rw [write_ne _ _ (hx n (by omega))]
      exact hrest x fun i hi => hx i (by omega)

/-- `*p = v` and `*p` again, at the start of a mapped page whose frame `f` is no
page table. -/
theorem writeBack_spec (hdir : k.cr3 % 4096 = 0) (ha : a % 4096 = 0) (halt : a < 2 ^ 32)
    (hp : Present (lookup k.mem k.cr3 a)) (hf : lookup k.mem k.cr3 a / 4096 = f)
    (hd : ¬Frames k.mem k.cr3 f) (hv : v < 2 ^ 32) :
    ∃ m, writeBack a v k = .ok (v, { k with mem := m }) ∧
      ∀ x, x / 4096 ≠ f → m x = k.mem x := by
  have hdest : ∀ i < 4, translate k.mem k.cr3 ((a + i) % 2 ^ 32) = some (f * 4096 + i) := by
    intro i hi
    have hpage : (a + i) % 2 ^ 32 / 4096 = a / 4096 := by omega
    have hlook : lookup k.mem k.cr3 ((a + i) % 2 ^ 32) = lookup k.mem k.cr3 a := lookup_page hpage
    rw [translate_of_present (by rw [hlook]; exact hp), hlook, hf]
    congr 1
    omega
  have hframe : ∀ i < 4, (f * 4096 + i) / 4096 = f := fun i hi => by omega
  have hdata : ∀ i < 4, ¬Frames k.mem k.cr3 ((f * 4096 + i) / 4096) := by
    intro i hi
    rw [hframe i hi]
    exact hd
  obtain ⟨m, hwrite, hval, hrest⟩ := vwriteBytes_spec (v := v) hdir hdest hdata
    fun i hi j hj he => by omega
  have hdest' : ∀ i < 4, translate m k.cr3 ((a + i) % 2 ^ 32) = some (f * 4096 + i) := by
    intro i hi
    rw [translate_of_writes hdir hdata hrest (Nat.mod_lt _ (by omega))]
    exact hdest i hi
  obtain ⟨buf, hread, hbuf, -⟩ := vcopyOut_spec (k := { k with mem := m }) hdest'
  have hword : rd32 buf 0 = v := by
    refine rd32_of_bytes hv fun i hi => ?_
    rw [Nat.zero_add, hbuf i hi]
    exact hval i hi
  refine ⟨m, ?_, fun x hx => hrest x fun i hi hxi => hx (by rw [hxi]; exact hframe i hi)⟩
  unfold writeBack vwrite32
  rw [hwrite, ok_bind]
  unfold vread32
  rw [hread, ok_map, hword]

/-- A page fault in front of it, if the handler maps the page. -/
theorem writeBack_fault {k' : Machine} {p : Nat} (halt : a < 2 ^ 32)
    (habs : translate k.mem k.cr3 a = none) (hfault : pageFaultHandler a 0x2 k = .ok k')
    (hp : translate k'.mem k'.cr3 a = some p) : writeBack a v k = writeBack a v k' := by
  have haccess : access true a k = .ok (p, k') := by
    unfold access
    rw [habs]
    unfold accessAt
    rw [if_pos rfl, hfault, ok_bind, hp]
    rfl
  have hfirst : ∀ b, vwrite a b k = vwrite a b k' := by
    intro b
    rw [vwrite_mapped b hp]
    unfold vwrite
    rw [haccess, ok_map]
  have hloop : ∀ n, vwriteBytes a v (n + 1) k = vwriteBytes a v (n + 1) k' := by
    intro n
    induction n with
    | zero =>
      have hmod : (a + 0) % 2 ^ 32 = a := Nat.mod_eq_of_lt halt
      unfold vwriteBytes vwriteBytes
      rw [ok_bind, ok_bind, hmod]
      exact hfirst _
    | succ n ih =>
      rw [vwriteBytes, ih]
      rfl
  unfold writeBack vwrite32
  rw [hloop 3]

end Words

/-! ## What the tests have done so far -/

/-- The blocks `l` have gone since the PMM was `s₀`. Under the directory the
entries are `M`, and the slots in `P` have tables. What was in use then has the
bytes of `m₀`. -/
structure Tested (s₀ : Pmm) (m₀ : Mem) (dir : Nat) (M : Nat → Nat) (P : Nat → Prop) (l : List Nat)
    (o : Paged) : Prop where
  inv : PagedInv dir M o
  cr3 : o.k.cr3 = dir
  slots : ∀ i < 1024, Present (pde o.k.mem dir i) ↔ P i
  taken : Taken s₀ l o.k.pmm
  fresh : FreshDir s₀ m₀ dir o.k

section Tested

variable {s₀ : Pmm} {m₀ : Mem} {dir : Nat} {M : Nat → Nat} {P : Nat → Prop} {l own : List Nat}
  {k : Machine}

theorem Tested.dirOk (h : Tested s₀ m₀ dir M P l ⟨k, own⟩) : DirOk k k.currentPageDirectory := by
  have hcur : k.currentPageDirectory = dir := h.inv.cur
  rw [hcur]
  exact h.inv.dirOk

/-- No frame of the directory is the tests' own. -/
theorem Tested.not_frames (h : Tested s₀ m₀ dir M P l ⟨k, own⟩) {b : Nat} (hb : b * 4096 ∈ own) :
    ¬Frames k.mem dir b := fun hf => (h.inv.sep.toBacked.frames hf).2 hb

/-- Nor is `n`, if all that has gone lies below. -/
theorem Tested.not_frames_of_low {n : Nat} (h : Tested s₀ m₀ dir M P l ⟨k, own⟩)
    (hlow : ∀ b ∈ l, b < n) : ¬Frames k.mem dir n := by
  intro hf
  have hfree : IsFree s₀ n := h.fresh.frames n hf
  have hused : InUse k.pmm n := (h.inv.sep.toBacked.frames hf).1
  have hmem := (h.taken.inUse_iff.mp hused).resolve_left hfree.not_inUse
  exact Nat.lt_irrefl n (hlow n hmem)

theorem Tested.alloc (h : Tested s₀ m₀ dir M P l ⟨k, own⟩) (hzero : bitmapTest s₀ 0 = true)
    (hroom : l.length < freeCount s₀) :
    ∃ b, (pmmAllocBlock k.pmm).1 = b * 4096 ∧ b * 4096 ≠ 0 ∧ IsFree s₀ b ∧
      Tested s₀ m₀ dir M P (b :: l)
        ⟨{ k with pmm := (pmmAllocBlock k.pmm).2 }, b * 4096 :: own⟩ := by
  obtain ⟨b, haddr, ht, -⟩ := h.taken.alloc_least hroom
  have hne := ht.addr_ne_zero hzero (b := b) List.mem_cons_self
  have haddr' : (pmmAllocBlock k.pmm).1 = b * 4096 := haddr
  obtain ⟨o', hrun, hinv⟩ := h.inv.alloc
  simp only [VmmOp.apply] at hrun
  rw [if_neg (by rw [haddr']; exact hne), haddr'] at hrun
  cases hrun
  exact ⟨b, haddr', hne, ht.mem_isFree List.mem_cons_self, hinv, h.cr3, h.slots, ht,
    ⟨_, ht⟩, h.fresh.frames, h.fresh.mem⟩

/-- One more entry, and a table for it if there was none. -/
theorem Tested.mapped {v e : Nat} {ts : List Nat} {k' : Machine}
    (h : Tested s₀ m₀ dir M P l ⟨k, own⟩) (hv : v < 2 ^ 32) (hm : Mapped dir v e ts k k') :
    Tested s₀ m₀ dir (Function.update M (v / 4096) e) (fun i => P i ∨ i = pdIndex v) (ts ++ l)
      ⟨k', own⟩ := by
  refine ⟨h.inv.mapped hm, ?_, fun i hi => ?_, h.taken.trans hm.taken, h.fresh.mapped hv hm⟩
  · have hcr3 := congrArg Machine.cr3 hm.regs
    exact hcr3.trans h.cr3
  · show Present (pde k'.mem dir i) ↔ _
    by_cases hiv : i = pdIndex v
    · rw [hiv]
      exact ⟨fun _ => Or.inr rfl, fun _ => hm.slot_present hv⟩
    · rw [hm.keep i hi (Or.inl hiv)]
      exact (h.slots i hi).trans ⟨Or.inl, fun hP => hP.resolve_right hiv⟩

theorem Tested.map {p v f : Nat} (h : Tested s₀ m₀ dir M P l ⟨k, own⟩)
    (hzero : bitmapTest s₀ 0 = true) (hv : v < 2 ^ 32) (he : p ||| f < 2 ^ 32)
    (hroom : P (pdIndex v) ∨ l.length < freeCount s₀) :
    ∃ ts k', vmmMapPage p v f k = .ok k' ∧ (P (pdIndex v) → ts = []) ∧
      (¬P (pdIndex v) → ts.length = 1) ∧
      Tested s₀ m₀ dir (Function.update M (v / 4096) (p ||| f)) (fun i => P i ∨ i = pdIndex v)
        (ts ++ l) ⟨k', own⟩ := by
  have hcur : k.currentPageDirectory = dir := h.inv.cur
  have hslot : Present (pde k.mem dir (pdIndex v)) ↔ P (pdIndex v) := h.slots _ (pdIndex_lt hv)
  rcases vmmMapPage_cases h.dirOk hv he with ⟨ts, k', hrun, hm⟩ | ⟨habs, hnull, -⟩
  · rw [hcur] at hm
    refine ⟨ts, k', hrun, fun hP => hm.present (hslot.mpr hP), fun hP => ?_, h.mapped hv hm⟩
    obtain ⟨t, rfl⟩ := hm.absent fun hp => hP (hslot.mp hp)
    rfl
  · -- there is a block left for the table
    rw [hcur] at habs
    have hlt := hroom.resolve_left fun hP => habs (hslot.mpr hP)
    obtain ⟨b, haddr, hne, -⟩ := h.alloc hzero hlt
    exact absurd (haddr.symm.trans hnull) hne

theorem Tested.unmap {v : Nat} (h : Tested s₀ m₀ dir M P l ⟨k, own⟩) (hv : v < 2 ^ 32)
    (hP : P (pdIndex v)) :
    Tested s₀ m₀ dir (Function.update M (v / 4096) 0) P l ⟨vmmUnmapPage v k, own⟩ := by
  have hcur : k.currentPageDirectory = dir := h.inv.cur
  have hp : Present (pde k.mem k.currentPageDirectory (pdIndex v)) := by
    rw [hcur]
    exact (h.slots _ (pdIndex_lt hv)).mpr hP
  have hm := vmmUnmapPage_mapped h.dirOk hv hp
  rw [hcur] at hm
  have hnew := h.mapped hv hm
  refine { hnew with slots := fun i hi => (hnew.slots i hi).trans ⟨fun hi' => ?_, Or.inl⟩ }
  rcases hi' with hi' | rfl
  · exact hi'
  · exact hP

/-- Bytes of a block that is no frame of the directory. -/
theorem Tested.write {m : Mem} {f : Nat} (h : Tested s₀ m₀ dir M P l ⟨k, own⟩)
    (hf : ¬Frames k.mem dir f) (hm : ∀ x, x / 4096 ≠ f → m x = k.mem x) :
    ∃ m₁ : Mem, (∀ x, x / 4096 ≠ f → m₁ x = m₀ x) ∧ (IsFree s₀ f → m₁ = m₀) ∧
      Tested s₀ m₁ dir M P l ⟨{ k with mem := m }, own⟩ := by
  have hback := backed_frames (m := k.mem) h.inv.sep.aligned
  have hoff : ∀ x, Frames k.mem dir (x / 4096) → m x = k.mem x := fun x hx =>
    hm x fun heq => hf (heq ▸ hx)
  have hpde : ∀ i < 1024, pde m dir i = pde k.mem dir i := fun i hi => hback.pde_congr hoff hi
  have hframes : ∀ b, Frames m dir b → Frames k.mem dir b := by
    rintro b (hb | ⟨i, hi, hp, hb⟩)
    · exact Or.inl hb
    · rw [hpde i hi] at hp hb
      exact Or.inr ⟨i, hi, hp, hb⟩
  -- a block that was in use has new bytes, and `m₁` takes them over
  refine ⟨fun x => if x / 4096 = f ∧ ¬IsFree s₀ f then m x else m₀ x,
    fun x hx => if_neg fun h => hx h.1, fun hfree => funext fun x => if_neg fun h => h.2 hfree, ?_⟩
  refine ⟨⟨h.inv.cur, h.inv.sep.of_pde hpde, fun v hv => ?_, h.inv.nodup, h.inv.owned⟩, h.cr3,
    fun i hi => ?_, h.taken, h.fresh.taken, fun b hb => h.fresh.frames b (hframes b hb),
    fun x hx => ?_⟩
  · exact (hback.lookup_congr hoff hv).trans (h.inv.look v hv)
  · show Present (pde m dir i) ↔ _
    rw [hpde i hi]
    exact h.slots i hi
  · show m x = if x / 4096 = f ∧ ¬IsFree s₀ f then m x else m₀ x
    by_cases hxf : x / 4096 = f
    · rw [if_pos ⟨hxf, hxf ▸ hx⟩]
    · rw [if_neg fun h => hxf h.1, hm x hxf]
      exact h.fresh.mem x hx

theorem Tested.free {b : Nat} (h : Tested s₀ m₀ dir M P l ⟨k, own⟩) (hb : b ∈ l)
    (hown : b * 4096 ∈ own) :
    Tested s₀ m₀ dir M P (l.erase b)
      ⟨{ k with pmm := pmmFreeBlock (b * 4096) k.pmm }, own.erase (b * 4096)⟩ :=
  have ht := h.taken.free hb
  ⟨h.inv.free hown, h.cr3, h.slots, ht, ⟨_, ht⟩, h.fresh.frames, h.fresh.mem⟩

/-- `*p = v` and `*p` again at the start of a page that is mapped to `f`. -/
theorem Tested.writeBack {v w f e : Nat} (h : Tested s₀ m₀ dir M P l ⟨k, own⟩) (hv : v % 4096 = 0)
    (hvlt : v < 2 ^ 32) (hw : w < 2 ^ 32) (hM : M (v / 4096) = e) (hp : Present e)
    (he : e / 4096 = f) (hf : ¬Frames k.mem dir f) :
    ∃ m₁ k', MyOS.writeBack v w k = .ok (w, k') ∧ (∀ x, x / 4096 ≠ f → m₁ x = m₀ x) ∧
      (IsFree s₀ f → m₁ = m₀) ∧ Tested s₀ m₁ dir M P l ⟨k', own⟩ := by
  have hcr3 : k.cr3 = dir := h.cr3
  have hlook : lookup k.mem k.cr3 v = e := by
    rw [hcr3, ← hM]
    exact h.inv.look v hvlt
  have hframe : lookup k.mem k.cr3 v / 4096 = f := by rw [hlook]; exact he
  obtain ⟨m, hrun, hm⟩ := writeBack_spec (by rw [hcr3]; exact h.inv.sep.aligned) hv hvlt
    (by rw [hlook]; exact hp) hframe (by rw [hcr3]; exact hf) hw
  obtain ⟨m₁, hm₁, hsame, hnew⟩ := h.write hf hm
  exact ⟨m₁, _, hrun, hm₁, hsame, hnew⟩

/-- A block from the PMM, mapped at `v`. -/
theorem Tested.mapNew {v f : Nat} (h : Tested s₀ m₀ dir M P l ⟨k, own⟩)
    (hzero : bitmapTest s₀ 0 = true) (hv : v < 2 ^ 32) (hf : f < 4096)
    (hroom : l.length + 2 ≤ freeCount s₀) :
    ∃ b ts k', (pmmAllocBlock k.pmm).1 = b * 4096 ∧ b * 4096 ≠ 0 ∧ IsFree s₀ b ∧
      vmmMapPage (b * 4096) v f { k with pmm := (pmmAllocBlock k.pmm).2 } = .ok k' ∧
      (P (pdIndex v) → ts = []) ∧ (¬P (pdIndex v) → ts.length = 1) ∧
      Tested s₀ m₀ dir (Function.update M (v / 4096) (b * 4096 + f)) (fun i => P i ∨ i = pdIndex v)
        (ts ++ b :: l) ⟨k', b * 4096 :: own⟩ := by
  obtain ⟨b, haddr, hne, hfree, halloc⟩ := h.alloc hzero (by omega)
  have hlt := hfree.lt
  have hflags : b * 4096 ||| f = b * 4096 + f := or_flags (by omega) hf
  obtain ⟨ts, k', hmap, hold, hnew, hmapped⟩ := halloc.map (p := b * 4096) (f := f) hzero hv
    (by rw [hflags]; omega) (Or.inr (by rw [List.length_cons]; omega))
  rw [hflags] at hmapped
  exact ⟨b, ts, k', haddr, hne, hfree, hmap, hold, hnew, hmapped⟩

/-- A page of its own at `v`, a word written there and read again, and the
page unmapped. -/
theorem Tested.tryPage {v w : Nat} (h : Tested s₀ m₀ dir M P l ⟨k, own⟩)
    (hzero : bitmapTest s₀ 0 = true) (hv : v % 4096 = 0) (hvlt : v < 2 ^ 32) (hw : w < 2 ^ 32)
    (hroom : l.length + 2 ≤ freeCount s₀) :
    ∃ b ts k₁ k₂, (pmmAllocBlock k.pmm).1 = b * 4096 ∧ b * 4096 ≠ 0 ∧
      vmmMapPage (b * 4096) v (flagPresent ||| flagWrite ||| flagUser)
        { k with pmm := (pmmAllocBlock k.pmm).2 } = .ok k₁ ∧
      MyOS.writeBack v w k₁ = .ok (w, k₂) ∧ (P (pdIndex v) → ts = []) ∧
      (¬P (pdIndex v) → ts.length = 1) ∧
      Tested s₀ m₀ dir (Function.update M (v / 4096) (b * 4096 + 7)) (fun i => P i ∨ i = pdIndex v)
        (ts ++ b :: l) ⟨k₁, b * 4096 :: own⟩ ∧
      Tested s₀ m₀ dir (Function.update M (v / 4096) 0) (fun i => P i ∨ i = pdIndex v)
        (ts ++ b :: l) ⟨vmmUnmapPage v k₂, b * 4096 :: own⟩ := by
  obtain ⟨b, ts, k₁, haddr, hne, hfree, hmap, hold, hnew, h₁⟩ :=
    h.mapNew (f := flagPresent ||| flagWrite ||| flagUser) hzero hvlt (by decide) hroom
  have hframe : (b * 4096 + 7) / 4096 = b := by omega
  obtain ⟨m₁, k₂, hwrite, -, hsame, h₂⟩ := h₁.writeBack hv hvlt hw (Function.update_self ..)
    (present_entry b) hframe (h₁.not_frames List.mem_cons_self)
  -- the block was free, so `m₀` says nothing about it
  rw [hsame hfree] at h₂
  have h₃ := h₂.unmap hvlt (Or.inr rfl)
  rw [Function.update_idem] at h₃
  exact ⟨b, ts, k₁, k₂, haddr, hne, hmap, hwrite, hold, hnew, h₁, h₃⟩

/-- Test A leaves a page table behind, if there was none, and the page
unmapped. In between it holds a block. -/
theorem Tested.testA (h : Tested s₀ m₀ dir M P l ⟨k, own⟩) (hzero : bitmapTest s₀ 0 = true)
    (hroom : l.length + 2 ≤ freeCount s₀) :
    ∃ ts k', vmmTestA k = .ok k' ∧ (P 0x280 → ts = []) ∧ (¬P 0x280 → ts.length = 1) ∧
      (FirstFit s₀ k.pmm → ∃ b s, FirstFit s₀ s ∧ Taken s₀ (ts ++ b :: l) s) ∧
      Tested s₀ m₀ dir (Function.update M 0xA0000 0) (fun i => P i ∨ i = 0x280) (ts ++ l)
        ⟨k', own⟩ := by
  obtain ⟨b, ts, k₁, k₂, haddr, hne, hmap, hwrite, hold, hnew, h₁, h₂⟩ :=
    h.tryPage (v := 0xA0000000) (w := 0xCAFEBABE) hzero (by omega) (by omega) (by omega) hroom
  have hslot : pdIndex 0xA0000000 = 0x280 := by decide
  have hpage : 0xA0000000 / 4096 = 0xA0000 := by omega
  rw [hslot] at hold hnew
  rw [hslot, hpage] at h₂
  have hb : b ∉ ts := fun hmem =>
    List.disjoint_of_nodup_append h₂.taken.nodup hmem List.mem_cons_self
  have h₃ := h₂.free (b := b) (List.mem_append_right _ List.mem_cons_self) List.mem_cons_self
  rw [List.erase_append_right _ hb, List.erase_cons_head, List.erase_cons_head] at h₃
  have hfit : FirstFit s₀ k.pmm → FirstFit s₀ k₁.pmm := fun hfit => FirstFit.map hfit.alloc hmap
  refine ⟨ts, _, ?_, hold, hnew, fun h => ⟨b, k₁.pmm, hfit h, h₁.taken⟩, h₃⟩
  unfold vmmTestA
  dsimp only
  rw [haddr, if_neg hne, hmap, ok_bind, hwrite, ok_mapError, ok_bind]
  exact if_neg fun hfail => hfail rfl

/-- Test B with RAM at the page: the signature is written there, and the page
unmapped. -/
theorem Tested.testB_mapped (h : Tested s₀ m₀ dir M P l ⟨k, own⟩)
    (hM : M 0x40000 = 0x40000 * 4096 + 7) (hP : P 0x100) (hf : ¬Frames k.mem dir 0x40000) :
    ∃ m₁ k', vmmTestB k = .ok k' ∧ (∀ x, x / 4096 ≠ 0x40000 → m₁ x = m₀ x) ∧
      Tested s₀ m₁ dir (Function.update M 0x40000 0) P l ⟨k', own⟩ := by
  have hslot : pdIndex 0x40000000 = 0x100 := by decide
  have hpage : 0x40000000 / 4096 = 0x40000 := by omega
  obtain ⟨m₁, k₁, hwrite, hm₁, -, h₁⟩ := h.writeBack (v := 0x40000000) (w := 0x12345678)
    (f := 0x40000) (by omega) (by omega) (by omega) (by rw [hpage]; exact hM) (present_entry _)
    (by omega) hf
  have h₂ := h₁.unmap (v := 0x40000000) (by omega) (by rw [hslot]; exact hP)
  rw [hpage] at h₂
  refine ⟨m₁, _, ?_, hm₁, h₂⟩
  unfold vmmTestB
  rw [hwrite, ok_mapError, ok_bind]
  exact if_neg fun hfail => hfail rfl

/-- Test B with nothing mapped there: a table and the frame of the page fault
are gone. -/
theorem Tested.testB_absent (h : Tested s₀ m₀ dir M P l ⟨k, own⟩) (hzero : bitmapTest s₀ 0 = true)
    (hM : M 0x40000 = 0) (hP : ¬P 0x100) (hroom : l.length + 2 ≤ freeCount s₀) :
    ∃ ts k' own', vmmTestB k = .ok k' ∧ ts.length = 2 ∧
      Tested s₀ m₀ dir (Function.update M 0x40000 0) (fun i => P i ∨ i = 0x100) (ts ++ l)
        ⟨k', own'⟩ := by
  obtain ⟨b, ts, k₁, k₂, haddr, hne, hmap, hwrite, -, hnew, h₁, h₂⟩ :=
    h.tryPage (v := 0x40000000) (w := 0x12345678) hzero (by omega) (by omega) (by omega) hroom
  have hslot : pdIndex 0x40000000 = 0x100 := by decide
  have hpage : 0x40000000 / 4096 = 0x40000 := by omega
  rw [hslot] at hnew
  rw [hslot, hpage, List.append_cons] at h₂
  -- the first byte faults, and the handler maps the block
  have habs : translate k.mem k.cr3 0x40000000 = none := by
    have hcr3 : k.cr3 = dir := h.cr3
    have hlook : lookup k.mem dir 0x40000000 = 0 :=
      (h.inv.look _ (by omega)).trans (by rw [hpage, hM])
    unfold Paging.translate
    rw [hcr3, hlook, if_neg not_present_zero]
  have hpresent : translate k₁.mem k₁.cr3 0x40000000 = some (b * 4096 + 0x40000000 % 4096) := by
    have hcr3 : k₁.cr3 = dir := h₁.cr3
    rw [hcr3]
    exact translate_of_lookup ((h₁.inv.look _ (by omega)).trans (Function.update_self ..))
  have hfault : pageFaultHandler 0x40000000 0x2 k = .ok k₁ := by
    unfold pageFaultHandler
    rw [if_pos (by decide)]
    dsimp only
    rw [haddr, if_neg hne, and_mask (by omega)]
    exact hmap
  rw [← writeBack_fault (by omega) habs hfault hpresent] at hwrite
  refine ⟨ts ++ [b], _, _, ?_, ?_, h₂⟩
  · unfold vmmTestB
    rw [hwrite, ok_mapError, ok_bind]
    exact if_neg fun hfail => hfail rfl
  · rw [List.length_append, hnew hP, List.length_singleton]

/-- The page for the kernel alone. -/
theorem Tested.security (h : Tested s₀ m₀ dir M P l ⟨k, own⟩) (hzero : bitmapTest s₀ 0 = true)
    (hroom : l.length + 2 ≤ freeCount s₀) :
    ∃ b ts k' own', securityPage k = .ok k' ∧ IsFree s₀ b ∧ (¬P 0x340 → ts.length = 1) ∧
      Tested s₀ m₀ dir (Function.update M 0xD0000 (b * 4096 + 3)) (fun i => P i ∨ i = 0x340)
        (ts ++ b :: l) ⟨k', own'⟩ := by
  obtain ⟨b, ts, k₁, haddr, hne, hfree, hmap, -, hnew, h₁⟩ :=
    h.mapNew (v := 0xD0000000) (f := flagPresent ||| flagWrite) hzero (by omega) (by decide) hroom
  refine ⟨b, ts, k₁, _, ?_, hfree, hnew, h₁⟩
  unfold securityPage
  dsimp only
  rw [haddr, if_neg hne, hmap, ok_mapError]

end Tested

/-! ## The VMM -/

/-- The tests behind `vmm_init`, in a row. -/
def vmmDiagnostics (k : Machine) : Except BootStop Machine :=
  (vmmTestA k).bind fun k₁ => (vmmTestB k₁).bind securityPage

theorem vmmDiagnostics_bind {α : Type} (k : Machine) (f : Machine → Except BootStop α) :
    (vmmDiagnostics k).bind f = (vmmTestA k).bind fun k₁ =>
      (vmmTestB k₁).bind fun k₂ => (securityPage k₂).bind f := by
  unfold vmmDiagnostics
  cases vmmTestA k with
  | error e => rw [error_bind, error_bind, error_bind]
  | ok k₁ =>
    rw [ok_bind, ok_bind]
    cases vmmTestB k₁ with
    | error e => rw [error_bind, error_bind, error_bind]
    | ok k₂ => rw [ok_bind, ok_bind]

/-- They are the part of the boot between the probe and the RAM disk. -/
theorem bootMachines_eq (env : BootEnv) (k : Machine) :
    bootMachines env k =
      ((postVmmProbe env.mbiAddr { k with intFlag := false }).mapError .panic).bind fun k₁ =>
      (vmmDiagnostics k₁).bind fun k₂ =>
      ((initrdModule env.mbiAddr k₂).mapError .panic).bind fun m =>
      (mountInitrd env.fuel m.1 m.2).map fun v => (m.1, v.1, v.2) := by
  unfold bootMachines
  simp only [vmmDiagnostics_bind]

/-- The map behind them, with the frame of the page for the kernel alone. -/
def testedMap (sec : Nat) (M : Nat → Nat) : Nat → Nat :=
  Function.update (Function.update (Function.update M 0xA0000 0) 0x40000 0) 0xD0000 (sec * 4096 + 3)

theorem testedMap_low {sec n : Nat} {M : Nat → Nat} (hn : n < 0x40000) :
    testedMap sec M n = M n := by
  unfold testedMap
  rw [Function.update_of_ne (by omega), Function.update_of_ne (by omega),
    Function.update_of_ne (by omega)]

theorem testedMap_testB (sec : Nat) (M : Nat → Nat) : testedMap sec M 0x40000 = 0 := by
  unfold testedMap
  rw [Function.update_of_ne (by omega), Function.update_self]

/-- The machine `vmm_init` returns. -/
theorem tested_init {k : Machine} (hzero : bitmapTest k.pmm 0 = true)
    (hfree : 1 + tablesFor k.pmm.totalBlocks ≤ freeCount k.pmm) :
    ∃ k₁ dir l, vmmInit k = .ok k₁ ∧ l.length = 1 + tablesFor k.pmm.totalBlocks ∧
      Tested k.pmm k.mem dir (identityUpTo k.pmm.totalBlocks)
        (fun i => i * 1024 < k.pmm.totalBlocks) l ⟨k₁, []⟩ := by
  obtain ⟨k₂, dir, hreturn, hcur, hinv⟩ := vmmInit_runs hzero hfree
  obtain ⟨l, hl, hlen⟩ := hinv.taken
  have hfresh := (vmmInit_spec hreturn).2.2.2
  dsimp only at hfresh
  rw [hcur] at hreturn hfresh
  exact ⟨_, dir, l, hreturn, hlen, ⟨rfl, hinv.inv.sep, hinv.inv.look, hinv.inv.nodup,
    hinv.inv.owned⟩, rfl, hinv.slots, hl, hfresh⟩

section Vmm

variable {s₀ : Pmm} {m₀ : Mem} {dir T : Nat} {P : Nat → Prop} {l own : List Nat} {k : Machine}

/-- Test B on the identity map of `T` blocks, behind test A. -/
theorem Tested.testB
    (h : Tested s₀ m₀ dir (Function.update (identityUpTo T) 0xA0000 0)
      (fun i => i * 1024 < T ∨ i = 0x280) l ⟨k, own⟩)
    (hzero : bitmapTest s₀ 0 = true) (hdata : ¬Frames k.mem dir 0x40000)
    (hroom : l.length + 2 ≤ freeCount s₀) :
    ∃ m₁ P' ts k' own', vmmTestB k = .ok k' ∧
      (∀ x, T ≤ 0x40000 ∨ x / 4096 ≠ 0x40000 → m₁ x = m₀ x) ∧ ts.length ≤ 2 ∧
      (T ≤ 0x40000 → ts.length = 2 ∧ ¬P' 0x340) ∧
      Tested s₀ m₁ dir (Function.update (Function.update (identityUpTo T) 0xA0000 0) 0x40000 0) P'
        (ts ++ l) ⟨k', own'⟩ := by
  by_cases hT : T ≤ 0x40000
  · have hM : Function.update (identityUpTo T) 0xA0000 0 0x40000 = 0 := by
      rw [Function.update_of_ne (by omega)]
      exact if_neg (by omega)
    obtain ⟨ts, k', own', hrun, hlen, h'⟩ := h.testB_absent hzero hM (by omega) hroom
    exact ⟨m₀, _, ts, k', own', hrun, fun _ _ => rfl, by omega, fun _ => ⟨hlen, by omega⟩, h'⟩
  · have hM : Function.update (identityUpTo T) 0xA0000 0 0x40000 = 0x40000 * 4096 + 7 := by
      rw [Function.update_of_ne (by omega)]
      exact if_pos (by omega)
    obtain ⟨m₁, k', hrun, hm₁, h'⟩ := h.testB_mapped hM (Or.inl (by omega)) hdata
    exact ⟨m₁, _, [], k', own, hrun, fun x hx => hm₁ x (hx.resolve_left hT), by simp,
      fun hle => absurd hle hT, h'⟩

/-- All of them, on the identity map. -/
theorem Tested.diagnostics
    (h : Tested s₀ m₀ dir (identityUpTo T) (fun i => i * 1024 < T) l ⟨k, own⟩)
    (hzero : bitmapTest s₀ 0 = true) (hfit : FirstFit s₀ k.pmm)
    (hroom : l.length + 5 ≤ freeBelow s₀ 0x40000) :
    ∃ sec m₁ P' l' k' own', vmmDiagnostics k = .ok k' ∧ IsFree s₀ sec ∧
      (∀ x, T ≤ 0x40000 ∨ x / 4096 ≠ 0x40000 → m₁ x = m₀ x) ∧
      (T ≤ 0x40000 → l'.length = l.length + 5) ∧
      Tested s₀ m₁ dir (testedMap sec (identityUpTo T)) P' l' ⟨k', own'⟩ := by
  have hcount := freeBelow_le_freeCount s₀ 0x40000
  obtain ⟨ts₁, k₁, hA, hold, hnew, hfit₁, h₁⟩ := h.testA hzero (by omega)
  have hlen₁ : ts₁.length ≤ 1 := by
    by_cases hP : 0x280 * 1024 < T
    · rw [hold hP]
      exact Nat.zero_le _
    · exact Nat.le_of_eq (hnew hP)
  -- test A had taken its table and its block when a block below was still free
  have hdata : ¬Frames k₁.mem dir 0x40000 := by
    obtain ⟨b, s, hfits, hs⟩ := hfit₁ hfit
    have hlow := hfits.low (n := 0x40000) hs (by rw [List.length_append, List.length_cons]; omega)
    refine h₁.not_frames_of_low fun c hc => hlow c ?_
    rcases List.mem_append.mp hc with hc | hc
    · exact List.mem_append_left _ hc
    · exact List.mem_append_right _ (List.mem_cons_of_mem b hc)
  obtain ⟨m₁, P₂, ts₂, k₂, own₂, hB, hm₁, hlen₂, hlow, h₂⟩ := h₁.testB hzero hdata
    (by rw [List.length_append]; omega)
  obtain ⟨sec, ts₃, k₃, own₃, hsec, hfree, hnew₃, h₃⟩ := h₂.security hzero
    (by simp only [List.length_append]; omega)
  refine ⟨sec, m₁, _, _, k₃, own₃, ?_, hfree, hm₁, fun hT => ?_, h₃⟩
  · unfold vmmDiagnostics
    rw [hA, ok_bind, hB, ok_bind, hsec]
  · obtain ⟨htwo, habs⟩ := hlow hT
    have hone := hnew (by omega)
    have hone₃ := hnew₃ habs
    simp only [List.length_append, List.length_cons]
    omega

end Vmm

/-- **The tests of the VMM.** With block 0 reserved and five blocks below 1 GiB
more than `vmm_init` takes, the tests pass. The RAM is identity-mapped behind them as before
exactly if there is not more than 1 GiB; then five blocks are gone: three page
tables, the frame of the page fault and the page for the kernel alone. What was
in use keeps its bytes, but for block `0x40000`, if there is one. -/
theorem vmmDiagnostics_exact (k : Machine) (hzero : bitmapTest k.pmm 0 = true)
    (hfree : 1 + tablesFor k.pmm.totalBlocks + 5 ≤ freeBelow k.pmm 0x40000) :
    ∃ k₁ k₂ sec, vmmInit k = .ok k₁ ∧ vmmDiagnostics k₁ = .ok k₂ ∧ IsFree k.pmm sec ∧
      (∀ v < 2 ^ 32, lookup k₂.mem k₂.cr3 v
        = testedMap sec (identityUpTo k.pmm.totalBlocks) (v / 4096)) ∧
      ((∀ v < k.pmm.totalBlocks * 4096, translate k₂.mem k₂.cr3 v = some v) ↔
        k.pmm.totalBlocks ≤ 0x40000) ∧
      (k.pmm.totalBlocks ≤ 0x40000 → freeCount k₂.pmm + 5 = freeCount k₁.pmm) ∧
      ∀ x, ¬IsFree k.pmm (x / 4096) → k.pmm.totalBlocks ≤ 0x40000 ∨ x / 4096 ≠ 0x40000 →
        k₂.mem x = k.mem x := by
  have hlt := k.pmm.total_lt
  have hcount := freeBelow_le_freeCount k.pmm 0x40000
  obtain ⟨k₁, dir, l, hinit, hlen, h⟩ := tested_init hzero (by omega)
  obtain ⟨sec, m₁, P', l', k₂, own', hrun, hsec, hm₁, hfive, h'⟩ :=
    h.diagnostics hzero (firstFit_init hinit) (by omega)
  have hcr3 : k₂.cr3 = dir := h'.cr3
  have hlook : ∀ v < 2 ^ 32, lookup k₂.mem k₂.cr3 v
      = testedMap sec (identityUpTo k.pmm.totalBlocks) (v / 4096) := by
    intro v hv
    rw [hcr3]
    exact h'.inv.look v hv
  refine ⟨k₁, k₂, sec, hinit, hrun, hsec, hlook, ⟨fun hid => ?_, fun hle v hv => ?_⟩, fun hle => ?_,
    fun x hx hoff => (h'.fresh.mem x hx).trans (hm₁ x hoff)⟩
  · -- the page of test B is not mapped any more
    by_contra hgt
    have hsome := hid 0x40000000 (by omega)
    have hzeroed := hlook 0x40000000 (by omega)
    rw [show 0x40000000 / 4096 = 0x40000 by omega, testedMap_testB] at hzeroed
    unfold Paging.translate at hsome
    rw [hzeroed, if_neg not_present_zero] at hsome
    exact absurd hsome (by simp)
  · have hentry := hlook v (by omega)
    rw [testedMap_low (by omega), identityUpTo, if_pos (by omega)] at hentry
    rw [translate_of_lookup hentry, Nat.div_add_mod']
  · have hbefore := h.taken.freeCount
    have hafter := h'.taken.freeCount
    have hgone := hfive hle
    dsimp only at hbefore hafter
    omega

/-- 1.25 GiB. -/
def largeMachine : Machine := demoMachine 0x50000 (by decide) fun _ => 0

/-- 344 free blocks from block 256 on, and more. -/
theorem freeBelow_large : 344 ≤ freeBelow largeMachine.pmm 0x40000 := by
  have hcount : Nat.count (fun b => bitmapTest largeMachine.pmm b = false) 600 = 344 := by
    decide +kernel
  rw [← hcount]
  exact Nat.count_monotone _ (by decide)

/-- 300 blocks, and 1.25 GiB. -/
theorem vmmDiagnostics_small_large :
    (∃ k₁ k₂, vmmInit emptyMachine = .ok k₁ ∧ vmmDiagnostics k₁ = .ok k₂ ∧
      translate k₂.mem k₂.cr3 0x5123 = some 0x5123 ∧ freeCount k₂.pmm + 5 = freeCount k₁.pmm) ∧
    ∃ k₁ k₂, vmmInit largeMachine = .ok k₁ ∧ vmmDiagnostics k₁ = .ok k₂ ∧
      ¬∀ v < 0x50000 * 4096, translate k₂.mem k₂.cr3 v = some v := by
  constructor
  · obtain ⟨k₁, k₂, sec, hinit, hrun, -, -, hid, hgone, -⟩ :=
      vmmDiagnostics_exact emptyMachine (by decide) (by decide +kernel)
    exact ⟨k₁, k₂, hinit, hrun, hid.mpr (by decide) 0x5123 (by decide), hgone (by decide)⟩
  · obtain ⟨k₁, k₂, sec, hinit, hrun, -, -, hid, -⟩ :=
      vmmDiagnostics_exact largeMachine (by decide) (Nat.le_trans (by decide) freeBelow_large)
    exact ⟨k₁, k₂, hinit, hrun, fun hall => absurd (hid.mp hall) (by decide)⟩

end MyOS
