import MyOS.Vmm.Map
import Mathlib.Logic.Function.Basic

/-!
# The page tables refine a finite map

The abstract state of an address space is a map from page numbers to
entries, `0` for a page that was never mapped. `VmmOp.spec` is what each call
means there: map sets one page, unmap clears one, and the allocator calls of
other code do nothing. `vmmRun_refines` is the simulation, over any
interleaving of the four calls on one directory that starts zeroed.

What makes it go through is separation, not the index arithmetic: page
tables come from the allocator that also serves the caller, so the invariant
(`PagedInv`) keeps the directory and its tables among the blocks that are in
use and are not the caller's. Then a release by the caller cannot hit a
table, and a fresh table cannot be a frame the caller still holds.
-/

namespace MyOS

open Lib Lib.Mem Lib.Paging

/-- The machine with the addresses the caller has allocated. -/
structure Paged where
  k : Machine
  owned : List Nat

/-- A call on the active directory, or an allocator call of other code. -/
inductive VmmOp where
  | map (physAddr virtAddr flags : Nat)
  | unmap (virtAddr : Nat)
  | alloc
  | free (ptr : Nat)
  deriving DecidableEq

namespace VmmOp

/-- The contract of the call: aligned 32-bit addresses, flags in the low
twelve bits, and a release only of what the caller owns. -/
def Legal (o : Paged) : VmmOp → Prop
  | map p v f => p % 4096 = 0 ∧ p < 2 ^ 32 ∧ v % 4096 = 0 ∧ v < 2 ^ 32 ∧ f < 0x1000
  | unmap v => v % 4096 = 0 ∧ v < 2 ^ 32
  | alloc => True
  | free ptr => ptr ∈ o.owned

instance (o : Paged) : DecidablePred (Legal o)
  | map _ _ _ => inferInstanceAs (Decidable (_ ∧ _ ∧ _ ∧ _ ∧ _))
  | unmap _ => inferInstanceAs (Decidable (_ ∧ _))
  | alloc => inferInstanceAs (Decidable True)
  | free _ => inferInstanceAs (Decidable (_ ∈ _))

def apply (o : Paged) : VmmOp → Except Panic Paged
  | map p v f => (vmmMapPage p v f o.k).map fun k => { o with k }
  | unmap v => .ok { o with k := vmmUnmapPage v o.k }
  | alloc =>
    let k := { o.k with pmm := (pmmAllocBlock o.k.pmm).2 }
    if (pmmAllocBlock o.k.pmm).1 = 0 then .ok { o with k }
    else .ok ⟨k, (pmmAllocBlock o.k.pmm).1 :: o.owned⟩
  | free ptr => .ok ⟨{ o.k with pmm := pmmFreeBlock ptr o.k.pmm }, o.owned.erase ptr⟩

/-- What the call does to the abstract map. -/
def spec (M : Nat → Nat) : VmmOp → Nat → Nat
  | map p v f => Function.update M (v / 4096) (p ||| f)
  | unmap v => Function.update M (v / 4096) 0
  | alloc => M
  | free _ => M

end VmmOp

/-- A whole run of calls. -/
def vmmRun (o : Paged) : List VmmOp → Except Panic Paged
  | [] => .ok o
  | op :: ops => (op.apply o).bind fun o' => vmmRun o' ops

/-- Every call of the run meets its contract when it is made. -/
def LegalRun (o : Paged) : List VmmOp → Prop
  | [] => True
  | op :: ops => op.Legal o ∧ ∀ o', op.apply o = .ok o' → LegalRun o' ops

instance decidableLegalRun : ∀ (o : Paged) (ops : List VmmOp), Decidable (LegalRun o ops)
  | _, [] => inferInstanceAs (Decidable True)
  | o, op :: ops =>
    match h : op.apply o with
    | .ok o' =>
      have := decidableLegalRun o' ops
      decidable_of_iff (op.Legal o ∧ LegalRun o' ops) <| and_congr_right fun _ =>
        ⟨fun hrest _ ho => Except.ok.inj (h.symm.trans ho) ▸ hrest, fun hall => hall o' h⟩
    | .error _ => decidable_of_iff (op.Legal o) <| (and_iff_left_of_imp fun _ _ ho =>
        absurd (h.symm.trans ho) (by simp)).symm

/-- A block in use that the caller does not own. -/
def Private (o : Paged) (b : Nat) : Prop := InUse o.k.pmm b ∧ b * 4096 ∉ o.owned

/-- The simulation invariant: the directory and its tables are distinct
private frames, the lookups are the abstract map, and the caller holds
distinct blocks in use. -/
structure PagedInv (dir : Nat) (M : Nat → Nat) (o : Paged) : Prop where
  cur : o.k.currentPageDirectory = dir
  sep : Sep (Private o) o.k.mem dir
  look : ∀ v < 2 ^ 32, lookup o.k.mem dir v = M (v / 4096)
  nodup : o.owned.Nodup
  owned : ∀ a ∈ o.owned, a % 4096 = 0 ∧ InUse o.k.pmm (a / 4096)

section Steps

variable {dir : Nat} {M : Nat → Nat} {o : Paged}

theorem PagedInv.dirOk (h : PagedInv dir M o) : DirOk o.k dir := h.sep.mono fun _ hb => hb.1

/-- A free block is not one of the caller's. -/
theorem PagedInv.fresh (h : PagedInv dir M o) {b : Nat} (hb : IsFree o.k.pmm b) :
    b * 4096 ∉ o.owned := by
  intro hmem
  have hused := (h.owned _ hmem).2
  rw [Nat.mul_div_cancel _ (by omega)] at hused
  exact hb.not_inUse hused

/-- A present slot after a mapping has its old table or the new one. -/
theorem Mapped.slot_cases {v e : Nat} {ts : List Nat} {k k' : Machine}
    (h : Mapped dir v e ts k k') {i : Nat} (hi : i < 1024) (hp : Present (pde k'.mem dir i)) :
    (Present (pde k.mem dir i) ∧ pde k'.mem dir i = pde k.mem dir i) ∨
    (i = pdIndex v ∧ ¬Present (pde k.mem dir i) ∧ ∃ t ∈ ts, pde k'.mem dir i = t * 4096 + 7) := by
  by_cases hold : Present (pde k.mem dir i)
  · exact Or.inl ⟨hold, h.keep i hi (Or.inr hold)⟩
  by_cases hv : i = pdIndex v
  · subst hv
    obtain ⟨t, ht⟩ := h.absent hold
    have hmem : t ∈ ts := ht ▸ List.mem_cons_self
    exact Or.inr ⟨rfl, hold, t, hmem, h.slot t hmem⟩
  · rw [h.keep i hi (Or.inl hv)] at hp
    exact absurd hp hold

/-- The slot of a mapped page has a table. -/
theorem Mapped.slot_present {a e : Nat} {ts : List Nat} {k k' : Machine} (hm : Mapped dir a e ts k k') (ha : a < 2 ^ 32) :
    Present (pde k'.mem dir (pdIndex a)) := by
  by_cases hold : Present (pde k.mem dir (pdIndex a))
  · rw [hm.keep _ (pdIndex_lt ha) (Or.inr hold)]
    exact hold
  · obtain ⟨t, rfl⟩ := hm.absent hold
    rw [hm.slot t List.mem_cons_self]
    exact present_entry t

/-- The table of that slot was there before, or is a block that was free. -/
theorem Mapped.slot_table {a e : Nat} {ts : List Nat} {k k' : Machine} (hm : Mapped dir a e ts k k') (ha : a < 2 ^ 32) :
    (Present (pde k.mem dir (pdIndex a)) ∧
      pde k'.mem dir (pdIndex a) = pde k.mem dir (pdIndex a)) ∨
    IsFree k.pmm (pde k'.mem dir (pdIndex a) / 4096) := by
  rcases hm.slot_cases (pdIndex_lt ha) (hm.slot_present ha) with hold | ⟨-, -, t, ht, heq⟩
  · exact Or.inl hold
  · rw [heq, frame_entry]
    exact Or.inr (hm.taken.mem_isFree ht)

/-- A mapping of `v` keeps the invariant, with the entry set. -/
theorem PagedInv.mapped (h : PagedInv dir M o) {v e : Nat} {ts : List Nat} {k' : Machine}
    (hm : Mapped dir v e ts o.k k') :
    PagedInv dir (Function.update M (v / 4096) e) ⟨k', o.owned⟩ := by
  have hmono : ∀ b, InUse o.k.pmm b → InUse k'.pmm b := fun b hb =>
    hm.taken.inUse_iff.mpr (Or.inl hb)
  refine ⟨?_, ⟨⟨h.sep.aligned, ⟨hmono _ h.sep.dir_used.1, h.sep.dir_used.2⟩, ?_⟩,
    hm.sep.table_ne, hm.sep.table_inj⟩, ?_, h.nodup, fun a ha => ?_⟩
  · have hcur := congrArg Machine.currentPageDirectory hm.regs
    exact hcur.trans h.cur
  · intro i hi hp
    rcases hm.slot_cases hi hp with ⟨hold, heq⟩ | ⟨-, -, t, ht, heq⟩
    · rw [heq]
      have hpriv := h.sep.table_used i hi hold
      exact ⟨hmono _ hpriv.1, hpriv.2⟩
    · -- the new table was free, so the caller cannot own it
      rw [heq, frame_entry]
      exact ⟨hm.taken.inUse_iff.mpr (Or.inr ht), h.fresh (hm.taken.mem_isFree ht)⟩
  · intro w hw
    show lookup k'.mem dir w = _
    rw [hm.lookup_eq w hw, h.look w hw, Function.update_apply]
  · exact ⟨(h.owned a ha).1, hmono _ (h.owned a ha).2⟩

/-- Clearing the entry of a page whose slot is absent changes nothing. -/
theorem PagedInv.unmap (h : PagedInv dir M o) {v : Nat} (hv : v < 2 ^ 32) :
    PagedInv dir (Function.update M (v / 4096) 0) { o with k := vmmUnmapPage v o.k } := by
  by_cases hp : Present (pde o.k.mem o.k.currentPageDirectory (pdIndex v))
  · have hok : DirOk o.k o.k.currentPageDirectory := by
      rw [h.cur]
      exact h.dirOk
    have hm := vmmUnmapPage_mapped hok hv hp
    rw [h.cur] at hm
    exact h.mapped hm
  · have hzero : M (v / 4096) = 0 := by
      rw [← h.look v hv]
      rw [h.cur] at hp
      exact lookup_absent hp
    have hsame : Function.update M (v / 4096) 0 = M := by
      rw [← hzero]
      exact Function.update_eq_self _ _
    unfold vmmUnmapPage
    rw [if_neg hp, hsame]
    exact h

/-- The caller's allocation takes a free block, so no table of ours. -/
theorem PagedInv.alloc (h : PagedInv dir M o) :
    ∃ o', VmmOp.alloc.apply o = .ok o' ∧ PagedInv dir M o' := by
  simp only [VmmOp.apply]
  by_cases hnull : (pmmAllocBlock o.k.pmm).1 = 0
  · rw [if_pos hnull]
    refine ⟨_, rfl, h.cur, h.sep.mono fun b hb => ⟨?_, hb.2⟩, h.look, h.nodup, fun a ha => ?_⟩
    · -- `NULL`: block 0 may have been marked, nothing was released
      rcases (Taken.refl o.k.pmm).alloc with ⟨c, -, -, -, -, -, ht⟩ | ⟨-, hnone⟩
      · exact ht.inUse_iff.mpr (Or.inl hb.1)
      · rw [hnone]
        exact hb.1
    · refine ⟨(h.owned a ha).1, ?_⟩
      rcases (Taken.refl o.k.pmm).alloc with ⟨c, -, -, -, -, -, ht⟩ | ⟨-, hnone⟩
      · exact ht.inUse_iff.mpr (Or.inl (h.owned a ha).2)
      · rw [hnone]
        exact (h.owned a ha).2
  · rw [if_neg hnull]
    obtain ⟨b, -, hfree, haddr, ht⟩ := pmmAllocBlock_taken hnull
    refine ⟨_, rfl, h.cur, h.sep.mono fun c hc => ⟨ht.inUse_iff.mpr (Or.inl hc.1), ?_⟩, h.look,
      List.nodup_cons.mpr ⟨?_, h.nodup⟩, fun a ha => ?_⟩
    · intro hmem
      rcases List.mem_cons.mp hmem with heq | hmem
      · have hcb : c = b := by omega
        exact hfree.not_inUse (hcb ▸ hc.1)
      · exact hc.2 hmem
    · rw [haddr]
      exact h.fresh hfree
    · rcases List.mem_cons.mp ha with heq | ha
      · rw [heq, haddr, Nat.mul_div_cancel _ (by omega)]
        exact ⟨by omega, ht.inUse_iff.mpr (Or.inr List.mem_cons_self)⟩
      · exact ⟨(h.owned a ha).1, ht.inUse_iff.mpr (Or.inl (h.owned a ha).2)⟩

/-- A release leaves every other block in use. -/
theorem inUse_pmmFreeBlock {s : Pmm} {ptr b : Nat} (hb : InUse s b) (hne : b ≠ ptr / 4096) :
    InUse (pmmFreeBlock ptr s) b := by
  refine ⟨by rw [pmmFreeBlock_totalBlocks]; exact hb.1, ?_⟩
  exact (bitmapTest_releaseBlock s _ b).mpr ⟨fun he => hne he.1, hb.2⟩

/-- The caller's release hits none of our frames. -/
theorem PagedInv.free (h : PagedInv dir M o) {ptr : Nat} (hptr : ptr ∈ o.owned) :
    PagedInv dir M
      ⟨{ o.k with pmm := pmmFreeBlock ptr o.k.pmm }, o.owned.erase ptr⟩ := by
  have halign := (h.owned ptr hptr).1
  refine ⟨h.cur, h.sep.mono fun b hb => ⟨inUse_pmmFreeBlock hb.1 fun heq => ?_, fun hmem =>
    hb.2 (List.mem_of_mem_erase hmem)⟩, h.look, h.nodup.erase ptr, fun a ha => ?_⟩
  · have hbp : b * 4096 = ptr := by omega
    exact hb.2 (hbp ▸ hptr)
  · obtain ⟨hne, ha⟩ := h.nodup.mem_erase_iff.mp ha
    obtain ⟨ha1, ha2⟩ := h.owned a ha
    exact ⟨ha1, inUse_pmmFreeBlock ha2 (by omega)⟩

/-- One call simulates one abstract step, unless it is a map that finds its
slot without a table and the allocator without a frame. -/
theorem PagedInv.step (h : PagedInv dir M o) {op : VmmOp} (hl : op.Legal o) :
    (∃ o', op.apply o = .ok o' ∧ PagedInv dir (op.spec M) o') ∨
    (op.apply o = .error .pageTable ∧ (pmmAllocBlock o.k.pmm).1 = 0) := by
  cases op with
  | map p v f =>
    obtain ⟨hp, hplt, -, hv, hf⟩ := hl
    have hok : DirOk o.k o.k.currentPageDirectory := by
      rw [h.cur]
      exact h.dirOk
    have he : p ||| f < 2 ^ 32 := by
      rw [or_flags hp hf]
      omega
    simp only [VmmOp.apply]
    rcases vmmMapPage_cases hok hv he with ⟨ts, k', hrun, hm⟩ | ⟨-, hnull, hrun⟩
    · rw [hrun]
      rw [h.cur] at hm
      exact Or.inl ⟨_, rfl, h.mapped hm⟩
    · rw [hrun]
      exact Or.inr ⟨rfl, hnull⟩
  | unmap v => exact Or.inl ⟨_, rfl, h.unmap hl.2⟩
  | alloc => exact Or.inl h.alloc
  | free ptr => exact Or.inl ⟨_, rfl, h.free hl⟩

/-- A run simulates the abstract run up to the call that runs out. -/
theorem PagedInv.run : ∀ (ops : List VmmOp) {M : Nat → Nat} {o : Paged}, PagedInv dir M o →
    LegalRun o ops →
    (∃ o', vmmRun o ops = .ok o' ∧ PagedInv dir (ops.foldl VmmOp.spec M) o') ∨
    (vmmRun o ops = .error .pageTable ∧ ∃ pre op post o₁, ops = pre ++ op :: post ∧
      vmmRun o pre = .ok o₁ ∧ op.apply o₁ = .error .pageTable ∧ (pmmAllocBlock o₁.k.pmm).1 = 0) := by
  intro ops
  induction ops with
  | nil =>
    intro _ o h _
    exact Or.inl ⟨o, rfl, h⟩
  | cons op ops ih =>
    intro _ o h hl
    unfold vmmRun
    rcases h.step hl.1 with ⟨o', hop, h'⟩ | ⟨hop, hnull⟩
    · rw [hop]
      rcases ih h' (hl.2 o' hop) with hok | ⟨herr, pre, op', post, o₁, heq, hpre, hrest⟩
      · exact Or.inl hok
      · refine Or.inr ⟨herr, op :: pre, op', post, o₁, by rw [heq]; rfl, ?_, hrest⟩
        show (op.apply o).bind _ = _
        rw [hop]
        exact hpre
    · rw [hop]
      exact Or.inr ⟨rfl, [], op, ops, o, rfl, rfl, hop, hnull⟩

end Steps

/-- A zeroed directory maps nothing. -/
theorem pagedInv_init {k : Machine} {dir : Nat} (hcur : k.currentPageDirectory = dir)
    (hdir : dir % 4096 = 0) (hused : InUse k.pmm (dir / 4096))
    (hzero : ∀ x, x / 4096 = dir / 4096 → k.mem x = 0) : PagedInv dir (fun _ => 0) ⟨k, []⟩ := by
  have hpde : ∀ i < 1024, pde k.mem dir i = 0 := by
    intro i hi
    have hbytes : ∀ j < 4, k.mem (dir + 4 * i + j) = 0 := fun j hj => hzero _ (by omega)
    unfold pde rd32
    rw [hbytes 1 (by omega), hbytes 2 (by omega), hbytes 3 (by omega), hzero _ (by omega)]
    rfl
  have habs : ∀ i < 1024, ¬Present (pde k.mem dir i) := fun i hi => by
    rw [hpde i hi]
    exact not_present_zero
  exact ⟨hcur, ⟨⟨hdir, ⟨hused, List.not_mem_nil⟩, fun i hi hp => absurd hp (habs i hi)⟩,
    fun i hi hp => absurd hp (habs i hi), fun i hi _ _ hp => absurd hp (habs i hi)⟩,
    fun v hv => lookup_absent (habs _ (pdIndex_lt hv)), List.nodup_nil,
    fun a ha => absurd ha List.not_mem_nil⟩

/-- **The page tables refine a finite map.** From a zeroed directory, in
every legal run of map, unmap and the caller's allocator calls: either the
run goes through, and then every two-level lookup is the abstract map's
entry and the directory and all page tables are distinct frames in use; or
it stops at a map whose page table could not be allocated. -/
theorem vmmRun_refines {k : Machine} {dir : Nat} (hcur : k.currentPageDirectory = dir)
    (hdir : dir % 4096 = 0) (hused : InUse k.pmm (dir / 4096))
    (hzero : ∀ x, x / 4096 = dir / 4096 → k.mem x = 0) {ops : List VmmOp}
    (hlegal : LegalRun ⟨k, []⟩ ops) :
    (∃ o, vmmRun ⟨k, []⟩ ops = .ok o ∧
      (∀ v < 2 ^ 32, lookup o.k.mem dir v = ops.foldl VmmOp.spec (fun _ => 0) (v / 4096)) ∧
      InUse o.k.pmm (dir / 4096) ∧
      (∀ i < 1024, Present (pde o.k.mem dir i) →
        InUse o.k.pmm (pde o.k.mem dir i / 4096) ∧ pde o.k.mem dir i / 4096 ≠ dir / 4096) ∧
      ∀ i < 1024, ∀ j < 1024, Present (pde o.k.mem dir i) → Present (pde o.k.mem dir j) → i ≠ j →
        pde o.k.mem dir i / 4096 ≠ pde o.k.mem dir j / 4096) ∨
    (vmmRun ⟨k, []⟩ ops = .error .pageTable ∧ ∃ pre op post o₁, ops = pre ++ op :: post ∧
      vmmRun ⟨k, []⟩ pre = .ok o₁ ∧ op.apply o₁ = .error .pageTable ∧
      (pmmAllocBlock o₁.k.pmm).1 = 0) := by
  rcases (pagedInv_init hcur hdir hused hzero).run ops hlegal with ⟨o, hrun, h⟩ | hout
  · have hsep := h.dirOk
    exact Or.inl ⟨o, hrun, h.look, hsep.dir_used,
      fun i hi hp => ⟨hsep.table_used i hi hp, hsep.table_ne i hi hp⟩,
      fun i hi j hj hp hq hne he => hne (hsep.table_inj i hi j hj hp hq he)⟩
  · exact Or.inr hout

/-- A machine of `total` blocks, the first 256 of them taken, with memory
`m` and block 255 as the active directory. -/
def demoMachine (total : Nat) (h : total < 2 ^ 20) (m : Mem) : Machine where
  mem := m
  pmm := ⟨fun i => if i < 8 then 0xFFFFFFFF#32 else 0, total, 256, h⟩
  currentPageDirectory := 255 * 4096
  cr3 := 255 * 4096
  esp0 := 0
  intFlag := true

theorem demo_total : 300 < 2 ^ 20 := by decide

/-- The directory is empty. -/
def emptyMachine : Machine := demoMachine 300 demo_total fun _ => 0

theorem emptyMachine_absent (d i : Nat) : ¬Present (pde emptyMachine.mem d i) := by
  have hzero : pde emptyMachine.mem d i = 0 := by
    show rd32 (fun _ => 0) _ = 0
    simp [rd32]
  rw [hzero]
  exact not_present_zero

theorem emptyMachine_ok : DirOk emptyMachine emptyMachine.currentPageDirectory :=
  ⟨⟨by decide, by decide +kernel, fun i _ hp => absurd hp (emptyMachine_absent _ i)⟩,
    fun i _ hp => absurd hp (emptyMachine_absent _ i),
    fun i _ _ _ hp => absurd hp (emptyMachine_absent _ i)⟩

/-- Two pages in two slots, the first unmapped again; in between other code
takes a block, and gives it back in the end. -/
def demoCalls : List VmmOp :=
  [.map 0x5000 0x400000 7, .alloc, .map 0x6000 0x800000 3, .unmap 0x400000, .free (257 * 4096)]

theorem vmmRun_refines_demo : ∃ o,
    vmmRun ⟨demoMachine 300 (by decide) fun _ => 0, []⟩ demoCalls = .ok o ∧ o.owned = [] ∧
      lookup o.k.mem (255 * 4096) 0x400000 = 0 ∧ lookup o.k.mem (255 * 4096) 0x800000 = 0x6003 := by
  have hcur : (demoMachine 300 (by decide) fun _ => 0).currentPageDirectory = 255 * 4096 := rfl
  have hlegal : LegalRun ⟨demoMachine 300 (by decide) fun _ => 0, []⟩ demoCalls := by
    decide +kernel
  have hends : ((vmmRun ⟨demoMachine 300 (by decide) fun _ => 0, []⟩ demoCalls).toOption.any
      fun o => o.owned == []) = true := by decide +kernel
  have h := vmmRun_refines hcur (by decide) (by decide) (fun _ _ => rfl) hlegal
  rcases h with ⟨o, hrun, hlook, -⟩ | ⟨herr, -⟩
  · rw [hrun] at hends
    exact ⟨o, hrun, eq_of_beq hends, hlook 0x400000 (by decide), hlook 0x800000 (by decide)⟩
  · rw [herr] at hends
    exact absurd hends (by decide)

end MyOS
