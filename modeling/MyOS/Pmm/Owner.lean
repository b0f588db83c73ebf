import MyOS.Pmm.Inv

/-!
# Exclusive ownership of frames

`Taken s₀ l s` says that `s` is the allocator state `s₀` with exactly the
blocks of `l` taken out of it: blocks that were free in `s₀`, each once. An
allocation conses a block on (`Taken.alloc`), a release of one of them takes
it off (`Taken.free`), and with nothing outstanding the state is `s₀` itself
(`Taken.eq_of_nil`), bit for bit and counter included. Everything that
follows frames through the kernel (page tables, kernel stacks, program
segments) is stated over this relation.

`OwnerOp.run` is the whole-run form: any interleaving of `pmm_alloc_block`
and of `pmm_free_block` on outstanding addresses, with the outstanding
addresses as ghost state.
-/

namespace MyOS

open Lib

/-- `s` is `s₀` with exactly the blocks `l` taken. -/
structure Taken (s₀ : Pmm) (l : List Nat) (s : Pmm) : Prop where
  total : s.totalBlocks = s₀.totalBlocks
  nodup : l.Nodup
  fresh : ∀ b ∈ l, b < s₀.totalBlocks ∧ bitmapTest s₀ b = false
  test : ∀ b, bitmapTest s b = true ↔ bitmapTest s₀ b = true ∨ b ∈ l
  used : s.usedBlocks = s₀.usedBlocks + UInt32.ofNat l.length

theorem Taken.refl (s : Pmm) : Taken s [] s where
  total := rfl
  nodup := List.nodup_nil
  fresh _ hb := absurd hb List.not_mem_nil
  test _ := ⟨Or.inl, fun h => h.resolve_right List.not_mem_nil⟩
  used := (UInt32.add_zero _).symm

theorem Taken.perm {s₀ s : Pmm} {l l' : List Nat} (h : Taken s₀ l s) (hp : l.Perm l') :
    Taken s₀ l' s where
  total := h.total
  nodup := hp.nodup h.nodup
  fresh b hb := h.fresh b (hp.mem_iff.mpr hb)
  test b := (h.test b).trans (or_congr_right hp.mem_iff)
  used := by rw [h.used, hp.length_eq]

theorem Taken.test_false {s₀ s : Pmm} {l : List Nat} (h : Taken s₀ l s) {b : Nat} :
    bitmapTest s b = false ↔ bitmapTest s₀ b = false ∧ b ∉ l := by
  rw [← Bool.not_eq_true, h.test, not_or, Bool.not_eq_true]

theorem Taken.cons {s₀ s : Pmm} {l : List Nat} {b : Nat} (h : Taken s₀ l s)
    (hb : b < s.totalBlocks) (hclear : bitmapTest s b = false) :
    Taken s₀ (b :: l) (markUsed s b) := by
  obtain ⟨hclear₀, hnot⟩ := h.test_false.mp hclear
  refine ⟨h.total, List.nodup_cons.mpr ⟨hnot, h.nodup⟩, fun c hc => ?_, fun c => ?_, ?_⟩
  · rcases List.mem_cons.mp hc with hE | hT
    · rw [hE]
      exact ⟨h.total ▸ hb, hclear₀⟩
    · exact h.fresh c hT
  · rw [bitmapTest_markUsed, h.test, List.mem_cons, or_left_comm]
  · show s.usedBlocks + 1 = _
    rw [h.used, List.length_cons, UInt32.ofNat_add, UInt32.add_assoc]
    rfl

/-- An allocation from a state with `l` taken: either a fresh block, or
nothing is left and nothing changes. -/
theorem Taken.alloc {s₀ s : Pmm} {l : List Nat} (h : Taken s₀ l s) :
    (∃ b, b < s₀.totalBlocks ∧ bitmapTest s b = false ∧ bitmapTest s₀ b = false ∧ b ∉ l ∧
      (pmmAllocBlock s).1 = b * 4096 ∧ Taken s₀ (b :: l) (pmmAllocBlock s).2) ∨
    ((∀ c < s.totalBlocks, bitmapTest s c = true) ∧ pmmAllocBlock s = (0, s)) := by
  rcases pmmAllocBlock_cases s with ⟨b, hb, hclear, -, he⟩ | hnone
  · obtain ⟨hclear₀, hnot⟩ := h.test_false.mp hclear
    refine Or.inl ⟨b, h.total ▸ hb, hclear, hclear₀, hnot, ?_, ?_⟩
    · rw [he]
    · rw [he]
      exact h.cons hb hclear
  · exact Or.inr hnone

/-- Releasing one of the taken blocks. -/
theorem Taken.free {s₀ s : Pmm} {l : List Nat} {b : Nat} (h : Taken s₀ l s) (hb : b ∈ l) :
    Taken s₀ (l.erase b) (pmmFreeBlock (b * 4096) s) := by
  obtain ⟨hbt, hclear₀⟩ := h.fresh b hb
  have hset : bitmapTest s b = true := (h.test b).mpr (Or.inr hb)
  have he : pmmFreeBlock (b * 4096) s = markFree s b := by
    unfold pmmFreeBlock releaseBlock
    rw [Nat.mul_div_cancel _ (Nat.zero_lt_succ 4095), if_pos (h.total ▸ hbt), if_pos hset]
  rw [he]
  refine ⟨h.total, h.nodup.erase b, fun c hc => h.fresh c (List.mem_of_mem_erase hc),
    fun c => ?_, ?_⟩
  · rw [bitmapTest_markFree, h.test, h.nodup.mem_erase_iff]
    constructor
    · intro hc
      exact hc.2.imp id (fun hl => ⟨hc.1, hl⟩)
    · intro hc
      rcases hc with hs | hl
      · refine ⟨fun hcb => ?_, Or.inl hs⟩
        rw [hcb, hclear₀] at hs
        exact Bool.false_ne_true hs
      · exact ⟨hl.1, Or.inr hl.2⟩
  · show s.usedBlocks - 1 = _
    have hlen : l.length = (l.erase b).length + 1 := by
      rw [List.length_erase_of_mem hb]
      have := List.length_pos_of_mem hb
      omega
    rw [h.used, hlen, UInt32.ofNat_add, ← UInt32.add_assoc]
    exact UInt32.add_sub_cancel _ _

/-- With nothing outstanding the allocator is back where it started. -/
theorem Taken.eq_of_nil {s₀ s : Pmm} (h : Taken s₀ [] s) : s = s₀ := by
  have hbits : s.bitmap = s₀.bitmap :=
    Words.ext_test fun b => (h.test b).trans ⟨fun hb => hb.resolve_right List.not_mem_nil, Or.inl⟩
  have hused : s.usedBlocks = s₀.usedBlocks := h.used.trans (UInt32.add_zero _)
  have htotal := h.total
  cases s
  cases s₀
  cases hbits
  cases hused
  cases htotal
  rfl

/-! ## Counting what is left -/

/-- The number of free tracked blocks. -/
def freeCount (s : Pmm) : Nat := Nat.count (fun b => bitmapTest s b = false) s.totalBlocks

theorem freeCount_markUsed {s : Pmm} {b : Nat} (hb : b < s.totalBlocks)
    (hclear : bitmapTest s b = false) : freeCount (markUsed s b) + 1 = freeCount s := by
  refine (Words.count_add_one hb ?_ hclear (fun c hc => ?_)).symm
  · rw [(bitmapTest_markUsed s b b).mpr (Or.inl rfl)]
    exact fun h => Bool.false_ne_true h.symm
  · rw [← Bool.not_eq_true, bitmapTest_markUsed, ← Bool.not_eq_true (bitmapTest s c)]
    exact not_congr ⟨fun h => h.resolve_left hc, Or.inr⟩

theorem Taken.freeCount {s₀ : Pmm} : ∀ {l : List Nat} {s : Pmm}, Taken s₀ l s →
    freeCount s + l.length = freeCount s₀ := by
  intro l
  have key : ∀ l : List Nat, l.Nodup →
      (∀ b ∈ l, b < s₀.totalBlocks ∧ bitmapTest s₀ b = false) →
      Nat.count (fun b => bitmapTest s₀ b = false ∧ b ∉ l) s₀.totalBlocks + l.length
        = Nat.count (fun b => bitmapTest s₀ b = false) s₀.totalBlocks := by
    intro l
    induction l with
    | nil =>
      intro _ _
      exact Words.count_congr fun b _ => ⟨fun h => h.1, fun h => ⟨h, List.not_mem_nil⟩⟩
    | cons b l ih =>
      intro hnd hfresh
      obtain ⟨hnot, hnd'⟩ := List.nodup_cons.mp hnd
      obtain ⟨hbt, hclear⟩ := hfresh b List.mem_cons_self
      have hstep := Words.count_add_one
        (p := fun c => bitmapTest s₀ c = false ∧ c ∉ b :: l)
        (q := fun c => bitmapTest s₀ c = false ∧ c ∉ l) hbt
        (fun h => h.2 List.mem_cons_self) ⟨hclear, hnot⟩
        (fun c hc => by simp only [List.mem_cons, hc, false_or])
      have := ih hnd' fun c hc => hfresh c (List.mem_cons_of_mem _ hc)
      rw [List.length_cons]
      omega
  intro s h
  have hk := key l h.nodup h.fresh
  unfold MyOS.freeCount
  rw [h.total, ← hk]
  congr 1
  exact Words.count_congr fun b _ => h.test_false

/-- Nothing is handed out exactly when no tracked block is free. -/
theorem freeCount_eq_zero {s : Pmm} (h : ∀ c < s.totalBlocks, bitmapTest s c = true) :
    freeCount s = 0 :=
  Nat.count_iff_forall_not.mpr fun c hc hf => by
    rw [h c hc] at hf
    exact Bool.false_ne_true hf.symm

/-- With block 0 reserved, `NULL` means that no block is left. -/
theorem pmmAllocBlock_null {s : Pmm} (hzero : bitmapTest s 0 = true) (h : (pmmAllocBlock s).1 = 0) :
    pmmAllocBlock s = (0, s) ∧ freeCount s = 0 := by
  rcases pmmAllocBlock_cases s with ⟨b, -, hclear, -, he⟩ | ⟨hall, he⟩
  · rw [he] at h
    have hb : b = 0 := by
      simp only at h
      omega
    rw [hb, hzero] at hclear
    exact absurd hclear (by simp)
  · exact ⟨he, freeCount_eq_zero hall⟩

/-! ## Runs of allocations and releases -/

/-- The allocator with the addresses handed out and not yet returned. -/
structure Owner where
  pmm : Pmm
  outstanding : List Nat

/-- A call: allocate, or free the address `ptr`. -/
inductive OwnerOp where
  | alloc
  | free (ptr : Nat)
  deriving DecidableEq

namespace OwnerOp

/-- One call. A free of an address that is not outstanding is not part of
any run considered here (`none`). -/
def apply (o : Owner) : OwnerOp → Option Owner
  | alloc =>
    if (pmmAllocBlock o.pmm).1 = 0 then some ⟨(pmmAllocBlock o.pmm).2, o.outstanding⟩
    else some ⟨(pmmAllocBlock o.pmm).2, (pmmAllocBlock o.pmm).1 :: o.outstanding⟩
  | free ptr =>
    if ptr ∈ o.outstanding then some ⟨pmmFreeBlock ptr o.pmm, o.outstanding.erase ptr⟩ else none

/-- A whole run. -/
def run (o : Owner) : List OwnerOp → Option Owner
  | [] => some o
  | op :: ops => (op.apply o).bind fun o' => run o' ops

end OwnerOp

/-- The outstanding addresses are the taken blocks. -/
def Owns (s₀ : Pmm) (o : Owner) : Prop :=
  ∃ l, o.outstanding = l.map (· * 4096) ∧ Taken s₀ l o.pmm

theorem mul_block_injective : Function.Injective (fun b : Nat => b * 4096) := fun a b h => by
  simp only at h
  omega

/-- One call keeps ownership exact. Block 0 is reserved, so a returned
`NULL` means that nothing was handed out. -/
theorem OwnerOp.apply_owns {s₀ : Pmm} (hzero : bitmapTest s₀ 0 = true) {o o' : Owner} (op : OwnerOp)
    (h : Owns s₀ o) (hop : op.apply o = some o') : Owns s₀ o' := by
  obtain ⟨l, hout, ht⟩ := h
  cases op with
  | alloc =>
    simp only [OwnerOp.apply] at hop
    rcases ht.alloc with ⟨b, -, -, hclear, -, haddr, ht'⟩ | ⟨-, hnone⟩
    · have hb : b ≠ 0 := fun hb0 => by
        rw [hb0, hzero] at hclear
        exact Bool.false_ne_true hclear.symm
      rw [if_neg (by omega)] at hop
      cases hop
      exact ⟨b :: l, by rw [haddr, hout]; rfl, ht'⟩
    · rw [hnone, if_pos rfl] at hop
      cases hop
      exact ⟨l, hout, ht⟩
  | free ptr =>
    simp only [OwnerOp.apply] at hop
    split at hop
    next hmem =>
      cases hop
      rw [hout] at hmem
      obtain ⟨b, hb, hptr⟩ := List.mem_map.mp hmem
      subst hptr
      refine ⟨l.erase b, ?_, ht.free hb⟩
      show o.outstanding.erase (b * 4096) = _
      rw [hout]
      exact (List.map_erase mul_block_injective l).symm
    next => exact absurd hop (by simp)

theorem OwnerOp.run_owns {s₀ : Pmm} (hzero : bitmapTest s₀ 0 = true) :
    ∀ (ops : List OwnerOp) {o o' : Owner}, Owns s₀ o → OwnerOp.run o ops = some o' → Owns s₀ o' := by
  intro ops
  induction ops with
  | nil =>
    intro _ _ h hrun
    cases hrun
    exact h
  | cons op ops ih =>
    intro o o' h hrun
    unfold OwnerOp.run at hrun
    cases hop : op.apply o with
    | none =>
      rw [hop] at hrun
      exact absurd hrun (by simp)
    | some o₁ =>
      rw [hop] at hrun
      exact ih (OwnerOp.apply_owns hzero op h hop) hrun

/-- What ownership says about one outstanding address. -/
theorem Owns.mem {s₀ : Pmm} (hzero : bitmapTest s₀ 0 = true) {o : Owner} (h : Owns s₀ o) {a : Nat}
    (ha : a ∈ o.outstanding) :
    a ≠ 0 ∧ a % 4096 = 0 ∧ a < s₀.totalBlocks * 4096 ∧ bitmapTest s₀ (a / 4096) = false := by
  obtain ⟨l, hout, ht⟩ := h
  rw [hout] at ha
  obtain ⟨b, hb, hab⟩ := List.mem_map.mp ha
  obtain ⟨hbt, hclear⟩ := ht.fresh b hb
  have hb0 : b ≠ 0 := fun hb0 => by
    rw [hb0, hzero] at hclear
    exact Bool.false_ne_true hclear.symm
  refine ⟨by omega, by omega, by omega, ?_⟩
  rw [← hab, Nat.mul_div_cancel _ (Nat.zero_lt_succ 4095)]
  exact hclear

theorem Owns.nodup {s₀ : Pmm} {o : Owner} (h : Owns s₀ o) : o.outstanding.Nodup := by
  obtain ⟨l, hout, ht⟩ := h
  rw [hout]
  exact ht.nodup.map mul_block_injective

/-- `pmm_get_free_blocks` has dropped by the number outstanding. -/
theorem Owns.free_eq {s₀ : Pmm} (hinv : PmmInv s₀) {o : Owner} (hinv' : PmmInv o.pmm)
    (h : Owns s₀ o) :
    (pmmGetFreeBlocks o.pmm).toNat + o.outstanding.length = (pmmGetFreeBlocks s₀).toNat := by
  obtain ⟨l, hout, ht⟩ := h
  rw [hinv.free_eq, hinv'.free_eq, hout, List.length_map]
  exact ht.freeCount

theorem OwnerOp.apply_inv {o o' : Owner} (op : OwnerOp) (h : PmmInv o.pmm)
    (hop : op.apply o = some o') : PmmInv o'.pmm := by
  cases op with
  | alloc =>
    simp only [OwnerOp.apply] at hop
    split at hop
    next =>
      cases hop
      exact pmmAllocBlock_inv h
    next =>
      cases hop
      exact pmmAllocBlock_inv h
  | free ptr =>
    simp only [OwnerOp.apply] at hop
    split at hop
    next =>
      cases hop
      exact releaseBlock_inv _ _ h
    next => exact absurd hop (by simp)

theorem OwnerOp.run_inv : ∀ (ops : List OwnerOp) {o o' : Owner}, PmmInv o.pmm →
    OwnerOp.run o ops = some o' → PmmInv o'.pmm := by
  intro ops
  induction ops with
  | nil =>
    intro _ _ h hrun
    cases hrun
    exact h
  | cons op ops ih =>
    intro o o' h hrun
    unfold OwnerOp.run at hrun
    cases hop : op.apply o with
    | none =>
      rw [hop] at hrun
      exact absurd hrun (by simp)
    | some o₁ =>
      rw [hop] at hrun
      exact ih (OwnerOp.apply_inv op h hop) hrun

end MyOS
