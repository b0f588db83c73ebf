import MyOS.Pmm.Bitmap

/-!
# The counter is the population count

`PmmInv` is the representation invariant of the allocator: the counter
`pmm_used_blocks` is the number of set bits among the tracked ones, and the
padding bits of the last bitmap word stay set. Every operation changes the
bitmap through `markUsed` on a clear tracked bit or `markFree` on a set
tracked bit, so the invariant is proved for these two and the rest follows
by the shape of the code (`markUsed_inv`, `markFree_inv`, then one lemma per
operation and `run_inv` for whole runs).

The second half is the footprint. `SameTracked s t` relates two allocator
states that agree on everything the bitmap's own words hold; every operation
keeps it, returns the same address on both, and leaves the words at and
beyond `total_words` as they were. No word outside the bitmap is read or
written.
-/

namespace MyOS

open Lib

/-- The representation invariant. -/
structure PmmInv (s : Pmm) : Prop where
  used_eq : s.usedBlocks.toNat = s.bitmap.pop s.totalBlocks
  padding : ∀ b, s.totalBlocks ≤ b → b < totalWords s * 32 → bitmapTest s b = true

theorem PmmInv.used_le {s : Pmm} (h : PmmInv s) : s.usedBlocks.toNat ≤ s.totalBlocks := by
  rw [h.used_eq]
  exact Words.pop_le _ _

/-- `pmm_get_free_blocks` is the number of clear tracked bits. -/
theorem PmmInv.free_eq {s : Pmm} (h : PmmInv s) :
    (pmmGetFreeBlocks s).toNat = Nat.count (fun b => bitmapTest s b = false) s.totalBlocks := by
  have htl := s.total_lt
  have hle := h.used_le
  have hsum := Words.pop_add_clear s.bitmap s.totalBlocks
  have htot : (UInt32.ofNat s.totalBlocks).toNat = s.totalBlocks :=
    UInt32.toNat_ofNat_of_lt' (by show _ < 2 ^ 32; omega)
  unfold pmmGetFreeBlocks
  rw [UInt32.toNat_sub_of_le _ _ (by rw [UInt32.le_iff_toNat_le, htot]; exact hle), htot,
    h.used_eq]
  show _ = Nat.count (fun b => s.bitmap.test b = false) s.totalBlocks
  omega

/-! ## One effective write -/

theorem markUsed_inv {s : Pmm} {b : Nat} (h : PmmInv s) (hb : b < s.totalBlocks)
    (hclear : bitmapTest s b = false) : PmmInv (markUsed s b) := by
  have hpop : (s.bitmap.set b).pop s.totalBlocks = s.bitmap.pop s.totalBlocks + 1 :=
    Words.pop_set (Nat.zero_lt_succ 31) hb hclear
  have hlt : s.bitmap.pop s.totalBlocks < s.totalBlocks := Words.pop_lt_of_clear hb hclear
  have htl := s.total_lt
  refine ⟨?_, fun c hc1 hc2 => (bitmapTest_markUsed s b c).mpr (Or.inr (h.padding c hc1 hc2))⟩
  show (s.usedBlocks + 1).toNat = (s.bitmap.set b).pop s.totalBlocks
  rw [UInt32.toNat_add, h.used_eq, hpop]
  show (_ + 1) % 2 ^ 32 = _
  omega

theorem markFree_inv {s : Pmm} {b : Nat} (h : PmmInv s) (hb : b < s.totalBlocks)
    (hset : bitmapTest s b = true) : PmmInv (markFree s b) := by
  have hpop : (s.bitmap.clear b).pop s.totalBlocks + 1 = s.bitmap.pop s.totalBlocks :=
    Words.pop_clear (Nat.zero_lt_succ 31) hb hset
  refine ⟨?_, fun c hc1 hc2 =>
    (bitmapTest_markFree s b c).mpr ⟨Nat.ne_of_gt (Nat.lt_of_lt_of_le hb hc1), h.padding c hc1 hc2⟩⟩
  show (s.usedBlocks - 1).toNat = (s.bitmap.clear b).pop s.totalBlocks
  have hone : (1 : UInt32) ≤ s.usedBlocks := by
    rw [UInt32.le_iff_toNat_le, h.used_eq, ← hpop]
    exact Nat.le_add_left 1 _
  rw [UInt32.toNat_sub_of_le _ _ hone, h.used_eq, ← hpop]
  exact Nat.add_sub_cancel ..

/-! ## One operation -/

theorem reserveBlock_inv (s : Pmm) (b : Nat) (h : PmmInv s) : PmmInv (reserveBlock s b) := by
  unfold reserveBlock
  split
  next hb =>
    split
    next hclear => exact markUsed_inv h hb (by simpa using hclear)
    next => exact h
  next => exact h

theorem releaseBlock_inv (s : Pmm) (b : Nat) (h : PmmInv s) : PmmInv (releaseBlock s b) := by
  unfold releaseBlock
  split
  next hb =>
    split
    next hset => exact markFree_inv h hb hset
    next => exact h
  next => exact h

theorem pmmReserveRegion_inv (base size : Nat) {s : Pmm} (h : PmmInv s) :
    PmmInv (pmmReserveRegion base size s) :=
  forBlocks_induction reserveBlock_inv _ _ _ h

theorem pmmFreeRegion_inv (base size : Nat) {s : Pmm} (h : PmmInv s) :
    PmmInv (pmmFreeRegion base size s) :=
  forBlocks_induction releaseBlock_inv _ _ _ h

theorem pmmAllocBlock_inv {s : Pmm} (h : PmmInv s) : PmmInv (pmmAllocBlock s).2 := by
  rcases pmmAllocBlock_cases s with ⟨b, hb, hclear, -, he⟩ | ⟨-, he⟩
  · rw [he]
    exact markUsed_inv h hb hclear
  · rw [he]
    exact h

/-! ## Whole runs -/

/-- A call of one of the four operations, with its 32-bit arguments. -/
inductive PmmOp where
  | reserveRegion (base size : UInt32)
  | freeRegion (base size : UInt32)
  | allocBlock
  | freeBlock (ptr : UInt32)
  deriving DecidableEq

namespace PmmOp

/-- The state after the call. -/
def apply (s : Pmm) : PmmOp → Pmm
  | reserveRegion base size => pmmReserveRegion base.toNat size.toNat s
  | freeRegion base size => pmmFreeRegion base.toNat size.toNat s
  | allocBlock => (pmmAllocBlock s).2
  | freeBlock ptr => pmmFreeBlock ptr.toNat s

/-- The pointer the call returns; only `pmm_alloc_block` returns one. -/
def ret (s : Pmm) : PmmOp → Nat
  | allocBlock => (pmmAllocBlock s).1
  | _ => 0

/-- A whole run of calls. -/
def run (s : Pmm) (ops : List PmmOp) : Pmm := ops.foldl apply s

theorem apply_inv {s : Pmm} (h : PmmInv s) (op : PmmOp) : PmmInv (op.apply s) := by
  cases op with
  | reserveRegion base size => exact pmmReserveRegion_inv _ _ h
  | freeRegion base size => exact pmmFreeRegion_inv _ _ h
  | allocBlock => exact pmmAllocBlock_inv h
  | freeBlock ptr => exact releaseBlock_inv s _ h

theorem run_inv : ∀ (ops : List PmmOp) {s : Pmm}, PmmInv s → PmmInv (run s ops) := by
  intro ops
  induction ops with
  | nil =>
    intro _ h
    exact h
  | cons op ops ih =>
    intro _ h
    exact ih (apply_inv h op)

theorem apply_totalBlocks (s : Pmm) (op : PmmOp) : (op.apply s).totalBlocks = s.totalBlocks := by
  cases op with
  | reserveRegion base size => exact pmmReserveRegion_totalBlocks _ _ s
  | freeRegion base size => exact pmmFreeRegion_totalBlocks _ _ s
  | allocBlock => exact pmmAllocBlock_totalBlocks s
  | freeBlock ptr => exact pmmFreeBlock_totalBlocks _ s

theorem run_totalBlocks : ∀ (ops : List PmmOp) (s : Pmm),
    (run s ops).totalBlocks = s.totalBlocks := by
  intro ops
  induction ops with
  | nil =>
    intro _
    rfl
  | cons op ops ih =>
    intro s
    exact (ih (op.apply s)).trans (apply_totalBlocks s op)

end PmmOp

/-! ## The footprint: only the bitmap's own words -/

/-- The two states track the same blocks, hold the same counter and agree on
the words of the bitmap, whatever lies behind it. -/
structure SameTracked (s t : Pmm) : Prop where
  total : s.totalBlocks = t.totalBlocks
  used : s.usedBlocks = t.usedBlocks
  word : ∀ i < totalWords s, s.bitmap i = t.bitmap i

theorem SameTracked.test {s t : Pmm} (h : SameTracked s t) {b : Nat} (hb : b < totalWords s * 32) :
    bitmapTest s b = bitmapTest t b := by
  have hi : b / 32 < totalWords s := by omega
  unfold bitmapTest Words.test
  rw [h.word _ hi]

theorem lt_totalWords {s : Pmm} {b : Nat} (hb : b < s.totalBlocks) : b < totalWords s * 32 := by
  unfold totalWords
  omega

theorem SameTracked.markUsed {s t : Pmm} (h : SameTracked s t) (b : Nat) :
    SameTracked (markUsed s b) (markUsed t b) := by
  refine ⟨h.total, ?_, fun i hi => ?_⟩
  · show s.usedBlocks + 1 = t.usedBlocks + 1
    rw [h.used]
  · show (if i = b / 32 then s.bitmap i ||| _ else s.bitmap i)
      = if i = b / 32 then t.bitmap i ||| _ else t.bitmap i
    rw [h.word i hi]

theorem SameTracked.markFree {s t : Pmm} (h : SameTracked s t) (b : Nat) :
    SameTracked (markFree s b) (markFree t b) := by
  refine ⟨h.total, ?_, fun i hi => ?_⟩
  · show s.usedBlocks - 1 = t.usedBlocks - 1
    rw [h.used]
  · show (if i = b / 32 then s.bitmap i &&& _ else s.bitmap i)
      = if i = b / 32 then t.bitmap i &&& _ else t.bitmap i
    rw [h.word i hi]

theorem SameTracked.reserveBlock {s t : Pmm} (h : SameTracked s t) (b : Nat) :
    SameTracked (reserveBlock s b) (reserveBlock t b) := by
  unfold MyOS.reserveBlock
  rw [← h.total]
  by_cases hb : b < s.totalBlocks
  · rw [if_pos hb, if_pos hb, ← h.test (lt_totalWords hb)]
    split
    · exact h.markUsed b
    · exact h
  · rw [if_neg hb, if_neg hb]
    exact h

theorem SameTracked.releaseBlock {s t : Pmm} (h : SameTracked s t) (b : Nat) :
    SameTracked (releaseBlock s b) (releaseBlock t b) := by
  unfold MyOS.releaseBlock
  rw [← h.total]
  by_cases hb : b < s.totalBlocks
  · rw [if_pos hb, if_pos hb, ← h.test (lt_totalWords hb)]
    split
    · exact h.markFree b
    · exact h
  · rw [if_neg hb, if_neg hb]
    exact h

theorem SameTracked.forBlocks {body : Pmm → Nat → Pmm}
    (hbody : ∀ {s t : Pmm}, SameTracked s t → ∀ b, SameTracked (body s b) (body t b))
    (st : Nat) {s t : Pmm} (h : SameTracked s t) :
    ∀ n, SameTracked (forBlocks body st n s) (forBlocks body st n t) := by
  intro n
  induction n with
  | zero =>
    exact h
  | succ n ih =>
    exact hbody (ih) _

theorem SameTracked.totalWords {s t : Pmm} (h : SameTracked s t) : totalWords s = totalWords t := by
  unfold MyOS.totalWords
  rw [h.total]

theorem SameTracked.scanBits {s t : Pmm} (h : SameTracked s t) (i : Nat) :
    ∀ n j, scanBits s i n j = scanBits t i n j := by
  intro n
  induction n with
  | zero =>
    intro _
    rfl
  | succ n ih =>
    intro j
    unfold MyOS.scanBits
    rw [← h.total, ih (j + 1)]
    by_cases hend : s.totalBlocks ≤ i * 32 + j
    · rw [if_pos hend, if_pos hend]
    · rw [if_neg hend, if_neg hend, h.test (lt_totalWords (by omega))]

theorem SameTracked.scanWords {s t : Pmm} (h : SameTracked s t) :
    ∀ n i, n + i ≤ MyOS.totalWords s → scanWords s n i = scanWords t n i := by
  intro n
  induction n with
  | zero =>
    intro _ _
    rfl
  | succ n ih =>
    intro i hi
    unfold MyOS.scanWords
    rw [h.word i (by omega), h.scanBits, ih (i + 1) (by omega)]

/-- Two states that agree on the bitmap hand out the same address. -/
theorem SameTracked.alloc {s t : Pmm} (h : SameTracked s t) :
    (pmmAllocBlock s).1 = (pmmAllocBlock t).1 ∧
      SameTracked (pmmAllocBlock s).2 (pmmAllocBlock t).2 := by
  unfold pmmAllocBlock
  rw [← h.totalWords, ← h.scanWords _ 0 (by omega)]
  cases MyOS.scanWords s (MyOS.totalWords s) 0 with
  | none => exact ⟨rfl, h⟩
  | some b => exact ⟨rfl, h.markUsed b⟩

theorem SameTracked.apply {s t : Pmm} (h : SameTracked s t) (op : PmmOp) :
    op.ret s = op.ret t ∧ SameTracked (op.apply s) (op.apply t) := by
  cases op with
  | reserveRegion base size =>
    exact ⟨rfl, SameTracked.forBlocks SameTracked.reserveBlock _ h _⟩
  | freeRegion base size =>
    exact ⟨rfl, SameTracked.forBlocks SameTracked.releaseBlock _ h _⟩
  | allocBlock => exact h.alloc
  | freeBlock ptr => exact ⟨rfl, h.releaseBlock _⟩

theorem SameTracked.run : ∀ (ops : List PmmOp) {s t : Pmm}, SameTracked s t →
    SameTracked (PmmOp.run s ops) (PmmOp.run t ops) := by
  intro ops
  induction ops with
  | nil =>
    intro _ _ h
    exact h
  | cons op ops ih =>
    intro _ _ h
    exact ih (h.apply op).2

/-- The words behind the bitmap are as they were in `s₀`. -/
def Behind (s₀ s : Pmm) : Prop :=
  s.totalBlocks = s₀.totalBlocks ∧ ∀ i, totalWords s₀ ≤ i → s.bitmap i = s₀.bitmap i

theorem Behind.markUsed {s₀ s : Pmm} {b : Nat} (h : Behind s₀ s) (hb : b < s.totalBlocks) :
    Behind s₀ (markUsed s b) := by
  refine ⟨h.1, fun i hi => ?_⟩
  have hbi : i ≠ b / 32 := by
    have := h.1
    unfold totalWords at hi
    omega
  exact (Words.set_apply_ne hbi).trans (h.2 i hi)

theorem Behind.markFree {s₀ s : Pmm} {b : Nat} (h : Behind s₀ s) (hb : b < s.totalBlocks) :
    Behind s₀ (markFree s b) := by
  refine ⟨h.1, fun i hi => ?_⟩
  have hbi : i ≠ b / 32 := by
    have := h.1
    unfold totalWords at hi
    omega
  exact (Words.clear_apply_ne hbi).trans (h.2 i hi)

theorem Behind.reserveBlock {s₀ : Pmm} (s : Pmm) (b : Nat) (h : Behind s₀ s) :
    Behind s₀ (reserveBlock s b) := by
  unfold MyOS.reserveBlock
  split
  next hb =>
    split
    · exact h.markUsed hb
    · exact h
  next => exact h

theorem Behind.releaseBlock {s₀ : Pmm} (s : Pmm) (b : Nat) (h : Behind s₀ s) :
    Behind s₀ (releaseBlock s b) := by
  unfold MyOS.releaseBlock
  split
  next hb =>
    split
    · exact h.markFree hb
    · exact h
  next => exact h

theorem Behind.reserveRegion {s₀ s : Pmm} (h : Behind s₀ s) (base size : Nat) :
    Behind s₀ (pmmReserveRegion base size s) :=
  forBlocks_induction Behind.reserveBlock _ _ _ h

theorem Behind.freeRegion {s₀ s : Pmm} (h : Behind s₀ s) (base size : Nat) :
    Behind s₀ (pmmFreeRegion base size s) :=
  forBlocks_induction Behind.releaseBlock _ _ _ h

theorem Behind.apply {s₀ s : Pmm} (h : Behind s₀ s) (op : PmmOp) : Behind s₀ (op.apply s) := by
  cases op with
  | reserveRegion base size => exact h.reserveRegion _ _
  | freeRegion base size => exact h.freeRegion _ _
  | allocBlock =>
    show Behind s₀ (pmmAllocBlock s).2
    rcases pmmAllocBlock_cases s with ⟨b, hb, -, -, he⟩ | ⟨-, he⟩
    · rw [he]
      exact h.markUsed hb
    · rw [he]
      exact h
  | freeBlock ptr => exact Behind.releaseBlock s _ h

theorem Behind.run {s₀ : Pmm} : ∀ (ops : List PmmOp) {s : Pmm}, Behind s₀ s →
    Behind s₀ (PmmOp.run s ops) := by
  intro ops
  induction ops with
  | nil =>
    intro _ h
    exact h
  | cons op ops ih =>
    intro _ h
    exact ih (h.apply op)

end MyOS
