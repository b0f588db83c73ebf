import MyOS.Pmm.FreeSet

/-!
# The allocator from boot onwards

The results about the allocator proper, from the end of `pmm_init` on: the
representation invariant over any run of the four operations with any 32-bit
arguments, and exclusive ownership over any run that frees only what it
owns. Both start from what `pmm_init` leaves, for every boot loader input it
returns on (`pmmInit .. = some b`), the early returns included.

`PmmOp.touched` lists the bitmap word indices a call evaluates
`pmm_bitmap[..]` at, in the order of the C code. An update always follows a
test of the same bit, so it adds no word of its own.
-/

namespace MyOS

open Lib

/-! ## The words a call evaluates -/

/-- Loop body of the region operations, and `pmm_free_block`: the bit is
tested, and set or cleared in the same word, only if it is tracked. -/
def touchedBlock (s : Pmm) (block : Nat) : List Nat :=
  if block < s.totalBlocks then [block / 32] else []

/-- The region loops. -/
def touchedBlocks (body : Pmm → Nat → Pmm) (startBlock : Nat) : Nat → Pmm → List Nat
  | 0, _ => []
  | i + 1, s => touchedBlocks body startBlock i s ++
      touchedBlock (forBlocks body startBlock i s) ((startBlock + i) % 2 ^ 32)

/-- The inner loop of `pmm_alloc_block`: one test for each bit it looks at. -/
def touchedBits (s : Pmm) (i : Nat) : Nat → Nat → List Nat
  | 0, _ => []
  | n + 1, j =>
    if s.totalBlocks ≤ i * 32 + j then []
    else if !bitmapTest s (i * 32 + j) then [(i * 32 + j) / 32]
    else (i * 32 + j) / 32 :: touchedBits s i n (j + 1)

/-- The outer loop of `pmm_alloc_block`. -/
def touchedWords (s : Pmm) : Nat → Nat → List Nat
  | 0, _ => []
  | n + 1, i =>
    i :: if s.bitmap i ≠ 0xFFFFFFFF#32 then
      touchedBits s i 32 0 ++
        match scanBits s i 32 0 with
        | .next => touchedWords s n (i + 1)
        | .stop => []
        | .hit _ => []
    else touchedWords s n (i + 1)

/-- The word indices at which a call evaluates `pmm_bitmap[..]`. -/
def PmmOp.touched (s : Pmm) : PmmOp → List Nat
  | reserveRegion base size =>
    touchedBlocks reserveBlock (base.toNat / 4096) ((size.toNat + 4096 - 1) % 2 ^ 32 / 4096) s
  | freeRegion base size => touchedBlocks releaseBlock (base.toNat / 4096) (size.toNat / 4096) s
  | allocBlock => touchedWords s (totalWords s) 0
  | freeBlock ptr => touchedBlock s (ptr.toNat / 4096)

theorem touchedBlock_lt {s : Pmm} {block i : Nat} (hi : i ∈ touchedBlock s block) :
    i < totalWords s := by
  unfold touchedBlock at hi
  split at hi
  next hb =>
    rw [List.mem_singleton.mp hi]
    unfold totalWords
    omega
  next => exact absurd hi List.not_mem_nil

theorem touchedBlocks_lt {body : Pmm → Nat → Pmm}
    (hbody : ∀ s b, (body s b).totalBlocks = s.totalBlocks) (st : Nat) (s : Pmm) {i : Nat} :
    ∀ n, i ∈ touchedBlocks body st n s → i < totalWords s := by
  intro n
  induction n with
  | zero =>
    intro hi
    exact absurd hi List.not_mem_nil
  | succ n ih =>
    intro hi
    rcases List.mem_append.mp hi with hi | hi
    · exact ih hi
    · have hlt := touchedBlock_lt hi
      unfold totalWords at hlt ⊢
      rwa [forBlocks_totalBlocks hbody] at hlt

theorem touchedBits_lt (s : Pmm) (w : Nat) {i : Nat} :
    ∀ n j, i ∈ touchedBits s w n j → i < totalWords s := by
  intro n
  induction n with
  | zero =>
    intro _ hi
    exact absurd hi List.not_mem_nil
  | succ n ih =>
    intro j hi
    unfold touchedBits at hi
    split at hi
    next => exact absurd hi List.not_mem_nil
    next hend =>
      have hword : (w * 32 + j) / 32 < totalWords s := by
        unfold totalWords
        omega
      split at hi
      next =>
        rw [List.mem_singleton.mp hi]
        exact hword
      next =>
        rcases List.mem_cons.mp hi with hi | hi
        · rw [hi]
          exact hword
        · exact ih (j + 1) hi

theorem touchedWords_lt (s : Pmm) {i : Nat} :
    ∀ n w, w + n ≤ totalWords s → i ∈ touchedWords s n w → i < totalWords s := by
  intro n
  induction n with
  | zero =>
    intro _ _ hi
    exact absurd hi List.not_mem_nil
  | succ n ih =>
    intro w hw hi
    unfold touchedWords at hi
    rcases List.mem_cons.mp hi with hi | hi
    · omega
    split at hi
    next =>
      rcases List.mem_append.mp hi with hi | hi
      · exact touchedBits_lt s w 32 0 hi
      · split at hi
        next => exact ih (w + 1) (by omega) hi
        next => exact absurd hi List.not_mem_nil
        next => exact absurd hi List.not_mem_nil
    next => exact ih (w + 1) (by omega) hi

/-- No call evaluates a word at or beyond `(pmm_total_blocks + 31) / 32`. -/
theorem PmmOp.touched_lt {s : Pmm} (op : PmmOp) {i : Nat} (hi : i ∈ op.touched s) :
    i < totalWords s := by
  cases op with
  | reserveRegion base size => exact touchedBlocks_lt reserveBlock_totalBlocks _ s _ hi
  | freeRegion base size => exact touchedBlocks_lt releaseBlock_totalBlocks _ s _ hi
  | allocBlock => exact touchedWords_lt s _ 0 (by omega) hi
  | freeBlock ptr => exact touchedBlock_lt hi

/-! ## The representation invariant over every run -/

/-- **The allocator's invariant.** After `pmm_init` and any sequence of the
four operations with any 32-bit arguments: the counter is the number of set
tracked bits, so it is at most the total and the free count is the number of
clear ones; the padding bits are set; and the next call, whichever it is,
evaluates and changes only words of the bitmap, with a result that does not
depend on what lies behind it. -/
theorem pmmInit_run_inv {im : Image} {fuel mbiAddr : Nat} {m : Mem} {b : Boot}
    (h : pmmInit im fuel mbiAddr m = some b) (ops : List PmmOp) :
    (PmmOp.run b.pmm ops).totalBlocks = b.pmm.totalBlocks ∧
    (pmmGetUsedBlocks (PmmOp.run b.pmm ops)).toNat
      = Nat.count (fun c => bitmapTest (PmmOp.run b.pmm ops) c = true) b.pmm.totalBlocks ∧
    (pmmGetUsedBlocks (PmmOp.run b.pmm ops)).toNat ≤ b.pmm.totalBlocks ∧
    (pmmGetFreeBlocks (PmmOp.run b.pmm ops)).toNat
      = Nat.count (fun c => bitmapTest (PmmOp.run b.pmm ops) c = false) b.pmm.totalBlocks ∧
    (∀ c, b.pmm.totalBlocks ≤ c → c < (b.pmm.totalBlocks + 31) / 32 * 32 →
      bitmapTest (PmmOp.run b.pmm ops) c = true) ∧
    (∀ i, (b.pmm.totalBlocks + 31) / 32 ≤ i →
      (PmmOp.run b.pmm ops).bitmap i = b.pmm.bitmap i) ∧
    (∀ op : PmmOp, ∀ i ∈ op.touched (PmmOp.run b.pmm ops), i < (b.pmm.totalBlocks + 31) / 32) ∧
    ∀ t, SameTracked b.pmm t → SameTracked (PmmOp.run b.pmm ops) (PmmOp.run t ops) ∧
      ∀ op : PmmOp, op.ret (PmmOp.run b.pmm ops) = op.ret (PmmOp.run t ops) := by
  have hinv := PmmOp.run_inv ops (pmmInit_inv h)
  have htot := PmmOp.run_totalBlocks ops b.pmm
  have hwords : totalWords (PmmOp.run b.pmm ops) = (b.pmm.totalBlocks + 31) / 32 := by
    unfold totalWords
    rw [htot]
  refine ⟨htot, ?_, ?_, ?_, fun c hc hlt => ?_, ?_, fun op i hi => ?_, fun t ht => ?_⟩
  · rw [← htot]
    exact hinv.used_eq
  · rw [← htot]
    exact hinv.used_le
  · rw [← htot]
    exact hinv.free_eq
  · exact hinv.padding c (by rw [htot]; exact hc) (by rw [hwords]; exact hlt)
  · have hbehind : Behind b.pmm b.pmm := ⟨rfl, fun _ _ => rfl⟩
    exact (Behind.run ops hbehind).2
  · rw [← hwords]
    exact op.touched_lt hi
  · exact ⟨ht.run ops, fun op => ((ht.run ops).apply op).1⟩

theorem pmmInit_low : ∃ b, pmmInit smallImage 2 0x500 (bootMem lowEntry 0x200000 0x201000) = some b ∧
    b.pmm.totalBlocks = 1024 ∧ bitmapTest b.pmm 0 = true := by
  obtain ⟨b, hb, htot, hfree⟩ := pmmInit_free bootMem_low_info bootMem_low_placed
    2 (by decide) (by decide)
  refine ⟨b, hb, htot, ?_⟩
  rw [← Bool.not_eq_false, hfree 0 (by decide)]
  exact fun hf => hf.2 (Or.inl (by decide))

theorem pmmInit_run_inv_low : ∃ b,
    pmmInit smallImage 2 0x500 (bootMem lowEntry 0x200000 0x201000) = some b ∧
      (pmmGetUsedBlocks (PmmOp.run b.pmm [.allocBlock, .freeRegion 0xFFFFF000 0xFFFFFFFF])).toNat
        ≤ 1024 := by
  obtain ⟨b, hb, htot, -⟩ := pmmInit_low
  refine ⟨b, hb, ?_⟩
  rw [← htot]
  exact (pmmInit_run_inv hb _).2.2.1

/-! ## Exclusive ownership over every run -/

/-- **Frames are owned exclusively.** From a state `pmm_init` leaves with
block 0 reserved, in every run of allocations and of releases of outstanding
addresses: the outstanding addresses are distinct, not `NULL`, page aligned,
tracked, and were free when the run began; the free count has dropped by
their number; and with none outstanding the allocator is exactly the one the
run began with. -/
theorem pmmInit_run_owns {im : Image} {fuel mbiAddr : Nat} {m : Mem} {b : Boot}
    (h : pmmInit im fuel mbiAddr m = some b) (hzero : bitmapTest b.pmm 0 = true)
    {ops : List OwnerOp} {o : Owner} (hrun : OwnerOp.run ⟨b.pmm, []⟩ ops = some o) :
    o.outstanding.Nodup ∧
    (∀ a ∈ o.outstanding, a ≠ 0 ∧ a % 4096 = 0 ∧ a < b.pmm.totalBlocks * 4096 ∧
      bitmapTest b.pmm (a / 4096) = false) ∧
    (pmmGetFreeBlocks o.pmm).toNat + o.outstanding.length = (pmmGetFreeBlocks b.pmm).toNat ∧
    (o.outstanding = [] →
      o.pmm.bitmap = b.pmm.bitmap ∧ pmmGetUsedBlocks o.pmm = pmmGetUsedBlocks b.pmm) := by
  have howns : Owns b.pmm o := OwnerOp.run_owns hzero ops ⟨[], rfl, Taken.refl _⟩ hrun
  have hinv := pmmInit_inv h
  refine ⟨howns.nodup, fun a ha => howns.mem hzero ha,
    howns.free_eq hinv (OwnerOp.run_inv ops hinv hrun), fun hnil => ?_⟩
  obtain ⟨l, hout, ht⟩ := howns
  rw [hnil] at hout
  rw [List.map_eq_nil_iff.mp hout.symm] at ht
  rw [ht.eq_of_nil]
  exact ⟨rfl, rfl⟩

theorem pmmInit_run_owns_low : ∃ b o,
    pmmInit smallImage 2 0x500 (bootMem lowEntry 0x200000 0x201000) = some b ∧
      OwnerOp.run ⟨b.pmm, []⟩ [.alloc, .alloc] = some o ∧ o.outstanding.Nodup := by
  obtain ⟨b, hb, -, hzero⟩ := pmmInit_low
  have hrun : ∃ o, OwnerOp.run ⟨b.pmm, []⟩ [.alloc, .alloc] = some o := by
    have halloc : ∀ o : Owner, ∃ o', OwnerOp.alloc.apply o = some o' := by
      intro o
      simp only [OwnerOp.apply]
      split
      · exact ⟨_, rfl⟩
      · exact ⟨_, rfl⟩
    obtain ⟨o₁, h₁⟩ := halloc ⟨b.pmm, []⟩
    obtain ⟨o₂, h₂⟩ := halloc o₁
    refine ⟨o₂, ?_⟩
    simp only [OwnerOp.run, h₁, h₂, Option.bind_some]
  obtain ⟨o, ho⟩ := hrun
  exact ⟨b, o, hb, ho, (pmmInit_run_owns hb hzero ho).1⟩

end MyOS
