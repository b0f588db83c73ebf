import MyOS.Lib.Packed

/-!
# The physical memory manager: bitmap, counter and the four operations

`pmm.c` tracks every 4 KiB block of RAM by one bit of `pmm_bitmap`
(0 = free, 1 = reserved or allocated) and keeps the number of set bits in
`pmm_used_blocks`. This file embeds the operations that run after
`pmm_init`: `pmm_reserve_region`, `pmm_free_region`, `pmm_alloc_block`,
`pmm_free_block`, with the getters.

Mirroring notes vs the C:
- The bitmap is a store of 32-bit words by word index (`Words 32`); the
  words live behind the kernel image, in blocks `pmm_init` reserves, so the
  running kernel never reaches them by any other route. `Init.lean` puts
  them at their address in memory, where `pmm_init` reads the boot loader's
  structures from the same memory.
- `pmm_total_blocks` is `pmm_ram_size / 4096` of a 32-bit size, so it is
  below `2 ^ 20`; the structure carries that bound. `pmm_used_blocks` is an
  `UInt32` and wraps as the C counter does.
- Addresses and sizes are naturals below `2 ^ 32`, with the wrap written
  where the C arithmetic can wrap. `NULL` is `0`, so block 0, if it is ever
  free, is handed out as `NULL`, exactly as in the C.
-/

namespace MyOS

open Lib

/-- The allocator's static variables. -/
structure Pmm where
  bitmap : Words 32
  totalBlocks : Nat
  usedBlocks : UInt32
  total_lt : totalBlocks < 2 ^ 20

def bitmapSet (s : Pmm) (bit : Nat) : Pmm := { s with bitmap := s.bitmap.set bit }

def bitmapClear (s : Pmm) (bit : Nat) : Pmm := { s with bitmap := s.bitmap.clear bit }

def bitmapTest (s : Pmm) (bit : Nat) : Bool := s.bitmap.test bit

/-- `bitmap_set(block); pmm_used_blocks++;` -/
def markUsed (s : Pmm) (block : Nat) : Pmm :=
  { bitmapSet s block with usedBlocks := s.usedBlocks + 1 }

/-- `bitmap_clear(block); pmm_used_blocks--;` -/
def markFree (s : Pmm) (block : Nat) : Pmm :=
  { bitmapClear s block with usedBlocks := s.usedBlocks - 1 }

/-- Loop body of `pmm_reserve_region`. -/
def reserveBlock (s : Pmm) (block : Nat) : Pmm :=
  if block < s.totalBlocks then
    if !bitmapTest s block then markUsed s block else s
  else s

/-- Loop body of `pmm_free_region`, and the whole of `pmm_free_block`. -/
def releaseBlock (s : Pmm) (block : Nat) : Pmm :=
  if block < s.totalBlocks then
    if bitmapTest s block then markFree s block else s
  else s

/-- `for (i = 0; i < count; i++) body(start_block + i)` -/
def forBlocks (body : Pmm → Nat → Pmm) (startBlock : Nat) : Nat → Pmm → Pmm
  | 0, s => s
  | i + 1, s => body (forBlocks body startBlock i s) ((startBlock + i) % 2 ^ 32)

/-- The block count is the size rounded up, in 32-bit arithmetic. -/
def pmmReserveRegion (base size : Nat) (s : Pmm) : Pmm :=
  forBlocks reserveBlock (base / 4096) ((size + 4096 - 1) % 2 ^ 32 / 4096) s

/-- The block count is the size rounded down. -/
def pmmFreeRegion (base size : Nat) (s : Pmm) : Pmm :=
  forBlocks releaseBlock (base / 4096) (size / 4096) s

/-- How the inner loop of `pmm_alloc_block` ends: it runs out of bits, it
meets the end of the tracked range (`return NULL`), or it finds a bit. -/
inductive Scan where
  | next
  | stop
  | hit (bit : Nat)
  deriving DecidableEq, Repr

/-- `for (j ..; j < 32; j++)` over word `i`, with `n` iterations left. -/
def scanBits (s : Pmm) (i : Nat) : Nat → Nat → Scan
  | 0, _ => .next
  | n + 1, j =>
    if s.totalBlocks ≤ i * 32 + j then .stop
    else if !bitmapTest s (i * 32 + j) then .hit (i * 32 + j)
    else scanBits s i n (j + 1)

/-- `for (i ..; i < total_words; i++)`, with `n` words left: the bit to
hand out, if any. Full words are skipped. -/
def scanWords (s : Pmm) : Nat → Nat → Option Nat
  | 0, _ => none
  | n + 1, i =>
    if s.bitmap i ≠ 0xFFFFFFFF#32 then
      match scanBits s i 32 0 with
      | .next => scanWords s n (i + 1)
      | .stop => none
      | .hit bit => some bit
    else scanWords s n (i + 1)

/-- `total_words`: every word that holds at least one tracked bit. -/
def totalWords (s : Pmm) : Nat := (s.totalBlocks + 31) / 32

/-- The address handed out (`0` is `NULL`) and the new state. -/
def pmmAllocBlock (s : Pmm) : Nat × Pmm :=
  match scanWords s (totalWords s) 0 with
  | some bit => (bit * 4096 % 2 ^ 32, markUsed s bit)
  | none => (0, s)

def pmmFreeBlock (ptr : Nat) (s : Pmm) : Pmm := releaseBlock s (ptr / 4096)

def pmmGetTotalBlocks (s : Pmm) : Nat := s.totalBlocks

def pmmGetFreeBlocks (s : Pmm) : UInt32 := UInt32.ofNat s.totalBlocks - s.usedBlocks

def pmmGetUsedBlocks (s : Pmm) : UInt32 := s.usedBlocks

/-! ## One bit at a time -/

@[simp] theorem markUsed_totalBlocks (s : Pmm) (b : Nat) :
    (markUsed s b).totalBlocks = s.totalBlocks := rfl

@[simp] theorem markFree_totalBlocks (s : Pmm) (b : Nat) :
    (markFree s b).totalBlocks = s.totalBlocks := rfl

theorem bitmapTest_markUsed (s : Pmm) (b c : Nat) :
    bitmapTest (markUsed s b) c = true ↔ c = b ∨ bitmapTest s c = true :=
  Words.test_set (Nat.zero_lt_succ 31) s.bitmap b c

theorem bitmapTest_markFree (s : Pmm) (b c : Nat) :
    bitmapTest (markFree s b) c = true ↔ c ≠ b ∧ bitmapTest s c = true :=
  Words.test_clear (Nat.zero_lt_succ 31) s.bitmap b c

@[simp] theorem reserveBlock_totalBlocks (s : Pmm) (b : Nat) :
    (reserveBlock s b).totalBlocks = s.totalBlocks := by
  unfold reserveBlock
  split
  · split <;> rfl
  · rfl

@[simp] theorem releaseBlock_totalBlocks (s : Pmm) (b : Nat) :
    (releaseBlock s b).totalBlocks = s.totalBlocks := by
  unfold releaseBlock
  split
  · split <;> rfl
  · rfl

/-- Reserving a block sets its bit, if it is tracked, and no other. -/
theorem bitmapTest_reserveBlock (s : Pmm) (b c : Nat) :
    bitmapTest (reserveBlock s b) c = true ↔
      (c = b ∧ c < s.totalBlocks) ∨ bitmapTest s c = true := by
  unfold reserveBlock
  by_cases hb : b < s.totalBlocks
  · rw [if_pos hb]
    cases ht : bitmapTest s b with
    | false =>
      rw [if_pos Bool.not_false, bitmapTest_markUsed]
      exact or_congr_left ⟨fun h => ⟨h, h ▸ hb⟩, fun h => h.1⟩
    | true =>
      rw [if_neg (by simp)]
      exact ⟨Or.inr, fun h => h.elim (fun he => he.1 ▸ ht) id⟩
  · rw [if_neg hb]
    exact ⟨Or.inr, fun h => h.resolve_left (by omega)⟩

/-- Releasing a block clears its bit, if it is tracked, and no other. -/
theorem bitmapTest_releaseBlock (s : Pmm) (b c : Nat) :
    bitmapTest (releaseBlock s b) c = true ↔
      ¬(c = b ∧ c < s.totalBlocks) ∧ bitmapTest s c = true := by
  unfold releaseBlock
  by_cases hb : b < s.totalBlocks
  · rw [if_pos hb]
    cases ht : bitmapTest s b with
    | true =>
      rw [if_pos rfl, bitmapTest_markFree]
      exact and_congr_left' (not_congr ⟨fun h => ⟨h, h ▸ hb⟩, fun h => h.1⟩)
    | false =>
      rw [if_neg Bool.false_ne_true]
      refine ⟨fun h => ⟨fun he => ?_, h⟩, fun h => h.2⟩
      rw [he.1, ht] at h
      exact Bool.false_ne_true h
  · rw [if_neg hb]
    exact ⟨fun h => ⟨by omega, h⟩, fun h => h.2⟩

/-! ## Regions -/

/-- An invariant of the loop body is an invariant of the loop. -/
theorem forBlocks_induction {body : Pmm → Nat → Pmm} {P : Pmm → Prop}
    (hbody : ∀ s b, P s → P (body s b)) (startBlock : Nat) :
    ∀ (n : Nat) (s : Pmm), P s → P (forBlocks body startBlock n s) := by
  intro n
  induction n with
  | zero =>
    intro _ h
    exact h
  | succ n ih =>
    intro s h
    exact hbody _ _ (ih s h)

@[simp] theorem pmmReserveRegion_totalBlocks (base size : Nat) (s : Pmm) :
    (pmmReserveRegion base size s).totalBlocks = s.totalBlocks :=
  forBlocks_induction (P := fun t => t.totalBlocks = s.totalBlocks)
    (fun t b h => by rw [reserveBlock_totalBlocks, h]) _ _ _ rfl

@[simp] theorem pmmFreeRegion_totalBlocks (base size : Nat) (s : Pmm) :
    (pmmFreeRegion base size s).totalBlocks = s.totalBlocks :=
  forBlocks_induction (P := fun t => t.totalBlocks = s.totalBlocks)
    (fun t b h => by rw [releaseBlock_totalBlocks, h]) _ _ _ rfl

theorem forBlocks_totalBlocks {body : Pmm → Nat → Pmm}
    (hbody : ∀ s b, (body s b).totalBlocks = s.totalBlocks) (st n : Nat) (s : Pmm) :
    (forBlocks body st n s).totalBlocks = s.totalBlocks :=
  forBlocks_induction (P := fun t => t.totalBlocks = s.totalBlocks)
    (fun t b h => by rw [hbody, h]) _ _ _ rfl

/-- The reserve loop sets exactly the tracked bits of its range. -/
theorem bitmapTest_forBlocks_reserve (st c : Nat) (s : Pmm) :
    ∀ n, st + n ≤ 2 ^ 32 →
      (bitmapTest (forBlocks reserveBlock st n s) c = true ↔
        (st ≤ c ∧ c < st + n ∧ c < s.totalBlocks) ∨ bitmapTest s c = true) := by
  intro n
  induction n with
  | zero =>
    intro _
    exact ⟨Or.inr, fun h => h.resolve_left (by omega)⟩
  | succ n ih =>
    intro hn
    rw [forBlocks, bitmapTest_reserveBlock, Nat.mod_eq_of_lt (by omega),
      ih (by omega),
      forBlocks_totalBlocks reserveBlock_totalBlocks, ← or_assoc]
    refine or_congr_left ?_
    omega

/-- The release loop clears exactly the tracked bits of its range. -/
theorem bitmapTest_forBlocks_release (st c : Nat) (s : Pmm) :
    ∀ n, st + n ≤ 2 ^ 32 →
      (bitmapTest (forBlocks releaseBlock st n s) c = true ↔
        ¬(st ≤ c ∧ c < st + n ∧ c < s.totalBlocks) ∧ bitmapTest s c = true) := by
  intro n
  induction n with
  | zero =>
    intro _
    exact ⟨fun h => ⟨by omega, h⟩, fun h => h.2⟩
  | succ n ih =>
    intro hn
    rw [forBlocks, bitmapTest_releaseBlock, Nat.mod_eq_of_lt (by omega),
      ih (by omega),
      forBlocks_totalBlocks releaseBlock_totalBlocks, ← and_assoc]
    refine and_congr_left' ?_
    omega

/-- `pmm_reserve_region` on 32-bit arguments. -/
theorem bitmapTest_pmmReserveRegion {base size : Nat} (hb : base < 2 ^ 32) (s : Pmm) (c : Nat) :
    bitmapTest (pmmReserveRegion base size s) c = true ↔
      (base / 4096 ≤ c ∧ c < base / 4096 + (size + 4095) % 2 ^ 32 / 4096 ∧ c < s.totalBlocks) ∨
      bitmapTest s c = true :=
  bitmapTest_forBlocks_reserve _ c s _ (by omega)

/-- `pmm_free_region` on 32-bit arguments. -/
theorem bitmapTest_pmmFreeRegion {base size : Nat} (hb : base < 2 ^ 32) (hs : size < 2 ^ 32)
    (s : Pmm) (c : Nat) :
    bitmapTest (pmmFreeRegion base size s) c = true ↔
      ¬(base / 4096 ≤ c ∧ c < base / 4096 + size / 4096 ∧ c < s.totalBlocks) ∧
      bitmapTest s c = true :=
  bitmapTest_forBlocks_release _ c s _ (by omega)

/-! ## First fit -/

/-- `r` is the first clear tracked bit at or after `p`. -/
def FirstClear (s : Pmm) (p : Nat) : Option Nat → Prop
  | some b => p ≤ b ∧ b < s.totalBlocks ∧ bitmapTest s b = false ∧
      ∀ c, p ≤ c → c < b → bitmapTest s c = true
  | none => ∀ c, p ≤ c → c < s.totalBlocks → bitmapTest s c = true

/-- Bits known to be set move the starting point back. -/
theorem FirstClear.extend {s : Pmm} {p q : Nat} {r : Option Nat} (h : FirstClear s q r)
    (hpq : p ≤ q) (hset : ∀ c, p ≤ c → c < q → bitmapTest s c = true) : FirstClear s p r := by
  cases r with
  | none =>
    intro c hpc hct
    rcases Nat.lt_or_ge c q with hcq | hcq
    · exact hset c hpc hcq
    · exact h c hcq hct
  | some b =>
    obtain ⟨hqb, hbt, hclear, hbelow⟩ := h
    refine ⟨Nat.le_trans hpq hqb, hbt, hclear, fun c hpc hcb => ?_⟩
    rcases Nat.lt_or_ge c q with hcq | hcq
    · exact hset c hpc hcq
    · exact hbelow c hcq hcb

/-- What the inner loop has seen when it ends, from bit `j` of word `i` on. -/
theorem scanBits_spec (s : Pmm) (i : Nat) :
    ∀ (n j : Nat), n + j = 32 →
      match scanBits s i n j with
      | .next => ∀ c, i * 32 + j ≤ c → c < (i + 1) * 32 → bitmapTest s c = true
      | .stop => FirstClear s (i * 32 + j) none
      | .hit b => FirstClear s (i * 32 + j) (some b) := by
  intro n
  induction n with
  | zero =>
    intro j hj
    unfold scanBits
    intro c hc1 hc2
    omega
  | succ n ih =>
    intro j hj
    unfold scanBits
    by_cases hend : s.totalBlocks ≤ i * 32 + j
    · rw [if_pos hend]
      intro c hc1 hc2
      omega
    rw [if_neg hend]
    cases ht : bitmapTest s (i * 32 + j) with
    | false =>
      exact ⟨Nat.le_refl _, by omega, ht, fun c hc1 hc2 => by omega⟩
    | true =>
      rw [if_neg (by simp)]
      have ih := ih (j + 1) (by omega)
      -- the bit just looked at is the only one between `j` and `j + 1`
      have hset : ∀ c, i * 32 + j ≤ c → c < i * 32 + (j + 1) → bitmapTest s c = true := by
        intro c hc1 hc2
        have hc : c = i * 32 + j := by omega
        rw [hc, ht]
      cases hs : scanBits s i n (j + 1) with
      | next =>
        rw [hs] at ih
        intro c hc1 hc2
        rcases Nat.lt_or_ge c (i * 32 + (j + 1)) with hlt | hge
        · exact hset c hc1 hlt
        · exact ih c hge hc2
      | stop =>
        rw [hs] at ih
        exact FirstClear.extend ih (by omega) hset
      | hit b =>
        rw [hs] at ih
        exact FirstClear.extend ih (by omega) hset

/-- The word-skipping scan finds the first clear bit. -/
theorem scanWords_spec (s : Pmm) :
    ∀ (n i : Nat), s.totalBlocks ≤ (i + n) * 32 → FirstClear s (i * 32) (scanWords s n i) := by
  intro n
  induction n with
  | zero =>
    intro i hi c hc1 hc2
    omega
  | succ n ih =>
    intro i hi
    unfold scanWords
    have ih := ih (i + 1) (by omega)
    by_cases hfull : s.bitmap i = 0xFFFFFFFF#32
    · rw [if_neg (by simp [hfull])]
      refine FirstClear.extend ih (by omega) (fun c hc1 hc2 => ?_)
      have hall := (Words.eq_allOnes_iff s.bitmap i).mp hfull (c - i * 32) (by omega)
      rwa [Nat.add_sub_cancel' hc1] at hall
    · rw [if_pos hfull]
      have hbits := scanBits_spec s i 32 0 rfl
      cases hs : scanBits s i 32 0 with
      | next =>
        rw [hs] at hbits
        exact FirstClear.extend ih (by omega) (fun c hc1 hc2 => hbits c hc1 (by omega))
      | stop =>
        rw [hs] at hbits
        exact hbits
      | hit b =>
        rw [hs] at hbits
        exact hbits

/-- **First fit.** `pmm_alloc_block` hands out the least clear tracked
block and marks it, or finds every tracked block in use and changes
nothing. -/
theorem pmmAllocBlock_cases (s : Pmm) :
    (∃ b, b < s.totalBlocks ∧ bitmapTest s b = false ∧
        (∀ c < b, bitmapTest s c = true) ∧ pmmAllocBlock s = (b * 4096, markUsed s b)) ∨
    ((∀ c < s.totalBlocks, bitmapTest s c = true) ∧ pmmAllocBlock s = (0, s)) := by
  have hscan := scanWords_spec s (totalWords s) 0 (by unfold totalWords; omega)
  have htl := s.total_lt
  unfold pmmAllocBlock
  cases hr : scanWords s (totalWords s) 0 with
  | none =>
    rw [hr] at hscan
    exact Or.inr ⟨fun c hc => hscan c (by omega) hc, rfl⟩
  | some b =>
    rw [hr] at hscan
    obtain ⟨-, hbt, hclear, hbelow⟩ := hscan
    refine Or.inl ⟨b, hbt, hclear, fun c hc => hbelow c (by omega) hc, ?_⟩
    show (b * 4096 % 2 ^ 32, markUsed s b) = (b * 4096, markUsed s b)
    rw [Nat.mod_eq_of_lt (by omega)]

@[simp] theorem pmmAllocBlock_totalBlocks (s : Pmm) :
    (pmmAllocBlock s).2.totalBlocks = s.totalBlocks := by
  rcases pmmAllocBlock_cases s with ⟨b, -, -, -, h⟩ | ⟨-, h⟩
  · rw [h]
    rfl
  · rw [h]

@[simp] theorem pmmFreeBlock_totalBlocks (ptr : Nat) (s : Pmm) :
    (pmmFreeBlock ptr s).totalBlocks = s.totalBlocks :=
  releaseBlock_totalBlocks s _

end MyOS
