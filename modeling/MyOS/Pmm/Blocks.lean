import MyOS.Pmm.FreeSet
import Mathlib.Order.Lattice.Nat

/-!
# The operations of the allocator, block by block

Two questions about single calls, for every bitmap whatever its padding bits
hold.

`pmm_alloc_block` skips full words and works with word and bit numbers. Is it
the scan over all blocks? `firstFit` is that scan; `pmmAllocBlock_exact` says
that the two agree, and what follows for an allocation behind a release.

The region operations take the first block from `base` and the number of
blocks from `size` alone. With `base` inside a block the range ends one block
later than they think, and begins inside the first one:
`pmmRegion_exact_iff` says exactly when that does no harm. A size within one
block of `2 ^ 32` makes the rounding wrap, so the range is not reserved at
all; the condition covers this, too.
-/

namespace MyOS

open Lib

/-! ## Allocation -/

/-- The tracked blocks whose bit is clear. -/
def freeBlocks (s : Pmm) : Set Nat := {b | b < s.totalBlocks ∧ bitmapTest s b = false}

/-- The scan over all tracked blocks. -/
def firstFit (s : Pmm) : Option Nat := (List.range s.totalBlocks).find? fun b => !bitmapTest s b

theorem firstFit_eq_some_iff {s : Pmm} {b : Nat} :
    firstFit s = some b ↔ IsLeast (freeBlocks s) b := by
  unfold firstFit
  rw [List.find?_range_eq_some]
  constructor
  · rintro ⟨hclear, hlt, hbelow⟩
    refine ⟨⟨List.mem_range.mp hlt, by simpa using hclear⟩, fun c hc => ?_⟩
    by_contra hcb
    have hset := hbelow c (Nat.lt_of_not_le hcb)
    rw [hc.2] at hset
    exact absurd hset (by simp)
  · rintro ⟨⟨hlt, hclear⟩, hleast⟩
    refine ⟨by simp [hclear], List.mem_range.mpr hlt, fun c hc => ?_⟩
    by_contra hset
    have hle : b ≤ c := hleast ⟨Nat.lt_trans hc hlt, by simpa using hset⟩
    omega

theorem firstFit_eq_none_iff {s : Pmm} :
    firstFit s = none ↔ ∀ b < s.totalBlocks, bitmapTest s b = true := by
  unfold firstFit
  rw [List.find?_range_eq_none]
  refine forall₂_congr fun b _ => ?_
  simp

/-- The word-skipping scan is the scan over all blocks. -/
theorem pmmAllocBlock_firstFit (s : Pmm) :
    pmmAllocBlock s = (firstFit s).elim (0, s) fun b => (b * 4096, markUsed s b) := by
  rcases pmmAllocBlock_cases s with ⟨b, hb, hclear, hbelow, h⟩ | ⟨hall, h⟩
  · have hfit : firstFit s = some b := by
      refine firstFit_eq_some_iff.mpr ⟨⟨hb, hclear⟩, fun c hc => ?_⟩
      by_contra hcb
      have hset := hbelow c (Nat.lt_of_not_le hcb)
      rw [hc.2] at hset
      exact absurd hset (by simp)
    rw [h, hfit, Option.elim_some]
  · rw [h, firstFit_eq_none_iff.mpr hall, Option.elim_none]

/-- What an allocation does when `b` is the lowest free block: the address is
that of `b`, its bit is set and no other changes. -/
structure AllocatesBlock (s : Pmm) (b : Nat) : Prop where
  address : (pmmAllocBlock s).1 = 4096 * b
  bits : ∀ c, bitmapTest (pmmAllocBlock s).2 c = true ↔ c = b ∨ bitmapTest s c = true
  used : (pmmAllocBlock s).2.usedBlocks = s.usedBlocks + 1
  total : (pmmAllocBlock s).2.totalBlocks = s.totalBlocks

theorem allocatesBlock_of_isLeast {s : Pmm} {b : Nat} (h : IsLeast (freeBlocks s) b) :
    AllocatesBlock s b := by
  have halloc := pmmAllocBlock_firstFit s
  rw [firstFit_eq_some_iff.mpr h, Option.elim_some] at halloc
  refine ⟨?_, fun c => ?_, ?_, pmmAllocBlock_totalBlocks s⟩
  · rw [halloc, Nat.mul_comm]
  · rw [halloc]
    exact bitmapTest_markUsed s b c
  · rw [halloc]
    rfl

/-- A released block joins the free ones. -/
theorem freeBlocks_pmmFreeBlock {s : Pmm} {ptr : Nat} (h : ptr / 4096 < s.totalBlocks) :
    freeBlocks (pmmFreeBlock ptr s) = insert (ptr / 4096) (freeBlocks s) := by
  ext c
  have htest := bitmapTest_releaseBlock s (ptr / 4096) c
  rw [Set.mem_insert_iff]
  show c < (pmmFreeBlock ptr s).totalBlocks ∧ bitmapTest (releaseBlock s (ptr / 4096)) c = false ↔
    c = ptr / 4096 ∨ (c < s.totalBlocks ∧ bitmapTest s c = false)
  rw [pmmFreeBlock_totalBlocks, ← Bool.not_eq_true, ← Bool.not_eq_true, htest]
  constructor
  · rintro ⟨hc, hnot⟩
    by_cases heq : c = ptr / 4096
    · exact Or.inl heq
    · exact Or.inr ⟨hc, fun hset => hnot ⟨fun hcb => heq hcb.1, hset⟩⟩
  · rintro (rfl | ⟨hc, hclear⟩)
    · exact ⟨h, fun hset => hset.1 ⟨rfl, h⟩⟩
    · exact ⟨hc, fun hset => hclear hset.2⟩

/-- **First fit.** `pmm_alloc_block` is the scan over all blocks: it hands out
the lowest free block, which is never `NULL`, or changes nothing. Behind a
release it hands out the lowest of the free blocks and the one released. -/
theorem pmmAllocBlock_exact (s : Pmm) (hzero : bitmapTest s 0 = true) :
    pmmAllocBlock s = (firstFit s).elim (0, s) (fun b => (b * 4096, markUsed s b)) ∧
    (∀ b, IsLeast (freeBlocks s) b → AllocatesBlock s b ∧ (pmmAllocBlock s).1 ≠ 0) ∧
    (freeBlocks s = ∅ → pmmAllocBlock s = (0, s)) ∧
    ∀ ptr, ptr / 4096 < s.totalBlocks → ∃ b, IsLeast (insert (ptr / 4096) (freeBlocks s)) b ∧
      AllocatesBlock (pmmFreeBlock ptr s) b := by
  refine ⟨pmmAllocBlock_firstFit s, fun b hb => ?_, fun hnone => ?_, fun ptr hptr => ?_⟩
  · have halloc := allocatesBlock_of_isLeast hb
    refine ⟨halloc, fun hnull => ?_⟩
    -- the address is `NULL` for block 0 only
    rw [halloc.address] at hnull
    have hb0 : b = 0 := by omega
    have hclear := hb.1.2
    rw [hb0, hzero] at hclear
    exact absurd hclear (by simp)
  · have hfit : firstFit s = none := firstFit_eq_none_iff.mpr fun b hb => by
      by_contra hclear
      have hmem : b ∈ freeBlocks s := ⟨hb, by simpa using hclear⟩
      rw [hnone] at hmem
      exact hmem
    rw [pmmAllocBlock_firstFit, hfit, Option.elim_none]
  · have hne : (insert (ptr / 4096) (freeBlocks s)).Nonempty := ⟨_, Set.mem_insert _ _⟩
    have hleast : IsLeast (insert (ptr / 4096) (freeBlocks s))
        (sInf (insert (ptr / 4096) (freeBlocks s))) :=
      ⟨Nat.sInf_mem hne, fun _ hc => Nat.sInf_le hc⟩
    refine ⟨_, hleast, allocatesBlock_of_isLeast ?_⟩
    rw [freeBlocks_pmmFreeBlock hptr]
    exact hleast

/-- Forty blocks: 33, 35 and 37 are free. The padding bits behind them are
clear. -/
def fortyBlocks : Pmm :=
  ⟨fun i => if i = 0 then 0xFFFFFFFF#32 else 0xD5#32, 40, 37, by decide⟩

theorem pmmAllocBlock_forty : (pmmAllocBlock fortyBlocks).1 = 4096 * 33 ∧
    AllocatesBlock (pmmFreeBlock (4096 * 7) fortyBlocks) 7 := by
  obtain ⟨-, hleast, -, hfree⟩ := pmmAllocBlock_exact fortyBlocks (by decide)
  obtain ⟨b, hb, halloc⟩ := hfree (4096 * 7) (by decide)
  refine ⟨(hleast 33 ⟨⟨by decide, by decide⟩, fun c hc => ?_⟩).1.address, ?_⟩
  · by_contra hlt
    have hset : ∀ c < 33, bitmapTest fortyBlocks c = true := by decide +kernel
    have hclear := hc.2
    rw [hset c (by omega)] at hclear
    exact absurd hclear (by simp)
  · have hb7 : b ≤ 7 := hb.2 (Set.mem_insert _ _)
    rcases hb.1 with heq | ⟨-, hclear⟩
    · have hseven : b = 7 := heq
      subst hseven
      exact halloc
    · have hset : ∀ c < 33, bitmapTest fortyBlocks c = true := by decide +kernel
      rw [hset b (by omega)] at hclear
      exact absurd hclear (by simp)

/-! ## Regions -/

/-- The call reserves the tracked blocks that meet the range, and changes no
other block. -/
def ReservesRegion (base size : Nat) (s : Pmm) : Prop :=
  (∀ c < s.totalBlocks, Meets c base (base + size) →
    bitmapTest (pmmReserveRegion base size s) c = true) ∧
  ∀ c, ¬(c < s.totalBlocks ∧ Meets c base (base + size)) →
    bitmapTest (pmmReserveRegion base size s) c = bitmapTest s c

/-- The call changes no block but those wholly inside the range. -/
def FreesRegion (base size : Nat) (s : Pmm) : Prop :=
  ∀ c, ¬Inside c base (base + size) → bitmapTest (pmmFreeRegion base size s) c = bitmapTest s c

/-- The tracked blocks of the range behind the last one that the loop comes to
are in use already. -/
def TailUsed (base size : Nat) (s : Pmm) : Prop :=
  ∀ c < s.totalBlocks, base / 4096 + (size + 4095) % 2 ^ 32 / 4096 ≤ c →
    Meets c base (base + size) → bitmapTest s c = true

/-- The range starts with a block, or the loop has nothing to do, or the first
block is not tracked or free already. -/
def HeadFree (base size : Nat) (s : Pmm) : Prop :=
  base % 4096 = 0 ∨ size < 4096 ∨ s.totalBlocks ≤ base / 4096 ∨ bitmapTest s (base / 4096) = false

/-- On aligned ranges that can be rounded up there is no tail. -/
theorem tailUsed_of_aligned {base size : Nat} (s : Pmm) (hbase : base % 4096 = 0)
    (hsize : size + 4095 < 2 ^ 32) : TailUsed base size s := by
  intro c _ hlo hmeets
  have hhi := (meets_iff.mp hmeets).2.1
  rw [Nat.mod_eq_of_lt hsize] at hlo
  omega

section Region

variable (base size : Nat) (s : Pmm)

theorem reservesRegion_iff (hb : base < 2 ^ 32) (hs : size < 2 ^ 32) :
    ReservesRegion base size s ↔ TailUsed base size s := by
  have htest : ∀ c, bitmapTest (pmmReserveRegion base size s) c = true ↔ _ := fun c =>
    bitmapTest_pmmReserveRegion hb s c
  constructor
  · intro h c hc hlo hmeets
    have hset := h.1 c hc hmeets
    rcases (htest c).mp hset with ⟨-, hlt, -⟩ | hused
    · omega
    · exact hused
  · intro h
    refine ⟨fun c hc hmeets => ?_, fun c hno => ?_⟩
    · obtain ⟨-, hhi, hlo⟩ := meets_iff.mp hmeets
      refine (htest c).mpr ?_
      by_cases hreach : c < base / 4096 + (size + 4095) % 2 ^ 32 / 4096
      · exact Or.inl ⟨by omega, hreach, hc⟩
      · exact Or.inr (h c hc (by omega) hmeets)
    · -- the loop comes to blocks of the range only
      rw [Bool.eq_iff_iff, htest c]
      refine ⟨fun hset => hset.resolve_left fun hin => hno ⟨hin.2.2, ?_⟩, Or.inr⟩
      exact meets_iff.mpr ⟨by omega, by omega, by omega⟩

theorem freesRegion_iff (hb : base < 2 ^ 32) (hs : size < 2 ^ 32) :
    FreesRegion base size s ↔ HeadFree base size s := by
  have htest := fun c => bitmapTest_pmmFreeRegion hb hs s c
  constructor
  · intro h
    by_contra hbad
    unfold HeadFree at hbad
    obtain ⟨hoff, hlen, htracked, hused⟩ : base % 4096 ≠ 0 ∧ ¬size < 4096 ∧
        ¬s.totalBlocks ≤ base / 4096 ∧ ¬bitmapTest s (base / 4096) = false :=
      ⟨fun h => hbad (Or.inl h), fun h => hbad (Or.inr (Or.inl h)),
        fun h => hbad (Or.inr (Or.inr (Or.inl h))), fun h => hbad (Or.inr (Or.inr (Or.inr h)))⟩
    have hsame := h (base / 4096) fun hin => by
      have := hin.1
      omega
    rw [Bool.not_eq_false] at hused
    rw [hused] at hsame
    exact ((htest _).mp hsame).1 ⟨by omega, by omega, by omega⟩
  · intro h c hout
    rw [Bool.eq_iff_iff, htest c]
    refine ⟨fun hset => hset.2, fun hset => ⟨fun hin => ?_, hset⟩⟩
    -- only the first block can stick out of the range
    have hfirst : c = base / 4096 := by
      by_contra hne
      exact hout ⟨by omega, by omega⟩
    rcases h with halign | hshort | huntracked | hfree
    · exact hout ⟨by omega, by omega⟩
    · omega
    · omega
    · rw [hfirst, hfree] at hset
      exact absurd hset (by simp)

/-- **Regions.** On every range: `pmm_reserve_region` reserves
every block of the range if and only if those behind the loop are in use
already, and `pmm_free_region` frees no block that sticks out of it if and
only if the first block does not or cannot be freed. -/
theorem pmmRegion_exact_iff (hb : base < 2 ^ 32) (hs : size < 2 ^ 32) :
    (ReservesRegion base size s ↔ TailUsed base size s) ∧
    (FreesRegion base size s ↔ HeadFree base size s) :=
  ⟨reservesRegion_iff base size s hb hs, freesRegion_iff base size s hb hs⟩

end Region

theorem pmmRegion_exact_aligned :
    ReservesRegion 0x21000 0x1800 fortyBlocks ∧ FreesRegion 0x21000 0x1800 fortyBlocks := by
  obtain ⟨hreserve, hfree⟩ := pmmRegion_exact_iff 0x21000 0x1800 fortyBlocks (by omega) (by omega)
  exact ⟨hreserve.mpr (tailUsed_of_aligned _ (by omega) (by omega)), hfree.mpr (Or.inl rfl)⟩

/-- A range of one page that starts in the middle of block 32 and ends in the
middle of block 33. -/
theorem pmmRegion_misses_block :
    ¬ReservesRegion 0x20800 0x1000 fortyBlocks ∧ ¬FreesRegion 0x20800 0x1000 fortyBlocks := by
  refine ⟨fun h => ?_, fun h => ?_⟩
  · have hset := h.1 33 (by decide) (meets_iff.mpr ⟨by omega, by omega, by omega⟩)
    exact absurd hset (by decide +kernel)
  · have hsame := h 32 fun hin => by
      have := hin.1
      omega
    exact absurd hsame (by decide +kernel)

end MyOS
