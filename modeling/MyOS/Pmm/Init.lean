import MyOS.Lib.Mem
import MyOS.Pmm.Owner

/-!
# `pmm_init`: from the Multiboot memory map to the bitmap

`pmm_init` walks the boot loader's memory map twice, once for the highest
RAM address and once to free the usable regions, and then reserves the first
megabyte, the kernel image with the bitmap, and the modules. The bitmap it
fills starts at `_kernel_end`, in the same memory the map, the Multiboot
info and the module list are read from, so the model keeps it there: `Boot`
is that memory with the allocator's variables, `Boot.pmm` reads the
allocator out of it and `Boot.via` runs an allocator operation on the words
in place.

Mirroring notes vs the C:
- Both walks step by `size + 4` in 32-bit arithmetic and need not end on a
  malformed map, so they take fuel; one unit is one test of the loop
  condition, and `none` means that it was not enough.
- `mbi->mmap_addr` is read again before the second walk and
  `mbi->mods_count` at every turn of the module loop, from memory as it is
  then.
- Struct fields are read at their offsets: `flags` 0, `mods_count` 20,
  `mods_addr` 24, `mmap_length` 44, `mmap_addr` 48 in the packed info, and
  `size` 0, `addr` 4, `len` 12, `type` 20 in a packed map entry.

Two facts hold for every input on which `pmm_init` ends: the allocator it
leaves satisfies the representation invariant (`pmmInit_inv`), and memory
outside the bitmap is untouched (`pmmInit_outside`).
-/

namespace MyOS

open Lib Lib.Mem

/-- The linker's symbols: `linker.ld` puts the image at 1 MiB. -/
structure Image where
  kernelStart : Nat
  kernelEnd : Nat
  start_eq : kernelStart = 0x100000
  start_le : kernelStart ≤ kernelEnd
  end_lt : kernelEnd < 2 ^ 32

/-- Memory with the allocator's static variables. -/
structure Boot where
  mem : Mem
  bitmapAddr : Nat
  totalBlocks : Nat
  usedBlocks : UInt32
  total_lt : totalBlocks < 2 ^ 20

namespace Boot

/-- The allocator whose bitmap is the words at `pmm_bitmap`. -/
def pmm (b : Boot) : Pmm := ⟨b.mem.wordsAt b.bitmapAddr, b.totalBlocks, b.usedBlocks, b.total_lt⟩

/-- Write an allocator state back to the bitmap in memory. -/
def put (b : Boot) (s : Pmm) : Boot where
  mem := b.mem.putWords b.bitmapAddr s.bitmap
  bitmapAddr := b.bitmapAddr
  totalBlocks := s.totalBlocks
  usedBlocks := s.usedBlocks
  total_lt := s.total_lt

/-- Run an allocator operation on the bitmap in memory. -/
def via (f : Pmm → Pmm) (b : Boot) : Boot := b.put (f b.pmm)

theorem pmm_put (b : Boot) (s : Pmm) : (b.put s).pmm = s := by
  unfold pmm put
  simp only [wordsAt_putWords]

theorem put_put (b : Boot) (s t : Pmm) : (b.put s).put t = b.put t := by
  unfold put
  simp only [putWords_putWords]

theorem pmm_via (f : Pmm → Pmm) (b : Boot) : (b.via f).pmm = f b.pmm := pmm_put b _

theorem via_via (f g : Pmm → Pmm) (b : Boot) : (b.via f).via g = b.via (g ∘ f) := by
  show (b.put (f b.pmm)).put (g (b.put (f b.pmm)).pmm) = b.put (g (f b.pmm))
  rw [pmm_put, put_put]

theorem via_id (b : Boot) : b.via (fun s => s) = b := by
  show b.put b.pmm = b
  unfold put pmm
  simp only [putWords_wordsAt]

end Boot

/-- A memory map entry. -/
structure MmapEntry where
  size : Nat
  addr : Nat
  len : Nat
  type : Nat
  deriving DecidableEq, Repr

def entryAt (m : Mem) (ptr : Nat) : MmapEntry :=
  ⟨rd32 m ptr, rd64 m (ptr + 4), rd64 m (ptr + 12), rd32 m (ptr + 20)⟩

/-- `mmap + mmap->size + sizeof(mmap->size)` -/
def nextEntry (m : Mem) (ptr : Nat) : Nat := (ptr + (entryAt m ptr).size + 4) % 2 ^ 32

/-- Body of the first walk. -/
def growMax (e : MmapEntry) (maxAddr : Nat) : Nat :=
  if e.type = 1 then
    if (e.addr + e.len) % 2 ^ 64 > maxAddr then (e.addr + e.len) % 2 ^ 64 else maxAddr
  else maxAddr

/-- Step 1: the highest end of a usable region. -/
def maxWalk (m : Mem) (mmapEnd : Nat) : Nat → Nat → Nat → Option Nat
  | 0, _, _ => none
  | fuel + 1, ptr, maxAddr =>
    if ptr < mmapEnd then
      maxWalk m mmapEnd fuel (nextEntry m ptr) (growMax (entryAt m ptr) maxAddr)
    else some maxAddr

/-- Body of the second walk: address and length are narrowed to 32 bits. -/
def freeEntry (s : Pmm) (e : MmapEntry) : Pmm :=
  if e.type = 1 then pmmFreeRegion (e.addr % 2 ^ 32) (e.len % 2 ^ 32) s else s

/-- Step 3: free the usable regions. -/
def freeWalk (mmapEnd : Nat) : Nat → Nat → Boot → Option Boot
  | 0, _, _ => none
  | fuel + 1, ptr, b =>
    if ptr < mmapEnd then
      let b' := b.via fun s => freeEntry s (entryAt b.mem ptr)
      freeWalk mmapEnd fuel (nextEntry b'.mem ptr) b'
    else some b

/-- `mods[i]`: start and end of module `i` of the list at `modsAddr`. -/
def modAt (m : Mem) (modsAddr i : Nat) : Nat × Nat :=
  (rd32 m (modsAddr + 16 * i), rd32 m (modsAddr + 16 * i + 4))

/-- Body of the module loop. -/
def reserveModule (s : Pmm) (md : Nat × Nat) : Pmm :=
  pmmReserveRegion md.1 ((md.2 + 2 ^ 32 - md.1) % 2 ^ 32) s

/-- `for (i ..; i < mbi->mods_count; i++)` -/
def modWalk (mbiAddr modsAddr : Nat) : Nat → Nat → Boot → Option Boot
  | 0, _, _ => none
  | fuel + 1, i, b =>
    if i < rd32 b.mem (mbiAddr + 20) then
      modWalk mbiAddr modsAddr fuel ((i + 1) % 2 ^ 32)
        (b.via fun s => reserveModule s (modAt b.mem modsAddr i))
    else some b

/-- `MULTIBOOT_INFO_MEM_MAP` -/
def hasMemMap (m : Mem) (mbiAddr : Nat) : Bool := rd32 m mbiAddr &&& 0x40 != 0

/-- The module flag of the Multiboot info. -/
def hasMods (m : Mem) (mbiAddr : Nat) : Bool := rd32 m mbiAddr &&& 0x8 != 0

/-- Cap RAM detection to the 32-bit physical limit. -/
def capRam (maxAddr : Nat) : Nat := if maxAddr > 0xFFFFFFFF then 0xFFFFFFFF else maxAddr

theorem capRam_div_lt (maxAddr : Nat) : capRam maxAddr / 4096 < 2 ^ 20 := by
  unfold capRam
  split <;> omega

/-- `bitmap_size`, rounded up to whole words. -/
def bitmapSize (totalBlocks : Nat) : Nat := (totalBlocks + 31) / 32 * 4

/-- The state after step 2: every block reserved. -/
def bootAll (im : Image) (m : Mem) (maxAddr : Nat) : Boot where
  mem := m.memset im.kernelEnd 0xFF (bitmapSize (capRam maxAddr / 4096))
  bitmapAddr := im.kernelEnd
  totalBlocks := capRam maxAddr / 4096
  usedBlocks := UInt32.ofNat (capRam maxAddr / 4096)
  total_lt := capRam_div_lt maxAddr

/-- Step 4, first two zones: the first megabyte, and the kernel with the
bitmap behind it. -/
def reserveKernel (im : Image) (s : Pmm) : Pmm :=
  pmmReserveRegion im.kernelStart
    (((im.kernelEnd + bitmapSize s.totalBlocks) % 2 ^ 32 + 2 ^ 32 - im.kernelStart) % 2 ^ 32)
    (pmmReserveRegion 0 0x100000 s)

/-- The allocator before `pmm_init`, or when it returns early. -/
def bootNone (m : Mem) : Boot := ⟨m, 0, 0, 0, Nat.two_pow_pos 20⟩

/-- Step 3 with the map address as the Multiboot info holds it now. -/
def freeMap (fuel mbiAddr mmapEnd : Nat) (b : Boot) : Option Boot :=
  freeWalk mmapEnd fuel (rd32 b.mem (mbiAddr + 48)) b

/-- Step 4, last zone: the modules, if the flag says there are any. -/
def reserveMods (fuel mbiAddr : Nat) (b : Boot) : Option Boot :=
  if hasMods b.mem mbiAddr then modWalk mbiAddr (rd32 b.mem (mbiAddr + 24)) fuel 0 b else some b

/-- `mmap_end` -/
def mmapEnd (m : Mem) (mbiAddr : Nat) : Nat :=
  (rd32 m (mbiAddr + 48) + rd32 m (mbiAddr + 44)) % 2 ^ 32

def pmmInit (im : Image) (fuel mbiAddr : Nat) (m : Mem) : Option Boot :=
  if mbiAddr = 0 then some (bootNone m)
  else if !hasMemMap m mbiAddr then some (bootNone m)
  else
    (maxWalk m (mmapEnd m mbiAddr) fuel (rd32 m (mbiAddr + 48)) 0).bind fun maxAddr =>
    (freeMap fuel mbiAddr (mmapEnd m mbiAddr) (bootAll im m maxAddr)).bind fun b =>
    reserveMods fuel mbiAddr (b.via (reserveKernel im))

/-! ## A rule for what every allocator operation keeps -/

/-- A property of boot states that every in-place operation keeps holds at
the end of the second walk. -/
theorem freeWalk_induction {P : Boot → Prop} {mmapEnd : Nat}
    (hop : ∀ b e, P b → P (b.via fun s => freeEntry s e)) :
    ∀ (fuel ptr : Nat) {b b' : Boot}, P b → freeWalk mmapEnd fuel ptr b = some b' → P b' := by
  intro fuel
  induction fuel with
  | zero =>
    intro _ _ _ _ h
    simp [freeWalk] at h
  | succ fuel ih =>
    intro ptr b b' hb h
    unfold freeWalk at h
    split at h
    next => exact ih _ (hop b _ hb) h
    next =>
      cases h
      exact hb

theorem modWalk_induction {P : Boot → Prop} {mbiAddr modsAddr : Nat}
    (hop : ∀ b md, P b → P (b.via fun s => reserveModule s md)) :
    ∀ (fuel i : Nat) {b b' : Boot}, P b → modWalk mbiAddr modsAddr fuel i b = some b' → P b' := by
  intro fuel
  induction fuel with
  | zero =>
    intro _ _ _ _ h
    simp [modWalk] at h
  | succ fuel ih =>
    intro i b b' hb h
    unfold modWalk at h
    split at h
    next => exact ih _ (hop b _ hb) h
    next =>
      cases h
      exact hb

/-- The two ways `pmm_init` ends, and what it is enough to check for a
property of the state it leaves. -/
theorem pmmInit_induction {im : Image} {fuel mbiAddr : Nat} {m : Mem} {P : Boot → Prop}
    (hnone : P (bootNone m)) (hall : ∀ maxAddr, P (bootAll im m maxAddr))
    (hfree : ∀ b e, P b → P (b.via fun s => freeEntry s e))
    (hkernel : ∀ b, P b → P (b.via (reserveKernel im)))
    (hmod : ∀ b md, P b → P (b.via fun s => reserveModule s md))
    {b : Boot} (h : pmmInit im fuel mbiAddr m = some b) : P b := by
  unfold pmmInit at h
  split at h
  next =>
    cases h
    exact hnone
  next =>
    split at h
    next =>
      cases h
      exact hnone
    next =>
      obtain ⟨maxAddr, -, h⟩ := Option.bind_eq_some_iff.mp h
      obtain ⟨b₁, hb₁, h⟩ := Option.bind_eq_some_iff.mp h
      have h₁ : P b₁ := freeWalk_induction hfree _ _ (hall maxAddr) hb₁
      unfold reserveMods at h
      split at h
      next => exact modWalk_induction hmod _ _ (hkernel b₁ h₁) h
      next =>
        cases h
        exact hkernel b₁ h₁

/-! ## The invariant at the end of `pmm_init` -/

/-- With every byte of the bitmap `0xFF`, every bit of it is set. -/
theorem bootAll_test (im : Image) (m : Mem) (maxAddr : Nat) {b : Nat}
    (hb : b < (capRam maxAddr / 4096 + 31) / 32 * 32) :
    bitmapTest (bootAll im m maxAddr).pmm b = true := by
  have hword : (bootAll im m maxAddr).pmm.bitmap (b / 32) = BitVec.allOnes 32 := by
    show (m.memset im.kernelEnd 0xFF (bitmapSize (capRam maxAddr / 4096))).wordsAt
      im.kernelEnd (b / 32) = _
    unfold bitmapSize
    rw [Nat.mul_comm _ 4]
    exact wordsAt_memset_ones m (by omega)
  have hbit := (Words.eq_allOnes_iff _ _).mp hword (b % 32) (by omega)
  rwa [Nat.mul_comm, Nat.div_add_mod] at hbit

theorem bootAll_inv (im : Image) (m : Mem) (maxAddr : Nat) :
    PmmInv (bootAll im m maxAddr).pmm := by
  have hlt := capRam_div_lt maxAddr
  refine ⟨?_, fun b _ hb => bootAll_test im m maxAddr hb⟩
  show (UInt32.ofNat (capRam maxAddr / 4096)).toNat = _
  rw [UInt32.toNat_ofNat_of_lt' (by show _ < 2 ^ 32; omega)]
  refine (Words.pop_eq_of_forall fun b hb => ?_).symm
  exact bootAll_test im m maxAddr (by omega)

theorem bootNone_inv (m : Mem) : PmmInv (bootNone m).pmm :=
  ⟨rfl, fun b _ hb => by
    have hw : totalWords (bootNone m).pmm = 0 := by simp [totalWords, bootNone, Boot.pmm]
    omega⟩

theorem freeEntry_inv {s : Pmm} (e : MmapEntry) (h : PmmInv s) : PmmInv (freeEntry s e) := by
  unfold freeEntry
  split
  next => exact pmmFreeRegion_inv _ _ h
  next => exact h

theorem via_inv {f : Pmm → Pmm} {b : Boot} (hf : ∀ s, PmmInv s → PmmInv (f s))
    (h : PmmInv b.pmm) : PmmInv (b.via f).pmm := by
  rw [Boot.pmm_via]
  exact hf _ h

/-- Whatever the boot loader passed, the allocator starts consistent. -/
theorem pmmInit_inv {im : Image} {fuel mbiAddr : Nat} {m : Mem} {b : Boot}
    (h : pmmInit im fuel mbiAddr m = some b) : PmmInv b.pmm :=
  pmmInit_induction (P := fun b => PmmInv b.pmm) (bootNone_inv m) (bootAll_inv im m)
    (fun _ e => via_inv fun _ => freeEntry_inv e)
    (fun _ => via_inv fun _ hs => pmmReserveRegion_inv _ _ (pmmReserveRegion_inv _ _ hs))
    (fun _ _ => via_inv fun _ => pmmReserveRegion_inv _ _) h

/-! ## Memory outside the bitmap -/

/-- `x` is outside the bitmap of `b`. -/
def Boot.Off (b : Boot) (x : Nat) : Prop :=
  x < b.bitmapAddr ∨ b.bitmapAddr + bitmapSize b.totalBlocks ≤ x

/-- The boot state `b` has the bitmap of `b₀` and differs from the memory
`m` only there. -/
structure OnlyBitmap (m : Mem) (b₀ b : Boot) : Prop where
  addr : b.bitmapAddr = b₀.bitmapAddr
  total : b.totalBlocks = b₀.totalBlocks
  mem : ∀ x, b₀.Off x → b.mem x = m x

theorem OnlyBitmap.via {m : Mem} {b₀ b : Boot} (h : OnlyBitmap m b₀ b) {f : Pmm → Pmm}
    (hf : ∀ {s}, Behind b.pmm s → Behind b.pmm (f s)) : OnlyBitmap m b₀ (b.via f) := by
  obtain ⟨ht, hw⟩ := hf (s := b.pmm) ⟨rfl, fun _ _ => rfl⟩
  refine ⟨h.addr, ht.trans h.total, fun x hx => ?_⟩
  rw [← h.mem x hx]
  refine putWords_of_outside b.mem hw ?_
  show x < b.bitmapAddr ∨ b.bitmapAddr + 4 * ((b.totalBlocks + 31) / 32) ≤ x
  rw [h.addr, h.total, Nat.mul_comm]
  exact hx

theorem Behind.freeEntry {s₀ s : Pmm} (h : Behind s₀ s) (e : MmapEntry) :
    Behind s₀ (freeEntry s e) := by
  unfold MyOS.freeEntry
  split
  next => exact h.freeRegion _ _
  next => exact h

theorem Behind.reserveKernel {s₀ s : Pmm} (h : Behind s₀ s) (im : Image) :
    Behind s₀ (reserveKernel im s) :=
  (h.reserveRegion _ _).reserveRegion _ _

theorem bootAll_only (im : Image) (m : Mem) (maxAddr : Nat) :
    OnlyBitmap m (bootAll im m maxAddr) (bootAll im m maxAddr) :=
  ⟨rfl, rfl, fun _ hx => memset_of_outside m 0xFF hx⟩

/-- Memory outside the bitmap is as the boot loader left it. -/
theorem pmmInit_outside {im : Image} {fuel mbiAddr : Nat} {m : Mem} {b : Boot}
    (h : pmmInit im fuel mbiAddr m = some b) {x : Nat} (hx : b.Off x) : b.mem x = m x := by
  have hP : ∃ b₀, OnlyBitmap m b₀ b := by
    refine pmmInit_induction (P := fun b => ∃ b₀, OnlyBitmap m b₀ b)
      ⟨bootNone m, rfl, rfl, fun _ _ => rfl⟩ (fun maxAddr => ⟨_, bootAll_only im m maxAddr⟩)
      ?_ ?_ ?_ h
    · intro b e hb
      obtain ⟨b₀, hb⟩ := hb
      exact ⟨b₀, hb.via fun hs => hs.freeEntry e⟩
    · intro b hb
      obtain ⟨b₀, hb⟩ := hb
      exact ⟨b₀, hb.via fun hs => hs.reserveKernel im⟩
    · intro b md hb
      obtain ⟨b₀, hb⟩ := hb
      exact ⟨b₀, hb.via fun hs => hs.reserveRegion _ _⟩
  obtain ⟨b₀, hb⟩ := hP
  refine hb.mem x ?_
  unfold Boot.Off at hx ⊢
  rwa [hb.addr, hb.total] at hx

end MyOS
