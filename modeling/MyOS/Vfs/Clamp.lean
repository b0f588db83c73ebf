import MyOS.Vfs.Ustar

/-!
# How much `tar_read` reads

A read of `size` bytes from `offset` on should give `min(size, length -
offset)` bytes, and none behind the end of the file (`clamped`). The code
compares `offset + size` with the length in 32 bits. Where the sum wraps
around it is smaller than `offset`, so smaller than the length, the size is
not cut, and the copy runs past the file: `tarReadSize_eq_clamped_iff` says
that this is the only way to miss. `elf_load` takes both numbers from the
program header as they are.

The bytes copied are the file's, wherever the buffer is, as long as it is a
buffer: mapped, and apart from the file and the page tables (`Buffer`).
-/

namespace MyOS

open Lib Lib.Mem Lib.Paging

/-- `tar_read` into memory at the virtual address `buffer`. -/
def tarRead (node : FsNode) (offset size buffer : Nat) (k : Machine) :
    Except Panic (Nat × Machine) :=
  (vmemcpy buffer ((node.impl + offset) % 2 ^ 32) (tarReadSize node offset size) k).map
    fun k' => (tarReadSize node offset size, k')

theorem readFs_eq_tarRead {node : FsNode} (h : node.read = true) (offset size buffer : Nat)
    (k : Machine) : readFs node offset size buffer k = tarRead node offset size buffer k := if_pos h

/-- The number of bytes a read should give. -/
def clamped (node : FsNode) (offset size : Nat) : Nat :=
  if node.length ≤ offset then 0 else min size (node.length - offset)

/-- The size is wrong exactly if the sum wraps around inside the file. -/
theorem tarReadSize_eq_clamped_iff {node : FsNode} {offset size : Nat} (hlen : node.length < 2 ^ 32)
    (hsize : size < 2 ^ 32) :
    tarReadSize node offset size = clamped node offset size ↔
      node.length ≤ offset ∨ offset + size < 2 ^ 32 := by
  unfold tarReadSize clamped
  by_cases hoff : node.length ≤ offset
  · rw [if_pos hoff, if_pos hoff]
    exact ⟨fun _ => Or.inl hoff, fun _ => rfl⟩
  rw [if_neg hoff, if_neg hoff]
  by_cases hsum : offset + size < 2 ^ 32
  · rw [Nat.mod_eq_of_lt hsum]
    refine ⟨fun _ => Or.inr hsum, fun _ => ?_⟩
    split <;> omega
  · -- the sum is `offset + size - 2 ^ 32`, which is below `offset`
    have hmod : (offset + size) % 2 ^ 32 = offset + size - 2 ^ 32 := by omega
    rw [hmod, if_neg (by omega)]
    refine ⟨fun h => ?_, fun h => ?_⟩
    · omega
    · exact absurd h (by omega)

/-- The bytes `offset ..< offset + n` of the file are mapped, at `s i`, and so
are `n` bytes at `buffer`, at `d i`. The buffer's bytes are distinct and apart
from the file's and from the page tables. -/
structure Buffer (k : Machine) (node : FsNode) (offset n buffer : Nat) (d s : Nat → Nat) : Prop where
  dir : k.cr3 % 4096 = 0
  src : ∀ i < n, translate k.mem k.cr3 ((node.impl + (offset + i)) % 2 ^ 32) = some (s i)
  dest : ∀ i < n, translate k.mem k.cr3 ((buffer + i) % 2 ^ 32) = some (d i)
  frames : ∀ i < n, ¬Frames k.mem k.cr3 (d i / 4096)
  inj : ∀ i < n, ∀ j < n, d i = d j → i = j
  apart : ∀ i < n, ∀ j < n, d i ≠ s j

/-- A read returned `n`, wrote the `n` bytes at `s` to `d`, and nothing else. -/
def Copied (k : Machine) (n : Nat) (d s : Nat → Nat) (x : Except Panic (Nat × Machine)) : Prop :=
  ∃ m, x = .ok (n, { k with mem := m }) ∧ (∀ i < n, m (d i) = k.mem (s i)) ∧
    ∀ a, (∀ i < n, a ≠ d i) → m a = k.mem a

/-- A read into a variable of the kernel returned `n` and the `n` bytes at
`s`. -/
def CopiedOut (k : Machine) (n : Nat) (s : Nat → Nat)
    (x : Except Panic (Nat × Mem × Machine)) : Prop :=
  ∃ buf, x = .ok (n, buf, k) ∧ ∀ i < n, buf i = k.mem (s i)

section

variable {k : Machine} {node : FsNode} {offset size buffer : Nat} {d s : Nat → Nat}

/-- Where the code reads byte `offset + i` of the file. -/
theorem file_address (node : FsNode) (offset i : Nat) :
    ((node.impl + offset) % 2 ^ 32 + i) % 2 ^ 32 = (node.impl + (offset + i)) % 2 ^ 32 := by
  rw [Nat.mod_add_mod, Nat.add_assoc]

/-- The count that is returned. -/
theorem tarRead_count {r : Nat × Machine} (h : tarRead node offset size buffer k = .ok r) :
    r.1 = tarReadSize node offset size := by
  obtain ⟨k', -, rfl⟩ := map_eq_ok h
  rfl

theorem tarRead_copied {n : Nat} (hn : tarReadSize node offset size = n)
    (hb : Buffer k node offset n buffer d s) : Copied k n d s (tarRead node offset size buffer k) := by
  have hsrc : ∀ i < n, translate k.mem k.cr3 (((node.impl + offset) % 2 ^ 32 + i) % 2 ^ 32)
      = some (s i) := fun i hi => by
    rw [file_address]
    exact hb.src i hi
  obtain ⟨m, hrun, hval, hrest⟩ := vmemcpy_spec hb.dir hb.dest hsrc hb.frames hb.inj hb.apart
  refine ⟨m, ?_, hval, hrest⟩
  unfold tarRead
  rw [hn, hrun, ok_map]

theorem readFsLocal_copied {n : Nat} (hread : node.read = true)
    (hn : tarReadSize node offset size = n)
    (hsrc : ∀ i < n, translate k.mem k.cr3 ((node.impl + (offset + i)) % 2 ^ 32) = some (s i)) :
    CopiedOut k n s (readFsLocal node offset size k) := by
  have hsrc' : ∀ i < n, translate k.mem k.cr3 (((node.impl + offset) % 2 ^ 32 + i) % 2 ^ 32)
      = some (s i) := fun i hi => by
    rw [file_address]
    exact hsrc i hi
  obtain ⟨buf, hrun, hval, -⟩ := vcopyOut_spec hsrc'
  refine ⟨buf, ?_, hval⟩
  unfold readFsLocal
  rw [if_pos hread, hn, hrun, ok_map]

/-- **Reads are clamped to the file**, for every node and all 32-bit offsets
and sizes, exactly if the offset is behind the end or `offset + size` does not
wrap around. -/
theorem tarRead_clamped_iff (hread : node.read = true) (hlen : node.length < 2 ^ 32)
    (hsize : size < 2 ^ 32)
    (hb : Buffer k node offset (clamped node offset size) buffer d s) :
    (Copied k (clamped node offset size) d s (tarRead node offset size buffer k) ∧
      Copied k (clamped node offset size) d s (readFs node offset size buffer k) ∧
      CopiedOut k (clamped node offset size) s (readFsLocal node offset size k)) ↔
    (node.length ≤ offset ∨ offset + size < 2 ^ 32) := by
  rw [readFs_eq_tarRead hread, ← tarReadSize_eq_clamped_iff hlen hsize]
  constructor
  · rintro ⟨⟨m, hrun, -⟩, -⟩
    exact (tarRead_count hrun).symm
  · intro hn
    exact ⟨tarRead_copied hn hb, tarRead_copied hn hb, readFsLocal_copied hread hn hb.src⟩

end

/-! ## A file of eight bytes -/

/-- The file at the start of the page of `diskMachine`. -/
def eightFile : FsNode := ⟨cstr "eight", fsFile, 8, 0x10000, true, false, false⟩

def eightBytes : List UInt8 := [1, 2, 3, 4, 5, 6, 7, 8]

/-- Four bytes are left behind offset 4, but a read of `2 ^ 32 - 4` bytes is
not cut to them. -/
theorem tarRead_overreads : clamped eightFile 4 0xFFFFFFFC = 4 ∧
    ¬∃ k', tarRead eightFile 4 0xFFFFFFFC 0x10100 (diskMachine eightBytes) = .ok (4, k') := by
  refine ⟨by decide, fun h => ?_⟩
  obtain ⟨k', hrun⟩ := h
  have hcount : 4 = tarReadSize eightFile 4 0xFFFFFFFC := tarRead_count hrun
  exact absurd hcount (by decide)

/-- The machine's directory and its one table are blocks 255 and 254. -/
theorem diskMachine_frames {bs : List UInt8} {b : Nat} (h : Frames (diskMachine bs).mem 0xFF000 b) :
    b = 255 ∨ b = 254 := by
  rcases h with rfl | ⟨i, hi, hp, rfl⟩
  · exact Or.inl rfl
  have hpde : pde (diskMachine bs).mem 0xFF000 i = rd32 diskPaging (0xFF000 + 4 * i) :=
    diskMachine_paging bs (by omega)
  rw [hpde] at hp ⊢
  unfold diskPaging at hp ⊢
  rw [rd32_wr32_ne _ _ (by omega)] at hp ⊢
  by_cases h0 : i = 0
  · right
    rw [h0, Nat.mul_zero, Nat.add_zero, rd32_wr32_self _ _ (by omega)]
  · have hzero : rd32 (fun _ => 0) (0xFF000 + 4 * i) = 0 := by simp [rd32]
    rw [rd32_wr32_ne _ _ (by omega), hzero] at hp
    exact absurd hp not_present_zero

/-- Bytes 4 to 7 are copied to `0x10100`. -/
theorem tarRead_clamped_eight :
    Copied (diskMachine eightBytes) 4 (0x10100 + ·) (0x10004 + ·)
      (tarRead eightFile 4 100 0x10100 (diskMachine eightBytes)) := by
  have htr : ∀ i < 4096, translate (diskMachine eightBytes).mem 0xFF000 (0x10000 + i)
      = some (0x10000 + i) := by
    intro i hi
    have hpage : lookup (diskMachine eightBytes).mem 0xFF000 (0x10000 + i) = 16 * 4096 + 7 := by
      rw [lookup_page (w := 0x10000) (by omega), diskMachine_lookup]
    rw [translate_of_lookup hpage]
    congr 1
    omega
  have hclamp : clamped eightFile 4 100 = 4 := by decide
  have hb : Buffer (diskMachine eightBytes) eightFile 4 (clamped eightFile 4 100) 0x10100
      (0x10100 + ·) (0x10004 + ·) := by
    rw [hclamp]
    refine ⟨rfl, fun i hi => ?_, fun i hi => ?_, fun i hi hf => ?_, fun i _ j _ h => ?_,
      fun i hi j hj => ?_⟩
    · have h := htr (4 + i) (by omega)
      rw [show (eightFile.impl + (4 + i)) % 2 ^ 32 = 0x10000 + (4 + i) from
        Nat.mod_eq_of_lt (by show 0x10000 + (4 + i) < 2 ^ 32; omega)]
      rw [← Nat.add_assoc] at h ⊢
      exact h
    · have h := htr (0x100 + i) (by omega)
      rw [Nat.mod_eq_of_lt (by omega)]
      rw [← Nat.add_assoc] at h
      exact h
    · have hblock : (0x10100 + i) / 4096 = 16 := by omega
      rw [hblock] at hf
      rcases diskMachine_frames hf with h | h <;> exact absurd h (by decide)
    · omega
    · omega
  have h := ((tarRead_clamped_iff rfl (by decide) (by decide) hb).mpr (Or.inr (by decide))).1
  rw [hclamp] at h
  exact h

end MyOS
