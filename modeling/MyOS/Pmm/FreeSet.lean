import MyOS.Pmm.InitSpec

/-!
# The free set after `pmm_init`, and where it leaves RAM

Two readings of `pmmInit_free`. With every type-1 entry below 4 GiB, the
free set is exactly "inside usable RAM and outside the reserved zones", byte
range by byte range (`pmmInit_exact`): the floor of `pmm_free_region` and the
ceiling of `pmm_reserve_region` meet on aligned starts.

With entries at or above 4 GiB the second walk frees the entry's address
modulo `2 ^ 32`, a stretch of low memory the map may say nothing about.
`pmmInit_ram_iff` says exactly when that does no harm, and
`pmmInit_frees_non_ram` is a machine on which it does.
-/

namespace MyOS

open Lib Lib.Mem

/-- Block `c` and the byte range `[lo, hi)` share a byte. -/
def Meets (c lo hi : Nat) : Prop := ∃ x, c * 4096 ≤ x ∧ x < (c + 1) * 4096 ∧ lo ≤ x ∧ x < hi

/-- Block `c` lies wholly inside the byte range `[lo, hi)`. -/
def Inside (c lo hi : Nat) : Prop := lo ≤ c * 4096 ∧ (c + 1) * 4096 ≤ hi

/-- Block `c` is RAM: wholly inside some type-1 entry. -/
def Ram (entries : List MmapEntry) (c : Nat) : Prop :=
  ∃ e ∈ entries, e.type = 1 ∧ Inside c e.addr (e.addr + e.len)

theorem meets_iff {c lo hi : Nat} : Meets c lo hi ↔ lo < hi ∧ c * 4096 < hi ∧ lo < (c + 1) * 4096 := by
  constructor
  · intro h
    obtain ⟨x, h1, h2, h3, h4⟩ := h
    omega
  · intro h
    refine ⟨max lo (c * 4096), ?_⟩
    omega

/-- Below 4 GiB the 32-bit image of an aligned entry is the entry. -/
theorem image32_iff_inside {e : MmapEntry} {c : Nat} (halign : e.addr % 4096 = 0)
    (hlow : e.addr + e.len < 2 ^ 32) :
    Image32 e c ↔ e.type = 1 ∧ Inside c e.addr (e.addr + e.len) := by
  unfold Image32 Inside
  rw [Nat.mod_eq_of_lt (by omega : e.addr < 2 ^ 32), Nat.mod_eq_of_lt (by omega : e.len < 2 ^ 32)]
  refine and_congr_right fun _ => ?_
  omega

/-- An aligned entry that starts below 4 GiB frees only its own blocks, even
if it runs past the limit. -/
theorem inside_of_image32 {e : MmapEntry} {c : Nat} (halign : e.addr % 4096 = 0)
    (hlow : e.addr < 2 ^ 32) (h : Image32 e c) : Inside c e.addr (e.addr + e.len) := by
  obtain ⟨-, h1, h2⟩ := h
  rw [Nat.mod_eq_of_lt hlow] at h1 h2
  have hmod := Nat.mod_le e.len (2 ^ 32)
  unfold Inside
  omega

/-- With the bitmap below 4 GiB and page-aligned modules, the zones reserved
again are the blocks that meet the three kinds of range. -/
theorem kept_iff_meets {im : Image} {total : Nat} {mods : List (Nat × Nat)} {c : Nat}
    (hfit : im.kernelEnd + bitmapSize total ≤ 2 ^ 32)
    (hmods : ∀ md ∈ mods, md.1 % 4096 = 0 ∧ md.1 ≤ md.2 ∧ md.2 ≤ 0xFFFFF000) :
    Kept im total mods c ↔ Meets c 0 0x100000 ∨
      Meets c im.kernelStart (im.kernelEnd + bitmapSize total) ∨
      ∃ md ∈ mods, Meets c md.1 md.2 := by
  have hks := im.start_eq
  have hke := im.start_le
  have hlow : c < 256 ↔ Meets c 0 0x100000 := by
    rw [meets_iff]
    omega
  have hkernel : (im.kernelStart / 4096 ≤ c ∧ c < im.kernelStart / 4096 +
      (((im.kernelEnd + bitmapSize total) % 2 ^ 32 + 2 ^ 32 - im.kernelStart) % 2 ^ 32 + 4095)
        % 2 ^ 32 / 4096) ↔ 256 ≤ c ∧ c * 4096 < im.kernelEnd + bitmapSize total := by
    have hsize : ((im.kernelEnd + bitmapSize total) % 2 ^ 32 + 2 ^ 32 - im.kernelStart) % 2 ^ 32
        = im.kernelEnd + bitmapSize total - im.kernelStart := by omega
    rw [hsize, Nat.mod_eq_of_lt (by omega)]
    omega
  have hmod : ∀ md ∈ mods, ((md.1 / 4096 ≤ c ∧
      c < md.1 / 4096 + ((md.2 + 2 ^ 32 - md.1) % 2 ^ 32 + 4095) % 2 ^ 32 / 4096) ↔
        Meets c md.1 md.2) := by
    intro md hmd
    obtain ⟨h1, h2, h3⟩ := hmods md hmd
    have hsize : (md.2 + 2 ^ 32 - md.1) % 2 ^ 32 = md.2 - md.1 := by omega
    rw [hsize, Nat.mod_eq_of_lt (by omega), meets_iff]
    omega
  unfold Kept
  rw [hkernel, hlow]
  constructor
  · intro h
    rcases h with h | h | ⟨md, hmd, h⟩
    · exact Or.inl h
    · refine Or.inr (Or.inl ?_)
      rw [meets_iff]
      omega
    · exact Or.inr (Or.inr ⟨md, hmd, (hmod md hmd).mp h⟩)
  · intro h
    rcases h with h | h | ⟨md, hmd, h⟩
    · exact Or.inl h
    · rcases Nat.lt_or_ge c 256 with hc | hc
      · exact Or.inl (hlow.mp hc)
      · rw [meets_iff] at h
        exact Or.inr (Or.inl ⟨hc, h.2.1⟩)
    · exact Or.inr (Or.inr ⟨md, hmd, (hmod md hmd).mpr h⟩)

/-- **The allocatable set, exactly.** With the map below 4 GiB and the
bitmap clear of what the boot loader handed over, `pmm_init` ends, tracks
the blocks up to the highest type-1 end, and leaves free the blocks wholly
inside a type-1 entry that meet none of the reserved ranges. -/
theorem pmmInit_exact {im : Image} {m : Mem} {mbiAddr : Nat} {entries : List MmapEntry}
    (h : BootInfo m mbiAddr entries) (hp : Placed im m mbiAddr (trackedBlocks entries))
    (hlow : ∀ e ∈ entries, e.type = 1 → e.addr % 4096 = 0 ∧ e.addr + e.len < 2 ^ 32)
    (hfit : im.kernelEnd + bitmapSize (trackedBlocks entries) ≤ 2 ^ 32)
    (hmods : ∀ md ∈ modsOf m mbiAddr, md.1 % 4096 = 0 ∧ md.1 ≤ md.2 ∧ md.2 ≤ 0xFFFFF000) :
    ∃ fuel₀, ∀ fuel ≥ fuel₀, ∃ b, pmmInit im fuel mbiAddr m = some b ∧
      b.pmm.totalBlocks = min (ramEnd entries) 0xFFFFFFFF / 4096 ∧
      ∀ c < b.pmm.totalBlocks, (bitmapTest b.pmm c = false ↔
        (∃ e ∈ entries, e.type = 1 ∧ Inside c e.addr (e.addr + e.len)) ∧
        ¬Meets c 0 0x100000 ∧
        ¬Meets c im.kernelStart (im.kernelEnd + bitmapSize b.pmm.totalBlocks) ∧
        ∀ md ∈ modsOf m mbiAddr, ¬Meets c md.1 md.2) := by
  refine ⟨max entries.length (modsCount m mbiAddr) + 1, fun fuel hfuel => ?_⟩
  obtain ⟨b, hb, htot, hfree⟩ := pmmInit_free h hp fuel (by omega) (by omega)
  refine ⟨b, hb, htot, fun c hc => ?_⟩
  rw [htot] at hc ⊢
  rw [hfree c hc, kept_iff_meets hfit hmods]
  have himage : (∃ e ∈ entries, Image32 e c) ↔
      ∃ e ∈ entries, e.type = 1 ∧ Inside c e.addr (e.addr + e.len) := by
    constructor
    · intro he
      obtain ⟨e, he, hi⟩ := he
      obtain ⟨ha, hl⟩ := hlow e he hi.1
      exact ⟨e, he, (image32_iff_inside ha hl).mp hi⟩
    · intro he
      obtain ⟨e, he, hi⟩ := he
      obtain ⟨ha, hl⟩ := hlow e he hi.1
      exact ⟨e, he, (image32_iff_inside ha hl).mpr hi⟩
  rw [himage, not_or, not_or, not_exists]
  simp only [not_and]

/-- **Only RAM is offered, exactly when.** For a map of page-aligned entries
with 64-bit addresses, every free block is RAM if and only if no tracked
block under the 32-bit image of an entry at or above 4 GiB is outside RAM,
save where it is reserved again. -/
theorem pmmInit_ram_iff {im : Image} {m : Mem} {mbiAddr : Nat} {entries : List MmapEntry}
    (h : BootInfo m mbiAddr entries) (hp : Placed im m mbiAddr (trackedBlocks entries))
    (halign : ∀ e ∈ entries, e.addr % 4096 = 0 ∧ e.len % 4096 = 0) :
    ∃ fuel₀, ∀ fuel ≥ fuel₀, ∃ b, pmmInit im fuel mbiAddr m = some b ∧
      ((∀ c < b.pmm.totalBlocks, bitmapTest b.pmm c = false → Ram entries c) ↔
        ∀ e ∈ entries, e.type = 1 → 2 ^ 32 ≤ e.addr → ∀ c < trackedBlocks entries, Image32 e c →
          Ram entries c ∨ Kept im (trackedBlocks entries) (modsOf m mbiAddr) c) := by
  refine ⟨max entries.length (modsCount m mbiAddr) + 1, fun fuel hfuel => ?_⟩
  obtain ⟨b, hb, htot, hfree⟩ := pmmInit_free h hp fuel (by omega) (by omega)
  refine ⟨b, hb, ?_⟩
  rw [htot]
  constructor
  · intro hram e he _ _ c hc hi
    by_cases hk : Kept im (trackedBlocks entries) (modsOf m mbiAddr) c
    · exact Or.inr hk
    · exact Or.inl (hram c hc ((hfree c hc).mpr ⟨⟨e, he, hi⟩, hk⟩))
  · intro hhigh c hc hfc
    obtain ⟨⟨e, he, hi⟩, hk⟩ := (hfree c hc).mp hfc
    rcases Nat.lt_or_ge e.addr (2 ^ 32) with hlt | hge
    · exact ⟨e, he, hi.1, inside_of_image32 (halign e he).1 hlt hi⟩
    · exact (hhigh e he hi.1 hge c hc hi).resolve_right hk

/-! ## A small machine -/

/-- Boot memory with the Multiboot info at `0x500`, a map of one entry at
`0x600` and a list of one module at `0x700`. -/
def bootMem (e : MmapEntry) (modStart modEnd : Nat) : Mem :=
  [(0x500, 0x48), (0x514, 1), (0x518, 0x700), (0x52C, 24), (0x530, 0x600), (0x600, e.size),
    (0x604, e.addr % 2 ^ 32), (0x608, e.addr / 2 ^ 32), (0x60C, e.len % 2 ^ 32),
    (0x610, e.len / 2 ^ 32), (0x614, e.type), (0x700, modStart), (0x704, modEnd)].foldl
      (fun m w => m.wr32 w.1 w.2) (fun _ => 0)

/-- An image of 128 KiB. -/
def smallImage : Image where
  kernelStart := 0x100000
  kernelEnd := 0x120000
  start_eq := rfl
  start_le := by omega
  end_lt := by omega

/-- Usable RAM up to 4 MiB. -/
def lowEntry : MmapEntry := ⟨20, 0, 0x400000, 1⟩

/-- One page of RAM, five megabytes above 4 GiB. -/
def highEntry : MmapEntry := ⟨20, 0x100500000, 0x1000, 1⟩

/-- The same boot memory with `highEntry` behind `lowEntry` in the map. -/
def bootMemHigh : Mem :=
  [(0x52C, 48), (0x618, 20), (0x61C, 0x500000), (0x620, 1), (0x624, 0x1000), (0x628, 0),
    (0x62C, 1)].foldl (fun m w => m.wr32 w.1 w.2) (bootMem lowEntry 0x200000 0x201000)

theorem bootMem_low_info : BootInfo (bootMem lowEntry 0x200000 0x201000) 0x500 [lowEntry] where
  addr_ne := by omega
  addr_le := by omega
  flag := by decide
  no_wrap := by decide
  map := ⟨by decide, by decide, by decide, rfl⟩
  ends := by decide
  mods_le := by decide

theorem bootMem_low_placed :
    Placed smallImage (bootMem lowEntry 0x200000 0x201000) 0x500 (trackedBlocks [lowEntry]) where
  info x _ hx := Or.inl (Nat.lt_of_lt_of_le hx (by decide))
  map x _ hx := Or.inl (Nat.lt_of_lt_of_le hx (by decide))
  list x _ hx := Or.inl (Nat.lt_of_lt_of_le hx (by decide))

theorem bootMemHigh_info : BootInfo bootMemHigh 0x500 [lowEntry, highEntry] where
  addr_ne := by omega
  addr_le := by omega
  flag := by decide
  no_wrap := by decide
  map := ⟨by decide, by decide, by decide, by decide, by decide, by decide, rfl⟩
  ends := by decide
  mods_le := by decide

theorem bootMemHigh_placed :
    Placed smallImage bootMemHigh 0x500 (trackedBlocks [lowEntry, highEntry]) where
  info x _ hx := Or.inl (Nat.lt_of_lt_of_le hx (by decide))
  map x _ hx := Or.inl (Nat.lt_of_lt_of_le hx (by decide))
  list x _ hx := Or.inl (Nat.lt_of_lt_of_le hx (by decide))

/-- On the small machine the exact set applies: 1024 blocks are tracked. -/
theorem pmmInit_exact_small : ∃ fuel₀, ∀ fuel ≥ fuel₀, ∃ b,
    pmmInit smallImage fuel 0x500 (bootMem lowEntry 0x200000 0x201000) = some b ∧
      b.pmm.totalBlocks = 1024 := by
  obtain ⟨fuel₀, h⟩ := pmmInit_exact bootMem_low_info bootMem_low_placed (by decide) (by decide)
    (by decide)
  refine ⟨fuel₀, fun fuel hfuel => ?_⟩
  obtain ⟨b, hb, htot, -⟩ := h fuel hfuel
  exact ⟨b, hb, htot⟩

theorem pmmInit_ram_iff_small : ∃ fuel₀, ∀ fuel ≥ fuel₀, ∃ b,
    pmmInit smallImage fuel 0x500 (bootMem lowEntry 0x200000 0x201000) = some b ∧
      ∀ c < b.pmm.totalBlocks, bitmapTest b.pmm c = false → Ram [lowEntry] c := by
  obtain ⟨fuel₀, h⟩ := pmmInit_ram_iff bootMem_low_info bootMem_low_placed (by decide)
  refine ⟨fuel₀, fun fuel hfuel => ?_⟩
  obtain ⟨b, hb, hiff⟩ := h fuel hfuel
  refine ⟨b, hb, hiff.mpr fun e he _ hhigh => ?_⟩
  rw [List.mem_singleton.mp he] at hhigh
  exact absurd hhigh (by decide)

/-- A machine with 4 MiB of RAM and one more page at 4 GiB + 5 MiB: block
1280, at 5 MiB, is free after `pmm_init`, and is not RAM. -/
theorem pmmInit_frees_non_ram : ∃ b, pmmInit smallImage 3 0x500 bootMemHigh = some b ∧
    ¬∀ c < b.pmm.totalBlocks, bitmapTest b.pmm c = false → Ram [lowEntry, highEntry] c := by
  obtain ⟨b, hb, htot, hfree⟩ := pmmInit_free bootMemHigh_info bootMemHigh_placed
    3 (by decide) (by decide)
  refine ⟨b, hb, fun hram => ?_⟩
  have hlt : (1280 : Nat) < trackedBlocks [lowEntry, highEntry] := by decide
  have hfc : bitmapTest b.pmm 1280 = false := by
    refine (hfree 1280 hlt).mpr ⟨⟨highEntry, List.mem_cons_of_mem _ List.mem_cons_self, by decide,
      by decide, by decide⟩, fun hk => ?_⟩
    rcases hk with h1 | h2 | ⟨md, hmd, h3⟩
    · exact absurd h1 (by decide)
    · exact absurd h2 (by decide)
    · have hmods : modsOf bootMemHigh 0x500 = [(0x200000, 0x201000)] := by decide
      rw [hmods, List.mem_singleton] at hmd
      rw [hmd] at h3
      exact absurd h3 (by decide)
  obtain ⟨e, he, -, hi⟩ := hram 1280 (by rw [htot]; exact hlt) hfc
  rcases List.mem_cons.mp he with rfl | he
  · exact absurd hi.2 (by decide)
  · rw [List.mem_singleton.mp he] at hi
    exact absurd hi.1 (by decide)

end MyOS
