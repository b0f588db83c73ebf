import MyOS.Pmm.FreeSet

/-!
# What `pmm_init` does to the boot loader's data

The bitmap goes to `_kernel_end` whatever lies there: its size depends on the
RAM found, and no module is looked at before it is written. A boot loader
puts modules where it likes, often right behind the image. So the bytes
handed over survive exactly when none of them lies in
`[_kernel_end, _kernel_end + bitmap_size)`.

`pmmInit_preserves_iff` states it for a placement: the Multiboot info, map
and module list are off the bitmap, and the contents of the modules are
arbitrary (`ModuleBytes` says which memories hold the same tables and differ
in module contents only). If a module byte lies in the bitmap there are
contents that `pmm_init` destroys. `pmmInit_overwrites_module` is the
smallest case, a module at `_kernel_end`.
-/

namespace MyOS

open Lib Lib.Mem

/-- `x` is a byte of the Multiboot info, of the map or of the module list. -/
def LoaderTable (m : Mem) (mbiAddr x : Nat) : Prop :=
  (mbiAddr ≤ x ∧ x < mbiAddr + 88) ∨
  (mmapAddr m mbiAddr ≤ x ∧ x < mmapAddr m mbiAddr + mmapLength m mbiAddr) ∨
  (modsAddr m mbiAddr ≤ x ∧ x < modsAddr m mbiAddr + 16 * modsCount m mbiAddr)

/-- `x` is a byte of a module. -/
def InModule (m : Mem) (mbiAddr x : Nat) : Prop := ∃ md ∈ modsOf m mbiAddr, md.1 ≤ x ∧ x < md.2

/-- `m'` holds the boot loader's tables of `m`, and differs from it in the
contents of modules only. -/
def ModuleBytes (m : Mem) (mbiAddr : Nat) (m' : Mem) : Prop :=
  ∀ x, LoaderTable m mbiAddr x ∨ ¬InModule m mbiAddr x → m' x = m x

section ModuleBytes

variable {im : Image} {m m' : Mem} {mbiAddr : Nat} {entries : List MmapEntry}

theorem ModuleBytes.info (h : ModuleBytes m mbiAddr m') {k : Nat} (hk : k + 4 ≤ 88) :
    rd32 m' (mbiAddr + k) = rd32 m (mbiAddr + k) :=
  rd32_congr fun _ _ => h _ (Or.inl (Or.inl (by omega)))

theorem ModuleBytes.mmapAddr (h : ModuleBytes m mbiAddr m') :
    mmapAddr m' mbiAddr = mmapAddr m mbiAddr := h.info (by omega)

theorem ModuleBytes.mmapLength (h : ModuleBytes m mbiAddr m') :
    mmapLength m' mbiAddr = mmapLength m mbiAddr := h.info (by omega)

theorem ModuleBytes.modsAddr (h : ModuleBytes m mbiAddr m') :
    modsAddr m' mbiAddr = modsAddr m mbiAddr := h.info (by omega)

theorem ModuleBytes.flags (h : ModuleBytes m mbiAddr m') : rd32 m' mbiAddr = rd32 m mbiAddr := by
  have h0 := h.info (k := 0) (by omega)
  rwa [Nat.add_zero] at h0

theorem ModuleBytes.modsCount (h : ModuleBytes m mbiAddr m') :
    modsCount m' mbiAddr = modsCount m mbiAddr := by
  unfold MyOS.modsCount hasMods
  rw [h.flags, h.info (k := 20) (by omega)]

theorem ModuleBytes.modsOf (h : ModuleBytes m mbiAddr m') :
    modsOf m' mbiAddr = modsOf m mbiAddr := by
  unfold MyOS.modsOf
  rw [h.modsCount, h.modsAddr]
  apply List.map_congr_left
  intro i hi
  have hlt := List.mem_range.mp hi
  have hx : ∀ j, j < 8 → m' (MyOS.modsAddr m mbiAddr + 16 * i + j)
      = m (MyOS.modsAddr m mbiAddr + 16 * i + j) := fun j hj =>
    h _ (Or.inl (Or.inr (Or.inr ⟨by omega, by omega⟩)))
  unfold modAt
  rw [rd32_congr (m := m') (n := m) fun k hk => hx k (by omega),
    rd32_congr (m := m') (n := m) fun k hk => by
      rw [Nat.add_assoc _ 4 k]
      exact hx (4 + k) (by omega)]

/-- A map is read the same from a memory that agrees on its bytes. -/
theorem MapAt.congr {mapEnd : Nat} : ∀ (es : List MmapEntry) {ptr : Nat},
    (∀ x, ptr ≤ x → x < mapEnd → m' x = m x) → MapAt m mapEnd ptr es → MapAt m' mapEnd ptr es := by
  intro es
  induction es with
  | nil =>
    intro _ _ h
    exact h
  | cons e es ih =>
    rintro ptr hx ⟨hent, hsize, hstep, hrest⟩
    exact ⟨(entryAt_congr fun x h1 h2 => hx x h1 (by omega)).trans hent, hsize, hstep,
      ih (fun x h1 h2 => hx x (by omega) h2) hrest⟩

theorem ModuleBytes.bootInfo (h : ModuleBytes m mbiAddr m') (hi : BootInfo m mbiAddr entries) :
    BootInfo m' mbiAddr entries where
  addr_ne := hi.addr_ne
  addr_le := hi.addr_le
  flag := by
    have hf := hi.flag
    unfold hasMemMap at hf ⊢
    rwa [h.flags]
  no_wrap := by
    rw [h.mmapAddr, h.mmapLength]
    exact hi.no_wrap
  map := by
    rw [h.mmapAddr, h.mmapLength]
    exact MapAt.congr entries (fun x h1 h2 => h x (Or.inl (Or.inr (Or.inl ⟨h1, h2⟩)))) hi.map
  ends := hi.ends
  mods_le := by
    rw [h.modsAddr, h.modsCount]
    exact hi.mods_le

theorem ModuleBytes.placed (h : ModuleBytes m mbiAddr m') {total : Nat}
    (hp : Placed im m mbiAddr total) : Placed im m' mbiAddr total where
  info := hp.info
  map := by
    rw [h.mmapAddr, h.mmapLength]
    exact hp.map
  list := by
    rw [h.modsAddr, h.modsCount]
    exact hp.list

theorem Placed.table {total x : Nat} (hp : Placed im m mbiAddr total)
    (hx : LoaderTable m mbiAddr x) : x < im.kernelEnd ∨ im.kernelEnd + bitmapSize total ≤ x := by
  rcases hx with h | h | h
  · exact hp.info x h.1 h.2
  · exact hp.map x h.1 h.2
  · exact hp.list x h.1 h.2

/-- **The boot loader's data survives, exactly when.** With the info, the
map and the module list off the bitmap: `pmm_init` leaves every byte handed
over as it was, whatever the modules contain, if and only if no module byte
lies in the bitmap. -/
theorem pmmInit_preserves_iff (h : BootInfo m mbiAddr entries)
    (hp : Placed im m mbiAddr (trackedBlocks entries)) :
    (∀ m', ModuleBytes m mbiAddr m' → ∃ fuel₀, ∀ fuel ≥ fuel₀, ∃ b,
      pmmInit im fuel mbiAddr m' = some b ∧
        ∀ x, LoaderTable m mbiAddr x ∨ InModule m mbiAddr x → b.mem x = m' x) ↔
    ∀ x, InModule m mbiAddr x →
      x < im.kernelEnd ∨ im.kernelEnd + bitmapSize (trackedBlocks entries) ≤ x := by
  constructor
  · intro hall x hx
    by_contra hin
    -- contents that differ from what ends up at `x`: the run does not depend on them
    have hmemset : ∀ v, (m.write x v).memset im.kernelEnd 0xFF
        (bitmapSize (capRam (ramEnd entries) / 4096))
        = m.memset im.kernelEnd 0xFF (bitmapSize (capRam (ramEnd entries) / 4096)) := by
      intro v
      have hcap : capRam (ramEnd entries) / 4096 = trackedBlocks entries :=
        bootAll_totalBlocks im m entries
      funext y
      unfold Mem.memset
      rw [hcap]
      by_cases hy : im.kernelEnd ≤ y ∧ y < im.kernelEnd + bitmapSize (trackedBlocks entries)
      · rw [if_pos hy, if_pos hy]
      · rw [if_neg hy, if_neg hy, write_ne _ _ (fun he => hin (by omega))]
    have hsame : ∀ v, bootAll im (m.write x v) (ramEnd entries) = bootAll im m (ramEnd entries) := by
      intro v
      unfold bootAll
      simp only [hmemset v]
    have hbytes : ∀ v, ModuleBytes m mbiAddr (m.write x v) := by
      intro v y hy
      refine write_ne m v fun he => ?_
      rw [he] at hy
      rcases hy with hy | hy
      · exact hin (hp.table hy)
      · exact hy hx
    have hrun : ∀ v, ((bootAll im m (ramEnd entries)).via
        (initAll im entries (modsOf m mbiAddr))).mem x = v := by
      intro v
      obtain ⟨fuel₀, hf⟩ := hall _ (hbytes v)
      obtain ⟨b, hb, hpres⟩ :=
        hf (max fuel₀ (max entries.length (modsCount m mbiAddr) + 1)) (by omega)
      rw [pmmInit_eq ((hbytes v).bootInfo h) ((hbytes v).placed hp) _ (by omega)
        (by rw [(hbytes v).modsCount]; omega), hsame v, (hbytes v).modsOf] at hb
      cases hb
      exact (hpres x (Or.inr hx)).trans (write_self m x v)
    have h01 : (0 : UInt8) = 1 := (hrun 0).symm.trans (hrun 1)
    exact absurd h01 (by decide)
  · intro hoff m' hm'
    refine ⟨max entries.length (modsCount m mbiAddr) + 1, fun fuel hfuel => ?_⟩
    have hb := pmmInit_eq (hm'.bootInfo h) (hm'.placed hp) fuel (by omega)
      (by rw [hm'.modsCount]; omega)
    obtain ⟨b, hb', htot, -⟩ := pmmInit_free (hm'.bootInfo h) (hm'.placed hp) fuel
      (by omega) (by rw [hm'.modsCount]; omega)
    refine ⟨b, hb', fun x hx => pmmInit_outside hb' ?_⟩
    have haddr : b.bitmapAddr = im.kernelEnd := by
      rw [hb] at hb'
      cases hb'
      rfl
    have htot' : b.totalBlocks = trackedBlocks entries := htot
    unfold Boot.Off
    rw [haddr, htot']
    rcases hx with hx | hx
    · exact hp.table hx
    · exact hoff x hx

end ModuleBytes

theorem pmmInit_preserves_small : ∃ fuel₀, ∀ fuel ≥ fuel₀, ∃ b,
    pmmInit smallImage fuel 0x500 (bootMem lowEntry 0x200000 0x201000) = some b ∧
      ∀ x, LoaderTable (bootMem lowEntry 0x200000 0x201000) 0x500 x ∨
        InModule (bootMem lowEntry 0x200000 0x201000) 0x500 x →
          b.mem x = bootMem lowEntry 0x200000 0x201000 x := by
  refine (pmmInit_preserves_iff bootMem_low_info bootMem_low_placed).mpr (fun x hx => ?_) _
    fun _ _ => rfl
  obtain ⟨md, hmd, hlo, -⟩ := hx
  have hmods : modsOf (bootMem lowEntry 0x200000 0x201000) 0x500 = [(0x200000, 0x201000)] := by
    decide
  rw [hmods, List.mem_singleton] at hmd
  rw [hmd] at hlo
  exact Or.inr (Nat.le_trans (by decide) hlo)

theorem bootMem_overlap_info : BootInfo (bootMem lowEntry 0x120000 0x121000) 0x500 [lowEntry] where
  addr_ne := by omega
  addr_le := by omega
  flag := by decide
  no_wrap := by decide
  map := ⟨by decide, by decide, by decide, rfl⟩
  ends := by decide
  mods_le := by decide

theorem bootMem_overlap_placed :
    Placed smallImage (bootMem lowEntry 0x120000 0x121000) 0x500 (trackedBlocks [lowEntry]) where
  info x _ hx := Or.inl (Nat.lt_of_lt_of_le hx (by decide))
  map x _ hx := Or.inl (Nat.lt_of_lt_of_le hx (by decide))
  list x _ hx := Or.inl (Nat.lt_of_lt_of_le hx (by decide))

/-- A module right behind the image: its first byte, `0`, becomes the first
byte of the bitmap, which has the bit of block 0 set. -/
theorem pmmInit_overwrites_module : ∃ b,
    pmmInit smallImage 2 0x500 (bootMem lowEntry 0x120000 0x121000) = some b ∧
      ¬∀ x, LoaderTable (bootMem lowEntry 0x120000 0x121000) 0x500 x ∨
        InModule (bootMem lowEntry 0x120000 0x121000) 0x500 x →
          b.mem x = bootMem lowEntry 0x120000 0x121000 x := by
  obtain ⟨b, hb, htot, hfree⟩ := pmmInit_free bootMem_overlap_info bootMem_overlap_placed
    2 (by decide) (by decide)
  refine ⟨b, hb, fun hpres => ?_⟩
  have haddr : b.bitmapAddr = 0x120000 := by
    rw [pmmInit_eq bootMem_overlap_info bootMem_overlap_placed 2 (by decide) (by decide)] at hb
    cases hb
    rfl
  have hset : bitmapTest b.pmm 0 = true := by
    rw [← Bool.not_eq_false, hfree 0 (by decide)]
    exact fun h => h.2 (Or.inl (by decide))
  have hbyte : b.mem 0x120000 = 0 := by
    have hmods : modsOf (bootMem lowEntry 0x120000 0x121000) 0x500 = [(0x120000, 0x121000)] := by
      decide
    rw [hpres 0x120000 (Or.inr ⟨(0x120000, 0x121000), by rw [hmods]; exact List.mem_singleton.mpr rfl,
      by decide, by decide⟩)]
    decide
  have hword : (b.pmm.bitmap 0).getLsbD 0 = true := by
    rw [← Words.test_mul_add b.pmm.bitmap (i := 0) (j := 0) (by decide)]
    exact hset
  have heven : rd32 b.mem 0x120000 % 2 = 0 := by
    unfold rd32
    rw [hbyte]
    show (0 + _ * 256 + _ * 65536 + _ * 16777216) % 2 = 0
    omega
  have hodd : (BitVec.ofNat 32 (rd32 b.mem (b.bitmapAddr + 4 * 0))).getLsbD 0 = true := hword
  rw [haddr, Nat.mul_zero, Nat.add_zero, BitVec.getLsbD_ofNat, Nat.testBit_zero, Bool.and_eq_true,
    decide_eq_true_eq, decide_eq_true_eq, heven] at hodd
  exact absurd hodd.2 (by decide)

end MyOS
