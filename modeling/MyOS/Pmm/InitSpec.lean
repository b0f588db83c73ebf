import MyOS.Pmm.Init

/-!
# What `pmm_init` computes

On a well-formed map whose bytes, like those of the Multiboot info and the
module list, lie off the bitmap, both walks of `pmm_init` see the entries the
boot loader wrote, and the whole function is one pass of allocator
operations over the all-reserved bitmap (`pmmInit_eq`). From there the free
set is a closed form: a tracked block is free exactly when the 32-bit image
of some type-1 entry covers it and none of the zones reserved afterwards
does (`initAll_free_iff`).

`Image32` is that 32-bit image: `pmm_init` measures RAM with 64-bit ends but
frees `(uint32_t)addr`, `(uint32_t)len`. For entries below 4 GiB the image
of an aligned entry is the entry itself (`image32_iff_inside`), which gives
the exact free set; for entries above it is somewhere else entirely, which
is what the non-RAM result turns on.
-/

namespace MyOS

open Lib Lib.Mem

/-! ## Well-formed boot information -/

/-- The entries laid out from an address: each is followed, `size + 4` bytes
on, by the next, and the last ends exactly at `mapEnd`. -/
def MapAt (m : Mem) (mapEnd : Nat) : Nat → List MmapEntry → Prop
  | ptr, [] => ptr = mapEnd
  | ptr, e :: es =>
    entryAt m ptr = e ∧ 20 ≤ e.size ∧ ptr + e.size + 4 ≤ mapEnd ∧
      MapAt m mapEnd (ptr + e.size + 4) es

def mmapAddr (m : Mem) (mbiAddr : Nat) : Nat := rd32 m (mbiAddr + 48)

def mmapLength (m : Mem) (mbiAddr : Nat) : Nat := rd32 m (mbiAddr + 44)

def modsAddr (m : Mem) (mbiAddr : Nat) : Nat := rd32 m (mbiAddr + 24)

/-- The length of the module list: none without the flag. -/
def modsCount (m : Mem) (mbiAddr : Nat) : Nat :=
  if hasMods m mbiAddr then rd32 m (mbiAddr + 20) else 0

/-- The modules the boot loader listed. -/
def modsOf (m : Mem) (mbiAddr : Nat) : List (Nat × Nat) :=
  (List.range (modsCount m mbiAddr)).map (modAt m (modsAddr m mbiAddr))

/-- A Multiboot info with a well-formed memory map, in the 32-bit address
space. -/
structure BootInfo (m : Mem) (mbiAddr : Nat) (entries : List MmapEntry) : Prop where
  addr_ne : mbiAddr ≠ 0
  addr_le : mbiAddr + 88 ≤ 2 ^ 32
  flag : hasMemMap m mbiAddr = true
  no_wrap : mmapAddr m mbiAddr + mmapLength m mbiAddr < 2 ^ 32
  map : MapAt m (mmapAddr m mbiAddr + mmapLength m mbiAddr) (mmapAddr m mbiAddr) entries
  ends : ∀ e ∈ entries, e.type = 1 → e.addr + e.len < 2 ^ 64
  mods_le : modsAddr m mbiAddr + 16 * modsCount m mbiAddr ≤ 2 ^ 32

/-- The highest end of a type-1 entry. -/
def ramEnd (entries : List MmapEntry) : Nat :=
  ((entries.filter (fun e => e.type = 1)).map fun e => e.addr + e.len).foldr max 0

/-- `pmm_total_blocks` for a map. -/
def trackedBlocks (entries : List MmapEntry) : Nat := min (ramEnd entries) 0xFFFFFFFF / 4096

/-- No byte of the `n` at `a` is among the `k` at `b`. -/
def Apart (a n b k : Nat) : Prop := ∀ x, a ≤ x → x < a + n → x < b ∨ b + k ≤ x

/-- The Multiboot info, the map and the module list lie off the bitmap. -/
structure Placed (im : Image) (m : Mem) (mbiAddr total : Nat) : Prop where
  info : Apart mbiAddr 88 im.kernelEnd (bitmapSize total)
  map : Apart (mmapAddr m mbiAddr) (mmapLength m mbiAddr) im.kernelEnd (bitmapSize total)
  list : Apart (modsAddr m mbiAddr) (16 * modsCount m mbiAddr) im.kernelEnd (bitmapSize total)

/-! ## The walks on a well-formed map -/

theorem growMax_eq {e : MmapEntry} (he : e.type = 1 → e.addr + e.len < 2 ^ 64) (acc : Nat) :
    growMax e acc = if e.type = 1 then max acc (e.addr + e.len) else acc := by
  unfold growMax
  by_cases ht : e.type = 1
  · rw [if_pos ht, if_pos ht, Nat.mod_eq_of_lt (he ht)]
    split <;> omega
  · rw [if_neg ht, if_neg ht]

theorem ramEnd_cons (e : MmapEntry) (es : List MmapEntry) :
    ramEnd (e :: es) = if e.type = 1 then max (e.addr + e.len) (ramEnd es) else ramEnd es := by
  unfold ramEnd
  by_cases ht : e.type = 1
  · rw [if_pos ht, List.filter_cons_of_pos (by simpa using ht), List.map_cons, List.foldr_cons]
  · rw [if_neg ht, List.filter_cons_of_neg (by simpa using ht)]

theorem nextEntry_eq {m : Mem} {ptr mapEnd : Nat} {e : MmapEntry} (hent : entryAt m ptr = e)
    (hend : ptr + e.size + 4 ≤ mapEnd) (hwrap : mapEnd < 2 ^ 32) :
    nextEntry m ptr = ptr + e.size + 4 := by
  unfold nextEntry
  rw [hent]
  exact Nat.mod_eq_of_lt (by omega)

/-- The first walk ends with the highest type-1 end. -/
theorem maxWalk_eq {m : Mem} {mapEnd : Nat} (hwrap : mapEnd < 2 ^ 32) :
    ∀ (es : List MmapEntry) (fuel ptr acc : Nat), es.length < fuel → MapAt m mapEnd ptr es →
      (∀ e ∈ es, e.type = 1 → e.addr + e.len < 2 ^ 64) →
      maxWalk m mapEnd fuel ptr acc = some (max acc (ramEnd es))
  | [], fuel + 1, ptr, acc, _, hmap, _ => by
    have hptr : ptr = mapEnd := hmap
    unfold maxWalk
    rw [if_neg (by omega)]
    exact congrArg some (Nat.max_eq_left (Nat.zero_le _)).symm
  | e :: es, fuel + 1, ptr, acc, hfuel, hmap, hends => by
    obtain ⟨hent, _, hstep, hrest⟩ := hmap
    unfold maxWalk
    rw [if_pos (by omega), nextEntry_eq hent hstep hwrap, hent,
      growMax_eq (hends e List.mem_cons_self),
      maxWalk_eq hwrap es fuel _ _ (by simpa using hfuel) hrest
        (fun e' he' => hends e' (List.mem_cons_of_mem _ he')), ramEnd_cons]
    split
    · congr 1
      omega
    · rfl

/-- Entries are read the same from two memories that agree on the map. -/
theorem entryAt_congr {m m' : Mem} {ptr : Nat} (h : ∀ x, ptr ≤ x → x < ptr + 24 → m x = m' x) :
    entryAt m ptr = entryAt m' ptr := by
  have hx : ∀ j k, j + k < 24 → m (ptr + j + k) = m' (ptr + j + k) :=
    fun j k hjk => h _ (by omega) (by omega)
  unfold entryAt
  rw [rd32_congr (m := m) (n := m') fun k hk => h _ (by omega) (by omega),
    rd64_congr (m := m) (n := m') fun k hk => hx 4 k (by omega),
    rd64_congr (m := m) (n := m') fun k hk => hx 12 k (by omega),
    rd32_congr (m := m) (n := m') fun k hk => hx 20 k (by omega)]

/-- The second walk frees every entry, in order. The memory it reads the map
from is the one it writes the bitmap to; `OnlyBitmap` keeps them apart. -/
theorem freeWalk_eq {m : Mem} {b₀ : Boot} {mapStart mapEnd : Nat} (hwrap : mapEnd < 2 ^ 32)
    (hoff : ∀ x, mapStart ≤ x → x < mapEnd → b₀.Off x) :
    ∀ (es : List MmapEntry) (fuel ptr : Nat) (b : Boot), es.length < fuel → mapStart ≤ ptr →
      MapAt m mapEnd ptr es → OnlyBitmap m b₀ b →
      freeWalk mapEnd fuel ptr b = some (b.via fun s => es.foldl freeEntry s)
  | [], fuel + 1, ptr, b, _, _, hmap, _ => by
    have hptr : ptr = mapEnd := hmap
    unfold freeWalk
    rw [if_neg (by omega)]
    exact congrArg some (Boot.via_id b).symm
  | e :: es, fuel + 1, ptr, b, hfuel, hlo, hmap, hb => by
    obtain ⟨hent, hsize, hstep, hrest⟩ := hmap
    have hread : ∀ b' : Boot, OnlyBitmap m b₀ b' → entryAt b'.mem ptr = e := fun b' hb' =>
      (entryAt_congr fun x hx1 hx2 => hb'.mem x (hoff x (by omega) (by omega))).trans hent
    have hb' : OnlyBitmap m b₀ (b.via fun s => freeEntry s e) := hb.via fun hs => hs.freeEntry e
    unfold freeWalk
    rw [if_pos (by omega)]
    simp only [hread b hb]
    rw [nextEntry_eq (hread _ hb') hstep hwrap,
      freeWalk_eq hwrap hoff es fuel _ _ (by simpa using hfuel) (by omega) hrest hb', Boot.via_via]
    rfl

/-- The module loop reserves the modules of the list, in order. -/
theorem modWalk_eq {m : Mem} {b₀ : Boot} {mbiAddr mods cnt : Nat} (hcnt : cnt < 2 ^ 32)
    (hcount : ∀ b, OnlyBitmap m b₀ b → rd32 b.mem (mbiAddr + 20) = cnt)
    (hmod : ∀ b i, OnlyBitmap m b₀ b → i < cnt → modAt b.mem mods i = modAt m mods i) :
    ∀ (n i fuel : Nat) (b : Boot), i + n = cnt → n < fuel → OnlyBitmap m b₀ b →
      modWalk mbiAddr mods fuel i b
        = some (b.via fun s => ((List.range' i n).map (modAt m mods)).foldl reserveModule s)
  | 0, i, fuel + 1, b, hi, _, hb => by
    unfold modWalk
    rw [hcount b hb, if_neg (by omega)]
    exact congrArg some (Boot.via_id b).symm
  | n + 1, i, fuel + 1, b, hi, hfuel, hb => by
    have hb' : OnlyBitmap m b₀ (b.via fun s => reserveModule s (modAt m mods i)) :=
      hb.via fun hs => hs.reserveRegion _ _
    unfold modWalk
    rw [hcount b hb, if_pos (by omega), hmod b i hb (by omega), Nat.mod_eq_of_lt (by omega),
      modWalk_eq hcnt hcount hmod n (i + 1) fuel _ (by omega) (by omega) hb', Boot.via_via]
    rfl

theorem capRam_eq (x : Nat) : capRam x = min x 0xFFFFFFFF := by
  unfold capRam
  split <;> omega

/-- The allocator operations of `pmm_init`, in order. -/
def initAll (im : Image) (entries : List MmapEntry) (mods : List (Nat × Nat)) (s : Pmm) : Pmm :=
  mods.foldl reserveModule (reserveKernel im (entries.foldl freeEntry s))

theorem initAll_comp (im : Image) (entries : List MmapEntry) (mods : List (Nat × Nat)) :
    ((fun s => mods.foldl reserveModule s) ∘ reserveKernel im) ∘
      (fun s => entries.foldl freeEntry s) = initAll im entries mods := rfl

theorem bootAll_totalBlocks (im : Image) (m : Mem) (entries : List MmapEntry) :
    (bootAll im m (ramEnd entries)).totalBlocks = trackedBlocks entries := by
  show capRam (ramEnd entries) / 4096 = _
  rw [capRam_eq]
  rfl

theorem OnlyBitmap.foldl_freeEntry {m : Mem} {b₀ : Boot} (b : Boot) (h : OnlyBitmap m b₀ b)
    (es : List MmapEntry) : OnlyBitmap m b₀ (b.via fun s => es.foldl freeEntry s) := by
  refine h.via fun {s} hs => ?_
  induction es generalizing s with
  | nil => exact hs
  | cons e es ih => exact ih (hs.freeEntry e)

section Placed

variable {im : Image} {m : Mem} {mbiAddr : Nat} {entries : List MmapEntry} {b : Boot}

/-- Off the bitmap of the given size is off the bitmap of the boot state. -/
theorem bootAll_off {x : Nat}
    (hx : x < im.kernelEnd ∨ im.kernelEnd + bitmapSize (trackedBlocks entries) ≤ x) :
    (bootAll im m (ramEnd entries)).Off x := by
  unfold Boot.Off
  rw [bootAll_totalBlocks]
  exact hx

/-- The fields of the Multiboot info do not change while the bitmap is
filled. -/
theorem OnlyBitmap.info (hb : OnlyBitmap m (bootAll im m (ramEnd entries)) b)
    (hp : Placed im m mbiAddr (trackedBlocks entries)) {k : Nat} (hk : k + 4 ≤ 88) :
    rd32 b.mem (mbiAddr + k) = rd32 m (mbiAddr + k) :=
  rd32_congr fun _ _ => hb.mem _ (bootAll_off (hp.info _ (by omega) (by omega)))

theorem OnlyBitmap.hasMods (hb : OnlyBitmap m (bootAll im m (ramEnd entries)) b)
    (hp : Placed im m mbiAddr (trackedBlocks entries)) :
    hasMods b.mem mbiAddr = hasMods m mbiAddr := by
  have h0 := hb.info hp (k := 0) (by omega)
  rw [Nat.add_zero] at h0
  unfold MyOS.hasMods
  rw [h0]

theorem OnlyBitmap.modAt (hb : OnlyBitmap m (bootAll im m (ramEnd entries)) b)
    (hp : Placed im m mbiAddr (trackedBlocks entries)) {i : Nat} (hi : i < modsCount m mbiAddr) :
    modAt b.mem (modsAddr m mbiAddr) i = modAt m (modsAddr m mbiAddr) i := by
  have hx : ∀ j, j < 8 → b.mem (modsAddr m mbiAddr + 16 * i + j)
      = m (modsAddr m mbiAddr + 16 * i + j) := fun j hj =>
    hb.mem _ (bootAll_off (hp.list _ (by omega) (by omega)))
  unfold MyOS.modAt
  rw [rd32_congr (m := b.mem) (n := m) fun k hk => hx k (by omega),
    rd32_congr (m := b.mem) (n := m) fun k hk => by
      rw [Nat.add_assoc _ 4 k]
      exact hx (4 + k) (by omega)]

/-- The module step on any state that differs from the boot memory in the
bitmap only. -/
theorem reserveMods_eq (hb : OnlyBitmap m (bootAll im m (ramEnd entries)) b)
    (hp : Placed im m mbiAddr (trackedBlocks entries)) {fuel : Nat}
    (hfm : modsCount m mbiAddr < fuel) :
    reserveMods fuel mbiAddr b
      = some (b.via fun s => (modsOf m mbiAddr).foldl reserveModule s) := by
  unfold reserveMods modsOf
  rw [hb.hasMods hp, hb.info hp (by omega)]
  by_cases hmods : MyOS.hasMods m mbiAddr = true
  · have hcnt : modsCount m mbiAddr = rd32 m (mbiAddr + 20) := if_pos hmods
    rw [if_pos hmods, List.range_eq_range']
    refine modWalk_eq (m := m) (rd32_lt m (mbiAddr + 20)) (fun b' hb' => hb'.info hp (by omega))
      (fun b' i hb' hi => hb'.modAt hp (by omega)) _ 0 fuel b (by omega) hfm hb
  · have hcnt : modsCount m mbiAddr = 0 := if_neg hmods
    rw [if_neg hmods, hcnt]
    exact congrArg some (Boot.via_id b).symm

/-- **`pmm_init` as one pass.** On well-formed boot information off the
bitmap it ends, having run the frees and the reservations over the
all-reserved bitmap. -/
theorem pmmInit_eq (h : BootInfo m mbiAddr entries)
    (hp : Placed im m mbiAddr (trackedBlocks entries))
    (fuel : Nat) (hfe : entries.length < fuel) (hfm : modsCount m mbiAddr < fuel) :
    pmmInit im fuel mbiAddr m
      = some ((bootAll im m (ramEnd entries)).via (initAll im entries (modsOf m mbiAddr))) := by
  have hb₀ := bootAll_only im m (ramEnd entries)
  have hb₁ := hb₀.foldl_freeEntry _ entries
  have hb₂ := hb₁.via (f := reserveKernel im) fun hs => hs.reserveKernel im
  have hend : mmapEnd m mbiAddr = mmapAddr m mbiAddr + mmapLength m mbiAddr :=
    Nat.mod_eq_of_lt h.no_wrap
  have hmax : maxWalk m (mmapEnd m mbiAddr) fuel (rd32 m (mbiAddr + 48)) 0
      = some (ramEnd entries) := by
    rw [hend]
    exact (maxWalk_eq h.no_wrap entries fuel _ 0 hfe h.map h.ends).trans
      (congrArg some (Nat.zero_max _))
  have hfree : freeMap fuel mbiAddr (mmapEnd m mbiAddr) (bootAll im m (ramEnd entries))
      = some ((bootAll im m (ramEnd entries)).via fun s => entries.foldl freeEntry s) := by
    unfold freeMap
    rw [hend, hb₀.info hp (by omega)]
    exact freeWalk_eq h.no_wrap (fun x hx1 hx2 => bootAll_off (hp.map x hx1 (by omega))) entries
      fuel _ _ hfe (Nat.le_refl _) h.map hb₀
  unfold pmmInit
  rw [if_neg h.addr_ne, if_neg (by rw [h.flag]; simp), hmax, Option.bind_some, hfree,
    Option.bind_some, reserveMods_eq hb₂ hp hfm, Boot.via_via, Boot.via_via, initAll_comp]

end Placed

/-! ## The free set in closed form -/

/-- Block `c` is covered by the 32-bit image of a type-1 entry: what
`pmm_free_region((uint32_t)addr, (uint32_t)len)` clears. -/
def Image32 (e : MmapEntry) (c : Nat) : Prop :=
  e.type = 1 ∧ e.addr % 2 ^ 32 / 4096 ≤ c ∧
    c < e.addr % 2 ^ 32 / 4096 + e.len % 2 ^ 32 / 4096

/-- Block `c` is in a zone that `pmm_init` reserves again after freeing. -/
def Kept (im : Image) (total : Nat) (mods : List (Nat × Nat)) (c : Nat) : Prop :=
  c < 256 ∨
  (im.kernelStart / 4096 ≤ c ∧ c < im.kernelStart / 4096 +
    (((im.kernelEnd + bitmapSize total) % 2 ^ 32 + 2 ^ 32 - im.kernelStart) % 2 ^ 32 + 4095)
      % 2 ^ 32 / 4096) ∨
  ∃ md ∈ mods, md.1 / 4096 ≤ c ∧
    c < md.1 / 4096 + ((md.2 + 2 ^ 32 - md.1) % 2 ^ 32 + 4095) % 2 ^ 32 / 4096

theorem freeEntry_totalBlocks (s : Pmm) (e : MmapEntry) :
    (freeEntry s e).totalBlocks = s.totalBlocks := by
  unfold freeEntry
  split
  · exact pmmFreeRegion_totalBlocks _ _ s
  · rfl

theorem foldl_freeEntry_totalBlocks : ∀ (es : List MmapEntry) (s : Pmm),
    (es.foldl freeEntry s).totalBlocks = s.totalBlocks := by
  intro es
  induction es with
  | nil =>
    intro _
    rfl
  | cons e es ih =>
    intro s
    exact (ih _).trans (freeEntry_totalBlocks s e)

theorem bitmapTest_freeEntry (s : Pmm) (e : MmapEntry) {c : Nat} (hc : c < s.totalBlocks) :
    bitmapTest (freeEntry s e) c = true ↔ ¬Image32 e c ∧ bitmapTest s c = true := by
  unfold freeEntry Image32
  by_cases ht : e.type = 1
  · rw [if_pos ht, bitmapTest_pmmFreeRegion (Nat.mod_lt _ (by omega)) (Nat.mod_lt _ (by omega))]
    refine and_congr_left' (not_congr ?_)
    omega
  · rw [if_neg ht]
    exact ⟨fun h => ⟨fun hi => ht hi.1, h⟩, fun h => h.2⟩

theorem bitmapTest_foldl_freeEntry {c : Nat} : ∀ (es : List MmapEntry) (s : Pmm),
    c < s.totalBlocks →
    (bitmapTest (es.foldl freeEntry s) c = true ↔
      (∀ e ∈ es, ¬Image32 e c) ∧ bitmapTest s c = true) := by
  intro es
  induction es with
  | nil =>
    intro s _
    exact ⟨fun h => ⟨by simp, h⟩, fun h => h.2⟩
  | cons e es ih =>
    intro s hc
    rw [List.foldl_cons, ih _ (by rwa [freeEntry_totalBlocks]),
      bitmapTest_freeEntry s e hc, List.forall_mem_cons, ← and_assoc,
      and_comm (a := ¬Image32 e c)]

theorem foldl_reserveModule_totalBlocks : ∀ (mods : List (Nat × Nat)) (s : Pmm),
    (mods.foldl reserveModule s).totalBlocks = s.totalBlocks := by
  intro mods
  induction mods with
  | nil =>
    intro _
    rfl
  | cons _ mods ih =>
    intro _
    exact (ih _).trans (pmmReserveRegion_totalBlocks _ _ _)

theorem bitmapTest_foldl_reserveModule {c : Nat} : ∀ (mods : List (Nat × Nat)) (s : Pmm),
    (∀ md ∈ mods, md.1 < 2 ^ 32) → c < s.totalBlocks →
    (bitmapTest (mods.foldl reserveModule s) c = true ↔
      (∃ md ∈ mods, md.1 / 4096 ≤ c ∧
        c < md.1 / 4096 + ((md.2 + 2 ^ 32 - md.1) % 2 ^ 32 + 4095) % 2 ^ 32 / 4096) ∨
      bitmapTest s c = true) := by
  intro mods
  induction mods with
  | nil =>
    intro s _ _
    exact ⟨Or.inr, fun h => h.resolve_left (by simp)⟩
  | cons md mods ih =>
    intro s hlt hc
    have hlt' := List.forall_mem_cons.mp hlt
    rw [List.foldl_cons, ih _ hlt'.2
        (by rw [reserveModule, pmmReserveRegion_totalBlocks]; exact hc),
      reserveModule, bitmapTest_pmmReserveRegion hlt'.1, ← or_assoc]
    simp only [List.mem_cons, exists_eq_or_imp]
    refine or_congr_left ?_
    constructor
    · intro h
      rcases h with h | h
      · exact Or.inr h
      · exact Or.inl ⟨h.1, h.2.1⟩
    · intro h
      rcases h with h | h
      · exact Or.inr ⟨h.1, h.2, hc⟩
      · exact Or.inl h

theorem bitmapTest_reserveKernel (im : Image) (s : Pmm) {c : Nat} (hc : c < s.totalBlocks) :
    bitmapTest (reserveKernel im s) c = true ↔
      (c < 256 ∨ (im.kernelStart / 4096 ≤ c ∧ c < im.kernelStart / 4096 +
        (((im.kernelEnd + bitmapSize s.totalBlocks) % 2 ^ 32 + 2 ^ 32 - im.kernelStart) % 2 ^ 32
          + 4095) % 2 ^ 32 / 4096)) ∨ bitmapTest s c = true := by
  have hks : im.kernelStart < 2 ^ 32 := by
    rw [im.start_eq]
    omega
  unfold reserveKernel
  rw [bitmapTest_pmmReserveRegion hks, bitmapTest_pmmReserveRegion (by omega),
    pmmReserveRegion_totalBlocks, ← or_assoc]
  refine or_congr_left ?_
  omega

/-- A tracked block of the all-reserved bitmap ends up free exactly when some
type-1 entry's 32-bit image covers it and it is not reserved again. -/
theorem initAll_free_iff (im : Image) (es : List MmapEntry) {mods : List (Nat × Nat)}
    (hmods : ∀ md ∈ mods, md.1 < 2 ^ 32) (s : Pmm) {c : Nat} (hc : c < s.totalBlocks)
    (hset : bitmapTest s c = true) :
    bitmapTest (initAll im es mods s) c = false ↔
      (∃ e ∈ es, Image32 e c) ∧ ¬Kept im s.totalBlocks mods c := by
  have htot := foldl_freeEntry_totalBlocks es s
  unfold initAll Kept
  rw [← Bool.not_eq_true, bitmapTest_foldl_reserveModule mods _ hmods
      (by
        show c < (pmmReserveRegion _ _ (pmmReserveRegion _ _ _)).totalBlocks
        rw [pmmReserveRegion_totalBlocks, pmmReserveRegion_totalBlocks, htot]
        exact hc),
    bitmapTest_reserveKernel im _ (by rw [htot]; exact hc), htot,
    bitmapTest_foldl_freeEntry es s hc]
  constructor
  · intro h
    rw [not_or, not_or] at h
    obtain ⟨hm, hk, hf⟩ := h
    refine ⟨?_, fun hkept => ?_⟩
    · by_contra hnone
      exact hf ⟨fun e he hi => hnone ⟨e, he, hi⟩, hset⟩
    · rcases hkept with h1 | h2 | h3
      · exact hk (Or.inl h1)
      · exact hk (Or.inr h2)
      · exact hm h3
  · intro h
    obtain ⟨⟨e, he, hi⟩, hkept⟩ := h
    rw [not_or, not_or]
    exact ⟨fun hm => hkept (Or.inr (Or.inr hm)),
      fun hk => hkept (hk.elim Or.inl fun h2 => Or.inr (Or.inl h2)), fun hf => hf.1 e he hi⟩

theorem modsOf_lt {m : Mem} {mbiAddr : Nat} : ∀ md ∈ modsOf m mbiAddr,
    md.1 < 2 ^ 32 ∧ md.2 < 2 ^ 32 := by
  intro md hmd
  obtain ⟨i, -, hi⟩ := List.mem_map.mp hmd
  rw [← hi]
  exact ⟨rd32_lt _ _, rd32_lt _ _⟩

/-- The state `pmm_init` leaves, and which of its tracked blocks are free. -/
theorem pmmInit_free {im : Image} {m : Mem} {mbiAddr : Nat} {entries : List MmapEntry}
    (h : BootInfo m mbiAddr entries) (hp : Placed im m mbiAddr (trackedBlocks entries))
    (fuel : Nat) (hfe : entries.length < fuel) (hfm : modsCount m mbiAddr < fuel) :
    ∃ b, pmmInit im fuel mbiAddr m = some b ∧ b.pmm.totalBlocks = trackedBlocks entries ∧
      ∀ c < trackedBlocks entries, (bitmapTest b.pmm c = false ↔
        (∃ e ∈ entries, Image32 e c) ∧ ¬Kept im (trackedBlocks entries) (modsOf m mbiAddr) c) := by
  have htot : (bootAll im m (ramEnd entries)).pmm.totalBlocks = trackedBlocks entries :=
    bootAll_totalBlocks im m entries
  refine ⟨_, pmmInit_eq h hp fuel hfe hfm, ?_, fun c hc => ?_⟩
  · rw [Boot.pmm_via]
    unfold initAll reserveKernel
    rw [foldl_reserveModule_totalBlocks, pmmReserveRegion_totalBlocks,
      pmmReserveRegion_totalBlocks, foldl_freeEntry_totalBlocks, htot]
  · rw [Boot.pmm_via, ← htot]
    refine initAll_free_iff im entries (fun md hmd => (modsOf_lt md hmd).1) _ (by rw [htot]; exact hc)
      (bootAll_test im m _ ?_)
    have hcap : capRam (ramEnd entries) / 4096 = trackedBlocks entries := htot
    omega

end MyOS
