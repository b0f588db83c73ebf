import MyOS.Vmm.Mmu

/-!
# `vmm_init` builds exactly the identity map

`vmmInit_spec` says what `vmm_init` leaves if it returns. This file says that
it does return, and how many frames it costs: the directory and one table for
each started group of 1024 blocks, taken out of the RAM that is being mapped
while the loop runs.

`mapRam` is the loop as the C has it, with the 32-bit counter `addr` and the
32-bit product `total_ram` as the bound; fuel stands for the iterations the
loop may take. `pmm_init` caps the RAM at `0xFFFFF000` bytes, so neither the
product nor the last increment wraps (`addrAfter_toNat`), and the loop is the
one over block numbers (`mapRam_eq`). `IdentityInv` counts the frames along
it: slot `i` has a table as soon as block `1024 * i` was mapped.
-/

namespace MyOS

open Lib Lib.Mem Lib.Paging

/-- The rest of a loop after one iteration, unless that halted. -/
def continueLoop (rest : Machine → Option (Except Panic Machine)) :
    Except Panic Machine → Option (Except Panic Machine)
  | .ok k => rest k
  | .error e => some (.error e)

/-- `for (uint32_t addr = 0; addr < total_ram; addr += PMM_BLOCK_SIZE)`, from
`addr` on. `none`: the loop has not ended after `fuel` iterations. -/
def mapRam (totalRam : UInt32) : Nat → UInt32 → Machine → Option (Except Panic Machine)
  | 0, addr, k => if addr < totalRam then none else some (.ok k)
  | fuel + 1, addr, k =>
    if addr < totalRam then
      continueLoop (mapRam totalRam fuel (addr + 4096))
        (vmmMapPage addr.toNat addr.toNat (flagPresent ||| flagWrite ||| flagUser) k)
    else some (.ok k)

/-- `total_blocks * PMM_BLOCK_SIZE`. -/
def totalRam (s : Pmm) : UInt32 := UInt32.ofNat (pmmGetTotalBlocks s) * 4096

/-- `vmm_init` with its loop as written. -/
def vmmInitLoop (fuel : Nat) (k : Machine) : Option (Except Panic Machine) :=
  let pd := (pmmAllocBlock k.pmm).1
  if pd = 0 then some (.error .pageDirectory)
  else
    let k₁ := { k with
      pmm := (pmmAllocBlock k.pmm).2
      currentPageDirectory := pd
      mem := k.mem.memset pd 0 4096 }
    (mapRam (totalRam k₁.pmm) fuel 0 k₁).map fun r =>
      r.map fun k₂ => { k₂ with cr3 := k₂.currentPageDirectory }

/-! ## The counters do not wrap -/

/-- The counter after `n` iterations. -/
def addrAfter : Nat → UInt32
  | 0 => 0
  | n + 1 => addrAfter n + 4096

theorem addrAfter_toNat : ∀ {n : Nat}, n < 2 ^ 20 → (addrAfter n).toNat = n * 4096 := by
  intro n
  induction n with
  | zero =>
    intro _
    rfl
  | succ n ih =>
    intro hn
    show (addrAfter n + 4096).toNat = _
    rw [UInt32.toNat_add, ih (by omega)]
    show (n * 4096 + 4096) % 2 ^ 32 = _
    omega

theorem totalRam_toNat (s : Pmm) : (totalRam s).toNat = s.totalBlocks * 4096 := by
  have hlt := s.total_lt
  unfold totalRam pmmGetTotalBlocks
  rw [UInt32.toNat_mul, UInt32.toNat_ofNat_of_lt' (by show _ < 2 ^ 32; omega)]
  show s.totalBlocks * 4096 % 2 ^ 32 = _
  omega

theorem addrAfter_lt_iff {s : Pmm} {n : Nat} (hn : n < 2 ^ 20) :
    addrAfter n < totalRam s ↔ n < s.totalBlocks := by
  rw [UInt32.lt_iff_toNat_lt, addrAfter_toNat hn, totalRam_toNat]
  omega

/-- A halt ends the loop over block numbers, too. -/
theorem identityMap_error {k : Machine} {e : Panic} {n : Nat} (h : identityMap n k = .error e) :
    ∀ r, identityMap (n + r) k = .error e := by
  intro r
  induction r with
  | zero => exact h
  | succ r ih =>
    show (identityMap (n + r) k).bind _ = _
    rw [ih]
    exact error_bind _ _

/-- The loop as written, from its `n`-th iteration on, is the loop over block
numbers. -/
theorem mapRam_eq {s : Pmm} {k₀ : Machine} : ∀ (r : Nat) {n fuel : Nat} {k : Machine},
    n + r = s.totalBlocks → r ≤ fuel → identityMap n k₀ = .ok k →
    mapRam (totalRam s) fuel (addrAfter n) k = some (identityMap s.totalBlocks k₀) := by
  intro r
  induction r with
  | zero =>
    intro n fuel k hn _ hk
    have hlt := s.total_lt
    have hend : ¬addrAfter n < totalRam s := by
      rw [addrAfter_lt_iff (by omega)]
      omega
    have hstop : mapRam (totalRam s) fuel (addrAfter n) k = some (.ok k) := by
      cases fuel with
      | zero => rw [mapRam, if_neg hend]
      | succ fuel => rw [mapRam, if_neg hend]
    rw [hstop, ← hn, Nat.add_zero, hk]
  | succ r ih =>
    intro n fuel k hn hfuel hk
    obtain ⟨fuel, rfl⟩ : ∃ m, fuel = m + 1 := Nat.exists_eq_succ_of_ne_zero (by omega)
    have hlt := s.total_lt
    have hin : addrAfter n < totalRam s := (addrAfter_lt_iff (by omega)).mpr (by omega)
    have hnext : vmmMapPage (addrAfter n).toNat (addrAfter n).toNat
        (flagPresent ||| flagWrite ||| flagUser) k = identityMap (n + 1) k₀ := by
      rw [addrAfter_toNat (by omega)]
      show _ = (identityMap n k₀).bind _
      rw [hk, ok_bind]
    rw [mapRam, if_pos hin, hnext]
    cases hstep : identityMap (n + 1) k₀ with
    | ok k' =>
      have hrest := ih (n := n + 1) (by omega) (by omega : r ≤ fuel) hstep
      rw [addrAfter] at hrest
      rw [continueLoop, hrest]
    | error e =>
      have herr := identityMap_error hstep r
      rw [show n + 1 + r = s.totalBlocks by omega] at herr
      rw [continueLoop, herr]

/-- The loop of `vmm_init` ends within one iteration a block. -/
theorem vmmInitLoop_eq {k : Machine} {fuel : Nat} (hfuel : k.pmm.totalBlocks ≤ fuel) :
    vmmInitLoop fuel k = some (vmmInit k) := by
  have htot : (pmmAllocBlock k.pmm).2.totalBlocks = k.pmm.totalBlocks := pmmAllocBlock_totalBlocks _
  unfold vmmInitLoop vmmInit
  by_cases hnull : (pmmAllocBlock k.pmm).1 = 0
  · rw [if_pos hnull, if_pos hnull]
  · rw [if_neg hnull, if_neg hnull]
    dsimp only
    have hfuel' : (pmmAllocBlock k.pmm).2.totalBlocks ≤ fuel := htot ▸ hfuel
    have hstart : identityMap 0 { k with
      pmm := (pmmAllocBlock k.pmm).2
      currentPageDirectory := (pmmAllocBlock k.pmm).1
      mem := k.mem.memset (pmmAllocBlock k.pmm).1 0 4096 } = .ok _ := rfl
    have hloop := mapRam_eq (s := (pmmAllocBlock k.pmm).2) _ (Nat.zero_add _) hfuel' hstart
    rw [addrAfter] at hloop
    rw [hloop]
    rfl

/-! ## One table for each group of 1024 blocks -/

/-- The tables that map the first `n` blocks. -/
def tablesFor (n : Nat) : Nat := (n + 1023) / 1024

/-- The first `n` blocks are mapped. -/
structure IdentityInv (s₀ : Pmm) (dir n : Nat) (k : Machine) : Prop where
  inv : PagedInv dir (identityUpTo n) ⟨k, []⟩
  slots : ∀ i < 1024, Present (pde k.mem dir i) ↔ i * 1024 < n
  flags : ∀ i < 1024, Present (pde k.mem dir i) → pde k.mem dir i % 4096 = 7
  taken : ∃ l, Taken s₀ l k.pmm ∧ l.length = 1 + tablesFor n

section Counting

variable {s₀ : Pmm} {dir n : Nat} {k : Machine}

theorem pdIndex_block (n : Nat) : pdIndex (n * 4096) = n / 1024 := by
  rw [pdIndex_eq]
  omega

/-- One iteration: a table is taken exactly at the first block of a group. -/
theorem IdentityInv.mapped {ts : List Nat} {k' : Machine} (h : IdentityInv s₀ dir n k)
    (hn : n < 2 ^ 20) (hm : Mapped dir (n * 4096) (n * 4096 + 7) ts k k') :
    IdentityInv s₀ dir (n + 1) k' := by
  have hslot : n / 1024 < 1024 := by omega
  have hold : Present (pde k.mem dir (n / 1024)) ↔ n / 1024 * 1024 < n := h.slots _ hslot
  refine ⟨?_, fun i hi => ?_, fun i hi hp => ?_, ?_⟩
  · have hinv := h.inv.mapped hm
    rw [Nat.mul_div_cancel _ (by omega), update_identityUpTo] at hinv
    exact hinv
  · by_cases hne : i = n / 1024
    · have hp := hm.slot_present (by omega)
      rw [pdIndex_block] at hp
      rw [hne]
      exact ⟨fun _ => by omega, fun _ => hp⟩
    · rw [hm.keep i hi (Or.inl (by rw [pdIndex_block]; exact hne)), h.slots i hi]
      omega
  · rcases hm.slot_cases hi hp with ⟨hpold, heq⟩ | ⟨-, -, t, -, heq⟩
    · rw [heq]
      exact h.flags i hi hpold
    · rw [heq]
      omega
  · obtain ⟨l, hl, hlen⟩ := h.taken
    refine ⟨ts ++ l, hl.trans hm.taken, ?_⟩
    rw [List.length_append, hlen]
    unfold tablesFor
    by_cases hfirst : n / 1024 * 1024 < n
    · rw [hm.present (by rw [pdIndex_block]; exact hold.mpr hfirst), List.length_nil]
      omega
    · obtain ⟨t, rfl⟩ := hm.absent (by rw [pdIndex_block, hold]; exact hfirst)
      rw [List.length_singleton]
      omega

/-- With a frame left for the table of the group, the iteration does not
halt. -/
theorem IdentityInv.step (h : IdentityInv s₀ dir n k) (hn : n < 2 ^ 20)
    (hzero : bitmapTest s₀ 0 = true) (hfree : 1 + tablesFor (n + 1) ≤ freeCount s₀) :
    ∃ k', vmmMapPage (n * 4096) (n * 4096) (flagPresent ||| flagWrite ||| flagUser) k = .ok k' ∧
      IdentityInv s₀ dir (n + 1) k' := by
  have hcur : k.currentPageDirectory = dir := h.inv.cur
  have hok : DirOk k k.currentPageDirectory := by
    rw [hcur]
    exact h.inv.dirOk
  have hflags : n * 4096 ||| (flagPresent ||| flagWrite ||| flagUser) = n * 4096 + 7 :=
    or_flags (by omega) (by decide)
  rcases vmmMapPage_cases (p := n * 4096) (v := n * 4096)
    (f := flagPresent ||| flagWrite ||| flagUser) hok (by omega) (by rw [hflags]; omega) with
    ⟨ts, k', hrun, hm⟩ | ⟨habs, hnull, -⟩
  · rw [hcur, hflags] at hm
    exact ⟨k', hrun, h.mapped hn hm⟩
  · -- no frame left, although the table of this group is not among those counted
    exfalso
    obtain ⟨l, hl, hlen⟩ := h.taken
    have hcount := hl.freeCount
    have hnone := (pmmAllocBlock_null ((hl.test 0).mpr (Or.inl hzero)) hnull).2
    rw [hcur, pdIndex_block, h.slots _ (by omega)] at habs
    unfold tablesFor at hlen hfree
    omega

/-- The whole loop. -/
theorem IdentityInv.run {k₀ : Machine} (h : IdentityInv s₀ dir 0 k₀)
    (hzero : bitmapTest s₀ 0 = true) : ∀ (n : Nat), n ≤ 2 ^ 20 →
    1 + tablesFor n ≤ freeCount s₀ → ∃ k, identityMap n k₀ = .ok k ∧ IdentityInv s₀ dir n k := by
  intro n
  induction n with
  | zero =>
    intro _ _
    exact ⟨k₀, rfl, h⟩
  | succ n ih =>
    intro hn hfree
    have hless : tablesFor n ≤ tablesFor (n + 1) := by
      unfold tablesFor
      omega
    obtain ⟨k, hk, hinv⟩ := ih (by omega) (by omega)
    obtain ⟨k', hk', hinv'⟩ := hinv.step (by omega) hzero hfree
    refine ⟨k', ?_, hinv'⟩
    show (identityMap n k₀).bind _ = _
    rw [hk, ok_bind, hk']

end Counting

/-- The directory right after it was cleared. -/
theorem identityInv_init {k : Machine} {b : Nat} {s' : Pmm} (ht : Taken k.pmm [b] s') :
    IdentityInv k.pmm (b * 4096) 0 { k with
      pmm := s'
      currentPageDirectory := b * 4096
      mem := k.mem.memset (b * 4096) 0 4096 } := by
  have hpde : ∀ i < 1024, ¬Present (pde (k.mem.memset (b * 4096) 0 4096) (b * 4096) i) := by
    intro i hi
    have hzero : pde (k.mem.memset (b * 4096) 0 4096) (b * 4096) i = 0 :=
      rd32_memset_zero _ (by omega)
    rw [hzero]
    exact not_present_zero
  refine ⟨pagedInv_init rfl (by omega) ?_ fun x hx => ?_, fun i hi => ?_, fun i hi hp => ?_,
    ⟨[b], ht, rfl⟩⟩
  · rw [Nat.mul_div_cancel _ (by omega)]
    exact ht.inUse_iff.mpr (Or.inr List.mem_cons_self)
  · exact if_pos ⟨by omega, by omega⟩
  · exact ⟨fun hp => absurd hp (hpde i hi), fun hlt => absurd hlt (Nat.not_lt_zero _)⟩
  · exact absurd hp (hpde i hi)

/-- With a frame for each table the loop does not halt. -/
theorem vmmInit_runs {k : Machine} (hzero : bitmapTest k.pmm 0 = true)
    (hfree : 1 + tablesFor k.pmm.totalBlocks ≤ freeCount k.pmm) :
    ∃ k₂ dir, vmmInit k = .ok { k₂ with cr3 := k₂.currentPageDirectory } ∧
      k₂.currentPageDirectory = dir ∧ IdentityInv k.pmm dir k.pmm.totalBlocks k₂ := by
  have hlt := k.pmm.total_lt
  have hnull : (pmmAllocBlock k.pmm).1 ≠ 0 := fun hnull => by
    have hnone := (pmmAllocBlock_null hzero hnull).2
    omega
  obtain ⟨b, -, -, haddr, ht⟩ := pmmAllocBlock_taken hnull
  obtain ⟨k₂, hrun, hinv⟩ := (identityInv_init ht).run hzero _ (by omega) hfree
  refine ⟨k₂, b * 4096, ?_, hinv.inv.cur, hinv⟩
  unfold vmmInit
  rw [if_neg hnull]
  dsimp only [pmmGetTotalBlocks]
  rw [pmmAllocBlock_totalBlocks, haddr, hrun, ok_map]

/-- **`vmm_init` returns, with the identity map.** With block 0 reserved and a
frame for the directory and for each table: the loop ends, within one
iteration a block and without a wrap of its counters; it takes exactly those
frames; every page below the end of RAM translates to itself with the flags
present, write and user in both entries; and no other page is present. -/
theorem vmmInit_exact {k : Machine} (hzero : bitmapTest k.pmm 0 = true)
    (hfree : 1 + tablesFor k.pmm.totalBlocks ≤ freeCount k.pmm) :
    (totalRam k.pmm).toNat = k.pmm.totalBlocks * 4096 ∧
    (∀ n ≤ k.pmm.totalBlocks, (addrAfter n).toNat = n * 4096) ∧
    ∃ k' l, (∀ fuel ≥ k.pmm.totalBlocks, vmmInitLoop fuel k = some (.ok k')) ∧
      k'.cr3 = k'.currentPageDirectory ∧ DirOk k' k'.cr3 ∧
      Taken k.pmm l k'.pmm ∧ l.length = 1 + tablesFor k.pmm.totalBlocks ∧
      (∀ v < k.pmm.totalBlocks * 4096, translate k'.mem k'.cr3 v = some v ∧
        lookup k'.mem k'.cr3 v = v / 4096 * 4096 + 7 ∧
        pde k'.mem k'.cr3 (pdIndex v) % 4096 = 7) ∧
      ∀ v < 2 ^ 32, k.pmm.totalBlocks * 4096 ≤ v → translate k'.mem k'.cr3 v = none := by
  have hlt := k.pmm.total_lt
  refine ⟨totalRam_toNat k.pmm, fun n hn => addrAfter_toNat (by omega), ?_⟩
  obtain ⟨k₂, dir, hreturn, hcur, hinv⟩ := vmmInit_runs hzero hfree
  obtain ⟨l, hl, hlen⟩ := hinv.taken
  refine ⟨{ k₂ with cr3 := k₂.currentPageDirectory }, l, fun fuel hfuel => ?_, rfl, ?_, hl, hlen,
    fun v hv => ?_, fun v hv hout => ?_⟩
  · rw [vmmInitLoop_eq hfuel, hreturn]
  · show DirOk { k₂ with cr3 := k₂.currentPageDirectory } k₂.currentPageDirectory
    rw [hcur]
    exact hinv.inv.dirOk
  · dsimp only
    have hlook : lookup k₂.mem k₂.currentPageDirectory v = v / 4096 * 4096 + 7 := by
      have hlook := hinv.inv.look v (by omega)
      unfold identityUpTo at hlook
      rw [if_pos (by omega)] at hlook
      rw [hcur]
      exact hlook
    have hslot := pdIndex_lt (v := v) (by omega)
    refine ⟨?_, hlook, ?_⟩
    · rw [translate_of_lookup hlook, Nat.div_add_mod']
    · rw [hcur]
      refine hinv.flags _ hslot ((hinv.slots _ hslot).mpr ?_)
      rw [pdIndex_eq]
      omega
  · dsimp only
    have hlook : lookup k₂.mem k₂.currentPageDirectory v = 0 := by
      have hlook := hinv.inv.look v hv
      unfold identityUpTo at hlook
      rw [if_neg (by omega)] at hlook
      rw [hcur]
      exact hlook
    unfold Paging.translate
    rw [hlook, if_neg not_present_zero]

/-- 300 blocks, the first 256 of them reserved: one table. -/
theorem vmmInit_exact_empty : ∃ k' l, (∀ fuel ≥ 300, vmmInitLoop fuel emptyMachine = some (.ok k')) ∧
    Taken emptyMachine.pmm l k'.pmm ∧ l.length = 2 ∧ translate k'.mem k'.cr3 0x5123 = some 0x5123 ∧
    translate k'.mem k'.cr3 0x12C000 = none := by
  obtain ⟨-, -, k', l, hrun, -, -, hl, hlen, hin, hout⟩ := vmmInit_exact (k := emptyMachine)
    (by decide) (by decide +kernel)
  exact ⟨k', l, hrun, hl, hlen, (hin 0x5123 (by decide)).1, hout 0x12C000 (by decide) (by decide)⟩

end MyOS
