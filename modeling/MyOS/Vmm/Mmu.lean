import MyOS.Lib.Outcome
import MyOS.Vmm.Refine

/-!
# Through the MMU: page faults, `memset` and `memcpy` at virtual addresses

The kernel writes a program's segments at their virtual addresses, with the
new directory in CR3. Every byte access goes through the active page tables;
an access to an absent page runs `page_fault_handler`, which maps a frame or
halts, and the instruction is executed again.

The specs say what a loop over virtual addresses does when every address is
mapped: with destinations outside the frames of the active directory, the
translations do not change under the writes, so the loop is the same loop at
the physical addresses (`vmemset_spec`, `vmemcpy_spec`, `vcopyOut_spec`).

Mirroring notes vs the C:
- The kernel's accesses are supervisor accesses with CR0.WP clear: only the
  present bits matter.
- If CR3 and `current_page_directory` differ, the handler maps a page in a
  directory the CPU does not use. The access then faults until the allocator
  is empty, so it ends in the handler's out-of-memory halt.
-/

namespace MyOS

open Lib Lib.Mem Lib.Paging

/-- The faulting address is CR2, `err` the error code the CPU pushes. -/
def pageFaultHandler (faultingAddress err : Nat) (k : Machine) : Except Panic Machine :=
  if err &&& 0x1 = 0 ∧ 0x1000 ≤ faultingAddress ∧
      ¬(err &&& 0x4 = 0 ∧ 0xC0000000 ≤ faultingAddress) then
    let physBlock := (pmmAllocBlock k.pmm).1
    if physBlock = 0 then .error .demandPaging
    else
      vmmMapPage physBlock (faultingAddress &&& 0xFFFFF000)
        (flagPresent ||| flagWrite ||| flagUser) { k with pmm := (pmmAllocBlock k.pmm).2 }
  else .error (.pageFault faultingAddress err)

/-- The instruction is executed again after the handler has returned. -/
def retry (k : Machine) : Option Nat → Except Panic (Nat × Machine)
  | some p => .ok (p, k)
  | none => .error .demandPaging

/-- A kernel access to `a` whose translation is known. Bit 1 of the error
code is set for a write. -/
def accessAt (write : Bool) (a : Nat) (k : Machine) : Option Nat → Except Panic (Nat × Machine)
  | some p => .ok (p, k)
  | none =>
    (pageFaultHandler a (if write then 0x2 else 0) k).bind fun k' =>
      retry k' (translate k'.mem k'.cr3 a)

/-- The physical address behind a kernel access to `a`, and the machine after
the faults it caused. -/
def access (write : Bool) (a : Nat) (k : Machine) : Except Panic (Nat × Machine) :=
  accessAt write a k (translate k.mem k.cr3 a)

def vread (a : Nat) (k : Machine) : Except Panic (UInt8 × Machine) :=
  (access false a k).map fun r => (r.2.mem r.1, r.2)

def vwrite (a : Nat) (b : UInt8) (k : Machine) : Except Panic Machine :=
  (access true a k).map fun r => { r.2 with mem := r.2.mem.write r.1 b }

/-- `memset` at a virtual address. -/
def vmemset (dest : Nat) (val : UInt8) : Nat → Machine → Except Panic Machine
  | 0, k => .ok k
  | n + 1, k => (vmemset dest val n k).bind (vwrite ((dest + n) % 2 ^ 32) val)

/-- `memcpy` between virtual addresses. -/
def vmemcpy (dest src : Nat) : Nat → Machine → Except Panic Machine
  | 0, k => .ok k
  | n + 1, k =>
    (vmemcpy dest src n k).bind fun k' =>
    (vread ((src + n) % 2 ^ 32) k').bind fun r => vwrite ((dest + n) % 2 ^ 32) r.1 r.2

/-- `memcpy` into a local variable of the kernel, which is not part of the
memory modelled: the variable's bytes are returned. -/
def vcopyOut (src : Nat) : Nat → Machine → Except Panic (Mem × Machine)
  | 0, k => .ok (fun _ => 0, k)
  | n + 1, k =>
    (vcopyOut src n k).bind fun r =>
    (vread ((src + n) % 2 ^ 32) r.2).map fun b => (r.1.write n b.1, b.2)

/-! ## One mapped byte -/

theorem access_mapped {k : Machine} {a p : Nat} (write : Bool)
    (h : translate k.mem k.cr3 a = some p) : access write a k = .ok (p, k) := by
  unfold access
  rw [h]
  rfl

theorem vread_mapped {k : Machine} {a p : Nat} (h : translate k.mem k.cr3 a = some p) :
    vread a k = .ok (k.mem p, k) := by
  unfold vread
  rw [access_mapped false h, ok_map]

theorem vwrite_mapped {k : Machine} {a p : Nat} (b : UInt8) (h : translate k.mem k.cr3 a = some p) :
    vwrite a b k = .ok { k with mem := k.mem.write p b } := by
  unfold vwrite
  rw [access_mapped true h, ok_map]

/-! ## Loops over mapped bytes

`d i` and `s i` are the physical addresses behind the virtual ones. -/

section Loops

variable {k : Machine} {n : Nat} {d s : Nat → Nat}

/-- Writes outside the directory's frames leave every translation as it was. -/
theorem translate_of_writes {m : Mem} (hdir : k.cr3 % 4096 = 0)
    (hd : ∀ i < n, ¬Frames k.mem k.cr3 (d i / 4096))
    (hm : ∀ x, (∀ i < n, x ≠ d i) → m x = k.mem x) {a : Nat} (ha : a < 2 ^ 32) :
    translate m k.cr3 a = translate k.mem k.cr3 a := by
  refine translate_congr ((backed_frames hdir).lookup_congr (fun x hx => hm x ?_) ha)
  intro i hi he
  exact hd i hi (he ▸ hx)

theorem vmemset_spec (val : UInt8) {dest : Nat} (hdir : k.cr3 % 4096 = 0)
    (hdest : ∀ i < n, translate k.mem k.cr3 ((dest + i) % 2 ^ 32) = some (d i))
    (hd : ∀ i < n, ¬Frames k.mem k.cr3 (d i / 4096)) :
    ∃ m, vmemset dest val n k = .ok { k with mem := m } ∧
      (∀ i < n, m (d i) = val) ∧ ∀ x, (∀ i < n, x ≠ d i) → m x = k.mem x := by
  induction n with
  | zero => exact ⟨k.mem, rfl, fun i hi => absurd hi (Nat.not_lt_zero i), fun _ _ => rfl⟩
  | succ n ih =>
    obtain ⟨m, hrun, hval, hrest⟩ :=
      ih (fun i hi => hdest i (by omega)) (fun i hi => hd i (by omega))
    have htr : translate m k.cr3 ((dest + n) % 2 ^ 32) = some (d n) := by
      rw [translate_of_writes hdir (fun i hi => hd i (by omega)) hrest (Nat.mod_lt _ (by omega))]
      exact hdest n (by omega)
    refine ⟨m.write (d n) val, ?_, fun i hi => ?_, fun x hx => ?_⟩
    · unfold vmemset
      rw [hrun, ok_bind, vwrite_mapped (k := { k with mem := m }) val htr]
    · by_cases he : d i = d n
      · rw [he, write_self]
      · have hin : i < n := by
          rcases Nat.lt_succ_iff_lt_or_eq.mp hi with h | h
          · exact h
          · exact absurd (by rw [h]) he
        rw [write_ne _ _ he, hval i hin]
    · rw [write_ne _ _ (hx n (by omega))]
      exact hrest x fun i hi => hx i (by omega)

theorem vmemcpy_spec {dest src : Nat} (hdir : k.cr3 % 4096 = 0)
    (hdest : ∀ i < n, translate k.mem k.cr3 ((dest + i) % 2 ^ 32) = some (d i))
    (hsrc : ∀ i < n, translate k.mem k.cr3 ((src + i) % 2 ^ 32) = some (s i))
    (hd : ∀ i < n, ¬Frames k.mem k.cr3 (d i / 4096))
    (hinj : ∀ i < n, ∀ j < n, d i = d j → i = j) (hne : ∀ i < n, ∀ j < n, d i ≠ s j) :
    ∃ m, vmemcpy dest src n k = .ok { k with mem := m } ∧
      (∀ i < n, m (d i) = k.mem (s i)) ∧ ∀ x, (∀ i < n, x ≠ d i) → m x = k.mem x := by
  induction n with
  | zero => exact ⟨k.mem, rfl, fun i hi => absurd hi (Nat.not_lt_zero i), fun _ _ => rfl⟩
  | succ n ih =>
    obtain ⟨m, hrun, hval, hrest⟩ := ih (fun i hi => hdest i (by omega))
      (fun i hi => hsrc i (by omega)) (fun i hi => hd i (by omega))
      (fun i hi j hj => hinj i (by omega) j (by omega))
      (fun i hi j hj => hne i (by omega) j (by omega))
    have htr : ∀ {a}, a < 2 ^ 32 → translate m k.cr3 a = translate k.mem k.cr3 a := fun ha =>
      translate_of_writes hdir (fun i hi => hd i (by omega)) hrest ha
    have hread : vread ((src + n) % 2 ^ 32) { k with mem := m } = .ok (m (s n), { k with mem := m }) :=
      vread_mapped (k := { k with mem := m })
        ((htr (Nat.mod_lt _ (by omega))).trans (hsrc n (by omega)))
    -- the byte read was not written by an earlier iteration
    have hbyte : m (s n) = k.mem (s n) :=
      hrest _ fun i hi => (hne i (by omega) n (by omega)).symm
    refine ⟨m.write (d n) (k.mem (s n)), ?_, fun i hi => ?_, fun x hx => ?_⟩
    · unfold vmemcpy
      rw [hrun, ok_bind, hread, ok_bind, hbyte, vwrite_mapped (k := { k with mem := m }) _
        ((htr (Nat.mod_lt _ (by omega))).trans (hdest n (by omega)))]
    · rcases Nat.lt_succ_iff_lt_or_eq.mp hi with hin | hin
      · rw [write_ne _ _ fun he => absurd (hinj i hi n (by omega) he) (by omega), hval i hin]
      · rw [hin, write_self]
    · rw [write_ne _ _ (hx n (by omega))]
      exact hrest x fun i hi => hx i (by omega)

theorem vcopyOut_spec {src : Nat}
    (hsrc : ∀ i < n, translate k.mem k.cr3 ((src + i) % 2 ^ 32) = some (s i)) :
    ∃ buf, vcopyOut src n k = .ok (buf, k) ∧ (∀ i < n, buf i = k.mem (s i)) ∧
      ∀ i, n ≤ i → buf i = 0 := by
  induction n with
  | zero => exact ⟨fun _ => 0, rfl, fun i hi => absurd hi (Nat.not_lt_zero i), fun _ _ => rfl⟩
  | succ n ih =>
    obtain ⟨buf, hrun, hval, hout⟩ := ih fun i hi => hsrc i (by omega)
    refine ⟨buf.write n (k.mem (s n)), ?_, fun i hi => ?_, fun i hi => ?_⟩
    · unfold vcopyOut
      rw [hrun, ok_bind, vread_mapped (hsrc n (by omega)), ok_map]
    · rcases Nat.lt_succ_iff_lt_or_eq.mp hi with hin | hin
      · rw [write_ne _ _ (by omega), hval i hin]
      · rw [hin, write_self]
    · rw [write_ne _ _ (by omega)]
      exact hout i (by omega)

end Loops

/-! ## `vmm_init` -/

/-- `for (addr = 0; addr < total_ram; addr += PMM_BLOCK_SIZE)`, the first `n`
iterations. `total_ram` is at most `0xFFFFF000`, so `addr` does not wrap. -/
def identityMap : Nat → Machine → Except Panic Machine
  | 0, k => .ok k
  | n + 1, k =>
    (identityMap n k).bind
      (vmmMapPage (n * 4096) (n * 4096) (flagPresent ||| flagWrite ||| flagUser))

def vmmInit (k : Machine) : Except Panic Machine :=
  let pd := (pmmAllocBlock k.pmm).1
  if pd = 0 then .error .pageDirectory
  else
    let k₁ := { k with
      pmm := (pmmAllocBlock k.pmm).2
      currentPageDirectory := pd
      mem := k.mem.memset pd 0 4096 }
    (identityMap (pmmGetTotalBlocks k₁.pmm) k₁).map fun k₂ =>
      { k₂ with cr3 := k₂.currentPageDirectory }

/-- The abstract map after `n` iterations. -/
def identityUpTo (n page : Nat) : Nat := if page < n then page * 4096 + 7 else 0

theorem update_identityUpTo (n : Nat) :
    Function.update (identityUpTo n) n (n * 4096 + 7) = identityUpTo (n + 1) := by
  funext p
  unfold identityUpTo
  by_cases hp : p = n
  · rw [hp, Function.update_self, if_pos (Nat.lt_succ_self n)]
  · rw [Function.update_of_ne hp]
    by_cases hlt : p < n
    · rw [if_pos hlt, if_pos (by omega)]
    · rw [if_neg hlt, if_neg (by omega)]

/-- The directory and its tables were made out of blocks free in `s₀`, and
memory differs from `m₀` only in such blocks. -/
structure FreshDir (s₀ : Pmm) (m₀ : Mem) (dir : Nat) (k : Machine) : Prop where
  taken : ∃ l, Taken s₀ l k.pmm
  frames : ∀ b, Frames k.mem dir b → IsFree s₀ b
  mem : ∀ x, ¬IsFree s₀ (x / 4096) → k.mem x = m₀ x

theorem FreshDir.mapped {s₀ : Pmm} {m₀ : Mem} {dir v e : Nat} {ts : List Nat} {k k' : Machine}
    (h : FreshDir s₀ m₀ dir k) (hv : v < 2 ^ 32) (hm : Mapped dir v e ts k k') :
    FreshDir s₀ m₀ dir k' := by
  obtain ⟨l, hl⟩ := h.taken
  have hts : ∀ t ∈ ts, IsFree s₀ t := fun t ht => (hl.isFree (hm.taken.mem_isFree ht)).1
  have hframes : ∀ b, Frames k'.mem dir b → IsFree s₀ b := by
    intro b hb
    rcases hb with rfl | ⟨i, hi, hp, rfl⟩
    · exact h.frames _ (Or.inl rfl)
    · rcases hm.slot_cases hi hp with ⟨hold, heq⟩ | ⟨-, -, t, ht, heq⟩
      · rw [heq]
        exact h.frames _ (Or.inr ⟨i, hi, hold, rfl⟩)
      · rw [heq, frame_entry]
        exact hts t ht
  refine ⟨⟨ts ++ l, hl.trans hm.taken⟩, hframes, fun x hx => ?_⟩
  rw [hm.frame x]
  · exact h.mem x hx
  · exact fun ht => hx (hts (x / 4096) ht)
  · exact fun heq => hx (h.frames (x / 4096) (Or.inl heq))
  · exact fun heq => hx (hframes (x / 4096) (Or.inr
      ⟨pdIndex v, pdIndex_lt hv, hm.slot_present hv, heq.symm⟩))

/-- What the loop leaves: the identity map, made out of free blocks. -/
theorem identityMap_inv {s₀ : Pmm} {m₀ : Mem} {dir : Nat} : ∀ (n : Nat) {k k' : Machine}, n ≤ 2 ^ 20 →
    PagedInv dir (identityUpTo 0) ⟨k, []⟩ → FreshDir s₀ m₀ dir k → identityMap n k = .ok k' →
    PagedInv dir (identityUpTo n) ⟨k', []⟩ ∧ FreshDir s₀ m₀ dir k' := by
  intro n
  induction n with
  | zero =>
    intro k k' _ h hfresh hrun
    cases hrun
    exact ⟨h, hfresh⟩
  | succ n ih =>
    intro k k' hn h hfresh hrun
    unfold identityMap at hrun
    obtain ⟨k₁, hprev, hrun⟩ := bind_eq_ok hrun
    obtain ⟨h₁, hfresh₁⟩ := ih (by omega) h hfresh hprev
    have hcur : k₁.currentPageDirectory = dir := h₁.cur
    have hflags : n * 4096 ||| (flagPresent ||| flagWrite ||| flagUser) = n * 4096 + 7 :=
      or_flags (by omega) (by decide)
    have hok : DirOk k₁ k₁.currentPageDirectory := by
      rw [hcur]
      exact h₁.dirOk
    have hlt : n * 4096 + 7 < 2 ^ 32 := by omega
    have hv : n * 4096 < 2 ^ 32 := Nat.lt_of_le_of_lt (Nat.le_add_right _ 7) hlt
    rcases vmmMapPage_cases (p := n * 4096) (f := flagPresent ||| flagWrite ||| flagUser) hok hv
      (by rw [hflags]; exact hlt) with ⟨ts, k₂, hmap, hm⟩ | ⟨-, -, herr⟩
    · rw [hmap] at hrun
      cases hrun
      rw [hcur, hflags] at hm
      have h₂ := h₁.mapped hm
      rw [Nat.mul_div_cancel _ (by omega), update_identityUpTo] at h₂
      exact ⟨h₂, hfresh₁.mapped hv hm⟩
    · rw [herr] at hrun
      exact absurd hrun (by simp)

/-- **`vmm_init`.** If it returns, the directory it made is active, sound,
and identity-maps exactly the tracked blocks; the blocks taken were free, and
only free blocks changed. -/
theorem vmmInit_spec {k k' : Machine} (h : vmmInit k = .ok k') :
    k'.cr3 = k'.currentPageDirectory ∧ DirOk k' k'.currentPageDirectory ∧
    (∀ v < 2 ^ 32, lookup k'.mem k'.currentPageDirectory v
      = identityUpTo k.pmm.totalBlocks (v / 4096)) ∧
    FreshDir k.pmm k.mem k'.currentPageDirectory k' := by
  unfold vmmInit at h
  by_cases hnull : (pmmAllocBlock k.pmm).1 = 0
  · rw [if_pos hnull] at h
    exact absurd h (by simp)
  rw [if_neg hnull] at h
  obtain ⟨b, -, hfree, haddr, ht⟩ := pmmAllocBlock_taken hnull
  have hb : b * 4096 / 4096 = b := Nat.mul_div_cancel _ (by omega)
  have htot : (pmmAllocBlock k.pmm).2.totalBlocks = k.pmm.totalBlocks := pmmAllocBlock_totalBlocks _
  rw [haddr] at h
  have hinit : PagedInv (b * 4096) (identityUpTo 0) ⟨{ k with
      pmm := (pmmAllocBlock k.pmm).2
      currentPageDirectory := b * 4096
      mem := k.mem.memset (b * 4096) 0 4096 }, []⟩ := by
    refine pagedInv_init rfl (by omega) ?_ fun x hx => ?_
    · rw [hb]
      exact ht.inUse_iff.mpr (Or.inr List.mem_cons_self)
    · rw [hb] at hx
      exact if_pos ⟨by omega, by omega⟩
  have hfresh : FreshDir k.pmm k.mem (b * 4096) { k with
      pmm := (pmmAllocBlock k.pmm).2
      currentPageDirectory := b * 4096
      mem := k.mem.memset (b * 4096) 0 4096 } := by
    refine ⟨⟨[b], ht⟩, fun c hc => ?_, fun x hx => ?_⟩
    · rcases hc with rfl | ⟨i, hi, hp, -⟩
      · rw [hb]
        exact hfree
      · -- a zeroed directory has no tables
        have hzero : pde (k.mem.memset (b * 4096) 0 4096) (b * 4096) i = 0 :=
          rd32_memset_zero _ (by omega)
        have hp' : Present (pde (k.mem.memset (b * 4096) 0 4096) (b * 4096) i) := hp
        rw [hzero] at hp'
        exact absurd hp' not_present_zero
    · refine memset_of_outside _ _ ?_
      have hne : x / 4096 ≠ b := fun heq => hx (heq ▸ hfree)
      omega
  obtain ⟨k₂, hmap, rfl⟩ := map_eq_ok h
  have htl := k.pmm.total_lt
  obtain ⟨h₂, hfresh₂⟩ := identityMap_inv _ (by
    show (pmmAllocBlock k.pmm).2.totalBlocks ≤ 2 ^ 20
    omega) hinit hfresh hmap
  have hcur : k₂.currentPageDirectory = b * 4096 := h₂.cur
  refine ⟨rfl, ?_, ?_, ?_⟩
  · show DirOk { k₂ with cr3 := k₂.currentPageDirectory } k₂.currentPageDirectory
    rw [hcur]
    exact h₂.dirOk
  · intro v hv
    show lookup k₂.mem k₂.currentPageDirectory v = _
    rw [hcur, ← htot]
    exact h₂.look v hv
  · show FreshDir k.pmm k.mem k₂.currentPageDirectory _
    rw [hcur]
    exact ⟨hfresh₂.taken, hfresh₂.frames, hfresh₂.mem⟩

end MyOS
