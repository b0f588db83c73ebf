import MyOS.Vmm.Mmu

/-!
# Which page faults are served

The README gives demand paging a zone: a non-present fault at an address in
`[0x1000, 0xC0000000)` is served with a fresh frame, and everything else is a
kernel panic; its example of a panic is user code at `0xD0000000`. The test in
`page_fault_handler` applies the upper bound to supervisor accesses only, so a
user access at or above `0xC0000000` is served like any other.

`FaultContract` is the README's sentence about one fault, and
`pageFaultHandler_zone_iff` says for which faults the code keeps it. A panic
is a state, too: what is claimed of it is that the page tables and the
allocator are as they were, so the handler is taken here with the machine it
leaves behind when it halts (`pageFaultHalt`, tied to `pageFaultHandler` by
`pageFaultHalt_outcome`).
-/

namespace MyOS

open Lib Lib.Mem Lib.Paging

/-! ## The machine behind a halt -/

/-- A call that leaves the machine `k` if it halts. -/
def haltAt (k : Machine) : Except Panic Machine → Machine × Option Panic
  | .ok k' => (k', none)
  | .error e => (k, some e)

/-- `vmm_map_page`; its only halt is right behind the allocation of the
table. -/
def vmmMapPageHalt (physAddr virtAddr flags : Nat) (k : Machine) : Machine × Option Panic :=
  haltAt { k with pmm := (pmmAllocBlock k.pmm).2 } (vmmMapPage physAddr virtAddr flags k)

/-- The faults `page_fault_handler` serves. -/
def Admitted (faultingAddress err : Nat) : Prop :=
  err &&& 0x1 = 0 ∧ 0x1000 ≤ faultingAddress ∧ ¬(err &&& 0x4 = 0 ∧ 0xC0000000 ≤ faultingAddress)

instance (a err : Nat) : Decidable (Admitted a err) := inferInstanceAs (Decidable (_ ∧ _))

/-- `page_fault_handler`: the machine it leaves, and the panic if it halts. -/
def pageFaultHalt (faultingAddress err : Nat) (k : Machine) : Machine × Option Panic :=
  if Admitted faultingAddress err then
    let physBlock := (pmmAllocBlock k.pmm).1
    let k₁ := { k with pmm := (pmmAllocBlock k.pmm).2 }
    if physBlock = 0 then (k₁, some .demandPaging)
    else
      vmmMapPageHalt physBlock (faultingAddress &&& 0xFFFFF000)
        (flagPresent ||| flagWrite ||| flagUser) k₁
  else (k, some (.pageFault faultingAddress err))

/-- The outcome alone: the machine is lost in a panic. -/
def outcome : Machine × Option Panic → Except Panic Machine
  | (k, none) => .ok k
  | (_, some e) => .error e

theorem outcome_haltAt (k : Machine) : ∀ r : Except Panic Machine, outcome (haltAt k r) = r
  | .ok _ => rfl
  | .error _ => rfl

theorem pageFaultHalt_outcome (a err : Nat) (k : Machine) :
    outcome (pageFaultHalt a err k) = pageFaultHandler a err k := by
  unfold pageFaultHalt pageFaultHandler
  by_cases hadm : Admitted a err
  · rw [if_pos hadm]
    unfold Admitted at hadm
    rw [if_pos hadm]
    by_cases hnull : (pmmAllocBlock k.pmm).1 = 0
    · rw [if_pos hnull, if_pos hnull]
      rfl
    · rw [if_neg hnull, if_neg hnull]
      exact outcome_haltAt _ _
  · rw [if_neg hadm]
    unfold Admitted at hadm
    rw [if_neg hadm]
    rfl

/-! ## The documented contract -/

/-- A non-present fault in the zone of the README. -/
def InZone (a err : Nat) : Prop := err &&& 0x1 = 0 ∧ 0x1000 ≤ a ∧ a < 0xC0000000

/-- A frame for the page, and one for its table if there is none. -/
def EnoughFrames (a : Nat) (k : Machine) : Prop :=
  (if Present (pde k.mem k.currentPageDirectory (pdIndex a)) then 1 else 2) ≤ freeCount k.pmm

/-- The page of `a` was mapped to a frame that was free, and nothing else
was. -/
def PageServed (a : Nat) (k k' : Machine) : Prop :=
  k'.currentPageDirectory = k.currentPageDirectory ∧
  (∃ f, IsFree k.pmm f ∧ InUse k'.pmm f ∧ ¬Frames k'.mem k'.currentPageDirectory f ∧
    lookup k'.mem k'.currentPageDirectory a = f * 4096 + 7 ∧
    translate k'.mem k'.currentPageDirectory a = some (f * 4096 + a % 4096)) ∧
  ∀ w < 2 ^ 32, w / 4096 ≠ a / 4096 →
    lookup k'.mem k'.currentPageDirectory w = lookup k.mem k.currentPageDirectory w

/-- What the README says of one fault. -/
def FaultContract (a err : Nat) (k : Machine) : Prop :=
  (InZone a err → ∃ k', pageFaultHalt a err k = (k', none) ∧ PageServed a k k') ∧
  (¬InZone a err → ∃ k' e, pageFaultHalt a err k = (k', some e) ∧
    k'.mem = k.mem ∧ k'.pmm = k.pmm)

/-! ## What the handler does -/

section Faults

variable {a err : Nat} {k : Machine}

theorem pageFaultHalt_refused (h : ¬Admitted a err) :
    pageFaultHalt a err k = (k, some (.pageFault a err)) := if_neg h

/-- The faults admitted outside the zone. -/
theorem admitted_iff :
    Admitted a err ↔ InZone a err ∨ (err &&& 0x1 = 0 ∧ err &&& 0x4 ≠ 0 ∧ 0xC0000000 ≤ a) := by
  unfold Admitted InZone
  constructor
  · rintro ⟨hnp, hlo, hhi⟩
    by_cases ha : 0xC0000000 ≤ a
    · exact Or.inr ⟨hnp, fun hsup => hhi ⟨hsup, ha⟩, ha⟩
    · exact Or.inl ⟨hnp, hlo, by omega⟩
  · rintro (⟨hnp, hlo, hhi⟩ | ⟨hnp, huser, hhi⟩)
    · exact ⟨hnp, hlo, fun h => absurd h.2 (by omega)⟩
    · exact ⟨hnp, by omega, fun h => huser h.1⟩

/-- Block 0 is handed out as `NULL`. -/
theorem pageFaultHalt_null (hadm : Admitted a err) (hzero : bitmapTest k.pmm 0 = false)
    (hpos : 0 < k.pmm.totalBlocks) :
    pageFaultHalt a err k = ({ k with pmm := markUsed k.pmm 0 }, some .demandPaging) := by
  have halloc : pmmAllocBlock k.pmm = (0, markUsed k.pmm 0) := by
    rcases pmmAllocBlock_cases k.pmm with ⟨b, -, -, hbelow, he⟩ | ⟨hall, -⟩
    · have hb : b = 0 := by
        by_contra hne
        have hset := hbelow 0 (by omega)
        rw [hzero] at hset
        exact Bool.false_ne_true hset
      rw [he, hb]
    · rw [hall 0 hpos] at hzero
      exact absurd hzero (by simp)
  unfold pageFaultHalt
  rw [if_pos hadm, halloc]
  rfl

/-- With the frames it needs, an admitted fault is served. -/
theorem pageFaultHalt_served (ha : a < 2 ^ 32) (hok : DirOk k k.currentPageDirectory)
    (hfree : EnoughFrames a k) (hzero : bitmapTest k.pmm 0 = true) (hadm : Admitted a err) :
    ∃ k', pageFaultHalt a err k = (k', none) ∧ PageServed a k k' := by
  unfold EnoughFrames at hfree
  have hnull : (pmmAllocBlock k.pmm).1 ≠ 0 := fun hnull => by
    have hnone := (pmmAllocBlock_null hzero hnull).2
    split at hfree <;> omega
  obtain ⟨f, -, hf, haddr, ht⟩ := pmmAllocBlock_taken hnull
  have hfused : InUse (pmmAllocBlock k.pmm).2 f := ht.inUse_iff.mpr (Or.inr List.mem_cons_self)
  have hok₁ : Sep (InUse (pmmAllocBlock k.pmm).2) k.mem k.currentPageDirectory :=
    Sep.mono hok fun b hb => ht.inUse_iff.mpr (Or.inl hb)
  have hflags : f * 4096 ||| (flagPresent ||| flagWrite ||| flagUser) = f * 4096 + 7 :=
    or_flags (by omega) (by decide)
  have hpage : (a &&& 0xFFFFF000) / 4096 = a / 4096 := by
    rw [and_mask ha]
    omega
  have hslot : pdIndex (a &&& 0xFFFFF000) = pdIndex a := by
    rw [and_mask ha, pdIndex_eq, pdIndex_eq]
    omega
  have hv : a &&& 0xFFFFF000 < 2 ^ 32 := by
    rw [and_mask ha]
    omega
  have hrun : pageFaultHalt a err k = vmmMapPageHalt (f * 4096) (a &&& 0xFFFFF000)
      (flagPresent ||| flagWrite ||| flagUser) { k with pmm := (pmmAllocBlock k.pmm).2 } := by
    unfold pageFaultHalt
    rw [if_pos hadm, if_neg hnull, haddr]
  have hlt := hf.lt
  rcases vmmMapPage_cases (k := { k with pmm := (pmmAllocBlock k.pmm).2 })
    (p := f * 4096) (f := flagPresent ||| flagWrite ||| flagUser) hok₁ hv
    (by rw [hflags]; omega) with ⟨ts, k', hmap, hm⟩ | ⟨habs, hnull₂, -⟩
  · rw [hflags] at hm
    have hcur : k'.currentPageDirectory = k.currentPageDirectory := by
      rw [hm.regs]
    have hlook : lookup k'.mem k.currentPageDirectory a = f * 4096 + 7 := by
      rw [hm.lookup_eq a ha, if_pos hpage.symm]
    refine ⟨k', ?_, hcur, ⟨f, hf, ?_, ?_, ?_, ?_⟩, ?_⟩
    · rw [hrun, vmmMapPageHalt, hmap, haltAt]
    · exact hm.taken.inUse_iff.mpr (Or.inl hfused)
    · -- the frame was taken before the table, and no old table was free
      rw [hcur]
      rintro (heq | ⟨i, hi, hp, heq⟩)
      · exact hf.not_inUse (heq ▸ hok.dir_used)
      · rcases hm.slot_cases hi hp with ⟨hold, hsame⟩ | ⟨-, -, t, hmem, hnew⟩
        · rw [hsame] at heq
          exact hf.not_inUse (heq ▸ hok.table_used i hi hold)
        · rw [hnew, frame_entry] at heq
          exact (hm.taken.mem_isFree hmem).not_inUse (heq ▸ hfused)
    · rw [hcur]
      exact hlook
    · rw [hcur]
      exact translate_of_lookup hlook
    · intro w hw hne
      rw [hcur, hm.lookup_eq w hw, if_neg (fun heq => hne (heq.trans hpage))]
  · exfalso
    have hnone := (pmmAllocBlock_null ((ht.test 0).mpr (Or.inl hzero)) hnull₂).2
    have hcount := ht.freeCount
    rw [hslot] at habs
    rw [if_neg habs] at hfree
    rw [hnone, List.length_singleton] at hcount
    omega

/-- **Demand paging serves its zone, exactly when.** With a sound directory
and the frames it needs: the handler does what the README says of a fault if
and only if the fault is not a non-present user access at or above
`0xC0000000`, and, if the fault is in the zone, block 0 is not free (its
address is the `NULL` of the allocator). -/
theorem pageFaultHandler_zone_iff (a err : Nat) (k : Machine) (ha : a < 2 ^ 32)
    (hok : DirOk k k.currentPageDirectory) (hfree : EnoughFrames a k) :
    FaultContract a err k ↔
      ¬(err &&& 0x1 = 0 ∧ err &&& 0x4 ≠ 0 ∧ 0xC0000000 ≤ a) ∧
      (InZone a err → bitmapTest k.pmm 0 = true) := by
  have hpos : 0 < k.pmm.totalBlocks := Nat.lt_of_le_of_lt (Nat.zero_le _) hok.dir_used.1
  constructor
  · rintro ⟨hin, hout⟩
    refine ⟨fun hhigh => ?_, fun hzone => ?_⟩
    · have hadm := admitted_iff.mpr (Or.inr hhigh)
      obtain ⟨k', e, hrun, -, hpmm⟩ := hout fun hzone => absurd hzone.2.2 (by omega)
      cases hzero : bitmapTest k.pmm 0 with
      | true =>
        obtain ⟨k'', hserved, -⟩ := pageFaultHalt_served ha hok hfree hzero hadm
        rw [hserved] at hrun
        exact absurd (congrArg Prod.snd hrun) (by simp)
      | false =>
        -- the panic is there, but block 0 was taken for it
        rw [pageFaultHalt_null hadm hzero hpos] at hrun
        have hset := (bitmapTest_markUsed k.pmm 0 0).mpr (Or.inl rfl)
        have hsame : markUsed k.pmm 0 = k'.pmm := congrArg (fun r => r.1.pmm) hrun
        rw [hsame, hpmm, hzero] at hset
        exact Bool.false_ne_true hset
    · by_contra hzero
      obtain ⟨k', hrun, -⟩ := hin hzone
      rw [pageFaultHalt_null (admitted_iff.mpr (Or.inl hzone)) (by simpa using hzero) hpos] at hrun
      exact absurd (congrArg Prod.snd hrun) (by simp)
  · rintro ⟨hlow, hzero⟩
    refine ⟨fun hzone => ?_, fun hzone => ?_⟩
    · exact pageFaultHalt_served ha hok hfree (hzero hzone) (admitted_iff.mpr (Or.inl hzone))
    · have hadm : ¬Admitted a err := fun hadm => (admitted_iff.mp hadm).elim hzone hlow
      exact ⟨k, _, pageFaultHalt_refused hadm, rfl, rfl⟩

end Faults

theorem emptyMachine_enough (a : Nat) : EnoughFrames a emptyMachine := by
  unfold EnoughFrames
  rw [if_neg (emptyMachine_absent _ _)]
  decide +kernel

/-- A user write at `0x400000`. -/
theorem pageFaultHandler_zone_low : FaultContract 0x400000 6 emptyMachine :=
  (pageFaultHandler_zone_iff 0x400000 6 emptyMachine (by decide) emptyMachine_ok
    (emptyMachine_enough _)).mpr ⟨by decide, fun _ => by decide⟩

/-- The README's example of a panic, a user write at `0xD0000000`, is
served. -/
theorem pageFaultHandler_serves_high : DirOk emptyMachine emptyMachine.currentPageDirectory ∧
    EnoughFrames 0xD0000000 emptyMachine ∧ bitmapTest emptyMachine.pmm 0 = true ∧
    ¬FaultContract 0xD0000000 6 emptyMachine := by
  refine ⟨emptyMachine_ok, emptyMachine_enough _, by decide, fun hcontract => ?_⟩
  obtain ⟨k', e, hrun, -, -⟩ := hcontract.2 fun hzone => absurd hzone.2.2 (by decide)
  obtain ⟨k'', hserved, -⟩ := pageFaultHalt_served (by decide) emptyMachine_ok
    (emptyMachine_enough _) (by decide) (show Admitted 0xD0000000 6 by decide)
  rw [hserved] at hrun
  exact absurd (congrArg Prod.snd hrun) (by simp)

end MyOS
