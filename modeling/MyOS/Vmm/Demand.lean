import MyOS.Lib.Lazy
import MyOS.Vmm.Tlb

/-!
# Demand paging gives every directory a flat memory of its own

A zone is a set of slots that cover no RAM and have no table when a directory
is made. Programs use its addresses all the same: the first access to a page
faults, `page_fault_handler` takes whatever block the allocator has and maps it.
What a program sees is a flat memory, private to its directory, with some
initial contents: `demandRun_flat`, for any interleaving of accesses under any
of the directories with the kernel's own calls.

The invariant (`ZoneInv`) is about frames. In these slots no two directories
have a table in common, and no block backs two pages, is a table, or is free.
A fault takes a free block, so it keeps this, and it changes no byte of a block
that backs a page (`ZoneInv.mapped`). The existence of the initial memory is
the library's: each page gets its contents when it is first touched.

Mirroring notes vs the C:
- The run is the one of the machine that walks, so the one with a TLB too.
- RAM is identity-mapped for everyone and stays so. What the accesses outside
  the zone, and the kernel's own, may do is part of the contract (`ZoneLegal`):
  they stay off the tables and off the blocks that back pages of the zone.
- A new directory is copied from one that has no table in the zone. `elf_load`
  copies the active directory, the kernel's in `kernel_main`. This one has
  tables for RAM and, from the tests of the boot, in the slots of `0x40000000`,
  `0xA0000000` and `0xD0000000`; these slots are shared by all directories, and
  the zone is to leave them out.
-/

namespace MyOS

open Lib Lib.Mem Lib.Paging

/-- The slot of `a` is one of the zone's. -/
def Zone (Z : Nat → Bool) (a : Nat) : Prop := Z (pdIndex a)

instance (Z : Nat → Bool) (a : Nat) : Decidable (Zone Z a) := inferInstanceAs (Decidable (_ = true))

/-- Block `b` is behind a page of the zone. -/
def Backs (Z : Nat → Bool) (m : Mem) (dirs : List Nat) (b : Nat) : Prop :=
  ∃ d ∈ dirs, ∃ w < 2 ^ 32, Zone Z w ∧ Present (lookup m d w) ∧ lookup m d w / 4096 = b

structure ZoneInv (Z : Nat → Bool) (s : Directories) : Prop where
  family : Family (InUse s.k.pmm) s.k.mem s.dirs
  cur : s.k.currentPageDirectory ∈ s.dirs
  cr3 : s.k.cr3 = s.k.currentPageDirectory
  own : ∀ d ∈ s.dirs, ∀ d' ∈ s.dirs, d ≠ d' → ∀ i < 1024, Z i →
    ¬SharesTable s.k.mem d d' i
  data : ∀ b, Backs Z s.k.mem s.dirs b → IsData s.dirs s.k b
  inj : ∀ d ∈ s.dirs, ∀ d' ∈ s.dirs, ∀ w < 2 ^ 32, ∀ w' < 2 ^ 32, Zone Z w → Zone Z w' →
    Present (lookup s.k.mem d w) → Present (lookup s.k.mem d' w') →
    lookup s.k.mem d w / 4096 = lookup s.k.mem d' w' / 4096 → d = d' ∧ w / 4096 = w' / 4096

/-- The byte at an address of the zone under a directory, if its page is
mapped. -/
def zoneView (Z : Nat → Bool) (s : Directories) (c : Nat × Nat) : Option UInt8 :=
  if c.1 ∈ s.dirs ∧ c.2 < 2 ^ 32 ∧ Zone Z c.2 then
    (Paging.translate s.k.mem c.1 c.2).map s.k.mem
  else none

/-- What a call does to the zone. -/
def cellOp (Z : Nat → Bool) (s : Directories) : TlbOp → CellOp (Nat × Nat) UInt8
  | .load _ a _ _ => if Zone Z a then .load (s.k.currentPageDirectory, a) else .silent
  | .store _ a b _ _ => if Zone Z a then .store (s.k.currentPageDirectory, a) b else .silent
  | _ => .silent

/-- The byte a load from the zone returned. -/
def zoneOut (Z : Nat → Bool) (out : Option UInt8) : TlbOp → Option UInt8
  | .load _ a _ _ => if Zone Z a then out else none
  | _ => none

/-- The run, with its accesses to the zone. -/
def demandRun (Z : Nat → Bool) (s : Directories) : List TlbOp →
    Except Panic (Directories × List (CellOp (Nat × Nat) UInt8 × Option UInt8))
  | [] => .ok (s, [])
  | op :: ops =>
    (op.walked s).bind fun r =>
      (demandRun Z r.1 ops).map fun q => (q.1, (cellOp Z s op, zoneOut Z r.2 op) :: q.2)

/-- The contract of a call, with `ram` blocks of RAM. -/
def ZoneLegal (ram : Nat) (Z : Nat → Bool) (s : Directories) : TlbOp → Prop
  | .cpu _ => True
  | .map p v f _ _ => (ram * 4096 ≤ v ∧ v < 2 ^ 32) ∧ p ||| f < 2 ^ 32 ∧
    (Zone Z v → p % 4096 = 0 ∧ f = 7 ∧ IsData s.dirs s.k (p / 4096) ∧
      ¬Backs Z s.k.mem s.dirs (p / 4096) ∧
      ¬Present (lookup s.k.mem s.k.currentPageDirectory v))
  | .unmap v _ => (ram * 4096 ≤ v ∧ v < 2 ^ 32) ∧ ¬Zone Z v
  | .load _ a _ _ => a < 2 ^ 32
  | .store user a _ _ _ => a < 2 ^ 32 ∧ (¬Zone Z a → ∀ p k', cpuAccess user true a s.k = .ok (p, k') →
    ¬FamilyFrame k'.mem s.dirs (p / 4096) ∧ ¬Backs Z k'.mem s.dirs (p / 4096))
  | .setDirectory d => d ∈ s.dirs
  | .newDirectory => ∀ i < 1024, Z i →
    ¬Present (pde s.k.mem s.k.currentPageDirectory i)
  | .freeDirectory _ => False
  | .alloc => True
  | .free ptr => ¬FamilyFrame s.k.mem s.dirs (ptr / 4096) ∧ ¬Backs Z s.k.mem s.dirs (ptr / 4096)

/-- The states are those of the machine that walks. -/
theorem demandRun_walked (Z : Nat → Bool) : ∀ (ops : List TlbOp) (s : Directories),
    (demandRun Z s ops).map Prod.fst = (walkedRun s ops).map Prod.fst := by
  intro ops
  induction ops with
  | nil =>
    intro s
    rfl
  | cons op ops ih =>
    intro s
    unfold demandRun walkedRun
    cases op.walked s with
    | error e => rfl
    | ok r =>
      have hrest := ih r.1
      rw [ok_bind, ok_bind]
      cases hd : demandRun Z r.1 ops with
      | error e =>
        cases hw : walkedRun r.1 ops with
        | error e' =>
          rw [hd, hw] at hrest
          exact hrest
        | ok q =>
          rw [hd, hw] at hrest
          exact absurd hrest (by simp [error_map, ok_map])
      | ok q =>
        cases hw : walkedRun r.1 ops with
        | error e' =>
          rw [hd, hw] at hrest
          exact absurd hrest (by simp [error_map, ok_map])
        | ok q' =>
          rw [hd, hw] at hrest
          exact hrest

section

variable {Z : Nat → Bool} {s s' : Directories}

theorem zoneView_eq_some {c : Nat × Nat} {v : UInt8} (h : zoneView Z s c = some v) :
    c.1 ∈ s.dirs ∧ c.2 < 2 ^ 32 ∧ Zone Z c.2 ∧ Present (lookup s.k.mem c.1 c.2) ∧
    s.k.mem (lookup s.k.mem c.1 c.2 / 4096 * 4096 + c.2 % 4096) = v := by
  unfold zoneView at h
  split at h
  next hc =>
    obtain ⟨p, htr, hv⟩ := Option.map_eq_some_iff.mp h
    obtain ⟨hp, heq⟩ := translate_some htr
    refine ⟨hc.1, hc.2.1, hc.2.2, hp, ?_⟩
    rw [← heq]
    exact hv
  next => exact absurd h (by simp)

theorem zoneView_of_present {d a : Nat} (hd : d ∈ s.dirs) (ha : a < 2 ^ 32) (hz : Zone Z a)
    (hp : Present (lookup s.k.mem d a)) :
    zoneView Z s (d, a) = some (s.k.mem (lookup s.k.mem d a / 4096 * 4096 + a % 4096)) := by
  unfold zoneView
  rw [if_pos ⟨hd, ha, hz⟩, translate_of_present hp]
  rfl

/-- The block of a byte of a page. -/
theorem page_byte_block (e a : Nat) : (e / 4096 * 4096 + a % 4096) / 4096 = e / 4096 := by omega

theorem backs_of_present {d a : Nat} (hd : d ∈ s.dirs) (ha : a < 2 ^ 32) (hz : Zone Z a)
    (hp : Present (lookup s.k.mem d a)) :
    Backs Z s.k.mem s.dirs ((lookup s.k.mem d a / 4096 * 4096 + a % 4096) / 4096) :=
  ⟨d, hd, a, ha, hz, hp, (page_byte_block _ _).symm⟩

/-- Pages stay mapped where they were, and their blocks keep their bytes. -/
theorem keeps_of_lookups (hs : ∀ d ∈ s.dirs, d ∈ s'.dirs)
    (hlook : ∀ d ∈ s.dirs, ∀ w < 2 ^ 32, Zone Z w → Present (lookup s.k.mem d w) →
      lookup s'.k.mem d w = lookup s.k.mem d w)
    (hmem : ∀ x, Backs Z s.k.mem s.dirs (x / 4096) → s'.k.mem x = s.k.mem x) :
    KeepsOff (zoneView Z) (fun _ => False) s s' := by
  intro c v _ hv
  obtain ⟨hd, ha, hz, hp, hbyte⟩ := zoneView_eq_some hv
  have heq := hlook c.1 hd c.2 ha hz hp
  have hview := zoneView_of_present (s := s') (hs c.1 hd) ha hz (by rw [heq]; exact hp)
  rw [heq, hmem _ (backs_of_present hd ha hz hp), hbyte] at hview
  exact hview

/-- Backed blocks in a memory with the same lookups. -/
theorem backs_congr {m : Mem} {dirs : List Nat}
    (hlook : ∀ d ∈ dirs, ∀ w < 2 ^ 32, lookup m d w = lookup s.k.mem d w) {b : Nat} :
    Backs Z m dirs b ↔ Backs Z s.k.mem dirs b := by
  refine exists_congr fun d => and_congr_right fun hd => exists_congr fun w =>
    and_congr_right fun hw => ?_
  rw [hlook d hd w hw]

/-- Memory changed off the tables, and the blocks of tables and pages are still
in use. -/
theorem ZoneInv.congr (h : ZoneInv Z s) {k' : Machine} (hcur : k'.currentPageDirectory ∈ s.dirs)
    (hcr3 : k'.cr3 = k'.currentPageDirectory)
    (hm : ∀ x, FamilyFrame s.k.mem s.dirs (x / 4096) → k'.mem x = s.k.mem x)
    (hU : ∀ b, FamilyFrame s.k.mem s.dirs b ∨ Backs Z s.k.mem s.dirs b → InUse k'.pmm b) :
    ZoneInv Z { s with k := k' } := by
  have hpde := fun d hd i hi => h.family.pde_congr hm (d := d) (i := i) hd hi
  have hlook : ∀ d ∈ s.dirs, ∀ w < 2 ^ 32, lookup k'.mem d w = lookup s.k.mem d w :=
    fun d hd w hw => h.family.lookup_congr hm hd hw
  refine ⟨h.family.congr hm fun b hb => hU b (Or.inl hb), hcur, hcr3,
    fun d hd d' hd' hne i hi hz hsh => ?_, fun b hb => ?_, fun d hd d' hd' w hw w' hw' hz hz' => ?_⟩
  · unfold SharesTable at hsh
    rw [hpde d hd i hi, hpde d' hd' i hi] at hsh
    exact h.own d hd d' hd' hne i hi hz hsh
  · have hb' := (backs_congr hlook).mp hb
    refine ⟨hU b (Or.inr hb'), fun hf => (h.data b hb').2 ?_⟩
    exact (familyFrame_congr hpde).mp hf
  · show Present (lookup k'.mem d w) → Present (lookup k'.mem d' w') → _
    rw [hlook d hd w hw, hlook d' hd' w' hw']
    exact h.inj d hd d' hd' w hw w' hw' hz hz'

end

/-! ## A mapping -/

section Mapping

variable {Z : Nat → Bool} {s : Directories} {k' : Machine} {v e : Nat}
  {ts : List Nat}

/-- A mapping changes no byte of a block that holds data. -/
theorem IsData.mem_mapped {D : List Nat} {k : Machine} {d x : Nat} (h : IsData D k (x / 4096))
    (hd : d ∈ D) (hv : v < 2 ^ 32) (hm : Mapped d v e ts k k') : k'.mem x = k.mem x := by
  refine hm.frame x (fun ht => ?_) (fun heq => ?_) fun heq => ?_
  · exact (hm.taken.mem_isFree ht).not_inUse h.1
  · exact h.2 ⟨d, hd, Or.inl heq⟩
  · rcases hm.slot_table hv with ⟨hp, hsame⟩ | hfree
    · rw [hsame] at heq
      exact h.2 ⟨d, hd, Or.inr ⟨_, pdIndex_lt hv, hp, heq.symm⟩⟩
    · exact hfree.not_inUse (heq ▸ h.1)

/-- The lookups of the zone change at most at the page mapped, under the active
directory: no other one has its table. -/
theorem ZoneInv.lookup_mapped (h : ZoneInv Z s) (hv : v < 2 ^ 32)
    (hm : Mapped s.k.currentPageDirectory v e ts s.k k') {d w : Nat} (hd : d ∈ s.dirs)
    (hw : w < 2 ^ 32) (hz : Zone Z w) : lookup k'.mem d w = lookup s.k.mem d w ∨
    (d = s.k.currentPageDirectory ∧ w / 4096 = v / 4096 ∧ lookup k'.mem d w = e) := by
  rcases h.family.lookup_mapped h.cur hv hm hd hw with hsame | ⟨hpage, heq, hdir⟩
  · exact Or.inl hsame
  · refine Or.inr ⟨?_, hpage, heq⟩
    by_contra hne
    have hslot := (page_eq_iff.mp hpage).1
    exact h.own d hd _ h.cur hne _ (pdIndex_lt hv) (hslot ▸ hz) (hdir.resolve_left hne)

/-- No table of the zone becomes shared: a new one was free. -/
theorem ZoneInv.own_mapped (h : ZoneInv Z s) (hv : v < 2 ^ 32)
    (hm : Mapped s.k.currentPageDirectory v e ts s.k k') : ∀ d ∈ s.dirs, ∀ d' ∈ s.dirs, d ≠ d' →
    ∀ i < 1024, Z i → ¬SharesTable k'.mem d d' i := by
  intro d hd d' hd' hne i hi hz hsh
  obtain ⟨hp, hp', heq⟩ := hsh
  have htab := h.family.table_mapped h.cur hv hm hd hi hp
  have htab' := h.family.table_mapped h.cur hv hm hd' hi hp'
  rcases htab, htab' with ⟨⟨hold, hs⟩ | ⟨hc, hfree⟩, ⟨hold', hs'⟩ | ⟨hc', hfree'⟩⟩
  · rw [hs, hs'] at heq
    exact h.own d hd d' hd' hne i hi hz ⟨hold, hold', heq⟩
  · rw [← heq, hs] at hfree'
    exact hfree'.not_inUse ((h.family.backed d hd).table_used i hi hold)
  · rw [heq, hs'] at hfree
    exact hfree.not_inUse ((h.family.backed d' hd').table_used i hi hold')
  · exact hne (hc.trans hc'.symm)

/-- **A mapping** off the zone, or of a page of the zone that was absent, with a
block that holds data and backs no page. -/
theorem ZoneInv.mapped (h : ZoneInv Z s) (hv : v < 2 ^ 32)
    (hm : Mapped s.k.currentPageDirectory v e ts s.k k')
    (hnew : Zone Z v → IsData s.dirs s.k (e / 4096) ∧ ¬Backs Z s.k.mem s.dirs (e / 4096) ∧
      ¬Present (lookup s.k.mem s.k.currentPageDirectory v)) :
    ZoneInv Z { s with k := k' } ∧
      KeepsOff (zoneView Z) (fun _ => False) s { s with k := k' } := by
  obtain ⟨hcur, hcr3⟩ := hm.dirs_eq
  have hlook := fun {d w} hd hw hz => h.lookup_mapped hv hm (d := d) (w := w) hd hw hz
  -- the page mapped lies in the zone if a page of the zone sees it
  have hzone : ∀ {w}, Zone Z w → w / 4096 = v / 4096 → Zone Z v := by
    intro w hz hpage
    unfold Zone at hz ⊢
    rwa [(page_eq_iff.mp hpage).1] at hz
  have hdata : ∀ b, Backs Z s.k.mem s.dirs b → IsData s.dirs k' b :=
    fun b hb => (h.data b hb).mapped h.family h.cur hv hm
  refine ⟨⟨h.family.mapped h.cur hv hm, hcur ▸ h.cur, ?_, h.own_mapped hv hm, fun b hb => ?_,
    fun d hd d' hd' w hw w' hw' hz hz' hp hp' heq => ?_⟩, ?_⟩
  · show k'.cr3 = k'.currentPageDirectory
    rw [hcr3, hcur, h.cr3]
  · obtain ⟨d, hd, w, hw, hz, hp, hbeq⟩ := hb
    rcases hlook hd hw hz with hsame | ⟨-, hpage, heq⟩
    · refine hdata b ⟨d, hd, w, hw, hz, ?_, ?_⟩
      · rw [← hsame]
        exact hp
      · rw [← hsame]
        exact hbeq
    · have hbe : lookup k'.mem d w / 4096 = b := hbeq
      rw [← hbe, heq]
      exact (hnew (hzone hz hpage)).1.mapped h.family h.cur hv hm
  · have hq : Present (lookup k'.mem d w) := hp
    have hq' : Present (lookup k'.mem d' w') := hp'
    have hframe : lookup k'.mem d w / 4096 = lookup k'.mem d' w' / 4096 := heq
    rcases hlook hd hw hz, hlook hd' hw' hz' with
      ⟨hsame | ⟨hc, hpage, he⟩, hsame' | ⟨hc', hpage', he'⟩⟩
    · rw [hsame] at hq hframe
      rw [hsame'] at hq' hframe
      exact h.inj d hd d' hd' w hw w' hw' hz hz' hq hq' hframe
    · rw [hsame] at hq hframe
      rw [he'] at hframe
      exact absurd ⟨d, hd, w, hw, hz, hq, hframe⟩ (hnew (hzone hz' hpage')).2.1
    · rw [hsame'] at hq' hframe
      rw [he] at hframe
      exact absurd ⟨d', hd', w', hw', hz', hq', hframe.symm⟩ (hnew (hzone hz hpage)).2.1
    · exact ⟨hc.trans hc'.symm, hpage.trans hpage'.symm⟩
  · refine keeps_of_lookups (fun _ hd => hd) (fun d hd w hw hz hp => ?_) fun x hx =>
      (h.data _ hx).mem_mapped h.cur hv hm
    rcases hlook hd hw hz with hsame | ⟨hc, hpage, -⟩
    · exact hsame
    · have habs := (hnew (hzone hz hpage)).2.2
      rw [← lookup_page hpage, ← hc] at habs
      exact absurd hp habs

end Mapping

/-! ## An access -/

section Access

variable {Z : Nat → Bool} {s : Directories} {k k' : Machine} {a : Nat}

/-- A fault that is served: a fresh block is mapped at the page. -/
theorem pageFaultHandler_mapped {err : Nat} (ha : a < 2 ^ 32) (hok : DirOk k k.currentPageDirectory)
    (hrun : pageFaultHandler a err k = .ok k') : err &&& 0x1 = 0 ∧
    ∃ b ts, Taken k.pmm [b] (pmmAllocBlock k.pmm).2 ∧
      Mapped k.currentPageDirectory (a / 4096 * 4096) (b * 4096 + 7) ts
        { k with pmm := (pmmAllocBlock k.pmm).2 } k' := by
  unfold pageFaultHandler at hrun
  split at hrun
  next hcond =>
    refine ⟨hcond.1, ?_⟩
    by_cases hnull : (pmmAllocBlock k.pmm).1 = 0
    · simp only [if_pos hnull] at hrun
      exact absurd hrun (by simp)
    simp only [if_neg hnull] at hrun
    obtain ⟨b, -, hfree, haddr, ht⟩ := pmmAllocBlock_taken hnull
    have hlt := hfree.lt
    have hflags : b * 4096 ||| (flagPresent ||| flagWrite ||| flagUser) = b * 4096 + 7 :=
      or_flags (by omega) (by decide)
    rw [haddr, and_mask ha] at hrun
    have hok' : DirOk { k with pmm := (pmmAllocBlock k.pmm).2 } k.currentPageDirectory :=
      hok.mono fun c hc => ht.inUse_iff.mpr (Or.inl hc)
    rcases vmmMapPage_cases (k := { k with pmm := (pmmAllocBlock k.pmm).2 })
      (v := a / 4096 * 4096) (p := b * 4096) (f := flagPresent ||| flagWrite ||| flagUser)
      hok' (by omega) (by rw [hflags]; omega) with ⟨ts, k'', hmap, hm⟩ | ⟨-, -, herr⟩
    · rw [hmap] at hrun
      cases hrun
      rw [hflags] at hm
      exact ⟨b, ts, ht, hm⟩
    · rw [herr] at hrun
      exact absurd hrun (by simp)
  next => exact absurd hrun (by simp)

/-- An access that goes through: the page was mapped, or the fault mapped a
fresh block at it. -/
theorem cpuAccess_cases {user write : Bool} {p : Nat} (ha : a < 2 ^ 32)
    (hok : DirOk k k.currentPageDirectory) (hcr3 : k.cr3 = k.currentPageDirectory)
    (h : cpuAccess user write a k = .ok (p, k')) :
    Present (lookup k'.mem k.currentPageDirectory a) ∧
    p = lookup k'.mem k.currentPageDirectory a / 4096 * 4096 + a % 4096 ∧
    (k' = k ∨ ∃ b ts, Taken k.pmm [b] (pmmAllocBlock k.pmm).2 ∧
      ¬Present (lookup k.mem k.currentPageDirectory a) ∧
      Mapped k.currentPageDirectory (a / 4096 * 4096) (b * 4096 + 7) ts
        { k with pmm := (pmmAllocBlock k.pmm).2 } k') := by
  unfold cpuAccess at h
  cases hfirst : permit user write a (entries k.mem k.cr3 a) with
  | ok q =>
    rw [hfirst] at h
    cases h
    obtain ⟨hp, heq⟩ := permit_ok hfirst
    simp only [entries, hcr3, base_eq (lookup_lt _ _ _)] at hp heq
    exact ⟨hp, heq, Or.inl rfl⟩
  | error err =>
    rw [hfirst] at h
    obtain ⟨k₁, hfault, hretry⟩ := bind_eq_ok h
    simp only at hretry
    obtain ⟨herr, b, ts, ht, hm⟩ := pageFaultHandler_mapped ha hok hfault
    have habs := permit_error hfirst herr
    cases hsecond : permit user write a (entries k₁.mem k₁.cr3 a) with
    | ok q =>
      rw [hsecond] at hretry
      cases hretry
      obtain ⟨hp, heq⟩ := permit_ok hsecond
      have hcr3' : k'.cr3 = k.currentPageDirectory := hm.dirs_eq.2.trans hcr3
      simp only [entries, hcr3', base_eq (lookup_lt _ _ _)] at hp heq
      simp only [entries, hcr3] at habs
      exact ⟨hp, heq, Or.inr ⟨b, ts, ht, habs, hm⟩⟩
    | error err' =>
      rw [hsecond] at hretry
      exact absurd hretry (by simp [resume])

/-- Values that are kept over two steps. -/
theorem keeps_trans {s₁ s₂ : Directories} {S : Nat × Nat → Prop}
    (h₁ : KeepsOff (zoneView Z) (fun _ => False) s s₁) (h₂ : KeepsOff (zoneView Z) S s₁ s₂) :
    KeepsOff (zoneView Z) S s s₂ :=
  fun c v hc hv => h₂ c v hc (h₁ c v not_false hv)

/-- Only the allocator changed: it took blocks. -/
theorem ZoneInv.alloc (h : ZoneInv Z s) :
    ZoneInv Z { s with k := { s.k with pmm := (pmmAllocBlock s.k.pmm).2 } } := by
  refine h.congr h.cur h.cr3 (fun _ _ => rfl) fun b hb => ?_
  have hused : InUse s.k.pmm b := hb.elim h.family.frame_used fun hb => (h.data b hb).1
  rcases (Taken.refl s.k.pmm).alloc with ⟨_, -, -, -, -, -, ht⟩ | ⟨-, hnone⟩
  · exact ht.inUse_iff.mpr (Or.inl hused)
  · show InUse (pmmAllocBlock s.k.pmm).2 b
    rw [hnone]
    exact hused

theorem keeps_pmm (s : Directories) (p : Pmm) :
    KeepsOff (zoneView Z) (fun _ => False) s { s with k := { s.k with pmm := p } } :=
  keeps_of_lookups (fun _ hd => hd) (fun _ _ _ _ _ _ => rfl) fun _ _ => rfl

/-- An access, with the fault it may cause. -/
theorem ZoneInv.access (h : ZoneInv Z s) (ha : a < 2 ^ 32) {user write : Bool} {p : Nat}
    (hrun : cpuAccess user write a s.k = .ok (p, k')) :
    ZoneInv Z { s with k := k' } ∧
    KeepsOff (zoneView Z) (fun _ => False) s { s with k := k' } ∧
    k'.currentPageDirectory = s.k.currentPageDirectory ∧
    Present (lookup k'.mem s.k.currentPageDirectory a) ∧
    p = lookup k'.mem s.k.currentPageDirectory a / 4096 * 4096 + a % 4096 := by
  obtain ⟨hp, heq, hk⟩ := cpuAccess_cases ha (h.family.sep h.cur) h.cr3 hrun
  rcases hk with rfl | ⟨b, ts, ht, habs, hm⟩
  · exact ⟨h, fun _ _ _ hv => hv, rfl, hp, heq⟩
  have hpage : a / 4096 * 4096 / 4096 = a / 4096 := by omega
  have hfree := ht.mem_isFree List.mem_cons_self
  have hnew : IsData s.dirs { s.k with pmm := (pmmAllocBlock s.k.pmm).2 } b ∧
      ¬Backs Z s.k.mem s.dirs b ∧
      ¬Present (lookup s.k.mem s.k.currentPageDirectory (a / 4096 * 4096)) := by
    refine ⟨isData_fresh h.family ht, fun hb => hfree.not_inUse (h.data b hb).1, ?_⟩
    rw [lookup_page hpage]
    exact habs
  have hmap := h.alloc.mapped (v := a / 4096 * 4096) (by omega) hm fun _ => by
    rw [frame_entry]
    exact hnew
  exact ⟨hmap.1, keeps_trans (keeps_pmm s _) hmap.2, hm.dirs_eq.1, hp, heq⟩

/-- A byte written to a page of the zone. -/
theorem ZoneInv.write (h : ZoneInv Z s) (ha : a < 2 ^ 32) (hz : Zone Z a) {p : Nat}
    (hp : Present (lookup s.k.mem s.k.currentPageDirectory a))
    (heq : p = lookup s.k.mem s.k.currentPageDirectory a / 4096 * 4096 + a % 4096) (b : UInt8) :
    ZoneInv Z { s with k := { s.k with mem := s.k.mem.write p b } } ∧
    zoneView Z { s with k := { s.k with mem := s.k.mem.write p b } }
      (s.k.currentPageDirectory, a) = some b ∧
    KeepsOff (zoneView Z) (fun c => c = (s.k.currentPageDirectory, a)) s
      { s with k := { s.k with mem := s.k.mem.write p b } } := by
  have hbacks : Backs Z s.k.mem s.dirs (p / 4096) := by
    rw [heq]
    exact backs_of_present h.cur ha hz hp
  have hdata := h.data _ hbacks
  have hoff : ∀ x, FamilyFrame s.k.mem s.dirs (x / 4096) → s.k.mem.write p b x = s.k.mem x :=
    fun x hx => write_ne _ _ fun he => hdata.2 (he ▸ hx)
  have hlook : ∀ d ∈ s.dirs, ∀ w < 2 ^ 32, lookup (s.k.mem.write p b) d w = lookup s.k.mem d w :=
    fun d hd w hw => h.family.lookup_congr hoff hd hw
  refine ⟨h.congr h.cur h.cr3 hoff fun c hc => hc.elim h.family.frame_used fun hc => (h.data c hc).1,
    ?_, fun c v hc hv => ?_⟩
  · have hself := hlook _ h.cur a ha
    rw [zoneView_of_present (s := { s with k := { s.k with mem := s.k.mem.write p b } })
      h.cur ha hz (by rw [hself]; exact hp)]
    show some (s.k.mem.write p b _) = some b
    rw [hself, ← heq, write_self]
  · obtain ⟨hd, hw, hzw, hpw, hbyte⟩ := zoneView_eq_some hv
    have hself := hlook _ hd c.2 hw
    rw [zoneView_of_present (s := { s with k := { s.k with mem := s.k.mem.write p b } })
      hd hw hzw (by rw [hself]; exact hpw)]
    show some (s.k.mem.write p b _) = some v
    rw [hself, write_ne _ _ fun he => hc ?_, hbyte]
    -- one byte is one address under one directory
    rw [heq] at he
    have hframe : lookup s.k.mem c.1 c.2 / 4096
        = lookup s.k.mem s.k.currentPageDirectory a / 4096 := by omega
    obtain ⟨hdir, hpage⟩ := h.inj c.1 hd _ h.cur c.2 hw a ha hzw hz hpw hp hframe
    have haddr : c.2 = a := by omega
    exact Prod.ext hdir haddr

/-- A byte written elsewhere, off the tables. -/
theorem ZoneInv.write_off (h : ZoneInv Z s) {p : Nat} (b : UInt8)
    (hfam : ¬FamilyFrame s.k.mem s.dirs (p / 4096)) (hbacks : ¬Backs Z s.k.mem s.dirs (p / 4096)) :
    ZoneInv Z { s with k := { s.k with mem := s.k.mem.write p b } } ∧
    KeepsOff (zoneView Z) (fun _ => False) s
      { s with k := { s.k with mem := s.k.mem.write p b } } := by
  have hoff : ∀ x, FamilyFrame s.k.mem s.dirs (x / 4096) → s.k.mem.write p b x = s.k.mem x :=
    fun x hx => write_ne _ _ fun he => hfam (he ▸ hx)
  refine ⟨h.congr h.cur h.cr3 hoff fun c hc => hc.elim h.family.frame_used fun hc => (h.data c hc).1,
    keeps_of_lookups (fun _ hd => hd) (fun d hd w hw _ _ => h.family.lookup_congr hoff hd hw)
      fun x hx => write_ne _ _ fun he => hbacks (he ▸ hx)⟩

/-- A new directory has no table in the zone. -/
theorem ZoneInv.copied (h : ZoneInv Z s)
    (habs : ∀ i < 1024, Z i → ¬Present (pde s.k.mem s.k.currentPageDirectory i)) :
    ZoneInv Z (TlbOp.copied s) ∧
    KeepsOff (zoneView Z) (fun _ => False) s (TlbOp.copied s) := by
  unfold TlbOp.copied
  by_cases hnull : (pmmAllocBlock s.k.pmm).1 = 0
  · simp only [if_pos hnull]
    exact ⟨h.alloc, keeps_pmm s _⟩
  simp only [if_neg hnull]
  obtain ⟨P, -, hfree, haddr, ht⟩ := pmmAllocBlock_taken hnull
  have hP := hfree.not_inUse
  have hused : ∀ {b}, InUse s.k.pmm b → InUse (pmmAllocBlock s.k.pmm).2 b :=
    fun hb => ht.inUse_iff.mpr (Or.inl hb)
  rw [haddr]
  have hoff : ∀ x, InUse s.k.pmm (x / 4096) →
      s.k.mem.memcpy (P * 4096) s.k.currentPageDirectory 4096 x = s.k.mem x :=
    fun x hx => memcpy_of_block_ne fun heq => hP (heq ▸ hx)
  have hagree := fun x hx => hoff x (h.family.frame_used (b := x / 4096) hx)
  have hpde := fun {d i} hd hi => h.family.pde_congr hagree (d := d) (i := i) hd hi
  have hlook := fun {d w} hd hw => h.family.lookup_congr hagree (d := d) (w := w) hd hw
  -- a page of the zone is one of an old directory
  have hnew : ∀ {w}, w < 2 ^ 32 → Zone Z w →
      ¬Present (lookup (s.k.mem.memcpy (P * 4096) s.k.currentPageDirectory 4096) (P * 4096) w) := by
    intro w hw hz hp
    rw [h.family.lookup_copy h.cur hP hw] at hp
    exact habs _ (pdIndex_lt hw) hz (pde_present_of_lookup hp)
  have hslot : ∀ {i}, i < 1024 → Z i →
      ¬Present (pde (s.k.mem.memcpy (P * 4096) s.k.currentPageDirectory 4096) (P * 4096) i) := by
    intro i hi hz
    rw [pde_memcpy_self hi]
    exact habs i hi hz
  refine ⟨⟨h.family.copy h.cur hP (fun b hb => hused hb) (ht.inUse_iff.mpr (Or.inr List.mem_cons_self)),
    List.mem_cons_of_mem _ h.cur, h.cr3, fun d hd d' hd' hne i hi hz hsh => ?_, fun b hb => ?_,
    fun d hd d' hd' w hw w' hw' hz hz' hp hp' heq => ?_⟩, ?_⟩
  · rcases List.mem_cons.mp hd with rfl | hd
    · exact hslot hi hz hsh.1
    rcases List.mem_cons.mp hd' with rfl | hd'
    · exact hslot hi hz hsh.2.1
    · unfold SharesTable at hsh
      simp only [hpde hd hi, hpde hd' hi] at hsh
      exact h.own d hd d' hd' hne i hi hz hsh
  · obtain ⟨d, hd, w, hw, hz, hp, hbeq⟩ := hb
    rcases List.mem_cons.mp hd with rfl | hd
    · exact absurd hp (hnew hw hz)
    have hp' : Present (lookup s.k.mem d w) := by
      rw [← hlook hd hw]
      exact hp
    have hbacks : Backs Z s.k.mem s.dirs b := by
      refine ⟨d, hd, w, hw, hz, hp', ?_⟩
      rw [← hlook hd hw]
      exact hbeq
    refine ⟨hused (h.data b hbacks).1, fun hf => ?_⟩
    obtain ⟨d', hd', hframe⟩ := hf
    rcases List.mem_cons.mp hd' with rfl | hd'
    · rcases hframe with rfl | ⟨i, hi, hpi, rfl⟩
      · rw [Nat.mul_div_cancel _ (by omega)] at hbacks
        exact hP (h.data P hbacks).1
      · rw [pde_memcpy_self hi] at hpi hbacks
        exact (h.data _ hbacks).2 ⟨_, h.cur, Or.inr ⟨i, hi, hpi, rfl⟩⟩
    · refine (h.data b hbacks).2 ⟨d', hd', ?_⟩
      rcases hframe with hdir | ⟨i, hi, hpi, hti⟩
      · exact Or.inl hdir
      · rw [hpde hd' hi] at hpi hti
        exact Or.inr ⟨i, hi, hpi, hti⟩
  · rcases List.mem_cons.mp hd with rfl | hd
    · exact absurd hp (hnew hw hz)
    rcases List.mem_cons.mp hd' with rfl | hd'
    · exact absurd hp' (hnew hw' hz')
    simp only [hlook hd hw, hlook hd' hw'] at hp hp' heq
    exact h.inj d hd d' hd' w hw w' hw' hz hz' hp hp' heq
  · exact keeps_of_lookups (fun _ hd => List.mem_cons_of_mem _ hd) (fun d hd w hw _ _ => hlook hd hw)
      fun x hx => hoff x (h.data _ hx).1

end Access

/-! ## Runs -/

section Runs

variable {ram : Nat} {Z : Nat → Bool} {s s' : Directories}

/-- One call keeps the invariant, and is faithful to the accesses it makes. -/
theorem ZoneInv.step (h : ZoneInv Z s) {op : TlbOp} (hl : ZoneLegal ram Z s op) {out : Option UInt8}
    (hrun : op.walked s = .ok (s', out)) :
    ZoneInv Z s' ∧ Faithful (zoneView Z) s s' (zoneOut Z out op) (cellOp Z s op) := by
  cases op with
  | cpu es =>
    cases hrun
    exact ⟨h, rfl, fun _ _ _ hv => hv⟩
  | map p v f mid post =>
    obtain ⟨⟨-, hv⟩, he, hnew⟩ := hl
    obtain ⟨k', hmap, heq⟩ := map_eq_ok hrun
    cases heq
    rcases vmmMapPage_cases (h.family.sep h.cur) hv he with ⟨ts, k'', hok, hm⟩ | ⟨-, -, herr⟩
    · rw [hok] at hmap
      cases hmap
      have hstep := h.mapped hv hm fun hz => by
        obtain ⟨hp, hf, hdata, hbacks, habs⟩ := hnew hz
        have hframe : (p ||| f) / 4096 = p / 4096 := by
          rw [or_flags hp (by omega), hf]
          omega
        rw [hframe]
        exact ⟨hdata, hbacks, habs⟩
      exact ⟨hstep.1, rfl, hstep.2⟩
    · rw [herr] at hmap
      exact absurd hmap (by simp)
  | unmap v post =>
    cases hrun
    obtain ⟨⟨-, hv⟩, hz⟩ := hl
    by_cases hp : Present (pde s.k.mem s.k.currentPageDirectory (pdIndex v))
    · have hstep := h.mapped hv (vmmUnmapPage_mapped (h.family.sep h.cur) hv hp)
        fun hzone => absurd hzone hz
      exact ⟨hstep.1, rfl, hstep.2⟩
    · have hsame : vmmUnmapPage v s.k = s.k := if_neg hp
      rw [hsame]
      exact ⟨h, rfl, fun _ _ _ hv => hv⟩
  | load user a mid post =>
    obtain ⟨⟨p, k'⟩, hacc, heq⟩ := map_eq_ok hrun
    cases heq
    obtain ⟨hinv, hkeeps, hcur, hp, hpe⟩ := h.access hl hacc
    refine ⟨hinv, ?_⟩
    simp only [cellOp, zoneOut]
    by_cases hz : Zone Z a
    · rw [if_pos hz, if_pos hz]
      refine ⟨⟨_, zoneView_of_present h.cur hl hz hp, ?_⟩, hkeeps⟩
      rw [hpe]
    · rw [if_neg hz, if_neg hz]
      exact ⟨rfl, hkeeps⟩
  | store user a b mid post =>
    obtain ⟨ha, hoff⟩ := hl
    obtain ⟨⟨p, k'⟩, hacc, heq⟩ := map_eq_ok hrun
    cases heq
    obtain ⟨hinv, hkeeps, hcur, hp, hpe⟩ := h.access ha hacc
    simp only [cellOp, zoneOut]
    by_cases hz : Zone Z a
    · rw [if_pos hz]
      rw [← hcur] at hp hpe ⊢
      obtain ⟨hinv', hview, hkeeps'⟩ := hinv.write ha hz hp hpe b
      exact ⟨hinv', hview, rfl, keeps_trans hkeeps hkeeps'⟩
    · rw [if_neg hz]
      obtain ⟨hfam, hbacks⟩ := hoff hz p k' hacc
      obtain ⟨hinv', hkeeps'⟩ := hinv.write_off b hfam hbacks
      exact ⟨hinv', rfl, keeps_trans hkeeps hkeeps'⟩
  | setDirectory d =>
    cases hrun
    refine ⟨h.congr hl rfl (fun _ _ => rfl) fun c hc =>
      hc.elim h.family.frame_used fun hc => (h.data c hc).1, rfl, ?_⟩
    exact keeps_of_lookups (fun _ hd => hd) (fun _ _ _ _ _ _ => rfl) fun _ _ => rfl
  | newDirectory =>
    cases hrun
    obtain ⟨hinv, hkeeps⟩ := h.copied hl
    exact ⟨hinv, rfl, hkeeps⟩
  | freeDirectory d => exact hl.elim
  | alloc =>
    cases hrun
    exact ⟨h.alloc, rfl, keeps_pmm s _⟩
  | free ptr =>
    cases hrun
    refine ⟨h.congr h.cur h.cr3 (fun _ _ => rfl) fun c hc => ?_, rfl, keeps_pmm s _⟩
    have hused : InUse s.k.pmm c := hc.elim h.family.frame_used fun hc => (h.data c hc).1
    refine inUse_pmmFreeBlock hused fun heq => ?_
    rw [heq] at hc
    exact hc.elim hl.1 hl.2

end Runs

end MyOS
