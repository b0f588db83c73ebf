import MyOS.Elf.Leak

/-!
# What every load keeps

The results on well-behaved files say what a load does to memory. This
module says what any call of `elf_load` leaves alone, whatever the file, the
page tables and the state of memory: if it returns, the directory and the
trap stack are those of the caller again, and every block that was in use is
still in use. Page faults on the way only take blocks, and `cleanup` frees
blocks that the call itself took.

`Grows` is that effect for one piece of code; it composes, and every function
that runs inside a load has it. The loader's own loops also carry which
blocks `seg_blocks` names (`LoadKeeps`).
-/

namespace MyOS

open Lib Lib.Mem Lib.Paging

/-- From `k` to `k'` blocks were only taken, and no register changed. -/
structure Grows (k k' : Machine) : Prop where
  taken : ∃ l, Taken k.pmm l k'.pmm
  cur : k'.currentPageDirectory = k.currentPageDirectory
  cr3 : k'.cr3 = k.cr3
  esp0 : k'.esp0 = k.esp0

theorem Grows.refl (k : Machine) : Grows k k := ⟨⟨[], Taken.refl _⟩, rfl, rfl, rfl⟩

theorem Grows.trans {k k' k'' : Machine} (h : Grows k k') (h' : Grows k' k'') : Grows k k'' := by
  obtain ⟨l, hl⟩ := h.taken
  obtain ⟨l', hl'⟩ := h'.taken
  exact ⟨⟨_, hl.trans hl'⟩, h'.cur.trans h.cur, h'.cr3.trans h.cr3, h'.esp0.trans h.esp0⟩

/-- Moreover the interrupt flag is as before, and none of the blocks was
given back: the lowest ones are gone. -/
structure Quiet (k k' : Machine) : Prop extends Grows k k' where
  intFlag : k'.intFlag = k.intFlag
  fit : FirstFit k.pmm k'.pmm

theorem Quiet.refl (k : Machine) : Quiet k k := ⟨Grows.refl k, rfl, FirstFit.refl _⟩

theorem Quiet.trans {k k' k'' : Machine} (h : Quiet k k') (h' : Quiet k' k'') : Quiet k k'' := by
  obtain ⟨l', hl'⟩ := h'.taken
  exact ⟨h.toGrows.trans h'.toGrows, h'.intFlag.trans h.intFlag, h.fit.trans h'.fit hl'⟩

theorem Quiet.total {k k' : Machine} (h : Quiet k k') : k'.pmm.totalBlocks = k.pmm.totalBlocks := by
  obtain ⟨l, hl⟩ := h.taken
  exact hl.total

/-- A change of memory alone. -/
theorem Quiet.mem {k k' : Machine} (h : Quiet k k') (m : Mem) : Quiet k { k' with mem := m } :=
  ⟨⟨h.taken, h.cur, h.cr3, h.esp0⟩, h.intFlag, h.fit⟩

theorem pmmAllocBlock_takes (s : Pmm) : ∃ l, Taken s l (pmmAllocBlock s).2 := by
  rcases (Taken.refl s).alloc with ⟨b, -, -, -, -, -, ht⟩ | ⟨-, hnone⟩
  · exact ⟨_, ht⟩
  · rw [hnone]
    exact ⟨[], Taken.refl s⟩

theorem quiet_alloc (k : Machine) : Quiet k { k with pmm := (pmmAllocBlock k.pmm).2 } :=
  ⟨⟨pmmAllocBlock_takes k.pmm, rfl, rfl, rfl⟩, rfl, (FirstFit.refl k.pmm).alloc⟩

theorem vmmMapPage_quiet {p v f : Nat} {k k' : Machine} (h : vmmMapPage p v f k = .ok k') :
    Quiet k k' := by
  unfold vmmMapPage at h
  by_cases hp : Present (pde k.mem k.currentPageDirectory (pdIndex v))
  · rw [if_neg (not_not_intro hp)] at h
    cases h
    exact (Quiet.refl k).mem _
  · rw [if_pos hp] at h
    by_cases hnull : (pmmAllocBlock k.pmm).1 = 0
    · rw [if_pos hnull] at h
      exact absurd h (by simp)
    · rw [if_neg hnull] at h
      cases h
      exact (quiet_alloc k).mem _

theorem pageFaultHandler_quiet {a err : Nat} {k k' : Machine}
    (h : pageFaultHandler a err k = .ok k') : Quiet k k' := by
  unfold pageFaultHandler at h
  split at h
  · by_cases hnull : (pmmAllocBlock k.pmm).1 = 0
    · rw [if_pos hnull] at h
      exact absurd h (by simp)
    · rw [if_neg hnull] at h
      exact (quiet_alloc k).trans (vmmMapPage_quiet h)
  · exact absurd h (by simp)

/-! ## Accesses through the MMU -/

theorem access_quiet {write : Bool} {a : Nat} {k : Machine} {r : Nat × Machine}
    (h : access write a k = .ok r) : Quiet k r.2 := by
  unfold access at h
  cases htr : translate k.mem k.cr3 a with
  | some p =>
    rw [htr] at h
    cases h
    exact Quiet.refl k
  | none =>
    rw [htr] at h
    obtain ⟨k₁, hfault, hretry⟩ := bind_eq_ok h
    have hq := pageFaultHandler_quiet hfault
    cases htr' : translate k₁.mem k₁.cr3 a with
    | some p =>
      rw [htr'] at hretry
      cases hretry
      exact hq
    | none =>
      rw [htr'] at hretry
      exact absurd hretry (by simp [retry])

theorem vread_quiet {a : Nat} {k : Machine} {r : UInt8 × Machine} (h : vread a k = .ok r) :
    Quiet k r.2 := by
  obtain ⟨x, hx, rfl⟩ := map_eq_ok h
  exact access_quiet hx

theorem vwrite_quiet {a : Nat} {b : UInt8} {k k' : Machine} (h : vwrite a b k = .ok k') :
    Quiet k k' := by
  obtain ⟨x, hx, rfl⟩ := map_eq_ok h
  exact (access_quiet hx).mem _

theorem vmemset_quiet {dest : Nat} {val : UInt8} : ∀ (n : Nat) {k k' : Machine},
    vmemset dest val n k = .ok k' → Quiet k k' := by
  intro n
  induction n with
  | zero =>
    intro k k' h
    cases h
    exact Quiet.refl k
  | succ n ih =>
    intro k k' h
    obtain ⟨k₁, hprev, hlast⟩ := bind_eq_ok h
    exact (ih hprev).trans (vwrite_quiet hlast)

theorem vmemcpy_quiet {dest src : Nat} : ∀ (n : Nat) {k k' : Machine},
    vmemcpy dest src n k = .ok k' → Quiet k k' := by
  intro n
  induction n with
  | zero =>
    intro k k' h
    cases h
    exact Quiet.refl k
  | succ n ih =>
    intro k k' h
    obtain ⟨k₁, hprev, hlast⟩ := bind_eq_ok h
    obtain ⟨r, hread, hwrite⟩ := bind_eq_ok hlast
    exact ((ih hprev).trans (vread_quiet hread)).trans (vwrite_quiet hwrite)

theorem vcopyOut_quiet {src : Nat} : ∀ (n : Nat) {k : Machine} {r : Mem × Machine},
    vcopyOut src n k = .ok r → Quiet k r.2 := by
  intro n
  induction n with
  | zero =>
    intro k r h
    cases h
    exact Quiet.refl k
  | succ n ih =>
    intro k r h
    obtain ⟨r₁, hprev, hlast⟩ := bind_eq_ok h
    obtain ⟨b, hread, rfl⟩ := map_eq_ok hlast
    exact (ih hprev).trans (vread_quiet hread)

theorem readFs_quiet {node : FsNode} {offset size buffer : Nat} {k : Machine} {r : Nat × Machine}
    (h : readFs node offset size buffer k = .ok r) : Quiet k r.2 := by
  unfold readFs at h
  split at h
  · obtain ⟨k', hcopy, rfl⟩ := map_eq_ok h
    exact vmemcpy_quiet _ hcopy
  · cases h
    exact Quiet.refl k

theorem readFsLocal_quiet {node : FsNode} {offset size : Nat} {k : Machine} {r : Nat × Mem × Machine}
    (h : readFsLocal node offset size k = .ok r) : Quiet k r.2.2 := by
  unfold readFsLocal at h
  split at h
  · obtain ⟨x, hcopy, rfl⟩ := map_eq_ok h
    exact vcopyOut_quiet _ hcopy
  · cases h
    exact Quiet.refl k

/-! ## The loader -/

/-- The blocks taken since the call: those `seg_blocks` names, the directory
`P` and others. -/
def LoadKeeps (k₀ : Machine) (P : Nat) (l : Load) : Prop :=
  (∃ bs rest, Taken k₀.pmm (bs ++ P :: rest) l.k.pmm ∧ l.segBlocks = bs.map (· * 4096)) ∧
    l.k.esp0 = k₀.esp0

/-- How a part of a load ends: with the directory `dir` active if it goes
through, and with the caller's, `old`, if it jumps to `cleanup`. -/
def LoadStops (k₀ : Machine) (P dir old : Nat) : Except Stop Load → Prop
  | .ok l => LoadKeeps k₀ P l ∧ l.k.At dir
  | .error (.cleanup _ l) => LoadKeeps k₀ P l ∧ l.k.At old
  | .error (.halt _) => True

theorem LoadStops.bind {k₀ : Machine} {P dir dir' old : Nat} {x : Except Stop Load}
    {f : Load → Except Stop Load} (hx : LoadStops k₀ P dir old x)
    (hf : ∀ l, LoadKeeps k₀ P l → l.k.At dir → LoadStops k₀ P dir' old (f l)) :
    LoadStops k₀ P dir' old (x.bind f) := by
  match x, hx with
  | .ok l, ⟨hl, hat⟩ =>
    rw [ok_bind]
    exact hf l hl hat
  | .error (.cleanup _ _), h => exact h
  | .error (.halt _), _ => trivial

section Loads

variable {k₀ : Machine} {P old : Nat} {l : Load}

/-- More blocks taken. -/
theorem LoadKeeps.grows (h : LoadKeeps k₀ P l) {l' : Load} {k : Machine} (hg : Grows l.k k)
    (hpmm : l'.k.pmm = k.pmm) (hesp : l'.k.esp0 = k.esp0) (hseg : l'.segBlocks = l.segBlocks) :
    LoadKeeps k₀ P l' := by
  obtain ⟨⟨bs, rest, ht, hbs⟩, he⟩ := h
  obtain ⟨ts, hts⟩ := hg.taken
  refine ⟨⟨bs, ts ++ rest, ?_, hseg.trans hbs⟩, hesp.trans (hg.esp0.trans he)⟩
  rw [hpmm]
  refine (ht.trans hts).perm (List.perm_iff_count.mpr fun a => ?_)
  simp only [List.count_append, List.count_cons]
  omega

theorem loadPage_stops (h : LoadKeeps k₀ P l) {procPd v : Nat} (hat : l.k.At procPd) :
    LoadStops k₀ P procPd old (loadPage old v l) := by
  unfold loadPage
  by_cases hnull : (pmmAllocBlock l.k.pmm).1 = 0
  · simp only [if_pos hnull]
    exact ⟨h.grows (quiet_alloc l.k).toGrows rfl rfl rfl, rfl, rfl⟩
  simp only [if_neg hnull]
  obtain ⟨b, -, -, haddr, ht⟩ := pmmAllocBlock_taken hnull
  rw [haddr]
  -- the page's block is named in `seg_blocks` if there is room
  have htaken : ∀ {k' : Machine}, Grows { l.k with pmm := (pmmAllocBlock l.k.pmm).2 } k' →
      LoadKeeps k₀ P ⟨k', if l.segBlocks.length < maxSegmentBlocks then l.segBlocks ++ [b * 4096]
        else l.segBlocks⟩ := by
    intro k' hg
    obtain ⟨⟨bs, rest, hold, hbs⟩, he⟩ := h
    obtain ⟨ts, hts⟩ := hg.taken
    have hall := (hold.trans ht).trans hts
    refine ⟨?_, hg.esp0.trans he⟩
    by_cases hroom : l.segBlocks.length < maxSegmentBlocks
    · rw [if_pos hroom]
      refine ⟨bs ++ [b], ts ++ rest, hall.perm (List.perm_iff_count.mpr fun a => ?_), ?_⟩
      · simp only [List.count_append, List.count_cons, List.count_nil]
        omega
      · show l.segBlocks ++ [b * 4096] = _
        rw [hbs, List.map_append, List.map_singleton]
    · rw [if_neg hroom]
      refine ⟨bs, b :: (ts ++ rest), hall.perm (List.perm_iff_count.mpr fun a => ?_), hbs⟩
      simp only [List.count_append, List.count_cons, List.count_nil]
      omega
  cases hrun : (vmmMapPage (b * 4096) v (flagPresent ||| flagWrite ||| flagUser)
      { l.k with pmm := (pmmAllocBlock l.k.pmm).2 }).bind (vmemset v 0 4096) with
  | error p => trivial
  | ok k' =>
    obtain ⟨k₁, hmap, hset⟩ := bind_eq_ok hrun
    have hg := ((vmmMapPage_quiet hmap).trans (vmemset_quiet _ hset)).toGrows
    exact ⟨htaken hg, hg.cur.trans hat.1, hg.cr3.trans hat.2⟩

/-- A page takes blocks at most. -/
theorem loadPage_quiet {v : Nat} {l' : Load} (hrun : loadPage old v l = .ok l') :
    Quiet l.k l'.k := by
  unfold loadPage at hrun
  by_cases hnull : (pmmAllocBlock l.k.pmm).1 = 0
  · simp only [if_pos hnull] at hrun
    exact absurd hrun (by simp)
  simp only [if_neg hnull] at hrun
  obtain ⟨k', hk', rfl⟩ := map_eq_ok (mapError_eq_ok hrun)
  obtain ⟨k₁, hmap, hset⟩ := bind_eq_ok hk'
  exact (quiet_alloc l.k).trans ((vmmMapPage_quiet hmap).trans (vmemset_quiet _ hset))

theorem loadPages_quiet (old : Nat) : ∀ (n : Nat) {v : Nat} {l l' : Load},
    loadPages old n v l = .ok l' → Quiet l.k l'.k := by
  intro n
  induction n with
  | zero =>
    intro v l l' hrun
    cases hrun
    exact Quiet.refl _
  | succ n ih =>
    intro v l l' hrun
    obtain ⟨l₁, hpage, hrest⟩ := bind_eq_ok hrun
    exact (loadPage_quiet hpage).trans (ih hrest)

theorem loadPages_stops (old : Nat) {procPd : Nat} : ∀ (n : Nat) {v : Nat} {l : Load}, LoadKeeps k₀ P l →
    l.k.At procPd → LoadStops k₀ P procPd old (loadPages old n v l) := by
  intro n
  induction n with
  | zero =>
    intro _ _ h hat
    exact ⟨h, hat⟩
  | succ n ih =>
    intro v l h hat
    unfold loadPages
    exact (loadPage_stops h hat).bind fun l' h' hat' => ih h' hat'

/-- A segment takes the lowest free blocks. -/
theorem loadSegment_fit {file : FsNode} {procPd : Nat} {p : Mem} {l' : Load}
    (hrun : loadSegment file procPd p l = .ok l') :
    FirstFit l.k.pmm l'.k.pmm ∧ ∃ bs, Taken l.k.pmm bs l'.k.pmm := by
  unfold loadSegment at hrun
  obtain ⟨l₁, hpages, hrest⟩ := bind_eq_ok hrun
  obtain ⟨r, hread, rfl⟩ := map_eq_ok (mapError_eq_ok hrest)
  have hq := (loadPages_quiet _ _ hpages).trans (readFs_quiet hread)
  exact ⟨hq.fit, hq.taken⟩

theorem loadSegment_stops {file : FsNode} {procPd : Nat} {p : Mem} (h : LoadKeeps k₀ P l)
    (hat : l.k.At old) : LoadStops k₀ P old old (loadSegment file procPd p l) := by
  unfold loadSegment
  rw [hat.1]
  have hswitched : LoadKeeps k₀ P { l with k := l.k.setDir procPd false } :=
    h.grows (Grows.refl l.k) rfl rfl rfl
  refine (loadPages_stops old (pageCount p) hswitched ⟨rfl, rfl⟩).bind fun l' h' hat' => ?_
  cases hread : readFs file (pOffset p) (pFilesz p) (pVaddr p) l'.k with
  | error e => trivial
  | ok r => exact ⟨h'.grows (readFs_quiet hread).toGrows rfl rfl rfl, rfl, rfl⟩

theorem loadHeader_stops {file : FsNode} {e : Mem} {procPd i : Nat} (h : LoadKeeps k₀ P l)
    (hat : l.k.At old) : LoadStops k₀ P old old (loadHeader file e procPd i l) := by
  unfold loadHeader
  cases hread : readFsLocal file (phdrOffset e i) phdrSize l.k with
  | error p => trivial
  | ok r =>
    rw [ok_mapError, ok_bind]
    have hg := (readFsLocal_quiet hread).toGrows
    have h' : LoadKeeps k₀ P { l with k := r.2.2 } := h.grows hg rfl rfl rfl
    have hat' : r.2.2.At old := ⟨hg.cur.trans hat.1, hg.cr3.trans hat.2⟩
    unfold loadRead
    split
    · exact ⟨h', hat'⟩
    · split
      · exact loadSegment_stops h' hat'
      · exact ⟨h', hat'⟩

theorem loadHeaders_stops (file : FsNode) (e : Mem) (procPd : Nat) : ∀ (n i : Nat) {l : Load},
    LoadKeeps k₀ P l → l.k.At old → LoadStops k₀ P old old (loadHeaders file e procPd n i l) := by
  intro n
  induction n with
  | zero =>
    intro _ _ h hat
    exact ⟨h, hat⟩
  | succ n ih =>
    intro i l h hat
    unfold loadHeaders
    exact (loadHeader_stops h hat).bind fun l' h' hat' =>
      ih (i + 1) h' hat'

/-- `cleanup` frees blocks that the call took. -/
theorem cleanup_grows (h : LoadKeeps k₀ P l) : ∃ ts, Taken k₀.pmm ts (cleanup (P * 4096) l).pmm := by
  obtain ⟨⟨bs, rest, ht, hbs⟩, -⟩ := h
  have hdir := (Taken.freeAll bs ht).free (b := P) List.mem_cons_self
  unfold cleanup
  rw [hbs]
  exact ⟨_, hdir⟩

end Loads

/-- **Any load.** If `elf_load` returns, it took blocks at most, and the
caller's directory and trap stack are back. -/
theorem elfLoad_grows {v : Vfs} {path : List UInt8} {k k' : Machine} {r : ElfResult}
    (hk : k.cr3 = k.currentPageDirectory) (h : elfLoad v path k = .ok (r, k')) : Grows k k' := by
  unfold elfLoad at h
  cases hfind : findNodeByPath v path with
  | none =>
    rw [hfind, Option.elim_none] at h
    cases h
    exact Grows.refl k
  | some ref =>
    rw [hfind, Option.elim_some] at h
    obtain ⟨⟨n, e, k₁⟩, hread, hrest⟩ := bind_eq_ok h
    have hg : Grows k k₁ := (readFsLocal_quiet hread).toGrows
    refine hg.trans ?_
    have hat : k₁.At k₁.currentPageDirectory := ⟨rfl, hg.cr3.trans (hk.trans hg.cur.symm)⟩
    unfold elfLoadRead at hrest
    by_cases hshort : n < ehdrSize
    · rw [if_pos hshort] at hrest
      cases hrest
      exact Grows.refl k₁
    rw [if_neg hshort] at hrest
    cases hc : checkHeader e with
    | some err =>
      rw [hc, Option.elim_some] at hrest
      cases hrest
      exact Grows.refl k₁
    | none =>
      rw [hc, Option.elim_none] at hrest
      unfold elfLoadImage at hrest
      by_cases hnull : (pmmAllocBlock k₁.pmm).1 = 0
      · rw [if_pos hnull] at hrest
        cases hrest
        exact (quiet_alloc k₁).toGrows
      rw [if_neg hnull] at hrest
      obtain ⟨P, -, -, haddr, ht⟩ := pmmAllocBlock_taken hnull
      rw [haddr] at hrest
      have hstart : LoadKeeps k₁ P ⟨{ k₁ with
          pmm := (pmmAllocBlock k₁.pmm).2
          mem := k₁.mem.memcpy (P * 4096) k₁.currentPageDirectory 4096 }, []⟩ :=
        ⟨⟨[], [], ht, rfl⟩, rfl⟩
      have hend := loadHeaders_stops (v.node ref) e (P * 4096) (ePhnum e) 0 hstart hat
      revert hend hrest
      generalize loadHeaders (v.node ref) e (P * 4096) (ePhnum e) 0 _ = x
      intro hrest hend
      match x, hend with
      | .ok l, ⟨⟨⟨bs, rest, hl, _⟩, he⟩, hat'⟩ =>
        rw [finish] at hrest
        cases hrest
        exact ⟨⟨_, hl⟩, hat'.1, hat'.2.trans hat.2.symm, he⟩
      | .error (.cleanup err l), ⟨hl, hat'⟩ =>
        rw [finish] at hrest
        cases hrest
        exact ⟨cleanup_grows hl, hat'.1, hat'.2.trans hat.2.symm, hl.2⟩
      | .error (.halt p), _ =>
        rw [finish] at hrest
        exact absurd hrest (by simp)

end MyOS
