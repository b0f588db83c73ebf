import MyOS.Elf.Shared

/-!
# Where a load writes

`elf_load` writes through the segments' virtual addresses in two places: it
clears each page it has just mapped, and it copies the file's bytes to
`p_vaddr`. The page loop covers `p_memsz` bytes, the copy `p_filesz` bytes,
and nothing compares the two.

`ElfWrite` lists the writes of a call as they are reached: the program header
of the segment, the load's state when the segment was begun, the address, and
the machine just before the byte is written. Its constructors follow the
loops: a write is one of the first header, or one of the rest in the state the
first header leaves. `Confined` is what a write should be: on a page of the
segment, which now has a block that was free when the segment was begun.

The pages just mapped stay what they are while only they are written
(`Loading`), so every write is confined as long as all before it were. The
first that is not is the first byte behind `page_aligned_end`, which any
segment that is longer in the file than its pages reaches.

Mirroring notes vs the C:
- A segment over a page that the kernel's tables are in would redirect the
  pointers of `vmm_map_page`, which the model follows at physical addresses.
  `TablesApart` leaves such calls out, and no others. Likewise the kernel's
  own code, stack and variables are not bytes of the memory modelled.
-/

namespace MyOS

open Lib Lib.Mem Lib.Paging

/-- A write of `memset` in the page loop, with `n` iterations left. -/
inductive PageWrite (old : Nat) : Nat → Nat → Load → Nat → Machine → Prop
  | here {n v j : Nat} {l : Load} {k₁ k : Machine} (hnull : (pmmAllocBlock l.k.pmm).1 ≠ 0)
      (hmap : vmmMapPage (pmmAllocBlock l.k.pmm).1 v (flagPresent ||| flagWrite ||| flagUser)
        { l.k with pmm := (pmmAllocBlock l.k.pmm).2 } = .ok k₁)
      (hj : j < 4096) (hset : vmemset v 0 j k₁ = .ok k) :
      PageWrite old (n + 1) v l ((v + j) % 2 ^ 32) k
  | later {n v a : Nat} {l l' : Load} {k : Machine} (hpage : loadPage old v l = .ok l')
      (hrest : PageWrite old n (v + 4096) l' a k) : PageWrite old (n + 1) v l a k

/-- A write of the segment `p`, begun in `l`. -/
inductive SegmentWrite (file : FsNode) (procPd : Nat) (p : Mem) (l : Load) : Nat → Machine → Prop
  | clear {a : Nat} {k : Machine} (hpage : PageWrite l.k.currentPageDirectory (pageCount p)
      (pageAlignedStart p) { l with k := l.k.setDir procPd false } a k) :
      SegmentWrite file procPd p l a k
  | copy {i : Nat} {l' : Load} {k : Machine} {r : UInt8 × Machine}
      (hpages : loadPages l.k.currentPageDirectory (pageCount p) (pageAlignedStart p)
        { l with k := l.k.setDir procPd false } = .ok l')
      (hfile : file.read = true) (hi : i < tarReadSize file (pOffset p) (pFilesz p))
      (hcopy : vmemcpy (pVaddr p) ((file.impl + pOffset p) % 2 ^ 32) i l'.k = .ok k)
      (hread : vread (((file.impl + pOffset p) % 2 ^ 32 + i) % 2 ^ 32) k = .ok r) :
      SegmentWrite file procPd p l ((pVaddr p + i) % 2 ^ 32) r.2

/-- A write of the header loop, with `n` headers left. -/
inductive HeaderWrite (file : FsNode) (e : Mem) (procPd : Nat) :
    Nat → Nat → Load → Mem → Load → Nat → Machine → Prop
  | here {n i a : Nat} {l : Load} {r : Nat × Mem × Machine} {k : Machine}
      (hread : readFsLocal file (phdrOffset e i) phdrSize l.k = .ok r) (hfull : ¬r.1 < phdrSize)
      (hload : pType r.2.1 = ptLoad)
      (hwrite : SegmentWrite file procPd r.2.1 { l with k := r.2.2 } a k) :
      HeaderWrite file e procPd (n + 1) i l r.2.1 { l with k := r.2.2 } a k
  | later {n i a : Nat} {l l' l₁ : Load} {r : Nat × Mem × Machine} {p : Mem} {k : Machine}
      (hread : readFsLocal file (phdrOffset e i) phdrSize l.k = .ok r)
      (hrun : loadRead file procPd l r = .ok l')
      (hrest : HeaderWrite file e procPd n (i + 1) l' p l₁ a k) :
      HeaderWrite file e procPd (n + 1) i l p l₁ a k

/-- The load's state before the first header: the directory is a copy of the
caller's. -/
def startLoad (k : Machine) : Load :=
  ⟨{ k with
    pmm := (pmmAllocBlock k.pmm).2
    mem := k.mem.memcpy (pmmAllocBlock k.pmm).1 k.currentPageDirectory 4096 }, []⟩

/-- A write of `elf_load` on the file found: the segment, the state at its
start, the address and the machine. -/
structure ElfWrite (file : FsNode) (k : Machine) (p : Mem) (l : Load) (a : Nat) (kw : Machine) :
    Prop where
  reached : ∃ r, readFsLocal file 0 ehdrSize k = .ok r ∧ ¬r.1 < ehdrSize ∧
    checkHeader r.2.1 = none ∧ (pmmAllocBlock r.2.2.pmm).1 ≠ 0 ∧
    HeaderWrite file r.2.1 (pmmAllocBlock r.2.2.pmm).1 (ePhnum r.2.1) 0 (startLoad r.2.2) p l a kw

/-- The address is on a page of the segment, mapped to a block that was free
when the segment was begun. -/
def Confined (p : Mem) (l : Load) (a : Nat) (k : Machine) : Prop :=
  a / 4096 ∈ pagesOf p ∧ ∃ f, IsFree l.k.pmm f ∧ InUse k.pmm f ∧ lookup k.mem k.cr3 a = f * 4096 + 7

/-- Every write of the call is confined. -/
def WritesConfined (v : Vfs) (path : List UInt8) (k : Machine) : Prop :=
  ∀ ref, findNodeByPath v path = some ref → ∀ p l a kw, ElfWrite (v.node ref) k p l a kw →
    Confined p l a kw

/-- The bytes copied for the segment end with its pages, if there are any. -/
def SegmentPlaced (file : FsNode) (p : Mem) : Prop :=
  tarReadSize file (pOffset p) (pFilesz p) = 0 ∨
    pVaddr p + tarReadSize file (pOffset p) (pFilesz p) ≤ pageAlignedEnd p

/-! ## The copy and the pages -/

/-- The copy stays on the segment's pages if and only if it ends with them. -/
theorem copy_on_pages_iff (file : FsNode) (p : Mem) :
    (∀ i < tarReadSize file (pOffset p) (pFilesz p), (pVaddr p + i) % 2 ^ 32 / 4096 ∈ pagesOf p) ↔
      SegmentPlaced file p := by
  unfold SegmentPlaced
  have hv := pVaddr_lt p
  have hstart := pageAlignedStart_eq p
  have hend := pageAlignedEnd_eq p
  constructor
  · intro hall
    rcases Nat.eq_zero_or_pos (tarReadSize file (pOffset p) (pFilesz p)) with h0 | hpos
    · exact Or.inl h0
    refine Or.inr (Nat.le_of_not_lt fun hlt => ?_)
    -- the first byte has a page, so the segment does not end before it
    have hfirst := hall 0 hpos
    rw [Nat.add_zero, Nat.mod_eq_of_lt hv] at hfirst
    unfold pagesOf pageCount at hfirst
    rw [List.mem_range'_1] at hfirst
    -- the first byte behind the pages
    have hlast := hall (pageAlignedEnd p - pVaddr p) (by omega)
    rw [Nat.add_sub_cancel' (by omega), Nat.mod_eq_of_lt (by omega)] at hlast
    unfold pagesOf pageCount at hlast
    rw [List.mem_range'_1] at hlast
    omega
  · intro hfits i hi
    have hle := hfits.resolve_left (by omega)
    rw [Nat.mod_eq_of_lt (by omega)]
    exact mem_pagesOf (by omega) (by omega)

/-! ## Every write is confined -/

/-- What holds at a write of the segment `p`: the pages `G` are mapped under
`P`, and the one written is among them, with a block that was free when the
segment was begun. -/
def AtWrite (d₀ P : Nat) (D : List Nat) (p : Mem) (l : Load) (a : Nat) (k : Machine) : Prop :=
  a / 4096 ∈ pagesOf p ∧ ∃ G B, Loading 0 d₀ [] D P G B k ∧
    ∃ e ∈ G, e.1 = a / 4096 ∧ IsFree l.k.pmm e.2

section Enough

variable {d₀ P old : Nat} {D : List Nat} {G : List (Nat × Nat)} {B : List Nat} {l : Load}
  {k : Machine} {a : Nat}

theorem AtWrite.confined {p : Mem} (h : AtWrite d₀ P D p l a k) : Confined p l a k := by
  obtain ⟨hp, G, B, hl, e, he, hpage, hfree⟩ := h
  obtain ⟨-, hdata, hlook⟩ := hl.pages e he
  refine ⟨hp, e.2, hfree, hdata.1, ?_⟩
  rw [hl.at_dir.2, lookup_page (w := e.1 * 4096) (by omega)]
  exact hlook

/-- The frames of the directories are in use at a write. -/
theorem AtWrite.frame_used {p : Mem} (h : AtWrite d₀ P D p l a k) {d b : Nat} (hd : d ∈ D)
    (hb : Frames k.mem d b) : InUse k.pmm b := by
  obtain ⟨-, G, B, hl, -⟩ := h
  exact (hl.view.family.backed d hd).frames hb

/-- Clearing a page writes that page, which has just been mapped. -/
theorem PageWrite.loading {n v : Nat} (hw : PageWrite old n v l a k) (hold : old ∈ D) :
    ∀ {G : List (Nat × Nat)}, Loading 0 d₀ [] D P G l.segBlocks l.k → v % 4096 = 0 →
      v + n * 4096 ≤ 2 ^ 32 → (∀ e ∈ G, e.1 < v / 4096) →
      v / 4096 ≤ a / 4096 ∧ a / 4096 < v / 4096 + n ∧ ∃ G' B', Loading 0 d₀ [] D P G' B' k ∧
        ∃ e ∈ G', e.1 = a / 4096 ∧ IsFree l.k.pmm e.2 := by
  induction hw with
  | @here n v j l k₁ k hnull hmap hj hset =>
    intro G h hal hend hG
    obtain ⟨b, hfree, h₁⟩ := h.page hal (by omega) List.not_mem_nil
      (fun e he => Nat.ne_of_lt (hG e he)) hnull hmap
    have hsame : ∀ i < 4096, (v + i) % 2 ^ 32 / 4096 = v / 4096 := fun i hi => by omega
    have h₂ := h₁.vmemset j (fun i hi => by
      rw [hsame i (by omega)]
      exact List.mem_cons_self) hset
    rw [hsame j hj]
    exact ⟨Nat.le_refl _, by omega, _, _, h₂, (v / 4096, b), List.mem_cons_self, rfl, hfree⟩
  | @later n v a l l' k hpage hrest ih =>
    intro G h hal hend hG
    have hfirst := loadPage_shared h hold hal (by omega) List.not_mem_nil
      fun e he => Nat.ne_of_lt (hG e he)
    rw [hpage] at hfirst
    obtain ⟨_, ⟨b, -, rfl⟩, h'⟩ := hfirst
    obtain ⟨ts, ht⟩ := (loadPage_quiet hpage).taken
    have hnext : (v + 4096) / 4096 = v / 4096 + 1 := by omega
    obtain ⟨hlo, hhi, G', B', hl, e, he, heq, hfree⟩ := ih h' (by omega) (by omega) fun e he => by
      rw [hnext]
      rcases List.mem_cons.mp he with rfl | he
      · exact Nat.lt_succ_self _
      · exact Nat.lt_succ_of_lt (hG e he)
    rw [hnext] at hlo hhi
    exact ⟨by omega, by omega, G', B', hl, e, he, heq, (ht.isFree hfree).1⟩

/-- Both kinds of writes of a segment whose copy stays on its pages. -/
theorem SegmentWrite.atWrite {file : FsNode} {p : Mem} (hw : SegmentWrite file P p l a k)
    (h : Loading 0 d₀ [] D old [] l.segBlocks l.k) (hP : P ∈ D) (hfits : SegmentFits 0 file p) :
    AtWrite d₀ P D p l a k := by
  cases hw with
  | clear hpage =>
    have hstart := pageAlignedStart_eq p
    rw [h.at_dir.1] at hpage
    obtain ⟨hlo, hhi, hmapped⟩ := hpage.loading h.dir (h.setDir hP false) (by omega)
      (page_end_le p) fun e he => absurd he List.not_mem_nil
    refine ⟨?_, hmapped⟩
    unfold pagesOf
    rw [List.mem_range'_1]
    exact ⟨hlo, hhi⟩
  | @copy i l' k₁ r hpages hfile hi hcopy hread =>
    rw [h.at_dir.1] at hpages
    have hend := loadSegment_pages h hP hfits.1
    rw [hpages] at hend
    obtain ⟨G, ⟨hG, hfree⟩, h'⟩ := hend
    have h₁ := h'.vmemcpy i (fun j hj => hG _ (hfits.2 j (by omega))) hcopy
    have h₂ := h₁.vread (Nat.mod_lt _ (by omega)) hread
    obtain ⟨e, he, heq⟩ := List.mem_map.mp (hG _ (hfits.2 i hi))
    exact ⟨hfits.2 i hi, G, _, h₂, e, he, heq, hfree e he⟩

theorem HeaderWrite.atWrite {file : FsNode} {e p : Mem} {n i : Nat} {l₁ : Load}
    (hw : HeaderWrite file e P n i l p l₁ a k) (hP : P ∈ D)
    (h : Loading 0 d₀ [] D old [] l.segBlocks l.k)
    (hfits : ∀ q ∈ headersRead file e P n i l, pType q = ptLoad → SegmentFits 0 file q) :
    AtWrite d₀ P D p l₁ a k := by
  induction hw with
  | @here n i a l r k hread hfull hload hwrite =>
    rw [headersRead_full hread hfull] at hfits
    have hmem : SegmentFits 0 file r.2.1 := hfits r.2.1 List.mem_cons_self hload
    exact hwrite.atWrite (h.readFsLocal hread) hP hmem
  | @later n i a l l' l₁ r p k hread hrun hrest ih =>
    rw [headersRead_full hread (loadRead_full hrun), hrun] at hfits
    have hend := loadRead_shared (h.readFsLocal hread) hP fun _ => hfits _ List.mem_cons_self
    rw [hrun] at hend
    obtain ⟨_, rfl, h'⟩ := hend
    exact ih h' fun q hq => hfits q (List.mem_cons_of_mem _ hq)

end Enough

/-! ## The blocks tracked -/

section Total

variable {file : FsNode} {e p : Mem} {procPd old n i v a : Nat} {l l₁ : Load} {k k₁ : Machine}

theorem PageWrite.total (hw : PageWrite old n v l a k) :
    k.pmm.totalBlocks = l.k.pmm.totalBlocks := by
  induction hw with
  | here hnull hmap hj hset =>
    exact ((quiet_alloc _).trans ((vmmMapPage_quiet hmap).trans (vmemset_quiet _ hset))).total
  | later hpage hrest ih => exact ih.trans (loadPage_quiet hpage).total

theorem SegmentWrite.total (hw : SegmentWrite file procPd p l a k) :
    k.pmm.totalBlocks = l.k.pmm.totalBlocks := by
  cases hw with
  | clear hpage => exact hpage.total
  | copy hpages hfile hi hcopy hread =>
    have hq := ((loadPages_quiet _ _ hpages).trans (vmemcpy_quiet _ hcopy)).trans (vread_quiet hread)
    exact hq.total

theorem HeaderWrite.total (hw : HeaderWrite file e procPd n i l p l₁ a k) :
    k.pmm.totalBlocks = l.k.pmm.totalBlocks := by
  induction hw with
  | here hread hfull hload hwrite => exact hwrite.total.trans (readFsLocal_quiet hread).total
  | later hread hrun hrest ih =>
    refine ih.trans (Eq.trans ?_ (readFsLocal_quiet hread).total)
    have hfull := loadRead_full hrun
    unfold loadRead at hrun
    rw [if_neg hfull] at hrun
    split at hrun
    · obtain ⟨-, bs, ht⟩ := loadSegment_fit hrun
      exact ht.total
    · cases hrun
      rfl

theorem ElfWrite.total (hw : ElfWrite file k p l a k₁) :
    k₁.pmm.totalBlocks = k.pmm.totalBlocks := by
  obtain ⟨r, hread, -, -, -, hheader⟩ := hw.reached
  refine hheader.total.trans (Eq.trans ?_ (readFsLocal_quiet hread).total)
  exact (quiet_alloc r.2.2).total

end Total

/-! ## Every byte of a copy is written -/

/-- A copy that returned read and wrote each of its bytes. -/
theorem vmemcpy_reaches {dest src : Nat} {k : Machine} : ∀ (n : Nat) {k' : Machine},
    vmemcpy dest src n k = .ok k' → ∀ i < n, ∃ k₁ r, vmemcpy dest src i k = .ok k₁ ∧
      vread ((src + i) % 2 ^ 32) k₁ = .ok r := by
  intro n
  induction n with
  | zero =>
    intro k' _ i hi
    exact absurd hi (Nat.not_lt_zero i)
  | succ n ih =>
    intro k' hrun i hi
    obtain ⟨k₁, hprev, hlast⟩ := bind_eq_ok hrun
    rcases Nat.lt_succ_iff_lt_or_eq.mp hi with hlt | rfl
    · exact ih hprev i hlt
    · obtain ⟨r, hread, -⟩ := bind_eq_ok hlast
      exact ⟨k₁, r, hprev, hread⟩

section Reached

variable {file : FsNode} {e : Mem} {procPd : Nat} {l : Load}

theorem loadSegment_writes {p : Mem} {l' : Load} (hfile : file.read = true)
    (hrun : loadSegment file procPd p l = .ok l') {j : Nat}
    (hj : j < tarReadSize file (pOffset p) (pFilesz p)) :
    ∃ k, SegmentWrite file procPd p l ((pVaddr p + j) % 2 ^ 32) k := by
  unfold loadSegment at hrun
  obtain ⟨l₁, hpages, hrest⟩ := bind_eq_ok hrun
  obtain ⟨r, hread, -⟩ := map_eq_ok (mapError_eq_ok hrest)
  unfold readFs at hread
  rw [if_pos hfile] at hread
  obtain ⟨k', hcopy, -⟩ := map_eq_ok hread
  obtain ⟨k₁, r₁, hpre, hbyte⟩ := vmemcpy_reaches _ hcopy j hj
  exact ⟨r₁.2, SegmentWrite.copy hpages hfile hj hpre hbyte⟩

/-- A header loop that went through wrote every byte of every segment it
read. -/
theorem loadHeaders_writes : ∀ (n i : Nat) {l l' : Load},
    loadHeaders file e procPd n i l = .ok l' →
    ∀ p ∈ headersRead file e procPd n i l, pType p = ptLoad →
    ∀ j < tarReadSize file (pOffset p) (pFilesz p),
      ∃ l₁ k, HeaderWrite file e procPd n i l p l₁ ((pVaddr p + j) % 2 ^ 32) k := by
  intro n
  induction n with
  | zero =>
    intro i l l' _ p hp
    exact absurd hp List.not_mem_nil
  | succ n ih =>
    intro i l l' hrun p hp hload j hj
    obtain ⟨l₁, hhead, hrest⟩ := bind_eq_ok hrun
    obtain ⟨r, hread, hstep⟩ := bind_eq_ok hhead
    have hread := mapError_eq_ok hread
    have hfull := loadRead_full hstep
    rw [headersRead_full hread hfull, hstep] at hp
    rcases List.mem_cons.mp hp with rfl | hp
    · -- a header that was read in full is of a file that can be read
      have hfile : file.read = true := by
        by_contra hno
        unfold readFsLocal at hread
        rw [if_neg hno] at hread
        cases hread
        exact hfull (show 0 < phdrSize by decide)
      unfold loadRead at hstep
      rw [if_neg hfull, if_pos hload] at hstep
      obtain ⟨k, hw⟩ := loadSegment_writes hfile hstep hj
      exact ⟨_, k, HeaderWrite.here hread hfull hload hw⟩
    · obtain ⟨l₂, k, hw⟩ := ih (i + 1) hrest p hp hload j hj
      exact ⟨l₂, k, HeaderWrite.later hread hstep hw⟩

end Reached

/-! ## The whole call -/

/-- The headers that a call reads, once the file has been accepted. -/
theorem programHeaders_eq {v : Vfs} {path : List UInt8} {k : Machine} {ref : NodeRef}
    {r : Nat × Mem × Machine} (hfind : findNodeByPath v path = some ref)
    (hread : readFsLocal (v.node ref) 0 ehdrSize k = .ok r) (hfull : ¬r.1 < ehdrSize)
    (hcheck : checkHeader r.2.1 = none) (hnull : (pmmAllocBlock r.2.2.pmm).1 ≠ 0) :
    programHeaders v path k = headersRead (v.node ref) r.2.1 (pmmAllocBlock r.2.2.pmm).1
      (ePhnum r.2.1) 0 (startLoad r.2.2) := by
  unfold programHeaders
  rw [hfind, Option.elim_some, hread]
  show (if r.1 < ehdrSize ∨ checkHeader r.2.1 ≠ none then [] else
    imageHeaders (v.node ref) r.2.1 r.2.2) = _
  rw [if_neg fun h => h.elim hfull fun hne => hne hcheck]
  unfold imageHeaders
  exact if_neg hnull

/-- What a call that returned 0 went through. -/
theorem elfLoad_ok_runs {v : Vfs} {path : List UInt8} {k k' : Machine} {entry pd : Nat}
    (hrun : elfLoad v path k = .ok (.ok (entry, pd), k')) :
    ∃ ref r l, findNodeByPath v path = some ref ∧
      readFsLocal (v.node ref) 0 ehdrSize k = .ok r ∧ ¬r.1 < ehdrSize ∧ checkHeader r.2.1 = none ∧
      (pmmAllocBlock r.2.2.pmm).1 ≠ 0 ∧
      loadHeaders (v.node ref) r.2.1 (pmmAllocBlock r.2.2.pmm).1 (ePhnum r.2.1) 0
        (startLoad r.2.2) = .ok l := by
  unfold elfLoad at hrun
  cases hfind : findNodeByPath v path with
  | none =>
    rw [hfind, Option.elim_none] at hrun
    exact absurd hrun (by simp)
  | some ref =>
    rw [hfind, Option.elim_some] at hrun
    obtain ⟨r, hread, hrest⟩ := bind_eq_ok hrun
    unfold elfLoadRead at hrest
    by_cases hshort : r.1 < ehdrSize
    · rw [if_pos hshort] at hrest
      exact absurd hrest (by simp)
    rw [if_neg hshort] at hrest
    cases hcheck : checkHeader r.2.1 with
    | some err =>
      rw [hcheck, Option.elim_some] at hrest
      exact absurd hrest (by simp)
    | none =>
      rw [hcheck, Option.elim_none] at hrest
      unfold elfLoadImage at hrest
      by_cases hnull : (pmmAllocBlock r.2.2.pmm).1 = 0
      · simp only [if_pos hnull] at hrest
        exact absurd hrest (by simp)
      · simp only [if_neg hnull] at hrest
        have hfinish : finish r.2.1 (pmmAllocBlock r.2.2.pmm).1 (loadHeaders (v.node ref) r.2.1
            (pmmAllocBlock r.2.2.pmm).1 (ePhnum r.2.1) 0 (startLoad r.2.2)) = _ := hrest
        cases hloop : loadHeaders (v.node ref) r.2.1 (pmmAllocBlock r.2.2.pmm).1 (ePhnum r.2.1) 0
            (startLoad r.2.2) with
        | ok l => exact ⟨ref, r, l, rfl, hread, hshort, hcheck, hnull, hloop⟩
        | error stop =>
          rw [hloop] at hfinish
          match stop, hfinish with
          | .cleanup _ _, hfinish =>
            rw [finish] at hfinish
            exact absurd hfinish (by simp)
          | .halt _, hfinish =>
            rw [finish] at hfinish
            exact absurd hfinish (by simp)

section Call

variable {v : Vfs} {path : List UInt8} {k : Machine}

/-- Before the first header, the caller's directory and its copy. -/
theorem loading_start {file : FsNode} {r : Nat × Mem × Machine}
    (hok : DirOk k k.currentPageDirectory) (hcr3 : k.cr3 = k.currentPageDirectory)
    (hread : readFsLocal file 0 ehdrSize k = .ok r) (hnull : (pmmAllocBlock r.2.2.pmm).1 ≠ 0) :
    Loading 0 k.currentPageDirectory []
      [(pmmAllocBlock r.2.2.pmm).1, k.currentPageDirectory] k.currentPageDirectory
      [] (startLoad r.2.2).segBlocks (startLoad r.2.2).k := by
  have hview : View 0 k.currentPageDirectory [] [k.currentPageDirectory] k :=
    ⟨by omega, family_singleton hok, List.mem_singleton_self _,
      fun _ _ i _ hi => absurd hi (Nat.not_lt_zero _), fun _ hb => absurd hb List.not_mem_nil⟩
  have hcall : Loading 0 k.currentPageDirectory [] [k.currentPageDirectory] k.currentPageDirectory
      [] [] k :=
    ⟨hview, List.mem_singleton_self _, ⟨rfl, hcr3⟩, fun _ he => absurd he List.not_mem_nil,
      fun _ hx => absurd hx List.not_mem_nil⟩
  have h := hcall.readFsLocal hread
  obtain ⟨P, -, -, haddr, ht⟩ := pmmAllocBlock_taken hnull
  have hcopy := h.view.copy h.dir ht
  rw [← haddr] at hcopy
  refine ⟨?_, List.mem_cons_of_mem _ h.dir, h.at_dir, fun _ he => absurd he List.not_mem_nil,
    fun _ hx => absurd hx List.not_mem_nil⟩
  rw [h.at_dir.1] at hcopy
  unfold startLoad
  rw [h.at_dir.1]
  exact hcopy

/-- What the file must meet: every segment that the call reads is placed. -/
def SegmentsPlaced (v : Vfs) (path : List UInt8) (k : Machine) : Prop :=
  ∀ ref, findNodeByPath v path = some ref → ∀ p ∈ programHeaders v path k, pType p = ptLoad →
    SegmentPlaced (v.node ref) p

/-- No page of a segment is a block that holds, at a write of the call, the
caller's directory, the active one, or a table of either. -/
def TablesApart (v : Vfs) (path : List UInt8) (k : Machine) : Prop :=
  ∀ ref, findNodeByPath v path = some ref → ∀ p l a kw, ElfWrite (v.node ref) k p l a kw →
    ∀ q ∈ programHeaders v path k, pType q = ptLoad → ∀ pg ∈ pagesOf q,
      ¬Frames kw.mem k.currentPageDirectory pg ∧ ¬Frames kw.mem kw.cr3 pg

theorem SegmentsPlaced.atWrite (hok : DirOk k k.currentPageDirectory)
    (hcr3 : k.cr3 = k.currentPageDirectory) (h : SegmentsPlaced v path k) {ref : NodeRef}
    (hfind : findNodeByPath v path = some ref) {p : Mem} {l : Load} {a : Nat} {kw : Machine}
    (hwrite : ElfWrite (v.node ref) k p l a kw) : ∃ P, AtWrite k.currentPageDirectory P
      [P, k.currentPageDirectory] p l a kw := by
  obtain ⟨r, hread, hfull, hcheck, hnull, hw⟩ := hwrite.reached
  refine ⟨_, hw.atWrite List.mem_cons_self (loading_start hok hcr3 hread hnull) fun q hq hload => ?_⟩
  rw [← programHeaders_eq hfind hread hfull hcheck hnull] at hq
  exact ⟨Nat.zero_le _, (copy_on_pages_iff _ _).mpr (h ref hfind q hq hload)⟩

theorem SegmentsPlaced.confined (hok : DirOk k k.currentPageDirectory)
    (hcr3 : k.cr3 = k.currentPageDirectory) (h : SegmentsPlaced v path k) :
    WritesConfined v path k := by
  intro ref hfind p l a kw hwrite
  obtain ⟨P, hat⟩ := h.atWrite hok hcr3 hfind hwrite
  exact hat.confined

/-- Segments behind the RAM are apart from the tables. -/
theorem SegmentsPlaced.apart (hok : DirOk k k.currentPageDirectory)
    (hcr3 : k.cr3 = k.currentPageDirectory) (h : SegmentsPlaced v path k)
    (hout : ∀ q ∈ programHeaders v path k, pType q = ptLoad → ∀ pg ∈ pagesOf q,
      k.pmm.totalBlocks ≤ pg) : TablesApart v path k := by
  intro ref hfind p l a kw hwrite q hq hload pg hpg
  obtain ⟨P, hat⟩ := h.atWrite hok hcr3 hfind hwrite
  have hbehind := hout q hq hload pg hpg
  have htotal := hwrite.total
  have hno : ¬InUse kw.pmm pg := fun hu => by
    have hlt := hu.1
    omega
  refine ⟨fun hf => hno (hat.frame_used (by simp) hf), fun hf => hno ?_⟩
  obtain ⟨-, G, B, hl, -⟩ := hat
  rw [hl.at_dir.2] at hf
  exact (hl.view.family.backed _ hl.dir).frames hf

/-- A load that returned 0 has written all bytes of all segments. -/
theorem WritesConfined.ends {entry pd : Nat} {k' : Machine}
    (hrun : elfLoad v path k = .ok (.ok (entry, pd), k')) (h : WritesConfined v path k) :
    SegmentsPlaced v path k := by
  intro ref hfind p hp hload
  refine (copy_on_pages_iff _ _).mp fun i hi => ?_
  obtain ⟨ref', r, l, hfind', hread, hfull, hcheck, hnull, hloop⟩ := elfLoad_ok_runs hrun
  have href : ref' = ref := Option.some.inj (hfind'.symm.trans hfind)
  subst href
  rw [programHeaders_eq hfind hread hfull hcheck hnull] at hp
  obtain ⟨l₁, kw, hw⟩ := loadHeaders_writes _ _ hloop p hp hload i hi
  exact (h ref' hfind p l₁ _ kw ⟨r, hread, hfull, hcheck, hnull, hw⟩).1

/-- **Where a load writes.** For a call whose segments cover no page table: if
every segment ends its file bytes with its pages, every write is to a page
that was mapped for its segment just before; and in a load that returned 0 no
other way leads there. -/
theorem elfLoad_confined_iff (hok : DirOk k k.currentPageDirectory)
    (hcr3 : k.cr3 = k.currentPageDirectory) : TablesApart v path k →
    (SegmentsPlaced v path k → WritesConfined v path k) ∧
    ∀ entry pd k', elfLoad v path k = .ok (.ok (entry, pd), k') →
      (WritesConfined v path k ↔ SegmentsPlaced v path k) := by
  intro _
  refine ⟨fun h => h.confined hok hcr3, fun entry pd k' hrun => ⟨fun h => ?_, fun h => ?_⟩⟩
  · exact h.ends hrun
  · exact h.confined hok hcr3

end Call

/-! ## A segment of four bytes

On `memsz` bytes of memory: with four, its page is mapped; with none, the page
loop has nothing to do and the copy is all there is. -/

/-- A file of one segment of four bytes at `0x8048000`, that is `memsz` bytes
long in memory. -/
def sizedElf (memsz : Nat) : List (Nat × Nat) :=
  [(255 * 4096, 254 * 4096 + 7), (254 * 4096 + 4 * 16, 16 * 4096 + 7),
    (0x10000, 0x464C457F), (0x10004, 1), (0x10010, 0x30002), (0x10018, 0x8048000), (0x1001C, 52),
    (0x10028, 0x200000), (0x1002C, 1), (0x10034, 1), (0x10038, 84), (0x1003C, 0x8048000),
    (0x10044, 4), (0x10048, memsz), (0x10054, 0x12345678)]

def sizedMachine (memsz : Nat) : Machine := wordMachine (sizedElf memsz)

theorem sizedMachine_entry {memsz : Nat}
    (h0 : pde (sizedMachine memsz).mem (255 * 4096) 0 = 254 * 4096 + 7) :
    Entry (sizedMachine memsz) := by
  refine wordMachine_entry (fun w hw => ?_) h0
  have haddr : ∀ a ∈ (sizedElf memsz).map Prod.fst, a = 255 * 4096 ∨ a + 4 ≤ 255 * 4096 := by
    simp only [sizedElf, List.map_cons, List.map_nil]
    decide
  exact haddr w.1 (List.mem_map_of_mem hw)

/-- The one header of a file is read, whatever becomes of its segment. -/
theorem mem_headersRead_one {file : FsNode} {e p : Mem} {procPd i : Nat} {l : Load}
    {r : Nat × Mem × Machine} (hread : readFsLocal file (phdrOffset e i) phdrSize l.k = .ok r)
    (hp : p ∈ headersRead file e procPd 1 i l) : p = r.2.1 := by
  by_cases hshort : r.1 < phdrSize
  · rw [headersRead_short hread hshort] at hp
    exact absurd hp List.not_mem_nil
  · rw [headersRead_full hread hshort] at hp
    rcases List.mem_cons.mp hp with hp | hp
    · exact hp
    · cases hrun : (loadRead file procPd l r).toOption with
      | none =>
        rw [hrun] at hp
        exact absurd hp List.not_mem_nil
      | some l' =>
        rw [hrun] at hp
        exact absurd hp List.not_mem_nil

/-- The file header is accepted, and announces one program header. -/
def EhdrRead (r : Nat × Mem × Machine) : Prop :=
  ¬r.1 < ehdrSize ∧ checkHeader r.2.1 = none ∧ (pmmAllocBlock r.2.2.pmm).1 ≠ 0 ∧ ePhnum r.2.1 = 1

instance (r : Nat × Mem × Machine) : Decidable (EhdrRead r) :=
  inferInstanceAs (Decidable (_ ∧ _ ∧ _ ∧ _))

/-- The program header is that of the segment. -/
def PhdrRead (memsz : Nat) (q : Nat × Mem × Machine) : Prop :=
  ¬q.1 < phdrSize ∧ pType q.2.1 = ptLoad ∧ pVaddr q.2.1 = 0x8048000 ∧ pOffset q.2.1 = 84 ∧
    pFilesz q.2.1 = 4 ∧ pMemsz q.2.1 = memsz

instance (memsz : Nat) (q : Nat × Mem × Machine) : Decidable (PhdrRead memsz q) :=
  inferInstanceAs (Decidable (_ ∧ _ ∧ _ ∧ _ ∧ _ ∧ _))

/-- The two reads of a load of the file, up to its segment. -/
structure SizedRead (memsz : Nat) (r q : Nat × Mem × Machine) : Prop where
  ehdr : readFsLocal smallFile 0 ehdrSize (sizedMachine memsz) = .ok r
  accepted : EhdrRead r
  phdr : readFsLocal smallFile (phdrOffset r.2.1 0) phdrSize (startLoad r.2.2).k = .ok q
  segment : PhdrRead memsz q

/-- The reads are evaluated, together with a test of their outcome. -/
theorem sizedRead_of_eval (memsz : Nat) (T : Nat × Mem × Machine → Nat × Mem × Machine → Bool)
    (h : ((readFsLocal smallFile 0 ehdrSize (sizedMachine memsz)).toOption.any fun r =>
      decide (EhdrRead r) &&
      (readFsLocal smallFile (phdrOffset r.2.1 0) phdrSize (startLoad r.2.2).k).toOption.any fun q =>
        decide (PhdrRead memsz q) && T r q) = true) :
    ∃ r q, SizedRead memsz r q ∧ T r q = true := by
  obtain ⟨r, hr, hrest⟩ := (Option.any_eq_true _ _).mp h
  obtain ⟨hacc, hrest⟩ := Bool.and_eq_true_iff.mp hrest
  obtain ⟨q, hq, hrest⟩ := (Option.any_eq_true _ _).mp hrest
  obtain ⟨hseg, hT⟩ := Bool.and_eq_true_iff.mp hrest
  exact ⟨r, q, ⟨toOption_eq_some hr, of_decide_eq_true hacc, toOption_eq_some hq,
    of_decide_eq_true hseg⟩, hT⟩

section Sized

variable {memsz : Nat} {r q : Nat × Mem × Machine}

/-- A write of the segment is a write of the load. -/
theorem SizedRead.write (h : SizedRead memsz r q) {a : Nat} {k : Machine}
    (hw : SegmentWrite smallFile (pmmAllocBlock r.2.2.pmm).1 q.2.1
      { startLoad r.2.2 with k := q.2.2 } a k) :
    ElfWrite smallFile (sizedMachine memsz) q.2.1 { startLoad r.2.2 with k := q.2.2 } a k := by
  obtain ⟨hfull, hvalid, hnull, hnum⟩ := h.accepted
  refine ⟨r, h.ehdr, hfull, hvalid, hnull, ?_⟩
  rw [hnum]
  exact HeaderWrite.here h.phdr h.segment.1 h.segment.2.1 hw

/-- The one segment that the load reads. -/
theorem SizedRead.header (h : SizedRead memsz r q) {p : Mem}
    (hp : p ∈ programHeaders smallVfs [slash, 97] (sizedMachine memsz)) : p = q.2.1 := by
  obtain ⟨hfull, hvalid, hnull, hnum⟩ := h.accepted
  rw [programHeaders_eq smallVfs_find h.ehdr hfull hvalid hnull, hnum] at hp
  exact mem_headersRead_one h.phdr hp

/-- With as many bytes in memory the segment is placed, on page `0x8048`. -/
theorem SizedRead.placed (h : SizedRead 4 r q) :
    SegmentsPlaced smallVfs [slash, 97] (sizedMachine 4) := by
  intro ref hfind p hp _
  rw [smallVfs_find] at hfind
  cases hfind
  obtain ⟨-, -, hv, ho, hf, hm⟩ := h.segment
  rw [h.header hp]
  have hend := pageAlignedEnd_eq q.2.1
  have hsize : tarReadSize smallFile 84 4 = 4 := by decide
  refine Or.inr ?_
  show pVaddr q.2.1 + tarReadSize smallFile (pOffset q.2.1) (pFilesz q.2.1) ≤ _
  rw [ho, hf, hsize]
  omega

theorem SizedRead.apart (h : SizedRead 4 r q) :
    TablesApart smallVfs [slash, 97] (sizedMachine 4) := by
  have hk : Entry (sizedMachine 4) := sizedMachine_entry (by decide +kernel)
  refine h.placed.apart hk.dir hk.cr3 fun p hp _ pg hpg => ?_
  rw [h.header hp] at hpg
  unfold pagesOf at hpg
  rw [List.mem_range'_1, pageAlignedStart_eq, h.segment.2.2.1] at hpg
  show 260 ≤ pg
  omega

end Sized

/-- With its page mapped, the segment's page is cleared and nothing else is
written. -/
theorem elfLoad_confined_sized : WritesConfined smallVfs [slash, 97] (sizedMachine 4) ∧
    ∃ p l kw, ElfWrite smallFile (sizedMachine 4) p l 0x8048000 kw := by
  have hk : Entry (sizedMachine 4) := sizedMachine_entry (by decide +kernel)
  obtain ⟨r, q, h, hT⟩ := sizedRead_of_eval 4 (fun r q =>
    decide ((pmmAllocBlock q.2.2.pmm).1 ≠ 0) &&
      (vmmMapPage (pmmAllocBlock q.2.2.pmm).1 0x8048000 (flagPresent ||| flagWrite ||| flagUser)
        { q.2.2.setDir (pmmAllocBlock r.2.2.pmm).1 false with
          pmm := (pmmAllocBlock q.2.2.pmm).2 }).toOption.isSome) (by decide +kernel)
  obtain ⟨hnull, hmap⟩ := Bool.and_eq_true_iff.mp hT
  obtain ⟨k₁, hmap⟩ := Option.isSome_iff_exists.mp hmap
  refine ⟨(elfLoad_confined_iff hk.dir hk.cr3 h.apart).1 h.placed, q.2.1, _, k₁,
    h.write (SegmentWrite.clear ?_)⟩
  obtain ⟨-, -, hv, -, -, hm⟩ := h.segment
  have hstart := pageAlignedStart_eq q.2.1
  have hend := pageAlignedEnd_eq q.2.1
  have hcount : pageCount q.2.1 = 0 + 1 := by
    unfold pageCount
    omega
  have hpage : pageAlignedStart q.2.1 = 0x8048000 := by omega
  rw [hcount, hpage]
  exact PageWrite.here (j := 0) (of_decide_eq_true hnull) (toOption_eq_some hmap) (by omega) rfl

/-- With none, the copy goes to a page that was not mapped for it. -/
theorem elfLoad_writes_outside : Entry (sizedMachine 0) ∧
    TablesApart smallVfs [slash, 97] (sizedMachine 0) ∧
    ¬WritesConfined smallVfs [slash, 97] (sizedMachine 0) := by
  obtain ⟨r, q, h, hT⟩ := sizedRead_of_eval 0 (fun r q =>
    (vread 0x10054 (q.2.2.setDir (pmmAllocBlock r.2.2.pmm).1 false)).toOption.isSome)
    (by decide +kernel)
  obtain ⟨x, hread⟩ := Option.isSome_iff_exists.mp hT
  obtain ⟨-, -, hv, ho, hf, hm⟩ := h.segment
  have hend := pageAlignedEnd_eq q.2.1
  have hstart := pageAlignedStart_eq q.2.1
  have hcount : pageCount q.2.1 = 0 := by
    unfold pageCount
    omega
  have hnone : pagesOf q.2.1 = [] := by
    unfold pagesOf
    rw [hcount]
    rfl
  refine ⟨sizedMachine_entry (by decide +kernel), fun ref _ p l a kw _ p' hp' _ pg hpg => ?_,
    fun hall => ?_⟩
  · rw [h.header hp', hnone] at hpg
    exact absurd hpg List.not_mem_nil
  have hsize : 0 < tarReadSize smallFile (pOffset q.2.1) (pFilesz q.2.1) := by
    rw [ho, hf]
    decide
  have hbyte : ((smallFile.impl + pOffset q.2.1) % 2 ^ 32 + 0) % 2 ^ 32 = 0x10054 := by
    rw [ho]
    rfl
  have hwrite := h.write (SegmentWrite.copy (i := 0) (by rw [hcount]; rfl) rfl hsize rfl
    (by rw [hbyte]; exact toOption_eq_some hread))
  have hpage := (hall (.tar 0) smallVfs_find _ _ _ _ hwrite).1
  rw [hnone] at hpage
  exact absurd hpage List.not_mem_nil

end MyOS
