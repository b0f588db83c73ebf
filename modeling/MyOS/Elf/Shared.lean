import MyOS.Elf.Keeps
import MyOS.Vmm.View

/-!
# A load keeps the kernel's view of RAM

The loader works under the new directory, which shares the caller's page
tables, and writes the segments through the MMU. Why does it never write a
directory or a table? Each page it writes is one it has just mapped to a
block of its own, and with `p_filesz <= p_memsz` the file's bytes stay on
these pages. Reads may fault, and a fault maps an absent page, so neither a
page of the segment nor a kernel stack.

`Loading` is what holds between any two accesses: the view of RAM, the pages
`G` of the segment with their blocks, and the blocks `B` in `seg_blocks`; all
of these blocks are data, no directory and no table. The memory, the tables
and the file are otherwise arbitrary: RAM may have been remapped before, and
the file may be read through whatever is mapped there.

What a load requires of the file is said about the program headers it reads
(`programHeaders`), since the file's bytes are read in between.
-/

namespace MyOS

open Lib Lib.Mem Lib.Paging

/-- Under the active directory `d`: the pages `G` are mapped to their blocks,
and these and the blocks of `B` are data. -/
structure Loading (ram d₀ : Nat) (S D : List Nat) (d : Nat) (G : List (Nat × Nat)) (B : List Nat)
    (k : Machine) : Prop where
  view : View ram d₀ S D k
  dir : d ∈ D
  at_dir : k.At d
  pages : ∀ e ∈ G, e.1 < 2 ^ 20 ∧ IsData D k e.2 ∧
    lookup k.mem d (e.1 * 4096) = e.2 * 4096 + 7
  blocks : ∀ x ∈ B, IsData D k (x / 4096)

section Machine

variable {ram d₀ d : Nat} {S D : List Nat} {G : List (Nat × Nat)} {B : List Nat} {k k' : Machine}

/-- A change of memory outside the directories and tables. -/
theorem Loading.write (h : Loading ram d₀ S D d G B k) {m : Mem}
    (hm : ∀ x, FamilyFrame k.mem D (x / 4096) → m x = k.mem x) :
    Loading ram d₀ S D d G B { k with mem := m } := by
  have hfam := h.view.family
  have hdata : ∀ {b}, IsData D k b → IsData D { k with mem := m } b := fun hb =>
    hb.congr (fun d' hd' i hi => hfam.pde_congr hm hd' hi) id
  refine ⟨h.view.congr hm fun b hb => hfam.frame_used hb, h.dir, h.at_dir, fun e he => ?_,
    fun x hx => hdata (h.blocks x hx)⟩
  obtain ⟨hlt, hb, hlook⟩ := h.pages e he
  refine ⟨hlt, hdata hb, ?_⟩
  show lookup m d (e.1 * 4096) = _
  rw [hfam.lookup_congr hm h.dir (by omega), hlook]

theorem Loading.taken (h : Loading ram d₀ S D d G B k) {s' : Pmm} {l : List Nat}
    (ht : Taken k.pmm l s') : Loading ram d₀ S D d G B { k with pmm := s' } := by
  have hdata : ∀ {b}, IsData D k b → IsData D { k with pmm := s' } b := fun hb =>
    hb.congr (fun _ _ _ _ => rfl) fun hu => ht.inUse_iff.mpr (Or.inl hu)
  have hv : View ram d₀ S D { k with pmm := s' } := h.view.taken ht rfl
  exact ⟨hv, h.dir, h.at_dir,
    fun e he => ⟨(h.pages e he).1, hdata (h.pages e he).2.1, (h.pages e he).2.2⟩,
    fun x hx => hdata (h.blocks x hx)⟩

/-- Another directory becomes active; its pages are not followed yet. -/
theorem Loading.setDir (h : Loading ram d₀ S D d G B k) {d' : Nat} (hd' : d' ∈ D) (f : Bool) :
    Loading ram d₀ S D d' [] B (k.setDir d' f) := by
  have hv : View ram d₀ S D (k.setDir d' f) :=
    h.view.congr (fun _ _ => rfl) fun _ hb => h.view.family.frame_used hb
  exact ⟨hv, hd', ⟨rfl, rfl⟩, fun _ he => absurd he List.not_mem_nil, h.blocks⟩

/-- A mapping of a page that is neither a stack nor a page of `G`. -/
theorem Loading.mapped (h : Loading ram d₀ S D d G B k) {a e : Nat} {ts : List Nat}
    (ha : a < 2 ^ 32) (hm : Mapped d a e ts k k') (hS : a / 4096 ∉ S)
    (hG : ∀ p ∈ G, p.1 ≠ a / 4096) : Loading ram d₀ S D d G B k' := by
  have hfam := h.view.family
  refine ⟨h.view.mapped h.dir ha hm hS, h.dir, ?_, fun p hp => ?_,
    fun x hx => (h.blocks x hx).mapped hfam h.dir ha hm⟩
  · rw [hm.regs]
    exact h.at_dir
  · obtain ⟨hlt, hb, hlook⟩ := h.pages p hp
    refine ⟨hlt, hb.mapped hfam h.dir ha hm, ?_⟩
    have hne : p.1 * 4096 / 4096 ≠ a / 4096 := by
      rw [Nat.mul_div_cancel _ (by omega)]
      exact hG p hp
    rw [hm.lookup_eq _ (by omega), if_neg hne, hlook]

/-! ## Accesses through the MMU -/

/-- A fault maps an absent page. -/
theorem Loading.fault (h : Loading ram d₀ S D d G B k) {a err : Nat} (ha : a < 2 ^ 32)
    (habs : translate k.mem d a = none) (hrun : pageFaultHandler a err k = .ok k') :
    Loading ram d₀ S D d G B k' := by
  unfold pageFaultHandler at hrun
  split at hrun
  · by_cases hnull : (pmmAllocBlock k.pmm).1 = 0
    · rw [if_pos hnull] at hrun
      exact absurd hrun (by simp)
    rw [if_neg hnull] at hrun
    obtain ⟨b, -, hfree, haddr, ht⟩ := pmmAllocBlock_taken hnull
    rw [haddr, and_mask ha] at hrun
    have h₁ := h.taken ht
    have hlt := hfree.lt
    have he : b * 4096 ||| (flagPresent ||| flagWrite ||| flagUser) < 2 ^ 32 := by
      rw [or_flags (by omega) (by decide : flagPresent ||| flagWrite ||| flagUser < 4096)]
      show b * 4096 + 7 < 2 ^ 32
      omega
    obtain ⟨ts, hm⟩ := h₁.view.map_runs h₁.at_dir.1 h.dir (by omega) he hrun
    have hpage : a / 4096 * 4096 / 4096 = a / 4096 := Nat.mul_div_cancel _ (by omega)
    refine h₁.mapped (by omega) hm ?_ fun p hp heq => ?_
    · rw [hpage]
      exact h.view.absent h.dir habs
    · -- the pages of `G` are present
      have hlook := (h.pages p hp).2.2
      rw [heq, hpage, lookup_page (w := a) (by omega)] at hlook
      rw [translate_of_lookup hlook] at habs
      exact absurd habs (by simp)
  · exact absurd hrun (by simp)

theorem Loading.access (h : Loading ram d₀ S D d G B k) {write : Bool} {a : Nat} {r : Nat × Machine}
    (ha : a < 2 ^ 32) (hrun : access write a k = .ok r) : Loading ram d₀ S D d G B r.2 := by
  unfold MyOS.access at hrun
  rw [h.at_dir.2] at hrun
  cases htr : translate k.mem d a with
  | some p =>
    rw [htr] at hrun
    cases hrun
    exact h
  | none =>
    rw [htr] at hrun
    obtain ⟨k₁, hfault, hretry⟩ := bind_eq_ok hrun
    have h₁ := h.fault ha htr hfault
    cases htr' : translate k₁.mem k₁.cr3 a with
    | some p =>
      rw [htr'] at hretry
      cases hretry
      exact h₁
    | none =>
      rw [htr'] at hretry
      exact absurd hretry (by simp [retry])

theorem Loading.vread (h : Loading ram d₀ S D d G B k) {a : Nat} {r : UInt8 × Machine}
    (ha : a < 2 ^ 32) (hrun : vread a k = .ok r) : Loading ram d₀ S D d G B r.2 := by
  obtain ⟨x, hx, rfl⟩ := map_eq_ok hrun
  exact h.access ha hx

/-- A write to a page of `G` lands in its block. -/
theorem Loading.vwrite (h : Loading ram d₀ S D d G B k) {a : Nat} {c : UInt8}
    (hG : a / 4096 ∈ G.map Prod.fst) (hrun : vwrite a c k = .ok k') :
    Loading ram d₀ S D d G B k' := by
  obtain ⟨e, he, hpage⟩ := List.mem_map.mp hG
  obtain ⟨-, hb, hlook⟩ := h.pages e he
  rw [hpage, lookup_page (w := a) (by omega)] at hlook
  have htr : translate k.mem k.cr3 a = some (e.2 * 4096 + a % 4096) := by
    rw [h.at_dir.2]
    exact translate_of_lookup hlook
  rw [vwrite_mapped c htr] at hrun
  cases hrun
  exact h.write (hb.agrees fun x hx => write_ne _ _ (by omega))

theorem Loading.vmemset (h : Loading ram d₀ S D d G B k) {dest : Nat} {val : UInt8} : ∀ (n : Nat)
    {k' : Machine}, (∀ i < n, (dest + i) % 2 ^ 32 / 4096 ∈ G.map Prod.fst) →
    vmemset dest val n k = .ok k' → Loading ram d₀ S D d G B k' := by
  intro n
  induction n with
  | zero =>
    intro k' _ hrun
    cases hrun
    exact h
  | succ n ih =>
    intro k' hG hrun
    obtain ⟨k₁, hprev, hlast⟩ := bind_eq_ok hrun
    exact (ih (fun i hi => hG i (by omega)) hprev).vwrite (hG n (by omega)) hlast

/-- The source is any address: a read may fault. -/
theorem Loading.vmemcpy (h : Loading ram d₀ S D d G B k) {dest src : Nat} : ∀ (n : Nat)
    {k' : Machine}, (∀ i < n, (dest + i) % 2 ^ 32 / 4096 ∈ G.map Prod.fst) →
    vmemcpy dest src n k = .ok k' → Loading ram d₀ S D d G B k' := by
  intro n
  induction n with
  | zero =>
    intro k' _ hrun
    cases hrun
    exact h
  | succ n ih =>
    intro k' hG hrun
    obtain ⟨k₁, hprev, hlast⟩ := bind_eq_ok hrun
    obtain ⟨r, hread, hwrite⟩ := bind_eq_ok hlast
    have h₁ := (ih (fun i hi => hG i (by omega)) hprev).vread (Nat.mod_lt _ (by omega)) hread
    exact h₁.vwrite (hG n (by omega)) hwrite

theorem Loading.vcopyOut (h : Loading ram d₀ S D d G B k) {src : Nat} : ∀ (n : Nat)
    {r : Mem × Machine}, vcopyOut src n k = .ok r → Loading ram d₀ S D d G B r.2 := by
  intro n
  induction n with
  | zero =>
    intro r hrun
    cases hrun
    exact h
  | succ n ih =>
    intro r hrun
    obtain ⟨r₁, hprev, hlast⟩ := bind_eq_ok hrun
    obtain ⟨c, hread, rfl⟩ := map_eq_ok hlast
    exact (ih hprev).vread (Nat.mod_lt _ (by omega)) hread

theorem Loading.readFs (h : Loading ram d₀ S D d G B k) {node : FsNode} {offset size buffer : Nat}
    {r : Nat × Machine}
    (hG : ∀ i < tarReadSize node offset size, (buffer + i) % 2 ^ 32 / 4096 ∈ G.map Prod.fst)
    (hrun : readFs node offset size buffer k = .ok r) : Loading ram d₀ S D d G B r.2 := by
  unfold MyOS.readFs at hrun
  split at hrun
  · obtain ⟨k', hcopy, rfl⟩ := map_eq_ok hrun
    exact h.vmemcpy _ hG hcopy
  · cases hrun
    exact h

theorem Loading.readFsLocal (h : Loading ram d₀ S D d G B k) {node : FsNode} {offset size : Nat}
    {r : Nat × Mem × Machine} (hrun : readFsLocal node offset size k = .ok r) :
    Loading ram d₀ S D d G B r.2.2 := by
  unfold MyOS.readFsLocal at hrun
  split at hrun
  · obtain ⟨x, hcopy, rfl⟩ := map_eq_ok hrun
    exact h.vcopyOut _ hcopy
  · cases hrun
    exact h

end Machine

/-! ## What a load requires of the file -/

/-- A segment that is at least as long in memory as in the file, does not wrap
around the address space, and lies outside `ram` blocks of RAM. -/
def SegmentOk (ram : Nat) (p : Mem) : Prop :=
  pFilesz p ≤ pMemsz p ∧ pVaddr p + pMemsz p + 4095 < 2 ^ 32 ∧ ram * 4096 ≤ pVaddr p

instance (ram : Nat) (p : Mem) : Decidable (SegmentOk ram p) :=
  inferInstanceAs (Decidable (_ ∧ _ ∧ _))

/-- Its pages lie outside RAM, and the bytes copied for it lie on them. -/
def SegmentFits (ram : Nat) (file : FsNode) (p : Mem) : Prop :=
  ram ≤ pageAlignedStart p / 4096 ∧
    ∀ i < tarReadSize file (pOffset p) (pFilesz p), (pVaddr p + i) % 2 ^ 32 / 4096 ∈ pagesOf p

theorem SegmentOk.fits {ram : Nat} {p : Mem} (h : SegmentOk ram p) (file : FsNode) :
    SegmentFits ram file p := by
  obtain ⟨hsize, hwrap, hout⟩ := h
  have hstart := pageAlignedStart_eq p
  refine ⟨by omega, fun i hi => ?_⟩
  have hle := tarReadSize_le file (pOffset p) (pFilesz p)
  have hend := pageAlignedEnd_eq p
  rw [Nat.mod_eq_of_lt (by omega : pVaddr p + pMemsz p < 2 ^ 32), Nat.mod_eq_of_lt hwrap] at hend
  rw [Nat.mod_eq_of_lt (by omega : pVaddr p + i < 2 ^ 32)]
  exact mem_pagesOf (by omega) (by omega)

/-- The program headers the header loop reads, with `n` of them left. -/
def headersRead (file : FsNode) (e : Mem) (procPd : Nat) : Nat → Nat → Load → List Mem
  | 0, _, _ => []
  | n + 1, i, l =>
    (readFsLocal file (phdrOffset e i) phdrSize l.k).toOption.elim [] fun r =>
      if r.1 < phdrSize then []
      else r.2.1 :: (loadRead file procPd l r).toOption.elim [] (headersRead file e procPd n (i + 1))

section HeadersRead

variable {file : FsNode} {e : Mem} {procPd n i : Nat} {l : Load} {r : Nat × Mem × Machine}

theorem headersRead_full (hread : readFsLocal file (phdrOffset e i) phdrSize l.k = .ok r)
    (hfull : ¬r.1 < phdrSize) :
    headersRead file e procPd (n + 1) i l =
      r.2.1 :: (loadRead file procPd l r).toOption.elim [] (headersRead file e procPd n (i + 1)) := by
  unfold headersRead
  rw [hread]
  exact if_neg hfull

theorem headersRead_short (hread : readFsLocal file (phdrOffset e i) phdrSize l.k = .ok r)
    (hshort : r.1 < phdrSize) : headersRead file e procPd (n + 1) i l = [] := by
  unfold headersRead
  rw [hread]
  exact if_pos hshort

end HeadersRead

/-- Those of an accepted file, with the directory as `elf_load` makes it. -/
def imageHeaders (file : FsNode) (e : Mem) (k : Machine) : List Mem :=
  let procPd := (pmmAllocBlock k.pmm).1
  if procPd = 0 then []
  else
    headersRead file e procPd (ePhnum e) 0
      ⟨{ k with
        pmm := (pmmAllocBlock k.pmm).2
        mem := k.mem.memcpy procPd k.currentPageDirectory 4096 }, []⟩

/-- The program headers that `elf_load` reads if it is called now. -/
def programHeaders (v : Vfs) (path : List UInt8) (k : Machine) : List Mem :=
  (findNodeByPath v path).elim [] fun ref =>
    (readFsLocal (v.node ref) 0 ehdrSize k).toOption.elim [] fun r =>
      if r.1 < ehdrSize ∨ checkHeader r.2.1 ≠ none then [] else imageHeaders (v.node ref) r.2.1 r.2.2

/-- Every `PT_LOAD` segment of the file is one that `elf_load` can place. -/
def SegmentsOk (ram : Nat) (v : Vfs) (path : List UInt8) (k : Machine) : Prop :=
  ∀ p ∈ programHeaders v path k, pType p = ptLoad → SegmentOk ram p

instance (ram : Nat) (v : Vfs) (path : List UInt8) (k : Machine) :
    Decidable (SegmentsOk ram v path k) := inferInstanceAs (Decidable (∀ p ∈ _, _))

/-! ## The loader -/

/-- How a part of a load ends: under `dir` with some pages that satisfy `Q`,
or on the way to `cleanup` under the caller's directory `old`. -/
def SharedEnd (ram d₀ : Nat) (S D : List Nat) (dir old : Nat) (Q : List (Nat × Nat) → Prop) :
    Except Stop Load → Prop
  | .ok l => ∃ G, Q G ∧ Loading ram d₀ S D dir G l.segBlocks l.k
  | .error (.cleanup _ l) => Loading ram d₀ S D old [] l.segBlocks l.k
  | .error (.halt _) => True

section Loader

variable {ram d₀ dir old P : Nat} {S D : List Nat} {G : List (Nat × Nat)} {l : Load}

theorem SharedEnd.bind {dir' : Nat} {Q Q' : List (Nat × Nat) → Prop} {x : Except Stop Load}
    {f : Load → Except Stop Load} (hx : SharedEnd ram d₀ S D dir old Q x)
    (hf : ∀ l G, Q G → Loading ram d₀ S D dir G l.segBlocks l.k →
      SharedEnd ram d₀ S D dir' old Q' (f l)) : SharedEnd ram d₀ S D dir' old Q' (x.bind f) := by
  match x, hx with
  | .ok l, ⟨G, hQ, hl⟩ =>
    rw [ok_bind]
    exact hf l G hQ hl
  | .error (.cleanup _ _), h => exact h
  | .error (.halt _), _ => trivial

/-- Fewer things may be known of the pages. -/
theorem SharedEnd.mono {Q Q' : List (Nat × Nat) → Prop} {x : Except Stop Load}
    (hx : SharedEnd ram d₀ S D dir old Q x) (hQ : ∀ G, Q G → Q' G) :
    SharedEnd ram d₀ S D dir old Q' x := by
  match x, hx with
  | .ok l, ⟨G, h, hl⟩ => exact ⟨G, hQ G h, hl⟩
  | .error (.cleanup _ _), h => exact h
  | .error (.halt _), _ => trivial

/-- The page just mapped joins `G`, its block `seg_blocks` if there is
room. -/
theorem Loading.page (h : Loading ram d₀ S D P G l.segBlocks l.k) {v : Nat} {k₁ : Machine}
    (hal : v % 4096 = 0) (hv : v < 2 ^ 32) (hS : v / 4096 ∉ S) (hG : ∀ e ∈ G, e.1 ≠ v / 4096)
    (hnull : (pmmAllocBlock l.k.pmm).1 ≠ 0)
    (hmap : vmmMapPage (pmmAllocBlock l.k.pmm).1 v (flagPresent ||| flagWrite ||| flagUser)
      { l.k with pmm := (pmmAllocBlock l.k.pmm).2 } = .ok k₁) :
    ∃ b, IsFree l.k.pmm b ∧ Loading ram d₀ S D P ((v / 4096, b) :: G)
      (if l.segBlocks.length < maxSegmentBlocks then l.segBlocks ++ [(pmmAllocBlock l.k.pmm).1]
        else l.segBlocks) k₁ := by
  have hpg : v / 4096 < 2 ^ 20 := by omega
  have hpage : v / 4096 * 4096 = v := by omega
  obtain ⟨b, -, hfree, haddr, ht⟩ := pmmAllocBlock_taken hnull
  have hblock : b * 4096 / 4096 = b := Nat.mul_div_cancel _ (by omega)
  have hflags : b * 4096 ||| (flagPresent ||| flagWrite ||| flagUser) = b * 4096 + 7 :=
    or_flags (by omega) (by decide)
  have hlt := hfree.lt
  rw [haddr] at hmap ⊢
  have h₁ := h.taken ht
  have hdata := isData_fresh h.view.family ht
  obtain ⟨ts, hm⟩ := h₁.view.map_runs h₁.at_dir.1 h.dir hv (by rw [hflags]; omega) hmap
  have hdata₁ := hdata.mapped h₁.view.family h.dir hv hm
  have h₂ := h₁.mapped hv hm hS hG
  refine ⟨b, hfree, h₂.view, h₂.dir, h₂.at_dir, fun e he => ?_, fun x hx => ?_⟩
  · rcases List.mem_cons.mp he with rfl | he
    · refine ⟨hpg, hdata₁, ?_⟩
      show lookup k₁.mem P (v / 4096 * 4096) = b * 4096 + 7
      rw [hpage, hm.lookup_eq v hv, if_pos rfl, hflags]
    · exact h₂.pages e he
  · split at hx
    · rcases List.mem_append.mp hx with hx | hx
      · exact h₂.blocks x hx
      · rw [List.mem_singleton.mp hx, hblock]
        exact hdata₁
    · exact h₂.blocks x hx

theorem loadPage_shared (h : Loading ram d₀ S D P G l.segBlocks l.k) (hold : old ∈ D) {v : Nat}
    (hal : v % 4096 = 0) (hv : v < 2 ^ 32) (hS : v / 4096 ∉ S) (hG : ∀ e ∈ G, e.1 ≠ v / 4096) :
    SharedEnd ram d₀ S D P old (fun G' => ∃ b, IsFree l.k.pmm b ∧ G' = (v / 4096, b) :: G)
      (loadPage old v l) := by
  unfold loadPage
  by_cases hnull : (pmmAllocBlock l.k.pmm).1 = 0
  · simp only [if_pos hnull]
    obtain ⟨ts, ht⟩ := pmmAllocBlock_takes l.k.pmm
    exact (h.taken ht).setDir hold true
  simp only [if_neg hnull]
  cases hrun : (vmmMapPage (pmmAllocBlock l.k.pmm).1 v (flagPresent ||| flagWrite ||| flagUser)
      { l.k with pmm := (pmmAllocBlock l.k.pmm).2 }).bind (vmemset v 0 4096) with
  | error p => trivial
  | ok k' =>
    obtain ⟨k₁, hmap, hset⟩ := bind_eq_ok hrun
    obtain ⟨b, hfree, h₃⟩ := h.page hal hv hS hG hnull hmap
    refine ⟨(v / 4096, b) :: G, ⟨b, hfree, rfl⟩, h₃.vmemset 4096 (fun i hi => ?_) hset⟩
    have hsame : (v + i) % 2 ^ 32 / 4096 = v / 4096 := by omega
    rw [hsame]
    exact List.mem_cons_self

/-- The pages go upwards, so no page is mapped twice in one segment. -/
theorem loadPages_shared (hold : old ∈ D) : ∀ (n : Nat) {v : Nat} {l : Load} {G : List (Nat × Nat)},
    Loading ram d₀ S D P G l.segBlocks l.k → v % 4096 = 0 → v + n * 4096 ≤ 2 ^ 32 →
    ram ≤ v / 4096 → (∀ e ∈ G, e.1 < v / 4096) →
    SharedEnd ram d₀ S D P old
      (fun G' => (∀ e ∈ G, e ∈ G') ∧ (∀ j < n, v / 4096 + j ∈ G'.map Prod.fst) ∧
        ∀ e ∈ G', e ∈ G ∨ IsFree l.k.pmm e.2) (loadPages old n v l) := by
  intro n
  induction n with
  | zero =>
    intro v l G h _ _ _ _
    exact ⟨G, ⟨fun _ he => he, fun j hj => absurd hj (Nat.not_lt_zero j),
      fun _ he => Or.inl he⟩, h⟩
  | succ n ih =>
    intro v l G h hal hend hram hG
    unfold loadPages
    have hS : v / 4096 ∉ S := fun hs => by
      have := (h.view.kstacks _ hs).1
      omega
    have hfirst := loadPage_shared h hold hal (by omega) hS fun e he => Nat.ne_of_lt (hG e he)
    cases hpage : loadPage old v l with
    | error stop =>
      rw [hpage] at hfirst
      rw [error_bind]
      cases stop with
      | cleanup _ _ => exact hfirst
      | halt _ => trivial
    | ok l' =>
      rw [hpage] at hfirst
      obtain ⟨_, ⟨b, hfree, rfl⟩, h'⟩ := hfirst
      obtain ⟨ts, ht⟩ := (loadPage_quiet hpage).taken
      have hnext : (v + 4096) / 4096 = v / 4096 + 1 := by omega
      have hrest := ih (v := v + 4096) h' (by omega) (by omega) (by omega)
        fun e he => by
          rw [hnext]
          rcases List.mem_cons.mp he with rfl | he
          · exact Nat.lt_succ_self _
          · exact Nat.lt_succ_of_lt (hG e he)
      rw [ok_bind]
      refine hrest.mono fun G' hG' => ⟨fun e he => hG'.1 e (List.mem_cons_of_mem _ he),
        fun j hj => ?_, fun e he => ?_⟩
      · cases j with
        | zero => exact List.mem_map_of_mem (f := Prod.fst) (hG'.1 _ List.mem_cons_self)
        | succ j =>
          have hj' := hG'.2.1 j (by omega)
          rw [hnext] at hj'
          have heq : v / 4096 + (j + 1) = v / 4096 + 1 + j := by omega
          rw [heq]
          exact hj'
      · rcases hG'.2.2 e he with hold | hnew
        · rcases List.mem_cons.mp hold with rfl | hold
          · exact Or.inr hfree
          · exact Or.inl hold
        · exact Or.inr (ht.isFree hnew).1

/-- The pages of a segment are there before its bytes are copied. -/
theorem loadSegment_pages {p : Mem} (h : Loading ram d₀ S D old [] l.segBlocks l.k)
    (hP : P ∈ D) (hout : ram ≤ pageAlignedStart p / 4096) :
    SharedEnd ram d₀ S D P old
      (fun G => (∀ pg ∈ pagesOf p, pg ∈ G.map Prod.fst) ∧ ∀ e ∈ G, IsFree l.k.pmm e.2)
      (loadPages old (pageCount p) (pageAlignedStart p) { l with k := l.k.setDir P false }) := by
  have hstart := pageAlignedStart_eq p
  have hpages := loadPages_shared (l := { l with k := l.k.setDir P false }) h.dir (pageCount p)
    (v := pageAlignedStart p) (h.setDir hP false) (by omega) (page_end_le p) hout
    (fun e he => absurd he List.not_mem_nil)
  refine hpages.mono fun G hG => ⟨fun pg hpg => ?_, fun e he =>
    (hG.2.2 e he).resolve_left List.not_mem_nil⟩
  have hmem := List.mem_range'_1.mp hpg
  have hj := hG.2.1 (pg - pageAlignedStart p / 4096) (by omega)
  rw [Nat.add_sub_cancel' hmem.1] at hj
  exact hj

theorem loadSegment_shared {file : FsNode} {p : Mem} (h : Loading ram d₀ S D old [] l.segBlocks l.k)
    (hP : P ∈ D) (hok : SegmentFits ram file p) :
    SharedEnd ram d₀ S D old old (· = []) (loadSegment file P p l) := by
  unfold loadSegment
  rw [h.at_dir.1]
  refine (loadSegment_pages h hP hok.1).bind fun l' G hG h' => ?_
  cases hread : readFs file (pOffset p) (pFilesz p) (pVaddr p) l'.k with
  | error e => trivial
  | ok r =>
    exact ⟨[], rfl, (h'.readFs (fun i hi => hG.1 _ (hok.2 i hi)) hread).setDir h.dir true⟩

theorem loadRead_shared {file : FsNode} {r : Nat × Mem × Machine}
    (h : Loading ram d₀ S D old [] l.segBlocks r.2.2) (hP : P ∈ D)
    (hok : ¬r.1 < phdrSize → pType r.2.1 = ptLoad → SegmentFits ram file r.2.1) :
    SharedEnd ram d₀ S D old old (· = []) (loadRead file P l r) := by
  unfold loadRead
  split
  next => exact h
  next hfull =>
    split
    next hload => exact loadSegment_shared (l := { l with k := r.2.2 }) h hP (hok hfull hload)
    next => exact ⟨[], rfl, h⟩

/-- The loop goes on only behind a header that was read in full. -/
theorem loadRead_full {file : FsNode} {r : Nat × Mem × Machine} {l' : Load}
    (h : loadRead file P l r = .ok l') : ¬r.1 < phdrSize := by
  intro hshort
  unfold loadRead at h
  rw [if_pos hshort] at h
  exact absurd h (by simp)

theorem loadHeaders_shared (file : FsNode) (e : Mem) (hP : P ∈ D) : ∀ (n i : Nat) {l : Load},
    Loading ram d₀ S D old [] l.segBlocks l.k →
    (∀ p ∈ headersRead file e P n i l, pType p = ptLoad → SegmentFits ram file p) →
    SharedEnd ram d₀ S D old old (· = []) (loadHeaders file e P n i l) := by
  intro n
  induction n with
  | zero =>
    intro i l h _
    exact ⟨[], rfl, h⟩
  | succ n ih =>
    intro i l h hok
    unfold loadHeaders loadHeader
    cases hread : readFsLocal file (phdrOffset e i) phdrSize l.k with
    | error p => trivial
    | ok r =>
      have hok' : ¬r.1 < phdrSize → ∀ p ∈ r.2.1 :: (loadRead file P l r).toOption.elim []
          (headersRead file e P n (i + 1)), pType p = ptLoad → SegmentFits ram file p := by
        intro hfull p hp
        rw [← headersRead_full hread hfull] at hp
        exact hok p hp
      rw [ok_mapError, ok_bind]
      have hfirst : SharedEnd ram d₀ S D old old (· = []) (loadRead file P l r) :=
        loadRead_shared (h.readFsLocal hread) hP fun hfull => hok' hfull _ List.mem_cons_self
      cases hrest : loadRead file P l r with
      | ok l' =>
        rw [hrest] at hfirst hok'
        obtain ⟨G, rfl, h'⟩ := hfirst
        have hfull := loadRead_full hrest
        exact ih (i + 1) h' fun p hp => hok' hfull p (List.mem_cons_of_mem _ hp)
      | error stop =>
        rw [hrest] at hfirst
        rw [error_bind]
        exact hfirst

/-! ## The whole call -/

theorem inUse_freeAll {c : Nat} : ∀ (bs : List Nat) {s : Pmm}, InUse s c →
    (∀ x ∈ bs, c ≠ x / 4096) → InUse (bs.foldl (fun s b => pmmFreeBlock b s) s) c := by
  intro bs
  induction bs with
  | nil =>
    intro s h _
    exact h
  | cons x bs ih =>
    intro s h hne
    have hfirst := inUse_pmmFreeBlock h (hne x List.mem_cons_self)
    exact ih hfirst fun y hy => hne y (List.mem_cons_of_mem _ hy)

/-- `cleanup` frees data and the new directory, no frame of the others. -/
theorem cleanup_shared (h : Loading ram d₀ S (P * 4096 :: D) old [] l.segBlocks l.k)
    (hP : P * 4096 ∉ D) (h₀ : d₀ ∈ D) : View ram d₀ S D (cleanup (P * 4096) l) := by
  have hfam := h.view.family
  have hin : ∀ {d}, d ∈ D → d ∈ P * 4096 :: D := fun hd => List.mem_cons_of_mem _ hd
  refine View.congr (h.view.subset (fun _ hd => hin hd) h₀) (fun _ _ => rfl) fun b hb => ?_
  have hall : FamilyFrame l.k.mem (P * 4096 :: D) b := by
    obtain ⟨d, hd, hf⟩ := hb
    exact ⟨d, hin hd, hf⟩
  refine inUse_pmmFreeBlock (inUse_freeAll _ (hfam.frame_used hall) fun x hx heq =>
    (h.blocks x hx).2 (heq ▸ hall)) ?_
  -- a frame of another directory is not the new directory
  obtain ⟨d, hd, rfl | ⟨i, hi, hp, rfl⟩⟩ := hb
  · exact hfam.dir_ne List.mem_cons_self (hin hd) fun heq => hP (heq ▸ hd)
  · exact hfam.apart d (hin hd) i hi hp _ List.mem_cons_self

/-- The directories after a load. -/
def loadedDirs (D : List Nat) : ElfResult → List Nat
  | .ok (_, pd) => pd :: D
  | .error _ => D

theorem elfLoadImage_shared {file : FsNode} {e : Mem} {k k' : Machine} {r : ElfResult}
    (h : Loading ram d₀ S D old [] [] k)
    (hok : ∀ p ∈ imageHeaders file e k, pType p = ptLoad → SegmentFits ram file p)
    (hrun : elfLoadImage file e k = .ok (r, k')) : View ram d₀ S (loadedDirs D r) k' := by
  have hcur := h.at_dir.1
  subst hcur
  unfold elfLoadImage at hrun
  unfold imageHeaders at hok
  by_cases hnull : (pmmAllocBlock k.pmm).1 = 0
  · rw [if_pos hnull] at hrun
    cases hrun
    obtain ⟨ts, ht⟩ := pmmAllocBlock_takes k.pmm
    exact (h.taken ht).view
  rw [if_neg hnull] at hrun hok
  obtain ⟨P, -, hfree, haddr, ht⟩ := pmmAllocBlock_taken hnull
  rw [haddr] at hrun hok
  have hP : P * 4096 ∉ D := fun hd => by
    have hused := (h.view.family.backed _ hd).dir_used
    rw [Nat.mul_div_cancel _ (by omega)] at hused
    exact hfree.not_inUse hused
  have hstart : Loading ram d₀ S (P * 4096 :: D) k.currentPageDirectory [] [] { k with
      pmm := (pmmAllocBlock k.pmm).2
      mem := k.mem.memcpy (P * 4096) k.currentPageDirectory 4096 } :=
    ⟨h.view.copy h.dir ht, List.mem_cons_of_mem _ h.dir, h.at_dir,
      fun _ he => absurd he List.not_mem_nil, fun _ hx => absurd hx List.not_mem_nil⟩
  have hend := loadHeaders_shared file e (P := P * 4096) List.mem_cons_self (ePhnum e) 0
    (l := ⟨_, []⟩) hstart hok
  revert hend hrun
  generalize loadHeaders file e (P * 4096) (ePhnum e) 0 _ = x
  intro hrun hend
  match x, hend with
  | .ok l, ⟨G, _, hl⟩ =>
    rw [finish] at hrun
    cases hrun
    exact hl.view
  | .error (.cleanup err l), hl =>
    rw [finish] at hrun
    cases hrun
    exact cleanup_shared hl hP h.view.kernel
  | .error (.halt p), _ =>
    rw [finish] at hrun
    exact absurd hrun (by simp)

end Loader

/-- **A load.** Called under one of the directories, for a file whose segments
can be placed: the directories keep the kernel's view, and the new one has
it too. -/
theorem elfLoad_shared {ram d₀ : Nat} {S D : List Nat} {v : Vfs} {path : List UInt8} {k k' : Machine}
    {r : ElfResult} (h : View ram d₀ S D k) (hd : k.currentPageDirectory ∈ D)
    (hcr3 : k.cr3 = k.currentPageDirectory) (hok : SegmentsOk ram v path k)
    (hrun : elfLoad v path k = .ok (r, k')) : View ram d₀ S (loadedDirs D r) k' := by
  unfold elfLoad at hrun
  unfold SegmentsOk programHeaders at hok
  cases hfind : findNodeByPath v path with
  | none =>
    rw [hfind, Option.elim_none] at hrun
    cases hrun
    exact h
  | some ref =>
    rw [hfind, Option.elim_some] at hrun hok
    obtain ⟨⟨n, e, k₁⟩, hread, hrest⟩ := bind_eq_ok hrun
    have hcall : Loading ram d₀ S D k.currentPageDirectory [] [] k :=
      ⟨h, hd, ⟨rfl, hcr3⟩, fun _ he => absurd he List.not_mem_nil,
        fun _ hx => absurd hx List.not_mem_nil⟩
    have h₁ : Loading ram d₀ S D k.currentPageDirectory [] [] k₁ := hcall.readFsLocal hread
    rw [hread] at hok
    unfold elfLoadRead at hrest
    by_cases hshort : n < ehdrSize
    · rw [if_pos hshort] at hrest
      cases hrest
      exact h₁.view
    rw [if_neg hshort] at hrest
    cases hc : checkHeader e with
    | some err =>
      rw [hc, Option.elim_some] at hrest
      cases hrest
      exact h₁.view
    | none =>
      rw [hc, Option.elim_none] at hrest
      refine elfLoadImage_shared h₁ (fun p hp hload => (hok p ?_ hload).fits _) hrest
      show p ∈ if n < ehdrSize ∨ checkHeader e ≠ none then [] else imageHeaders (v.node ref) e k₁
      rw [if_neg fun hbad => hbad.elim hshort fun hne => hne hc]
      exact hp

end MyOS
