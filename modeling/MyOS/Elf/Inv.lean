import MyOS.Elf.Load
import Mathlib.Data.Finset.Card

/-!
# The state of a load

`LoadInv` is what holds between any two steps of `elf_load` after the new
directory was made. It is stated against the machine `k₀` at the call: which
frames were taken (the directory `P`, the segment pages in `F`, the page
tables in `T`), what the new directory maps, which memory may have changed
and what `seg_blocks` holds. The page list `F` is ghost state, newest first:
page number and frame.

Two of its fields carry the weight. `slots` says which tables the new
directory shares with the caller's: every present one. `frame` says that
outside the frames that were free at the call only shared tables of loaded
pages change. Everything the results of this directory say about isolation,
contents and leaks is read off these.
-/

namespace MyOS

open Lib Lib.Mem Lib.Paging

/-- What `elf_load` relies on at the call: CR3 holds the active directory,
the directory is sound, and block 0 is reserved, so `NULL` is never a
frame. -/
structure Entry (k : Machine) : Prop where
  zero : bitmapTest k.pmm 0 = true
  cr3 : k.cr3 = k.currentPageDirectory
  dir : DirOk k k.currentPageDirectory

/-- The file is a TAR node: its contents follow a 512-byte header, below
4 GiB. Its bytes are mapped and lie in memory that is not free. -/
structure Readable (k : Machine) (file : FsNode) : Prop where
  read : file.read = true
  header : 512 ≤ file.impl
  fits : file.impl + file.length ≤ 2 ^ 32
  mapped : ∀ i < file.length, ∃ p,
    translate k.mem k.currentPageDirectory (file.impl + i) = some p ∧ ¬IsFree k.pmm (p / 4096)

/-- The physical address of byte `i` of the file. -/
def filePhys (k : Machine) (file : FsNode) (i : Nat) : Nat :=
  (translate k.mem k.currentPageDirectory (file.impl + i)).getD 0

/-- Byte `i` of the file. -/
def fileByte (k : Machine) (file : FsNode) (i : Nat) : UInt8 := k.mem (filePhys k file i)

/-- Slot `i` has a page table at the call. -/
def HasTable (k : Machine) (i : Nat) : Prop := Present (pde k.mem k.currentPageDirectory i)

instance (k : Machine) (i : Nat) : Decidable (HasTable k i) := inferInstanceAs (Decidable (Present _))

/-- The table of slot `i` at the call. -/
def tableAt (k : Machine) (i : Nat) : Nat := pde k.mem k.currentPageDirectory i / 4096

/-- Loading the page `pg` does not disturb the file: the page is not mapped
at the call, and if its slot has a table, the file is not stored there. -/
def Safe (k : Machine) (file : FsNode) (pg : Nat) : Prop :=
  ¬Present (lookup k.mem k.currentPageDirectory (pg * 4096)) ∧
  (HasTable k (pg / 1024) → ∀ i < file.length, filePhys k file i / 4096 ≠ tableAt k (pg / 1024))

/-- No byte of the file lies in the page `pg`, nor in the table of its
slot. -/
def Spared (k : Machine) (file : FsNode) (pg : Nat) : Prop :=
  (∀ i < file.length, (file.impl + i) / 4096 ≠ pg) ∧
  (HasTable k (pg / 1024) → ∀ i < file.length, filePhys k file i / 4096 ≠ tableAt k (pg / 1024))

/-- Loading the page `pg` does not cover a page table: if the page is mapped
at the call, its block is no part of the active directory, nor one of the
first `n` that are free. -/
def OffTables (k : Machine) (n pg : Nat) : Prop :=
  Present (lookup k.mem k.currentPageDirectory (pg * 4096)) →
    ¬Frames k.mem k.currentPageDirectory pg ∧ (IsFree k.pmm pg → n ≤ freeBelow k.pmm pg)

/-- The frame of a page, the newest first. -/
def frameOf : List (Nat × Nat) → Nat → Option Nat
  | [], _ => none
  | e :: F, pg => if pg = e.1 then some e.2 else frameOf F pg

/-- The slots of the pages that have no table at the call. -/
def newTables (k : Machine) (pgs : List Nat) : Finset Nat :=
  (pgs.map (· / 1024)).toFinset.filter fun i => ¬HasTable k i

/-- The frames a load of these pages takes: the directory, a frame for each
page and a table for each new slot. -/
def need (k : Machine) (pgs : List Nat) : Nat := 1 + pgs.length + (newTables k pgs).card

/-- The load's state against the machine at the call. -/
structure LoadInv (k₀ : Machine) (file : FsNode) (P : Nat) (F : List (Nat × Nat)) (T : List Nat)
    (l : Load) : Prop where
  taken : Taken k₀.pmm (T ++ (F.map Prod.snd ++ [P])) l.k.pmm
  sep : Sep (InUse l.k.pmm) l.k.mem (P * 4096)
  look : ∀ v < 2 ^ 32, lookup l.k.mem (P * 4096) v =
    (frameOf F (v / 4096)).elim (lookup k₀.mem k₀.currentPageDirectory v) (· * 4096 + 7)
  slots : ∀ i < 1024,
    pde l.k.mem (P * 4096) i = pde k₀.mem k₀.currentPageDirectory i ∨
    (¬HasTable k₀ i ∧ ∃ t ∈ T, pde l.k.mem (P * 4096) i = t * 4096 + 7)
  present : ∀ i < 1024, Present (pde l.k.mem (P * 4096) i) ↔
    HasTable k₀ i ∨ i ∈ (F.map Prod.fst).map (· / 1024)
  tables : T.length = (newTables k₀ (F.map Prod.fst)).card
  frame : ∀ x, ¬IsFree k₀.pmm (x / 4096) →
    (∀ e ∈ F, HasTable k₀ (e.1 / 1024) → x / 4096 ≠ tableAt k₀ (e.1 / 1024)) →
    l.k.mem x = k₀.mem x
  pages : ∀ e ∈ F, e.1 < 2 ^ 20 ∧ Spared k₀ file e.1
  seg : l.segBlocks = ((F.map (·.2 * 4096)).reverse).take maxSegmentBlocks

/-! ## Pages, slots and counts -/

theorem frameOf_none {F : List (Nat × Nat)} {pg : Nat} (h : ∀ e ∈ F, e.1 ≠ pg) :
    frameOf F pg = none := by
  induction F with
  | nil => rfl
  | cons e F ih =>
    unfold frameOf
    rw [if_neg fun he => h e List.mem_cons_self he.symm]
    exact ih fun e' he' => h e' (List.mem_cons_of_mem _ he')

theorem frameOf_mem {F : List (Nat × Nat)} {pg f : Nat} (h : frameOf F pg = some f) :
    (pg, f) ∈ F := by
  induction F with
  | nil => exact absurd h (by simp [frameOf])
  | cons e F ih =>
    unfold frameOf at h
    split at h
    next he =>
      cases h
      rw [he]
      exact List.mem_cons_self
    next => exact List.mem_cons_of_mem _ (ih h)

theorem frameOf_append {G F : List (Nat × Nat)} {pg : Nat} :
    frameOf (G ++ F) pg = (frameOf G pg).or (frameOf F pg) := by
  induction G with
  | nil => rfl
  | cons e G ih =>
    rw [List.cons_append, frameOf, frameOf]
    split
    · rfl
    · exact ih

/-- A page with an entry has a frame. -/
theorem frameOf_isSome {F : List (Nat × Nat)} {pg : Nat} (h : pg ∈ F.map Prod.fst) :
    ∃ f, frameOf F pg = some f := by
  induction F with
  | nil => exact absurd h List.not_mem_nil
  | cons e F ih =>
    unfold frameOf
    split
    · exact ⟨e.2, rfl⟩
    next hne =>
      rw [List.map_cons, List.mem_cons] at h
      exact ih (h.resolve_left hne)

theorem pdIndex_page (v : Nat) : pdIndex v = v / 4096 / 1024 := by
  rw [pdIndex_eq]
  omega

theorem newTables_cons_of_mem {k : Machine} {pg : Nat} {pgs : List Nat}
    (h : HasTable k (pg / 1024) ∨ pg / 1024 ∈ pgs.map (· / 1024)) :
    newTables k (pg :: pgs) = newTables k pgs := by
  ext i
  simp only [newTables, List.map_cons, List.toFinset_cons, Finset.mem_filter, Finset.mem_insert,
    List.mem_toFinset]
  constructor
  · intro hi
    rcases hi with ⟨rfl | hmem, hno⟩
    · exact ⟨h.resolve_left hno, hno⟩
    · exact ⟨hmem, hno⟩
  · intro hi
    exact ⟨Or.inr hi.1, hi.2⟩

theorem card_newTables_cons {k : Machine} {pg : Nat} {pgs : List Nat}
    (hno : ¬HasTable k (pg / 1024)) (hnew : pg / 1024 ∉ pgs.map (· / 1024)) :
    (newTables k (pg :: pgs)).card = (newTables k pgs).card + 1 := by
  have hins : newTables k (pg :: pgs) = insert (pg / 1024) (newTables k pgs) := by
    ext i
    simp only [newTables, List.map_cons, List.toFinset_cons, Finset.mem_filter, Finset.mem_insert,
      List.mem_toFinset]
    constructor
    · intro hi
      exact hi.1.imp id fun hmem => ⟨hmem, hi.2⟩
    · intro hi
      rcases hi with rfl | hi
      · exact ⟨Or.inl rfl, hno⟩
      · exact ⟨Or.inr hi.1, hi.2⟩
  rw [hins]
  refine Finset.card_insert_of_notMem fun hmem => ?_
  simp only [newTables, Finset.mem_filter, List.mem_toFinset] at hmem
  exact hnew hmem.1

theorem card_newTables_mono {k : Machine} {pgs qgs : List Nat} (hsub : ∀ pg ∈ pgs, pg ∈ qgs) :
    (newTables k pgs).card ≤ (newTables k qgs).card := by
  refine Finset.card_le_card fun i hi => ?_
  simp only [newTables, Finset.mem_filter, List.mem_toFinset, List.mem_map] at hi ⊢
  obtain ⟨⟨pg, hpg, rfl⟩, hno⟩ := hi
  exact ⟨⟨pg, hsub pg hpg, rfl⟩, hno⟩

section Invariant

variable {k₀ : Machine} {file : FsNode} {P : Nat} {F : List (Nat × Nat)} {T : List Nat} {l : Load}

/-- As many blocks are taken as the pages need. -/
theorem LoadInv.taken_length (h : LoadInv k₀ file P F T l) :
    (T ++ (F.map Prod.snd ++ [P])).length = need k₀ (F.map Prod.fst) := by
  simp only [List.length_append, List.length_map, List.length_cons, List.length_nil]
  unfold need
  rw [List.length_map, ← h.tables]
  omega

/-- The count: what is left is what was free less what the pages need. -/
theorem LoadInv.freeCount (h : LoadInv k₀ file P F T l) :
    freeCount l.k.pmm + need k₀ (F.map Prod.fst) = freeCount k₀.pmm := by
  rw [← h.taken_length]
  exact h.taken.freeCount

theorem LoadInv.dirFree (h : LoadInv k₀ file P F T l) : IsFree k₀.pmm P :=
  h.taken.mem_isFree (by simp)

theorem LoadInv.pageFree (h : LoadInv k₀ file P F T l) {e : Nat × Nat} (he : e ∈ F) :
    IsFree k₀.pmm e.2 :=
  h.taken.mem_isFree (List.mem_append_right _ (List.mem_append_left _ (List.mem_map_of_mem he)))

theorem LoadInv.tableFree (h : LoadInv k₀ file P F T l) {t : Nat} (ht : t ∈ T) :
    IsFree k₀.pmm t :=
  h.taken.mem_isFree (List.mem_append_left _ ht)

/-- The three kinds of frames are distinct from one another. -/
theorem LoadInv.distinct (h : LoadInv k₀ file P F T l) {e : Nat × Nat} (he : e ∈ F) :
    e.2 ≠ P ∧ e.2 ∉ T := by
  obtain ⟨-, hFP, hdisj⟩ := List.nodup_append.mp h.taken.nodup
  obtain ⟨-, -, hP⟩ := List.nodup_append.mp hFP
  have hmem : e.2 ∈ F.map Prod.snd := List.mem_map_of_mem he
  exact ⟨hP _ hmem _ (List.mem_singleton.mpr rfl),
    fun ht => hdisj _ ht _ (List.mem_append_left _ hmem) rfl⟩

/-- Two pages never share a frame. -/
theorem LoadInv.frames_nodup (h : LoadInv k₀ file P F T l) : (F.map Prod.snd).Nodup := by
  obtain ⟨-, hFP, -⟩ := List.nodup_append.mp h.taken.nodup
  exact (List.nodup_append.mp hFP).1

theorem LoadInv.frame_inj (h : LoadInv k₀ file P F T l) {a b : Nat × Nat} (ha : a ∈ F) (hb : b ∈ F)
    (heq : a.2 = b.2) : a = b :=
  List.inj_on_of_nodup_map h.frames_nodup ha hb heq

/-- A segment's frame is no part of the new directory. -/
theorem LoadInv.page_not_frames (hk : Entry k₀) (h : LoadInv k₀ file P F T l) {e : Nat × Nat}
    (he : e ∈ F) : ¬Frames l.k.mem (P * 4096) e.2 := by
  obtain ⟨hP, hT⟩ := h.distinct he
  intro hf
  rcases hf with hd | ⟨i, hi, hp, ht⟩
  · rw [Nat.mul_div_cancel _ (by omega)] at hd
    exact hP hd
  · rcases h.slots i hi with heq | ⟨-, t, hmem, heq⟩
    · rw [heq] at hp ht
      exact (h.pageFree he).not_inUse (ht ▸ hk.dir.table_used i hi hp)
    · rw [heq, frame_entry] at ht
      exact hT (ht ▸ hmem)

/-- Writes into the frames of loaded pages keep the invariant. -/
theorem LoadInv.writePages (hk : Entry k₀) (h : LoadInv k₀ file P F T l) {m : Mem} {l' : Load}
    (hm : ∀ x, (∀ e ∈ F, x / 4096 ≠ e.2) → m x = l.k.mem x)
    (hmem : l'.k.mem = m) (hpmm : l'.k.pmm = l.k.pmm) (hseg : l'.segBlocks = l.segBlocks) :
    LoadInv k₀ file P F T l' := by
  have hagree : ∀ x, Frames l.k.mem (P * 4096) (x / 4096) → m x = l.k.mem x := fun x hx =>
    hm x fun e he heq => h.page_not_frames hk he (heq ▸ hx)
  have hb : Backed (Frames l.k.mem (P * 4096)) l.k.mem (P * 4096) :=
    backed_frames (by omega)
  have hpde : ∀ i < 1024, pde m (P * 4096) i = pde l.k.mem (P * 4096) i := fun i hi =>
    hb.pde_congr hagree hi
  refine ⟨by rw [hpmm]; exact h.taken, ?_, fun v hv => ?_, fun i hi => ?_, fun i hi => ?_, h.tables,
    fun x hx hs => ?_, h.pages, by rw [hseg]; exact h.seg⟩
  · rw [hpmm, hmem]
    exact h.sep.of_pde hpde
  · rw [hmem, hb.lookup_congr hagree hv]
    exact h.look v hv
  · rw [hmem, hpde i hi]
    exact h.slots i hi
  · rw [hmem, hpde i hi]
    exact h.present i hi
  · rw [hmem, hm x fun e he heq => hx (heq ▸ h.pageFree he)]
    exact h.frame x hx hs

/-! ### The file, through either directory -/

theorem Readable.phys (hf : Readable k₀ file) {i : Nat} (hi : i < file.length) :
    translate k₀.mem k₀.currentPageDirectory (file.impl + i) = some (filePhys k₀ file i) ∧
      ¬IsFree k₀.pmm (filePhys k₀ file i / 4096) := by
  obtain ⟨p, hp, hfree⟩ := hf.mapped i hi
  unfold filePhys
  rw [hp]
  exact ⟨rfl, hfree⟩

/-- The file's pages are mapped, so an unmapped page spares it. -/
theorem Safe.spared (hf : Readable k₀ file) {pg : Nat} (h : Safe k₀ file pg) :
    Spared k₀ file pg := by
  refine ⟨fun i hi heq => h.1 ?_, h.2⟩
  have hpres := (translate_some (hf.phys hi).1).1
  rw [lookup_page (w := file.impl + i)]
  · exact hpres
  · rw [heq]
    omega

theorem Safe.off {pg : Nat} (h : Safe k₀ file pg) (n : Nat) : OffTables k₀ n pg := fun hmapped =>
  absurd hmapped h.1

/-- The file's pages are not pages of a segment. -/
theorem LoadInv.frameOf_file (h : LoadInv k₀ file P F T l) {i : Nat} (hi : i < file.length) :
    frameOf F ((file.impl + i) / 4096) = none :=
  frameOf_none fun e he heq => (h.pages e he).2.1 i hi heq.symm

/-- Under the new directory the file is where it was. -/
theorem LoadInv.translate_new (hf : Readable k₀ file) (h : LoadInv k₀ file P F T l) {i : Nat}
    (hi : i < file.length) :
    translate l.k.mem (P * 4096) (file.impl + i) = some (filePhys k₀ file i) := by
  have hfits := hf.fits
  rw [← (hf.phys hi).1]
  refine translate_congr ?_
  rw [h.look _ (by omega), h.frameOf_file hi, Option.elim_none]

/-- The caller's directory keeps its entries. -/
theorem LoadInv.pde_old (hk : Entry k₀) (h : LoadInv k₀ file P F T l) {i : Nat} (hi : i < 1024) :
    pde l.k.mem k₀.currentPageDirectory i = pde k₀.mem k₀.currentPageDirectory i := by
  refine pde_congr hk.dir.aligned (fun x hx => h.frame x ?_ fun e he ht heq => ?_) hi
  · rw [hx]
    exact fun hfree => hfree.not_inUse hk.dir.dir_used
  · have hlt := (h.pages e he).1
    exact hk.dir.table_ne _ (by omega) ht (heq.symm.trans hx)

/-- Where the caller's directory has a table, both directories agree. -/
theorem LoadInv.lookup_old (hk : Entry k₀) (h : LoadInv k₀ file P F T l) {v : Nat} (hv : v < 2 ^ 32) :
    lookup l.k.mem k₀.currentPageDirectory v =
      if HasTable k₀ (pdIndex v) then lookup l.k.mem (P * 4096) v else 0 := by
  have hslot := pdIndex_lt hv
  have hold := h.pde_old hk hslot
  by_cases hp : HasTable k₀ (pdIndex v)
  · have hnew : pde l.k.mem (P * 4096) (pdIndex v) = pde k₀.mem k₀.currentPageDirectory (pdIndex v) :=
      (h.slots _ hslot).resolve_right fun hno => hno.1 hp
    rw [if_pos hp, lookup_present (by rw [hold]; exact hp), hold,
      lookup_present (by rw [hnew]; exact hp), hnew]
  · rw [if_neg hp]
    exact lookup_absent (by rw [hold]; exact hp)

/-- Under the caller's directory the file is where it was. -/
theorem LoadInv.translate_old (hk : Entry k₀) (hf : Readable k₀ file)
    (h : LoadInv k₀ file P F T l) {i : Nat} (hi : i < file.length) :
    translate l.k.mem k₀.currentPageDirectory (file.impl + i) = some (filePhys k₀ file i) := by
  have hfits := hf.fits
  have htab : HasTable k₀ (pdIndex (file.impl + i)) :=
    pde_present_of_lookup (translate_some (hf.phys hi).1).1
  rw [← h.translate_new hf hi]
  refine translate_congr ?_
  rw [h.lookup_old hk (by omega), if_pos htab]

/-- The file's bytes are as they were. -/
theorem LoadInv.fileByte_eq (hf : Readable k₀ file) (h : LoadInv k₀ file P F T l) {i : Nat}
    (hi : i < file.length) : l.k.mem (filePhys k₀ file i) = fileByte k₀ file i :=
  h.frame _ (hf.phys hi).2 fun e he ht => (h.pages e he).2.2 ht i hi

end Invariant

end MyOS
