import MyOS.Elf.Pages

/-!
# Segments and program headers

The file bytes of a segment are copied to its virtual address with the new
directory active, so they go through the pages just mapped; `readSegment`
says that they land there and nowhere else, if they fit (`Fits`). The header
loop reads each program header again from the file, with the caller's
directory active; since the file is undisturbed throughout, every header is
the one the file held at the call (`phdrAt`), and the loop is a run over the
list of its `PT_LOAD` headers (`segments`).
-/

namespace MyOS

open Lib Lib.Mem Lib.Paging

/-- A local variable of `n` bytes read from offset `off` of the file as it is
at the call. -/
def localBuf (k : Machine) (file : FsNode) (off n : Nat) : Mem :=
  fun j => if j < n then fileByte k file (off + j) else 0

/-- The ELF header in the file. -/
def ehdrOf (k : Machine) (file : FsNode) : Mem := localBuf k file 0 ehdrSize

/-- Program header `i` in the file. -/
def phdrAt (k : Machine) (file : FsNode) (i : Nat) : Mem :=
  localBuf k file (phdrOffset (ehdrOf k file) i) phdrSize

/-- Program header `i` can be read. -/
def HeaderRead (k : Machine) (file : FsNode) (i : Nat) : Prop :=
  phdrSize ≤ tarReadSize file (phdrOffset (ehdrOf k file) i) phdrSize

instance (k : Machine) (file : FsNode) (i : Nat) : Decidable (HeaderRead k file i) :=
  inferInstanceAs (Decidable (_ ≤ _))

/-- The `PT_LOAD` headers among the `n` from `i` on, up to the first one that
cannot be read. -/
def segmentsFrom (k : Machine) (file : FsNode) : Nat → Nat → List Mem
  | 0, _ => []
  | n + 1, i =>
    if HeaderRead k file i then
      if pType (phdrAt k file i) = ptLoad then phdrAt k file i :: segmentsFrom k file n (i + 1)
      else segmentsFrom k file n (i + 1)
    else []

/-- The segments `elf_load` sees. -/
def segments (k : Machine) (file : FsNode) : List Mem :=
  segmentsFrom k file (ePhnum (ehdrOf k file)) 0

/-- The page numbers of a segment, in the order of the page loop. -/
def pagesOf (p : Mem) : List Nat := List.range' (pageAlignedStart p / 4096) (pageCount p)

/-- The pages of all segments. -/
def allPages (k : Machine) (file : FsNode) : List Nat := (segments k file).flatMap pagesOf

/-- The bytes copied for a segment end inside its pages and inside the file. -/
def Fits (file : FsNode) (p : Mem) : Prop :=
  tarReadSize file (pOffset p) (pFilesz p) = 0 ∨
  (pVaddr p + tarReadSize file (pOffset p) (pFilesz p) ≤ pageAlignedEnd p ∧
    pOffset p + tarReadSize file (pOffset p) (pFilesz p) ≤ file.length)

/-- The byte a loaded segment has at virtual address `a`. -/
def segByte (k : Machine) (file : FsNode) (p : Mem) (a : Nat) : UInt8 :=
  if pVaddr p ≤ a ∧ a < pVaddr p + tarReadSize file (pOffset p) (pFilesz p) then
    fileByte k file (pOffset p + (a - pVaddr p))
  else 0

/-- The frames of `G` hold the segment's bytes. -/
def Loaded (k : Machine) (file : FsNode) (p : Mem) (G : List (Nat × Nat)) (l : Load) : Prop :=
  ∀ e ∈ G, ∀ j < 4096, l.k.mem (e.2 * 4096 + j) = segByte k file p (e.1 * 4096 + j)

/-! ## Arithmetic of a segment -/

theorem pVaddr_lt (p : Mem) : pVaddr p < 2 ^ 32 := rd32_lt p 8

theorem pageAlignedStart_eq (p : Mem) : pageAlignedStart p = pVaddr p / 4096 * 4096 := by
  unfold pageAlignedStart
  rw [and_mask (pVaddr_lt p)]

theorem pageAlignedEnd_eq (p : Mem) : pageAlignedEnd p =
    ((pVaddr p + pMemsz p) % 2 ^ 32 + 4095) % 2 ^ 32 / 4096 * 4096 := by
  unfold pageAlignedEnd
  rw [and_mask (Nat.mod_lt _ (Nat.two_pow_pos 32))]

/-- The page loop ends below 4 GiB. -/
theorem page_end_le (p : Mem) : pageAlignedStart p + pageCount p * 4096 ≤ 2 ^ 32 := by
  have hs := pageAlignedStart_eq p
  have he := pageAlignedEnd_eq p
  have hv := pVaddr_lt p
  unfold pageCount
  omega

/-- The pages of a segment are those of the addresses up to its end. -/
theorem mem_pagesOf {p : Mem} {a : Nat} (hlo : pVaddr p ≤ a) (hhi : a < pageAlignedEnd p) :
    a / 4096 ∈ pagesOf p := by
  have hs := pageAlignedStart_eq p
  have he := pageAlignedEnd_eq p
  unfold pagesOf pageCount
  rw [List.mem_range'_1]
  omega

theorem frameOf_of_mem {G : List (Nat × Nat)} (hnd : (G.map Prod.fst).Nodup) {e : Nat × Nat}
    (he : e ∈ G) : frameOf G e.1 = some e.2 := by
  obtain ⟨f, hf⟩ := frameOf_isSome (List.mem_map_of_mem (f := Prod.fst) he)
  have hmem := frameOf_mem hf
  have heq : (e.1, f) = e := List.inj_on_of_nodup_map hnd hmem he rfl
  rw [hf]
  exact congrArg (fun x => some x.2) heq

section Read

variable {k₀ : Machine} {file : FsNode} {P : Nat} {F G : List (Nat × Nat)} {T : List Nat} {l : Load}

/-- The file's addresses do not wrap. -/
theorem file_addr {off i : Nat} (hf : Readable k₀ file) (hi : off + i < file.length) :
    ((file.impl + off) % 2 ^ 32 + i) % 2 ^ 32 = file.impl + (off + i) := by
  have hfits := hf.fits
  rw [Nat.mod_eq_of_lt (by omega : file.impl + off < 2 ^ 32), Nat.mod_eq_of_lt (by omega)]
  omega

/-- The machine `k` finds the file where and as it was at the call. -/
def Sees (k₀ : Machine) (file : FsNode) (k : Machine) : Prop :=
  ∀ i < file.length, translate k.mem k.cr3 (file.impl + i) = some (filePhys k₀ file i) ∧
    k.mem (filePhys k₀ file i) = fileByte k₀ file i

theorem sees_self (hk : Entry k₀) (hf : Readable k₀ file) : Sees k₀ file k₀ := fun i hi => by
  rw [hk.cr3]
  exact ⟨(hf.phys hi).1, rfl⟩

theorem LoadInv.sees (hk : Entry k₀) (hf : Readable k₀ file) (h : LoadInv k₀ file P F T l)
    (hat : l.k.At k₀.currentPageDirectory) : Sees k₀ file l.k := fun i hi => by
  rw [hat.2]
  exact ⟨h.translate_old hk hf hi, h.fileByte_eq hf hi⟩

/-- A read into a local variable. -/
theorem readFsLocal_eq {k : Machine} (hf : Readable k₀ file) (hsee : Sees k₀ file k) {off size : Nat}
    (hsize : size ≤ 512) :
    readFsLocal file off size k = .ok (tarReadSize file off size,
      localBuf k₀ file off (tarReadSize file off size), k) := by
  have hin : ∀ i < tarReadSize file off size, off + i < file.length := by
    intro i hi
    by_cases hoff : file.length ≤ off
    · unfold tarReadSize at hi
      rw [if_pos hoff] at hi
      omega
    · have hh := hf.header
      have hfits := hf.fits
      have hinside : off + tarReadSize file off size ≤ file.length :=
        tarReadSize_inside (by omega) (by omega)
      omega
  have hsrc : ∀ i < tarReadSize file off size,
      translate k.mem k.cr3 (((file.impl + off) % 2 ^ 32 + i) % 2 ^ 32)
        = some (filePhys k₀ file (off + i)) := by
    intro i hi
    rw [file_addr hf (hin i hi)]
    exact (hsee _ (hin i hi)).1
  obtain ⟨buf, hrun, hval, hout⟩ := vcopyOut_spec hsrc
  have hbuf : buf = localBuf k₀ file off (tarReadSize file off size) := by
    funext j
    unfold localBuf
    by_cases hj : j < tarReadSize file off size
    · rw [if_pos hj, hval j hj]
      exact (hsee _ (hin j hj)).2
    · rw [if_neg hj]
      exact hout j (by omega)
  unfold readFsLocal
  rw [if_pos hf.read, hrun, ok_map, hbuf]

/-- The copy of a segment's file bytes lands in the segment's pages. -/
theorem readSegment (hk : Entry k₀) (hf : Readable k₀ file) {p : Mem}
    (h : LoadInv k₀ file P (G ++ F) T l) (hkeys : G.map Prod.fst = (pagesOf p).reverse)
    (hz : Zeroed G l) (hat : l.k.At (P * 4096)) (hfits : Fits file p) :
    ∃ m, readFs file (pOffset p) (pFilesz p) (pVaddr p) l.k
        = .ok (tarReadSize file (pOffset p) (pFilesz p), { l.k with mem := m }) ∧
      (∀ e ∈ G, ∀ j < 4096, m (e.2 * 4096 + j) = segByte k₀ file p (e.1 * 4096 + j)) ∧
      ∀ x, (∀ e ∈ G, x / 4096 ≠ e.2) → m x = l.k.mem x := by
  have hnd : (G.map Prod.fst).Nodup := by
    rw [hkeys]
    exact List.nodup_reverse.mpr List.nodup_range'
  have hv := pVaddr_lt p
  have hend := page_end_le p
  -- every destination lies in a page of `G`
  have hpage : ∀ i < tarReadSize file (pOffset p) (pFilesz p), ∃ e ∈ G,
      e.1 = (pVaddr p + i) / 4096 ∧ pVaddr p + i < 2 ^ 32 := by
    intro i hi
    have hfit := (hfits.resolve_left (by omega)).1
    have hmem := mem_pagesOf (a := pVaddr p + i) (p := p) (by omega) (by omega)
    rw [← List.mem_reverse, ← hkeys] at hmem
    obtain ⟨e, he, heq⟩ := List.mem_map.mp hmem
    have hle := pageAlignedEnd_eq p
    exact ⟨e, he, heq, by omega⟩
  have hin : ∀ i < tarReadSize file (pOffset p) (pFilesz p), pOffset p + i < file.length := by
    intro i hi
    have hfit := (hfits.resolve_left (by omega)).2
    omega
  have hframe : ∀ {e : Nat × Nat}, e ∈ G → ∀ {v : Nat}, v < 2 ^ 32 → v / 4096 = e.1 →
      translate l.k.mem l.k.cr3 v = some (e.2 * 4096 + v % 4096) := by
    intro e he v hv32 hpg
    rw [hat.2]
    refine translate_of_lookup ?_
    rw [h.look v hv32, frameOf_append, hpg, frameOf_of_mem hnd he, Option.some_or, Option.elim_some]
  let d : Nat → Nat := fun i =>
    (frameOf G ((pVaddr p + i) / 4096)).getD 0 * 4096 + (pVaddr p + i) % 4096
  have hd : ∀ {i : Nat} {e : Nat × Nat}, e ∈ G → e.1 = (pVaddr p + i) / 4096 →
      d i = e.2 * 4096 + (pVaddr p + i) % 4096 := by
    intro i e he heq
    show (frameOf G ((pVaddr p + i) / 4096)).getD 0 * 4096 + _ = _
    rw [← heq, frameOf_of_mem hnd he, Option.getD_some]
  have hdiv : ∀ f o : Nat, (f * 4096 + o % 4096) / 4096 = f := fun f o => by omega
  have hmemG : ∀ {e : Nat × Nat}, e ∈ G → e ∈ G ++ F := fun he => List.mem_append_left _ he
  have hdest : ∀ i < tarReadSize file (pOffset p) (pFilesz p),
      translate l.k.mem l.k.cr3 ((pVaddr p + i) % 2 ^ 32) = some (d i) := fun i hi => by
    obtain ⟨e, he, heq, hlt⟩ := hpage i hi
    rw [Nat.mod_eq_of_lt hlt, hd he heq]
    exact hframe he hlt heq.symm
  have hsrc : ∀ i < tarReadSize file (pOffset p) (pFilesz p),
      translate l.k.mem l.k.cr3 (((file.impl + pOffset p) % 2 ^ 32 + i) % 2 ^ 32)
        = some (filePhys k₀ file (pOffset p + i)) := fun i hi => by
    rw [file_addr hf (hin i hi), hat.2]
    exact h.translate_new hf (hin i hi)
  obtain ⟨m, hrun, hval, hrest⟩ := vmemcpy_spec (by rw [hat.2]; omega) hdest hsrc
    (fun i hi hfr => by
      obtain ⟨e, he, heq, -⟩ := hpage i hi
      rw [hd he heq, hdiv, hat.2] at hfr
      exact h.page_not_frames hk (hmemG he) hfr)
    (fun i hi j hj heq => by
      obtain ⟨e, he, hei, -⟩ := hpage i hi
      obtain ⟨e', he', hej, -⟩ := hpage j hj
      rw [hd he hei, hd he' hej] at heq
      have hee : e = e' := h.frame_inj (hmemG he) (hmemG he') (by omega)
      rw [hee] at hei heq
      omega)
    (fun i hi j hj heq => by
      obtain ⟨e, he, hei, -⟩ := hpage i hi
      rw [hd he hei] at heq
      have hphys := congrArg (· / 4096) heq
      simp only [hdiv] at hphys
      exact (hf.phys (hin j hj)).2 (hphys ▸ h.pageFree (hmemG he)))
  refine ⟨m, ?_, fun e he j hj => ?_, fun x hx => hrest x fun i hi heq => ?_⟩
  · unfold readFs
    rw [if_pos hf.read, hrun, ok_map]
  · unfold segByte
    by_cases ha : pVaddr p ≤ e.1 * 4096 + j ∧
        e.1 * 4096 + j < pVaddr p + tarReadSize file (pOffset p) (pFilesz p)
    · -- a byte of the file: iteration `a - p_vaddr` wrote it
      rw [if_pos ha]
      have hadd : pVaddr p + (e.1 * 4096 + j - pVaddr p) = e.1 * 4096 + j := Nat.add_sub_cancel' ha.1
      have hi : e.1 * 4096 + j - pVaddr p < tarReadSize file (pOffset p) (pFilesz p) := by omega
      have hval' := hval _ hi
      rw [hd he (by rw [hadd]; omega), hadd] at hval'
      have hmod : (e.1 * 4096 + j) % 4096 = j := by omega
      rw [hmod] at hval'
      rw [hval']
      exact h.fileByte_eq hf (hin _ hi)
    · -- past the file bytes: still zero
      rw [if_neg ha, hrest _ ?_]
      · exact hz e he _ (by omega)
      · intro i hi heq
        obtain ⟨e', he', hei, -⟩ := hpage i hi
        rw [hd he' hei] at heq
        have hee : e = e' := h.frame_inj (hmemG he) (hmemG he') (by omega)
        rw [← hee] at hei heq
        omega
  · obtain ⟨e, he, hei, -⟩ := hpage i hi
    rw [hd he hei] at heq
    exact hx e he (by rw [heq]; exact hdiv _ _)

/-! ## One segment, and the header loop -/

/-- What a segment leaves: the earlier pages as they were, its own pages with
its bytes, and the caller's directory active. -/
def SegmentDone (k₀ : Machine) (file : FsNode) (F : List (Nat × Nat)) (l : Load) (p : Mem)
    (l' : Load) (G : List (Nat × Nat)) : Prop :=
  SamePages F l l' ∧ Loaded k₀ file p G l' ∧ l'.k.At k₀.currentPageDirectory

theorem loadSegment_end (hk : Entry k₀) (hf : Readable k₀ file) (h : LoadInv k₀ file P F T l)
    (hat : l.k.At k₀.currentPageDirectory) {p : Mem} (hfits : Fits file p)
    (hsafe : ∀ pg ∈ pagesOf p, Spared k₀ file pg) :
    LoadEnd k₀ file P k₀.currentPageDirectory False (pagesOf p) F T (SegmentDone k₀ file F l p)
      (loadSegment file (P * 4096) p l) := by
  have hstart : pageAlignedStart p % 4096 = 0 := by
    rw [pageAlignedStart_eq]
    omega
  have hswitched : LoadInv k₀ file P F T { l with k := l.k.setDir (P * 4096) false } :=
    h.writePages hk (m := l.k.mem) (fun _ _ => rfl) rfl rfl rfl
  have hpages := loadPages_end hk l.k.currentPageDirectory (pageCount p) hswitched
    ⟨rfl, rfl⟩ hstart (page_end_le p) hsafe
  rw [hat.1] at hpages
  unfold loadSegment
  rw [hat.1, ← List.append_nil (pagesOf p)]
  refine LoadEnd.bind hpages fun l' G ts h' hkeys hq => ?_
  obtain ⟨hsame, hz, hat'⟩ := hq
  obtain ⟨m, hread, hval, hrest⟩ := readSegment hk hf h' hkeys hz hat' hfits
  rw [hread, ok_map, ok_mapError]
  refine ⟨id, [], [], h'.writePages hk (m := m) (fun x hx => hrest x fun e he =>
    hx e (List.mem_append_left _ he)) rfl rfl rfl, rfl, fun e he x hx => ?_, hval, rfl, rfl⟩
  show m x = l.k.mem x
  rw [hrest x fun e' he' heq => ?_]
  · exact hsame e he x hx
  · -- a page of this segment and an earlier one have different frames
    have hnd := h'.frames_nodup
    rw [List.map_append] at hnd
    exact (List.nodup_append.mp hnd).2.2 _ (List.mem_map_of_mem he') _ (List.mem_map_of_mem he)
      (heq.symm.trans hx)

/-- The header that the loop reads is the file's. -/
theorem loadHeader_eq (hk : Entry k₀) (hf : Readable k₀ file) (h : LoadInv k₀ file P F T l)
    (hat : l.k.At k₀.currentPageDirectory) (i : Nat) :
    loadHeader file (ehdrOf k₀ file) (P * 4096) i l =
      if HeaderRead k₀ file i then
        if pType (phdrAt k₀ file i) = ptLoad then
          loadSegment file (P * 4096) (phdrAt k₀ file i) l
        else .ok l
      else .error (.cleanup .programHeader l) := by
  unfold loadHeader
  rw [readFsLocal_eq hf (h.sees hk hf hat) (by decide), ok_mapError, ok_bind]
  unfold loadRead
  by_cases hr : HeaderRead k₀ file i
  · have hle := tarReadSize_le file (phdrOffset (ehdrOf k₀ file) i) phdrSize
    have hfull : tarReadSize file (phdrOffset (ehdrOf k₀ file) i) phdrSize = phdrSize :=
      Nat.le_antisymm hle hr
    rw [if_pos hr, hfull, if_neg (Nat.lt_irrefl _)]
    rfl
  · rw [if_neg hr, if_pos (Nat.lt_of_not_le hr)]

/-- Every header from `i` on can be read. -/
def AllRead (k : Machine) (file : FsNode) (n i : Nat) : Prop :=
  ∀ j, i ≤ j → j < i + n → HeaderRead k file j

theorem allRead_succ {k : Machine} {n i : Nat} (h : HeaderRead k file i) :
    AllRead k file (n + 1) i ↔ AllRead k file n (i + 1) := by
  constructor
  · intro hall j h1 h2
    exact hall j (by omega) (by omega)
  · intro hall j h1 h2
    rcases Nat.eq_or_lt_of_le h1 with rfl | hlt
    · exact h
    · exact hall j hlt (by omega)

/-- The pages `G` are those of the segments one after the other, the last
segment's in front, and hold their bytes. -/
def Stacked (k₀ : Machine) (file : FsNode) (l : Load) : List Mem → List (Nat × Nat) → Prop
  | [], G => G = []
  | p :: ps, G => ∃ G' H, G = G' ++ H ∧ H.map Prod.fst = (pagesOf p).reverse ∧
      Loaded k₀ file p H l ∧ Stacked k₀ file l ps G'

/-- What the header loop leaves: every segment has its pages, with its
bytes. -/
def SegmentsDone (k₀ : Machine) (file : FsNode) (F : List (Nat × Nat)) (l : Load) (ps : List Mem)
    (l' : Load) (G : List (Nat × Nat)) : Prop :=
  SamePages F l l' ∧ l'.k.At k₀.currentPageDirectory ∧ Stacked k₀ file l' ps G

theorem Stacked.segment : ∀ {ps : List Mem} {G : List (Nat × Nat)}, Stacked k₀ file l ps G →
    ∀ p ∈ ps, ∃ H, (∀ e ∈ H, e ∈ G) ∧ H.map Prod.fst = (pagesOf p).reverse ∧ Loaded k₀ file p H l := by
  intro ps
  induction ps with
  | nil =>
    intro _ _ p hp
    exact absurd hp List.not_mem_nil
  | cons q ps ih =>
    rintro _ ⟨G', H, rfl, hkeys, hl, hrest⟩ p hp
    rcases List.mem_cons.mp hp with rfl | hp
    · exact ⟨H, fun e he => List.mem_append_right _ he, hkeys, hl⟩
    · obtain ⟨H', hsub, hkeys', hl'⟩ := ih hrest p hp
      exact ⟨H', fun e he => List.mem_append_left _ (hsub e he), hkeys', hl'⟩

/-- Pages loaded earlier keep their bytes. -/
theorem Loaded.same {p : Mem} {H : List (Nat × Nat)} {l' : Load} (h : Loaded k₀ file p H l)
    (hs : SamePages H l l') : Loaded k₀ file p H l' := fun e he j hj => by
  rw [hs e he _ (by omega)]
  exact h e he j hj

theorem loadHeaders_end (hk : Entry k₀) (hf : Readable k₀ file) :
    ∀ (n i : Nat) {F : List (Nat × Nat)} {T : List Nat} {l : Load}, LoadInv k₀ file P F T l →
      l.k.At k₀.currentPageDirectory →
      (∀ p ∈ segmentsFrom k₀ file n i, Fits file p ∧ ∀ pg ∈ pagesOf p, Spared k₀ file pg) →
      LoadEnd k₀ file P k₀.currentPageDirectory (¬AllRead k₀ file n i)
        ((segmentsFrom k₀ file n i).flatMap pagesOf) F T
        (SegmentsDone k₀ file F l (segmentsFrom k₀ file n i))
        (loadHeaders file (ehdrOf k₀ file) (P * 4096) n i l) := by
  intro n
  induction n with
  | zero =>
    intro i F T l h hat _
    exact ⟨fun hn => hn fun j h1 h2 => by omega, [], [], h, rfl, fun _ _ _ _ => rfl, hat, rfl⟩
  | succ n ih =>
    intro i F T l h hat hsegs
    unfold loadHeaders
    rw [loadHeader_eq hk hf h hat]
    unfold segmentsFrom at hsegs ⊢
    by_cases hr : HeaderRead k₀ file i
    · rw [if_pos hr] at hsegs ⊢
      rw [if_pos hr]
      by_cases ht : pType (phdrAt k₀ file i) = ptLoad
      · -- a segment, then the rest of the headers
        rw [if_pos ht] at hsegs ⊢
        rw [if_pos ht, List.flatMap_cons]
        obtain ⟨hfits, hsafe⟩ := hsegs _ List.mem_cons_self
        refine LoadEnd.bind (loadSegment_end hk hf h hat hfits hsafe) fun l' G ts h' hkeys hq => ?_
        have hrest := ih (i + 1) h' hq.2.2
          fun p hp => hsegs p (List.mem_cons_of_mem _ hp)
        refine hrest.mono (not_congr (allRead_succ hr).symm) fun l'' G' hd => ?_
        obtain ⟨hsame, hat'', hloaded⟩ := hd
        refine ⟨fun e he x hx => ?_, hat'', G', G, rfl, hkeys,
          hq.2.1.same fun e he => hsame e (List.mem_append_left _ he), hloaded⟩
        exact (hsame e (List.mem_append_right _ he) x hx).trans (hq.1 e he x hx)
      · -- not a segment: nothing happens
        rw [if_neg ht] at hsegs ⊢
        rw [if_neg ht, ok_bind]
        exact (ih (i + 1) h hat hsegs).mono
          (not_congr (allRead_succ hr).symm) fun _ _ hd => hd
    · rw [if_neg hr, if_neg hr, error_bind]
      exact ⟨hat, [], [], h, Or.inr ⟨rfl, fun hall => hr (hall i (by omega) (by omega)), rfl⟩⟩

/-! ## The whole call -/

/-- Every header of the file can be read. -/
def HeadersRead (k : Machine) (file : FsNode) : Prop :=
  AllRead k file (ePhnum (ehdrOf k file)) 0

/-- The file's header passes the checks. -/
def Accepted (k : Machine) (file : FsNode) : Prop :=
  ehdrSize ≤ tarReadSize file 0 ehdrSize ∧ checkHeader (ehdrOf k file) = none

/-- A file that is not accepted leaves the machine as it is. -/
theorem elfLoadNode_rejected (hk : Entry k₀) (hf : Readable k₀ file) (hno : ¬Accepted k₀ file) :
    ∃ e, elfLoadNode file k₀ = .ok (.error e, k₀) := by
  unfold elfLoadNode
  rw [readFsLocal_eq hf (sees_self hk hf) (by decide), ok_bind]
  unfold elfLoadRead
  by_cases hshort : tarReadSize file 0 ehdrSize < ehdrSize
  · rw [if_pos hshort]
    exact ⟨_, rfl⟩
  · have hfull : tarReadSize file 0 ehdrSize = ehdrSize :=
      Nat.le_antisymm (tarReadSize_le _ _ _) (by omega)
    rw [if_neg hshort, hfull]
    cases hc : checkHeader (ehdrOf k₀ file) with
    | none => exact absurd ⟨by omega, hc⟩ hno
    | some err =>
      refine ⟨err, ?_⟩
      show (checkHeader (ehdrOf k₀ file)).elim _ _ = _
      rw [hc, Option.elim_some]

/-- Segments on unmapped pages spare the file. -/
theorem spared_of_safe (hf : Readable k₀ file)
    (h : ∀ p ∈ segments k₀ file, Fits file p ∧ ∀ pg ∈ pagesOf p, Safe k₀ file pg) :
    ∀ p ∈ segments k₀ file, Fits file p ∧ ∀ pg ∈ pagesOf p, Spared k₀ file pg := fun p hp =>
  ⟨(h p hp).1, fun pg hpg => ((h p hp).2 pg hpg).spared hf⟩

/-- An accepted file: no block is left for the directory, or the load ends in
one of the ways of `LoadEnd`. -/
theorem elfLoadNode_accepted (hk : Entry k₀) (hf : Readable k₀ file) (hacc : Accepted k₀ file)
    (hsegs : ∀ p ∈ segments k₀ file, Fits file p ∧ ∀ pg ∈ pagesOf p, Spared k₀ file pg) :
    (freeCount k₀.pmm = 0 ∧ elfLoadNode file k₀ = .ok (.error .pageDirectory, k₀)) ∨
    ∃ P x, elfLoadNode file k₀ = finish (ehdrOf k₀ file) (P * 4096) x ∧ 0 < freeCount k₀.pmm ∧
      LoadEnd k₀ file P k₀.currentPageDirectory (¬HeadersRead k₀ file) (allPages k₀ file) [] []
        (fun l' G => l'.k.At k₀.currentPageDirectory ∧ Stacked k₀ file l' (segments k₀ file) G) x := by
  obtain ⟨hlen, hcheck⟩ := hacc
  have hfull : tarReadSize file 0 ehdrSize = ehdrSize := Nat.le_antisymm (tarReadSize_le _ _ _) hlen
  have himage : elfLoadNode file k₀ = elfLoadImage file (ehdrOf k₀ file) k₀ := by
    unfold elfLoadNode
    rw [readFsLocal_eq hf (sees_self hk hf) (by decide), ok_bind, hfull]
    unfold elfLoadRead
    rw [if_neg (Nat.lt_irrefl _)]
    show (checkHeader (ehdrOf k₀ file)).elim _ _ = _
    rw [hcheck, Option.elim_none]
    rfl
  rw [himage]
  unfold elfLoadImage
  by_cases hnull : (pmmAllocBlock k₀.pmm).1 = 0
  · obtain ⟨hsame, hcount⟩ := pmmAllocBlock_null hk.zero hnull
    refine Or.inl ⟨hcount, ?_⟩
    simp only [hsame, if_pos]
  · simp only [if_neg hnull]
    obtain ⟨P, -, -, haddr, ht⟩ := pmmAllocBlock_taken hnull
    have hcount := ht.freeCount
    rw [List.length_singleton] at hcount
    rw [haddr]
    refine Or.inr ⟨P, _, rfl, by omega, ?_⟩
    exact (loadHeaders_end hk hf _ 0 (loadInv_init hk ht) ⟨rfl, hk.cr3⟩ hsegs).mono Iff.rfl
      fun _ _ hd => hd.2

end Read

end MyOS
