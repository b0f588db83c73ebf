import MyOS.Elf.Segments

/-!
# A loaded program is the file

`elfLoad_correct` is the loader's functional correctness: a well-formed file
whose segments lie in slots the active directory does not use, with enough
memory, is loaded, and through the new directory every byte of every segment
reads as the file has it, the rest of its pages reads zero, everything else
translates as before, and no two pages share a frame. All of it is read off
the way the header loop ends; what is left to show here is that with enough
memory it cannot end in any other way.
-/

namespace MyOS

open Lib Lib.Mem Lib.Paging

/-- A file `elf_load` is meant for. -/
structure WellFormed (k : Machine) (file : FsNode) : Prop where
  accepted : Accepted k file
  headers : HeadersRead k file
  filesz : ∀ p ∈ segments k file, pFilesz p ≤ pMemsz p
  no_wrap : ∀ p ∈ segments k file,
    pVaddr p + pMemsz p + 4095 < 2 ^ 32 ∧ pOffset p + pFilesz p < 2 ^ 32
  inside : ∀ p ∈ segments k file, pOffset p + pFilesz p ≤ file.length
  disjoint : (segments k file).Pairwise fun p q => ∀ pg ∈ pagesOf p, pg ∉ pagesOf q

theorem WellFormed.readSize {k : Machine} {file : FsNode} (hw : WellFormed k file)
    (hf : Readable k file) {p : Mem} (hp : p ∈ segments k file) :
    tarReadSize file (pOffset p) (pFilesz p) = pFilesz p := by
  have hh := hf.header
  have hfits := hf.fits
  exact tarReadSize_eq (hw.inside p hp) (by omega)

theorem WellFormed.fits {k : Machine} {file : FsNode} (hw : WellFormed k file)
    (hf : Readable k file) {p : Mem} (hp : p ∈ segments k file) : Fits file p := by
  have hsz := hw.filesz p hp
  have hend := pageAlignedEnd_eq p
  obtain ⟨h1, -⟩ := hw.no_wrap p hp
  rw [Nat.mod_eq_of_lt (by omega : pVaddr p + pMemsz p < 2 ^ 32), Nat.mod_eq_of_lt h1] at hend
  refine Or.inr ⟨?_, ?_⟩
  · rw [hw.readSize hf hp]
    omega
  · rw [hw.readSize hf hp]
    exact hw.inside p hp

theorem WellFormed.pages_nodup {k : Machine} {file : FsNode} (hw : WellFormed k file) :
    (allPages k file).Nodup := by
  refine List.nodup_flatMap.mpr ⟨fun p _ => List.nodup_range', ?_⟩
  exact hw.disjoint.imp fun hpq pg hp hq => hpq pg hp hq

/-- A page in a slot without a table is safe to load. -/
theorem safe_of_no_table {k : Machine} {file : FsNode} {pg : Nat} (h : ¬HasTable k (pg / 1024)) :
    Safe k file pg := by
  refine ⟨fun hp => h ?_, fun ht => absurd ht h⟩
  have hpres := pde_present_of_lookup hp
  rwa [pdIndex_page, Nat.mul_div_cancel _ (by omega)] at hpres

/-- A part of the pages needs no more memory, and less if it is a proper
one. -/
theorem need_take_add_le {k : Machine} (pgs : List Nat) (m : Nat) :
    need k (pgs.take m).reverse + (pgs.length - m) ≤ need k pgs := by
  have hcard : (newTables k (pgs.take m).reverse).card ≤ (newTables k pgs).card :=
    card_newTables_mono fun pg hpg => List.mem_of_mem_take (List.mem_reverse.mp hpg)
  unfold need
  rw [List.length_reverse, List.length_take]
  omega

/-- With enough memory and every header readable, the load goes through. -/
theorem LoadEnd.of_room {k₀ : Machine} {file : FsNode} {P dir : Nat} {stop : Prop} {pgs : List Nat}
    {Q : Load → List (Nat × Nat) → Prop} {x : Except Stop Load}
    (h : LoadEnd k₀ file P dir stop pgs [] [] Q x) (hroom : need k₀ pgs ≤ freeCount k₀.pmm)
    (hstop : ¬stop) :
    ∃ l G T, x = .ok l ∧ LoadInv k₀ file P G T l ∧ G.map Prod.fst = pgs.reverse ∧ Q l G := by
  match x, h with
  | .ok l, ⟨_, G, ts, hinv, hkeys, hq⟩ =>
    rw [List.append_nil, List.append_nil] at hinv
    exact ⟨l, G, ts, rfl, hinv, hkeys, hq⟩
  | .error (.cleanup e l), ⟨_, G, ts, hinv, hend⟩ =>
    exfalso
    rcases hend with ⟨-, hcount, m, hm, hkeys⟩ | ⟨-, hs, -⟩
    · rw [List.append_nil, List.append_nil] at hinv
      have htotal := hinv.freeCount
      have hle := need_take_add_le (k := k₀) pgs m
      rw [hkeys] at htotal
      omega
    · exact hstop hs
  | .error (.halt p), ⟨m, hm, hneed⟩ =>
    exfalso
    have hle := need_take_add_le (k := k₀) pgs (m + 1)
    rw [List.map_nil, List.append_nil] at hneed
    omega

/-- **Loader correctness.** For a well-formed file in mapped memory, whose
segments' slots are absent from the active directory, with room for the
directory, the pages and the page tables: `elf_load` returns 0 with the
file's entry point; under the new directory every byte of a segment is the
file's and the rest of its pages is zero; every other address translates as
under the directory active at the call; and no two pages share a frame. -/
theorem elfLoad_correct {v : Vfs} {path : List UInt8} {ref : NodeRef} {k : Machine}
    (hfind : findNodeByPath v path = some ref) (hk : Entry k) (hf : Readable k (v.node ref))
    (hw : WellFormed k (v.node ref))
    (habs : ∀ pg ∈ allPages k (v.node ref), ¬HasTable k (pg / 1024))
    (hroom : need k (allPages k (v.node ref)) ≤ freeCount k.pmm) :
    ∃ pd k', elfLoad v path k = .ok (.ok (eEntry (ehdrOf k (v.node ref)), pd), k') ∧
      (∀ p ∈ segments k (v.node ref), ∀ j < pFilesz p, ∃ x,
        translate k'.mem pd (pVaddr p + j) = some x ∧
          k'.mem x = fileByte k (v.node ref) (pOffset p + j)) ∧
      (∀ p ∈ segments k (v.node ref), ∀ a, a / 4096 ∈ pagesOf p →
        ¬(pVaddr p ≤ a ∧ a < pVaddr p + pFilesz p) →
        ∃ x, translate k'.mem pd a = some x ∧ k'.mem x = 0) ∧
      (∀ a < 2 ^ 32, a / 4096 ∉ allPages k (v.node ref) →
        translate k'.mem pd a = translate k.mem k.currentPageDirectory a) ∧
      ∀ pg ∈ allPages k (v.node ref), ∀ qg ∈ allPages k (v.node ref), pg ≠ qg →
        lookup k'.mem pd (pg * 4096) / 4096 ≠ lookup k'.mem pd (qg * 4096) / 4096 := by
  have hsegs : ∀ p ∈ segments k (v.node ref), Fits (v.node ref) p ∧
      ∀ pg ∈ pagesOf p, Spared k (v.node ref) pg := fun p hp =>
    ⟨hw.fits hf hp, fun pg hpg =>
      (safe_of_no_table (habs pg (List.mem_flatMap.mpr ⟨p, hp, hpg⟩))).spared hf⟩
  have hload : elfLoad v path k = elfLoadNode (v.node ref) k := by
    unfold elfLoad
    rw [hfind, Option.elim_some]
  rw [hload]
  rcases elfLoadNode_accepted hk hf hw.accepted hsegs with ⟨hcount, -⟩ | ⟨P, x, hrun, -, hend⟩
  · unfold need at hroom
    omega
  obtain ⟨l, G, T, rfl, hinv, hkeys, hat, hloaded⟩ := hend.of_room hroom (not_not_intro hw.headers)
  have hnd : (G.map Prod.fst).Nodup := by
    rw [hkeys]
    exact List.nodup_reverse.mpr hw.pages_nodup
  have hmem : ∀ {pg}, pg ∈ allPages k (v.node ref) → ∃ e ∈ G, e.1 = pg := by
    intro pg hpg
    rw [← List.mem_reverse, ← hkeys] at hpg
    exact List.mem_map.mp hpg
  have hlook : ∀ {e : Nat × Nat}, e ∈ G → ∀ {a}, a < 2 ^ 32 → a / 4096 = e.1 →
      lookup l.k.mem (P * 4096) a = e.2 * 4096 + 7 := by
    intro e he a ha hpg
    rw [hinv.look a ha, hpg, frameOf_of_mem hnd he, Option.elim_some]
  have hpage : ∀ {pg}, pg ∈ allPages k (v.node ref) → pg * 4096 < 2 ^ 32 := by
    intro pg hpg
    obtain ⟨e, he, heq⟩ := hmem hpg
    have := (hinv.pages e he).1
    omega
  -- any address of a segment's page reads as the segment's byte
  have hbyte : ∀ p ∈ segments k (v.node ref), ∀ a, a / 4096 ∈ pagesOf p →
      ∃ x, Paging.translate l.k.mem (P * 4096) a = some x ∧ l.k.mem x = segByte k (v.node ref) p a := by
    intro p hp a ha
    obtain ⟨H, hsub, hH, hl⟩ := hloaded.segment p hp
    rw [← List.mem_reverse, ← hH] at ha
    obtain ⟨e, he, heq⟩ := List.mem_map.mp ha
    have hlt := (hinv.pages e (hsub e he)).1
    refine ⟨e.2 * 4096 + a % 4096, translate_of_lookup (hlook (hsub e he) (by omega) heq.symm), ?_⟩
    rw [hl e he _ (Nat.mod_lt _ (by omega)), heq, Nat.div_add_mod']
  refine ⟨P * 4096, l.k, by rw [hrun, finish], fun p hp j hj => ?_, fun p hp a ha hout => ?_,
    fun a ha hno => ?_, fun pg hpg qg hqg hne heq => ?_⟩
  · have hfit := (hw.fits hf hp).resolve_left (by rw [hw.readSize hf hp]; omega)
    rw [hw.readSize hf hp] at hfit
    obtain ⟨x, htr, hval⟩ := hbyte p hp (pVaddr p + j) (mem_pagesOf (by omega) (by omega))
    refine ⟨x, htr, ?_⟩
    rw [hval]
    unfold segByte
    rw [hw.readSize hf hp, if_pos ⟨by omega, by omega⟩, Nat.add_sub_cancel_left]
  · obtain ⟨x, htr, hval⟩ := hbyte p hp a ha
    refine ⟨x, htr, ?_⟩
    rw [hval]
    unfold segByte
    rw [hw.readSize hf hp, if_neg hout]
  · refine translate_congr ?_
    rw [hinv.look a ha, frameOf_none fun e he heq => hno ?_, Option.elim_none]
    rw [← List.mem_reverse, ← hkeys, ← heq]
    exact List.mem_map_of_mem he
  · obtain ⟨e, he, hpe⟩ := hmem hpg
    obtain ⟨e', he', hqe⟩ := hmem hqg
    have hpg' : pg * 4096 / 4096 = e.1 := (Nat.mul_div_cancel _ (Nat.zero_lt_succ 4095)).trans hpe.symm
    have hqg' : qg * 4096 / 4096 = e'.1 := (Nat.mul_div_cancel _ (Nat.zero_lt_succ 4095)).trans hqe.symm
    rw [hlook he (hpage hpg) hpg', hlook he' (hpage hqg) hqg', frame_entry, frame_entry] at heq
    have hee := hinv.frame_inj he he' heq
    rw [← hpe, ← hqe, hee] at hne
    exact hne rfl

/-! ## A small program -/

/-- Words of memory: a directory at block 255 whose one table, block 254,
maps page 16 to itself, and there an ELF file of one segment with `phnum`
program headers announced. -/
def smallElf (vaddr phnum : Nat) : List (Nat × Nat) :=
  [(255 * 4096, 254 * 4096 + 7), (254 * 4096 + 4 * 16, 16 * 4096 + 7),
    (0x10000, 0x464C457F), (0x10004, 1), (0x10010, 0x30002), (0x10018, 0x8048000), (0x1001C, 52),
    (0x10028, 0x200000), (0x1002C, phnum), (0x10034, 1), (0x10038, 84), (0x1003C, vaddr),
    (0x10044, 4), (0x10048, 4), (0x10054, 0x12345678)]

/-- The memory with these words, zero elsewhere. -/
def wordMem (ws : List (Nat × Nat)) : Mem := ws.foldl (fun m w => m.wr32 w.1 w.2) fun _ => 0

theorem rd32_foldl_wr32 (ws : List (Nat × Nat)) {a : Nat} : ∀ m : Mem,
    (∀ w ∈ ws, w.1 + 4 ≤ a ∨ a + 4 ≤ w.1) →
    rd32 (ws.foldl (fun m w => m.wr32 w.1 w.2) m) a = rd32 m a := by
  induction ws with
  | nil => exact fun _ _ => rfl
  | cons w ws ih =>
    intro m h
    rw [List.foldl_cons, ih _ fun w' hw' => h w' (List.mem_cons_of_mem _ hw')]
    exact rd32_wr32_ne m w.2 (h w List.mem_cons_self)

/-- 260 blocks, the last four of them free. -/
def smallMachine (vaddr phnum : Nat) : Machine :=
  demoMachine 260 (by decide) (wordMem (smallElf vaddr phnum))

def smallFile : FsNode := ⟨cstr "a", 0x01, 88, 0x10000, true, false, false⟩

def smallVfs : Vfs := ⟨[smallFile], ⟨[slash], fsDirectory, 0, 0, false, true, true⟩, some .root⟩

theorem smallVfs_find : findNodeByPath smallVfs [slash, 97] = some (.tar 0) := by decide +kernel

/-- The same machine with any words, none of them in the directory but its
first. -/
def wordMachine (ws : List (Nat × Nat)) : Machine := demoMachine 260 (by decide) (wordMem ws)

/-- The first 256 blocks are taken. -/
theorem wordMachine_inUse {ws : List (Nat × Nat)} {b : Nat} (hb : b < 256) :
    InUse (wordMachine ws).pmm b := by
  refine ⟨Nat.lt_trans hb (by show 256 < 260; omega), ?_⟩
  have hword : (wordMachine ws).pmm.bitmap (b / 32) = BitVec.allOnes 32 :=
    if_pos (by omega)
  have hbit := (Words.eq_allOnes_iff _ _).mp hword (b % 32) (by omega)
  rwa [Nat.div_add_mod'] at hbit

theorem wordMachine_slot {ws : List (Nat × Nat)}
    (hfar : ∀ w ∈ ws, w.1 = 255 * 4096 ∨ w.1 + 4 ≤ 255 * 4096) {i : Nat} (hi : i < 1024)
    (hpos : i ≠ 0) : pde (wordMachine ws).mem (255 * 4096) i = 0 := by
  have hzero : rd32 (fun _ => 0) (255 * 4096 + 4 * i) = 0 := by simp [rd32]
  rw [← hzero]
  refine rd32_foldl_wr32 ws _ fun w hw => ?_
  have := hfar w hw
  omega

theorem wordMachine_entry {ws : List (Nat × Nat)}
    (hfar : ∀ w ∈ ws, w.1 = 255 * 4096 ∨ w.1 + 4 ≤ 255 * 4096)
    (h0 : pde (wordMachine ws).mem (255 * 4096) 0 = 254 * 4096 + 7) : Entry (wordMachine ws) := by
  have honly : ∀ i < 1024, Present (pde (wordMachine ws).mem (255 * 4096) i) → i = 0 := by
    intro i hi hp
    by_contra hne
    rw [wordMachine_slot hfar hi hne] at hp
    exact not_present_zero hp
  have hdir : (wordMachine ws).currentPageDirectory / 4096 = 255 := by
    show 255 * 4096 / 4096 = 255
    omega
  refine ⟨(wordMachine_inUse (b := 0) (by omega)).2, rfl,
    ⟨⟨by show 255 * 4096 % 4096 = 0; omega, by rw [hdir]; exact wordMachine_inUse (by omega),
      fun i hi hp => ?_⟩, fun i hi hp => ?_, fun i hi j hj hp hq _ => (honly i hi hp).trans (honly j hj hq).symm⟩⟩
  · have hi0 := honly i hi hp
    subst hi0
    show InUse _ (pde (wordMachine ws).mem (255 * 4096) 0 / 4096)
    rw [h0, frame_entry]
    exact wordMachine_inUse (by omega)
  · have hi0 := honly i hi hp
    subst hi0
    rw [hdir]
    show pde (wordMachine ws).mem (255 * 4096) 0 / 4096 ≠ 255
    rw [h0, frame_entry]
    omega

/-- A file in page 16. -/
theorem wordMachine_readable {ws : List (Nat × Nat)} {file : FsNode} (hread : file.read = true)
    (himpl : file.impl = 0x10000) (hlen : file.length ≤ 4096)
    (h : lookup (wordMachine ws).mem (255 * 4096) 0x10000 = 16 * 4096 + 7) :
    Readable (wordMachine ws) file := by
  refine ⟨hread, by rw [himpl]; decide, by rw [himpl]; omega, fun i hi => ?_⟩
  have hlook : lookup (wordMachine ws).mem (255 * 4096) (file.impl + i) = 16 * 4096 + 7 := by
    rw [himpl, lookup_page (w := 0x10000) (by omega)]
    exact h
  refine ⟨_, translate_of_lookup hlook, fun hfree => ?_⟩
  have hblock : (16 * 4096 + (file.impl + i) % 4096) / 4096 = 16 := by omega
  rw [hblock] at hfree
  exact hfree.not_inUse (wordMachine_inUse (by omega))

theorem smallElf_far {vaddr phnum : Nat} :
    ∀ w ∈ smallElf vaddr phnum, w.1 = 255 * 4096 ∨ w.1 + 4 ≤ 255 * 4096 := by
  have haddr : ∀ a ∈ (smallElf vaddr phnum).map Prod.fst, a = 255 * 4096 ∨ a + 4 ≤ 255 * 4096 := by
    simp only [smallElf, List.map_cons, List.map_nil]
    decide
  exact fun w hw => haddr w.1 (List.mem_map_of_mem hw)

theorem smallMachine_entry {vaddr phnum : Nat}
    (h0 : pde (smallMachine vaddr phnum).mem (255 * 4096) 0 = 254 * 4096 + 7) :
    Entry (smallMachine vaddr phnum) := wordMachine_entry smallElf_far h0

theorem smallMachine_readable {vaddr phnum : Nat}
    (h : lookup (smallMachine vaddr phnum).mem (255 * 4096) 0x10000 = 16 * 4096 + 7) :
    Readable (smallMachine vaddr phnum) smallFile :=
  @wordMachine_readable (smallElf vaddr phnum) smallFile rfl rfl (by decide) h

theorem smallMachine_segments :
    (segments (smallMachine 0x8048000 1) smallFile).map
        (fun p => (pVaddr p, pOffset p, pFilesz p, pMemsz p, pagesOf p))
      = [(0x8048000, 84, 4, 4, [0x8048])] := by decide +kernel

/-- A file of one segment at `0x8048000` is loaded: its first byte is there. -/
theorem elfLoad_correct_small : ∃ pd k' x,
    elfLoad smallVfs [slash, 97] (smallMachine 0x8048000 1) = .ok (.ok (0x8048000, pd), k') ∧
      translate k'.mem pd 0x8048000 = some x ∧ k'.mem x = 0x78 := by
  have hsegs : ∃ p, segments (smallMachine 0x8048000 1) smallFile = [p] ∧ pVaddr p = 0x8048000 ∧
      pOffset p = 84 ∧ pFilesz p = 4 ∧ pMemsz p = 4 ∧ pagesOf p = [0x8048] := by
    obtain ⟨p, hp, heq⟩ := List.map_eq_singleton_iff.mp smallMachine_segments
    simp only [Prod.mk.injEq] at heq
    exact ⟨p, hp, heq⟩
  obtain ⟨p, hp, hv, ho, hfs, hms, hpg⟩ := hsegs
  have hpages : allPages (smallMachine 0x8048000 1) smallFile = [0x8048] := by
    unfold allPages
    rw [hp, List.flatMap_singleton, hpg]
  have hmem : ∀ {q}, q ∈ segments (smallMachine 0x8048000 1) smallFile → q = p := fun hq =>
    List.mem_singleton.mp (hp ▸ hq)
  have hno : ¬HasTable (smallMachine 0x8048000 1) (0x8048 / 1024) := by decide +kernel
  have hw : WellFormed (smallMachine 0x8048000 1) smallFile := by
    refine ⟨⟨by decide, by decide +kernel⟩, ?_, fun q hq => ?_, fun q hq => ?_, fun q hq => ?_, ?_⟩
    · have hnum : ePhnum (ehdrOf (smallMachine 0x8048000 1) smallFile) = 1 := by decide +kernel
      intro j _ hj
      rw [hnum] at hj
      have hj0 : j = 0 := by omega
      rw [hj0]
      decide +kernel
    · rw [hmem hq]
      omega
    · rw [hmem hq]
      omega
    · rw [hmem hq, ho, hfs]
      decide
    · rw [hp]
      exact List.pairwise_singleton _ _
  obtain ⟨pd, k', hrun, hbytes, -⟩ := elfLoad_correct smallVfs_find
    (smallMachine_entry (by decide +kernel)) (smallMachine_readable (by decide +kernel)) hw
    (fun pg hpg' => by
      have hpg'' : pg = 0x8048 := List.mem_singleton.mp (hpages ▸ hpg')
      rw [hpg'']
      exact hno)
    (by
      show need _ (allPages (smallMachine 0x8048000 1) smallFile) ≤ _
      rw [hpages]
      decide +kernel)
  obtain ⟨x, htr, hx⟩ := hbytes p (by show p ∈ segments _ smallFile; rw [hp]; exact List.mem_cons_self)
    0 (by omega)
  refine ⟨pd, k', x, ?_, ?_, ?_⟩
  · have hentry : eEntry (ehdrOf (smallMachine 0x8048000 1) smallFile) = 0x8048000 := by
      decide +kernel
    rw [hrun]
    show Except.ok (Except.ok (eEntry (ehdrOf (smallMachine 0x8048000 1) smallFile), pd), k') = _
    rw [hentry]
  · rw [hv] at htr
    exact htr
  · rw [ho] at hx
    rw [hx]
    show fileByte (smallMachine 0x8048000 1) smallFile 84 = 0x78
    decide +kernel

end MyOS
