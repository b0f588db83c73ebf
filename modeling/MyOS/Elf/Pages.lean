import MyOS.Elf.Inv

/-!
# The page loop of `elf_load`

One lemma for each thing the loop body does: the copy of the caller's
directory starts the invariant (`loadInv_init`), taking a frame and mapping
it extends it by one page (`LoadInv.mapped`), clearing the page through the
MMU writes that page only. `LoadEnd` says how any part of a load can end, and
`LoadEnd.bind` is its rule for two parts in sequence. `loadPage_end` is the
loop body and `loadPages_end` the loop: after it the pages are loaded and
zero, or memory ran out at one of them.
-/

namespace MyOS

open Lib Lib.Mem Lib.Paging

/-- The directory the CPU and the kernel use. -/
def Machine.At (k : Machine) (dir : Nat) : Prop := k.currentPageDirectory = dir ∧ k.cr3 = dir

/-- The frames of the pages in `F` have the same contents in `l'`. -/
def SamePages (F : List (Nat × Nat)) (l l' : Load) : Prop :=
  ∀ e ∈ F, ∀ x, x / 4096 = e.2 → l'.k.mem x = l.k.mem x

/-- The frames of the pages in `G` are zero. -/
def Zeroed (G : List (Nat × Nat)) (l : Load) : Prop := ∀ e ∈ G, ∀ x, x / 4096 = e.2 → l.k.mem x = 0

/-- How a part of a load that covers the pages `pgs` ends. It goes through
with `Q` of the state and the new pages. Or it jumps to `cleanup` with `dir`
active again, because a page found no frame, and then none is left, or
because a header could not be read (only if `stop`), after all the pages. Or
it halts because a page table found no frame, and then memory was too small
for the pages so far. -/
def LoadEnd (k₀ : Machine) (file : FsNode) (P dir : Nat) (stop : Prop) (pgs : List Nat)
    (F : List (Nat × Nat)) (T : List Nat) (Q : Load → List (Nat × Nat) → Prop) :
    Except Stop Load → Prop
  | .ok l' => ¬stop ∧ ∃ G ts, LoadInv k₀ file P (G ++ F) (ts ++ T) l' ∧
      G.map Prod.fst = pgs.reverse ∧ Q l' G
  | .error (.cleanup e l') => l'.k.At dir ∧ ∃ G ts, LoadInv k₀ file P (G ++ F) (ts ++ T) l' ∧
      ((e = .segmentMemory ∧ MyOS.freeCount l'.k.pmm = 0 ∧
          ∃ m < pgs.length, G.map Prod.fst = (pgs.take m).reverse) ∨
        (e = .programHeader ∧ stop ∧ G.map Prod.fst = pgs.reverse))
  | .error (.halt _) => ∃ m < pgs.length,
      MyOS.freeCount k₀.pmm < need k₀ ((pgs.take (m + 1)).reverse ++ F.map Prod.fst)

theorem LoadEnd.mono {k₀ : Machine} {file : FsNode} {P dir : Nat} {stop stop' : Prop}
    {pgs : List Nat} {F : List (Nat × Nat)} {T : List Nat} {Q R : Load → List (Nat × Nat) → Prop}
    (hs : stop ↔ stop') (hQR : ∀ l G, Q l G → R l G) {x : Except Stop Load}
    (h : LoadEnd k₀ file P dir stop pgs F T Q x) : LoadEnd k₀ file P dir stop' pgs F T R x := by
  rw [← propext hs]
  match x, h with
  | .ok l, ⟨hs, G, ts, hinv, hkeys, hq⟩ => exact ⟨hs, G, ts, hinv, hkeys, hQR l G hq⟩
  | .error (.cleanup _ _), h => exact h
  | .error (.halt _), h => exact h

/-- Two parts in sequence cover the pages of both. -/
theorem LoadEnd.bind {k₀ : Machine} {file : FsNode} {P dir : Nat} {stop : Prop} {pgs qgs : List Nat}
    {F : List (Nat × Nat)} {T : List Nat} {Q R : Load → List (Nat × Nat) → Prop}
    {x : Except Stop Load} {f : Load → Except Stop Load}
    (hx : LoadEnd k₀ file P dir False pgs F T Q x)
    (hf : ∀ l' G ts, LoadInv k₀ file P (G ++ F) (ts ++ T) l' → G.map Prod.fst = pgs.reverse →
      Q l' G → LoadEnd k₀ file P dir stop qgs (G ++ F) (ts ++ T) (fun l'' G' => R l'' (G' ++ G)) (f l')) :
    LoadEnd k₀ file P dir stop (pgs ++ qgs) F T R (x.bind f) := by
  match x, hx with
  | .ok l', ⟨_, G, ts, hinv, hkeys, hq⟩ =>
    rw [ok_bind]
    have hrest := hf l' G ts hinv hkeys hq
    -- the pages of the second part come in front of those of the first
    have hall : ∀ {G' : List (Nat × Nat)} {qs : List Nat}, G'.map Prod.fst = qs.reverse →
        (G' ++ G).map Prod.fst = (pgs ++ qs).reverse := by
      intro G' qs hG'
      rw [List.map_append, hG', hkeys, List.reverse_append]
    match f l', hrest with
    | .ok l'', ⟨hs, G', ts', hinv', hkeys', hr⟩ =>
      rw [← List.append_assoc, ← List.append_assoc] at hinv'
      exact ⟨hs, G' ++ G, ts' ++ ts, hinv', hall hkeys', hr⟩
    | .error (.cleanup e l''), ⟨hat, G', ts', hinv', hend⟩ =>
      rw [← List.append_assoc, ← List.append_assoc] at hinv'
      refine ⟨hat, G' ++ G, ts' ++ ts, hinv', ?_⟩
      rcases hend with ⟨he, hcount, m, hm, hkeys'⟩ | ⟨he, hs, hkeys'⟩
      · refine Or.inl ⟨he, hcount, pgs.length + m, ?_, ?_⟩
        · rw [List.length_append]
          omega
        · rw [List.take_length_add_append, hall hkeys']
      · exact Or.inr ⟨he, hs, hall hkeys'⟩
    | .error (.halt p), ⟨m, hm, hneed⟩ =>
      refine ⟨pgs.length + m, ?_, ?_⟩
      · rw [List.length_append]
        omega
      · rw [Nat.add_assoc, List.take_length_add_append, List.reverse_append, List.append_assoc,
          ← hkeys, ← List.map_append]
        exact hneed
  | .error (.cleanup e l'), ⟨hat, G, ts, hinv, hend⟩ =>
    rw [error_bind]
    rcases hend with ⟨he, hcount, m, hm, hkeys⟩ | ⟨-, hs, -⟩
    · refine ⟨hat, G, ts, hinv, Or.inl ⟨he, hcount, m, ?_, ?_⟩⟩
      · rw [List.length_append]
        omega
      · rw [List.take_append_of_le_length (by omega)]
        exact hkeys
    · exact absurd hs id
  | .error (.halt p), ⟨m, hm, hneed⟩ =>
    rw [error_bind]
    refine ⟨m, ?_, ?_⟩
    · rw [List.length_append]
      omega
    · rw [List.take_append_of_le_length (by omega)]
      exact hneed

section Steps

variable {k₀ : Machine} {file : FsNode} {P : Nat} {F : List (Nat × Nat)} {T : List Nat} {l : Load}

/-- The copy of the caller's directory, before the first segment. -/
theorem loadInv_init (hk : Entry k₀) {s' : Pmm} (ht : Taken k₀.pmm [P] s') :
    LoadInv k₀ file P [] []
      ⟨{ k₀ with
          pmm := s'
          mem := k₀.mem.memcpy (P * 4096) k₀.currentPageDirectory 4096 }, []⟩ := by
  have hfree : IsFree k₀.pmm P := ht.mem_isFree List.mem_cons_self
  have hout : ∀ x, x / 4096 ≠ P →
      k₀.mem.memcpy (P * 4096) k₀.currentPageDirectory 4096 x = k₀.mem x := fun x hx =>
    memcpy_of_outside _ (by omega)
  have hpde : ∀ i < 1024, pde (k₀.mem.memcpy (P * 4096) k₀.currentPageDirectory 4096) (P * 4096) i
      = pde k₀.mem k₀.currentPageDirectory i := fun i hi => rd32_memcpy _ (by omega)
  have hne : ∀ i < 1024, HasTable k₀ i → tableAt k₀ i ≠ P := fun i hi hp heq =>
    hfree.not_inUse (heq ▸ hk.dir.table_used i hi hp)
  have hP : P * 4096 / 4096 = P := Nat.mul_div_cancel _ (by omega)
  refine ⟨ht, ⟨⟨by omega, ?_, fun i hi hp => ?_⟩, fun i hi hp => ?_, fun i hi j hj hp hq he => ?_⟩,
    fun v hv => ?_, fun i hi => Or.inl (hpde i hi), fun i hi => ?_, rfl, fun x hx _ => ?_,
    fun e he => absurd he List.not_mem_nil, rfl⟩
  · rw [hP]
    exact ht.inUse_iff.mpr (Or.inr List.mem_cons_self)
  · rw [hpde i hi] at hp ⊢
    exact ht.inUse_iff.mpr (Or.inl (hk.dir.table_used i hi hp))
  · rw [hpde i hi] at hp ⊢
    rw [hP]
    exact hne i hi hp
  · rw [hpde i hi] at hp he
    rw [hpde j hj] at hq he
    exact hk.dir.table_inj i hi j hj hp hq he
  · show lookup (k₀.mem.memcpy (P * 4096) k₀.currentPageDirectory 4096) (P * 4096) v = _
    have hslot := pdIndex_lt hv
    rw [frameOf, Option.elim_none]
    by_cases hp : HasTable k₀ (pdIndex v)
    · rw [lookup_present (by rw [hpde _ hslot]; exact hp), hpde _ hslot, lookup_present hp]
      exact rd32_entry_congr (pde_lt _ _ _) (fun x hx => hout x fun heq =>
        hne _ hslot hp (hx.symm.trans heq)) (ptIndex_lt v)
    · rw [lookup_absent (by rw [hpde _ hslot]; exact hp), lookup_absent hp]
  · show Present (pde (k₀.mem.memcpy (P * 4096) k₀.currentPageDirectory 4096) (P * 4096) i) ↔ _
    rw [hpde i hi]
    exact ⟨Or.inl, fun h => h.resolve_right List.not_mem_nil⟩
  · exact hout x fun heq => hx (heq ▸ hfree)

/-- `seg_blocks` after one more page. -/
theorem segBlocks_cons (F : List (Nat × Nat)) (pg f : Nat) :
    (if (((F.map (·.2 * 4096)).reverse).take maxSegmentBlocks).length < maxSegmentBlocks then
      ((F.map (·.2 * 4096)).reverse).take maxSegmentBlocks ++ [f * 4096]
    else ((F.map (·.2 * 4096)).reverse).take maxSegmentBlocks)
      = ((((pg, f) :: F).map (·.2 * 4096)).reverse).take maxSegmentBlocks := by
  rw [List.map_cons, List.reverse_cons, List.take_append, List.length_take, List.length_reverse,
    List.length_map]
  by_cases h : F.length < maxSegmentBlocks
  · rw [if_pos (by omega), List.take_of_length_le (l := [f * 4096])]
    rw [List.length_singleton]
    omega
  · rw [if_neg (by omega), show maxSegmentBlocks - F.length = 0 by omega, List.take_zero,
      List.append_nil]

/-- A frame taken and mapped at `v` adds a page, and a table if its slot had
none. -/
theorem LoadInv.mapped (h : LoadInv k₀ file P F T l) {v f : Nat}
    {ts : List Nat} {s₁ : Pmm} {k₂ : Machine} (hv : v < 2 ^ 32) (hsafe : Spared k₀ file (v / 4096))
    (hf : Taken l.k.pmm [f] s₁)
    (hm : Mapped (P * 4096) v (f * 4096 + 7) ts { l.k with pmm := s₁ } k₂) {bs : List Nat}
    (hbs : bs = ((((v / 4096, f) :: F).map (·.2 * 4096)).reverse).take maxSegmentBlocks) :
    LoadInv k₀ file P ((v / 4096, f) :: F) (ts ++ T) ⟨k₂, bs⟩ := by
  have hslot := pdIndex_lt hv
  have hP : P * 4096 / 4096 = P := Nat.mul_div_cancel _ (by omega)
  have hkeep : ∀ i < 1024, i ≠ pdIndex v ∨ Present (pde l.k.mem (P * 4096) i) →
      pde k₂.mem (P * 4096) i = pde l.k.mem (P * 4096) i := hm.keep
  have habsent : ¬Present (pde l.k.mem (P * 4096) (pdIndex v)) → ∃ t, ts = [t] := hm.absent
  have htaken : Taken k₀.pmm ((ts ++ T) ++ (((v / 4096, f) :: F).map Prod.snd ++ [P])) k₂.pmm := by
    refine ((h.taken.trans hf).trans hm.taken).perm ?_
    rw [List.append_assoc]
    have hmid : (T ++ f :: (F.map Prod.snd ++ [P])).Perm (f :: (T ++ (F.map Prod.snd ++ [P]))) :=
      List.perm_middle
    exact hmid.symm.append_left ts
  -- a slot without a table in the new directory had none at the call
  have hnone : ∀ i < 1024, ¬Present (pde l.k.mem (P * 4096) i) →
      ¬HasTable k₀ i ∧ i ∉ (F.map Prod.fst).map (· / 1024) := fun i hi habs =>
    ⟨fun hp => habs ((h.present i hi).mpr (Or.inl hp)),
      fun hmem => habs ((h.present i hi).mpr (Or.inr hmem))⟩
  have hslots : ∀ i < 1024, pde k₂.mem (P * 4096) i = pde k₀.mem k₀.currentPageDirectory i ∨
      (¬HasTable k₀ i ∧ ∃ t ∈ ts ++ T, pde k₂.mem (P * 4096) i = t * 4096 + 7) := by
    intro i hi
    by_cases hk : i ≠ pdIndex v ∨ Present (pde l.k.mem (P * 4096) i)
    · rw [hkeep i hi hk]
      exact (h.slots i hi).imp id fun ⟨hno, t, ht, heq⟩ =>
        ⟨hno, t, List.mem_append_right _ ht, heq⟩
    · rw [not_or, not_not] at hk
      obtain ⟨rfl, habs⟩ := hk
      obtain ⟨t, rfl⟩ := habsent habs
      exact Or.inr ⟨(hnone _ hi habs).1, t, List.mem_append_left _ List.mem_cons_self,
        hm.slot t List.mem_cons_self⟩
  refine ⟨htaken, hm.sep, fun w hw => ?_, hslots, fun i hi => ?_, ?_, fun x hx hs => ?_,
    fun e he => ?_, hbs⟩
  · show lookup k₂.mem (P * 4096) w = _
    have hold : lookup { l.k with pmm := s₁ }.mem (P * 4096) w = _ := h.look w hw
    rw [hm.lookup_eq w hw, frameOf]
    split
    · rfl
    · exact hold
  · show Present (pde k₂.mem (P * 4096) i) ↔ _
    rw [List.map_cons, List.map_cons, List.mem_cons, ← pdIndex_page]
    constructor
    · intro hp
      rcases hm.slot_cases hi hp with ⟨hold, -⟩ | ⟨heq, -⟩
      · exact ((h.present i hi).mp hold).imp id Or.inr
      · exact Or.inr (Or.inl heq)
    · intro hp
      by_cases hold : Present (pde l.k.mem (P * 4096) i)
      · rw [hkeep i hi (Or.inr hold)]
        exact hold
      · obtain ⟨hno, hnew⟩ := hnone i hi hold
        have heq : i = pdIndex v := (hp.resolve_left hno).resolve_right hnew
        subst heq
        obtain ⟨t, rfl⟩ := habsent hold
        rw [hm.slot t List.mem_cons_self]
        exact present_entry t
  · rw [List.length_append, h.tables, List.map_cons]
    by_cases hold : Present (pde l.k.mem (P * 4096) (pdIndex v))
    · have hin := (h.present _ hslot).mp hold
      rw [pdIndex_page] at hin
      rw [hm.present hold, newTables_cons_of_mem hin, List.length_nil, Nat.zero_add]
    · obtain ⟨hno, hnew⟩ := hnone _ hslot hold
      obtain ⟨t, rfl⟩ := habsent hold
      rw [pdIndex_page] at hno hnew
      rw [card_newTables_cons hno hnew, List.length_singleton, Nat.add_comm]
  · show k₂.mem x = k₀.mem x
    rw [hm.frame x ?_ ?_ ?_]
    · exact h.frame x hx fun e he => hs e (List.mem_cons_of_mem _ he)
    · exact fun ht => hx (htaken.mem_isFree (List.mem_append_left _ (List.mem_append_left _ ht)))
    · rw [hP]
      exact fun heq => hx (heq ▸ h.dirFree)
    · rcases hslots _ hslot with heq | ⟨-, t, ht, heq⟩
      · by_cases hp : HasTable k₀ (pdIndex v)
        · rw [heq]
          have hshared := hs (v / 4096, f) List.mem_cons_self
          rw [← pdIndex_page] at hshared
          exact hshared hp
        · -- the slot has a table now, so it is not the caller's absent one
          exfalso
          by_cases hold : Present (pde l.k.mem (P * 4096) (pdIndex v))
          · rw [← hkeep _ hslot (Or.inr hold), heq] at hold
            exact hp hold
          · obtain ⟨t, rfl⟩ := habsent hold
            refine hp ?_
            show Present (pde k₀.mem k₀.currentPageDirectory (pdIndex v))
            rw [← heq, hm.slot t List.mem_cons_self]
            exact present_entry t
      · rw [heq, frame_entry]
        intro hxt
        rw [hxt] at hx
        exact hx (htaken.mem_isFree (List.mem_append_left _ ht))
  · rcases List.mem_cons.mp he with rfl | he
    · exact ⟨by omega, hsafe⟩
    · exact h.pages e he

/-- The page just mapped is cleared through the MMU, and nothing else is
written. -/
theorem vmemset_page {k : Machine} {dir v f : Nat} (hcr3 : k.cr3 = dir) (hdir : dir % 4096 = 0)
    (hv : v % 4096 = 0) (hv32 : v < 2 ^ 32) (hlook : lookup k.mem dir v = f * 4096 + 7)
    (hf : ¬Frames k.mem dir f) :
    ∃ m, vmemset v 0 4096 k = .ok { k with mem := m } ∧
      (∀ x, x / 4096 = f → m x = 0) ∧ ∀ x, x / 4096 ≠ f → m x = k.mem x := by
  have hmap : ∀ i < 4096, translate k.mem k.cr3 ((v + i) % 2 ^ 32) = some (f * 4096 + i) := by
    intro i hi
    have hmod : (v + i) % 2 ^ 32 = v + i := Nat.mod_eq_of_lt (by omega)
    have hlook' : lookup k.mem dir (v + i) = f * 4096 + 7 := by
      rw [lookup_page (w := v) (by omega)]
      exact hlook
    rw [hmod, hcr3, translate_of_lookup hlook']
    congr 1
    omega
  obtain ⟨m, hrun, hval, hrest⟩ := vmemset_spec (d := fun i => f * 4096 + i) 0
    (by rw [hcr3]; exact hdir) hmap
    (fun i hi hfr => hf (by
      have hdiv : (f * 4096 + i) / 4096 = f := by omega
      rw [hdiv, hcr3] at hfr
      exact hfr))
  refine ⟨m, hrun, fun x hx => ?_, fun x hx => hrest x fun i hi heq => hx (by omega)⟩
  have hx' := hval (x - f * 4096) (by omega)
  rwa [Nat.add_sub_cancel' (by omega)] at hx'

/-- What one pass through the loop body ends in. -/
theorem loadPage_end (hk : Entry k₀) (h : LoadInv k₀ file P F T l) (old : Nat) {v : Nat}
    (hat : l.k.At (P * 4096)) (hv : v % 4096 = 0) (hv32 : v < 2 ^ 32)
    (hsafe : Spared k₀ file (v / 4096)) :
    LoadEnd k₀ file P old False [v / 4096] F T
      (fun l' G => SamePages F l l' ∧ Zeroed G l' ∧ l'.k.At (P * 4096)) (loadPage old v l) := by
  have hzero : bitmapTest l.k.pmm 0 = true := (h.taken.test 0).mpr (Or.inl hk.zero)
  unfold loadPage
  by_cases hnull : (pmmAllocBlock l.k.pmm).1 = 0
  · -- no frame: the state is the one before, with the old directory back
    obtain ⟨hsame, hcount⟩ := pmmAllocBlock_null hzero hnull
    simp only [hsame, if_pos]
    exact ⟨⟨rfl, rfl⟩, [], [], h.writePages hk (m := l.k.mem) (fun _ _ => rfl) rfl rfl rfl,
      Or.inl ⟨rfl, hcount, 0, by simp, rfl⟩⟩
  simp only [if_neg hnull]
  obtain ⟨f, -, hfree, haddr, hf⟩ := pmmAllocBlock_taken hnull
  rw [haddr]
  have hflags : f * 4096 ||| (flagPresent ||| flagWrite ||| flagUser) = f * 4096 + 7 :=
    or_flags (by omega) (by decide)
  have hlt := hfree.lt
  have hdir : DirOk { l.k with pmm := (pmmAllocBlock l.k.pmm).2 } l.k.currentPageDirectory := by
    rw [hat.1]
    exact h.sep.mono fun b hb => hf.inUse_iff.mpr (Or.inl hb)
  rcases vmmMapPage_cases (k := { l.k with pmm := (pmmAllocBlock l.k.pmm).2 }) (p := f * 4096)
    (f := flagPresent ||| flagWrite ||| flagUser) hdir hv32 (by rw [hflags]; omega) with
    ⟨ts, k₂, hrun, hm⟩ | ⟨habs, hnull', hrun⟩
  · -- mapped: extend the invariant, then clear the page
    rw [hflags] at hm
    have hm' : Mapped (P * 4096) v (f * 4096 + 7) ts
        { l.k with pmm := (pmmAllocBlock l.k.pmm).2 } k₂ := by
      rw [← hat.1]
      exact hm
    have hbs := segBlocks_cons F (v / 4096) f
    rw [← h.seg] at hbs
    have h₂ := h.mapped hv32 hsafe hf hm' hbs
    have hpage : (v / 4096, f) ∈ (v / 4096, f) :: F := List.mem_cons_self
    have hcr3 : k₂.cr3 = P * 4096 := (congrArg Machine.cr3 hm.regs).trans hat.2
    have hcur : k₂.currentPageDirectory = P * 4096 :=
      (congrArg Machine.currentPageDirectory hm.regs).trans hat.1
    obtain ⟨m, hset, hz, hrest⟩ := vmemset_page hcr3 (by omega) hv hv32
      (by rw [hm'.lookup_eq v hv32, if_pos rfl]) (h₂.page_not_frames hk hpage)
    rw [hrun, ok_bind, hset, ok_map]
    refine ⟨id, [(v / 4096, f)], ts, h₂.writePages hk (m := m) (fun x hx => hrest x (hx _ hpage))
      rfl rfl rfl, rfl, fun e he x hx => ?_, fun e he x hx => ?_, hcur, hcr3⟩
    · have he' : e ∈ (v / 4096, f) :: F := List.mem_cons_of_mem _ he
      have hef : e.2 ≠ f := fun heq => hfree.not_inUse
        (heq ▸ h.taken.inUse_iff.mpr (Or.inr (List.mem_append_right _ (List.mem_append_left _
          (List.mem_map_of_mem he)))))
      have hnf := h₂.page_not_frames hk he'
      obtain ⟨-, hT⟩ := h₂.distinct he'
      show m x = l.k.mem x
      rw [hrest x (by rw [hx]; exact hef), hm'.frame x]
      · rw [hx]
        exact fun hts => hT (List.mem_append_left _ hts)
      · rw [hx]
        exact fun heq => hnf (Or.inl heq)
      · rw [hx]
        refine fun heq => hnf (Or.inr ⟨pdIndex v, pdIndex_lt hv32, ?_, heq.symm⟩)
        refine (h₂.present _ (pdIndex_lt hv32)).mpr (Or.inr ?_)
        rw [List.map_cons, List.map_cons, ← pdIndex_page]
        exact List.mem_cons_self
    · rw [List.mem_singleton.mp he] at hx
      exact hz x hx
  · -- no frame for the table: one frame was left, and the page needs two
    rw [hrun]
    have hzero' : bitmapTest (pmmAllocBlock l.k.pmm).2 0 = true := (hf.test 0).mpr (Or.inl hzero)
    have hempty := (pmmAllocBlock_null hzero' hnull').2
    have hone := hf.freeCount
    have hcount := h.freeCount
    have habs' : ¬Present (pde l.k.mem (P * 4096) (pdIndex v)) := by
      rw [← hat.1]
      exact habs
    have hnew := fun hin => habs' ((h.present _ (pdIndex_lt hv32)).mpr hin)
    rw [pdIndex_page] at hnew
    have hcard := card_newTables_cons (fun hp => hnew (Or.inl hp)) (fun hp => hnew (Or.inr hp))
    refine ⟨0, Nat.zero_lt_one, ?_⟩
    show MyOS.freeCount k₀.pmm < need k₀ (v / 4096 :: F.map Prod.fst)
    unfold need at hcount ⊢
    rw [hcard, List.length_cons]
    rw [List.length_singleton] at hone
    omega

/-- The page loop. -/
theorem loadPages_end (hk : Entry k₀) (old : Nat) :
    ∀ (n : Nat) {v : Nat} {F : List (Nat × Nat)} {T : List Nat} {l : Load},
      LoadInv k₀ file P F T l → l.k.At (P * 4096) → v % 4096 = 0 → v + n * 4096 ≤ 2 ^ 32 →
      (∀ pg ∈ List.range' (v / 4096) n, Spared k₀ file pg) →
      LoadEnd k₀ file P old False (List.range' (v / 4096) n) F T
        (fun l' G => SamePages F l l' ∧ Zeroed G l' ∧ l'.k.At (P * 4096)) (loadPages old n v l) := by
  intro n
  induction n with
  | zero =>
    intro _ F T l h hat _ _ _
    exact ⟨id, [], [], h, rfl, fun _ _ _ _ => rfl, fun e he => absurd he List.not_mem_nil, hat⟩
  | succ n ih =>
    intro v F T l h hat hv hend hsafe
    have hnext : (v + 4096) / 4096 = v / 4096 + 1 := by omega
    rw [List.range'_succ] at hsafe ⊢
    rw [← List.singleton_append]
    unfold loadPages
    have hfirst := loadPage_end hk h old hat hv (by omega) (hsafe _ List.mem_cons_self)
    refine hfirst.bind fun l' G ts h' _ hq => ?_
    have hrest := ih h' hq.2.2 (v := v + 4096) (by omega) (by omega)
      (by
        rw [hnext]
        exact fun pg hpg => hsafe pg (List.mem_cons_of_mem _ hpg))
    rw [hnext] at hrest
    refine hrest.mono Iff.rfl fun l'' G' hr => ⟨fun e he x hx => ?_, fun e he x hx => ?_, hr.2.2⟩
    · exact (hr.1 e (List.mem_append_right _ he) x hx).trans (hq.1 e he x hx)
    · rcases List.mem_append.mp he with he | he
      · exact hr.2.1 e he x hx
      · exact (hr.1 e (List.mem_append_left _ he) x hx).trans (hq.2.1 e he x hx)

end Steps

end MyOS
