import MyOS.Elf.Leak
import MyOS.Vmm.Family

/-!
# Which address spaces a load changes

The kernel after `vmm_init`: the kernel directory is active whenever
`elf_load` is called, and each program loaded so far has a directory of its
own. A new directory is a copy of the kernel's 1024 entries, so the two share
every page table the kernel had. A segment page in such a slot is therefore
mapped in the kernel and in every process that shares the table; a page in a
slot without a table gets a private one.

`Spaces` is the machine with the directories made so far. A run is any
sequence of loads, allocations and mappings made under one of the
directories. `SpacesInv` holds along every run in which each load stays in
slots without a table (`Separate`): directories and tables are blocks in use,
no table is a directory, and a shared table stands at the same slot in both.
From it `elfLoad_isolated` concludes that such a load changes no translation
of any directory there was, and that a load that went through and was not of
that kind did.
-/

namespace MyOS

open Lib Lib.Mem Lib.Paging

/-! ## What one call does -/

/-- No segment page of an accepted file lies in a slot that has a table, and
each segment's file bytes fit its pages. -/
def Separate (k : Machine) (file : FsNode) : Prop :=
  Accepted k file → ∀ p ∈ segments k file, Fits file p ∧ ∀ pg ∈ pagesOf p, ¬HasTable k (pg / 1024)

/-- What a load does to the machine if it stays in slots without a table:
memory in use is left alone, and a new directory is made out of free
blocks. -/
structure LoadEffect (k : Machine) (file : FsNode) (r : ElfResult) (k' : Machine) : Prop where
  taken : ∃ l, Taken k.pmm l k'.pmm
  at_dir : k'.At k.currentPageDirectory
  mem : ∀ x, ¬IsFree k.pmm (x / 4096) → k'.mem x = k.mem x
  fresh : ∀ e pd, r = .ok (e, pd) → pd % 4096 = 0 ∧ IsFree k.pmm (pd / 4096)
  sep : ∀ e pd, r = .ok (e, pd) → Sep (InUse k'.pmm) k'.mem pd
  slots : ∀ e pd, r = .ok (e, pd) → ∀ i < 1024,
    pde k'.mem pd i = pde k.mem k.currentPageDirectory i ∨ IsFree k.pmm (pde k'.mem pd i / 4096)
  look : ∀ e pd, r = .ok (e, pd) → ∀ a < 2 ^ 32,
    (a / 4096 ∈ allPages k file ∧ ∃ f, IsFree k.pmm f ∧ lookup k'.mem pd a = f * 4096 + 7) ∨
    (a / 4096 ∉ allPages k file ∧ lookup k'.mem pd a = lookup k.mem k.currentPageDirectory a)

/-- A call that fails before anything was taken. -/
theorem loadEffect_unchanged {k : Machine} (hk : Entry k) (file : FsNode) (e : ElfError) :
    LoadEffect k file (.error e) k :=
  ⟨⟨[], Taken.refl _⟩, ⟨rfl, hk.cr3⟩, fun _ _ => rfl, fun _ _ h => absurd h (by simp),
    fun _ _ h => absurd h (by simp), fun _ _ h => absurd h (by simp), fun _ _ h => absurd h (by simp)⟩

section Effect

variable {k k' : Machine} {file : FsNode} {P : Nat} {G : List (Nat × Nat)} {T : List Nat} {l : Load}

/-- Without a shared table only free blocks are written. -/
theorem LoadInv.mem_eq (h : LoadInv k file P G T l)
    (hno : ∀ e ∈ G, ¬HasTable k (e.1 / 1024)) {x : Nat} (hx : ¬IsFree k.pmm (x / 4096)) :
    l.k.mem x = k.mem x :=
  h.frame x hx fun e he ht => absurd ht (hno e he)

/-- The load went through. -/
theorem loadEffect_loaded (h : LoadInv k file P G T l) (hat : l.k.At k.currentPageDirectory)
    (hkeys : G.map Prod.fst = (allPages k file).reverse)
    (hno : ∀ pg ∈ allPages k file, ¬HasTable k (pg / 1024)) (e : Nat) :
    LoadEffect k file (.ok (e, P * 4096)) l.k := by
  have hP : P * 4096 / 4096 = P := Nat.mul_div_cancel _ (Nat.zero_lt_succ 4095)
  have hmem : ∀ {pg}, pg ∈ G.map Prod.fst ↔ pg ∈ allPages k file := by
    intro pg
    rw [hkeys, List.mem_reverse]
  refine ⟨⟨_, h.taken⟩, hat, fun x hx => h.mem_eq (fun e' he' => ?_) hx, fun e' pd heq => ?_,
    fun e' pd heq => ?_, fun e' pd heq i hi => ?_, fun e' pd heq a ha => ?_⟩
  · exact hno _ (hmem.mp (List.mem_map_of_mem he'))
  · cases heq
    rw [hP]
    exact ⟨by omega, h.dirFree⟩
  · cases heq
    exact h.sep
  · cases heq
    rcases h.slots i hi with hold | ⟨-, t, ht, hnew⟩
    · exact Or.inl hold
    · refine Or.inr ?_
      rw [hnew, frame_entry]
      exact h.tableFree ht
  · cases heq
    rw [h.look a ha]
    cases hf : frameOf G (a / 4096) with
    | none =>
      refine Or.inr ⟨fun hpg => ?_, by rw [Option.elim_none]⟩
      obtain ⟨f, hf'⟩ := frameOf_isSome (hmem.mpr hpg)
      rw [hf] at hf'
      exact absurd hf' (by simp)
    | some f =>
      have hin := frameOf_mem hf
      exact Or.inl ⟨hmem.mp (List.mem_map_of_mem hin), f, h.pageFree hin, by rw [Option.elim_some]⟩

/-- The load jumped to `cleanup` after the pages of `G`. -/
theorem loadEffect_cleanup (h : LoadInv k file P G T l) (hat : l.k.At k.currentPageDirectory)
    (hno : ∀ e ∈ G, ¬HasTable k (e.1 / 1024)) (err : ElfError) :
    LoadEffect k file (.error err) (cleanup (P * 4096) l) :=
  ⟨⟨_, cleanup_taken h⟩, hat, fun _ hx => h.mem_eq hno hx, fun _ _ heq => absurd heq (by simp),
    fun _ _ heq => absurd heq (by simp), fun _ _ heq => absurd heq (by simp),
    fun _ _ heq => absurd heq (by simp)⟩

/-- **One load.** A call on a readable file whose segments stay in slots
without a table. -/
theorem elfLoadNode_effect (hk : Entry k) (hf : Readable k file) (hsep : Separate k file)
    {r : ElfResult} (hrun : elfLoadNode file k = .ok (r, k')) : LoadEffect k file r k' := by
  by_cases hacc : Accepted k file
  · have hsegs : ∀ p ∈ segments k file, Fits file p ∧ ∀ pg ∈ pagesOf p, Safe k file pg :=
      fun p hp => ⟨(hsep hacc p hp).1, fun pg hpg => safe_of_no_table ((hsep hacc p hp).2 pg hpg)⟩
    have hno : ∀ pg ∈ allPages k file, ¬HasTable k (pg / 1024) := fun pg hpg => by
      obtain ⟨p, hp, hmem⟩ := List.mem_flatMap.mp hpg
      exact (hsep hacc p hp).2 pg hmem
    rcases elfLoadNode_accepted hk hf hacc (spared_of_safe hf hsegs) with ⟨-, herr⟩ | ⟨P, x, hx, -, hend⟩
    · rw [herr] at hrun
      cases hrun
      exact loadEffect_unchanged hk file _
    rw [hx] at hrun
    match x, hend with
    | .ok l, ⟨_, G, T, hinv, hkeys, hat, _⟩ =>
      rw [finish] at hrun
      cases hrun
      rw [List.append_nil, List.append_nil] at hinv
      exact loadEffect_loaded hinv hat hkeys hno _
    | .error (.halt p), _ =>
      rw [finish] at hrun
      exact absurd hrun (by simp)
    | .error (.cleanup e l), ⟨hat, G, T, hinv, hcases⟩ =>
      rw [finish] at hrun
      cases hrun
      rw [List.append_nil, List.append_nil] at hinv
      -- the pages so far are some of the file's, whatever the reason
      refine loadEffect_cleanup hinv hat (fun e' he' => hno _ ?_) _
      have hkey : e'.1 ∈ G.map Prod.fst := List.mem_map_of_mem he'
      rcases hcases with ⟨-, -, m, -, hkeys⟩ | ⟨-, -, hkeys⟩
      · rw [hkeys, List.mem_reverse] at hkey
        exact List.mem_of_mem_take hkey
      · rw [hkeys, List.mem_reverse] at hkey
        exact hkey
  · obtain ⟨e, he⟩ := elfLoadNode_rejected hk hf hacc
    rw [he] at hrun
    cases hrun
    exact loadEffect_unchanged hk file e

/-- A node without a read function is not loaded. -/
theorem elfLoadNode_unreadable_node (hread : file.read = false) :
    elfLoadNode file k = .ok (.error .header, k) := by
  unfold elfLoadNode readFsLocal
  rw [if_neg (by rw [hread]; exact Bool.false_ne_true), ok_bind]
  have hshort : 0 < ehdrSize := by decide
  exact if_pos hshort

/-- A load that goes through maps every page in the caller's directory if its
slot has a table there. -/
theorem elfLoadNode_shares (hk : Entry k) (hf : Readable k file) (hacc : Accepted k file)
    (hsegs : ∀ p ∈ segments k file, Fits file p ∧ ∀ pg ∈ pagesOf p, Safe k file pg)
    {e pd : Nat} (hrun : elfLoadNode file k = .ok (.ok (e, pd), k')) {pg : Nat}
    (hpg : pg ∈ allPages k file) (htab : HasTable k (pg / 1024)) :
    translate k'.mem k.currentPageDirectory (pg * 4096)
      ≠ translate k.mem k.currentPageDirectory (pg * 4096) := by
  rcases elfLoadNode_accepted hk hf hacc (spared_of_safe hf hsegs) with ⟨-, herr⟩ | ⟨P, x, hx, -, hend⟩
  · rw [herr] at hrun
    exact absurd hrun (by simp)
  rw [hx] at hrun
  match x, hend with
  | .error (.halt p), _ =>
    rw [finish] at hrun
    exact absurd hrun (by simp)
  | .error (.cleanup e l), _ =>
    rw [finish] at hrun
    exact absurd hrun (by simp)
  | .ok l, ⟨_, G, T, hinv, hkeys, _, _⟩ =>
    rw [finish] at hrun
    cases hrun
    rw [List.append_nil, List.append_nil] at hinv
    have hin : pg ∈ G.map Prod.fst := by
      rw [hkeys, List.mem_reverse]
      exact hpg
    obtain ⟨f, hfr⟩ := frameOf_isSome hin
    have hpage := hinv.pages _ (frameOf_mem hfr)
    have hlt : pg * 4096 < 2 ^ 32 := by
      have h20 : pg < 2 ^ 20 := hpage.1
      omega
    have hdiv : pg * 4096 / 4096 = pg := Nat.mul_div_cancel _ (Nat.zero_lt_succ 4095)
    have hlook : lookup l.k.mem k.currentPageDirectory (pg * 4096) = f * 4096 + 7 := by
      rw [hinv.lookup_old hk hlt, if_pos (by rw [pdIndex_page, hdiv]; exact htab),
        hinv.look _ hlt, hdiv, hfr, Option.elim_some]
    -- it was not mapped before
    intro heq
    rw [translate_of_lookup hlook] at heq
    obtain ⟨p, hp, hmem⟩ := List.mem_flatMap.mp hpg
    exact ((hsegs p hp).2 pg hmem).1 (translate_some heq.symm).1

end Effect

/-! ## The directories of the kernel and of the processes -/

/-- The machine, with the kernel directory active, and the directories
`elf_load` has returned. -/
structure Spaces where
  k : Machine
  procs : List Nat

/-- Every directory there is. -/
def Spaces.dirs (s : Spaces) : List Nat := s.k.currentPageDirectory :: s.procs

/-- After a load: a successful one adds a directory. -/
def Spaces.loaded (s : Spaces) : ElfResult × Machine → Spaces
  | (.ok (_, pd), k) => ⟨k, pd :: s.procs⟩
  | (.error _, k) => ⟨k, s.procs⟩

/-- A mapping made by a task that runs under `dir`, and the switch back. -/
def Spaces.under (s : Spaces) (dir : Nat) (f : Machine → Except Panic Machine) :
    Except Panic Spaces :=
  (f (s.k.setDir dir s.k.intFlag)).map fun k =>
    { s with k := k.setDir s.k.currentPageDirectory s.k.intFlag }

inductive SpaceOp where
  | load (path : List UInt8)
  | alloc
  | map (dir physAddr virtAddr flags : Nat)
  | unmap (dir virtAddr : Nat)

namespace SpaceOp

def apply (v : Vfs) (s : Spaces) : SpaceOp → Except Panic Spaces
  | load path => (elfLoad v path s.k).map s.loaded
  | alloc => .ok { s with k := { s.k with pmm := (pmmAllocBlock s.k.pmm).2 } }
  | map dir p a f => s.under dir (vmmMapPage p a f)
  | unmap dir a => s.under dir fun k => .ok (vmmUnmapPage a k)

/-- A load stays in slots without a table. A mapping is made under one of the
directories and keeps the identity map of the `total` blocks of RAM. -/
def Legal (v : Vfs) (total : Nat) (s : Spaces) : SpaceOp → Prop
  | load path => ∀ ref, findNodeByPath v path = some ref → Separate s.k (v.node ref)
  | alloc => True
  | map dir p a f => dir ∈ s.dirs ∧ p < 2 ^ 32 ∧ a < 2 ^ 32 ∧ f < 2 ^ 32 ∧
      (total ≤ a / 4096 ∨ (p = a / 4096 * 4096 ∧ f < 4096 ∧ Present f))
  | unmap dir a => dir ∈ s.dirs ∧ a < 2 ^ 32 ∧ total ≤ a / 4096

end SpaceOp

def spaceRun (v : Vfs) (s : Spaces) : List SpaceOp → Except Panic Spaces
  | [] => .ok s
  | op :: ops => (op.apply v s).bind fun s' => spaceRun v s' ops

/-- Every call of the run is legal when it is made. -/
def LegalSpaceRun (v : Vfs) (total : Nat) (s : Spaces) : List SpaceOp → Prop
  | [] => True
  | op :: ops => op.Legal v total s ∧ ∀ s', op.apply v s = .ok s' → LegalSpaceRun v total s' ops

/-- The files are in RAM that was not free when the identity map was made. -/
def FilesKept (v : Vfs) (k₁ : Machine) : Prop :=
  ∀ ref, (v.node ref).read = true → 512 ≤ (v.node ref).impl ∧
    (v.node ref).impl + (v.node ref).length ≤ k₁.pmm.totalBlocks * 4096 ∧
    ∀ i < (v.node ref).length, InUse k₁.pmm (((v.node ref).impl + i) / 4096)

/-- What holds between any two operations, against the machine `k₁` that
`vmm_init` left. -/
structure SpacesInv (k₁ : Machine) (s : Spaces) : Prop where
  zero : bitmapTest s.k.pmm 0 = true
  at_dir : s.k.At k₁.currentPageDirectory
  ident : ∀ a < 2 ^ 32, a / 4096 < k₁.pmm.totalBlocks →
    translate s.k.mem k₁.currentPageDirectory a = some a
  kept : ∀ b, InUse k₁.pmm b → InUse s.k.pmm b
  backed : ∀ d ∈ s.dirs, Backed (InUse s.k.pmm) s.k.mem d
  apart : ∀ d ∈ s.dirs, ∀ i < 1024, Present (pde s.k.mem d i) →
    ∀ d' ∈ s.dirs, pde s.k.mem d i / 4096 ≠ d' / 4096
  shared : ∀ d ∈ s.dirs, ∀ i < 1024, Present (pde s.k.mem d i) →
    ∀ d' ∈ s.dirs, ∀ j < 1024, Present (pde s.k.mem d' j) →
    pde s.k.mem d i / 4096 = pde s.k.mem d' j / 4096 → i = j

section Invariant

variable {v : Vfs} {k₁ : Machine} {s : Spaces}

theorem SpacesInv.family (h : SpacesInv k₁ s) : Family (InUse s.k.pmm) s.k.mem s.dirs :=
  ⟨h.backed, h.apart, h.shared⟩

/-- Each directory is sound. -/
theorem SpacesInv.sep (h : SpacesInv k₁ s) {d : Nat} (hd : d ∈ s.dirs) :
    Sep (InUse s.k.pmm) s.k.mem d :=
  h.family.sep hd

theorem SpacesInv.kernel_mem (h : SpacesInv k₁ s) : k₁.currentPageDirectory ∈ s.dirs := by
  unfold Spaces.dirs
  rw [h.at_dir.1]
  exact List.mem_cons_self

theorem SpacesInv.entry (h : SpacesInv k₁ s) : Entry s.k :=
  ⟨h.zero, h.at_dir.2.trans h.at_dir.1.symm, h.sep List.mem_cons_self⟩

theorem SpacesInv.readable (h : SpacesInv k₁ s) (hfiles : FilesKept v k₁) (ref : NodeRef)
    (hread : (v.node ref).read = true) : Readable s.k (v.node ref) := by
  obtain ⟨hheader, hend, hused⟩ := hfiles ref hread
  have htotal := k₁.pmm.total_lt
  refine ⟨hread, hheader, by omega, fun i hi => ⟨(v.node ref).impl + i, ?_, fun hfree => ?_⟩⟩
  · rw [h.at_dir.1]
    exact h.ident _ (by omega) (by omega)
  · exact hfree.not_inUse (h.kept _ (hused i hi))

/-! ### A load -/

section Load

variable {file : FsNode} {r : ElfResult} {k' : Machine}

/-- A directory there was keeps its entries and its lookups. -/
theorem LoadEffect.pde_eq (he : LoadEffect s.k file r k') (h : SpacesInv k₁ s) {d i : Nat}
    (hd : d ∈ s.dirs) (hi : i < 1024) : pde k'.mem d i = pde s.k.mem d i :=
  (h.backed d hd).pde_congr (fun x hx => he.mem x fun hfree => hfree.not_inUse hx) hi

theorem LoadEffect.lookup_eq (he : LoadEffect s.k file r k') (h : SpacesInv k₁ s) {d a : Nat}
    (hd : d ∈ s.dirs) (ha : a < 2 ^ 32) : lookup k'.mem d a = lookup s.k.mem d a :=
  (h.backed d hd).lookup_congr (fun x hx => he.mem x fun hfree => hfree.not_inUse hx) ha

theorem LoadEffect.inUse (he : LoadEffect s.k file r k') {b : Nat} (hb : InUse s.k.pmm b) :
    InUse k'.pmm b := by
  obtain ⟨l, hl⟩ := he.taken
  exact hl.inUse_iff.mpr (Or.inl hb)

/-- The directories after a load. -/
theorem LoadEffect.mem_dirs (he : LoadEffect s.k file r k') {d : Nat}
    (hd : d ∈ (s.loaded (r, k')).dirs) : d ∈ s.dirs ∨ ∃ e, r = .ok (e, d) := by
  match r, he, hd with
  | .error _, he, hd =>
    left
    unfold Spaces.dirs at hd ⊢
    rw [← he.at_dir.1]
    exact hd
  | .ok (e, pd), he, hd =>
    rcases List.mem_cons.mp hd with rfl | hd
    · left
      show k'.currentPageDirectory ∈ s.dirs
      rw [he.at_dir.1]
      exact List.mem_cons_self
    · rcases List.mem_cons.mp hd with rfl | hd
      · exact Or.inr ⟨e, rfl⟩
      · exact Or.inl (List.mem_cons_of_mem _ hd)

/-- A table after the load is one there was, at the same slot, or a new one
of the new directory. -/
theorem LoadEffect.table_cases (he : LoadEffect s.k file r k') (h : SpacesInv k₁ s) {d i : Nat}
    (hd : d ∈ (s.loaded (r, k')).dirs) (hi : i < 1024) (hp : Present (pde k'.mem d i)) :
    (∃ d₀ ∈ s.dirs, Present (pde s.k.mem d₀ i) ∧ pde k'.mem d i = pde s.k.mem d₀ i) ∨
    ((∃ e, r = .ok (e, d)) ∧ IsFree s.k.pmm (pde k'.mem d i / 4096)) := by
  rcases he.mem_dirs hd with hold | ⟨e, hr⟩
  · have heq := he.pde_eq h hold hi
    exact Or.inl ⟨d, hold, by rw [← heq]; exact hp, heq⟩
  · rcases he.slots e d hr i hi with heq | hfree
    · exact Or.inl ⟨s.k.currentPageDirectory, List.mem_cons_self, by rw [← heq]; exact hp, heq⟩
    · exact Or.inr ⟨⟨e, hr⟩, hfree⟩

theorem SpacesInv.load (h : SpacesInv k₁ s) (he : LoadEffect s.k file r k') :
    SpacesInv k₁ (s.loaded (r, k')) := by
  have hk' : (s.loaded (r, k')).k = k' := by
    match r with
    | .ok (_, _) => rfl
    | .error _ => rfl
  obtain ⟨l, hl⟩ := he.taken
  have hzero : bitmapTest k'.pmm 0 = true := (hl.test 0).mpr (Or.inl h.zero)
  -- a block of an old directory or table is not one that was free
  have hclash : ∀ {b c : Nat}, InUse s.k.pmm b → IsFree s.k.pmm c → b ≠ c := fun hb hc heq =>
    hc.not_inUse (heq ▸ hb)
  have hone : ∀ {d d' : Nat}, (∃ e, r = .ok (e, d)) → (∃ e, r = .ok (e, d')) → d = d' := by
    intro d d' hd hd'
    obtain ⟨e, hr⟩ := hd
    obtain ⟨e', hr'⟩ := hd'
    rw [hr] at hr'
    cases hr'
    rfl
  refine ⟨by rw [hk']; exact hzero, ?_, ?_, ?_, ?_, ?_, ?_⟩ <;> rw [hk']
  · exact ⟨he.at_dir.1.trans h.at_dir.1, he.at_dir.2.trans h.at_dir.1⟩
  · intro a ha hpage
    rw [translate_congr (he.lookup_eq h h.kernel_mem ha)]
    exact h.ident a ha hpage
  · exact fun b hb => he.inUse (h.kept b hb)
  · intro d hd
    rcases he.mem_dirs hd with hold | ⟨e, hr⟩
    · refine ⟨(h.backed d hold).aligned, he.inUse (h.backed d hold).dir_used, fun i hi hp => ?_⟩
      rw [he.pde_eq h hold hi] at hp ⊢
      exact he.inUse ((h.backed d hold).table_used i hi hp)
    · exact (he.sep e d hr).toBacked
  · intro d hd i hi hp d' hd'
    rcases he.table_cases h hd hi hp, he.mem_dirs hd' with
      ⟨⟨d₀, hd₀, hp₀, heq⟩ | ⟨hnew, hfree⟩, hold' | ⟨e, hr⟩⟩
    · rw [heq]
      exact h.apart d₀ hd₀ i hi hp₀ d' hold'
    · rw [heq]
      exact hclash ((h.backed d₀ hd₀).table_used i hi hp₀) (he.fresh e d' hr).2
    · exact (hclash (h.backed d' hold').dir_used hfree).symm
    · obtain ⟨e', hr'⟩ := hnew
      rw [← hone ⟨e', hr'⟩ ⟨e, hr⟩]
      exact (he.sep e' d hr').table_ne i hi hp
  · intro d hd i hi hp d' hd' j hj hq heq
    rcases he.table_cases h hd hi hp, he.table_cases h hd' hj hq with
      ⟨⟨d₀, hd₀, hp₀, hpd⟩ | ⟨hnew, hfree⟩, ⟨d₁, hd₁, hq₁, hqd⟩ | ⟨hnew', hfree'⟩⟩
    · rw [hpd, hqd] at heq
      exact h.shared d₀ hd₀ i hi hp₀ d₁ hd₁ j hj hq₁ heq
    · rw [← heq, hpd] at hfree'
      exact absurd rfl (hclash ((h.backed d₀ hd₀).table_used i hi hp₀) hfree')
    · rw [heq, hqd] at hfree
      exact absurd rfl (hclash ((h.backed d₁ hd₁).table_used j hj hq₁) hfree)
    · have hdd := hone hnew hnew'
      subst hdd
      obtain ⟨e, hr⟩ := hnew
      exact (he.sep e d hr).table_inj i hi j hj hp hq heq

end Load

/-! ### A mapping under one of the directories -/

section Map

variable {d a e : Nat} {ts : List Nat} {flag : Bool} {k₂ : Machine}

/-- The lookups of every directory change at that page only, and there to the
new entry. -/
theorem SpacesInv.lookup_mapped (h : SpacesInv k₁ s) (hd : d ∈ s.dirs) (ha : a < 2 ^ 32)
    (hm : Mapped d a e ts (s.k.setDir d flag) k₂) {d' w : Nat} (hd' : d' ∈ s.dirs)
    (hw : w < 2 ^ 32) :
    lookup k₂.mem d' w = lookup s.k.mem d' w ∨ (w / 4096 = a / 4096 ∧ lookup k₂.mem d' w = e) := by
  rcases Family.lookup_mapped (k := s.k.setDir d flag) h.family hd ha hm hd' hw with
    hsame | ⟨hpage, heq, -⟩
  · exact Or.inl hsame
  · exact Or.inr ⟨hpage, heq⟩

theorem SpacesInv.map (h : SpacesInv k₁ s) (hd : d ∈ s.dirs) (ha : a < 2 ^ 32)
    (hm : Mapped d a e ts (s.k.setDir d flag) k₂)
    (hid : a / 4096 < k₁.pmm.totalBlocks → Present e ∧ e / 4096 = a / 4096) :
    SpacesInv k₁ { s with k := k₂.setDir s.k.currentPageDirectory flag } := by
  have hup : ∀ {b}, InUse s.k.pmm b → InUse k₂.pmm b := fun hb => hm.taken.inUse_iff.mpr (Or.inl hb)
  have hfam : Family (InUse k₂.pmm) k₂.mem s.dirs :=
    Family.mapped (k := s.k.setDir d flag) h.family hd ha hm
  refine ⟨(hm.taken.test 0).mpr (Or.inl h.zero), ⟨h.at_dir.1, h.at_dir.1⟩, fun w hw hpage => ?_,
    fun b hb => hup (h.kept b hb), hfam.backed, hfam.apart, hfam.shared⟩
  show translate k₂.mem k₁.currentPageDirectory w = some w
  rcases h.lookup_mapped hd ha hm h.kernel_mem hw with hsame | ⟨hpg, heq⟩
  · rw [translate_congr hsame]
    exact h.ident w hw hpage
  · obtain ⟨hpres, hframe⟩ := hid (by omega)
    rw [translate_of_present (by rw [heq]; exact hpres), heq, hframe, ← hpg, Nat.div_add_mod']

end Map

/-! ### Steps and runs -/

/-- Blocks taken by someone else change nothing. -/
theorem SpacesInv.grow (h : SpacesInv k₁ s) {l : List Nat} {p : Pmm} (hl : Taken s.k.pmm l p) :
    SpacesInv k₁ { s with k := { s.k with pmm := p } } := by
  have hup : ∀ {b}, InUse s.k.pmm b → InUse p b := fun hb => hl.inUse_iff.mpr (Or.inl hb)
  exact ⟨(hl.test 0).mpr (Or.inl h.zero), h.at_dir, h.ident, fun b hb => hup (h.kept b hb),
    fun d hd => (h.backed d hd).mono fun _ hb => hup hb, h.apart, h.shared⟩

/-- Every call of `elf_load` has the effect of one load, on the file found. -/
theorem SpacesInv.elfLoad_effect (h : SpacesInv k₁ s) (hfiles : FilesKept v k₁) {path : List UInt8}
    (hsep : ∀ ref, findNodeByPath v path = some ref → Separate s.k (v.node ref)) {r : ElfResult}
    {k' : Machine} (hrun : elfLoad v path s.k = .ok (r, k')) (file : FsNode)
    (hfile : ∀ ref, findNodeByPath v path = some ref → file = v.node ref) :
    LoadEffect s.k file r k' := by
  unfold elfLoad at hrun
  cases hfind : findNodeByPath v path with
  | none =>
    rw [hfind, Option.elim_none] at hrun
    cases hrun
    exact loadEffect_unchanged h.entry file _
  | some ref =>
    rw [hfind, Option.elim_some] at hrun
    rw [hfile ref hfind]
    by_cases hread : (v.node ref).read = true
    · exact elfLoadNode_effect h.entry (h.readable hfiles ref hread) (hsep ref hfind) hrun
    · rw [elfLoadNode_unreadable_node (Bool.eq_false_of_not_eq_true hread)] at hrun
      cases hrun
      exact loadEffect_unchanged h.entry _ _

theorem SpacesInv.step (h : SpacesInv k₁ s) (hfiles : FilesKept v k₁) {op : SpaceOp} {s' : Spaces}
    (hl : op.Legal v k₁.pmm.totalBlocks s) (hrun : op.apply v s = .ok s') : SpacesInv k₁ s' := by
  cases op with
  | load path =>
    obtain ⟨⟨r, k'⟩, hload, rfl⟩ := map_eq_ok hrun
    cases hfind : findNodeByPath v path with
    | none => exact h.load (h.elfLoad_effect hfiles hl hload (v.node .root)
        fun ref href => absurd (hfind.symm.trans href) (by simp))
    | some ref => exact h.load (h.elfLoad_effect hfiles hl hload (v.node ref)
        fun ref' href => by
          rw [hfind] at href
          cases href
          rfl)
  | alloc =>
    cases hrun
    by_cases hnull : (pmmAllocBlock s.k.pmm).1 = 0
    · rw [(pmmAllocBlock_null h.zero hnull).1]
      exact h
    · obtain ⟨b, -, -, -, ht⟩ := pmmAllocBlock_taken hnull
      exact h.grow ht
  | map d p a f =>
    obtain ⟨hd, hp, ha, hf, hid⟩ := hl
    obtain ⟨k₂, hmap, rfl⟩ := map_eq_ok hrun
    have hlt : p ||| f < 2 ^ 32 := Nat.or_lt_two_pow hp hf
    rcases vmmMapPage_cases (k := s.k.setDir d s.k.intFlag) (h.sep hd) ha hlt with
      ⟨ts, k₃, hmap', hm⟩ | ⟨-, -, herr⟩
    · rw [hmap'] at hmap
      cases hmap
      refine h.map hd ha hm fun hlow => ?_
      obtain ⟨rfl, hsmall, hpres⟩ := hid.resolve_left (by omega)
      rw [or_flags (by omega) hsmall]
      rw [present_iff] at hpres ⊢
      omega
    · rw [herr] at hmap
      exact absurd hmap (by simp)
  | unmap d a =>
    obtain ⟨hd, ha, hhigh⟩ := hl
    have hs' : ⟨(vmmUnmapPage a (s.k.setDir d s.k.intFlag)).setDir s.k.currentPageDirectory
      s.k.intFlag, s.procs⟩ = s' := Except.ok.inj hrun
    rw [← hs']
    by_cases hp : Present (pde s.k.mem d (pdIndex a))
    · exact h.map hd ha (vmmUnmapPage_mapped (k := s.k.setDir d s.k.intFlag) (h.sep hd) ha hp)
        fun hlow => absurd hlow (by omega)
    · have hsame : vmmUnmapPage a (s.k.setDir d s.k.intFlag) = s.k.setDir d s.k.intFlag := if_neg hp
      rw [hsame]
      exact ⟨h.zero, ⟨h.at_dir.1, h.at_dir.1⟩, h.ident, h.kept, h.backed, h.apart, h.shared⟩

theorem SpacesInv.run (hfiles : FilesKept v k₁) : ∀ (ops : List SpaceOp) {s s' : Spaces},
    SpacesInv k₁ s → LegalSpaceRun v k₁.pmm.totalBlocks s ops → spaceRun v s ops = .ok s' →
    SpacesInv k₁ s' := by
  intro ops
  induction ops with
  | nil =>
    intro s s' h _ hrun
    cases hrun
    exact h
  | cons op ops ih =>
    intro s s' h hl hrun
    obtain ⟨s₁, hstep, hrest⟩ := bind_eq_ok hrun
    exact ih (h.step hfiles hl.1 hstep) (hl.2 s₁ hstep) hrest

end Invariant

/-- After `vmm_init` there is the kernel directory alone. -/
theorem spacesInv_init {k k₁ : Machine} (hzero : bitmapTest k.pmm 0 = true)
    (hinit : vmmInit k = .ok k₁) : SpacesInv k₁ ⟨k₁, []⟩ := by
  obtain ⟨hcr3, hok, hlook, hfresh⟩ := vmmInit_spec hinit
  obtain ⟨l, hl⟩ := hfresh.taken
  have honly : ∀ {d}, d ∈ (⟨k₁, []⟩ : Spaces).dirs → d = k₁.currentPageDirectory := fun hd =>
    List.mem_singleton.mp hd
  refine ⟨(hl.test 0).mpr (Or.inl hzero), ⟨rfl, hcr3⟩, fun a ha hpage => ?_, fun _ hb => hb,
    fun d hd => ?_, fun d hd i hi hp d' hd' => ?_, fun d hd i hi hp d' hd' j hj hq heq => ?_⟩
  · have hentry : lookup k₁.mem k₁.currentPageDirectory a = a / 4096 * 4096 + 7 := by
      rw [hlook a ha]
      exact if_pos (hl.total ▸ hpage)
    show translate k₁.mem k₁.currentPageDirectory a = some a
    rw [translate_of_lookup hentry, Nat.div_add_mod']
  · rw [honly hd]
    exact hok.toBacked
  · rw [honly hd] at hp ⊢
    rw [honly hd']
    exact hok.table_ne i hi hp
  · rw [honly hd] at hp heq
    rw [honly hd'] at hq heq
    exact hok.table_inj i hi j hj hp hq heq

/-! ## Isolation -/

/-- What a call of `elf_load` must do to the address spaces: no directory
there was translates any address differently, and a directory returned is a
new one, which translates as the active one did but for the file's pages. -/
structure Isolated (v : Vfs) (path : List UInt8) (s : Spaces) (r : ElfResult) (k' : Machine) :
    Prop where
  others : ∀ d ∈ s.dirs, ∀ a < 2 ^ 32, translate k'.mem d a = translate s.k.mem d a
  fresh : ∀ e pd, r = .ok (e, pd) → pd ∉ s.dirs
  pages : ∀ e pd, r = .ok (e, pd) → ∀ ref, findNodeByPath v path = some ref → ∀ a < 2 ^ 32,
    a / 4096 ∈ allPages s.k (v.node ref) →
    ∃ f, IsFree s.k.pmm f ∧ translate k'.mem pd a = some (f * 4096 + a % 4096)
  rest : ∀ e pd, r = .ok (e, pd) → ∀ ref, findNodeByPath v path = some ref → ∀ a < 2 ^ 32,
    a / 4096 ∉ allPages s.k (v.node ref) →
    translate k'.mem pd a = translate s.k.mem s.k.currentPageDirectory a

/-- **Isolation of the loader.** In every run from `vmm_init` in which each
load keeps its segments in slots without a page table, the next call of
`elf_load`, successful or not, isolates if it does so too. Conversely, if a
call goes through whose segments fit and are not mapped yet, and the active
directory translates as before, then its segments are in slots without a
table. -/
theorem elfLoad_isolated {v : Vfs} {k k₁ k' : Machine} {ops : List SpaceOp} {s : Spaces}
    {path : List UInt8} {r : ElfResult} (hzero : bitmapTest k.pmm 0 = true)
    (hinit : vmmInit k = .ok k₁) (hfiles : FilesKept v k₁)
    (hlegal : LegalSpaceRun v k₁.pmm.totalBlocks ⟨k₁, []⟩ ops)
    (hrun : spaceRun v ⟨k₁, []⟩ ops = .ok s) (hcall : elfLoad v path s.k = .ok (r, k')) :
    ((∀ ref, findNodeByPath v path = some ref → Separate s.k (v.node ref)) →
      Isolated v path s r k') ∧
    (∀ ref, findNodeByPath v path = some ref →
      (∀ p ∈ segments s.k (v.node ref), Fits (v.node ref) p ∧
        ∀ pg ∈ pagesOf p, Safe s.k (v.node ref) pg) →
      ∀ e pd, r = .ok (e, pd) →
      (∀ a < 2 ^ 32, translate k'.mem s.k.currentPageDirectory a
        = translate s.k.mem s.k.currentPageDirectory a) →
      Separate s.k (v.node ref)) := by
  have hinv := (spacesInv_init hzero hinit).run hfiles ops hlegal hrun
  constructor
  · intro hsep
    have heff := hinv.elfLoad_effect hfiles hsep hcall
    have hany : LoadEffect s.k (((findNodeByPath v path).map v.node).getD (v.node .root)) r k' :=
      heff _ fun ref href => by rw [href, Option.map_some, Option.getD_some]
    have hfound : ∀ ref, findNodeByPath v path = some ref → LoadEffect s.k (v.node ref) r k' :=
      fun ref href => heff _ fun ref' href' => by
        rw [href] at href'
        cases href'
        rfl
    refine ⟨fun d hd a ha => translate_congr (hany.lookup_eq hinv hd ha), fun e pd hr hmem => ?_,
      fun e pd hr ref href a ha hpg => ?_, fun e pd hr ref href a ha hpg => ?_⟩
    · exact (hany.fresh e pd hr).2.not_inUse (hinv.backed pd hmem).dir_used
    · rcases (hfound ref href).look e pd hr a ha with ⟨-, f, hfree, hlook⟩ | ⟨hno, -⟩
      · exact ⟨f, hfree, translate_of_lookup hlook⟩
      · exact absurd hpg hno
    · rcases (hfound ref href).look e pd hr a ha with ⟨hin, -⟩ | ⟨-, hlook⟩
      · exact absurd hin hpg
      · exact translate_congr hlook
  · intro ref href hsegs e pd hr hsame hacc p hp
    refine ⟨(hsegs p hp).1, fun pg hpg htab => ?_⟩
    have hall : pg ∈ allPages s.k (v.node ref) := List.mem_flatMap.mpr ⟨p, hp, hpg⟩
    unfold elfLoad at hcall
    rw [href, Option.elim_some, hr] at hcall
    have hread : (v.node ref).read = true := by
      by_contra hno
      rw [elfLoadNode_unreadable_node (Bool.eq_false_of_not_eq_true hno)] at hcall
      exact absurd hcall (by simp)
    have hlt : pg * 4096 < 2 ^ 32 := by
      have hstart := pageAlignedStart_eq p
      have hend := page_end_le p
      have hrange := List.mem_range'_1.mp hpg
      omega
    exact elfLoadNode_shares hinv.entry (hinv.readable hfiles ref hread) hacc hsegs hcall hall htab
      (hsame _ hlt)

/-! ## A machine of 32 blocks

The file lies in block 16; the blocks after it are free. `vmm_init` maps the
32 blocks, so slot 0 has a table and slot 32 has none. -/

def bootPmm : Pmm := ⟨fun i => if i = 0 then 0x1FFFF#32 else 0, 32, 17, by decide⟩

/-- The machine before `vmm_init`, with a file of one segment at `vaddr`. -/
def bootMachine (vaddr : Nat) : Machine where
  mem := wordMem ((smallElf vaddr 1).drop 2)
  pmm := bootPmm
  currentPageDirectory := 0
  cr3 := 0
  esp0 := 0
  intFlag := false

def bootedMachine (vaddr : Nat) : Machine :=
  (vmmInit (bootMachine vaddr)).toOption.getD (bootMachine vaddr)

theorem bootMachine_init (vaddr : Nat) (h : (vmmInit (bootMachine vaddr)).toBool = true) :
    vmmInit (bootMachine vaddr) = .ok (bootedMachine vaddr) := by
  unfold bootedMachine
  cases hinit : vmmInit (bootMachine vaddr) with
  | ok k => rfl
  | error e =>
    rw [hinit] at h
    exact absurd h Bool.false_ne_true

theorem bootMachine_files {vaddr : Nat} (hinit : vmmInit (bootMachine vaddr) = .ok (bootedMachine vaddr)) :
    FilesKept smallVfs (bootedMachine vaddr) := by
  obtain ⟨-, -, -, hfresh⟩ := vmmInit_spec hinit
  obtain ⟨l, hl⟩ := hfresh.taken
  have htotal : (bootedMachine vaddr).pmm.totalBlocks = 32 := hl.total
  have hboot : InUse bootPmm 16 := by decide
  have h16 : InUse (bootedMachine vaddr).pmm 16 := hl.inUse_iff.mpr (Or.inl hboot)
  intro ref hread
  have hnode : smallVfs.node ref = smallFile := by
    match ref with
    | .root => exact absurd hread (by decide)
    | .tar 0 => rfl
    | .tar (i + 1) => exact absurd hread (by simp [Vfs.node, smallVfs])
  rw [hnode, htotal]
  refine ⟨by decide, by decide, fun i hi => ?_⟩
  have hlen : i < 88 := hi
  have hblock : (smallFile.impl + i) / 4096 = 16 := by
    show (0x10000 + i) / 4096 = 16
    omega
  rw [hblock]
  exact h16

/-- With enough memory the small file is loaded there. -/
theorem bootedMachine_loads {vaddr pg : Nat} (hinv : SpacesInv (bootedMachine vaddr) ⟨bootedMachine vaddr, []⟩)
    (hread : Readable (bootedMachine vaddr) smallFile)
    (hacc : Accepted (bootedMachine vaddr) smallFile)
    (hnum : ePhnum (ehdrOf (bootedMachine vaddr) smallFile) = 1)
    (hheader : HeaderRead (bootedMachine vaddr) smallFile 0)
    (hsegs : ∀ p ∈ segments (bootedMachine vaddr) smallFile, Fits smallFile p ∧
      ∀ pg ∈ pagesOf p, Safe (bootedMachine vaddr) smallFile pg)
    (hall : allPages (bootedMachine vaddr) smallFile = [pg])
    (hroom : need (bootedMachine vaddr) [pg] ≤ freeCount (bootedMachine vaddr).pmm) :
    ∃ e pd k', elfLoadNode smallFile (bootedMachine vaddr) = .ok (.ok (e, pd), k') := by
  have hheaders : HeadersRead (bootedMachine vaddr) smallFile := by
    intro j _ hj
    rw [hnum] at hj
    have hj0 : j = 0 := by omega
    rw [hj0]
    exact hheader
  rcases elfLoadNode_accepted hinv.entry hread hacc (spared_of_safe hread hsegs) with ⟨hcount, -⟩ | ⟨P, x, hx, -, hdone⟩
  · have hzero : freeCount (bootedMachine vaddr).pmm = 0 := hcount
    unfold need at hroom
    omega
  obtain ⟨l, -, -, rfl, -⟩ := hdone.of_room (by rw [hall]; exact hroom) (not_not_intro hheaders)
  exact ⟨_, _, _, by rw [hx, finish]⟩

/-- The small file at `0x8048000`, in slot 32, is loaded in isolation. -/
theorem elfLoad_isolated_small : ∃ k₁ r k', vmmInit (bootMachine 0x8048000) = .ok k₁ ∧
    elfLoad smallVfs [slash, 97] k₁ = .ok (r, k') ∧
    Isolated smallVfs [slash, 97] ⟨k₁, []⟩ r k' := by
  have hinit := bootMachine_init 0x8048000 (by decide +kernel)
  have hzero : bitmapTest (bootMachine 0x8048000).pmm 0 = true := by decide
  have hfiles := bootMachine_files hinit
  have hinv := spacesInv_init hzero hinit
  have hread : Readable (bootedMachine 0x8048000) smallFile :=
    hinv.readable hfiles (.tar 0) rfl
  obtain ⟨hall, hfits⟩ := smallFile_segment (k := bootedMachine 0x8048000) 0x8048000 0x8048
    (by decide +kernel)
  have hno : ¬HasTable (bootedMachine 0x8048000) (0x8048 / 1024) := by decide +kernel
  have hacc : Accepted (bootedMachine 0x8048000) smallFile := ⟨by decide, by decide +kernel⟩
  obtain ⟨e, pd, k', hrun⟩ := bootedMachine_loads hinv hread hacc (by decide +kernel)
    (by decide +kernel) (smallFile_safe hfits (safe_of_no_table hno)) hall (by decide +kernel)
  have hload : elfLoad smallVfs [slash, 97] (bootedMachine 0x8048000) = .ok (.ok (e, pd), k') := by
    unfold elfLoad
    rw [smallVfs_find, Option.elim_some]
    exact hrun
  have hlegal : LegalSpaceRun smallVfs (bootedMachine 0x8048000).pmm.totalBlocks
      ⟨bootedMachine 0x8048000, []⟩ [] := trivial
  refine ⟨_, _, k', hinit, hload, (elfLoad_isolated hzero hinit hfiles hlegal rfl
    hload).1 fun ref href _ p hp => ?_⟩
  rw [smallVfs_find] at href
  cases href
  obtain ⟨hfit, hpg⟩ := hfits p hp
  refine ⟨hfit, fun pg hmem => ?_⟩
  rw [hpg, List.mem_singleton] at hmem
  rw [hmem]
  exact hno

/-- At `0x40000` the segment lies just above the 32 blocks, in slot 0. The
file is accepted and loaded, and the kernel directory maps the page
afterwards. -/
theorem elfLoad_remaps_kernel : ∃ k₁ e pd k', vmmInit (bootMachine 0x40000) = .ok k₁ ∧
    Accepted k₁ smallFile ∧ elfLoad smallVfs [slash, 97] k₁ = .ok (.ok (e, pd), k') ∧
    translate k'.mem k₁.currentPageDirectory 0x40000
      ≠ translate k₁.mem k₁.currentPageDirectory 0x40000 := by
  have hinit := bootMachine_init 0x40000 (by decide +kernel)
  have hfiles := bootMachine_files hinit
  have hinv := spacesInv_init (by decide : bitmapTest (bootMachine 0x40000).pmm 0 = true) hinit
  have hread : Readable (bootedMachine 0x40000) smallFile := hinv.readable hfiles (.tar 0) rfl
  obtain ⟨hall, hfits⟩ := smallFile_segment (k := bootedMachine 0x40000) 0x40000 64
    (by decide +kernel)
  have htab : HasTable (bootedMachine 0x40000) (64 / 1024) := by decide +kernel
  have htable : tableAt (bootedMachine 0x40000) (64 / 1024) = 18 := by decide +kernel
  have hunmapped : ¬Present (lookup (bootedMachine 0x40000).mem
      (bootedMachine 0x40000).currentPageDirectory (64 * 4096)) := by decide +kernel
  have hphys : ∀ i < smallFile.length, filePhys (bootedMachine 0x40000) smallFile i / 4096 = 16 := by
    intro i hi
    have hlen : i < 88 := hi
    have htr : translate (bootedMachine 0x40000).mem (bootedMachine 0x40000).currentPageDirectory
        (0x10000 + i) = some (0x10000 + i) := hinv.ident _ (by omega) (by
      have htotal : (bootedMachine 0x40000).pmm.totalBlocks = 32 := by decide +kernel
      rw [htotal]
      omega)
    have hval : filePhys (bootedMachine 0x40000) smallFile i = 0x10000 + i := by
      show (Paging.translate (bootedMachine 0x40000).mem _ (0x10000 + i)).getD 0 = _
      rw [htr, Option.getD_some]
    rw [hval]
    omega
  have hsafe : Safe (bootedMachine 0x40000) smallFile 64 := by
    refine ⟨hunmapped, fun _ i hi => ?_⟩
    rw [hphys i hi, htable]
    omega
  have hacc : Accepted (bootedMachine 0x40000) smallFile := ⟨by decide, by decide +kernel⟩
  have hsegs := smallFile_safe hfits hsafe
  obtain ⟨e, pd, k', hrun⟩ := bootedMachine_loads hinv hread hacc (by decide +kernel)
    (by decide +kernel) hsegs hall (by decide +kernel)
  refine ⟨_, e, pd, k', hinit, hacc, ?_, ?_⟩
  · unfold elfLoad
    rw [smallVfs_find, Option.elim_some]
    exact hrun
  · have hentry : Entry (bootedMachine 0x40000) := hinv.entry
    have hmem : 64 ∈ allPages (bootedMachine 0x40000) smallFile := by
      rw [hall]
      exact List.mem_cons_self
    have hshare := elfLoadNode_shares hentry hread hacc hsegs hrun hmem htab
    have haddr : 64 * 4096 = 0x40000 := by omega
    rw [haddr] at hshare
    exact hshare

end MyOS
