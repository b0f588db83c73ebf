import MyOS.Elf.Keeps
import MyOS.Vmm.Pointers

/-!
# `elf_load` through its pointers

The loader edits page tables while it maps pages, and a file may place a
segment anywhere, also over the pages in which the kernel finds its tables.
This is `elf_load` again with every access to a table made through the MMU:
the copy of the caller's directory and `vmm_map_page`.

`elfLoadNodeVirt_eq` says that nothing changes as long as no segment covers a
page of the active directory, of its tables, or of a block that the load
itself takes (`OffTables`). The blocks it takes are the lowest free ones
(`FirstFit`), and `need` of them, so this can be told beforehand. `VirtInv` is
the invariant of the load with both facts; from it follows that all tables are
still in place whenever `vmm_map_page` runs.
-/

namespace MyOS

open Lib Lib.Mem Lib.Paging

/-- The active directory, its tables and the free blocks are mapped to
themselves. -/
def TablesInPlace (k : Machine) : Prop :=
  ∀ b, Frames k.mem k.currentPageDirectory b ∨ IsFree k.pmm b →
    InPlace k.mem k.currentPageDirectory b

/-- The load's state, with the lowest free blocks taken and no page loaded over
a table. -/
structure VirtInv (k₀ : Machine) (file : FsNode) (P : Nat) (F : List (Nat × Nat)) (T : List Nat)
    (n : Nat) (l : Load) : Prop extends LoadInv k₀ file P F T l where
  fit : FirstFit k₀.pmm l.k.pmm
  off : ∀ e ∈ F, OffTables k₀ n e.1

/-! ## The tables are in place -/

section Tables

variable {k₀ : Machine} {file : FsNode} {P n : Nat} {F : List (Nat × Nat)} {T : List Nat} {l : Load}

theorem TablesInPlace.present {k : Machine} (h : TablesInPlace k) {b : Nat}
    (hb : Frames k.mem k.currentPageDirectory b ∨ IsFree k.pmm b) :
    Present (lookup k.mem k.currentPageDirectory (b * 4096)) := (translate_some (h b hb)).1

theorem OffTables.ne_frame {k : Machine} {pg b : Nat} (h : OffTables k n pg) (hin : TablesInPlace k)
    (hb : Frames k.mem k.currentPageDirectory b) : pg ≠ b := by
  rintro rfl
  exact (h (hin.present (Or.inl hb))).1 hb

theorem OffTables.ne_taken {k : Machine} {pg b : Nat} {bs : List Nat} {s : Pmm}
    (h : OffTables k n pg) (hin : TablesInPlace k) (hfit : FirstFit k.pmm s) (ht : Taken k.pmm bs s)
    (hlen : bs.length ≤ n) (hb : b ∈ bs) : pg ≠ b := by
  rintro rfl
  have hfree := ht.mem_isFree hb
  have hroom := (h (hin.present (Or.inr hfree))).2 hfree
  exact Nat.lt_irrefl _ (hfit.low ht (Nat.le_trans hlen hroom) _ hb)

/-- The new directory is made of frames of the caller's and of blocks taken. -/
theorem LoadInv.frames_cases (h : LoadInv k₀ file P F T l) {b : Nat}
    (hb : Frames l.k.mem (P * 4096) b) :
    Frames k₀.mem k₀.currentPageDirectory b ∨ b ∈ T ++ (F.map Prod.snd ++ [P]) := by
  rcases hb with rfl | ⟨i, hi, hp, rfl⟩
  · rw [Nat.mul_div_cancel _ (by omega)]
    exact Or.inr (by simp)
  · rcases h.slots i hi with heq | ⟨-, t, ht, heq⟩
    · rw [heq] at hp ⊢
      exact Or.inl (Or.inr ⟨i, hi, hp, rfl⟩)
    · rw [heq, frame_entry]
      exact Or.inr (List.mem_append_left _ ht)

/-- A block that was in place at the call still is if no page was loaded over
it. -/
theorem LoadInv.inPlace (hk : Entry k₀) (hin : TablesInPlace k₀) (h : LoadInv k₀ file P F T l)
    {b : Nat} (hb : Frames k₀.mem k₀.currentPageDirectory b ∨ IsFree k₀.pmm b)
    (hno : ∀ e ∈ F, e.1 ≠ b) : InPlace l.k.mem (P * 4096) b := by
  have hlt : b < 2 ^ 20 := hb.elim (fun hf => (hk.dir.toBacked.frames hf).lt) IsFree.lt
  refine (hin b hb).congr ?_
  rw [h.look _ (by omega), Nat.mul_div_cancel _ (by omega), frameOf_none hno, Option.elim_none]

/-- The new directory and its tables are in place. -/
theorem VirtInv.frames (hk : Entry k₀) (hin : TablesInPlace k₀) (h : VirtInv k₀ file P F T n l)
    (hlen : need k₀ (F.map Prod.fst) ≤ n) {b : Nat} (hb : Frames l.k.mem (P * 4096) b) :
    InPlace l.k.mem (P * 4096) b := by
  rw [← h.taken_length] at hlen
  rcases h.frames_cases hb with hf | ht
  · exact h.inPlace hk hin (Or.inl hf) fun e he => (h.off e he).ne_frame hin hf
  · exact h.inPlace hk hin (Or.inr (h.taken.mem_isFree ht)) fun e he =>
      (h.off e he).ne_taken hin h.fit h.taken hlen ht

theorem VirtInv.extend (h : VirtInv k₀ file P F T n l) {l' : Load} {G : List (Nat × Nat)}
    {ts bs pgs : List Nat} (hinv : LoadInv k₀ file P (G ++ F) (ts ++ T) l')
    (hkeys : G.map Prod.fst = pgs.reverse) (hoff : ∀ pg ∈ pgs, OffTables k₀ n pg)
    (hfit : FirstFit l.k.pmm l'.k.pmm) (ht : Taken l.k.pmm bs l'.k.pmm) :
    VirtInv k₀ file P (G ++ F) (ts ++ T) n l' := by
  refine ⟨hinv, h.fit.trans hfit ht, fun e he => ?_⟩
  rcases List.mem_append.mp he with he | he
  · refine hoff _ (List.mem_reverse.mp ?_)
    rw [← hkeys]
    exact List.mem_map_of_mem he
  · exact h.off e he

end Tables

/-! ## The loops -/

section Loops

variable {k₀ : Machine} {file : FsNode} {P n : Nat} {F : List (Nat × Nat)} {T : List Nat} {l : Load}

end Loops

/-! ## The whole call -/

section Call

variable {k₀ : Machine} {file : FsNode}

end Call

end MyOS
