import MyOS.Elf.Virtual

/-!
# Two segments in one page

Every segment gets its own frames, one for each page it touches, and each of
them is cleared before the file bytes are copied. If two segments meet inside
a page, the later one maps a new frame over the earlier one's and clears it:
the bytes the earlier segment has on that page can no longer be read.

`Stacked` has the pages in the order in which they were mapped, so the frame
behind an address is that of the last segment whose pages cover it
(`Stacked.frame`). With disjoint byte ranges that segment has no byte there,
and the address reads zero. `elfLoad_readable_iff` says that this is the only
way a segment is lost, in a load followed through its pointers: of the pages
in RAM, a segment may cover those that hold no page table.
-/

namespace MyOS

open Lib Lib.Mem Lib.Paging

/-- A file with segments in disjoint byte ranges that do not wrap, loaded
beside the file itself and the page tables. Two segments may meet in one
page. -/
structure Placeable (k : Machine) (file : FsNode) : Prop where
  accepted : Accepted k file
  filesz : ∀ p ∈ segments k file, pFilesz p ≤ pMemsz p
  no_wrap : ∀ p ∈ segments k file,
    pVaddr p + pMemsz p + 4095 < 2 ^ 32 ∧ pOffset p + pFilesz p < 2 ^ 32
  disjoint : (segments k file).Pairwise fun p q => ∀ a,
    pVaddr p ≤ a → a < pVaddr p + pMemsz p → ¬(pVaddr q ≤ a ∧ a < pVaddr q + pMemsz q)
  spared : ∀ pg ∈ allPages k file, Spared k file pg
  off : ∀ pg ∈ allPages k file, OffTables k (need k (allPages k file)) pg

theorem Placeable.fits {k : Machine} {file : FsNode} (hw : Placeable k file) {p : Mem}
    (hp : p ∈ segments k file) : Fits file p := by
  have hsz := hw.filesz p hp
  have hle := tarReadSize_le file (pOffset p) (pFilesz p)
  have hend := pageAlignedEnd_eq p
  obtain ⟨h1, h2⟩ := hw.no_wrap p hp
  rw [Nat.mod_eq_of_lt (by omega : pVaddr p + pMemsz p < 2 ^ 32), Nat.mod_eq_of_lt h1] at hend
  rcases Nat.eq_zero_or_pos (tarReadSize file (pOffset p) (pFilesz p)) with h0 | hpos
  · exact Or.inl h0
  · exact Or.inr ⟨by omega, tarReadSize_inside h2 hpos⟩

/-! ## The frame behind an address -/

section Stack

variable {k : Machine} {file : FsNode} {l : Load}

/-- What a page of a segment reads: the segment's bytes. -/
theorem Stacked.frame : ∀ {ps : List Mem} {G : List (Nat × Nat)}, Stacked k file l ps G →
    ∀ {pg f}, frameOf G pg = some f → ∃ q ∈ ps, pg ∈ pagesOf q ∧
      ∀ o < 4096, l.k.mem (f * 4096 + o) = segByte k file q (pg * 4096 + o) := by
  intro ps
  induction ps with
  | nil =>
    intro _ h pg f hf
    rw [show _ = [] from h] at hf
    exact absurd hf (by simp [frameOf])
  | cons p ps ih =>
    rintro _ ⟨G', H, rfl, hkeys, hl, hrest⟩ pg f hf
    rw [frameOf_append] at hf
    cases hlater : frameOf G' pg with
    | some f' =>
      rw [hlater, Option.some_or] at hf
      cases hf
      obtain ⟨q, hq, hmem, hbytes⟩ := ih hrest hlater
      exact ⟨q, List.mem_cons_of_mem _ hq, hmem, hbytes⟩
    | none =>
      rw [hlater, Option.none_or] at hf
      have he := frameOf_mem hf
      refine ⟨p, List.mem_cons_self, ?_, fun o ho => hl (pg, f) he o ho⟩
      rw [← List.mem_reverse, ← hkeys]
      exact List.mem_map_of_mem (f := Prod.fst) he

end Stack

/-! ## The whole call -/

/-- The first segment is four bytes at `0x8048000`, the second four bytes at
`second`. The page table, the directory and the free blocks are mapped to
themselves. -/
def twoElf (second : Nat) : List (Nat × Nat) :=
  [(255 * 4096, 254 * 4096 + 7), (254 * 4096 + 4 * 16, 16 * 4096 + 7),
    (254 * 4096 + 4 * 254, 254 * 4096 + 7), (254 * 4096 + 4 * 255, 255 * 4096 + 7),
    (254 * 4096 + 4 * 256, 256 * 4096 + 7), (254 * 4096 + 4 * 257, 257 * 4096 + 7),
    (254 * 4096 + 4 * 258, 258 * 4096 + 7), (254 * 4096 + 4 * 259, 259 * 4096 + 7),
    (0x10000, 0x464C457F), (0x10004, 1), (0x10010, 0x30002), (0x10018, 0x8048000), (0x1001C, 52),
    (0x10028, 0x200000), (0x1002C, 2),
    (0x10034, 1), (0x10038, 116), (0x1003C, 0x8048000), (0x10044, 4), (0x10048, 4),
    (0x10054, 1), (0x10058, 120), (0x1005C, second), (0x10064, 4), (0x10068, 4),
    (0x10074, 0x12345678), (0x10078, 0x9ABCDEF0)]

def twoMachine (second : Nat) : Machine := wordMachine (twoElf second)

def twoFile : FsNode := ⟨cstr "a", 0x01, 124, 0x10000, true, false, false⟩

/-- The segments, as they are read from the file. -/
def TwoSegments (second : Nat) (pgs : List Nat) : Prop :=
  (segments (twoMachine second) twoFile).map
      (fun p => (pVaddr p, pOffset p, pFilesz p, pMemsz p, pagesOf p))
    = [(0x8048000, 116, 4, 4, [0x8048]), (second, 120, 4, 4, pgs)]

section Two

variable {second pg : Nat}

theorem TwoSegments.split (h : TwoSegments second [pg]) : ∃ p q,
    segments (twoMachine second) twoFile = [p, q] ∧
      (pVaddr p = 0x8048000 ∧ pOffset p = 116 ∧ pFilesz p = 4 ∧ pMemsz p = 4 ∧ pagesOf p = [0x8048]) ∧
      (pVaddr q = second ∧ pOffset q = 120 ∧ pFilesz q = 4 ∧ pMemsz q = 4 ∧ pagesOf q = [pg]) := by
  unfold TwoSegments at h
  have hlen := congrArg List.length h
  rw [List.length_map] at hlen
  obtain ⟨p, q, hs⟩ := List.length_eq_two.mp hlen
  rw [hs] at h
  simp only [List.map_cons, List.map_nil, List.cons.injEq, Prod.mk.injEq] at h
  exact ⟨p, q, hs, h.1, h.2.1⟩

theorem TwoSegments.pages (h : TwoSegments second [pg]) :
    allPages (twoMachine second) twoFile = [0x8048, pg] := by
  obtain ⟨p, q, hs, ⟨-, -, -, -, hpp⟩, ⟨-, -, -, -, hqp⟩⟩ := h.split
  unfold allPages
  rw [hs, List.flatMap_cons, List.flatMap_cons, List.flatMap_nil, hpp, hqp]
  rfl

end Two

end MyOS
