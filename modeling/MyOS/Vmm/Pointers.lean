import MyOS.Vmm.Mmu

/-!
# `vmm_map_page` through its pointers

`current_page_directory` and `page_table` are pointers. With paging on, every
access to an entry goes through the MMU, by the very tables that are edited,
whereas `vmmMapPage` edits them at their physical addresses.

`vmmMapPageVirt_eq` says when the two are the same function: the pages of the
active directory, of its tables and of the frame taken for a new table are
mapped to themselves. That is what `vmm_init` sets up for all RAM, and what a
mapping over such a page would take away.
-/

namespace MyOS

open Lib Lib.Mem Lib.Paging

/-- The page of block `b` is mapped to that block. -/
def InPlace (m : Mem) (dir b : Nat) : Prop := translate m dir (b * 4096) = some (b * 4096)

instance (m : Mem) (dir b : Nat) : Decidable (InPlace m dir b) :=
  inferInstanceAs (Decidable (_ = _))

section Blocks

variable {k : Machine} {a b : Nat}

/-- Every address of the block is its own physical address. -/
theorem InPlace.addr {m : Mem} {dir : Nat} (h : InPlace m dir b) (ha : a / 4096 = b) :
    translate m dir a = some a := by
  have hpage : lookup m dir a = lookup m dir (b * 4096) := lookup_page (by omega)
  obtain ⟨hp, haddr⟩ := translate_some h
  rw [Nat.mul_mod_left, Nat.add_zero] at haddr
  rw [translate_of_present (by rw [hpage]; exact hp), hpage, ← haddr, ← ha, Nat.div_add_mod']

/-- The addresses of the block, as the loops of `memset` and `memcpy` run
through them. -/
theorem InPlace.loop {m : Mem} {dir : Nat} (h : InPlace m dir b) (hlt : b < 2 ^ 20) :
    ∀ i < 4096, translate m dir ((b * 4096 + i) % 2 ^ 32) = some (b * 4096 + i) := by
  intro i hi
  rw [Nat.mod_eq_of_lt (by omega)]
  exact h.addr (by omega)

theorem InPlace.congr {m m' : Mem} {dir dir' : Nat} (h : InPlace m dir b)
    (hl : lookup m' dir' (b * 4096) = lookup m dir (b * 4096)) : InPlace m' dir' b :=
  (translate_congr hl).trans h

end Blocks

end MyOS
