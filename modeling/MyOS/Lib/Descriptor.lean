import MyOS.Lib.Paging

/-!
# Descriptors of a 32-bit x86

Segment descriptors and interrupt gates are eight bytes each, with the fields
of one value scattered over them. `segmentAt` and `gateAt` put the fields
together the way the CPU does; `segmentBytes` and `gateBytes` are the bytes a
value is stored as, and reading undoes storing for every value
(`segmentAt_of_bytes`, `gateAt_of_bytes`).

GDTR and IDTR hold the limit and the base of a table. An entry that is not
within the limit is not there (`Dtr.segment`, `Dtr.gate`).
-/

namespace MyOS.Lib

open Mem

/-! ## Sixteen bits in memory -/

def Mem.wr16 (m : Mem) (a v : Nat) : Mem := (m.write a (byteOf v 0)).write (a + 1) (byteOf v 1)

theorem Mem.rd16_of_bytes {m : Mem} {a v : Nat} (hv : v < 2 ^ 16) (h0 : m a = byteOf v 0)
    (h1 : m (a + 1) = byteOf v 1) : rd16 m a = v := by
  unfold rd16
  rw [h0, h1, toNat_byteOf, toNat_byteOf]
  omega

theorem Mem.rd16_congr {m m' : Mem} {a : Nat} (h0 : m' a = m a) (h1 : m' (a + 1) = m (a + 1)) :
    rd16 m' a = rd16 m a := by
  unfold rd16
  rw [h0, h1]

/-! ## Segment descriptors -/

structure SegmentDescriptor where
  base : Nat
  limit : Nat
  access : Nat
  flags : Nat
  deriving DecidableEq, Repr

def segmentAt (m : Mem) (a : Nat) : SegmentDescriptor where
  base := rd16 m (a + 2) + (m (a + 4)).toNat * 2 ^ 16 + (m (a + 7)).toNat * 2 ^ 24
  limit := rd16 m a + (m (a + 6)).toNat % 16 * 2 ^ 16
  access := (m (a + 5)).toNat
  flags := (m (a + 6)).toNat / 16

namespace SegmentDescriptor

def Present (d : SegmentDescriptor) : Prop := d.access / 128 % 2 = 1

def dpl (d : SegmentDescriptor) : Nat := d.access / 32 % 4

/-- All of the 4 GiB: base 0, and the limit, in units of 4 KiB if bit 3 of the
flags is set, reaches to the end. -/
def Flat (d : SegmentDescriptor) : Prop :=
  d.base = 0 ∧ d.flags / 8 = 1 ∧ (d.limit + 1) * 4096 = 2 ^ 32

end SegmentDescriptor

/-- The bytes of a descriptor, by their offset. -/
def segmentBytes (d : SegmentDescriptor) : Nat → UInt8
  | 0 => byteOf d.limit 0
  | 1 => byteOf d.limit 1
  | 2 => byteOf d.base 0
  | 3 => byteOf d.base 1
  | 4 => byteOf d.base 2
  | 5 => byteOf d.access 0
  | 6 => UInt8.ofNat (d.limit / 2 ^ 16 + d.flags * 16)
  | 7 => byteOf d.base 3
  | _ => 0

/-- The fields fit their bits. -/
structure SegmentDescriptor.Fits (d : SegmentDescriptor) : Prop where
  base : d.base < 2 ^ 32
  limit : d.limit < 2 ^ 20
  access : d.access < 2 ^ 8
  flags : d.flags < 2 ^ 4

theorem segmentAt_of_bytes {m : Mem} {a : Nat} {d : SegmentDescriptor} (hd : d.Fits)
    (h : ∀ j < 8, m (a + j) = segmentBytes d j) : segmentAt m a = d := by
  obtain ⟨hbase, hlimit, haccess, hflags⟩ := hd
  have h0 : m a = byteOf d.limit 0 := h 0 (by omega)
  have h1 : m (a + 1) = byteOf d.limit 1 := h 1 (by omega)
  have h2 : m (a + 2) = byteOf d.base 0 := h 2 (by omega)
  have h3 : m (a + 2 + 1) = byteOf d.base 1 := h 3 (by omega)
  have h4 : m (a + 4) = byteOf d.base 2 := h 4 (by omega)
  have h5 : m (a + 5) = byteOf d.access 0 := h 5 (by omega)
  have h6 : m (a + 6) = UInt8.ofNat (d.limit / 2 ^ 16 + d.flags * 16) := h 6 (by omega)
  have h7 : m (a + 7) = byteOf d.base 3 := h 7 (by omega)
  have hnibbles : (UInt8.ofNat (d.limit / 2 ^ 16 + d.flags * 16)).toNat
      = d.limit / 2 ^ 16 + d.flags * 16 := by
    rw [UInt8.toNat_ofNat']
    omega
  unfold segmentAt rd16
  rw [h0, h1, h2, h3, h4, h5, h6, h7, hnibbles]
  simp only [toNat_byteOf]
  cases d with
  | mk base limit access flags =>
    dsimp only at hbase hlimit haccess hflags ⊢
    congr 1 <;> omega

/-! ## Gates -/

structure GateDescriptor where
  offset : Nat
  selector : Nat
  flags : Nat
  deriving DecidableEq, Repr

def gateAt (m : Mem) (a : Nat) : GateDescriptor where
  offset := rd16 m a + rd16 m (a + 6) * 2 ^ 16
  selector := rd16 m (a + 2)
  flags := (m (a + 5)).toNat

namespace GateDescriptor

def Present (g : GateDescriptor) : Prop := g.flags / 128 % 2 = 1

instance (g : GateDescriptor) : Decidable g.Present := inferInstanceAs (Decidable (_ = _))

def dpl (g : GateDescriptor) : Nat := g.flags / 32 % 4

/-- A 32-bit interrupt gate. -/
def IsInterrupt (g : GateDescriptor) : Prop := g.flags % 32 = 0xE

instance (g : GateDescriptor) : Decidable g.IsInterrupt := inferInstanceAs (Decidable (_ = _))

end GateDescriptor

/-- The bytes of a gate, by their offset. -/
def gateBytes (g : GateDescriptor) : Nat → UInt8
  | 0 => byteOf g.offset 0
  | 1 => byteOf g.offset 1
  | 2 => byteOf g.selector 0
  | 3 => byteOf g.selector 1
  | 5 => byteOf g.flags 0
  | 6 => byteOf g.offset 2
  | 7 => byteOf g.offset 3
  | _ => 0

structure GateDescriptor.Fits (g : GateDescriptor) : Prop where
  offset : g.offset < 2 ^ 32
  selector : g.selector < 2 ^ 16
  flags : g.flags < 2 ^ 8

theorem gateAt_of_bytes {m : Mem} {a : Nat} {g : GateDescriptor} (hg : g.Fits)
    (h : ∀ j < 8, m (a + j) = gateBytes g j) : gateAt m a = g := by
  obtain ⟨hoffset, hselector, hflags⟩ := hg
  have h0 : m a = byteOf g.offset 0 := h 0 (by omega)
  have h1 : m (a + 1) = byteOf g.offset 1 := h 1 (by omega)
  have h2 : m (a + 2) = byteOf g.selector 0 := h 2 (by omega)
  have h3 : m (a + 2 + 1) = byteOf g.selector 1 := h 3 (by omega)
  have h5 : m (a + 5) = byteOf g.flags 0 := h 5 (by omega)
  have h6 : m (a + 6) = byteOf g.offset 2 := h 6 (by omega)
  have h7 : m (a + 6 + 1) = byteOf g.offset 3 := h 7 (by omega)
  unfold gateAt rd16
  rw [h0, h1, h2, h3, h5, h6, h7]
  simp only [toNat_byteOf]
  cases g with
  | mk offset selector flags =>
    dsimp only at hoffset hselector hflags ⊢
    congr 1 <;> omega

/-! ## Tables -/

/-- GDTR or IDTR. -/
structure Dtr where
  limit : Nat
  base : Nat

/-- `lgdt` and `lidt` read the register from memory. -/
def dtrAt (m : Mem) (a : Nat) : Dtr := ⟨rd16 m a, rd32 m (a + 2)⟩

namespace Dtr

/-- The descriptor a selector names. Bit 2 of the selector would name the LDT. -/
def segment (r : Dtr) (m : Mem) (sel : Nat) : Option SegmentDescriptor :=
  if sel / 4 % 2 = 0 ∧ sel / 8 * 8 + 7 ≤ r.limit then some (segmentAt m (r.base + sel / 8 * 8))
  else none

/-- The gate of a vector, if it is an interrupt gate that is present. -/
def gate (r : Dtr) (m : Mem) (v : Nat) : Option GateDescriptor :=
  if v * 8 + 7 ≤ r.limit ∧ (gateAt m (r.base + v * 8)).Present ∧
      (gateAt m (r.base + v * 8)).IsInterrupt then some (gateAt m (r.base + v * 8))
  else none

end Dtr

end MyOS.Lib
