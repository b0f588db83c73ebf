import MyOS.Vfs.Ustar
import Mathlib.Data.List.TakeWhile

/-!
# A header block as bytes

What `tar_init` makes of one header, as a function of the bytes it reads. The
fields are read one byte at a time through the page tables, and a string is
read until the next NUL, wherever that is. On mapped memory no read faults,
so `get_octal` is a fold over the bytes of the size field (`getOctal_mapped`),
the name is the bytes before the first NUL (`vstring_mapped`), and
registering a header depends on its bytes alone (`registerNode_mapped`).

Addresses wrap around at `2 ^ 32`: byte `i` of the header at `ptr` is the one
at `(ptr + i) % 2 ^ 32`.
-/

namespace MyOS

open Lib Lib.Mem Lib.Paging

/-- The kernel can read at the 32-bit address `a` without a fault. -/
def MappedAt (k : Machine) (a : Nat) : Prop := ∃ p, translate k.mem k.cr3 (a % 2 ^ 32) = some p

/-- The byte there. -/
def diskByte (k : Machine) (a : Nat) : UInt8 :=
  k.mem ((translate k.mem k.cr3 (a % 2 ^ 32)).getD 0)

/-- The `n` bytes from `a` on. -/
def bytesAt (k : Machine) : Nat → Nat → List UInt8
  | _, 0 => []
  | a, n + 1 => diskByte k a :: bytesAt k (a + 1) n

/-- The bytes before the first NUL. -/
def cString (bs : List UInt8) : List UInt8 := bs.takeWhile (· ≠ 0)

/-- `get_octal` on the bytes of the field. -/
def octalValue : List UInt8 → Nat → Nat
  | [], out => out
  | c :: cs, out =>
    if c = 0 then out
    else if 48 ≤ c.toNat ∧ c.toNat ≤ 55 then octalValue cs ((out * 8 + (c.toNat - 48)) % 2 ^ 32)
    else if c = 32 then out
    else octalValue cs out

/-- The size that the header at `ptr` gives. -/
def sizeField (k : Machine) (ptr : Nat) : Nat := octalValue (bytesAt k (ptr + 124) 11) 0

/-- The name as the code reads it: up to the first NUL, past the field if
there is none in it. -/
def rawName (k : Machine) (ptr : Nat) : List UInt8 := cString (bytesAt k ptr 130)

/-- The name in the 100 bytes of its field. -/
def fieldName (k : Machine) (ptr : Nat) : List UInt8 := cString (bytesAt k ptr 100)

/-- The name and its NUL fit the buffer of a node. -/
def NameFits (k : Machine) (ptr : Nat) : Prop :=
  0 ∈ bytesAt k ptr 130 ∧ (stripDot (rawName k ptr)).length < 128

instance (k : Machine) (ptr : Nat) : Decidable (NameFits k ptr) := inferInstanceAs (Decidable (_ ∧ _))

/-! ## Bytes and strings -/

theorem bytesAt_length (k : Machine) : ∀ (a n : Nat), (bytesAt k a n).length = n
  | _, 0 => rfl
  | a, n + 1 => by
    unfold bytesAt
    rw [List.length_cons, bytesAt_length k (a + 1) n]

theorem bytesAt_take (k : Machine) : ∀ (a n m : Nat), (bytesAt k a (n + m)).take n = bytesAt k a n
  | _, 0, _ => by rw [List.take_zero]; rfl
  | a, n + 1, m => by
    rw [Nat.succ_add]
    unfold bytesAt
    rw [List.take_succ_cons, bytesAt_take k (a + 1) n m]

theorem cString_length_lt : ∀ {bs : List UInt8}, 0 ∈ bs → (cString bs).length < bs.length := by
  intro bs
  induction bs with
  | nil =>
    intro h
    exact absurd h List.not_mem_nil
  | cons c cs ih =>
    intro h
    unfold cString
    rw [List.takeWhile_cons]
    by_cases hc : c = 0
    · rw [if_neg (by simp [hc])]
      exact Nat.zero_lt_succ _
    · rw [if_pos (by simp [hc]), List.length_cons, List.length_cons]
      have ih := ih ((List.mem_cons.mp h).resolve_left (Ne.symm hc))
      exact Nat.succ_lt_succ ih

theorem cString_eq_self {bs : List UInt8} (h : 0 ∉ bs) : cString bs = bs := by
  refine List.takeWhile_eq_self_iff.mpr fun c hc => ?_
  have hne : c ≠ 0 := fun h0 => h (h0 ▸ hc)
  simpa using hne

/-- A string cut off is the string of the bytes cut off. -/
theorem cString_take (bs : List UInt8) (n : Nat) : (cString bs).take n = cString (bs.take n) :=
  List.take_takeWhile

theorem rawName_take (k : Machine) (ptr n m : Nat) (h : n + m = 130) :
    (rawName k ptr).take n = cString (bytesAt k ptr n) := by
  unfold rawName
  rw [cString_take, ← h, bytesAt_take]

theorem rawName_take_field (k : Machine) (ptr : Nat) : (rawName k ptr).take 100 = fieldName k ptr :=
  rawName_take k ptr 100 30 rfl

/-- The name ends with its field, or one byte behind it, exactly if there is a
NUL that far. -/
theorem rawName_length_le_iff (k : Machine) (ptr : Nat) :
    (rawName k ptr).length ≤ 100 ↔ 0 ∈ bytesAt k ptr 101 := by
  have htake := congrArg List.length (rawName_take k ptr 101 29 rfl)
  rw [List.length_take] at htake
  by_cases h : 0 ∈ bytesAt k ptr 101
  · have hlt := cString_length_lt h
    rw [bytesAt_length] at hlt
    exact ⟨fun _ => h, fun _ => by omega⟩
  · rw [cString_eq_self h, bytesAt_length] at htake
    exact ⟨fun hle => by omega, fun h' => absurd h' h⟩

/-! ## Reads of mapped bytes -/

theorem vread_disk {k : Machine} {a : Nat} (h : MappedAt k a) :
    vread (a % 2 ^ 32) k = .ok (diskByte k a, k) := by
  obtain ⟨p, hp⟩ := h
  have hbyte : diskByte k a = k.mem p := by
    unfold diskByte
    rw [hp, Option.getD_some]
  rw [vread_mapped hp, hbyte]

theorem next_address (a : Nat) : (a % 2 ^ 32 + 1) % 2 ^ 32 = (a + 1) % 2 ^ 32 := Nat.mod_add_mod _ _ _

/-- The first byte and the rest. -/
theorem mappedAt_succ {k : Machine} {a n : Nat} (h : ∀ i < n + 1, MappedAt k (a + i)) :
    MappedAt k a ∧ ∀ i < n, MappedAt k (a + 1 + i) := by
  refine ⟨h 0 (Nat.zero_lt_succ n), fun i hi => ?_⟩
  rw [Nat.add_assoc, Nat.add_comm 1 i]
  exact h (i + 1) (Nat.succ_lt_succ hi)

theorem getOctal_mapped {k : Machine} : ∀ {len a out : Nat}, (∀ i < len, MappedAt k (a + i)) →
    getOctal (a % 2 ^ 32) len out k = .ok (octalValue (bytesAt k a len) out, k) := by
  intro len
  induction len with
  | zero =>
    intro _ _ _
    rfl
  | succ len ih =>
    intro a out h
    obtain ⟨hfirst, hrest⟩ := mappedAt_succ h
    unfold getOctal bytesAt octalValue
    rw [vread_disk hfirst, ok_bind, next_address]
    dsimp only
    split
    · rfl
    split
    · exact ih hrest
    split
    · rfl
    · exact ih hrest

theorem vstring_mapped {k : Machine} : ∀ {n a : Nat}, (∀ i < n, MappedAt k (a + i)) →
    vstring (a % 2 ^ 32) n k =
      if 0 ∈ bytesAt k a n then .ok (cString (bytesAt k a n), k) else .error .nameOverflow := by
  intro n
  induction n with
  | zero =>
    intro a _
    rw [if_neg (show 0 ∉ bytesAt k a 0 from List.not_mem_nil)]
    rfl
  | succ n ih =>
    intro a h
    obtain ⟨hfirst, hrest⟩ := mappedAt_succ h
    unfold vstring bytesAt
    rw [vread_disk hfirst, ok_mapError, ok_bind, next_address]
    dsimp only
    by_cases hc : diskByte k a = 0
    · rw [if_pos hc, if_pos (by rw [hc]; exact List.mem_cons_self)]
      unfold cString
      rw [List.takeWhile_cons, if_neg (by simp [hc])]
    · have hstr : cString (diskByte k a :: bytesAt k (a + 1) n)
          = diskByte k a :: cString (bytesAt k (a + 1) n) := by
        unfold cString
        rw [List.takeWhile_cons, if_pos (by simpa using hc)]
      rw [if_neg hc, ih hrest, hstr]
      by_cases h0 : 0 ∈ bytesAt k (a + 1) n
      · rw [if_pos h0, if_pos (List.mem_cons_of_mem _ h0), ok_map]
      · rw [if_neg h0, if_neg fun hmem => (List.mem_cons.mp hmem).elim (fun he => hc he.symm) h0]
        rfl

/-- Registering a header: the node of its bytes, or the name overruns the
node's buffer. -/
theorem registerNode_mapped {k : Machine} {ptr n : Nat} (hlt : ptr < 2 ^ 32)
    (h : ∀ i < 512, MappedAt k (ptr + i)) :
    registerNode ptr n k =
      if NameFits k ptr then .ok (tarNode (rawName k ptr) (diskByte k (ptr + 156)) n ptr, k)
      else .error .nameOverflow := by
  have hstr := vstring_mapped (k := k) (n := 130) (a := ptr) fun i hi => h i (by omega)
  rw [Nat.mod_eq_of_lt hlt] at hstr
  unfold registerNode
  rw [hstr]
  by_cases h0 : 0 ∈ bytesAt k ptr 130
  · rw [if_pos h0, ok_bind]
    dsimp only
    by_cases hlen : 128 ≤ (stripDot (cString (bytesAt k ptr 130))).length
    · rw [if_pos hlen, if_neg fun hf : NameFits k ptr => absurd hf.2 (Nat.not_lt.mpr hlen)]
    · have hfits : NameFits k ptr := ⟨h0, Nat.lt_of_not_le hlen⟩
      rw [if_neg hlen, if_pos hfits, vread_disk (h 156 (by omega)), ok_mapError, ok_map]
      rfl
  · rw [if_neg h0, if_neg fun hf : NameFits k ptr => h0 hf.1, error_bind]

end MyOS
