import MyOS.Lib.Packed

/-!
# Byte-addressed memory

Memory is a function from address to byte. Words are little-endian and read
as naturals below `2 ^ 32` (`2 ^ 16`, `2 ^ 64`). `memset` and `memcpy` are
given by what they leave at each address; `memset_succ` and `memcpy_succ`
show that this is the byte-by-byte loop. `wordsAt`/`putWords` view the
memory from an address on as an array of 32-bit words and write such an
array back, and are inverse to each other.

The frame lemmas are all of one kind: a write outside a range does not
change what is read there.
-/

namespace MyOS.Lib

/-- The byte at each address. -/
abbrev Mem := Nat → UInt8

/-- Byte `k` of a little-endian number. -/
def byteOf (v k : Nat) : UInt8 := UInt8.ofNat (v / 256 ^ k)

namespace Mem

/-- Store one byte. -/
def write (m : Mem) (a : Nat) (b : UInt8) : Mem := fun x => if x = a then b else m x

theorem write_self (m : Mem) (a : Nat) (b : UInt8) : m.write a b a = b := if_pos rfl

theorem write_ne (m : Mem) {a x : Nat} (b : UInt8) (h : x ≠ a) : m.write a b x = m x := if_neg h

def rd16 (m : Mem) (a : Nat) : Nat := (m a).toNat + (m (a + 1)).toNat * 256

def rd32 (m : Mem) (a : Nat) : Nat :=
  (m a).toNat + (m (a + 1)).toNat * 256 + (m (a + 2)).toNat * 65536
    + (m (a + 3)).toNat * 16777216

def rd64 (m : Mem) (a : Nat) : Nat := rd32 m a + rd32 m (a + 4) * 2 ^ 32

/-- Store a 32-bit word, little-endian. -/
def wr32 (m : Mem) (a v : Nat) : Mem := fun x =>
  if a ≤ x ∧ x < a + 4 then byteOf v (x - a) else m x

/-- The effect of `memset`. -/
def memset (m : Mem) (dest : Nat) (val : UInt8) (len : Nat) : Mem := fun x =>
  if dest ≤ x ∧ x < dest + len then val else m x

/-- The effect of `memcpy` on ranges that do not overlap. -/
def memcpy (m : Mem) (dest src len : Nat) : Mem := fun x =>
  if dest ≤ x ∧ x < dest + len then m (src + (x - dest)) else m x

/-! ## The loops behind `memset` and `memcpy` -/

theorem memset_zero (m : Mem) (dest : Nat) (val : UInt8) : m.memset dest val 0 = m := by
  funext x
  exact if_neg (by omega)

theorem memset_succ (m : Mem) (dest : Nat) (val : UInt8) (n : Nat) :
    m.memset dest val (n + 1) = (m.memset dest val n).write (dest + n) val := by
  funext x
  unfold memset write
  by_cases hx : x = dest + n
  · rw [if_pos hx, if_pos (by omega)]
  · rw [if_neg hx]
    dsimp only
    by_cases hr : dest ≤ x ∧ x < dest + n
    · rw [if_pos hr, if_pos (by omega)]
    · rw [if_neg hr, if_neg (by omega)]

theorem memcpy_zero (m : Mem) (dest src : Nat) : m.memcpy dest src 0 = m := by
  funext x
  exact if_neg (by omega)

/-- On disjoint ranges the loop reads bytes it has not written. -/
theorem memcpy_succ (m : Mem) {dest src n : Nat}
    (h : src + (n + 1) ≤ dest ∨ dest + (n + 1) ≤ src) :
    m.memcpy dest src (n + 1)
      = (m.memcpy dest src n).write (dest + n) (m.memcpy dest src n (src + n)) := by
  have hsrc : m.memcpy dest src n (src + n) = m (src + n) := if_neg (by omega)
  funext x
  rw [hsrc]
  unfold memcpy write
  by_cases hx : x = dest + n
  · rw [if_pos hx, if_pos (by omega)]
    congr 1
    omega
  · rw [if_neg hx]
    dsimp only
    by_cases hr : dest ≤ x ∧ x < dest + n
    · rw [if_pos hr, if_pos (by omega)]
    · rw [if_neg hr, if_neg (by omega)]

theorem rd32_lt (m : Mem) (a : Nat) : rd32 m a < 2 ^ 32 := by
  have h0 := (m a).toNat_lt
  have h1 := (m (a + 1)).toNat_lt
  have h2 := (m (a + 2)).toNat_lt
  have h3 := (m (a + 3)).toNat_lt
  unfold rd32
  omega

theorem rd32_congr {m n : Mem} {a : Nat} (h : ∀ k < 4, m (a + k) = n (a + k)) :
    rd32 m a = rd32 n a := by
  have h0 := h 0 (by omega)
  have h1 := h 1 (by omega)
  have h2 := h 2 (by omega)
  have h3 := h 3 (by omega)
  rw [Nat.add_zero] at h0
  unfold rd32
  rw [h0, h1, h2, h3]

theorem rd64_congr {m n : Mem} {a : Nat} (h : ∀ k < 8, m (a + k) = n (a + k)) :
    rd64 m a = rd64 n a := by
  unfold rd64
  rw [rd32_congr (m := m) (n := n) (a := a) fun k hk => h k (by omega),
    rd32_congr (m := m) (n := n) (a := a + 4) fun k hk => by
      rw [Nat.add_assoc]
      exact h (4 + k) (by omega)]

theorem toNat_byteOf (v k : Nat) : (byteOf v k).toNat = v / 256 ^ k % 256 := by
  unfold byteOf
  exact UInt8.toNat_ofNat'

/-- The four bytes of a word spell it. -/
theorem rd32_of_bytes {m : Mem} {a v : Nat} (hv : v < 2 ^ 32)
    (h : ∀ k < 4, m (a + k) = byteOf v k) : rd32 m a = v := by
  have h0 := h 0 (by omega)
  rw [Nat.add_zero] at h0
  unfold rd32
  rw [h0, h 1 (by omega), h 2 (by omega), h 3 (by omega), toNat_byteOf, toNat_byteOf, toNat_byteOf,
    toNat_byteOf]
  omega

theorem byteOf_rd32 (m : Mem) (a : Nat) {k : Nat} (hk : k < 4) :
    byteOf (rd32 m a) k = m (a + k) := by
  apply UInt8.toNat_inj.mp
  rw [toNat_byteOf]
  have h0 := (m a).toNat_lt
  have h1 := (m (a + 1)).toNat_lt
  have h2 := (m (a + 2)).toNat_lt
  have h3 := (m (a + 3)).toNat_lt
  unfold rd32
  rcases k with _ | _ | _ | _ | k
  · simp only [Nat.pow_zero, Nat.add_zero]
    omega
  · simp only [Nat.zero_add, Nat.pow_one]
    omega
  · simp only [Nat.zero_add, Nat.reduceAdd, Nat.reducePow]
    omega
  · simp only [Nat.zero_add, Nat.reduceAdd, Nat.reducePow]
    omega
  · omega

theorem rd32_wr32_self (m : Mem) (a : Nat) {v : Nat} (hv : v < 2 ^ 32) :
    rd32 (m.wr32 a v) a = v := by
  refine rd32_of_bytes hv fun k hk => ?_
  unfold wr32
  rw [if_pos (by omega), Nat.add_sub_cancel_left]

theorem wr32_of_outside (m : Mem) {a x : Nat} (v : Nat) (h : x < a ∨ a + 4 ≤ x) :
    m.wr32 a v x = m x := if_neg (by omega)

theorem rd32_wr32_ne (m : Mem) {a b : Nat} (v : Nat) (h : a + 4 ≤ b ∨ b + 4 ≤ a) :
    rd32 (m.wr32 a v) b = rd32 m b :=
  rd32_congr fun k hk => wr32_of_outside m v (by omega)

theorem memset_of_outside (m : Mem) {dest x len : Nat} (val : UInt8)
    (h : x < dest ∨ dest + len ≤ x) : m.memset dest val len x = m x := if_neg (by omega)

theorem rd32_memset_ne (m : Mem) {dest len b : Nat} (val : UInt8)
    (h : b + 4 ≤ dest ∨ dest + len ≤ b) : rd32 (m.memset dest val len) b = rd32 m b :=
  rd32_congr fun k hk => memset_of_outside m val (by omega)

theorem rd32_memset_zero (m : Mem) {dest len b : Nat} (h : dest ≤ b ∧ b + 4 ≤ dest + len) :
    rd32 (m.memset dest 0 len) b = 0 := by
  have hz : ∀ k < 4, m.memset dest 0 len (b + k) = 0 := fun k hk => if_pos (by omega)
  have h0 := hz 0 (by omega)
  rw [Nat.add_zero] at h0
  unfold rd32
  rw [h0, hz 1 (by omega), hz 2 (by omega), hz 3 (by omega)]
  rfl

theorem memcpy_of_outside (m : Mem) {dest src x len : Nat} (h : x < dest ∨ dest + len ≤ x) :
    m.memcpy dest src len x = m x := if_neg (by omega)

/-- A word of the destination is the word of the source it was copied from. -/
theorem rd32_memcpy (m : Mem) {dest src len k : Nat} (h : k + 4 ≤ len) :
    rd32 (m.memcpy dest src len) (dest + k) = rd32 m (src + k) := by
  have hb : ∀ j < 4, m.memcpy dest src len (dest + k + j) = m (src + k + j) := fun j hj => by
    unfold memcpy
    rw [if_pos (by omega)]
    congr 1
    omega
  have h0 := hb 0 (by omega)
  rw [Nat.add_zero, Nat.add_zero] at h0
  unfold rd32
  rw [h0, hb 1 (by omega), hb 2 (by omega), hb 3 (by omega)]

/-! ## Arrays of words in memory -/

/-- The 32-bit words from `base` on. -/
def wordsAt (m : Mem) (base : Nat) : Words 32 := fun i => BitVec.ofNat 32 (rd32 m (base + 4 * i))

/-- Memory with the words `w` from `base` on. -/
def putWords (m : Mem) (base : Nat) (w : Words 32) : Mem := fun x =>
  if x < base then m x else byteOf (w ((x - base) / 4)).toNat ((x - base) % 4)

theorem wordsAt_putWords (m : Mem) (base : Nat) (w : Words 32) :
    (m.putWords base w).wordsAt base = w := by
  funext i
  apply BitVec.eq_of_toNat_eq
  unfold wordsAt
  rw [BitVec.toNat_ofNat, Nat.mod_eq_of_lt (rd32_lt _ _)]
  refine rd32_of_bytes (w i).isLt fun k hk => ?_
  unfold putWords
  rw [if_neg (by omega), show (base + 4 * i + k - base) / 4 = i by omega,
    show (base + 4 * i + k - base) % 4 = k by omega]

theorem putWords_wordsAt (m : Mem) (base : Nat) : m.putWords base (m.wordsAt base) = m := by
  funext x
  unfold putWords wordsAt
  by_cases hx : x < base
  · rw [if_pos hx]
  · rw [if_neg hx, BitVec.toNat_ofNat, Nat.mod_eq_of_lt (rd32_lt _ _),
      byteOf_rd32 _ _ (by omega)]
    congr 1
    omega

theorem putWords_putWords (m : Mem) (base : Nat) (w v : Words 32) :
    (m.putWords base w).putWords base v = m.putWords base v := by
  funext x
  unfold putWords
  by_cases hx : x < base
  · rw [if_pos hx, if_pos hx, if_pos hx]
  · rw [if_neg hx, if_neg hx]

/-- Where the words did not change, neither did memory. -/
theorem putWords_of_outside (m : Mem) {base n : Nat} {w : Words 32}
    (hw : ∀ i, n ≤ i → w i = m.wordsAt base i) {x : Nat} (hx : x < base ∨ base + 4 * n ≤ x) :
    m.putWords base w x = m x := by
  rcases hx with hx | hx
  · exact if_pos hx
  · have h : m.putWords base w x = m.putWords base (m.wordsAt base) x := by
      unfold putWords
      rw [if_neg (by omega), if_neg (by omega), hw _ (by omega)]
    rw [h, putWords_wordsAt]

/-- A word set to `0xFF` bytes is all ones. -/
theorem wordsAt_memset_ones (m : Mem) {base n i : Nat} (h : i < n) :
    (m.memset base 0xFF (4 * n)).wordsAt base i = BitVec.allOnes 32 := by
  have hb : ∀ k < 4, m.memset base 0xFF (4 * n) (base + 4 * i + k) = 0xFF :=
    fun k hk => if_pos (by omega)
  have h0 := hb 0 (by omega)
  rw [Nat.add_zero] at h0
  unfold wordsAt rd32
  rw [h0, hb 1 (by omega), hb 2 (by omega), hb 3 (by omega)]
  rfl

end Mem

end MyOS.Lib
