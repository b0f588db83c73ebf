import MyOS.Lib.Mem
import Mathlib.Data.Nat.Bitwise

/-!
# Two-level page tables in memory

32-bit x86 paging over a byte memory: a directory of 1024 entries, each
naming a page table of 1024 entries, both a frame of 4096 bytes. `lookup`
is the two-level walk with an absent directory entry read as entry 0, and
`translate` adds the page offset.

`Backed U m dir` says that the directory and its present tables are frames
in `U`; `Sep` adds that they are pairwise distinct. The two updates of a
page table are a write of one entry (`lookup_putEntry`) and the installation
of a zeroed table (`lookup_install`): under `Sep` the first changes the
lookup of one page and the second changes none. A memory that agrees on `U`
has the same lookups (`Backed.lookup_congr`), which is the frame rule
everything else uses.
-/

namespace MyOS.Lib

open Mem

namespace Paging

/-! ## Index arithmetic -/

def pdIndex (v : Nat) : Nat := v >>> 22

def ptIndex (v : Nat) : Nat := (v >>> 12) &&& 0x3FF

/-- The present bit of an entry. -/
def Present (e : Nat) : Prop := e &&& 1 ≠ 0

instance (e : Nat) : Decidable (Present e) := inferInstanceAs (Decidable (_ ≠ _))

/-- The user bit of an entry. -/
def User (e : Nat) : Prop := e &&& 4 ≠ 0

instance (e : Nat) : Decidable (User e) := inferInstanceAs (Decidable (_ ≠ _))

/-- The address in an entry, the flags cleared. -/
def base (e : Nat) : Nat := e &&& 0xFFFFF000

theorem pdIndex_eq (v : Nat) : pdIndex v = v / 4194304 := Nat.shiftRight_eq_div_pow v 22

theorem ptIndex_eq (v : Nat) : ptIndex v = v / 4096 % 1024 := by
  unfold ptIndex
  rw [Nat.shiftRight_eq_div_pow]
  exact Nat.and_two_pow_sub_one_eq_mod (v / 2 ^ 12) 10

theorem pdIndex_lt {v : Nat} (hv : v < 2 ^ 32) : pdIndex v < 1024 := by
  rw [pdIndex_eq]
  omega

theorem ptIndex_lt (v : Nat) : ptIndex v < 1024 := by
  rw [ptIndex_eq]
  exact Nat.mod_lt _ (by omega)

/-- The two indices determine the page. -/
theorem page_eq_iff {v w : Nat} :
    v / 4096 = w / 4096 ↔ pdIndex v = pdIndex w ∧ ptIndex v = ptIndex w := by
  rw [pdIndex_eq, pdIndex_eq, ptIndex_eq, ptIndex_eq]
  omega

theorem present_iff (e : Nat) : Present e ↔ e % 2 = 1 := by
  unfold Present
  rw [Nat.and_one_is_mod]
  omega

theorem not_present_zero : ¬Present 0 := by decide

/-- A mask of the bits from `n` on clears the rest. -/
theorem and_high_mask {e n w : Nat} (hn : n ≤ w) (he : e < 2 ^ w) :
    e &&& ((2 ^ (w - n) - 1) <<< n) = e / 2 ^ n * 2 ^ n := by
  have hfloor : e / 2 ^ n * 2 ^ n = (e >>> n) <<< n := by
    rw [Nat.shiftRight_eq_div_pow, Nat.shiftLeft_eq]
  rw [hfloor]
  refine Nat.eq_of_testBit_eq fun i => ?_
  rw [Nat.testBit_and, Nat.testBit_shiftLeft, Nat.testBit_shiftLeft, Nat.testBit_two_pow_sub_one,
    Nat.testBit_shiftRight]
  by_cases hni : n ≤ i
  · rw [Nat.add_sub_cancel' hni]
    by_cases hw : i < w
    · simp [hni, show i - n < w - n by omega]
    · have hbit : e.testBit i = false :=
        Nat.testBit_lt_two_pow (Nat.lt_of_lt_of_le he (Nat.pow_le_pow_right (by omega) (by omega)))
      simp [hbit]
  · simp [hni]

/-- The mask keeps the upper twenty bits. -/
theorem and_mask {e : Nat} (he : e < 2 ^ 32) : e &&& 0xFFFFF000 = e / 4096 * 4096 := by
  have hmask : (0xFFFFF000 : Nat) = (2 ^ (32 - 12) - 1) <<< 12 := by decide
  rw [hmask, and_high_mask (by omega) he, show (2 : Nat) ^ 12 = 4096 from rfl]

theorem base_eq {e : Nat} (he : e < 2 ^ 32) : base e = e / 4096 * 4096 := and_mask he

/-- Flags below 4096 add to an aligned address. -/
theorem or_flags {p f : Nat} (hp : p % 4096 = 0) (hf : f < 4096) : p ||| f = p + f := by
  have hdvd : p = 2 ^ 12 * (p / 4096) := by omega
  rw [hdvd]
  exact (Nat.two_pow_add_eq_or_of_lt (i := 12) hf _).symm

/-- The frame in an entry with the flags present, write and user. -/
theorem frame_entry (t : Nat) : (t * 4096 + 7) / 4096 = t := by omega

theorem present_entry (t : Nat) : Present (t * 4096 + 7) := by
  rw [present_iff]
  omega

theorem user_entry (t : Nat) : User (t * 4096 + 7) := by
  have hlow : ((t * 4096 + 7) &&& 4) % 2 ^ 3 = 4 := by
    rw [Nat.and_mod_two_pow, show (t * 4096 + 7) % 2 ^ 3 = 7 by omega]
    rfl
  unfold User
  omega

/-! ## The walk -/

/-- Directory entry `i`. -/
def pde (m : Mem) (dir i : Nat) : Nat := rd32 m (dir + 4 * i)

/-- The entry of the page of `v`; `0` if its directory entry is absent. -/
def lookup (m : Mem) (dir v : Nat) : Nat :=
  if Present (pde m dir (pdIndex v)) then
    rd32 m (base (pde m dir (pdIndex v)) + 4 * ptIndex v)
  else 0

/-- The physical address of `v`, if its page is present. -/
def translate (m : Mem) (dir v : Nat) : Option Nat :=
  if Present (lookup m dir v) then some (base (lookup m dir v) + v % 4096) else none

/-- The physical address of `v` for an access from Ring 3: both entries have
the user bit. -/
def userTranslate (m : Mem) (dir v : Nat) : Option Nat :=
  if User (pde m dir (pdIndex v)) ∧ User (lookup m dir v) then translate m dir v else none

theorem lookup_present {m : Mem} {dir v : Nat} (h : Present (pde m dir (pdIndex v))) :
    lookup m dir v = rd32 m (base (pde m dir (pdIndex v)) + 4 * ptIndex v) := if_pos h

theorem lookup_absent {m : Mem} {dir v : Nat} (h : ¬Present (pde m dir (pdIndex v))) :
    lookup m dir v = 0 := if_neg h

theorem pde_lt (m : Mem) (dir i : Nat) : pde m dir i < 2 ^ 32 := rd32_lt _ _

theorem lookup_lt (m : Mem) (dir v : Nat) : lookup m dir v < 2 ^ 32 := by
  unfold lookup
  split
  · exact rd32_lt _ _
  · exact Nat.two_pow_pos 32

/-- A present page has a present table. -/
theorem pde_present_of_lookup {m : Mem} {dir v : Nat} (h : Present (lookup m dir v)) :
    Present (pde m dir (pdIndex v)) := by
  by_contra habs
  rw [lookup_absent habs] at h
  exact not_present_zero h

theorem translate_some {m : Mem} {dir v p : Nat} (h : translate m dir v = some p) :
    Present (lookup m dir v) ∧ p = lookup m dir v / 4096 * 4096 + v % 4096 := by
  unfold translate at h
  split at h
  next hp =>
    cases h
    exact ⟨hp, by rw [base_eq (lookup_lt m dir v)]⟩
  next => exact absurd h (by simp)

theorem translate_of_lookup {m : Mem} {dir v f : Nat} (h : lookup m dir v = f * 4096 + 7) :
    translate m dir v = some (f * 4096 + v % 4096) := by
  have hlt := lookup_lt m dir v
  unfold translate
  rw [base_eq hlt, h, if_pos (present_entry f), frame_entry]

theorem translate_congr {m m' : Mem} {dir dir' v : Nat} (h : lookup m' dir' v = lookup m dir v) :
    translate m' dir' v = translate m dir v := by
  unfold translate
  rw [h]

/-- The lookup of an address is that of its page. -/
theorem lookup_page {m : Mem} {dir v w : Nat} (h : v / 4096 = w / 4096) :
    lookup m dir v = lookup m dir w := by
  obtain ⟨hd, ht⟩ := page_eq_iff.mp h
  unfold lookup
  rw [hd, ht]

theorem translate_of_present {m : Mem} {dir v : Nat} (h : Present (lookup m dir v)) :
    translate m dir v = some (lookup m dir v / 4096 * 4096 + v % 4096) := by
  unfold translate
  rw [if_pos h, base_eq (lookup_lt m dir v)]

/-- Two directories with one table at the slot agree there. -/
theorem lookup_of_same_table {m : Mem} {dir dir' v : Nat} (hp : Present (pde m dir (pdIndex v)))
    (hp' : Present (pde m dir' (pdIndex v)))
    (h : pde m dir (pdIndex v) / 4096 = pde m dir' (pdIndex v) / 4096) :
    lookup m dir v = lookup m dir' v := by
  rw [lookup_present hp, lookup_present hp', base_eq (pde_lt _ _ _), base_eq (pde_lt _ _ _), h]

/-! ## Frames -/

/-- The memories differ in the frames of `S`, at most. -/
def AgreeOff (S : Nat → Prop) (m m' : Mem) : Prop := ∀ x, ¬S (x / 4096) → m' x = m x

theorem AgreeOff.wr32 {S : Nat → Prop} {m m' : Mem} (h : AgreeOff S m m') (a v : Nat) :
    AgreeOff S (m.wr32 a v) (m'.wr32 a v) := by
  intro x hx
  unfold Mem.wr32
  rw [h x hx]

theorem AgreeOff.memset {S : Nat → Prop} {m m' : Mem} (h : AgreeOff S m m') (dest : Nat)
    (val : UInt8) (len : Nat) : AgreeOff S (m.memset dest val len) (m'.memset dest val len) := by
  intro x hx
  unfold Mem.memset
  rw [h x hx]

/-- The directory and its present tables are frames in `U`. -/
structure Backed (U : Nat → Prop) (m : Mem) (dir : Nat) : Prop where
  aligned : dir % 4096 = 0
  dir_used : U (dir / 4096)
  table_used : ∀ i < 1024, Present (pde m dir i) → U (pde m dir i / 4096)

/-- Moreover the directory and the tables are pairwise distinct. -/
structure Sep (U : Nat → Prop) (m : Mem) (dir : Nat) : Prop extends Backed U m dir where
  table_ne : ∀ i < 1024, Present (pde m dir i) → pde m dir i / 4096 ≠ dir / 4096
  table_inj : ∀ i < 1024, ∀ j < 1024, Present (pde m dir i) → Present (pde m dir j) →
    pde m dir i / 4096 = pde m dir j / 4096 → i = j

/-- The frames a directory is made of. -/
def Frames (m : Mem) (dir b : Nat) : Prop :=
  b = dir / 4096 ∨ ∃ i < 1024, Present (pde m dir i) ∧ pde m dir i / 4096 = b

theorem backed_frames {m : Mem} {dir : Nat} (h : dir % 4096 = 0) : Backed (Frames m dir) m dir :=
  ⟨h, Or.inl rfl, fun i hi hp => Or.inr ⟨i, hi, hp, rfl⟩⟩

section

variable {U V : Nat → Prop} {m m' : Mem} {dir : Nat}

theorem Backed.mono (h : Backed U m dir) (hUV : ∀ b, U b → V b) : Backed V m dir :=
  ⟨h.aligned, hUV _ h.dir_used, fun i hi hp => hUV _ (h.table_used i hi hp)⟩

theorem Sep.mono (h : Sep U m dir) (hUV : ∀ b, U b → V b) : Sep V m dir :=
  ⟨h.toBacked.mono hUV, h.table_ne, h.table_inj⟩

theorem Backed.frames (h : Backed U m dir) {b : Nat} (hb : Frames m dir b) : U b := by
  rcases hb with rfl | ⟨i, hi, hp, rfl⟩
  · exact h.dir_used
  · exact h.table_used i hi hp

/-- A directory entry lies in the directory's frame. -/
theorem pde_congr (hdir : dir % 4096 = 0) (hm : ∀ x, x / 4096 = dir / 4096 → m' x = m x) {i : Nat}
    (hi : i < 1024) : pde m' dir i = pde m dir i :=
  rd32_congr fun k hk => hm _ (by omega)

/-- A table entry lies in the table's frame. -/
theorem rd32_entry_congr {e i : Nat} (he : e < 2 ^ 32) (hm : ∀ x, x / 4096 = e / 4096 → m' x = m x)
    (hi : i < 1024) : rd32 m' (base e + 4 * i) = rd32 m (base e + 4 * i) := by
  rw [base_eq he]
  exact rd32_congr fun k hk => hm _ (by omega)

theorem Backed.pde_congr (h : Backed U m dir) (hm : ∀ x, U (x / 4096) → m' x = m x) {i : Nat}
    (hi : i < 1024) : pde m' dir i = pde m dir i :=
  Paging.pde_congr h.aligned (fun x hx => hm x (by rw [hx]; exact h.dir_used)) hi

/-- **Frame rule.** A memory that agrees on the frames in `U` has the same
lookups. -/
theorem Backed.lookup_congr (h : Backed U m dir) (hm : ∀ x, U (x / 4096) → m' x = m x) {v : Nat}
    (hv : v < 2 ^ 32) : lookup m' dir v = lookup m dir v := by
  have hd := h.pde_congr hm (pdIndex_lt hv)
  unfold lookup
  rw [hd]
  split
  next hp =>
    exact rd32_entry_congr (pde_lt _ _ _)
      (fun x hx => hm x (by rw [hx]; exact h.table_used _ (pdIndex_lt hv) hp)) (ptIndex_lt v)
  next => rfl

theorem Backed.congr (h : Backed U m dir) (hm : ∀ x, U (x / 4096) → m' x = m x) :
    Backed U m' dir := by
  refine ⟨h.aligned, h.dir_used, fun i hi hp => ?_⟩
  rw [h.pde_congr hm hi] at hp ⊢
  exact h.table_used i hi hp

/-- The directory keeps its shape under a memory with the same entries. -/
theorem Sep.of_pde (h : Sep U m dir) (hd : ∀ i < 1024, pde m' dir i = pde m dir i) :
    Sep U m' dir := by
  refine ⟨⟨h.aligned, h.dir_used, fun i hi hp => ?_⟩, fun i hi hp => ?_, fun i hi j hj hp hq he => ?_⟩
  · rw [hd i hi] at hp ⊢
    exact h.table_used i hi hp
  · rw [hd i hi] at hp ⊢
    exact h.table_ne i hi hp
  · rw [hd i hi] at hp he
    rw [hd j hj] at hq he
    exact h.table_inj i hi j hj hp hq he

/-- Lookups with the same directory entries and the same table frames. -/
theorem lookup_congr_of_pde (hd : ∀ i < 1024, pde m' dir i = pde m dir i) {v : Nat}
    (hv : v < 2 ^ 32)
    (hm : Present (pde m dir (pdIndex v)) →
      ∀ x, x / 4096 = pde m dir (pdIndex v) / 4096 → m' x = m x) :
    lookup m' dir v = lookup m dir v := by
  unfold lookup
  rw [hd _ (pdIndex_lt hv)]
  split
  next hp => exact rd32_entry_congr (pde_lt _ _ _) (hm hp) (ptIndex_lt v)
  next => rfl

/-! ## Writing one entry -/

/-- `page_table[pt_index] = e` for the present table of `v`. -/
def putEntry (m : Mem) (dir v e : Nat) : Mem :=
  m.wr32 (base (pde m dir (pdIndex v)) + 4 * ptIndex v) e

theorem putEntry_of_frame_ne {v e x : Nat} (hx : x / 4096 ≠ pde m dir (pdIndex v) / 4096) :
    putEntry m dir v e x = m x := by
  have hidx := ptIndex_lt v
  unfold putEntry
  rw [base_eq (pde_lt _ _ _)]
  exact wr32_of_outside m e (by omega)

theorem pde_putEntry (h : Sep U m dir) {v e : Nat} (hv : v < 2 ^ 32)
    (hp : Present (pde m dir (pdIndex v))) {i : Nat} (hi : i < 1024) :
    pde (putEntry m dir v e) dir i = pde m dir i := by
  refine pde_congr h.aligned (fun x hx => putEntry_of_frame_ne ?_) hi
  rw [hx]
  exact (h.table_ne _ (pdIndex_lt hv) hp).symm

/-- **One entry.** A table write changes the lookup of the page it is for,
and of no other. -/
theorem lookup_putEntry (h : Sep U m dir) {v e : Nat} (hv : v < 2 ^ 32) (he : e < 2 ^ 32)
    (hp : Present (pde m dir (pdIndex v))) {w : Nat} (hw : w < 2 ^ 32) :
    lookup (putEntry m dir v e) dir w = if w / 4096 = v / 4096 then e else lookup m dir w := by
  have hd : ∀ i < 1024, pde (putEntry m dir v e) dir i = pde m dir i :=
    fun i hi => pde_putEntry h hv hp hi
  by_cases hslot : pdIndex w = pdIndex v
  · -- the same table: the entries are words of one array
    have hpw : Present (pde m dir (pdIndex w)) := by
      rw [hslot]
      exact hp
    rw [lookup_present (by rw [hd _ (pdIndex_lt hw)]; exact hpw), hd _ (pdIndex_lt hw), hslot]
    unfold putEntry
    by_cases hidx : ptIndex w = ptIndex v
    · rw [if_pos (page_eq_iff.mpr ⟨hslot, hidx⟩), hidx]
      exact rd32_wr32_self m _ he
    · rw [if_neg (fun hpg => hidx (page_eq_iff.mp hpg).2), rd32_wr32_ne m e (by omega),
        lookup_present hpw, hslot]
  · rw [if_neg (fun hpg => hslot (page_eq_iff.mp hpg).1)]
    refine lookup_congr_of_pde hd hw fun hpw x hx => putEntry_of_frame_ne ?_
    rw [hx]
    exact fun heq => hslot (h.table_inj _ (pdIndex_lt hw) _ (pdIndex_lt hv) hpw hp heq)

/-! ## Installing a table -/

/-- A zeroed frame `t` becomes the table of slot `i`. -/
def install (m : Mem) (dir i t : Nat) : Mem :=
  (m.memset (t * 4096) 0 4096).wr32 (dir + 4 * i) (t * 4096 + 7)

theorem install_of_frame_ne {i t x : Nat} (hdir : dir % 4096 = 0) (hi : i < 1024)
    (hxt : x / 4096 ≠ t) (hxd : x / 4096 ≠ dir / 4096) : install m dir i t x = m x := by
  unfold install
  rw [wr32_of_outside _ _ (by omega)]
  exact memset_of_outside m 0 (by omega)

theorem pde_install (hdir : dir % 4096 = 0) {i t : Nat} (ht : t < 2 ^ 20) (htd : t ≠ dir / 4096)
    {j : Nat} (hj : j < 1024) :
    pde (install m dir i t) dir j = if j = i then t * 4096 + 7 else pde m dir j := by
  unfold install pde
  by_cases hji : j = i
  · rw [if_pos hji, hji]
    exact rd32_wr32_self _ _ (by omega)
  · rw [if_neg hji, rd32_wr32_ne _ _ (by omega)]
    exact rd32_memset_ne m 0 (by omega)

/-- A zeroed table in an absent slot changes no lookup. -/
theorem lookup_install (h : Sep U m dir) {i t : Nat} (hi : i < 1024) (ht : t < 2 ^ 20)
    (habs : ¬Present (pde m dir i)) (hnew : ¬U t) {w : Nat} (hw : w < 2 ^ 32) :
    lookup (install m dir i t) dir w = lookup m dir w := by
  have htd : t ≠ dir / 4096 := fun he => hnew (by rw [he]; exact h.dir_used)
  have hd := fun {j} => pde_install (m := m) h.aligned ht htd (i := i) (j := j)
  by_cases hslot : pdIndex w = i
  · have hp : Present (pde (install m dir i t) dir (pdIndex w)) := by
      rw [hd (pdIndex_lt hw), if_pos hslot]
      exact present_entry t
    have hidx := ptIndex_lt w
    rw [lookup_present hp, lookup_absent (by rw [hslot]; exact habs), hd (pdIndex_lt hw),
      if_pos hslot, base_eq (by omega)]
    unfold install
    rw [frame_entry, rd32_wr32_ne _ _ (by have := h.aligned; omega)]
    exact rd32_memset_zero m (by omega)
  · unfold lookup
    rw [hd (pdIndex_lt hw), if_neg hslot]
    split
    next hp =>
      refine rd32_entry_congr (pde_lt _ _ _) (fun x hx => ?_) (ptIndex_lt w)
      refine install_of_frame_ne h.aligned hi ?_ ?_
      · rw [hx]
        exact fun he => hnew (he ▸ h.table_used _ (pdIndex_lt hw) hp)
      · rw [hx]
        exact h.table_ne _ (pdIndex_lt hw) hp
    next => rfl

theorem Sep.install (h : Sep U m dir) {i t : Nat} (ht : t < 2 ^ 20) (hnew : ¬U t) (hUV : ∀ b, U b → V b)
    (hVt : V t) : Sep V (install m dir i t) dir := by
  have htd : t ≠ dir / 4096 := fun he => hnew (by rw [he]; exact h.dir_used)
  have hd := fun {j} => pde_install (m := m) h.aligned ht htd (i := i) (j := j)
  refine ⟨⟨h.aligned, hUV _ h.dir_used, fun j hj hp => ?_⟩, fun j hj hp => ?_,
    fun j hj k hk hp hq he => ?_⟩
  · rw [hd hj] at hp ⊢
    split
    next => rwa [frame_entry]
    next hji =>
      rw [if_neg hji] at hp
      exact hUV _ (h.table_used j hj hp)
  · rw [hd hj] at hp ⊢
    split
    next => rwa [frame_entry]
    next hji =>
      rw [if_neg hji] at hp
      exact h.table_ne j hj hp
  · rw [hd hj] at hp he
    rw [hd hk] at hq he
    by_cases hji : j = i
    · by_cases hki : k = i
      · rw [hji, hki]
      · rw [if_pos hji, if_neg hki, frame_entry] at he
        rw [if_neg hki] at hq
        exact absurd (he ▸ h.table_used k hk hq) hnew
    · by_cases hki : k = i
      · rw [if_neg hji, if_pos hki, frame_entry] at he
        rw [if_neg hji] at hp
        exact absurd (he ▸ h.table_used j hj hp) hnew
      · rw [if_neg hji] at hp he
        rw [if_neg hki] at hq he
        exact h.table_inj j hj k hk hp hq he

end

end Paging

end MyOS.Lib
