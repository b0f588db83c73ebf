import Mathlib.Data.Nat.Count
import Mathlib.Tactic.Common

/-!
# Bits packed into machine words

A bitmap of unbounded length is a function from word index to an `n`-bit
word; bit `b` is bit `b % n` of word `b / n`. The three helpers are written
with the shift-and-mask expressions a C program uses, and everything after
them goes through two equations, `test_set` and `test_clear`: a write moves
exactly one bit. `ext_test` says the bits determine the words, and `pop`
counts the set bits below a bound, moving by one with each effective write
(`pop_set`, `pop_clear`).
-/

namespace MyOS.Lib

/-- Words of `n` bits, by word index. -/
abbrev Words (n : Nat) := Nat → BitVec n

namespace Words

variable {n : Nat}

/-- `(w[b / n] & (1 << (b % n))) != 0` -/
def test (w : Words n) (b : Nat) : Bool :=
  (w (b / n) &&& (1#n <<< (b % n))) != 0#n

/-- `w[b / n] |= 1 << (b % n)` -/
def set (w : Words n) (b : Nat) : Words n := fun i =>
  if i = b / n then w i ||| (1#n <<< (b % n)) else w i

/-- `w[b / n] &= ~(1 << (b % n))` -/
def clear (w : Words n) (b : Nat) : Words n := fun i =>
  if i = b / n then w i &&& ~~~(1#n <<< (b % n)) else w i

/-- The one-bit mask has exactly its own bit. -/
theorem getLsbD_one_shiftLeft {j k : Nat} (hj : j < n) :
    (1#n <<< j).getLsbD k = decide (k = j) := by
  rw [BitVec.getLsbD_shiftLeft, BitVec.getLsbD_one]
  rw [Bool.eq_iff_iff]
  simp only [Bool.and_eq_true, Bool.not_eq_true', decide_eq_true_eq, decide_eq_false_iff_not]
  omega

theorem test_eq_getLsbD (hn : 0 < n) (w : Words n) (b : Nat) :
    w.test b = (w (b / n)).getLsbD (b % n) := by
  have hj : b % n < n := Nat.mod_lt _ hn
  unfold test
  cases hb : (w (b / n)).getLsbD (b % n) with
  | true =>
    rw [bne_iff_ne]
    intro h
    have hbit := congrArg (fun v => BitVec.getLsbD v (b % n)) h
    simp [BitVec.getLsbD_and, hb, getLsbD_one_shiftLeft hj] at hbit
  | false =>
    rw [bne_eq_false_iff_eq]
    apply BitVec.eq_of_getLsbD_eq
    intro k _
    rw [BitVec.getLsbD_and, getLsbD_one_shiftLeft hj]
    by_cases hk : k = b % n
    · subst hk
      simp [hb]
    · simp [hk]

/-- Two bit indices agree exactly when word and offset agree. -/
theorem index_eq_iff {b c : Nat} : c = b ↔ c / n = b / n ∧ c % n = b % n := by
  constructor
  · rintro rfl
    exact ⟨rfl, rfl⟩
  · rintro ⟨hd, hm⟩
    rw [← Nat.div_add_mod c n, ← Nat.div_add_mod b n, hd, hm]

theorem test_set (hn : 0 < n) (w : Words n) (b c : Nat) :
    (w.set b).test c = true ↔ c = b ∨ w.test c = true := by
  rw [test_eq_getLsbD hn, test_eq_getLsbD hn]
  unfold set
  by_cases hd : c / n = b / n
  · rw [if_pos hd, BitVec.getLsbD_or, getLsbD_one_shiftLeft (Nat.mod_lt _ hn), Bool.or_eq_true,
      decide_eq_true_eq, or_comm]
    have hiff : c % n = b % n ↔ c = b :=
      ⟨fun h => (index_eq_iff (n := n)).mpr ⟨hd, h⟩, fun h => h ▸ rfl⟩
    rw [hiff]
  · rw [if_neg hd]
    exact ⟨Or.inr, fun h => h.resolve_left fun he => hd (he ▸ rfl)⟩

theorem test_clear (hn : 0 < n) (w : Words n) (b c : Nat) :
    (w.clear b).test c = true ↔ c ≠ b ∧ w.test c = true := by
  rw [test_eq_getLsbD hn, test_eq_getLsbD hn]
  unfold clear
  by_cases hd : c / n = b / n
  · have hiff : c % n = b % n ↔ c = b :=
      ⟨fun h => (index_eq_iff (n := n)).mpr ⟨hd, h⟩, fun h => h ▸ rfl⟩
    rw [if_pos hd, BitVec.getLsbD_and, BitVec.getLsbD_not,
      getLsbD_one_shiftLeft (Nat.mod_lt _ hn), Bool.and_eq_true, and_comm, Bool.and_eq_true,
      Bool.not_eq_true', decide_eq_false_iff_not, decide_eq_true_eq, hiff]
    exact ⟨fun h => ⟨h.1.2, h.2⟩, fun h => ⟨⟨Nat.mod_lt _ hn, h.1⟩, h.2⟩⟩
  · rw [if_neg hd]
    exact ⟨fun h => ⟨fun he => hd (he ▸ rfl), h⟩, fun h => h.2⟩

theorem set_apply_ne {w : Words n} {b i : Nat} (h : i ≠ b / n) : w.set b i = w i :=
  if_neg h

theorem clear_apply_ne {w : Words n} {b i : Nat} (h : i ≠ b / n) : w.clear b i = w i :=
  if_neg h

/-- The bit at offset `j` of word `i`. -/
theorem test_mul_add (w : Words n) {i j : Nat} (hj : j < n) :
    w.test (i * n + j) = (w i).getLsbD j := by
  have hn : 0 < n := Nat.lt_of_le_of_lt (Nat.zero_le _) hj
  rw [test_eq_getLsbD hn, Nat.add_comm, Nat.add_mul_div_right _ _ hn, Nat.div_eq_of_lt hj,
    Nat.zero_add, Nat.add_mul_mod_self_right, Nat.mod_eq_of_lt hj]

/-- The bits of a bitmap determine its words. -/
theorem ext_test {w v : Words n} (h : ∀ b, w.test b = true ↔ v.test b = true) : w = v := by
  funext i
  apply BitVec.eq_of_getLsbD_eq
  intro j hj
  rw [← test_mul_add w hj, ← test_mul_add v hj, Bool.eq_iff_iff]
  exact h _

/-- A word is all ones exactly when every one of its bits is set. -/
theorem eq_allOnes_iff (w : Words n) (i : Nat) :
    w i = BitVec.allOnes n ↔ ∀ j < n, w.test (i * n + j) = true := by
  constructor
  · intro h j hj
    rw [test_mul_add w hj, h, BitVec.getLsbD_allOnes, decide_eq_true hj]
  · intro h
    apply BitVec.eq_of_getLsbD_eq
    intro j hj
    rw [← test_mul_add w hj, h j hj, BitVec.getLsbD_allOnes, decide_eq_true hj]

/-! ## Population counts -/

/-- Predicates that agree below `m` have the same count there. -/
theorem count_congr {p q : Nat → Prop} [DecidablePred p] [DecidablePred q] {m : Nat}
    (h : ∀ b < m, (p b ↔ q b)) : Nat.count p m = Nat.count q m :=
  Nat.le_antisymm (Nat.count_mono_left fun b hb => (h b hb).mp)
    (Nat.count_mono_left fun b hb => (h b hb).mpr)

/-- Two predicates that differ at one point below `m` have counts that
differ by one there. -/
theorem count_add_one {p q : Nat → Prop} [DecidablePred p] [DecidablePred q] {b m : Nat}
    (hb : b < m) (hp : ¬p b) (hq : q b) (hne : ∀ c, c ≠ b → (p c ↔ q c)) :
    Nat.count q m = Nat.count p m + 1 := by
  induction m with
  | zero => omega
  | succ m ih =>
    rw [Nat.count_succ, Nat.count_succ]
    rcases Nat.lt_or_ge b m with hlt | hge
    · have hiff := hne m (by omega)
      rw [ih hlt]
      by_cases hpm : p m
      · rw [if_pos hpm, if_pos (hiff.mp hpm)]
      · rw [if_neg hpm, if_neg (fun h => hpm (hiff.mpr h))]
    · have hbm : b = m := by omega
      subst hbm
      rw [if_pos hq, if_neg hp, Nat.add_zero, count_congr fun k hk => hne k (by omega)]

/-- The number of set bits below `m`. -/
def pop (w : Words n) (m : Nat) : Nat := Nat.count (fun b => w.test b = true) m

theorem pop_le (w : Words n) (m : Nat) : w.pop m ≤ m := Nat.count_le _

/-- The set and the clear bits below `m` make up all of them. -/
theorem pop_add_clear (w : Words n) (m : Nat) :
    w.pop m + Nat.count (fun b => w.test b = false) m = m := by
  unfold pop
  induction m with
  | zero => rfl
  | succ m ih =>
    rw [Nat.count_succ, Nat.count_succ]
    cases hm : w.test m <;> simp <;> omega

theorem pop_set (hn : 0 < n) {w : Words n} {b m : Nat} (hb : b < m) (h : w.test b = false) :
    (w.set b).pop m = w.pop m + 1 := by
  refine count_add_one hb (by rw [h]; exact Bool.false_ne_true) ?_ (fun c hc => ?_)
  · exact (test_set hn w b b).mpr (Or.inl rfl)
  · rw [test_set hn]
    exact ⟨Or.inr, fun hor => hor.resolve_left hc⟩

theorem pop_clear (hn : 0 < n) {w : Words n} {b m : Nat} (hb : b < m) (h : w.test b = true) :
    (w.clear b).pop m + 1 = w.pop m := by
  refine (count_add_one hb ?_ h (fun c hc => ?_)).symm
  · exact fun hbb => ((test_clear hn w b b).mp hbb).1 rfl
  · rw [test_clear hn]
    exact ⟨fun hand => hand.2, fun ht => ⟨hc, ht⟩⟩

/-- Every bit below `m` set: the count is `m`. -/
theorem pop_eq_of_forall {w : Words n} {m : Nat} (h : ∀ b < m, w.test b = true) :
    w.pop m = m :=
  Nat.count_of_forall fun b hb => h b hb

/-- A clear bit below `m` keeps the count below `m`. -/
theorem pop_lt_of_clear {w : Words n} {b m : Nat} (hb : b < m) (h : w.test b = false) :
    w.pop m < m := by
  have hle := pop_le w m
  have hne : w.pop m ≠ m := fun he => by
    have := Nat.count_iff_forall.mp he b hb
    rw [h] at this
    exact Bool.false_ne_true this
  omega

end Words

end MyOS.Lib
