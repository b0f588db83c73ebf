import MyOS.Vfs.Tar

/-!
# What the name tests of the TAR file system decide

The scans of `tar_readdir` and `tar_finddir` compare names with `strcmp`,
`strncmp`, `is_direct_child` and `match_name`. On C strings, which hold no
NUL byte, these are equality, the prefix test, "the rest has no `/` but a
trailing one" and equality up to a trailing `/`.

A directory's children are then a sublist of the node table (`childrenOf`),
and both scans are searches in it: `tar_readdir` by position, `tar_finddir`
by name (`readdirScan_eq`, `tarScan_eq`).
-/

namespace MyOS

/-- A name less one trailing `/`. -/
def trimSlash (s : List UInt8) : List UInt8 := if s.getLast? = some slash then s.dropLast else s

/-! ## Comparisons -/

theorem toNat_sub_ne_zero {a b : UInt8} (h : a ≠ b) : (a.toNat : Int) - b.toNat ≠ 0 := by
  intro h0
  exact h (UInt8.toNat_inj.mp (by omega))

theorem strcmp_eq_zero : ∀ {a b : List UInt8}, 0 ∉ a → 0 ∉ b → (strcmp a b = 0 ↔ a = b)
  | [], [], _, _ => by simp [strcmp]
  | [], y :: b, _, hb => by
    have hy := toNat_sub_ne_zero (a := 0) (b := y) fun h => hb (h ▸ List.mem_cons_self)
    exact ⟨fun h => absurd h hy, fun h => absurd h (by simp)⟩
  | x :: a, [], ha, _ => by
    have hx := toNat_sub_ne_zero (a := x) (b := 0) fun h => ha (h ▸ List.mem_cons_self)
    refine ⟨fun h => absurd ?_ hx, fun h => absurd h (by simp)⟩
    have h' : (x.toNat : Int) = 0 := h
    rw [h']
    rfl
  | x :: a, y :: b, ha, hb => by
    unfold strcmp
    by_cases hxy : x = y
    · rw [if_pos hxy, strcmp_eq_zero (fun h => ha (List.mem_cons_of_mem _ h))
        (fun h => hb (List.mem_cons_of_mem _ h)), hxy]
      simp
    · rw [if_neg hxy]
      refine ⟨fun h => absurd h (toNat_sub_ne_zero hxy), fun h => absurd (List.cons.inj h).1 hxy⟩

/-- `strncmp` over bytes the first string has: it is a prefix of the second. -/
theorem strncmp_eq_zero : ∀ {n : Nat} {a b : List UInt8}, 0 ∉ a → n ≤ a.length →
    (strncmp a b n = 0 ↔ a.take n <+: b)
  | 0, a, b, _, _ => by simp [strncmp]
  | n + 1, [], _, _, hn => absurd hn (by simp)
  | n + 1, x :: a, [], ha, _ => by
    have hx : (x.toNat : Int) ≠ 0 := by
      intro h
      refine ha ?_
      have h0 : x = 0 := UInt8.toNat_inj.mp (by simpa using h)
      exact h0 ▸ List.mem_cons_self
    exact ⟨fun h => absurd h hx, fun h => absurd h (by simp)⟩
  | n + 1, x :: a, y :: b, ha, hn => by
    unfold strncmp
    rw [List.take_succ_cons, List.cons_prefix_cons]
    by_cases hxy : x = y
    · rw [if_pos hxy, strncmp_eq_zero (fun h => ha (List.mem_cons_of_mem _ h))
        (Nat.le_of_succ_le_succ hn)]
      exact ⟨fun h => ⟨hxy, h⟩, fun h => h.2⟩
    · rw [if_neg hxy]
      exact ⟨fun h => absurd h (toNat_sub_ne_zero hxy), fun h => absurd h.1 hxy⟩

/-! ## Trailing slashes -/

theorem trimSlash_cons {c : UInt8} {cs : List UInt8} (h : cs ≠ []) :
    trimSlash (c :: cs) = c :: trimSlash cs := by
  unfold trimSlash
  rw [List.getLast?_cons, List.getLast?_eq_getLast_of_ne_nil h, Option.getD_some,
    List.dropLast_cons_of_ne_nil h]
  split <;> rfl

theorem trimSlash_append {a b : List UInt8} (h : b ≠ []) : trimSlash (a ++ b) = a ++ trimSlash b := by
  induction a with
  | nil => rfl
  | cons c a ih =>
    rw [List.cons_append, trimSlash_cons (by simp [h]), ih, List.cons_append]

/-- A name is its trimmed form, or that and a `/`. -/
theorem eq_of_trimSlash {s t : List UInt8} (h : trimSlash s = t) : s = t ∨ s = t ++ [slash] := by
  unfold trimSlash at h
  split at h
  next hl =>
    right
    have hne : s ≠ [] := fun h0 => by rw [h0] at hl; exact absurd hl (by simp)
    rw [List.getLast?_eq_getLast_of_ne_nil hne] at hl
    rw [← h, ← Option.some.inj hl, List.dropLast_append_getLast hne]
  next => exact Or.inl h

theorem trimSlash_of_not_mem {t : List UInt8} (h : slash ∉ t) : trimSlash t = t := by
  unfold trimSlash
  rw [if_neg fun hl => h (List.mem_of_getLast? hl)]

theorem trimSlash_append_slash (t : List UInt8) : trimSlash (t ++ [slash]) = t := by
  unfold trimSlash
  rw [if_pos (by simp), List.dropLast_concat]

theorem trimSlash_length_le (s : List UInt8) : (trimSlash s).length ≤ s.length := by
  unfold trimSlash
  split
  · rw [List.length_dropLast]
    omega
  · exact Nat.le_refl _

/-- The trimmed name as the code takes it, by its length. -/
theorem trimSlash_eq_take (s : List UInt8) :
    s.take (if s.length > 0 ∧ s.getLast? = some slash then s.length - 1 else s.length)
      = trimSlash s := by
  unfold trimSlash
  by_cases hl : s.getLast? = some slash
  · have hpos : s.length > 0 := by
      cases s with
      | nil => exact absurd hl (by simp)
      | cons c cs => simp
    rw [if_pos ⟨hpos, hl⟩, if_pos hl, List.dropLast_eq_take]
  · rw [if_neg fun h => hl h.2, if_neg hl, List.take_length]

theorem noInnerSlash_iff : ∀ (s : List UInt8), noInnerSlash s = true ↔ slash ∉ trimSlash s
  | [] => by simp [noInnerSlash, trimSlash]
  | [c] => by
    by_cases hc : c = slash
    · simp [noInnerSlash, trimSlash, hc]
    · simp [noInnerSlash, trimSlash, hc, Ne.symm hc]
  | c :: c' :: cs => by
    have ih := noInnerSlash_iff (c' :: cs)
    rw [trimSlash_cons (by simp), List.mem_cons, not_or]
    unfold noInnerSlash
    by_cases hc : c = slash
    · simp [hc]
    · rw [if_neg hc, ih]
      exact ⟨fun h => ⟨Ne.symm hc, h⟩, fun h => h.2⟩

/-! ## The two tests -/

theorem matchName_iff {rel s : List UInt8} (hrel : 0 ∉ rel) :
    matchName rel s = true ↔ trimSlash rel = s := by
  have hle : (if rel.length > 0 ∧ rel.getLast? = some slash then rel.length - 1 else rel.length)
      ≤ rel.length := by split <;> omega
  have htake := trimSlash_eq_take rel
  have hlen := congrArg List.length htake
  rw [List.length_take_of_le hle] at hlen
  unfold matchName
  dsimp only
  generalize (if rel.length > 0 ∧ rel.getLast? = some slash then rel.length - 1 else rel.length)
    = len1 at hle htake hlen ⊢
  by_cases heq : len1 = s.length
  · rw [if_neg (by simpa using heq), decide_eq_true_iff, strncmp_eq_zero hrel hle, htake]
    exact ⟨fun h => h.eq_of_length (by rw [← hlen, heq]), fun h => h ▸ List.prefix_rfl⟩
  · rw [if_pos heq]
    refine ⟨fun h => absurd h (by simp), fun h => absurd ?_ heq⟩
    rw [hlen, h]

theorem isDirectChild_iff {dir child : List UInt8} (hdir : 0 ∉ dir) :
    isDirectChild dir child = true ↔
      (dir = [slash] ∧ slash ∉ trimSlash child) ∨
      (dir ≠ [slash] ∧ dir <+: child ∧ slash ∉ trimSlash (child.drop dir.length)) := by
  have hcmp : strcmp dir [slash] = 0 ↔ dir = [slash] := strcmp_eq_zero hdir (by decide)
  have hncmp := strncmp_eq_zero (b := child) hdir (Nat.le_refl _)
  rw [List.take_length] at hncmp
  unfold isDirectChild
  by_cases hs : dir = [slash]
  · rw [if_pos (Or.inl (hcmp.mpr hs)), noInnerSlash_iff]
    exact ⟨fun h => Or.inl ⟨hs, h⟩, fun h => h.elim (fun h => h.2) fun h => absurd hs h.1⟩
  by_cases h0 : dir.length = 0
  · have hnil : dir = [] := List.length_eq_zero_iff.mp h0
    rw [if_pos (Or.inr h0), noInnerSlash_iff, hnil]
    simp
  rw [if_neg fun h => h.elim (fun h => hs (hcmp.mp h)) h0]
  by_cases hp : dir <+: child
  · rw [if_neg fun h => h (hncmp.mpr hp), noInnerSlash_iff]
    exact ⟨fun h => Or.inr ⟨hs, hp, h⟩, fun h => h.elim (fun h => absurd h.1 hs) fun h => h.2.2⟩
  · rw [if_pos fun h => hp (hncmp.mp h)]
    refine ⟨fun h => absurd h (by simp), fun h => ?_⟩
    exact h.elim (fun h => absurd h.1 hs) fun h => absurd h.2.1 hp

/-- A name that fits the entry's buffer is not cut. -/
theorem direntName_eq {rel : List UInt8} (h : rel.length < 128) : direntName rel = trimSlash rel := by
  have hle : (if rel.length > 0 ∧ rel.getLast? = some slash then rel.length - 1 else rel.length)
      ≤ rel.length := by split <;> omega
  unfold direntName
  dsimp only
  rw [if_neg (by omega), trimSlash_eq_take]

/-! ## The children of a directory -/

/-- The nodes that both scans stop at, with their indices. -/
def childrenOf (dirPrefix : List UInt8) (ns : List FsNode) (i : Nat) : List (FsNode × Nat) :=
  (ns.zipIdx i).filter fun p => decide (p.1.name ≠ dirPrefix) && isDirectChild dirPrefix p.1.name

section

variable {dirPrefix : List UInt8} (hpre : 0 ∉ dirPrefix)

include hpre

theorem readdirScan_eq (index : Nat) : ∀ {ns : List FsNode} {i count : Nat},
    (∀ n ∈ ns, 0 ∉ n.name) → count ≤ index →
    readdirScan dirPrefix index ns i count =
      (childrenOf dirPrefix ns i)[index - count]?.map fun p =>
        ⟨direntName (p.1.name.drop dirPrefix.length), p.2⟩ := by
  intro ns
  induction ns with
  | nil =>
    intro _ _ _ _
    rfl
  | cons n ns ih =>
    intro i count hns hc
    have hrest : ∀ n ∈ ns, 0 ∉ n.name := fun m hm => hns m (List.mem_cons_of_mem _ hm)
    have hcmp : strcmp n.name dirPrefix = 0 ↔ n.name = dirPrefix :=
      strcmp_eq_zero (hns n List.mem_cons_self) hpre
    unfold readdirScan childrenOf
    rw [List.zipIdx_cons]
    by_cases heq : n.name = dirPrefix
    · rw [if_pos (hcmp.mpr heq), List.filter_cons_of_neg (by simp [heq])]
      exact ih hrest hc
    rw [if_neg fun h => heq (hcmp.mp h)]
    by_cases hch : isDirectChild dirPrefix n.name = true
    · rw [if_pos hch, List.filter_cons_of_pos (by simp [heq, hch])]
      by_cases hci : count = index
      · rw [if_pos hci, hci, Nat.sub_self]
        rfl
      · have hsub : index - count = index - (count + 1) + 1 := by omega
        rw [if_neg hci, hsub, List.getElem?_cons_succ]
        exact ih hrest (by omega)
    · rw [if_neg hch, List.filter_cons_of_neg (by simp [hch])]
      exact ih hrest hc

theorem tarScan_eq (s : List UInt8) : ∀ {ns : List FsNode} {i : Nat}, (∀ n ∈ ns, 0 ∉ n.name) →
    tarScan dirPrefix s ns i =
      ((childrenOf dirPrefix ns i).find? fun p =>
        decide (trimSlash (p.1.name.drop dirPrefix.length) = s)).map fun p => .tar p.2 := by
  intro ns
  induction ns with
  | nil =>
    intro _ _
    rfl
  | cons n ns ih =>
    intro i hns
    have hrest : ∀ n ∈ ns, 0 ∉ n.name := fun m hm => hns m (List.mem_cons_of_mem _ hm)
    have hn := hns n List.mem_cons_self
    have hcmp : strcmp n.name dirPrefix = 0 ↔ n.name = dirPrefix := strcmp_eq_zero hn hpre
    have hmatch : matchName (n.name.drop dirPrefix.length) s = true ↔
        trimSlash (n.name.drop dirPrefix.length) = s :=
      matchName_iff fun h => hn (List.mem_of_mem_drop h)
    unfold tarScan childrenOf
    rw [List.zipIdx_cons]
    by_cases heq : n.name = dirPrefix
    · rw [if_pos (hcmp.mpr heq), List.filter_cons_of_neg (by simp [heq])]
      exact ih hrest
    rw [if_neg fun h => heq (hcmp.mp h)]
    by_cases hch : isDirectChild dirPrefix n.name = true
    · rw [List.filter_cons_of_pos (by simp [heq, hch])]
      by_cases hs : trimSlash (n.name.drop dirPrefix.length) = s
      · rw [if_pos ⟨hch, hmatch.mpr hs⟩, List.find?_cons_of_pos (by simp [hs])]
        rfl
      · rw [if_neg fun h => hs (hmatch.mp h.2), List.find?_cons_of_neg (by simp [hs])]
        exact ih hrest
    · rw [if_neg fun h => hch h.1, List.filter_cons_of_neg (by simp [hch])]
      exact ih hrest

end

/-- The indices along the children grow. -/
theorem childrenOf_pairwise (dirPrefix : List UInt8) (ns : List FsNode) (i : Nat) :
    (childrenOf dirPrefix ns i).Pairwise fun p q => p.2 < q.2 := by
  refine List.Pairwise.filter _ ?_
  rw [← List.pairwise_map (f := Prod.snd) (R := (· < ·)), List.zipIdx_map_snd]
  exact List.pairwise_lt_range'

theorem mem_childrenOf {dirPrefix : List UInt8} {ns : List FsNode} {p : FsNode × Nat} :
    p ∈ childrenOf dirPrefix ns 0 ↔
      ns[p.2]? = some p.1 ∧ p.1.name ≠ dirPrefix ∧ isDirectChild dirPrefix p.1.name = true := by
  unfold childrenOf
  rw [List.mem_filter, List.mem_zipIdx_iff_getElem?, Bool.and_eq_true, decide_eq_true_iff]

end MyOS
