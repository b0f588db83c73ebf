import MyOS.Vmm.Refine

/-!
# Several directories over one memory

Address spaces share page tables: a new directory starts as a copy of
another, and both then name the same tables. `Family U m dirs` is what is
needed to reason about all of them at once: directories and tables are blocks
in `U`, no table is a directory, and a table that two directories name stands
at the same slot in both.

A mapping under one of the directories keeps this (`Family.mapped`). It
changes no entry of another directory (`Family.pde_mapped`), and a lookup of
another directory only at the page mapped, if the two looked it up in one
table (`Family.lookup_mapped`). A write outside all their frames changes
nothing (`Family.congr`), and a copy into a fresh block joins the family
(`Family.copy`).
-/

namespace MyOS

open Lib Lib.Mem Lib.Paging

structure Family (U : Nat → Prop) (m : Mem) (dirs : List Nat) : Prop where
  backed : ∀ d ∈ dirs, Backed U m d
  apart : ∀ d ∈ dirs, ∀ i < 1024, Present (pde m d i) → ∀ d' ∈ dirs, pde m d i / 4096 ≠ d' / 4096
  shared : ∀ d ∈ dirs, ∀ i < 1024, Present (pde m d i) →
    ∀ d' ∈ dirs, ∀ j < 1024, Present (pde m d' j) →
    pde m d i / 4096 = pde m d' j / 4096 → i = j

/-- Two directories have one table at slot `i`. -/
def SharesTable (m : Mem) (d d' i : Nat) : Prop :=
  Present (pde m d i) ∧ Present (pde m d' i) ∧ pde m d i / 4096 = pde m d' i / 4096

instance (m : Mem) (d d' i : Nat) : Decidable (SharesTable m d d' i) :=
  inferInstanceAs (Decidable (_ ∧ _))

/-- A frame of one of the directories. -/
def FamilyFrame (m : Mem) (dirs : List Nat) (b : Nat) : Prop := ∃ d ∈ dirs, Frames m d b

section

variable {U V : Nat → Prop} {m m' : Mem} {dirs : List Nat}

theorem Family.sep (h : Family U m dirs) {d : Nat} (hd : d ∈ dirs) : Sep U m d :=
  ⟨h.backed d hd, fun i hi hp => h.apart d hd i hi hp d hd,
    fun i hi j hj hp hq heq => h.shared d hd i hi hp d hd j hj hq heq⟩

/-- One directory. -/
theorem family_singleton {d : Nat} (h : Sep U m d) : Family U m [d] := by
  refine ⟨fun d' hd' => ?_, fun d' hd' i hi hp d'' hd'' => ?_,
    fun d' hd' i hi hp d'' hd'' j hj hq => ?_⟩
  · rw [List.mem_singleton.mp hd']
    exact h.toBacked
  · rw [List.mem_singleton.mp hd'] at hp ⊢
    rw [List.mem_singleton.mp hd'']
    exact h.table_ne i hi hp
  · rw [List.mem_singleton.mp hd'] at hp ⊢
    rw [List.mem_singleton.mp hd''] at hq ⊢
    exact h.table_inj i hi j hj hp hq

/-- Two directories lie in different blocks. -/
theorem Family.dir_ne (h : Family U m dirs) {d d' : Nat} (hd : d ∈ dirs) (hd' : d' ∈ dirs)
    (hne : d' ≠ d) : d' / 4096 ≠ d / 4096 := by
  have hal := (h.backed d hd).aligned
  have hal' := (h.backed d' hd').aligned
  omega

theorem Family.frame_used (h : Family U m dirs) {b : Nat} (hb : FamilyFrame m dirs b) : U b := by
  obtain ⟨d, hd, hf⟩ := hb
  exact (h.backed d hd).frames hf

theorem Family.mono (h : Family U m dirs) (hUV : ∀ b, U b → V b) : Family V m dirs :=
  ⟨fun d hd => (h.backed d hd).mono hUV, h.apart, h.shared⟩

theorem Family.subset (h : Family U m dirs) {dirs' : List Nat} (hs : ∀ d ∈ dirs', d ∈ dirs) :
    Family U m dirs' :=
  ⟨fun d hd => h.backed d (hs d hd), fun d hd i hi hp d' hd' => h.apart d (hs d hd) i hi hp d' (hs d' hd'),
    fun d hd i hi hp d' hd' j hj hq heq =>
      h.shared d (hs d hd) i hi hp d' (hs d' hd') j hj hq heq⟩

/-- The directories read the same in a memory that agrees on their frames. -/
theorem Family.pde_congr (h : Family U m dirs)
    (hm : ∀ x, FamilyFrame m dirs (x / 4096) → m' x = m x) {d i : Nat} (hd : d ∈ dirs)
    (hi : i < 1024) : pde m' d i = pde m d i :=
  Paging.pde_congr (h.backed d hd).aligned (fun x hx => hm x ⟨d, hd, Or.inl hx⟩) hi

theorem Family.lookup_congr (h : Family U m dirs)
    (hm : ∀ x, FamilyFrame m dirs (x / 4096) → m' x = m x) {d w : Nat} (hd : d ∈ dirs)
    (hw : w < 2 ^ 32) : lookup m' d w = lookup m d w :=
  lookup_congr_of_pde (fun _ hi => h.pde_congr hm hd hi) hw fun hp x hx =>
    hm x ⟨d, hd, Or.inr ⟨pdIndex w, pdIndex_lt hw, hp, hx.symm⟩⟩

/-- A family with the same entries, its blocks still in use. -/
theorem Family.of_pde (h : Family U m dirs) (hd : ∀ d ∈ dirs, ∀ i < 1024, pde m' d i = pde m d i)
    (hU : ∀ b, FamilyFrame m dirs b → V b) : Family V m' dirs := by
  refine ⟨fun d hdm => ⟨(h.backed d hdm).aligned, hU _ ⟨d, hdm, Or.inl rfl⟩, fun i hi hp => ?_⟩,
    fun d hdm i hi hp d' hd' => ?_, fun d hdm i hi hp d' hd' j hj hq heq => ?_⟩
  · rw [hd d hdm i hi] at hp ⊢
    exact hU _ ⟨d, hdm, Or.inr ⟨i, hi, hp, rfl⟩⟩
  · rw [hd d hdm i hi] at hp ⊢
    exact h.apart d hdm i hi hp d' hd'
  · rw [hd d hdm i hi] at hp heq
    rw [hd d' hd' j hj] at hq heq
    exact h.shared d hdm i hi hp d' hd' j hj hq heq

theorem Family.congr (h : Family U m dirs) (hm : ∀ x, FamilyFrame m dirs (x / 4096) → m' x = m x)
    (hU : ∀ b, FamilyFrame m dirs b → V b) : Family V m' dirs :=
  h.of_pde (fun _ hd _ hi => h.pde_congr hm hd hi) hU

/-- A page is looked up alike in a shared table. -/
theorem SharesTable.lookup_eq {d d' a w : Nat} (h : SharesTable m d d' (pdIndex a))
    (hw : w / 4096 = a / 4096) : lookup m d w = lookup m d' w := by
  rw [← (page_eq_iff.mp hw).1] at h
  exact lookup_of_same_table h.1 h.2.1 h.2.2

/-- The frames of the directories, in a memory with the same entries. -/
theorem familyFrame_congr (hd : ∀ d ∈ dirs, ∀ i < 1024, pde m' d i = pde m d i) {b : Nat} :
    FamilyFrame m' dirs b ↔ FamilyFrame m dirs b := by
  refine exists_congr fun d => and_congr_right fun hdm => or_congr_right ?_
  refine exists_congr fun i => and_congr_right fun hi => ?_
  rw [hd d hdm i hi]

end

/-! ## A mapping under one of the directories -/

section Map

variable {dirs : List Nat} {d a e : Nat} {ts : List Nat} {k k' : Machine}

/-- The other directories keep their entries. -/
theorem Family.pde_mapped (h : Family (InUse k.pmm) k.mem dirs) (hd : d ∈ dirs) (ha : a < 2 ^ 32)
    (hm : Mapped d a e ts k k') {d' i : Nat} (hd' : d' ∈ dirs) (hne : d' ≠ d) (hi : i < 1024) :
    pde k'.mem d' i = pde k.mem d' i := by
  have hb := h.backed d' hd'
  refine Paging.pde_congr hb.aligned (fun x hx => hm.frame x (fun ht => ?_) ?_ ?_) hi
  · rw [hx] at ht
    exact (hm.taken.mem_isFree ht).not_inUse hb.dir_used
  · rw [hx]
    exact h.dir_ne hd hd' hne
  · rw [hx]
    rcases hm.slot_table ha with ⟨hp, heq⟩ | hfree
    · rw [heq]
      exact (h.apart d hd _ (pdIndex_lt ha) hp d' hd').symm
    · exact fun heq => hfree.not_inUse (heq ▸ hb.dir_used)

/-- A present entry stays, in every directory. -/
theorem Family.pde_present (h : Family (InUse k.pmm) k.mem dirs) (hd : d ∈ dirs) (ha : a < 2 ^ 32)
    (hm : Mapped d a e ts k k') {d' i : Nat} (hd' : d' ∈ dirs) (hi : i < 1024)
    (hp : Present (pde k.mem d' i)) : pde k'.mem d' i = pde k.mem d' i := by
  by_cases hne : d' = d
  · rw [hne] at hp ⊢
    exact hm.keep i hi (Or.inr hp)
  · exact h.pde_mapped hd ha hm hd' hne hi

/-- The lookups of every directory change at that page only, and there to the
new entry; a directory that sees it has the same table. -/
theorem Family.lookup_mapped (h : Family (InUse k.pmm) k.mem dirs) (hd : d ∈ dirs) (ha : a < 2 ^ 32)
    (hm : Mapped d a e ts k k') {d' w : Nat} (hd' : d' ∈ dirs) (hw : w < 2 ^ 32) :
    lookup k'.mem d' w = lookup k.mem d' w ∨
    (w / 4096 = a / 4096 ∧ lookup k'.mem d' w = e ∧
      (d' = d ∨ SharesTable k.mem d' d (pdIndex a))) := by
  have hself : lookup k'.mem d w = lookup k.mem d w ∨
      (w / 4096 = a / 4096 ∧ lookup k'.mem d w = e) := by
    by_cases hpage : w / 4096 = a / 4096
    · exact Or.inr ⟨hpage, by rw [hm.lookup_eq w hw, if_pos hpage]⟩
    · exact Or.inl (by rw [hm.lookup_eq w hw, if_neg hpage])
  by_cases hne : d' = d
  · rw [hne]
    exact hself.imp id fun hs => ⟨hs.1, hs.2, Or.inl rfl⟩
  have hslot := pdIndex_lt hw
  have hpde := h.pde_mapped hd ha hm hd' hne hslot
  by_cases hp : Present (pde k.mem d' (pdIndex w))
  · have hused := (h.backed d' hd').table_used _ hslot hp
    by_cases hsame : pde k.mem d' (pdIndex w) / 4096 = pde k'.mem d (pdIndex a) / 4096
    · -- the table written is one the two directories share, at one slot
      rcases hm.slot_table ha with ⟨hq, heq⟩ | hfree
      · rw [heq] at hsame
        have hi := h.shared d' hd' _ hslot hp d hd _ (pdIndex_lt ha) hq hsame
        have hshare : SharesTable k.mem d' d (pdIndex a) :=
          ⟨by rw [← hi]; exact hp, hq, by rw [← hi]; exact hi ▸ hsame⟩
        rw [← hi] at hq hsame heq
        have hnow : lookup k'.mem d' w = lookup k'.mem d w := lookup_of_same_table
          (by rw [hpde]; exact hp) (by rw [heq]; exact hq) (by rw [hpde, heq]; exact hsame)
        rw [lookup_of_same_table hp hq hsame, hnow]
        exact hself.imp id fun hs => ⟨hs.1, hs.2, Or.inr hshare⟩
      · exact absurd hused (hsame ▸ hfree.not_inUse)
    · left
      rw [lookup_present (by rw [hpde]; exact hp), hpde, lookup_present hp]
      refine rd32_entry_congr (pde_lt _ _ _) (fun x hx => hm.frame x (fun ht => ?_) ?_ ?_) (ptIndex_lt w)
      · rw [hx] at ht
        exact (hm.taken.mem_isFree ht).not_inUse hused
      · rw [hx]
        exact h.apart d' hd' _ hslot hp d hd
      · rw [hx]
        exact hsame
  · left
    rw [lookup_absent (by rw [hpde]; exact hp), lookup_absent hp]

/-- The page as a directory with the same table sees it. -/
theorem Family.lookup_shared (h : Family (InUse k.pmm) k.mem dirs) (hd : d ∈ dirs) (ha : a < 2 ^ 32)
    (hm : Mapped d a e ts k k') {d' : Nat} (hd' : d' ∈ dirs)
    (hs : SharesTable k.mem d' d (pdIndex a)) : lookup k'.mem d' a = e := by
  obtain ⟨hp', hp, hsame⟩ := hs
  have hslot := pdIndex_lt ha
  have heq := h.pde_present hd ha hm hd hslot hp
  have heq' := h.pde_present hd ha hm hd' hslot hp'
  have hnow : lookup k'.mem d' a = lookup k'.mem d a := lookup_of_same_table
    (by rw [heq']; exact hp') (by rw [heq]; exact hp) (by rw [heq', heq, hsame])
  rw [hnow, hm.lookup_eq a ha, if_pos rfl]

/-- Every table is an old one at the same slot, or a new one of `d`. -/
theorem Family.table_mapped (h : Family (InUse k.pmm) k.mem dirs) (hd : d ∈ dirs) (ha : a < 2 ^ 32)
    (hm : Mapped d a e ts k k') {d' i : Nat} (hd' : d' ∈ dirs) (hi : i < 1024)
    (hp : Present (pde k'.mem d' i)) :
    (Present (pde k.mem d' i) ∧ pde k'.mem d' i = pde k.mem d' i) ∨
    (d' = d ∧ IsFree k.pmm (pde k'.mem d' i / 4096)) := by
  by_cases hne : d' = d
  · subst hne
    rcases hm.slot_cases hi hp with hold | ⟨-, -, t, ht, heq⟩
    · exact Or.inl hold
    · rw [heq, frame_entry]
      exact Or.inr ⟨rfl, hm.taken.mem_isFree ht⟩
  · have heq := h.pde_mapped hd ha hm hd' hne hi
    exact Or.inl ⟨heq ▸ hp, heq⟩

/-- A frame after the mapping was one before, or was free. -/
theorem Family.frame_mapped (h : Family (InUse k.pmm) k.mem dirs) (hd : d ∈ dirs) (ha : a < 2 ^ 32)
    (hm : Mapped d a e ts k k') {b : Nat} (hb : FamilyFrame k'.mem dirs b) :
    FamilyFrame k.mem dirs b ∨ IsFree k.pmm b := by
  obtain ⟨d', hd', rfl | ⟨i, hi, hp, rfl⟩⟩ := hb
  · exact Or.inl ⟨d', hd', Or.inl rfl⟩
  · rcases h.table_mapped hd ha hm hd' hi hp with ⟨hold, heq⟩ | ⟨-, hfree⟩
    · rw [heq]
      exact Or.inl ⟨d', hd', Or.inr ⟨i, hi, hold, rfl⟩⟩
    · exact Or.inr hfree

theorem Family.mapped (h : Family (InUse k.pmm) k.mem dirs) (hd : d ∈ dirs) (ha : a < 2 ^ 32)
    (hm : Mapped d a e ts k k') : Family (InUse k'.pmm) k'.mem dirs := by
  have hup : ∀ {b}, InUse k.pmm b → InUse k'.pmm b := fun hb => hm.taken.inUse_iff.mpr (Or.inl hb)
  have htab : ∀ {d' i}, d' ∈ dirs → i < 1024 → Present (pde k'.mem d' i) →
      (Present (pde k.mem d' i) ∧ pde k'.mem d' i = pde k.mem d' i) ∨
      (d' = d ∧ IsFree k.pmm (pde k'.mem d' i / 4096)) :=
    fun hd' hi hp => h.table_mapped hd ha hm hd' hi hp
  refine ⟨fun d' hd' => ?_, fun d' hd' i hi hp d'' hd'' => ?_,
    fun d' hd' i hi hp d'' hd'' j hj hq heq => ?_⟩
  · have hb := h.backed d' hd'
    refine ⟨hb.aligned, hup hb.dir_used, fun i hi hp => ?_⟩
    rcases htab hd' hi hp with ⟨hold, heq⟩ | ⟨rfl, -⟩
    · rw [heq]
      exact hup (hb.table_used i hi hold)
    · exact hm.sep.table_used i hi hp
  · rcases htab hd' hi hp with ⟨hold, heq⟩ | ⟨-, hfree⟩
    · rw [heq]
      exact h.apart d' hd' i hi hold d'' hd''
    · exact fun heq => hfree.not_inUse (heq ▸ (h.backed d'' hd'').dir_used)
  · rcases htab hd' hi hp, htab hd'' hj hq with
      ⟨⟨hold, hpd⟩ | ⟨hdd, hfree⟩, ⟨hold', hqd⟩ | ⟨hdd', hfree'⟩⟩
    · rw [hpd, hqd] at heq
      exact h.shared d' hd' i hi hold d'' hd'' j hj hold' heq
    · rw [← heq, hpd] at hfree'
      exact absurd ((h.backed d' hd').table_used i hi hold) hfree'.not_inUse
    · rw [heq, hqd] at hfree
      exact absurd ((h.backed d'' hd'').table_used j hj hold') hfree.not_inUse
    · rw [hdd] at hp heq
      rw [hdd'] at hq heq
      exact hm.sep.table_inj i hi j hj hp hq heq

end Map

/-! ## A new directory -/

section Copy

variable {U V : Nat → Prop} {m : Mem} {dirs : List Nat} {d P : Nat}

theorem pde_memcpy_self {i : Nat} (hi : i < 1024) :
    pde (m.memcpy (P * 4096) d 4096) (P * 4096) i = pde m d i :=
  rd32_memcpy m (by omega)

/-- The copy changes nothing outside its block. -/
theorem memcpy_of_block_ne {x : Nat} (hx : x / 4096 ≠ P) : m.memcpy (P * 4096) d 4096 x = m x :=
  memcpy_of_outside m (by omega)

/-- A copy of one of the directories into a fresh block. -/
theorem Family.copy (h : Family U m dirs) (hd : d ∈ dirs) (hP : ¬U P) (hUV : ∀ b, U b → V b)
    (hVP : V P) : Family V (m.memcpy (P * 4096) d 4096) (P * 4096 :: dirs) := by
  have hPb : P * 4096 / 4096 = P := Nat.mul_div_cancel _ (by omega)
  have hagree : ∀ x, FamilyFrame m dirs (x / 4096) → m.memcpy (P * 4096) d 4096 x = m x :=
    fun x hx => memcpy_of_block_ne fun heq => hP (heq ▸ h.frame_used hx)
  have hold := fun {d' i} hd' hi => h.pde_congr hagree (d := d') (i := i) hd' hi
  -- every entry is one of an old directory, at the same slot
  have hentry : ∀ d' ∈ P * 4096 :: dirs, ∀ i < 1024, ∃ d₀ ∈ dirs,
      pde (m.memcpy (P * 4096) d 4096) d' i = pde m d₀ i := by
    intro d' hd' i hi
    rcases List.mem_cons.mp hd' with rfl | hd'
    · exact ⟨d, hd, pde_memcpy_self hi⟩
    · exact ⟨d', hd', hold hd' hi⟩
  refine ⟨fun d' hd' => ⟨?_, ?_, fun i hi hp => ?_⟩, fun d' hd' i hi hp d'' hd'' => ?_,
    fun d' hd' i hi hp d'' hd'' j hj hq heq => ?_⟩
  · rcases List.mem_cons.mp hd' with rfl | hd'
    · omega
    · exact (h.backed d' hd').aligned
  · rcases List.mem_cons.mp hd' with rfl | hd'
    · rw [hPb]
      exact hVP
    · exact hUV _ (h.backed d' hd').dir_used
  · obtain ⟨d₀, hd₀, heq⟩ := hentry d' hd' i hi
    rw [heq] at hp ⊢
    exact hUV _ ((h.backed d₀ hd₀).table_used i hi hp)
  · obtain ⟨d₀, hd₀, heq⟩ := hentry d' hd' i hi
    rw [heq] at hp ⊢
    rcases List.mem_cons.mp hd'' with rfl | hd''
    · rw [hPb]
      exact fun hbad => hP (hbad ▸ (h.backed d₀ hd₀).table_used i hi hp)
    · exact h.apart d₀ hd₀ i hi hp d'' hd''
  · obtain ⟨d₀, hd₀, hpd⟩ := hentry d' hd' i hi
    obtain ⟨d₁, hd₁, hqd⟩ := hentry d'' hd'' j hj
    rw [hpd] at hp heq
    rw [hqd] at hq heq
    exact h.shared d₀ hd₀ i hi hp d₁ hd₁ j hj hq heq

/-- The copy looks up what the original did. -/
theorem Family.lookup_copy (h : Family U m dirs) (hd : d ∈ dirs) (hP : ¬U P) {w : Nat}
    (hw : w < 2 ^ 32) : lookup (m.memcpy (P * 4096) d 4096) (P * 4096) w = lookup m d w := by
  have hpde := pde_memcpy_self (m := m) (d := d) (P := P) (pdIndex_lt hw)
  unfold lookup
  rw [hpde]
  split
  next hp =>
    refine rd32_entry_congr (pde_lt _ _ _) (fun x hx => memcpy_of_block_ne fun heq => hP ?_)
      (ptIndex_lt w)
    rw [← heq, hx]
    exact (h.backed d hd).table_used _ (pdIndex_lt hw) hp
  next => rfl

end Copy

end MyOS
