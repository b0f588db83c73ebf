import MyOS.Vmm.Family
import MyOS.Vmm.Mmu

/-!
# Two machines that differ in hidden frames

`S` is a set of frames that no page table lies in and that the allocator does
not have to give. Two machines that differ in the frames of `S` only then
behave alike under a kernel access: the same pages are present, a fault takes
the same block and writes the same entries, and the byte is read at the same
physical address (`access_twin`). Neither run writes a frame of `S`
(`Untouched`), so what the frames of `S` hold can come out in one way only: it
is read.

`Hidden` is the invariant, kept by every access. A page that becomes present
on the way is never one of `S`, since its frame was free.
-/

namespace MyOS

open Lib Lib.Mem Lib.Paging

/-- The frames of `S` are neither free nor part of the two directories in
use. -/
structure Hidden (S : Nat → Prop) (k : Machine) : Prop where
  family : Family (InUse k.pmm) k.mem [k.currentPageDirectory, k.cr3]
  free : ∀ b, IsFree k.pmm b → ¬S b
  frames : ∀ b, FamilyFrame k.mem [k.currentPageDirectory, k.cr3] b → ¬S b

/-- From `k` to `k'` no frame of `S` changed, and no page of one appeared or
went. -/
structure Untouched (S : Nat → Prop) (k k' : Machine) : Prop where
  dir : k'.currentPageDirectory = k.currentPageDirectory
  cr3 : k'.cr3 = k.cr3
  secret : ∀ x, S (x / 4096) → k'.mem x = k.mem x
  look : ∀ w < 2 ^ 32, lookup k'.mem k.cr3 w = lookup k.mem k.cr3 w ∨
    (¬Present (lookup k.mem k.cr3 w) ∧ ¬S (lookup k'.mem k.cr3 w / 4096))

/-- The outcomes of two runs: both halt alike, or both return, and the
machines differ in frames of `S` at most. -/
inductive Twin (S : Nat → Prop) : Except Panic Machine → Except Panic Machine → Prop
  | halt (e : Panic) : Twin S (.error e) (.error e)
  | ret (k : Machine) (m : Mem) (h : AgreeOff S k.mem m) : Twin S (.ok k) (.ok { k with mem := m })

section

variable {S : Nat → Prop} {k k' : Machine} {m : Mem}

theorem Untouched.refl (S : Nat → Prop) (k : Machine) : Untouched S k k :=
  ⟨rfl, rfl, fun _ _ => rfl, fun _ _ => Or.inl rfl⟩

theorem Untouched.trans {k'' : Machine} (h : Untouched S k k') (h' : Untouched S k' k'') :
    Untouched S k k'' := by
  refine ⟨h'.dir.trans h.dir, h'.cr3.trans h.cr3,
    fun x hx => (h'.secret x hx).trans (h.secret x hx), fun w hw => ?_⟩
  have hstep := h'.look w hw
  rw [h.cr3] at hstep
  rcases hstep with hsame | ⟨habs, hnew⟩
  · rw [hsame]
    exact h.look w hw
  · rcases h.look w hw with hold | ⟨hold, -⟩
    · exact Or.inr ⟨hold ▸ habs, hnew⟩
    · exact Or.inr ⟨hold, hnew⟩

/-- The other machine has the same directories. -/
theorem Hidden.agree (h : Hidden S k) (hm : AgreeOff S k.mem m) : Hidden S { k with mem := m } := by
  have hframe : ∀ x, FamilyFrame k.mem [k.currentPageDirectory, k.cr3] (x / 4096) → m x = k.mem x :=
    fun x hx => hm x (h.frames _ hx)
  have hpde : ∀ d ∈ [k.currentPageDirectory, k.cr3], ∀ i < 1024, pde m d i = pde k.mem d i :=
    fun d hd i hi => h.family.pde_congr hframe hd hi
  exact ⟨h.family.of_pde hpde fun b hb => h.family.frame_used hb, h.free,
    fun b hb => h.frames b ((familyFrame_congr hpde).mp hb)⟩

theorem Hidden.lookup_agree (h : Hidden S k) (hm : AgreeOff S k.mem m) {a : Nat} (ha : a < 2 ^ 32) :
    lookup m k.cr3 a = lookup k.mem k.cr3 a :=
  h.family.lookup_congr (fun x hx => hm x (h.frames _ hx))
    (List.mem_cons_of_mem _ List.mem_cons_self) ha

/-- A block taken leaves the invariant. -/
theorem Hidden.taken (h : Hidden S k) {l : List Nat} {s' : Pmm} (ht : Taken k.pmm l s') :
    Hidden S { k with pmm := s' } :=
  ⟨h.family.mono fun _ hb => ht.inUse_iff.mpr (Or.inl hb), fun b hb => h.free b (ht.isFree hb).1,
    h.frames⟩

/-! ## A mapping -/

/-- The same entries are written in both. -/
theorem vmmMapPage_twin (h : Hidden S k) (hm : AgreeOff S k.mem m) {p v f : Nat} (hv : v < 2 ^ 32) :
    Twin S (vmmMapPage p v f k) (vmmMapPage p v f { k with mem := m }) := by
  have hpde : pde m k.currentPageDirectory (pdIndex v) = pde k.mem k.currentPageDirectory (pdIndex v) :=
    h.family.pde_congr (fun x hx => hm x (h.frames _ hx)) List.mem_cons_self (pdIndex_lt hv)
  unfold vmmMapPage
  simp only [hpde]
  by_cases hp : Present (pde k.mem k.currentPageDirectory (pdIndex v))
  · simp only [if_neg (not_not_intro hp)]
    exact Twin.ret { k with mem := _ } _ (hm.wr32 _ _)
  · simp only [if_pos hp]
    by_cases hnull : (pmmAllocBlock k.pmm).1 = 0
    · simp only [if_pos hnull]
      exact Twin.halt _
    · simp only [if_neg hnull]
      exact Twin.ret { k with pmm := _, mem := _ } _ (((hm.memset _ _ _).wr32 _ _).wr32 _ _)

/-- A page that was absent gets a frame outside `S`. -/
theorem Hidden.mapped (h : Hidden S k) {a e : Nat} {ts : List Nat} (ha : a < 2 ^ 32)
    (habs : ¬Present (lookup k.mem k.cr3 a)) (he : ¬S (e / 4096))
    (hm : Mapped k.currentPageDirectory a e ts k k') : Hidden S k' ∧ Untouched S k k' := by
  have hdir : k'.currentPageDirectory = k.currentPageDirectory := by
    have := congrArg Machine.currentPageDirectory hm.regs
    exact this
  have hcr3 : k'.cr3 = k.cr3 := by
    have := congrArg Machine.cr3 hm.regs
    exact this
  have hmem : k.cr3 ∈ [k.currentPageDirectory, k.cr3] := List.mem_cons_of_mem _ List.mem_cons_self
  have hfam := h.family.mapped List.mem_cons_self ha hm
  refine ⟨⟨?_, fun b hb => h.free b (hm.taken.isFree hb).1, fun b hb => ?_⟩, hdir, hcr3,
    fun x hx => ?_, fun w hw => ?_⟩
  · rw [hdir, hcr3]
    exact hfam
  · rw [hdir, hcr3] at hb
    rcases h.family.frame_mapped List.mem_cons_self ha hm hb with hold | hfree
    · exact h.frames b hold
    · exact h.free b hfree
  · refine hm.frame x (fun ht => ?_) (fun heq => ?_) (fun heq => ?_)
    · exact h.free _ (hm.taken.mem_isFree ht) hx
    · exact h.frames _ ⟨_, List.mem_cons_self, Or.inl heq⟩ hx
    · rcases hm.slot_table ha with ⟨hp, hsame⟩ | hfree
      · rw [hsame] at heq
        exact h.frames _ ⟨_, List.mem_cons_self, Or.inr ⟨_, pdIndex_lt ha, hp, heq.symm⟩⟩ hx
      · exact h.free _ hfree (heq ▸ hx)
  · rcases h.family.lookup_mapped List.mem_cons_self ha hm hmem hw with hsame | ⟨hpage, hnew, -⟩
    · exact Or.inl hsame
    · right
      rw [hnew, lookup_page hpage]
      exact ⟨habs, he⟩

/-! ## A page fault -/

theorem pageFaultHandler_twin (err : Nat) (h : Hidden S k) (hm : AgreeOff S k.mem m) {a : Nat}
    (ha : a < 2 ^ 32) :
    Twin S (pageFaultHandler a err k) (pageFaultHandler a err { k with mem := m }) := by
  unfold pageFaultHandler
  by_cases hcond : err &&& 0x1 = 0 ∧ 0x1000 ≤ a ∧ ¬(err &&& 0x4 = 0 ∧ 0xC0000000 ≤ a)
  · simp only [if_pos hcond]
    by_cases hnull : (pmmAllocBlock k.pmm).1 = 0
    · simp only [if_pos hnull]
      exact Twin.halt _
    · simp only [if_neg hnull]
      obtain ⟨b, -, -, -, ht⟩ := pmmAllocBlock_taken hnull
      rw [and_mask ha]
      exact vmmMapPage_twin (k := { k with pmm := (pmmAllocBlock k.pmm).2 }) (h.taken ht) hm (by omega)
  · simp only [if_neg hcond]
    exact Twin.halt _

/-- A resolved fault keeps the invariant. -/
theorem Hidden.fault (h : Hidden S k) {a err : Nat} (ha : a < 2 ^ 32)
    (habs : ¬Present (lookup k.mem k.cr3 a)) (hrun : pageFaultHandler a err k = .ok k') :
    Hidden S k' ∧ Untouched S k k' := by
  unfold pageFaultHandler at hrun
  split at hrun
  next =>
    by_cases hnull : (pmmAllocBlock k.pmm).1 = 0
    · simp only [if_pos hnull] at hrun
      exact absurd hrun (by simp)
    · simp only [if_neg hnull] at hrun
      obtain ⟨b, -, hfree, haddr, ht⟩ := pmmAllocBlock_taken hnull
      have h₁ := h.taken ht
      have hpage : a / 4096 * 4096 / 4096 = a / 4096 := by omega
      have hlt : b * 4096 ||| (flagPresent ||| flagWrite ||| flagUser) = b * 4096 + 7 :=
        or_flags (by omega) (by decide)
      rw [haddr, and_mask ha] at hrun
      have hblt := hfree.lt
      rcases vmmMapPage_cases (k := { k with pmm := (pmmAllocBlock k.pmm).2 })
        (v := a / 4096 * 4096) (p := b * 4096) (f := flagPresent ||| flagWrite ||| flagUser)
        (h₁.family.sep List.mem_cons_self) (by omega) (by rw [hlt]; omega) with
        ⟨ts, k'', hok, hm⟩ | ⟨-, -, herr⟩
      · rw [hok] at hrun
        cases hrun
        rw [hlt] at hm
        obtain ⟨hh, hu⟩ := h₁.mapped (by omega) (by rw [lookup_page hpage]; exact habs)
          (by rw [frame_entry]; exact h.free b hfree) hm
        exact ⟨hh, hu.dir, hu.cr3, hu.secret, hu.look⟩
      · rw [herr] at hrun
        exact absurd hrun (by simp)
  next => exact absurd hrun (by simp)

/-! ## An access -/

/-- What the two runs of an access have in common: they halt alike, or they
reach the byte at one physical address. -/
theorem access_twin (h : Hidden S k) (hm : AgreeOff S k.mem m) {a : Nat} (ha : a < 2 ^ 32)
    (write : Bool) :
    (∃ e, access write a k = .error e ∧ access write a { k with mem := m } = .error e) ∨
    ∃ p k' m', access write a k = .ok (p, k') ∧
      access write a { k with mem := m } = .ok (p, { k' with mem := m' }) ∧
      Hidden S k' ∧ AgreeOff S k'.mem m' ∧ Untouched S k k' ∧
      Untouched S { k with mem := m } { k' with mem := m' } ∧
      Present (lookup k'.mem k.cr3 a) ∧ p = lookup k'.mem k.cr3 a / 4096 * 4096 + a % 4096 := by
  have hlook := h.lookup_agree hm ha
  have htr : translate m k.cr3 a = translate k.mem k.cr3 a := translate_congr hlook
  unfold access
  show (∃ e, accessAt write a k (translate k.mem k.cr3 a) = .error e ∧
    accessAt write a _ (translate m k.cr3 a) = .error e) ∨ ∃ p k' m',
    accessAt write a k (translate k.mem k.cr3 a) = .ok (p, k') ∧
    accessAt write a _ (translate m k.cr3 a) = .ok (p, { k' with mem := m' }) ∧ _
  rw [htr]
  cases hcase : translate k.mem k.cr3 a with
  | some p =>
    obtain ⟨hp, heq⟩ := translate_some hcase
    exact Or.inr ⟨p, k, m, rfl, rfl, h, hm, Untouched.refl S k, Untouched.refl S _, hp, heq⟩
  | none =>
    -- both fault, and both handlers do the same
    have habs : ¬Present (lookup k.mem k.cr3 a) := fun hp => by
      rw [translate_of_present hp] at hcase
      exact absurd hcase (by simp)
    have htwin := pageFaultHandler_twin (if write then 0x2 else 0) h hm ha
    unfold accessAt
    generalize hrun : pageFaultHandler a (if write then 0x2 else 0) k = r at htwin
    generalize hrun' : pageFaultHandler a (if write then 0x2 else 0) { k with mem := m } = r' at htwin
    cases htwin with
    | halt e => exact Or.inl ⟨e, rfl, rfl⟩
    | ret k' m' hm' =>
      obtain ⟨hh, hu⟩ := h.fault ha habs hrun
      obtain ⟨-, hu'⟩ := (h.agree hm).fault ha (by
        show ¬Present (lookup m k.cr3 a)
        rw [hlook]
        exact habs) hrun'
      rw [ok_bind, ok_bind]
      have hlook' := hh.lookup_agree hm' ha
      have htr' : translate m' k'.cr3 a = translate k'.mem k'.cr3 a := translate_congr hlook'
      show (∃ e, retry k' (translate k'.mem k'.cr3 a) = .error e ∧
        retry _ (translate m' k'.cr3 a) = .error e) ∨ ∃ p k'' m'',
        retry k' (translate k'.mem k'.cr3 a) = .ok (p, k'') ∧
        retry _ (translate m' k'.cr3 a) = .ok (p, { k'' with mem := m'' }) ∧ _
      rw [htr']
      cases hcase' : translate k'.mem k'.cr3 a with
      | some p =>
        obtain ⟨hp, heq⟩ := translate_some hcase'
        rw [hu.cr3] at hp heq
        exact Or.inr ⟨p, k', m', rfl, rfl, hh, hm', hu, hu', hp, heq⟩
      | none => exact Or.inl ⟨_, rfl, rfl⟩

end

end MyOS
