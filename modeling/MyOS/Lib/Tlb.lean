import MyOS.Lib.Paging
import Mathlib.Logic.Function.Basic

/-!
# Cached translations

The CPU does not walk the page tables at every access. It keeps, for some
pages, the two entries of an earlier walk, and for some slots the directory
entry alone; a walk may start from a cached directory entry. It caches what
is present only, at any moment and for any address, and forgets entries as it
likes (`TlbEvent`). Software removes entries with `invlpg` or by loading CR3.

`CoherentOff S t m dir` says that what `t` holds is what the tables in `m`
say, except possibly for the pages of `S`. The CPU's own events keep it
(`CoherentOff.run`); a change of the tables keeps it, if it alters no present
directory entry and no present entry of a page outside `S`
(`CoherentOff.change`); and `invlpg` of the one page in `S` makes the cache
coherent again (`CoherentOff.invlpg`). A coherent cache cannot be told from
the tables (`CoherentOff.entries_eq`).
-/

namespace MyOS.Lib

open Mem Paging

/-- The directory entry and the table entry of the page of `w`. -/
def entries (m : Mem) (dir w : Nat) : Nat × Nat := (pde m dir (pdIndex w), lookup m dir w)

/-- The write bit of an entry. -/
def Writable (e : Nat) : Prop := e &&& 2 ≠ 0

instance (e : Nat) : Decidable (Writable e) := inferInstanceAs (Decidable (_ ≠ _))

/-- What two entries allow. With CR0.WP clear the bits bind Ring 3 only. -/
def Allows (user write : Bool) (e : Nat × Nat) : Prop :=
  user = true → User e.1 ∧ User e.2 ∧ (write = true → Writable e.1 ∧ Writable e.2)

instance (user write : Bool) (e : Nat × Nat) : Decidable (Allows user write e) :=
  inferInstanceAs (Decidable (_ → _))

/-- The physical address of an access to `w` through two entries, or the error
code of the fault. -/
def permit (user write : Bool) (w : Nat) (e : Nat × Nat) : Except Nat Nat :=
  let code := (if write then 2 else 0) + (if user then 4 else 0)
  if ¬Present e.2 then .error code
  else if Allows user write e then .ok (base e.2 + w % 4096)
  else .error (code + 1)

/-- An access that goes through: the entry has the present bit. -/
theorem permit_ok {user write : Bool} {w p : Nat} {e : Nat × Nat}
    (h : permit user write w e = .ok p) : Present e.2 ∧ p = base e.2 + w % 4096 := by
  unfold permit at h
  by_cases hp : Present e.2
  · rw [if_neg (not_not_intro hp)] at h
    by_cases hal : Allows user write e
    · rw [if_pos hal] at h
      cases h
      exact ⟨hp, rfl⟩
    · rw [if_neg hal] at h
      exact absurd h (by simp)
  · rw [if_pos hp] at h
    exact absurd h (by simp)

/-- A fault with bit 0 of the code clear: the entry is absent. -/
theorem permit_error {user write : Bool} {w err : Nat} {e : Nat × Nat}
    (h : permit user write w e = .error err) (herr : err &&& 0x1 = 0) : ¬Present e.2 := by
  intro hp
  unfold permit at h
  rw [if_neg (not_not_intro hp)] at h
  by_cases hal : Allows user write e
  · rw [if_pos hal] at h
    exact absurd h (by simp)
  · rw [if_neg hal] at h
    cases h
    cases user <;> cases write <;> exact absurd herr (by decide)

structure Tlb where
  pages : Nat → Option (Nat × Nat)
  slots : Nat → Option Nat

/-- What the CPU does to its cache by itself: it walks the tables for an
address, or for the slot of one, and it drops entries. -/
inductive TlbEvent where
  | page (w : Nat)
  | slot (i : Nat)
  | dropPage (n : Nat)
  | dropSlot (i : Nat)
  deriving DecidableEq, Repr

/-- The addresses are 32-bit ones, the slots slots of a directory. -/
def TlbEvent.InRange : TlbEvent → Prop
  | .page w => w < 2 ^ 32
  | .slot i => i < 1024
  | .dropPage _ => True
  | .dropSlot _ => True

namespace Tlb

/-- Nothing is cached. Loading CR3 leaves this. -/
def empty : Tlb := ⟨fun _ => none, fun _ => none⟩

def slot (t : Tlb) (m : Mem) (dir i : Nat) : Nat := (t.slots i).getD (pde m dir i)

/-- A walk, from the cached directory entry if there is one. -/
def walk (t : Tlb) (m : Mem) (dir w : Nat) : Nat × Nat :=
  let e := t.slot m dir (pdIndex w)
  (e, if Present e then rd32 m (base e + 4 * ptIndex w) else 0)

/-- The entries an access to `w` uses. -/
def entries (t : Tlb) (m : Mem) (dir w : Nat) : Nat × Nat :=
  (t.pages (w / 4096)).getD (t.walk m dir w)

def step (m : Mem) (dir : Nat) (t : Tlb) : TlbEvent → Tlb
  | .page w =>
    if Present (t.walk m dir w).2 then
      { t with pages := Function.update t.pages (w / 4096) (some (t.walk m dir w)) }
    else t
  | .slot i =>
    if Present (t.slot m dir i) then
      { t with slots := Function.update t.slots i (some (t.slot m dir i)) }
    else t
  | .dropPage n => { t with pages := Function.update t.pages n none }
  | .dropSlot i => { t with slots := Function.update t.slots i none }

def run (m : Mem) (dir : Nat) (t : Tlb) (es : List TlbEvent) : Tlb := es.foldl (step m dir) t

/-- `invlpg` drops the page's entry and every cached directory entry. -/
def invlpg (v : Nat) (t : Tlb) : Tlb := ⟨Function.update t.pages (v / 4096) none, fun _ => none⟩

end Tlb

/-- What is cached is what the tables say, except for the pages of `S`. -/
structure CoherentOff (S : Nat → Prop) (t : Tlb) (m : Mem) (dir : Nat) : Prop where
  slots : ∀ i < 1024, ∀ e, t.slots i = some e → Present e ∧ pde m dir i = e
  pages : ∀ w < 2 ^ 32, ¬S (w / 4096) → ∀ e, t.pages (w / 4096) = some e →
    Present e.2 ∧ entries m dir w = e

def Coherent (t : Tlb) (m : Mem) (dir : Nat) : Prop := CoherentOff (fun _ => False) t m dir

section

variable {S : Nat → Prop} {t : Tlb} {m m' : Mem} {dir : Nat}

theorem Coherent.off (h : Coherent t m dir) : CoherentOff S t m dir :=
  ⟨h.slots, fun w hw _ => h.pages w hw not_false⟩

theorem CoherentOff.slot_eq (h : CoherentOff S t m dir) {i : Nat} (hi : i < 1024) :
    t.slot m dir i = pde m dir i := by
  unfold Tlb.slot
  cases hs : t.slots i with
  | none => rw [Option.getD_none]
  | some e => rw [Option.getD_some, (h.slots i hi e hs).2]

/-- A walk from a cached directory entry ends where the tables do. -/
theorem CoherentOff.walk_eq (h : CoherentOff S t m dir) {w : Nat} (hw : w < 2 ^ 32) :
    t.walk m dir w = Lib.entries m dir w := by
  unfold Tlb.walk Lib.entries lookup
  rw [h.slot_eq (pdIndex_lt hw)]

/-- An access outside `S` uses the entries of the tables. -/
theorem CoherentOff.entries_eq (h : CoherentOff S t m dir) {w : Nat} (hw : w < 2 ^ 32)
    (hS : ¬S (w / 4096)) : t.entries m dir w = Lib.entries m dir w := by
  unfold Tlb.entries
  cases hp : t.pages (w / 4096) with
  | none => rw [Option.getD_none, h.walk_eq hw]
  | some e => rw [Option.getD_some, (h.pages w hw hS e hp).2]

theorem entries_page {v w : Nat} (h : v / 4096 = w / 4096) :
    entries m dir v = entries m dir w := by
  unfold entries
  rw [lookup_page h, (page_eq_iff.mp h).1]

/-- An update of the cached pages, by what the tables say or by nothing. -/
theorem CoherentOff.update_page (h : CoherentOff S t m dir) {n : Nat} {x : Option (Nat × Nat)}
    (hx : ∀ w < 2 ^ 32, w / 4096 = n → ∀ e, x = some e → Present e.2 ∧ entries m dir w = e) :
    CoherentOff S { t with pages := Function.update t.pages n x } m dir := by
  refine ⟨h.slots, fun w hw hS e he => ?_⟩
  simp only [Function.update_apply] at he
  split at he
  next heq => exact hx w hw heq e he
  next => exact h.pages w hw hS e he

theorem CoherentOff.update_slot (h : CoherentOff S t m dir) {i : Nat} {x : Option Nat}
    (hx : i < 1024 → ∀ e, x = some e → Present e ∧ pde m dir i = e) :
    CoherentOff S { t with slots := Function.update t.slots i x } m dir := by
  refine ⟨fun j hj e he => ?_, h.pages⟩
  simp only [Function.update_apply] at he
  split at he
  next heq =>
    subst heq
    exact hx hj e he
  next => exact h.slots j hj e he

/-- One event of the CPU. A walk for a page of `S` may cache either state of
its entry, which `S` leaves open. -/
theorem CoherentOff.step (h : CoherentOff S t m dir) {ev : TlbEvent} (hev : ev.InRange) :
    CoherentOff S (t.step m dir ev) m dir := by
  cases ev with
  | page w =>
    simp only [Tlb.step]
    rw [h.walk_eq hev]
    split
    next hp =>
      refine h.update_page fun v _ hpage e he => ?_
      cases he
      exact ⟨hp, entries_page hpage⟩
    next => exact h
  | slot i =>
    simp only [Tlb.step]
    rw [h.slot_eq hev]
    split
    next hp =>
      refine h.update_slot fun _ e he => ?_
      cases he
      exact ⟨hp, rfl⟩
    next => exact h
  | dropPage n => exact h.update_page fun _ _ _ _ he => absurd he (by simp)
  | dropSlot i => exact h.update_slot fun _ _ he => absurd he (by simp)

theorem CoherentOff.run : ∀ {es : List TlbEvent} {t : Tlb}, CoherentOff S t m dir →
    (∀ ev ∈ es, ev.InRange) → CoherentOff S (t.run m dir es) m dir := by
  intro es
  induction es with
  | nil =>
    intro t h _
    exact h
  | cons ev es ih =>
    intro t h hes
    exact ih (h.step (hes ev List.mem_cons_self)) fun e he => hes e (List.mem_cons_of_mem _ he)

/-- A change of the tables that alters nothing present outside `S`. -/
theorem CoherentOff.change (h : CoherentOff S t m dir)
    (hpde : ∀ i < 1024, Present (pde m dir i) → pde m' dir i = pde m dir i)
    (hlook : ∀ w < 2 ^ 32, ¬S (w / 4096) → Present (lookup m dir w) →
      lookup m' dir w = lookup m dir w) : CoherentOff S t m' dir := by
  refine ⟨fun i hi e he => ?_, fun w hw hS e he => ?_⟩
  · obtain ⟨hp, heq⟩ := h.slots i hi e he
    refine ⟨hp, ?_⟩
    rw [hpde i hi (by rw [heq]; exact hp), heq]
  · obtain ⟨hp, heq⟩ := h.pages w hw hS e he
    have hlp : Present (lookup m dir w) := by
      rw [← heq] at hp
      exact hp
    refine ⟨hp, ?_⟩
    unfold entries at heq ⊢
    rw [hlook w hw hS hlp, hpde _ (pdIndex_lt hw) (pde_present_of_lookup hlp), heq]

/-- `invlpg` of the page that was left open. -/
theorem CoherentOff.invlpg {v : Nat} (h : CoherentOff (fun n => n = v / 4096) t m dir) :
    Coherent (t.invlpg v) m dir := by
  refine ⟨fun _ _ _ he => absurd he (by simp [Tlb.invlpg]), fun w hw _ e he => ?_⟩
  by_cases hpage : w / 4096 = v / 4096
  · have hnone : (t.invlpg v).pages (w / 4096) = none := by
      rw [hpage]
      exact Function.update_self _ _ _
    exact absurd (hnone.symm.trans he) (by simp)
  · have hsame : (t.invlpg v).pages (w / 4096) = t.pages (w / 4096) :=
      Function.update_of_ne hpage _ _
    exact h.pages w hw hpage e (hsame.symm.trans he)

end

end MyOS.Lib
