import MyOS.Elf.Writes

/-!
# The interrupt flag during a load

`elf_load` turns interrupts off for each segment and on again behind it. It
does not look at what the flag was before, so a caller that had them off gets
them back on.

`elfFlags` are the values a call writes to the flag, in order: off where a
segment is begun, on where it is left, be it complete or out of memory. Both
exits of the segment's block have their `sti`; only a halt on the way has
none. `elfLoad_intFlag` says that these are all: the flag behind the call is
the last value written. `elfFlags_off_iff` says when interrupts stay off.
-/

namespace MyOS

open Lib Lib.Mem Lib.Paging

/-- The `cli` of a segment, and its `sti` unless the kernel halted before. -/
def segmentFlags : Except Stop Load → List Bool
  | .error (.halt _) => [false]
  | .error (.cleanup _ _) => [false, true]
  | .ok _ => [false, true]

/-- Those of a program header that has been read. -/
def headerFlags (file : FsNode) (procPd : Nat) (l : Load) (r : Nat × Mem × Machine) : List Bool :=
  if r.1 < phdrSize then []
  else if pType r.2.1 = ptLoad then
    segmentFlags (loadSegment file procPd r.2.1 { l with k := r.2.2 })
  else []

/-- Those of the header loop, with `n` headers left. -/
def headersFlags (file : FsNode) (e : Mem) (procPd : Nat) : Nat → Nat → Load → List Bool
  | 0, _, _ => []
  | n + 1, i, l =>
    (readFsLocal file (phdrOffset e i) phdrSize l.k).toOption.elim [] fun r =>
      headerFlags file procPd l r ++
        (loadRead file procPd l r).toOption.elim [] (headersFlags file e procPd n (i + 1))

/-- The values that `elf_load` writes to the interrupt flag. -/
def elfFlags (v : Vfs) (path : List UInt8) (k : Machine) : List Bool :=
  (findNodeByPath v path).elim [] fun ref =>
    (readFsLocal (v.node ref) 0 ehdrSize k).toOption.elim [] fun r =>
      if r.1 < ehdrSize ∨ checkHeader r.2.1 ≠ none ∨ (pmmAllocBlock r.2.2.pmm).1 = 0 then []
      else
        headersFlags (v.node ref) r.2.1 (pmmAllocBlock r.2.2.pmm).1 (ePhnum r.2.1) 0
          (startLoad r.2.2)

/-- The flag after these values have been written. -/
def flagAfter (f : Bool) (fs : List Bool) : Bool := fs.foldl (fun _ b => b) f

theorem flagAfter_append (f : Bool) (fs gs : List Bool) :
    flagAfter f (fs ++ gs) = flagAfter (flagAfter f fs) gs := List.foldl_append

/-! ## The values written are all -/

/-- The flag where a part of a load ends: `f` if it goes on, `g` on the way to
`cleanup`. -/
def FlagIs (f g : Bool) : Except Stop Load → Prop
  | .ok l => l.k.intFlag = f
  | .error (.cleanup _ l) => l.k.intFlag = g
  | .error (.halt _) => True

theorem FlagIs.bind {f f' g : Bool} {x : Except Stop Load} {next : Load → Except Stop Load}
    (hx : FlagIs f g x) (hnext : ∀ l, x = .ok l → l.k.intFlag = f → FlagIs f' g (next l)) :
    FlagIs f' g (x.bind next) := by
  match x, hx with
  | .ok l, hl =>
    rw [ok_bind]
    exact hnext l rfl hl
  | .error (.cleanup _ _), hl => exact hl
  | .error (.halt _), _ => trivial

section Loads

variable {file : FsNode} {e : Mem} {procPd old : Nat} {l : Load}

theorem loadPage_flag (v : Nat) : FlagIs l.k.intFlag true (loadPage old v l) := by
  cases hrun : loadPage old v l with
  | ok l' => exact (loadPage_quiet hrun).intFlag
  | error stop =>
    unfold loadPage at hrun
    by_cases hnull : (pmmAllocBlock l.k.pmm).1 = 0
    · simp only [if_pos hnull] at hrun
      cases hrun
      rfl
    · simp only [if_neg hnull] at hrun
      revert hrun
      generalize (vmmMapPage _ v _ _).bind _ = x
      intro hrun
      cases x with
      | ok k' => exact absurd hrun (by simp [ok_map, ok_mapError])
      | error p =>
        cases hrun
        trivial

theorem loadPages_flag : ∀ (n v : Nat) {l : Load}, FlagIs l.k.intFlag true (loadPages old n v l) := by
  intro n
  induction n with
  | zero =>
    intro v l
    rfl
  | succ n ih =>
    intro v l
    refine (loadPage_flag v).bind fun l' _ hl' => ?_
    rw [← hl']
    exact ih (v + 4096)

/-- Every way out of a segment turns interrupts on. -/
theorem loadSegment_flag (file : FsNode) (procPd : Nat) (p : Mem) (l : Load) :
    FlagIs true true (loadSegment file procPd p l) := by
  unfold loadSegment
  refine (loadPages_flag (pageCount p) (pageAlignedStart p)).bind fun l' _ _ => ?_
  cases hread : readFs file (pOffset p) (pFilesz p) (pVaddr p) l'.k with
  | ok r => rfl
  | error p => trivial

theorem loadRead_flag (file : FsNode) (procPd : Nat) (l : Load) (r : Nat × Mem × Machine) :
    FlagIs (flagAfter r.2.2.intFlag (headerFlags file procPd l r))
      (flagAfter r.2.2.intFlag (headerFlags file procPd l r)) (loadRead file procPd l r) := by
  unfold headerFlags loadRead
  split
  next => rfl
  next =>
    split
    next =>
      have hend := loadSegment_flag file procPd r.2.1 { l with k := r.2.2 }
      cases hseg : loadSegment file procPd r.2.1 { l with k := r.2.2 } with
      | ok l' =>
        rw [hseg] at hend
        exact hend
      | error stop =>
        rw [hseg] at hend
        match stop, hend with
        | .cleanup _ _, hend => exact hend
        | .halt _, _ => trivial
    next => rfl

/-- By induction on the headers left: each part of the loop appends its own
values. -/
theorem loadHeaders_flag (file : FsNode) (e : Mem) (procPd : Nat) : ∀ (n i : Nat) (l : Load),
    FlagIs (flagAfter l.k.intFlag (headersFlags file e procPd n i l))
      (flagAfter l.k.intFlag (headersFlags file e procPd n i l))
      (loadHeaders file e procPd n i l) := by
  intro n
  induction n with
  | zero =>
    intro i l
    rfl
  | succ n ih =>
    intro i l
    unfold loadHeaders loadHeader headersFlags
    cases hread : readFsLocal file (phdrOffset e i) phdrSize l.k with
    | error p => trivial
    | ok r =>
      rw [ok_mapError, ok_bind]
      have hquiet := (readFsLocal_quiet hread).intFlag
      have hfirst := loadRead_flag file procPd l r
      rw [hquiet] at hfirst
      show FlagIs (flagAfter l.k.intFlag (headerFlags file procPd l r ++ (loadRead file procPd l
        r).toOption.elim [] (headersFlags file e procPd n (i + 1)))) (flagAfter l.k.intFlag
        (headerFlags file procPd l r ++ (loadRead file procPd l r).toOption.elim []
        (headersFlags file e procPd n (i + 1)))) _
      rw [flagAfter_append]
      cases hrest : loadRead file procPd l r with
      | ok l' =>
        rw [hrest] at hfirst
        have hflag : l'.k.intFlag = flagAfter l.k.intFlag (headerFlags file procPd l r) := hfirst
        have hloop := ih (i + 1) l'
        rw [hflag] at hloop
        exact hloop
      | error stop =>
        rw [hrest] at hfirst
        exact hfirst

/-! ## Which headers write the flag -/

/-- Without a segment nothing is written. -/
theorem headersFlags_eq_nil : ∀ (n i : Nat) {l : Load},
    (∀ p ∈ headersRead file e procPd n i l, pType p ≠ ptLoad) →
    headersFlags file e procPd n i l = [] := by
  intro n
  induction n with
  | zero =>
    intro i l _
    rfl
  | succ n ih =>
    intro i l hno
    unfold headersFlags
    cases hread : readFsLocal file (phdrOffset e i) phdrSize l.k with
    | error p => rfl
    | ok r =>
      show headerFlags file procPd l r ++
        (loadRead file procPd l r).toOption.elim [] (headersFlags file e procPd n (i + 1)) = []
      by_cases hshort : r.1 < phdrSize
      · unfold headerFlags loadRead
        rw [if_pos hshort, if_pos hshort]
        rfl
      · rw [headersRead_full hread hshort] at hno
        have hfirst : pType r.2.1 ≠ ptLoad := hno _ List.mem_cons_self
        unfold headerFlags
        rw [if_neg hshort, if_neg hfirst, List.nil_append]
        cases hrest : loadRead file procPd l r with
        | error stop => rfl
        | ok l' =>
          rw [hrest] at hno
          exact ih (i + 1) fun p hp => hno p (List.mem_cons_of_mem _ hp)

/-- A segment that was gone through, or left for want of memory, has turned
interrupts on. -/
theorem true_mem_headersFlags : ∀ (n i : Nat) {l : Load},
    (∀ p, loadHeaders file e procPd n i l ≠ .error (.halt p)) →
    ∀ p ∈ headersRead file e procPd n i l, pType p = ptLoad →
    true ∈ headersFlags file e procPd n i l := by
  intro n
  induction n with
  | zero =>
    intro i l _ p hp
    exact absurd hp List.not_mem_nil
  | succ n ih =>
    intro i l hruns p hp hload
    unfold headersFlags
    unfold loadHeaders loadHeader at hruns
    cases hread : readFsLocal file (phdrOffset e i) phdrSize l.k with
    | error q =>
      rw [hread] at hruns
      exact absurd rfl (hruns q)
    | ok r =>
      rw [hread, ok_mapError, ok_bind] at hruns
      show true ∈ headerFlags file procPd l r ++
        (loadRead file procPd l r).toOption.elim [] (headersFlags file e procPd n (i + 1))
      by_cases hshort : r.1 < phdrSize
      · rw [headersRead_short hread hshort] at hp
        exact absurd hp List.not_mem_nil
      rw [headersRead_full hread hshort] at hp
      rcases List.mem_cons.mp hp with rfl | hp
      · -- this header is the segment, and it did not halt
        refine List.mem_append_left _ ?_
        unfold headerFlags
        rw [if_neg hshort, if_pos hload]
        unfold loadRead at hruns
        rw [if_neg hshort, if_pos hload] at hruns
        cases hseg : loadSegment file procPd r.2.1 { l with k := r.2.2 } with
        | ok _ => exact List.mem_cons_of_mem _ List.mem_cons_self
        | error stop =>
          cases stop with
          | cleanup _ _ => exact List.mem_cons_of_mem _ List.mem_cons_self
          | halt q =>
            rw [hseg] at hruns
            exact absurd rfl (hruns q)
      · refine List.mem_append_right _ ?_
        cases hrest : loadRead file procPd l r with
        | error stop =>
          rw [hrest] at hp
          exact absurd hp List.not_mem_nil
        | ok l' =>
          rw [hrest] at hp hruns
          rw [ok_bind] at hruns
          exact ih (i + 1) hruns p hp hload

end Loads

/-! ## The whole call -/

section Call

variable {v : Vfs} {path : List UInt8} {k : Machine}

/-- A call ends before the header loop, and then the flag is not touched, or
it is the header loop. -/
theorem elfLoad_split (v : Vfs) (path : List UInt8) (k : Machine) :
    (programHeaders v path k = [] ∧ elfFlags v path k = [] ∧
      ∀ r k', elfLoad v path k = .ok (r, k') → k'.intFlag = k.intFlag) ∨
    ∃ file e procPd l, l.k.intFlag = k.intFlag ∧
      programHeaders v path k = headersRead file e procPd (ePhnum e) 0 l ∧
      elfFlags v path k = headersFlags file e procPd (ePhnum e) 0 l ∧
      elfLoad v path k = finish e procPd (loadHeaders file e procPd (ePhnum e) 0 l) := by
  unfold programHeaders elfFlags elfLoad
  cases hfind : findNodeByPath v path with
  | none =>
    refine Or.inl ⟨rfl, rfl, fun r k' hrun => ?_⟩
    cases hrun
    rfl
  | some ref =>
    simp only [Option.elim_some]
    unfold elfLoadNode
    cases hread : readFsLocal (v.node ref) 0 ehdrSize k with
    | error p =>
      refine Or.inl ⟨rfl, rfl, fun r k' hrun => ?_⟩
      exact absurd hrun (by simp [error_bind])
    | ok r =>
      have hquiet := (readFsLocal_quiet hread).intFlag
      rw [ok_bind]
      unfold elfLoadRead imageHeaders
      show ((if r.1 < ehdrSize ∨ checkHeader r.2.1 ≠ none then [] else _) = [] ∧
        (if r.1 < ehdrSize ∨ checkHeader r.2.1 ≠ none ∨ _ then [] else _) = [] ∧ _) ∨ _
      by_cases hshort : r.1 < ehdrSize
      · rw [if_pos (Or.inl hshort), if_pos (Or.inl hshort), if_pos hshort]
        refine Or.inl ⟨rfl, rfl, fun r' k' hrun => ?_⟩
        cases hrun
        exact hquiet
      rw [if_neg hshort]
      cases hcheck : checkHeader r.2.1 with
      | some err =>
        have hbad : (some err : Option ElfError) ≠ none := by simp
        rw [if_pos (Or.inr hbad), if_pos (Or.inr (Or.inl hbad)), Option.elim_some]
        refine Or.inl ⟨rfl, rfl, fun r' k' hrun => ?_⟩
        cases hrun
        exact hquiet
      | none =>
        rw [Option.elim_none]
        unfold elfLoadImage
        by_cases hnull : (pmmAllocBlock r.2.2.pmm).1 = 0
        · simp only [if_pos hnull]
          rw [if_pos (Or.inr (Or.inr hnull)), if_neg (by simp [hshort])]
          refine Or.inl ⟨rfl, rfl, fun r' k' hrun => ?_⟩
          cases hrun
          exact hquiet
        · simp only [if_neg hnull]
          refine Or.inr ⟨v.node ref, r.2.1, (pmmAllocBlock r.2.2.pmm).1, startLoad r.2.2, hquiet,
            ?_, ?_, rfl⟩
          · show (if r.1 < ehdrSize ∨ checkHeader r.2.1 ≠ none then [] else _) = _
            rw [if_neg (by simp [hshort, hcheck])]
            exact if_neg hnull
          · show (if r.1 < ehdrSize ∨ checkHeader r.2.1 ≠ none ∨ _ then [] else _) = _
            exact if_neg (by simp [hshort, hcheck, hnull])

/-- The flag behind a call is the last value written. -/
theorem elfLoad_intFlag {r : ElfResult} {k' : Machine} (hrun : elfLoad v path k = .ok (r, k')) :
    k'.intFlag = flagAfter k.intFlag (elfFlags v path k) := by
  rcases elfLoad_split v path k with ⟨-, hflags, hsame⟩ | ⟨file, e, procPd, l, hl, -, hflags, hload⟩
  · rw [hflags, hsame r k' hrun]
    rfl
  · have hend := loadHeaders_flag file e procPd (ePhnum e) 0 l
    rw [hload] at hrun
    rw [hflags, ← hl]
    match hloop : loadHeaders file e procPd (ePhnum e) 0 l with
    | .ok l' =>
      rw [hloop] at hend hrun
      cases hrun
      exact hend
    | .error (.cleanup _ l') =>
      rw [hloop] at hend hrun
      cases hrun
      exact hend
    | .error (.halt p) =>
      rw [hloop, finish] at hrun
      exact absurd hrun (by simp)

/-- A file whose headers have no segment does not touch the flag. -/
theorem elfFlags_eq_nil (hno : ∀ p ∈ programHeaders v path k, pType p ≠ ptLoad) :
    elfFlags v path k = [] := by
  rcases elfLoad_split v path k with ⟨-, hflags, -⟩ | ⟨file, e, procPd, l, -, hheaders, hflags, -⟩
  · exact hflags
  · rw [hflags]
    rw [hheaders] at hno
    exact headersFlags_eq_nil _ _ hno

/-- **The flag during a load.** A call that returned left interrupts off all
the time if and only if no program header it read is a segment. -/
theorem elfFlags_off_iff {r : ElfResult} {k' : Machine} (hrun : elfLoad v path k = .ok (r, k')) :
    true ∉ elfFlags v path k ↔ ∀ p ∈ programHeaders v path k, pType p ≠ ptLoad := by
  constructor
  · intro hoff p hp hload
    rcases elfLoad_split v path k with ⟨hnil, -, -⟩ | ⟨file, e, procPd, l, -, hheaders, hflags, hcall⟩
    · rw [hnil] at hp
      exact absurd hp List.not_mem_nil
    · rw [hheaders] at hp
      rw [hflags] at hoff
      refine hoff (true_mem_headersFlags _ _ (fun q hhalt => ?_) p hp hload)
      rw [hcall, hhalt, finish] at hrun
      exact absurd hrun (by simp)
  · intro hno
    rw [elfFlags_eq_nil hno]
    exact List.not_mem_nil

end Call

end MyOS
