import MyOS.Elf.Keeps
import MyOS.Task.Sched

/-!
# What each scheduler call can do

One inversion lemma for each function: `taskCreate_cases` (nothing happened,
or a task was made in the first free slot and linked behind the tail),
`schedule_cases` (nothing happened, or a switch to a READY task found by the
search), `taskExit_cases` and `taskUserBootstrap_spec`. The invariants of
this directory are derived from these and never look at the code again.
-/

namespace MyOS

open Lib Lib.Mem Lib.Paging

/-! ## Single slots -/

theorem setNext_self (t : Slot → Task) (i : Slot) (n : Option Slot) :
    setNext t i n i = { t i with next := n } := Function.update_self ..

theorem setNext_of_ne (t : Slot → Task) {i j : Slot} (n : Option Slot) (h : j ≠ i) :
    setNext t i n j = t j := Function.update_of_ne h ..

theorem setState_self (t : Slot → Task) (i : Slot) (s : TaskState) :
    setState t i s i = { t i with state := s } := Function.update_self ..

theorem setState_of_ne (t : Slot → Task) {i j : Slot} (s : TaskState) (h : j ≠ i) :
    setState t i s j = t j := Function.update_of_ne h ..

/-- A pointer write changes no other field. -/
theorem setNext_task (t : Slot → Task) (i j : Slot) (n : Option Slot) :
    setNext t i n j = { t j with next := (setNext t i n j).next } := by
  by_cases h : j = i
  · rw [h, setNext_self]
  · rw [setNext_of_ne t n h]

theorem links_setNext (t : Slot → Task) (i : Slot) (n : Option Slot) :
    links (setNext t i n) = Function.update (links t) i n := by
  funext j
  unfold links
  by_cases h : j = i
  · rw [h, setNext_self, Function.update_self]
  · rw [setNext_of_ne t n h, Function.update_of_ne h]

/-- A write that keeps the pointer keeps the links. -/
theorem links_update (t : Slot → Task) {i : Slot} {x : Task} (h : x.next = (t i).next) :
    links (Function.update t i x) = links t := by
  funext j
  unfold links
  by_cases hj : j = i
  · rw [hj, Function.update_self, h]
  · rw [Function.update_of_ne hj]

/-! ## `task_create` -/

theorem findSlot_some {t : Slot → Task} {i : Slot} (h : findSlot t = some i) :
    i ≠ 0 ∧ Reusable (t i) := by
  unfold findSlot at h
  have hmem := List.mem_of_find?_eq_some h
  have hp := List.find?_some h
  refine ⟨fun hi => ?_, of_decide_eq_true hp⟩
  rw [hi] at hmem
  exact absurd hmem (by decide)

theorem links_newTask (t : Slot → Task) (i : Slot) (entry pageDir stack : Nat) (k : Kernel) :
    links (Function.update t i (newTask entry pageDir stack k (t i))) = links t :=
  links_update t rfl

theorem setNext_twice (t : Slot → Task) (a i j : Slot) (x y : Option Slot) :
    setNext (setNext t a x) i y j =
      { t j with next := (setNext (setNext t a x) i y j).next } := by
  refine (setNext_task _ i j y).trans ?_
  rw [setNext_task t a j x]

/-- With or without a list, one or two pointers are written. -/
theorem appendTask_fields {fuel : Nat} {i : Slot} {k k' : Kernel}
    (h : appendTask fuel i k = .ok k') :
    k'.toMachine = k.toMachine ∧ k'.currentTask = k.currentTask ∧
      ∀ j, k'.taskTable j = { k.taskTable j with next := (k'.taskTable j).next } := by
  unfold appendTask at h
  cases hlist : k.taskList with
  | none =>
    rw [hlist, Option.elim_none] at h
    cases h
    exact ⟨rfl, rfl, fun j => setNext_task _ _ _ _⟩
  | some head =>
    rw [hlist, Option.elim_some] at h
    cases htail : tailFrom (links k.taskTable) fuel head with
    | none =>
      rw [htail, Option.elim_none] at h
      exact absurd h (by simp)
    | some t =>
      rw [htail, Option.elim_some] at h
      cases h
      exact ⟨rfl, rfl, fun j => setNext_twice _ _ _ _ _ _⟩

/-- The calls of a `task_create` that makes a task in slot `i`, with the stack
in block `b`. -/
structure Made (sym : Symbols) (fuel entry pageDir : Nat) (isUser : Bool) (i : Slot) (b : Nat)
    (m : Machine) (k k' : Kernel) : Prop where
  slot : findSlot k.taskTable = some i
  free : IsFree k.pmm b
  taken : Taken k.pmm [b] (pmmAllocBlock k.pmm).2
  map : vmmMapPage (b * 4096) (b * 4096) (flagPresent ||| flagWrite)
    { k.toMachine with
      intFlag := false
      pmm := (pmmAllocBlock k.pmm).2
      mem := k.mem.memset (b * 4096) 0 4096 } = .ok m
  append : appendTask fuel i { k with
    toMachine := { m with mem := initialFrame sym entry isUser (b * 4096 + 4096) m.mem }
    taskTable := Function.update k.taskTable i
      (newTask entry pageDir (b * 4096) { k with toMachine := m } (k.taskTable i))
    nextPid := (k.nextPid + 1) % 2 ^ 32 } = .ok k'

/-- The ways a call of `task_create` returns. -/
theorem taskCreate_runs {sym : Symbols} {fuel entry pageDir : Nat} {isUser : Bool} {k k' : Kernel}
    {r : Option Slot} (h : taskCreate sym fuel entry pageDir isUser k = .ok (r, k')) :
    (r = none ∧ findSlot k.taskTable = none ∧ k' = { k with intFlag := false }) ∨
    (r = none ∧ (pmmAllocBlock k.pmm).1 = 0 ∧
      k' = { k with intFlag := false, pmm := (pmmAllocBlock k.pmm).2 }) ∨
    ∃ i b m, r = some i ∧ Made sym fuel entry pageDir isUser i b m k k' := by
  unfold taskCreate at h
  cases hslot : findSlot k.taskTable with
  | none =>
    simp only [hslot, Option.elim_none] at h
    cases h
    exact Or.inl ⟨rfl, rfl, rfl⟩
  | some i =>
    simp only [hslot, Option.elim_some] at h
    unfold createIn at h
    by_cases hnull : (pmmAllocBlock k.pmm).1 = 0
    · simp only [if_pos hnull] at h
      cases h
      exact Or.inr (Or.inl ⟨rfl, hnull, rfl⟩)
    simp only [if_neg hnull] at h
    obtain ⟨b, -, hfree, haddr, ht⟩ := pmmAllocBlock_taken hnull
    rw [haddr] at h
    obtain ⟨m, hmap, hstart⟩ := bind_eq_ok h
    unfold startTask at hstart
    obtain ⟨k₁, happ, heq⟩ := map_eq_ok hstart
    cases heq
    exact Or.inr (Or.inr ⟨i, b, m, rfl, hslot, hfree, ht, mapError_eq_ok hmap, happ⟩)

/-- A call that made no task leaves the table and memory alone. -/
theorem taskCreate_null {sym : Symbols} {fuel entry pageDir : Nat} {isUser : Bool} {k k' : Kernel}
    (h : taskCreate sym fuel entry pageDir isUser k = .ok (none, k')) :
    k'.taskTable = k.taskTable ∧ k'.mem = k.mem := by
  rcases taskCreate_runs h with ⟨-, -, rfl⟩ | ⟨-, -, rfl⟩ | ⟨i, b, m, hr, -⟩
  · exact ⟨rfl, rfl⟩
  · exact ⟨rfl, rfl⟩
  · exact absurd hr (by simp)

section Made

variable {sym : Symbols} {fuel entry pageDir : Nat} {isUser : Bool} {i : Slot} {b : Nat} {m : Machine}
  {k k' : Kernel}

theorem Made.machine (h : Made sym fuel entry pageDir isUser i b m k k') :
    k'.toMachine = { m with mem := initialFrame sym entry isUser (b * 4096 + 4096) m.mem } :=
  (appendTask_fields h.append).1

/-- The new task, the pointer excepted. -/
theorem Made.new (h : Made sym fuel entry pageDir isUser i b m k k') :
    k'.taskTable i = { newTask entry pageDir (b * 4096) k (k.taskTable i) with
      next := (k'.taskTable i).next } := by
  have hcr3 : m.cr3 = k.cr3 := (vmmMapPage_quiet h.map).cr3
  have hi : k'.taskTable i = { Function.update k.taskTable i (newTask entry pageDir (b * 4096)
      { k with toMachine := m } (k.taskTable i)) i with next := (k'.taskTable i).next } :=
    (appendTask_fields h.append).2.2 i
  rw [Function.update_self] at hi
  refine hi.trans ?_
  unfold newTask
  rw [hcr3]

/-- The other slots keep every field but the pointer. -/
theorem Made.old (h : Made sym fuel entry pageDir isUser i b m k k') {j : Slot} (hj : j ≠ i) :
    k'.taskTable j = { k.taskTable j with next := (k'.taskTable j).next } := by
  have hjt : k'.taskTable j = { Function.update k.taskTable i (newTask entry pageDir (b * 4096)
      { k with toMachine := m } (k.taskTable i)) j with next := (k'.taskTable j).next } :=
    (appendTask_fields h.append).2.2 j
  rwa [Function.update_of_ne hj] at hjt

end Made

/-- A task was made in slot `i` with the stack in block `b`, linked behind
the tail `t`. -/
structure Created (entry pageDir : Nat) (i : Slot) (b : Nat) (t : Slot) (k k' : Kernel) : Prop where
  slot : findSlot k.taskTable = some i
  free : IsFree k.pmm b
  taken : ∃ ts, Taken k.pmm (ts ++ [b]) k'.pmm
  tail : ∃ fuel head, k.taskList = some head ∧ tailFrom (links k.taskTable) fuel head = some t
  table : k'.taskTable = setNext (setNext (Function.update k.taskTable i
    (newTask entry pageDir (b * 4096) k (k.taskTable i))) t (some i)) i none
  list : k'.taskList = k.taskList
  cur : k'.currentTask = k.currentTask
  pid : k'.nextPid = (k.nextPid + 1) % 2 ^ 32
  halted : k'.halted = k.halted
  cr3 : k'.cr3 = k.cr3
  dir : k'.currentPageDirectory = k.currentPageDirectory
  esp0 : k'.esp0 = k.esp0

/-- Nothing happened but `cli`, and possibly an allocation that failed. -/
structure NotCreated (k k' : Kernel) : Prop where
  pmm : k'.pmm = k.pmm
  mem : k'.mem = k.mem
  table : k'.taskTable = k.taskTable
  list : k'.taskList = k.taskList
  cur : k'.currentTask = k.currentTask
  pid : k'.nextPid = k.nextPid
  halted : k'.halted = k.halted
  cr3 : k'.cr3 = k.cr3
  dir : k'.currentPageDirectory = k.currentPageDirectory
  esp0 : k'.esp0 = k.esp0

/-- **`task_create`**, with a list to append to and block 0 reserved. -/
theorem taskCreate_cases {sym : Symbols} {fuel entry pageDir : Nat} {isUser : Bool} {k k' : Kernel}
    {r : Option Slot} {head : Slot} (hzero : bitmapTest k.pmm 0 = true)
    (hlist : k.taskList = some head)
    (h : taskCreate sym fuel entry pageDir isUser k = .ok (r, k')) :
    (r = none ∧ NotCreated k k') ∨ ∃ i b t, r = some i ∧ Created entry pageDir i b t k k' := by
  rcases taskCreate_runs h with ⟨rfl, -, rfl⟩ | ⟨rfl, hnull, rfl⟩ | ⟨i, b, m, rfl, hm⟩
  · exact Or.inl ⟨rfl, rfl, rfl, rfl, rfl, rfl, rfl, rfl, rfl, rfl, rfl⟩
  · have hsame := congrArg Prod.snd (pmmAllocBlock_null hzero hnull).1
    exact Or.inl ⟨rfl, hsame, rfl, rfl, rfl, rfl, rfl, rfl, rfl, rfl, rfl⟩
  · -- the mapping takes a block for a page table at most
    have hg := (vmmMapPage_quiet hm.map).toGrows
    obtain ⟨ts, hts⟩ := hg.taken
    have happ := hm.append
    unfold appendTask at happ
    simp only [hlist, Option.elim_some] at happ
    revert happ
    generalize htail : tailFrom (links _) fuel head = x
    intro happ
    cases x with
    | none => exact absurd happ (by simp)
    | some t =>
      rw [Option.elim_some] at happ
      cases happ
      refine Or.inr ⟨i, b, t, rfl, hm.slot, hm.free, ⟨ts, hm.taken.trans hts⟩,
        ⟨fuel, head, hlist, ?_⟩, ?_, hlist.symm, rfl, rfl, rfl, hg.cr3, hg.cur, hg.esp0⟩
      · rw [links_newTask] at htail
        exact htail
      · have hcr3 : m.cr3 = k.cr3 := hg.cr3
        unfold newTask
        rw [hcr3]

section Created

variable {entry pageDir : Nat} {i : Slot} {b : Nat} {t : Slot} {k k' : Kernel}

/-- The new task. -/
theorem Created.new (h : Created entry pageDir i b t k k') :
    k'.taskTable i = { newTask entry pageDir (b * 4096) k (k.taskTable i) with next := none } := by
  rw [h.table, setNext_self, setNext_task, Function.update_self]

/-- The other slots keep every field but the pointer. -/
theorem Created.old (h : Created entry pageDir i b t k k') {j : Slot} (hj : j ≠ i) :
    k'.taskTable j = { k.taskTable j with next := (k'.taskTable j).next } := by
  rw [h.table, setNext_of_ne _ _ hj, setNext_task, Function.update_of_ne hj]

/-- The links after the append. -/
theorem Created.links_eq (h : Created entry pageDir i b t k k') :
    links k'.taskTable = Function.update (Function.update (links k.taskTable) t (some i)) i none := by
  rw [h.table, links_setNext, links_setNext, links_newTask]

end Created

/-! ## `schedule` -/

/-- The search ends at the current task or at a READY one. -/
theorem searchReady_spec {k : Kernel} {cur : Slot} : ∀ (fuel : Nat) {c d : Slot},
    searchReady k cur fuel c = some d → d = cur ∨ (k.taskTable d).state = .ready := by
  intro fuel
  induction fuel with
  | zero =>
    intro _ _ h
    exact absurd h (by simp [searchReady])
  | succ fuel ih =>
    intro c d h
    unfold searchReady at h
    split at h
    next hc =>
      cases h
      exact hc
    next =>
      obtain ⟨e, -, he⟩ := Option.bind_eq_some_iff.mp h
      exact ih he

theorem pickNext_spec {k : Kernel} {cur d : Slot} {fuel : Nat} (h : pickNext fuel k cur = some d) :
    d = cur ∨ (k.taskTable d).state = .ready := by
  obtain ⟨c, -, hc⟩ := Option.bind_eq_some_iff.mp h
  exact searchReady_spec fuel hc

/-- The search depends on the table and the list. -/
theorem searchReady_congr {k k' : Kernel} (ht : k'.taskTable = k.taskTable)
    (hl : k'.taskList = k.taskList) {cur : Slot} : ∀ (fuel : Nat) (c : Slot),
    searchReady k' cur fuel c = searchReady k cur fuel c := by
  intro fuel
  induction fuel with
  | zero =>
    intro _
    rfl
  | succ fuel ih =>
    intro c
    have hnext : nextOrHead k' c = nextOrHead k c := by
      unfold nextOrHead
      rw [ht, hl]
    have hrest : searchReady k' cur fuel = searchReady k cur fuel :=
      funext fun d => ih d
    unfold searchReady
    rw [ht, hnext, hrest]

theorem pickNext_congr {k k' : Kernel} (ht : k'.taskTable = k.taskTable)
    (hl : k'.taskList = k.taskList) (fuel : Nat) (cur : Slot) :
    pickNext fuel k' cur = pickNext fuel k cur := by
  have hrest : searchReady k' cur fuel = searchReady k cur fuel :=
    funext fun d => searchReady_congr ht hl fuel d
  unfold pickNext nextOrHead
  rw [ht, hl, hrest]

/-- The kernel's data after a switch from `cur` to `c`. -/
structure Switched (esp : Nat) (cur c : Slot) (k k' : Kernel) : Prop where
  ready : (k.taskTable c).state = .ready
  ne : c ≠ cur
  new : k'.taskTable c = { k.taskTable c with state := .running }
  prev : k'.taskTable cur = { k.taskTable cur with
    esp := esp
    state := if (k.taskTable cur).state = .running then .ready else (k.taskTable cur).state }
  others : ∀ j, j ≠ c → j ≠ cur → k'.taskTable j = k.taskTable j
  cur : k'.currentTask = some c
  list : k'.taskList = k.taskList
  pid : k'.nextPid = k.nextPid
  halted : k'.halted = k.halted
  pmm : k'.pmm = k.pmm
  mem : k'.mem = k.mem
  cr3 : k'.cr3 = (k.taskTable c).pageDirectory
  dir : k'.currentPageDirectory =
    if (k.taskTable c).pageDirectory = k.cr3 then k.currentPageDirectory
    else (k.taskTable c).pageDirectory
  esp0 : k'.esp0 = (k.taskTable c).kstack

section SwitchTask

variable (esp : Nat) (prev next : Slot) (k : Kernel)

theorem switchTask_taskTable : (switchTask esp prev next k).taskTable =
    Function.update k.taskTable prev { k.taskTable prev with esp := esp } := by
  unfold switchTask
  simp only
  split <;> rfl

/-- The switch reads fields that saving ESP does not change. -/
theorem switchTask_machine : (switchTask esp prev next k).toMachine = { k.toMachine with
    cr3 := (k.taskTable next).pageDirectory
    currentPageDirectory :=
      if (k.taskTable next).pageDirectory = k.cr3 then k.currentPageDirectory
      else (k.taskTable next).pageDirectory
    esp0 := (k.taskTable next).kstack } := by
  have hsame : ∀ x : Task, x.pageDirectory = (k.taskTable prev).pageDirectory →
      x.kstack = (k.taskTable prev).kstack →
      (Function.update k.taskTable prev x next).pageDirectory = (k.taskTable next).pageDirectory ∧
      (Function.update k.taskTable prev x next).kstack = (k.taskTable next).kstack := by
    intro x hp hk
    by_cases h : next = prev
    · rw [h, Function.update_self]
      exact ⟨hp, hk⟩
    · rw [Function.update_of_ne h]
      exact ⟨rfl, rfl⟩
  obtain ⟨hdir, hstack⟩ := hsame { k.taskTable prev with esp := esp } rfl rfl
  unfold switchTask
  simp only [hdir, hstack]
  split
  next heq => rw [heq]
  next => rfl

theorem switchTask_rest : (switchTask esp prev next k).taskList = k.taskList ∧
    (switchTask esp prev next k).currentTask = k.currentTask ∧
    (switchTask esp prev next k).nextPid = k.nextPid ∧
    (switchTask esp prev next k).halted = k.halted := by
  unfold switchTask
  simp only
  split <;> exact ⟨rfl, rfl, rfl, rfl⟩

end SwitchTask

/-- The states `schedule` writes before the switch. -/
theorem switchStates {k : Kernel} {cur c : Slot} (hne : c ≠ cur) (j : Slot) :
    setState (if (k.taskTable cur).state = .running then setState k.taskTable cur .ready
      else k.taskTable) c .running j =
    if j = c then { k.taskTable c with state := .running }
    else if j = cur then { k.taskTable cur with
      state := if (k.taskTable cur).state = .running then .ready else (k.taskTable cur).state }
    else k.taskTable j := by
  by_cases hjc : j = c
  · rw [if_pos hjc, hjc, setState_self]
    split
    · rw [setState_of_ne _ _ hne]
    · rfl
  · rw [if_neg hjc, setState_of_ne _ _ hjc]
    by_cases hjcur : j = cur
    · rw [if_pos hjcur, hjcur]
      split
      · rw [setState_self]
      · rfl
    · rw [if_neg hjcur]
      split
      · rw [setState_of_ne _ _ hjcur]
      · rfl

theorem switchTo_switched {k : Kernel} {cur c : Slot} (esp : Nat) (hne : c ≠ cur)
    (hready : (k.taskTable c).state = .ready) : Switched esp cur c k (switchTo esp cur c k) := by
  have hrest := switchTask_rest esp cur c { k with
    taskTable := setState (if (k.taskTable cur).state = .running then setState k.taskTable cur .ready
      else k.taskTable) c .running
    currentTask := some c }
  have hmachine : (switchTo esp cur c k).toMachine = { k.toMachine with
      cr3 := (k.taskTable c).pageDirectory
      currentPageDirectory :=
        if (k.taskTable c).pageDirectory = k.cr3 then k.currentPageDirectory
        else (k.taskTable c).pageDirectory
      esp0 := (k.taskTable c).kstack } := by
    unfold switchTo
    rw [switchTask_machine]
    simp only [switchStates hne, if_pos]
  have htable : ∀ j, (switchTo esp cur c k).taskTable j =
      if j = c then { k.taskTable c with state := .running }
      else if j = cur then { k.taskTable cur with
        esp := esp
        state := if (k.taskTable cur).state = .running then .ready else (k.taskTable cur).state }
      else k.taskTable j := by
    intro j
    unfold switchTo
    rw [switchTask_taskTable]
    by_cases hj : j = cur
    · simp only [hj, Function.update_self, switchStates hne, if_neg hne.symm, if_pos]
    · rw [Function.update_of_ne hj]
      simp only [switchStates hne, if_neg hj]
  refine ⟨hready, hne, ?_, ?_, fun j hj hj' => ?_, hrest.2.1, hrest.1, hrest.2.2.1, hrest.2.2.2,
    by rw [hmachine], by rw [hmachine], by rw [hmachine], by rw [hmachine], by rw [hmachine]⟩
  · rw [htable, if_pos rfl]
  · rw [htable, if_neg hne.symm, if_pos rfl]
  · rw [htable, if_neg hj, if_neg hj']

/-- **`schedule`.** The search comes back to the current task and nothing
happens, or it finds another READY task and switches to it. -/
theorem schedule_cases {fuel esp : Nat} {k k' : Kernel} {cur : Slot}
    (hcur : k.currentTask = some cur) (h : schedule fuel esp k = some k') :
    (pickNext fuel k cur = some cur ∧ k' = k) ∨
    ∃ c, pickNext fuel k cur = some c ∧ Switched esp cur c k k' := by
  unfold schedule at h
  rw [hcur, Option.elim_some] at h
  obtain ⟨c, hpick, rfl⟩ := Option.map_eq_some_iff.mp h
  by_cases hc : c = cur
  · rw [if_neg fun hn => hn.1 hc]
    exact Or.inl ⟨hc ▸ hpick, rfl⟩
  · have hready := (pickNext_spec hpick).resolve_left hc
    rw [if_pos ⟨hc, hready⟩]
    exact Or.inr ⟨c, hpick, switchTo_switched esp hc hready⟩

/-- **`task_yield`.** -/
theorem taskYield_cases {fuel esp : Nat} {k k' : Kernel} {cur : Slot}
    (hcur : k.currentTask = some cur) (h : taskYield fuel esp k = some k') :
    k' = { k with intFlag := true } ∨
    ∃ c, pickNext fuel k cur = some c ∧ Switched esp cur c k k' := by
  obtain ⟨k₁, hs, rfl⟩ := Option.map_eq_some_iff.mp h
  rcases schedule_cases (k := { k with intFlag := false }) hcur hs with ⟨-, rfl⟩ | ⟨c, hpick, hsw⟩
  · exact Or.inl rfl
  · have hsame : pickNext fuel { k with intFlag := false } cur = pickNext fuel k cur :=
      pickNext_congr (by rfl) (by rfl) fuel cur
    exact Or.inr ⟨c, hsame.symm.trans hpick, hsw.ready, hsw.ne, hsw.new, hsw.prev, hsw.others, hsw.cur, hsw.list, hsw.pid,
      hsw.halted, hsw.pmm, hsw.mem, hsw.cr3, hsw.dir, hsw.esp0⟩

/-- The kernel with its current task marked. -/
def markZombie (k : Kernel) (cur : Slot) : Kernel :=
  { k with intFlag := false, taskTable := setState k.taskTable cur .zombie }

/-- **`task_exit`.** The task is marked; then the kernel stops because the
search comes back to it, or another task goes on. -/
theorem taskExit_cases {fuel esp : Nat} {k k' : Kernel} {cur : Slot}
    (hcur : k.currentTask = some cur) (hrun : k.halted = false)
    (h : taskExit fuel esp k = some k') :
    (pickNext fuel (markZombie k cur) cur = some cur ∧
      k' = { markZombie k cur with halted := true }) ∨
    ∃ c, pickNext fuel (markZombie k cur) cur = some c ∧
      Switched esp cur c (markZombie k cur) k' := by
  obtain ⟨cur', hcur', hmap⟩ := Option.bind_eq_some_iff.mp h
  have heq : cur' = cur := Option.some.inj (hcur'.symm.trans hcur)
  subst heq
  obtain ⟨k₁, hs, rfl⟩ := Option.map_eq_some_iff.mp hmap
  rcases schedule_cases (k := markZombie k cur') hcur hs with ⟨hpick, rfl⟩ | ⟨c, hpick, hsw⟩
  · refine Or.inl ⟨hpick, ?_⟩
    have hstop : decide ((markZombie k cur').currentTask = k.currentTask) = true :=
      decide_eq_true rfl
    rw [hstop]
    rfl
  · have hgo : decide (k₁.currentTask = k.currentTask) = false := by
      rw [hsw.cur, hcur]
      exact decide_eq_false fun heq => hsw.ne (Option.some.inj heq)
    refine Or.inr ⟨c, hpick, hsw.ready, hsw.ne, hsw.new, hsw.prev, hsw.others, hsw.cur, hsw.list,
      hsw.pid, ?_, hsw.pmm, hsw.mem, hsw.cr3, hsw.dir, hsw.esp0⟩
    show decide (k₁.currentTask = k.currentTask) = k.halted
    rw [hgo, hrun]

/-- The directory `task_user_bootstrap` maps the stack in. -/
def bootDir (k : Kernel) (cur : Slot) : Nat :=
  if (k.taskTable cur).pageDirectory ≠ 0 then (k.taskTable cur).pageDirectory
  else k.currentPageDirectory

/-- `task_user_bootstrap` takes a block and maps it under the task's
directory, which is active from then on. -/
theorem taskUserBootstrap_runs {k k' : Kernel} {cur : Slot} (hcur : k.currentTask = some cur)
    (h : taskUserBootstrap k = .ok k') :
    ∃ m m' : Machine, m.mem = k.mem ∧ m.pmm = (pmmAllocBlock k.pmm).2 ∧
      m.currentPageDirectory = bootDir k cur ∧
      (k.cr3 = k.currentPageDirectory → m.cr3 = bootDir k cur) ∧
      vmmMapPage (pmmAllocBlock k.pmm).1 ustackVirt (flagPresent ||| flagWrite ||| flagUser) m
        = .ok m' ∧
      k' = { k with toMachine := { m' with esp0 := (k.taskTable cur).kstack } } := by
  unfold taskUserBootstrap at h
  rw [hcur, Option.elim_some] at h
  unfold bootstrapIn at h
  by_cases hsw : (k.taskTable cur).pageDirectory ≠ 0 ∧
      (k.taskTable cur).pageDirectory ≠ k.currentPageDirectory
  · simp only [if_pos hsw] at h
    obtain ⟨m', hmap, rfl⟩ := map_eq_ok h
    have hdir : bootDir k cur = (k.taskTable cur).pageDirectory := if_pos hsw.1
    rw [hdir]
    exact ⟨{ k.toMachine with
      pmm := (pmmAllocBlock k.pmm).2
      currentPageDirectory := (k.taskTable cur).pageDirectory
      cr3 := (k.taskTable cur).pageDirectory }, m', rfl, rfl, rfl, fun _ => rfl, hmap, rfl⟩
  · simp only [if_neg hsw] at h
    obtain ⟨m', hmap, rfl⟩ := map_eq_ok h
    have hdir : bootDir k cur = k.currentPageDirectory := by
      unfold bootDir
      split
      next h0 => exact Decidable.of_not_not fun hne => hsw ⟨h0, hne⟩
      next => rfl
    rw [hdir]
    exact ⟨{ k.toMachine with pmm := (pmmAllocBlock k.pmm).2 }, m', rfl, rfl, rfl,
      fun hcr3 => hcr3, hmap, rfl⟩

/-- **`task_user_bootstrap`**, by a task whose directory is active: the
directory stays, blocks are taken at most, and the trap stack is the
task's. -/
theorem taskUserBootstrap_spec {k k' : Kernel} {cur : Slot} (hcur : k.currentTask = some cur)
    (hdir : (k.taskTable cur).pageDirectory = k.currentPageDirectory)
    (h : taskUserBootstrap k = .ok k') :
    ∃ m, Grows k.toMachine m ∧
      k' = { k with toMachine := { m with esp0 := (k.taskTable cur).kstack } } := by
  unfold taskUserBootstrap at h
  rw [hcur, Option.elim_some] at h
  unfold bootstrapIn at h
  simp only [if_neg fun hn : (k.taskTable cur).pageDirectory ≠ 0 ∧
    (k.taskTable cur).pageDirectory ≠ k.currentPageDirectory => hn.2 hdir] at h
  obtain ⟨m, hmap, rfl⟩ := map_eq_ok h
  exact ⟨m, ((quiet_alloc k.toMachine).trans (vmmMapPage_quiet hmap)).toGrows, rfl⟩

end MyOS
