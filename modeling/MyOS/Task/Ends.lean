import MyOS.Lib.Walks
import MyOS.Task.Inv

/-!
# The scheduler's loops end

`task_create` walks to the tail of the list, and `schedule` walks on from the
current task, wrapping to the head at the end, until it meets a READY task or
the current one again. A reused slot can cut the list, so that tasks, even the
current one, are no longer on it; then nothing in the list itself makes
`schedule` come back to where it started.

Two invariants make both loops end. The pointers never form a cycle: the
append writes one new pointer, to the slot whose own pointer becomes `NULL`
next. And the boot task, which the walk comes to at the latest when it wraps,
is READY whenever it is not current, as long as it does not call `task_exit`
itself (`BootStays`). So 33 steps are enough (`kernelRun_loops_end`). Nothing
else about the run matters, neither memory nor the allocator.
-/

namespace MyOS

open Lib Lib.Mem Lib.Paging

/-- `task_exit` is not called by the boot task. -/
def KernelOp.NotBootExit (s : Trace) : KernelOp → Prop
  | exit _ => s.kernel.currentTask ≠ some 0
  | _ => True

/-- The boot task does not exit in the run. -/
def BootStays (c : Config) (s : Trace) : List KernelOp → Prop
  | [] => True
  | op :: ops => op.NotBootExit s ∧ ∀ s', op.apply c s = some s' → BootStays c s' ops

structure LoopInv (k : Kernel) : Prop where
  list : k.taskList = some 0
  acyclic : Acyclic (links k.taskTable)
  cur : ∃ c, k.currentTask = some c
  boot : (k.taskTable 0).state = if k.currentTask = some 0 then .running else .ready

/-! ## Enough fuel -/

section Fuel

variable {k : Kernel} {cur : Slot}

/-- The search ends at the latest at the head, if it stops there. -/
theorem searchReady_isSome (hlist : k.taskList = some 0)
    (hstop : 0 = cur ∨ (k.taskTable 0).state = .ready) : ∀ {l : List Slot} {c : Slot} {fuel : Nat},
    Chain (links k.taskTable) (some c) l → l.length < fuel →
    ∃ d, searchReady k cur fuel c = some d := by
  intro l
  induction l with
  | nil =>
    intro c fuel h _
    exact absurd h (by simp [Chain])
  | cons b l ih =>
    intro c fuel h hfuel
    have hcb : c = b := Option.some.inj h.1
    subst hcb
    rw [List.length_cons] at hfuel
    obtain ⟨fuel, rfl⟩ : ∃ n, fuel = n + 1 := Nat.exists_eq_succ_of_ne_zero (by omega)
    by_cases hc : c = cur ∨ (k.taskTable c).state = .ready
    · exact ⟨c, if_pos hc⟩
    have hgo : searchReady k cur (fuel + 1) c = (nextOrHead k c).bind (searchReady k cur fuel) :=
      if_neg hc
    rw [hgo]
    unfold nextOrHead
    cases hn : (k.taskTable c).next with
    | none =>
      rw [Option.none_or, hlist, Option.bind_some]
      obtain ⟨fuel', rfl⟩ : ∃ n, fuel = n + 1 := Nat.exists_eq_succ_of_ne_zero (by omega)
      exact ⟨0, if_pos hstop⟩
    | some d =>
      rw [Option.some_or, Option.bind_some]
      have hrest : Chain (links k.taskTable) (links k.taskTable c) l := h.2
      have hlink : links k.taskTable c = some d := hn
      rw [hlink] at hrest
      exact ih hrest (by omega)

theorem pickNext_isSome (hlist : k.taskList = some 0) (hacyc : Acyclic (links k.taskTable))
    (hstop : 0 = cur ∨ (k.taskTable 0).state = .ready) {fuel : Nat} (hfuel : 33 ≤ fuel) :
    ∃ d, pickNext fuel k cur = some d := by
  obtain ⟨c, hc⟩ : ∃ c, nextOrHead k cur = some c := by
    unfold nextOrHead
    rw [hlist]
    cases (k.taskTable cur).next with
    | none => exact ⟨0, rfl⟩
    | some d => exact ⟨d, rfl⟩
  obtain ⟨l, hl⟩ := hacyc.exists_chain (some c)
  have hlen : l.length ≤ 32 := hl.nodup.length_le_card.trans (by rw [Fintype.card_fin])
  unfold pickNext
  rw [hc, Option.bind_some]
  exact searchReady_isSome hlist hstop hl (by omega)

theorem LoopInv.stop (h : LoopInv k) (hcur : k.currentTask = some cur) :
    0 = cur ∨ (k.taskTable 0).state = .ready := by
  by_cases h0 : 0 = cur
  · exact Or.inl h0
  · refine Or.inr ?_
    rw [h.boot, if_neg]
    rw [hcur]
    exact fun heq => h0 (Option.some.inj heq).symm

theorem LoopInv.schedule_isSome (h : LoopInv k) {fuel : Nat} (hfuel : 33 ≤ fuel) (esp : Nat) :
    ∃ k', schedule fuel esp k = some k' := by
  obtain ⟨cur, hcur⟩ := h.cur
  obtain ⟨d, hd⟩ := pickNext_isSome h.list h.acyclic (h.stop hcur) hfuel
  refine ⟨if d ≠ cur ∧ (k.taskTable d).state = .ready then switchTo esp cur d k else k, ?_⟩
  unfold schedule scheduleFrom
  rw [hcur, Option.elim_some, hd, Option.map_some]

theorem LoopInv.tail_isSome (h : LoopInv k) {fuel : Nat} (hfuel : 33 ≤ fuel) :
    ∃ t, tailFrom (links k.taskTable) fuel 0 = some t := by
  obtain ⟨l, hl⟩ := h.acyclic.exists_chain (some 0)
  have hlen : l.length ≤ 32 := hl.nodup.length_le_card.trans (by rw [Fintype.card_fin])
  exact hl.tailFrom_isSome (by omega)

/-- `cli` does not matter here. -/
theorem LoopInv.congr {k' : Kernel} (h : LoopInv k) (htable : k'.taskTable = k.taskTable)
    (hlist : k'.taskList = k.taskList) (hcur : k'.currentTask = k.currentTask) : LoopInv k' := by
  refine ⟨hlist.trans h.list, ?_, ?_, ?_⟩
  · rw [htable]
    exact h.acyclic
  · rw [hcur]
    exact h.cur
  · rw [htable, hcur]
    exact h.boot

theorem LoopInv.taskYield_isSome (h : LoopInv k) {fuel : Nat} (hfuel : 33 ≤ fuel) (esp : Nat) :
    ∃ k', taskYield fuel esp k = some k' := by
  have hcli : LoopInv { k with intFlag := false } := h.congr rfl rfl rfl
  obtain ⟨k', hk'⟩ := hcli.schedule_isSome hfuel esp
  refine ⟨{ k' with intFlag := true }, ?_⟩
  unfold taskYield
  rw [hk', Option.map_some]

/-- Marking a task changes no pointer. -/
theorem links_markZombie (k : Kernel) (cur : Slot) :
    links (markZombie k cur).taskTable = links k.taskTable :=
  funext fun j => (markZombie_fields k cur j).2.2.1

theorem LoopInv.taskExit_isSome (h : LoopInv k) {fuel : Nat} (hfuel : 33 ≤ fuel) (esp : Nat) :
    ∃ k', taskExit fuel esp k = some k' := by
  obtain ⟨cur, hcur⟩ := h.cur
  have hacyc : Acyclic (links (markZombie k cur).taskTable) := by
    rw [links_markZombie]
    exact h.acyclic
  have hstop : 0 = cur ∨ ((markZombie k cur).taskTable 0).state = .ready := by
    refine (h.stop hcur).imp_right fun hready => ?_
    by_cases h0 : 0 = cur
    · exact absurd hready (by rw [h.boot, hcur, ← h0]; simp)
    · exact (congrArg Task.state (setState_of_ne _ _ h0)).trans hready
  obtain ⟨d, hd⟩ := pickNext_isSome (k := markZombie k cur) h.list hacyc hstop hfuel
  have hsched : ∃ k', schedule fuel esp (markZombie k cur) = some k' := by
    unfold schedule scheduleFrom
    rw [show (markZombie k cur).currentTask = some cur from hcur, Option.elim_some, hd,
      Option.map_some]
    exact ⟨_, rfl⟩
  obtain ⟨k', hk'⟩ := hsched
  exact ⟨_, Option.bind_eq_some_iff.mpr ⟨cur, hcur, Option.map_eq_some_iff.mpr ⟨k', hk', rfl⟩⟩⟩

/-- `task_create` does not end in its walk. -/
theorem LoopInv.taskCreate_ne_loop (h : LoopInv k) {fuel : Nat} (hfuel : 33 ≤ fuel) (sym : Symbols)
    (entry pageDir : Nat) (isUser : Bool) :
    taskCreate sym fuel entry pageDir isUser k ≠ .error .loop := by
  obtain ⟨t, ht⟩ := h.tail_isSome hfuel
  unfold taskCreate
  cases findSlot k.taskTable with
  | none =>
    rw [Option.elim_none]
    exact fun hrun => absurd hrun (by simp)
  | some i =>
    rw [Option.elim_some]
    unfold createIn
    by_cases hnull : (pmmAllocBlock k.pmm).1 = 0
    · rw [if_pos hnull]
      exact fun hrun => absurd hrun (by simp)
    rw [if_neg hnull]
    intro hrun
    rcases bind_eq_error hrun with hmap | ⟨m, -, hstart⟩
    · obtain ⟨p, hp⟩ := mapError_eq_error hmap
      exact absurd hp (by simp)
    · -- the fields of the new task were written before the walk, but no pointer
      unfold startTask appendTask at hstart
      simp only [h.list, Option.elim_some, links_newTask, ht] at hstart
      exact absurd hstart (by simp [ok_map])

end Fuel

/-! ## The invariant -/

section Step

variable {k k' : Kernel} {cur : Slot}

theorem LoopInv.markZombie (h : LoopInv k) (hcur : k.currentTask = some cur) (hne : cur ≠ 0) :
    LoopInv (MyOS.markZombie k cur) := by
  refine ⟨h.list, ?_, ⟨cur, hcur⟩, ?_⟩
  · rw [links_markZombie]
    exact h.acyclic
  · exact (congrArg Task.state (setState_of_ne _ _ hne.symm)).trans h.boot

theorem LoopInv.switched {esp : Nat} {d : Slot} (h : LoopInv k) (hcur : k.currentTask = some cur)
    (hs : Switched esp cur d k k') : LoopInv k' := by
  have hlinks : links k'.taskTable = links k.taskTable := funext fun j => (hs.fields j).2.2.1
  refine ⟨hs.list.trans h.list, ?_, ⟨d, hs.cur⟩, ?_⟩
  · rw [hlinks]
    exact h.acyclic
  · have hboot := h.boot
    rw [hcur] at hboot
    rw [hs.cur]
    by_cases hd : 0 = d
    · rw [if_pos (congrArg some hd.symm), hd, hs.new]
    · rw [if_neg fun heq => hd (Option.some.inj heq).symm]
      by_cases h0 : 0 = cur
      · -- the boot task was RUNNING
        rw [if_pos (congrArg some h0.symm), h0] at hboot
        rw [h0, hs.prev]
        exact if_pos hboot
      · rw [if_neg fun heq => h0 (Option.some.inj heq).symm] at hboot
        rw [hs.others 0 hd h0]
        exact hboot

/-- The two pointers an append writes. -/
theorem appendTask_links {fuel : Nat} {i head : Slot} (hlist : k.taskList = some head)
    (h : appendTask fuel i k = .ok k') : k'.taskList = some head ∧ ∃ t, links k'.taskTable
      = Function.update (Function.update (links k.taskTable) t (some i)) i none := by
  unfold appendTask at h
  rw [hlist, Option.elim_some] at h
  cases htail : tailFrom (links k.taskTable) fuel head with
  | none =>
    rw [htail, Option.elim_none] at h
    exact absurd h (by simp)
  | some t =>
    rw [htail, Option.elim_some] at h
    cases h
    exact ⟨rfl, t, by rw [links_setNext, links_setNext]⟩

theorem LoopInv.created {sym : Symbols} {fuel entry pageDir : Nat} {isUser : Bool}
    {r : Option Slot} (h : LoopInv k)
    (hrun : taskCreate sym fuel entry pageDir isUser k = .ok (r, k')) : LoopInv k' := by
  rcases taskCreate_runs hrun with ⟨-, -, rfl⟩ | ⟨-, -, rfl⟩ | ⟨i, b, m, -, hm⟩
  · exact h.congr rfl rfl rfl
  · exact h.congr rfl rfl rfl
  · have hi0 : i ≠ 0 := (findSlot_some hm.slot).1
    obtain ⟨hlist, t, hlinks⟩ := appendTask_links (by exact h.list) hm.append
    have hcur : k'.currentTask = k.currentTask := (appendTask_fields hm.append).2.1
    refine ⟨hlist, ?_, ?_, ?_⟩
    · rw [hlinks, links_newTask]
      exact h.acyclic.link t i
    · rw [hcur]
      exact h.cur
    · rw [hm.old hi0.symm, hcur]
      exact h.boot

/-- `task_user_bootstrap` changes the machine only. -/
theorem taskUserBootstrap_table (hrun : taskUserBootstrap k = .ok k') :
    k'.taskTable = k.taskTable ∧ k'.taskList = k.taskList ∧ k'.currentTask = k.currentTask := by
  unfold taskUserBootstrap at hrun
  cases hcur : k.currentTask with
  | none =>
    rw [hcur, Option.elim_none] at hrun
    cases hrun
    exact ⟨rfl, rfl, hcur⟩
  | some cur =>
    rw [hcur, Option.elim_some] at hrun
    unfold bootstrapIn at hrun
    obtain ⟨m, -, rfl⟩ := map_eq_ok hrun
    exact ⟨rfl, rfl, hcur⟩

/-- **One step.** -/
theorem LoopInv.step {c : Config} {s s' : Trace} (h : LoopInv s.kernel) {op : KernelOp}
    (hexit : op.NotBootExit s) (hstep : op.apply c s = some s') : LoopInv s'.kernel := by
  unfold KernelOp.apply at hstep
  split at hstep
  · exact absurd hstep (by simp)
  next hgo =>
  have hrun : s.kernel.halted = false := Bool.eq_false_of_not_eq_true hgo
  obtain ⟨cur, hcur⟩ := h.cur
  cases op with
  | create entry pageDir isUser =>
    obtain ⟨⟨r, k'⟩, hcreate, rfl⟩ := Option.map_eq_some_iff.mp hstep
    have hk' := h.created (toOption_eq_some hcreate)
    cases r with
    | none => exact hk'
    | some i => exact hk'
  | schedule esp =>
    obtain ⟨k', hs, rfl⟩ := Option.map_eq_some_iff.mp hstep
    rcases schedule_cases hcur hs with ⟨-, rfl⟩ | ⟨d, -, hsw⟩
    · exact h
    · exact h.switched hcur hsw
  | yield esp =>
    obtain ⟨k', hs, rfl⟩ := Option.map_eq_some_iff.mp hstep
    rcases taskYield_cases hcur hs with rfl | ⟨d, -, hsw⟩
    · exact h.congr rfl rfl rfl
    · exact h.switched hcur hsw
  | exit esp =>
    obtain ⟨k', hs, rfl⟩ := Option.map_eq_some_iff.mp hstep
    have hne : cur ≠ 0 := fun h0 => hexit (h0 ▸ hcur)
    have hz := h.markZombie hcur hne
    rcases taskExit_cases hcur hrun hs with ⟨-, rfl⟩ | ⟨d, -, hsw⟩
    · exact hz.congr rfl rfl rfl
    · exact hz.switched hcur hsw
  | userBootstrap =>
    obtain ⟨k', hs, rfl⟩ := Option.map_eq_some_iff.mp hstep
    obtain ⟨htable, hlist, hsame⟩ := taskUserBootstrap_table (toOption_eq_some hs)
    exact h.congr htable hlist hsame
  | load path =>
    obtain ⟨r, -, rfl⟩ := Option.map_eq_some_iff.mp hstep
    exact h.congr rfl rfl rfl
  | env m =>
    cases hstep
    exact h.congr rfl rfl rfl

theorem LoopInv.run {c : Config} : ∀ (ops : List KernelOp) {s s' : Trace}, LoopInv s.kernel →
    BootStays c s ops → kernelRun c s ops = some s' → LoopInv s'.kernel := by
  intro ops
  induction ops with
  | nil =>
    intro s s' h _ hrun
    cases hrun
    exact h
  | cons op ops ih =>
    intro s s' h hstay hrun
    obtain ⟨s₁, hstep, hrest⟩ := Option.bind_eq_some_iff.mp hrun
    exact ih (h.step hstay.1 hstep) (hstay.2 s₁ hstep) hrest

end Step

/-- After `scheduler_init` there are no pointers. -/
theorem loopInv_start (m : Machine) : LoopInv (schedulerInit m) := by
  refine ⟨rfl, fun a ha => ?_, ⟨0, rfl⟩, rfl⟩
  obtain ⟨b, hab, -⟩ := Relation.TransGen.head'_iff.mp ha
  have hnone : links (schedulerInit m).taskTable a = none := by
    show (if a = 0 then ({ Task.zero with pid := 1, state := .running, pageDirectory := m.cr3 } : Task)
      else Task.zero).next = none
    split <;> rfl
  rw [hnone] at hab
  exact absurd hab (by simp)

/-- **The scheduler's loops end.** In every state reached by any run in which
the boot task does not exit: no slot is reached from itself along the `next`
pointers; and with fuel for 33 steps the walk to the tail finds it,
`task_create` does not fail in its walk, and the search of `schedule`, also
out of `task_yield` and `task_exit`, ends. -/
theorem kernelRun_loops_end (c : Config) (m : Machine) (ops : List KernelOp) (s : Trace)
    (hstay : BootStays c (startTrace m) ops) (hrun : kernelRun c (startTrace m) ops = some s) :
    (∀ i, ¬Relation.TransGen (fun a b => (s.kernel.taskTable a).next = some b) i i) ∧
    ∀ fuel ≥ 33,
      (∃ t, tailFrom (links s.kernel.taskTable) fuel 0 = some t) ∧
      (∀ sym entry pageDir isUser,
        taskCreate sym fuel entry pageDir isUser s.kernel ≠ .error .loop) ∧
      (∃ cur d, s.kernel.currentTask = some cur ∧ pickNext fuel s.kernel cur = some d) ∧
      ∀ esp, (∃ k', schedule fuel esp s.kernel = some k') ∧
        (∃ k', taskYield fuel esp s.kernel = some k') ∧
        ∃ k', taskExit fuel esp s.kernel = some k' := by
  have h : LoopInv s.kernel := (loopInv_start m).run ops hstay hrun
  refine ⟨h.acyclic, fun fuel hfuel => ⟨h.tail_isSome hfuel,
    fun sym entry pageDir isUser => h.taskCreate_ne_loop hfuel sym entry pageDir isUser, ?_,
    fun esp => ⟨h.schedule_isSome hfuel esp, h.taskYield_isSome hfuel esp,
      h.taskExit_isSome hfuel esp⟩⟩⟩
  obtain ⟨cur, hcur⟩ := h.cur
  obtain ⟨d, hd⟩ := pickNext_isSome h.list h.acyclic (h.stop hcur) hfuel
  exact ⟨cur, d, hcur, hd⟩

/-- The slot of an exited task is taken out of the middle of the list: the
list is cut behind slot 1, and slot 2, which is not on it any more, runs. -/
theorem kernelRun_loops_end_cut : ∃ s, kernelRun taskConfig (startTrace taskMachine)
      [.create 0x101000 0 false, .create 0x102000 0 false, .schedule 0x9000, .exit 0x101F00,
        .create 0x103000 0 false] = some s ∧
    s.kernel.currentTask = some 2 ∧ s.kernel.taskList = some 0 ∧
    links s.kernel.taskTable 0 = some 1 ∧ links s.kernel.taskTable 1 = none ∧
    ∀ fuel ≥ 33, ∀ esp, ∃ k', schedule fuel esp s.kernel = some k' := by
  have hmap : (kernelRun taskConfig (startTrace taskMachine)
      [.create 0x101000 0 false, .create 0x102000 0 false, .schedule 0x9000, .exit 0x101F00,
        .create 0x103000 0 false]).map
      (fun s => decide (s.kernel.currentTask = some 2 ∧ s.kernel.taskList = some 0 ∧
        links s.kernel.taskTable 0 = some 1 ∧ links s.kernel.taskTable 1 = none)) = some true := by
    decide +kernel
  obtain ⟨s, hrun, hs⟩ := Option.map_eq_some_iff.mp hmap
  obtain ⟨hcur, hlist, h0, h1⟩ := of_decide_eq_true hs
  have hstay : BootStays taskConfig (startTrace taskMachine) [.create 0x101000 0 false,
      .create 0x102000 0 false, .schedule 0x9000, .exit 0x101F00, .create 0x103000 0 false] := by
    refine ⟨trivial, fun s₁ hs₁ => ⟨trivial, fun s₂ hs₂ => ⟨trivial, fun s₃ hs₃ =>
      ⟨?_, fun _ _ => ⟨trivial, fun _ _ => trivial⟩⟩⟩⟩⟩
    have hexit : (kernelRun taskConfig (startTrace taskMachine)
        [.create 0x101000 0 false, .create 0x102000 0 false, .schedule 0x9000]).map
        (fun s => s.kernel.currentTask) = some (some 1) := by decide +kernel
    simp only [kernelRun, hs₁, hs₂, hs₃, Option.bind_some, Option.map_some] at hexit
    show s₃.kernel.currentTask ≠ some 0
    rw [Option.some.inj hexit]
    decide
  refine ⟨s, hrun, hcur, hlist, h0, h1, fun fuel hfuel esp => ?_⟩
  exact ((((kernelRun_loops_end taskConfig taskMachine _ s hstay hrun).2 fuel hfuel).2.2.2) esp).1

end MyOS
