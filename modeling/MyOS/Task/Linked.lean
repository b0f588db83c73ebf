import MyOS.Task.Stacks

/-!
# The list of tasks

`task_exit` leaves an exited task in the list. `task_create` appends the slot
it takes behind the tail without taking it out first. If the slot was never
used, or belongs to the task at the tail, the list is again a chain of all
assigned slots. If the slot belongs to a task in the middle, its pointer is
set to `NULL` where it stands: the chain now ends there, and every task
behind it, possibly the running one, is lost to `schedule`.

`kernelRun_list_iff` makes this exact: the list is whole in every state of a
run if and only if no call of the run takes the slot of an exited task that
has a successor (`KeepsTailRun`).
-/

namespace MyOS

open Lib Lib.Mem Lib.Paging

/-- The list ends, and every assigned slot is on it. -/
def Listed (s : Trace) : Prop :=
  ∃ l, Chain (links s.kernel.taskTable) s.kernel.taskList l ∧
    ∀ i, (s.kernel.taskTable i).pid ≠ 0 → i ∈ l

/-- The slot `task_create` would take was never used or has no successor, or
there is no block for it. -/
def KernelOp.KeepsTail (s : Trace) : KernelOp → Prop
  | create _ _ _ => ∀ i, findSlot s.kernel.taskTable = some i →
      (s.kernel.taskTable i).pid = 0 ∨ (s.kernel.taskTable i).next = none ∨
        freeCount s.kernel.pmm = 0
  | _ => True

/-- No call of the run takes a slot out of the middle of the list. -/
def KeepsTailRun (c : Config) (s : Trace) : List KernelOp → Prop
  | [] => True
  | op :: ops => op.KeepsTail s ∧ ∀ s', op.apply c s = some s' → KeepsTailRun c s' ops

section Step

variable {c : Config} {s s' : Trace}

/-- Only assigned slots are on the list. -/
theorem TableInv.chain_pid {k : Kernel} {kstacks : List Nat} (h : TableInv k kstacks) {l : List Slot}
    (hl : Chain (links k.taskTable) k.taskList l) : ∀ i ∈ l, (k.taskTable i).pid ≠ 0 := by
  refine hl.forall_mem h.target fun i hi => ?_
  rw [h.list] at hi
  cases hi
  rw [h.boot]
  exact Nat.one_ne_zero

theorem Listed.same (h : Listed s) (hs : SameTable s s') : Listed s' := by
  obtain ⟨l, hl, hall⟩ := h
  refine ⟨l, ?_, fun i hi => hall i ((hs.pid i).symm.trans_ne hi)⟩
  rw [hs.list]
  exact hl.congr fun i _ => hs.next i

/-- A new task: the list stays whole exactly if its slot was not in use or
was the tail. -/
theorem listed_created_iff {entry pageDir b : Nat} {i t : Slot} (h : Listed s)
    (hinv : TaskInv c.fuel s) (hnew : Created entry pageDir i b t s.kernel s'.kernel) :
    Listed s' ↔ (s.kernel.taskTable i).pid = 0 ∨ (s.kernel.taskTable i).next = none := by
  obtain ⟨l, hl, hall⟩ := h
  have hassigned := hinv.table.chain_pid hl
  obtain ⟨fuel, head, hhead, htail⟩ := hnew.tail
  rw [hhead] at hl
  obtain ⟨l₀, rfl⟩ := hl.tailFrom_eq htail
  have hold : ∀ {j}, j ≠ i → (s'.kernel.taskTable j).pid = (s.kernel.taskTable j).pid := by
    intro j hj
    rw [hnew.old hj]
  have hlist : s'.kernel.taskList = some head := hnew.list.trans hhead
  constructor
  · rintro ⟨l', hl', hall'⟩
    by_contra hbad
    obtain ⟨hpid, hnext⟩ := not_or.mp hbad
    -- slot `i` stands before the tail
    have hti : t ≠ i := fun heq => hnext (heq ▸ hl.last_next)
    obtain ⟨l₁, l₂, heq, -⟩ := hl.of_mem (hall i hpid)
    have hnodup := hl.nodup
    rw [heq] at hnodup
    obtain ⟨-, -, hdisj⟩ := List.nodup_append.mp hnodup
    have hlast : (i :: l₂).getLast? = some t := by
      rw [← List.getLast?_append_of_ne_nil l₁ (List.cons_ne_nil i l₂), ← heq, List.getLast?_concat]
    have ht₁ : t ∉ l₁ := fun hm => hdisj t hm t (List.mem_of_getLast? hlast) rfl
    have hi₁ : i ∉ l₁ := fun hm => hdisj i hm i List.mem_cons_self rfl
    rw [heq] at hl
    have hcut := hl.cut (t := t) (x := some i) ht₁ hi₁
    rw [hlist, hnew.links_eq] at hl'
    have hsame := hl'.unique hcut
    have htpid : (s'.kernel.taskTable t).pid ≠ 0 := by
      rw [hold hti]
      exact hassigned t (List.mem_append_right _ List.mem_cons_self)
    have hmem := hall' t htpid
    rw [hsame] at hmem
    rcases List.mem_append.mp hmem with hm | hm
    · exact ht₁ hm
    · exact hti (List.mem_singleton.mp hm)
  · intro hgood
    by_cases hpid : (s.kernel.taskTable i).pid = 0
    · have hfresh : i ∉ l₀ ++ [t] := fun hm => hassigned i hm hpid
      refine ⟨l₀ ++ [t] ++ [i], ?_, fun j hj => ?_⟩
      · rw [hlist, hnew.links_eq]
        exact hl.append hfresh
      · by_cases hji : j = i
        · rw [hji]
          exact List.mem_append_right _ List.mem_cons_self
        · exact List.mem_append_left _ (hall j ((hold hji).symm.trans_ne hj))
    · -- the exited task is the tail, and stays it
      have hnext := hgood.resolve_left hpid
      obtain ⟨l₁, heq⟩ := hl.eq_last (hall i hpid) hnext
      have hti : t = i := List.singleton_inj.mp (List.append_inj' heq rfl).2
      refine ⟨l₀ ++ [t], ?_, fun j hj => ?_⟩
      · rw [hlist, hnew.links_eq, ← hti]
        exact hl.append_self
      · by_cases hji : j = i
        · rw [hji, ← hti]
          exact List.mem_append_right _ List.mem_cons_self
        · exact hall j ((hold hji).symm.trans_ne hj)

/-- **One step** keeps the list whole exactly if it takes no slot out of the
middle. -/
theorem listed_step_iff (h : Listed s) (hinv : TaskInv c.fuel s) {op : KernelOp}
    (hstep : op.apply c s = some s') : Listed s' ↔ op.KeepsTail s := by
  rcases hinv.step_cases hstep with ⟨hs, hfail⟩ | ⟨entry, pageDir, isUser, i, b, t, hop, hnew, -⟩
  · refine iff_of_true (h.same hs) ?_
    cases op with
    | create entry pageDir isUser =>
      intro i hi
      rcases hfail entry pageDir isUser rfl with hnone | hfull
      · exact absurd (hnone.symm.trans hi) (by simp)
      · exact Or.inr (Or.inr hfull)
    | _ => trivial
  · rw [listed_created_iff h hinv hnew, hop]
    refine ⟨fun hgood j hj => ?_, fun hkeep => ?_⟩
    · rw [hnew.slot] at hj
      cases hj
      exact hgood.imp_right Or.inl
    · rcases hkeep i hnew.slot with hp | hn | hfull
      · exact Or.inl hp
      · exact Or.inr hn
      · exact absurd hfull hnew.free.count_ne_zero

/-- The list is whole in every state of a run exactly if every step keeps
it. -/
theorem listed_run_iff : ∀ (ops : List KernelOp) {s s' : Trace}, Listed s → TaskInv c.fuel s →
    LegalKernelRun c s ops → kernelRun c s ops = some s' →
    ((∀ pre s₁, pre <+: ops → kernelRun c s pre = some s₁ → Listed s₁) ↔ KeepsTailRun c s ops) := by
  intro ops
  induction ops with
  | nil =>
    intro s s' h _ _ hrun
    refine iff_of_true (fun pre s₁ hpre hs₁ => ?_) trivial
    rw [List.prefix_nil.mp hpre] at hs₁
    cases hs₁
    exact h
  | cons op ops ih =>
    intro s s' h hinv hl hrun
    obtain ⟨s₁, hstep, hrest⟩ := Option.bind_eq_some_iff.mp hrun
    have hiff := listed_step_iff h hinv hstep
    have hinv₁ := hinv.step hl.1 hstep
    constructor
    · intro hall
      have h₁ : Listed s₁ := by
        refine hall [op] s₁ ⟨ops, rfl⟩ ?_
        unfold kernelRun
        rw [hstep]
        rfl
      refine ⟨hiff.mp h₁, fun s₂ hs₂ => ?_⟩
      rw [hstep] at hs₂
      cases hs₂
      refine (ih h₁ hinv₁ (hl.2 s₁ hstep) hrest).mp fun pre s₂ hpre hs₂ => ?_
      refine hall (op :: pre) s₂ (List.cons_prefix_cons.mpr ⟨rfl, hpre⟩) ?_
      unfold kernelRun
      rw [hstep]
      exact hs₂
    · rintro ⟨hkeep, hkeeps⟩ pre s₂ hpre hs₂
      have h₁ := hiff.mpr hkeep
      cases pre with
      | nil =>
        cases hs₂
        exact h
      | cons op' pre =>
        obtain ⟨rfl, hpre'⟩ := List.cons_prefix_cons.mp hpre
        obtain ⟨s₃, hs₃, hs₂⟩ := Option.bind_eq_some_iff.mp hs₂
        rw [hstep] at hs₃
        cases hs₃
        exact (ih h₁ hinv₁ (hl.2 s₁ hstep) hrest).mpr (hkeeps s₁ hstep) pre s₂ hpre' hs₂

end Step

theorem listed_start (m : Machine) : Listed (startTrace m) := by
  refine ⟨[0], ⟨rfl, rfl⟩, fun i hi => ?_⟩
  by_contra hne
  have hrest : (schedulerInit m).taskTable i = Task.zero := if_neg fun h0 => hne (by simp [h0])
  exact hi (congrArg Task.pid hrest)

/-- What the list is for: it is finite and without repetition, every assigned
slot is on it once, and so are the running task and all READY ones. -/
theorem Listed.spec {c : Config} {s : Trace} (hinv : TaskInv c.fuel s) : Listed s ↔
    ∃ l, Chain (links s.kernel.taskTable) s.kernel.taskList l ∧ l.Nodup ∧
      (∀ i, (s.kernel.taskTable i).pid ≠ 0 → l.count i = 1) ∧
      (∃ cur, s.kernel.currentTask = some cur ∧ cur ∈ l) ∧
      ∀ i, (s.kernel.taskTable i).pid ≠ 0 → (s.kernel.taskTable i).state = .ready → i ∈ l := by
  constructor
  · rintro ⟨l, hl, hall⟩
    obtain ⟨cur, hc⟩ := hinv.run
    exact ⟨l, hl, hl.nodup, fun i hi => List.count_eq_one_of_mem hl.nodup (hall i hi),
      ⟨cur, hc.cur, hall cur hc.pid⟩, fun i hi _ => hall i hi⟩
  · rintro ⟨l, hl, -, hall, -⟩
    refine ⟨l, hl, fun i hi => ?_⟩
    exact List.count_pos_iff.mp (by rw [hall i hi]; exact Nat.one_pos)

/-- **The list is whole if and only if no slot is taken out of its middle.**
Along a completed run: in every state it passes, the chain from `task_list` is
finite, repeats no slot, and has every assigned slot on it exactly once, with
the running task and all READY ones among them, exactly if no `task_create`
of the run takes the slot of an exited task with a successor. -/
theorem kernelRun_list_iff {c : Config} {m : Machine} {ops : List KernelOp} {s : Trace}
    (hb : Booted m) (hlegal : LegalKernelRun c (startTrace m) ops)
    (hrun : kernelRun c (startTrace m) ops = some s) :
    (∀ pre s₁, pre <+: ops → kernelRun c (startTrace m) pre = some s₁ →
      ∃ l, Chain (links s₁.kernel.taskTable) s₁.kernel.taskList l ∧ l.Nodup ∧
        (∀ i, (s₁.kernel.taskTable i).pid ≠ 0 → l.count i = 1) ∧
        (∃ cur, s₁.kernel.currentTask = some cur ∧ cur ∈ l) ∧
        ∀ i, (s₁.kernel.taskTable i).pid ≠ 0 → (s₁.kernel.taskTable i).state = .ready → i ∈ l) ↔
      KeepsTailRun c (startTrace m) ops := by
  have hstart := taskInv_start hb c.fuel
  rw [← listed_run_iff ops (listed_start m) hstart hlegal hrun]
  refine forall₄_congr fun pre s₁ hpre hs₁ => ?_
  exact (Listed.spec (kernelRun_inv hb (hlegal.initial hpre) hs₁)).symm

/-- Three tasks, the first two made at the start, the third in the slot of
the first after its exit: the list is 0, 1, and the running task 2 is not on
it. -/
theorem kernelRun_loses_task : ∃ s, kernelRun taskConfig (startTrace taskMachine)
      [.create 0x101000 0 false, .create 0x102000 0 false, .schedule 0x9000, .exit 0x101F00,
        .create 0x103000 0 false] = some s ∧
    s.kernel.currentTask = some 2 ∧ (s.kernel.taskTable 2).pid ≠ 0 ∧
    (s.kernel.taskTable 2).state = .running ∧
    ∀ l, Chain (links s.kernel.taskTable) s.kernel.taskList l → 2 ∉ l := by
  have hmap : (kernelRun taskConfig (startTrace taskMachine)
      [.create 0x101000 0 false, .create 0x102000 0 false, .schedule 0x9000, .exit 0x101F00,
        .create 0x103000 0 false]).map
      (fun s => decide (s.kernel.currentTask = some 2 ∧ (s.kernel.taskTable 2).pid ≠ 0 ∧
        (s.kernel.taskTable 2).state = .running ∧ s.kernel.taskList = some 0 ∧
        links s.kernel.taskTable 0 = some 1 ∧ links s.kernel.taskTable 1 = none)) = some true := by
    decide +kernel
  obtain ⟨s, hrun, hs⟩ := Option.map_eq_some_iff.mp hmap
  obtain ⟨hcur, hpid, hstate, hlist, h0, h1⟩ := of_decide_eq_true hs
  refine ⟨s, hrun, hcur, hpid, hstate, fun l hl => ?_⟩
  have hchain : Chain (links s.kernel.taskTable) s.kernel.taskList [0, 1] := ⟨hlist, h0, h1⟩
  rw [hl.unique hchain]
  decide

/-- The task at the tail exits and its slot is taken again. -/
theorem kernelRun_list_tail : ∃ s, kernelRun taskConfig (startTrace taskMachine)
      [.create 0x101000 0 false, .schedule 0x9000, .exit 0x101F00, .create 0x102000 0 false] = some s ∧
    ∃ l, Chain (links s.kernel.taskTable) s.kernel.taskList l ∧
      ∀ i, (s.kernel.taskTable i).pid ≠ 0 → l.count i = 1 := by
  obtain ⟨s, hrun⟩ := Option.isSome_iff_exists.mp
    (show (kernelRun taskConfig (startTrace taskMachine) [.create 0x101000 0 false, .schedule 0x9000,
      .exit 0x101F00, .create 0x102000 0 false]).isSome by decide +kernel)
  have hkeep : KeepsTailRun taskConfig (startTrace taskMachine) [.create 0x101000 0 false,
      .schedule 0x9000, .exit 0x101F00, .create 0x102000 0 false] := by
    refine ⟨fun i hi => ?_, fun s₁ hs₁ => ⟨trivial, fun s₂ hs₂ => ⟨trivial, fun s₃ hs₃ =>
      ⟨fun i hi => ?_, fun _ _ => trivial⟩⟩⟩⟩
    · have hi1 : i = 1 := Option.some.inj (hi.symm.trans (by decide +kernel))
      rw [hi1]
      exact Or.inl rfl
    · have hmap : (kernelRun taskConfig (startTrace taskMachine)
          [.create 0x101000 0 false, .schedule 0x9000, .exit 0x101F00]).map
          (fun s => (findSlot s.kernel.taskTable, (s.kernel.taskTable 1).next)) =
          some (some 1, none) := by decide +kernel
      simp only [kernelRun, hs₁, hs₂, hs₃, Option.bind_some, Option.map_some] at hmap
      obtain ⟨hslot, hnext⟩ := Prod.mk.inj (Option.some.inj hmap)
      have hi1 : i = 1 := Option.some.inj (hi.symm.trans hslot)
      rw [hi1]
      exact Or.inr (Or.inl hnext)
  obtain ⟨l, hl, -, hall, -⟩ := (kernelRun_list_iff taskMachine_booted
    (LegalKernelRun.of_calls _ _ rfl) hrun).mpr hkeep _ s (List.prefix_refl _) hrun
  exact ⟨s, hrun, l, hl, hall⟩

end MyOS
