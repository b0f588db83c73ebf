import MyOS.Lib.Walks
import MyOS.Task.Linked
import Mathlib.Data.List.Rotate

/-!
# `schedule` is round robin

As long as no slot of an exited task is taken again, the list holds every task
once, and the walk of `schedule`, which wraps from the end to the head, goes
round it. From the current task it meets the tasks behind it, then those in
front of it, and then the current task again: the first READY one of these is
chosen (`pickNext_round`).

A task is active if it is READY or RUNNING. The active tasks in the order of
the round, the current one first, are a list that one call of `schedule`
rotates by one (`TaskRing.step`): exited tasks in between are skipped, the chosen
task moves to the front, and the old one, READY now, to the end. So as many
calls as there are active tasks visit each of them once and come back
(`kernelRun_round_robin`).
-/

namespace MyOS

open Lib Lib.Mem Lib.Paging

/-- READY or RUNNING. -/
def ActiveTask (k : Kernel) (i : Slot) : Prop :=
  (k.taskTable i).state = .ready ∨ (k.taskTable i).state = .running

instance (k : Kernel) (i : Slot) : Decidable (ActiveTask k i) := inferInstanceAs (Decidable (_ ∨ _))

/-- The READY or RUNNING tasks, by slot number. -/
def activeTasks (k : Kernel) : List Slot :=
  (List.finRange 32).filter fun i => (k.taskTable i).pid ≠ 0 ∧ ActiveTask k i

/-- The first READY task in `w`. -/
def firstReady (k : Kernel) (w : List Slot) : Option Slot :=
  w.find? fun i => (k.taskTable i).state = .ready

/-- Consecutive calls of `schedule`, with the stack pointers they save; the
tasks they leave current, and the kernel after the last one. -/
def scheduleRun (fuel : Nat) : List Nat → Kernel → Option (List Slot × Kernel)
  | [], k => some ([], k)
  | esp :: esps, k =>
    (schedule fuel esp k).bind fun k' => k'.currentTask.bind fun cur =>
      (scheduleRun fuel esps k').map fun r => (cur :: r.1, r.2)

/-! ## One call -/

section Search

variable {k : Kernel} {cur : Slot}

/-- The search finds the first task on its way at which it may stop. -/
theorem searchReady_eq_find : ∀ {v : List Slot} {fuel : Nat} {c : Slot},
    List.IsChain (fun a b => nextOrHead k a = some b) (v ++ [cur]) →
    (v ++ [cur]).head? = some c → v.length < fuel →
    searchReady k cur fuel c
      = (v ++ [cur]).find? fun d => d = cur ∨ (k.taskTable d).state = .ready := by
  intro v
  induction v with
  | nil =>
    intro fuel c _ hc hfuel
    obtain ⟨fuel, rfl⟩ : ∃ n, fuel = n + 1 := Nat.exists_eq_succ_of_ne_zero (Nat.ne_of_gt hfuel)
    have hcur : c = cur := (Option.some.inj hc).symm
    unfold searchReady
    rw [if_pos (Or.inl hcur), List.nil_append, List.find?_cons_of_pos (by simp), hcur]
  | cons a v ih =>
    intro fuel c hchain hc hfuel
    rw [List.length_cons] at hfuel
    obtain ⟨fuel, rfl⟩ : ∃ n, fuel = n + 1 := Nat.exists_eq_succ_of_ne_zero (by omega)
    have hca : c = a := (Option.some.inj hc).symm
    subst hca
    unfold searchReady
    by_cases hstop : c = cur ∨ (k.taskTable c).state = .ready
    · rw [if_pos hstop, List.cons_append, List.find?_cons_of_pos (by simpa using hstop)]
    · rw [if_neg hstop, List.cons_append, List.find?_cons_of_neg (by simpa using hstop)]
      obtain ⟨hnext, hrest⟩ := List.isChain_cons.mp hchain
      obtain ⟨d, hd⟩ : ∃ d, (v ++ [cur]).head? = some d := by
        cases v with
        | nil => exact ⟨cur, rfl⟩
        | cons b v => exact ⟨b, rfl⟩
      rw [hnext d hd, Option.bind_some]
      exact ih hrest hd (Nat.lt_of_succ_lt_succ hfuel)

/-- **The search.** Going round from the current task, it ends at the first
READY one, or at the current task itself. -/
theorem pickNext_round {w : List Slot} (hround : Round (nextOrHead k) cur w) (hnot : cur ∉ w)
    {fuel : Nat} (hfuel : w.length < fuel) :
    pickNext fuel k cur = some ((firstReady k w).getD cur) := by
  obtain ⟨hnext, hrest⟩ := List.isChain_cons.mp hround
  obtain ⟨c, hc⟩ : ∃ c, (w ++ [cur]).head? = some c := by
    cases w with
    | nil => exact ⟨cur, rfl⟩
    | cons b w => exact ⟨b, rfl⟩
  have hready : w.find? (fun d => decide (d = cur ∨ (k.taskTable d).state = .ready))
      = firstReady k w := by
    unfold firstReady
    rw [← List.head?_filter, ← List.head?_filter]
    refine congrArg List.head? (List.filter_congr fun d hd => ?_)
    have hne : d ≠ cur := fun heq => hnot (heq ▸ hd)
    simp [hne]
  unfold pickNext
  rw [hnext c hc, Option.bind_some, searchReady_eq_find hrest hc hfuel, List.find?_append, hready]
  cases firstReady k w with
  | some d => rfl
  | none => simp

/-- **One call.** Nothing happens, or the first READY task of the round
becomes the current one. -/
theorem schedule_round {w : List Slot} (hcur : k.currentTask = some cur)
    (hround : Round (nextOrHead k) cur w) (hnot : cur ∉ w) {fuel : Nat} (hfuel : w.length < fuel)
    (esp : Nat) : ∃ k', schedule fuel esp k = some k' ∧
      ((firstReady k w = none ∧ k' = k) ∨
        ∃ d, firstReady k w = some d ∧ Switched esp cur d k k') := by
  have hpick := pickNext_round hround hnot hfuel
  obtain ⟨k', hk'⟩ : ∃ k', schedule fuel esp k = some k' := by
    unfold schedule scheduleFrom
    rw [hcur, Option.elim_some, hpick, Option.map_some]
    exact ⟨_, rfl⟩
  refine ⟨k', hk', ?_⟩
  cases hfirst : firstReady k w with
  | none =>
    rw [hfirst, Option.getD_none] at hpick
    rcases schedule_cases hcur hk' with ⟨-, hsame⟩ | ⟨d, hd, hsw⟩
    · exact Or.inl ⟨rfl, hsame⟩
    · exact absurd (Option.some.inj (hd.symm.trans hpick)) hsw.ne
  | some d =>
    rw [hfirst, Option.getD_some] at hpick
    have hdw : d ∈ w := List.mem_of_find?_eq_some hfirst
    rcases schedule_cases hcur hk' with ⟨hself, -⟩ | ⟨e, he, hsw⟩
    · have hdc : d = cur := Option.some.inj (hpick.symm.trans hself)
      exact absurd (hdc ▸ hdw) hnot
    · have hde : d = e := Option.some.inj (hpick.symm.trans he)
      exact Or.inr ⟨d, rfl, hde ▸ hsw⟩

end Search

/-! ## The active tasks rotate -/

/-- The current task runs, and `w` are the others on the way round. -/
structure TaskRing (k : Kernel) (cur : Slot) (w : List Slot) : Prop where
  current : k.currentTask = some cur
  round : Round (nextOrHead k) cur w
  nodup : (cur :: w).Nodup
  running : (k.taskTable cur).state = .running
  others : ∀ i ∈ w, (k.taskTable i).state ≠ .running

/-- The active tasks of the round, the current one first. -/
def ringActive (k : Kernel) (cur : Slot) (w : List Slot) : List Slot :=
  (cur :: w).filter fun i => ActiveTask k i

section Rotate

variable {k : Kernel} {cur : Slot} {w : List Slot}

theorem TaskRing.length_lt (h : TaskRing k cur w) : w.length < 32 := by
  have hle := h.nodup.length_le_card
  rw [Fintype.card_fin, List.length_cons] at hle
  omega

theorem TaskRing.active_eq (h : TaskRing k cur w) :
    ringActive k cur w = cur :: w.filter fun i => ActiveTask k i :=
  List.filter_cons_of_pos (decide_eq_true (Or.inr h.running))

/-- Tasks that are neither READY nor RUNNING are not active. -/
theorem filter_active_eq_nil {a : List Slot}
    (ha : ∀ i ∈ a, (k.taskTable i).state ≠ .ready ∧ (k.taskTable i).state ≠ .running) :
    a.filter (fun i => ActiveTask k i) = [] := by
  refine List.filter_eq_nil_iff.mpr fun i hi => ?_
  rw [decide_eq_true_eq]
  exact not_or.mpr (ha i hi)

/-- A switch keeps the active tasks: the old one is READY, the new one
RUNNING. -/
theorem Switched.active_iff {esp : Nat} {d : Slot} {k' : Kernel} (hs : Switched esp cur d k k')
    (hrun : (k.taskTable cur).state = .running) (i : Slot) : ActiveTask k' i ↔ ActiveTask k i := by
  unfold ActiveTask
  by_cases hd : i = d
  · rw [hd, hs.new, hs.ready]
    simp
  · by_cases hcur : i = cur
    · rw [hcur, hs.prev, hrun]
      simp
    · rw [hs.others i hd hcur]

/-- A switch changes no pointer. -/
theorem Switched.nextOrHead_eq {esp : Nat} {d : Slot} {k' : Kernel} (hs : Switched esp cur d k k') :
    nextOrHead k' = nextOrHead k := by
  funext i
  unfold nextOrHead
  rw [(hs.fields i).2.2.1, hs.list]

/-- **One call** moves the current task to the end of the active ones. -/
theorem TaskRing.step (h : TaskRing k cur w) {fuel : Nat} (hfuel : 33 ≤ fuel) (esp : Nat) :
    ∃ k' d w', schedule fuel esp k = some k' ∧ TaskRing k' d w' ∧
      ringActive k' d w' = (ringActive k cur w).rotate 1 := by
  have hnot : cur ∉ w := (List.nodup_cons.mp h.nodup).1
  have hlen := h.length_lt
  obtain ⟨k', hk', ⟨hnone, rfl⟩ | ⟨d, hd, hsw⟩⟩ :=
    schedule_round h.current h.round hnot (by omega : w.length < fuel) esp
  · -- the current task is the only active one
    refine ⟨k', cur, w, hk', h, ?_⟩
    have hidle : w.filter (fun i => ActiveTask k' i) = [] := by
      refine filter_active_eq_nil fun i hi => ⟨fun hready => ?_, h.others i hi⟩
      have hfind := List.find?_eq_none.mp hnone i hi
      exact hfind (decide_eq_true hready)
    rw [h.active_eq, hidle]
    exact (List.rotate_singleton cur 1).symm
  · obtain ⟨hready, a, b, rfl, hbefore⟩ := List.find?_eq_some_iff_append.mp hd
    have hperm : ((d :: b) ++ (cur :: a)).Perm ((cur :: a) ++ (d :: b)) := List.perm_append_comm
    have hnodup' : (d :: (b ++ cur :: a)).Nodup := hperm.nodup_iff.mpr h.nodup
    have hactive : ∀ i, ActiveTask k' i ↔ ActiveTask k i := hsw.active_iff h.running
    have hring : TaskRing k' d (b ++ cur :: a) := by
      refine ⟨hsw.cur, ?_, hnodup', ?_, fun i hi => ?_⟩
      · rw [hsw.nextOrHead_eq]
        exact h.round.rotate
      · rw [hsw.new]
      · have hid : i ≠ d := fun heq => (List.nodup_cons.mp hnodup').1 (heq ▸ hi)
        by_cases hic : i = cur
        · rw [hic, hsw.prev, h.running]
          simp
        · rw [hsw.others i hid hic]
          refine h.others i ?_
          have hmem := hperm.mem_iff.mp (List.mem_cons_of_mem d hi)
          exact (List.mem_cons.mp hmem).resolve_left hic
    refine ⟨k', d, b ++ cur :: a, hk', hring, ?_⟩
    -- the tasks in front of the chosen one are not active
    have hidle : a.filter (fun i => ActiveTask k i) = [] := by
      refine filter_active_eq_nil fun i hi => ⟨fun hr => ?_, h.others i ?_⟩
      · have hnr := hbefore i hi
        rw [hr] at hnr
        exact absurd hnr (by simp)
      · exact List.mem_append_left _ hi
    have hsame : ∀ l : List Slot, l.filter (fun i => ActiveTask k' i)
        = l.filter fun i => ActiveTask k i := fun l =>
      List.filter_congr fun i _ => decide_eq_decide.mpr (hactive i)
    have hd' : decide (ActiveTask k d) = true :=
      decide_eq_true (Or.inl (of_decide_eq_true hready))
    have hcur' : decide (ActiveTask k cur) = true := decide_eq_true (Or.inr h.running)
    rw [ringActive, hsame, h.active_eq, List.filter_append, hidle, List.nil_append,
      List.filter_cons_of_pos (l := b ++ cur :: a) hd', List.filter_append,
      List.filter_cons_of_pos (l := a) hcur', hidle, List.filter_cons_of_pos (l := b) hd']
    simp [List.rotate_cons_succ]

/-- **Any number of calls.** The `j`-th leaves the `j`-th active task behind
the first one current, counting round. -/
theorem TaskRing.run {fuel : Nat} (hfuel : 33 ≤ fuel) : ∀ (esps : List Nat) {k : Kernel}
    {cur : Slot} {w : List Slot}, TaskRing k cur w →
    ∃ visited k' d w', scheduleRun fuel esps k = some (visited, k') ∧
      TaskRing k' d w' ∧ ringActive k' d w' = (ringActive k cur w).rotate esps.length ∧
      visited.map some = (List.range esps.length).map fun j =>
        ((ringActive k cur w).rotate (j + 1)).head? := by
  intro esps
  induction esps with
  | nil =>
    intro k cur w h
    exact ⟨[], k, cur, w, rfl, h, (List.rotate_zero _).symm, rfl⟩
  | cons esp esps ih =>
    intro k cur w h
    obtain ⟨k₁, d₁, w₁, hk₁, h₁, hact₁⟩ := h.step hfuel esp
    obtain ⟨visited, k', d, w', hrun, hring, hact, hvis⟩ := ih h₁
    refine ⟨d₁ :: visited, k', d, w', ?_, hring, ?_, ?_⟩
    · unfold scheduleRun
      rw [hk₁, Option.bind_some, h₁.current, Option.bind_some, hrun, Option.map_some]
    · rw [hact, hact₁, List.rotate_rotate, List.length_cons, Nat.add_comm]
    · have hhead : ((ringActive k cur w).rotate 1).head? = some d₁ := by
        rw [← hact₁, h₁.active_eq]
        rfl
      rw [List.length_cons, List.range_succ_eq_map, List.map_cons, List.map_cons, hhead, hvis,
        List.map_map, hact₁]
      congr 1
      refine List.map_congr_left fun j _ => ?_
      show (((ringActive k cur w).rotate 1).rotate (j + 1)).head?
        = ((ringActive k cur w).rotate (j + 1 + 1)).head?
      rw [List.rotate_rotate, Nat.add_comm 1]

end Rotate

/-! ## Along every run -/

/-- A call that replaces no exited task takes no slot out of the list. -/
theorem FreshRun.keepsTail {c : Config} : ∀ {ops : List KernelOp} {s : Trace}, FreshRun c s ops →
    KeepsTailRun c s ops := by
  intro ops
  induction ops with
  | nil =>
    intro s _
    trivial
  | cons op ops ih =>
    intro s h
    refine ⟨?_, fun s' hs' => ih (h.2 s' hs')⟩
    cases op with
    | create entry pageDir isUser =>
      intro i hi
      exact (h.1 i hi).imp_right Or.inr
    | _ => trivial

/-- A chain from the head is the round from any of its tasks. -/
theorem round_of_chain {k : Kernel} {l₁ l₂ : List Slot} {cur : Slot}
    (hlist : k.taskList = some 0) (hl : Chain (links k.taskTable) k.taskList (l₁ ++ cur :: l₂)) :
    Round (nextOrHead k) cur (l₂ ++ l₁) := by
  have hsucc : nextOrHead k = fun i => (links k.taskTable i).or (some 0) := by
    funext i
    unfold nextOrHead
    rw [hlist]
    rfl
  rw [hsucc]
  rw [hlist] at hl
  cases l₁ with
  | nil =>
    have h0 : (0 : Slot) = cur := Option.some.inj hl.1
    subst h0
    rw [List.append_nil]
    exact hl.round
  | cons a l₁ =>
    have h0 : (0 : Slot) = a := Option.some.inj hl.1
    subst h0
    have hround : Round (fun i => (links k.taskTable i).or (some 0)) 0 (l₁ ++ cur :: l₂) := hl.round
    exact hround.rotate

/-- A list read off one place at a time, counting round. -/
theorem rotate_heads {α : Type} (l : List α) :
    (List.range l.length).map (fun j => (l.rotate (j + 1)).head?) = (l.rotate 1).map some := by
  refine List.ext_getElem? fun j => ?_
  rw [List.getElem?_map, List.getElem?_map]
  by_cases hj : j < l.length
  · have hj' : j < (l.rotate 1).length := by
      rw [List.length_rotate]
      exact hj
    rw [List.getElem?_range hj, Option.map_some, Nat.add_comm, ← List.rotate_rotate,
      List.head?_rotate hj', List.getElem?_eq_getElem hj', Option.map_some]
  · rw [List.getElem?_eq_none (by rw [List.length_range]; omega),
      List.getElem?_eq_none (by rw [List.length_rotate]; omega)]
    rfl

/-- **Round robin.** In every state reached without replacing an exited task:
with the list cut at the current task into `l₁`, the task and `l₂`, `schedule`
makes the first READY task of `l₂ ++ l₁` current, writing only the states of
the two tasks and the old one's stack pointer, and changes nothing if there is
none. If the current task runs, as many calls as there are READY or RUNNING
tasks make each of them current once, in the order of the list from the
current one round, and end at that task. -/
theorem kernelRun_round_robin {c : Config} {m : Machine} {ops : List KernelOp} {s : Trace}
    (hb : Booted m) (hlegal : LegalKernelRun c (startTrace m) ops)
    (hfresh : FreshRun c (startTrace m) ops) (hrun : kernelRun c (startTrace m) ops = some s) :
    ∃ l₁ cur l₂, s.kernel.currentTask = some cur ∧
      Chain (links s.kernel.taskTable) s.kernel.taskList (l₁ ++ cur :: l₂) ∧
      (∀ i, i ∈ l₁ ++ cur :: l₂ ↔ (s.kernel.taskTable i).pid ≠ 0) ∧
      (∀ fuel ≥ 33, ∀ esp, ∃ k', schedule fuel esp s.kernel = some k' ∧
        (firstReady s.kernel (l₂ ++ l₁) = none → k' = s.kernel) ∧
        ∀ d, firstReady s.kernel (l₂ ++ l₁) = some d → Switched esp cur d s.kernel k') ∧
      ((s.kernel.taskTable cur).state = .running → ∀ fuel ≥ 33, ∀ esps : List Nat,
        esps.length = (activeTasks s.kernel).length →
        ∃ visited k', scheduleRun fuel esps s.kernel = some (visited, k') ∧
          visited = (l₂ ++ l₁).filter (fun i => ActiveTask s.kernel i) ++ [cur] ∧
          visited.Perm (activeTasks s.kernel) ∧ k'.currentTask = some cur) := by
  have hinv := kernelRun_inv hb hlegal hrun
  obtain ⟨l, hl, hall⟩ : Listed s :=
    (listed_run_iff ops (listed_start m) (taskInv_start hb c.fuel) hlegal hrun).mpr
      hfresh.keepsTail ops s (List.prefix_refl _) hrun
  obtain ⟨cur, hc⟩ := hinv.run
  obtain ⟨l₁, l₂, rfl⟩ := List.append_of_mem (hall cur hc.pid)
  have hmem : ∀ i, i ∈ l₁ ++ cur :: l₂ ↔ (s.kernel.taskTable i).pid ≠ 0 := fun i =>
    ⟨hinv.table.chain_pid hl i, hall i⟩
  have hround := round_of_chain hinv.table.list hl
  have hperm : (cur :: (l₂ ++ l₁)).Perm (l₁ ++ cur :: l₂) :=
    show ((cur :: l₂) ++ l₁).Perm (l₁ ++ (cur :: l₂)) from List.perm_append_comm
  have hnodup : (cur :: (l₂ ++ l₁)).Nodup := hperm.nodup_iff.mpr hl.nodup
  have hnot : cur ∉ l₂ ++ l₁ := (List.nodup_cons.mp hnodup).1
  have hlen : (l₂ ++ l₁).length < 32 := by
    have hle := hnodup.length_le_card
    rw [Fintype.card_fin, List.length_cons] at hle
    omega
  refine ⟨l₁, cur, l₂, hc.cur, hl, hmem, fun fuel hfuel esp => ?_,
    fun hstate fuel hfuel esps hesps => ?_⟩
  · obtain ⟨k', hk', ⟨hnone, hsame⟩ | ⟨d, hd, hsw⟩⟩ :=
      schedule_round hc.cur hround hnot (by omega : (l₂ ++ l₁).length < fuel) esp
    · refine ⟨k', hk', fun _ => hsame, fun d hd => ?_⟩
      exact absurd (hnone.symm.trans hd) (by simp)
    · refine ⟨k', hk', fun hnone => ?_, fun e he => ?_⟩
      · exact absurd (hnone.symm.trans hd) (by simp)
      · rw [Option.some.inj (he.symm.trans hd)]
        exact hsw
  · have hring : TaskRing s.kernel cur (l₂ ++ l₁) :=
      ⟨hc.cur, hround, hnodup, hstate, fun i hi =>
        hc.others i fun heq => hnot (heq ▸ hi)⟩
    have hactive : (ringActive s.kernel cur (l₂ ++ l₁)).Perm (activeTasks s.kernel) := by
      refine (List.perm_ext_iff_of_nodup (hnodup.filter _) ((List.nodup_finRange 32).filter _)).mpr
        fun i => ?_
      rw [List.mem_filter, List.mem_filter, hperm.mem_iff, hmem i, decide_eq_true_eq,
        decide_eq_true_eq]
      exact ⟨fun h => ⟨List.mem_finRange i, h⟩, fun h => h.2⟩
    obtain ⟨visited, k', d, w', hsched, hring', hact, hvis⟩ := hring.run hfuel esps
    rw [hesps, ← hactive.length_eq, rotate_heads] at hvis
    rw [hesps, ← hactive.length_eq, List.rotate_length] at hact
    have hvisited : visited = (ringActive s.kernel cur (l₂ ++ l₁)).rotate 1 :=
      List.map_injective_iff.mpr (Option.some_injective _) hvis
    have hd : d = cur := by
      rw [hring'.active_eq, hring.active_eq] at hact
      exact (List.cons.inj hact).1
    refine ⟨visited, k', hsched, ?_, ?_, hd ▸ hring'.current⟩
    · rw [hvisited, hring.active_eq, List.rotate_cons_succ, List.rotate_zero]
    · rw [hvisited]
      exact (List.rotate_perm _ 1).trans hactive

/-- Three tasks, of which slot 1 in the middle has exited: two calls from slot
2 visit the boot task and come back. -/
theorem kernelRun_round_robin_skip : ∃ s, kernelRun taskConfig (startTrace taskMachine)
      [.create 0x101000 0 false, .create 0x102000 0 false, .schedule 0x9000, .exit 0x101F00] = some s ∧
    (s.kernel.taskTable 1).state = .zombie ∧ activeTasks s.kernel = [0, 2] ∧
    ∃ visited k', scheduleRun 33 [0x102F00, 0x9000] s.kernel = some (visited, k') ∧
      visited.Perm [0, 2] ∧ k'.currentTask = some 2 := by
  have hmap : (kernelRun taskConfig (startTrace taskMachine)
      [.create 0x101000 0 false, .create 0x102000 0 false, .schedule 0x9000, .exit 0x101F00]).map
      (fun s => decide ((s.kernel.taskTable 1).state = .zombie ∧ activeTasks s.kernel = [0, 2] ∧
        s.kernel.currentTask = some 2 ∧ (s.kernel.taskTable 2).state = .running)) = some true := by
    decide +kernel
  obtain ⟨s, hrun, hs⟩ := Option.map_eq_some_iff.mp hmap
  obtain ⟨hzombie, hactive, hcurrent, hrunning⟩ := of_decide_eq_true hs
  have hfresh : FreshRun taskConfig (startTrace taskMachine) [.create 0x101000 0 false,
      .create 0x102000 0 false, .schedule 0x9000, .exit 0x101F00] := by
    refine ⟨fun i hi => ?_, fun s₁ hs₁ => ⟨fun i hi => ?_, fun _ _ => ⟨trivial, fun _ _ =>
      ⟨trivial, fun _ _ => trivial⟩⟩⟩⟩
    · have hi1 : i = 1 := Option.some.inj (hi.symm.trans (by decide +kernel))
      rw [hi1]
      exact Or.inl rfl
    · have hslots : ((KernelOp.create 0x101000 0 false).apply taskConfig (startTrace taskMachine)).map
          (fun s => (findSlot s.kernel.taskTable, (s.kernel.taskTable 2).pid)) = some (some 2, 0) := by
        decide +kernel
      rw [hs₁] at hslots
      obtain ⟨hslot, hpid⟩ := Prod.mk.inj (Option.some.inj hslots)
      have hi2 : i = 2 := Option.some.inj (hi.symm.trans hslot)
      rw [hi2]
      exact Or.inl hpid
  obtain ⟨l₁, cur, l₂, hcur, -, -, -, hround⟩ := kernelRun_round_robin taskMachine_booted
    (LegalKernelRun.of_calls _ _ rfl) hfresh hrun
  have hcur2 : cur = 2 := Option.some.inj (hcur.symm.trans hcurrent)
  subst hcur2
  obtain ⟨visited, k', hsched, -, hperm, hback⟩ := hround hrunning 33 (by omega) [0x102F00, 0x9000]
    (by rw [hactive]; rfl)
  rw [hactive] at hperm
  exact ⟨s, hrun, hzombie, hactive, visited, k', hsched, hperm, hback⟩

end MyOS
