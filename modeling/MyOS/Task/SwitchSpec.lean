import MyOS.Task.Switch

/-!
# What `switch_task` does

With both stacks identity-mapped in both directories, the code of `switch.s`
pushes four registers on one stack and pops four from the other
(`callSwitchTask_spec`). Its effect on the kernel's data is the one the
scheduler is modelled with (`switchTask`), so what is proved there is about
this code; what is new here is the contents of the stacks and the registers.

Every access below is to the table or to the stacks. `Identity` is what makes
an access to a stack the same under any of the directories, before and after
the writes.
-/

namespace MyOS

open Lib Lib.Mem Lib.Paging Lib.X86

/-- Under `dir` the addresses of `R` are mapped to themselves, and none of
them is in a frame the directory is made of. -/
structure Identity (m : Mem) (dir : Nat) (R : Nat → Prop) : Prop where
  aligned : dir % 4096 = 0
  lt : ∀ a, R a → a + 1 < 2 ^ 32
  same : ∀ a, R a → translate m dir a = some a
  apart : ∀ a, R a → ¬Frames m dir (a / 4096)

section Access

variable {R : Nat → Prop} {m m' : Mem} {dir : Nat} {k : Machine}

/-- Writes to `R` do not change the mapping. -/
theorem Identity.congr (h : Identity m dir R) (hm : ∀ x, ¬R x → m' x = m x) : Identity m' dir R := by
  have hback := backed_frames (m := m) h.aligned
  have hframes : ∀ x, Frames m dir (x / 4096) → m' x = m x := fun x hx =>
    hm x fun hR => h.apart x hR hx
  refine ⟨h.aligned, h.lt, fun a ha => ?_, fun a ha hf => ?_⟩
  · have hlt := h.lt a ha
    rw [translate_congr (hback.lookup_congr hframes (by omega))]
    exact h.same a ha
  · exact h.apart a ha ((hback.congr hframes).frames hf)

theorem vread32_ident (h : Identity k.mem k.cr3 R) {a : Nat} (ha : ∀ i < 4, R (a + i)) :
    vread32 a k = .ok (k.mem.rd32 a, k) := by
  have htr : ∀ i < 4, translate k.mem k.cr3 ((a + i) % 2 ^ 32) = some (a + i) := by
    intro i hi
    have hlt := h.lt _ (ha i hi)
    rw [Nat.mod_eq_of_lt (by omega)]
    exact h.same _ (ha i hi)
  obtain ⟨buf, hcopy, hbuf, -⟩ := vcopyOut_spec htr
  unfold vread32
  rw [hcopy, ok_map]
  have hword : rd32 buf 0 = rd32 k.mem a := by
    unfold rd32
    rw [hbuf 0 (by omega), hbuf 1 (by omega), hbuf 2 (by omega), hbuf 3 (by omega)]
    rfl
  rw [hword]

theorem vwriteBytes_ident (h : Identity k.mem k.cr3 R) {a : Nat} (v : Nat) : ∀ (n : Nat),
    (∀ i < n, R (a + i)) → ∃ m, vwriteBytes a v n k = .ok { k with mem := m } ∧
      ∀ x, m x = if a ≤ x ∧ x < a + n then byteOf v (x - a) else k.mem x := by
  intro n
  induction n with
  | zero =>
    intro _
    exact ⟨k.mem, rfl, fun x => (if_neg (by omega)).symm⟩
  | succ n ih =>
    intro ha
    obtain ⟨m, hrun, hm⟩ := ih fun i hi => ha i (by omega)
    have hid : Identity m k.cr3 R := by
      refine h.congr fun x hx => (hm x).trans (if_neg fun hin => hx ?_)
      have hx' := ha (x - a) (by omega)
      rwa [show a + (x - a) = x by omega] at hx'
    have hR := ha n (by omega)
    have hlt := h.lt _ hR
    have htr : translate m k.cr3 ((a + n) % 2 ^ 32) = some (a + n) := by
      rw [Nat.mod_eq_of_lt (by omega)]
      exact hid.same _ hR
    refine ⟨m.write (a + n) (byteOf v n), ?_, fun x => ?_⟩
    · unfold vwriteBytes
      rw [hrun, ok_bind, vwrite_mapped (k := { k with mem := m }) _ htr]
    · by_cases hx : x = a + n
      · rw [hx, write_self, if_pos (by omega), Nat.add_sub_cancel_left]
      · rw [write_ne _ _ hx, hm]
        by_cases hin : a ≤ x ∧ x < a + n
        · rw [if_pos hin, if_pos (by omega)]
        · rw [if_neg hin, if_neg (by omega)]

theorem vwrite32_ident (h : Identity k.mem k.cr3 R) {a : Nat} (v : Nat) (ha : ∀ i < 4, R (a + i)) :
    vwrite32 a v k = .ok { k with mem := k.mem.wr32 a v } := by
  obtain ⟨m, hrun, hm⟩ := vwriteBytes_ident h v 4 ha
  unfold vwrite32
  rw [hrun, show m = k.mem.wr32 a v from funext hm]

end Access

/-! ## Instructions on the table and on a stack -/

section Bus

variable {base : Nat} {R : Nat → Prop} {k : Kernel}

theorem inTable_field (base : Nat) (i : Slot) (off : Nat) (hoff : off < taskSize) :
    InTable base (taskAddr base i + off) ∧ slotAt base (taskAddr base i + off) = i ∧
      (taskAddr base i + off - base) % taskSize = off := by
  have hi := i.isLt
  unfold InTable slotAt taskAddr
  unfold taskSize at hoff ⊢
  have hsub : base + 28 * i.val + off - base = 28 * i.val + off := by omega
  refine ⟨by omega, ?_, by omega⟩
  rw [hsub, show (28 * i.val + off) / 28 = i.val by omega]
  exact Fin.ext (Nat.mod_eq_of_lt hi)

theorem load_field (i : Slot) {off : Nat} (hoff : off < taskSize) :
    (kernelBus base).load (taskAddr base i + off) k = .ok ((k.taskTable i).word base off, k) := by
  obtain ⟨hin, hslot, hmod⟩ := inTable_field base i off hoff
  unfold kernelBus
  simp only [if_pos hin, hslot, hmod]

theorem store_esp (i : Slot) (v : Nat) :
    (kernelBus base).store (taskAddr base i + 4) v k = .ok { k with
      taskTable := Function.update k.taskTable i { k.taskTable i with esp := v } } := by
  obtain ⟨hin, hslot, hmod⟩ := inTable_field base i 4 (by decide)
  unfold kernelBus
  simp only [if_pos hin, hslot, hmod]
  rfl

theorem load_stack (h : Identity k.mem k.cr3 R) (hoff : ∀ a, R a → ¬InTable base a) {a : Nat}
    (ha : ∀ i < 4, R (a + i)) : (kernelBus base).load a k = .ok (k.mem.rd32 a, k) := by
  unfold kernelBus
  simp only [if_neg (hoff a (ha 0 (by omega)))]
  rw [vread32_ident h ha, ok_map]

theorem store_stack (h : Identity k.mem k.cr3 R) (hoff : ∀ a, R a → ¬InTable base a) {a : Nat}
    (v : Nat) (ha : ∀ i < 4, R (a + i)) :
    (kernelBus base).store a v k = .ok { k with mem := k.mem.wr32 a v } := by
  unfold kernelBus
  simp only [if_neg (hoff a (ha 0 (by omega)))]
  rw [vwrite32_ident h v ha, ok_map]

end Bus

section Instr

variable {base : Nat} {R : Nat → Prop} {s : Cpu Kernel}

theorem push_stack (h : Identity s.sys.mem s.sys.cr3 R) (hoff : ∀ a, R a → ¬InTable base a) (v : Nat)
    (h4 : 4 ≤ s.regs .esp) (hR : ∀ i < 4, R (s.regs .esp - 4 + i)) :
    push (kernelBus base) v s = .ok { s.set .esp (s.regs .esp - 4) with
      sys := { s.sys with mem := s.sys.mem.wr32 (s.regs .esp - 4) v } } := by
  have hlt : s.regs .esp - 4 + 3 + 1 < 2 ^ 32 := h.lt _ (hR 3 (by omega))
  exact push_ok (sub32_eq h4 (by omega) (by decide)) (store_stack h hoff v hR)

theorem pop_stack (h : Identity s.sys.mem s.sys.cr3 R) (hoff : ∀ a, R a → ¬InTable base a) (r : Reg)
    (hR : ∀ i < 4, R (s.regs .esp + i)) :
    pop (kernelBus base) r s =
      .ok ((s.set .esp (s.regs .esp + 4)).set r (s.sys.mem.rd32 (s.regs .esp))) := by
  have hlt : s.regs .esp + 3 + 1 < 2 ^ 32 := h.lt _ (hR 3 (by omega))
  exact pop_ok (add32_eq (by omega)) (load_stack h hoff hR)

theorem ret_stack (h : Identity s.sys.mem s.sys.cr3 R) (hoff : ∀ a, R a → ¬InTable base a)
    (hR : ∀ i < 4, R (s.regs .esp + i)) :
    ret (kernelBus base) s =
      .ok { s.set .esp (s.regs .esp + 4) with eip := s.sys.mem.rd32 (s.regs .esp) } := by
  have hlt : s.regs .esp + 3 + 1 < 2 ^ 32 := h.lt _ (hR 3 (by omega))
  exact ret_ok (add32_eq (by omega)) (load_stack h hoff hR)

theorem load_esp (h : Identity s.sys.mem s.sys.cr3 R) (hoff : ∀ a, R a → ¬InTable base a) (r : Reg)
    (off : Nat) (hR : ∀ i < 4, R (s.regs .esp + off + i)) :
    load (kernelBus base) r .esp off s = .ok (s.set r (s.sys.mem.rd32 (s.regs .esp + off))) := by
  have hlt : s.regs .esp + off + 0 + 1 < 2 ^ 32 := h.lt _ (hR 0 (by omega))
  exact load_ok (add32_eq (by omega)) (load_stack h hoff hR)

/-- `mov r, [task + off]` with the task's address in `p`. -/
theorem load_task (i : Slot) (r : Reg) {p : Reg} (off : Nat) (hp : s.regs p = taskAddr base i)
    (hoff : off < taskSize) (hlt : base + taskSize * 32 < 2 ^ 32) :
    load (kernelBus base) r p off s = .ok (s.set r ((s.sys.taskTable i).word base off)) := by
  have hin := (inTable_field base i off hoff).1
  refine load_ok (a := taskAddr base i + off) ?_ (load_field i hoff)
  rw [hp]
  exact add32_eq (Nat.lt_trans hin.2 hlt)

/-- `mov [task + 4], r` -/
theorem store_task (i : Slot) {p r : Reg} (hp : s.regs p = taskAddr base i)
    (hlt : base + taskSize * 32 < 2 ^ 32) :
    store (kernelBus base) p 4 r s = .ok { s with
      sys := { s.sys with
        taskTable := Function.update s.sys.taskTable i
          { s.sys.taskTable i with esp := s.regs r } } } := by
  have hin := (inTable_field base i 4 (by decide)).1
  refine store_ok (a := taskAddr base i + 4) ?_ (store_esp i _)
  rw [hp]
  exact add32_eq (Nat.lt_trans hin.2 hlt)

end Instr

/-! ## Pushing -/

/-- `s'` is `s` after pushes: the words `ws` are on top of its stack, and
nothing else has changed. -/
structure Pushed (ws : List Nat) (s s' : Cpu Kernel) : Prop where
  esp : s'.regs .esp + 4 * ws.length = s.regs .esp
  regs : ∀ r, r ≠ .esp → s'.regs r = s.regs r
  sys : s'.sys = { s.sys with mem := s'.sys.mem }
  holds : Holds s'.sys.mem (s'.regs .esp) ws
  frame : ∀ x, x < s'.regs .esp ∨ s.regs .esp ≤ x → s'.sys.mem x = s.sys.mem x

section Parts

variable {base : Nat} {R : Nat → Prop} {s s₁ : Cpu Kernel} {ws : List Nat}

theorem Pushed.refl (s : Cpu Kernel) : Pushed [] s s :=
  ⟨rfl, fun _ _ => rfl, rfl, trivial, fun _ _ => rfl⟩

/-- The mapping survives pushes within `R`. -/
theorem Pushed.identity {dir : Nat} (hp : Pushed ws s s₁) (h : Identity s.sys.mem dir R)
    (hR : ∀ a, s₁.regs .esp ≤ a → a < s.regs .esp → R a) : Identity s₁.sys.mem dir R := by
  refine h.congr fun x hx => hp.frame x ?_
  by_contra hin
  exact hx (hR x (by omega) (by omega))

theorem Pushed.push (hp : Pushed ws s s₁) (h : Identity s.sys.mem s.sys.cr3 R)
    (hoff : ∀ a, R a → ¬InTable base a) {v : Nat} (hv : v < 2 ^ 32) (h4 : 4 ≤ s₁.regs .esp)
    (hR : ∀ a, s₁.regs .esp - 4 ≤ a → a < s.regs .esp → R a) :
    ∃ s', push (kernelBus base) v s₁ = .ok s' ∧ Pushed (v :: ws) s s' := by
  have hlen := hp.esp
  have hcr3 : s₁.sys.cr3 = s.sys.cr3 := by rw [hp.sys]
  have hid : Identity s₁.sys.mem s₁.sys.cr3 R := by
    rw [hcr3]
    exact hp.identity h fun a ha ha' => hR a (by omega) ha'
  -- the word lies in `R`: if it is the first, its end is the old stack pointer
  have hword : ∀ i < 4, R (s₁.regs .esp - 4 + i) := fun i hi => hR _ (by omega) (by omega)
  refine ⟨_, push_stack hid hoff v h4 hword, ?_, fun r hr => ?_, ?_, ?_, fun x hx => ?_⟩
  · show Function.update s₁.regs .esp (s₁.regs .esp - 4) .esp + 4 * (v :: ws).length = s.regs .esp
    rw [Function.update_self, List.length_cons]
    omega
  · exact (Cpu.set_ne s₁ _ hr).trans (hp.regs r hr)
  · show { s₁.sys with mem := s₁.sys.mem.wr32 (s₁.regs .esp - 4) v } =
      { s.sys with mem := s₁.sys.mem.wr32 (s₁.regs .esp - 4) v }
    rw [hp.sys]
  · show Holds (s₁.sys.mem.wr32 (s₁.regs .esp - 4) v)
      (Function.update s₁.regs .esp (s₁.regs .esp - 4) .esp) (v :: ws)
    rw [Function.update_self]
    refine Holds.push ?_ hv
    rw [Nat.sub_add_cancel h4]
    exact hp.holds
  · have hx' : x < s₁.regs .esp - 4 ∨ s.regs .esp ≤ x := by
      rcases hx with hx | hx
      · exact Or.inl ((Cpu.set_self s₁ .esp _) ▸ hx)
      · exact Or.inr hx
    show s₁.sys.mem.wr32 (s₁.regs .esp - 4) v x = s.sys.mem x
    rw [wr32_of_outside _ _ (by omega)]
    exact hp.frame x (by omega)

/-- **The registers and the stack pointer of the task that leaves.** The frame
of its call of `switch_task` lies below its stack pointer. -/
theorem saveContext_spec {prev next : Slot} {back : Nat}
    (hp : Pushed [back, taskAddr base prev, taskAddr base next] s s₁)
    (h : Identity s.sys.mem s.sys.cr3 R) (hoff : ∀ a, R a → ¬InTable base a)
    (htable : base + taskSize * 32 < 2 ^ 32) (hregs : ∀ r, s.regs r < 2 ^ 32)
    (hroom : 28 ≤ s.regs .esp) (hR : ∀ a, s.regs .esp - 28 ≤ a → a < s.regs .esp → R a) :
    ∃ s' m, saveContext base s₁ = .ok s' ∧ s'.regs .edx = taskAddr base next ∧
      s'.sys = { s.sys with
        mem := m
        taskTable := Function.update s.sys.taskTable prev
          { s.sys.taskTable prev with esp := s.regs .esp - 28 } } ∧
      Holds m (s.regs .esp - 28) [s.regs .edi, s.regs .esi, s.regs .ebx, s.regs .ebp, back] ∧
      ∀ x, x < s.regs .esp - 28 ∨ s.regs .esp ≤ x → m x = s.sys.mem x := by
  have he₁ := hp.esp
  simp only [List.length_cons, List.length_nil] at he₁
  obtain ⟨s₂, hpush₂, hp₂⟩ := hp.push h hoff (hregs .ebp) (by omega)
    fun a ha ha' => hR a (by omega) ha'
  have he₂ := hp₂.esp
  simp only [List.length_cons, List.length_nil] at he₂
  obtain ⟨s₃, hpush₃, hp₃⟩ := hp₂.push h hoff (hregs .ebx) (by omega)
    fun a ha ha' => hR a (by omega) ha'
  have he₃ := hp₃.esp
  simp only [List.length_cons, List.length_nil] at he₃
  obtain ⟨s₄, hpush₄, hp₄⟩ := hp₃.push h hoff (hregs .esi) (by omega)
    fun a ha ha' => hR a (by omega) ha'
  have he₄ := hp₄.esp
  simp only [List.length_cons, List.length_nil] at he₄
  obtain ⟨s₅, hpush₅, hp₅⟩ := hp₄.push h hoff (hregs .edi) (by omega)
    fun a ha ha' => hR a (by omega) ha'
  have he₅ := hp₅.esp
  simp only [List.length_cons, List.length_nil] at he₅
  have he : s₅.regs .esp = s.regs .esp - 28 := by omega
  have hid : Identity s₅.sys.mem s₅.sys.cr3 R := by
    have hcr3 : s₅.sys.cr3 = s.sys.cr3 := by rw [hp₅.sys]
    rw [hcr3]
    exact hp₅.identity h fun a ha ha' => hR a (by omega) ha'
  obtain ⟨hedi, hesi, hebx, hebp, hback, hprev, hnext, -⟩ := hp₅.holds
  -- the two arguments, above the return address
  have heax := load_esp hid hoff .eax 20 fun i hi => hR _ (by omega) (by omega)
  rw [show s₅.regs .esp + 20 = s₅.regs .esp + 4 + 4 + 4 + 4 + 4 by omega, hprev] at heax
  have hedx := load_esp (s := s₅.set .eax (taskAddr base prev)) hid hoff .edx 24
    fun i hi => hR _ (by
      rw [Cpu.set_ne _ _ (by decide)]
      omega) (by
      rw [Cpu.set_ne _ _ (by decide)]
      omega)
  have hesp : (s₅.set .eax (taskAddr base prev)).regs .esp + 24 =
      s₅.regs .esp + 4 + 4 + 4 + 4 + 4 + 4 := by
    rw [Cpu.set_ne _ _ (by decide)]
  have hword : (s₅.set .eax (taskAddr base prev)).sys.mem.rd32
      ((s₅.set .eax (taskAddr base prev)).regs .esp + 24) = taskAddr base next := by
    rw [hesp]
    exact hnext
  rw [hword] at hedx
  have hstored : ((s₅.set .eax (taskAddr base prev)).set .edx (taskAddr base next)).regs .eax
      = taskAddr base prev := by
    rw [Cpu.set_ne _ _ (by decide), Cpu.set_self]
  have hstore := store_task prev (r := .esp) hstored htable
  rw [Cpu.set_ne _ _ (by decide), Cpu.set_ne _ _ (by decide), he] at hstore
  have hsave : saveContext base s₁ = store (kernelBus base) .eax 4 .esp
      ((s₅.set .eax (taskAddr base prev)).set .edx (taskAddr base next)) := by
    unfold saveContext
    rw [hp.regs .ebp (by decide), hpush₂, ok_bind, hp₂.regs .ebx (by decide), hpush₃, ok_bind,
      hp₃.regs .esi (by decide), hpush₄, ok_bind, hp₄.regs .edi (by decide), hpush₅, ok_bind,
      heax, ok_bind, hedx, ok_bind]
  refine ⟨_, s₅.sys.mem, hsave.trans hstore,
    Cpu.set_self (s₅.set .eax (taskAddr base prev)) .edx (taskAddr base next), ?_, ?_,
    fun x hx => hp₅.frame x (by omega)⟩
  · show { s₅.sys with
      taskTable := Function.update s₅.sys.taskTable prev
        { s₅.sys.taskTable prev with esp := s.regs .esp - 28 } } = _
    rw [hp₅.sys]
  · rw [← he]
    exact ⟨hedi, hesi, hebx, hebp, hback, trivial⟩

/-- A pop takes the word on top. -/
theorem pop_holds {w : Nat} (h : Identity s.sys.mem s.sys.cr3 R) (hoff : ∀ a, R a → ¬InTable base a)
    {r : Reg} (hr : r ≠ .esp) (hheld : Holds s.sys.mem (s.regs .esp) (w :: ws))
    (hR : ∀ a, s.regs .esp ≤ a → a < s.regs .esp + 4 → R a) :
    ∃ s', pop (kernelBus base) r s = .ok s' ∧ s'.sys = s.sys ∧ s'.regs .esp = s.regs .esp + 4 ∧
      s'.regs r = w ∧ (∀ r', r' ≠ .esp → r' ≠ r → s'.regs r' = s.regs r') ∧
      Holds s'.sys.mem (s'.regs .esp) ws := by
  have hpop := pop_stack h hoff r fun i hi => hR _ (by omega) (by omega)
  rw [hheld.1] at hpop
  have hesp : ((s.set .esp (s.regs .esp + 4)).set r w).regs .esp = s.regs .esp + 4 := by
    rw [Cpu.set_ne _ _ hr.symm, Cpu.set_self]
  refine ⟨_, hpop, rfl, hesp, Cpu.set_self .., fun r' he' hr' => ?_, ?_⟩
  · rw [Cpu.set_ne _ _ hr', Cpu.set_ne _ _ he']
  · rw [hesp]
    exact hheld.2

/-- **The registers of the task that goes on.** -/
theorem restoreContext_spec {edi esi ebx ebp back : Nat} (h : Identity s.sys.mem s.sys.cr3 R)
    (hoff : ∀ a, R a → ¬InTable base a)
    (hheld : Holds s.sys.mem (s.regs .esp) [edi, esi, ebx, ebp, back])
    (hR : ∀ a, s.regs .esp ≤ a → a < s.regs .esp + 20 → R a) :
    ∃ s', restoreContext base s = .ok s' ∧ s'.sys = s.sys ∧ s'.eip = back ∧
      s'.regs .edi = edi ∧ s'.regs .esi = esi ∧ s'.regs .ebx = ebx ∧ s'.regs .ebp = ebp ∧
      s'.regs .esp = s.regs .esp + 20 := by
  obtain ⟨s₁, hpop₁, hsys₁, he₁, hedi, -, hheld₁⟩ := pop_holds h hoff (r := .edi) (by decide) hheld
    fun a ha ha' => hR a ha (by omega)
  obtain ⟨s₂, hpop₂, hsys₂, he₂, hesi, hkeep₂, hheld₂⟩ := pop_holds (hsys₁ ▸ h) hoff (r := .esi)
    (by decide) hheld₁ fun a ha ha' => hR a (by omega) (by omega)
  rw [hsys₁] at hsys₂
  obtain ⟨s₃, hpop₃, hsys₃, he₃, hebx, hkeep₃, hheld₃⟩ := pop_holds (hsys₂ ▸ h) hoff (r := .ebx)
    (by decide) hheld₂ fun a ha ha' => hR a (by omega) (by omega)
  rw [hsys₂] at hsys₃
  obtain ⟨s₄, hpop₄, hsys₄, he₄, hebp, hkeep₄, hheld₄⟩ := pop_holds (hsys₃ ▸ h) hoff (r := .ebp)
    (by decide) hheld₃ fun a ha ha' => hR a (by omega) (by omega)
  rw [hsys₃] at hsys₄
  have hret := ret_stack (s := s₄) (hsys₄ ▸ h) hoff fun i hi => hR _ (by omega) (by omega)
  rw [hheld₄.1] at hret
  have hrestore : restoreContext base s = ret (kernelBus base) s₄ := by
    unfold restoreContext
    rw [hpop₁, ok_bind, hpop₂, ok_bind, hpop₃, ok_bind, hpop₄, ok_bind]
  have hkeep₅ : ∀ r, r ≠ .esp → (s₄.set .esp (s₄.regs .esp + 4)).regs r = s₄.regs r :=
    fun r hr => Cpu.set_ne s₄ _ hr
  have he₅ : (s₄.set .esp (s₄.regs .esp + 4)).regs .esp = s.regs .esp + 20 := by
    rw [Cpu.set_self]
    omega
  refine ⟨_, hrestore.trans hret, hsys₄, rfl, ?_, ?_, ?_, ?_, he₅⟩
  · rw [hkeep₅ .edi (by decide), hkeep₄ .edi (by decide) (by decide),
      hkeep₃ .edi (by decide) (by decide), hkeep₂ .edi (by decide) (by decide), hedi]
  · rw [hkeep₅ .esi (by decide), hkeep₄ .esi (by decide) (by decide),
      hkeep₃ .esi (by decide) (by decide), hesi]
  · rw [hkeep₅ .ebx (by decide), hkeep₄ .ebx (by decide) (by decide), hebx]
  · rw [hkeep₅ .ebp (by decide), hebp]

/-- The switch of the directory leaves the stack pointer and EDX alone. -/
theorem switchPaging_spec (s : Cpu Kernel) :
    (switchPaging s).regs .esp = s.regs .esp ∧ (switchPaging s).regs .edx = s.regs .edx ∧
    (switchPaging s).sys = { s.sys with
      cr3 := s.regs .ecx
      currentPageDirectory :=
        if s.regs .ecx = s.sys.cr3 then s.sys.currentPageDirectory else s.regs .ecx } := by
  have hecx : (s.set .ebx s.sys.cr3).regs .ecx = s.regs .ecx := Cpu.set_ne _ _ (by decide)
  have hesp : (s.set .ebx s.sys.cr3).regs .esp = s.regs .esp := Cpu.set_ne _ _ (by decide)
  have hedx : (s.set .ebx s.sys.cr3).regs .edx = s.regs .edx := Cpu.set_ne _ _ (by decide)
  unfold switchPaging
  simp only [hecx, Cpu.set_self]
  split
  next heq =>
    refine ⟨hesp, hedx, ?_⟩
    rw [heq]
    rfl
  next => exact ⟨hesp, hedx, rfl⟩

/-- The call of `tss_set_kernel_stack`: the argument is on top of the stack
before, and off it after. -/
theorem callTss_spec {callee : Callee} {v : Nat} (h : Identity s.sys.mem s.sys.cr3 R)
    (hoff : ∀ a, R a → ¬InTable base a) (hheld : Holds s.sys.mem (s.regs .esp) [v])
    (hret : callee.ret < 2 ^ 32) (hroom : 4 + callee.depth ≤ s.regs .esp)
    (hR : ∀ a, s.regs .esp - 4 - callee.depth ≤ a → a < s.regs .esp + 4 → R a) :
    ∃ s' m, callTss base callee s = .ok s' ∧ s'.regs .esp = s.regs .esp + 4 ∧
      s'.sys = { s.sys with esp0 := v, mem := m } ∧
      ∀ x, x < s.regs .esp - 4 - callee.depth ∨ s.regs .esp ≤ x → m x = s.sys.mem x := by
  obtain ⟨s₁, hpush, hp⟩ := (Pushed.refl s).push h hoff hret (by omega)
    fun a ha ha' => hR a (by omega) (by omega)
  have he := hp.esp
  simp only [List.length_cons, List.length_nil] at he
  have hcr3 : s₁.sys.cr3 = s.sys.cr3 := by rw [hp.sys]
  have hid : Identity s₁.sys.mem s₁.sys.cr3 R := by
    rw [hcr3]
    exact hp.identity h fun a ha ha' => hR a (by omega) (by omega)
  have harg : s₁.sys.mem.rd32 (s₁.regs .esp + 4) = v := by
    have hsame : ∀ i < 4, s₁.sys.mem (s₁.regs .esp + 4 + i) = s.sys.mem (s₁.regs .esp + 4 + i) :=
      fun i _ => hp.frame _ (by omega)
    rw [rd32_congr hsame, show s₁.regs .esp + 4 = s.regs .esp by omega]
    exact hheld.1
  have hlt : s.regs .esp + 3 + 1 < 2 ^ 32 := h.lt _ (hR _ (by omega) (by omega))
  have hadd : add32 (s₁.regs .esp) 4 = s₁.regs .esp + 4 := add32_eq (by omega)
  have hadd' : add32 (s₁.regs .esp + 4) 4 = s₁.regs .esp + 4 + 4 := add32_eq (by omega)
  have hload := load_stack (k := s₁.sys) hid hoff (a := s₁.regs .esp + 4)
    fun i hi => hR _ (by omega) (by omega)
  rw [harg] at hload
  have hesp : (tssSetKernelStack callee s₁ (v, s₁.sys)).regs .esp = s₁.regs .esp + 4 := by
    unfold tssSetKernelStack
    simp only [Cpu.set_self, hadd]
  have hcall : callTss base callee s = .ok ((tssSetKernelStack callee s₁ (v, s₁.sys)).set .esp
      (s₁.regs .esp + 4 + 4)) := by
    unfold callTss
    rw [hpush, ok_bind, hadd, hload, ok_map]
    show Except.ok ((tssSetKernelStack callee s₁ (v, s₁.sys)).set .esp
      (add32 ((tssSetKernelStack callee s₁ (v, s₁.sys)).regs .esp) 4)) = _
    rw [hesp, hadd']
  refine ⟨_, fun a => if s₁.regs .esp ≤ a + callee.depth ∧ a < s₁.regs .esp then callee.below a
      else s₁.sys.mem a, hcall, (Cpu.set_self ..).trans (by omega), ?_, fun x hx => ?_⟩
  · show { s₁.sys with
      esp0 := v
      mem := fun a => if s₁.regs .esp ≤ a + callee.depth ∧ a < s₁.regs .esp then callee.below a
        else s₁.sys.mem a } = _
    rw [hp.sys]
  · show (if s₁.regs .esp ≤ x + callee.depth ∧ x < s₁.regs .esp then callee.below x
      else s₁.sys.mem x) = s.sys.mem x
    rw [if_neg (by omega)]
    exact hp.frame x (by omega)

/-- **The stack, the directory and the trap stack of the task that goes on.**
What was above its saved stack pointer stays as it is. -/
theorem swapStacks_spec {callee : Callee} {next : Slot} (hedx : s.regs .edx = taskAddr base next)
    (h : Identity s.sys.mem (s.sys.taskTable next).pageDirectory R)
    (hoff : ∀ a, R a → ¬InTable base a) (htable : base + taskSize * 32 < 2 ^ 32)
    (hret : callee.ret < 2 ^ 32) (hk : (s.sys.taskTable next).kstack < 2 ^ 32)
    (hroom : 8 + callee.depth ≤ (s.sys.taskTable next).esp)
    (hR : ∀ a, (s.sys.taskTable next).esp - 8 - callee.depth ≤ a → a < (s.sys.taskTable next).esp →
      R a) :
    ∃ s' m, swapStacks base callee s = .ok s' ∧ s'.regs .esp = (s.sys.taskTable next).esp ∧
      s'.sys = { s.sys with
        mem := m
        cr3 := (s.sys.taskTable next).pageDirectory
        currentPageDirectory :=
          if (s.sys.taskTable next).pageDirectory = s.sys.cr3 then s.sys.currentPageDirectory
          else (s.sys.taskTable next).pageDirectory
        esp0 := (s.sys.taskTable next).kstack } ∧
      ∀ x, x < (s.sys.taskTable next).esp - 8 - callee.depth ∨ (s.sys.taskTable next).esp ≤ x →
        m x = s.sys.mem x := by
  generalize hn : s.sys.taskTable next = t at *
  have hload₁ := load_task next .esp 4 hedx (by decide) htable
  rw [hn] at hload₁
  generalize hs₁ : s.set .esp (t.word base 4) = s₁ at hload₁
  have hsys₁ : s₁.sys = s.sys := by rw [← hs₁]; rfl
  have hesp₁ : s₁.regs .esp = t.esp := by rw [← hs₁, Cpu.set_self]; rfl
  have hedx₁ : s₁.regs .edx = taskAddr base next := by
    rw [← hs₁, Cpu.set_ne _ _ (by decide), hedx]
  have hload₂ := load_task next .ecx 12 hedx₁ (by decide) htable
  rw [hsys₁, hn] at hload₂
  generalize hs₂ : s₁.set .ecx (t.word base 12) = s₂ at hload₂
  have hsys₂ : s₂.sys = s.sys := by rw [← hs₂]; exact hsys₁
  have hesp₂ : s₂.regs .esp = t.esp := by rw [← hs₂, Cpu.set_ne _ _ (by decide), hesp₁]
  have hedx₂ : s₂.regs .edx = taskAddr base next := by
    rw [← hs₂, Cpu.set_ne _ _ (by decide), hedx₁]
  have hecx₂ : s₂.regs .ecx = t.pageDirectory := by rw [← hs₂, Cpu.set_self]; rfl
  obtain ⟨hesp₃, hedx₃, hsys₃⟩ := switchPaging_spec s₂
  rw [hesp₂] at hesp₃
  rw [hedx₂] at hedx₃
  rw [hsys₂, hecx₂] at hsys₃
  have hload₃ := load_task next .ecx 16 hedx₃ (by decide) htable
  have ht₃ : (switchPaging s₂).sys.taskTable next = t := by rw [hsys₃]; exact hn
  rw [ht₃] at hload₃
  generalize hs₃ : (switchPaging s₂).set .ecx (t.word base 16) = s₃ at hload₃
  have hsys₄ : s₃.sys = { s.sys with
      cr3 := t.pageDirectory
      currentPageDirectory :=
        if t.pageDirectory = s.sys.cr3 then s.sys.currentPageDirectory else t.pageDirectory } := by
    rw [← hs₃]
    exact hsys₃
  have hesp₄ : s₃.regs .esp = t.esp := by rw [← hs₃, Cpu.set_ne _ _ (by decide), hesp₃]
  have hecx₄ : s₃.regs .ecx = t.kstack := by rw [← hs₃, Cpu.set_self]; rfl
  -- from here on the accesses go through the new directory
  have hid : Identity s₃.sys.mem s₃.sys.cr3 R := by
    rw [hsys₄]
    exact h
  obtain ⟨s₄, hpush, hp⟩ := (Pushed.refl s₃).push hid hoff hk (by omega)
    fun a ha ha' => hR a (by omega) (by omega)
  have he := hp.esp
  simp only [List.length_cons, List.length_nil] at he
  have hcr3 : s₄.sys.cr3 = s₃.sys.cr3 := by rw [hp.sys]
  have hid₄ : Identity s₄.sys.mem s₄.sys.cr3 R := by
    rw [hcr3]
    exact hp.identity hid fun a ha ha' => hR a (by omega) (by omega)
  obtain ⟨s₅, m, hcall, hesp₅, hsys₅, hframe⟩ := callTss_spec hid₄ hoff hp.holds hret
    (by omega) fun a ha ha' => hR a (by omega) (by omega)
  refine ⟨s₅, m, ?_, by omega, ?_, fun x hx => ?_⟩
  · unfold swapStacks
    rw [hload₁, ok_bind, hload₂, ok_bind, hload₃, ok_bind, hecx₄, hpush, ok_bind, hcall]
  · rw [hsys₅, hp.sys, hsys₄]
  · rw [hframe x (by omega), hp.frame x (by omega), hsys₄]

end Parts

/-! ## The whole call -/

section Call

variable {base : Nat} {callee : Callee} {R : Nat → Prop} {s : Cpu Kernel} {prev next : Slot}
  {back edi esi ebx ebp ret : Nat}

/-- **`switch_task`**, called by `prev` with its stack pointer in a stack with
room for the call, for a `next` whose frame is on top of its stack and fits
with what `tss_set_kernel_stack` needs below it. The registers are those of
the frame, the kernel's data is as `switchTask` leaves it, and the frame of
this call is on top of the stack of `prev`. -/
theorem callSwitchTask_spec (hne : next ≠ prev) (h : Identity s.sys.mem s.sys.cr3 R)
    (h' : Identity s.sys.mem (s.sys.taskTable next).pageDirectory R)
    (hoff : ∀ a, R a → ¬InTable base a) (htable : base + taskSize * 32 < 2 ^ 32)
    (hregs : ∀ r, s.regs r < 2 ^ 32) (hback : back < 2 ^ 32) (hret : callee.ret < 2 ^ 32)
    (hk : (s.sys.taskTable next).kstack < 2 ^ 32)
    (hroom : 28 ≤ s.regs .esp) (hR : ∀ a, s.regs .esp - 28 ≤ a → a < s.regs .esp → R a)
    (hroom' : 8 + callee.depth ≤ (s.sys.taskTable next).esp)
    (hR' : ∀ a, (s.sys.taskTable next).esp - 8 - callee.depth ≤ a →
      a < (s.sys.taskTable next).esp + 20 → R a)
    (hapart : s.regs .esp ≤ (s.sys.taskTable next).esp - 8 - callee.depth ∨
      (s.sys.taskTable next).esp + 20 ≤ s.regs .esp - 28)
    (hheld : Holds s.sys.mem (s.sys.taskTable next).esp [edi, esi, ebx, ebp, ret]) :
    ∃ s' m, callSwitchTask base callee prev next back s = .ok s' ∧
      s'.sys = { switchTask (s.regs .esp - 28) prev next s.sys with mem := m } ∧
      s'.eip = ret ∧ s'.regs .edi = edi ∧ s'.regs .esi = esi ∧ s'.regs .ebx = ebx ∧
      s'.regs .ebp = ebp ∧ s'.regs .esp = (s.sys.taskTable next).esp + 20 ∧
      Holds m (s.regs .esp - 28) [s.regs .edi, s.regs .esi, s.regs .ebx, s.regs .ebp, back] ∧
      ∀ x, (x < s.regs .esp - 28 ∨ s.regs .esp ≤ x) →
        (x < (s.sys.taskTable next).esp - 8 - callee.depth ∨ (s.sys.taskTable next).esp ≤ x) →
        m x = s.sys.mem x := by
  have haddr : ∀ i : Slot, taskAddr base i < 2 ^ 32 := fun i =>
    Nat.lt_trans (inTable_field base i 0 (by decide)).1.2 htable
  obtain ⟨s₁, hpush₁, hp₁⟩ := (Pushed.refl s).push h hoff (haddr next) (by omega)
    fun a ha ha' => hR a (by omega) ha'
  have he₁ := hp₁.esp
  simp only [List.length_cons, List.length_nil] at he₁
  obtain ⟨s₂, hpush₂, hp₂⟩ := hp₁.push h hoff (haddr prev) (by omega)
    fun a ha ha' => hR a (by omega) ha'
  have he₂ := hp₂.esp
  simp only [List.length_cons, List.length_nil] at he₂
  obtain ⟨s₃, hpush₃, hp₃⟩ := hp₂.push h hoff hback (by omega) fun a ha ha' => hR a (by omega) ha'
  obtain ⟨s₄, m₄, hsave, hedx, hsys₄, hframe₄, hm₄⟩ :=
    saveContext_spec hp₃ h hoff htable hregs hroom hR
  have ht : s₄.sys.taskTable next = s.sys.taskTable next := by
    rw [hsys₄]
    exact Function.update_of_ne hne ..
  have hmem₄ : s₄.sys.mem = m₄ := by rw [hsys₄]
  have hcr3₄ : s₄.sys.cr3 = s.sys.cr3 := by rw [hsys₄]
  have hdir₄ : s₄.sys.currentPageDirectory = s.sys.currentPageDirectory := by rw [hsys₄]
  have hid₄ : Identity m₄ (s.sys.taskTable next).pageDirectory R := by
    refine h'.congr fun x hx => hm₄ x ?_
    by_contra hin
    exact hx (hR x (by omega) (by omega))
  obtain ⟨s₅, m₅, hswap, hesp₅, hsys₅, hm₅⟩ := swapStacks_spec hedx
    (by rw [ht, hmem₄]; exact hid₄) hoff htable hret (by rw [ht]; exact hk) (by rw [ht]; exact hroom')
    (by rw [ht]; exact fun a ha ha' => hR' a ha (by omega))
  rw [ht] at hesp₅ hsys₅ hm₅
  rw [hmem₄] at hm₅
  have hmem₅ : s₅.sys.mem = m₅ := by rw [hsys₅]
  have hcr3₅ : s₅.sys.cr3 = (s.sys.taskTable next).pageDirectory := by rw [hsys₅]
  have hid₅ : Identity s₅.sys.mem s₅.sys.cr3 R := by
    rw [hmem₅, hcr3₅]
    refine hid₄.congr fun x hx => hm₅ x ?_
    by_contra hin
    exact hx (hR' x (by omega) (by omega))
  -- neither the pushes nor the call reach the frame that is popped
  have hheld₅ : Holds s₅.sys.mem (s₅.regs .esp) [edi, esi, ebx, ebp, ret] := by
    rw [hmem₅, hesp₅]
    refine hheld.congr fun x hx hx' => ?_
    simp only [List.length_cons, List.length_nil] at hx'
    rw [hm₅ x (by omega), hm₄ x (by omega)]
  obtain ⟨s₆, hrestore, hsys₆, heip, hedi, hesi, hebx, hebp, hesp₆⟩ := restoreContext_spec hid₅ hoff
    hheld₅ fun a ha ha' => hR' a (by omega) (by omega)
  refine ⟨s₆, m₅, ?_, ?_, heip, hedi, hesi, hebx, hebp, by rw [hesp₆, hesp₅], ?_, fun x hx hx' => ?_⟩
  · unfold callSwitchTask switchTaskAsm
    rw [hpush₁, ok_bind, hpush₂, ok_bind, hpush₃, ok_bind, hsave, ok_bind, hswap, ok_bind, hrestore]
  · rw [hsys₆, hsys₅, hcr3₄, hdir₄, hsys₄]
    unfold switchTask
    simp only [Function.update_of_ne hne]
    split
    next heq => rw [heq]
    next => rfl
  · refine hframe₄.congr fun x hx hx' => hm₅ x ?_
    simp only [List.length_cons, List.length_nil] at hx'
    omega
  · rw [hm₅ x hx', hm₄ x hx]

end Call

end MyOS
