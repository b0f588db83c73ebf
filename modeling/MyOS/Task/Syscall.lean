import MyOS.Task.Sched
import MyOS.Vmm.TwoRuns

/-!
# System calls

`syscall_dispatch` is reached from Ring 3 through `int 0x80`. It routes on the
saved EAX: `sys_write` prints EDX bytes from the address in ECX, `sys_exit`
prints the status and leaves the task, anything else gets a warning and `-1`.

`sys_write` takes the pointer as it comes. The kernel reads the bytes as
Ring 0, so a page that is closed to Ring 3 is read as well, and its contents
go to the screen. `sysWrite_noDisclosure_iff` compares two machines that
differ only in such pages: the output is the same exactly if no byte of the
buffer lies in one.

Mirroring notes vs the C:
- What is sent to the terminal is a list of characters. The text buffer at
  `0xB8000` is the screen's, not part of the memory modelled, and the messages
  of `page_fault_handler` are not the system call's.
- `buf[i]` is at `buf + i` modulo `2 ^ 32`.
- `struct registers` is reduced to the four registers the calls use.
-/

namespace MyOS

open Lib Lib.Mem Lib.Paging

/-- The saved registers. -/
structure Registers where
  eax : UInt32
  ebx : UInt32
  ecx : UInt32
  edx : UInt32
  deriving DecidableEq

/-- `SYSCALL_WRITE` -/
def syscallWrite : UInt32 := 0

/-- `SYSCALL_EXIT` -/
def syscallExit : UInt32 := 1

/-- The characters `terminal_writestring` sends. -/
def writestring (s : String) : List UInt8 := s.toList.map fun c => UInt8.ofNat c.toNat

/-- `terminal_putchar(buf[i])`, with the byte at `a`, after what was printed so
far. -/
def putNext (a : Nat) (r : List UInt8 × Except Panic Machine) : List UInt8 × Except Panic Machine :=
  match r.2.bind (vread a) with
  | .ok (c, k) => (r.1 ++ [c], .ok k)
  | .error e => (r.1, .error e)

/-- The first `n` iterations of the loop in `sys_write`. -/
def writeLoop (buf : Nat) : Nat → Machine → List UInt8 × Except Panic Machine
  | 0, k => ([], .ok k)
  | n + 1, k => putNext ((buf + n) % 2 ^ 32) (writeLoop buf n k)

def sysWrite (regs : Registers) (k : Kernel) : List UInt8 × Except Stuck (Registers × Kernel) :=
  let r := writeLoop regs.ecx.toNat regs.edx.toNat k.toMachine
  (r.1, (r.2.mapError Stuck.halt).map fun m =>
    ({ regs with eax := regs.edx }, { k with toMachine := m }))

/-- `task_exit` runs the next task, with the registers saved there. -/
def sysExit (fuel esp : Nat) (regs : Registers) (k : Kernel) :
    List UInt8 × Except Stuck (Registers × Kernel) :=
  (writestring "\n[Kernel] Process exited with status " ++ [0x30 + (regs.ebx % 10).toUInt8] ++
    writestring ".\n",
    (taskExit fuel esp k).elim (.error .loop) fun k' => .ok (regs, k'))

def syscallDispatch (fuel esp : Nat) (regs : Registers) (k : Kernel) :
    List UInt8 × Except Stuck (Registers × Kernel) :=
  if regs.eax = syscallWrite then sysWrite regs k
  else if regs.eax = syscallExit then sysExit fuel esp regs k
  else (writestring "[Kernel] Warning: unknown syscall\n", .ok ({ regs with eax := 0xFFFFFFFF }, k))

/-! ## One byte -/

/-- The byte at `a` is in a present page whose frame is in `S`. -/
def SecretAt (S : Nat → Prop) (k : Machine) (a : Nat) : Prop :=
  Present (lookup k.mem k.cr3 a) ∧ S (lookup k.mem k.cr3 a / 4096)

/-- Where it is. -/
def physAt (k : Machine) (a : Nat) : Nat := lookup k.mem k.cr3 a / 4096 * 4096 + a % 4096

section Byte

variable {S : Nat → Prop} {k k' : Machine} {m : Mem} {a : Nat}

theorem physAt_frame (k : Machine) (a : Nat) : physAt k a / 4096 = lookup k.mem k.cr3 a / 4096 := by
  unfold physAt
  omega

/-- A secret byte stays where it is and what it is, and none appears. -/
theorem Untouched.secretAt (h : Untouched S k k') (ha : a < 2 ^ 32) :
    SecretAt S k' a ↔ SecretAt S k a := by
  unfold SecretAt
  rw [h.cr3]
  rcases h.look a ha with hsame | ⟨habs, hnew⟩
  · rw [hsame]
  · exact ⟨fun hs => absurd hs.2 hnew, fun hs => absurd hs.1 habs⟩

theorem Untouched.phys_eq (h : Untouched S k k') (ha : a < 2 ^ 32) (hs : SecretAt S k a) :
    physAt k' a = physAt k a ∧ k'.mem (physAt k a) = k.mem (physAt k a) := by
  constructor
  · unfold physAt
    rw [h.cr3]
    rcases h.look a ha with hsame | ⟨habs, -⟩
    · rw [hsame]
    · exact absurd hs.1 habs
  · refine h.secret _ ?_
    rw [physAt_frame]
    exact hs.2

/-- The two reads of a byte: one character, unless the byte is secret, and
then each run's own. -/
theorem vread_twin (h : Hidden S k) (hm : AgreeOff S k.mem m) (ha : a < 2 ^ 32) :
    (∃ e, vread a k = .error e ∧ vread a { k with mem := m } = .error e) ∨
    ∃ c c' k' m', vread a k = .ok (c, k') ∧ vread a { k with mem := m } = .ok (c', { k' with mem := m' }) ∧
      Hidden S k' ∧ AgreeOff S k'.mem m' ∧ Untouched S k k' ∧
      Untouched S { k with mem := m } { k' with mem := m' } ∧
      (¬SecretAt S k a → c' = c) ∧ (SecretAt S k a → c = k.mem (physAt k a) ∧ c' = m (physAt k a)) := by
  unfold vread
  rcases access_twin h hm ha false with ⟨e, he, he'⟩ | ⟨p, k', m', hk, hk', hh, hag, hu, hu', hp, heq⟩
  · rw [he, he']
    exact Or.inl ⟨e, rfl, rfl⟩
  · rw [hk, hk', ok_map, ok_map]
    refine Or.inr ⟨_, _, k', m', rfl, rfl, hh, hag, hu, hu', fun hns => hag p fun hbad => hns ?_,
      fun hs => ?_⟩
    · -- the frame read is one of `S` only if the byte was secret from the start
      refine (hu.secretAt ha).mp ⟨by rw [hu.cr3]; exact hp, ?_⟩
      rw [hu.cr3]
      rw [heq] at hbad
      have hframe : (lookup k'.mem k.cr3 a / 4096 * 4096 + a % 4096) / 4096
          = lookup k'.mem k.cr3 a / 4096 := by omega
      rwa [hframe] at hbad
    · obtain ⟨hphys, hbyte⟩ := hu.phys_eq ha hs
      have hp' : p = physAt k a := by
        rw [← hphys, heq]
        unfold physAt
        rw [hu.cr3]
      rw [hp']
      refine ⟨hbyte, hu'.secret _ ?_⟩
      rw [physAt_frame]
      exact hs.2

end Byte

/-! ## The loop -/

/-- The runs of the loop from the two machines, `n` iterations in. -/
structure LoopTwin (S : Nat → Prop) (k : Machine) (m : Mem) (buf n : Nat)
    (r r' : List UInt8 × Except Panic Machine) : Prop where
  same : (∀ i < n, ¬SecretAt S k ((buf + i) % 2 ^ 32)) → r'.1 = r.1
  ends : (∃ e, r.2 = .error e ∧ r'.2 = .error e) ∨
    ∃ k' m', r.2 = .ok k' ∧ r'.2 = .ok { k' with mem := m' } ∧ Hidden S k' ∧
      AgreeOff S k'.mem m' ∧ Untouched S k k' ∧
      Untouched S { k with mem := m } { k' with mem := m' } ∧ r.1.length = n ∧ r'.1.length = n
  shows : ∀ k', r.2 = .ok k' → ∀ i < n, SecretAt S k ((buf + i) % 2 ^ 32) →
    r.1[i]? = some (k.mem (physAt k ((buf + i) % 2 ^ 32))) ∧
    r'.1[i]? = some (m (physAt k ((buf + i) % 2 ^ 32)))

section Loop

variable {S : Nat → Prop} {k : Machine} {m : Mem} {buf : Nat}

theorem putNext_error {a : Nat} {r : List UInt8 × Except Panic Machine} {e : Panic}
    (h : r.2.bind (vread a) = .error e) : putNext a r = (r.1, .error e) := by
  unfold putNext
  rw [h]

theorem putNext_ok {a : Nat} {r : List UInt8 × Except Panic Machine} {c : UInt8} {k : Machine}
    (h : r.2.bind (vread a) = .ok (c, k)) : putNext a r = (r.1 ++ [c], .ok k) := by
  unfold putNext
  rw [h]

theorem LoopTwin.step {n : Nat} {r r' : List UInt8 × Except Panic Machine}
    (h : LoopTwin S k m buf n r r') :
    LoopTwin S k m buf (n + 1) (putNext ((buf + n) % 2 ^ 32) r) (putNext ((buf + n) % 2 ^ 32) r') := by
  have ha : (buf + n) % 2 ^ 32 < 2 ^ 32 := Nat.mod_lt _ (by omega)
  -- both stop here with what was printed before
  have hstop : ∀ e, r.2.bind (vread ((buf + n) % 2 ^ 32)) = .error e →
      r'.2.bind (vread ((buf + n) % 2 ^ 32)) = .error e →
      LoopTwin S k m buf (n + 1) (putNext ((buf + n) % 2 ^ 32) r)
        (putNext ((buf + n) % 2 ^ 32) r') := by
    intro e he he'
    rw [putNext_error he, putNext_error he']
    exact ⟨fun hns => h.same fun i hi => hns i (by omega), Or.inl ⟨e, rfl, rfl⟩,
      fun k' hk' => absurd hk' (by simp)⟩
  rcases h.ends with ⟨e, he, he'⟩ | ⟨k₁, m₁, hk₁, hm₁, hh, hag, hu, hu', hlen, hlen'⟩
  · exact hstop e (by rw [he, error_bind]) (by rw [he', error_bind])
  rcases vread_twin hh hag ha with ⟨e, he, he'⟩ |
    ⟨c, c', k₂, m₂, hc, hc', hh₂, hag₂, hu₂, hu₂', hopen, hsecret⟩
  · exact hstop e (by rw [hk₁, ok_bind, he]) (by rw [hm₁, ok_bind, he'])
  rw [putNext_ok (c := c) (k := k₂) (by rw [hk₁, ok_bind, hc]),
    putNext_ok (c := c') (k := { k₂ with mem := m₂ }) (by rw [hm₁, ok_bind, hc'])]
  refine ⟨fun hns => ?_, Or.inr ⟨k₂, m₂, rfl, rfl, hh₂, hag₂, hu.trans hu₂, hu'.trans hu₂',
    by rw [List.length_append, hlen]; rfl, by rw [List.length_append, hlen']; rfl⟩,
    fun _ _ i hi hs => ?_⟩
  · rw [h.same fun i hi => hns i (by omega),
      hopen fun hs => hns n (by omega) ((hu.secretAt ha).mp hs)]
  · show (r.1 ++ [c])[i]? = _ ∧ (r'.1 ++ [c'])[i]? = _
    by_cases hin : i < n
    · rw [List.getElem?_append_left (by omega), List.getElem?_append_left (by omega)]
      exact h.shows k₁ hk₁ i hin hs
    · have hi' : i = n := by omega
      subst hi'
      obtain ⟨hphys, hbyte⟩ := hu.phys_eq ha hs
      obtain ⟨hb, hb'⟩ := hsecret ((hu.secretAt ha).mpr hs)
      rw [hphys] at hb hb'
      have hbyte' : m₁ (physAt k ((buf + i) % 2 ^ 32)) = m (physAt k ((buf + i) % 2 ^ 32)) :=
        hu'.secret _ (by rw [physAt_frame]; exact hs.2)
      rw [List.getElem?_append_right (by omega), List.getElem?_append_right (by omega), hlen, hlen',
        Nat.sub_self, hb, hb', hbyte, hbyte']
      exact ⟨rfl, rfl⟩

theorem writeLoop_twin (h : Hidden S k) (hm : AgreeOff S k.mem m) (buf : Nat) : ∀ n,
    LoopTwin S k m buf n (writeLoop buf n k) (writeLoop buf n { k with mem := m }) := by
  intro n
  induction n with
  | zero =>
    exact ⟨fun _ => rfl, Or.inr ⟨k, m, rfl, rfl, h, hm, Untouched.refl S k, Untouched.refl S _, rfl, rfl⟩,
      fun _ _ i hi => absurd hi (Nat.not_lt_zero i)⟩
  | succ n ih => exact ih.step

end Loop

/-! ## What `sys_write` discloses -/

/-- Frame `f` is behind a page that Ring 3 may not access. -/
def SupervisorFrame (m : Mem) (dir f : Nat) : Prop :=
  ∃ v < 2 ^ 32, Present (lookup m dir v) ∧
    ¬(User (pde m dir (pdIndex v)) ∧ User (lookup m dir v)) ∧ lookup m dir v / 4096 = f

/-- Frame `f` is behind a page that Ring 3 may access. -/
def UserFrame (m : Mem) (dir f : Nat) : Prop :=
  ∃ v < 2 ^ 32, Present (lookup m dir v) ∧
    User (pde m dir (pdIndex v)) ∧ User (lookup m dir v) ∧ lookup m dir v / 4096 = f

/-- Frame `f` is mapped for the supervisor only, and is no page table. -/
def Secret (k : Machine) (f : Nat) : Prop :=
  SupervisorFrame k.mem k.cr3 f ∧ ¬UserFrame k.mem k.cr3 f ∧
    ¬FamilyFrame k.mem [k.currentPageDirectory, k.cr3] f

/-- The kernel on another memory. -/
def Kernel.withMem (k : Kernel) (m : Mem) : Kernel :=
  { k with toMachine := { k.toMachine with mem := m } }

/-- The call prints the same on every memory that differs in supervisor-only
pages alone. -/
def NoDisclosure (fuel esp : Nat) (regs : Registers) (k : Kernel) : Prop :=
  ∀ m, AgreeOff (Secret k.toMachine) k.mem m →
    (syscallDispatch fuel esp regs (k.withMem m)).1 = (syscallDispatch fuel esp regs k).1

/-- No byte of the buffer lies in a supervisor-only page. -/
def BufferOpen (regs : Registers) (k : Kernel) : Prop :=
  ∀ i < regs.edx.toNat,
    ¬SecretAt (Secret k.toMachine) k.toMachine ((regs.ecx.toNat + i) % 2 ^ 32)

section Dispatch

variable {fuel esp : Nat} {regs : Registers} {k : Kernel}

theorem dispatch_write (hw : regs.eax = syscallWrite) : syscallDispatch fuel esp regs k =
    ((writeLoop regs.ecx.toNat regs.edx.toNat k.toMachine).1,
      ((writeLoop regs.ecx.toNat regs.edx.toNat k.toMachine).2.mapError Stuck.halt).map fun m =>
        ({ regs with eax := regs.edx }, { k with toMachine := m })) := by
  unfold syscallDispatch
  rw [if_pos hw]
  rfl

/-- **`sys_write` and supervisor pages.** The output does not depend on
supervisor-only pages if no byte of the buffer lies in one; and if the call
returns, only then. -/
theorem sysWrite_noDisclosure_iff
    (hfam : Family (InUse k.pmm) k.mem [k.currentPageDirectory, k.cr3])
    (hused : ∀ f, Secret k.toMachine f → ¬IsFree k.pmm f) (hw : regs.eax = syscallWrite) :
    (BufferOpen regs k → NoDisclosure fuel esp regs k) ∧
    (∀ r, (syscallDispatch fuel esp regs k).2 = .ok r →
      (NoDisclosure fuel esp regs k ↔ BufferOpen regs k)) := by
  have hh : Hidden (Secret k.toMachine) k.toMachine :=
    ⟨hfam, fun b hb hs => hused b hs hb, fun b hb hs => hs.2.2 hb⟩
  have htwin := fun {m} hm => writeLoop_twin (m := m) hh hm regs.ecx.toNat regs.edx.toNat
  have hsuff : BufferOpen regs k → NoDisclosure fuel esp regs k := by
    intro hopen m hm
    rw [dispatch_write hw, dispatch_write hw]
    exact (htwin hm).same hopen
  refine ⟨hsuff, fun r hr => ⟨fun hno i hi hs => ?_, hsuff⟩⟩
  -- change the secret byte: the two outputs differ at its index
  obtain ⟨m, hdef⟩ : ∃ m, m = k.mem.write (physAt k.toMachine ((regs.ecx.toNat + i) % 2 ^ 32))
      (k.mem (physAt k.toMachine ((regs.ecx.toNat + i) % 2 ^ 32)) + 1) := ⟨_, rfl⟩
  have hm : AgreeOff (Secret k.toMachine) k.mem m := by
    intro x hx
    rw [hdef]
    refine write_ne _ _ fun heq => hx ?_
    rw [heq, physAt_frame]
    exact hs.2
  rw [dispatch_write hw] at hr
  obtain ⟨k', hk', -⟩ := map_eq_ok hr
  obtain ⟨hb, hb'⟩ := (htwin hm).shows k' (mapError_eq_ok hk') i hi hs
  have hsame := hno m hm
  rw [dispatch_write hw, dispatch_write hw] at hsame
  have hbyte := congrArg (fun l => l[i]?) hsame
  dsimp only at hbyte
  rw [show (k.withMem m).toMachine = { k.toMachine with mem := m } from rfl, hb, hb', hdef,
    write_self] at hbyte
  exact absurd (Option.some.inj hbyte) (by simp)

end Dispatch

/-! ## A kernel stack, printed -/

/-- Block 200 mapped at its own address for the supervisor, as `task_create`
maps a stack. -/
def mapStack : Except Panic Machine :=
  vmmMapPage (200 * 4096) (200 * 4096) (flagPresent ||| flagWrite) emptyMachine

/-- `sys_write(1, 200 * 4096, 1)` -/
def printStack : Registers := ⟨0, 1, 200 * 4096, 1⟩

theorem mapStack_mapped {k : Machine} (h : mapStack = .ok k) :
    ∃ ts, Mapped (255 * 4096) (200 * 4096) (200 * 4096 + 3) ts emptyMachine k := by
  have hlt : 200 * 4096 ||| (flagPresent ||| flagWrite) < 2 ^ 32 := by decide
  rcases vmmMapPage_cases (v := 200 * 4096) emptyMachine_ok (by omega) hlt with
    ⟨ts, k', hrun, hm⟩ | ⟨-, -, herr⟩
  · unfold mapStack at h
    rw [hrun] at h
    cases h
    exact ⟨ts, hm⟩
  · unfold mapStack at h
    rw [herr] at h
    exact absurd h (by simp)

/-- Exactly that frame is secret then, and the directory is sound. -/
theorem mapStack_secret {k : Machine} (h : mapStack = .ok k) :
    Family (InUse k.pmm) k.mem [k.currentPageDirectory, k.cr3] ∧ (∀ f, Secret k f ↔ f = 200) ∧
      InUse k.pmm 200 := by
  obtain ⟨ts, hm⟩ := mapStack_mapped h
  have hdir : k.currentPageDirectory = 255 * 4096 := by
    have hregs := congrArg Machine.currentPageDirectory hm.regs
    exact hregs
  have hcr3 : k.cr3 = 255 * 4096 := by
    have hregs := congrArg Machine.cr3 hm.regs
    exact hregs
  have hused : InUse emptyMachine.pmm 200 := by decide +kernel
  have hlook : ∀ v < 2 ^ 32, Present (lookup k.mem (255 * 4096) v) →
      lookup k.mem (255 * 4096) v = 200 * 4096 + 3 := by
    intro v hv hp
    rw [hm.lookup_eq v hv] at hp ⊢
    split at hp
    next hpage => rw [if_pos hpage]
    next =>
      rw [lookup_absent (emptyMachine_absent _ _)] at hp
      exact absurd hp not_present_zero
  have hfam : Family (InUse k.pmm) k.mem [255 * 4096, 255 * 4096] := by
    exact (family_singleton hm.sep).subset fun d hd => by
      rcases List.mem_cons.mp hd with heq | hd
      · exact List.mem_singleton.mpr heq
      · exact hd
  unfold Secret
  rw [hdir, hcr3]
  refine ⟨hfam, fun f => ⟨fun hs => ?_, fun hf => ?_⟩, hm.taken.inUse_iff.mpr (Or.inl hused)⟩
  · obtain ⟨v, hv, hp, -, rfl⟩ := hs.1
    rw [hlook v hv hp]
  · subst hf
    have hpage : lookup k.mem (255 * 4096) (200 * 4096) = 200 * 4096 + 3 := by
      rw [hm.lookup_eq _ (by omega), if_pos rfl]
    refine ⟨⟨200 * 4096, by omega, ?_, ?_, ?_⟩, ?_, ?_⟩
    · rw [hpage]
      decide
    · rw [hpage]
      exact fun hu => absurd hu.2 (by decide)
    · rw [hpage]
    · rintro ⟨v, hv, hp, -, hu, -⟩
      rw [hlook v hv hp] at hu
      exact absurd hu (by decide)
    · -- the table was free, the stack was not
      rintro ⟨d, hd, hb⟩
      have hd' : d = 255 * 4096 := by simpa using hd
      subst hd'
      rcases hb with hb | ⟨i, hi, hp, hb⟩
      · exact absurd hb (by decide)
      · rcases hm.slot_cases hi hp with ⟨hold, -⟩ | ⟨-, -, t, ht, heq⟩
        · exact emptyMachine_absent _ i hold
        · rw [heq, frame_entry] at hb
          exact (hm.taken.mem_isFree ht).not_inUse (hb ▸ hused)

/-- An empty buffer discloses nothing, the stack's first byte is disclosed. -/
theorem sysWrite_noDisclosure_demo : ∃ k, mapStack = .ok k ∧
    NoDisclosure 40 0 ⟨0, 1, 200 * 4096, 0⟩ (schedulerInit k) ∧
    ¬NoDisclosure 40 0 printStack (schedulerInit k) := by
  have hrun : mapStack.toOption.any (fun k =>
      (syscallDispatch 40 0 printStack (schedulerInit k)).2.toOption.isSome) = true := by
    decide +kernel
  obtain ⟨k, hk, hret⟩ := (Option.any_eq_true _ _).mp hrun
  obtain ⟨r, hr⟩ := Option.isSome_iff_exists.mp hret
  have hk := toOption_eq_some hk
  obtain ⟨hfam, hsecret, hused⟩ := mapStack_secret hk
  have hnot : ∀ f, Secret (schedulerInit k).toMachine f → ¬IsFree k.pmm f := fun f hf hfree => by
    have hf' : f = 200 := (hsecret f).mp hf
    exact hfree.not_inUse (hf' ▸ hused)
  refine ⟨k, hk, ?_, fun hno => ?_⟩
  · exact (sysWrite_noDisclosure_iff hfam hnot rfl).1 fun i hi => absurd hi (Nat.not_lt_zero i)
  · refine ((sysWrite_noDisclosure_iff hfam hnot rfl).2 r (toOption_eq_some hr)).mp hno 0
      (by decide) ?_
    obtain ⟨ts, hm⟩ := mapStack_mapped hk
    have hcr3 : (schedulerInit k).cr3 = 255 * 4096 := by
      have hregs := congrArg Machine.cr3 hm.regs
      exact hregs
    have hpage : lookup (schedulerInit k).mem (schedulerInit k).cr3 (200 * 4096) = 200 * 4096 + 3 := by
      rw [hcr3]
      show lookup k.mem _ _ = _
      rw [hm.lookup_eq _ (by omega), if_pos rfl]
    show Present (lookup _ _ (200 * 4096)) ∧ Secret _ (lookup _ _ (200 * 4096) / 4096)
    rw [hpage]
    exact ⟨by decide, (hsecret _).mpr (by decide)⟩

/-- One byte of a kernel stack, zero in one memory and `'A'` in the other, and
the two outputs. -/
theorem sysWrite_prints_stack : ∃ k, mapStack = .ok k ∧
    AgreeOff (Secret (schedulerInit k).toMachine) k.mem (k.mem.write (200 * 4096) 0x41) ∧
    (syscallDispatch 40 0 printStack (schedulerInit k)).1 = [0] ∧
    (syscallDispatch 40 0 printStack
      ((schedulerInit k).withMem (k.mem.write (200 * 4096) 0x41))).1 = [0x41] ∧
    ¬NoDisclosure 40 0 printStack (schedulerInit k) := by
  have hrun : mapStack.toOption.any (fun k => decide
      ((syscallDispatch 40 0 printStack (schedulerInit k)).1 = [0] ∧
      (syscallDispatch 40 0 printStack
        ((schedulerInit k).withMem (k.mem.write (200 * 4096) 0x41))).1 = [0x41])) = true := by
    decide +kernel
  obtain ⟨k, hk, hout⟩ := (Option.any_eq_true _ _).mp hrun
  have hk := toOption_eq_some hk
  obtain ⟨hzero, hA⟩ := of_decide_eq_true hout
  obtain ⟨-, hsecret, -⟩ := mapStack_secret hk
  have hagree : AgreeOff (Secret (schedulerInit k).toMachine) k.mem
      (k.mem.write (200 * 4096) 0x41) := by
    intro x hx
    refine write_ne _ _ fun heq => hx ((hsecret _).mpr ?_)
    rw [heq]
  refine ⟨k, hk, hagree, hzero, hA, fun hno => ?_⟩
  have hsame := hno _ hagree
  rw [hzero, hA] at hsame
  exact absurd hsame (by decide)

end MyOS
