import MyOS.Boot.Main

/-!
# Interrupts during the boot

Between the `cli` behind `vmm_init` and the last `sti` of `kernel_main`
interrupts should be off: the timer interrupt still arrives at vector 8, and
no handler is registered for it. Which call turns them on?

`kernelMain_true_iff` has the answer for every run, also one that halts: only
`elf_load`, behind a segment of `/hello`. `kernelMain_intFlag` says that the
events are complete: the flag at the end is the last value written, so none
of the other calls, with all their page faults, touches it.
-/

namespace MyOS

open Lib Lib.Mem Lib.Paging

/-! ## Calls that do not touch the flag -/

section Quiet

variable {k k' : Machine}

theorem vread32_quiet {a : Nat} {r : Nat × Machine} (h : vread32 a k = .ok r) : Quiet k r.2 := by
  obtain ⟨x, hcopy, rfl⟩ := map_eq_ok h
  exact vcopyOut_quiet 4 hcopy

theorem vwriteBytes_quiet {a v : Nat} : ∀ (n : Nat) {k' : Machine},
    vwriteBytes a v n k = .ok k' → Quiet k k' := by
  intro n
  induction n with
  | zero =>
    intro k' h
    cases h
    exact Quiet.refl k
  | succ n ih =>
    intro k' h
    obtain ⟨k₁, hprev, hlast⟩ := bind_eq_ok h
    exact (ih hprev).trans (vwrite_quiet hlast)

theorem writeBack_quiet {a v : Nat} {r : Nat × Machine} (h : writeBack a v k = .ok r) :
    Quiet k r.2 := by
  obtain ⟨k₁, hwrite, hread⟩ := bind_eq_ok h
  exact (vwriteBytes_quiet 4 hwrite).trans (vread32_quiet hread)

theorem vmmUnmapPage_intFlag (v : Nat) (k : Machine) : (vmmUnmapPage v k).intFlag = k.intFlag := by
  unfold vmmUnmapPage
  split
  · rfl
  · rfl

/-- A release of a block. -/
theorem intFlag_free (k : Machine) (s : Pmm) : ({ k with pmm := s } : Machine).intFlag = k.intFlag :=
  rfl

theorem vmmTestA_intFlag (h : vmmTestA k = .ok k') : k'.intFlag = k.intFlag := by
  unfold vmmTestA at h
  by_cases hnull : (pmmAllocBlock k.pmm).1 = 0
  · rw [if_pos hnull] at h
    exact absurd h (by simp)
  rw [if_neg hnull] at h
  obtain ⟨r, hr, hrest⟩ := bind_eq_ok h
  obtain ⟨k₁, hmap, hback⟩ := bind_eq_ok (mapError_eq_ok hr)
  have hquiet := (quiet_alloc k).trans ((vmmMapPage_quiet hmap).trans (writeBack_quiet hback))
  split at hrest
  · exact absurd hrest (by simp)
  · cases hrest
    -- by lemmas, since the kernel would compare the two machines field by field
    exact (intFlag_free _ _).trans ((vmmUnmapPage_intFlag _ _).trans hquiet.intFlag)

theorem vmmTestB_intFlag (h : vmmTestB k = .ok k') : k'.intFlag = k.intFlag := by
  obtain ⟨r, hr, hrest⟩ := bind_eq_ok h
  have hquiet := writeBack_quiet (mapError_eq_ok hr)
  split at hrest
  · exact absurd hrest (by simp)
  · cases hrest
    exact (vmmUnmapPage_intFlag _ _).trans hquiet.intFlag

theorem securityPage_quiet (h : securityPage k = .ok k') : Quiet k k' := by
  unfold securityPage at h
  by_cases hnull : (pmmAllocBlock k.pmm).1 = 0
  · simp only [if_pos hnull] at h
    exact absurd h (by simp)
  · simp only [if_neg hnull] at h
    exact (quiet_alloc k).trans (vmmMapPage_quiet (mapError_eq_ok h))

theorem moduleList_quiet {mbiAddr : Nat} {r : Option Nat × Machine}
    (h : moduleList mbiAddr k = .ok r) : Quiet k r.2 := by
  obtain ⟨flags, hflags, hrest⟩ := bind_eq_ok h
  have hq := vread32_quiet hflags
  split at hrest
  · cases hrest
    exact hq
  · obtain ⟨count, hcount, hrest⟩ := bind_eq_ok hrest
    have hq' := hq.trans (vread32_quiet hcount)
    split at hrest
    · cases hrest
      exact hq'
    · obtain ⟨mods, hmods, rfl⟩ := map_eq_ok hrest
      exact hq'.trans (vread32_quiet hmods)

theorem postVmmProbe_quiet {mbiAddr : Nat} (h : postVmmProbe mbiAddr k = .ok k') : Quiet k k' := by
  obtain ⟨mods, hmods, hrest⟩ := bind_eq_ok h
  have hq := moduleList_quiet hmods
  cases ha : mods.1 with
  | none =>
    rw [ha, Option.elim_none] at hrest
    cases hrest
    exact hq
  | some a =>
    rw [ha, Option.elim_some] at hrest
    obtain ⟨s, hs, hrest⟩ := bind_eq_ok hrest
    obtain ⟨c, hc, rfl⟩ := map_eq_ok hrest
    exact hq.trans ((vread32_quiet hs).trans (vread_quiet hc))

theorem initrdModule_quiet {mbiAddr : Nat} {r : (Nat × Nat) × Machine}
    (h : initrdModule mbiAddr k = .ok r) : Quiet k r.2 := by
  obtain ⟨mods, hmods, hrest⟩ := bind_eq_ok h
  have hq := moduleList_quiet hmods
  cases ha : mods.1 with
  | none =>
    rw [ha, Option.elim_none] at hrest
    cases hrest
    exact hq
  | some a =>
    rw [ha, Option.elim_some] at hrest
    obtain ⟨s, hs, hrest⟩ := bind_eq_ok hrest
    obtain ⟨e, he, rfl⟩ := map_eq_ok hrest
    exact hq.trans ((vread32_quiet hs).trans (vread32_quiet he))

end Quiet

/-! ### `tar_init` -/

theorem vstring_quiet : ∀ (n : Nat) {a : Nat} {k : Machine} {r : List UInt8 × Machine},
    vstring a n k = .ok r → Quiet k r.2 := by
  intro n
  induction n with
  | zero =>
    intro a k r h
    exact absurd h (by simp [vstring])
  | succ n ih =>
    intro a k r h
    obtain ⟨c, hc, hrest⟩ := bind_eq_ok h
    have hq := vread_quiet (mapError_eq_ok hc)
    split at hrest
    · cases hrest
      exact hq
    · obtain ⟨s, hs, rfl⟩ := map_eq_ok hrest
      have hs' : Quiet c.2 s.2 := ih hs
      exact hq.trans hs'

theorem getOctal_quiet : ∀ (n : Nat) {a out : Nat} {k : Machine} {r : Nat × Machine},
    getOctal a n out k = .ok r → Quiet k r.2 := by
  intro n
  induction n with
  | zero =>
    intro a out k r h
    cases h
    exact Quiet.refl k
  | succ n ih =>
    intro a out k r h
    obtain ⟨c, hc, hrest⟩ := bind_eq_ok h
    have hq := vread_quiet hc
    split at hrest
    · cases hrest
      exact hq
    · split at hrest
      · exact hq.trans (ih hrest)
      · split at hrest
        · cases hrest
          exact hq
        · exact hq.trans (ih hrest)

theorem registerNode_quiet {ptr fileSize : Nat} {k : Machine} {r : FsNode × Machine}
    (h : registerNode ptr fileSize k = .ok r) : Quiet k r.2 := by
  obtain ⟨raw, hraw, hrest⟩ := bind_eq_ok h
  have hq := vstring_quiet _ hraw
  split at hrest
  · exact absurd hrest (by simp)
  · obtain ⟨t, ht, rfl⟩ := map_eq_ok hrest
    exact hq.trans (vread_quiet (mapError_eq_ok ht))

theorem tarLoop_quiet {limit : Nat} : ∀ (fuel : Nat) {ptr : Nat} {nodes : List FsNode} {k : Machine}
    {r : List FsNode × Machine}, tarLoop limit fuel ptr nodes k = .ok r → Quiet k r.2 := by
  intro fuel
  induction fuel with
  | zero =>
    intro ptr nodes k r h
    exact absurd h (by simp [tarLoop])
  | succ fuel ih =>
    intro ptr nodes k r h
    unfold tarLoop at h
    split at h
    · obtain ⟨c, hc, hrest⟩ := bind_eq_ok h
      have hq := vread_quiet (mapError_eq_ok hc)
      split at hrest
      · cases hrest
        exact hq
      · obtain ⟨sz, hsz, hrest⟩ := bind_eq_ok hrest
        have hq' := hq.trans (getOctal_quiet _ (mapError_eq_ok hsz))
        split at hrest
        · obtain ⟨nd, hnd, hrest⟩ := bind_eq_ok hrest
          exact (hq'.trans (registerNode_quiet hnd)).trans (ih hrest)
        · exact hq'.trans (ih hrest)
    · cases h
      exact Quiet.refl k

theorem mountInitrd_quiet {fuel : Nat} {initrd : Nat × Nat} {k : Machine} {r : Vfs × Machine}
    (h : mountInitrd fuel initrd k = .ok r) : Quiet k r.2 := by
  unfold mountInitrd at h
  split at h
  · obtain ⟨c, hc, hrest⟩ := bind_eq_ok h
    obtain ⟨x, hx, rfl⟩ := map_eq_ok (mapError_eq_ok hrest)
    exact (vread_quiet (mapError_eq_ok hc)).trans (tarLoop_quiet fuel hx)
  · cases h
    exact Quiet.refl k

/-- The tests and the file system run with interrupts off. -/
theorem bootMachines_intFlag {env : BootEnv} {k : Machine} {r : (Nat × Nat) × Vfs × Machine}
    (h : bootMachines env k = .ok r) : r.2.2.intFlag = false := by
  obtain ⟨k₁, h₁, h⟩ := bind_eq_ok h
  obtain ⟨k₂, h₂, h⟩ := bind_eq_ok h
  obtain ⟨k₃, h₃, h⟩ := bind_eq_ok h
  obtain ⟨k₄, h₄, h⟩ := bind_eq_ok h
  obtain ⟨m, hm, h⟩ := bind_eq_ok h
  obtain ⟨v, hv, rfl⟩ := map_eq_ok h
  calc v.2.intFlag
      = m.2.intFlag := (mountInitrd_quiet hv).intFlag
    _ = k₄.intFlag := (initrdModule_quiet (mapError_eq_ok hm)).intFlag
    _ = k₃.intFlag := (securityPage_quiet h₄).intFlag
    _ = k₂.intFlag := vmmTestB_intFlag h₃
    _ = k₁.intFlag := vmmTestA_intFlag h₂
    _ = false := (postVmmProbe_quiet (mapError_eq_ok h₁)).intFlag

theorem taskCreate_intFlag {sym : Symbols} {fuel entry pageDir : Nat} {isUser : Bool} {k k' : Kernel}
    {r : Option Slot} (h : taskCreate sym fuel entry pageDir isUser k = .ok (r, k')) :
    k'.intFlag = false := by
  rcases taskCreate_runs h with ⟨-, -, rfl⟩ | ⟨-, -, rfl⟩ | ⟨i, b, m, -, hmade⟩
  · rfl
  · rfl
  · rw [hmade.machine]
    exact (vmmMapPage_quiet hmade.map).intFlag

/-! ## The events are complete -/

/-- The flag that a part of the boot leaves is the last value it wrote. -/
def Tracks {α : Type} (f : Bool) (flag : α → Bool) (x : BootRun α) : Prop :=
  ∀ a, x.out = .ok a → flag a = flagAfter f x.events

theorem Tracks.bind {α β : Type} {f : Bool} {flag : α → Bool} {flag' : β → Bool} {x : BootRun α}
    {g : α → BootRun β} (hx : Tracks f flag x)
    (hg : ∀ a, x.out = .ok a → Tracks (flag a) flag' (g a)) : Tracks f flag' (x.bind g) := by
  intro b hb
  obtain ⟨a, ha, hb, hevents⟩ := Traced.bind_out_eq_ok hb
  rw [hevents, flagAfter_append, ← hx a ha]
  exact hg a ha b hb

theorem createTask_tracks {env : BootEnv} {entry pageDir : Nat} {isUser : Bool} {k : Kernel}
    (f : Bool) : Tracks f (·.intFlag) (createTask env entry pageDir isUser k) := by
  intro k' h
  obtain ⟨⟨r, k₁⟩, hrun, rfl⟩ := map_eq_ok (mapError_eq_ok h)
  exact taskCreate_intFlag hrun

theorem beforeHello_tracks (env : BootEnv) (k : Machine) :
    Tracks k.intFlag (·.kernel.intFlag) (beforeHello env k) := by
  have hfirst : Tracks k.intFlag (fun r => r.2.2.intFlag)
      (Traced.call [false] (bootMachines env k)) := fun _ h => bootMachines_intFlag h
  refine hfirst.bind fun b _ => ?_
  have hsched : Tracks b.2.2.intFlag (fun k' : Kernel => k'.intFlag)
      (Traced.call [false] (.ok (schedulerInit b.2.2))) := by
    intro k' h
    cases h
    rfl
  refine hsched.bind fun k₁ _ => (createTask_tracks _).bind fun k₂ _ =>
    (createTask_tracks _).bind fun k₃ _ => ?_
  intro s h
  cases h
  rfl

theorem loadHello_tracks (env : BootEnv) (s : BootState) :
    Tracks s.kernel.intFlag (·.intFlag) (loadHello env s) := by
  unfold loadHello
  split
  · have hload : Tracks s.kernel.intFlag (fun r : ElfResult × Machine => r.2.intFlag)
        (Traced.call (elfFlags s.vfs (cstr "/hello") s.kernel.toMachine)
          ((elfLoad s.vfs (cstr "/hello") s.kernel.toMachine).mapError .panic)) := fun r h =>
      elfLoad_intFlag (mapError_eq_ok h)
    refine hload.bind fun r _ => ?_
    match r with
    | (.ok (entry, pd), m) => exact createTask_tracks _
    | (.error _, m) =>
      intro k' h
      cases h
      rfl
  · intro k' h
    cases h
    rfl

/-- The flag at the end of the boot is the last value written. -/
theorem kernelMain_intFlag {env : BootEnv} {d d' : Devices} {k : Machine} {k' : Kernel}
    (h : (kernelMain env d k).out = .ok (k', d')) :
    k'.intFlag = flagAfter k.intFlag (kernelMain env d k).events := by
  have htracks : Tracks k.intFlag (fun r : Kernel × Devices => r.1.intFlag) (kernelMain env d k) := by
    refine (beforeHello_tracks env k).bind fun s _ => (loadHello_tracks env s).bind fun k₁ _ => ?_
    intro r hr
    cases hr
    rfl
  exact htracks _ h

/-! ## Who turns interrupts on -/

section On

variable {env : BootEnv} {d : Devices} {k : Machine} {s : BootState}

theorem createTask_off {entry pageDir : Nat} {isUser : Bool} {k : Kernel} :
    true ∉ (createTask env entry pageDir isUser k).events := by
  intro h
  exact absurd (List.mem_singleton.mp h) (by simp)

theorem beforeHello_off : true ∉ (beforeHello env k).events := by
  unfold beforeHello
  rw [Traced.mem_bind_events]
  rintro (h | ⟨b, -, h⟩)
  · exact absurd (List.mem_singleton.mp h) (by simp)
  rw [Traced.mem_bind_events] at h
  rcases h with h | ⟨k₁, -, h⟩
  · exact absurd (List.mem_singleton.mp h) (by simp)
  rw [Traced.mem_bind_events] at h
  rcases h with h | ⟨k₂, -, h⟩
  · exact createTask_off h
  rw [Traced.mem_bind_events] at h
  rcases h with h | ⟨k₃, -, h⟩
  · exact createTask_off h
  · exact absurd h List.not_mem_nil

theorem true_mem_loadHello_iff : true ∈ (loadHello env s).events ↔
    s.initrdStart ≠ 0 ∧ true ∈ elfFlags s.vfs (cstr "/hello") s.kernel.toMachine := by
  unfold loadHello
  split
  next hstart =>
    rw [Traced.mem_bind_events]
    refine ⟨?_, fun h => Or.inl h.2⟩
    rintro (h | ⟨r, -, h⟩)
    · exact ⟨hstart, h⟩
    · match r, h with
      | (.ok (entry, pd), m), h => exact absurd h createTask_off
      | (.error _, m), h => exact absurd h List.not_mem_nil
  next hstart => exact ⟨fun h => absurd h List.not_mem_nil, fun h => absurd h.1 hstart⟩

/-- In every run, only the load of `/hello` turns interrupts on. -/
theorem kernelMain_true_iff : true ∈ (kernelMain env d k).events ↔
    ∃ s, (beforeHello env k).out = .ok s ∧ s.initrdStart ≠ 0 ∧
      true ∈ elfFlags s.vfs (cstr "/hello") s.kernel.toMachine := by
  unfold kernelMain
  rw [Traced.mem_bind_events]
  constructor
  · rintro (h | ⟨s, hs, h⟩)
    · exact absurd h beforeHello_off
    · rw [Traced.mem_bind_events] at h
      rcases h with h | ⟨k', -, h⟩
      · exact ⟨s, hs, true_mem_loadHello_iff.mp h⟩
      · exact absurd h List.not_mem_nil
  · rintro ⟨s, hs, h⟩
    refine Or.inr ⟨s, hs, ?_⟩
    rw [Traced.mem_bind_events]
    exact Or.inl (true_mem_loadHello_iff.mpr h)

end On

/-- No value written before the last `sti` is `true`. -/
def InterruptsOff (env : BootEnv) (d : Devices) (k : Machine) : Prop :=
  true ∉ (kernelMain env d k).events

/-- When `/hello` is loaded, none of the program headers read is a segment. -/
def NoSegment (env : BootEnv) (k : Machine) : Prop :=
  ∀ s, (beforeHello env k).out = .ok s → s.initrdStart ≠ 0 →
    ∀ p ∈ programHeaders s.vfs (cstr "/hello") s.kernel.toMachine, pType p ≠ ptLoad

/-- **Interrupts during the boot.** They stay off in every run in which
`/hello` has no segment, and in a run that gets to its last `sti` in no
other. -/
theorem kernelMain_off_iff (env : BootEnv) (d : Devices) (k : Machine) :
    (NoSegment env k → InterruptsOff env d k) ∧
    ∀ b, (kernelMain env d k).out = .ok b → (InterruptsOff env d k ↔ NoSegment env k) := by
  have henough : NoSegment env k → InterruptsOff env d k := by
    intro hno hon
    obtain ⟨s, hs, hstart, hflags⟩ := kernelMain_true_iff.mp hon
    rw [elfFlags_eq_nil (hno s hs hstart)] at hflags
    exact absurd hflags List.not_mem_nil
  refine ⟨henough, fun b hb => ⟨fun hoff s hs hstart => ?_, henough⟩⟩
  -- the run goes on behind the load, so the load returned
  obtain ⟨s', hs', hb, -⟩ := Traced.bind_out_eq_ok hb
  rw [hs] at hs'
  cases hs'
  obtain ⟨k', hk', -⟩ := Traced.bind_out_eq_ok hb
  unfold loadHello at hk'
  rw [if_pos hstart] at hk'
  obtain ⟨r, hr, -⟩ := Traced.bind_out_eq_ok hk'
  refine (elfFlags_off_iff (mapError_eq_ok hr)).mp fun hon => ?_
  exact hoff (kernelMain_true_iff.mpr ⟨s, hs, hstart, hon⟩)

/-! ## Two boots -/

/-- The Multiboot information at `0x9000` has one module, at `0x10000`; these
two pages are mapped. -/
def archiveMachine (archive : List (Nat × Nat)) : Machine :=
  demoMachine 300 demo_total (wordMem (archive ++
    [(0x9000, 0x8), (0x9014, 1), (0x9018, 0x9100), (0x9100, 0x10000), (0x9104, 0x10600),
      (254 * 4096 + 4 * 9, 9 * 4096 + 7), (254 * 4096 + 4 * 16, 16 * 4096 + 7),
      (255 * 4096, 254 * 4096 + 7)]))

/-- An archive of the file `hello`, 84 bytes long: the header of an ELF file
and one program header, an empty segment. -/
def helloArchive : List (Nat × Nat) :=
  [(0x10000, 0x6C6C6568), (0x10004, 0x6F), (0x1007C, 0x30303030), (0x10080, 0x30303030),
    (0x10084, 0x343231), (0x1009C, 0x30),
    (0x10200, 0x464C457F), (0x10204, 1), (0x10210, 0x30002), (0x10218, 0x8048000), (0x1021C, 52),
    (0x10228, 0x200000), (0x1022C, 1), (0x10234, 1)]

def archiveEnv : BootEnv :=
  ⟨⟨0x100100, 0x100200, 0x100300⟩, 0x100400, 0x100500, 0x100600, 0x9000, 40⟩

def noDevices : Devices := ⟨[], fun _ => none⟩

/-- With an empty archive `/hello` is not found, and the boot ends with
interrupts off. -/
theorem kernelMain_off_without_hello :
    ∃ b, (kernelMain archiveEnv noDevices (archiveMachine [])).out = .ok b ∧
      InterruptsOff archiveEnv noDevices (archiveMachine []) ∧
      NoSegment archiveEnv (archiveMachine []) := by
  have hend : (kernelMain archiveEnv noDevices (archiveMachine [])).out.toOption.isSome = true := by
    decide +kernel
  obtain ⟨b, hb⟩ := Option.isSome_iff_exists.mp hend
  have hoff : InterruptsOff archiveEnv noDevices (archiveMachine []) := by
    unfold InterruptsOff
    decide +kernel
  exact ⟨b, toOption_eq_some hb, hoff,
    ((kernelMain_off_iff _ _ _).2 b (toOption_eq_some hb)).mp hoff⟩

/-- With the program in it the boot ends, too, but they were on before the
timer was set up. -/
theorem kernelMain_turns_on :
    ∃ b, (kernelMain archiveEnv noDevices (archiveMachine helloArchive)).out = .ok b ∧
      ¬InterruptsOff archiveEnv noDevices (archiveMachine helloArchive) := by
  -- one evaluation of the run for both facts
  have hrun : ((kernelMain archiveEnv noDevices (archiveMachine helloArchive)).out.toOption.isSome &&
      (kernelMain archiveEnv noDevices (archiveMachine helloArchive)).events.contains true) = true := by
    decide +kernel
  obtain ⟨hend, hon⟩ := Bool.and_eq_true_iff.mp hrun
  obtain ⟨b, hb⟩ := Option.isSome_iff_exists.mp hend
  exact ⟨b, toOption_eq_some hb, fun hoff => hoff (List.contains_iff_mem.mp hon)⟩

end MyOS
