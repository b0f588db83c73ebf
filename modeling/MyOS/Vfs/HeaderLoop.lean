import MyOS.Vfs.Clamp
import MyOS.Vfs.Header

/-!
# The header loop of `tar_init`

The loop as a machine of its own: `TarStep` is one pass through the body that
goes on with another header, and `tarLoop` follows the steps until there is
none (`tarLoop_step`, `tarLoop_stop`). Which headers it comes to is a matter
of the bytes of the archive: the one at `address`, and from a header on the
one its size field leads to, in 32 bits (`HeaderAt`).

The single test of the loop is `ptr < address + size`. It bounds neither the
rest of the header nor the size field, and three things follow:

- A name that fills its field is read on into the next field
  (`tarStep_name_iff`).
- A size field close to `2 ^ 32` makes the step wrap around, so that `ptr`
  stands still or moves back (`tarInit_ends_iff`). A name that overruns its
  node's buffer writes over what lies behind; such a run is not taken for one
  that ends.
- A header at the very end, or a size field larger than what is left of the
  archive, is taken as it is (`tarInit_inside_iff`).
-/

namespace MyOS

open Lib Lib.Mem Lib.Paging

/-- The loop's variables, and the machine. -/
structure TarState where
  ptr : Nat
  nodes : List FsNode
  k : Machine

/-- The body has been run on the header at `s.ptr` and the loop goes on. -/
def TarStep (limit : Nat) (s s' : TarState) : Prop :=
  s.ptr < limit ∧ ∃ c sz, vread s.ptr s.k = .ok c ∧ c.1 ≠ 0 ∧
    getOctal ((s.ptr + 124) % 2 ^ 32) 11 0 c.2 = .ok sz ∧ s'.ptr = nextHeader s.ptr sz.1 ∧
    ((s.nodes.length < maxTarFiles ∧ ∃ n, registerNode s.ptr sz.1 sz.2 = .ok n ∧
        s'.nodes = s.nodes ++ [n.1] ∧ s'.k = n.2) ∨
      (¬s.nodes.length < maxTarFiles ∧ s'.nodes = s.nodes ∧ s'.k = sz.2))

/-- The states at the head of the loop. -/
abbrev TarReach (limit : Nat) (s₀ s : TarState) : Prop := Relation.ReflTransGen (TarStep limit) s₀ s

/-! ## The loop follows the steps -/

theorem tarLoop_step {limit : Nat} {s s' : TarState} (h : TarStep limit s s') (fuel : Nat) :
    tarLoop limit (fuel + 1) s.ptr s.nodes s.k = tarLoop limit fuel s'.ptr s'.nodes s'.k := by
  obtain ⟨hlt, c, sz, hread, hc, hoct, hptr, hnode⟩ := h
  conv => lhs; unfold tarLoop
  rw [if_pos hlt, hread, ok_mapError, ok_bind, if_neg hc, hoct, ok_mapError, ok_bind, hptr]
  rcases hnode with ⟨hmax, n, hreg, hnodes, hk⟩ | ⟨hmax, hnodes, hk⟩
  · rw [if_pos hmax, hreg, ok_bind, hnodes, hk]
  · rw [if_neg hmax, hnodes, hk]

/-- Without a step the loop is over, with any fuel; if it returns, it returns
the nodes it has. -/
theorem tarLoop_stop {limit : Nat} {s : TarState} (h : ¬∃ s', TarStep limit s s') :
    ∃ x, (∀ r, x = .ok r → r.1 = s.nodes) ∧
      ∀ fuel, tarLoop limit (fuel + 1) s.ptr s.nodes s.k = x := by
  by_cases hlt : s.ptr < limit
  swap
  · refine ⟨.ok (s.nodes, s.k), by simp, fun fuel => ?_⟩
    unfold tarLoop
    rw [if_neg hlt]
  cases hread : vread s.ptr s.k with
  | error p =>
    refine ⟨.error (.panic p), by simp, fun fuel => ?_⟩
    unfold tarLoop
    rw [if_pos hlt, hread]
    rfl
  | ok c =>
    by_cases hc : c.1 = 0
    · refine ⟨.ok (s.nodes, c.2), by simp, fun fuel => ?_⟩
      unfold tarLoop
      rw [if_pos hlt, hread, ok_mapError, ok_bind, if_pos hc]
    cases hoct : getOctal ((s.ptr + 124) % 2 ^ 32) 11 0 c.2 with
    | error p =>
      refine ⟨.error (.panic p), by simp, fun fuel => ?_⟩
      unfold tarLoop
      rw [if_pos hlt, hread, ok_mapError, ok_bind, if_neg hc, hoct]
      rfl
    | ok sz =>
      by_cases hmax : s.nodes.length < maxTarFiles
      · cases hreg : registerNode s.ptr sz.1 sz.2 with
        | ok n =>
          exact absurd ⟨⟨nextHeader s.ptr sz.1, s.nodes ++ [n.1], n.2⟩, hlt, c, sz, hread, hc, hoct,
            rfl, Or.inl ⟨hmax, n, hreg, rfl, rfl⟩⟩ h
        | error e =>
          refine ⟨.error e, by simp, fun fuel => ?_⟩
          unfold tarLoop
          rw [if_pos hlt, hread, ok_mapError, ok_bind, if_neg hc, hoct, ok_mapError, ok_bind,
            if_pos hmax, hreg, error_bind]
      · exact absurd ⟨⟨nextHeader s.ptr sz.1, s.nodes, sz.2⟩, hlt, c, sz, hread, hc, hoct, rfl,
          Or.inr ⟨hmax, rfl, rfl⟩⟩ h

/-- A run that ends passes every state reached. -/
theorem tarLoop_reach {limit : Nat} {s₀ s : TarState} (h : TarReach limit s₀ s) {fuel : Nat}
    {r : List FsNode × Machine} (hrun : tarLoop limit fuel s₀.ptr s₀.nodes s₀.k = .ok r) :
    ∃ fuel', tarLoop limit fuel' s.ptr s.nodes s.k = .ok r := by
  induction h with
  | refl => exact ⟨fuel, hrun⟩
  | tail _ hstep ih =>
    obtain ⟨f, hf⟩ := ih
    cases f with
    | zero => exact absurd hf (by simp [tarLoop])
    | succ f =>
      rw [tarLoop_step hstep] at hf
      exact ⟨f, hf⟩

/-- Nodes are only added, behind those that are there. -/
theorem tarReach_nodes {limit : Nat} {s₀ s : TarState} (h : TarReach limit s₀ s) :
    ∀ n ∈ s₀.nodes, n ∈ s.nodes := by
  induction h with
  | refl => exact fun n hn => hn
  | tail _ hstep ih =>
    intro n hn
    obtain ⟨-, c, sz, -, -, -, -, ⟨-, m, -, hnodes, -⟩ | ⟨-, hnodes, -⟩⟩ := hstep
    · rw [hnodes]
      exact List.mem_append_left _ (ih n hn)
    · rw [hnodes]
      exact ih n hn

/-- A run that returns ends in a state it has reached, with that state's
nodes. -/
theorem tarLoop_ended {limit : Nat} : ∀ {fuel : Nat} {s : TarState} {r : List FsNode × Machine},
    tarLoop limit fuel s.ptr s.nodes s.k = .ok r → ∃ s', TarReach limit s s' ∧ s'.nodes = r.1 := by
  intro fuel
  induction fuel with
  | zero =>
    intro _ _ h
    exact absurd h (by simp [tarLoop])
  | succ fuel ih =>
    intro s r h
    by_cases hex : ∃ s', TarStep limit s s'
    · obtain ⟨s', hstep⟩ := hex
      rw [tarLoop_step hstep] at h
      obtain ⟨s'', hreach, hnodes⟩ := ih h
      exact ⟨s'', Relation.ReflTransGen.head hstep hreach, hnodes⟩
    · obtain ⟨x, hr, hx⟩ := tarLoop_stop hex
      rw [hx] at h
      exact ⟨s, Relation.ReflTransGen.refl, (hr r h).symm⟩

/-! ## A step on mapped memory -/

/-- The table with the node of the header at `ptr`, if there is room. -/
def withNode (k : Machine) (ptr : Nat) (nodes : List FsNode) : List FsNode :=
  if nodes.length < maxTarFiles then
    nodes ++ [tarNode (rawName k ptr) (diskByte k (ptr + 156)) (sizeField k ptr) ptr]
  else nodes

/-- A header is passed if it has a name, and one that fits its node if it is
registered. -/
def Passed (k : Machine) (ptr : Nat) (registered : Prop) : Prop :=
  diskByte k ptr ≠ 0 ∧ (registered → NameFits k ptr)

/-- What the loop reads of a header before it registers it. -/
theorem header_reads {k : Machine} {ptr : Nat} (hptr : ptr < 2 ^ 32)
    (h : ∀ i < 512, MappedAt k (ptr + i)) :
    vread ptr k = .ok (diskByte k ptr, k) ∧
    getOctal ((ptr + 124) % 2 ^ 32) 11 0 k = .ok (sizeField k ptr, k) := by
  constructor
  · have hr := vread_disk (h 0 (by omega))
    rwa [Nat.add_zero, Nat.mod_eq_of_lt hptr] at hr
  · refine getOctal_mapped fun i hi => ?_
    rw [Nat.add_assoc]
    exact h (124 + i) (by omega)

/-- What a step does is determined by the bytes of the header. -/
theorem tarStep_mapped {limit : Nat} {s s' : TarState} (hlim : limit < 2 ^ 32) (hlt : s.ptr < limit)
    (h : ∀ i < 512, MappedAt s.k (s.ptr + i)) :
    TarStep limit s s' ↔ Passed s.k s.ptr (s.nodes.length < maxTarFiles) ∧
      s' = ⟨nextHeader s.ptr (sizeField s.k s.ptr), withNode s.k s.ptr s.nodes, s.k⟩ := by
  have hptr : s.ptr < 2 ^ 32 := Nat.lt_trans hlt hlim
  obtain ⟨hread, hoct⟩ := header_reads hptr h
  have hreg := registerNode_mapped (n := sizeField s.k s.ptr) hptr h
  constructor
  · rintro ⟨-, c, sz, hc, hne, hsz, hp, hnode⟩
    obtain rfl : (diskByte s.k s.ptr, s.k) = c := Except.ok.inj (hread.symm.trans hc)
    obtain rfl : (sizeField s.k s.ptr, s.k) = sz := Except.ok.inj (hoct.symm.trans hsz)
    obtain ⟨ptr', nodes', k'⟩ := s'
    dsimp only at hp hnode hne
    rw [hreg] at hnode
    unfold withNode
    rcases hnode with ⟨hmax, n, hn, hnodes, hk⟩ | ⟨hmax, hnodes, hk⟩
    · by_cases hfits : NameFits s.k s.ptr
      · rw [if_pos hfits] at hn
        cases hn
        refine ⟨⟨hne, fun _ => hfits⟩, ?_⟩
        rw [if_pos hmax, hp, hnodes, hk]
      · rw [if_neg hfits] at hn
        exact absurd hn (by simp)
    · refine ⟨⟨hne, fun hm => absurd hm hmax⟩, ?_⟩
      rw [if_neg hmax, hp, hnodes, hk]
  · rintro ⟨⟨hne, hfits⟩, rfl⟩
    refine ⟨hlt, _, _, hread, hne, hoct, rfl, ?_⟩
    unfold withNode
    by_cases hmax : s.nodes.length < maxTarFiles
    · refine Or.inl ⟨hmax, (_, s.k), hreg.trans (if_pos (hfits hmax)), ?_, rfl⟩
      rw [if_pos hmax]
    · refine Or.inr ⟨hmax, ?_, rfl⟩
      rw [if_neg hmax]

/-- A header that is not passed: the run returns at one without a name, and a
name that does not fit spills over. -/
theorem tarLoop_mapped_last {limit : Nat} {s : TarState} (hlim : limit < 2 ^ 32)
    (hlt : s.ptr < limit) (h : ∀ i < 512, MappedAt s.k (s.ptr + i))
    (hnot : ¬Passed s.k s.ptr (s.nodes.length < maxTarFiles)) (fuel : Nat) :
    tarLoop limit (fuel + 1) s.ptr s.nodes s.k =
      if diskByte s.k s.ptr = 0 then .ok (s.nodes, s.k) else .error .nameOverflow := by
  have hptr : s.ptr < 2 ^ 32 := Nat.lt_trans hlt hlim
  obtain ⟨hread, hoct⟩ := header_reads hptr h
  unfold tarLoop
  rw [if_pos hlt, hread, ok_mapError, ok_bind]
  by_cases hzero : diskByte s.k s.ptr = 0
  · rw [if_pos hzero, if_pos hzero]
  · have hover : s.nodes.length < maxTarFiles ∧ ¬NameFits s.k s.ptr := by
      by_contra hfits
      exact hnot ⟨hzero, fun hmax => by_contra fun hno => hfits ⟨hmax, hno⟩⟩
    rw [if_neg hzero, if_neg hzero, hoct, ok_mapError, ok_bind, if_pos hover.1,
      registerNode_mapped hptr h, if_neg hover.2, error_bind]

/-! ## The name of a node -/

/-- The node is named by the header's name field alone: the name is what the
field holds less a leading `./`, with room for its NUL, and the test for a
trailing `/` is about the last byte of what the field holds. -/
structure NamedByField (k : Machine) (ptr : Nat) (n : FsNode) : Prop where
  name : n.name = stripDot (fieldName k ptr)
  fits : n.name.length < 128
  dir : n.flags = fsDirectory ↔
    diskByte k (ptr + 156) = 53 ∨ (fieldName k ptr).getLast? = some slash

/-- A leading `./` is there or not whatever follows. -/
theorem stripDot_length_take {raw : List UInt8} {n : Nat} (hn : 2 ≤ n) (h : n < raw.length) :
    (stripDot (raw.take n)).length < (stripDot raw).length := by
  unfold stripDot
  rw [List.getElem?_take_of_lt (by omega), List.getElem?_take_of_lt (by omega)]
  split
  · rw [List.length_drop, List.length_drop, List.length_take]
    omega
  · rw [List.length_take]
    omega

theorem tarNode_dir_iff (raw : List UInt8) (typeflag : UInt8) (n ptr : Nat) :
    (tarNode raw typeflag n ptr).flags = fsDirectory ↔
      typeflag = 53 ∨ raw.getLast? = some slash := by
  show (if isDirEntry raw typeflag then fsDirectory else fsFile) = fsDirectory ↔ _
  unfold isDirEntry
  by_cases h : typeflag = 53 ∨ raw.getLast? = some slash
  · simp [h]
  · simp [h, fsFile, fsDirectory]

/-- The node of a header is named by the field exactly if the name ends there. -/
theorem namedByField_iff {k : Machine} {ptr : Nat} :
    (NameFits k ptr ∧
      NamedByField k ptr (tarNode (rawName k ptr) (diskByte k (ptr + 156)) (sizeField k ptr) ptr)) ↔
    0 ∈ bytesAt k ptr 101 := by
  have htake := rawName_take_field k ptr
  have hiff := rawName_length_le_iff k ptr
  by_cases h : 0 ∈ bytesAt k ptr 101
  · have hle := hiff.mpr h
    have hraw : rawName k ptr = fieldName k ptr := by
      rw [← htake, List.take_of_length_le hle]
    have hstrip := stripDot_length_le (rawName k ptr)
    have hnul : 0 ∈ bytesAt k ptr 130 := by
      rw [← bytesAt_take k ptr 101 29] at h
      exact List.mem_of_mem_take h
    refine ⟨fun _ => h, fun _ => ⟨⟨hnul, by omega⟩, ?_, ?_, ?_⟩⟩
    · rw [← hraw]
      rfl
    · show (stripDot (rawName k ptr)).length < 128
      omega
    · rw [tarNode_dir_iff, hraw]
  · refine ⟨fun hboth => ?_, fun h' => absurd h' h⟩
    -- the name goes on behind the field, so it is longer
    have hlong : 100 < (rawName k ptr).length := Nat.lt_of_not_le fun hle => h (hiff.mp hle)
    have hlt := stripDot_length_take (by omega) hlong
    have hname : stripDot (rawName k ptr) = stripDot (fieldName k ptr) := hboth.2.name
    rw [htake, hname] at hlt
    exact absurd hlt (Nat.lt_irrefl _)

/-- **Names are read within their field** exactly if there is a NUL in the
field or right behind it. For every header that the loop registers. -/
theorem tarStep_name_iff {limit : Nat} {s : TarState} (hlim : limit < 2 ^ 32) (hlt : s.ptr < limit)
    (hmap : ∀ i < 512, MappedAt s.k (s.ptr + i)) (hname : diskByte s.k s.ptr ≠ 0)
    (hroom : s.nodes.length < maxTarFiles) :
    (∃ s' n, TarStep limit s s' ∧ s'.nodes = s.nodes ++ [n] ∧ NamedByField s.k s.ptr n) ↔
    0 ∈ bytesAt s.k s.ptr 101 := by
  rw [← namedByField_iff]
  constructor
  · rintro ⟨s', n, hstep, hnodes, hn⟩
    obtain ⟨⟨-, hfits⟩, rfl⟩ := (tarStep_mapped hlim hlt hmap).mp hstep
    refine ⟨hfits hroom, ?_⟩
    unfold withNode at hnodes
    rw [if_pos hroom] at hnodes
    rwa [List.singleton_inj.mp (List.append_cancel_left hnodes)]
  · rintro ⟨hfits, hn⟩
    refine ⟨_, _, (tarStep_mapped hlim hlt hmap).mpr ⟨⟨hname, fun _ => hfits⟩, rfl⟩, ?_, hn⟩
    exact if_pos hroom

theorem diskMachine_mapped (bs : List UInt8) {i : Nat} (hi : i < 4096) :
    MappedAt (diskMachine bs) (0x10000 + i) := by
  obtain ⟨p, hp, -⟩ := diskMachine_reads bs hi
  refine ⟨p, ?_⟩
  rw [Nat.mod_eq_of_lt (by omega), hp]

/-- A name of `n` bytes, and the mode `0000644` where its field starts. -/
def nameHeader (n : Nat) : List UInt8 :=
  List.replicate n 97 ++ List.replicate (100 - n) 0 ++ cstr "0000644"

/-- The state in front of that header. -/
def nameState (n : Nat) : TarState := ⟨0x10000, [], diskMachine (nameHeader n)⟩

/-- A name of 100 bytes is stored with the mode behind it: 107 bytes. -/
theorem tarStep_reads_mode : ∃ s' n, TarStep 0x11000 (nameState 100) s' ∧ s'.nodes = [n] ∧
    n.name.length = 107 ∧ n.name ≠ stripDot (fieldName (nameState 100).k (nameState 100).ptr) := by
  have hstep := (@tarStep_mapped 0x11000 (nameState 100) _ (by decide) (by decide)
    fun i hi => diskMachine_mapped _ (by omega)).mpr
      ⟨⟨by decide +kernel, fun _ => by decide +kernel⟩, rfl⟩
  refine ⟨_, _, hstep, rfl, ?_, ?_⟩
  · decide +kernel
  · decide +kernel

/-- A name of 99 bytes ends in its field. -/
theorem tarStep_name_ninety_nine : ∃ s' n, TarStep 0x11000 (nameState 99) s' ∧ s'.nodes = [] ++ [n] ∧
    NamedByField (nameState 99).k (nameState 99).ptr n :=
  (tarStep_name_iff (s := nameState 99) (by decide) (by decide)
    (fun i hi => diskMachine_mapped _ (by omega)) (by decide +kernel) (by decide)).mpr
    (by decide +kernel)

/-! ## The headers of an archive -/

/-- The archive is mapped, and so is what a header that starts in it can
reach. -/
def DiskMapped (k : Machine) (address size : Nat) : Prop :=
  ∀ i < size + 511, MappedAt k (address + i)

/-- The headers that the size fields lead to: header `i` is at `ptr`. -/
inductive HeaderAt (k : Machine) (address limit : Nat) : Nat → Nat → Prop
  | first : address < limit → HeaderAt k address limit 0 address
  | next {i ptr : Nat} : HeaderAt k address limit i ptr → Passed k ptr (i < maxTarFiles) →
      nextHeader ptr (sizeField k ptr) < limit →
      HeaderAt k address limit (i + 1) (nextHeader ptr (sizeField k ptr))

/-- At the head of the loop, with `i` headers behind it. -/
structure OnDisk (k : Machine) (address limit i : Nat) (s : TarState) : Prop where
  machine : s.k = k
  low : s.ptr < limit → address ≤ s.ptr
  count : s.nodes.length = min i maxTarFiles
  header : s.ptr < limit → HeaderAt k address limit i s.ptr

section Disk

variable {k : Machine} {address size i : Nat}

theorem HeaderAt.lt {ptr : Nat} (h : HeaderAt k address (address + size) i ptr) :
    ptr < address + size := by
  cases h with
  | first hlt => exact hlt
  | next _ _ hlt => exact hlt

theorem DiskMapped.header (h : DiskMapped k address size) {ptr : Nat} (hlo : address ≤ ptr)
    (hhi : ptr < address + size) : ∀ j < 512, MappedAt k (ptr + j) := by
  intro j hj
  have hm := h (ptr - address + j) (by omega)
  rwa [← Nat.add_assoc, Nat.add_sub_cancel' hlo] at hm

theorem withNode_length {nodes : List FsNode} {ptr : Nat} (h : nodes.length = min i maxTarFiles) :
    (withNode k ptr nodes).length = min (i + 1) maxTarFiles := by
  unfold withNode
  split
  · rw [List.length_append, List.length_singleton]
    omega
  · omega

/-- Whether a header is registered depends on its number. -/
theorem room_iff {nodes : List FsNode} (h : nodes.length = min i maxTarFiles) :
    nodes.length < maxTarFiles ↔ i < maxTarFiles := by
  rw [h, Nat.min_def]
  split <;> omega

/-- The state before the first header. -/
theorem onDisk_start : OnDisk k address (address + size) 0 ⟨address, [], k⟩ :=
  ⟨rfl, fun _ => Nat.le_refl _, (Nat.zero_min _).symm, HeaderAt.first⟩

/-- What a step has done. -/
theorem OnDisk.passed (hfit : address + size < 2 ^ 32) (hmap : DiskMapped k address size)
    {s s' : TarState} (h : OnDisk k address (address + size) i s)
    (hstep : TarStep (address + size) s s') : Passed k s.ptr (i < maxTarFiles) ∧
      s' = ⟨nextHeader s.ptr (sizeField k s.ptr), withNode k s.ptr s.nodes, k⟩ := by
  have hlt := hstep.1
  obtain ⟨hpass, hs'⟩ := (tarStep_mapped hfit hlt (by
    rw [h.machine]
    exact hmap.header (h.low hlt) hlt)).mp hstep
  rw [h.machine] at hpass hs'
  exact ⟨⟨hpass.1, fun hi => hpass.2 ((room_iff h.count).mpr hi)⟩, hs'⟩

/-- A header that is passed gives a step. -/
theorem OnDisk.steps (hfit : address + size < 2 ^ 32) (hmap : DiskMapped k address size)
    {s : TarState} (h : OnDisk k address (address + size) i s) (hlt : s.ptr < address + size)
    (hpass : Passed k s.ptr (i < maxTarFiles)) :
    TarStep (address + size) s
      ⟨nextHeader s.ptr (sizeField k s.ptr), withNode k s.ptr s.nodes, k⟩ := by
  refine (tarStep_mapped hfit hlt (by
    rw [h.machine]
    exact hmap.header (h.low hlt) hlt)).mpr ⟨?_, by rw [h.machine]⟩
  rw [h.machine]
  exact ⟨hpass.1, fun hmax => hpass.2 ((room_iff h.count).mp hmax)⟩

/-- The state before the next header, unless that is below the archive. -/
theorem OnDisk.next {s : TarState} (h : OnDisk k address (address + size) i s)
    (hlt : s.ptr < address + size) (hpass : Passed k s.ptr (i < maxTarFiles))
    (hlow : nextHeader s.ptr (sizeField k s.ptr) < address + size →
      address ≤ nextHeader s.ptr (sizeField k s.ptr)) :
    OnDisk k address (address + size) (i + 1)
      ⟨nextHeader s.ptr (sizeField k s.ptr), withNode k s.ptr s.nodes, k⟩ :=
  ⟨rfl, hlow, withNode_length h.count, (h.header hlt).next hpass⟩

/-- The loop comes to every header, as long as it does not leave the archive
downwards. -/
theorem HeaderAt.reached (hfit : address + size < 2 ^ 32) (hmap : DiskMapped k address size)
    (hin : ∀ s s', TarReach (address + size) ⟨address, [], k⟩ s → TarStep (address + size) s s' →
      s'.ptr < address + size → address ≤ s'.ptr) {ptr : Nat}
    (h : HeaderAt k address (address + size) i ptr) :
    ∃ s, TarReach (address + size) ⟨address, [], k⟩ s ∧ OnDisk k address (address + size) i s ∧
      s.ptr = ptr := by
  induction h with
  | first => exact ⟨_, Relation.ReflTransGen.refl, onDisk_start, rfl⟩
  | next h hpass hlt ih =>
    obtain ⟨s, hreach, hs, rfl⟩ := ih
    have hstep := hs.steps hfit hmap h.lt hpass
    exact ⟨_, hreach.tail hstep, hs.next h.lt hpass (hin _ _ hreach hstep), rfl⟩

/-- And to no others, as long as the size fields do not lead below the
archive. -/
theorem tarReach_onDisk (hfit : address + size < 2 ^ 32) (hmap : DiskMapped k address size)
    (hback : ∀ i ptr, HeaderAt k address (address + size) i ptr → Passed k ptr (i < maxTarFiles) →
      nextHeader ptr (sizeField k ptr) < address + size → address ≤ nextHeader ptr (sizeField k ptr))
    {s : TarState} (h : TarReach (address + size) ⟨address, [], k⟩ s) :
    ∃ i, OnDisk k address (address + size) i s := by
  induction h with
  | refl => exact ⟨0, onDisk_start⟩
  | tail _ hstep ih =>
    obtain ⟨i, hs⟩ := ih
    obtain ⟨hpass, rfl⟩ := hs.passed hfit hmap hstep
    exact ⟨i + 1, hs.next hstep.1 hpass (hback i _ (hs.header hstep.1) hpass)⟩

/-! ## The loop ends -/

/-- A size rounded up to whole blocks, in 32 bits. -/
def roundUp32 (n : Nat) : Nat := (n + 511) % 2 ^ 32 / 512 * 512

theorem nextHeader_eq (ptr n : Nat) : nextHeader ptr n = (ptr + 512 + roundUp32 n) % 2 ^ 32 := by
  have hmask : (0xFFFFFE00 : Nat) = (2 ^ (32 - 9) - 1) <<< 9 := by decide
  unfold nextHeader roundUp32
  rw [hmask, and_high_mask (by omega) (Nat.mod_lt _ (Nat.two_pow_pos 32)),
    show (2 : Nat) ^ 9 = 512 from rfl]

/-- The pointer grows exactly if the sum does not wrap around. -/
theorem lt_nextHeader_iff {ptr n : Nat} (h : ptr < 2 ^ 32) :
    ptr < nextHeader ptr n ↔ ptr + 512 + roundUp32 n < 2 ^ 32 := by
  have hround : roundUp32 n ≤ 2 ^ 32 - 512 := by
    unfold roundUp32
    omega
  rw [nextHeader_eq]
  omega

/-- Every header with a name ends its entry below 4 GiB, and its name fits the
node if it gets one. -/
def HeadersFit (k : Machine) (address size : Nat) : Prop :=
  ∀ i ptr, HeaderAt k address (address + size) i ptr → diskByte k ptr ≠ 0 →
    (i < maxTarFiles → NameFits k ptr) ∧ ptr + 512 + roundUp32 (sizeField k ptr) < 2 ^ 32

theorem HeadersFit.grows (hc : HeadersFit k address size) (hfit : address + size < 2 ^ 32) {ptr : Nat}
    (h : HeaderAt k address (address + size) i ptr) (hname : diskByte k ptr ≠ 0) :
    ptr < nextHeader ptr (sizeField k ptr) :=
  (lt_nextHeader_iff (Nat.lt_trans h.lt hfit)).mpr (hc i ptr h hname).2

theorem HeadersFit.low (hc : HeadersFit k address size) (hfit : address + size < 2 ^ 32) {ptr : Nat}
    (h : HeaderAt k address (address + size) i ptr) : address ≤ ptr := by
  induction h with
  | first => exact Nat.le_refl _
  | next h hpass _ ih =>
    have hlt := hc.grows hfit h hpass.1
    omega

/-- With a pointer that grows, the loop ends: by induction on what is left of
the archive. -/
theorem HeadersFit.ends (hfit : address + size < 2 ^ 32) (hmap : DiskMapped k address size)
    (hc : HeadersFit k address size) : ∀ (n : Nat) {i : Nat} {s : TarState},
    OnDisk k address (address + size) i s → address + size - s.ptr ≤ n →
      ∃ fuel r, tarLoop (address + size) fuel s.ptr s.nodes s.k = .ok r := by
  intro n
  induction n with
  | zero =>
    intro i s hs hn
    refine ⟨1, (s.nodes, s.k), ?_⟩
    unfold tarLoop
    rw [if_neg (by omega)]
  | succ n ih =>
    intro i s hs hn
    by_cases hlt : s.ptr < address + size
    swap
    · refine ⟨1, (s.nodes, s.k), ?_⟩
      unfold tarLoop
      rw [if_neg hlt]
    have hhead := hs.header hlt
    by_cases hname : diskByte k s.ptr = 0
    · refine ⟨1, (s.nodes, s.k), ?_⟩
      have hlast := tarLoop_mapped_last (s := s) hfit hlt (by
        rw [hs.machine]
        exact hmap.header (hs.low hlt) hlt) (by
        rw [hs.machine]
        exact fun hpass => hpass.1 hname) 0
      rwa [hs.machine, if_pos hname, ← hs.machine] at hlast
    · have hpass : Passed k s.ptr (i < maxTarFiles) := ⟨hname, (hc i _ hhead hname).1⟩
      have hgrow := hc.grows hfit hhead hname
      have hlow := hs.low hlt
      obtain ⟨fuel, r, hrun⟩ := ih (hs.next hlt hpass fun _ => by omega) (by
        dsimp only
        omega)
      exact ⟨fuel + 1, r, (tarLoop_step (hs.steps hfit hmap hlt hpass) fuel).trans hrun⟩

/-- **`tar_init` ends, with a pointer that grows from header to header,**
exactly if on its way every size field ends its entry below 4 GiB and every
name fits its node. For every archive, whatever its bytes. -/
theorem tarInit_ends_iff (hfit : address + size < 2 ^ 32) (hmap : DiskMapped k address size) :
    ((∀ s s', TarReach (address + size) ⟨address, [], k⟩ s → TarStep (address + size) s s' →
        s.ptr < s'.ptr) ∧
      ∃ fuel r, tarInit fuel address size k = .ok r) ↔
    HeadersFit k address size := by
  constructor
  · rintro ⟨hgrow, fuel, r, hrun⟩
    unfold tarInit at hrun
    rw [Nat.mod_eq_of_lt hfit] at hrun
    obtain ⟨q, hloop, -⟩ := map_eq_ok hrun
    have hlow : ∀ s, TarReach (address + size) ⟨address, [], k⟩ s → address ≤ s.ptr := by
      intro s hs
      induction hs with
      | refl => exact Nat.le_refl _
      | tail hreach hstep ih => exact Nat.le_trans ih (Nat.le_of_lt (hgrow _ _ hreach hstep))
    intro i ptr h hname
    obtain ⟨s, hreach, hs, rfl⟩ := h.reached hfit hmap fun s s' hreach hstep _ =>
      hlow s' (hreach.tail hstep)
    have hpass : Passed k s.ptr (i < maxTarFiles) := by
      by_contra hnot
      -- the run would have ended here with the name spilling over
      obtain ⟨fuel', hrest⟩ := tarLoop_reach hreach hloop
      cases fuel' with
      | zero => exact absurd hrest (by simp [tarLoop])
      | succ fuel' =>
        have hlast := tarLoop_mapped_last (s := s) hfit h.lt (by
          rw [hs.machine]
          exact hmap.header (hs.low h.lt) h.lt) (by
          rw [hs.machine]
          exact fun hpass => hnot ⟨hpass.1, fun hi => hpass.2 ((room_iff hs.count).mpr hi)⟩) fuel'
        rw [hs.machine] at hlast hrest
        rw [hlast, if_neg hname] at hrest
        exact absurd hrest (by simp)
    have hstep := hs.steps hfit hmap h.lt hpass
    exact ⟨hpass.2, (lt_nextHeader_iff (Nat.lt_trans h.lt hfit)).mp (hgrow _ _ hreach hstep)⟩
  · intro hc
    refine ⟨fun s s' hreach hstep => ?_, ?_⟩
    · obtain ⟨i, hs⟩ := tarReach_onDisk hfit hmap
        (fun i ptr h hpass hlt => hc.low hfit (h.next hpass hlt)) hreach
      obtain ⟨hpass, rfl⟩ := hs.passed hfit hmap hstep
      exact hc.grows hfit (hs.header hstep.1) hpass.1
    · obtain ⟨fuel, r, hrun⟩ := hc.ends hfit hmap _ onDisk_start (Nat.le_refl _)
      dsimp only at hrun
      refine ⟨fuel, (⟨r.1, tarRootNode, some .root⟩, r.2), ?_⟩
      unfold tarInit
      rw [Nat.mod_eq_of_lt hfit, hrun, ok_map]

end Disk

/-- A header with the name `a` and these digits in its size field. -/
def sizedHeader (digits : String) : List UInt8 := 97 :: List.replicate 123 0 ++ cstr digits

/-- A header that leads to itself: no fuel is enough. -/
theorem tarLoop_stuck {k : Machine} {limit ptr : Nat} (hlim : limit < 2 ^ 32) (hlt : ptr < limit)
    (hmap : ∀ i < 512, MappedAt k (ptr + i)) (hname : diskByte k ptr ≠ 0) (hfits : NameFits k ptr)
    (hnext : nextHeader ptr (sizeField k ptr) = ptr) (fuel : Nat) :
    ∀ nodes, tarLoop limit fuel ptr nodes k = .error .outOfFuel := by
  induction fuel with
  | zero => exact fun _ => rfl
  | succ fuel ih =>
    intro nodes
    have hstep : TarStep limit ⟨ptr, nodes, k⟩ ⟨ptr, withNode k ptr nodes, k⟩ := by
      refine (tarStep_mapped (s := ⟨ptr, nodes, k⟩) hlim hlt hmap).mpr
        ⟨⟨hname, fun _ => hfits⟩, ?_⟩
      dsimp only
      rw [hnext]
    exact (tarLoop_step hstep fuel).trans (ih _)

/-- A size of `2 ^ 32 - 512` makes a step of `2 ^ 32`: the loop never ends. -/
theorem tarInit_hangs : ¬∃ fuel,
    tarInit fuel 0x10000 1024 (diskMachine (sizedHeader "37777777000")) ≠ .error .outOfFuel := by
  rintro ⟨fuel, hne⟩
  have hstuck := tarLoop_stuck (k := diskMachine (sizedHeader "37777777000")) (by decide)
    (by decide : 0x10000 < 0x10400) (fun i hi => diskMachine_mapped _ (by omega)) (by decide +kernel)
    (by decide +kernel) (by decide +kernel) fuel []
  refine hne ?_
  unfold tarInit
  rw [show (0x10000 + 1024) % 2 ^ 32 = 0x10400 by decide, hstuck, error_map]

/-- An archive of one empty file and a zero block has two headers. -/
theorem oneFile_headers {i ptr : Nat}
    (h : HeaderAt (diskMachine (sizedHeader "0")) 0x10000 (0x10000 + 1024) i ptr) :
    (i = 0 ∧ ptr = 0x10000) ∨
      (i = 1 ∧ ptr = 0x10200 ∧ diskByte (diskMachine (sizedHeader "0")) ptr = 0) := by
  induction h with
  | first => exact Or.inl ⟨rfl, rfl⟩
  | next _ hpass _ ih =>
    rcases ih with ⟨rfl, rfl⟩ | ⟨-, -, hzero⟩
    · have hnext : nextHeader 0x10000 (sizeField (diskMachine (sizedHeader "0")) 0x10000)
          = 0x10200 := by decide +kernel
      rw [hnext]
      exact Or.inr ⟨rfl, rfl, by decide +kernel⟩
    · exact absurd hzero hpass.1

theorem oneFile_mapped : DiskMapped (diskMachine (sizedHeader "0")) 0x10000 1024 :=
  fun _ hi => diskMachine_mapped _ (by omega)

/-- The loop over that archive ends. -/
theorem tarInit_ends_one : ∃ fuel r,
    tarInit fuel 0x10000 1024 (diskMachine (sizedHeader "0")) = .ok r := by
  refine ((tarInit_ends_iff (by decide) oneFile_mapped).mpr fun i ptr h hname => ?_).2
  rcases oneFile_headers h with ⟨-, rfl⟩ | ⟨-, -, hzero⟩
  · exact ⟨fun _ => by decide +kernel, by decide +kernel⟩
  · exact absurd hzero hname

/-! ## Everything stays inside the archive -/

/-- The `n` bytes at `a` are in the archive. -/
def InDisk (address size a n : Nat) : Prop := address ≤ a ∧ a + n ≤ address + size

instance (address size a n : Nat) : Decidable (InDisk address size a n) :=
  inferInstanceAs (Decidable (_ ∧ _))

/-- The headers looked at, the nodes' contents, and the bytes of a read that
`tar_read` clamps are in the archive. -/
structure StaysInside (k : Machine) (address size : Nat) (v : Vfs) : Prop where
  headers : ∀ s, TarReach (address + size) ⟨address, [], k⟩ s → s.ptr < address + size →
    InDisk address size s.ptr 512
  nodes : ∀ n ∈ v.tarNodes, InDisk address size n.impl n.length
  reads : ∀ n ∈ v.tarNodes, ∀ offset len, n.length ≤ offset ∨ offset + len < 2 ^ 32 →
    ∀ j < tarReadSize n offset len, InDisk address size ((n.impl + (offset + j)) % 2 ^ 32) 1

/-- The archive is whole: every header that the size fields lead to, and the
contents of the entries that are registered. -/
def ArchiveFits (k : Machine) (address size : Nat) : Prop :=
  ∀ i ptr, HeaderAt k address (address + size) i ptr → InDisk address size ptr 512 ∧
    (Passed k ptr (i < maxTarFiles) → i < maxTarFiles →
      InDisk address size (ptr + 512) (sizeField k ptr))

section Inside

variable {k : Machine} {address size i : Nat}

/-- A clamped read of a node in the archive reads the archive. -/
theorem read_inDisk (hfit : address + size < 2 ^ 32) {n : FsNode}
    (hn : InDisk address size n.impl n.length) {offset len j : Nat}
    (hc : n.length ≤ offset ∨ offset + len < 2 ^ 32) (hj : j < tarReadSize n offset len) :
    InDisk address size ((n.impl + (offset + j)) % 2 ^ 32) 1 := by
  obtain ⟨hlo, hhi⟩ := hn
  have hin : offset + tarReadSize n offset len ≤ n.length := by
    rcases hc with hc | hc
    · unfold tarReadSize at hj
      rw [if_pos hc] at hj
      exact absurd hj (Nat.not_lt_zero j)
    · exact tarReadSize_inside hc (by omega)
  rw [Nat.mod_eq_of_lt (by omega)]
  exact ⟨by omega, by omega⟩

theorem tarNode_inDisk (hfit : address + size < 2 ^ 32) {ptr : Nat}
    (hptr : InDisk address size ptr 512) (raw : List UInt8) (t : UInt8) (n : Nat) :
    InDisk address size (tarNode raw t n ptr).impl (tarNode raw t n ptr).length ↔
      InDisk address size (ptr + 512) n := by
  have himpl : (tarNode raw t n ptr).impl = ptr + 512 :=
    Nat.mod_eq_of_lt (Nat.lt_of_le_of_lt hptr.2 hfit)
  rw [himpl]
  rfl

/-- The node of a header that is passed and registered. -/
theorem mem_withNode {nodes : List FsNode} {ptr : Nat} (hroom : nodes.length < maxTarFiles) :
    tarNode (rawName k ptr) (diskByte k (ptr + 156)) (sizeField k ptr) ptr ∈ withNode k ptr nodes := by
  unfold withNode
  rw [if_pos hroom]
  exact List.mem_append_right _ (List.mem_singleton.mpr rfl)

/-- The nodes of an archive that is whole lie in it. -/
theorem ArchiveFits.nodes (hfit : address + size < 2 ^ 32) (hmap : DiskMapped k address size)
    (hc : ArchiveFits k address size) {s : TarState}
    (h : TarReach (address + size) ⟨address, [], k⟩ s) :
    ∀ n ∈ s.nodes, InDisk address size n.impl n.length := by
  induction h with
  | refl => exact fun n hn => absurd hn List.not_mem_nil
  | tail hreach hstep ih =>
    obtain ⟨i, hs⟩ := tarReach_onDisk hfit hmap
      (fun i ptr h hpass hlt => (hc _ _ (h.next hpass hlt)).1.1) hreach
    obtain ⟨hpass, rfl⟩ := hs.passed hfit hmap hstep
    intro n hn
    unfold withNode at hn
    split at hn
    next hroom =>
      rcases List.mem_append.mp hn with hn | hn
      · exact ih n hn
      · obtain ⟨hhead, hbody⟩ := hc i _ (hs.header hstep.1)
        rw [List.mem_singleton.mp hn, tarNode_inDisk hfit hhead]
        exact hbody hpass ((room_iff hs.count).mp hroom)
    next => exact ih n hn

/-- **TAR nodes stay inside the archive**, for every archive on which
`tar_init` finishes, exactly if the archive is whole. -/
theorem tarInit_inside_iff (hfit : address + size < 2 ^ 32) (hmap : DiskMapped k address size)
    {fuel : Nat} {v : Vfs} {k' : Machine} (hrun : tarInit fuel address size k = .ok (v, k')) :
    StaysInside k address size v ↔ ArchiveFits k address size := by
  unfold tarInit at hrun
  rw [Nat.mod_eq_of_lt hfit] at hrun
  obtain ⟨r, hloop, heq⟩ := map_eq_ok hrun
  cases heq
  constructor
  · intro hin i ptr h
    obtain ⟨s, hreach, hs, rfl⟩ := h.reached hfit hmap fun s s' hreach hstep hlt =>
      (hin.headers s' (hreach.tail hstep) hlt).1
    have hhead := hin.headers s hreach h.lt
    refine ⟨hhead, fun hpass hi => ?_⟩
    -- the header has been registered, and nodes are never removed
    have hstep := hs.steps hfit hmap h.lt hpass
    obtain ⟨fuel', hrest⟩ := tarLoop_reach (hreach.tail hstep) hloop
    obtain ⟨s', hreach', hnodes⟩ := tarLoop_ended hrest
    have hmem := tarReach_nodes hreach' _ (mem_withNode ((room_iff hs.count).mpr hi))
    rw [hnodes] at hmem
    exact (tarNode_inDisk hfit hhead _ _ _).mp (hin.nodes _ hmem)
  · intro hc
    obtain ⟨s', hreach', hnodes⟩ := tarLoop_ended (s := ⟨address, [], k⟩) hloop
    have hin : ∀ n ∈ r.1, InDisk address size n.impl n.length := by
      intro n hn
      rw [← hnodes] at hn
      exact hc.nodes hfit hmap hreach' n hn
    refine ⟨fun s hreach hlt => ?_, hin, fun n hn offset len hw j hj =>
      read_inDisk hfit (hin n hn) hw hj⟩
    obtain ⟨i, hs⟩ := tarReach_onDisk hfit hmap
      (fun i ptr h hpass hlt => (hc _ _ (h.next hpass hlt)).1.1) hreach
    exact (hc i _ (hs.header hlt)).1

end Inside

/-- An archive cut off behind a header of a file of 4096 bytes: the node's
contents are all outside. -/
theorem tarInit_leaves_disk : ∃ v k' n,
    tarInit 2 0x10000 512 (diskMachine (sizedHeader "00000010000")) = .ok (v, k') ∧
    n ∈ v.tarNodes ∧ ¬InDisk 0x10000 512 n.impl n.length := by
  have heval : ((tarInit 2 0x10000 512 (diskMachine (sizedHeader "00000010000"))).toOption.any
      fun r => r.1.tarNodes.any fun n => ¬InDisk 0x10000 512 n.impl n.length) = true := by
    decide +kernel
  obtain ⟨r, hr, hany⟩ := (Option.any_eq_true _ _).mp heval
  obtain ⟨n, hn, hout⟩ := List.any_eq_true.mp hany
  exact ⟨r.1, r.2, n, toOption_eq_some hr, hn, of_decide_eq_true hout⟩

/-- The archive of one empty file is whole. -/
theorem tarInit_inside_one : ∃ v k',
    tarInit 3 0x10000 1024 (diskMachine (sizedHeader "0")) = .ok (v, k') ∧
    StaysInside (diskMachine (sizedHeader "0")) 0x10000 1024 v := by
  have heval : (tarInit 3 0x10000 1024 (diskMachine (sizedHeader "0"))).toOption.isSome = true := by
    decide +kernel
  obtain ⟨r, hr⟩ := Option.isSome_iff_exists.mp heval
  have hrun := toOption_eq_some hr
  refine ⟨r.1, r.2, hrun, (tarInit_inside_iff (by decide) oneFile_mapped hrun).mpr
    fun i ptr h => ?_⟩
  rcases oneFile_headers h with ⟨-, rfl⟩ | ⟨-, rfl, hzero⟩
  · exact ⟨by decide, fun _ _ => by decide +kernel⟩
  · exact ⟨by decide, fun hpass => absurd hzero hpass.1⟩

end MyOS
