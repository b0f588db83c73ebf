import MyOS.Vfs.Names

/-!
# `tar_init`: from an archive in memory to the node table

`tar_init` steps from header to header, reads the size field with
`get_octal`, registers a node for each of the first 128 entries, and stops
at a header without a name or at the end of the archive. It then sets up the
root node and makes it `fs_root`.

`tarInit_table` says what every table it leaves is like, whatever was in
memory: the names are C strings that fit their buffer, and exactly the nodes
flagged as directories have `readdir` and `finddir`.

Mirroring notes vs the C:
- The header is read through the active page tables, like every access of
  the kernel. The field offsets are those of the packed `struct tar_header`.
- The raw name is read once. `strcpy` and the `strlen` of the directory test
  read the same bytes; `strcpy` overruns the node's 128-byte buffer exactly
  if the stripped name has no NUL in its first 128 bytes, and the run then
  ends in `nameOverflow`.
- The loop has fuel: a size field close to `2 ^ 32` makes `ptr` stand still.
- The messages on the screen are left out, and with them the read of the magic
  that is printed (up to its NUL). The branch on the magic is empty in the
  source.
-/

namespace MyOS

open Lib Lib.Mem Lib.Paging

inductive TarError where
  | panic (p : Panic)
  | nameOverflow
  | outOfFuel
  deriving DecidableEq, Repr

/-- The bytes of the C string at `a`, whose NUL is one of the `n` bytes there. -/
def vstring : Nat → Nat → Machine → Except TarError (List UInt8 × Machine)
  | _, 0, _ => .error .nameOverflow
  | a, n + 1, k =>
    ((vread a k).mapError .panic).bind fun c =>
    if c.1 = 0 then .ok ([], c.2)
    else (vstring ((a + 1) % 2 ^ 32) n c.2).map fun s => (c.1 :: s.1, s.2)

/-- The loop of `get_octal` over the `len` bytes at `a`. A byte that is
neither a digit nor a blank is skipped. -/
def getOctal : Nat → Nat → Nat → Machine → Except Panic (Nat × Machine)
  | _, 0, out, k => .ok (out, k)
  | a, len + 1, out, k =>
    (vread a k).bind fun c =>
    if c.1 = 0 then .ok (out, c.2)
    else if 48 ≤ c.1.toNat ∧ c.1.toNat ≤ 55 then
      getOctal ((a + 1) % 2 ^ 32) len ((out * 8 + (c.1.toNat - 48)) % 2 ^ 32) c.2
    else if c.1 = 32 then .ok (out, c.2)
    else getOctal ((a + 1) % 2 ^ 32) len out c.2

/-- A leading `./` is skipped. -/
def stripDot (raw : List UInt8) : List UInt8 :=
  if raw[0]? = some 46 ∧ raw[1]? = some slash then raw.drop 2 else raw

/-- `header->typeflag == '5'`, or the name ends in `/`. -/
def isDirEntry (raw : List UInt8) (typeflag : UInt8) : Bool :=
  typeflag = 53 ∨ raw.getLast? = some slash

/-- The node registered for the header at `ptr`. -/
def tarNode (raw : List UInt8) (typeflag : UInt8) (fileSize ptr : Nat) : FsNode where
  name := stripDot raw
  flags := if isDirEntry raw typeflag then fsDirectory else fsFile
  length := fileSize
  impl := (ptr + 512) % 2 ^ 32
  read := true
  readdir := isDirEntry raw typeflag
  finddir := isDirEntry raw typeflag

def registerNode (ptr fileSize : Nat) (k : Machine) : Except TarError (FsNode × Machine) :=
  (vstring ptr 130 k).bind fun raw =>
  if 128 ≤ (stripDot raw.1).length then .error .nameOverflow
  else
    ((vread ((ptr + 156) % 2 ^ 32) raw.2).mapError .panic).map fun t =>
      (tarNode raw.1 t.1 fileSize ptr, t.2)

/-- `ptr + 512 + ((file_size + 511) & ~511)` in 32 bits. -/
def nextHeader (ptr fileSize : Nat) : Nat :=
  (ptr + 512 + ((fileSize + 511) % 2 ^ 32 &&& 0xFFFFFE00)) % 2 ^ 32

def maxTarFiles : Nat := 128

def tarLoop (limit : Nat) : Nat → Nat → List FsNode → Machine → Except TarError (List FsNode × Machine)
  | 0, _, _, _ => .error .outOfFuel
  | fuel + 1, ptr, nodes, k =>
    if ptr < limit then
      ((vread ptr k).mapError .panic).bind fun c =>
      if c.1 = 0 then .ok (nodes, c.2)
      else
        ((getOctal ((ptr + 124) % 2 ^ 32) 11 0 c.2).mapError .panic).bind fun sz =>
        if nodes.length < maxTarFiles then
          (registerNode ptr sz.1 sz.2).bind fun n =>
          tarLoop limit fuel (nextHeader ptr sz.1) (nodes ++ [n.1]) n.2
        else tarLoop limit fuel (nextHeader ptr sz.1) nodes sz.2
    else .ok (nodes, k)

/-- `tar_root` after `tar_init`. -/
def tarRootNode : FsNode where
  name := [slash]
  flags := fsDirectory
  length := 0
  impl := 0
  read := false
  readdir := true
  finddir := true

def tarInit (fuel address size : Nat) (k : Machine) : Except TarError (Vfs × Machine) :=
  (tarLoop ((address + size) % 2 ^ 32) fuel address [] k).map fun r =>
    (⟨r.1, tarRootNode, some .root⟩, r.2)

/-! ## The tables it builds -/

/-- A node of the table: the name is a C string in its buffer, and the
directories have the two directory functions. -/
structure TarNodeOk (n : FsNode) : Prop where
  name_lt : n.name.length < 128
  no_nul : 0 ∉ n.name
  flags : n.flags = fsFile ∨ n.flags = fsDirectory
  dir : n.flags = fsDirectory → n.readdir = true ∧ n.finddir = true

/-- A table of at most 128 such nodes, under the root node. -/
structure TarTable (v : Vfs) : Prop where
  count : v.tarNodes.length ≤ 128
  nodes : ∀ n ∈ v.tarNodes, TarNodeOk n
  root : v.tarRoot = tarRootNode
  fsRoot : v.fsRoot = some .root

theorem vstring_no_nul : ∀ {n a : Nat} {k : Machine} {r : List UInt8 × Machine},
    vstring a n k = .ok r → 0 ∉ r.1 := by
  intro n
  induction n with
  | zero =>
    intro _ _ _ h
    exact absurd h (by simp [vstring])
  | succ n ih =>
    intro a k r h
    unfold vstring at h
    obtain ⟨c, -, h⟩ := bind_eq_ok h
    split at h
    next =>
      cases h
      exact List.not_mem_nil
    next hc =>
      obtain ⟨s, hs, rfl⟩ := map_eq_ok h
      have ih := ih hs
      simpa [List.mem_cons] using ⟨Ne.symm hc, ih⟩

theorem stripDot_sublist (raw : List UInt8) : ∀ c ∈ stripDot raw, c ∈ raw := by
  intro c hc
  unfold stripDot at hc
  split at hc
  · exact List.mem_of_mem_drop hc
  · exact hc

theorem registerNode_ok {ptr fileSize : Nat} {k : Machine} {r : FsNode × Machine}
    (h : registerNode ptr fileSize k = .ok r) : TarNodeOk r.1 := by
  unfold registerNode at h
  obtain ⟨raw, hraw, h⟩ := bind_eq_ok h
  split at h
  next => exact absurd h (by simp)
  next hlen =>
    obtain ⟨t, -, rfl⟩ := map_eq_ok h
    refine ⟨Nat.lt_of_not_le hlen, fun h0 => vstring_no_nul hraw (stripDot_sublist _ _ h0), ?_, ?_⟩
    · unfold tarNode
      dsimp only
      split
      · exact Or.inr rfl
      · exact Or.inl rfl
    · intro hdir
      unfold tarNode at hdir ⊢
      dsimp only at hdir ⊢
      split at hdir
      next hd => exact ⟨hd, hd⟩
      next => exact absurd hdir (by decide)

/-- One header adds at most one node, and none beyond the 128th. -/
theorem tarLoop_nodes {limit : Nat} : ∀ {fuel ptr : Nat} {nodes : List FsNode} {k : Machine}
    {r : List FsNode × Machine}, nodes.length ≤ 128 → (∀ n ∈ nodes, TarNodeOk n) →
    tarLoop limit fuel ptr nodes k = .ok r → r.1.length ≤ 128 ∧ ∀ n ∈ r.1, TarNodeOk n := by
  intro fuel
  induction fuel with
  | zero =>
    intro _ _ _ _ _ _ h
    exact absurd h (by simp [tarLoop])
  | succ fuel ih =>
    intro ptr nodes k r hlen hok h
    unfold tarLoop at h
    split at h
    next =>
      obtain ⟨c, -, h⟩ := bind_eq_ok h
      split at h
      next =>
        cases h
        exact ⟨hlen, hok⟩
      next =>
        obtain ⟨sz, -, h⟩ := bind_eq_ok h
        split at h
        next hmax =>
          obtain ⟨n, hn, h⟩ := bind_eq_ok h
          refine ih ?_ (fun m hm => ?_) h
          · rw [List.length_append, List.length_singleton]
            exact hmax
          · rcases List.mem_append.mp hm with hm | hm
            · exact hok m hm
            · rw [List.mem_singleton.mp hm]
              exact registerNode_ok hn
        next => exact ih hlen hok h
    next =>
      cases h
      exact ⟨hlen, hok⟩

/-- **Every table `tar_init` leaves** is well formed, for any memory. -/
theorem tarInit_table {fuel address size : Nat} {k k' : Machine} {v : Vfs}
    (h : tarInit fuel address size k = .ok (v, k')) : TarTable v := by
  unfold tarInit at h
  obtain ⟨r, hr, heq⟩ := map_eq_ok h
  cases heq
  obtain ⟨hlen, hok⟩ := tarLoop_nodes (by simp) (by simp) hr
  exact ⟨hlen, hok, rfl, rfl⟩

end MyOS
