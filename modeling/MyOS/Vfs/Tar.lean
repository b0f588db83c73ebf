import MyOS.Vmm.Mmu

/-!
# The file system: path lookup, listings and reads over the TAR nodes

`find_node_by_path` walks a path component by component with `finddir_fs`;
on the RAM disk every directory's `finddir` is `tar_finddir`, a linear scan
of the node table for a direct child with the name, and its `readdir` is
`tar_readdir`, a scan of its own for the child of a given number. `read_fs`
on a TAR node is `tar_read`, a `memcpy` out of the archive clamped to the
file's length.

Mirroring notes vs the C:
- A C string is the list of its bytes before the NUL. A node's name is
  followed by NULs up to the end of its buffer, so the pointer behind a
  prefix longer than the name is an empty string, as `List.drop` has it.
- A node's function pointers are `tar_read`, `tar_readdir`, `tar_finddir` or
  `NULL`, so a `Bool` says whether the pointer is set. The node fields that
  no function here reads (mask, uid, gid, inode, write, open, close, ptr) are
  left out.
- `tar_readdir` fills one static buffer and returns a pointer to it; here the
  entry is returned.
- The two nested loops of `find_node_by_path` are one recursion over the
  path: the token grows until a `/` or the end of the path, and is looked up
  there. It keeps the first 127 bytes of a component, as the C buffer does.
-/

namespace MyOS

open Lib Lib.Mem Lib.Paging

/-- The bytes of a C string literal. -/
def cstr (s : String) : List UInt8 := s.toUTF8.toList

def strcmp : List UInt8 → List UInt8 → Int
  | [], [] => 0
  | [], b :: _ => 0 - (b.toNat : Int)
  | a :: _, [] => a.toNat
  | a :: as, b :: bs => if a = b then strcmp as bs else (a.toNat : Int) - b.toNat

def strncmp : List UInt8 → List UInt8 → Nat → Int
  | _, _, 0 => 0
  | [], [], _ + 1 => 0
  | [], b :: _, _ + 1 => 0 - (b.toNat : Int)
  | a :: _, [], _ + 1 => a.toNat
  | a :: as, b :: bs, n + 1 => if a = b then strncmp as bs n else (a.toNat : Int) - b.toNat

/-- `fs_node_t`, the fields the functions here read. -/
structure FsNode where
  name : List UInt8
  flags : Nat
  length : Nat
  impl : Nat
  read : Bool
  readdir : Bool
  finddir : Bool
  deriving DecidableEq

def fsFile : Nat := 0x01

def fsDirectory : Nat := 0x02

/-- A node pointer other than `NULL`: `&tar_root` or `&tar_nodes[i]`. -/
inductive NodeRef where
  | root
  | tar (i : Nat)
  deriving DecidableEq, Repr

/-- `tar_nodes[0 .. tar_file_count)`, `tar_root` and `fs_root`. -/
structure Vfs where
  tarNodes : List FsNode
  tarRoot : FsNode
  fsRoot : Option NodeRef

def Vfs.node (v : Vfs) : NodeRef → FsNode
  | .root => v.tarRoot
  | .tar i => v.tarNodes.getD i v.tarRoot

/-- `'/'` -/
def slash : UInt8 := 47

/-- The rest of a child's name holds no `/`, or one at its very end. -/
def noInnerSlash : List UInt8 → Bool
  | [] => true
  | c :: cs => if c = slash then cs.isEmpty else noInnerSlash cs

def isDirectChild (dir child : List UInt8) : Bool :=
  if strcmp dir [slash] = 0 ∨ dir.length = 0 then noInnerSlash child
  else if strncmp dir child dir.length ≠ 0 then false
  else noInnerSlash (child.drop dir.length)

def matchName (relName searchName : List UInt8) : Bool :=
  let len1 :=
    if relName.length > 0 ∧ relName.getLast? = some slash then relName.length - 1
    else relName.length
  if len1 ≠ searchName.length then false else strncmp relName searchName len1 = 0

/-- The scan of `tar_finddir` over the nodes from index `i` on. -/
def tarScan (dirPrefix name : List UInt8) : List FsNode → Nat → Option NodeRef
  | [], _ => none
  | n :: ns, i =>
    if strcmp n.name dirPrefix = 0 then tarScan dirPrefix name ns (i + 1)
    else if isDirectChild dirPrefix n.name ∧ matchName (n.name.drop dirPrefix.length) name then
      some (.tar i)
    else tarScan dirPrefix name ns (i + 1)

def tarFinddir (v : Vfs) (ref : NodeRef) (name : List UInt8) : Option NodeRef :=
  tarScan (if ref = .root then [] else (v.node ref).name) name v.tarNodes 0

/-- `finddir_fs` on a node that is not `NULL`. -/
def finddirFs (v : Vfs) (ref : NodeRef) (name : List UInt8) : Option NodeRef :=
  if (v.node ref).flags &&& 0x07 = fsDirectory ∧ (v.node ref).finddir then tarFinddir v ref name
  else none

/-- `struct dirent` -/
structure Dirent where
  name : List UInt8
  ino : Nat
  deriving DecidableEq

/-- The name `tar_readdir` copies into the entry, cut to the buffer. -/
def direntName (rel : List UInt8) : List UInt8 :=
  let len := if rel.length > 0 ∧ rel.getLast? = some slash then rel.length - 1 else rel.length
  rel.take (if len ≥ 128 then 127 else len)

/-- The scan of `tar_readdir` over the nodes from index `i` on, with the
children counted so far. -/
def readdirScan (dirPrefix : List UInt8) (index : Nat) : List FsNode → Nat → Nat → Option Dirent
  | [], _, _ => none
  | n :: ns, i, count =>
    if strcmp n.name dirPrefix = 0 then readdirScan dirPrefix index ns (i + 1) count
    else if isDirectChild dirPrefix n.name then
      if count = index then some ⟨direntName (n.name.drop dirPrefix.length), i⟩
      else readdirScan dirPrefix index ns (i + 1) (count + 1)
    else readdirScan dirPrefix index ns (i + 1) count

def tarReaddir (v : Vfs) (ref : NodeRef) (index : Nat) : Option Dirent :=
  readdirScan (if ref = .root then [] else (v.node ref).name) index v.tarNodes 0 0

/-- `readdir_fs` on a node that is not `NULL`. -/
def readdirFs (v : Vfs) (ref : NodeRef) (index : Nat) : Option Dirent :=
  if (v.node ref).flags &&& 0x07 = fsDirectory ∧ (v.node ref).readdir then tarReaddir v ref index
  else none

/-- The end of a component: an empty one is skipped. -/
def stepInto (v : Vfs) (curr : Option NodeRef) (token : List UInt8) : Option NodeRef :=
  if token = [] then curr else curr.bind fun ref => finddirFs v ref token

/-- The walk over the rest of the path, with the component read so far. The C
code gives up at the first component that is not found. -/
def walkPath (v : Vfs) (curr : Option NodeRef) (token : List UInt8) : List UInt8 → Option NodeRef
  | [] => stepInto v curr token
  | c :: cs =>
    if c = slash then
      if token ≠ [] ∧ stepInto v curr token = none then none
      else walkPath v (stepInto v curr token) [] cs
    else walkPath v curr (if token.length < 127 then token ++ [c] else token) cs

def findNodeByPath (v : Vfs) (path : List UInt8) : Option NodeRef :=
  if path.head? ≠ some slash then none
  else if path.length = 1 then v.fsRoot
  else walkPath v v.fsRoot [] path.tail

/-! ## Reads -/

/-- The number of bytes `tar_read` copies and returns. The sum is computed in
32 bits. -/
def tarReadSize (node : FsNode) (offset size : Nat) : Nat :=
  if node.length ≤ offset then 0
  else if node.length < (offset + size) % 2 ^ 32 then node.length - offset
  else size

/-- `read_fs` into memory at the virtual address `buffer`. -/
def readFs (node : FsNode) (offset size buffer : Nat) (k : Machine) :
    Except Panic (Nat × Machine) :=
  if node.read then
    (vmemcpy buffer ((node.impl + offset) % 2 ^ 32) (tarReadSize node offset size) k).map
      fun k' => (tarReadSize node offset size, k')
  else .ok (0, k)

/-- `read_fs` into a local variable of the kernel: the count, the variable's
bytes and the machine. -/
def readFsLocal (node : FsNode) (offset size : Nat) (k : Machine) :
    Except Panic (Nat × Mem × Machine) :=
  if node.read then
    (vcopyOut ((node.impl + offset) % 2 ^ 32) (tarReadSize node offset size) k).map
      fun r => (tarReadSize node offset size, r.1, r.2)
  else .ok (0, fun _ => 0, k)

theorem tarReadSize_le (node : FsNode) (offset size : Nat) : tarReadSize node offset size ≤ size := by
  unfold tarReadSize
  split
  · omega
  · split
    · have := Nat.mod_le (offset + size) (2 ^ 32)
      omega
    · exact Nat.le_refl _

/-- Without a 32-bit wrap the bytes read are bytes of the file. -/
theorem tarReadSize_inside {node : FsNode} {offset size : Nat} (h : offset + size < 2 ^ 32)
    (hpos : 0 < tarReadSize node offset size) :
    offset + tarReadSize node offset size ≤ node.length := by
  unfold tarReadSize at hpos ⊢
  rw [Nat.mod_eq_of_lt h] at hpos ⊢
  split
  · next hle => rw [if_pos hle] at hpos; omega
  · split <;> omega

/-- A read inside the file is not cut short. -/
theorem tarReadSize_eq {node : FsNode} {offset size : Nat} (h : offset + size ≤ node.length)
    (hlen : node.length < 2 ^ 32) : tarReadSize node offset size = size := by
  unfold tarReadSize
  rw [Nat.mod_eq_of_lt (by omega)]
  split
  · omega
  · rw [if_neg (by omega)]

end MyOS
