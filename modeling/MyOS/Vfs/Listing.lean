import MyOS.Vfs.TarInit

/-!
# Listing a directory and looking names up in it

`tar_readdir` and `tar_finddir` are two loops that each recompute the child
relation, strip the directory's prefix and drop a trailing `/`, one by
copying and cutting, the other by comparing lengths. Both are searches in
one list, `childrenOf`, so they agree: the entries of a listing are the
children in the order of the table, a lookup finds the first of them with
the name, and what a lookup finds is listed (`readdirFs_finddirFs`).
-/

namespace MyOS

/-- The prefix that the names of the children start with. -/
def Vfs.dirPrefix (v : Vfs) (d : NodeRef) : List UInt8 := if d = .root then [] else (v.node d).name

/-- The root, or a node flagged as a directory. -/
def Vfs.IsDir (v : Vfs) : NodeRef → Prop
  | .root => True
  | .tar i => ∃ n, v.tarNodes[i]? = some n ∧ n.flags = fsDirectory

/-- Node `i` is a child of `d` with the name `s`. -/
def Child (v : Vfs) (d : NodeRef) (i : Nat) (s : List UInt8) : Prop :=
  ∃ n, v.tarNodes[i]? = some n ∧ n.name ≠ v.dirPrefix d ∧
    isDirectChild (v.dirPrefix d) n.name = true ∧
    trimSlash (n.name.drop (v.dirPrefix d).length) = s

section

variable {v : Vfs} {d : NodeRef} (ht : TarTable v)

include ht

theorem TarTable.names (n : FsNode) (hn : n ∈ v.tarNodes) : 0 ∉ n.name := (ht.nodes n hn).no_nul

theorem node_of_getElem? {i : Nat} {n : FsNode} (h : v.tarNodes[i]? = some n) :
    v.node (.tar i) = n ∧ TarNodeOk n := by
  refine ⟨?_, ht.nodes n (List.mem_of_getElem? h)⟩
  show v.tarNodes.getD i v.tarRoot = n
  rw [List.getD_eq_getElem?_getD, h, Option.getD_some]

/-- A directory passes the tests of `readdir_fs` and `finddir_fs`, and its
prefix is a C string. -/
theorem isDir_spec (hd : v.IsDir d) :
    (v.node d).flags &&& 0x07 = fsDirectory ∧ (v.node d).readdir = true ∧
      (v.node d).finddir = true ∧ 0 ∉ v.dirPrefix d := by
  cases d with
  | root =>
    have hroot : v.node .root = tarRootNode := ht.root
    rw [hroot]
    exact ⟨by decide, rfl, rfl, List.not_mem_nil⟩
  | tar i =>
    obtain ⟨n, hn, hflags⟩ := hd
    obtain ⟨hnode, hok⟩ := node_of_getElem? ht hn
    obtain ⟨hr, hf⟩ := hok.dir hflags
    have hpre : v.dirPrefix (.tar i) = n.name := by
      unfold Vfs.dirPrefix
      rw [if_neg (by simp), hnode]
    rw [hnode, hpre, hflags]
    exact ⟨by decide, hr, hf, hok.no_nul⟩

theorem readdirFs_eq (hd : v.IsDir d) (index : Nat) :
    readdirFs v d index = (childrenOf (v.dirPrefix d) v.tarNodes 0)[index]?.map fun p =>
      ⟨direntName (p.1.name.drop (v.dirPrefix d).length), p.2⟩ := by
  obtain ⟨hflags, hr, -, hpre⟩ := isDir_spec ht hd
  unfold readdirFs
  rw [if_pos ⟨hflags, hr⟩]
  exact readdirScan_eq hpre index ht.names (Nat.zero_le _)

theorem finddirFs_eq (hd : v.IsDir d) (s : List UInt8) :
    finddirFs v d s = ((childrenOf (v.dirPrefix d) v.tarNodes 0).find? fun p =>
      decide (trimSlash (p.1.name.drop (v.dirPrefix d).length) = s)).map fun p => .tar p.2 := by
  obtain ⟨hflags, -, hf, hpre⟩ := isDir_spec ht hd
  unfold finddirFs
  rw [if_pos ⟨hflags, hf⟩]
  exact tarScan_eq hpre s ht.names

/-- What is at position `index` of the listing. -/
theorem readdirFs_some {index : Nat} {e : Dirent} (hd : v.IsDir d)
    (h : readdirFs v d index = some e) :
    ∃ p, (childrenOf (v.dirPrefix d) v.tarNodes 0)[index]? = some p ∧ e.ino = p.2 ∧
      e.name = trimSlash (p.1.name.drop (v.dirPrefix d).length) := by
  rw [readdirFs_eq ht hd, Option.map_eq_some_iff] at h
  obtain ⟨p, hp, rfl⟩ := h
  refine ⟨p, hp, rfl, ?_⟩
  obtain ⟨hn, -, -⟩ := mem_childrenOf.mp (List.mem_of_getElem? hp)
  have hlt := (ht.nodes p.1 (List.mem_of_getElem? hn)).name_lt
  exact direntName_eq (by rw [List.length_drop]; omega)

/-- A lookup finds the first child with the name. -/
theorem finddirFs_iff (hd : v.IsDir d) {s : List UInt8} {r : NodeRef} :
    finddirFs v d s = some r ↔ ∃ i, r = .tar i ∧ Child v d i s ∧ ∀ j < i, ¬Child v d j s := by
  have hpair := childrenOf_pairwise (v.dirPrefix d) v.tarNodes 0
  have hmem : ∀ i, Child v d i s ↔ ∃ n, (n, i) ∈ childrenOf (v.dirPrefix d) v.tarNodes 0 ∧
      trimSlash (n.name.drop (v.dirPrefix d).length) = s := fun i =>
    exists_congr fun n => by rw [mem_childrenOf, and_assoc, and_assoc]
  rw [finddirFs_eq ht hd, Option.map_eq_some_iff]
  constructor
  · rintro ⟨p, hp, rfl⟩
    obtain ⟨hs, as, bs, hsplit, hno⟩ := List.find?_eq_some_iff_append.mp hp
    have hs := decide_eq_true_iff.mp hs
    refine ⟨p.2, rfl, (hmem p.2).mpr ⟨p.1, by rw [hsplit]; simp, hs⟩, fun j hj hc => ?_⟩
    obtain ⟨n, hn, hns⟩ := (hmem j).mp hc
    rw [hsplit] at hn hpair
    -- a child before `p` has another name, one after it a larger index
    rcases List.mem_append.mp hn with hn | hn
    · have := hno _ hn
      simp [hns] at this
    · rcases List.mem_cons.mp hn with rfl | hn
      · exact absurd hj (Nat.lt_irrefl _)
      · have hlt := List.rel_of_pairwise_cons (List.pairwise_append.mp hpair).2.1 hn
        dsimp only at hlt
        omega
  · rintro ⟨i, rfl, hc, hmin⟩
    obtain ⟨n, hn, hns⟩ := (hmem i).mp hc
    have hsome : ((childrenOf (v.dirPrefix d) v.tarNodes 0).find? fun p =>
        decide (trimSlash (p.1.name.drop (v.dirPrefix d).length) = s)).isSome := by
      rw [List.find?_isSome]
      exact ⟨(n, i), hn, by simp [hns]⟩
    obtain ⟨p, hp⟩ := Option.isSome_iff_exists.mp hsome
    obtain ⟨hs, as, bs, hsplit, hno⟩ := List.find?_eq_some_iff_append.mp hp
    refine ⟨p, hp, ?_⟩
    have hle : i ≤ p.2 := by
      by_contra hlt
      refine hmin p.2 (by omega) ((hmem p.2).mpr ⟨p.1, ?_, decide_eq_true_iff.mp hs⟩)
      rw [hsplit]
      simp
    -- so `(n, i)` does not come after `p`, and it does not come before
    rw [hsplit] at hn hpair
    rcases List.mem_append.mp hn with hn | hn
    · have := hno _ hn
      simp [hns] at this
    · rcases List.mem_cons.mp hn with rfl | hn
      · rfl
      · have hlt := List.rel_of_pairwise_cons (List.pairwise_append.mp hpair).2.1 hn
        dsimp only at hlt
        omega

/-- The child at a position of the listing. -/
theorem readdirFs_child {index : Nat} {e : Dirent} (hd : v.IsDir d)
    (h : readdirFs v d index = some e) : Child v d e.ino e.name := by
  obtain ⟨p, hp, hino, hname⟩ := readdirFs_some ht hd h
  obtain ⟨hn, hne, hch⟩ := mem_childrenOf.mp (List.mem_of_getElem? hp)
  rw [hino, hname]
  exact ⟨p.1, hn, hne, hch, rfl⟩

/-- Every child is listed. -/
theorem Child.listed {i : Nat} {s : List UInt8} (hd : v.IsDir d) (h : Child v d i s) :
    ∃ index, readdirFs v d index = some ⟨s, i⟩ := by
  obtain ⟨n, hn, hne, hch, hs⟩ := h
  have hmem : (n, i) ∈ childrenOf (v.dirPrefix d) v.tarNodes 0 := mem_childrenOf.mpr ⟨hn, hne, hch⟩
  obtain ⟨index, hidx⟩ := List.getElem?_of_mem hmem
  refine ⟨index, ?_⟩
  have hlt := (ht.nodes n (List.mem_of_getElem? hn)).name_lt
  have hname : direntName (n.name.drop (v.dirPrefix d).length) = s := by
    rw [direntName_eq (by rw [List.length_drop]; omega), hs]
  rw [readdirFs_eq ht hd, hidx, Option.map_some, hname]

/-- **Listing and lookup agree.** The listing of a directory is a run of
entries with growing inode numbers, followed by `NULL`s. Looking up the name
of an entry gives the first child with that name, the entry's own node if the
names are distinct; and every node a lookup gives is listed under the name. -/
theorem readdirFs_finddirFs (hd : v.IsDir d) :
    (∃ n, ∀ index, (readdirFs v d index).isSome = true ↔ index < n) ∧
    (∀ index index' e e', index < index' → readdirFs v d index = some e →
      readdirFs v d index' = some e' → e.ino < e'.ino) ∧
    (∀ index e, readdirFs v d index = some e →
      (∃ i, finddirFs v d e.name = some (.tar i) ∧ Child v d i e.name ∧
        ∀ j < i, ¬Child v d j e.name) ∧
      ((∀ i j s, Child v d i s → Child v d j s → i = j) →
        finddirFs v d e.name = some (.tar e.ino))) ∧
    (∀ s r, finddirFs v d s = some r →
      ∃ index e, readdirFs v d index = some e ∧ e.name = s ∧ r = .tar e.ino) := by
  refine ⟨⟨(childrenOf (v.dirPrefix d) v.tarNodes 0).length, fun index => ?_⟩, ?_, ?_, ?_⟩
  · rw [readdirFs_eq ht hd, Option.isSome_map, isSome_getElem?]
  · intro index index' e e' hlt he he'
    obtain ⟨p, hp, hino, -⟩ := readdirFs_some ht hd he
    obtain ⟨q, hq, hino', -⟩ := readdirFs_some ht hd he'
    obtain ⟨hi, hp⟩ := List.getElem?_eq_some_iff.mp hp
    obtain ⟨hj, hq⟩ := List.getElem?_eq_some_iff.mp hq
    have h := List.pairwise_iff_getElem.mp (childrenOf_pairwise _ _ _) index index' hi hj hlt
    rw [hp, hq] at h
    rw [hino, hino']
    exact h
  · intro index e he
    have hchild := readdirFs_child ht hd he
    -- the least child with the entry's name
    obtain ⟨i, hi, hmin⟩ : ∃ i, Child v d i e.name ∧ ∀ j < i, ¬Child v d j e.name := by
      classical
      have hex : ∃ i, Child v d i e.name := ⟨e.ino, hchild⟩
      exact ⟨Nat.find hex, Nat.find_spec hex, fun j hj => Nat.find_min hex hj⟩
    have hfind := (finddirFs_iff ht hd).mpr ⟨i, rfl, hi, hmin⟩
    refine ⟨⟨i, hfind, hi, hmin⟩, fun hinj => ?_⟩
    rw [hfind, hinj i e.ino e.name hi hchild]
  · intro s r hr
    obtain ⟨i, rfl, hc, -⟩ := (finddirFs_iff ht hd).mp hr
    obtain ⟨index, hidx⟩ := hc.listed ht hd
    exact ⟨index, ⟨s, i⟩, hidx, rfl, rfl⟩

end

/-- A directory, a file in it and a file whose name starts like the
directory's. -/
def listedVfs : Vfs where
  tarNodes := [tarNode (cstr "bin/") 53 0 0x10000, tarNode (cstr "bin/sh") 48 10 0x10200,
    tarNode (cstr "./binary") 48 4 0x10600]
  tarRoot := tarRootNode
  fsRoot := some .root

theorem listedVfs_table : TarTable listedVfs := by
  refine ⟨by decide, fun n hn => ?_, rfl, rfl⟩
  have hn : n = tarNode (cstr "bin/") 53 0 0x10000 ∨ n = tarNode (cstr "bin/sh") 48 10 0x10200 ∨
      n = tarNode (cstr "./binary") 48 4 0x10600 := by
    simpa [listedVfs] using hn
  rcases hn with rfl | rfl | rfl <;>
    exact ⟨by decide +kernel, by decide +kernel, by decide +kernel, by decide +kernel⟩

/-- The file is found under the name it is listed with. -/
theorem readdirFs_finddirFs_listed :
    readdirFs listedVfs (.tar 0) 0 = some ⟨cstr "sh", 1⟩ ∧
    (∃ i, finddirFs listedVfs (.tar 0) (cstr "sh") = some (.tar i) ∧
      Child listedVfs (.tar 0) i (cstr "sh") ∧
      ∀ j < i, ¬Child listedVfs (.tar 0) j (cstr "sh")) := by
  have hdir : listedVfs.IsDir (.tar 0) := ⟨tarNode (cstr "bin/") 53 0 0x10000, rfl, by decide +kernel⟩
  have hread : readdirFs listedVfs (.tar 0) 0 = some ⟨cstr "sh", 1⟩ := by decide +kernel
  exact ⟨hread, ((readdirFs_finddirFs listedVfs_table hdir).2.2.1 0 _ hread).1⟩

end MyOS
