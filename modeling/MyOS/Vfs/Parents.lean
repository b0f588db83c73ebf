import MyOS.Vfs.Lookup

/-!
# Directories and path components

`tar_finddir` looks for nodes whose name starts with the directory's name.
What ends the directory's name is the `/` stored at its end: a directory that
is known by its typeflag alone, stored as `bin`, has the prefix of `binary`,
and the rest of `bin/sh` starts with the `/` that should have been part of the
prefix. So such a directory has false children, and none of its own.

`finddirFs_boundary_iff` says that this is all that goes wrong.
-/

namespace MyOS

open Lib

/-- A path without empty components, less a trailing `/`. -/
def ProperPath (name : List UInt8) : Prop := [] ∉ (trimSlash name).splitOn slash

instance (name : List UInt8) : Decidable (ProperPath name) := inferInstanceAs (Decidable (¬_))

theorem ProperPath.ne_slash {name : List UInt8} (h : ProperPath name) : name ≠ [slash] := by
  rintro rfl
  exact h (List.mem_singleton.mpr rfl)

section

variable {v : Vfs} {i : Nat} {d : FsNode} {s : List UInt8}

/-- The children of a directory are the nodes that go on with `s` right behind
its stored name. -/
theorem child_tar_iff (ht : TarTable v) (hd : v.tarNodes[i]? = some d) (hp : ProperPath d.name)
    (hs : s ≠ []) (hslash : slash ∉ s) (j : Nat) :
    Child v (.tar i) j s ↔ ∃ n, v.tarNodes[j]? = some n ∧ trimSlash n.name = d.name ++ s := by
  have hpre : v.dirPrefix (.tar i) = d.name := by
    unfold Vfs.dirPrefix
    rw [if_neg (by simp), (node_of_getElem? ht hd).1]
  have h0 : 0 ∉ d.name := (node_of_getElem? ht hd).2.no_nul
  unfold Child
  rw [hpre]
  refine exists_congr fun n => and_congr_right fun _ => ?_
  exact child_iff_trimSlash h0 hp.ne_slash hs hslash

/-- What a lookup finds, and when it finds something. -/
theorem finddirFs_tar (ht : TarTable v) (hd : v.tarNodes[i]? = some d) (hdir : d.flags = fsDirectory)
    (hp : ProperPath d.name) (hs : s ≠ []) (hslash : slash ∉ s) :
    (∀ r, finddirFs v (.tar i) s = some r →
      ∃ j n, r = .tar j ∧ v.tarNodes[j]? = some n ∧ trimSlash n.name = d.name ++ s) ∧
    ((∃ n ∈ v.tarNodes, trimSlash n.name = d.name ++ s) → ∃ r, finddirFs v (.tar i) s = some r) := by
  have hisDir : v.IsDir (.tar i) := ⟨d, hd, hdir⟩
  have hchild := child_tar_iff ht hd hp hs hslash
  refine ⟨fun r hr => ?_, fun hex => ?_⟩
  · obtain ⟨j, rfl, hc, -⟩ := (finddirFs_iff ht hisDir).mp hr
    obtain ⟨n, hn, heq⟩ := (hchild j).mp hc
    exact ⟨j, n, rfl, hn, heq⟩
  · obtain ⟨n, hmem, heq⟩ := hex
    obtain ⟨j, hn⟩ := List.getElem?_of_mem hmem
    -- the first of the children with the name
    classical
    have hex : ∃ j, Child v (.tar i) j s := ⟨j, (hchild j).mpr ⟨n, hn, heq⟩⟩
    exact ⟨_, (finddirFs_iff ht hisDir).mpr ⟨Nat.find hex, rfl, Nat.find_spec hex,
      fun j hj => Nat.find_min hex hj⟩⟩

/-- **Directories are matched at path components** exactly if the directory's
stored name ends in `/`, or no node of the table has a path that goes on
behind the stored name with `s`, or with `/` and `s`. -/
theorem finddirFs_boundary_iff {fuel address size : Nat} {k k' : Machine}
    (hrun : tarInit fuel address size k = .ok (v, k')) (hpaths : ∀ n ∈ v.tarNodes, ProperPath n.name)
    (hd : v.tarNodes[i]? = some d) (hdir : d.flags = fsDirectory) (hs : s ≠ []) (hslash : slash ∉ s) :
    ((∀ r, finddirFs v (.tar i) s = some r → ∃ j n, r = .tar j ∧ v.tarNodes[j]? = some n ∧
        trimSlash n.name = trimSlash d.name ++ slash :: s) ∧
      ((∃ n ∈ v.tarNodes, trimSlash n.name = trimSlash d.name ++ slash :: s) →
        ∃ r, finddirFs v (.tar i) s = some r)) ↔
    (d.name.getLast? = some slash ∨
      ∀ n ∈ v.tarNodes, trimSlash n.name ≠ d.name ++ s ∧ trimSlash n.name ≠ d.name ++ slash :: s) := by
  have hp := hpaths d (List.mem_of_getElem? hd)
  obtain ⟨honly, hfound⟩ := finddirFs_tar (tarInit_table hrun) hd hdir hp hs hslash
  by_cases hlast : d.name.getLast? = some slash
  · -- the stored name is the path and the separator
    have hname : trimSlash d.name ++ slash :: s = d.name ++ s := by
      have hne : d.name ≠ [] := fun h0 => by
        rw [h0] at hlast
        exact absurd hlast (by simp)
      have hcut : trimSlash d.name ++ [slash] = d.name := by
        unfold trimSlash
        rw [if_pos hlast]
        rw [List.getLast?_eq_getLast_of_ne_nil hne] at hlast
        rw [← Option.some.inj hlast, List.dropLast_append_getLast hne]
      calc trimSlash d.name ++ slash :: s
          = (trimSlash d.name ++ [slash]) ++ s := by simp
        _ = d.name ++ s := by rw [hcut]
    rw [hname]
    exact ⟨fun _ => Or.inl hlast, fun _ => ⟨honly, hfound⟩⟩
  have htrim : trimSlash d.name = d.name := if_neg hlast
  have hdiff : d.name ++ s ≠ d.name ++ slash :: s := by
    intro h
    have := congrArg List.length (List.append_cancel_left h)
    rw [List.length_cons] at this
    omega
  rw [htrim]
  constructor
  · rintro ⟨hright, hall⟩
    -- what is found goes on with `s` behind `d.name`, so it is no child
    have hnone : ∀ r, finddirFs v (.tar i) s ≠ some r := by
      intro r hr
      obtain ⟨j, m, rfl, hm, hwrong⟩ := honly r hr
      obtain ⟨j', m', hj, hm', hpath⟩ := hright _ hr
      cases hj
      obtain rfl : m = m' := Option.some.inj (hm.symm.trans hm')
      exact hdiff (hwrong.symm.trans hpath)
    refine Or.inr fun n hn => ⟨fun heq => ?_, fun heq => ?_⟩
    · obtain ⟨r, hr⟩ := hfound ⟨n, hn, heq⟩
      exact hnone r hr
    · obtain ⟨r, hr⟩ := hall ⟨n, hn, heq⟩
      exact hnone r hr
  · intro h
    have hno := h.resolve_left hlast
    refine ⟨fun r hr => ?_, fun ⟨n, hn, heq⟩ => absurd heq (hno n hn).2⟩
    obtain ⟨j, n, rfl, hn, hwrong⟩ := honly r hr
    exact absurd hwrong (hno n (List.mem_of_getElem? hn)).1

end

/-- A directory stored without a `/`, a file in it, and a file beside it whose
name starts like the directory's. -/
def flatEntries : List TarEntry :=
  [⟨cstr "bin", 53, [], fun _ => 0⟩, ⟨cstr "bin/sh", 48, [], fun _ => 0⟩,
    ⟨cstr "binary", 48, [], fun _ => 0⟩]

theorem flatEntries_valid : ∀ e ∈ flatEntries, e.Valid := by
  intro e he
  have hcases : e = ⟨cstr "bin", 53, [], fun _ => 0⟩ ∨ e = ⟨cstr "bin/sh", 48, [], fun _ => 0⟩ ∨
      e = ⟨cstr "binary", 48, [], fun _ => 0⟩ := by
    simpa [flatEntries] using he
  rcases hcases with rfl | rfl | rfl <;>
    exact ⟨by decide +kernel, by decide +kernel, by decide +kernel⟩

/-- The directory's own file is not found, and the file beside it is, under
the rest of its name. -/
theorem finddirFs_misses_child : ∃ v,
    tarInit 4 0x10000 4096 (diskMachine (encodeTar flatEntries))
      = .ok (v, diskMachine (encodeTar flatEntries)) ∧
    v.tarNodes.map FsNode.name = [cstr "bin", cstr "bin/sh", cstr "binary"] ∧
    finddirFs v (.tar 0) (cstr "sh") = none ∧ finddirFs v (.tar 0) (cstr "ary") = some (.tar 2) := by
  have harch : Archived (diskMachine (encodeTar flatEntries)) 0x10000 4096 flatEntries :=
    diskMachine_archived (by decide +kernel)
  refine ⟨_, tarInit_nodes harch flatEntries_valid (by decide) (by decide), ?_, ?_, ?_⟩
  · decide +kernel
  · decide +kernel
  · decide +kernel

/-- A directory stored with its `/` finds its file. -/
theorem finddirFs_boundary_disk : ∃ v,
    tarInit 3 0x10000 4096 (diskMachine (encodeTar diskEntries))
      = .ok (v, diskMachine (encodeTar diskEntries)) ∧
    ∃ r, finddirFs v (.tar 0) (cstr "sh") = some r := by
  have harch : Archived (diskMachine (encodeTar diskEntries)) 0x10000 4096 diskEntries :=
    diskMachine_archived (by decide +kernel)
  have hrun := tarInit_nodes harch diskEntries_valid (by decide) (by decide : diskEntries.length < 3)
  refine ⟨_, hrun, ((finddirFs_boundary_iff (d := tarNode (cstr "bin/") 53 0 0x10000) hrun
    (by decide +kernel) (by decide +kernel) (by decide +kernel) (by decide +kernel)
    (by decide +kernel)).mpr (Or.inl (by decide +kernel))).2 ?_⟩
  exact ⟨tarNode (cstr "./bin/sh") 48 3 0x10200, by decide +kernel, by decide +kernel⟩

end MyOS
