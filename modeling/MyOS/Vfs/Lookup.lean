import MyOS.Vfs.Listing
import MyOS.Vfs.Ustar

/-!
# Path lookup is exact

`find_node_by_path` cuts the path at its slashes into a buffer of 128 bytes
and looks the pieces up one after the other in a flat table, where being a
child is a matter of string prefixes. Two steps:

- The walk over the bytes of the path is a walk over its non-empty
  components, each cut to 127 bytes (`findNodeByPath_eq`).
- On a table whose directories end in `/`, whose paths are distinct and whose
  entries all have their ancestors, a step from the directory with prefix `P`
  to `t` finds exactly the node with the path `P ++ t` (`finddirFs_path`), so
  by induction over the components the walk finds exactly the node with the
  components' path (`lookups_iff`).

A file on the way ends the walk in `NULL`; the node it would have led to does
not exist, since its ancestor would be a directory with the file's path. A
component of more than 127 bytes is cut to a name that no entry can have.
-/

namespace MyOS

open Lib

/-! ## The components of a path -/

/-- The non-empty components. -/
def pathComponents (p : List UInt8) : List (List UInt8) := (p.splitOn slash).filter (· ≠ [])

/-- Components joined by `/`. -/
def joinPath (qs : List (List UInt8)) : List UInt8 := [slash].intercalate qs

theorem pathComponents_of_not_mem {c : List UInt8} (h : slash ∉ c) :
    pathComponents c = if c = [] then [] else [c] := by
  unfold pathComponents
  rw [List.splitOn_eq_singleton h]
  by_cases hc : c = []
  · rw [if_pos hc, List.filter_cons_of_neg (by simp [hc]), List.filter_nil]
  · rw [if_neg hc, List.filter_cons_of_pos (by simp [hc]), List.filter_nil]

theorem pathComponents_append_cons {c : List UInt8} (h : slash ∉ c) (cs : List UInt8) :
    pathComponents (c ++ slash :: cs)
      = if c = [] then pathComponents cs else c :: pathComponents cs := by
  unfold pathComponents
  rw [List.splitOn_append_cons_self_of_not_mem h]
  by_cases hc : c = []
  · rw [if_pos hc, List.filter_cons_of_neg (by simp [hc])]
  · rw [if_neg hc, List.filter_cons_of_pos (by simp [hc])]

/-- The pieces between the slashes hold none. -/
theorem not_mem_of_mem_splitOn {p q : List UInt8} (h : q ∈ p.splitOn slash) : slash ∉ q := by
  induction p generalizing q with
  | nil =>
    rw [List.splitOn_nil, List.mem_singleton] at h
    rw [h]
    exact List.not_mem_nil
  | cons c cs ih =>
    rw [List.splitOn_cons_eq_if_modifyHead] at h
    split at h
    next =>
      rcases List.mem_cons.mp h with rfl | h
      · exact List.not_mem_nil
      · exact ih h
    next hc =>
      obtain ⟨x, xs, hx⟩ := List.exists_cons_of_ne_nil (List.splitOn_ne_nil slash cs)
      rw [hx, List.modifyHead_cons] at h
      rcases List.mem_cons.mp h with rfl | h
      · rw [List.mem_cons, not_or]
        exact ⟨fun he => hc (by simp [he]), ih (by rw [hx]; exact List.mem_cons_self)⟩
      · exact ih (by rw [hx]; exact List.mem_cons_of_mem _ h)

/-- A component is not empty and holds no `/`. -/
theorem mem_pathComponents {p q : List UInt8} (h : q ∈ pathComponents p) : q ≠ [] ∧ slash ∉ q := by
  unfold pathComponents at h
  rw [List.mem_filter] at h
  exact ⟨by simpa using h.2, not_mem_of_mem_splitOn h.1⟩

theorem joinPath_cons_cons (q q' : List UInt8) (qs : List (List UInt8)) :
    joinPath (q :: q' :: qs) = q ++ slash :: joinPath (q' :: qs) := by
  unfold joinPath
  rw [List.intercalate_cons_cons]
  simp

theorem joinPath_singleton (q : List UInt8) : joinPath [q] = q := List.intercalate_singleton

/-! ## The walk over the components -/

/-- One lookup for each component, each cut to the token buffer. -/
def lookups (v : Vfs) : Option NodeRef → List (List UInt8) → Option NodeRef
  | curr, [] => curr
  | curr, q :: qs => lookups v (curr.bind fun ref => finddirFs v ref (q.take 127)) qs

theorem lookups_none (v : Vfs) (qs : List (List UInt8)) : lookups v none qs = none := by
  induction qs with
  | nil => rfl
  | cons q qs ih => exact ih

/-- The component read so far is `c`; the token holds its first 127 bytes. -/
theorem walkPath_eq (v : Vfs) (cs : List UInt8) : ∀ {curr : Option NodeRef} {c : List UInt8},
    slash ∉ c → walkPath v curr (c.take 127) cs = lookups v curr (pathComponents (c ++ cs)) := by
  have htoken : ∀ c : List UInt8, c.take 127 = [] ↔ c = [] := fun c => by simp
  induction cs with
  | nil =>
    intro curr c hc
    unfold walkPath stepInto
    rw [List.append_nil, pathComponents_of_not_mem hc]
    by_cases h0 : c = []
    · rw [if_pos h0, if_pos ((htoken c).mpr h0)]
      rfl
    · rw [if_neg h0, if_neg fun h => h0 ((htoken c).mp h)]
      rfl
  | cons b cs ih =>
    intro curr c hc
    unfold walkPath
    by_cases hb : b = slash
    · have ih0 : ∀ curr', walkPath v curr' [] cs = lookups v curr' (pathComponents cs) :=
        fun curr' => @ih curr' [] List.not_mem_nil
      rw [if_pos hb, hb, pathComponents_append_cons hc, ih0]
      unfold stepInto
      by_cases h0 : c = []
      · have ht := (htoken c).mpr h0
        rw [if_pos h0, if_pos ht, if_neg fun h => h.1 ht]
      · have ht := fun h => h0 ((htoken c).mp h)
        rw [if_neg h0, if_neg ht]
        show _ = lookups v (curr.bind fun ref => finddirFs v ref (c.take 127)) (pathComponents cs)
        split
        next h => rw [h.2, lookups_none]
        next => rfl
    · -- one more byte, kept if the token has room for it
      have hgrow : (if (c.take 127).length < 127 then c.take 127 ++ [b] else c.take 127)
          = (c ++ [b]).take 127 := by
        rw [List.length_take]
        by_cases hlen : c.length < 127
        · rw [if_pos (by omega), List.take_of_length_le (by omega),
            List.take_of_length_le (by simp; omega)]
        · rw [if_neg (by omega), List.take_append_of_le_length (by omega)]
      have hmem : slash ∉ c ++ [b] := by
        rw [List.mem_append, List.mem_singleton, not_or]
        exact ⟨hc, Ne.symm hb⟩
      rw [if_neg hb, hgrow, ih hmem, List.append_assoc, List.singleton_append]

theorem findNodeByPath_eq (v : Vfs) {path : List UInt8} (h : path.head? = some slash) :
    findNodeByPath v path = lookups v v.fsRoot (pathComponents path) := by
  obtain ⟨cs, rfl⟩ : ∃ cs, path = slash :: cs := ⟨path.tail, List.eq_cons_of_mem_head? h⟩
  have hcomps : pathComponents (slash :: cs) = pathComponents cs := by
    have := pathComponents_append_cons (c := []) List.not_mem_nil cs
    rwa [if_pos rfl] at this
  have hwalk := @walkPath_eq v cs v.fsRoot [] List.not_mem_nil
  unfold findNodeByPath
  rw [if_neg (by simp), hcomps]
  split
  next hlen =>
    have hcs : cs = [] := by simpa using hlen
    rw [hcs, pathComponents_of_not_mem List.not_mem_nil, if_pos rfl]
    rfl
  next => exact hwalk

/-! ## Tables with well-formed names -/

/-- The normalised path of an entry: no leading `./`, no trailing `/`. -/
def TarEntry.path (e : TarEntry) : List UInt8 := trimSlash (stripDot e.name)

def TarEntry.isDir (e : TarEntry) : Prop := isDirEntry e.name e.typeflag = true

/-- The names are proper paths, directories end in `/`, the paths are
distinct, and every proper ancestor is there as a directory. -/
structure WellNamed (es : List TarEntry) : Prop where
  comps : ∀ e ∈ es, stripDot e.name ≠ [] ∧ [] ∉ e.path.splitOn slash
  dir_slash : ∀ e ∈ es, e.isDir → (stripDot e.name).getLast? = some slash
  distinct : ∀ (i j : Nat) (e e' : TarEntry), es[i]? = some e → es[j]? = some e' →
    e.path = e'.path → i = j
  ancestors : ∀ e ∈ es, ∀ p r, e.path = p ++ slash :: r → ∃ e' ∈ es, e'.isDir ∧ e'.path = p

/-- No entry has the root's path. -/
theorem WellNamed.path_ne_nil {es : List TarEntry} (hw : WellNamed es) {e : TarEntry} (he : e ∈ es) :
    e.path ≠ [] := by
  intro h
  refine (hw.comps e he).2 ?_
  rw [h]
  exact List.mem_singleton.mpr rfl

/-- The table has the entries' names and kinds. -/
structure Built (v : Vfs) (es : List TarEntry) : Prop where
  table : TarTable v
  node : ∀ (i : Nat) (n : FsNode), v.tarNodes[i]? = some n →
    ∃ e, es[i]? = some e ∧ n.name = stripDot e.name ∧ (n.flags = fsDirectory ↔ e.isDir)
  entry : ∀ (i : Nat) (e : TarEntry), es[i]? = some e → ∃ n, v.tarNodes[i]? = some n

theorem nodesFrom_getElem? (es : List TarEntry) : ∀ (ptr i : Nat), ∃ a,
    (nodesFrom ptr es)[i]? = es[i]?.map fun e => tarNode e.name e.typeflag e.contents.length a := by
  induction es with
  | nil => exact fun _ _ => ⟨0, rfl⟩
  | cons e es ih =>
    intro ptr i
    cases i with
    | zero =>
      refine ⟨ptr, ?_⟩
      unfold nodesFrom
      rw [List.getElem?_cons_zero, List.getElem?_cons_zero, Option.map_some]
    | succ i =>
      unfold nodesFrom
      rw [List.getElem?_cons_succ, List.getElem?_cons_succ]
      exact ih _ i

/-- What `tar_init` makes of an archive. -/
theorem tarInit_built {k : Machine} {address size fuel : Nat} {es : List TarEntry}
    (harch : Archived k address size es) (hv : ∀ e ∈ es, e.Valid) (hcount : es.length ≤ 128)
    (hfuel : es.length < fuel) :
    ∃ v, tarInit fuel address size k = .ok (v, k) ∧ Built v es := by
  have hinit := tarInit_nodes harch hv hcount hfuel
  refine ⟨_, hinit, tarInit_table hinit, fun i n hn => ?_, fun i e he => ?_⟩
  · obtain ⟨a, ha⟩ := nodesFrom_getElem? es address i
    dsimp only at hn
    rw [ha, Option.map_eq_some_iff] at hn
    obtain ⟨e, he, rfl⟩ := hn
    refine ⟨e, he, rfl, ?_⟩
    show (if isDirEntry e.name e.typeflag = true then fsDirectory else fsFile) = fsDirectory ↔ _
    unfold TarEntry.isDir
    split
    next hd => simp [hd]
    next hd => exact ⟨fun h => absurd h (by decide), fun h => absurd h hd⟩
  · obtain ⟨a, ha⟩ := nodesFrom_getElem? es address i
    exact ⟨_, by rw [ha, he, Option.map_some]⟩

/-! ## One step -/

/-- The children of a directory by their whole names. -/
theorem child_iff_trimSlash {P N t : List UInt8} (hP : 0 ∉ P) (hslash : P ≠ [slash]) (ht : t ≠ [])
    (hts : slash ∉ t) :
    (N ≠ P ∧ isDirectChild P N = true ∧ trimSlash (N.drop P.length) = t) ↔ trimSlash N = P ++ t := by
  rw [isDirectChild_iff hP]
  constructor
  · rintro ⟨-, hch, heq⟩
    rcases hch with ⟨hs, -⟩ | ⟨-, ⟨r, rfl⟩, -⟩
    · exact absurd hs hslash
    · rw [List.drop_left] at heq
      have hr : r ≠ [] := fun h => ht (by rw [← heq, h]; rfl)
      rw [trimSlash_append hr, heq]
  · intro h
    -- the rest of the name is `t`, or `t` and a `/`
    have hrest : ∃ r, N = P ++ r ∧ trimSlash r = t ∧ r ≠ [] := by
      rcases eq_of_trimSlash h with rfl | rfl
      · exact ⟨t, rfl, trimSlash_of_not_mem hts, ht⟩
      · exact ⟨t ++ [slash], by rw [List.append_assoc], trimSlash_append_slash t, by simp⟩
    obtain ⟨r, rfl, hr, hne⟩ := hrest
    rw [List.drop_left, hr]
    refine ⟨fun h => hne (by simpa using h), Or.inr ⟨hslash, List.prefix_append _ _, hts⟩, rfl⟩

section

variable {v : Vfs} {es : List TarEntry} (hb : Built v es) (hw : WellNamed es)

include hb hw

/-- A directory's name, when it is not the root: its path and a `/`. -/
theorem dir_name {i : Nat} {n : FsNode} {e : TarEntry} (hn : v.tarNodes[i]? = some n)
    (he : es[i]? = some e) (hdir : n.flags = fsDirectory) : n.name = e.path ++ [slash] := by
  obtain ⟨e', he', hname, hiff⟩ := hb.node i n hn
  obtain rfl : e' = e := Option.some.inj (he'.symm.trans he)
  have hlast := hw.dir_slash _ (List.mem_of_getElem? he) (hiff.mp hdir)
  have hne := (hw.comps _ (List.mem_of_getElem? he)).1
  unfold TarEntry.path trimSlash
  rw [hname, if_pos hlast]
  rw [List.getLast?_eq_getLast_of_ne_nil hne] at hlast
  rw [← Option.some.inj hlast, List.dropLast_append_getLast hne]

/-- **One step** finds exactly the node with the longer path. -/
theorem finddirFs_path {d : NodeRef} (hd : v.IsDir d) {t : List UInt8} (ht : t ≠ [])
    (hts : slash ∉ t) {r : NodeRef} :
    finddirFs v d t = some r ↔
      ∃ (i : Nat) (e : TarEntry), r = .tar i ∧ es[i]? = some e ∧ e.path = v.dirPrefix d ++ t := by
  obtain ⟨-, -, -, hpre⟩ := isDir_spec hb.table hd
  have hslash : v.dirPrefix d ≠ [slash] := by
    cases d with
    | root => exact fun h => absurd h (by simp [Vfs.dirPrefix])
    | tar i =>
      obtain ⟨n, hn, hflags⟩ := hd
      obtain ⟨e, he, -, -⟩ := hb.node i n hn
      have hname := dir_name hb hw hn he hflags
      have hp : v.dirPrefix (.tar i) = n.name := (node_of_getElem? hb.table hn).1 ▸ rfl
      rw [hp, hname]
      intro h
      exact hw.path_ne_nil (List.mem_of_getElem? he) (by simpa using h)
  have hchild : ∀ i, Child v d i t ↔ ∃ e, es[i]? = some e ∧ e.path = v.dirPrefix d ++ t := by
    intro i
    constructor
    · rintro ⟨n, hn, hc⟩
      obtain ⟨e, he, hname, -⟩ := hb.node i n hn
      refine ⟨e, he, ?_⟩
      unfold TarEntry.path
      rw [← hname]
      exact (child_iff_trimSlash hpre hslash ht hts).mp hc
    · rintro ⟨e, he, hpath⟩
      obtain ⟨n, hn⟩ := hb.entry i e he
      obtain ⟨e', he', hname, -⟩ := hb.node i n hn
      obtain rfl : e' = e := Option.some.inj (he'.symm.trans he)
      unfold TarEntry.path at hpath
      rw [← hname] at hpath
      exact ⟨n, hn, (child_iff_trimSlash hpre hslash ht hts).mpr hpath⟩
  rw [finddirFs_iff hb.table hd]
  constructor
  · rintro ⟨i, rfl, hc, -⟩
    obtain ⟨e, he, hpath⟩ := (hchild i).mp hc
    exact ⟨i, e, rfl, he, hpath⟩
  · rintro ⟨i, e, rfl, he, hpath⟩
    refine ⟨i, rfl, (hchild i).mpr ⟨e, he, hpath⟩, fun j hj hc => ?_⟩
    obtain ⟨e', he', hpath'⟩ := (hchild j).mp hc
    exact absurd (hw.distinct j i e' e he' he (hpath'.trans hpath.symm)) (by omega)

/-! ## The whole walk -/

/-- **The walk from a directory** finds exactly the node with the joined
path. -/
theorem lookups_iff (hlen : ∀ e ∈ es, e.path.length ≤ 99) (qs : List (List UInt8)) :
    ∀ {q : List UInt8} {d : NodeRef} {r : NodeRef}, v.IsDir d →
    (∀ x ∈ q :: qs, x ≠ [] ∧ slash ∉ x) →
    (lookups v (some d) (q :: qs) = some r ↔
      ∃ (i : Nat) (e : TarEntry), r = .tar i ∧ es[i]? = some e ∧
        e.path = v.dirPrefix d ++ joinPath (q :: qs)) := by
  induction qs with
  | nil =>
    intro q d r hd hq
    obtain ⟨hne, hs⟩ := hq q List.mem_cons_self
    have hcut : q.take 127 ≠ [] := by simpa using hne
    have hcuts : slash ∉ q.take 127 := fun h => hs (List.mem_of_mem_take h)
    rw [joinPath_singleton]
    show finddirFs v d (q.take 127) = some r ↔ _
    rw [finddirFs_path hb hw hd hcut hcuts]
    refine exists_congr fun i => exists_congr fun e => and_congr_right fun _ =>
      and_congr_right fun he => ?_
    have h99 := hlen e (List.mem_of_getElem? he)
    -- no path is long enough for a component that is cut
    by_cases hq127 : q.length ≤ 127
    · rw [List.take_of_length_le hq127]
    · refine ⟨fun h => absurd (congrArg List.length h) ?_, fun h => absurd (congrArg List.length h) ?_⟩
      · rw [List.length_append, List.length_take]
        omega
      · rw [List.length_append]
        omega
  | cons q' qs ih =>
    intro q d r hd hq
    obtain ⟨hne, hs⟩ := hq q List.mem_cons_self
    have hcut : q.take 127 ≠ [] := by simpa using hne
    have hcuts : slash ∉ q.take 127 := fun h => hs (List.mem_of_mem_take h)
    have hstep := @finddirFs_path v es hb hw d hd _ hcut hcuts
    rw [joinPath_cons_cons, ← List.append_assoc]
    show lookups v (finddirFs v d (q.take 127)) (q' :: qs) = some r ↔ _
    constructor
    · intro h
      cases hfind : finddirFs v d (q.take 127) with
      | none => exact absurd h (by rw [hfind, lookups_none]; simp)
      | some d' =>
        obtain ⟨i, e, rfl, he, hpath⟩ := hstep.mp hfind
        have h99 := hlen e (List.mem_of_getElem? he)
        have hq127 : q.length ≤ 127 := by
          have hl := congrArg List.length hpath
          rw [List.length_append, List.length_take] at hl
          omega
        rw [List.take_of_length_le hq127] at hpath
        obtain ⟨n, hn⟩ := hb.entry i e he
        -- the walk went on, so the node is a directory
        have hdir : n.flags = fsDirectory := by
          by_contra hfile
          have hnull : finddirFs v (.tar i) (q'.take 127) = none := by
            obtain ⟨hnode, hok⟩ := node_of_getElem? hb.table hn
            unfold finddirFs
            rw [hnode, if_neg fun h => ?_]
            rcases hok.flags with hf | hf
            · rw [hf] at h
              exact absurd h.1 (by decide)
            · exact hfile hf
          rw [hfind] at h
          have h' : lookups v (finddirFs v (.tar i) (q'.take 127)) qs = some r := h
          rw [hnull, lookups_none] at h'
          exact absurd h' (by simp)
        rw [hfind] at h
        obtain ⟨j, e', hr, he', hpath'⟩ := (ih (d := .tar i) ⟨n, hn, hdir⟩
          fun x hx => hq x (List.mem_cons_of_mem _ hx)).mp h
        have hp : v.dirPrefix (.tar i) = n.name := (node_of_getElem? hb.table hn).1 ▸ rfl
        refine ⟨j, e', hr, he', ?_⟩
        rw [hpath', hp, dir_name hb hw hn he hdir, hpath, List.append_assoc, List.singleton_append]
    · rintro ⟨j, e', rfl, he', hpath'⟩
      -- the ancestor is a directory, and the step finds it
      obtain ⟨a, ha, hadir, hapath⟩ := hw.ancestors e' (List.mem_of_getElem? he') _ _ hpath'
      obtain ⟨i, hi⟩ := List.getElem?_of_mem ha
      have h99 := hlen a ha
      have hq127 : q.length ≤ 127 := by
        have hl := congrArg List.length hapath
        rw [List.length_append] at hl
        omega
      have hfind : finddirFs v d (q.take 127) = some (.tar i) :=
        hstep.mpr ⟨i, a, rfl, hi, by rw [List.take_of_length_le hq127]; exact hapath⟩
      obtain ⟨n, hn⟩ := hb.entry i a hi
      obtain ⟨a', ha', -, hiff⟩ := hb.node i n hn
      obtain rfl : a' = a := Option.some.inj (ha'.symm.trans hi)
      have hdir := hiff.mpr hadir
      have hp : v.dirPrefix (.tar i) = n.name := (node_of_getElem? hb.table hn).1 ▸ rfl
      rw [hfind]
      refine (ih (d := .tar i) ⟨n, hn, hdir⟩ fun x hx => hq x (List.mem_cons_of_mem _ hx)).mpr
        ⟨j, e', rfl, he', ?_⟩
      rw [hpath', hp, dir_name hb hw hn hi hdir, hapath, List.append_assoc _ [slash],
        List.singleton_append]

/-- `find_node_by_path` on such a table. -/
theorem findNodeByPath_iff (hlen : ∀ e ∈ es, e.path.length ≤ 99) {path : List UInt8}
    (hpath : path.head? = some slash) (hq : pathComponents path ≠ []) {r : NodeRef} :
    findNodeByPath v path = some r ↔
      ∃ (i : Nat) (e : TarEntry), r = .tar i ∧ es[i]? = some e ∧
        e.path = joinPath (pathComponents path) := by
  obtain ⟨q, qs, hcomps⟩ := List.exists_cons_of_ne_nil hq
  rw [findNodeByPath_eq v hpath, hb.table.fsRoot, hcomps]
  have h := lookups_iff hb hw hlen qs (q := q) (d := .root) (r := r) trivial
    fun x hx => mem_pathComponents (by rw [hcomps]; exact hx)
  exact h

end

theorem path_length_le (e : TarEntry) : e.path.length ≤ e.name.length :=
  Nat.le_trans (trimSlash_length_le _) (stripDot_length_le _)

/-- **Path lookup is exact.** On the table `tar_init` builds from an archive
with well-formed names, a path without components is the root, a path that
is an entry's is that entry's node and no other's, and any other path is
`NULL`. -/
theorem findNodeByPath_exact {k : Machine} {address size fuel : Nat} {es : List TarEntry}
    (harch : Archived k address size es) (hv : ∀ e ∈ es, e.Valid) (hcount : es.length ≤ 128)
    (hfuel : es.length < fuel) (hw : WellNamed es) :
    ∃ v, tarInit fuel address size k = .ok (v, k) ∧ ∀ path, path.head? = some slash →
      (pathComponents path = [] → findNodeByPath v path = some .root) ∧
      (∀ (i : Nat) (e : TarEntry), es[i]? = some e → e.path = joinPath (pathComponents path) →
        findNodeByPath v path = some (.tar i) ∧
        ∀ (j : Nat) (e' : TarEntry), es[j]? = some e' →
          e'.path = joinPath (pathComponents path) → j = i) ∧
      (pathComponents path ≠ [] → (∀ e ∈ es, e.path ≠ joinPath (pathComponents path)) →
        findNodeByPath v path = none) := by
  obtain ⟨v, hinit, hb⟩ := tarInit_built harch hv hcount hfuel
  have hlen : ∀ e ∈ es, e.path.length ≤ 99 := fun e he =>
    Nat.le_trans (path_length_le e) (hv e he).name_le
  refine ⟨v, hinit, fun path hpath => ⟨fun h0 => ?_, fun i e he heq => ⟨?_, ?_⟩, fun hne hno => ?_⟩⟩
  · rw [findNodeByPath_eq v hpath, h0, hb.table.fsRoot]
    rfl
  · refine (findNodeByPath_iff hb hw hlen hpath fun h0 => ?_).mpr ⟨i, e, rfl, he, heq⟩
    rw [h0] at heq
    exact hw.path_ne_nil (List.mem_of_getElem? he) heq
  · intro j e' he' heq'
    exact hw.distinct j i e' e he' he (heq'.trans heq.symm)
  · cases hfind : findNodeByPath v path with
    | none => rfl
    | some r =>
      obtain ⟨i, e, -, he, heq⟩ := (findNodeByPath_iff hb hw hlen hpath hne).mp hfind
      exact absurd heq (hno e (List.mem_of_getElem? he))

theorem diskEntries_wellNamed : WellNamed diskEntries := by
  have hbin : (⟨cstr "bin/", 53, [], fun _ => 0⟩ : TarEntry).path = cstr "bin" := by decide +kernel
  have hsh : (⟨cstr "./bin/sh", 48, [1, 2, 3], fun _ => 0⟩ : TarEntry).path = cstr "bin/sh" := by
    decide +kernel
  have hcases : ∀ e ∈ diskEntries, e = ⟨cstr "bin/", 53, [], fun _ => 0⟩ ∨
      e = ⟨cstr "./bin/sh", 48, [1, 2, 3], fun _ => 0⟩ := fun e he => by
    simpa [diskEntries] using he
  refine ⟨fun e he => ?_, fun e he hd => ?_, fun i j e e' he he' heq => ?_, fun e he p r hp => ?_⟩
  · rcases hcases e he with rfl | rfl <;> exact ⟨by decide +kernel, by decide +kernel⟩
  · rcases hcases e he with rfl | rfl
    · decide +kernel
    · exact absurd hd (by unfold TarEntry.isDir; decide +kernel)
  · -- the two paths differ
    match i, j with
    | 0, 0 => rfl
    | 1, 1 => rfl
    | 0, 1 =>
      cases he
      cases he'
      rw [hbin, hsh] at heq
      exact absurd heq (by decide +kernel)
    | 1, 0 =>
      cases he
      cases he'
      rw [hbin, hsh] at heq
      exact absurd heq (by decide +kernel)
    | i + 2, _ => exact absurd he (by simp [diskEntries])
    | _, j + 2 => exact absurd he' (by simp [diskEntries])
  · rcases hcases e he with rfl | rfl
    · rw [hbin] at hp
      have hs : slash ∈ cstr "bin" := by
        rw [hp]
        simp
      exact absurd hs (by decide +kernel)
    · rw [hsh] at hp
      -- the only slash is the one after the directory
      have hcut : (cstr "bin/sh").splitOn slash = (p ++ slash :: r).splitOn slash := by rw [hp]
      rw [List.splitOn_append_cons_self,
        show (cstr "bin/sh").splitOn slash = [cstr "bin", cstr "sh"] by decide +kernel] at hcut
      obtain ⟨x, xs, hx⟩ := List.exists_cons_of_ne_nil (List.splitOn_ne_nil slash p)
      obtain ⟨y, ys, hy⟩ := List.exists_cons_of_ne_nil (List.splitOn_ne_nil slash r)
      rw [hx, hy] at hcut
      have hxs : xs = [] := by
        have := congrArg List.length hcut
        simp at this
        exact List.length_eq_zero_iff.mp (by omega)
      have hpx : List.intercalate [slash] (p.splitOn slash) = p := List.intercalate_splitOn slash
      rw [hx, hxs, List.intercalate_singleton] at hpx
      refine ⟨⟨cstr "bin/", 53, [], fun _ => 0⟩, List.mem_cons_self, ?_, ?_⟩
      · unfold TarEntry.isDir
        decide +kernel
      · rw [hbin, ← hpx]
        exact (List.cons.inj hcut).1

/-- Repeated and trailing slashes are skipped. -/
theorem findNodeByPath_exact_disk : ∃ v,
    tarInit 3 0x10000 4096 (diskMachine (encodeTar diskEntries))
      = .ok (v, diskMachine (encodeTar diskEntries)) ∧
    findNodeByPath v (cstr "//bin//sh/") = some (.tar 1) := by
  have harch : Archived (diskMachine (encodeTar diskEntries)) 0x10000 4096 diskEntries :=
    diskMachine_archived (by decide +kernel)
  have hfuel : diskEntries.length < 3 := by decide
  obtain ⟨v, hinit, h⟩ := findNodeByPath_exact harch diskEntries_valid (by decide) hfuel
    diskEntries_wellNamed
  exact ⟨v, hinit, ((h (cstr "//bin//sh/") (by decide +kernel)).2.1 1 _ rfl (by decide +kernel)).1⟩

end MyOS
