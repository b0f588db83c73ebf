import MyOS.Vfs.TarInit

/-!
# USTAR archives and what `tar_init` makes of them

The encoder: an entry is a 512-byte header, with the name padded by NULs and
the size as eleven octal digits and a NUL, followed by the contents padded to
a multiple of 512 bytes (`encodeEntry`). An archive is the entries in order,
ended by a zero block or by the end of the memory given to `tar_init`.

`tarInit_ustar`: for every archive, at every address, the table has one node
for each entry, in order, with the entry's name, length and kind, and reading
the node gives the contents.

The induction is over the entries still to decode. At the head of the loop
`ptr` is the address of the next header, so the step lemma is what one header
and its contents do to `ptr` (`nextHeader_entry`), and the digits are read
back by Horner's rule with `n / 8 ^ len` in the accumulator.
-/

namespace MyOS

open Lib Lib.Mem Lib.Paging

/-! ## The encoder -/

/-- An entry of an archive. `other` gives the header bytes outside the name,
size and typeflag fields. -/
structure TarEntry where
  name : List UInt8
  typeflag : UInt8
  contents : List UInt8
  other : Nat → UInt8

/-- The names a header can hold. -/
structure TarEntry.Valid (e : TarEntry) : Prop where
  name_pos : 0 < e.name.length
  name_le : e.name.length ≤ 99
  no_nul : 0 ∉ e.name

/-- Digit `i` of the eleven octal digits of `n`, the most significant first. -/
def octalDigit (n i : Nat) : UInt8 := UInt8.ofNat (48 + n / 8 ^ (10 - i) % 8)

def headerByte (e : TarEntry) (i : Nat) : UInt8 :=
  if i < 100 then e.name.getD i 0
  else if 124 ≤ i ∧ i < 135 then octalDigit e.contents.length (i - 124)
  else if i = 135 then 0
  else if i = 156 then e.typeflag
  else e.other i

def encodeHeader (e : TarEntry) : List UInt8 := (List.range 512).map (headerByte e)

/-- `n` rounded up to a multiple of 512. -/
def padded (n : Nat) : Nat := (n + 511) / 512 * 512

def encodeEntry (e : TarEntry) : List UInt8 :=
  encodeHeader e ++ (e.contents ++ List.replicate (padded e.contents.length - e.contents.length) 0)

def encodeTar (es : List TarEntry) : List UInt8 := es.flatMap encodeEntry

theorem encodeHeader_length (e : TarEntry) : (encodeHeader e).length = 512 := by
  simp [encodeHeader]

theorem encodeEntry_length (e : TarEntry) :
    (encodeEntry e).length = 512 + padded e.contents.length := by
  have hle : e.contents.length ≤ padded e.contents.length := by
    unfold padded
    omega
  unfold encodeEntry
  rw [List.length_append, List.length_append, List.length_replicate, encodeHeader_length]
  omega

/-! ## Bytes in memory -/

/-- The kernel reads `b` at the virtual address `a`, without a fault. -/
def Reads (k : Machine) (a : Nat) (b : UInt8) : Prop :=
  ∃ p, translate k.mem k.cr3 a = some p ∧ k.mem p = b

/-- The kernel reads `bs` from `a` on. -/
def ReadsList (k : Machine) (a : Nat) (bs : List UInt8) : Prop :=
  ∀ i b, bs[i]? = some b → Reads k (a + i) b

theorem Reads.vread {k : Machine} {a : Nat} {b : UInt8} (h : Reads k a b) :
    MyOS.vread a k = .ok (b, k) := by
  obtain ⟨p, htr, rfl⟩ := h
  exact vread_mapped htr

theorem ReadsList.left {k : Machine} {a : Nat} {bs cs : List UInt8} (h : ReadsList k a (bs ++ cs)) :
    ReadsList k a bs := by
  intro i b hb
  obtain ⟨hi, -⟩ := List.getElem?_eq_some_iff.mp hb
  exact h i b (by rw [List.getElem?_append_left hi, hb])

theorem ReadsList.right {k : Machine} {a : Nat} {bs cs : List UInt8} (h : ReadsList k a (bs ++ cs)) :
    ReadsList k (a + bs.length) cs := by
  intro i b hb
  rw [Nat.add_assoc]
  refine h (bs.length + i) b ?_
  rw [List.getElem?_append_right (by omega), Nat.add_sub_cancel_left, hb]

theorem ReadsList.tail {k : Machine} {a : Nat} {c : UInt8} {cs : List UInt8}
    (h : ReadsList k a (c :: cs)) : ReadsList k (a + 1) cs := by
  have hcut : ReadsList k a ([c] ++ cs) := h
  exact hcut.right

/-- The physical bytes behind a list that is read. -/
theorem ReadsList.phys {k : Machine} {a : Nat} {bs : List UInt8} (h : ReadsList k a bs)
    (hlt : a + bs.length < 2 ^ 32) :
    ∃ s : Nat → Nat, ∀ i < bs.length, translate k.mem k.cr3 ((a + i) % 2 ^ 32) = some (s i) ∧
      bs[i]? = some (k.mem (s i)) := by
  have hex : ∀ i, ∃ p, i < bs.length → translate k.mem k.cr3 ((a + i) % 2 ^ 32) = some p ∧
      bs[i]? = some (k.mem p) := by
    intro i
    by_cases hi : i < bs.length
    · obtain ⟨p, htr, hb⟩ := h i bs[i] (List.getElem?_eq_getElem hi)
      refine ⟨p, fun _ => ⟨?_, ?_⟩⟩
      · rw [Nat.mod_eq_of_lt (by omega), htr]
      · rw [List.getElem?_eq_getElem hi, hb]
    · exact ⟨0, fun h => absurd h hi⟩
  exact ⟨fun i => (hex i).choose, fun i hi => (hex i).choose_spec hi⟩

/-! ## The fields of a header -/

/-- A NUL-terminated string is read back. -/
theorem vstring_reads {k : Machine} : ∀ {s : List UInt8} {a n : Nat}, 0 ∉ s → s.length < n →
    a + s.length < 2 ^ 32 → ReadsList k a (s ++ [0]) → vstring a n k = .ok (s, k)
  | _, _, 0, _, hn, _, _ => absurd hn (by omega)
  | [], a, n + 1, _, _, _, h => by
    have h0 : Reads k a 0 := h 0 0 rfl
    unfold vstring
    rw [h0.vread, ok_mapError, ok_bind, if_pos rfl]
  | c :: s, a, n + 1, h0, hn, hlt, h => by
    have hc : c ≠ 0 := fun hc => h0 (hc ▸ List.mem_cons_self)
    have hlen : (c :: s).length = s.length + 1 := List.length_cons
    have hread : Reads k a c := h 0 c rfl
    have ih := vstring_reads (s := s) (a := a + 1) (n := n)
      (fun hm => h0 (List.mem_cons_of_mem _ hm)) (by omega) (by omega) h.tail
    unfold vstring
    rw [hread.vread, ok_mapError, ok_bind, if_neg hc, Nat.mod_eq_of_lt (by omega), ih, ok_map]

theorem toNat_octalDigit (n i : Nat) : (octalDigit n i).toNat = 48 + n / 8 ^ (10 - i) % 8 := by
  unfold octalDigit
  rw [UInt8.toNat_ofNat']
  omega

/-- Horner's rule: the digits still to read bring `n / 8 ^ len` to `n`. -/
theorem getOctal_digits {k : Machine} {a n : Nat} (ha : a + 11 < 2 ^ 32) (hn : n < 2 ^ 32)
    (h : ∀ i < 11, Reads k (a + i) (octalDigit n i)) : ∀ {len : Nat}, len ≤ 11 →
    getOctal (a + (11 - len)) len (n / 8 ^ len) k = .ok (n, k)
  | 0, _ => by
    unfold getOctal
    rw [Nat.pow_zero, Nat.div_one]
  | len + 1, hlen => by
    have hd := toNat_octalDigit n (11 - (len + 1))
    rw [show 10 - (11 - (len + 1)) = len by omega] at hd
    have hstep : n / 8 ^ (len + 1) * 8 + n / 8 ^ len % 8 = n / 8 ^ len := by
      rw [Nat.pow_succ, ← Nat.div_div_eq_div_mul]
      omega
    have hle : n / 8 ^ len ≤ n := Nat.div_le_self _ _
    have hne : octalDigit n (11 - (len + 1)) ≠ 0 := by
      intro h0
      rw [h0] at hd
      exact absurd hd (by simp; omega)
    unfold getOctal
    rw [(h (11 - (len + 1)) (by omega)).vread, ok_bind]
    dsimp only
    rw [if_neg hne, if_pos (by omega), hd, Nat.add_sub_cancel_left, hstep,
      Nat.mod_eq_of_lt (by omega), Nat.mod_eq_of_lt (by omega),
      show a + (11 - (len + 1)) + 1 = a + (11 - len) by omega]
    exact getOctal_digits ha hn h (by omega)

/-- The size field, from its first digit on. -/
theorem getOctal_size {k : Machine} {a n : Nat} (ha : a + 11 < 2 ^ 32) (hn : n < 2 ^ 32)
    (h : ∀ i < 11, Reads k (a + i) (octalDigit n i)) : getOctal a 11 0 k = .ok (n, k) := by
  have h11 := getOctal_digits ha hn h (Nat.le_refl 11)
  rw [Nat.div_eq_of_lt (by omega)] at h11
  exact h11

theorem nextHeader_entry {ptr n : Nat} (h : ptr + 512 + padded n < 2 ^ 32) :
    nextHeader ptr n = ptr + (512 + padded n) := by
  have hpad : n + 511 < 2 ^ 32 := by
    unfold padded at h
    omega
  have hmask : (0xFFFFFE00 : Nat) = (2 ^ (32 - 9) - 1) <<< 9 := by decide
  unfold nextHeader
  rw [Nat.mod_eq_of_lt hpad, hmask, and_high_mask (by omega) hpad, show (2 : Nat) ^ 9 = 512 from rfl]
  have hp : padded n = (n + 511) / 512 * 512 := rfl
  rw [← hp, Nat.mod_eq_of_lt h]
  omega

theorem reads_headerByte {k : Machine} {ptr : Nat} {e : TarEntry}
    (h : ReadsList k ptr (encodeHeader e)) {i : Nat} (hi : i < 512) :
    Reads k (ptr + i) (headerByte e i) :=
  h i _ (by simp [encodeHeader, hi])

/-- The name and the NUL after it. -/
theorem readsList_name {k : Machine} {ptr : Nat} {e : TarEntry} (hv : e.Valid)
    (h : ReadsList k ptr (encodeHeader e)) : ReadsList k ptr (e.name ++ [0]) := by
  intro i b hb
  have hle := hv.name_le
  obtain ⟨hi, -⟩ := List.getElem?_eq_some_iff.mp hb
  rw [List.length_append, List.length_singleton] at hi
  have hbyte := reads_headerByte h (i := i) (by omega)
  have heq : headerByte e i = b := by
    unfold headerByte
    rw [if_pos (by omega), List.getD_eq_getElem?_getD]
    by_cases hlt : i < e.name.length
    · rw [List.getElem?_append_left hlt] at hb
      rw [hb, Option.getD_some]
    · rw [List.getElem?_append_right (by omega), show i - e.name.length = 0 by omega] at hb
      rw [List.getElem?_eq_none (by omega), Option.getD_none]
      exact Option.some.inj hb
  rwa [heq] at hbyte

theorem stripDot_length_le (raw : List UInt8) : (stripDot raw).length ≤ raw.length := by
  unfold stripDot
  split
  · rw [List.length_drop]
    omega
  · exact Nat.le_refl _

theorem registerNode_entry {k : Machine} {ptr n : Nat} {e : TarEntry} (hv : e.Valid)
    (hlt : ptr + 512 < 2 ^ 32) (h : ReadsList k ptr (encodeHeader e)) :
    registerNode ptr n k = .ok (tarNode e.name e.typeflag n ptr, k) := by
  have hle := hv.name_le
  have hstrip : ¬128 ≤ (stripDot e.name).length := by
    have := stripDot_length_le e.name
    omega
  have htype : Reads k (ptr + 156) e.typeflag := reads_headerByte h (i := 156) (by omega)
  unfold registerNode
  rw [vstring_reads hv.no_nul (by omega) (by omega) (readsList_name hv h), ok_bind,
    if_neg hstrip, Nat.mod_eq_of_lt (by omega), htype.vread, ok_mapError, ok_map]

/-- The size the header gives. -/
theorem getOctal_entry {k : Machine} {ptr : Nat} {e : TarEntry} (hlt : ptr + 512 < 2 ^ 32)
    (hsize : e.contents.length < 2 ^ 32) (h : ReadsList k ptr (encodeHeader e)) :
    getOctal ((ptr + 124) % 2 ^ 32) 11 0 k = .ok (e.contents.length, k) := by
  rw [Nat.mod_eq_of_lt (by omega)]
  refine getOctal_size (by omega) hsize fun i hi => ?_
  have hbyte := reads_headerByte h (i := 124 + i) (by omega)
  have heq : headerByte e (124 + i) = octalDigit e.contents.length i := by
    unfold headerByte
    rw [if_neg (by omega), if_pos (by omega), Nat.add_sub_cancel_left]
  rwa [heq, ← Nat.add_assoc] at hbyte

/-! ## The run over an archive -/

/-- The nodes of the entries laid out from `ptr` on. -/
def nodesFrom : Nat → List TarEntry → List FsNode
  | _, [] => []
  | ptr, e :: es =>
    tarNode e.name e.typeflag e.contents.length ptr ::
      nodesFrom (ptr + (encodeEntry e).length) es

/-- The loop over the entries from `ptr` to the end of the archive. -/
theorem tarLoop_entries {k : Machine} {limit : Nat} (hlim : limit < 2 ^ 32) (es : List TarEntry) :
    ∀ {fuel ptr : Nat} {nodes : List FsNode}, (∀ e ∈ es, e.Valid) →
    nodes.length + es.length ≤ 128 → es.length < fuel → ptr + (encodeTar es).length ≤ limit →
    ReadsList k ptr (encodeTar es) →
    (ptr + (encodeTar es).length = limit ∨ Reads k (ptr + (encodeTar es).length) 0) →
    tarLoop limit fuel ptr nodes k = .ok (nodes ++ nodesFrom ptr es, k) := by
  induction es with
  | nil =>
    intro fuel ptr nodes _ _ hfuel _ _ hend
    obtain ⟨fuel, rfl⟩ : ∃ f, fuel = f + 1 := ⟨fuel - 1, by omega⟩
    have hlen : ptr + (encodeTar []).length = ptr := rfl
    rw [hlen] at hend
    unfold tarLoop nodesFrom
    rw [List.append_nil]
    by_cases hlt : ptr < limit
    · -- the zero block
      rcases hend with hend | hz
      · exact absurd hend (by omega)
      · rw [if_pos hlt, hz.vread, ok_mapError, ok_bind, if_pos rfl]
    · rw [if_neg hlt]
  | cons e es ih =>
    intro fuel ptr nodes hv hcount hfuel hle hbytes hend
    obtain ⟨fuel, rfl⟩ : ∃ f, fuel = f + 1 := ⟨fuel - 1, by omega⟩
    have hcons : encodeTar (e :: es) = encodeEntry e ++ encodeTar es := rfl
    rw [hcons] at hbytes
    rw [hcons, List.length_append] at hle hend
    rw [List.length_cons] at hcount hfuel
    have hentry := encodeEntry_length e
    have hpad : e.contents.length ≤ padded e.contents.length := by
      unfold padded
      omega
    have hheader : ReadsList k ptr (encodeHeader e) := hbytes.left.left
    have hve := hv e List.mem_cons_self
    -- the name is not empty, so its first byte is not NUL
    obtain ⟨c, cs, hname⟩ := List.exists_cons_of_length_pos hve.name_pos
    have hfirst : Reads k ptr c := readsList_name hve hheader 0 c (by rw [hname]; rfl)
    have hc : c ≠ 0 := fun h => hve.no_nul (by rw [hname, h]; exact List.mem_cons_self)
    have hnext : nextHeader ptr e.contents.length = ptr + (512 + padded e.contents.length) :=
      nextHeader_entry (by omega)
    have ih := @ih fuel (ptr + (encodeEntry e).length)
      (nodes ++ [tarNode e.name e.typeflag e.contents.length ptr])
      (fun e' he' => hv e' (List.mem_cons_of_mem _ he'))
      (by rw [List.length_append, List.length_singleton]; omega) (by omega) (by omega) hbytes.right
      (by rw [← Nat.add_assoc] at hend; exact hend)
    unfold tarLoop nodesFrom
    rw [if_pos (by omega), hfirst.vread, ok_mapError, ok_bind, if_neg hc,
      getOctal_entry (by omega) (by omega) hheader, ok_mapError, ok_bind,
      if_pos (by unfold maxTarFiles; omega), registerNode_entry hve (by omega) hheader, ok_bind,
      hnext, ← hentry, ih, List.append_assoc]
    rfl

/-! ## Decoding undoes encoding -/

/-- The archive of `es` is laid out at `address`, and ended by a zero block or
by the end of the `size` bytes. -/
structure Archived (k : Machine) (address size : Nat) (es : List TarEntry) : Prop where
  fits : address + size < 2 ^ 32
  bytes : ReadsList k address (encodeTar es)
  ended : size = (encodeTar es).length ∨
    ((encodeTar es).length + 512 ≤ size ∧
      ReadsList k (address + (encodeTar es).length) (List.replicate 512 0))

/-- Node `n` is the entry `e`: the name less a leading `./`, the length, the
kind, and the contents as `read_fs` gives them, in a variable of the kernel
or at any mapped buffer apart from the archive and the page tables. -/
structure Decoded (k : Machine) (e : TarEntry) (n : FsNode) : Prop where
  name : n.name = stripDot e.name
  length : n.length = e.contents.length
  flags : n.flags = if e.typeflag = 53 ∨ e.name.getLast? = some slash then fsDirectory else fsFile
  read : ∃ buf, readFsLocal n 0 n.length k = .ok (n.length, buf, k) ∧
    ∀ i b, e.contents[i]? = some b → buf i = b
  copy : ∀ (buffer : Nat) (d : Nat → Nat), k.cr3 % 4096 = 0 →
    (∀ i < n.length, translate k.mem k.cr3 ((buffer + i) % 2 ^ 32) = some (d i)) →
    (∀ i < n.length, ¬Frames k.mem k.cr3 (d i / 4096)) →
    (∀ i < n.length, ∀ j < n.length, d i = d j → i = j) →
    (∀ i < n.length, ∀ j < n.length, translate k.mem k.cr3 (n.impl + j) ≠ some (d i)) →
    ∃ m, readFs n 0 n.length buffer k = .ok (n.length, { k with mem := m }) ∧
      ∀ i b, e.contents[i]? = some b → m (d i) = b

theorem tarNode_decoded {k : Machine} {ptr : Nat} {e : TarEntry}
    (hlt : ptr + 512 + e.contents.length < 2 ^ 32) (h : ReadsList k (ptr + 512) e.contents) :
    Decoded k e (tarNode e.name e.typeflag e.contents.length ptr) := by
  obtain ⟨s, hs⟩ := h.phys hlt
  have himpl : (tarNode e.name e.typeflag e.contents.length ptr).impl = ptr + 512 :=
    Nat.mod_eq_of_lt (by omega)
  have hread : (tarNode e.name e.typeflag e.contents.length ptr).read = true := rfl
  have hmod : (ptr + 512 + 0) % 2 ^ 32 = ptr + 512 := Nat.mod_eq_of_lt (by omega)
  have hsize : tarReadSize (tarNode e.name e.typeflag e.contents.length ptr) 0 e.contents.length
      = e.contents.length := tarReadSize_eq (Nat.le_of_eq (Nat.zero_add _)) (by
    show e.contents.length < 2 ^ 32
    omega)
  refine ⟨rfl, rfl, ?_, ?_, ?_⟩
  · show (if isDirEntry e.name e.typeflag = true then fsDirectory else fsFile) = _
    unfold isDirEntry
    simp only [decide_eq_true_eq]
  · obtain ⟨buf, hrun, hbuf, -⟩ := vcopyOut_spec fun i hi => (hs i hi).1
    refine ⟨buf, ?_, fun i b hb => ?_⟩
    · show readFsLocal _ 0 e.contents.length k = .ok (e.contents.length, buf, k)
      unfold readFsLocal
      rw [if_pos hread, himpl, hmod, hsize, hrun, ok_map]
    · obtain ⟨hi, -⟩ := List.getElem?_eq_some_iff.mp hb
      rw [hbuf i hi]
      exact Option.some.inj ((hs i hi).2.symm.trans hb)
  · intro buffer d hdir hdest hframes hinj hne
    have hsrc := fun i hi => (hs i hi).1
    obtain ⟨m, hrun, hm, -⟩ := vmemcpy_spec hdir hdest hsrc
      hframes hinj fun i hi j hj heq => by
        have hj' := (hs j hj).1
        have hlen : (tarNode e.name e.typeflag e.contents.length ptr).length = e.contents.length := rfl
        rw [Nat.mod_eq_of_lt (by omega), ← himpl] at hj'
        exact hne i hi j hj (by rw [hj', heq])
    refine ⟨m, ?_, fun i b hb => ?_⟩
    · show readFs _ 0 e.contents.length buffer k = .ok (e.contents.length, { k with mem := m })
      unfold readFs
      rw [if_pos hread, himpl, hmod, hsize]
      have hrun' : vmemcpy buffer (ptr + 512) e.contents.length k = .ok { k with mem := m } := hrun
      rw [hrun', ok_map]
    · obtain ⟨hi, -⟩ := List.getElem?_eq_some_iff.mp hb
      rw [hm i hi]
      exact Option.some.inj ((hs i hi).2.symm.trans hb)

/-- The nodes match the entries one by one. -/
theorem nodesFrom_decoded {k : Machine} (es : List TarEntry) :
    ∀ {ptr : Nat}, ptr + (encodeTar es).length < 2 ^ 32 → ReadsList k ptr (encodeTar es) →
    List.Forall₂ (Decoded k) es (nodesFrom ptr es) := by
  induction es with
  | nil =>
    intro ptr _ _
    exact List.Forall₂.nil
  | cons e es ih =>
    intro ptr hlt h
    have hcons : encodeTar (e :: es) = encodeEntry e ++ encodeTar es := rfl
    rw [hcons] at h
    rw [hcons, List.length_append] at hlt
    have hentry := encodeEntry_length e
    have hpad : e.contents.length ≤ padded e.contents.length := by
      unfold padded
      omega
    have hcontents : ReadsList k (ptr + 512) e.contents := by
      have hr : ReadsList k (ptr + (encodeHeader e).length) _ := h.left.right
      rw [encodeHeader_length] at hr
      exact hr.left
    exact List.Forall₂.cons (tarNode_decoded (by omega) hcontents) (ih (by omega) h.right)

theorem tarInit_nodes {k : Machine} {address size fuel : Nat} {es : List TarEntry}
    (harch : Archived k address size es) (hv : ∀ e ∈ es, e.Valid) (hcount : es.length ≤ 128)
    (hfuel : es.length < fuel) :
    tarInit fuel address size k = .ok (⟨nodesFrom address es, tarRootNode, some .root⟩, k) := by
  have hfits := harch.fits
  have hend : address + (encodeTar es).length = address + size ∨
      Reads k (address + (encodeTar es).length) 0 := by
    rcases harch.ended with hend | ⟨-, hzero⟩
    · exact Or.inl (by rw [hend])
    · exact Or.inr (hzero 0 0 rfl)
  have hle : (encodeTar es).length ≤ size := by
    rcases harch.ended with hend | ⟨hend, -⟩ <;> omega
  unfold tarInit
  rw [Nat.mod_eq_of_lt hfits, tarLoop_entries hfits es hv (by simpa using hcount) hfuel (by omega)
    harch.bytes hend, ok_map, List.nil_append]

/-- **TAR decoding undoes USTAR encoding.** For every archive of at most 128
entries, at every address, `tar_init` returns and registers one node for each
entry, in order, with the entry's name, length, kind and contents. -/
theorem tarInit_ustar {k : Machine} {address size fuel : Nat} {es : List TarEntry}
    (harch : Archived k address size es) (hv : ∀ e ∈ es, e.Valid) (hcount : es.length ≤ 128)
    (hfuel : es.length < fuel) :
    ∃ v, tarInit fuel address size k = .ok (v, k) ∧ List.Forall₂ (Decoded k) es v.tarNodes := by
  have hfits := harch.fits
  have hle : (encodeTar es).length ≤ size := by
    rcases harch.ended with hend | ⟨hend, -⟩ <;> omega
  exact ⟨_, tarInit_nodes harch hv hcount hfuel, nodesFrom_decoded es (by omega) harch.bytes⟩

/-- One page at `0x10000` mapped to itself, by the directory in block 255 and
the table in block 254. -/
def diskPaging : Mem := Mem.wr32 (Mem.wr32 (fun _ => 0) 0xFF000 0xFE007) 0xFE040 0x10007

/-- A machine with the bytes `bs`, and zeros after them, in that page. -/
def diskMachine (bs : List UInt8) : Machine :=
  demoMachine 300 demo_total fun x =>
    if 0x10000 ≤ x ∧ x < 0x11000 then bs.getD (x - 0x10000) 0 else diskPaging x

theorem diskMachine_paging (bs : List UInt8) {a : Nat} (ha : 0x11000 ≤ a) :
    rd32 (diskMachine bs).mem a = rd32 diskPaging a :=
  rd32_congr fun j _ => if_neg (by omega)

theorem diskMachine_byte (bs : List UInt8) {i : Nat} (hi : i < 4096) :
    (diskMachine bs).mem (0x10000 + i) = bs.getD i 0 := by
  have h : (diskMachine bs).mem (0x10000 + i) = bs.getD (0x10000 + i - 0x10000) 0 :=
    if_pos (by omega)
  rwa [Nat.add_sub_cancel_left] at h

theorem diskMachine_lookup (bs : List UInt8) :
    lookup (diskMachine bs).mem 0xFF000 0x10000 = 16 * 4096 + 7 := by
  have hpde : pde (diskMachine bs).mem 0xFF000 (pdIndex 0x10000) = 0xFE007 := by
    unfold pde
    rw [diskMachine_paging bs (by decide)]
    decide +kernel
  rw [lookup_present (by rw [hpde]; decide), hpde, diskMachine_paging bs (by decide)]
  decide +kernel

theorem diskMachine_reads (bs : List UInt8) {i : Nat} (hi : i < 4096) :
    Reads (diskMachine bs) (0x10000 + i) (bs.getD i 0) := by
  have hpage : lookup (diskMachine bs).mem 0xFF000 (0x10000 + i) = 16 * 4096 + 7 := by
    rw [lookup_page (w := 0x10000) (by omega), diskMachine_lookup]
  have htr := translate_of_lookup hpage
  rw [show 16 * 4096 + (0x10000 + i) % 4096 = 0x10000 + i by omega] at htr
  exact ⟨0x10000 + i, htr, diskMachine_byte bs hi⟩

/-- An archive with room for a zero block in the page. -/
theorem diskMachine_archived {es : List TarEntry} (h : (encodeTar es).length + 512 ≤ 4096) :
    Archived (diskMachine (encodeTar es)) 0x10000 4096 es := by
  refine ⟨by decide, fun i b hb => ?_, Or.inr ⟨h, fun i b hb => ?_⟩⟩
  · obtain ⟨hi, -⟩ := List.getElem?_eq_some_iff.mp hb
    have hr := diskMachine_reads (encodeTar es) (i := i) (by omega)
    rwa [List.getD_eq_getElem?_getD, hb, Option.getD_some] at hr
  · obtain ⟨hi, hb⟩ := List.getElem?_eq_some_iff.mp hb
    rw [List.length_replicate] at hi
    rw [List.getElem_replicate] at hb
    have hr := diskMachine_reads (encodeTar es) (i := (encodeTar es).length + i) (by omega)
    rw [List.getD_eq_getElem?_getD, List.getElem?_eq_none (by omega), Option.getD_none] at hr
    rwa [Nat.add_assoc, ← hb]

/-- A directory, and a file in it under a name with a leading `./`. -/
def diskEntries : List TarEntry :=
  [⟨cstr "bin/", 53, [], fun _ => 0⟩, ⟨cstr "./bin/sh", 48, [1, 2, 3], fun _ => 0⟩]

theorem diskEntries_valid : ∀ e ∈ diskEntries, e.Valid := by
  intro e he
  rcases List.mem_cons.mp he with rfl | he
  · exact ⟨by decide +kernel, by decide +kernel, by decide +kernel⟩
  · rw [List.mem_singleton.mp he]
    exact ⟨by decide +kernel, by decide +kernel, by decide +kernel⟩

theorem tarInit_ustar_disk : ∃ v,
    tarInit 3 0x10000 4096 (diskMachine (encodeTar diskEntries))
      = .ok (v, diskMachine (encodeTar diskEntries)) ∧
    List.Forall₂ (Decoded (diskMachine (encodeTar diskEntries))) diskEntries v.tarNodes :=
  tarInit_ustar (diskMachine_archived (by decide +kernel)) diskEntries_valid (by decide) (by decide)

end MyOS
