import MyOS.Lib.Descriptor
import MyOS.Trap.Stubs

/-!
# Descriptor tables: `gdt_init` and `idt_init`

The tables as the kernel writes them, byte by byte, and as the CPU reads them
back through GDTR, IDTR and TR. The trap model takes its gates, the privilege
levels of the segments and the stack for Ring 0 for granted; here they come out
of memory.

`TablesInv` is what the two functions leave, whatever was there before and
wherever the linker put the tables, and nothing that runs later takes it away:
`tss_set_kernel_stack` changes one word of the TSS and other code writes
elsewhere. So in every later state the CPU finds the gates of `idt_init` and no
others, only vector 128 open to Ring 3, flat segments with the levels the trap
model uses, and the stack that was set last (`tables_serve`).

Mirroring notes vs the source:
- Fields of the packed structs are stored at their offsets, in the order of the
  C code. `ltr` sets the busy bit in the descriptor of the TSS.
- The selectors in CS and the data segment registers after `gdt_flush` are
  `0x08` and `0x10`.
-/

namespace MyOS

open Lib Lib.Mem Lib.X86

/-- Where the linker put the tables, and the addresses of the stubs. -/
structure Statics where
  gdt : Nat
  gdtp : Nat
  tss : Nat
  tssStack : Nat
  idt : Nat
  idtp : Nat
  handlers : Nat
  label : Label → Nat
  label_lt : ∀ l, label l < 2 ^ 32
  /-- The objects do not overlap. -/
  apart : List.Pairwise (fun a b : Nat × Nat => a.1 + a.2 ≤ b.1 ∨ b.1 + b.2 ≤ a.1)
    [(gdt, 48), (gdtp, 6), (tss, 104), (idt, 2048), (idtp, 6), (handlers, 1024)]
  gdt_lt : gdt < 2 ^ 32
  tss_lt : tss < 2 ^ 32
  stack_lt : tssStack + 4096 < 2 ^ 32
  idt_lt : idt < 2 ^ 32

/-- Memory and the registers that say where the tables are. -/
structure TableState where
  mem : Mem
  gdtr : Dtr
  idtr : Dtr
  tr : Nat
  segs : Segs

/-! ## The code -/

def gdtSetEntry (gdt index base limit access gran : Nat) (m : Mem) : Mem :=
  let e := gdt + index * 8
  let m := m.wr16 (e + 2) (base &&& 0xFFFF)
  let m := m.write (e + 4) (UInt8.ofNat ((base >>> 16) &&& 0xFF))
  let m := m.write (e + 7) (UInt8.ofNat ((base >>> 24) &&& 0xFF))
  let m := m.wr16 e (limit &&& 0xFFFF)
  let m := m.write (e + 6) (UInt8.ofNat ((limit >>> 16) &&& 0x0F))
  let m := m.write (e + 6) (m (e + 6) ||| UInt8.ofNat (gran &&& 0xF0))
  m.write (e + 5) (UInt8.ofNat access)

def tssWrite (st : Statics) (index ss0 esp0 : Nat) (m : Mem) : Mem :=
  let m := gdtSetEntry st.gdt index st.tss (104 - 1) 0x89 0x00 m
  let m := m.memset st.tss 0 104
  let m := m.wr32 (st.tss + 8) ss0
  let m := m.wr32 (st.tss + 4) esp0
  m.wr16 (st.tss + 102) 104

/-- `lgdt`, and the segment registers loaded again. -/
def gdtFlush (ptr : Nat) (s : TableState) : TableState :=
  { s with gdtr := dtrAt s.mem ptr, segs := ⟨0x08, 0x10, 0x10, 0x10, 0x10, 0x10⟩ }

/-- `ltr 0x2B` -/
def tssFlush (s : TableState) : TableState :=
  let access := s.gdtr.base + 0x2B / 8 * 8 + 5
  { s with tr := 0x2B, mem := s.mem.write access (s.mem access ||| 2) }

/-- The stores of `gdt_init`. -/
def gdtTables (st : Statics) (m : Mem) : Mem :=
  let m := m.wr16 st.gdtp (48 - 1)
  let m := m.wr32 (st.gdtp + 2) st.gdt
  let m := gdtSetEntry st.gdt 0 0 0 0x00 0x00 m
  let m := gdtSetEntry st.gdt 1 0 0xFFFFFFFF 0x9A 0xCF m
  let m := gdtSetEntry st.gdt 2 0 0xFFFFFFFF 0x92 0xCF m
  let m := gdtSetEntry st.gdt 3 0 0xFFFFFFFF 0xFA 0xCF m
  let m := gdtSetEntry st.gdt 4 0 0xFFFFFFFF 0xF2 0xCF m
  tssWrite st 5 0x10 (st.tssStack + 4096) m

def gdtInit (st : Statics) (s : TableState) : TableState :=
  tssFlush (gdtFlush st.gdtp { s with mem := gdtTables st s.mem })

/-- `tss_set_kernel_stack`: `tss.esp0 = stack_top`. -/
def tssSetKernelStackBytes (st : Statics) (stackTop : Nat) (m : Mem) : Mem :=
  m.wr32 (st.tss + 4) stackTop

def idtSetGate (idt vector handler sel flags : Nat) (m : Mem) : Mem :=
  let e := idt + vector * 8
  let m := m.wr16 e (handler &&& 0xFFFF)
  let m := m.wr16 (e + 6) ((handler >>> 16) &&& 0xFFFF)
  let m := m.wr16 (e + 2) sel
  let m := m.write (e + 4) 0
  m.write (e + 5) (UInt8.ofNat flags)

/-- `0xEE` lets Ring 3 use the gate. -/
def gateAttributes (vector : Nat) : Nat := if vector = 128 then 0xEE else 0x8E

/-- The calls of `idt_set_gate`, in their order. -/
def setGates (st : Statics) (gates : List (Nat × Label)) (m : Mem) : Mem :=
  gates.foldl (fun m g => idtSetGate st.idt g.1 (st.label g.2) 0x08 (gateAttributes g.1) m) m

def idtInit (st : Statics) (s : TableState) : TableState :=
  let m := s.mem.wr16 st.idtp (2048 - 1)
  let m := m.wr32 (st.idtp + 2) st.idt
  let m := m.memset st.idt 0 2048
  let m := m.memset st.handlers 0 1024
  let m := setGates st idtGates m
  { s with mem := m, idtr := dtrAt m st.idtp }

/-! ## One entry -/

theorem and_0xFFFF (v : Nat) : v &&& 0xFFFF = v % 2 ^ 16 := Nat.and_two_pow_sub_one_eq_mod v 16

theorem and_0xFF (v : Nat) : v &&& 0xFF = v % 2 ^ 8 := Nat.and_two_pow_sub_one_eq_mod v 8

theorem and_0xF (v : Nat) : v &&& 0x0F = v % 2 ^ 4 := Nat.and_two_pow_sub_one_eq_mod v 4

/-- The descriptor `gdt_set_entry` stores: the limit is cut to 20 bits, and of
`gran` only the upper half counts. -/
def gdtDescriptor (base limit access gran : Nat) : SegmentDescriptor :=
  ⟨base, limit % 2 ^ 20, access, gran / 16⟩

/-- The byte put together from the limit's upper bits and the flags. -/
theorem granularity_eq (limit : Nat) {gran : Nat} (hg : gran < 2 ^ 8) :
    UInt8.ofNat ((limit >>> 16) &&& 0x0F) ||| UInt8.ofNat (gran &&& 0xF0)
      = UInt8.ofNat (limit % 2 ^ 20 / 2 ^ 16 + gran / 16 * 16) := by
  apply UInt8.toNat_inj.mp
  have hmask : (0xF0 : Nat) = (2 ^ (8 - 4) - 1) <<< 4 := by decide
  have hlow : limit >>> 16 % 2 ^ 4 < 2 ^ 4 := Nat.mod_lt _ (by omega)
  rw [UInt8.toNat_or, UInt8.toNat_ofNat', UInt8.toNat_ofNat', UInt8.toNat_ofNat', and_0xF, hmask,
    Paging.and_high_mask (by omega) hg, Nat.shiftRight_eq_div_pow]
  rw [Nat.shiftRight_eq_div_pow] at hlow
  have hmod : limit / 2 ^ 16 % 2 ^ 4 % 2 ^ 8 = limit / 2 ^ 16 % 2 ^ 4 := by omega
  have hhigh : gran / 2 ^ 4 * 2 ^ 4 % 2 ^ 8 = 2 ^ 4 * (gran / 2 ^ 4) := by omega
  rw [hmod, hhigh, Nat.or_comm, ← Nat.two_pow_add_eq_or_of_lt hlow]
  omega

section Entry

variable {gdt index base limit access gran : Nat} {m : Mem}

/-- The two bytes of a 16-bit store. -/
theorem wr16_apply (a v x : Nat) : m.wr16 a v x =
    if x = a + 1 then byteOf v 1 else if x = a then byteOf v 0 else m x := rfl

theorem ofNat_congr {a b : Nat} (h : a % 256 = b % 256) : UInt8.ofNat a = UInt8.ofNat b := by
  apply UInt8.toNat_inj.mp
  rw [UInt8.toNat_ofNat', UInt8.toNat_ofNat']
  exact h

theorem gdtSetEntry_bytes (hg : gran < 2 ^ 8) :
    ∀ j < 8, gdtSetEntry gdt index base limit access gran m (gdt + index * 8 + j)
      = segmentBytes (gdtDescriptor base limit access gran) j := by
  intro j hj
  unfold gdtSetEntry
  generalize gdt + index * 8 = e
  by_cases h6 : j = 6
  · subst h6
    have hgran := granularity_eq limit hg
    simp only [Mem.write, segmentBytes, gdtDescriptor]
    rw [if_neg (by omega), if_pos trivial, if_pos trivial, hgran]
  simp only [and_0xFFFF, and_0xFF, Nat.shiftRight_eq_div_pow]
  rcases j with _ | _ | _ | _ | _ | _ | _ | _ | j
  all_goals simp [Mem.write, wr16_apply, segmentBytes, gdtDescriptor, byteOf]
  all_goals first | exact ofNat_congr (by omega) | omega

/-- Nothing else changes. -/
theorem gdtSetEntry_outside {x : Nat} (hx : x < gdt + index * 8 ∨ gdt + index * 8 + 8 ≤ x) :
    gdtSetEntry gdt index base limit access gran m x = m x := by
  unfold gdtSetEntry
  simp only [Mem.write, wr16_apply]
  repeat rw [if_neg (by omega)]

theorem idtSetGate_bytes {idt vector handler sel flags : Nat} :
    ∀ j < 8, idtSetGate idt vector handler sel flags m (idt + vector * 8 + j)
      = gateBytes ⟨handler, sel, flags⟩ j := by
  intro j hj
  unfold idtSetGate
  generalize idt + vector * 8 = e
  simp only [and_0xFFFF, Nat.shiftRight_eq_div_pow]
  rcases j with _ | _ | _ | _ | _ | _ | _ | _ | j
  all_goals simp [Mem.write, wr16_apply, gateBytes, byteOf, Nat.add_assoc]
  all_goals first | exact ofNat_congr (by omega) | omega

theorem idtSetGate_outside {idt vector handler sel flags x : Nat}
    (hx : x < idt + vector * 8 ∨ idt + vector * 8 + 8 ≤ x) :
    idtSetGate idt vector handler sel flags m x = m x := by
  unfold idtSetGate
  simp only [Mem.write, wr16_apply]
  repeat rw [if_neg (by omega)]

end Entry

/-! ## The gates -/

/-- The gate `idt_init` sets for a label. -/
def gateOf (st : Statics) (v : Nat) (l : Label) : GateDescriptor :=
  ⟨st.label l, 0x08, gateAttributes v⟩

/-- What the calls leave in the slots of the table: the vectors are distinct, so
no call undoes another. -/
theorem setGates_bytes (st : Statics) : ∀ (gates : List (Nat × Label)) (m : Mem),
    (gates.map Prod.fst).Nodup → ∀ v j, j < 8 → setGates st gates m (st.idt + v * 8 + j)
      = ((gates.lookup v).map fun l => gateBytes (gateOf st v l) j).getD (m (st.idt + v * 8 + j)) := by
  intro gates
  induction gates with
  | nil =>
    intro m _ v j _
    rfl
  | cons g gates ih =>
    intro m hnodup v j hj
    obtain ⟨hnot, hrest⟩ := List.nodup_cons.mp hnodup
    show setGates st gates (idtSetGate st.idt g.1 (st.label g.2) 0x08 (gateAttributes g.1) m) _ = _
    rw [ih _ hrest v j hj]
    by_cases hv : v = g.1
    · subst hv
      have hnone : gates.lookup g.1 = none := by
        rw [List.lookup_eq_none_iff]
        intro p hp
        rw [bne_iff_ne]
        intro heq
        exact hnot (heq ▸ List.mem_map_of_mem hp)
      have hsome : (g :: gates).lookup g.1 = some g.2 := List.lookup_cons_self
      rw [hnone, hsome, Option.map_none, Option.map_some, Option.getD_none, Option.getD_some,
        idtSetGate_bytes j hj]
      rfl
    · have hskip : (g :: gates).lookup v = gates.lookup v := by
        rw [List.lookup_cons, beq_false_of_ne hv]
      rw [hskip, idtSetGate_outside (by omega)]

/-- They stay within the table. -/
theorem setGates_outside (st : Statics) {x : Nat} : ∀ (gates : List (Nat × Label)) (m : Mem),
    (∀ g ∈ gates, g.1 < 256) → x < st.idt ∨ st.idt + 2048 ≤ x → setGates st gates m x = m x := by
  intro gates
  induction gates with
  | nil =>
    intro m _ _
    rfl
  | cons g gates ih =>
    intro m hlt hx
    have hg := hlt g List.mem_cons_self
    show setGates st gates (idtSetGate st.idt g.1 (st.label g.2) 0x08 (gateAttributes g.1) m) _ = _
    rw [ih _ (fun g' hg' => hlt g' (List.mem_cons_of_mem _ hg')) hx, idtSetGate_outside (by omega)]

theorem idtGates_nodup : (idtGates.map Prod.fst).Nodup := by decide

theorem idtGates_lt : ∀ g ∈ idtGates, g.1 < 256 := by decide

/-! ## What the CPU relies on -/

/-- The descriptors of `gdt_init`. The access byte of the last one is `0x89` as
stored and `0x8B` once the CPU has made it busy. -/
def gdtEntry (st : Statics) (tssAccess : Nat) : Nat → SegmentDescriptor
  | 1 => gdtDescriptor 0 0xFFFFFFFF 0x9A 0xCF
  | 2 => gdtDescriptor 0 0xFFFFFFFF 0x92 0xCF
  | 3 => gdtDescriptor 0 0xFFFFFFFF 0xFA 0xCF
  | 4 => gdtDescriptor 0 0xFFFFFFFF 0xF2 0xCF
  | 5 => gdtDescriptor st.tss 103 tssAccess 0x00
  | _ => gdtDescriptor 0 0 0x00 0x00

/-- The bytes of the GDT, and the stack in the TSS. -/
structure GdtInv (st : Statics) (esp0 : Nat) (m : Mem) : Prop where
  gdt : ∀ i < 6, ∀ j < 8, m (st.gdt + i * 8 + j) = segmentBytes (gdtEntry st 0x8B i) j
  ss0 : rd32 m (st.tss + 8) = 0x10
  esp0 : rd32 m (st.tss + 4) = esp0

/-- All tables, and the registers. -/
structure TablesInv (st : Statics) (esp0 : Nat) (s : TableState) : Prop extends
    GdtInv st esp0 s.mem where
  gdtr : s.gdtr = ⟨47, st.gdt⟩
  idtr : s.idtr = ⟨2047, st.idt⟩
  tr : s.tr = 0x2B
  idt : ∀ v < 256, ∀ j < 8, s.mem (st.idt + v * 8 + j)
    = ((idtGates.lookup v).map fun l => gateBytes (gateOf st v l) j).getD 0

section Init

variable {st : Statics} {m m' : Mem}

theorem wr16_of_outside {a v x : Nat} (h : x < a ∨ a + 2 ≤ x) : m.wr16 a v x = m x := by
  rw [wr16_apply, if_neg (by omega), if_neg (by omega)]

theorem rd16_wr16 (m : Mem) {a v : Nat} (hv : v < 2 ^ 16) : rd16 (m.wr16 a v) a = v := by
  refine rd16_of_bytes hv ?_ ?_
  · rw [wr16_apply, if_neg (by omega), if_pos rfl]
  · rw [wr16_apply, if_pos rfl]

theorem Statics.gdt_tss (st : Statics) : st.gdt + 48 ≤ st.tss ∨ st.tss + 104 ≤ st.gdt :=
  List.rel_of_pairwise_cons st.apart (by simp : (st.tss, 104) ∈ _)

theorem Statics.gdt_gdtp (st : Statics) : st.gdt + 48 ≤ st.gdtp ∨ st.gdtp + 6 ≤ st.gdt :=
  List.rel_of_pairwise_cons st.apart (by simp : (st.gdtp, 6) ∈ _)

theorem Statics.gdt_idt (st : Statics) : st.gdt + 48 ≤ st.idt ∨ st.idt + 2048 ≤ st.gdt :=
  List.rel_of_pairwise_cons st.apart (by simp : (st.idt, 2048) ∈ _)

theorem Statics.gdt_idtp (st : Statics) : st.gdt + 48 ≤ st.idtp ∨ st.idtp + 6 ≤ st.gdt :=
  List.rel_of_pairwise_cons st.apart (by simp : (st.idtp, 6) ∈ _)

theorem Statics.gdt_handlers (st : Statics) :
    st.gdt + 48 ≤ st.handlers ∨ st.handlers + 1024 ≤ st.gdt :=
  List.rel_of_pairwise_cons st.apart (by simp : (st.handlers, 1024) ∈ _)

theorem Statics.gdtp_tss (st : Statics) : st.gdtp + 6 ≤ st.tss ∨ st.tss + 104 ≤ st.gdtp :=
  List.rel_of_pairwise_cons st.apart.of_cons (by simp : (st.tss, 104) ∈ _)

theorem Statics.tss_idt (st : Statics) : st.tss + 104 ≤ st.idt ∨ st.idt + 2048 ≤ st.tss :=
  List.rel_of_pairwise_cons st.apart.of_cons.of_cons (by simp : (st.idt, 2048) ∈ _)

theorem Statics.tss_idtp (st : Statics) : st.tss + 104 ≤ st.idtp ∨ st.idtp + 6 ≤ st.tss :=
  List.rel_of_pairwise_cons st.apart.of_cons.of_cons (by simp : (st.idtp, 6) ∈ _)

theorem Statics.tss_handlers (st : Statics) :
    st.tss + 104 ≤ st.handlers ∨ st.handlers + 1024 ≤ st.tss :=
  List.rel_of_pairwise_cons st.apart.of_cons.of_cons (by simp : (st.handlers, 1024) ∈ _)

theorem Statics.idt_idtp (st : Statics) : st.idt + 2048 ≤ st.idtp ∨ st.idtp + 6 ≤ st.idt :=
  List.rel_of_pairwise_cons st.apart.of_cons.of_cons.of_cons (by simp : (st.idtp, 6) ∈ _)

theorem Statics.idt_handlers (st : Statics) :
    st.idt + 2048 ≤ st.handlers ∨ st.handlers + 1024 ≤ st.idt :=
  List.rel_of_pairwise_cons st.apart.of_cons.of_cons.of_cons (by simp : (st.handlers, 1024) ∈ _)

theorem Statics.idtp_handlers (st : Statics) :
    st.idtp + 6 ≤ st.handlers ∨ st.handlers + 1024 ≤ st.idtp :=
  List.rel_of_pairwise_cons st.apart.of_cons.of_cons.of_cons.of_cons
    (by simp : (st.handlers, 1024) ∈ _)

/-- The table of the GDT alone. -/
theorem GdtInv.congr {esp0 : Nat} (h : GdtInv st esp0 m)
    (hgdt : ∀ x, st.gdt ≤ x → x < st.gdt + 48 → m' x = m x)
    (htss : ∀ x, st.tss ≤ x → x < st.tss + 104 → m' x = m x) : GdtInv st esp0 m' := by
  refine ⟨fun i hi j hj => ?_, ?_, ?_⟩
  · rw [hgdt _ (by omega) (by omega)]
    exact h.gdt i hi j hj
  · rw [rd32_congr fun k hk => htss _ (by omega) (by omega)]
    exact h.ss0
  · rw [rd32_congr fun k hk => htss _ (by omega) (by omega)]
    exact h.esp0

/-- `tss_write` off the TSS. -/
theorem tssWrite_outside {ss0 esp0 x : Nat} (hx : x < st.tss ∨ st.tss + 104 ≤ x) :
    tssWrite st 5 ss0 esp0 m x = gdtSetEntry st.gdt 5 st.tss 103 0x89 0x00 m x := by
  unfold tssWrite
  rw [wr16_of_outside (by omega), wr32_of_outside _ _ (by omega), wr32_of_outside _ _ (by omega),
    memset_of_outside _ _ hx]

/-- The words of the TSS that the CPU uses. -/
theorem tssWrite_stack (st : Statics) (m : Mem) {ss0 esp0 : Nat} (hss : ss0 < 2 ^ 32) (hesp : esp0 < 2 ^ 32) :
    rd32 (tssWrite st 5 ss0 esp0 m) (st.tss + 8) = ss0 ∧
    rd32 (tssWrite st 5 ss0 esp0 m) (st.tss + 4) = esp0 := by
  unfold tssWrite
  refine ⟨?_, ?_⟩
  · rw [rd32_congr fun k hk => wr16_of_outside (by omega),
      rd32_wr32_ne _ _ (by omega), rd32_wr32_self _ _ hss]
  · rw [rd32_congr fun k hk => wr16_of_outside (by omega), rd32_wr32_self _ _ hesp]

theorem gdtTables_bytes (st : Statics) (m : Mem) : ∀ i < 6, ∀ j < 8,
    gdtTables st m (st.gdt + i * 8 + j) = segmentBytes (gdtEntry st 0x89 i) j := by
  intro i hi j hj
  have htss := st.gdt_tss
  unfold gdtTables
  rw [tssWrite_outside (by omega)]
  rcases i with _ | _ | _ | _ | _ | _ | i
  · rw [gdtSetEntry_outside (by omega), gdtSetEntry_outside (by omega),
      gdtSetEntry_outside (by omega), gdtSetEntry_outside (by omega),
      gdtSetEntry_outside (by omega), gdtSetEntry_bytes (by omega) j hj]
    rfl
  · rw [gdtSetEntry_outside (by omega), gdtSetEntry_outside (by omega),
      gdtSetEntry_outside (by omega), gdtSetEntry_outside (by omega),
      gdtSetEntry_bytes (by omega) j hj]
    rfl
  · rw [gdtSetEntry_outside (by omega), gdtSetEntry_outside (by omega),
      gdtSetEntry_outside (by omega), gdtSetEntry_bytes (by omega) j hj]
    rfl
  · rw [gdtSetEntry_outside (by omega), gdtSetEntry_outside (by omega),
      gdtSetEntry_bytes (by omega) j hj]
    rfl
  · rw [gdtSetEntry_outside (by omega), gdtSetEntry_bytes (by omega) j hj]
    rfl
  · rw [gdtSetEntry_bytes (by omega) j hj]
    rfl
  · omega

/-- The stores to the table and the TSS leave the rest alone. -/
theorem gdtTables_outside {x : Nat} (hgdt : x < st.gdt ∨ st.gdt + 48 ≤ x)
    (htss : x < st.tss ∨ st.tss + 104 ≤ x) :
    gdtTables st m x = ((m.wr16 st.gdtp (48 - 1)).wr32 (st.gdtp + 2) st.gdt) x := by
  unfold gdtTables
  rw [tssWrite_outside htss, gdtSetEntry_outside (by omega), gdtSetEntry_outside (by omega),
    gdtSetEntry_outside (by omega), gdtSetEntry_outside (by omega), gdtSetEntry_outside (by omega),
    gdtSetEntry_outside (by omega)]

theorem gdtTables_gdtr : dtrAt (gdtTables st m) st.gdtp = ⟨47, st.gdt⟩ := by
  have hgdt := st.gdt_gdtp
  have htss := st.gdtp_tss
  have hsame : ∀ x, st.gdtp ≤ x → x < st.gdtp + 6 → gdtTables st m x
      = ((m.wr16 st.gdtp (48 - 1)).wr32 (st.gdtp + 2) st.gdt) x :=
    fun x hlo hhi => gdtTables_outside (by omega) (by omega)
  unfold dtrAt
  congr 1
  · rw [rd16_congr (hsame _ (by omega) (by omega)) (hsame _ (by omega) (by omega)),
      rd16_congr (wr32_of_outside _ _ (by omega)) (wr32_of_outside _ _ (by omega)),
      rd16_wr16 _ (by omega)]
  · rw [rd32_congr fun k hk => hsame _ (by omega) (by omega), rd32_wr32_self _ _ st.gdt_lt]

/-- The access byte is stored in one place. -/
theorem segmentBytes_access {base limit access access' gran j : Nat} (hj : j ≠ 5) :
    segmentBytes (gdtDescriptor base limit access gran) j
      = segmentBytes (gdtDescriptor base limit access' gran) j := by
  unfold segmentBytes gdtDescriptor
  split
  all_goals first | rfl | omega

/-- A busy TSS differs in one byte. -/
theorem segmentBytes_busy (st : Statics) {i j : Nat} (h : ¬(i = 5 ∧ j = 5)) :
    segmentBytes (gdtEntry st 0x8B i) j = segmentBytes (gdtEntry st 0x89 i) j := by
  by_cases hi : i = 5
  · subst hi
    exact segmentBytes_access fun hj => h ⟨rfl, hj⟩
  · have hsame : gdtEntry st 0x8B i = gdtEntry st 0x89 i := by
      unfold gdtEntry
      split
      all_goals first | rfl | omega
    rw [hsame]

theorem gdtInit_inv (st : Statics) (s : TableState) :
    GdtInv st (st.tssStack + 4096) (gdtInit st s).mem ∧ (gdtInit st s).gdtr = ⟨47, st.gdt⟩ ∧
    (gdtInit st s).tr = 0x2B := by
  have hgdtr : (gdtFlush st.gdtp { s with mem := gdtTables st s.mem }).gdtr = ⟨47, st.gdt⟩ :=
    gdtTables_gdtr
  have hmem : (gdtInit st s).mem = (gdtTables st s.mem).write (st.gdt + 5 * 8 + 5)
      (gdtTables st s.mem (st.gdt + 5 * 8 + 5) ||| 2) := by
    unfold gdtInit tssFlush
    simp only [hgdtr]
    rfl
  have htss := st.gdt_tss
  have hstack := tssWrite_stack st
    (gdtSetEntry st.gdt 4 0 0xFFFFFFFF 0xF2 0xCF (gdtSetEntry st.gdt 3 0 0xFFFFFFFF 0xFA 0xCF
      (gdtSetEntry st.gdt 2 0 0xFFFFFFFF 0x92 0xCF (gdtSetEntry st.gdt 1 0 0xFFFFFFFF 0x9A 0xCF
        (gdtSetEntry st.gdt 0 0 0 0x00 0x00
          ((s.mem.wr16 st.gdtp (48 - 1)).wr32 (st.gdtp + 2) st.gdt))))))
    (by omega : 0x10 < 2 ^ 32) st.stack_lt
  refine ⟨⟨fun i hi j hj => ?_, ?_, ?_⟩, hgdtr, rfl⟩
  · rw [hmem]
    by_cases hbusy : i = 5 ∧ j = 5
    · obtain ⟨rfl, rfl⟩ := hbusy
      rw [write_self, gdtTables_bytes st s.mem 5 hi 5 hj]
      have hbyte : byteOf 0x89 0 ||| 2 = byteOf 0x8B 0 := by decide
      exact hbyte
    · rw [write_ne _ _ (by omega), gdtTables_bytes st s.mem i hi j hj, segmentBytes_busy st hbusy]
  · rw [hmem, rd32_congr fun k hk => write_ne _ _ (by omega)]
    exact hstack.1
  · rw [hmem, rd32_congr fun k hk => write_ne _ _ (by omega)]
    exact hstack.2

/-- What `idt_init` writes: the pointer, the table and the handlers. -/
theorem idtInit_outside {s : TableState} {x : Nat} (hidtp : x < st.idtp ∨ st.idtp + 6 ≤ x)
    (hidt : x < st.idt ∨ st.idt + 2048 ≤ x) (hhandlers : x < st.handlers ∨ st.handlers + 1024 ≤ x) :
    (idtInit st s).mem x = s.mem x := by
  unfold idtInit
  simp only
  rw [setGates_outside st _ _ idtGates_lt hidt, memset_of_outside _ _ hhandlers,
    memset_of_outside _ _ hidt, wr32_of_outside _ _ (by omega), wr16_of_outside (by omega)]

theorem idtInit_idtr (st : Statics) (s : TableState) : (idtInit st s).idtr = ⟨2047, st.idt⟩ := by
  have hidt := st.idt_idtp
  have hhandlers := st.idtp_handlers
  have hsame : ∀ x, st.idtp ≤ x → x < st.idtp + 6 → (idtInit st s).mem x
      = ((s.mem.wr16 st.idtp (2048 - 1)).wr32 (st.idtp + 2) st.idt) x := by
    intro x hlo hhi
    unfold idtInit
    simp only
    rw [setGates_outside st _ _ idtGates_lt (by omega), memset_of_outside _ _ (by omega),
      memset_of_outside _ _ (by omega)]
  show dtrAt (idtInit st s).mem st.idtp = _
  unfold dtrAt
  congr 1
  · rw [rd16_congr (hsame _ (by omega) (by omega)) (hsame _ (by omega) (by omega)),
      rd16_congr (wr32_of_outside _ _ (by omega)) (wr32_of_outside _ _ (by omega)),
      rd16_wr16 _ (by omega)]
  · rw [rd32_congr fun k hk => hsame _ (by omega) (by omega), rd32_wr32_self _ _ st.idt_lt]

theorem idtInit_bytes (st : Statics) (s : TableState) : ∀ v < 256, ∀ j < 8,
    (idtInit st s).mem (st.idt + v * 8 + j)
      = ((idtGates.lookup v).map fun l => gateBytes (gateOf st v l) j).getD 0 := by
  intro v hv j hj
  have hhandlers := st.idt_handlers
  unfold idtInit
  simp only
  rw [setGates_bytes st _ _ idtGates_nodup v j hj, memset_of_outside _ _ (by omega)]
  congr 1
  exact if_pos (by omega)

/-- Both functions, whatever was in memory before. -/
theorem tablesInv_init (st : Statics) (s : TableState) :
    TablesInv st (st.tssStack + 4096) (idtInit st (gdtInit st s)) := by
  obtain ⟨hgdt, hgdtr, htr⟩ := gdtInit_inv st s
  have h1 := st.gdt_idt
  have h2 := st.gdt_idtp
  have h3 := st.gdt_handlers
  have h4 := st.tss_idt
  have h5 := st.tss_idtp
  have h6 := st.tss_handlers
  refine ⟨hgdt.congr (fun x hlo hhi => idtInit_outside (by omega) (by omega) (by omega))
    (fun x hlo hhi => idtInit_outside (by omega) (by omega) (by omega)), hgdtr,
    idtInit_idtr st _, htr, idtInit_bytes st _⟩

end Init

/-! ## Later -/

/-- What runs after the two functions: a new stack for Ring 0, or a store. -/
inductive TableOp where
  | setKernelStack (stackTop : Nat)
  | store (x : Nat) (b : UInt8)

namespace TableOp

/-- A store stays off the tables and the TSS. -/
def Legal (st : Statics) : TableOp → Prop
  | setKernelStack stackTop => stackTop < 2 ^ 32
  | store x _ => (x < st.gdt ∨ st.gdt + 48 ≤ x) ∧ (x < st.tss ∨ st.tss + 104 ≤ x) ∧
    (x < st.idt ∨ st.idt + 2048 ≤ x)

def apply (st : Statics) (s : TableState) : TableOp → TableState
  | setKernelStack stackTop => { s with mem := tssSetKernelStackBytes st stackTop s.mem }
  | store x b => { s with mem := s.mem.write x b }

/-- The stack for Ring 0 after the step. -/
def stack (esp0 : Nat) : TableOp → Nat
  | setKernelStack stackTop => stackTop
  | store _ _ => esp0

end TableOp

section Later

variable {st : Statics} {esp0 : Nat} {s : TableState}

theorem TablesInv.step (h : TablesInv st esp0 s) {op : TableOp} (hl : op.Legal st) :
    TablesInv st (op.stack esp0) (op.apply st s) := by
  cases op with
  | setKernelStack stackTop =>
    have hgdt := st.gdt_tss
    have hidt := st.tss_idt
    refine ⟨⟨fun i hi j hj => ?_, ?_, ?_⟩, h.gdtr, h.idtr, h.tr, fun v hv j hj => ?_⟩
    · exact (wr32_of_outside _ _ (by omega)).trans (h.gdt i hi j hj)
    · exact (rd32_wr32_ne _ _ (by omega)).trans h.ss0
    · exact rd32_wr32_self _ _ hl
    · exact (wr32_of_outside _ _ (by omega)).trans (h.idt v hv j hj)
  | store x b =>
    obtain ⟨hgdt, htss, hidt⟩ := hl
    refine ⟨h.toGdtInv.congr (fun y hlo hhi => write_ne _ _ (by omega))
      (fun y hlo hhi => write_ne _ _ (by omega)), h.gdtr, h.idtr, h.tr, fun v hv j hj => ?_⟩
    exact (write_ne _ _ (by omega)).trans (h.idt v hv j hj)

theorem TablesInv.run : ∀ (ops : List TableOp) {esp0 : Nat} {s : TableState}, TablesInv st esp0 s →
    (∀ op ∈ ops, op.Legal st) →
    TablesInv st (ops.foldl TableOp.stack esp0) (ops.foldl (TableOp.apply st) s) := by
  intro ops
  induction ops with
  | nil =>
    intro esp0 s h _
    exact h
  | cons op ops ih =>
    intro esp0 s h hl
    exact ih (h.step (hl op List.mem_cons_self)) fun o ho => hl o (List.mem_cons_of_mem _ ho)

/-! ## What the CPU finds -/

theorem gdtDescriptor_fits {base limit access gran : Nat} (hbase : base < 2 ^ 32)
    (haccess : access < 2 ^ 8) (hgran : gran < 2 ^ 8) :
    (gdtDescriptor base limit access gran).Fits :=
  ⟨hbase, Nat.mod_lt _ (by omega), haccess, Nat.div_lt_of_lt_mul (by omega)⟩

theorem gdtEntry_fits (st : Statics) (i : Nat) : (gdtEntry st 0x8B i).Fits := by
  unfold gdtEntry
  split
  case h_5 => exact gdtDescriptor_fits st.tss_lt (by omega) (by omega)
  all_goals exact gdtDescriptor_fits (by omega) (by omega) (by omega)

/-- The segment behind a selector. -/
theorem TablesInv.segment (h : TablesInv st esp0 s) (sel : Nat) : s.gdtr.segment s.mem sel =
    if sel / 4 % 2 = 0 ∧ sel / 8 < 6 then some (gdtEntry st 0x8B (sel / 8)) else none := by
  unfold Dtr.segment
  rw [h.gdtr]
  by_cases hsel : sel / 4 % 2 = 0 ∧ sel / 8 < 6
  · rw [if_pos ⟨hsel.1, by simp only; omega⟩, if_pos hsel,
      segmentAt_of_bytes (gdtEntry_fits st _) (h.gdt _ hsel.2)]
  · rw [if_neg (fun hin => hsel ⟨hin.1, by simp only at hin; omega⟩), if_neg hsel]

theorem gateOf_fits (st : Statics) (v : Nat) (l : Label) : (gateOf st v l).Fits := by
  refine ⟨st.label_lt l, (by decide : 0x08 < 2 ^ 16), ?_⟩
  show gateAttributes v < 2 ^ 8
  unfold gateAttributes
  split <;> decide

/-- An interrupt gate, present; Ring 3 may use the one of vector 128 only. -/
theorem gateOf_attributes (st : Statics) (v : Nat) (l : Label) : (gateOf st v l).Present ∧
    (gateOf st v l).IsInterrupt ∧ (gateOf st v l).dpl = if v = 128 then 3 else 0 := by
  show gateAttributes v / 128 % 2 = 1 ∧ gateAttributes v % 32 = 0xE ∧ gateAttributes v / 32 % 4 = _
  unfold gateAttributes
  split <;> decide

theorem idtGates_lookup_lt {v : Nat} {l : Label} (h : idtGates.lookup v = some l) : v < 256 := by
  by_contra hv
  have hnone : idtGates.lookup v = none := by
    rw [List.lookup_eq_none_iff]
    intro p hp
    have hlt := idtGates_lt p hp
    rw [bne_iff_ne]
    omega
  rw [hnone] at h
  exact absurd h (by simp)

/-- The gate of a vector: the one `idt_init` set, or none. -/
theorem TablesInv.gate (h : TablesInv st esp0 s) (v : Nat) :
    s.idtr.gate s.mem v = (idtGates.lookup v).map (gateOf st v) := by
  unfold Dtr.gate
  rw [h.idtr]
  cases hl : idtGates.lookup v with
  | some l =>
    have hv := idtGates_lookup_lt hl
    have hat : gateAt s.mem (st.idt + v * 8) = gateOf st v l := by
      refine gateAt_of_bytes (gateOf_fits st v l) fun j hj => ?_
      rw [h.idt v hv j hj, hl]
      rfl
    obtain ⟨hp, hi, -⟩ := gateOf_attributes st v l
    rw [hat, if_pos ⟨by simp only; omega, hp, hi⟩]
    rfl
  | none =>
    rw [if_neg fun hin => ?_]
    · rfl
    · obtain ⟨hlim, hp, -⟩ := hin
      have hv : v < 256 := by
        simp only at hlim
        omega
      have hat : gateAt s.mem (st.idt + v * 8) = ⟨0, 0, 0⟩ := by
        refine gateAt_of_bytes ⟨by decide, by decide, by decide⟩ fun j hj => ?_
        rw [h.idt v hv j hj, hl]
        rcases j with _ | _ | _ | _ | _ | _ | _ | _ | j
        all_goals rfl
      rw [hat] at hp
      exact absurd hp (by decide)

/-- The stack for Ring 0, through TR. -/
def TableState.ring0Stack (s : TableState) : Option Tss :=
  (s.gdtr.segment s.mem s.tr).bind fun d =>
    if d.access / 128 = 1 ∧ 11 ≤ d.limit then
      some ⟨rd32 s.mem (d.base + 8) % 2 ^ 16, rd32 s.mem (d.base + 4)⟩
    else none

theorem TablesInv.ring0Stack (h : TablesInv st esp0 s) : s.ring0Stack = some ⟨0x10, esp0⟩ := by
  have hentry : gdtEntry st 0x8B (0x2B / 8) = ⟨st.tss, 103, 0x8B, 0⟩ := rfl
  unfold TableState.ring0Stack
  rw [h.segment, h.tr, if_pos (by decide), hentry, Option.bind_some, if_pos (by simp), h.ss0, h.esp0]
  rfl

/-- The privilege levels of the trap model. -/
theorem gdtEntry_dpl (st : Statics) {i : Nat} (hi : i < 6) :
    (gdtEntry st 0x8B i).dpl = gdtAccess.getD i 0 / 32 % 4 := by
  have haccess : (gdtEntry st 0x8B i).access / 32 % 4
      = ([0x00, 0x9A, 0x92, 0xFA, 0xF2, 0x8B].getD i 0) / 32 % 4 := by
    rcases i with _ | _ | _ | _ | _ | _ | i
    all_goals rfl
  refine haccess.trans ?_
  have hsame : ∀ i < 6, [0x00, 0x9A, 0x92, 0xFA, 0xF2, 0x8B].getD i 0 / 32 % 4
      = gdtAccess.getD i 0 / 32 % 4 := by decide
  exact hsame i hi

theorem gdtEntry_present (st : Statics) {i : Nat} (hlo : 1 ≤ i) (hi : i < 6) :
    (gdtEntry st 0x8B i).Present := by
  rcases i with _ | _ | _ | _ | _ | _ | i
  · omega
  · exact (by decide : 0x9A / 128 % 2 = 1)
  · exact (by decide : 0x92 / 128 % 2 = 1)
  · exact (by decide : 0xFA / 128 % 2 = 1)
  · exact (by decide : 0xF2 / 128 % 2 = 1)
  · exact (by decide : 0x8B / 128 % 2 = 1)
  · omega

/-- Code and data are all of the 4 GiB. -/
theorem gdtEntry_flat (st : Statics) {i : Nat} (hlo : 1 ≤ i) (hi : i ≤ 4) :
    (gdtEntry st 0x8B i).Flat := by
  have hdesc : ∀ access, (gdtDescriptor 0 0xFFFFFFFF access 0xCF).Flat :=
    fun _ => ⟨rfl, (by decide : 0xCF / 16 / 8 = 1),
      (by decide : (0xFFFFFFFF % 2 ^ 20 + 1) * 4096 = 2 ^ 32)⟩
  rcases i with _ | _ | _ | _ | _ | i
  · omega
  · exact hdesc _
  · exact hdesc _
  · exact hdesc _
  · exact hdesc _
  · omega

/-- The CPU takes an interrupt: the gate through IDTR, the stack through TR. -/
def TableState.deliver (s : TableState) (v err : Nat) (c : Core) : Option Core :=
  (s.idtr.gate s.mem v).bind fun g => s.ring0Stack.map fun tss =>
    c.interrupt tss ⟨g.selector, g.offset⟩ (if v ∈ errorVectors then some err else none)

/-- `int n` from the ring that runs. -/
def TableState.softwareInt (s : TableState) (n : Nat) (c : Core) : Option Core :=
  (s.idtr.gate s.mem n).bind fun g => if c.segs.cpl ≤ g.dpl then s.deliver n 0 c else none

end Later

/-- **The tables serve every trap.** Wherever the tables lie, whatever was in
memory before `gdt_init` and `idt_init`, and after any later stores and changes
of the stack for Ring 0: the CPU delivers exactly the vectors of `idt_init`, to
their stubs and on the stack set last; `int n` from Ring 3 gets through for 128
alone; and the segments have the privilege levels of the trap model, with those
for code and data flat. -/
theorem tables_serve (st : Statics) (s₀ : TableState) {ops : List TableOp}
    (hl : ∀ op ∈ ops, op.Legal st) :
    let s := ops.foldl (TableOp.apply st) (idtInit st (gdtInit st s₀))
    let esp0 := ops.foldl TableOp.stack (st.tssStack + 4096)
    (∀ v err c, s.deliver v err c = (idtGates.lookup v).map fun l =>
      c.interrupt ⟨0x10, esp0⟩ ⟨0x08, st.label l⟩ (if v ∈ errorVectors then some err else none)) ∧
    (∀ n c, c.segs.cpl = 3 → ((s.softwareInt n c).isSome ↔ n = 128)) ∧
    (∀ sel, sel / 4 % 2 = 0 → sel / 8 < 6 → ∃ d, s.gdtr.segment s.mem sel = some d ∧
      d.dpl = segmentDpl sel ∧ (1 ≤ sel / 8 → d.Present) ∧
      (1 ≤ sel / 8 → sel / 8 ≤ 4 → d.Flat)) := by
  intro s esp0
  have h : TablesInv st esp0 s := (tablesInv_init st s₀).run ops hl
  have hdeliver : ∀ v err c, s.deliver v err c = (idtGates.lookup v).map fun l =>
      c.interrupt ⟨0x10, esp0⟩ ⟨0x08, st.label l⟩
        (if v ∈ errorVectors then some err else none) := by
    intro v err c
    unfold TableState.deliver
    rw [h.gate, h.ring0Stack]
    cases idtGates.lookup v with
    | none => rfl
    | some l => rfl
  refine ⟨hdeliver, fun n c hc => ?_, fun sel hti hsel => ?_⟩
  · unfold TableState.softwareInt
    rw [h.gate]
    cases hl : idtGates.lookup n with
    | none =>
      refine ⟨fun hs => absurd hs (by simp), fun hn => ?_⟩
      rw [hn] at hl
      exact absurd hl (by decide)
    | some l =>
      rw [Option.map_some, Option.bind_some, hc, (gateOf_attributes st n l).2.2]
      by_cases hn : n = 128
      · rw [if_pos hn, if_pos (by omega), hdeliver, hl]
        exact ⟨fun _ => hn, fun _ => rfl⟩
      · rw [if_neg hn, if_neg (by omega)]
        exact ⟨fun hs => absurd hs (by simp), fun he => absurd he hn⟩
  · refine ⟨gdtEntry st 0x8B (sel / 8), ?_, ?_, ?_, ?_⟩
    · rw [h.segment, if_pos ⟨hti, hsel⟩]
    · exact gdtEntry_dpl st hsel
    · exact fun hlo => gdtEntry_present st hlo hsel
    · exact fun hlo hhi => gdtEntry_flat st hlo hhi

/-- Tables one after another from 1 MiB on. -/
def demoStatics : Statics where
  gdt := 0x100000
  gdtp := 0x100030
  tss := 0x100040
  tssStack := 0x101000
  idt := 0x102000
  idtp := 0x102800
  handlers := 0x102810
  label := fun _ => 0x103000
  label_lt := fun _ => by decide
  apart := by decide
  gdt_lt := by decide
  tss_lt := by decide
  stack_lt := by decide
  idt_lt := by decide

/-- Memory full of ones, and code in Ring 3. -/
def demoTables : TableState :=
  ⟨fun _ => 0xFF, ⟨0, 0⟩, ⟨0, 0⟩, 0, ⟨0x1B, 0x23, 0x23, 0x23, 0x23, 0x23⟩⟩

def demoCore : Core := ⟨fun _ => 0, 0x8048000, 0x202, demoTables.segs, demoTables.mem⟩

def demoTableOps : List TableOp := [.setKernelStack 0x9000, .store 0x200000 1]

theorem tables_serve_demo :
    (demoTableOps.foldl (TableOp.apply demoStatics)
      (idtInit demoStatics (gdtInit demoStatics demoTables))).deliver 128 0 demoCore
      = some (demoCore.interrupt ⟨0x10, 0x9000⟩ ⟨0x08, 0x103000⟩ none) := by
  have hl : ∀ op ∈ demoTableOps, op.Legal demoStatics := by
    intro op hop
    rcases List.mem_cons.mp hop with rfl | hop
    · show 0x9000 < 2 ^ 32
      decide
    · rw [List.mem_singleton.mp hop]
      exact ⟨Or.inr (by decide), Or.inr (by decide), Or.inr (by decide)⟩
  rw [(tables_serve demoStatics demoTables hl).1 128 0 demoCore]
  rfl

end MyOS
