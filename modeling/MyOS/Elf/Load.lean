import MyOS.Vfs.Tar

/-!
# `elf_load`

The loader reads the ELF header and the program headers with the caller's
directory active. For each `PT_LOAD` header it switches to the new directory,
takes a frame for each page of the segment, maps and clears it, copies the
file bytes to the segment's virtual address and switches back. The new
directory starts as a copy of the caller's, so both share every page table
the caller had.

Mirroring notes vs the C:
- The local variables that change are `Load`: the machine and `seg_blocks`,
  in order of allocation and never more than 64.
- `goto cleanup` is `Stop.cleanup` with the state at the jump, a halt inside
  `vmm_map_page` or a page fault is `Stop.halt`; `finish` is the end of the
  function. Interrupts off and on is `intFlag`; no task switch is modelled
  inside the call.
- `page_aligned_end` is at most `0xFFFFF000`, so the page loop runs
  `(page_aligned_end - page_aligned_start) / 4096` times (truncated at 0)
  and `vaddr` does not wrap.
- `i * e_phentsize` is an `int` product; it is taken modulo `2 ^ 32`, which
  is what it is where it does not overflow and what the compiled code does
  where it does.
- Header fields no function reads (version, section headers, flags, sizes,
  physical address, alignment) are left out.
-/

namespace MyOS

open Lib Lib.Mem Lib.Paging

/-- The ways `elf_load` returns `-1`. -/
inductive ElfError where
  | notFound
  | header
  | magic
  | not32bit
  | machine
  | type
  | pageDirectory
  | programHeader
  | segmentMemory
  deriving DecidableEq, Repr

/-- What is printed, for the path given. -/
def ElfError.message (path : String) : ElfError → String
  | notFound => "[ELF] Error: Executable file not found: " ++ path ++ "\n"
  | header => "[ELF] Error: Failed to read ELF header\n"
  | magic => "[ELF] Error: Invalid ELF signature\n"
  | not32bit => "[ELF] Error: Executable is not 32-bit\n"
  | machine => "[ELF] Error: Executable is not for x86 architecture\n"
  | type => "[ELF] Error: File is not an executable\n"
  | pageDirectory => "[ELF] Error: Failed to allocate Page Directory\n"
  | programHeader => "[ELF] Error: Failed to read program header\n"
  | segmentMemory => "[ELF] Error: Out of physical memory for segment\n"

/-! ## Headers, as bytes of a local variable -/

/-- `sizeof(Elf32_Ehdr)` -/
def ehdrSize : Nat := 52
/-- `sizeof(Elf32_Phdr)` -/
def phdrSize : Nat := 32

def eType (e : Mem) : Nat := rd16 e 16
def eMachine (e : Mem) : Nat := rd16 e 18
def eEntry (e : Mem) : Nat := rd32 e 24
def ePhoff (e : Mem) : Nat := rd32 e 28
def ePhentsize (e : Mem) : Nat := rd16 e 42
def ePhnum (e : Mem) : Nat := rd16 e 44

def pType (p : Mem) : Nat := rd32 p 0
def pOffset (p : Mem) : Nat := rd32 p 4
def pVaddr (p : Mem) : Nat := rd32 p 8
def pFilesz (p : Mem) : Nat := rd32 p 16
def pMemsz (p : Mem) : Nat := rd32 p 20

def ptLoad : Nat := 1

/-- The four checks on the ELF header, in order. -/
def checkHeader (e : Mem) : Option ElfError :=
  if rd32 e 0 ≠ 0x464C457F then some .magic
  else if e 4 ≠ 1 then some .not32bit
  else if eMachine e ≠ 3 then some .machine
  else if eType e ≠ 2 then some .type
  else none

/-- File offset of program header `i`. -/
def phdrOffset (e : Mem) (i : Nat) : Nat := (ePhoff e + i * ePhentsize e) % 2 ^ 32

def pageAlignedStart (p : Mem) : Nat := pVaddr p &&& 0xFFFFF000

def pageAlignedEnd (p : Mem) : Nat :=
  ((pVaddr p + pMemsz p) % 2 ^ 32 + 4095) % 2 ^ 32 &&& 0xFFFFF000

/-- Iterations of the page loop. -/
def pageCount (p : Mem) : Nat := (pageAlignedEnd p - pageAlignedStart p) / 4096

/-! ## The loader -/

def maxSegmentBlocks : Nat := 64

/-- The state of a load: the machine and `seg_blocks`. -/
structure Load where
  k : Machine
  segBlocks : List Nat

/-- How a load is left early. -/
inductive Stop where
  | halt (p : Panic)
  | cleanup (e : ElfError) (l : Load)

/-- `current_page_directory = dir` and the write to CR3. -/
def Machine.setDir (k : Machine) (dir : Nat) (intFlag : Bool) : Machine :=
  { k with currentPageDirectory := dir, cr3 := dir, intFlag := intFlag }

/-- Body of the page loop. `oldPd` is restored if no frame is left. -/
def loadPage (oldPd vaddr : Nat) (l : Load) : Except Stop Load :=
  let phys := (pmmAllocBlock l.k.pmm).1
  let k := { l.k with pmm := (pmmAllocBlock l.k.pmm).2 }
  if phys = 0 then .error (.cleanup .segmentMemory { l with k := k.setDir oldPd true })
  else
    let segBlocks :=
      if l.segBlocks.length < maxSegmentBlocks then l.segBlocks ++ [phys] else l.segBlocks
    (((vmmMapPage phys vaddr (flagPresent ||| flagWrite ||| flagUser) k).bind
      (vmemset vaddr 0 4096)).map fun k' => ⟨k', segBlocks⟩).mapError Stop.halt

/-- The page loop, with `n` iterations left. -/
def loadPages (oldPd : Nat) : Nat → Nat → Load → Except Stop Load
  | 0, _, l => .ok l
  | n + 1, vaddr, l => (loadPage oldPd vaddr l).bind (loadPages oldPd n (vaddr + 4096))

/-- A `PT_LOAD` header. -/
def loadSegment (file : FsNode) (procPd : Nat) (p : Mem) (l : Load) : Except Stop Load :=
  let oldPd := l.k.currentPageDirectory
  (loadPages oldPd (pageCount p) (pageAlignedStart p)
    { l with k := l.k.setDir procPd false }).bind fun l' =>
  ((readFs file (pOffset p) (pFilesz p) (pVaddr p) l'.k).map fun r =>
    { l' with k := r.2.setDir oldPd true }).mapError Stop.halt

/-- A program header that has been read, `got` bytes of it. -/
def loadRead (file : FsNode) (procPd : Nat) (l : Load) (r : Nat × Mem × Machine) :
    Except Stop Load :=
  if r.1 < phdrSize then .error (.cleanup .programHeader { l with k := r.2.2 })
  else if pType r.2.1 = ptLoad then loadSegment file procPd r.2.1 { l with k := r.2.2 }
  else .ok { l with k := r.2.2 }

/-- Body of the program header loop. -/
def loadHeader (file : FsNode) (e : Mem) (procPd i : Nat) (l : Load) : Except Stop Load :=
  ((readFsLocal file (phdrOffset e i) phdrSize l.k).mapError Stop.halt).bind
    (loadRead file procPd l)

/-- The program header loop, with `n` headers left. -/
def loadHeaders (file : FsNode) (e : Mem) (procPd : Nat) : Nat → Nat → Load → Except Stop Load
  | 0, _, l => .ok l
  | n + 1, i, l => (loadHeader file e procPd i l).bind (loadHeaders file e procPd n (i + 1))

/-- What `elf_load` returns: `*out_entry` and `*out_pd`, or `-1` with the
message printed. -/
abbrev ElfResult := Except ElfError (Nat × Nat)

/-- The `cleanup` label: the tracked blocks, then the directory. -/
def cleanup (procPd : Nat) (l : Load) : Machine :=
  { l.k with
    pmm := pmmFreeBlock procPd (l.segBlocks.foldl (fun s b => pmmFreeBlock b s) l.k.pmm) }

/-- The end of the function. -/
def finish (e : Mem) (procPd : Nat) : Except Stop Load → Except Panic (ElfResult × Machine)
  | .ok l => .ok (.ok (eEntry e, procPd), l.k)
  | .error (.cleanup err l) => .ok (.error err, cleanup procPd l)
  | .error (.halt p) => .error p

/-- The part after the header checks. -/
def elfLoadImage (file : FsNode) (e : Mem) (k : Machine) : Except Panic (ElfResult × Machine) :=
  let procPd := (pmmAllocBlock k.pmm).1
  let k₁ := { k with pmm := (pmmAllocBlock k.pmm).2 }
  if procPd = 0 then .ok (.error .pageDirectory, k₁)
  else
    finish e procPd (loadHeaders file e procPd (ePhnum e) 0
      ⟨{ k₁ with mem := k.mem.memcpy procPd k.currentPageDirectory 4096 }, []⟩)

/-- The ELF header has been read, `r.1` bytes of it. -/
def elfLoadRead (file : FsNode) (r : Nat × Mem × Machine) : Except Panic (ElfResult × Machine) :=
  if r.1 < ehdrSize then .ok (.error .header, r.2.2)
  else (checkHeader r.2.1).elim (elfLoadImage file r.2.1 r.2.2) fun err => .ok (.error err, r.2.2)

/-- `elf_load` on the node found. -/
def elfLoadNode (file : FsNode) (k : Machine) : Except Panic (ElfResult × Machine) :=
  (readFsLocal file 0 ehdrSize k).bind (elfLoadRead file)

def elfLoad (v : Vfs) (path : List UInt8) (k : Machine) : Except Panic (ElfResult × Machine) :=
  (findNodeByPath v path).elim (.ok (.error .notFound, k)) fun ref => elfLoadNode (v.node ref) k

end MyOS
