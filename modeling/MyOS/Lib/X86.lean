import Mathlib.Data.Fintype.Sets
import MyOS.Lib.Mem
import MyOS.Lib.Outcome

/-!
# Stack instructions of a 32-bit x86

Registers, and `push`, `pop`, `mov` and `ret` as functions on the state of a
CPU attached to some memory system. The memory system is a `Bus`: loads and
stores of words that may stop, and may change the system behind it (a page
fault that is served, say). Addresses wrap at 32 bits.

`Holds m a ws` says that the words `ws` lie at `a`. It is what a stack frame
is to the code that pops it.
-/

namespace MyOS.Lib.X86

open Mem

inductive Reg where
  | eax
  | ebx
  | ecx
  | edx
  | esi
  | edi
  | ebp
  | esp
  deriving DecidableEq

instance : Fintype Reg where
  elems := {.eax, .ebx, .ecx, .edx, .esi, .edi, .ebp, .esp}
  complete r := by cases r <;> decide

structure Cpu (σ : Type) where
  regs : Reg → Nat
  eip : Nat
  sys : σ

structure Bus (σ ε : Type) where
  load : Nat → σ → Except ε (Nat × σ)
  store : Nat → Nat → σ → Except ε σ

def add32 (a b : Nat) : Nat := (a + b) % 2 ^ 32

def sub32 (a b : Nat) : Nat := (a + (2 ^ 32 - b)) % 2 ^ 32

theorem add32_eq {a b : Nat} (h : a + b < 2 ^ 32) : add32 a b = a + b := Nat.mod_eq_of_lt h

theorem sub32_eq {a b : Nat} (hb : b ≤ a) (ha : a ≤ 2 ^ 32) (h0 : 0 < b) : sub32 a b = a - b := by
  have hsum : a + (2 ^ 32 - b) = a - b + 2 ^ 32 := by omega
  unfold sub32
  rw [hsum, Nat.add_mod_right]
  exact Nat.mod_eq_of_lt (by omega)

section Instructions

variable {σ ε : Type} (bus : Bus σ ε)

/-- `mov r, v` -/
def Cpu.set (s : Cpu σ) (r : Reg) (v : Nat) : Cpu σ := { s with regs := Function.update s.regs r v }

/-- `push v` -/
def push (v : Nat) (s : Cpu σ) : Except ε (Cpu σ) :=
  (bus.store (sub32 (s.regs .esp) 4) v s.sys).map fun m =>
    { s.set .esp (sub32 (s.regs .esp) 4) with sys := m }

/-- `pop r` -/
def pop (r : Reg) (s : Cpu σ) : Except ε (Cpu σ) :=
  (bus.load (s.regs .esp) s.sys).map fun x =>
    { (s.set .esp (add32 (s.regs .esp) 4)).set r x.1 with sys := x.2 }

/-- `mov dst, [src + off]` -/
def load (dst src : Reg) (off : Nat) (s : Cpu σ) : Except ε (Cpu σ) :=
  (bus.load (add32 (s.regs src) off) s.sys).map fun x => { s.set dst x.1 with sys := x.2 }

/-- `mov [dst + off], src` -/
def store (dst : Reg) (off : Nat) (src : Reg) (s : Cpu σ) : Except ε (Cpu σ) :=
  (bus.store (add32 (s.regs dst) off) (s.regs src) s.sys).map fun m => { s with sys := m }

def ret (s : Cpu σ) : Except ε (Cpu σ) :=
  (bus.load (s.regs .esp) s.sys).map fun x =>
    { s.set .esp (add32 (s.regs .esp) 4) with eip := x.1, sys := x.2 }

variable {bus} {s : Cpu σ}

theorem push_ok {v a : Nat} {m : σ} (ha : sub32 (s.regs .esp) 4 = a)
    (h : bus.store a v s.sys = .ok m) : push bus v s = .ok { s.set .esp a with sys := m } := by
  unfold push
  rw [ha, h]
  rfl

theorem pop_ok {r : Reg} {v a : Nat} (ha : add32 (s.regs .esp) 4 = a)
    (h : bus.load (s.regs .esp) s.sys = .ok (v, s.sys)) :
    pop bus r s = .ok ((s.set .esp a).set r v) := by
  unfold pop
  rw [ha, h]
  rfl

theorem load_ok {dst src : Reg} {off v a : Nat} (ha : add32 (s.regs src) off = a)
    (h : bus.load a s.sys = .ok (v, s.sys)) : load bus dst src off s = .ok (s.set dst v) := by
  unfold load
  rw [ha, h]
  rfl

theorem store_ok {dst src : Reg} {off a : Nat} {m : σ} (ha : add32 (s.regs dst) off = a)
    (h : bus.store a (s.regs src) s.sys = .ok m) :
    store bus dst off src s = .ok { s with sys := m } := by
  unfold store
  rw [ha, h]
  rfl

theorem ret_ok {v a : Nat} (ha : add32 (s.regs .esp) 4 = a)
    (h : bus.load (s.regs .esp) s.sys = .ok (v, s.sys)) :
    ret bus s = .ok { s.set .esp a with eip := v } := by
  unfold ret
  rw [ha, h]
  rfl

@[simp]
theorem Cpu.set_self (s : Cpu σ) (r : Reg) (v : Nat) : (s.set r v).regs r = v :=
  Function.update_self ..

theorem Cpu.set_ne (s : Cpu σ) {r r' : Reg} (v : Nat) (h : r' ≠ r) :
    (s.set r v).regs r' = s.regs r' := Function.update_of_ne h ..

end Instructions

/-! ## Words on a stack -/

/-- The words `ws` lie at `a`, the first one lowest. -/
def Holds (m : Mem) : Nat → List Nat → Prop
  | _, [] => True
  | a, w :: ws => rd32 m a = w ∧ Holds m (a + 4) ws

theorem Holds.congr {m m' : Mem} : ∀ {ws : List Nat} {a : Nat}, Holds m a ws →
    (∀ x, a ≤ x → x < a + 4 * ws.length → m' x = m x) → Holds m' a ws := by
  intro ws
  induction ws with
  | nil =>
    intro _ _ _
    trivial
  | cons w ws ih =>
    intro a h hm
    rw [List.length_cons] at hm
    refine ⟨?_, ih h.2 fun x hx hx' => hm x (by omega) (by omega)⟩
    rw [rd32_congr fun k hk => hm (a + k) (by omega) (by omega)]
    exact h.1

/-- A push below the words puts one more in front of them. -/
theorem Holds.push {m : Mem} {ws : List Nat} {a v : Nat} (h : Holds m (a + 4) ws) (hv : v < 2 ^ 32) :
    Holds (m.wr32 a v) a (v :: ws) :=
  ⟨rd32_wr32_self m a hv, h.congr fun x hx _ => wr32_of_outside m v (by omega)⟩

end MyOS.Lib.X86
