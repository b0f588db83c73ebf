import MyOS.Lib.Loops
import Mathlib.Tactic.Common

/-!
# The screen shows the tail of the output

`terminal_putchar` keeps a cursor in a text buffer of 25 rows of 80 cells and
moves the buffer up by a row when the cursor leaves it at the bottom. What it
is for is a text that only grows: a list of rows, the last one open
(`Text`). `Shows` relates the two: the buffer holds the last 25 rows of the
text, or all of them, and blanks below and behind. One character keeps the
relation (`Shows.putchar`), so every output does (`terminal_shows_tail`).

A character that fills a row is a character and a new row. The relation
is therefore kept in two steps, one for the cell (`Shows.put`) and one for the
new row with its scrolling (`Shows.newRow`), and a newline is the second step
alone.

Mirroring notes vs the C:
- The buffer is every 16-bit cell from `0xB8000` on, not only the 2000 on the
  screen, so that a write past its end would show.
- `size_t` counters are natural numbers: they stay below 2000.
- A `char` is a byte; `vga_entry` takes it as `unsigned char`.
-/

namespace MyOS

open Lib

def vgaWidth : Nat := 80
def vgaHeight : Nat := 25

def vgaColorBlack : UInt8 := 0
def vgaColorLightGrey : UInt8 := 7

def vgaEntryColor (fg bg : UInt8) : UInt8 := fg ||| bg <<< 4

def vgaEntry (uc color : UInt8) : UInt16 := uc.toUInt16 ||| color.toUInt16 <<< 8

/-- The characters `' '` and `'\n'`. -/
def charSpace : UInt8 := 0x20
def charNewline : UInt8 := 0x0A

structure Terminal where
  row : Nat
  column : Nat
  color : UInt8
  buffer : Nat → UInt16

def terminalInitialize (t : Terminal) : Terminal :=
  let color := vgaEntryColor vgaColorLightGrey vgaColorBlack
  { row := 0
    column := 0
    color
    buffer := forUp
      (fun y => fill (y * vgaWidth) (fun _ _ => vgaEntry charSpace color) vgaWidth)
      vgaHeight t.buffer }

def terminalPutentryat (c color : UInt8) (x y : Nat) (t : Terminal) : Terminal :=
  { t with buffer := Function.update t.buffer (y * vgaWidth + x) (vgaEntry c color) }

/-- The loops of a scroll: every row moves up by one, from the second on. -/
def moveRowsUp : (Nat → UInt16) → Nat → UInt16 :=
  forUp
    (fun i => fill (i * vgaWidth) (fun b x => b ((i + 1) * vgaWidth + x)) vgaWidth)
    (vgaHeight - 1)

/-- The end of `terminal_putchar`: `if (terminal_row >= VGA_HEIGHT)`. -/
def terminalScroll (t : Terminal) : Terminal :=
  if vgaHeight ≤ t.row then
    { t with
      buffer := fill ((vgaHeight - 1) * vgaWidth) (fun _ _ => vgaEntry charSpace t.color) vgaWidth
        (moveRowsUp t.buffer)
      row := vgaHeight - 1 }
  else t

def terminalPutchar (t : Terminal) (c : UInt8) : Terminal :=
  terminalScroll <|
    if c = charNewline then { t with column := 0, row := t.row + 1 }
    else
      let t := terminalPutentryat c t.color t.column t.row t
      if t.column + 1 = vgaWidth then { t with column := 0, row := t.row + 1 }
      else { t with column := t.column + 1 }

/-- `terminal_writestring` of the bytes at `data`. -/
def terminalWritestring : List UInt8 → Terminal → Terminal
  | [], t => t
  | c :: data, t => if c = 0 then t else terminalWritestring data (terminalPutchar t c)

/-- The column and the row of each call of `terminal_putentryat`. -/
def entryCalls : Terminal → List UInt8 → List (Nat × Nat)
  | _, [] => []
  | t, c :: cs =>
    let rest := entryCalls (terminalPutchar t c) cs
    if c = charNewline then rest else (t.column, t.row) :: rest

/-! ## The loops -/

theorem terminalWritestring_eq : ∀ (data : List UInt8) (t : Terminal),
    terminalWritestring data t = (data.takeWhile (· != 0)).foldl terminalPutchar t := by
  intro data
  induction data with
  | nil =>
    intro t
    rfl
  | cons c data ih =>
    intro t
    unfold terminalWritestring
    by_cases hc : c = 0
    · rw [if_pos hc, List.takeWhile_cons_of_neg (by simp [hc])]
      rfl
    · rw [if_neg hc, List.takeWhile_cons_of_pos (by simp [hc]), List.foldl_cons, ih]

/-- The cleared screen. -/
theorem clearRows_apply (v : UInt16) (b : Nat → UInt16) (n i : Nat) :
    forUp (fun y => fill (y * vgaWidth) (fun _ _ => v) vgaWidth) n b i
      = if i < n * vgaWidth then v else b i := by
  refine forUp_induction (s := b) (P := fun y c => ∀ i,
    c i = if i < y * vgaWidth then v else b i) (fun i => ?_) n (fun y _ c hc i => ?_) i
  · rw [if_neg (by omega)]
  · rw [fill_apply (g := fun _ => v) vgaWidth (fun _ _ _ _ => rfl), hc i]
    unfold vgaWidth
    by_cases hrow : y * 80 ≤ i ∧ i < y * 80 + 80
    · rw [if_pos hrow, if_pos (by omega)]
    · rw [if_neg hrow]
      by_cases hin : i < y * 80
      · rw [if_pos hin, if_pos (by omega)]
      · rw [if_neg hin, if_neg (by omega)]

theorem terminalInitialize_buffer (t : Terminal) (i : Nat) :
    (terminalInitialize t).buffer i
      = if i < vgaHeight * vgaWidth then
          vgaEntry charSpace (vgaEntryColor vgaColorLightGrey vgaColorBlack)
        else t.buffer i := by
  unfold terminalInitialize
  dsimp only
  rw [clearRows_apply]

/-- Moving rows up in place: a row is read before it is overwritten. -/
theorem moveRowsUp_apply (b : Nat → UInt16) (i : Nat) :
    moveRowsUp b i = if i < 1920 then b (i + 80) else b i := by
  refine forUp_induction (s := b) (P := fun y c => ∀ i,
    c i = if i < y * vgaWidth then b (i + vgaWidth) else b i) (fun i => ?_) (vgaHeight - 1)
    (fun y _ c hc i => ?_) i
  · rw [if_neg (by omega)]
  · have hread : ∀ x < vgaWidth, ∀ d : Nat → UInt16,
        (∀ j, j < y * vgaWidth ∨ y * vgaWidth + x ≤ j → d j = c j) →
        d ((y + 1) * vgaWidth + x) = b ((y + 1) * vgaWidth + x) := by
      intro x hx d hd
      unfold vgaWidth at hd hx ⊢
      rw [hd _ (Or.inr (by omega)), hc, if_neg (by unfold vgaWidth; omega)]
    rw [fill_apply (g := fun x => b ((y + 1) * vgaWidth + x)) vgaWidth hread, hc i]
    unfold vgaWidth
    by_cases hrow : y * 80 ≤ i ∧ i < y * 80 + 80
    · rw [if_pos hrow, if_pos (by omega), show (y + 1) * 80 + (i - y * 80) = i + 80 by omega]
    · rw [if_neg hrow]
      by_cases hin : i < y * 80
      · rw [if_pos hin, if_pos (by omega)]
      · rw [if_neg hin, if_neg (by omega)]

theorem terminalScroll_of_lt {t : Terminal} (h : t.row < vgaHeight) : terminalScroll t = t :=
  if_neg (Nat.not_le_of_lt h)

/-! ## The text -/

/-- All rows but the last, and the last, which is open. -/
structure Text where
  above : List (List UInt8)
  last : List UInt8
  deriving DecidableEq

namespace Text

def rows (x : Text) : List (List UInt8) := x.above ++ [x.last]

/-- A character goes to the end of the last row; a new row is opened after a
newline and after the 80th character. -/
def type (x : Text) (c : UInt8) : Text :=
  if c = charNewline then ⟨x.rows, []⟩
  else if x.last.length + 1 = 80 then ⟨x.above ++ [x.last ++ [c]], []⟩
  else ⟨x.above, x.last ++ [c]⟩

def empty : Text := ⟨[], []⟩

/-- The rows fit on the screen, and the last one has room. -/
structure Fits (x : Text) : Prop where
  above_le : ∀ r ∈ x.above, r.length ≤ 80
  last_lt : x.last.length < 80

theorem fits_type {x : Text} (h : x.Fits) (c : UInt8) : (x.type c).Fits := by
  have hlast := h.last_lt
  unfold type
  split
  · refine ⟨fun r hr => ?_, Nat.zero_lt_succ 79⟩
    rcases List.mem_append.mp hr with hr | hr
    · exact h.above_le r hr
    · rw [List.mem_singleton.mp hr]
      omega
  · split
    next hfull =>
      refine ⟨fun r hr => ?_, Nat.zero_lt_succ 79⟩
      rcases List.mem_append.mp hr with hr | hr
      · exact h.above_le r hr
      · rw [List.mem_singleton.mp hr, List.length_append, List.length_singleton]
        omega
    next hroom =>
      refine ⟨h.above_le, ?_⟩
      show (x.last ++ [c]).length < 80
      rw [List.length_append, List.length_singleton]
      omega

theorem length_rows (x : Text) : x.rows.length = x.above.length + 1 := by
  unfold rows
  rw [List.length_append, List.length_singleton]

end Text

/-- The character in column `c` of row `r`, a blank where there is none. -/
def charAt (rows : List (List UInt8)) (r c : Nat) : UInt8 :=
  ((rows[r]?.getD [])[c]?).getD charSpace

/-- An empty row looks like no row. -/
theorem charAt_append_nil (rows : List (List UInt8)) (r c : Nat) :
    charAt (rows ++ [[]]) r c = charAt rows r c := by
  unfold charAt
  rw [List.getElem?_append]
  split
  · rfl
  next hr =>
    rw [List.getElem?_eq_none (l := rows) (by omega)]
    cases r - rows.length with
    | zero => rfl
    | succ n => rfl

/-- One more character in the last row. -/
theorem charAt_append_char (above : List (List UInt8)) (last : List UInt8) (ch : UInt8) (r c : Nat) :
    charAt (above ++ [last ++ [ch]]) r c
      = if r = above.length ∧ c = last.length then ch else charAt (above ++ [last]) r c := by
  unfold charAt
  rcases Nat.lt_trichotomy r above.length with hr | hr | hr
  · rw [List.getElem?_append_left hr, List.getElem?_append_left hr, if_neg (by omega)]
  · rw [hr, List.getElem?_append_right (Nat.le_refl _), List.getElem?_append_right (Nat.le_refl _),
      Nat.sub_self]
    show ((last ++ [ch])[c]?).getD charSpace = if _ then ch else (last[c]?).getD charSpace
    rw [List.getElem?_append]
    by_cases hc : c = last.length
    · rw [if_neg (by omega), if_pos ⟨rfl, hc⟩, hc, Nat.sub_self]
      rfl
    · have hnew : ¬(above.length = above.length ∧ c = last.length) := fun h => hc h.2
      rw [if_neg hnew]
      by_cases hlt : c < last.length
      · rw [if_pos hlt]
      · rw [if_neg hlt, List.getElem?_eq_none (l := last) (by omega),
          List.getElem?_eq_none (by rw [List.length_singleton]; omega)]
  · rw [List.getElem?_eq_none (l := above ++ [last ++ [ch]]) (by simp; omega),
      List.getElem?_eq_none (l := above ++ [last]) (by simp; omega), if_neg (by omega)]

/-! ## The simulation -/

/-- The terminal shows the last 25 rows of the text, and nothing behind the
screen has changed since `b₀`. -/
structure Shows (b₀ : Nat → UInt16) (x : Text) (t : Terminal) : Prop where
  color : t.color = vgaEntryColor vgaColorLightGrey vgaColorBlack
  row : t.row + 1 = min 25 x.rows.length
  column : t.column = x.last.length
  cell : ∀ r < 25, ∀ c < 80,
    t.buffer (r * 80 + c) = vgaEntry (charAt x.rows (x.rows.length - 25 + r) c) t.color
  outside : ∀ i, 2000 ≤ i → t.buffer i = b₀ i

section Steps

variable {b₀ : Nat → UInt16} {x : Text} {t : Terminal}

theorem Shows.row_lt (h : Shows b₀ x t) : t.row < 25 := by
  have hrow := h.row
  omega

/-- `terminal_initialize` shows the empty text. -/
theorem shows_cleared (t : Terminal) : Shows t.buffer Text.empty (terminalInitialize t) where
  color := rfl
  row := rfl
  column := rfl
  cell r hr c hc := by
    have hblank : charAt Text.empty.rows (Text.empty.rows.length - 25 + r) c = charSpace :=
      charAt_append_nil [] _ c
    rw [hblank, terminalInitialize_buffer, if_pos (by unfold vgaHeight vgaWidth; omega)]
    rfl
  outside i hi := by
    rw [terminalInitialize_buffer, if_neg (by unfold vgaHeight vgaWidth; omega)]

/-- A character in the open row. -/
theorem Shows.put (h : Shows b₀ x t) (hlast : x.last.length < 80) (ch : UInt8) :
    Shows b₀ ⟨x.above, x.last ++ [ch]⟩
      { terminalPutentryat ch t.color t.column t.row t with column := t.column + 1 } := by
  have hrow := h.row
  have hlen := x.length_rows
  have hlen' : (Text.mk x.above (x.last ++ [ch])).rows.length = x.rows.length := by
    rw [Text.length_rows, hlen]
  refine ⟨h.color, ?_, ?_, fun r hr c hc => ?_, fun i hi => ?_⟩
  · rw [hlen']
    exact hrow
  · show t.column + 1 = (x.last ++ [ch]).length
    rw [h.column, List.length_append, List.length_singleton]
  · show Function.update t.buffer (t.row * 80 + t.column) _ (r * 80 + c)
      = vgaEntry (charAt (x.above ++ [x.last ++ [ch]]) _ c) t.color
    rw [hlen', charAt_append_char, h.column]
    by_cases hcell : x.rows.length - 25 + r = x.above.length ∧ c = x.last.length
    · rw [if_pos hcell, hcell.2, show r = t.row by omega, Function.update_self]
    · rw [if_neg hcell, Function.update_of_ne (fun heq => hcell (by omega))]
      exact h.cell r hr c hc
  · have hcol := h.column
    show Function.update t.buffer (t.row * 80 + t.column) _ i = _
    rw [Function.update_of_ne (by omega)]
    exact h.outside i hi

/-- A new row, at the bottom with a scroll. -/
theorem Shows.newRow (h : Shows b₀ x t) :
    Shows b₀ ⟨x.rows, []⟩ (terminalScroll { t with column := 0, row := t.row + 1 }) := by
  have hrow := h.row
  have hlen := x.length_rows
  have hlen' : (Text.mk x.rows []).rows.length = x.rows.length + 1 := Text.length_rows _
  have hchar : ∀ r c, charAt (Text.mk x.rows []).rows r c = charAt x.rows r c :=
    fun r c => charAt_append_nil x.rows r c
  unfold terminalScroll
  by_cases hbottom : vgaHeight ≤ t.row + 1
  · rw [if_pos hbottom]
    unfold vgaHeight at hbottom
    have hcells : ∀ i, fill ((vgaHeight - 1) * vgaWidth) (fun _ _ => vgaEntry charSpace t.color)
        vgaWidth (moveRowsUp t.buffer) i
        = if 1920 ≤ i ∧ i < 2000 then vgaEntry charSpace t.color
          else if i < 1920 then t.buffer (i + 80) else t.buffer i := by
      intro i
      rw [fill_apply (g := fun _ => vgaEntry charSpace t.color) vgaWidth (fun _ _ _ _ => rfl),
        moveRowsUp_apply]
      rfl
    refine ⟨h.color, ?_, rfl, fun r hr c hc => ?_, fun i hi => ?_⟩
    · rw [hlen']
      show 24 + 1 = _
      omega
    · rw [hlen', hchar]
      refine (hcells _).trans ?_
      by_cases hlow : r < 24
      · rw [if_neg (by omega), if_pos (by omega), show r * 80 + c + 80 = (r + 1) * 80 + c by omega,
          h.cell (r + 1) (by omega) c hc,
          show x.rows.length - 25 + (r + 1) = x.rows.length + 1 - 25 + r by omega]
      · -- the last row of the screen is the new row
        rw [if_pos (by omega), charAt, List.getElem?_eq_none (l := x.rows) (by omega)]
        rfl
    · refine (hcells i).trans ?_
      rw [if_neg (by omega), if_neg (by omega)]
      exact h.outside i hi
  · rw [if_neg hbottom]
    unfold vgaHeight at hbottom
    refine ⟨h.color, ?_, rfl, fun r hr c hc => ?_, h.outside⟩
    · rw [hlen']
      show t.row + 1 + 1 = _
      omega
    · rw [hlen', hchar, show x.rows.length + 1 - 25 + r = x.rows.length - 25 + r by omega]
      exact h.cell r hr c hc

/-- One character. -/
theorem Shows.putchar (h : Shows b₀ x t) (hfit : x.Fits) (c : UInt8) :
    Shows b₀ (x.type c) (terminalPutchar t c) := by
  unfold terminalPutchar Text.type
  by_cases hnl : c = charNewline
  · rw [if_pos hnl, if_pos hnl]
    exact h.newRow
  · rw [if_neg hnl, if_neg hnl]
    have hput := h.put hfit.last_lt c
    by_cases hfull : x.last.length + 1 = 80
    · rw [if_pos hfull]
      have hcol : (terminalPutentryat c t.color t.column t.row t).column + 1 = vgaWidth := by
        show t.column + 1 = 80
        rw [h.column, hfull]
      dsimp only
      rw [if_pos hcol]
      exact hput.newRow
    · rw [if_neg hfull]
      have hcol : ¬(terminalPutentryat c t.color t.column t.row t).column + 1 = vgaWidth := by
        show ¬t.column + 1 = 80
        rw [h.column]
        exact hfull
      dsimp only
      rw [if_neg hcol]
      have hstay := h.row_lt
      rw [terminalScroll_of_lt (by exact hstay)]
      exact hput

/-- Any output. -/
theorem Shows.run : ∀ (cs : List UInt8) {x : Text} {t : Terminal}, Shows b₀ x t → x.Fits →
    Shows b₀ (cs.foldl Text.type x) (cs.foldl terminalPutchar t) ∧ (cs.foldl Text.type x).Fits ∧
    ∀ p ∈ entryCalls t cs, p.1 < 80 ∧ p.2 < 25 := by
  intro cs
  induction cs with
  | nil =>
    intro x t h hfit
    exact ⟨h, hfit, fun p hp => absurd hp List.not_mem_nil⟩
  | cons c cs ih =>
    intro x t h hfit
    obtain ⟨hrun, hfits, hcalls⟩ := ih (h.putchar hfit c) (Text.fits_type hfit c)
    refine ⟨hrun, hfits, fun p hp => ?_⟩
    unfold entryCalls at hp
    dsimp only at hp
    split at hp
    · exact hcalls p hp
    · rcases List.mem_cons.mp hp with rfl | hp
      · have hcol := h.column
        have hlast := hfit.last_lt
        exact ⟨by show t.column < 80; omega, h.row_lt⟩
      · exact hcalls p hp

end Steps

/-- **The screen shows the tail of the output.** After any characters, with
`L` the rows of the text: the rows fit, the screen holds the last 25 of them
(or all, if there are fewer) from the top, with blanks behind and below; the
cursor stands at the end of the last one; every `terminal_putentryat` was
called with a row and a column on the screen, and no cell behind the screen
was written. -/
theorem terminal_shows_tail (t₀ : Terminal) (cs : List UInt8) :
    let t := cs.foldl terminalPutchar (terminalInitialize t₀)
    let x := cs.foldl Text.type Text.empty
    let shown := x.rows.drop (x.rows.length - min 25 x.rows.length)
    (∀ r ∈ x.rows, r.length ≤ 80) ∧ shown.length = min 25 x.rows.length ∧
    (∀ r < 25, ∀ c < 80, t.buffer (r * 80 + c) = vgaEntry (charAt shown r c) t.color) ∧
    t.color = vgaEntryColor vgaColorLightGrey vgaColorBlack ∧
    t.row = shown.length - 1 ∧ t.column = x.last.length ∧ t.row < 25 ∧ t.column < 80 ∧
    (∀ p ∈ entryCalls (terminalInitialize t₀) cs, p.1 < 80 ∧ p.2 < 25 ∧ p.2 * 80 + p.1 < 2000) ∧
    ∀ i, 2000 ≤ i → t.buffer i = t₀.buffer i := by
  intro t x shown
  have hstart : Text.empty.Fits := ⟨fun r hr => absurd hr List.not_mem_nil, Nat.zero_lt_succ 79⟩
  obtain ⟨h, hfit, hcalls⟩ := Shows.run cs (shows_cleared t₀) hstart
  have hshown : shown.length = min 25 x.rows.length := by
    rw [List.length_drop]
    omega
  have hrow : t.row + 1 = min 25 x.rows.length := h.row
  refine ⟨fun r hr => ?_, hshown, fun r hr c hc => ?_, h.color, ?_, h.column, h.row_lt, ?_,
    fun p hp => ?_, h.outside⟩
  · rcases List.mem_append.mp hr with hr | hr
    · exact hfit.above_le r hr
    · rw [List.mem_singleton.mp hr]
      exact Nat.le_of_lt hfit.last_lt
  · rw [h.cell r hr c hc]
    unfold charAt
    rw [List.getElem?_drop, show x.rows.length - min 25 x.rows.length = x.rows.length - 25 by omega]
  · rw [hshown]
    omega
  · have hcol := h.column
    have hlast := hfit.last_lt
    rw [hcol]
    exact hlast
  · obtain ⟨hcol, hrow⟩ := hcalls p hp
    exact ⟨hcol, hrow, by omega⟩

example : ([0x61, 0x62, 0x0A, 0x63].foldl Text.type Text.empty).rows = [[0x61, 0x62], [0x63]] := by
  decide

end MyOS
