/-
**Rewrapping keeps the text.**

When the width of the primary screen changes, each logical line is taken out of its rows, trimmed, and cut
again at the new width.  Wide characters are never split: one that does not fit begins the next row, with a
blank before it, and its spacer is written anew.  So the new line is the old one with blanks put in and with
every spacer made like its head, and the cursor is on the cell on which it was.
-/

import Mathlib.Data.List.Flatten
import Posh.Lib.Lines
import Posh.Term.Pairing
import Posh.Term.Reached

set_option autoImplicit false

namespace Posh.Term

open Lines (Padded IsLine)
open List (append_assoc append_nil forall_mem_cons forall_mem_singleton getElem?_append_left length_append length_take replicate)
open Lines (lines_line)
open Lines
open Cell
open Row

/-! ### Cells -/

/-- What is drawn for a cell: a spacer only after its head. -/
def Cell.drawn (c : Cell) : List Cell :=
  if c.width = 0 then [] else if c.width = 2 then [c, c.spacer] else [c]

/-- The cells, with every spacer written anew after its head. -/
def respaced (cells : List Cell) : List Cell := cells.flatMap Cell.drawn

/-- The cells that show something. -/
def shown (cells : List Cell) : List Cell := cells.filter fun c => !c.isDumpSkippable

/-- The cells of some rows. -/
def cellsOf (rows : List Row) : List Cell := rows.flatMap Row.cells

theorem respaced_append (a b : List Cell) : respaced (a ++ b) = respaced a ++ respaced b :=
  List.flatMap_append

theorem cellsOf_append (a b : List Row) : cellsOf (a ++ b) = cellsOf a ++ cellsOf b :=
  List.flatMap_append

theorem cellsOf_singleton (r : Row) : cellsOf [r] = r.cells := List.flatMap_singleton _ _

theorem Cell.length_drawn {c : Cell} (h : c.width ≤ 2) : c.drawn.length = c.width := by
  rw [drawn]
  split
  case isTrue h0 => rw [h0]; rfl
  case isFalse h0 =>
    split
    case isTrue h2 => rw [h2]; rfl
    case isFalse h2 =>
      show 1 = c.width
      omega

theorem Cell.skippable_drawn {c : Cell} (h : c.isDumpSkippable = true) :
    ∀ x ∈ c.drawn, x.isDumpSkippable = true := by
  have hspacer : c.spacer.isDumpSkippable = true := by
    simp only [isDumpSkippable, isBlank, Bool.and_eq_true, decide_eq_true_eq] at h ⊢
    exact ⟨⟨⟨rfl, rfl⟩, h.1.2⟩, h.2⟩
  rw [drawn]
  split
  · exact List.forall_mem_nil _
  split
  · exact forall_mem_cons.mpr ⟨h, forall_mem_singleton.mpr hspacer⟩
  · exact forall_mem_singleton.mpr h

theorem shown_eq_nil {cells : List Cell} (h : ∀ c ∈ cells, c.isDumpSkippable = true) : shown cells = [] := by
  rw [shown, List.filter_eq_nil_iff]
  intro c hc
  rw [h c hc]
  exact Bool.false_ne_true

theorem shown_respaced_eq_nil {cells : List Cell} (h : ∀ c ∈ cells, c.isDumpSkippable = true) :
    shown (respaced cells) = [] := by
  refine shown_eq_nil fun x hx => ?_
  obtain ⟨c, hc, hx⟩ := List.mem_flatMap.mp hx
  exact skippable_drawn (h c hc) x hx

theorem shown_append (a b : List Cell) : shown (a ++ b) = shown a ++ shown b := List.filter_append ..

theorem shown_padded {a b : List Cell} (h : Padded (blank {}) a b) : shown b = shown a :=
  h.filter (by decide)

/-! ### Cutting a line -/

/-- Every head in a line is followed by a spacer, unless the line ends, and every spacer preceded by a
head. -/
structure LinePaired (line : List Cell) : Prop where
  head : ∀ i, widthAt line i = some 2 → i + 1 < line.length → widthAt line (i + 1) = some 0
  spacer : ∀ i, widthAt line (i + 1) = some 0 → widthAt line i = some 2
  first : widthAt line 0 ≠ some 0
  narrow : ∀ c ∈ line, c.width ≤ 2

namespace LinePaired

variable {line : List Cell} {j : ℕ} {cell : Cell}

theorem take (h : LinePaired line) (n : ℕ) : LinePaired (line.take n) where
  head := by
    intro i hi hlt
    rw [length_take] at hlt
    rw [widthAt_take] at hi ⊢
    rw [if_pos (by omega)] at hi ⊢
    exact h.head i hi (by omega)
  spacer := by
    intro i hi
    rw [widthAt_take] at hi ⊢
    split at hi
    case isTrue hlt =>
      rw [if_pos (by omega)]
      exact h.spacer i hi
    case isFalse => cases hi
  first := by
    rw [widthAt_take]
    split
    · exact h.first
    · exact nofun
  narrow := fun c hc => h.narrow c (List.mem_of_mem_take hc)

theorem of_paired (h : PairedFn (widthAt line)) (hnarrow : ∀ c ∈ line, c.width ≤ 2) : LinePaired line :=
  ⟨fun i hi _ => h.head i hi, h.spacer, h.first, hnarrow⟩

/-- The index after a cell that is drawn, spacers passed over. -/
def next (line : List Cell) (j : ℕ) (cell : Cell) : ℕ :=
  j + if cell.width = 2 ∧ (((line)[j + 1]?).map fun c => decide (c.width = 0)).getD false then 2 else 1

theorem next_gt (line : List Cell) (j : ℕ) (cell : Cell) : j < next line j cell := by
  rw [next]
  split <;> omega

theorem next_spec (h : LinePaired line) (hj : (line)[j]? = some cell) (hzero : cell.width ≠ 0) :
    respaced (line.take (next line j cell)) = respaced (line.take j) ++ cell.drawn ∧
      widthAt line (next line j cell) ≠ some 0 ∧
      (next line j cell < line.length → next line j cell = j + cell.width) := by
  obtain ⟨hlt, hget⟩ := List.getElem?_eq_some_iff.mp hj
  have hwidth : widthAt line j = some cell.width := by rw [widthAt, hj]; rfl
  have hone : respaced (line.take (j + 1)) = respaced (line.take j) ++ cell.drawn := by
    rw [List.take_add_one, hj, respaced_append]
    exact congrArg _ (List.flatMap_singleton _ _)
  have hle := h.narrow cell (List.mem_of_getElem? hj)
  by_cases h2 : cell.width = 2
  · by_cases hmore : j + 1 < line.length
    · have hspacer := h.head j (by rw [hwidth, h2]) hmore
      obtain ⟨s, hs, hs0⟩ := Option.map_eq_some_iff.mp hspacer
      have hnext : next line j cell = j + 2 := by
        rw [next, hs, if_pos ⟨h2, by rw [Option.map_some, hs0]; rfl⟩]
      rw [hnext]
      refine ⟨?_, fun hz => ?_, fun _ => by rw [h2]⟩
      · rw [List.take_add_one, hs, respaced_append, hone, List.append_right_eq_self]
        show s.drawn ++ [] = []
        rw [drawn, if_pos hs0]
        rfl
      · have := h.spacer (j + 1) hz
        rw [hspacer] at this
        cases this
    · have hnone : (line)[j + 1]? = none := List.getElem?_eq_none (by omega)
      have hnext : next line j cell = j + 1 := by
        rw [next, hnone, if_neg (fun hh => Bool.false_ne_true hh.2)]
      rw [hnext]
      refine ⟨hone, ?_, fun hh => absurd hh hmore⟩
      rw [widthAt, hnone]
      simp
  · have hnext : next line j cell = j + 1 := by rw [next, if_neg fun hh => h2 hh.1]
    rw [hnext]
    refine ⟨hone, fun hz => ?_, fun _ => by omega⟩
    have := h.spacer j hz
    rw [hwidth] at this
    exact h2 (Option.some.inj this)

end LinePaired

open LinePaired

namespace Screen

/-- A wide character that does not fit into the row any more begins the next one. -/
def Wrapping.makeRoom (w : Wrapping) (width cw : ℕ) : Wrapping :=
  if w.cur.length + cw > width then
    ({ w with cur := w.cur ++ List.replicate (width - w.cur.length) (Cell.blank {}) } : Wrapping).wrap
  else w

/-- Where the cursor is put when cell `j` is placed. -/
def Wrapping.cursorAt (w : Wrapping) (cursorOff : Option ℕ) (j : ℕ) (cell : Cell) : Option (ℕ × ℕ) :=
  match cursorOff with
  | some off =>
    if off = j ∨ (cell.width = 2 ∧ off = j + 1) then some (w.rows.length, w.cur.length + (off - j))
    else w.cursor
  | none => w.cursor

variable {width : ℕ} {line : List Cell} {w : Wrapping} {j off : ℕ} {cell : Cell}
  {cursorOff : Option ℕ} {done : List Row} {placed : List Cell}

theorem wrapCell_eq (h0 : cell.width ≠ 0) (h2 : cell.width ≤ 2) (hwidth : 2 ≤ width) :
    wrapCell width line cursorOff w j cell = let u := w.makeRoom width cell.width
      (({ u with cur := u.cur ++ cell.drawn, cursor := u.cursorAt cursorOff j cell } : Wrapping).wrapIfFull
        width (next line j cell < line.length), next line j cell) := by
  have hmax : max cell.width 1 = cell.width := by omega
  have hdrawn : cell.drawn = if cell.width = 2 then [cell, cell.spacer] else [cell] := by
    rw [drawn, if_neg h0]
  rw [wrapCell]
  dsimp only
  rw [if_neg h0, hmax, if_neg (by omega), hdrawn]
  cases cursorOff with
  | none => rfl
  | some off =>
    simp only [Wrapping.makeRoom, Wrapping.cursorAt, next]
    split <;> split <;> rfl

/-- **A line that is cut up to cell `j`**: rows that are full and go on, and one that is being filled; what
lies in them is the cells so far with blanks put in. -/
structure Cut (width : ℕ) (done : List Row) (line : List Cell) (w : Wrapping) (j : ℕ)
    (placed : List Cell) : Prop where
  rows : ∃ ws, w.rows = done ++ ws ∧ (∀ r ∈ ws, r.wrapped = true ∧ r.cells.length = width) ∧
    placed = cellsOf ws ++ w.cur
  padded : Padded (Cell.blank {}) (respaced (line.take j)) placed
  len : w.cur.length ≤ width
  room : j < line.length → w.cur.length < width
  boundary : widthAt line j ≠ some 0
  aligned : j < line.length → (respaced (line.take j)).length = j

/-- The cursor is on what became of cell `off`. -/
def Lands (width : ℕ) (done : List Row) (line : List Cell) (placed : List Cell) (off : ℕ)
    (cursor : Option (ℕ × ℕ)) : Prop :=
  ∃ i col, cursor = some (done.length + i, col) ∧ col < width ∧
    Padded (Cell.blank {}) ((respaced line).take off) (placed.take (i * width + col)) ∧
    (respaced line)[off]? = placed[i * width + col]? ∧ i * width + col < placed.length

/-- The cursor waits for its cell, and is on it from then on. -/
def Follows (width : ℕ) (done : List Row) (line : List Cell) (cursorOff : Option ℕ)
    (start : Option (ℕ × ℕ)) (w : Wrapping) (j : ℕ) (placed : List Cell) : Prop :=
  match cursorOff with
  | none => w.cursor = start
  | some off => if off < j then Lands width done line placed off w.cursor else w.cursor = start

theorem Lands.append {cursor : Option (ℕ × ℕ)} (h : Lands width done line placed off cursor)
    (more : List Cell) : Lands width done line (placed ++ more) off cursor := by
  obtain ⟨i, col, hcursor, hcol, hpad, hget, hlt⟩ := h
  refine ⟨i, col, hcursor, hcol, ?_, ?_, ?_⟩
  · rw [List.take_append_of_le_length (Nat.le_of_lt hlt)]
    exact hpad
  · rw [hget, getElem?_append_left hlt]
  · rw [length_append]
    omega

variable {ws : List Row}

theorem length_cellsOf (h : ∀ r ∈ ws, r.cells.length = width) : (cellsOf ws).length = ws.length * width := by
  induction ws with
  | nil => rw [List.length_nil, Nat.zero_mul]; rfl
  | cons r ws ih =>
    obtain ⟨hr, hws⟩ := forall_mem_cons.mp h
    rw [cellsOf, List.flatMap_cons, length_append, hr, List.length_cons, Nat.succ_mul, Nat.add_comm]
    exact congrArg (· + width) (ih hws)

theorem Cut.makeRoom (h : Cut width done line w j placed) {cw : ℕ} (hcw : cw ≤ width) :
    ∃ n ws, (w.makeRoom width cw).rows = done ++ ws ∧ (∀ r ∈ ws, r.wrapped = true ∧ r.cells.length = width) ∧
      placed ++ replicate n (blank {}) = cellsOf ws ++ (w.makeRoom width cw).cur ∧
      (w.makeRoom width cw).cur.length + cw ≤ width ∧ (w.makeRoom width cw).cursor = w.cursor := by
  obtain ⟨ws, hrows, hws, hplaced⟩ := h.rows
  have hlen := h.len
  rw [Wrapping.makeRoom]
  split
  · refine ⟨width - w.cur.length,
      ws ++ [⟨w.cur ++ replicate (width - w.cur.length) (blank {}), true, none⟩], ?_, ?_, ?_, ?_,
      rfl⟩
    · show w.rows ++ [_] = _
      rw [hrows, append_assoc]
    · refine List.forall_mem_append.mpr ⟨hws, forall_mem_singleton.mpr ⟨rfl, ?_⟩⟩
      rw [length_append, List.length_replicate]
      omega
    · show _ = _ ++ []
      rw [append_nil, cellsOf_append, cellsOf_singleton, hplaced, append_assoc]
    · show 0 + cw ≤ width
      omega
  · refine ⟨0, ws, hrows, hws, ?_, by omega, rfl⟩
    rw [List.replicate_zero, append_nil, hplaced]

theorem place {u : Wrapping} (hrows : ∃ ws, u.rows = done ++ ws ∧
      (∀ r ∈ ws, r.wrapped = true ∧ r.cells.length = width) ∧ placed = cellsOf ws ++ u.cur)
    (cells : List Cell) (hroom : u.cur.length + cells.length ≤ width) (hwidth : 0 < width)
    (cursor : Option (ℕ × ℕ)) (more : Prop) [Decidable more] :
    let v := ({ u with cur := u.cur ++ cells, cursor } : Wrapping).wrapIfFull width more
    (∃ ws, v.rows = done ++ ws ∧ (∀ r ∈ ws, r.wrapped = true ∧ r.cells.length = width) ∧
        placed ++ cells = cellsOf ws ++ v.cur) ∧
      v.cur.length ≤ width ∧ (more → v.cur.length < width) ∧ v.cursor = cursor := by
  obtain ⟨ws, hrows, hws, hplaced⟩ := hrows
  have hlen : (u.cur ++ cells).length ≤ width := by
    rw [length_append]
    exact hroom
  dsimp only
  rw [Wrapping.wrapIfFull]
  split
  case isTrue hfull =>
    refine ⟨⟨ws ++ [⟨u.cur ++ cells, true, none⟩], ?_, ?_, ?_⟩, Nat.zero_le _, fun _ => hwidth, rfl⟩
    · show u.rows ++ [_] = _
      rw [hrows, append_assoc]
    · exact List.forall_mem_append.mpr ⟨hws, forall_mem_singleton.mpr ⟨rfl, hfull.1⟩⟩
    · show _ = _ ++ []
      rw [append_nil, cellsOf_append, cellsOf_singleton, hplaced, append_assoc]
  case isFalse hnot =>
    refine ⟨⟨ws, hrows, hws, ?_⟩, hlen, fun hmore => ?_, rfl⟩
    · show _ = cellsOf ws ++ (u.cur ++ cells)
      rw [hplaced, append_assoc]
    · exact Nat.lt_of_le_of_ne hlen fun heq => hnot ⟨heq, by simpa using hmore⟩

theorem lands_place {u : Wrapping} {before rest : List Cell} (hrows : u.rows = done ++ ws)
    (hws : ∀ r ∈ ws, r.wrapped = true ∧ r.cells.length = width) (hplaced : placed = cellsOf ws ++ u.cur)
    (hroom : u.cur.length + cell.width ≤ width) (hzero : cell.width ≠ 0) (hle : cell.width ≤ 2)
    (hline : respaced line = before ++ cell.drawn ++ rest) (hbefore : before.length = j)
    (hpad : Padded (blank {}) before placed) (hoff : off = j ∨ (cell.width = 2 ∧ off = j + 1)) :
    Lands width done line (placed ++ cell.drawn) off (some (u.rows.length, u.cur.length + (off - j))) := by
  obtain ⟨d, rfl⟩ : ∃ d, off = before.length + d := ⟨off - before.length, by omega⟩
  subst hbefore
  have hd : d < cell.drawn.length := by
    rw [length_drawn hle]
    omega
  have hlen : placed.length = ws.length * width + u.cur.length := by
    rw [hplaced, length_append, length_cellsOf fun r hr => (hws r hr).2]
  have hplace : ws.length * width + (u.cur.length + d) = placed.length + d := by omega
  rw [Nat.add_sub_cancel_left]
  refine ⟨ws.length, u.cur.length + d, ?_, ?_, ?_, ?_, ?_⟩
  · rw [hrows, length_append]
  · rw [length_drawn hle] at hd
    omega
  · rw [hplace, hline, append_assoc, List.take_length_add_append, List.take_length_add_append,
      List.take_append_of_le_length (Nat.le_of_lt hd)]
    exact hpad.append (.refl _ _)
  · rw [hplace, hline, append_assoc, List.getElem?_append_right (Nat.le_add_right _ _),
      List.getElem?_append_right (Nat.le_add_right _ _), Nat.add_sub_cancel_left,
      Nat.add_sub_cancel_left, getElem?_append_left hd]
  · rw [hplace, length_append]
    omega

theorem Cut.width_ne_zero (h : Cut width done line w j placed) (hj : (line)[j]? = some cell) : cell.width ≠ 0 := by
  intro h0
  refine h.boundary ?_
  rw [widthAt, hj, Option.map_some, h0]

theorem Cut.lt_wrapCell (h : Cut width done line w j placed) (hline : LinePaired line) (hwidth : 2 ≤ width)
    (hj : (line)[j]? = some cell) : j < (Screen.wrapCell width line cursorOff w j cell).2 := by
  rw [wrapCell_eq (h.width_ne_zero hj) (hline.narrow cell (List.mem_of_getElem? hj)) hwidth]
  exact next_gt line j cell

variable {start : Option (ℕ × ℕ)}

/-- **One cell is placed.** -/
theorem Cut.wrapCell (h : Cut width done line w j placed) (hline : LinePaired line) (hwidth : 2 ≤ width)
    (hj : (line)[j]? = some cell) (hoff : ∀ off, cursorOff = some off → off < line.length)
    (hcursor : Follows width done line cursorOff start w j placed) :
    ∃ placed', Cut width done line (Screen.wrapCell width line cursorOff w j cell).1
        (Screen.wrapCell width line cursorOff w j cell).2 placed' ∧
      Follows width done line cursorOff start (Screen.wrapCell width line cursorOff w j cell).1
        (Screen.wrapCell width line cursorOff w j cell).2 placed' := by
  have hle := hline.narrow cell (List.mem_of_getElem? hj)
  have hlt : j < line.length := (List.getElem?_eq_some_iff.mp hj).1
  have hzero := h.width_ne_zero hj
  obtain ⟨hnext, hboundary, hstep⟩ := hline.next_spec hj hzero
  have hgt := next_gt line j cell
  obtain ⟨n, ws, hrows, hws, hplaced, hroom, hkept⟩ := h.makeRoom (Nat.le_trans hle hwidth)
  rw [wrapCell_eq hzero hle hwidth]
  dsimp only
  generalize w.makeRoom width cell.width = u at *
  have hdrawn := length_drawn hle
  obtain ⟨hrows', hlen', hroom', hcursor'⟩ := place ⟨ws, hrows, hws, hplaced⟩
    cell.drawn (by omega) (by omega) (u.cursorAt cursorOff j cell)
    (next line j cell < line.length)
  have hpad := h.padded.append_blanks n
  refine ⟨placed ++ replicate n (blank {}) ++ cell.drawn,
    ⟨hrows', ?_, hlen', hroom', hboundary, fun hh => ?_⟩, ?_⟩
  · rw [hnext]
    exact hpad.append (.refl _ _)
  · rw [hnext, length_append, h.aligned hlt, hdrawn, hstep hh]
  · have hsplit : respaced line = respaced (line.take j) ++ cell.drawn ++
        respaced (line.drop (next line j cell)) := by
      rw [← hnext, ← respaced_append, List.take_append_drop]
    unfold Follows at hcursor ⊢
    rw [hcursor']
    cases cursorOff with
    | none => exact hkept.trans hcursor
    | some off =>
      have hofflt := hoff off rfl
      dsimp only at hcursor ⊢
      by_cases hhere : off = j ∨ (cell.width = 2 ∧ off = j + 1)
      · have hbefore : off < next line j cell := by
          by_contra hnot
          have := hstep (by omega)
          omega
        rw [if_pos hbefore, Wrapping.cursorAt]
        rw [if_pos hhere]
        exact lands_place hrows hws hplaced hroom hzero hle hsplit (h.aligned hlt) hpad hhere
      · rw [Wrapping.cursorAt]
        rw [if_neg hhere, hkept]
        by_cases hearlier : off < j
        · rw [if_pos hearlier] at hcursor
          rw [if_pos (by omega), append_assoc]
          exact hcursor.append _
        · rw [if_neg hearlier] at hcursor
          have hlater : ¬off < next line j cell := by
            rw [next]
            split
            · omega
            · omega
          rw [if_neg hlater]
          exact hcursor

theorem follows_start : Follows width done line cursorOff start { rows := done, cursor := start } 0 [] := by
  unfold Follows
  cases cursorOff with
  | none => rfl
  | some off =>
    dsimp only
    rw [if_neg (Nat.not_lt_zero off)]

theorem Cut.wrapFrom (h : Cut width done line w j placed) (hline : LinePaired line) (hwidth : 2 ≤ width)
    (hoff : ∀ off, cursorOff = some off → off < line.length)
    (hcursor : Follows width done line cursorOff start w j placed) {fuel : ℕ}
    (hfuel : line.length ≤ j + fuel) : ∃ j' placed', line.length ≤ j' ∧
      Cut width done line (Screen.wrapFrom width line cursorOff fuel w j) j' placed' ∧
      Follows width done line cursorOff start (Screen.wrapFrom width line cursorOff fuel w j) j' placed' := by
  induction fuel generalizing w j placed with
  | zero => exact ⟨j, placed, hfuel, h, hcursor⟩
  | succ fuel ih =>
    rw [Screen.wrapFrom]
    split
    case h_1 hnone => exact ⟨j, placed, List.getElem?_eq_none_iff.mp hnone, h, hcursor⟩
    case h_2 cell hj =>
      obtain ⟨placed', hcut, hfollows⟩ := h.wrapCell hline hwidth hj hoff hcursor
      refine ih hcut hfollows ?_
      have hgt : j < (Screen.wrapCell width line cursorOff w j cell).2 := h.lt_wrapCell hline hwidth hj
      show line.length ≤ (Screen.wrapCell width line cursorOff w j cell).2 + fuel
      omega

/-- The rows that become of a line: of the new width, each going on but the last, with what is shown of the
line in them. -/
structure Rewraps (width : ℕ) (line : List Cell) (new : List Row) : Prop where
  isLine : IsLine Row.wrapped new True
  width : ∀ r ∈ new, r.cells.length = width
  shown : shown (cellsOf new) = shown (respaced line)

/-- Where the cursor came to lie: in row `i` of a new line, on what became of cell `off`. -/
structure LandsIn (width : ℕ) (line : List Cell) (off : ℕ) (new : List Row) (i col : ℕ) : Prop where
  row : i < new.length
  inside : col < width
  before : Padded (Cell.blank {}) ((respaced line).take off) ((cellsOf new).take (i * width + col))
  cell : (cellsOf new)[i * width + col]? = (respaced line)[off]?
  there : off < (respaced line).length

theorem markFirst (done : List Row) (x : Row) (mark : Option SemanticMark)
    (hws : ∀ r ∈ ws, r.wrapped = true ∧ r.cells.length = width) (hx : x.wrapped = false)
    (hlen : x.cells.length = width) :
    ∃ new, (done ++ (ws ++ [x])).modify done.length (fun r => { r with mark }) = done ++ new ∧
      IsLine wrapped new True ∧ (∀ r ∈ new, r.cells.length = width) ∧
      cellsOf new = cellsOf ws ++ x.cells ∧ new.length = ws.length + 1 ∧
      new.map cells = ws.map cells ++ [x.cells] := by
  have hmodify : ∀ l : List Row, (done ++ l).modify done.length (fun r => { r with mark }) =
      done ++ l.modify 0 fun r => { r with mark } := by
    intro l
    induction done with
    | nil => rfl
    | cons d done ih => exact congrArg (d :: ·) ih
  rw [hmodify]
  refine ⟨_, rfl, ?_⟩
  cases ws with
  | nil =>
    refine ⟨.singleton fun _ => hx, ?_, ?_, rfl, rfl⟩
    · exact forall_mem_singleton.mpr hlen
    · exact List.flatMap_singleton _ _
  | cons r ws =>
    obtain ⟨hr, hrest⟩ := forall_mem_cons.mp hws
    have hfirst : (r :: ws ++ [x]).modify 0 (fun r => { r with mark }) = ({ r with mark } :: ws) ++ [x] :=
      rfl
    rw [hfirst]
    refine ⟨?_, ?_, ?_, ?_, ?_⟩
    · exact (IsLine.of_more (fun y hy => (hrest y hy).1) fun _ => hx).cons hr.1
    · refine forall_mem_cons.mpr ⟨hr.2, List.forall_mem_append.mpr ⟨fun y hy => (hrest y hy).2, ?_⟩⟩
      exact forall_mem_singleton.mpr hlen
    · show r.cells ++ cellsOf (ws ++ [x]) = r.cells ++ cellsOf ws ++ x.cells
      rw [cellsOf_append, cellsOf_singleton, append_assoc]
    · show (ws ++ [x]).length + 1 = ws.length + 1 + 1
      rw [length_append, List.length_singleton]
    · exact List.map_append

theorem wrapLine_eq (width : ℕ) (line : List Cell) (mark : Option SemanticMark) (cursorOff : Option ℕ)
    (done : List Row) (start : Option (ℕ × ℕ)) :
    ∃ keep, shownLength line ≤ keep ∧ (∀ off, cursorOff = some off → off < keep) ∧
      wrapLine width line mark cursorOff done start =
        let w := wrapFrom width (line.take keep) cursorOff (line.take keep).length
          { rows := done, cursor := start } 0
        let last : Row :=
          { cells := w.cur.take width ++ replicate (width - w.cur.length) (blank {}) }
        let rows := (w.rows ++ [last]).modify done.length fun r => { r with mark }
        (rows, if cursorOff.isSome ∧ w.cursor = none then
          some (rows.length - 1, min (shownLength last.cells) (width - 1)) else w.cursor) := by
  cases cursorOff with
  | none => exact ⟨shownLength line, Nat.le_refl _, fun off h => (by cases h), rfl⟩
  | some off =>
    refine ⟨max (shownLength line) (off + 1), Nat.le_max_left _ _, fun off' h => ?_, rfl⟩
    cases h
    omega

/-- **What becomes of one line.** -/
theorem wrapLine_spec (done : List Row) (hline : LinePaired line) (hwidth : 2 ≤ width) (mark : Option SemanticMark)
    (start : Option (ℕ × ℕ)) (hoff : ∀ off, cursorOff = some off → off < line.length) :
    ∃ new, (wrapLine width line mark cursorOff done start).1 = done ++ new ∧ Rewraps width line new ∧
      (cursorOff = none → (wrapLine width line mark cursorOff done start).2 = start) ∧
      ∀ off, cursorOff = some off → ∃ i col, LandsIn width line off new i col ∧
        (wrapLine width line mark cursorOff done start).2 = some (done.length + i, col) := by
  obtain ⟨keep, hshown, hkeep, heq⟩ := wrapLine_eq width line mark cursorOff done start
  have hcursorKept : ∀ off, cursorOff = some off → off < (line.take keep).length := by
    intro off h
    have hlt := hoff off h
    have hle := hkeep off h
    rw [length_take]
    omega
  have hstart : Cut width done (line.take keep) { rows := done, cursor := start } 0 [] :=
    ⟨⟨[], (append_nil _).symm, List.forall_mem_nil _, rfl⟩, .nil, Nat.zero_le _, fun _ => by
      show 0 < width
      omega, (hline.take keep).first, fun _ => rfl⟩
  obtain ⟨j, placed, hend, hcut, hcursor⟩ := hstart.wrapFrom (hline.take keep) hwidth hcursorKept
    follows_start (Nat.le_add_left (line.take keep).length 0)
  rw [heq]
  dsimp only
  generalize Screen.wrapFrom width (line.take keep) cursorOff (line.take keep).length
    { rows := done, cursor := start } 0 = w at hcut hcursor
  obtain ⟨ws, hrows, hws, hplaced⟩ := hcut.rows
  have hcurlen := hcut.len
  have hlast : (w.cur.take width ++ replicate (width - w.cur.length) (blank {})).length = width := by
    rw [List.take_of_length_le hcurlen, length_append, List.length_replicate]
    omega
  obtain ⟨new, hnew, hisLine, hwidths, hcells, hcount, -⟩ := markFirst done
    { cells := w.cur.take width ++ replicate (width - w.cur.length) (blank {}) } mark hws rfl hlast
  dsimp only at hcells
  rw [List.take_of_length_le hcurlen, ← append_assoc, ← hplaced] at hcells
  rw [hrows, append_assoc, hnew]
  have hpad := hcut.padded
  rw [List.take_of_length_le hend] at hpad
  have hsplit : respaced line = respaced (line.take keep) ++ respaced (line.drop keep) := by
    rw [← respaced_append, List.take_append_drop]
  refine ⟨new, rfl, ⟨hisLine, hwidths, ?_⟩, fun hnone => ?_, fun off hsome => ?_⟩
  · -- what was trimmed shows nothing
    have hdropped : shown (respaced (line.drop keep)) = [] := by
      refine shown_respaced_eq_nil fun c hc => ?_
      obtain ⟨k, hk⟩ := List.mem_iff_getElem?.mp hc
      rw [List.getElem?_drop] at hk
      exact skippable_of_shownLength_le (by omega) hk
    rw [hcells, shown_padded (hpad.append_blanks _), hsplit, shown_append, hdropped, append_nil]
  · subst hnone
    rw [if_neg (fun h => Bool.false_ne_true h.1)]
    exact hcursor
  · subst hsome
    have hofflt := hcursorKept off rfl
    have hlands : Lands width done (line.take keep) placed off w.cursor := by
      unfold Follows at hcursor
      dsimp only at hcursor
      rw [if_pos (by omega)] at hcursor
      exact hcursor
    obtain ⟨i, col, hat, hcol, hbefore, hcell, hlt⟩ := hlands
    have hthere : off < (respaced (line.take keep)).length := by
      rw [List.getElem?_eq_getElem hlt] at hcell
      exact (List.getElem?_eq_some_iff.mp hcell).1
    refine ⟨i, col, ⟨?_, hcol, ?_, ?_, ?_⟩, ?_⟩
    · have hplen : placed.length = ws.length * width + w.cur.length := by
        rw [hplaced, length_append, length_cellsOf fun r hr => (hws r hr).2]
      rw [hcount]
      by_contra hge
      have := Nat.mul_le_mul_right width (Nat.le_of_not_lt hge)
      rw [Nat.succ_mul] at this
      omega
    · rw [hcells, hsplit, List.take_append_of_le_length (Nat.le_of_lt hthere),
        List.take_append_of_le_length (Nat.le_of_lt hlt)]
      exact hbefore
    · rw [hcells, hsplit, getElem?_append_left hthere, getElem?_append_left hlt, hcell]
    · rw [hsplit, length_append]
      omega
    · rw [if_neg (fun h => by rw [hat] at h; cases h.2)]
      exact hat

/-! ### All lines -/

/-- How many cells of its line come before the cell at column `c` of row `r`. -/
def offset (rows : List Row) (r c : ℕ) : ℕ := (cellsOf (Lines.before Row.wrapped rows r)).length + c

/-- **Column `c'` of row `r'` is what became of column `c` of row `r`**: it is in the same line, holds the
same cell, and before it is what was before, with blanks put in. -/
def SameCell (old : List Row) (r c : ℕ) (new : List Row) (r' c' : ℕ) : Prop :=
  Lines.lineOf Row.wrapped new r' = Lines.lineOf Row.wrapped old r ∧
    ∃ l l', (Lines.lines Row.wrapped old)[Lines.lineOf Row.wrapped old r]? = some l ∧
      (Lines.lines Row.wrapped new)[Lines.lineOf Row.wrapped old r]? = some l' ∧
      Padded (Cell.blank {}) ((respaced (cellsOf l)).take (offset old r c))
        ((cellsOf l').take (offset new r' c')) ∧
      (cellsOf l')[offset new r' c']? = (respaced (cellsOf l))[offset old r c]? ∧
      offset old r c < (respaced (cellsOf l)).length

variable {l new old rest : List Row} {r c r' c' : ℕ}

theorem SameCell.first {later : List Row} (hold : IsLine wrapped l (rest ≠ []))
    (hr : r < l.length) (hnew : Rewraps width (cellsOf l) new)
    (h : LandsIn width (cellsOf l) ((cellsOf (l.take r)).length + c) new r' c') :
    SameCell (l ++ rest) r c (new ++ later) r' c' := by
  have hbefore : offset (l ++ rest) r c = (cellsOf (l.take r)).length + c := by
    rw [offset, before_line hold hr]
  have hafter : offset (new ++ later) r' c' = r' * width + c' := by
    rw [offset, before_line hnew.isLine h.row,
      length_cellsOf fun x hx => hnew.width x (List.mem_of_mem_take hx), length_take,
      Nat.min_eq_left (Nat.le_of_lt h.row)]
  have hline : lineOf wrapped (l ++ rest) r = 0 := lineOf_line hold hr rest
  rw [SameCell, hline, lineOf_line hnew.isLine h.row, lines_line hold,
    lines_line (hnew.isLine.mono fun _ => trivial), hbefore, hafter]
  exact ⟨rfl, l, new, rfl, rfl, h.before, h.cell, h.there⟩

theorem SameCell.later {later : List Row} (h : SameCell rest r c later r' c')
    (hold : IsLine wrapped l True) (hnew : IsLine wrapped new True) :
    SameCell (l ++ rest) (l.length + r) c (new ++ later) (new.length + r') c' := by
  obtain ⟨hline, x, x', hx, hx', hpad, hcell, hlt⟩ := h
  have hbefore : offset (l ++ rest) (l.length + r) c = offset rest r c := by
    rw [offset, offset, before_append hold]
  have hafter : offset (new ++ later) (new.length + r') c' = offset later r' c' := by
    rw [offset, offset, before_append hnew]
  rw [SameCell, lineOf_append hold, lineOf_append hnew, hline,
    lines_line (hold.mono fun _ => trivial), lines_line (hnew.mono fun _ => trivial), hbefore,
    hafter]
  exact ⟨rfl, x, x', hx, hx', hpad, hcell, hlt⟩

theorem takeLine_spec (r : Row) (rest : List Row) :
    (takeLine (r :: rest)).1 ++ (takeLine (r :: rest)).2 = r :: rest ∧
      IsLine wrapped (takeLine (r :: rest)).1 ((takeLine (r :: rest)).2 ≠ []) := by
  induction rest generalizing r with
  | nil =>
    rw [takeLine]
    split
    · exact ⟨rfl, .singleton fun h => absurd rfl h⟩
    · exact ⟨rfl, .singleton fun h => absurd rfl h⟩
  | cons x rest ih =>
    rw [takeLine]
    split
    case isTrue hmore =>
      obtain ⟨happend, hline⟩ := ih x
      exact ⟨congrArg (r :: ·) happend, hline.cons hmore⟩
    case isFalse hover =>
      exact ⟨rfl, .singleton fun _ => Bool.not_eq_true _ ▸ hover⟩

theorem linePaired_cellsOf {rows : List Row} (h : ∀ r ∈ rows, r.Paired ∧ ∀ c ∈ r.cells, c.width ≤ 2) :
    LinePaired (cellsOf rows) := by
  have hpaired : PairedFn (widthAt (cellsOf rows)) := by
    induction rows with
    | nil => exact .of_cells (List.forall_mem_nil _)
    | cons r rows ih =>
      obtain ⟨hr, hrows⟩ := forall_mem_cons.mp h
      exact .append hr.1 (ih hrows)
  refine .of_paired hpaired fun c hc => ?_
  obtain ⟨r, hr, hc⟩ := List.mem_flatMap.mp hc
  exact (h r hr).2 c hc

theorem offset_lt {rows : List Row} {k : ℕ} {row : Row} (hrow : rows[k]? = some row) {col : ℕ}
    (hcol : col < row.cells.length) : (cellsOf (rows.take k)).length + col < (cellsOf rows).length := by
  obtain ⟨hlt, hget⟩ := List.getElem?_eq_some_iff.mp hrow
  have hsplit : cellsOf rows = cellsOf (rows.take k) ++ (row.cells ++ cellsOf (rows.drop (k + 1))) := by
    conv_lhs => rw [← List.take_append_drop k rows, List.drop_eq_getElem_cons hlt, hget]
    rw [cellsOf_append]
    rfl
  rw [hsplit, length_append, length_append]
  omega

theorem cursorOff_lt {cursorAbs cursorCol i : ℕ} (hcol : ∀ row, i ≤ cursorAbs → cursorAbs - i < l.length →
      l[cursorAbs - i]? = some row → cursorCol < row.cells.length) (off : ℕ)
    (h : (if i ≤ cursorAbs ∧ cursorAbs < i + l.length then
      some ((cellsOf (l.take (cursorAbs - i))).length + cursorCol) else none) = some off) :
    off < (cellsOf l).length := by
  split at h
  case isFalse => cases h
  case isTrue hin =>
    obtain rfl := Option.some.inj h
    have hlt : cursorAbs - i < l.length := by omega
    have hget : l[cursorAbs - i]? = some l[cursorAbs - i] := List.getElem?_eq_getElem hlt
    exact offset_lt hget (hcol _ hin.1 hlt hget)

/-- What becomes of some rows: line for line, and rows after them are not joined to them. -/
structure RewrapsAll (width : ℕ) (old new : List Row) : Prop where
  lines : List.Forall₂ (fun l l' => Rewraps width (cellsOf l) l') (Lines.lines Row.wrapped old)
    (Lines.lines Row.wrapped new)
  ends : ∀ more, Lines.lines Row.wrapped (new ++ more) =
    Lines.lines Row.wrapped new ++ Lines.lines Row.wrapped more

/-- **What becomes of all lines.** -/
theorem wrapLines_spec (hwidth : 2 ≤ width) (cursorAbs cursorCol : ℕ) {fuel : ℕ} (i : ℕ) (done : List Row)
    (start : Option (ℕ × ℕ)) (hold : ∀ r ∈ old, r.Paired ∧ ∀ c ∈ r.cells, c.width ≤ 2)
    (hcol : ∀ r, i ≤ cursorAbs → old[cursorAbs - i]? = some r → cursorCol < r.cells.length)
    (hfuel : old.length ≤ fuel) :
    ∃ new, (wrapLines width cursorAbs cursorCol fuel i old done start).1 = done ++ new ∧
      RewrapsAll width old new ∧ (¬(i ≤ cursorAbs ∧ cursorAbs < i + old.length) →
        (wrapLines width cursorAbs cursorCol fuel i old done start).2 = start) ∧
      (i ≤ cursorAbs → cursorAbs < i + old.length → ∃ r' c',
        (wrapLines width cursorAbs cursorCol fuel i old done start).2 = some (done.length + r', c') ∧
          r' < new.length ∧ c' < width ∧ SameCell old (cursorAbs - i) cursorCol new r' c') := by
  induction fuel generalizing i old done start with
  | zero =>
    obtain rfl : old = [] := List.length_eq_zero_iff.mp (Nat.le_zero.mp hfuel)
    refine ⟨[], (append_nil _).symm, ⟨.nil, fun _ => rfl⟩, fun _ => rfl, fun hle hlt => ?_⟩
    exact absurd hlt (Nat.not_lt.mpr hle)
  | succ fuel ih =>
    cases old with
    | nil =>
      refine ⟨[], (append_nil _).symm, ⟨.nil, fun _ => rfl⟩, fun _ => rfl, fun hle hlt => ?_⟩
      exact absurd hlt (Nat.not_lt.mpr hle)
    | cons r rest =>
      obtain ⟨happend, hline⟩ := takeLine_spec r rest
      rw [wrapLines]
      generalize takeLine (r :: rest) = p at happend hline ⊢
      obtain ⟨l, later⟩ := p
      dsimp only at happend hline ⊢
      rw [← happend] at hold hcol hfuel ⊢
      rw [length_append] at hfuel ⊢
      have hne := List.length_pos_iff.mpr hline.ne_nil
      obtain ⟨hl, hlater⟩ := List.forall_mem_append.mp hold
      obtain ⟨new, hnew, hrewraps, hnone, hsome⟩ := wrapLine_spec done (linePaired_cellsOf hl)
        hwidth (l.findSome? mark) start (cursorOff_lt fun row hle hlt hget => hcol row hle (by
          rw [getElem?_append_left hlt]
          exact hget))
      have hcolLater : ∀ row, i + l.length ≤ cursorAbs → later[cursorAbs - (i + l.length)]? = some row →
          cursorCol < row.cells.length := by
        intro row hle hget
        refine hcol row (by omega) ?_
        rw [List.getElem?_append_right (by omega), Nat.sub_sub]
        exact hget
      unfold cellsOf at hnew hnone hsome
      generalize wrapLine width (l.flatMap cells) (l.findSome? mark) _ done start = res
        at hnew hnone hsome ⊢
      obtain ⟨rows, mid⟩ := res
      dsimp only at hnew hnone hsome ⊢
      subst hnew
      obtain ⟨news, hnews, hall, hout, hin⟩ := ih (i + l.length) (done ++ new) mid hlater hcolLater (by omega)
      have hlines := lines_line hline
      have hnewLine : ∀ b : List Row, IsLine wrapped new (b ≠ []) :=
        fun b => hrewraps.isLine.mono fun _ => trivial
      refine ⟨new ++ news, by rw [hnews, append_assoc], ⟨?_, fun more => ?_⟩, fun hnot => ?_,
        fun hle hlt => ?_⟩
      · rw [hlines, lines_line (hnewLine news)]
        exact .cons hrewraps hall.lines
      · rw [append_assoc, lines_line (hnewLine _), lines_line (hnewLine _), hall.ends]
        rfl
      · rw [hout (by omega)]
        exact hnone (if_neg (by omega))
      · by_cases hfirst : cursorAbs < i + l.length
        · obtain ⟨r', c', hlands, hmid⟩ := hsome _ (if_pos ⟨hle, hfirst⟩)
          refine ⟨r', c', by rw [hout (by omega), hmid], ?_, hlands.inside, ?_⟩
          · have hrow := hlands.row
            rw [length_append]
            omega
          · exact .first hline (by omega) hrewraps hlands
        · obtain ⟨r', c', hat, hrow, hinside, hsame⟩ := hin (by omega) (by omega)
          have hover : IsLine wrapped l True := hline.mono fun _ h => by
            rw [h, List.length_nil] at hlt
            omega
          refine ⟨new.length + r', c', ?_, ?_, hinside, ?_⟩
          · rw [hat, length_append, Nat.add_assoc]
          · rw [length_append]
            omega
          · have hmoved := hsame.later hover hrewraps.isLine
            rw [show l.length + (cursorAbs - (i + l.length)) = cursorAbs - i by omega] at hmoved
            exact hmoved

theorem SameCell.append (h : SameCell old r c new r' c') (hr : r' < new.length) {more : List Row}
    (hover : lines wrapped (new ++ more) = lines wrapped new ++ lines wrapped more) :
    SameCell old r c (new ++ more) r' c' := by
  obtain ⟨hline, x, x', hx, hx', hpad, hcell, hlt⟩ := h
  have htake : (new ++ more).take r' = new.take r' := List.take_append_of_le_length (Nat.le_of_lt hr)
  have hafter : offset (new ++ more) r' c' = offset new r' c' := by
    rw [offset, offset, before, before, htake]
  refine ⟨by rw [lineOf, htake]; exact hline, x, x', hx, ?_, ?_, ?_, hlt⟩
  · rw [hover, getElem?_append_left (List.getElem?_eq_some_iff.mp hx').1]
    exact hx'
  · rw [hafter]
    exact hpad
  · rw [hafter]
    exact hcell

/-! ### A change of the width -/

/-- All rows, the oldest first. -/
def allRows (s : Screen) : List Row := s.scrollback ++ s.grid

/-- The rows that are rewrapped: blank ones below the cursor are left out. -/
def keptRows (s : Screen) (cursor : ℕ × ℕ) : List Row :=
  dropBlankRows (s.scrollback.length + cursor.1 + 1) s.allRows

/-- The rows at the new width, and the cursor among them. -/
def rewrapped (s : Screen) (width : ℕ) (cursor : ℕ × ℕ) : List Row × Option (ℕ × ℕ) :=
  wrapLines width (s.scrollback.length + cursor.1) cursor.2 (s.keptRows cursor).length 0
    (s.keptRows cursor) [] none

theorem dropBlankRows_spec (keep : ℕ) (rows : List Row) : ∃ dropped, rows = dropBlankRows keep rows ++ dropped ∧
      (∀ r ∈ dropped, r.isSkippable = true ∧ r.wrapped = false) ∧
      min keep rows.length ≤ (dropBlankRows keep rows).length := by
  have hsplit := List.rdropWhile_append_rtakeWhile (p := fun r : Row => r.isSkippable && !r.wrapped)
    (l := rows.drop keep)
  refine ⟨(rows.drop keep).rtakeWhile fun r => r.isSkippable && !r.wrapped, ?_, fun r hr => ?_, ?_⟩
  · rw [dropBlankRows, ← List.rdropWhile, append_assoc, hsplit, List.take_append_drop]
  · have h := List.mem_rtakeWhile_imp hr
    rw [Bool.and_eq_true, Bool.not_eq_true'] at h
    exact h
  · rw [dropBlankRows, length_append, length_take]
    omega

theorem reflowWidth_eq (s : Screen) (width : ℕ) (cursor : ℕ × ℕ) :
    s.reflowWidth width cursor = let rows := (s.rewrapped width cursor).1
      let cur := (s.rewrapped width cursor).2.getD (0, 0)
      let start := min cur.1 (rows.length - s.rows)
      let rows := if cur.1 < rows.length - s.rows then rows.take (start + s.rows) else rows
      ({ s with
          grid := rows.drop start ++ replicate (s.rows - (rows.drop start).length) (blank width {})
          scrollback := (rows.take start).drop ((rows.take start).length - s.maxScrollback)
          cols := width }, (cur.1 - start, cur.2)) := rfl

/-- **What becomes of a screen whose width changes.** -/
theorem reflowWidth_spec {s : Screen} {rows cols ring : ℕ} (h : s.Fits (fun c => c.width ≤ 2) rows cols ring)
    (hpaired : s.Paired) (hwidth : 2 ≤ width) {cursor : ℕ × ℕ} (hrow : cursor.1 < s.rows)
    (hcol : cursor.2 < s.cols)
    (hfit : (s.rewrapped width cursor).1.length ≤ ((s.rewrapped width cursor).2.getD (0, 0)).1 + s.rows)
    (hring : (s.rewrapped width cursor).1.length ≤ s.maxScrollback + s.rows) :
    let r := s.reflowWidth width cursor
    ∃ new n, r.1.allRows = new ++ replicate n (blank width {}) ∧ r.1.grid.length = s.rows ∧
      RewrapsAll width (s.keptRows cursor) new ∧ r.2.1 < s.rows ∧ r.2.2 < width ∧
      SameCell (s.keptRows cursor) (s.scrollback.length + cursor.1) cursor.2 r.1.allRows
        (r.1.scrollback.length + r.2.1) r.2.2 := by
  obtain ⟨dropped, hall, -, hlen⟩ := dropBlankRows_spec (s.scrollback.length + cursor.1 + 1) s.allRows
  have hheight : s.allRows.length = s.scrollback.length + s.rows := by
    rw [allRows, length_append, h.height, h.rows_eq]
  have hcursor : s.scrollback.length + cursor.1 < (s.keptRows cursor).length := by
    rw [keptRows]
    omega
  have hmem : ∀ r ∈ s.keptRows cursor, r ∈ s.allRows := dropBlankRows_subset _ _
  have hrows : ∀ r ∈ s.keptRows cursor, r.Paired ∧ ∀ c ∈ r.cells, c.width ≤ 2 := by
    intro r hr
    rcases List.mem_append.mp (hmem r hr) with hr | hr
    · exact ⟨hpaired.scrollback r hr, (h.scrollback r hr).cells⟩
    · exact ⟨hpaired.grid r hr, (h.grid r hr).cells⟩
  have hcols : ∀ r ∈ s.keptRows cursor, r.cells.length = s.cols := by
    intro r hr
    rw [h.cols_eq]
    rcases List.mem_append.mp (hmem r hr) with hr | hr
    · exact (h.scrollback r hr).width
    · exact (h.grid r hr).width
  obtain ⟨new, hnew, hrewraps, -, hfound⟩ := wrapLines_spec hwidth (s.scrollback.length + cursor.1)
    cursor.2 0 [] none hrows
    (fun r _ hr => by
      rw [hcols r (List.mem_of_getElem? hr)]
      exact hcol) (Nat.le_refl _)
  obtain ⟨r', c', hat, hrow', hinside, hsame⟩ := hfound (Nat.zero_le _) (by omega)
  rw [← rewrapped] at hnew hat
  rw [List.nil_append] at hnew
  rw [List.length_nil, Nat.zero_add] at hat
  rw [Nat.sub_zero] at hsame
  rw [hnew, hat, Option.getD_some] at hfit
  rw [hnew] at hring
  dsimp only at hfit
  have heq := reflowWidth_eq s width cursor
  rw [hnew, hat, Option.getD_some] at heq
  dsimp only at heq
  rw [if_neg (by omega), Nat.min_eq_right (by omega)] at heq
  have habove : (new.take (new.length - s.rows)).length - s.maxScrollback = 0 := by
    rw [length_take]
    omega
  rw [habove, List.drop_zero] at heq
  intro r
  obtain ⟨hscreen, hcursor'⟩ := Prod.ext_iff.mp heq
  have hscrollback : r.1.scrollback = new.take (new.length - s.rows) := congrArg Screen.scrollback hscreen
  have hgrid : r.1.grid = new.drop (new.length - s.rows) ++
      replicate (s.rows - (new.drop (new.length - s.rows)).length) (blank width {}) :=
    congrArg Screen.grid hscreen
  have hallRows : r.1.allRows = new ++
      replicate (s.rows - (new.drop (new.length - s.rows)).length) (blank width {}) := by
    rw [allRows, hscrollback, hgrid, ← append_assoc, List.take_append_drop]
  have hcur : r.2 = (r' - (new.length - s.rows), c') := hcursor'
  refine ⟨new, _, hallRows, ?_, hrewraps, ?_, ?_, ?_⟩
  · rw [hgrid, length_append, List.length_replicate, List.length_drop]
    omega
  · rw [hcur]
    show r' - (new.length - s.rows) < s.rows
    omega
  · rw [hcur]
    exact hinside
  · rw [hcur, hscrollback, length_take, hallRows,
      show min (new.length - s.rows) new.length + (r' - (new.length - s.rows)) = r' by omega]
    exact hsame.append hrow' (hrewraps.ends _)

theorem resize_width {s : Screen} {width : ℕ} (hwidth : 2 ≤ width) (hrows : 0 < s.rows) (cursor : ℕ × ℕ)
    (hne : width ≠ s.cols) (hgrid : (s.reflowWidth width cursor).1.grid.length = s.rows) :
    (s.resize s.rows width cursor true).1.allRows = (s.reflowWidth width cursor).1.allRows ∧
      (s.resize s.rows width cursor true).1.scrollback = (s.reflowWidth width cursor).1.scrollback ∧
      (s.resize s.rows width cursor true).2 = (min (s.reflowWidth width cursor).2.1 (s.rows - 1),
        min (s.reflowWidth width cursor).2.2 (width - 1)) := by
  rw [resize, Nat.max_eq_left (by omega : 1 ≤ s.rows), Nat.max_eq_left (by omega : 1 ≤ width)]
  dsimp only
  rw [if_pos hne, if_pos rfl]
  generalize s.reflowWidth width cursor = r at hgrid ⊢
  obtain ⟨screen, row, col⟩ := r
  dsimp only at hgrid ⊢
  rw [hgrid, Nat.sub_self, shrink]
  dsimp only
  rw [hgrid, Nat.sub_self, grow]
  exact ⟨rfl, rfl, rfl⟩

/-- **A change of the width keeps the text.**  At the old height, for a screen of whole wide characters: every
row gets the new width; the logical lines are the same, in order, down to the last one that is kept, with the
same cells that show something, where every spacer counts as its head's; and the cursor is on the cell on
which it was.  Rows that are left out, and rows that are added, are blank. -/
theorem resize_keeps_text {s : Screen} {rows cols ring : ℕ} (h : s.Fits (fun c => c.width ≤ 2) rows cols ring)
    (hpaired : s.Paired) {width : ℕ} (hwidth : 2 ≤ width) {cursor : ℕ × ℕ} (hrow : cursor.1 < s.rows)
    (hcol : cursor.2 < s.cols)
    (hfit : width ≠ s.cols →
      (s.rewrapped width cursor).1.length ≤ ((s.rewrapped width cursor).2.getD (0, 0)).1 + s.rows)
    (hring : width ≠ s.cols → (s.rewrapped width cursor).1.length ≤ s.maxScrollback + s.rows) :
    let r := s.resize s.rows width cursor true
    (∀ row ∈ r.1.allRows, row.cells.length = width) ∧ (width = s.cols → r = (s, cursor)) ∧
      (width ≠ s.cols → ∃ dropped lines n, s.allRows = s.keptRows cursor ++ dropped ∧
          (∀ row ∈ dropped, row.isSkippable = true ∧ row.wrapped = false) ∧
          Lines.lines Row.wrapped r.1.allRows = lines ++ List.replicate n [Row.blank width {}] ∧
          List.Forall₂ (fun l l' => shown (cellsOf l') = shown (respaced (cellsOf l)))
            (Lines.lines Row.wrapped (s.keptRows cursor)) lines ∧ r.2.1 < s.rows ∧ r.2.2 < width ∧
          SameCell (s.keptRows cursor) (s.scrollback.length + cursor.1) cursor.2 r.1.allRows
            (r.1.scrollback.length + r.2.1) r.2.2) := by
  have hlaw : CellLaw fun c : Cell => c.width ≤ 2 := ⟨Nat.le_succ 1, fun _ _ _ => Nat.zero_le _⟩
  have hfits := h.resize hlaw s.rows width cursor true
  rw [Nat.max_eq_left (by omega : 1 ≤ width)] at hfits
  intro r
  refine ⟨fun row hmem => ?_, fun heq => ?_, fun hne => ?_⟩
  · rcases List.mem_append.mp hmem with hmem | hmem
    · exact (hfits.scrollback row hmem).width
    · exact (hfits.grid row hmem).width
  · have hheight : s.grid.length = s.rows := h.height.trans h.rows_eq.symm
    show s.resize s.rows width cursor true = (s, cursor)
    rw [resize, Nat.max_eq_left (by omega : 1 ≤ s.rows), Nat.max_eq_left (by omega : 1 ≤ width)]
    dsimp only
    rw [if_neg (by rw [heq]; exact fun hh => hh rfl)]
    dsimp only
    rw [hheight, Nat.sub_self, shrink]
    dsimp only
    rw [hheight, Nat.sub_self, grow, Nat.min_eq_left (by omega)]
  · obtain ⟨dropped, hdropped, hblank, -⟩ := dropBlankRows_spec (s.scrollback.length + cursor.1 + 1) s.allRows
    obtain ⟨new, n, hall, hgrid, hrewraps, hrow', hcol', hsame⟩ :=
      reflowWidth_spec h hpaired hwidth hrow hcol (hfit hne) (hring hne)
    obtain ⟨hrows, hscrollback, hcursor⟩ := resize_width hwidth (by omega) cursor hne hgrid
    rw [Nat.min_eq_left (by omega), Nat.min_eq_left (by omega)] at hcursor
    refine ⟨dropped, Lines.lines Row.wrapped new, n, hdropped, hblank, ?_, ?_, ?_, ?_, ?_⟩
    · have hsingles : Lines.lines Row.wrapped (List.replicate n (Row.blank width {})) =
          List.replicate n [Row.blank width {}] := by
        rw [Lines.lines_singles fun r hr => by rw [List.eq_of_mem_replicate hr]; rfl, List.map_replicate]
      rw [hrows, hall, hrewraps.ends, hsingles]
    · exact hrewraps.lines.imp fun _ _ hh => hh.shown
    · rw [hcursor]
      exact hrow'
    · rw [hcursor]
      exact hcol'
    · rw [hrows, hscrollback, hcursor]
      exact hsame

/-- A wide character, a red one, and what is between their columns deleted. -/
def splice : List UInt8 :=
  [0xE3, 0x81, 0x82, 0x1B, 0x5B, 0x34, 0x31, 0x6D, 0xE3, 0x81, 0x84, 0x1B, 0x5B, 0x32, 0x47,
    0x1B, 0x5B, 0x32, 0x50]

/-- The head of the one before the spacer of the other. -/
def spliced : Screen where
  rows := 1
  cols := 6
  grid := [{ cells := [{ ch := 'あ', width := 2 }, { ch := Cell.nul, style := { bg := .indexed 1 }, width := 0 },
    Cell.blank {}, Cell.blank {}, Cell.blank {}, Cell.blank {}] }]
  maxScrollback := 0

theorem paired_spliced : spliced.Paired := by
  have hwide : PairedFn (widthAt [{ ch := 'あ', width := 2 },
      { ch := nul, style := { bg := .indexed 1 }, width := 0 }]) := .wide rfl rfl
  exact ⟨forall_mem_singleton.mpr (hwide.append (.blanks 4)), List.forall_mem_nil _⟩

theorem spliced_keeps_text : ∃ lines n, Lines.lines Row.wrapped (spliced.resize 1 5 (0, 1) true).1.allRows =
        lines ++ List.replicate n [Row.blank 5 {}] ∧
      List.Forall₂ (fun l l' => shown (cellsOf l') = shown (respaced (cellsOf l)))
        (Lines.lines Row.wrapped (spliced.keptRows (0, 1))) lines := by
  have hfits : spliced.Fits (fun c => c.width ≤ 2) 1 6 0 :=
    ⟨rfl, rfl, rfl, rfl, List.forall_mem_singleton.mpr ⟨rfl, by decide⟩, List.forall_mem_nil _, Nat.le_refl _⟩
  obtain ⟨-, -, hchange⟩ := @resize_keeps_text spliced 1 6 0 hfits paired_spliced 5 (by decide) (0, 1)
    (by decide) (by decide) (fun _ => by decide) (fun _ => by decide)
  obtain ⟨dropped, lines, n, -, -, hlines, hshown, -⟩ := hchange (by decide)
  exact ⟨lines, n, hlines, hshown⟩

theorem splice_respaced : (Terminal.run 1 6 0 [.process splice] : Terminal Unit).primary = spliced ∧
    spliced.Paired ∧ (spliced.rewrapped 5 (0, 1)).1.length ≤ 1 ∧
    (Lines.lines Row.wrapped (spliced.resize 1 5 (0, 1) true).1.allRows).map (fun l => shown (cellsOf l)) ≠
      (Lines.lines Row.wrapped spliced.allRows).map fun l => shown (cellsOf l) :=
  ⟨by decide +kernel, paired_spliced, by decide, by decide⟩

end Screen

end Posh.Term
