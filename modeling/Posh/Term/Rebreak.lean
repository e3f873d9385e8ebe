/-
**Where a line breaks.**

Rewrapping fills row after row: a cell that finds no room begins the next one, and the spacer of a wide
character comes with it.  That rule is stated here for the cells of a line alone, without blanks, marks and
cursor, and the rewrapped rows are shown to break where it says: row for row they show the same.  The cursor's
cell is in the row in which the line up to that cell ends.
-/

import Posh.Term.LineTexts

set_option autoImplicit false

namespace Posh.Term

open Lines (Padded IsLine)
open List (append_assoc append_nil length_append map_append nil_append replicate)
open LinePaired
open Cell

/-! ### The rule -/

/-- A line while it is broken: the finished rows, and the one that is being filled. -/
structure Breaking where
  done : List (List Cell) := []
  cur : List Cell := []
  /-- the columns of the row that are taken -/
  used : ℕ := 0
  /-- the last cell was a wide one, and came with its spacer -/
  wide : Bool := false
  deriving DecidableEq, Repr

namespace Breaking

/-- A cell is put into the row, or begins the next one. -/
def place (width : ℕ) (b : Breaking) (c : Cell) : Breaking :=
  if c.width = 0 ∧ b.wide = true then { b with wide := false }
  else if width < b.used + max c.width 1 then
    { done := b.done ++ [b.cur], cur := [c], used := c.width, wide := c.width = 2 }
  else { b with cur := b.cur ++ [c], used := b.used + c.width, wide := c.width = 2 }

def rows (b : Breaking) : List (List Cell) := b.done ++ [b.cur]

end Breaking

/-- **The rows of a line.** -/
def broken (width : ℕ) (cells : List Cell) : Breaking := cells.foldl (Breaking.place width) {}

/-- A line up to what it shows last, but not past the cell at the cursor. -/
def keptLine (cursorOff : Option ℕ) (cells : List Cell) : List Cell :=
  match cursorOff with
  | some off => cells.take (max (Screen.shownLength cells) (off + 1))
  | none => trimmed cells

variable {width : ℕ} {line : List Cell} {j : ℕ} {cell : Cell}

theorem broken_take (width : ℕ) (hj : (line)[j]? = some cell) :
    broken width (line.take (j + 1)) = (broken width (line.take j)).place width cell := by
  rw [List.take_add_one, hj, broken, List.foldl_append]
  rfl

theorem heads_take (hj : (line)[j]? = some cell) (hzero : cell.width ≠ 0) :
    heads (line.take (j + 1)) = heads (line.take j) ++ [cell] := by
  rw [List.take_add_one, hj, heads_append]
  exact congrArg _ (List.filter_cons_of_pos (by simp [hzero]))

theorem heads_take_spacer (hj : (line)[j]? = some cell) (hzero : cell.width = 0) :
    heads (line.take (j + 1)) = heads (line.take j) := by
  have hnone : heads [cell] = [] := List.filter_cons_of_neg (by simp [hzero])
  rw [List.take_add_one, hj, heads_append]
  show _ ++ heads [cell] = _
  rw [hnone, append_nil]

theorem heads_drawn (hzero : cell.width ≠ 0) : heads cell.drawn = [cell] := by
  rw [drawn, if_neg hzero]
  split
  · exact (List.filter_cons_of_pos (by simp [hzero])).trans rfl
  · exact List.filter_cons_of_pos (by simp [hzero])

theorem visible_singleton (h : cell.width = 0) : visible [cell] = [] := by
  have hnone : heads [cell] = [] := List.filter_cons_of_neg (by simp [h])
  rw [visible, hnone]
  rfl

theorem visible_drawn (hzero : cell.width ≠ 0) : visible cell.drawn = visible [cell] := by
  have hone : heads [cell] = [cell] := List.filter_cons_of_pos (by simp [hzero])
  rw [visible, heads_drawn hzero, visible, hone]

theorem heads_blanks (n : ℕ) : heads (replicate n (blank {})) = replicate n (blank {}) := by
  refine List.filter_eq_self.mpr fun c hc => ?_
  rw [List.eq_of_mem_replicate hc]
  rfl

theorem visible_blanks (n : ℕ) : visible (replicate n (blank {})) = [] := by
  refine visible_eq_nil fun c hc => ?_
  rw [List.eq_of_mem_replicate hc]
  rfl

theorem next_cases (line : List Cell) (j : ℕ) (cell : Cell) :
    (next line j cell = j + 2 ∧ cell.width = 2 ∧ ∃ s, (line)[j + 1]? = some s ∧ s.width = 0) ∨
      (next line j cell = j + 1 ∧ (cell.width = 2 → ∀ c, (line)[j + 1]? = some c → c.width ≠ 0)) := by
  rw [next]
  split
  case isTrue hboth =>
    obtain ⟨h2, hspacer⟩ := hboth
    cases hs : (line)[j + 1]? with
    | none => rw [hs] at hspacer; cases hspacer
    | some s =>
      rw [hs] at hspacer
      exact .inl ⟨rfl, h2, s, rfl, of_decide_eq_true hspacer⟩
  case isFalse hnot =>
    refine .inr ⟨rfl, fun h2 c hc h0 => hnot ⟨h2, ?_⟩⟩
    rw [hc]
    exact decide_eq_true h0

theorem wide_place (b : Breaking) (hzero : cell.width ≠ 0) :
    (b.place width cell).wide = decide (cell.width = 2) := by
  rw [Breaking.place, if_neg fun h => hzero h.1]
  split <;> rfl

theorem broken_next (width : ℕ) (hj : (line)[j]? = some cell) (hzero : cell.width ≠ 0) :
    let b := (broken width (line.take j)).place width cell
    let b' := broken width (line.take (next line j cell))
    b'.done = b.done ∧ b'.cur = b.cur ∧ b'.used = b.used ∧
      (b'.wide = true → ∀ c, (line)[next line j cell]? = some c → c.width ≠ 0) ∧
      heads (line.take (next line j cell)) = heads (line.take j) ++ [cell] := by
  intro b b'
  have hwide : b.wide = decide (cell.width = 2) := wide_place _ hzero
  rcases next_cases line j cell with ⟨hnext, h2, s, hs, hs0⟩ | ⟨hnext, hmore⟩
  · have hb : b' = { b with wide := false } := by
      show broken width (line.take _) = _
      rw [hnext, broken_take width hs, broken_take width hj]
      exact if_pos ⟨hs0, by rw [h2] at hwide; exact hwide⟩
    rw [hb]
    refine ⟨rfl, rfl, rfl, nofun, ?_⟩
    rw [hnext, heads_take_spacer hs hs0, heads_take hj hzero]
  · have hb : b' = b := by
      show broken width (line.take _) = _
      rw [hnext, broken_take width hj]
    rw [hb, hnext]
    refine ⟨rfl, rfl, rfl, fun h => hmore ?_, heads_take hj hzero⟩
    rw [hwide] at h
    exact of_decide_eq_true h

namespace Screen

/-! ### One cell after the other -/

variable {w : Wrapping} {cursorOff : Option ℕ} {done : List Row} {b : Breaking} {ws : List Row} {u : Wrapping}

/-- What the rows show, row for row. -/
def showing (rows : List Row) : List (List Cell) := rows.map fun r => visible r.cells

/-- The rows are those of the rule; a full row that goes on is already ended, or not yet. -/
def SameRows (width : ℕ) (b : Breaking) (ws : List Row) (cur : List Cell) (more : Prop) : Prop :=
  (showing ws = b.done.map visible ∧ visible cur = visible b.cur ∧ cur.length = b.used ∧
      (more → b.used < width)) ∨ (showing ws = b.rows.map visible ∧ cur = [] ∧ b.used = width ∧ more)

/-- **A line that is cut up to cell `j`**, by the rule and by the code. -/
structure Breaks (width : ℕ) (done : List Row) (line : List Cell) (w : Wrapping) (j : ℕ) (ws : List Row) :
    Prop where
  rows : w.rows = done ++ ws
  full : ∀ r ∈ ws, r.wrapped = true ∧ r.cells.length = width
  same : SameRows width (broken width (line.take j)) ws w.cur (j < line.length)
  padded : Padded (Cell.blank {}) (heads (line.take j)) (heads (cellsOf ws ++ w.cur))
  used_le : (broken width (line.take j)).used ≤ width
  wide : (broken width (line.take j)).wide = true → ∀ c, (line)[j]? = some c → c.width ≠ 0

/-- The row of the cell at `off`. -/
def rowAt (width : ℕ) (line : List Cell) (off : ℕ) : ℕ := (broken width (line.take (off + 1))).done.length

/-- The cursor waits for its cell, and is in its row from then on. -/
def Awaits (width : ℕ) (done : List Row) (line : List Cell) (cursorOff : Option ℕ)
    (start cursor : Option (ℕ × ℕ)) (j : ℕ) : Prop :=
  match cursorOff with
  | none => cursor = start
  | some off =>
    (off < j → ∃ col, cursor = some (done.length + rowAt width line off, col)) ∧
      (j ≤ off → cursor = none ∨ (off = j ∧ ∀ c, (line)[j]? = some c → c.width ≠ 0))

theorem showing_append (a b : List Row) : showing (a ++ b) = showing a ++ showing b := map_append

theorem SameRows.place (h : SameRows width b ws w.cur True) (hrows : w.rows = done ++ ws)
    (hfull : ∀ r ∈ ws, r.wrapped = true ∧ r.cells.length = width) (hle : b.used ≤ width)
    (hzero : cell.width ≠ 0) (h2 : cell.width ≤ 2) (hwidth : 2 ≤ width) :
    ∃ ws' n, (w.makeRoom width cell.width).rows = done ++ ws' ∧
      (∀ r ∈ ws', r.wrapped = true ∧ r.cells.length = width) ∧
      showing ws' = (b.place width cell).done.map visible ∧
      visible ((w.makeRoom width cell.width).cur ++ cell.drawn) = visible (b.place width cell).cur ∧
      ((w.makeRoom width cell.width).cur ++ cell.drawn).length = (b.place width cell).used ∧
      (b.place width cell).used ≤ width ∧ (w.makeRoom width cell.width).cursor = w.cursor ∧
      cellsOf ws' ++ (w.makeRoom width cell.width).cur = cellsOf ws ++ w.cur ++ replicate n (blank {}) := by
  have hmax : max cell.width 1 = cell.width := by omega
  have hdrawn := length_drawn h2
  rw [Breaking.place, if_neg fun h => hzero h.1, hmax, Wrapping.makeRoom]
  rcases h with ⟨hws, hcur, hlen, -⟩ | ⟨hws, hcur, hused, -⟩
  · by_cases hfit : width < b.used + cell.width
    · -- the cell begins the next row
      rw [if_pos hfit, if_pos (by omega)]
      refine ⟨ws ++ [⟨w.cur ++ replicate (width - w.cur.length) (blank {}), true, none⟩],
        width - w.cur.length, ?_, ?_, ?_, ?_, ?_, by dsimp only; omega, rfl, ?_⟩
      · show w.rows ++ [_] = _
        rw [hrows, append_assoc]
      · refine List.forall_mem_append.mpr ⟨hfull, List.forall_mem_singleton.mpr ⟨rfl, ?_⟩⟩
        rw [length_append, List.length_replicate]
        omega
      · have hlast : visible (w.cur ++ replicate (width - w.cur.length) (blank {})) =
            visible b.cur := by
          rw [visible_append, visible_blanks, append_nil, hcur]
        rw [showing_append, hws, map_append]
        exact congrArg (fun x => _ ++ [x]) hlast
      · show visible ([] ++ cell.drawn) = visible [cell]
        rw [nil_append, visible_drawn hzero]
      · show ([] ++ cell.drawn).length = cell.width
        rw [nil_append, hdrawn]
      · show _ ++ [] = _
        rw [append_nil, cellsOf_append, cellsOf_singleton, append_assoc]
    · rw [if_neg hfit, if_neg (by omega)]
      refine ⟨ws, 0, hrows, hfull, hws, ?_, ?_, by dsimp only; omega, rfl, (append_nil _).symm⟩
      · rw [visible_append, hcur, visible_drawn hzero, ← visible_append]
      · rw [length_append, hdrawn, hlen]
  · -- the full row was ended when it was seen that the line goes on
    have hempty : w.cur.length = 0 := by rw [hcur]; rfl
    rw [if_pos (show width < b.used + cell.width by omega),
      if_neg (show ¬w.cur.length + cell.width > width by omega)]
    refine ⟨ws, 0, hrows, hfull, hws, ?_, ?_, by dsimp only; omega, rfl, (append_nil _).symm⟩
    · rw [hcur, nil_append, visible_drawn hzero]
    · rw [hcur, nil_append, hdrawn]

theorem SameRows.wrapIfFull (hrows : u.rows = done ++ ws)
    (hfull : ∀ r ∈ ws, r.wrapped = true ∧ r.cells.length = width) (hws : showing ws = b.done.map visible)
    (hcur : visible u.cur = visible b.cur) (hlen : u.cur.length = b.used) (hle : b.used ≤ width) (more : Prop)
    [Decidable more] : ∃ ws', (u.wrapIfFull width more).rows = done ++ ws' ∧
      (∀ r ∈ ws', r.wrapped = true ∧ r.cells.length = width) ∧
      SameRows width b ws' (u.wrapIfFull width more).cur more ∧
      cellsOf ws' ++ (u.wrapIfFull width more).cur = cellsOf ws ++ u.cur ∧
      (u.wrapIfFull width more).cursor = u.cursor := by
  rw [Wrapping.wrapIfFull]
  split
  case isTrue hend =>
    refine ⟨ws ++ [⟨u.cur, true, none⟩], ?_, ?_, .inr ⟨?_, rfl, by omega, by simpa using hend.2⟩, ?_, rfl⟩
    · show u.rows ++ [_] = _
      rw [hrows, append_assoc]
    · exact List.forall_mem_append.mpr ⟨hfull, List.forall_mem_singleton.mpr ⟨rfl, hend.1⟩⟩
    · rw [showing_append, hws, Breaking.rows, map_append]
      exact congrArg (fun x => _ ++ [x]) hcur
    · show _ ++ [] = _
      rw [append_nil, cellsOf_append, cellsOf_singleton]
  case isFalse hnot =>
    refine ⟨ws, hrows, hfull, .inl ⟨hws, hcur, hlen, fun hmore => ?_⟩, rfl, rfl⟩
    exact Nat.lt_of_le_of_ne hle fun heq => hnot ⟨hlen.trans heq, by simpa using hmore⟩

theorem length_of_showing {rows : List (List Cell)} (h : showing ws = rows.map visible) :
    ws.length = rows.length := by
  have hlen := congrArg List.length h
  rw [showing, List.length_map, List.length_map] at hlen
  exact hlen

variable {start : Option (ℕ × ℕ)} {cells : List Cell}

theorem Awaits.head {cursor : Option (ℕ × ℕ)}
    (h : Awaits width done line cursorOff start cursor j) (hj : (line)[j]? = some cell) (hzero : cell.width ≠ 0)
    (hrows : u.rows = done ++ ws) (hcursor : u.cursor = cursor)
    (hws : showing ws = ((broken width (line.take j)).place width cell).done.map visible) :
    Awaits width done line cursorOff start (u.cursorAt cursorOff j cell) (next line j cell) := by
  have hlen := length_of_showing hws
  have hgt := next_gt line j cell
  cases cursorOff with
  | none => exact hcursor.trans h
  | some off =>
    obtain ⟨hbefore, hafter⟩ := h
    rw [Wrapping.cursorAt]
    by_cases hhere : off = j ∨ (cell.width = 2 ∧ off = j + 1)
    · rw [if_pos hhere, hrows, length_append, hlen]
      refine ⟨fun hlt => ⟨u.cur.length + (off - j), ?_⟩, fun hle => .inr ?_⟩
      · refine congrArg some (Prod.ext (congrArg (done.length + ·) ?_) rfl)
        rw [rowAt]
        rcases hhere with rfl | ⟨h2, rfl⟩
        · rw [broken_take width hj]
        · rcases next_cases line j cell with ⟨hnext, -⟩ | ⟨hnext, -⟩
          · rw [← (broken_next width hj hzero).1, hnext]
          · omega
      · rcases next_cases line j cell with ⟨hnext, -⟩ | ⟨hnext, hmore⟩
        · omega
        · rw [hnext]
          exact ⟨by omega, hmore (by omega)⟩
    · rw [if_neg hhere, hcursor]
      refine ⟨fun hlt => hbefore ?_, fun hle => .inl ?_⟩
      · rcases next_cases line j cell with ⟨hnext, h2, -⟩ | ⟨hnext, -⟩
        · omega
        · omega
      · rcases hafter (by omega) with hnone | ⟨heq, -⟩
        · exact hnone
        · omega

/-- **A cell that is no spacer is placed.** -/
theorem Breaks.head (h : Breaks width done line w j ws) (hwidth : 2 ≤ width)
    (hj : (line)[j]? = some cell) (hzero : cell.width ≠ 0) (h2 : cell.width ≤ 2)
    (hawaits : Awaits width done line cursorOff start w.cursor j) :
    ∃ ws', Breaks width done line (wrapCell width line cursorOff w j cell).1
        (wrapCell width line cursorOff w j cell).2 ws' ∧
      Awaits width done line cursorOff start (wrapCell width line cursorOff w j cell).1.cursor
        (wrapCell width line cursorOff w j cell).2 := by
  have hlt : j < line.length := (List.getElem?_eq_some_iff.mp hj).1
  have hsame : SameRows width (broken width (line.take j)) ws w.cur True := eq_true hlt ▸ h.same
  obtain ⟨ws', n, hrows, hfull, hws, hcur, hlen, hused, hcursor, hcells⟩ :=
    hsame.place h.rows h.full h.used_le hzero h2 hwidth
  have hcursor' := hawaits.head hj hzero hrows hcursor hws
  obtain ⟨hdone, hcur', hused', hwide, hheads⟩ := broken_next width hj hzero
  rw [wrapCell_eq hzero h2 hwidth]
  dsimp only
  generalize w.makeRoom width cell.width = u at *
  rw [← hdone] at hws
  rw [← hcur'] at hcur
  rw [← hused'] at hlen hused
  obtain ⟨ws'', hrows', hfull', hsame', hcells', hcursor''⟩ := SameRows.wrapIfFull
    (u := { u with cur := u.cur ++ cell.drawn, cursor := u.cursorAt cursorOff j cell }) hrows hfull hws hcur
    hlen hused (next line j cell < line.length)
  refine ⟨ws'', ⟨hrows', hfull', hsame', ?_, hused, hwide⟩, ?_⟩
  · rw [hcells', ← append_assoc, hcells, hheads, heads_append, heads_drawn hzero, heads_append,
      heads_blanks]
    exact (h.padded.append_blanks n).append (.refl _ _)
  · rw [hcursor'']
    exact hcursor'

theorem SameRows.spacer {cur : List Cell} (h : SameRows width b ws cur True)
    (hwidth : 2 ≤ width) (hzero : cell.width = 0) (hwide : b.wide = false) :
    showing ws = (b.place width cell).done.map visible ∧ visible cur = visible (b.place width cell).cur ∧
      cur.length = (b.place width cell).used ∧ (b.place width cell).used < width ∧
      (b.place width cell).wide = false := by
  have hnot : ¬(cell.width = 0 ∧ b.wide = true) := fun hh => by
    rw [hwide] at hh
    exact Bool.false_ne_true hh.2
  have hlast : decide (cell.width = 2) = false := by
    rw [hzero]
    rfl
  rw [Breaking.place, if_neg hnot, hzero]
  rcases h with ⟨hws, hcur, hlen, hroom⟩ | ⟨hws, rfl, hused, -⟩
  · have hlt := hroom trivial
    rw [if_neg (by omega)]
    refine ⟨hws, ?_, hlen, hlt, rfl⟩
    rw [visible_append, visible_singleton hzero, append_nil, hcur]
  · rw [if_pos (by omega)]
    refine ⟨hws, ?_, rfl, by show 0 < width; omega, rfl⟩
    rw [visible_singleton hzero]
    rfl

theorem Breaks.spacer (h : Breaks width done line w j ws) (hwidth : 2 ≤ width)
    (hj : (line)[j]? = some cell) (hzero : cell.width = 0)
    (hawaits : Awaits width done line cursorOff start w.cursor j) :
    Breaks width done line (wrapCell width line cursorOff w j cell).1
        (wrapCell width line cursorOff w j cell).2 ws ∧
      Awaits width done line cursorOff start (wrapCell width line cursorOff w j cell).1.cursor
        (wrapCell width line cursorOff w j cell).2 := by
  have hlt : j < line.length := (List.getElem?_eq_some_iff.mp hj).1
  have hsame : SameRows width (broken width (line.take j)) ws w.cur True := eq_true hlt ▸ h.same
  have hwide : (broken width (line.take j)).wide = false := by
    rw [← Bool.not_eq_true]
    exact fun hh => h.wide hh cell hj hzero
  obtain ⟨hws, hcur, hlen, hused, hwide'⟩ := hsame.spacer hwidth hzero hwide
  have hcell : wrapCell width line cursorOff w j cell = (if cursorOff = some j ∧ w.cursor = none then
        { w with cursor := some (w.rows.length, min w.cur.length (width - 1)) } else w, j + 1) := by
    rw [wrapCell]
    exact if_pos hzero
  have hbreaks : ∀ cursor, Breaks width done line { w with cursor } (j + 1) ws := by
    intro cursor
    refine ⟨h.rows, h.full, ?_, ?_, ?_, ?_⟩
    · rw [broken_take width hj]
      exact .inl ⟨hws, hcur, hlen, fun _ => hused⟩
    · rw [heads_take_spacer hj hzero]
      exact h.padded
    · rw [broken_take width hj]
      exact Nat.le_of_lt hused
    · rw [broken_take width hj, hwide']
      simp
  have hcount := length_of_showing hws
  rw [hcell]
  cases cursorOff with
  | none =>
    rw [if_neg (fun hh => by cases hh.1)]
    exact ⟨hbreaks w.cursor, hawaits⟩
  | some off =>
    obtain ⟨hbefore, hafter⟩ := hawaits
    by_cases hhere : off = j
    · subst hhere
      have hnone : w.cursor = none := by
        rcases hafter (Nat.le_refl _) with hnone | ⟨-, hne⟩
        · exact hnone
        · exact absurd hzero (hne cell hj)
      rw [if_pos ⟨rfl, hnone⟩]
      refine ⟨hbreaks _, fun _ => ⟨min w.cur.length (width - 1), ?_⟩, fun hle => by omega⟩
      rw [rowAt, broken_take width hj, ← hcount, ← length_append, ← h.rows]
    · rw [if_neg (fun hh => hhere (Option.some.inj hh.1))]
      refine ⟨hbreaks w.cursor, fun _ => hbefore (by omega), fun hle => ?_⟩
      rcases hafter (by omega) with hnone | ⟨heq, -⟩
      · exact .inl hnone
      · omega

/-- **One cell is placed.** -/
theorem Breaks.wrapCell (h : Breaks width done line w j ws) (hwidth : 2 ≤ width)
    (hj : (line)[j]? = some cell) (h2 : cell.width ≤ 2)
    (hawaits : Awaits width done line cursorOff start w.cursor j) :
    ∃ ws', Breaks width done line (Screen.wrapCell width line cursorOff w j cell).1
        (Screen.wrapCell width line cursorOff w j cell).2 ws' ∧
      Awaits width done line cursorOff start (Screen.wrapCell width line cursorOff w j cell).1.cursor
        (Screen.wrapCell width line cursorOff w j cell).2 ∧
      j < (Screen.wrapCell width line cursorOff w j cell).2 := by
  by_cases hzero : cell.width = 0
  · refine ⟨ws, (h.spacer hwidth hj hzero hawaits).1, (h.spacer hwidth hj hzero hawaits).2, ?_⟩
    rw [Screen.wrapCell]
    dsimp only
    rw [if_pos hzero]
    exact Nat.lt_succ_self j
  · obtain ⟨ws', hbreaks, hcursor⟩ := h.head hwidth hj hzero h2 hawaits
    refine ⟨ws', hbreaks, hcursor, ?_⟩
    rw [wrapCell_eq hzero h2 hwidth]
    exact next_gt line j cell

theorem Breaks.wrapFrom (h : Breaks width done line w j ws) (hwidth : 2 ≤ width) (hline : ∀ c ∈ line, c.width ≤ 2)
    (hawaits : Awaits width done line cursorOff start w.cursor j) {fuel : ℕ} (hfuel : line.length ≤ j + fuel) :
    ∃ j' ws', line.length ≤ j' ∧ Breaks width done line (Screen.wrapFrom width line cursorOff fuel w j) j' ws' ∧
      Awaits width done line cursorOff start (Screen.wrapFrom width line cursorOff fuel w j).cursor j' := by
  induction fuel generalizing w j ws with
  | zero => exact ⟨j, ws, hfuel, h, hawaits⟩
  | succ fuel ih =>
    rw [Screen.wrapFrom]
    split
    case h_1 hnone => exact ⟨j, ws, List.getElem?_eq_none_iff.mp hnone, h, hawaits⟩
    case h_2 cell hj =>
      obtain ⟨ws', hbreaks, hcursor, hgt⟩ :=
        h.wrapCell hwidth hj (hline cell (List.mem_of_getElem? hj)) hawaits
      refine ih hbreaks hcursor ?_
      show line.length ≤ (Screen.wrapCell width line cursorOff w j cell).2 + fuel
      omega

/-! ### A line -/

/-- **Rows that break where the rule says**: of one line, and what they hold is the line with blanks put in. -/
structure Rebroken (width : ℕ) (cells : List Cell) (new : List Row) : Prop where
  isLine : IsLine Row.wrapped new True
  rows : showing new = (broken width cells).rows.map visible
  padded : Padded (Cell.blank {}) (heads cells) (heads (cellsOf new))

theorem showing_eq_map (rows : List Row) : showing rows = (rows.map Row.cells).map visible := by
  rw [List.map_map]
  rfl

theorem wrapLine_keptLine (width : ℕ) (cells : List Cell) (mark : Option SemanticMark)
    (cursorOff : Option ℕ) (done : List Row) (start : Option (ℕ × ℕ)) :
    wrapLine width cells mark cursorOff done start = let line := keptLine cursorOff cells
      let w := wrapFrom width line cursorOff line.length { rows := done, cursor := start } 0
      let last : Row :=
        { cells := w.cur.take width ++ replicate (width - w.cur.length) (blank {}) }
      let rows := (w.rows ++ [last]).modify done.length fun r => { r with mark }
      (rows, if cursorOff.isSome ∧ w.cursor = none then
        some (rows.length - 1, min (shownLength last.cells) (width - 1)) else w.cursor) := by
  cases cursorOff with
  | some off => rfl
  | none =>
    rw [keptLine, ← take_shownLength]
    rfl

theorem rowAt_keptLine (width : ℕ) (cells : List Cell) (off : ℕ) :
    rowAt width (keptLine (some off) cells) off = rowAt width cells off := by
  rw [rowAt, keptLine, List.take_take, Nat.min_eq_left (Nat.le_max_right _ _), rowAt]

theorem mem_keptLine {c : Cell} (h : c ∈ keptLine cursorOff cells) : c ∈ cells := by
  cases cursorOff with
  | some off => exact List.mem_of_mem_take h
  | none => exact (List.rdropWhile_prefix _ cells).subset h

/-- **A line breaks where the rule says.** -/
theorem wrapLine_breaks (done : List Row) (hcells : ∀ c ∈ cells, c.width ≤ 2)
    (hwidth : 2 ≤ width) (mark : Option SemanticMark) (cursorOff : Option ℕ) (start : Option (ℕ × ℕ))
    (hstart : cursorOff.isSome → start = none) (hoff : ∀ off, cursorOff = some off → off < cells.length) :
    ∃ new, (wrapLine width cells mark cursorOff done start).1 = done ++ new ∧
      Rebroken width (keptLine cursorOff cells) new ∧
      (cursorOff = none → (wrapLine width cells mark cursorOff done start).2 = start) ∧
      ∀ off, cursorOff = some off → ∃ col, (wrapLine width cells mark cursorOff done start).2 =
        some (done.length + rowAt width cells off, col) := by
  rw [wrapLine_keptLine]
  have hkept : ∀ off, cursorOff = some off → off < (keptLine cursorOff cells).length := by
    rintro off rfl
    have hlt := hoff off rfl
    rw [keptLine, List.length_take]
    omega
  have hrow : ∀ off, cursorOff = some off → rowAt width (keptLine cursorOff cells) off = rowAt width cells off := by
    rintro off rfl
    exact rowAt_keptLine width cells off
  have hnarrow : ∀ c ∈ keptLine cursorOff cells, c.width ≤ 2 := fun c hc => hcells c (mem_keptLine hc)
  generalize keptLine cursorOff cells = line at *
  have hbegin : Breaks width done line { rows := done, cursor := start } 0 [] := by
    refine ⟨(append_nil _).symm, List.forall_mem_nil _, .inl ⟨rfl, rfl, rfl, fun _ => ?_⟩, .nil,
      Nat.zero_le _, fun hwide => by cases hwide⟩
    show 0 < width
    omega
  have hcursor : Awaits width done line cursorOff start start 0 := by
    cases cursorOff with
    | none => rfl
    | some off => exact ⟨fun hlt => absurd hlt (Nat.not_lt_zero off), fun _ => .inl (hstart rfl)⟩
  obtain ⟨j, ws, hend, hbreaks, hcursor⟩ :=
    hbegin.wrapFrom hwidth hnarrow hcursor (Nat.le_add_left line.length 0)
  dsimp only
  generalize wrapFrom width line cursorOff line.length { rows := done, cursor := start } 0 = w at *
  obtain ⟨hrows, hfull, hsame, hpad, hused, -⟩ := hbreaks
  rw [List.take_of_length_le hend] at hsame hpad hused
  obtain ⟨hws, hcur, hlen, -⟩ | ⟨-, -, -, hmore⟩ := hsame
  · have hle : w.cur.length ≤ width := by omega
    have hlast : (w.cur.take width ++ replicate (width - w.cur.length) (blank {})).length = width := by
      rw [List.take_of_length_le hle, length_append, List.length_replicate]
      omega
    obtain ⟨new, hnew, hisLine, -, hnewCells, -, hmap⟩ := markFirst done
      { cells := w.cur.take width ++ replicate (width - w.cur.length) (blank {}) } mark hfull rfl hlast
    rw [hrows, append_assoc, hnew]
    rw [List.take_of_length_le hle] at hnewCells hmap
    refine ⟨new, rfl, ⟨hisLine, ?_, ?_⟩, fun hnone => ?_, fun off hsome => ?_⟩
    · rw [showing_eq_map, hmap, map_append, ← showing_eq_map, hws, Breaking.rows, map_append]
      refine congrArg (fun x => _ ++ [x]) ?_
      show visible (w.cur ++ _) = visible _
      rw [visible_append, visible_blanks, append_nil, hcur]
    · rw [hnewCells, ← append_assoc, heads_append, heads_blanks]
      exact hpad.append_blanks _
    · subst hnone
      rw [if_neg (fun h => Bool.false_ne_true h.1)]
      exact hcursor
    · have hofflt := hkept off hsome
      have hat := hrow off hsome
      subst hsome
      obtain ⟨col, hcol⟩ := hcursor.1 (by omega)
      rw [if_neg (fun h => by rw [hcol] at h; cases h.2), hcol, hat]
      exact ⟨col, rfl⟩
  · exact absurd hmore (Nat.not_lt.mpr hend)

/-! ### All lines -/

/-- The lines, and in the one in which the cursor is, where. -/
def aimed (cursorAbs cursorCol : ℕ) : ℕ → List (List Row) → List (List Row × Option ℕ)
  | _, [] => []
  | i, l :: ls =>
    (l, if i ≤ cursorAbs ∧ cursorAbs < i + l.length then
        some ((cellsOf (l.take (cursorAbs - i))).length + cursorCol) else none) ::
      aimed cursorAbs cursorCol (i + l.length) ls

/-- A line is rewrapped below the rows that are there. -/
def addLine (width : ℕ) (p : List Row × Option (ℕ × ℕ)) (l : List Row × Option ℕ) :
    List Row × Option (ℕ × ℕ) :=
  wrapLine width (cellsOf l.1) (l.1.findSome? Row.mark) l.2 p.1 p.2

/-- **All lines are rewrapped, one after the other.** -/
theorem wrapLines_eq (width cursorAbs cursorCol : ℕ) {fuel : ℕ} (i : ℕ) {old : List Row} (done : List Row)
    (start : Option (ℕ × ℕ)) (hfuel : old.length ≤ fuel) :
    wrapLines width cursorAbs cursorCol fuel i old done start =
      (aimed cursorAbs cursorCol i (Lines.lines Row.wrapped old)).foldl (addLine width) (done, start) := by
  induction fuel generalizing i old done start with
  | zero =>
    obtain rfl : old = [] := List.length_eq_zero_iff.mp (Nat.le_zero.mp hfuel)
    rfl
  | succ fuel ih =>
    cases old with
    | nil => rfl
    | cons r rest =>
      obtain ⟨happend, hline⟩ := takeLine_spec r rest
      rw [wrapLines]
      generalize takeLine (r :: rest) = p at happend hline ⊢
      obtain ⟨l, later⟩ := p
      dsimp only at happend hline ⊢
      have hne := List.length_pos_iff.mpr hline.ne_nil
      rw [← happend, length_append] at hfuel
      rw [← happend, Lines.lines_line hline, aimed, List.foldl_cons, ih _ _ _ (by omega)]
      rfl

variable {cursorAbs cursorCol i : ℕ} {ls : List (List Row)}

theorem aimed_append (ls ls' : List (List Row)) : aimed cursorAbs cursorCol i (ls ++ ls') =
      aimed cursorAbs cursorCol i ls ++ aimed cursorAbs cursorCol (i + ls.flatten.length) ls' := by
  induction ls generalizing i with
  | nil => rfl
  | cons l ls ih =>
    rw [List.cons_append, aimed, ih, aimed, List.flatten_cons, length_append, Nat.add_assoc]
    rfl

theorem aimed_above (h : i + ls.flatten.length ≤ cursorAbs) :
    aimed cursorAbs cursorCol i ls = ls.map fun l => (l, none) := by
  induction ls generalizing i with
  | nil => rfl
  | cons l ls ih =>
    rw [List.flatten_cons, length_append] at h
    rw [aimed, if_neg (by omega), ih (by omega)]
    rfl

theorem aimed_below (h : cursorAbs < i) :
    aimed cursorAbs cursorCol i ls = ls.map fun l => (l, none) := by
  induction ls generalizing i with
  | nil => rfl
  | cons l ls ih =>
    rw [aimed, if_neg (by omega), ih (by omega)]
    rfl

/-- The rows of lines without the cursor. -/
def brokenLines (width : ℕ) (ls : List (List Row)) : List (List Cell) :=
  ls.flatMap fun l => (broken width (keptLine none (cellsOf l))).rows

/-- **Lines without the cursor break where the rule says.** -/
theorem foldl_addLine (hwidth : 2 ≤ width)
    (hcells : ∀ l ∈ ls, ∀ c ∈ cellsOf l, c.width ≤ 2) (done : List Row) (start : Option (ℕ × ℕ)) :
    ∃ news, (ls.map fun l => (l, none)).foldl (addLine width) (done, start) = (done ++ news.flatten, start) ∧
      List.Forall₂ (fun l new => Rebroken width (keptLine none (cellsOf l)) new) ls news ∧
      (∀ new ∈ news, IsLine Row.wrapped new True) ∧
      showing news.flatten = (brokenLines width ls).map visible := by
  induction ls generalizing done with
  | nil => exact ⟨[], by rw [List.flatten_nil, append_nil]; rfl, .nil, List.forall_mem_nil _, rfl⟩
  | cons l ls ih =>
    obtain ⟨hl, hrest⟩ := List.forall_mem_cons.mp hcells
    obtain ⟨new, hnew, hbreaks, hcursor, -⟩ :=
      wrapLine_breaks done hl hwidth (l.findSome? Row.mark) none start nofun nofun
    have hadd : addLine width (done, start) (l, none) = (done ++ new, start) :=
      Prod.ext hnew (hcursor rfl)
    obtain ⟨news, hnews, hall, hlines, hshowing⟩ := ih hrest (done ++ new)
    refine ⟨new :: news, ?_, .cons hbreaks hall, List.forall_mem_cons.mpr ⟨hbreaks.isLine, hlines⟩, ?_⟩
    · rw [List.map_cons, List.foldl_cons, hadd, hnews, List.flatten_cons, append_assoc]
    · rw [List.flatten_cons, showing_append, hbreaks.rows, hshowing, ← map_append]
      rfl

end Screen

end Posh.Term
