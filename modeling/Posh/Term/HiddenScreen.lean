/-
**The screen behind a full-screen application.**

While the alternate screen is drawn on, the primary one is resized with a cursor that stands in for its own,
in the first cell of the grid.  A change of the width keeps that cell in sight: where the rows below it do not
fit, they are cut off.  So all lines are still there if and only if nothing was in what is cut off, and what
that is can be said beforehand, by the rule by which lines break.
-/

import Posh.Term.Rebreak

set_option autoImplicit false

namespace Posh.Term

open Lines (Padded IsLine)
open List (append_assoc append_nil cons_append length_append length_take)
open Lines
open Row

/-! ### Kept lines -/

theorem keptLine_append (cursorOff : Option ℕ) (cells : List Cell) :
    ∃ rest, cells = keptLine cursorOff cells ++ rest ∧ ∀ c ∈ rest, c.isDumpSkippable = true := by
  cases cursorOff with
  | none =>
    refine ⟨cells.rtakeWhile Cell.isDumpSkippable, ?_, fun c hc => List.mem_rtakeWhile_imp hc⟩
    exact (List.rdropWhile_append_rtakeWhile (p := Cell.isDumpSkippable) (l := cells)).symm
  | some off =>
    refine ⟨cells.drop (max (Screen.shownLength cells) (off + 1)), (List.take_append_drop _ _).symm,
      fun c hc => ?_⟩
    obtain ⟨k, hk⟩ := List.mem_iff_getElem?.mp hc
    rw [List.getElem?_drop] at hk
    exact Screen.skippable_of_shownLength_le (by omega) hk

theorem trimmed_keptLine (cursorOff : Option ℕ) (cells : List Cell) :
    trimmed (heads (keptLine cursorOff cells)) = trimmed (heads cells) := by
  obtain ⟨rest, hsplit, hrest⟩ := keptLine_append cursorOff cells
  conv_rhs => rw [hsplit, heads_append]
  exact (trimmed_append fun c hc => hrest c (List.mem_of_mem_filter hc)).symm

namespace Screen

variable {width : ℕ} {s : Screen} {first : Row} {cursorOff : Option ℕ}

theorem Rebroken.text {line new : List Row} (h : Rebroken width (keptLine cursorOff (cellsOf line)) new) :
    Padded (Cell.blank {}) (lineText line) (lineText new) := by
  rw [lineText, ← trimmed_keptLine cursorOff]
  exact trimmed_padded h.padded

/-- The rows of the scrollback whose line goes on in the grid. -/
def carried (s : Screen) : List Row := s.scrollback.rtakeWhile Row.wrapped

/-- Where the cell after those of `carried` is in its line. -/
def topOff (carried : List Row) : ℕ := (cellsOf carried).length

/-- **The rows at a new width**, from the one on that holds the first cell of `rows`, into which the line of
`carried` goes on. -/
def fromTop (width : ℕ) (carried rows : List Row) : List (List Cell) :=
  match Lines.lines Row.wrapped (carried ++ rows) with
  | [] => []
  | line :: later =>
    ((broken width (keptLine (some (topOff carried)) (cellsOf line))).rows ++ brokenLines width later).drop
      (rowAt width (cellsOf line) (topOff carried))

/-- **What does not fit below the grid's first cell shows nothing.** -/
def Fitting (s : Screen) (width : ℕ) : Prop :=
  ∀ row ∈ (fromTop width s.carried s.grid).drop s.rows, visible row = []

instance (s : Screen) (width : ℕ) : Decidable (s.Fitting width) :=
  inferInstanceAs (Decidable (∀ row ∈ _, visible row = []))

/-! ### Blank rows below -/

theorem keptLine_skippable {cells more : List Cell}
    (hmore : ∀ c ∈ more, c.isDumpSkippable = true) (hoff : ∀ off, cursorOff = some off → off < cells.length) :
    keptLine cursorOff (cells ++ more) = keptLine cursorOff cells := by
  cases cursorOff with
  | none => exact trimmed_append hmore
  | some off =>
    have hlt := hoff off rfl
    have hle := shownLength_le cells
    rw [keptLine, keptLine, shownLength_append hmore, List.take_append_of_le_length (by omega)]

theorem fromTop_concat {above rest : List Row} {first r : Row} (hfirst : 0 < first.cells.length)
    (hr : r.isSkippable = true) (n : ℕ) :
    (∀ row ∈ (fromTop width above (first :: rest ++ [r])).drop n, visible row = []) ↔
      ∀ row ∈ (fromTop width above (first :: rest)).drop n, visible row = [] := by
  have hskip : ∀ c ∈ r.cells, c.isDumpSkippable = true := List.all_eq_true.mp hr
  have hlines := lines_concat wrapped (above ++ first :: rest) r
  rw [append_assoc] at hlines
  have hsame : ∀ l : List Row, keptLine none (cellsOf (l ++ [r])) = keptLine none (cellsOf l) := fun l => by
    rw [cellsOf_append, cellsOf_singleton]
    exact keptLine_skippable hskip nofun
  unfold fromTop
  cases hold : lines wrapped (above ++ first :: rest) with
  | nil =>
    have hnil := lines_eq_nil.mp hold
    simp at hnil
  | cons line later =>
    rw [hold] at hlines
    rcases hlines with hnew | ⟨ls, l, heq, hnew⟩
    · -- it is a line of its own
      have hlast : brokenLines width [[r]] = [[]] := by
        have hempty : keptLine none (cellsOf [r]) = [] := by
          rw [← List.nil_append [r], hsame]
          rfl
        rw [brokenLines, List.flatMap_singleton, hempty]
        rfl
      have hlater : brokenLines width (later ++ [[r]]) = brokenLines width later ++ [[]] := by
        rw [← hlast]
        exact List.flatMap_append
      rw [hnew, cons_append]
      dsimp only
      rw [hlater, ← append_assoc, List.drop_drop, List.drop_drop, List.drop_append, List.forall_mem_append]
      refine and_iff_left fun row hrow => ?_
      rw [List.mem_singleton.mp (List.mem_of_mem_drop hrow)]
      rfl
    · rw [hnew]
      cases ls with
      | nil =>
        -- it is the end of the only line
        obtain ⟨rfl, rfl⟩ := List.cons.inj heq
        have hline : line = above ++ first :: rest := by
          have hflatten := flatten_lines wrapped (above ++ first :: rest)
          rw [hold, List.flatten_singleton] at hflatten
          exact hflatten
        have hoff : topOff above < (cellsOf line).length := by
          rw [hline, cellsOf_append, length_append, topOff]
          show _ < _ + (first.cells ++ cellsOf rest).length
          rw [length_append]
          omega
        rw [List.nil_append]
        dsimp only
        rw [cellsOf_append, cellsOf_singleton, keptLine_skippable hskip (fun off h => by
          rw [← Option.some.inj h]
          exact hoff), rowAt, List.take_append_of_le_length hoff, ← rowAt]
      | cons line' ls =>
        obtain ⟨rfl, rfl⟩ := List.cons.inj heq
        have hlater : brokenLines width (ls ++ [l ++ [r]]) = brokenLines width (ls ++ [l]) := by
          rw [brokenLines, brokenLines, List.flatMap_append, List.flatMap_append, List.flatMap_singleton,
            List.flatMap_singleton, hsame]
        rw [cons_append]
        dsimp only
        rw [hlater]
        exact Iff.rfl

theorem fromTop_append {above rest more : List Row} (hfirst : 0 < first.cells.length)
    (hmore : ∀ r ∈ more, r.isSkippable = true) (n : ℕ) :
    (∀ row ∈ (fromTop width above (first :: rest ++ more)).drop n, visible row = []) ↔
      ∀ row ∈ (fromTop width above (first :: rest)).drop n, visible row = [] := by
  induction more generalizing rest with
  | nil => rw [append_nil]
  | cons r more ih =>
    obtain ⟨hr, hrest⟩ := List.forall_mem_cons.mp hmore
    have hlist : first :: rest ++ r :: more = first :: (rest ++ [r]) ++ more := by
      rw [cons_append, cons_append, append_assoc, List.singleton_append]
    rw [hlist]
    exact (ih hrest).trans (fromTop_concat hfirst hr n)

/-! ### The rows at the new width -/

theorem scrollback_split (s : Screen) :
    s.scrollback = s.scrollback.rdropWhile wrapped ++ s.carried ∧ (∀ r ∈ s.carried, r.wrapped = true) ∧
      ∀ r, (s.scrollback.rdropWhile wrapped).getLast? = some r → r.wrapped = false := by
  refine ⟨List.rdropWhile_append_rtakeWhile.symm, fun r hr => List.mem_rtakeWhile_imp hr, fun r hr => ?_⟩
  have hne : s.scrollback.rdropWhile wrapped ≠ [] := fun h => by rw [h] at hr; cases hr
  rw [List.getLast?_eq_some_getLast hne, Option.some.injEq] at hr
  rw [← hr, ← Bool.not_eq_true]
  exact List.rdropWhile_last_not _ _ hne

/-- **What a change of the width makes of a screen with the cursor in the grid's first cell.**  `rows` are the
rows of the grid that are kept. -/
theorem rewrapped_spec {rest : List Row} (hwidth : 2 ≤ width)
    (hkept : s.keptRows (0, 0) = s.scrollback ++ first :: rest) (hfirst : 0 < first.cells.length)
    (hnarrow : ∀ r ∈ s.keptRows (0, 0), ∀ c ∈ r.cells, c.width ≤ 2) :
    ∃ above below skipped col, s.rewrapped width (0, 0) = (above ++ below, some (above.length + skipped, col)) ∧
      (showing below).drop skipped = (fromTop width s.carried (first :: rest)).map visible ∧
      List.Forall₂ (Padded (Cell.blank {})) (texts (s.keptRows (0, 0))) (texts (above ++ below)) := by
  obtain ⟨hsplit, hcarried, hover⟩ := s.scrollback_split
  generalize s.scrollback.rdropWhile wrapped = complete at hsplit hover
  obtain ⟨l, later, hl⟩ := lines_cons wrapped first rest
  have htop := lines_more hcarried hl
  have hlines : lines wrapped (s.keptRows (0, 0)) =
      lines wrapped complete ++ (s.carried ++ first :: l) :: later := by
    rw [hkept, hsplit, append_assoc, lines_append hover, htop]
  have hcells : ∀ line ∈ lines wrapped (s.keptRows (0, 0)), ∀ c ∈ cellsOf line, c.width ≤ 2 := by
    intro line hline c hc
    obtain ⟨r, hr, hc⟩ := List.mem_flatMap.mp hc
    refine hnarrow r ?_ c hc
    rw [← flatten_lines wrapped (s.keptRows (0, 0))]
    exact List.mem_flatten.mpr ⟨line, hline, hr⟩
  rw [hlines] at hcells
  obtain ⟨hcellsAbove, hcellsTop⟩ := List.forall_mem_append.mp hcells
  obtain ⟨hcellsLine, hcellsLater⟩ := List.forall_mem_cons.mp hcellsTop
  have hlen : s.scrollback.length = complete.length + s.carried.length := by
    rw [hsplit, length_append]
  have hbegin : s.rewrapped width (0, 0) = (aimed s.scrollback.length 0 0
      (lines wrapped complete ++ (s.carried ++ first :: l) :: later)).foldl (addLine width) ([], none) := by
    rw [rewrapped, ← hlines]
    exact wrapLines_eq width s.scrollback.length 0 0 [] none (Nat.le_refl _)
  have htake : (s.carried ++ first :: l).take (s.scrollback.length - complete.length) = s.carried := by
    rw [hlen, Nat.add_sub_cancel_left]
    exact List.take_left
  have haimed : aimed s.scrollback.length 0 0
      (lines wrapped complete ++ (s.carried ++ first :: l) :: later) =
      (lines wrapped complete).map (fun l => (l, none)) ++
        (s.carried ++ first :: l, some (topOff s.carried)) :: later.map fun l => (l, none) := by
    rw [aimed_append, flatten_lines, aimed_above (by rw [flatten_lines]; omega), aimed, Nat.zero_add,
      htake, if_pos (by rw [length_append, List.length_cons]; omega), aimed_below (by
        rw [length_append, List.length_cons]
        omega)]
    rfl
  obtain ⟨newsAbove, habove, hallAbove, hlinesAbove, -⟩ := foldl_addLine hwidth hcellsAbove [] none
  have hoff : topOff s.carried < (cellsOf (s.carried ++ first :: l)).length := by
    rw [cellsOf_append, length_append]
    show _ < _ + (first.cells ++ cellsOf l).length
    rw [length_append, topOff]
    omega
  obtain ⟨new, hnew, hbreaks, -, hcursor⟩ := wrapLine_breaks newsAbove.flatten hcellsLine hwidth
    ((s.carried ++ first :: l).findSome? mark) (some (topOff s.carried)) none (fun _ => rfl) fun off h => by
      rw [← Option.some.inj h]
      exact hoff
  obtain ⟨col, hcol⟩ := hcursor _ rfl
  have hadd : addLine width (newsAbove.flatten, none) (s.carried ++ first :: l, some (topOff s.carried)) =
      (newsAbove.flatten ++ new, some (newsAbove.flatten.length +
        rowAt width (cellsOf (s.carried ++ first :: l)) (topOff s.carried), col)) := Prod.ext hnew hcol
  obtain ⟨newsLater, hlater, hallLater, hlinesLater, hshowing⟩ := foldl_addLine hwidth hcellsLater
    (newsAbove.flatten ++ new)
    (some (newsAbove.flatten.length + rowAt width (cellsOf (s.carried ++ first :: l)) (topOff s.carried), col))
  refine ⟨newsAbove.flatten, new ++ newsLater.flatten,
    rowAt width (cellsOf (s.carried ++ first :: l)) (topOff s.carried), col, ?_, ?_, ?_⟩
  · rw [hbegin, haimed, List.foldl_append, habove, List.nil_append, List.foldl_cons, hadd, hlater,
      append_assoc]
  · rw [showing_append, hbreaks.rows, hshowing, ← List.map_append, ← List.map_drop, fromTop, htop]
  · refine texts_padded ?_
    have hnewLines : lines wrapped (newsAbove.flatten ++ (new ++ newsLater.flatten)) =
        newsAbove ++ new :: newsLater := by
      have hall : ∀ l ∈ newsAbove ++ new :: newsLater, IsLine wrapped l True :=
        List.forall_mem_append.mpr ⟨hlinesAbove, List.forall_mem_cons.mpr ⟨hbreaks.isLine, hlinesLater⟩⟩
      have hflatten := lines_flatten hall []
      rw [append_nil, List.flatten_append, List.flatten_cons] at hflatten
      rw [hflatten]
      exact append_nil _
    rw [hlines, hnewLines]
    exact List.rel_append (hallAbove.imp fun _ _ h => h.text)
      (.cons hbreaks.text (hallLater.imp fun _ _ h => h.text))

/-! ### A change of the size -/

/-- Where nothing is evicted, a change of the width cuts off the rows that do not fit below the cursor's. -/
theorem allRows_reflowWidth (cursor : ℕ × ℕ) (hring : (s.rewrapped width cursor).1.length ≤ s.maxScrollback) :
    ∃ n ≤ s.rows, (s.reflowWidth width cursor).1.allRows =
      (s.rewrapped width cursor).1.take (((s.rewrapped width cursor).2.getD (0, 0)).1 + s.rows) ++
        List.replicate n (blank width {}) := by
  have heq := reflowWidth_eq s width cursor
  dsimp only at heq
  generalize (s.rewrapped width cursor).1 = rows at *
  generalize (s.rewrapped width cursor).2.getD (0, 0) = cur at *
  have hcut : (if cur.1 < rows.length - s.rows then
      rows.take (min cur.1 (rows.length - s.rows) + s.rows) else rows) = rows.take (cur.1 + s.rows) := by
    split
    · rw [Nat.min_eq_left (by omega)]
    · rw [List.take_of_length_le (by omega)]
  rw [hcut] at heq
  generalize min cur.1 (rows.length - s.rows) = start at heq
  have hlen : ((rows.take (cur.1 + s.rows)).take start).length - s.maxScrollback = 0 := by
    rw [length_take, length_take]
    omega
  rw [heq]
  refine ⟨s.rows - ((rows.take (cur.1 + s.rows)).drop start).length, Nat.sub_le _ _, ?_⟩
  rw [allRows]
  dsimp only
  rw [hlen, List.drop_zero, ← append_assoc, List.take_append_drop]

/-- **The texts after a change of the size**, where nothing is evicted. -/
theorem texts_resize (newRows : ℕ) (hwidth : 1 ≤ width) (cursor : ℕ × ℕ)
    (hring : (s.rewrapped width cursor).1.length + s.rows ≤ s.maxScrollback)
    (hall : s.allRows.length ≤ s.maxScrollback) : texts (s.resize newRows width cursor true).1.allRows =
      if width ≠ s.cols then texts ((s.rewrapped width cursor).1.take
        (((s.rewrapped width cursor).2.getD (0, 0)).1 + s.rows)) else texts s.allRows := by
  obtain ⟨n, hn, hrows⟩ := allRows_reflowWidth cursor (Nat.le_trans (Nat.le_add_right _ _) hring)
  have hmax : (s.reflowWidth width cursor).1.maxScrollback = s.maxScrollback := by
    rw [reflowWidth_eq]
  have hlen := congrArg List.length hrows
  rw [resize, Nat.max_eq_left hwidth]
  dsimp only
  split
  · rw [if_pos rfl]
    generalize s.reflowWidth width cursor = p at *
    obtain ⟨u, cur⟩ := p
    dsimp only at *
    rw [allRows, length_append, length_append, List.length_replicate, length_take] at hlen
    have hheight := texts_height u (max newRows 1) width cur.1 (by omega)
    dsimp only at hheight
    refine (hheight.trans (congrArg texts hrows)).trans (texts_append fun r hr => ?_)
    rw [List.eq_of_mem_replicate hr]
    exact visible_rowBlank width
  · rw [allRows, length_append] at hall
    have hheight := texts_height s (max newRows 1) width cursor.1 hall
    exact hheight

theorem keptRows_spec {below : List Row} (hgrid : s.grid = first :: below) :
    ∃ rest dropped, below = rest ++ dropped ∧ s.keptRows (0, 0) = s.scrollback ++ first :: rest ∧
      s.allRows = s.keptRows (0, 0) ++ dropped ∧ ∀ r ∈ dropped, r.isSkippable = true := by
  obtain ⟨dropped, hall, hblank, hlen⟩ := dropBlankRows_spec (s.scrollback.length + 0 + 1) s.allRows
  change s.allRows = s.keptRows (0, 0) ++ dropped at hall
  change _ ≤ (s.keptRows (0, 0)).length at hlen
  have hrows : s.allRows = (s.scrollback ++ [first]) ++ below := by
    rw [allRows, hgrid, append_assoc]
    rfl
  rw [hrows, length_append, length_append, List.length_singleton] at hlen
  rw [hrows] at hall
  obtain ⟨rest, hkept, hbelow⟩ : ∃ rest, s.keptRows (0, 0) = (s.scrollback ++ [first]) ++ rest ∧
      below = rest ++ dropped := by
    rcases List.append_eq_append_iff.mp hall with ⟨a, hk, hb⟩ | ⟨a, hk, hb⟩
    · exact ⟨a, hk, hb⟩
    · have hnil : a = [] := by
        have hcount := congrArg List.length hk
        rw [length_append, length_append, List.length_singleton] at hcount
        exact List.length_eq_zero_iff.mp (by omega)
      subst hnil
      rw [append_nil] at hk
      exact ⟨[], by rw [append_nil, hk], hb.symm⟩
  refine ⟨rest, dropped, hbelow, ?_, hrows.trans hall, fun r hr => (hblank r hr).1⟩
  rw [hkept, append_assoc]
  rfl

/-- **A change of the size with the cursor in the grid's first cell**, where nothing is evicted: all lines
are still there if and only if the width stays, or what does not fit below that cell shows nothing. -/
theorem linesKept_resize_iff {rows cols ring : ℕ} (h : s.Fits (fun c => c.width ≤ 2) rows cols ring)
    (hrows : 0 < rows) (hcols : 0 < cols) (newRows : ℕ) (hwidth : 2 ≤ width)
    (hring : (s.rewrapped width (0, 0)).1.length + s.rows ≤ s.maxScrollback)
    (hall : s.allRows.length ≤ s.maxScrollback) :
    LinesKept s.allRows (s.resize newRows width (0, 0) true).1.allRows ↔ width = s.cols ∨ s.Fitting width := by
  have htexts := texts_resize newRows (Nat.le_trans (Nat.le_succ 1) hwidth) (0, 0) hring hall
  by_cases hsame : width = s.cols
  · rw [if_neg (fun hne => hne hsame)] at htexts
    exact iff_of_true (.of_texts htexts) (.inl hsame)
  rw [if_pos hsame] at htexts
  obtain ⟨first, below, hgrid⟩ : ∃ first below, s.grid = first :: below := by
    refine List.exists_cons_of_length_pos ?_
    rw [h.height]
    exact hrows
  obtain ⟨rest, dropped, hbelow, hkept, hallRows, hdropped⟩ := keptRows_spec hgrid
  have hfit : ∀ r ∈ s.allRows, r.Fits (fun c => c.width ≤ 2) cols := fun r hr =>
    (List.mem_append.mp hr).elim (h.scrollback r) (h.grid r)
  have hfirst : 0 < first.cells.length := by
    rw [(h.grid first (by rw [hgrid]; exact List.mem_cons_self)).width]
    exact hcols
  have hnarrow : ∀ r ∈ s.keptRows (0, 0), ∀ c ∈ r.cells, c.width ≤ 2 := fun r hr =>
    (hfit r (by rw [hallRows]; exact List.mem_append_left _ hr)).cells
  obtain ⟨above, beneath, skipped, col, hrewrapped, hshowing, hpadded⟩ :=
    rewrapped_spec hwidth hkept hfirst hnarrow
  rw [hrewrapped, Option.getD_some] at htexts
  dsimp only at htexts
  -- what is cut off is what does not fit
  have hcut : (∀ r ∈ (above ++ beneath).drop (above.length + skipped + s.rows), visible r.cells = []) ↔
      s.Fitting width := by
    rw [Fitting, hgrid, hbelow, ← cons_append, fromTop_append hfirst hdropped, Nat.add_assoc,
      List.drop_length_add_append]
    have hmap : ((beneath.drop (skipped + s.rows)).map fun r => visible r.cells) =
        ((fromTop width s.carried (first :: rest)).drop s.rows).map visible := by
      rw [List.map_drop, ← List.drop_drop, List.map_drop, ← hshowing]
      rfl
    have hiff := congrArg (fun l => ∀ x ∈ l, x = []) hmap
    simpa only [List.forall_mem_map, eq_iff_iff] using hiff
  have hold : texts s.allRows = texts (s.keptRows (0, 0)) := by
    rw [hallRows]
    exact texts_append fun r hr => visible_of_isSkippable (hdropped r hr)
  rw [linesKept_congr htexts, or_iff_right hsame, ← hcut]
  constructor
  · intro hlines
    have hle := hlines.length_le
    have heq : visible (cellsOf s.allRows) = visible (cellsOf (above ++ beneath)) := by
      rw [← shown_texts, ← shown_texts, hold, shown_flatten_padded hpadded]
    rw [heq] at hle
    conv at hle => lhs; rw [← List.take_append_drop (above.length + skipped + s.rows) (above ++ beneath)]
    rw [cellsOf_append, visible_append, length_append] at hle
    exact visible_cellsOf_eq_nil.mp (List.length_eq_zero_iff.mp (by omega))
  · intro hnone
    refine .of_forall ?_
    have hsplit := @texts_append ((above ++ beneath).take (above.length + skipped + s.rows)) _ hnone
    rw [List.take_append_drop] at hsplit
    rw [hold, ← hsplit]
    exact hpadded

/-! ### Another ring -/

/-- The screen with another bound of its scrollback. -/
def withRing (s : Screen) (n : ℕ) : Screen := { s with maxScrollback := n }

variable {n : ℕ}

theorem shrink_withRing (rows : ℕ) {fuel : ℕ} (cursorRow : ℕ)
    (hring : s.scrollback.length + fuel ≤ s.maxScrollback) (hn : s.maxScrollback ≤ n) :
    shrink rows true fuel (s.withRing n) cursorRow =
      ((shrink rows true fuel s cursorRow).1.withRing n, (shrink rows true fuel s cursorRow).2) := by
  induction fuel generalizing s cursorRow with
  | zero => rfl
  | succ fuel ih =>
    rw [shrink, shrink, withRing]
    dsimp only
    split
    case isFalse => rfl
    case isTrue hmore =>
      split
      case isTrue =>
        exact @ih { s with grid := s.grid.dropLast } cursorRow
          (by show s.scrollback.length + fuel ≤ s.maxScrollback; omega) hn
      case isFalse =>
        rw [if_pos rfl, if_pos rfl]
        cases hgrid : s.grid with
        | nil =>
          rw [hgrid] at hmore
          exact absurd hmore (Nat.not_lt_zero rows)
        | cons row grid =>
          dsimp only
          have hpush : ∀ u : Screen, u.scrollback.length < u.maxScrollback → u.pushScrollback row =
              { u with scrollback := u.scrollback ++ [row], scrollbackTotal := u.scrollbackTotal + 1 } := by
            intro u hu
            rw [pushScrollback, if_pos (by omega), if_neg (by omega)]
          rw [hpush s (by omega), hpush _ (show s.scrollback.length < n by omega)]
          exact @ih { s with
              scrollback := s.scrollback ++ [row], scrollbackTotal := s.scrollbackTotal + 1, grid } _
            (by
              show (s.scrollback ++ [row]).length + fuel ≤ s.maxScrollback
              rw [length_append, List.length_singleton]
              omega) hn

theorem grow_withRing (rows cols fuel cursorRow : ℕ) : grow rows cols true fuel (s.withRing n) cursorRow =
      ((grow rows cols true fuel s cursorRow).1.withRing n, (grow rows cols true fuel s cursorRow).2) := by
  induction fuel generalizing s cursorRow with
  | zero => rfl
  | succ fuel ih =>
    rw [grow.eq_def, grow.eq_def, withRing]
    dsimp only
    split
    case isFalse => rfl
    case isTrue =>
      cases s.scrollback.getLast? with
      | some row => exact @ih { s with grid := row :: s.grid, scrollback := s.scrollback.dropLast } _
      | none => exact @ih { s with grid := s.grid ++ [blank cols {}] } _

theorem reflowWidth_withRing (cursor : ℕ × ℕ) (hring : (s.rewrapped width cursor).1.length ≤ s.maxScrollback)
    (hn : s.maxScrollback ≤ n) : (s.withRing n).reflowWidth width cursor =
      ((s.reflowWidth width cursor).1.withRing n, (s.reflowWidth width cursor).2) := by
  have hsame : (s.withRing n).rewrapped width cursor = s.rewrapped width cursor := rfl
  rw [reflowWidth_eq, reflowWidth_eq, hsame]
  dsimp only
  generalize (s.rewrapped width cursor).1 = rows at *
  generalize (s.rewrapped width cursor).2.getD (0, 0) = cur at *
  have hall : ∀ m, rows.length ≤ m → ∀ k, ((if cur.1 < rows.length - s.rows then
      rows.take (min cur.1 (rows.length - s.rows) + s.rows) else rows).take k).length - m = 0 := by
    intro m hm k
    rw [length_take]
    split
    · rw [length_take]
      omega
    · omega
  have hrows : (s.withRing n).rows = s.rows := rfl
  have hmax : (s.withRing n).maxScrollback = n := rfl
  rw [hrows, hmax, hall n (by omega), hall s.maxScrollback hring]
  rfl

/-- **Where nothing is evicted a longer ring makes no difference.** -/
theorem resize_withRing (newRows : ℕ) (hwidth : 1 ≤ width) (cursor : ℕ × ℕ)
    (hring : (s.rewrapped width cursor).1.length + s.rows ≤ s.maxScrollback)
    (hall : s.allRows.length ≤ s.maxScrollback) (hn : s.maxScrollback ≤ n) :
    (s.withRing n).resize newRows width cursor true =
      ((s.resize newRows width cursor true).1.withRing n, (s.resize newRows width cursor true).2) := by
  obtain ⟨k, hk, hrows⟩ := allRows_reflowWidth cursor (Nat.le_trans (Nat.le_add_right _ _) hring)
  have hreflow := reflowWidth_withRing cursor (Nat.le_trans (Nat.le_add_right _ _) hring) hn
  have hmax : (s.reflowWidth width cursor).1.maxScrollback = s.maxScrollback := by
    rw [reflowWidth_eq]
  have hlen := congrArg List.length hrows
  rw [allRows, length_append] at hall
  have hcols : (s.withRing n).cols = s.cols := rfl
  rw [resize, resize, Nat.max_eq_left hwidth, hcols]
  dsimp only
  split
  · rw [if_pos rfl, if_pos rfl, hreflow]
    generalize s.reflowWidth width cursor = p at *
    obtain ⟨u, cur⟩ := p
    dsimp only at *
    rw [allRows, length_append, length_append, List.length_replicate, length_take] at hlen
    have hgrid : (u.withRing n).grid = u.grid := rfl
    rw [hgrid, shrink_withRing _ _ (by omega) (by omega)]
    dsimp only
    rw [show ∀ v : Screen, (v.withRing n).grid = v.grid from fun _ => rfl, grow_withRing]
    rfl
  · have hgrid : (s.withRing n).grid = s.grid := rfl
    rw [hgrid, shrink_withRing _ _ (by omega) hn]
    dsimp only
    rw [show ∀ v : Screen, (v.withRing n).grid = v.grid from fun _ => rfl, grow_withRing]
    rfl

end Screen

namespace Terminal

variable {γ : Type} {t : Terminal γ}

/-- The terminal with another bound of its primary scrollback. -/
def withRing (t : Terminal γ) (n : ℕ) : Terminal γ := { t with primary := t.primary.withRing n }

/-- **Nothing is evicted**: a longer ring makes no difference. -/
def RingSuffices (t : Terminal γ) (rows cols : ℕ) : Prop :=
  ∀ n, t.primary.maxScrollback ≤ n →
    ((t.withRing n).resize rows cols).primary.allRows = (t.resize rows cols).primary.allRows

theorem resize_primary (t : Terminal γ) (rows cols : ℕ) :
    (t.resize rows cols).primary = if max rows 1 = t.rows ∧ max cols 1 = t.cols then t.primary
      else (t.primary.resize (max rows 1) (max cols 1)
        (if t.altActive then (0, 0) else (t.cursor.row, t.cursor.col)) true).1 := by
  rw [resize]
  dsimp only
  split
  · rfl
  · rfl

/-- **A ring that has room for the rows at the new width suffices.** -/
theorem ringSuffices_of_le (halt : t.altActive = true) (rows : ℕ) {cols : ℕ}
    (hring : (t.primary.rewrapped (max cols 1) (0, 0)).1.length + t.primary.rows ≤ t.primary.maxScrollback)
    (hall : t.primary.allRows.length ≤ t.primary.maxScrollback) : t.RingSuffices rows cols := by
  intro n hn
  rw [resize_primary, resize_primary]
  have hrows : (t.withRing n).rows = t.rows ∧ (t.withRing n).cols = t.cols := ⟨rfl, rfl⟩
  rw [hrows.1, hrows.2]
  split
  · rfl
  · have halt' : (t.withRing n).altActive = true := halt
    rw [if_pos halt']
    have hresize := Screen.resize_withRing (max rows 1) (Nat.le_max_right cols 1) (0, 0) hring hall hn
    exact congrArg (fun p => p.1.allRows) hresize

theorem Good.linesKept_iff {ring : ℕ} (h : t.Good ring) (halt : t.altActive = true) {rows cols : ℕ}
    (hcols : 2 ≤ cols) (hring : t.RingSuffices rows cols) :
    LinesKept t.primary.allRows (t.resize rows cols).primary.allRows ↔ cols = t.cols ∨ t.primary.Fitting cols := by
  obtain ⟨f, -, -, hs⟩ := h
  have hmax : max cols 1 = cols := Nat.max_eq_left (by omega)
  -- a ring that is long enough
  obtain ⟨n, hn, hlong, hrows⟩ : ∃ n, t.primary.maxScrollback ≤ n ∧
      (t.primary.rewrapped cols (0, 0)).1.length + t.primary.rows ≤ n ∧ t.primary.allRows.length ≤ n :=
    ⟨max t.primary.maxScrollback (max ((t.primary.rewrapped cols (0, 0)).1.length + t.primary.rows)
      t.primary.allRows.length), by omega, by omega, by omega⟩
  have hfits : (t.primary.withRing n).Fits (fun c => c.width ≤ 2) f.rows f.cols n := by
    refine ⟨hs.primary.rows_eq, hs.primary.cols_eq, rfl, hs.primary.height, fun r hr => ?_, fun r hr => ?_, ?_⟩
    · exact (hs.primary.grid r hr).mono fun c hc => by rw [hc.width]; exact wcwidth_le_two c.ch
    · exact (hs.primary.scrollback r hr).mono fun c hc => by rw [hc.width]; exact wcwidth_le_two c.ch
    · rw [Screen.allRows, length_append] at hrows
      exact Nat.le_trans (Nat.le_add_right _ _) hrows
  rw [← hring n hn, resize_primary, hmax]
  have halt' : (t.withRing n).altActive = true := halt
  have hsize : (t.withRing n).rows = t.rows ∧ (t.withRing n).cols = t.cols := ⟨rfl, rfl⟩
  rw [if_pos halt', hsize.1, hsize.2]
  split
  case isTrue hsame => exact iff_of_true (.of_texts rfl) (.inl hsame.2)
  case isFalse =>
    exact Screen.linesKept_resize_iff hfits hs.rows_pos hs.cols_pos (max rows 1) hcols hlong hrows

/-- **The primary screen while the alternate one is drawn on.**  Where nothing is evicted, every line that says
something is still there after a change of the size, in order, if and only if the width stays, or what does
not fit below the first cell of the grid at the new width shows nothing. -/
theorem primary_kept_iff [GraphicsStore γ] (rows cols scrollback : ℕ) (calls : List Call)
    (halt : (run rows cols scrollback calls : Terminal γ).altActive = true) (newRows : ℕ) {newCols : ℕ}
    (hcols : 2 ≤ newCols) (hring : (run rows cols scrollback calls : Terminal γ).RingSuffices newRows newCols) :
    let t : Terminal γ := run rows cols scrollback calls
    LinesKept t.primary.allRows (t.resize newRows newCols).primary.allRows ↔
      newCols = t.cols ∨ t.primary.Fitting newCols :=
  (good_run rows cols scrollback calls).linesKept_iff halt hcols hring

/-- A line of four letters, and the alternate screen. -/
def oneLine : List Call := [.process ([0x61, 0x62, 0x63, 0x64] ++ csi [byte '?', byte '4', byte '7'] 'h')]

theorem primary_kept_oneLine :
    LinesKept (run 2 4 10 oneLine : Terminal Unit).primary.allRows
      ((run 2 4 10 oneLine : Terminal Unit).resize 2 2).primary.allRows :=
  (primary_kept_iff 2 4 10 oneLine (by decide +kernel) 2 (Nat.le_refl 2)
    (ringSuffices_of_le (by decide +kernel) 2 (by decide +kernel) (by decide +kernel))).mpr
      (.inr (by decide +kernel))

/-- Two such lines, and the alternate screen. -/
def twoLines : List Call :=
  [.process ([0x61, 0x62, 0x63, 0x64, 0x0D, 0x0A, 0x65, 0x66, 0x67, 0x68] ++
    csi [byte '?', byte '4', byte '7'] 'h')]

theorem primary_lost_twoLines :
    (run 2 4 10 twoLines : Terminal Unit).altActive = true ∧
      (run 2 4 10 twoLines : Terminal Unit).RingSuffices 2 2 ∧
      ¬LinesKept (run 2 4 10 twoLines : Terminal Unit).primary.allRows
        ((run 2 4 10 twoLines : Terminal Unit).resize 2 2).primary.allRows := by
  have halt : (run 2 4 10 twoLines : Terminal Unit).altActive = true := by decide +kernel
  refine ⟨halt, ringSuffices_of_le halt 2 (by decide +kernel) (by decide +kernel), fun h => ?_⟩
  have hcells := h.length_le
  revert hcells
  decide +kernel

end Terminal

end Posh.Term
