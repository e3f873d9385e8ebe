/-
**Wide characters and their spacers.**

A row is paired when every head of a wide character is followed by a spacer and every spacer preceded by
a head.  What an edit of a row does to the pairing depends only on the widths before it, so each edit is
described by the widths it leaves: overwriting a character together with what it cuts off keeps the
pairing, blanking keeps it when no head is parted from its spacer, and the repair of a row brings it
about whatever the row was.  Rewrapping writes every spacer anew.
-/

import Posh.Term.RowEdit

set_option autoImplicit false

namespace Posh.Term

open List (mem_append_left range)
open Row
open Cell

/-! ### Widths -/

/-- The widths of a row, paired: after every 2 a 0, and before every 0 a 2. -/
structure PairedFn (w : ℕ → Option ℕ) : Prop where
  head : ∀ c, w c = some 2 → w (c + 1) = some 0
  spacer : ∀ c, w (c + 1) = some 0 → w c = some 2
  first : w 0 ≠ some 0

/-- The widths after a character of `n` columns was written, with what that cuts off blanked. -/
def overwrite (w : ℕ → Option ℕ) (col n : ℕ) (c : ℕ) : Option ℕ :=
  if c = col then some n
  else if n = 2 ∧ c = col + 1 then some 0
  else if c + 1 = col ∧ w col = some 0 then some 1
  else if c = col + n ∧ w (col + n - 1) = some 2 then some 1
  else w c

/-- The widths after some cells were blanked. -/
def blanked (w : ℕ → Option ℕ) (p : ℕ → Prop) [DecidablePred p] (c : ℕ) : Option ℕ :=
  if p c ∧ (w c).isSome then some 1 else w c

/-- The cell before a character that is written is blanked if its spacer is overwritten. -/
def cleanBefore (w : ℕ → Option ℕ) (col c : ℕ) : Option ℕ :=
  if c = col - 1 ∧ w col = some 0 ∧ col > 0 then some 1 else w c

/-- The cell after a column is blanked if its head is overwritten. -/
def cleanAfter (w : ℕ → Option ℕ) (cols col c : ℕ) : Option ℕ :=
  if c = col + 1 ∧ w col = some 2 ∧ col + 1 < cols then some 1 else w c

theorem cleanBefore_self (w : ℕ → Option ℕ) (col : ℕ) : cleanBefore w col col = w col := by
  rw [cleanBefore, if_neg (by omega)]

namespace PairedFn

variable {w : ℕ → Option ℕ} {cols col c : ℕ}

theorem clean_one (h : PairedFn w) (hnext : ∀ c, w c = some 2 → c + 1 < cols)
    (hc : c < col ∨ col + 1 ≤ c) : cleanAfter (cleanBefore w col) cols col c = overwrite w col 1 c := by
  have hfirst := h.first
  have hcol := hnext col
  simp only [cleanAfter, cleanBefore_self]
  simp only [cleanBefore, Posh.Term.overwrite]
  grind

theorem clean_two (h : PairedFn w) (hnext : ∀ c, w c = some 2 → c + 1 < cols) (hc : c < col ∨ col + 2 ≤ c) :
    cleanAfter (cleanAfter (cleanBefore w col) cols col) cols (col + 1) c = overwrite w col 2 c := by
  have hfirst := h.first
  have hhead := h.head col
  have hcol := hnext col
  have hcol' := hnext (col + 1)
  simp only [cleanAfter, cleanBefore_self]
  simp only [cleanBefore, Posh.Term.overwrite]
  grind

theorem congr {v : ℕ → Option ℕ} (h : PairedFn w) (heq : ∀ c, v c = w c) : PairedFn v := by
  rw [show v = w from funext heq]
  exact h

theorem of_single (h : ∀ c, w c ≠ some 2 ∧ w c ≠ some 0) : PairedFn w :=
  ⟨fun c hc => absurd hc (h c).1, fun c hc => absurd hc (h (c + 1)).2, (h 0).2⟩

theorem overwrite (h : PairedFn w) (col : ℕ) {n : ℕ} (hn : n = 1 ∨ n = 2) : PairedFn (overwrite w col n) := by
  have hhead := h.head
  have hspacer := h.spacer
  have hfirst := h.first
  refine ⟨fun c hc => ?_, fun c hc => ?_, ?_⟩
  · simp only [Posh.Term.overwrite] at hc ⊢
    grind
  · simp only [Posh.Term.overwrite] at hc ⊢
    grind
  · simp only [Posh.Term.overwrite]
    grind

theorem blanked (h : PairedFn w) {p : ℕ → Prop} [DecidablePred p]
    (hp : ∀ c, w c = some 2 → (p c ↔ p (c + 1))) : PairedFn (blanked w p) := by
  have hhead := h.head
  have hspacer := h.spacer
  have hfirst := h.first
  refine ⟨fun c hc => ?_, fun c hc => ?_, ?_⟩
  · simp only [Posh.Term.blanked] at hc ⊢
    grind
  · simp only [Posh.Term.blanked] at hc ⊢
    grind
  · simp only [Posh.Term.blanked]
    grind

end PairedFn

open PairedFn

/-- The widths, paired before a column. -/
structure PairedUpTo (w : ℕ → Option ℕ) (n : ℕ) : Prop where
  head : ∀ c < n, w c = some 2 → w (c + 1) = some 0
  spacer : ∀ c, c + 1 < n → w (c + 1) = some 0 → w c = some 2
  first : 0 < n → w 0 ≠ some 0

/-- A cell is half of a wide character whose other half is missing. -/
def Orphaned (w : ℕ → Option ℕ) (c : ℕ) : Prop :=
  (w c = some 2 ∧ w (c + 1) ≠ some 0) ∨ (w c = some 0 ∧ (c = 0 ∨ w (c - 1) ≠ some 2))

namespace PairedUpTo

variable {w v : ℕ → Option ℕ} {n : ℕ}

theorem step (h : PairedUpTo w n) (hother : ∀ c, c ≠ n → v c = w c)
    (horphan : Orphaned w n → v n = some 1) (hkept : ¬ Orphaned w n → v n = w n) : PairedUpTo v (n + 1) := by
  have hhead := h.head
  have hspacer := h.spacer
  have hfirst := h.first
  rw [Orphaned] at horphan hkept
  refine ⟨fun c hc hw => ?_, fun c hc hw => ?_, fun hn => ?_⟩
  · grind
  · grind
  · grind

theorem paired (h : PairedUpTo w n) (hend : ∀ c, n ≤ c → w c = none) : PairedFn w := by
  refine ⟨fun c hc => ?_, fun c hc => ?_, fun hc => ?_⟩
  · by_cases hlt : c < n
    · exact h.head c hlt hc
    · rw [hend c (by omega)] at hc
      cases hc
  · by_cases hlt : c + 1 < n
    · exact h.spacer c hlt hc
    · rw [hend (c + 1) (by omega)] at hc
      cases hc
  · by_cases hlt : 0 < n
    · exact h.first hlt hc
    · rw [hend 0 (by omega)] at hc
      cases hc

end PairedUpTo

/-! ### Rows -/

/-- The width of a cell of a row. -/
def widthAt (cells : List Cell) (c : ℕ) : Option ℕ := (cells[c]?).map Cell.width

theorem widthAt_append (a b : List Cell) (c : ℕ) :
    widthAt (a ++ b) c = if c < a.length then widthAt a c else widthAt b (c - a.length) := by
  rw [widthAt, List.getElem?_append]
  split <;> rfl

theorem widthAt_take (cells : List Cell) (n c : ℕ) :
    widthAt (cells.take n) c = if c < n then widthAt cells c else none := by
  rw [widthAt, List.getElem?_take]
  split <;> rfl

theorem lt_of_widthAt {cells : List Cell} {c n : ℕ} (h : widthAt cells c = some n) : c < cells.length := by
  obtain ⟨x, hx, -⟩ := Option.map_eq_some_iff.mp h
  exact (List.getElem?_eq_some_iff.mp hx).1

/-- Every head of a wide character is followed by a spacer, and every spacer preceded by a head. -/
def Row.Paired (r : Row) : Prop := PairedFn (widthAt r.cells)

namespace PairedFn

theorem of_cells {cells : List Cell} (h : ∀ c ∈ cells, c.width ≠ 2 ∧ c.width ≠ 0) : PairedFn (widthAt cells) := by
  refine of_single fun c => ?_
  rw [widthAt]
  cases hc : cells[c]? with
  | none => simp
  | some x => simpa using h x (List.mem_of_getElem? hc)

theorem append {a b : List Cell} (ha : PairedFn (widthAt a)) (hb : PairedFn (widthAt b)) :
    PairedFn (widthAt (a ++ b)) := by
  refine ⟨fun c hc => ?_, fun c hc => ?_, ?_⟩
  · rw [widthAt_append] at hc ⊢
    split at hc
    · have hnext := ha.head c hc
      rw [if_pos (lt_of_widthAt hnext)]
      exact hnext
    · rename_i hlt
      have hnext := hb.head _ hc
      rw [if_neg (by omega), show c + 1 - a.length = c - a.length + 1 by omega]
      exact hnext
  · rw [widthAt_append] at hc ⊢
    split at hc
    · rename_i hlt
      rw [if_pos (by omega)]
      exact ha.spacer c hc
    · rename_i hlt
      by_cases hc' : c < a.length
      · -- a spacer cannot begin the second part
        rw [show c + 1 - a.length = 0 by omega] at hc
        exact absurd hc hb.first
      · rw [if_neg hc']
        rw [show c + 1 - a.length = c - a.length + 1 by omega] at hc
        exact hb.spacer _ hc
  · rw [widthAt_append]
    split
    · exact ha.first
    · rw [Nat.zero_sub]
      exact hb.first

theorem wide {cell spacer : Cell} (h : cell.width = 2) (hs : spacer.width = 0) :
    PairedFn (widthAt [cell, spacer]) := by
  refine ⟨fun c hc => ?_, fun c hc => ?_, ?_⟩
  · match c with
    | 0 => exact congrArg some hs
    | 1 => exact absurd (Option.some.inj hc) (by rw [hs]; decide)
    | _ + 2 => cases hc
  · match c with
    | 0 => exact congrArg some h
    | _ + 1 => cases hc
  · intro hc
    exact absurd (Option.some.inj hc) (by rw [h]; decide)

theorem blanks (n : ℕ) : PairedFn (widthAt (List.replicate n (blank {}))) := by
  refine of_cells fun c hc => ?_
  rw [List.eq_of_mem_replicate hc]
  decide

theorem take {cells : List Cell} (h : PairedFn (widthAt cells)) {n : ℕ}
    (hn : ∀ c, c + 1 = n → widthAt cells c ≠ some 2) : PairedFn (widthAt (cells.take n)) := by
  refine ⟨fun c hc => ?_, fun c hc => ?_, ?_⟩
  · rw [widthAt_take] at hc ⊢
    split at hc
    · rename_i hlt
      rw [if_pos (Nat.lt_of_le_of_ne hlt fun heq => hn c heq hc)]
      exact h.head c hc
    · cases hc
  · rw [widthAt_take] at hc ⊢
    split at hc
    · rename_i hlt
      rw [if_pos (by omega)]
      exact h.spacer c hc
    · cases hc
  · rw [widthAt_take]
    split
    · exact h.first
    · exact fun hc => by cases hc

end PairedFn

theorem Row.paired_blank (cols : ℕ) : (blank cols {}).Paired := .blanks cols

theorem Row.paired_resizeWidth {r : Row} (h : r.Paired) (cols : ℕ) : (r.resizeWidth cols).Paired := by
  rw [resizeWidth]
  split
  · rename_i hlt
    have hlen : (r.cells.take cols).length = cols := by
      rw [List.length_take]
      omega
    dsimp only
    split
    · rename_i last hlast
      rw [List.getLast?_eq_getElem?, hlen, List.getElem?_take] at hlast
      split
      · rename_i hwide
        refine append ?_ (.blanks 1)
        rw [List.dropLast_eq_take, hlen, List.take_take]
        -- the head is cut off, so the cell before it is none
        refine take h fun c hc hhead => ?_
        have hnext := h.head c hhead
        rw [show c + 1 = cols - 1 by omega, widthAt] at hnext
        split at hlast
        · rw [hlast, Option.map_some, hwide] at hnext
          cases hnext
        · cases hlast
      · rename_i hwide
        refine take h fun c hc hhead => ?_
        split at hlast
        · rw [widthAt, show c = cols - 1 by omega, hlast] at hhead
          exact hwide (Option.some.inj hhead)
        · cases hlast
    · rename_i hnone
      rw [List.getLast?_eq_none_iff] at hnone
      rw [Row.Paired, hnone]
      exact .blanks 0
  · exact append h (.blanks _)

/-! ### Screens -/

/-- Every row is paired, scrollback included. -/
structure Screen.Paired (s : Screen) : Prop where
  grid : ∀ r ∈ s.grid, r.Paired
  scrollback : ∀ r ∈ s.scrollback, r.Paired

namespace Screen

/-- The rows of one screen are rows of the other, or blank. -/
structure Rearranges (s s' : Screen) : Prop where
  grid : ∀ r ∈ s'.grid, r ∈ s.grid ++ s.scrollback ∨ ∃ n, r = Row.blank n {}
  scrollback : ∀ r ∈ s'.scrollback, r ∈ s.grid ++ s.scrollback ∨ ∃ n, r = Row.blank n {}

theorem Paired.of_rearranges {s s' : Screen} (h : s.Paired) (hs : s.Rearranges s') : s'.Paired := by
  have hall : ∀ r, (r ∈ s.grid ++ s.scrollback ∨ ∃ n, r = blank n {}) → r.Paired := by
    intro r hr
    rcases hr with hr | ⟨n, rfl⟩
    · rcases List.mem_append.mp hr with hr | hr
      · exact h.grid r hr
      · exact h.scrollback r hr
    · exact paired_blank n
  exact ⟨fun r hr => hall r (hs.grid r hr), fun r hr => hall r (hs.scrollback r hr)⟩

namespace Rearranges

variable {s s' s'' : Screen}

theorem refl (s : Screen) : s.Rearranges s :=
  ⟨fun _ hr => .inl (mem_append_left _ hr), fun _ hr => .inl (List.mem_append_right _ hr)⟩

theorem trans (h : s.Rearranges s') (h' : s'.Rearranges s'') : s.Rearranges s'' := by
  have hall : ∀ r, (r ∈ s'.grid ++ s'.scrollback ∨ ∃ n, r = blank n {}) →
      r ∈ s.grid ++ s.scrollback ∨ ∃ n, r = blank n {} := by
    intro r hr
    rcases hr with hr | hr
    · rcases List.mem_append.mp hr with hr | hr
      · exact h.grid r hr
      · exact h.scrollback r hr
    · exact .inr hr
  exact ⟨fun r hr => hall r (h'.grid r hr), fun r hr => hall r (h'.scrollback r hr)⟩

theorem iterate {f : Screen → Screen} (hf : ∀ s : Screen, s.Rearranges (f s)) (n : ℕ) (s : Screen) :
    s.Rearranges (f^[n] s) := by
  induction n generalizing s with
  | zero => exact refl s
  | succ n ih =>
    rw [Function.iterate_succ_apply]
    exact (hf s).trans (ih (f s))

theorem pushScrollback {row : Row} (hrow : row ∈ s.grid ++ s.scrollback) :
    s.Rearranges (s.pushScrollback row) := by
  refine ⟨fun r hr => ?_, Fits.forall_mem_pushScrollback (fun r hr => ?_) (.inl hrow)⟩
  · rw [(Fits.pushScrollback_shape s row).1] at hr
    exact .inl (mem_append_left _ hr)
  · exact .inl (List.mem_append_right _ hr)

theorem scrollUpOne (top bot : ℕ) (save : Bool) (s : Screen) : s.Rearranges (s.scrollUpOne top bot save {}) := by
  rw [Screen.scrollUpOne]
  split
  · exact refl s
  · rename_i row hrow
    have hsaved : s.Rearranges (if save then s.pushScrollback row else s) := by
      split
      · exact pushScrollback (mem_append_left _ (List.mem_of_getElem? hrow))
      · exact refl s
    refine ⟨fun r hr => ?_, hsaved.scrollback⟩
    rcases List.eq_or_mem_of_mem_insertIdx hr with rfl | hr
    · exact .inr ⟨s.cols, rfl⟩
    · exact .inl (mem_append_left _ (List.mem_of_mem_eraseIdx hr))

theorem scrollUp (s : Screen) (top bot n : ℕ) (save : Bool) : s.Rearranges (s.scrollUp top bot n save {}) := by
  rw [Screen.scrollUp]
  split
  · exact refl s
  · exact iterate (scrollUpOne _ _ save) _ s

theorem scrollDownOne (top bot : ℕ) (s : Screen) : s.Rearranges (s.scrollDownOne top bot {}) := by
  refine ⟨fun r hr => ?_, (refl s).scrollback⟩
  rcases List.eq_or_mem_of_mem_insertIdx hr with rfl | hr
  · exact .inr ⟨s.cols, rfl⟩
  · exact .inl (mem_append_left _ (List.mem_of_mem_eraseIdx hr))

theorem scrollDown (s : Screen) (top bot n : ℕ) : s.Rearranges (s.scrollDown top bot n {}) := by
  rw [Screen.scrollDown]
  split
  · exact refl s
  · exact iterate (scrollDownOne _ _) _ s

theorem clearGrid (s : Screen) : s.Rearranges (s.clearGrid {}) := by
  refine ⟨fun r hr => ?_, (refl s).scrollback⟩
  obtain ⟨_, -, rfl⟩ := List.mem_map.mp hr
  exact .inr ⟨s.cols, rfl⟩

theorem clearScrollback (s : Screen) : s.Rearranges s.clearScrollback :=
  ⟨(refl s).grid, List.forall_mem_nil _⟩

theorem dropLast (s : Screen) : s.Rearranges { s with grid := s.grid.dropLast } :=
  ⟨fun r hr => (refl s).grid r (List.dropLast_subset _ hr), (refl s).scrollback⟩

theorem shrink (rows : ℕ) (reflow : Bool) (fuel : ℕ) (s : Screen) (cursorRow : ℕ) :
    s.Rearranges (Screen.shrink rows reflow fuel s cursorRow).1 := by
  induction fuel generalizing s cursorRow with
  | zero => exact refl s
  | succ fuel ih =>
    rw [Screen.shrink]
    split
    · dsimp only
      split
      · exact (dropLast s).trans (ih _ _)
      · split
        · split
          · exact refl s
          · rename_i row grid hgrid
            have hrow : row ∈ s.grid ++ s.scrollback :=
              mem_append_left _ (hgrid ▸ List.mem_cons_self)
            have htop : s.Rearranges { s.pushScrollback row with grid } :=
              ⟨fun r hr => .inl (mem_append_left _ (hgrid ▸ List.mem_cons_of_mem row hr)),
                (pushScrollback hrow).scrollback⟩
            exact htop.trans (ih _ _)
        · exact (dropLast s).trans (ih _ _)
    · exact refl s

theorem grow (rows cols : ℕ) (reflow : Bool) (fuel : ℕ) (s : Screen) (cursorRow : ℕ) :
    s.Rearranges (Screen.grow rows cols reflow fuel s cursorRow).1 := by
  induction fuel generalizing s cursorRow with
  | zero => exact refl s
  | succ fuel ih =>
    rw [Screen.grow.eq_def]
    dsimp only
    split
    · split
      · rename_i row hrow
        have hback : s.Rearranges
            { s with grid := row :: s.grid, scrollback := s.scrollback.dropLast } := by
          refine ⟨List.forall_mem_cons.mpr ⟨?_, (refl s).grid⟩, fun r hr => ?_⟩
          · exact .inl (List.mem_append_right _ (List.mem_of_getLast? hrow))
          · exact (refl s).scrollback r (List.dropLast_subset _ hr)
        exact hback.trans (ih _ _)
      · have hblank : s.Rearranges { s with grid := s.grid ++ [blank cols {}] } := by
          refine ⟨List.forall_mem_append.mpr ⟨(refl s).grid, ?_⟩, (refl s).scrollback⟩
          exact List.forall_mem_singleton.mpr (.inr ⟨cols, rfl⟩)
        exact hblank.trans (ih _ _)
    · exact refl s

end Rearranges

theorem Paired.clearIf {s : Screen} (h : s.Paired) (c : Prop) [Decidable c] :
    (if c then s.clearGrid {} else s).Paired := by
  split
  · exact h.of_rearranges (.clearGrid s)
  · exact h

/-! ### Rewrapping -/

/-- A logical line in the making, paired so far. -/
structure Wrapping.Paired (w : Wrapping) : Prop where
  rows : ∀ r ∈ w.rows, r.Paired
  cur : PairedFn (widthAt w.cur)

variable {w : Wrapping} {width : ℕ} {done : List Row}

theorem Wrapping.Paired.wrapIfFull (h : w.Paired) (width : ℕ) (more : Bool) :
    (w.wrapIfFull width more).Paired := by
  rw [Wrapping.wrapIfFull]
  split
  · refine ⟨List.forall_mem_append.mpr ⟨h.rows, List.forall_mem_singleton.mpr h.cur⟩, ?_⟩
    exact .blanks 0
  · exact h

theorem Wrapping.Paired.place (h : w.Paired) {placed : List Cell}
    (hplaced : PairedFn (widthAt placed)) (cursor : Option (ℕ × ℕ)) :
    ({ w with cur := w.cur ++ placed, cursor } : Wrapping).Paired := ⟨h.rows, h.cur.append hplaced⟩

theorem wrapCell_paired (h : w.Paired) (width : ℕ) (line : List Cell)
    (cursorOff : Option ℕ) (j : ℕ) (cell : Cell) : ((wrapCell width line cursorOff w j cell).1).Paired := by
  rw [wrapCell]
  dsimp only
  split
  · split
    · exact ⟨h.rows, h.cur⟩
    · exact h
  · rename_i hzero
    split
    · refine Wrapping.Paired.wrapIfFull ?_ _ _
      split
      · exact h.place (.blanks 1) _
      · exact h.place (.blanks 1) _
    · have hplaced :
          PairedFn (widthAt (if max cell.width 1 = 2 then [cell, cell.spacer] else [cell])) := by
        split
        · rename_i h2
          exact .wide (by omega) rfl
        · rename_i h2
          refine .of_cells (List.forall_mem_singleton.mpr ⟨fun h => h2 ?_, hzero⟩)
          rw [h]
          rfl
      have hroom : (if w.cur.length + max cell.width 1 > width then
          ({ w with cur := w.cur ++ List.replicate (width - w.cur.length) (blank {}) } :
            Wrapping).wrap else w).Paired := by
        split
        · refine ⟨List.forall_mem_append.mpr ⟨h.rows, ?_⟩, .blanks 0⟩
          exact List.forall_mem_singleton.mpr (h.cur.append (.blanks _))
        · exact h
      split
      · split
        · exact (hroom.place hplaced _).wrapIfFull _ _
        · exact (hroom.place hplaced _).wrapIfFull _ _
      · exact (hroom.place hplaced _).wrapIfFull _ _

theorem wrapFrom_paired (width : ℕ) (line : List Cell) (cursorOff : Option ℕ) (fuel : ℕ)
    (h : w.Paired) (j : ℕ) : (wrapFrom width line cursorOff fuel w j).Paired := by
  induction fuel generalizing w j with
  | zero => exact h
  | succ fuel ih =>
    rw [wrapFrom]
    split
    · exact h
    · exact ih (wrapCell_paired h width line cursorOff j _) _

theorem wrapLine_paired (hwidth : 0 < width) (line : List Cell)
    (mark : Option SemanticMark) (cursorOff : Option ℕ)
    (hfits : ∀ r ∈ done, r.Fits (fun _ => True) width) (hdone : ∀ r ∈ done, r.Paired)
    (cursor : Option (ℕ × ℕ)) :
    ∀ r ∈ (wrapLine width line mark cursorOff done cursor).1, r.Paired := by
  simp only [wrapLine]
  generalize line.take _ = kept
  have hw := wrapFrom_paired (w := { rows := done, cursor }) width kept cursorOff kept.length
    ⟨hdone, .blanks 0⟩ 0
  -- the last row is not cut: it has no more cells than the width
  obtain ⟨j, hlen⟩ := wrapFrom_fits (w := { rows := done, cursor }) cellLaw_true hwidth
    (fun _ (_ : _ ∈ kept) => trivial) cursorOff kept.length (j := 0)
    ⟨hfits, List.forall_mem_nil _, Nat.zero_le _, fun _ => hwidth⟩
  generalize wrapFrom width kept cursorOff kept.length _ 0 = w at hw hlen ⊢
  refine forall_mem_modify (P := Row.Paired) (f := fun r => { r with mark }) ?_ (fun r hr => hr) _
  refine List.forall_mem_append.mpr ⟨hw.rows, ?_⟩
  rw [List.forall_mem_singleton, List.take_of_length_le hlen.len]
  exact append hw.cur (.blanks _)

theorem wrapLines_paired (hwidth : 0 < width) (cursorAbs cursorCol fuel i : ℕ)
    (old : List Row) (hfits : ∀ r ∈ done, r.Fits (fun _ => True) width)
    (hdone : ∀ r ∈ done, r.Paired) (cursor : Option (ℕ × ℕ)) :
    ∀ r ∈ (wrapLines width cursorAbs cursorCol fuel i old done cursor).1, r.Paired := by
  induction fuel generalizing i old done cursor with
  | zero => exact hdone
  | succ fuel ih =>
    cases old with
    | nil => exact hdone
    | cons r rest =>
      rw [wrapLines]
      exact ih _ _ (wrapLine_fits cellLaw_true hwidth (fun _ _ => trivial) _ _ hfits _)
        (wrapLine_paired hwidth _ _ _ hfits hdone _) _

theorem paired_reflowWidth (s : Screen) (hwidth : 0 < width) (cursor : ℕ × ℕ) :
    (s.reflowWidth width cursor).1.Paired := by
  rw [Screen.reflowWidth]
  dsimp only
  generalize hdone : wrapLines _ _ _ _ _ _ _ _ = done
  have hpaired : ∀ r ∈ done.1, r.Paired := by
    rw [← hdone]
    exact wrapLines_paired hwidth _ _ _ _ _ (List.forall_mem_nil _) (List.forall_mem_nil _) _
  generalize done.2.getD (0, 0) = found
  obtain ⟨curAbs, curCol⟩ := found
  dsimp only
  generalize hkept : (if curAbs < done.1.length - s.rows then
    done.1.take (min curAbs (done.1.length - s.rows) + s.rows) else done.1) = kept
  have hk : ∀ r ∈ kept, r.Paired := by
    intro r hr
    rw [← hkept] at hr
    split at hr
    · exact hpaired r (List.mem_of_mem_take hr)
    · exact hpaired r hr
  refine ⟨List.forall_mem_append.mpr ⟨fun r hr => hk r (List.mem_of_mem_drop hr), ?_⟩, ?_⟩
  · intro r hr
    rw [List.eq_of_mem_replicate hr]
    exact paired_blank width
  · exact fun r hr => hk r (List.mem_of_mem_take (List.mem_of_mem_drop hr))

/-- **A change of size keeps the pairing.** -/
theorem paired_resize {s : Screen} (h : s.Paired) (rows cols : ℕ) (cursor : ℕ × ℕ) (reflow : Bool) :
    (s.resize rows cols cursor reflow).1.Paired := by
  rw [Screen.resize]
  dsimp only
  generalize hwide : (if max cols 1 ≠ s.cols then _ else (s, cursor)) = wide
  have hpaired : wide.1.Paired := by
    rw [← hwide]
    split
    · split
      · exact paired_reflowWidth s (Nat.le_max_right cols 1) cursor
      · refine ⟨fun r hr => ?_, fun r hr => ?_⟩
        · obtain ⟨r₀, hr₀, rfl⟩ := List.mem_map.mp hr
          exact paired_resizeWidth (h.grid r₀ hr₀) _
        · obtain ⟨r₀, hr₀, rfl⟩ := List.mem_map.mp hr
          exact paired_resizeWidth (h.scrollback r₀ hr₀) _
    · exact h
  have hshrunk := hpaired.of_rearranges
    (.shrink (max rows 1) reflow (wide.1.grid.length - max rows 1) wide.1 wide.2.1)
  generalize shrink _ _ _ wide.1 _ = shrunk at hshrunk ⊢
  have hgrown := hshrunk.of_rearranges
    (.grow (max rows 1) (max cols 1) reflow (max rows 1 - shrunk.1.grid.length) shrunk.1 shrunk.2)
  exact ⟨hgrown.grid, hgrown.scrollback⟩

/-! ### Edits of one row -/

section

variable {P : Cell → Prop} {s s' : Screen} {rows cols ring row : ℕ}

theorem widths_eq {r : ℕ} {x : Row} (h : s.grid[r]? = some x) : s.widths r = widthAt x.cells := by
  funext c
  rw [widths, cell?, h]
  rfl

theorem Paired.widths (h : s.Paired) (r : ℕ) : PairedFn (s.widths r) := by
  cases hrow : s.grid[r]? with
  | none =>
    refine .of_single fun c => ?_
    rw [Screen.widths, cell?, hrow]
    simp
  | some x =>
    rw [widths_eq hrow]
    exact h.grid x (List.mem_of_getElem? hrow)

theorem Paired.of_editsRow (h : s.Paired) (hedit : EditsRow row s s')
    (hrow : PairedFn (s'.widths row)) : s'.Paired := by
  refine ⟨fun x hx => ?_, ?_⟩
  · obtain ⟨r, hr⟩ := List.mem_iff_getElem?.mp hx
    by_cases heq : r = row
    · rw [Row.Paired, ← widths_eq hr, heq]
      exact hrow
    · rw [hedit.others r heq] at hr
      exact h.grid x (List.mem_of_getElem? hr)
  · rw [hedit.scrollback]
    exact h.scrollback

theorem Paired.relabel (h : s.Paired) (r : ℕ) {f : Row → Row} (hf : ∀ r, (f r).cells = r.cells) :
    (s.modifyRow r f).Paired :=
  ⟨forall_mem_modify h.grid (fun x hx => by rw [Row.Paired, hf x]; exact hx) _, h.scrollback⟩

theorem Paired.modifyCell (h : s.Paired) (hs : s.Fits P rows cols ring) (hr : row < rows) (col : ℕ)
    {f : Cell → Cell} (hf : ∀ c, (f c).width = c.width) : (s.modifyCell row col f).Paired := by
  have hlt : row < s.grid.length := by
    rw [hs.height]
    exact hr
  refine h.of_editsRow (.modifyCell hlt col f) ((h.widths row).congr fun c => ?_)
  rw [Screen.widths, cell?_modifyCell hs hr, Screen.widths]
  split
  · cases s.cell? row c with
    | none => rfl
    | some cell => exact congrArg some (hf cell)
  · rfl

open Terminal (cleanWide repairCell repairWideHalves eraseCells)

theorem repairCell_eq (row : ℕ) (hs : s.Fits P rows cols ring) (n : ℕ) :
    (Orphaned (s.widths row) n ∧ repairCell row s n = s.setCell row n (blank {})) ∨
      (¬ Orphaned (s.widths row) n ∧ repairCell row s n = s) := by
  have hend : cols ≤ n + 1 → s.widths row (n + 1) = none := widths_eq_none hs
  have hiff : (if ((s.widths row n).getD 1) = 2 then
        decide (s.cols ≤ n + 1) || decide (s.widths row (n + 1) ≠ some 0)
      else if ((s.widths row n).getD 1) = 0 then
        decide (n = 0) || decide (s.widths row (n - 1) ≠ some 2)
      else false) = true ↔ Orphaned (s.widths row) n := by
    rw [Orphaned, hs.cols_eq]
    cases s.widths row n with
    | none => simp
    | some w =>
      rw [Option.getD_some]
      split
      · rename_i h2
        rw [h2]
        by_cases hcols : cols ≤ n + 1
        · simp [hcols, hend hcols]
        · simp [hcols]
      · rename_i h2
        split
        · rename_i h0
          simp [h0]
        · rename_i h0
          simp [h0, h2]
  rw [← hiff]
  rw [repairCell]
  by_cases ho : Orphaned (s.widths row) n
  · exact .inl ⟨hiff.mpr ho, if_pos (hiff.mpr ho)⟩
  · exact .inr ⟨fun h => ho (hiff.mp h), if_neg fun h => ho (hiff.mp h)⟩

/-- **The repair of a row pairs it, whatever it was.** -/
theorem paired_repairWideHalves (hP : CellLaw P) (hs : s.Fits P rows cols ring) (hr : row < rows) :
    PairedFn ((repairWideHalves s row).widths row) := by
  have hupTo : ∀ n ≤ cols, ((range n).foldl (repairCell row) s).Fits P rows cols ring ∧
      PairedUpTo (((range n).foldl (repairCell row) s).widths row) n := by
    intro n hn
    induction n with
    | zero => exact ⟨hs, fun c hc => by omega, fun c hc => by omega, fun h => by omega⟩
    | succ n ih =>
      obtain ⟨hfits, hpaired⟩ := ih (by omega)
      rw [List.range_succ, List.foldl_append]
      dsimp only [List.foldl_cons, List.foldl_nil]
      generalize (range n).foldl (repairCell row) s = u at hfits hpaired
      rcases repairCell_eq row hfits n with ⟨ho, heq⟩ | ⟨ho, heq⟩
      · rw [heq]
        have hw := widths_setCell hfits hr (by omega : n < cols) (blank {})
        refine ⟨hfits.setCell _ _ hP.blank, hpaired.step (fun c hc => ?_) (fun _ => ?_) ?_⟩
        · rw [hw, if_neg hc]
        · rw [hw, if_pos rfl]
          rfl
        · exact fun hno => absurd ho hno
      · rw [heq]
        exact ⟨hfits, hpaired.step (fun _ _ => rfl) (fun h => absurd h ho) fun _ => rfl⟩
  obtain ⟨hfits, hpaired⟩ := hupTo cols (Nat.le_refl _)
  rw [repairWideHalves, hs.cols_eq]
  exact hpaired.paired fun c hc => widths_eq_none hfits hc

theorem widths_eraseCells (hP : CellLaw P) (hs : s.Fits P rows cols ring) (hr : row < rows)
    {first last : ℕ} (hlast : last < cols) (selective : Bool) (c : ℕ) :
    (eraseCells s row first last selective).widths row c =
      blanked (s.widths row) (fun c => first ≤ c ∧ c ≤ last ∧
        (selective && ((s.cell? row c).map fun x => x.style.isProtected).getD false) = false) c := by
  rw [Screen.widths, Terminal.cell?_eraseCells hP hs hr hlast, blanked, Screen.widths]
  cases hc : s.cell? row c with
  | none => simp
  | some x =>
    rw [Option.map_some, Option.map_some, Option.getD_some]
    split
    · rename_i hspan
      rw [Terminal.erased.eq_def]
      cases hsel : selective && x.style.isProtected with
      | true => simp
      | false => simp [hspan, Cell.blank]
    · rename_i hspan
      rw [if_neg fun h => hspan ⟨h.1.1, h.1.2.1⟩]

theorem widths_blankIf (hs : s.Fits P rows cols ring) (hr : row < rows) {p : Prop} [Decidable p]
    {col : ℕ} (hp : p → col < cols) (c : ℕ) : (if p then s.setCell row col (blank {}) else s).widths row c =
      if c = col ∧ p then some 1 else s.widths row c := by
  by_cases h : p
  · rw [if_pos h, widths_setCell hs hr (hp h)]
    simp only [h, and_true]
    rfl
  · rw [if_neg h, if_neg fun hc => h hc.2]

theorem widths_cleanWide (hP : CellLaw P) (hs : s.Fits P rows cols ring) (hr : row < rows)
    (hpaired : PairedFn (s.widths row)) {col w : ℕ} (hw : w = 1 ∨ w = 2) (hcol : col + w ≤ cols)
    {c : ℕ} (hc : c < col ∨ col + w ≤ c) :
    (cleanWide s row col w).widths row c = overwrite (s.widths row) col w c := by
  have hnext : ∀ c, s.widths row c = some 2 → c + 1 < cols := by
    intro c h2
    by_contra hge
    have hspacer := hpaired.head c h2
    rw [widths_eq_none hs (by omega)] at hspacer
    cases hspacer
  rw [cleanWide]
  simp only [isWidth_iff]
  generalize hs₁ : (if s.widths row col = some 0 ∧ col > 0 then _ else s) = s₁
  have hfits₁ : s₁.Fits P rows cols ring := hs₁ ▸ .ite (hs.setCell _ _ hP.blank) hs
  have hw₁ : s₁.widths row = cleanBefore (s.widths row) col := by
    funext c
    rw [← hs₁, widths_blankIf hs hr (fun _ => by omega), cleanBefore]
  -- one more column is written over
  have hafter : ∀ (u : Screen) i c, u.Fits P rows cols ring →
      (if u.widths row i = some 2 ∧ i + 1 < u.cols then u.setCell row (i + 1) (blank {})
        else u).widths row c = cleanAfter (u.widths row) cols i c := by
    intro u i c hu
    rw [hu.cols_eq, widths_blankIf hu hr (fun h => h.2), cleanAfter]
  rcases hw with rfl | rfl
  · rw [show range 1 = [0] from rfl]
    dsimp only [List.foldl_cons, List.foldl_nil, Nat.add_zero]
    rw [hafter s₁ col c hfits₁, hw₁]
    exact hpaired.clean_one hnext hc
  · rw [show range 2 = [0, 1] from rfl]
    dsimp only [List.foldl_cons, List.foldl_nil, Nat.add_zero]
    generalize hs₂ : (if s₁.widths row col = some 2 ∧ col + 1 < s₁.cols then _ else s₁) = s₂
    have hfits₂ : s₂.Fits P rows cols ring := hs₂ ▸ .ite (hfits₁.setCell _ _ hP.blank) hfits₁
    have hw₂ : s₂.widths row = cleanAfter (s₁.widths row) cols col := by
      funext c
      rw [← hs₂, hafter s₁ col c hfits₁]
    rw [hafter s₂ (col + 1) c hfits₂, hw₂, hw₁]
    exact hpaired.clean_two hnext hc

theorem widths_writeCells (hP : CellLaw P) (hs : s.Fits P rows cols ring) (hr : row < rows)
    (hpaired : PairedFn (s.widths row)) {col : ℕ} {head : Cell} (hw : head.width = 1 ∨ head.width = 2)
    (hcol : col + head.width ≤ cols) (hhead : P head) (c : ℕ) :
    (let s := (cleanWide s row col head.width).setCell row col head
      if head.width = 2 then s.setCell row (col + 1) { head with ch := nul, width := 0 }
      else s).widths row c = overwrite (s.widths row) col head.width c := by
  have hclean := Terminal.Sound.cleanWide_fits hP hs row col head.width
  have hset := hclean.setCell row col hhead
  have hout := widths_cleanWide hP hs hr hpaired hw hcol (c := c)
  dsimp only
  rcases hw with hw | hw
  · rw [if_neg (by omega), widths_setCell hclean hr (by omega)]
    by_cases heq : c = col
    · rw [if_pos heq, overwrite, if_pos heq]
    · rw [if_neg heq, hout (by omega)]
  · rw [if_pos hw, widths_setCell hset hr (by omega), widths_setCell hclean hr (by omega)]
    by_cases heq : c = col
    · rw [if_neg (by omega), if_pos heq, overwrite, if_pos heq]
    · by_cases hnext : c = col + 1
      · rw [if_pos hnext, overwrite, if_neg heq, if_pos ⟨hw, hnext⟩]
      · rw [if_neg hnext, if_neg heq, hout (by omega)]

end

end Screen

end Posh.Term
