/-
**What a position shows, and what drawing leaves.**

A position of the screen shows a cell with the target of its hyperlink.  Printing changes the screens, the
place of the cursor and what only counts, and leaves the rest.
-/

import Posh.Term.Drawing
import Posh.Term.ParserReads
import Posh.Term.RowEdit

set_option autoImplicit false

namespace Posh.Term

open Posh.Term.Screen

variable {γ : Type}

/-! ### What a position shows -/

/-- A cell with its hyperlink's target. -/
structure CellView where
  ch : Char
  style : Style
  width : ℕ
  extra : List Char
  uri : Option (List Char)
  deriving DecidableEq, Repr

namespace CellView

def blank : CellView := ⟨' ', {}, 1, [], none⟩

end CellView

namespace Terminal

/-- The target of a hyperlink number. -/
def link (t : Terminal γ) (k : ℕ) : Option (List Char) := (t.hyperlinks.lookup k).map Hyperlink.uri

def cellView (t : Terminal γ) (c : Cell) : CellView :=
  ⟨c.ch, c.style, c.width, c.extra, t.link c.hyperlink⟩

/-- What a position of the screen drawn on shows. -/
def view (t : Terminal γ) (r c : ℕ) : Option CellView := (t.scr.cell? r c).map t.cellView

@[simp] theorem scr_modifyScr (t : Terminal γ) (g : Screen → Screen) : (t.modifyScr g).scr = g t.scr := by
  rw [modifyScr]
  split <;> simp_all [scr]

theorem view_congr {t t' : Terminal γ} (hscr : t'.scr = t.scr) (hlinks : t'.hyperlinks = t.hyperlinks)
    (r c : ℕ) : t'.view r c = t.view r c := by
  have hview : t'.cellView = t.cellView := by
    funext cell
    rw [cellView, cellView, link, link, hlinks]
  rw [view, view, hscr, hview]

theorem link_zero {links : List (ℕ × Hyperlink)} {next : ℕ} (h : LinksSound links next) :
    links.lookup 0 = none := by
  cases hl : links.lookup 0 with
  | none => rfl
  | some x =>
    obtain ⟨e, he, heq⟩ := List.lookup_isSome_iff.mp (by rw [hl]; rfl : (links.lookup 0).isSome)
    have := (h.bound e he).1
    rw [← beq_iff_eq.mp heq] at this
    omega

theorem cellView_blank {t : Terminal γ} (h : LinksSound t.hyperlinks t.nextHyperlink) :
    t.cellView (Cell.blank {}) = CellView.blank := by
  have hnone := link_zero h
  rw [cellView, link]
  dsimp only [Cell.blank]
  rw [hnone]
  rfl

/-! ### What drawing leaves as it is -/

/-- The cursor but for its place. -/
def pen (t : Terminal γ) : CursorState := { t.cursor with row := 0, col := 0, pendingWrap := false }

/-- The state besides the screens, the cursor's place and what only counts. -/
structure Keeps (t t' : Terminal γ) : Prop where
  pen : t'.pen = t.pen
  modes : t'.modes = t.modes
  scrollTop : t'.scrollTop = t.scrollTop
  scrollBot : t'.scrollBot = t.scrollBot
  tabs : t'.tabs = t.tabs
  shape : t'.cursorStyleRaw = t.cursorStyleRaw
  title : t'.title = t.title
  hyperlinks : t'.hyperlinks = t.hyperlinks

namespace Keeps

variable {t t' t'' : Terminal γ}

theorem refl (t : Terminal γ) : Keeps t t := ⟨rfl, rfl, rfl, rfl, rfl, rfl, rfl, rfl⟩

theorem trans {u v : Terminal γ} (h : Keeps t u) (h' : Keeps u v) : Keeps t v :=
  ⟨h'.pen.trans h.pen, h'.modes.trans h.modes, h'.scrollTop.trans h.scrollTop,
    h'.scrollBot.trans h.scrollBot, h'.tabs.trans h.tabs, h'.shape.trans h.shape,
    h'.title.trans h.title, h'.hyperlinks.trans h.hyperlinks⟩

theorem ite {c : Prop} [Decidable c] (h : Keeps t t') (h' : Keeps t t'') : Keeps t (if c then t' else t'') := by
  split
  · exact h
  · exact h'

theorem modifyScr (t : Terminal γ) (g : Screen → Screen) : Keeps t (t.modifyScr g) :=
  ite ⟨rfl, rfl, rfl, rfl, rfl, rfl, rfl, rfl⟩ ⟨rfl, rfl, rfl, rfl, rfl, rfl, rfl, rfl⟩

theorem style (h : Keeps t t') : t'.cursor.style = t.cursor.style := by
  have hpen := congrArg CursorState.style h.pen
  exact hpen

theorem hyperlink (h : Keeps t t') : t'.cursor.hyperlink = t.cursor.hyperlink := by
  have hpen := congrArg CursorState.hyperlink h.pen
  exact hpen

theorem g0 (h : Keeps t t') : t'.cursor.g0 = t.cursor.g0 := by
  have hpen := congrArg CursorState.g0 h.pen
  exact hpen

theorem g1 (h : Keeps t t') : t'.cursor.g1 = t.cursor.g1 := by
  have hpen := congrArg CursorState.g1 h.pen
  exact hpen

theorem shift (h : Keeps t t') : t'.cursor.shift = t.cursor.shift := by
  have hpen := congrArg CursorState.shift h.pen
  exact hpen

theorem link (h : Keeps t t') (k : ℕ) : t'.link k = t.link k := by
  rw [Terminal.link, Terminal.link, h.hyperlinks]

theorem moved (t : Terminal γ) (row col : ℕ) (pendingWrap : Bool) :
    Keeps t { t with cursor := { t.cursor with row, col, pendingWrap } } :=
  ⟨rfl, rfl, rfl, rfl, rfl, rfl, rfl, rfl⟩

theorem touch (h : Keeps t t') : Keeps t t'.touch := { h with }

theorem of_drawn (h : Drawn t t') : Keeps t t' :=
  have {α : Type} (g : Terminal γ → α) : g t'.undrawn = g t.undrawn := congrArg g h
  ⟨this cursor, this Terminal.modes, this Terminal.scrollTop, this Terminal.scrollBot, this Terminal.tabs,
    this cursorStyleRaw, this Terminal.title, this Terminal.hyperlinks⟩

theorem print (t : Terminal γ) {c : Char} (h : ¬ (0x80 ≤ c.toNat ∧ c.toNat < 0xA0)) : Keeps t (t.print c) :=
  of_drawn (.print t h)

end Keeps

/-! ### The next line -/

theorem cell?_scrollUpTo {P : Cell → Prop} {s : Screen} {rows cols ring bot : ℕ}
    (hs : s.Fits P rows cols ring) (hbot : bot < rows) (save : Bool) {j : ℕ} (hj : j < cols) (i : ℕ) :
    (s.scrollUp 0 bot 1 save {}).cell? i j =
      if i < bot then s.cell? (i + 1) j else if i = bot then some (Cell.blank {}) else s.cell? i j := by
  have hlen : s.grid.length = rows := hs.height
  obtain ⟨row, grid, hgrid⟩ := List.exists_cons_of_ne_nil
    (List.ne_nil_of_length_pos (by rw [hlen]; omega))
  have hrest : grid.length = rows - 1 := by
    rw [hgrid, List.length_cons] at hlen
    omega
  have hone : s.scrollUp 0 bot 1 save {} = scrollUpOne 0 bot save {} s := by
    rw [scrollUp, hlen, Nat.min_eq_left (by omega), if_neg (by omega),
      show max (min 1 (bot - 0 + 1)) 1 = 1 by omega]
    rfl
  rw [hone, scrollUpOne, hgrid]
  dsimp only [List.getElem?_cons_zero, List.eraseIdx_cons_zero]
  rw [cell?, cell?, cell?, hgrid]
  dsimp only
  rw [List.getElem?_insertIdx]
  split
  · rw [List.getElem?_cons_succ]
  · split
    · rw [if_pos (by omega), Option.bind_some, Row.blank, hs.cols_eq, List.getElem?_replicate, if_pos hj]
    · obtain ⟨k, rfl⟩ : ∃ k, i = k + 1 := ⟨i - 1, by omega⟩
      rw [Nat.add_sub_cancel, List.getElem?_cons_succ]

theorem not_c1_of_wcwidth {ch : Char} (h : wcwidth ch ≠ 0) : ¬ (0x80 ≤ ch.toNat ∧ ch.toNat < 0xA0) := by
  rw [wcwidth] at h
  intro hc
  exact h (if_pos (.inr ⟨by omega, hc.2⟩))

end Terminal

end Posh.Term
