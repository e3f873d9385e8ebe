/-
**What every terminal keeps.**

However a terminal was reached, its two screens have its size, the cursor lies on them, every cell shows
a character of the cell's width with marks of no width, or is a spacer, every hyperlink number in use names
an entry of the table, whose texts hold no controls, and palettes and keyboard stacks keep their sizes.  Each operation keeps this; which of them
change the size, the screen drawn on or the parser is read off the statements.
-/

import Mathlib.Data.List.GetD
import Posh.Term.ScreenFits
import Posh.Term.Terminal

set_option autoImplicit false

namespace Posh.Term

open Utf8 (Plain)
open List (forall_mem_nil length_map)

variable {γ : Type} {links : List (ℕ × Hyperlink)} {k : ℕ}

/-! ### Cells and hyperlinks -/

/-- A character that can be attached to a cell: no column, no control. -/
structure Mark (c : Char) : Prop where
  width : wcwidth c = 0
  plain : Plain c
  not_c1 : ¬ (0x80 ≤ c.toNat ∧ c.toNat < 0xA0)

/-- A hyperlink number in use: none, or an entry of the table. -/
def LinkIn (links : List (ℕ × Hyperlink)) (k : ℕ) : Prop := k = 0 ∨ (links.lookup k).isSome

/-- A cell shows a character of its width, or is a spacer. -/
structure Cell.Sound (links : List (ℕ × Hyperlink)) (c : Cell) : Prop where
  width : c.width = wcwidth c.ch
  spacer : c.width = 0 → c.ch = Cell.nul
  extra : ∀ m ∈ c.extra, Mark m
  link : LinkIn links c.hyperlink

/-- A hyperlink's texts can be written in a command. -/
structure Hyperlink.Sound (h : Hyperlink) : Prop where
  id : ∀ c ∈ h.id, Plain c ∧ c ≠ ':' ∧ c ≠ ';'
  uri : ∀ c ∈ h.uri, Plain c
  uri_ne : h.uri ≠ []

/-- A table of hyperlinks: every number is used once, and the next one is free. -/
structure LinksSound (links : List (ℕ × Hyperlink)) (next : ℕ) : Prop where
  keys : (links.map Prod.fst).Nodup
  bound : ∀ e ∈ links, 0 < e.1 ∧ e.1 ≤ next
  texts : ∀ e ∈ links, e.2.Sound

theorem LinkIn.of_mem {link : Hyperlink} (hmem : (k, link) ∈ links) : LinkIn links k :=
  .inr (List.lookup_isSome_iff.mpr ⟨(k, link), hmem, beq_self_eq_true k⟩)

theorem LinkIn.append (h : LinkIn links k) (more : List (ℕ × Hyperlink)) : LinkIn (links ++ more) k := by
  rcases h with h | h
  · exact .inl h
  · obtain ⟨x, hx⟩ := Option.isSome_iff_exists.mp h
    right
    rw [List.lookup_append, hx]
    rfl

theorem Cell.Sound.append {c : Cell} (h : c.Sound links)
    (more : List (ℕ × Hyperlink)) : c.Sound (links ++ more) := { h with link := h.link.append more }

theorem wcwidth_space : wcwidth ' ' = 1 := by decide

theorem wcwidth_nul : wcwidth Cell.nul = 0 := by decide

theorem Cell.Sound.char {c : Char} (style : Style) (hc : wcwidth c ≠ 0) (hk : LinkIn links k) :
    Cell.Sound links { ch := c, style, width := wcwidth c, hyperlink := k } :=
  ⟨rfl, fun h => absurd h hc, forall_mem_nil _, hk⟩

theorem cellLaw_sound (links : List (ℕ × Hyperlink)) : CellLaw (Cell.Sound links) where
  blank := .char _ (by decide) (.inl rfl)
  spacer := fun c hc _ => ⟨wcwidth_nul.symm, fun _ => rfl, forall_mem_nil _, hc.link⟩

/-! ### Characters through the charset -/

theorem decSpecial_shown : ∀ n ∈ Terminal.decSpecialTable, wcwidth (Utf8.scalar n) ≠ 0 := by
  decide +kernel

theorem Terminal.mapCharset_cases (t : Terminal γ) (c : Char) :
    t.mapCharset c = c ∨ wcwidth (t.mapCharset c) ≠ 0 := by
  rw [mapCharset]
  split
  · exact .inl rfl
  · split
    · exact .inr (by decide)
    · exact .inl rfl
  · rw [decSpecial]
    split
    · rename_i hc
      have hlt : c.toNat - 0x5F < decSpecialTable.length := by
        rw [show decSpecialTable.length = 32 from rfl]
        omega
      rw [List.getD_eq_getElem _ _ hlt]
      exact .inr (decSpecial_shown _ (List.getElem_mem hlt))
    · exact .inl rfl

theorem plain_of_wcwidth {c : Char} (h : wcwidth c ≠ 0) : Plain c := by
  rw [wcwidth] at h
  by_contra hp
  rw [Plain, Nat.not_le] at hp
  exact h (if_pos (.inl hp))

/-! ### Keyboard stacks -/

/-- A keyboard stack is bounded and holds known flags. -/
structure KittyKeyStack.Sound (k : KittyKeyStack) : Prop where
  length : k.stack.length ≤ maxStack
  known : ∀ flags ∈ k.stack, flags &&& 0x1f = flags

namespace KittyKeyStack.Sound

variable {k : KittyKeyStack}

theorem empty : KittyKeyStack.Sound {} := ⟨Nat.zero_le _, forall_mem_nil _⟩

theorem masked (flags : UInt8) : flags &&& 0x1f &&& 0x1f = flags &&& 0x1f := by
  rw [UInt8.and_assoc, UInt8.and_self]

theorem push (h : k.Sound) (flags : UInt8) : (k.push flags).Sound := by
  refine ⟨?_, List.forall_mem_append.mpr ⟨?_, List.forall_mem_singleton.mpr (masked flags)⟩⟩
  · rw [KittyKeyStack.push, List.length_append, List.length_singleton]
    have hlength := h.length
    rw [maxStack] at hlength ⊢
    split
    · rw [List.length_drop]
      omega
    · omega
  · intro old hold
    split at hold
    · exact h.known old (List.mem_of_mem_drop hold)
    · exact h.known old hold

theorem pop (h : k.Sound) (n : ℕ) : (k.pop n).Sound :=
  ⟨Nat.le_trans (List.length_take_le' _ _) h.length, fun flags hf => h.known flags (List.mem_of_mem_take hf)⟩

theorem flags (h : k.Sound) : k.flags &&& 0x1f = k.flags := by
  rw [KittyKeyStack.flags]
  cases hlast : k.stack.getLast? with
  | none => rfl
  | some flags => exact h.known flags (List.mem_of_getLast? hlast)

theorem set (h : k.Sound) (flags : UInt8) (mode : ℕ) : (k.set flags mode).Sound := by
  refine ⟨?_, List.forall_mem_append.mpr
    ⟨fun old hold => h.known old (List.dropLast_subset _ hold), List.forall_mem_singleton.mpr ?_⟩⟩
  · have hlength := h.length
    rw [KittyKeyStack.set, List.length_append, List.length_dropLast, List.length_singleton]
    rw [maxStack] at hlength ⊢
    omega
  · split
    · have hor : (k.flags ||| (flags &&& 0x1f)) &&& 0x1f = (k.flags &&& 0x1f) ||| (flags &&& 0x1f &&& 0x1f) :=
        UInt8.toBitVec_inj.1 BitVec.and_or_distrib_right
      rw [hor, h.flags, masked]
    · split
      · rw [UInt8.and_assoc, UInt8.and_comm (~~~_), ← UInt8.and_assoc, h.flags]
      · exact masked flags

end KittyKeyStack.Sound

/-! ### The invariant -/

namespace Terminal

theorem length_defaultPalette : defaultPalette.length = 256 := by
  rw [defaultPalette, length_map, List.length_range]

/-- What most operations leave as it is: the size, the bound of the scrollback, the screen drawn on and
the parser. -/
structure Frame where
  rows : ℕ
  cols : ℕ
  ring : ℕ
  altActive : Bool
  parser : Parser

/-- **What every terminal keeps.** -/
structure Sound (f : Frame) (t : Terminal γ) : Prop where
  parser : t.parser = f.parser
  altActive : t.altActive = f.altActive
  rows_pos : 0 < f.rows
  cols_pos : 0 < f.cols
  primary : t.primary.Fits (Cell.Sound t.hyperlinks) f.rows f.cols f.ring
  alt : t.alt.Fits (Cell.Sound t.hyperlinks) f.rows f.cols 0
  tabs : t.tabs.length = f.cols
  region_le : t.scrollTop ≤ t.scrollBot
  region_lt : t.scrollBot < f.rows
  row_lt : t.cursor.row < f.rows
  col_lt : t.cursor.col < f.cols
  cursorLink : LinkIn t.hyperlinks t.cursor.hyperlink
  primaryLink : LinkIn t.hyperlinks t.savedPrimary.cursor.hyperlink
  altLink : LinkIn t.hyperlinks t.savedAlt.cursor.hyperlink
  shift : t.cursor.shift ≤ 1
  primaryShift : t.savedPrimary.cursor.shift ≤ 1
  altShift : t.savedAlt.cursor.shift ≤ 1
  links : LinksSound t.hyperlinks t.nextHyperlink
  lastPrinted : ∀ c, t.lastPrinted = some c → wcwidth c ≠ 0
  title : ∀ c ∈ t.title, Plain c
  iconTitle : ∀ c ∈ t.iconTitle, Plain c
  kinds : ∀ c ∈ t.clipboardKinds, Plain c
  shape : t.cursorStyleRaw ≤ 6
  region_proper : t.scrollTop < t.scrollBot ∨ (t.scrollTop = 0 ∧ t.scrollBot = f.rows - 1)
  palette : t.palette.length = 256
  colorStack : ∀ e ∈ t.colorStack, e.palette.length = 256
  kittyPrimary : t.kittyPrimary.Sound
  kittyAlt : t.kittyAlt.Sound

theorem sound_withScrollback [GraphicsStore γ] (rows cols scrollback : ℕ) :
    (withScrollback rows cols scrollback : Terminal γ).Sound
      ⟨max rows 1, max cols 1, scrollback, false, {}⟩ where
  parser := rfl
  altActive := rfl
  rows_pos := Nat.le_max_right _ _
  cols_pos := Nat.le_max_right _ _
  primary := .new (cellLaw_sound _) _ _ _
  alt := .new (cellLaw_sound _) _ _ _
  tabs := by
    rw [withScrollback, defaultTabs, length_map, List.length_range]
  region_le := Nat.zero_le _
  region_lt := Nat.sub_lt (Nat.le_max_right _ _) Nat.one_pos
  row_lt := Nat.le_max_right _ _
  col_lt := Nat.le_max_right _ _
  cursorLink := .inl rfl
  primaryLink := .inl rfl
  altLink := .inl rfl
  shift := Nat.zero_le _
  primaryShift := Nat.zero_le _
  altShift := Nat.zero_le _
  links := ⟨List.nodup_nil, forall_mem_nil _, forall_mem_nil _⟩
  lastPrinted := fun _ h => by cases h
  title := forall_mem_nil _
  iconTitle := forall_mem_nil _
  kinds := List.forall_mem_singleton.mpr (by decide)
  shape := Nat.zero_le _
  region_proper := .inr ⟨rfl, rfl⟩
  palette := length_defaultPalette
  colorStack := forall_mem_nil _
  kittyPrimary := .empty
  kittyAlt := .empty

namespace Sound

variable {f : Frame} {t : Terminal γ} {P : Cell → Prop} {rows cols ring : ℕ} {s : Screen} {c : Char}

theorem rows_eq (h : t.Sound f) : t.rows = f.rows := h.primary.rows_eq

theorem cols_eq (h : t.Sound f) : t.cols = f.cols := h.primary.cols_eq

theorem law (_ : t.Sound f) : CellLaw (Cell.Sound t.hyperlinks) := cellLaw_sound _

theorem ite {t' : Terminal γ} {c : Prop} [Decidable c] (h : t.Sound f) (h' : t'.Sound f) :
    (if c then t else t').Sound f := by
  split
  · exact h
  · exact h'

/-! ### Plumbing -/

theorem touch (h : t.Sound f) : t.touch.Sound f := { h with }

theorem respond (h : t.Sound f) (bytes : List UInt8) : (t.respond bytes).Sound f := { h with }

theorem cancelWrap (h : t.Sound f) : t.cancelWrap.Sound f := { h with }

theorem setRow (h : t.Sound f) {row : ℕ} (hr : row < f.rows) : (t.setRow row).Sound f :=
  { h with row_lt := hr }

theorem setCol (h : t.Sound f) {col : ℕ} (hc : col < f.cols) : (t.setCol col).Sound f :=
  { h with col_lt := hc }

theorem withCursor (h : t.Sound f) {cursor : CursorState} (hr : cursor.row < f.rows)
    (hc : cursor.col < f.cols) (hk : LinkIn t.hyperlinks cursor.hyperlink)
    (hshift : cursor.shift ≤ 1) : Sound f { t with cursor } :=
  { h with
    row_lt := hr
    col_lt := hc
    cursorLink := hk
    shift := hshift }

theorem region_eq (h : t.Sound f) : t.region = (t.scrollTop, t.scrollBot) := by
  have hle := h.region_le
  have hlt := h.region_lt
  rw [region, h.rows_eq, Nat.min_eq_left (by omega), Nat.min_eq_left (by omega)]

theorem scr_fits (h : t.Sound f) : ∃ ring, t.scr.Fits (Cell.Sound t.hyperlinks) f.rows f.cols ring := by
  rw [Terminal.scr]
  split
  · exact ⟨0, h.alt⟩
  · exact ⟨f.ring, h.primary⟩

theorem row_lt_scr (h : t.Sound f) : t.cursor.row < t.scr.grid.length := by
  obtain ⟨ring, hfits⟩ := h.scr_fits
  rw [hfits.height]
  exact h.row_lt

theorem modifyScr (h : t.Sound f) {g : Screen → Screen}
    (hg : ∀ ring s, s.Fits (Cell.Sound t.hyperlinks) f.rows f.cols ring →
      (g s).Fits (Cell.Sound t.hyperlinks) f.rows f.cols ring) : (t.modifyScr g).Sound f := by
  rw [Terminal.modifyScr]
  split
  · exact { h with alt := hg _ _ h.alt }
  · exact { h with primary := hg _ _ h.primary }

/-! ### Lines -/

theorem scrollUpN (h : t.Sound f) (n : ℕ) : (t.scrollUpN n).Sound f :=
  (h.modifyScr fun _ _ hs => hs.scrollUp h.law h.rows_pos _ _ _ _).touch

theorem scrollDownN (h : t.Sound f) (n : ℕ) : (t.scrollDownN n).Sound f :=
  (h.modifyScr fun _ _ hs => hs.scrollDown h.law h.rows_pos _ _ _).touch

theorem index (h : t.Sound f) : t.index.Sound f := by
  rw [Terminal.index]
  refine touch ?_
  split
  · exact h.cancelWrap.scrollUpN 1
  · split
    · rename_i hlt
      rw [h.cancelWrap.rows_eq] at hlt
      exact h.cancelWrap.setRow hlt
    · exact h.cancelWrap

theorem reverseIndex (h : t.Sound f) : t.reverseIndex.Sound f := by
  rw [Terminal.reverseIndex]
  refine touch ?_
  split
  · exact h.cancelWrap.scrollDownN 1
  · split
    · exact h.cancelWrap.setRow (Nat.lt_of_le_of_lt (Nat.sub_le _ _) h.row_lt)
    · exact h.cancelWrap

theorem linefeed (h : t.Sound f) : t.linefeed.Sound f := by
  rw [Terminal.linefeed]
  dsimp only
  split
  · exact { h.index with col_lt := h.cols_pos }
  · exact h.index

/-! ### Tabs -/

theorem nextTab_lt (tabs : List Bool) {cols : ℕ} (fuel : ℕ) {col : ℕ} (hc : col < cols) :
    nextTab tabs cols fuel col < cols := by
  induction fuel generalizing col with
  | zero => exact hc
  | succ fuel ih =>
    rw [nextTab]
    split
    · rename_i hlt
      split
      · exact hlt
      · exact ih hlt
    · exact hc

theorem prevTab_le (tabs : List Bool) (col : ℕ) : prevTab tabs col ≤ col := by
  induction col with
  | zero => exact Nat.le_refl 0
  | succ col ih =>
    rw [prevTab]
    split <;> omega

theorem horizontalTab (h : t.Sound f) : t.horizontalTab.Sound f := by
  refine touch (h.setCol ?_)
  rw [h.cols_eq]
  exact nextTab_lt t.tabs _ h.col_lt

theorem setTab (h : t.Sound f) : t.setTab.Sound f :=
  { h with tabs := by rw [Terminal.setTab, List.length_set]; exact h.tabs }

theorem backTab (h : t.Sound f) : t.backTab.Sound f :=
  touch (h.setCol (Nat.lt_of_le_of_lt (prevTab_le t.tabs t.cursor.col) h.col_lt))

/-! ### Controls -/

theorem execute (h : t.Sound f) (b : UInt8) : (t.execute b).Sound f := by
  rw [Terminal.execute]
  exact ite { h with } <| ite (touch (h.setCol (Nat.lt_of_le_of_lt (Nat.sub_le _ _) h.col_lt))) <|
    ite h.horizontalTab <| ite h.linefeed <| ite (touch (h.setCol h.cols_pos)) <|
    ite { h with shift := Nat.le_refl 1 } <| ite { h with shift := Nat.zero_le 1 } <| ite h.index <|
    ite (index { h with col_lt := h.cols_pos }) <| ite h.setTab <| ite h.reverseIndex h

/-! ### Printing -/

theorem combine (h : t.Sound f) (hc : Mark c) : (t.combine c).Sound f := by
  rw [Terminal.combine]
  refine ite (touch (h.modifyScr fun _ _ hs => hs.modifyCell _ _ fun cell hcell => ?_)) h
  exact { hcell with
    extra := List.forall_mem_append.mpr ⟨hcell.extra, List.forall_mem_singleton.mpr hc⟩ }

theorem cleanWide_fits (hP : CellLaw P) (hs : s.Fits P rows cols ring) (row col w : ℕ) :
    (cleanWide s row col w).Fits P rows cols ring := by
  rw [cleanWide]
  refine .foldl (fun s i hs => ?_) _ ?_
  · exact .ite (hs.setCell _ _ hP.blank) hs
  · exact .ite (hs.setCell _ _ hP.blank) hs

theorem repairWideHalves_fits (hP : CellLaw P)
    (hs : s.Fits P rows cols ring) (row : ℕ) : (repairWideHalves s row).Fits P rows cols ring := by
  refine .foldl (fun s c hs => ?_) _ hs
  exact .ite (hs.setCell _ _ hP.blank) hs

theorem shiftRight_fits (hP : CellLaw P) {cols col : ℕ} (hcol : col < cols) (n : ℕ)
    {r : Row} (hr : r.Fits P cols) : Row.Fits P cols { r with cells := (shiftRight col)^[n] r.cells } := by
  induction n generalizing r with
  | zero => exact hr
  | succ n ih =>
    rw [Function.iterate_succ_apply]
    refine ih (r := { r with cells := shiftRight col r.cells }) ⟨?_, ?_⟩
    · have hlen : col ≤ r.cells.dropLast.length := by
        rw [List.length_dropLast, hr.width]
        omega
      rw [shiftRight, List.length_insertIdx_of_le_length hlen, List.length_dropLast, hr.width]
      omega
    · exact forall_mem_insertIdx (fun c hc => hr.cells c (List.dropLast_subset _ hc)) hP.blank col

theorem wrapOn (h : t.Sound f) {g : Screen → Screen}
    (hg : ∀ ring s, s.Fits (Cell.Sound t.hyperlinks) f.rows f.cols ring →
      (g s).Fits (Cell.Sound t.hyperlinks) f.rows f.cols ring) :
    (Terminal.index { t.modifyScr g with
      cursor := { (t.modifyScr g).cursor with col := 0 } }).Sound f :=
  index { h.modifyScr hg with col_lt := h.cols_pos }

theorem wrapPending (h : t.Sound f) : t.wrapPending.Sound f := by
  rw [Terminal.wrapPending]
  exact ite (ite (h.cancelWrap.wrapOn fun _ _ hs => hs.relabel _ fun _ => rfl) h.cancelWrap) h

theorem fitWide (h : t.Sound f) (w : ℕ) {t' : Terminal γ} (heq : t.fitWide w = some t') : t'.Sound f := by
  rw [Terminal.fitWide] at heq
  split at heq
  · split at heq
    · rw [← Option.some.inj heq]
      exact h.wrapOn fun _ _ hs => (hs.setCell _ _ h.law.blank).relabel _ fun _ => rfl
    · split at heq
      · rename_i hcols
        rw [← Option.some.inj heq]
        refine { h with col_lt := ?_ }
        have := h.cols_eq
        dsimp only
        omega
      · cases heq
  · rw [← Option.some.inj heq]
    exact h

theorem writeCells_fits (hP : CellLaw P)
    (hs : s.Fits P rows cols ring) (row col : ℕ) {head : Cell} (hhead : P head)
    (hextra : head.extra = []) :
    (let s := (cleanWide s row col head.width).setCell row col head
      if head.width = 2 then s.setCell row (col + 1) { head with ch := Cell.nul, width := 0 }
      else s).Fits P rows cols ring := by
  have hset := (cleanWide_fits hP hs row col head.width).setCell row col hhead
  dsimp only
  split
  · rename_i hw
    have hsp := hP.spacer _ hhead hw
    rw [Cell.spacer] at hsp
    refine hset.setCell row (col + 1) ?_
    rw [hextra]
    exact hsp
  · exact hset

theorem putChar (h : t.Sound f) (hc : wcwidth c ≠ 0) : (t.putChar c (wcwidth c)).Sound f := by
  rw [Terminal.putChar]
  dsimp only
  generalize hins : (if t.modes.insert then _ else t) = t'
  have hs : t'.Sound f := by
    rw [← hins]
    split
    · exact h.modifyScr fun _ _ hs => repairWideHalves_fits h.law
        (hs.modifyRow _ fun _ hr => shiftRight_fits h.law h.col_lt _ hr) _
    · exact h
  have hput := hs.modifyScr fun _ _ hfit => writeCells_fits hs.law hfit t.cursor.row t.cursor.col
    (Cell.Sound.char t'.cursor.style hc hs.cursorLink) rfl
  dsimp only at hput
  generalize t'.modifyScr _ = u at hput ⊢
  split
  · refine hput.withCursor ?_ ?_ hput.cursorLink hput.shift
    · exact hput.row_lt
    · rw [hput.cols_eq]
      exact Nat.sub_lt hput.cols_pos Nat.one_pos
  · rename_i hlt
    rw [Nat.not_le] at hlt
    exact hput.withCursor hput.row_lt (by rw [← hput.cols_eq]; exact hlt) hput.cursorLink hput.shift

theorem print (h : t.Sound f) (hc : Plain c) : (t.print c).Sound f := by
  rw [Terminal.print]
  split
  · exact h.execute _
  · rename_i hc1
    dsimp only
    split
    · rename_i hw
      rcases t.mapCharset_cases c with heq | hne
      · rw [heq] at hw ⊢
        exact h.combine ⟨hw, hc, hc1⟩
      · exact absurd hw hne
    · rename_i hw
      have hfirst : Sound f { t.touch with lastPrinted := some (t.mapCharset c) } :=
        { h with lastPrinted := fun _ hp => (Option.some.inj hp) ▸ hw }
      split
      · exact hfirst.wrapPending
      · rename_i t' heq
        exact (hfirst.wrapPending.fitWide _ heq).putChar hw

/-! ### Saving the cursor -/

theorem saveCursor (h : t.Sound f) : t.saveCursor.Sound f := by
  rw [Terminal.saveCursor]
  split
  · exact { h with altLink := h.cursorLink, altShift := h.shift }
  · exact { h with primaryLink := h.cursorLink, primaryShift := h.shift }

theorem clampToRegionIfOrigin (h : t.Sound f) : t.clampToRegionIfOrigin.Sound f := by
  rw [Terminal.clampToRegionIfOrigin]
  refine ite (h.withCursor ?_ h.col_lt h.cursorLink h.shift) h
  have := h.region_lt
  rw [h.region_eq]
  dsimp only
  omega

theorem restoreCursor (h : t.Sound f) : t.restoreCursor.Sound f := by
  have hrows := h.rows_pos
  have hcols := h.cols_pos
  have hsaved : LinkIn t.hyperlinks
      (if t.altActive then t.savedAlt else t.savedPrimary).cursor.hyperlink := by
    split
    · exact h.altLink
    · exact h.primaryLink
  have hshift : (if t.altActive then t.savedAlt else t.savedPrimary).cursor.shift ≤ 1 := by
    split
    · exact h.altShift
    · exact h.primaryShift
  refine touch (clampToRegionIfOrigin ?_)
  refine { h with row_lt := ?_, col_lt := ?_, cursorLink := hsaved, shift := hshift }
  · rw [h.rows_eq]
    dsimp only
    omega
  · rw [h.cols_eq]
    dsimp only
    omega

/-! ### Changes of the whole screen -/

theorem moveTo (h : t.Sound f) (row col : ℕ) : (t.moveTo row col).Sound f := by
  have hrows := h.rows_pos
  have hcols := h.cols_pos
  have hbot := h.region_lt
  rw [Terminal.moveTo, h.region_eq]
  refine touch (h.withCursor ?_ ?_ h.cursorLink h.shift)
  · rw [h.rows_eq]
    dsimp only
    split <;> omega
  · rw [h.cols_eq]
    dsimp only
    omega

theorem wholeRegion (h : t.Sound f) : Sound f { t with scrollTop := 0, scrollBot := t.rows - 1 } :=
  { h with
    region_le := Nat.zero_le _
    region_lt := by
      have := h.rows_pos
      rw [h.rows_eq]
      dsimp only
      omega
    region_proper := .inr ⟨rfl, by rw [h.rows_eq]⟩ }

theorem decaln (h : t.Sound f) : t.decaln.Sound f := by
  have hstart : Sound f { t with
          scrollTop := 0
          scrollBot := t.rows - 1
          modes := { t.modes with origin := false }
          cursor := { t.cursor with row := 0, col := 0, pendingWrap := false } } :=
    { h.wholeRegion with
      row_lt := h.rows_pos
      col_lt := h.cols_pos }
  refine touch (hstart.modifyScr fun _ _ hs => ?_)
  refine .foldl (fun s r hs => ?_) _ hs
  exact .foldl (fun s c hs => hs.setCell _ _ (.char _ (by decide) (.inl rfl))) _ hs

theorem fullReset [GraphicsStore γ] (h : t.Sound f) : t.fullReset.Sound { f with altActive := false } :=
  { h.wholeRegion with
    altActive := rfl
    primary := h.primary.clearGrid h.law
    alt := h.alt.clearGrid h.law
    tabs := by
      rw [Terminal.fullReset, Terminal.touch]
      dsimp only
      rw [defaultTabs, length_map, List.length_range]
      exact h.cols_eq
    row_lt := h.rows_pos
    col_lt := h.cols_pos
    cursorLink := .inl rfl
    primaryLink := .inl rfl
    altLink := .inl rfl
    shift := Nat.zero_le _
    primaryShift := Nat.zero_le _
    altShift := Nat.zero_le _
    lastPrinted := fun _ hc => by cases hc
    shape := Nat.zero_le _
    palette := length_defaultPalette
    colorStack := forall_mem_nil _
    kittyPrimary := .empty
    kittyAlt := .empty }

theorem modifyKittyStack (h : t.Sound f) {g : KittyKeyStack → KittyKeyStack}
    (hg : ∀ k : KittyKeyStack, k.Sound → (g k).Sound) : (t.modifyKittyStack g).Sound f :=
  ite { h with kittyAlt := hg _ h.kittyAlt } { h with kittyPrimary := hg _ h.kittyPrimary }

theorem softReset (h : t.Sound f) : t.softReset.Sound f := by
  rw [Terminal.softReset]
  refine touch (modifyKittyStack ?_ fun _ _ => .empty)
  dsimp only
  split
  · exact { h.wholeRegion with
      cursorLink := .inl rfl
      altLink := .inl rfl
      shift := Nat.zero_le _
      altShift := Nat.zero_le _
      shape := Nat.zero_le _ }
  · exact { h.wholeRegion with
      cursorLink := .inl rfl
      primaryLink := .inl rfl
      shift := Nat.zero_le _
      primaryShift := Nat.zero_le _
      shape := Nat.zero_le _ }

theorem resize (h : t.Sound f) (rows cols : ℕ) :
    (t.resize rows cols).Sound { f with rows := max rows 1, cols := max cols 1 } := by
  have hrows := Nat.le_max_right rows 1
  have hcols := Nat.le_max_right cols 1
  rw [Terminal.resize]
  dsimp only
  split
  · rename_i heq
    rw [heq.1, heq.2, h.rows_eq, h.cols_eq]
    exact h
  · refine touch { h with
        rows_pos := hrows
        cols_pos := hcols
        primary := ?_
        alt := ?_
        tabs := ?_
        region_le := Nat.zero_le _
        region_lt := Nat.sub_lt hrows Nat.one_pos
        row_lt := ?_
        col_lt := ?_
        region_proper := .inr ⟨rfl, rfl⟩ }
    · have := h.primary.resize h.law (max rows 1) (max cols 1)
        (if t.altActive then (0, 0) else (t.cursor.row, t.cursor.col)) true
      rwa [Nat.max_eq_left hrows, Nat.max_eq_left hcols] at this
    · have := h.alt.resize h.law (max rows 1) (max cols 1)
        (if t.altActive then (t.cursor.row, t.cursor.col) else (0, 0)) false
      rwa [Nat.max_eq_left hrows, Nat.max_eq_left hcols] at this
    · dsimp only
      rw [List.length_append, List.length_take, List.length_drop, defaultTabs, length_map,
        List.length_range]
      omega
    · dsimp only
      omega
    · dsimp only
      omega

theorem setDeccolm (h : t.Sound f) (set : Bool) : ∃ cols, (t.setDeccolm set).Sound { f with cols } := by
  rw [Terminal.setDeccolm]
  split
  · have hmode : Sound f { t with modes := { t.modes with deccolm := set } } := { h with }
    have hrows : max t.rows 1 = f.rows := by
      rw [h.rows_eq]
      exact Nat.max_eq_left h.rows_pos
    dsimp only
    generalize (if set then 132 else 80) = width
    have hsize := hmode.resize t.rows width
    rw [hrows] at hsize
    have hall := hsize.wholeRegion
    refine ⟨max width 1, touch ?_⟩
    split
    · exact hall.withCursor hall.rows_pos hall.cols_pos hall.cursorLink hall.shift
    · have hclear := hall.modifyScr fun _ _ hs => hs.clearGrid hall.law
      exact hclear.withCursor hclear.rows_pos hclear.cols_pos hclear.cursorLink hclear.shift
  · exact ⟨f.cols, h⟩

theorem enterAlt (h : t.Sound f) (mode : ℕ) : (t.enterAlt mode).Sound { f with altActive := true } := by
  have hsaved : (if mode = 1049 then t.saveCursor else t).Sound f := ite h.saveCursor h
  rw [Terminal.enterAlt]
  refine { hsaved with altActive := rfl, alt := ?_ }
  exact .ite (hsaved.alt.clearGrid hsaved.law) hsaved.alt

theorem leaveAlt (h : t.Sound f) (mode : ℕ) : (t.leaveAlt mode).Sound { f with altActive := false } := by
  have hleft : Sound { f with altActive := false }
      { t with altActive := false, alt := if mode = 1047 then t.alt.clearGrid {} else t.alt } :=
    { h with
      altActive := rfl
      alt := .ite (h.alt.clearGrid h.law) h.alt }
  exact ite hleft.restoreCursor hleft

theorem switchTo (h : t.Sound f) (mode : ℕ) (on : Bool) : Sound { f with altActive := on }
      (if on && !t.altActive then t.enterAlt mode
      else if !on && t.altActive then t.leaveAlt mode
      else t) := by
  cases hact : t.altActive <;> cases on
  · exact { h with altActive := hact }
  · exact h.enterAlt mode
  · exact h.leaveAlt mode
  · exact { h with altActive := hact }

theorem setAltScreen (h : t.Sound f) (mode : ℕ) (on : Bool) :
    (t.setAltScreen mode on).Sound { f with altActive := on } := by
  have hnoted : Sound f { t with screenSwitch := some .alt } := { h with }
  have hswitch := hnoted.switchTo mode on
  refine touch (hswitch.setRow ?_)
  rw [hswitch.rows_eq]
  exact Nat.lt_of_le_of_lt (Nat.min_le_right _ _) (Nat.sub_lt h.rows_pos Nat.one_pos)

/-! ### Escape sequences and application program commands -/

theorem escDispatch [GraphicsStore γ] (h : t.Sound f) (intermediates : List UInt8) (final : UInt8) :
    ∃ altActive, (t.escDispatch intermediates final).Sound { f with altActive } := by
  rw [Terminal.escDispatch]
  split
  · by_cases hreset : final = byte 'c'
    · refine ⟨false, ?_⟩
      rw [hreset, if_neg (by decide), if_neg (by decide), if_neg (by decide), if_neg (by decide),
        if_neg (by decide), if_neg (by decide), if_pos rfl]
      exact h.fullReset
    · refine ⟨f.altActive, ?_⟩
      rw [if_neg hreset]
      exact ite h.saveCursor <| ite h.restoreCursor <| ite h.index <|
        ite (index { h with col_lt := h.cols_pos }) <| ite h.setTab <| ite h.reverseIndex <| ite { h with } <|
        ite { h with } <| ite (h.respond _) h
  · exact ⟨f.altActive, ite h.decaln <| ite { h with } <| ite { h with } h⟩

theorem advance (h : t.Sound f) (down right : ℕ) : Sound f { t with
          cursor := { t.cursor with
            row := min (min (t.cursor.row + down) 65535) (t.rows - 1)
            col := min (min (t.cursor.col + right) 65535) (t.cols - 1)
            pendingWrap := false } } := by
  have hrows := h.rows_pos
  have hcols := h.cols_pos
  refine h.withCursor ?_ ?_ h.cursorLink h.shift
  · rw [h.rows_eq]
    dsimp only
    omega
  · rw [h.cols_eq]
    dsimp only
    omega

theorem apcDispatch [GraphicsStore γ] (h : t.Sound f) (data : List UInt8) : (t.apcDispatch data).Sound f := by
  rw [Terminal.apcDispatch.eq_def]
  split
  · rename_i g rest
    refine ite ?_ h
    generalize GraphicsStore.dispatch t.graphics rest (t.cursor.row, t.cursor.col) = answer
    obtain ⟨graphics, resp, advance⟩ := answer
    dsimp only
    refine touch ?_
    have hkept : Sound f { t with graphics } := { h with }
    cases resp with
    | none =>
      cases advance with
      | none => exact hkept
      | some size => exact hkept.advance _ _
    | some r =>
      have hreply : Sound f (Terminal.respond { t with graphics } r) := { h with }
      cases advance with
      | none => exact hreply
      | some size => exact hreply.advance _ _
  · exact h

end Sound

end Terminal

end Posh.Term
