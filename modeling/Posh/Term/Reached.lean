/-
**Terminals that are reached.**

A terminal is reached from a fresh one by any sequence of byte streams and changes of size.  Each call
keeps what every terminal keeps, so it holds of every terminal reached; its geometry follows, and with
it that whatever the operations index, subtract and clamp is in range.
-/

import Posh.Term.ParamBounds
import Posh.Term.ParserSound
import Posh.Term.Process
import Posh.Term.SoundOsc

set_option autoImplicit false

namespace Posh.Term

inductive Call where
  | process (bytes : List UInt8)
  | resize (rows cols : ℕ)
  deriving DecidableEq, Repr

namespace Terminal

variable {γ : Type}

section

variable [GraphicsStore γ]

/-- Carries out a call. -/
def call (t : Terminal γ) : Call → Terminal γ
  | .process bytes => t.process bytes
  | .resize rows cols => t.resize rows cols

/-- A terminal of the given size after some calls. -/
def run (rows cols scrollback : ℕ) (calls : List Call) : Terminal γ :=
  calls.foldl call (withScrollback rows cols scrollback)

end

/-! ### What a run keeps -/

/-- **What every terminal reached keeps**, its scrollback bounded by `ring`. -/
def Good (ring : ℕ) (t : Terminal γ) : Prop := ∃ f, f.ring = ring ∧ f.parser.Sound ∧ t.Sound f

section

variable [GraphicsStore γ] {f : Frame} {t : Terminal γ} {ring : ℕ}

theorem Sound.dispatch (h : t.Sound f) {a : Action} (ha : a.Sound) : (t.dispatch a).SoundFor f := by
  cases a with
  | print c => exact (h.print ha).soundFor
  | execute b => exact (h.execute b).soundFor
  | csi params intermediates marker final => exact h.csiDispatch _ _ _ _
  | esc intermediates final =>
    obtain ⟨altActive, hesc⟩ := h.escDispatch intermediates final
    exact ⟨f.cols, altActive, hesc⟩
  | osc data bel => exact (h.oscDispatch ha bel).soundFor
  | dcs params intermediates final data => exact (h.dcsDispatch _ _ _).soundFor
  | apc data => exact (h.apcDispatch data).soundFor

theorem SoundFor.dispatchAll (h : t.SoundFor f) {actions : List Action}
    (hactions : ∀ a ∈ actions, a.Sound) : (actions.foldl Terminal.dispatch t).SoundFor f := by
  induction actions generalizing t with
  | nil => exact h
  | cons a actions ih =>
    rw [List.forall_mem_cons] at hactions
    obtain ⟨cols, altActive, h⟩ := h
    obtain ⟨cols', altActive', h'⟩ := h.dispatch hactions.1
    exact ih ⟨cols', altActive', h'⟩ hactions.2

theorem Good.processByte (h : t.Good ring) (b : UInt8) : (t.processByte b).Good ring := by
  obtain ⟨f, hring, hparser, h⟩ := h
  have hstep := Parser.sound_advance hparser b
  rw [Terminal.processByte, h.parser]
  have hbefore : Sound { f with parser := (f.parser.advance b).1 }
      { t with parser := (f.parser.advance b).1 } := { h with parser := rfl }
  obtain ⟨cols, altActive, hafter⟩ := hbefore.soundFor.dispatchAll hstep.actions
  exact ⟨{ f with parser := (f.parser.advance b).1, cols, altActive }, hring, hstep.parser, hafter⟩

theorem Good.process (h : t.Good ring) (bytes : List UInt8) : (t.process bytes).Good ring := by
  induction bytes generalizing t with
  | nil => exact h
  | cons b bytes ih => exact ih (h.processByte b)

theorem Good.call (h : t.Good ring) (c : Call) : (t.call c).Good ring := by
  cases c with
  | process bytes => exact h.process bytes
  | resize rows cols =>
    obtain ⟨f, hring, hparser, h⟩ := h
    exact ⟨{ f with rows := max rows 1, cols := max cols 1 }, hring, hparser, h.resize rows cols⟩

theorem Good.calls (h : t.Good ring) (calls : List Call) : (calls.foldl Terminal.call t).Good ring := by
  induction calls generalizing t with
  | nil => exact h
  | cons c calls ih => exact ih (h.call c)

/-- **Every terminal reached.** -/
theorem good_run (rows cols scrollback : ℕ) (calls : List Call) :
    (run rows cols scrollback calls : Terminal γ).Good scrollback :=
  Good.calls
    ⟨_, rfl, Parser.sound_fresh, sound_withScrollback rows cols scrollback⟩ calls

end

/-! ### Runs whose actions meet a condition -/

section

variable [GraphicsStore γ] (P : Terminal γ → Action → Prop)

/-- Each of the actions in turn meets the condition. -/
def ActionsMeet (t : Terminal γ) : List Action → Prop
  | [] => True
  | a :: actions => P t a ∧ (t.dispatch a).ActionsMeet actions

/-- Each of the bytes in turn. -/
def StreamMeets (t : Terminal γ) : List UInt8 → Prop
  | [] => True
  | b :: bytes =>
    ActionsMeet P { t with parser := (t.parser.advance b).1 } (t.parser.advance b).2 ∧
      (t.processByte b).StreamMeets bytes

/-- **Every action of a run meets the condition**; a change of the size always does. -/
def CallsMeet (t : Terminal γ) : List Call → Prop
  | [] => True
  | c :: calls =>
    (match c with
      | .process bytes => t.StreamMeets P bytes
      | .resize _ _ => True) ∧ (t.call c).CallsMeet calls

instance decidableActionsMeet [∀ t a, Decidable (P t a)] :
    ∀ (t : Terminal γ) (actions : List Action), Decidable (t.ActionsMeet P actions)
  | _, [] => .isTrue trivial
  | t, a :: actions =>
    have := decidableActionsMeet (t.dispatch a) actions
    inferInstanceAs (Decidable (P t a ∧ (t.dispatch a).ActionsMeet P actions))

instance decidableStreamMeets [∀ t a, Decidable (P t a)] :
    ∀ (t : Terminal γ) (bytes : List UInt8), Decidable (t.StreamMeets P bytes)
  | _, [] => .isTrue trivial
  | t, b :: bytes =>
    have := decidableStreamMeets (t.processByte b) bytes
    inferInstanceAs (Decidable (ActionsMeet P { t with parser := (t.parser.advance b).1 }
      (t.parser.advance b).2 ∧ (t.processByte b).StreamMeets P bytes))

instance decidableCallsMeet [∀ t a, Decidable (P t a)] :
    ∀ (t : Terminal γ) (calls : List Call), Decidable (t.CallsMeet P calls)
  | _, [] => .isTrue trivial
  | t, .process bytes :: calls =>
    have := decidableCallsMeet (t.process bytes) calls
    inferInstanceAs (Decidable (t.StreamMeets P bytes ∧ (t.process bytes).CallsMeet P calls))
  | t, .resize rows cols :: calls =>
    have := decidableCallsMeet (t.resize rows cols) calls
    inferInstanceAs (Decidable (True ∧ (t.resize rows cols).CallsMeet P calls))

variable {P}

theorem CallsMeet.of_append {t : Terminal γ} {before after : List Call}
    (h : t.CallsMeet P (before ++ after)) : t.CallsMeet P before := by
  induction before generalizing t with
  | nil => trivial
  | cons c before ih => exact ⟨h.1, ih h.2⟩

/-- What the actions that meet a condition keep, the parser apart. -/
structure KeptBy (P : Terminal γ → Action → Prop) (Inv : Terminal γ → Prop) : Prop where
  dispatch : ∀ {t f a}, t.Sound f → a.Sound → a.ParamsFit → P t a → Inv t → Inv (t.dispatch a)
  resize : ∀ {t f} rows cols, t.Sound f → Inv t → Inv (t.resize rows cols)
  parser : ∀ {t} parser, Inv t → Inv { t with parser }

variable {Inv : Terminal γ → Prop} {t : Terminal γ} {ring : ℕ}

theorem KeptBy.dispatchAll (hkept : KeptBy P Inv) {f : Frame} (hs : t.SoundFor f) {actions : List Action}
    (hactions : ∀ a ∈ actions, a.Sound) (hfit : ∀ a ∈ actions, a.ParamsFit)
    (hmeet : t.ActionsMeet P actions) (h : Inv t) : Inv (actions.foldl Terminal.dispatch t) := by
  induction actions generalizing t with
  | nil => exact h
  | cons a actions ih =>
    rw [List.forall_mem_cons] at hactions hfit
    obtain ⟨cols, altActive, hs⟩ := hs
    obtain ⟨cols', altActive', hs'⟩ := hs.dispatch hactions.1
    exact ih ⟨cols', altActive', hs'⟩ hactions.2 hfit.2 hmeet.2
      (hkept.dispatch hs hactions.1 hfit.1 hmeet.1 h)

theorem Good.parser_processByte (h : t.Good ring) (b : UInt8) :
    (t.processByte b).parser = (t.parser.advance b).1 := by
  obtain ⟨f, hring, hparser, hs⟩ := h
  have hbefore : Sound { f with parser := (t.parser.advance b).1 }
      { t with parser := (t.parser.advance b).1 } := { hs with parser := rfl }
  have hactions := (Parser.sound_advance hparser b).actions
  rw [← hs.parser] at hactions
  obtain ⟨cols, altActive, hafter⟩ := hbefore.soundFor.dispatchAll hactions
  exact hafter.parser

/-- And the parameters read so far are bounded. -/
structure Fit (ring : ℕ) (t : Terminal γ) : Prop where
  good : t.Good ring
  params : t.parser.ParamsFit

theorem Fit.processByte (h : t.Fit ring) (b : UInt8) : (t.processByte b).Fit ring := by
  refine ⟨h.good.processByte b, ?_⟩
  rw [h.good.parser_processByte]
  exact (Parser.StepFits.advance h.params b).parser

theorem Fit.process (h : t.Fit ring) (bytes : List UInt8) : (t.process bytes).Fit ring := by
  induction bytes generalizing t with
  | nil => exact h
  | cons b bytes ih => exact ih (h.processByte b)

theorem Fit.call (h : t.Fit ring) (c : Call) : (t.call c).Fit ring := by
  cases c with
  | process bytes => exact h.process bytes
  | resize rows cols =>
    refine ⟨h.good.call (.resize rows cols), ?_⟩
    have hparser : (t.resize rows cols).parser = t.parser := by
      rw [Terminal.resize]
      split
      · rfl
      · rfl
    show (t.resize rows cols).parser.ParamsFit
    rw [hparser]
    exact h.params

theorem KeptBy.process (hkept : KeptBy P Inv) (hfit : t.Fit ring) {bytes : List UInt8}
    (hmeet : t.StreamMeets P bytes) (h : Inv t) : Inv (t.process bytes) := by
  induction bytes generalizing t with
  | nil => exact h
  | cons b bytes ih =>
    obtain ⟨f, -, hparser, hs⟩ := hfit.good
    have hbefore : Sound { f with parser := (t.parser.advance b).1 }
        { t with parser := (t.parser.advance b).1 } := { hs with parser := rfl }
    have hactions := (Parser.sound_advance hparser b).actions
    rw [← hs.parser] at hactions
    exact ih (hfit.processByte b) hmeet.2 (hkept.dispatchAll hbefore.soundFor hactions
      (Parser.StepFits.advance hfit.params b).actions hmeet.1 (hkept.parser _ h))

theorem KeptBy.calls (hkept : KeptBy P Inv) (hfit : t.Fit ring) {calls : List Call}
    (hmeet : t.CallsMeet P calls) (h : Inv t) : Inv (calls.foldl call t) := by
  induction calls generalizing t with
  | nil => exact h
  | cons c calls ih =>
    refine ih (hfit.call c) hmeet.2 ?_
    cases c with
    | process bytes => exact hkept.process hfit hmeet.1 h
    | resize rows cols =>
      obtain ⟨f, -, -, hs⟩ := hfit.good
      exact hkept.resize rows cols hs h

/-- **What such actions keep holds all along a run of them**, if it does of a fresh terminal. -/
theorem KeptBy.run (hkept : KeptBy P Inv) (rows cols scrollback : ℕ) {calls : List Call}
    (hmeet : (withScrollback rows cols scrollback : Terminal γ).CallsMeet P calls)
    (h : Inv (withScrollback rows cols scrollback)) :
    ∀ before, before <+: calls → Inv (Terminal.run rows cols scrollback before) := by
  rintro before ⟨after, rfl⟩
  exact hkept.calls ⟨good_run rows cols scrollback [], Parser.paramsFit_fresh⟩ hmeet.of_append h

end

/-! ### What a replay can write -/

/-- Every cell is of its character's width, a hyperlink that is referred to is known under one number, and what is
sent in a command holds no control character. -/
structure Writable (t : Terminal γ) : Prop where
  cells : ∀ r ∈ t.primary.grid ++ t.primary.scrollback ++ t.alt.grid, ∀ c ∈ r.cells, c.Sound t.hyperlinks
  pens : ∀ cur ∈ [t.cursor, t.savedPrimary.cursor, t.savedAlt.cursor], LinkIn t.hyperlinks cur.hyperlink
  links : LinksSound t.hyperlinks t.nextHyperlink
  texts : ∀ c ∈ t.title ++ t.iconTitle ++ t.clipboardKinds, Utf8.Plain c
  colors : ∀ p ∈ t.palette :: t.colorStack.map (·.palette), p.length = 256

/-- The geometry of a terminal whose scrollback is bounded. -/
structure Geometry (bound : ℕ) (t : Terminal γ) : Prop where
  rows_eq : ∀ s ∈ [t.primary, t.alt], s.grid.length = t.rows
  cols_eq : ∀ s ∈ [t.primary, t.alt], ∀ r ∈ s.grid, r.cells.length = t.cols
  scrollback : ∀ r ∈ t.primary.scrollback, r.cells.length = t.cols
  ring : t.primary.scrollback.length ≤ bound
  tabs : t.tabs.length = t.cols
  row_lt : t.cursor.row < t.rows
  col_lt : t.cursor.col < t.cols
  region_le : t.scrollTop ≤ t.scrollBot
  region_lt : t.scrollBot < t.rows

/-- What the operations index, subtract and clamp is in range: the size is never 0, an index cut down to
the last row and column always hits a cell, every visible row and the cursor's cell are there, and the
region needs no clamping and is in order. -/
structure InBounds (t : Terminal γ) : Prop where
  rows_pos : 1 ≤ t.rows
  cols_pos : 1 ≤ t.cols
  clamped : ∀ s ∈ [t.primary, t.alt], 1 ≤ s.grid.length ∧ 1 ≤ s.cols ∧
    ∀ r c, ∃ cell, s.cell? (min r (s.grid.length - 1)) (min c (s.cols - 1)) = some cell
  visible : ∀ s ∈ [t.primary, t.alt], ∀ r < t.rows, ∃ row, s.row? r = some row
  cursor : ∃ cell, t.scr.cell? t.cursor.row t.cursor.col = some cell
  region : t.region = (t.scrollTop, t.scrollBot)
  region_le : t.region.1 ≤ t.region.2
  region_lt : ∀ s ∈ [t.primary, t.alt], t.region.2 < s.grid.length

theorem cell_of_fits {P : Cell → Prop} {s : Screen} {rows cols ring r c : ℕ}
    (h : s.Fits P rows cols ring) (hr : r < rows) (hc : c < cols) : ∃ cell, s.cell? r c = some cell := by
  have hrow : r < s.grid.length := by
    rw [h.height]
    exact hr
  have hcell : c < s.grid[r].cells.length := by
    rw [(h.grid _ (List.getElem_mem hrow)).width]
    exact hc
  refine ⟨s.grid[r].cells[c], ?_⟩
  rw [Screen.cell?, List.getElem?_eq_getElem hrow, Option.bind_some, List.getElem?_eq_getElem hcell]

namespace Sound

variable {f : Frame} {t : Terminal γ}

theorem screens (h : t.Sound f) {s : Screen} (hs : s ∈ [t.primary, t.alt]) :
    ∃ ring, s.Fits (Cell.Sound t.hyperlinks) f.rows f.cols ring := by
  rcases List.mem_cons.mp hs with rfl | hs
  · exact ⟨f.ring, h.primary⟩
  · rw [List.mem_singleton.mp hs]
    exact ⟨0, h.alt⟩

theorem geometry (h : t.Sound f) : t.Geometry f.ring where
  rows_eq s hs := by
    obtain ⟨ring, hfits⟩ := h.screens hs
    rw [h.rows_eq]
    exact hfits.height
  cols_eq s hs r hr := by
    obtain ⟨ring, hfits⟩ := h.screens hs
    rw [h.cols_eq]
    exact (hfits.grid r hr).width
  scrollback r hr := by
    rw [h.cols_eq]
    exact (h.primary.scrollback r hr).width
  ring := h.primary.ring_le
  tabs := by
    rw [h.cols_eq]
    exact h.tabs
  row_lt := by
    rw [h.rows_eq]
    exact h.row_lt
  col_lt := by
    rw [h.cols_eq]
    exact h.col_lt
  region_le := h.region_le
  region_lt := by
    rw [h.rows_eq]
    exact h.region_lt

theorem inBounds (h : t.Sound f) : t.InBounds where
  rows_pos := by
    rw [h.rows_eq]
    exact h.rows_pos
  cols_pos := by
    rw [h.cols_eq]
    exact h.cols_pos
  clamped s hs := by
    obtain ⟨ring, hfits⟩ := h.screens hs
    have hrows := h.rows_pos
    have hcols := h.cols_pos
    rw [hfits.height, hfits.cols_eq]
    exact ⟨hrows, hcols, fun r c => cell_of_fits hfits (by omega) (by omega)⟩
  visible s hs r hr := by
    obtain ⟨ring, hfits⟩ := h.screens hs
    rw [h.rows_eq, ← hfits.height] at hr
    exact ⟨s.grid[r], List.getElem?_eq_getElem hr⟩
  cursor := by
    rw [scr]
    split
    · exact cell_of_fits h.alt h.row_lt h.col_lt
    · exact cell_of_fits h.primary h.row_lt h.col_lt
  region := h.region_eq
  region_le := by
    rw [h.region_eq]
    exact h.region_le
  region_lt s hs := by
    obtain ⟨ring, hfits⟩ := h.screens hs
    rw [h.region_eq, hfits.height]
    exact h.region_lt

end Sound

/-- **The geometry of every terminal reached**, whatever its size and the bound of its scrollback: and
nothing the operations access is out of range. -/
theorem reached_geometry [GraphicsStore γ] (rows cols scrollback : ℕ) (calls : List Call) :
    (run rows cols scrollback calls : Terminal γ).Geometry scrollback ∧
      (run rows cols scrollback calls : Terminal γ).InBounds := by
  obtain ⟨f, rfl, -, h⟩ := good_run (γ := γ) rows cols scrollback calls
  exact ⟨h.geometry, h.inBounds⟩

end Terminal

end Posh.Term
