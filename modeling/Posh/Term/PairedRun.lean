/-
**Wide characters stay whole.**

Every operation that shifts or overwrites cells looks after the wide characters it cuts, and rewrapping
writes them anew.  Two do not: erasing a span of a line or of the screen blanks cells one by one, and a
wide character that finds no room in the last column blanks that cell as it is.  A step that parts no
wide character this way keeps every row paired, and so does every run of such steps.
-/

import Posh.Term.Pairing
import Posh.Term.Reached

set_option autoImplicit false

namespace Posh.Term

open Posh.Term.Screen

namespace Terminal

variable {γ : Type}

/-- Every row of both screens and of the scrollback is paired. -/
def Paired (t : Terminal γ) : Prop := t.primary.Paired ∧ t.alt.Paired

/-! ### Steps that part no wide character -/

/-- A cell that an erase blanks. -/
def Erases (s : Screen) (selective : Bool) (row first last c : ℕ) : Prop :=
  first ≤ c ∧ c ≤ last ∧ (selective && ((s.cell? row c).map fun x => x.style.isProtected).getD false) = false

instance (s : Screen) (selective : Bool) (row first last : ℕ) :
    DecidablePred (Erases s selective row first last) := fun c =>
  inferInstanceAs (Decidable (first ≤ c ∧ c ≤ last ∧ _))

/-- An erase of a span of a row blanks both halves of a wide character or none. -/
def ErasesWhole (s : Screen) (selective : Bool) (span : ℕ × ℕ × ℕ) : Prop :=
  ∀ c < s.cols, s.widths span.1 c = some 2 → (Erases s selective span.1 span.2.1 span.2.2 c ↔
      Erases s selective span.1 span.2.1 span.2.2 (c + 1))

instance (s : Screen) (selective : Bool) : DecidablePred (ErasesWhole s selective) := fun span =>
  inferInstanceAs (Decidable (∀ c < s.cols, s.widths span.1 c = some 2 → _))

/-- The spans that ED erases: a row with its first and last column. -/
def displaySpans (t : Terminal γ) (mode : ℕ) : List (ℕ × ℕ × ℕ) :=
  let row := t.cursor.row
  let whole := fun r : ℕ => (r, 0, t.cols - 1)
  if mode = 0 then
    (row, t.cursor.col, t.cols - 1) :: (List.range' (row + 1) (t.rows - (row + 1))).map whole
  else if mode = 1 then (List.range' 0 row).map whole ++ [(row, 0, t.cursor.col)]
  else if mode = 2 then (List.range' 0 t.rows).map whole
  else []

/-- The span that EL erases. -/
def lineSpans (t : Terminal γ) (mode : ℕ) : List (ℕ × ℕ × ℕ) :=
  let row := t.cursor.row
  if mode = 0 then [(row, t.cursor.col, t.cols - 1)]
  else if mode = 1 then [(row, 0, t.cursor.col)]
  else if mode = 2 then [(row, 0, t.cols - 1)]
  else []

/-- A wide character that wraps before it is printed has a column after it in the next row, and blanks
no spacer in the last column. -/
def PrintsWhole (t : Terminal γ) (c : Char) : Prop :=
  wcwidth (t.mapCharset c) = 2 → t.modes.autowrap = true →
    1 < t.cols ∧ (t.cursor.pendingWrap = false → t.cursor.col + 1 = t.cols →
      t.scr.widths t.cursor.row t.cursor.col ≠ some 0)

instance (t : Terminal γ) : DecidablePred t.PrintsWhole := fun c =>
  inferInstanceAs (Decidable (wcwidth (t.mapCharset c) = 2 → t.modes.autowrap = true → _))

/-- Each of the characters in turn. -/
def PrintsAllWhole (t : Terminal γ) : List Char → Prop
  | [] => True
  | c :: cs => t.PrintsWhole c ∧ (t.print c).PrintsAllWhole cs

instance decidablePrintsAllWhole : ∀ (t : Terminal γ) (cs : List Char), Decidable (t.PrintsAllWhole cs)
  | _, [] => .isTrue trivial
  | t, c :: cs =>
    have := decidablePrintsAllWhole (t.print c) cs
    inferInstanceAs (Decidable (t.PrintsWhole c ∧ (t.print c).PrintsAllWhole cs))

/-- A step that parts no wide character. -/
def LeavesWhole (t : Terminal γ) : Action → Prop
  | .print c => t.PrintsWhole c
  | .csi params [] marker final =>
    (marker = 0 ∨ marker = byte '?' → final = byte 'J' →
      ∀ span ∈ t.displaySpans (param params 0 0), ErasesWhole t.scr (marker = byte '?') span) ∧
    (marker = 0 ∨ marker = byte '?' → final = byte 'K' →
      ∀ span ∈ t.lineSpans (param params 0 0), ErasesWhole t.scr (marker = byte '?') span) ∧
    (marker = 0 → final = byte 'b' → ∀ c ∈ t.lastPrinted,
      t.PrintsAllWhole (List.replicate (min (paramOr params 0 1) (t.cols * t.rows)) c))
  | .osc data _ =>
    parseU16 (oscParts data).1 = some 66 → PrintsAllWhole { t with lastTextSize := some (oscParts data).2 }
        ((splitOnce ';' (oscParts data).2).getD ([], (oscParts data).2)).2
  | _ => True

instance (t : Terminal γ) : DecidablePred t.LeavesWhole
  | .print c => inferInstanceAs (Decidable (t.PrintsWhole c))
  | .csi params [] marker final => inferInstanceAs (Decidable (
      (marker = 0 ∨ marker = byte '?' → final = byte 'J' →
        ∀ span ∈ t.displaySpans (param params 0 0), ErasesWhole t.scr (marker = byte '?') span) ∧
      (marker = 0 ∨ marker = byte '?' → final = byte 'K' →
        ∀ span ∈ t.lineSpans (param params 0 0), ErasesWhole t.scr (marker = byte '?') span) ∧
      (marker = 0 → final = byte 'b' → ∀ c ∈ t.lastPrinted,
        t.PrintsAllWhole (List.replicate (min (paramOr params 0 1) (t.cols * t.rows)) c))))
  | .osc data _ => inferInstanceAs (Decidable (parseU16 (oscParts data).1 = some 66 →
      PrintsAllWhole { t with lastTextSize := some (oscParts data).2 }
        ((splitOnce ';' (oscParts data).2).getD ([], (oscParts data).2)).2))
  | .csi _ (_ :: _) _ _ | .execute _ | .esc _ _ | .dcs _ _ _ _ | .apc _ => .isTrue trivial

section

variable [GraphicsStore γ]

def ActionsWhole (t : Terminal γ) : List Action → Prop
  | [] => True
  | a :: actions => t.LeavesWhole a ∧ (t.dispatch a).ActionsWhole actions

/-- Each of the bytes in turn. -/
def StreamWhole (t : Terminal γ) : List UInt8 → Prop
  | [] => True
  | b :: bytes =>
    ActionsWhole { t with parser := (t.parser.advance b).1 } (t.parser.advance b).2 ∧
      (t.processByte b).StreamWhole bytes

/-- **A run none of whose steps parts a wide character.** -/
def CallsWhole (t : Terminal γ) : List Call → Prop
  | [] => True
  | c :: calls =>
    (match c with
      | .process bytes => t.StreamWhole bytes
      | .resize _ _ => True) ∧ (t.call c).CallsWhole calls

instance decidableActionsWhole :
    ∀ (t : Terminal γ) (actions : List Action), Decidable (t.ActionsWhole actions)
  | _, [] => .isTrue trivial
  | t, a :: actions =>
    have := decidableActionsWhole (t.dispatch a) actions
    inferInstanceAs (Decidable (t.LeavesWhole a ∧ (t.dispatch a).ActionsWhole actions))

instance decidableStreamWhole :
    ∀ (t : Terminal γ) (bytes : List UInt8), Decidable (t.StreamWhole bytes)
  | _, [] => .isTrue trivial
  | t, b :: bytes =>
    have := decidableStreamWhole (t.processByte b) bytes
    inferInstanceAs (Decidable (_ ∧ (t.processByte b).StreamWhole bytes))

instance decidableCallsWhole : ∀ (t : Terminal γ) (calls : List Call), Decidable (t.CallsWhole calls)
  | _, [] => .isTrue trivial
  | t, .process bytes :: calls =>
    have := decidableCallsWhole (t.call (.process bytes)) calls
    inferInstanceAs (Decidable (t.StreamWhole bytes ∧ (t.call (.process bytes)).CallsWhole calls))
  | t, .resize rows cols :: calls =>
    have := decidableCallsWhole (t.call (.resize rows cols)) calls
    inferInstanceAs (Decidable (True ∧ (t.call (.resize rows cols)).CallsWhole calls))

end

/-! ### Screens as a whole -/

namespace Paired

variable {f : Frame} {t : Terminal γ} {g : Screen → Screen} {rows cols ring row : ℕ} {P : Cell → Prop}

theorem scr (h : t.Paired) : t.scr.Paired := by
  rw [Terminal.scr]
  split
  · exact h.2
  · exact h.1

theorem modifyScr (h : t.Paired) (hg : (g t.scr).Paired) : (t.modifyScr g).Paired := by
  rw [Terminal.scr] at hg
  rw [Terminal.modifyScr]
  split
  · rename_i hact
    rw [if_pos hact] at hg
    exact ⟨h.1, hg⟩
  · rename_i hact
    rw [if_neg hact] at hg
    exact ⟨hg, h.2⟩

theorem rearrange (h : t.Paired) (hg : ∀ s : Screen, s.Rearranges (g s)) :
    (t.modifyScr g).Paired := h.modifyScr (h.scr.of_rearranges (hg _))

variable {t' : Terminal γ}

theorem ite {c : Prop} [Decidable c] (h : c → t.Paired) (h' : t'.Paired) : (if c then t else t').Paired := by
  split
  · rename_i hc
    exact h hc
  · exact h'

theorem touch (h : t.Paired) : t.touch.Paired := h

theorem wholeRegion (h : t.Paired) : Paired { t with scrollTop := 0, scrollBot := t.rows - 1 } := h

theorem scrollUpN (h : t.Paired) (n : ℕ) : (t.scrollUpN n).Paired :=
  rearrange h fun s => .scrollUp s t.region.1 t.region.2 n _

theorem scrollDownN (h : t.Paired) (n : ℕ) : (t.scrollDownN n).Paired :=
  rearrange h fun s => .scrollDown s t.region.1 t.region.2 n

theorem index (h : t.Paired) : t.index.Paired :=
  ite (fun _ => scrollUpN (t := t.cancelWrap) h 1) (ite (fun _ => h) h)

theorem reverseIndex (h : t.Paired) : t.reverseIndex.Paired :=
  ite (fun _ => scrollDownN (t := t.cancelWrap) h 1) (ite (fun _ => h) h)

theorem linefeed (h : t.Paired) : t.linefeed.Paired := ite (fun _ => h.index) h.index

theorem execute (h : t.Paired) (b : UInt8) : (t.execute b).Paired := by
  rw [Terminal.execute]
  exact ite (fun _ => h) <| ite (fun _ => h) <| ite (fun _ => h) <| ite (fun _ => h.linefeed) <|
    ite (fun _ => h) <| ite (fun _ => h) <| ite (fun _ => h) <| ite (fun _ => h.index) <|
    ite (fun _ => index (t := { t with cursor := { t.cursor with col := 0 } }) h) <| ite (fun _ => h) <|
    ite (fun _ => h.reverseIndex) h

/-! ### Printing -/

theorem combine (h : t.Paired) (hs : t.Sound f) (c : Char) : (t.combine c).Paired := by
  obtain ⟨ring, hfits⟩ := hs.scr_fits
  exact ite (fun _ => h.modifyScr (h.scr.modifyCell hfits hs.row_lt _ fun _ => rfl)) h

theorem wrapPending (h : t.Paired) : t.wrapPending.Paired := by
  rw [Terminal.wrapPending]
  refine ite (fun _ => ite (fun _ => index ?_) h) h
  exact modifyScr (t := t.cancelWrap) h (h.scr.relabel _ fun _ => rfl)

theorem repair (h : t.Paired) (hs : t.Sound f)
    (hg : ∀ ring s, s.Fits (Cell.Sound t.hyperlinks) f.rows f.cols ring →
      (g s).Fits (Cell.Sound t.hyperlinks) f.rows f.cols ring)
    (hedit : ∀ s : Screen, t.cursor.row < s.grid.length → Screen.EditsRow t.cursor.row s (g s)) :
    (t.modifyScr fun s => repairWideHalves (g s) t.cursor.row).Paired := by
  obtain ⟨ring, hfits⟩ := hs.scr_fits
  have hrow := hs.row_lt_scr
  have hgs := hedit _ hrow
  exact h.modifyScr (h.scr.of_editsRow (hgs.trans (editsRow_repairWideHalves (hgs.lt hrow)))
    (paired_repairWideHalves hs.law (hg _ _ hfits) hs.row_lt))

theorem putChar (h : t.Paired) (hs : t.Sound f) {c : Char} (hc : wcwidth c ≠ 0)
    (hcol : t.cursor.col + wcwidth c ≤ f.cols) : (t.putChar c (wcwidth c)).Paired := by
  have hwidth : wcwidth c = 1 ∨ wcwidth c = 2 := by
    have := wcwidth_le_two c
    omega
  rw [Terminal.putChar]
  dsimp only
  generalize hins : (if t.modes.insert then _ else t) = t'
  have hins' : t'.Sound f ∧ t'.Paired ∧ t'.cursor = t.cursor := by
    rw [← hins]
    split
    · have hshift := fun ring (s : Screen)
          (hs' : s.Fits (Cell.Sound t.hyperlinks) f.rows f.cols ring) =>
        hs'.modifyRow t.cursor.row fun _ hr => Sound.shiftRight_fits hs.law hs.col_lt (wcwidth c) hr
      exact ⟨hs.modifyScr fun _ _ hs' => Sound.repairWideHalves_fits hs.law (hshift _ _ hs') _,
        h.repair hs hshift fun _ hr => .modifyRow hr _, modifyScr_cursor _ _⟩
    · exact ⟨hs, h, rfl⟩
  obtain ⟨hs', h', hcursor⟩ := hins'
  obtain ⟨ring, hfits⟩ := hs'.scr_fits
  have hrow : t.cursor.row < t'.scr.grid.length := hcursor ▸ hs'.row_lt_scr
  have hhead : Cell.Sound t'.hyperlinks
      { ch := c, style := t'.cursor.style, width := wcwidth c, hyperlink := t'.cursor.hyperlink } :=
    .char _ hc hs'.cursorLink
  have hwritten := widths_writeCells hs'.law hfits hs.row_lt (h'.scr.widths _) hwidth hcol hhead
  suffices hput : (t'.modifyScr _).Paired from ite (fun _ => hput) hput
  refine h'.modifyScr (h'.scr.of_editsRow ?_
    (((h'.scr.widths _).overwrite t.cursor.col hwidth).congr hwritten))
  exact editsRow_writeCells hrow t.cursor.col
    { ch := c, style := t'.cursor.style, width := wcwidth c, hyperlink := t'.cursor.hyperlink }

theorem fitWide (h : t.Paired) (hs : t.Sound f) {w : ℕ} (hw : w = 1 ∨ w = 2)
    (hroom : w = 2 → t.modes.autowrap = true → 1 < t.cols ∧
      (t.cursor.col + 1 = t.cols → t.scr.widths t.cursor.row t.cursor.col ≠ some 0))
    (heq : t.fitWide w = some t') : t'.Paired ∧ t'.cursor.col + w ≤ f.cols := by
  have hcol := hs.col_lt
  rw [Terminal.fitWide] at heq
  split at heq
  · rename_i hlast
    rw [hs.cols_eq] at hlast
    split at heq
    · rename_i hauto
      obtain ⟨hcols, hspacer⟩ := hroom hlast.1 hauto
      rw [hs.cols_eq] at hcols hspacer
      rw [← Option.some.inj heq]
      refine ⟨index (h.modifyScr ?_), ?_⟩
      · -- the last column holds no head, and no spacer by assumption
        obtain ⟨ring, hfits⟩ := hs.scr_fits
        have hrow := hs.row_lt_scr
        have hpaired := h.scr.widths t.cursor.row
        have hhead := hpaired.head t.cursor.col
        have hend := widths_eq_none hfits (r := t.cursor.row) (c := t.cursor.col + 1) (by omega)
        have hzero := hspacer (by omega)
        refine Screen.Paired.relabel (h.scr.of_editsRow (.setCell hrow _ _) ?_) _ fun _ => rfl
        have hblank : PairedFn (blanked (t.scr.widths t.cursor.row) fun c => c = t.cursor.col) := by
          refine hpaired.blanked fun c hc => ?_
          have hnext := hpaired.head c hc
          refine ⟨fun heq => ?_, fun heq => ?_⟩
          · rw [heq, hend] at hnext
            cases hnext
          · rw [heq] at hnext
            exact absurd hnext hzero
        refine hblank.congr fun c => ?_
        rw [widths_setCell hfits hs.row_lt hcol, blanked]
        by_cases hc : c = t.cursor.col
        · obtain ⟨cell, hcell⟩ := cell_of_fits hfits hs.row_lt hcol
          rw [if_pos hc, if_pos ⟨hc, by rw [hc, widths, hcell]; rfl⟩]
          rfl
        · rw [if_neg hc, if_neg fun hb => hc hb.1]
      · rw [index_col]
        dsimp only
        omega
    · split at heq
      · rw [← Option.some.inj heq]
        refine ⟨h, ?_⟩
        rw [hs.cols_eq] at *
        dsimp only
        omega
      · cases heq
  · rename_i hlast
    rw [hs.cols_eq] at hlast
    rw [← Option.some.inj heq]
    exact ⟨h, by omega⟩

theorem wrapPending_room (hs : t.Sound f)
    (hroom : t.modes.autowrap = true → 1 < t.cols ∧ (t.cursor.pendingWrap = false →
      t.cursor.col + 1 = t.cols → t.scr.widths t.cursor.row t.cursor.col ≠ some 0))
    (hauto : t.wrapPending.modes.autowrap = true) :
    1 < t.wrapPending.cols ∧ (t.wrapPending.cursor.col + 1 = t.wrapPending.cols →
      t.wrapPending.scr.widths t.wrapPending.cursor.row t.wrapPending.cursor.col ≠ some 0) := by
  have hcols : t.wrapPending.cols = t.cols := hs.wrapPending.cols_eq.trans hs.cols_eq.symm
  rw [hcols]
  rw [Terminal.wrapPending] at hauto ⊢
  cases hpend : t.cursor.pendingWrap with
  | false =>
    rw [hpend] at hauto
    obtain ⟨hlt, hspacer⟩ := hroom hauto
    exact ⟨hlt, hspacer hpend⟩
  | true =>
    rw [hpend, if_pos rfl] at hauto
    rw [if_pos rfl]
    cases hmode : t.modes.autowrap with
    | false =>
      rw [if_neg (by rw [show t.cancelWrap.modes = t.modes from rfl, hmode]; decide)] at hauto
      exact absurd hauto (by rw [show t.cancelWrap.modes = t.modes from rfl, hmode]; decide)
    | true =>
      obtain ⟨hlt, -⟩ := hroom hmode
      rw [if_pos (show t.cancelWrap.modes.autowrap = true from hmode)]
      refine ⟨hlt, fun hcol => ?_⟩
      rw [index_col] at hcol
      dsimp only at hcol
      omega

theorem print (h : t.Paired) (hs : t.Sound f) {c : Char} (hc : t.PrintsWhole c) : (t.print c).Paired := by
  rw [Terminal.print]
  refine ite (fun _ => h.execute _) ?_
  dsimp only
  by_cases hw : wcwidth (t.mapCharset c) = 0
  · rw [if_pos hw]
    exact h.combine hs _
  · rw [if_neg hw]
    have hwidth : wcwidth (t.mapCharset c) = 1 ∨ wcwidth (t.mapCharset c) = 2 := by
      have := wcwidth_le_two (t.mapCharset c)
      omega
    have hfirst : Sound f { t.touch with lastPrinted := some (t.mapCharset c) } :=
      { hs with lastPrinted := fun _ hp => (Option.some.inj hp) ▸ hw }
    have hwrapped := wrapPending (t := { t.touch with lastPrinted := some (t.mapCharset c) }) h
    have hroom := fun h2 => wrapPending_room hfirst (hc h2)
    split
    · exact hwrapped
    · rename_i t' heq
      obtain ⟨hpaired, hcol⟩ := fitWide hwrapped hfirst.wrapPending hwidth hroom heq
      exact hpaired.putChar (hfirst.wrapPending.fitWide _ heq) hw hcol

theorem printAll (h : t.Paired) (hs : t.Sound f) {cs : List Char} (hplain : ∀ c ∈ cs, Utf8.Plain c)
    (hcs : t.PrintsAllWhole cs) : (cs.foldl Terminal.print t).Paired := by
  induction cs generalizing t with
  | nil => exact h
  | cons c cs ih =>
    rw [List.forall_mem_cons] at hplain
    exact ih (h.print hs hcs.1) (hs.print hplain.1) hplain.2 hcs.2

/-! ### Erasing -/

section

variable {P : Cell → Prop} {s s' : Screen} {rows cols ring row : ℕ} {selective : Bool}

theorem erasesWhole_congr {span : ℕ × ℕ × ℕ} (hcols : s'.cols = s.cols)
    (heq : ∀ c, s'.cell? span.1 c = s.cell? span.1 c) (h : ErasesWhole s selective span) :
    ErasesWhole s' selective span := by
  intro c hlt hc
  rw [hcols] at hlt
  rw [widths, heq] at hc
  rw [Erases, Erases, heq, heq]
  exact h c hlt hc

theorem eraseCells (h : s.Paired) (hP : CellLaw P) (hs : s.Fits P rows cols ring) (hr : row < rows)
    {first last : ℕ} (hlast : last < cols) (hwhole : ErasesWhole s selective (row, first, last)) :
    (eraseCells s row first last selective).Paired := by
  have hrow : row < s.grid.length := by
    rw [hs.height]
    exact hr
  refine h.of_editsRow (editsRow_eraseCells hrow first last selective) ?_
  refine ((h.widths row).blanked fun c hc => hwhole c ?_ hc).congr
    (widths_eraseCells hP hs hr hlast selective)
  by_contra hge
  rw [widths_eq_none hs (by rw [← hs.cols_eq]; omega)] at hc
  cases hc

theorem eraseRows (h : s.Paired) (hP : CellLaw P) (hs : s.Fits P rows cols ring) (hcols : 0 < cols)
    (selective : Bool) (count first : ℕ) (hrows : first + count ≤ rows)
    (hwhole : ∀ r ∈ List.range' first count, ErasesWhole s selective (r, 0, cols - 1)) :
    ((List.range' first count).foldl (eraseRow cols selective) s).Paired := by
  induction count generalizing s first with
  | zero => exact h
  | succ count ih =>
    rw [List.range'_succ] at hwhole ⊢
    rw [List.forall_mem_cons] at hwhole
    have hrow : first < s.grid.length := by
      rw [hs.height]
      omega
    have hfirst : (eraseRow cols selective s first).Paired := by
      rw [eraseRow]
      split
      · rename_i hsel
        have hcells := eraseCells h hP hs (by omega) (by omega) (hsel ▸ hwhole.1)
        exact hcells.relabel _ fun _ => rfl
      · exact ⟨forall_mem_modify h.grid (fun _ _ => Row.paired_blank cols) _, h.scrollback⟩
    have hedit := editsRow_eraseRow hrow cols selective
    refine ih hfirst (Sound.eraseRow_fits hP hs selective first) _ (by omega) fun r hr => ?_
    refine erasesWhole_congr hedit.cols (fun c => hedit.cell? ?_ c) (hwhole.2 r hr)
    have := List.mem_range'_1.mp hr
    dsimp only
    omega

end

variable {selective : Bool}

theorem eraseDisplay (h : t.Paired) (hs : t.Sound f) (mode : ℕ)
    (hwhole : ∀ span ∈ t.displaySpans mode, ErasesWhole t.scr selective span) :
    (t.eraseDisplay mode selective).Paired := by
  obtain ⟨ring, hfits⟩ := hs.scr_fits
  have hrow := hs.row_lt_scr
  have hrows := hs.row_lt
  have hcols := hs.cols_pos
  have hcol := hs.col_lt
  rw [displaySpans, hs.rows_eq, hs.cols_eq] at hwhole
  refine modifyScr (t := t.cancelWrap) h ?_
  rw [show t.cancelWrap.rows = f.rows from hs.rows_eq, show t.cancelWrap.cols = f.cols from hs.cols_eq]
  split
  · rename_i h0
    rw [if_pos h0, List.forall_mem_cons] at hwhole
    have hcells := eraseCells h.scr hs.law hfits hrows (Nat.sub_lt hcols Nat.one_pos) hwhole.1
    have hedit := editsRow_eraseCells hrow t.cursor.col (f.cols - 1) selective
    have hcells' := hcells.relabel t.cursor.row (f := fun r => { r with wrapped := false })
      fun _ => rfl
    have hfits' := (Sound.eraseCells_fits hs.law hfits t.cursor.row t.cursor.col (f.cols - 1)
      selective).relabel t.cursor.row (f := fun r => { r with wrapped := false }) fun _ => rfl
    refine eraseRows hcells' hs.law hfits' hcols selective (f.rows - (t.cursor.row + 1))
      (t.cursor.row + 1) (by omega) fun r hr => ?_
    have hne := List.mem_range'_1.mp hr
    have hall := hedit.trans (.modifyRow (hedit.lt hrow) fun r => { r with wrapped := false })
    refine erasesWhole_congr hall.cols (fun c => hall.cell? ?_ c) (hwhole.2 _ (List.mem_map_of_mem hr))
    dsimp only
    omega
  · rename_i h0
    rw [if_neg h0] at hwhole
    split
    · rename_i h1
      rw [if_pos h1, List.forall_mem_append, List.forall_mem_singleton] at hwhole
      have habove := eraseRows h.scr hs.law hfits hcols selective t.cursor.row 0 (by omega)
        fun r hr => hwhole.1 _ (List.mem_map_of_mem hr)
      refine eraseCells habove hs.law (Sound.eraseRows_fits hs.law hfits _ _ _) hrows hcol ?_
      have hfits' := Sound.eraseRows_fits hs.law hfits selective 0 t.cursor.row
      exact erasesWhole_congr (hfits'.cols_eq.trans hfits.cols_eq.symm)
        (cell?_eraseRows f.cols selective t.cursor.row 0 (by omega) (.inr (by omega))) hwhole.2
    · rename_i h1
      rw [if_neg h1] at hwhole
      split
      · rename_i h2
        rw [if_pos h2] at hwhole
        exact eraseRows h.scr hs.law hfits hcols selective f.rows 0 (by omega)
          fun r hr => hwhole _ (List.mem_map_of_mem hr)
      · split
        · exact h.scr.of_rearranges (.clearScrollback _)
        · exact h.scr

theorem eraseLine (h : t.Paired) (hs : t.Sound f) (mode : ℕ)
    (hwhole : ∀ span ∈ t.lineSpans mode, ErasesWhole t.scr selective span) :
    (t.eraseLine mode selective).Paired := by
  obtain ⟨ring, hfits⟩ := hs.scr_fits
  have hlast : t.cols - 1 < f.cols := by
    have := hs.cols_pos
    rw [hs.cols_eq]
    omega
  rw [lineSpans] at hwhole
  rw [Terminal.eraseLine]
  split
  · rename_i h0
    rw [if_pos h0, List.forall_mem_singleton] at hwhole
    exact modifyScr (t := t.cancelWrap) h
      ((eraseCells h.scr hs.law hfits hs.row_lt hlast hwhole).relabel _ fun _ => rfl)
  · rename_i h0
    rw [if_neg h0] at hwhole
    split
    · rename_i h1
      rw [if_pos h1, List.forall_mem_singleton] at hwhole
      exact modifyScr (t := t.cancelWrap) h
        (eraseCells h.scr hs.law hfits hs.row_lt hs.col_lt hwhole)
    · rename_i h1
      rw [if_neg h1] at hwhole
      split
      · rename_i h2
        rw [if_pos h2, List.forall_mem_singleton] at hwhole
        exact modifyScr (t := t.cancelWrap) h
          ((eraseCells h.scr hs.law hfits hs.row_lt hlast hwhole).relabel _ fun _ => rfl)
      · exact h

/-! ### Editing -/

theorem insertLines (h : t.Paired) (n : ℕ) : (t.insertLines n).Paired := by
  rw [Terminal.insertLines]
  exact ite (fun _ => h) (rearrange h fun s => .scrollDown s t.cursor.row t.region.2 n)

theorem deleteLines (h : t.Paired) (n : ℕ) : (t.deleteLines n).Paired := by
  rw [Terminal.deleteLines]
  exact ite (fun _ => h) (rearrange h fun s => .scrollUp s t.cursor.row t.region.2 n false)

theorem insertChars (h : t.Paired) (hs : t.Sound f) (n : ℕ) : (t.insertChars n).Paired :=
  h.repair hs (fun _ _ hfits => hfits.modifyRow _ fun _ hr =>
    Sound.shiftRight_fits hs.law hs.col_lt _ hr) fun _ hr => .modifyRow hr _

theorem deleteChars (h : t.Paired) (hs : t.Sound f) (n : ℕ) : (t.deleteChars n).Paired :=
  h.repair hs (fun _ _ hfits => hfits.modifyRow _ fun _ hr =>
    Sound.shiftLeft_fits hs.law _ _ hr) fun _ hr => .modifyRow hr _

theorem eraseChars (h : t.Paired) (hs : t.Sound f) (n : ℕ) : (t.eraseChars n).Paired :=
  h.repair hs (fun _ _ hfits => .foldl (fun _ _ hfits => hfits.setCell _ _ hs.law.blank) _ hfits)
    fun _ hr => .foldl (fun _ _ hr => .setCell hr _ _) _ hr

theorem iterate_print (c : Char) (n : ℕ) (t : Terminal γ) :
    (fun t : Terminal γ => t.print c)^[n] t = (List.replicate n c).foldl Terminal.print t := by
  induction n generalizing t with
  | zero => rfl
  | succ n ih =>
    rw [Function.iterate_succ_apply, ih]
    rfl

theorem repeatChar (h : t.Paired) (hs : t.Sound f) {n : ℕ} (hwhole : ∀ c ∈ t.lastPrinted,
      t.PrintsAllWhole (List.replicate (min n (t.cols * t.rows)) c)) : (t.repeatChar n).Paired := by
  rw [Terminal.repeatChar]
  split
  · rename_i c hc
    rw [iterate_print]
    refine h.printAll hs (fun x hx => ?_) (hwhole c hc)
    rw [List.eq_of_mem_replicate hx]
    exact plain_of_wcwidth (hs.lastPrinted c hc)
  · exact h

/-! ### Changes of the whole screen -/

variable {cell : Cell}

theorem widths_fillRow {s : Screen}
    (hs : s.Fits P rows cols ring) (hr : row < rows) (hcell : P cell)
    (hw : cell.width = 1) {n : ℕ} (hn : n ≤ cols) :
    let s' := (List.range n).foldl (fun s c => s.setCell row c cell) s
    s'.Fits P rows cols ring ∧ ∀ c < n, s'.widths row c = some 1 := by
  induction n with
  | zero => exact ⟨hs, fun c hc => by omega⟩
  | succ n ih =>
    obtain ⟨hfits, hwidths⟩ := ih (by omega)
    rw [List.range_succ, List.foldl_append]
    refine ⟨hfits.setCell _ _ hcell, fun c hc => ?_⟩
    rw [List.foldl_cons, List.foldl_nil, widths_setCell hfits hr (by omega)]
    split
    · rw [hw]
    · exact hwidths c (by omega)

theorem fillRow {s : Screen} (h : s.Paired)
    (hs : s.Fits P rows cols ring) (hr : row < rows) (hcell : P cell) (hw : cell.width = 1) :
    ((List.range cols).foldl (fun s c => s.setCell row c cell) s).Paired := by
  have hrow : row < s.grid.length := by
    rw [hs.height]
    exact hr
  obtain ⟨hfits, hwidths⟩ := widths_fillRow hs hr hcell hw (Nat.le_refl cols)
  refine h.of_editsRow (Screen.EditsRow.foldl (fun _ _ hr => .setCell hr _ _) _ hrow)
    (.of_single fun c => ?_)
  by_cases hc : c < cols
  · rw [hwidths c hc]
    decide
  · rw [widths_eq_none hfits (by omega)]
    decide

theorem decaln (h : t.Paired) (hs : t.Sound f) : t.decaln.Paired := by
  obtain ⟨ring, hfits⟩ := hs.scr_fits
  have hcell : Cell.Sound t.hyperlinks { ch := 'E' } := .char _ (by decide) (.inl rfl)
  have hall : ∀ n ≤ t.rows, let s := (List.range n).foldl (fun s r =>
        (List.range t.cols).foldl (fun s c => s.setCell r c { ch := 'E' }) s) t.scr
      s.Paired ∧ s.Fits (Cell.Sound t.hyperlinks) f.rows f.cols ring := by
    rw [hs.rows_eq, hs.cols_eq]
    intro n hn
    induction n with
    | zero => exact ⟨h.scr, hfits⟩
    | succ n ih =>
      obtain ⟨hpaired, hfits⟩ := ih (by omega)
      rw [List.range_succ, List.foldl_append]
      exact ⟨fillRow hpaired hfits (by omega) hcell rfl, (widths_fillRow hfits (by omega) hcell rfl
        (Nat.le_refl _)).1⟩
  refine touch (modifyScr ?_ ?_)
  · exact h
  · exact (hall _ (Nat.le_refl _)).1

theorem fullReset [GraphicsStore γ] (h : t.Paired) : t.fullReset.Paired :=
  ⟨h.1.of_rearranges (.clearGrid _), h.2.of_rearranges (.clearGrid _)⟩

theorem modifyKittyStack (h : t.Paired) (g : KittyKeyStack → KittyKeyStack) :
    (t.modifyKittyStack g).Paired := ite (fun _ => h) h

theorem softReset (h : t.Paired) : t.softReset.Paired := by
  refine touch (modifyKittyStack ?_ _)
  exact ite (fun _ => h) h

theorem resize (h : t.Paired) (rows cols : ℕ) : (t.resize rows cols).Paired := by
  rw [Terminal.resize]
  exact ite (fun _ => h) ⟨paired_resize h.1 _ _ _ _, paired_resize h.2 _ _ _ _⟩

theorem setDeccolm (h : t.Paired) (set : Bool) : (t.setDeccolm set).Paired := by
  rw [Terminal.setDeccolm]
  refine ite (fun _ => touch ?_) h
  dsimp only
  generalize (if set then 132 else 80) = width
  have hsize := resize (t := { t with modes := { t.modes with deccolm := set } }) h t.rows width
  split
  · exact ⟨hsize.1, hsize.2⟩
  · have hclear := rearrange hsize.wholeRegion .clearGrid
    exact ⟨hclear.1, hclear.2⟩

theorem clampToRegionIfOrigin (h : t.Paired) : t.clampToRegionIfOrigin.Paired := ite (fun _ => h) h

theorem restoreCursor (h : t.Paired) : t.restoreCursor.Paired := ite (fun _ => h) h

theorem saveCursor (h : t.Paired) : t.saveCursor.Paired := ite (fun _ => h) h

theorem enterAlt (h : t.Paired) (mode : ℕ) : (t.enterAlt mode).Paired := by
  have hsaved : (if mode = 1049 then t.saveCursor else t).Paired := ite (fun _ => h.saveCursor) h
  exact ⟨hsaved.1, hsaved.2.clearIf _⟩

theorem leaveAlt (h : t.Paired) (mode : ℕ) : (t.leaveAlt mode).Paired := by
  have hleft : Paired
      { t with altActive := false, alt := if mode = 1047 then t.alt.clearGrid {} else t.alt } :=
    ⟨h.1, h.2.clearIf _⟩
  exact ite (fun _ => hleft.restoreCursor) hleft

theorem setAltScreen (h : t.Paired) (mode : ℕ) (on : Bool) : (t.setAltScreen mode on).Paired := by
  have hnoted : Paired { t with screenSwitch := some .alt } := h
  exact ite (fun _ => hnoted.enterAlt mode) (ite (fun _ => hnoted.leaveAlt mode) h)

/-! ### Dispatch -/

theorem setDecMode (h : t.Paired) (n : ℕ) (set : Bool) : (t.setDecMode n set).Paired := by
  refine touch ?_
  exact ite (fun _ => h.setDeccolm set) <| ite (fun _ => h) <| ite (fun _ => h) <|
    ite (fun _ => h.setAltScreen n set) <| ite (fun _ => ite (fun _ => h.saveCursor) h.restoreCursor) h

theorem setDecModes (h : t.Paired) (params : List (List ℕ)) (set : Bool) : (t.setDecModes params set).Paired := by
  induction params generalizing t with
  | nil => exact h
  | cons p params ih => exact ih (h.setDecMode _ set)

theorem iterate {g : Terminal γ → Terminal γ} (hg : ∀ t : Terminal γ, t.Paired → (g t).Paired)
    (n : ℕ) (h : t.Paired) : (g^[n] t).Paired := by
  induction n generalizing t with
  | zero => exact h
  | succ n ih =>
    rw [Function.iterate_succ_apply]
    exact ih (hg t h)

theorem toRow (h : t.Paired) (row : ℕ) : (t.toRow row).Paired :=
  clampToRegionIfOrigin (t := { t with cursor := _ }) h

theorem csiPlain (h : t.Paired) (hs : t.Sound f) (params : List (List ℕ)) (final : UInt8)
    (hwhole : t.LeavesWhole (.csi params [] 0 final)) : (t.csiPlain params final).Paired := by
  obtain ⟨hdisplay, hline, hrepeat⟩ := hwhole
  rw [Terminal.csiPlain]
  exact ite (fun _ => h) <| ite (fun _ => h) <| ite (fun _ => h) <| ite (fun _ => h) <| ite (fun _ => h) <|
    ite (fun _ => h) <| ite (fun _ => h) <| ite (fun _ => h) <|
    ite (fun _ => iterate (g := fun t => t.horizontalTab) (fun _ h => h) _ h) <|
    ite (fun hf => h.eraseDisplay hs _ (hdisplay (.inl rfl) hf)) <|
    ite (fun hf => h.eraseLine hs _ (hline (.inl rfl) hf)) <| ite (fun _ => h.insertLines _) <|
    ite (fun _ => h.deleteLines _) <| ite (fun _ => h.deleteChars hs _) <| ite (fun _ => h.scrollUpN _) <|
    ite (fun _ => h.scrollDownN _) <| ite (fun _ => h.eraseChars hs _) <|
    ite (fun _ => iterate (g := fun t => t.backTab) (fun _ h => h) _ h) <|
    ite (fun _ => h.insertChars hs _) <| ite (fun _ => h) <|
    ite (fun hf => h.repeatChar hs (hrepeat rfl hf)) <| ite (fun _ => ite (fun _ => h) h) <|
    ite (fun _ => h.toRow _) <| ite (fun _ => h) <| ite (fun _ => ite (fun _ => h) (ite (fun _ => h) h)) <|
    ite (fun _ => h) <| ite (fun _ => h) <| ite (fun _ => ite (fun _ => h) h) <|
    ite (fun _ => ite (fun _ => h) (ite (fun _ => h) h)) <| ite (fun _ => ite (fun _ => h) h) <|
    ite (fun _ => h.saveCursor) <| ite (fun _ => h.restoreCursor) <|
    ite (fun _ => ite (fun _ => h) (ite (fun _ => h) (ite (fun _ => h) h))) h

theorem csiQuestion (h : t.Paired) (hs : t.Sound f) (params : List (List ℕ)) (final : UInt8)
    (hwhole : t.LeavesWhole (.csi params [] (byte '?') final)) : (t.csiQuestion params final).Paired := by
  obtain ⟨hdisplay, hline, -⟩ := hwhole
  rw [Terminal.csiQuestion]
  exact ite (fun hf => h.eraseDisplay hs _ (hdisplay (.inr rfl) hf)) <|
    ite (fun hf => h.eraseLine hs _ (hline (.inr rfl) hf)) <| ite (fun _ => h.setDecModes _ _) <|
    ite (fun _ => h.setDecModes _ _) <| ite (fun _ => ite (fun _ => h) h) <| ite (fun _ => h) h

theorem csiMarked (h : t.Paired) (params : List (List ℕ)) (marker final : UInt8) :
    (t.csiMarked params marker final).Paired :=
  ite (fun _ => h) <| ite (fun _ => h) <| ite (fun _ => h.modifyKittyStack _) <|
    ite (fun _ => h.modifyKittyStack _) <| ite (fun _ => h.modifyKittyStack _) h

theorem popColors (h : t.Paired) : t.popColors.Paired := by
  rw [Terminal.popColors]
  split
  · exact h
  · exact h

theorem csiIntermediate (h : t.Paired) (params : List (List ℕ)) (im marker final : UInt8) :
    (t.csiIntermediate params im marker final).Paired := by
  rw [Terminal.csiIntermediate]
  exact ite (fun _ => h) <| ite (fun _ => h) <| ite (fun _ => h) <| ite (fun _ => h.softReset) <|
    ite (fun _ => h) <| ite (fun _ => h) <| ite (fun _ => h.popColors) <| ite (fun _ => h) <|
    ite (fun _ => ite (fun _ => h) h) h

theorem csiDispatch (h : t.Paired) (hs : t.Sound f) (params : List (List ℕ))
    (intermediates : List UInt8) (marker final : UInt8)
    (hwhole : t.LeavesWhole (.csi params intermediates marker final)) :
    (t.csiDispatch params intermediates marker final).Paired := by
  rw [Terminal.csiDispatch]
  cases intermediates with
  | cons im rest => exact h.csiIntermediate _ _ _ _
  | nil =>
    dsimp only [List.head?_nil]
    split
    · rename_i h0
      rw [h0] at hwhole
      exact h.csiPlain hs _ _ hwhole
    · split
      · rename_i hq
        rw [hq] at hwhole
        exact h.csiQuestion hs _ _ hwhole
      · exact h.csiMarked _ _ _

theorem escDispatch [GraphicsStore γ] (h : t.Paired) (hs : t.Sound f) (intermediates : List UInt8)
    (final : UInt8) : (t.escDispatch intermediates final).Paired := by
  rw [Terminal.escDispatch]
  split
  · exact ite (fun _ => h.saveCursor) <| ite (fun _ => h.restoreCursor) <| ite (fun _ => h.index) <|
      ite (fun _ => index (t := { t with cursor := { t.cursor with col := 0 } }) h) <| ite (fun _ => h) <|
      ite (fun _ => h.reverseIndex) <| ite (fun _ => h.fullReset) <| ite (fun _ => h) <| ite (fun _ => h) <|
      ite (fun _ => h) h
  · exact ite (fun _ => h.decaln hs) (ite (fun _ => h) (ite (fun _ => h) h))

/-! ### Commands and strings -/

theorem apcDispatch [GraphicsStore γ] (h : t.Paired) (data : List UInt8) : (t.apcDispatch data).Paired := by
  rw [Terminal.apcDispatch.eq_def]
  split
  · refine ite (fun _ => ?_) h
    generalize GraphicsStore.dispatch t.graphics _ (t.cursor.row, t.cursor.col) = answer
    obtain ⟨graphics, resp, advance⟩ := answer
    cases resp <;> cases advance <;> exact h
  · exact h

theorem oscPalette (h : t.Paired) (bel : Bool) (parts : List (List Char)) :
    (Terminal.oscPalette bel parts t).Paired := by
  fun_induction Terminal.oscPalette bel parts t with
  | case1 idx spec parts t t' ih =>
    refine ih ?_
    dsimp only [t']
    split
    · refine ite (fun _ => ite (fun _ => h) ?_) h
      split
      · exact h
      · exact h
    · exact h
  | case2 => exact h

theorem oscHyperlink (h : t.Paired) (rest : List Char) : (t.oscHyperlink rest).Paired := by
  rw [Terminal.oscHyperlink]
  refine ite (fun _ => h) ?_
  dsimp only
  split
  · exact h
  · exact h

theorem setSelection (h : t.Paired) (kind : Char) (data : List UInt8) :
    (t.setSelection kind data).Paired := ite (fun _ => h) (ite (fun _ => h) h)

theorem oscClipboard (h : t.Paired) (rest : List Char) (bel : Bool) : (t.oscClipboard rest bel).Paired := by
  rw [Terminal.oscClipboard]
  refine ite (fun _ => h) ?_
  split
  · rename_i decoded _
    generalize slotLetters _ = kinds
    have hall : (kinds.foldl (fun t kind => t.setSelection kind decoded) t).Paired := by
      induction kinds generalizing t with
      | nil => exact h
      | cons kind kinds ih => exact ih (h.setSelection kind decoded)
    exact hall
  · exact h

theorem oscTextSize (h : t.Paired) (hs : t.Sound f) {rest : List Char} (hplain : ∀ c ∈ rest, Utf8.Plain c)
    (hwhole : PrintsAllWhole { t with lastTextSize := some rest }
      ((splitOnce ';' rest).getD ([], rest)).2) : (t.oscTextSize rest).Paired := by
  rw [Terminal.oscTextSize]
  generalize hparts : (splitOnce ';' rest).getD ([], rest) = parts at hwhole ⊢
  obtain ⟨info, text⟩ := parts
  obtain ⟨-, htext⟩ := splitOnce_getD hparts
  have hnoted : Sound f { t with lastTextSize := some rest } := { hs with }
  have hprinted := printAll (t := { t with lastTextSize := some rest }) h hnoted
    (fun c hc => hplain c (htext c hc)) hwhole
  refine ite (fun _ => h) (touch ?_)
  split
  · exact ite (fun _ => hprinted) hprinted
  · exact hprinted

theorem oscPromptMark (h : t.Paired) (rest : List Char) : (t.oscPromptMark rest).Paired := by
  rw [Terminal.oscPromptMark]
  split
  · exact h.modifyScr (h.scr.relabel _ fun _ => rfl)
  · exact h

theorem oscDynamicColor (h : t.Paired) (code : ℕ) (rest : List Char) (bel : Bool) :
    (t.oscDynamicColor code rest bel).Paired := by
  rw [Terminal.oscDynamicColor]
  refine ite (fun _ => h) ?_
  split
  · exact touch (ite (fun _ => h) (ite (fun _ => h) h))
  · exact h

theorem oscDispatch (h : t.Paired) (hs : t.Sound f) {data : List UInt8}
    (hdata : ∀ b ∈ data, 0x20 ≤ b.toNat) (bel : Bool) (hwhole : t.LeavesWhole (.osc data bel)) :
    (t.oscDispatch data bel).Paired := by
  rw [Terminal.oscDispatch]
  split
  · rename_i code hcode
    rw [Terminal.oscCommand]
    exact ite (fun _ => h) <| ite (fun _ => h) <| ite (fun _ => h) <| ite (fun _ => h.oscPalette _ _) <|
      ite (fun _ => h) <| ite (fun _ => h.oscHyperlink _) <| ite (fun _ => h) <|
      ite (fun _ => h.oscDynamicColor _ _ _) <| ite (fun _ => h) <| ite (fun _ => h.oscClipboard _ _) <|
      ite (fun h66 => h.oscTextSize hs (plain_oscParts hdata) (hwhole (h66 ▸ hcode))) <| ite (fun _ => h) <|
      ite (fun _ => h) <| ite (fun _ => h) <| ite (fun _ => h) <| ite (fun _ => h) <|
      ite (fun _ => h.oscPromptMark _) h
  · exact h

theorem dcsDispatch (h : t.Paired) (intermediates : List UInt8) (final : UInt8) (data : List UInt8) :
    (t.dcsDispatch intermediates final data).Paired := by
  refine ite (fun _ => ?_) (ite (fun _ => ?_) h)
  · rw [Terminal.decrqss]
    split
    · exact h
    · exact h
  · rw [Terminal.xtgettcap]
    split
    · rename_i names _
      generalize names.splitOn ';' = parts
      induction parts generalizing t with
      | nil => exact h
      | cons part parts ih => exact ih (t := t.respond _) h
    · exact h

/-- **A step that parts no wide character.** -/
theorem dispatch [GraphicsStore γ] (h : t.Paired) (hs : t.Sound f) {a : Action} (ha : a.Sound)
    (hwhole : t.LeavesWhole a) : (t.dispatch a).Paired := by
  cases a with
  | print c => exact h.print hs hwhole
  | execute b => exact h.execute b
  | csi params intermediates marker final => exact h.csiDispatch hs _ _ _ _ hwhole
  | esc intermediates final => exact h.escDispatch hs _ _
  | osc data bel => exact h.oscDispatch hs ha bel hwhole
  | dcs params intermediates final data => exact h.dcsDispatch _ _ _
  | apc data => exact h.apcDispatch data

end Paired

/-! ### Runs -/

section

variable [GraphicsStore γ] {t : Terminal γ} {ring : ℕ}

theorem Paired.dispatchAll {f : Frame} (h : t.Paired) (hs : t.SoundFor f) {actions : List Action}
    (hactions : ∀ a ∈ actions, a.Sound) (hwhole : t.ActionsWhole actions) :
    (actions.foldl Terminal.dispatch t).Paired := by
  induction actions generalizing t with
  | nil => exact h
  | cons a actions ih =>
    rw [List.forall_mem_cons] at hactions
    obtain ⟨cols, altActive, hs⟩ := hs
    obtain ⟨cols', altActive', hs'⟩ := hs.dispatch hactions.1
    exact ih (h.dispatch hs hactions.1 hwhole.1) ⟨cols', altActive', hs'⟩ hactions.2 hwhole.2

theorem Paired.process (h : t.Paired) (hgood : t.Good ring) {bytes : List UInt8}
    (hwhole : t.StreamWhole bytes) : (t.process bytes).Paired := by
  induction bytes generalizing t with
  | nil => exact h
  | cons b bytes ih =>
    obtain ⟨f, hring, hparser, hs⟩ := hgood
    have hbefore : Sound { f with parser := (t.parser.advance b).1 }
        { t with parser := (t.parser.advance b).1 } := { hs with parser := rfl }
    have hactions := (Parser.sound_advance hparser b).actions
    rw [← hs.parser] at hactions
    have hstep : (t.processByte b).Paired :=
      Paired.dispatchAll (t := { t with parser := (t.parser.advance b).1 }) h hbefore.soundFor
        hactions hwhole.1
    exact ih hstep (Good.processByte ⟨f, hring, hparser, hs⟩ b) hwhole.2

theorem Paired.calls (h : t.Paired) (hgood : t.Good ring) {calls : List Call}
    (hwhole : t.CallsWhole calls) : (calls.foldl call t).Paired := by
  induction calls generalizing t with
  | nil => exact h
  | cons c calls ih =>
    refine ih ?_ (hgood.call c) hwhole.2
    cases c with
    | process bytes => exact h.process hgood hwhole.1
    | resize rows cols => exact h.resize rows cols

theorem CallsWhole.of_append {before after : List Call} (h : t.CallsWhole (before ++ after)) :
    t.CallsWhole before := by
  induction before generalizing t with
  | nil => trivial
  | cons c before ih => exact ⟨h.1, ih h.2⟩

theorem paired_withScrollback (rows cols scrollback : ℕ) :
    (withScrollback rows cols scrollback : Terminal γ).Paired := by
  have hnew : ∀ scrollback, (new rows cols scrollback).Paired := by
    intro scrollback
    refine ⟨fun r hr => ?_, List.forall_mem_nil _⟩
    rw [List.eq_of_mem_replicate hr]
    exact Row.paired_blank _
  exact ⟨hnew _, hnew _⟩

/-- **In every run none of whose steps parts a wide character, every terminal reached is paired.** -/
theorem paired_of_callsWhole (rows cols scrollback : ℕ) (calls : List Call)
    (hwhole : (withScrollback rows cols scrollback : Terminal γ).CallsWhole calls) :
    ∀ before, before <+: calls → (run rows cols scrollback before : Terminal γ).Paired := by
  rintro before ⟨after, rfl⟩
  exact (paired_withScrollback rows cols scrollback).calls (good_run rows cols scrollback [])
    hwhole.of_append

theorem paired_of_callsWhole_erase :
    (run 1 4 0 [.process [0xE3, 0x81, 0x82, 0x1B, 0x5B, 0x4B]] : Terminal Unit).Paired :=
  paired_of_callsWhole 1 4 0 [.process [0xE3, 0x81, 0x82, 0x1B, 0x5B, 0x4B]] (by decide +kernel) _
    (List.prefix_refl _)

/-- The same from the second column of the wide character on. -/
theorem erase_parts_wide :
    ¬ (run 1 4 0 [.process [0xE3, 0x81, 0x82, 0x08, 0x1B, 0x5B, 0x4B]] : Terminal Unit).Paired := by
  intro h
  have hnext := (h.1.widths 0).head 0 (by decide +kernel)
  revert hnext
  decide +kernel

end

end Terminal

end Posh.Term
