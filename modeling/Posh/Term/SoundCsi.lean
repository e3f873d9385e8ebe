/-
**Control sequences keep the terminal sound.**

The cursor is moved within the screen, cells are blanked or shifted within their row, and the region is
set to rows of the screen.  Only DECCOLM changes the number of columns, and only the modes of the
alternate screen the one drawn on.
-/

import Posh.Term.Csi
import Posh.Term.Sound

set_option autoImplicit false

namespace Posh.Term.Terminal

open Utf8 (Plain)

variable {γ : Type} {f : Frame} {t : Terminal γ}

/-- Soundness, whatever the columns and the screen drawn on. -/
def SoundFor (f : Frame) (t : Terminal γ) : Prop :=
  ∃ cols altActive, t.Sound { f with cols, altActive }

theorem Sound.soundFor (h : t.Sound f) : t.SoundFor f := ⟨f.cols, f.altActive, h⟩

namespace Sound

/-! ### Cursor movement -/

theorem cursorUp (h : t.Sound f) (n : ℕ) : (t.cursorUp n).Sound f := by
  have hrow := h.row_lt
  have hbot := h.region_lt
  have htop := h.region_le
  rw [Terminal.cursorUp, h.region_eq]
  refine touch (h.setRow ?_)
  dsimp only
  split <;> omega

theorem cursorDown (h : t.Sound f) (n : ℕ) : (t.cursorDown n).Sound f := by
  have hrows := h.rows_pos
  have hbot := h.region_lt
  rw [Terminal.cursorDown, h.region_eq, h.rows_eq]
  refine touch (h.setRow ?_)
  dsimp only
  split <;> omega

theorem min_cols_lt (h : t.Sound f) (n : ℕ) : min n (t.cols - 1) < f.cols := by
  have hcols := h.cols_pos
  rw [h.cols_eq]
  omega

theorem min_rows_lt (h : t.Sound f) (n : ℕ) : min n (t.rows - 1) < f.rows := by
  have hrows := h.rows_pos
  rw [h.rows_eq]
  omega

theorem cursorRight (h : t.Sound f) (n : ℕ) : (t.cursorRight n).Sound f :=
  touch (h.setCol (h.min_cols_lt _))

theorem cursorLeft (h : t.Sound f) (n : ℕ) : (t.cursorLeft n).Sound f :=
  touch (h.setCol (Nat.lt_of_le_of_lt (Nat.sub_le _ _) h.col_lt))

theorem returned (h : t.Sound f) : Sound f { t with cursor := { t.cursor with col := 0 } } :=
  h.withCursor h.row_lt h.cols_pos h.cursorLink h.shift

theorem toRow (h : t.Sound f) (row : ℕ) : (t.toRow row).Sound f :=
  touch (cancelWrap (clampToRegionIfOrigin
    (h.withCursor (h.min_rows_lt _) h.col_lt h.cursorLink h.shift)))

theorem setRegion (h : t.Sound f) (params : List (List ℕ)) : (t.setRegion params).Sound f := by
  rw [Terminal.setRegion]
  split
  · rename_i hlt
    refine moveTo ?_ 0 0
    exact { h with
      region_le := Nat.le_of_lt hlt
      region_lt := h.min_rows_lt _
      region_proper := .inl hlt }
  · exact h

/-! ### Erasing and editing -/

section

variable {P : Cell → Prop} {s : Screen} {rows cols ring : ℕ}

theorem eraseCells_fits (hP : CellLaw P) (hs : s.Fits P rows cols ring) (row first last : ℕ)
    (selective : Bool) : (eraseCells s row first last selective).Fits P rows cols ring := by
  refine .foldl (fun s c hs => hs.modifyCell _ _ fun cell hcell => ?_) _ hs
  split
  · exact hcell
  · exact hP.blank

theorem eraseRow_fits (hP : CellLaw P) (hs : s.Fits P rows cols ring) (selective : Bool) (r : ℕ) :
    (eraseRow cols selective s r).Fits P rows cols ring := by
  rw [eraseRow]
  split
  · exact (eraseCells_fits hP hs _ _ _ _).relabel _ fun _ => rfl
  · exact hs.modifyRow _ fun _ _ => .blank hP

theorem eraseRows_fits (hP : CellLaw P) (hs : s.Fits P rows cols ring) (selective : Bool) (first count : ℕ) :
    ((List.range' first count).foldl (eraseRow cols selective) s).Fits P rows cols ring :=
  .foldl (fun _ r hs => eraseRow_fits hP hs selective r) _ hs

theorem shiftLeft_fits (hP : CellLaw P) (col n : ℕ) {r : Row} (hr : r.Fits P cols) :
    Row.Fits P cols { r with cells := (shiftLeft col)^[n] r.cells } := by
  induction n generalizing r with
  | zero => exact hr
  | succ n ih =>
    rw [Function.iterate_succ_apply]
    refine ih (r := { r with cells := shiftLeft col r.cells }) ⟨?_, ?_⟩
    · have hwidth := hr.width
      dsimp only
      rw [shiftLeft]
      split
      · rename_i hlt
        rw [List.length_append, List.length_eraseIdx_of_lt hlt, List.length_singleton]
        omega
      · exact hwidth
    · dsimp only
      rw [shiftLeft]
      split
      · exact List.forall_mem_append.mpr
          ⟨forall_mem_eraseIdx hr.cells col, List.forall_mem_singleton.mpr hP.blank⟩
      · exact hr.cells

end

theorem eraseDisplay (h : t.Sound f) (mode : ℕ) (selective : Bool) : (t.eraseDisplay mode selective).Sound f := by
  have hcols : t.cancelWrap.cols = f.cols := h.cancelWrap.cols_eq
  rw [Terminal.eraseDisplay]
  refine touch (h.cancelWrap.modifyScr fun ring s hs => ?_)
  rw [hcols]
  refine .ite ?_ <| .ite ?_ <| .ite ?_ <| .ite hs.clearScrollback hs
  · refine eraseRows_fits h.law ?_ _ _ _
    exact (eraseCells_fits h.law hs _ _ _ _).relabel _ fun _ => rfl
  · exact eraseCells_fits h.law (eraseRows_fits h.law hs _ _ _) _ _ _ _
  · exact eraseRows_fits h.law hs _ _ _

theorem eraseLine (h : t.Sound f) (mode : ℕ) (selective : Bool) : (t.eraseLine mode selective).Sound f := by
  rw [Terminal.eraseLine]
  refine ite ?_ <| ite ?_ <| ite ?_ h.cancelWrap
  · exact touch (h.cancelWrap.modifyScr fun _ _ hs =>
      (eraseCells_fits h.law hs _ _ _ _).relabel _ fun _ => rfl)
  · exact touch (h.cancelWrap.modifyScr fun _ _ hs => eraseCells_fits h.law hs _ _ _ _)
  · exact touch (h.cancelWrap.modifyScr fun _ _ hs =>
      (eraseCells_fits h.law hs _ _ _ _).relabel _ fun _ => rfl)

theorem insertLines (h : t.Sound f) (n : ℕ) : (t.insertLines n).Sound f := by
  rw [Terminal.insertLines]
  exact ite h (touch (setCol
    (h.modifyScr fun _ _ hs => hs.scrollDown h.law h.rows_pos _ _ _) h.cols_pos))

theorem deleteLines (h : t.Sound f) (n : ℕ) : (t.deleteLines n).Sound f := by
  rw [Terminal.deleteLines]
  exact ite h (touch (setCol
    (h.modifyScr fun _ _ hs => hs.scrollUp h.law h.rows_pos _ _ _ _) h.cols_pos))

theorem insertChars (h : t.Sound f) (n : ℕ) : (t.insertChars n).Sound f :=
  touch (cancelWrap (h.modifyScr fun _ _ hs => repairWideHalves_fits h.law
    (hs.modifyRow _ fun _ hr => shiftRight_fits h.law h.col_lt _ hr) _))

theorem deleteChars (h : t.Sound f) (n : ℕ) : (t.deleteChars n).Sound f :=
  touch (cancelWrap (h.modifyScr fun _ _ hs => repairWideHalves_fits h.law
    (hs.modifyRow _ fun _ hr => shiftLeft_fits h.law _ _ hr) _))

theorem eraseChars (h : t.Sound f) (n : ℕ) : (t.eraseChars n).Sound f :=
  touch (cancelWrap (h.modifyScr fun _ _ hs => repairWideHalves_fits h.law
    (.foldl (fun _ _ hs => hs.setCell _ _ h.law.blank) _ hs) _))

theorem iterate {g : Terminal γ → Terminal γ} (hg : ∀ t : Terminal γ, t.Sound f → (g t).Sound f)
    (n : ℕ) (h : t.Sound f) : (g^[n] t).Sound f := by
  induction n generalizing t with
  | zero => exact h
  | succ n ih =>
    rw [Function.iterate_succ_apply]
    exact ih (hg t h)

theorem foldl {α : Type} {g : Terminal γ → α → Terminal γ} {as : List α}
    (hg : ∀ t : Terminal γ, ∀ a ∈ as, t.Sound f → (g t a).Sound f) (h : t.Sound f) : (as.foldl g t).Sound f := by
  induction as generalizing t with
  | nil => exact h
  | cons a as ih =>
    exact ih (fun t a ha => hg t a (List.mem_cons_of_mem _ ha)) (hg t a List.mem_cons_self h)

theorem repeatChar (h : t.Sound f) (n : ℕ) : (t.repeatChar n).Sound f := by
  rw [Terminal.repeatChar]
  split
  · rename_i c hc
    exact iterate (fun _ ht => ht.print (plain_of_wcwidth (h.lastPrinted c hc))) _ h
  · exact h

/-! ### Modes -/

theorem setDecMode (h : t.Sound f) (n : ℕ) (set : Bool) : (t.setDecMode n set).SoundFor f := by
  rw [Terminal.setDecMode]
  dsimp only
  split
  · obtain ⟨cols, hcols⟩ := h.setDeccolm set
    exact ⟨cols, f.altActive, hcols.touch⟩
  · split
    · refine (touch (moveTo ?_ 0 0)).soundFor
      exact { h with }
    · split
      · refine (touch ?_).soundFor
        exact { h with }
      · split
        · exact ⟨f.cols, set, (h.setAltScreen n set).touch⟩
        · refine (touch (ite (ite h.saveCursor h.restoreCursor) ?_)).soundFor
          exact { h with }

theorem soundFor_setDecModes (h : t.SoundFor f) (params : List (List ℕ))
    (set : Bool) : (t.setDecModes params set).SoundFor f := by
  induction params generalizing t with
  | nil => exact h
  | cons p params ih =>
    obtain ⟨cols, altActive, h⟩ := h
    obtain ⟨cols', altActive', h'⟩ := h.setDecMode (p.head?.getD 0) set
    exact ih ⟨cols', altActive', h'⟩

/-! ### Dispatch -/

theorem clearTabs (h : t.Sound f) (n : ℕ) : (t.clearTabs n).Sound f := by
  rw [Terminal.clearTabs]
  refine ite ?_ <| ite ?_ h
  · exact { h with tabs := by rw [List.length_set]; exact h.tabs }
  · exact { h with tabs := by rw [List.length_map]; exact h.tabs }

theorem sgr (h : t.Sound f) (params : List (List ℕ)) : (t.sgr params).Sound f :=
  ite { h with } { h with }

theorem csiPlain (h : t.Sound f) (params : List (List ℕ)) (final : UInt8) : (t.csiPlain params final).Sound f := by
  rw [Terminal.csiPlain]
  exact ite (h.cursorUp _) <| ite (h.cursorDown _) <| ite (h.cursorRight _) <| ite (h.cursorLeft _) <|
    ite (h.cursorDown _).returned <| ite (h.cursorUp _).returned <|
    ite (touch (h.setCol (h.min_cols_lt _))) <| ite (h.moveTo _ _) <|
    ite (iterate (fun _ ht => ht.horizontalTab) _ h) <| ite (h.eraseDisplay _ _) <| ite (h.eraseLine _ _) <|
    ite (h.insertLines _) <| ite (h.deleteLines _) <| ite (h.deleteChars _) <| ite (h.scrollUpN _) <|
    ite (h.scrollDownN _) <| ite (h.eraseChars _) <| ite (iterate (fun _ ht => ht.backTab) _ h) <|
    ite (h.insertChars _) <| ite (h.cursorRight _) <| ite (h.repeatChar _) <| ite (ite (h.respond _) h) <|
    ite (h.toRow _) <| ite (touch (h.setRow (h.min_rows_lt _))) <| ite (h.clearTabs _) <| ite { h with } <|
    ite { h with } <| ite (h.sgr _) <| ite (ite (h.respond _) (ite (h.respond _) h)) <| ite (h.setRegion _) <|
    ite h.saveCursor <| ite h.restoreCursor <|
    ite (ite (h.respond _) (ite (h.respond _) (ite (h.respond _) h))) h

theorem csiQuestion (h : t.Sound f) (params : List (List ℕ)) (final : UInt8) :
    (t.csiQuestion params final).SoundFor f := by
  rw [Terminal.csiQuestion]
  split
  · exact (h.eraseDisplay _ _).soundFor
  · split
    · exact (h.eraseLine _ _).soundFor
    · split
      · exact soundFor_setDecModes h.soundFor _ _
      · split
        · exact soundFor_setDecModes h.soundFor _ _
        · exact (ite (ite (h.respond _) h) (ite (h.respond _) h)).soundFor

theorem csiMarked (h : t.Sound f) (params : List (List ℕ)) (marker final : UInt8) :
    (t.csiMarked params marker final).Sound f := by
  rw [Terminal.csiMarked]
  exact ite (h.respond _) <| ite (h.respond _) <| ite (h.modifyKittyStack fun _ hk => hk.push _) <|
    ite (h.modifyKittyStack fun _ hk => hk.pop _) <| ite (h.modifyKittyStack fun _ hk => hk.set _ _) h

theorem pushColors (h : t.Sound f) : t.pushColors.Sound f := by
  refine { h with colorStack := ?_ }
  refine List.forall_mem_append.mpr ⟨fun e he => ?_, List.forall_mem_singleton.mpr h.palette⟩
  split at he
  · exact h.colorStack e (List.mem_of_mem_drop he)
  · exact h.colorStack e he

theorem popColors (h : t.Sound f) : t.popColors.Sound f := by
  rw [Terminal.popColors]
  split
  · rename_i e hlast
    exact { h with
      palette := h.colorStack e (List.mem_of_getLast? hlast)
      colorStack := fun e he => h.colorStack e (List.dropLast_subset _ he) }
  · exact h

theorem csiIntermediate (h : t.Sound f) (params : List (List ℕ)) (im marker final : UInt8) :
    (t.csiIntermediate params im marker final).Sound f := by
  rw [Terminal.csiIntermediate]
  have hshape : (if param params 0 0 ≤ 6 then
      Terminal.touch { t with cursorStyleRaw := param params 0 0 } else t).Sound f := by
    split
    case isTrue hle => exact { h with shape := hle }
    case isFalse => exact h
  exact ite (h.respond _) <| ite h <| ite (h.respond _) <| ite h.softReset <| ite { h with } <|
    ite h.pushColors <| ite h.popColors <| ite (h.respond _) <| ite hshape h

/-- **Every control sequence.** -/
theorem csiDispatch (h : t.Sound f) (params : List (List ℕ)) (intermediates : List UInt8)
    (marker final : UInt8) : (t.csiDispatch params intermediates marker final).SoundFor f := by
  rw [Terminal.csiDispatch]
  split
  · exact (h.csiIntermediate _ _ _ _).soundFor
  · split
    · exact (h.csiPlain _ _).soundFor
    · split
      · exact h.csiQuestion _ _
      · exact (h.csiMarked _ _ _).soundFor

end Sound

end Posh.Term.Terminal
