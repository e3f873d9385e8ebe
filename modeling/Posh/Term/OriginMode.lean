/-
**Origin mode keeps the cursor within the scroll region.**

Under origin mode rows count from the region's top, and what replays a screen relies on the cursor being
within the region.  Every movement clamps, but two: VPR and the step past an image stop at the screen's
last row only.
-/

import Posh.Term.Reached
import Posh.Term.Steady

set_option autoImplicit false

namespace Posh.Term.Terminal

variable {γ : Type}

/-! ### The claim -/

/-- **Under origin mode the cursor's row is within the scroll region.** -/
def Confined (t : Terminal γ) : Prop :=
  t.modes.origin = true → t.region.1 ≤ t.cursor.row ∧ t.cursor.row ≤ t.region.2

instance (t : Terminal γ) : Decidable t.Confined := inferInstanceAs (Decidable (_ → _))

/-- Going down by some rows ends within the region, be it because that is where the screen ends. -/
def DownWithin (t : Terminal γ) (n : ℕ) : Prop :=
  t.modes.origin = true → t.cursor.row + n ≤ t.region.2 ∨ t.region.2 + 1 = t.rows

instance (t : Terminal γ) (n : ℕ) : Decidable (t.DownWithin n) := inferInstanceAs (Decidable (_ → _))

/-- An action that is neither a VPR nor the placement of an image that goes past the bottom of the region
under origin mode. -/
def StepsWithin [GraphicsStore γ] (t : Terminal γ) : Action → Prop
  | .csi params [] marker final => marker = 0 → final = byte 'e' → t.DownWithin (paramOr params 0 1)
  | .apc (g :: rest) =>
    g = byte 'G' → ∀ size ∈ (GraphicsStore.dispatch t.graphics rest (t.cursor.row, t.cursor.col)).2.2,
      t.DownWithin (size.2 - 1)
  | _ => True

instance [GraphicsStore γ] (t : Terminal γ) : DecidablePred t.StepsWithin
  | .csi params [] marker final => inferInstanceAs (Decidable (
      marker = 0 → final = byte 'e' → t.DownWithin (paramOr params 0 1)))
  | .apc (g :: rest) => inferInstanceAs (Decidable (
      g = byte 'G' → ∀ size ∈ (GraphicsStore.dispatch t.graphics rest (t.cursor.row, t.cursor.col)).2.2,
        t.DownWithin (size.2 - 1)))
  | .csi _ (_ :: _) _ _ | .print _ | .execute _ | .esc _ _ | .osc _ _ | .dcs _ _ _ _ | .apc [] =>
    .isTrue trivial

/-- The same of the region as it was set, which begins within the first 65536 rows. -/
structure Inside (t : Terminal γ) : Prop where
  row : t.modes.origin = true → t.scrollTop ≤ t.cursor.row ∧ t.cursor.row ≤ t.scrollBot
  top_le : t.scrollTop ≤ 65535

section

variable {f : Frame} {t t' : Terminal γ}

namespace Inside

theorem confined (h : t.Inside) (hs : t.Sound f) : t.Confined := by
  rw [Confined, hs.region_eq]
  exact h.row

/-! ### Movements -/

theorem of_steady (h : t.Inside) (hsteady : Steady t t')
    (hrow : t.scrollTop ≤ t.cursor.row → t.cursor.row ≤ t.scrollBot →
      t.scrollTop ≤ t'.cursor.row ∧ t'.cursor.row ≤ t.scrollBot) : t'.Inside := by
  constructor
  case row =>
    intro horigin
    rw [hsteady.origin] at horigin
    rw [hsteady.scrollTop, hsteady.scrollBot]
    obtain ⟨htop, hbot⟩ := h.row horigin
    exact hrow htop hbot
  case top_le =>
    rw [hsteady.scrollTop]
    exact h.top_le

theorem still (h : t.Inside) (hstill : Still t t') : t'.Inside :=
  h.of_steady hstill.steady fun htop hbot => by
    rw [hstill.row]
    exact ⟨htop, hbot⟩

theorem ite {c : Prop} [Decidable c] (h : t.Inside) (h' : t'.Inside) : (if c then t else t').Inside := by
  split
  · exact h
  · exact h'

theorem touch (h : t.Inside) : t.touch.Inside := ⟨h.row, h.top_le⟩

theorem index (h : t.Inside) (hs : t.Sound f) : t.index.Inside := by
  refine h.of_steady (Steady.index t) fun htop hbot => ?_
  have hregion : t.cancelWrap.region.2 = t.scrollBot := congrArg Prod.snd hs.region_eq
  rw [Terminal.index]
  split
  · have hrow := (Still.scrollUpN t.cancelWrap 1).touch.row
    rw [hrow]
    exact ⟨htop, hbot⟩
  · rename_i hne
    rw [hregion] at hne
    have hne : t.cursor.row ≠ t.scrollBot := hne
    split
    · exact ⟨show t.scrollTop ≤ t.cursor.row + 1 by omega, show t.cursor.row + 1 ≤ t.scrollBot by omega⟩
    · exact ⟨htop, hbot⟩

theorem reverseIndex (h : t.Inside) (hs : t.Sound f) : t.reverseIndex.Inside := by
  refine h.of_steady (Steady.reverseIndex t) fun htop hbot => ?_
  have hregion : t.cancelWrap.region.1 = t.scrollTop := congrArg Prod.fst hs.region_eq
  rw [Terminal.reverseIndex]
  split
  · have hrow := (Still.scrollDownN t.cancelWrap 1).touch.row
    rw [hrow]
    exact ⟨htop, hbot⟩
  · rename_i hne
    rw [hregion] at hne
    have hne : t.cursor.row ≠ t.scrollTop := hne
    split
    · exact ⟨show t.scrollTop ≤ t.cursor.row - 1 by omega, show t.cursor.row - 1 ≤ t.scrollBot by omega⟩
    · exact ⟨htop, hbot⟩

theorem nextLine (h : t.Inside) (hs : t.Sound f) :
    (Terminal.index { t with cursor := { t.cursor with col := 0 } }).Inside :=
  index ⟨h.row, h.top_le⟩ { hs with col_lt := hs.cols_pos }

theorem linefeed (h : t.Inside) (hs : t.Sound f) : t.linefeed.Inside := by
  have hindex := h.index hs
  rw [Terminal.linefeed]
  exact ite ⟨hindex.row, hindex.top_le⟩ hindex

theorem execute (h : t.Inside) (hs : t.Sound f) (b : UInt8) : (t.execute b).Inside := by
  rw [Terminal.execute]
  exact ite (h.still ⟨rfl, rfl⟩) <| ite (h.still ⟨rfl, rfl⟩) <| ite (h.still (.horizontalTab t)) <|
    ite (h.linefeed hs) <| ite (h.still ⟨rfl, rfl⟩) <| ite (h.still ⟨rfl, rfl⟩) <| ite (h.still ⟨rfl, rfl⟩) <|
    ite (h.index hs) <| ite (h.nextLine hs) <| ite (h.still ⟨rfl, rfl⟩) <| ite (h.reverseIndex hs) h

theorem cursorUp (h : t.Inside) (hs : t.Sound f) (n : ℕ) : (t.cursorUp n).Inside := by
  refine h.of_steady rfl fun htop hbot => ?_
  have hregion : t.region.1 = t.scrollTop := congrArg Prod.fst hs.region_eq
  show t.scrollTop ≤ max (t.cursor.row - n) (if t.cursor.row ≥ t.region.1 then t.region.1 else 0) ∧
    max (t.cursor.row - n) (if t.cursor.row ≥ t.region.1 then t.region.1 else 0) ≤ t.scrollBot
  rw [hregion, if_pos htop]
  omega

theorem cursorDown (h : t.Inside) (hs : t.Sound f) (n : ℕ) : (t.cursorDown n).Inside := by
  refine h.of_steady rfl fun htop hbot => ?_
  have hregion : t.region.2 = t.scrollBot := congrArg Prod.snd hs.region_eq
  show t.scrollTop ≤ min (t.cursor.row + n) (if t.cursor.row ≤ t.region.2 then t.region.2 else t.rows - 1) ∧
    min (t.cursor.row + n) (if t.cursor.row ≤ t.region.2 then t.region.2 else t.rows - 1) ≤ t.scrollBot
  rw [hregion, if_pos hbot]
  omega

theorem moveTo (hregion : t.region = (t.scrollTop, t.scrollBot)) (hle : t.scrollTop ≤ t.scrollBot)
    (htop : t.scrollTop ≤ 65535) (row col : ℕ) : (t.moveTo row col).Inside := by
  refine ⟨fun horigin => ?_, htop⟩
  have horigin : t.modes.origin = true := horigin
  have hrow : (t.moveTo row col).cursor.row = min (min (t.scrollTop + row) 65535) t.scrollBot := by
    rw [Terminal.moveTo, hregion]
    dsimp only
    rw [if_pos horigin]
    rfl
  show t.scrollTop ≤ (t.moveTo row col).cursor.row ∧ (t.moveTo row col).cursor.row ≤ t.scrollBot
  rw [hrow]
  omega

theorem clamped (hregion : t.region = (t.scrollTop, t.scrollBot)) (hle : t.scrollTop ≤ t.scrollBot)
    (htop : t.scrollTop ≤ 65535) : t.clampToRegionIfOrigin.Inside := by
  rw [clampToRegionIfOrigin, hregion]
  split
  · refine ⟨fun _ => ?_, htop⟩
    show t.scrollTop ≤ min (max t.cursor.row t.scrollTop) t.scrollBot ∧
      min (max t.cursor.row t.scrollTop) t.scrollBot ≤ t.scrollBot
    omega
  · rename_i hoff
    exact ⟨fun horigin => absurd horigin hoff, htop⟩

theorem toRow (h : t.Inside) (hs : t.Sound f) (row : ℕ) : (t.toRow row).Inside := by
  have hclamp : ∀ row, (clampToRegionIfOrigin { t with cursor := { t.cursor with row } }).Inside :=
    fun row => clamped hs.region_eq hs.region_le h.top_le
  exact ⟨(hclamp _).row, (hclamp _).top_le⟩

theorem restoreCursor (h : t.Inside) (hs : t.Sound f) : t.restoreCursor.Inside :=
  touch (clamped hs.region_eq hs.region_le h.top_le)

theorem down (h : t.Inside) (hs : t.Sound f) {n : ℕ} (hwithin : t.DownWithin n) (hsteady : Steady t t')
    (hge : min (min t.cursor.row 65535) (t.rows - 1) ≤ t'.cursor.row)
    (hle : t'.cursor.row ≤ t.cursor.row + n) (hlast : t'.cursor.row ≤ t.rows - 1) : t'.Inside := by
  refine ⟨fun horigin => ?_, by rw [hsteady.scrollTop]; exact h.top_le⟩
  rw [hsteady.origin] at horigin
  rw [hsteady.scrollTop, hsteady.scrollBot]
  obtain ⟨htop, hbot⟩ := h.row horigin
  have hregion : t.region.2 = t.scrollBot := congrArg Prod.snd hs.region_eq
  have hbound := hwithin horigin
  have hlt := hs.region_lt
  have hrows := hs.rows_eq
  have htopLe := h.top_le
  rw [hregion] at hbound
  omega

variable {params : List (List ℕ)}

theorem setRegion (h : t.Inside) (hparams : PartsFit params) : (t.setRegion params).Inside := by
  rw [Terminal.setRegion]
  split
  · rename_i hlt
    have hn := paramOr_le hparams 0 (show 1 ≤ 65535 by decide)
    have hbot := Nat.min_le_right (paramOr params 1 t.rows - 1) (t.rows - 1)
    refine moveTo (t := { t with
      scrollTop := paramOr params 0 1 - 1
      scrollBot := min (paramOr params 1 t.rows - 1) (t.rows - 1) }) ?_ (Nat.le_of_lt hlt) ?_ 0 0
    · refine Prod.ext ?_ ?_
      · exact Nat.min_eq_left (Nat.le_trans (Nat.le_of_lt hlt) hbot)
      · exact Nat.min_eq_left hbot
    · exact Nat.le_trans (Nat.sub_le _ _) hn
  · exact h

/-! ### Printing -/

theorem wrapOn (h : t.Inside) (hs : t.Sound f) {g : Screen → Screen}
    (hg : ∀ ring s, s.Fits (Cell.Sound t.hyperlinks) f.rows f.cols ring →
      (g s).Fits (Cell.Sound t.hyperlinks) f.rows f.cols ring) :
    (Terminal.index { t.modifyScr g with
      cursor := { (t.modifyScr g).cursor with col := 0 } }).Inside :=
  (h.still (.modifyScr t g)).nextLine (hs.modifyScr hg)

theorem wrapPending (h : t.Inside) (hs : t.Sound f) : t.wrapPending.Inside := by
  have hcancel : t.cancelWrap.Inside := ⟨h.row, h.top_le⟩
  rw [Terminal.wrapPending]
  exact ite (ite (hcancel.wrapOn hs.cancelWrap fun _ _ hs => hs.relabel _ fun _ => rfl) hcancel) h

theorem fitWide (h : t.Inside) (hs : t.Sound f) {w : ℕ} (heq : t.fitWide w = some t') : t'.Inside := by
  rw [Terminal.fitWide] at heq
  split at heq
  · split at heq
    · rw [← Option.some.inj heq]
      exact h.wrapOn hs fun _ _ hfit => (hfit.setCell _ _ hs.law.blank).relabel _ fun _ => rfl
    · split at heq
      · rw [← Option.some.inj heq]
        exact ⟨h.row, h.top_le⟩
      · cases heq
  · rw [← Option.some.inj heq]
    exact h

theorem print (h : t.Inside) (hs : t.Sound f) (c : Char) : (t.print c).Inside := by
  rw [Terminal.print]
  refine ite (h.execute hs _) ?_
  dsimp only
  split
  · exact h.still (.combine t _)
  · rename_i hwidth
    have hlast : ∀ c', some (t.mapCharset c) = some c' → wcwidth c' ≠ 0 := by
      rintro c' ⟨⟩
      exact hwidth
    have hprinted : Sound f { t.touch with lastPrinted := some (t.mapCharset c) } :=
      { hs with lastPrinted := hlast }
    have hwrap := wrapPending (t := { t.touch with lastPrinted := some (t.mapCharset c) })
      ⟨h.row, h.top_le⟩ hprinted
    split
    · exact hwrap
    · rename_i u hfit
      exact (hwrap.fitWide hprinted.wrapPending hfit).still (.putChar _ _ _)

theorem printAll (h : t.Inside) (hs : t.Sound f) {cs : List Char} (hcs : ∀ c ∈ cs, Utf8.Plain c) :
    (cs.foldl Terminal.print t).Inside := by
  induction cs generalizing t with
  | nil => exact h
  | cons c cs ih =>
    rw [List.forall_mem_cons] at hcs
    exact ih (h.print hs c) (hs.print hcs.1) hcs.2

theorem repeatChar (h : t.Inside) (hs : t.Sound f) (n : ℕ) : (t.repeatChar n).Inside := by
  rw [Terminal.repeatChar]
  split
  · rename_i c hc
    have hplain := plain_of_wcwidth (hs.lastPrinted c hc)
    generalize min n (t.cols * t.rows) = n
    have hiterate : ∀ u : Terminal γ, u.Inside → u.Sound f → ((fun t : Terminal γ => t.print c)^[n] u).Inside := by
      induction n with
      | zero => exact fun u hu _ => hu
      | succ n ih => exact fun u hu hsu => ih _ (hu.print hsu c) (hsu.print hplain)
    exact hiterate t h hs
  · exact h

/-! ### Changes of the whole screen -/

theorem off (horigin : t.modes.origin = false) (htop : t.scrollTop ≤ 65535) : t.Inside :=
  ⟨fun h => absurd (h.symm.trans horigin) (by decide), htop⟩

theorem home (htop : t.scrollTop = 0) (hrow : t.cursor.row = 0) : t.Inside := by
  refine ⟨fun _ => ?_, by rw [htop]; exact Nat.zero_le _⟩
  rw [htop, hrow]
  exact ⟨Nat.le_refl 0, Nat.zero_le _⟩

theorem resize (h : t.Inside) (rows cols : ℕ) : (t.resize rows cols).Inside := by
  rw [Terminal.resize]
  exact ite h ⟨fun _ => ⟨Nat.zero_le _, Nat.min_le_right _ _⟩, Nat.zero_le _⟩

theorem setDeccolm (h : t.Inside) (set : Bool) : (t.setDeccolm set).Inside := by
  rw [Terminal.setDeccolm]
  refine ite ?_ h
  have htop : ∀ u : Terminal γ, (let u := { u with scrollTop := 0, scrollBot := u.rows - 1 }
      if u.modes.noClearOnDeccolm then u else u.modifyScr fun s => s.clearGrid {}).scrollTop = 0 := by
    intro u
    dsimp only
    split
    · rfl
    · exact (Still.modifyScr { u with scrollTop := 0, scrollBot := u.rows - 1 } _).steady.scrollTop
  exact home (htop _) rfl

theorem onScreen (h : t.Inside) (hs : t.Sound f) : (t.setRow (min t.cursor.row (t.rows - 1))).touch.Inside := by
  refine ⟨fun horigin => ?_, h.top_le⟩
  obtain ⟨htop, hbot⟩ := h.row horigin
  have hlt := hs.region_lt
  show t.scrollTop ≤ min t.cursor.row (t.rows - 1) ∧ min t.cursor.row (t.rows - 1) ≤ t.scrollBot
  rw [hs.rows_eq]
  omega

theorem switchTo (h : t.Inside) (hs : t.Sound f) (mode : ℕ) (on : Bool) :
    (if on && !t.altActive then t.enterAlt mode else if !on && t.altActive then t.leaveAlt mode
      else t).Inside := by
  have hsaved : (if mode = 1049 then t.saveCursor else t).Inside := ite (h.still (.saveCursor t)) h
  have hleft : Sound { f with altActive := false }
      { t with altActive := false, alt := if mode = 1047 then t.alt.clearGrid {} else t.alt } :=
    { hs with
      altActive := rfl
      alt := .ite (hs.alt.clearGrid hs.law) hs.alt }
  refine ite ⟨hsaved.row, hsaved.top_le⟩ (ite ?_ h)
  exact ite (restoreCursor ⟨h.row, h.top_le⟩ hleft) ⟨h.row, h.top_le⟩

theorem setAltScreen (h : t.Inside) (hs : t.Sound f) (mode : ℕ) (on : Bool) : (t.setAltScreen mode on).Inside := by
  have hnoted : Sound f { t with screenSwitch := some .alt } := { hs with }
  have hpending : Inside { t with screenSwitch := some .alt } := ⟨h.row, h.top_le⟩
  exact onScreen (hpending.switchTo hnoted mode on) (hnoted.switchTo mode on)

theorem setMode_origin (m : Modes) (n : ℕ) (set : Bool) : (setMode m n set).origin = m.origin := by
  have hite : ∀ (c : Prop) [Decidable c] (a b : Modes), a.origin = m.origin → b.origin = m.origin →
      (if c then a else b).origin = m.origin := by
    intro c _ a b ha hb
    split
    · exact ha
    · exact hb
  rw [setMode]
  iterate 19 refine hite _ _ _ rfl ?_
  rfl

theorem setDecMode (h : t.Inside) (hs : t.Sound f) (n : ℕ) (set : Bool) : (t.setDecMode n set).Inside := by
  rw [Terminal.setDecMode]
  refine touch ?_
  refine ite (h.setDeccolm set) <| ite ?_ <| ite ⟨h.row, h.top_le⟩ <| ite (h.setAltScreen hs n set) <|
    ite (ite (h.still (.saveCursor t)) (h.restoreCursor hs)) ?_
  · exact moveTo (t := { t with modes := { t.modes with origin := set } }) hs.region_eq hs.region_le
      h.top_le 0 0
  · refine ⟨fun horigin => h.row ?_, h.top_le⟩
    rw [← horigin]
    exact (setMode_origin t.modes n set).symm

theorem setDecModes (h : t.Inside) (hs : t.SoundFor f) (params : List (List ℕ)) (set : Bool) :
    (t.setDecModes params set).Inside := by
  induction params generalizing t with
  | nil => exact h
  | cons p params ih =>
    obtain ⟨cols, altActive, hs⟩ := hs
    obtain ⟨cols', altActive', hs'⟩ := hs.setDecMode (p.head?.getD 0) set
    exact ih (h.setDecMode hs (p.head?.getD 0) set) ⟨cols', altActive', hs'⟩

/-! ### Sequences -/

theorem csiPlain (h : t.Inside) (hs : t.Sound f) (hparams : PartsFit params)
    (final : UInt8) (hwithin : final = byte 'e' → t.DownWithin (paramOr params 0 1)) :
    (t.csiPlain params final).Inside := by
  by_cases hstill : ∀ c ∈ Still.moving, final ≠ byte c
  · exact h.still (.csiPlain t params hstill)
  · push Not at hstill
    obtain ⟨c, hc, rfl⟩ := hstill
    simp only [Still.moving, List.mem_cons, List.not_mem_nil, or_false] at hc
    rcases hc with rfl | rfl | rfl | rfl | rfl | rfl | rfl | rfl | rfl | rfl | rfl | rfl
    · exact h.cursorUp hs _
    · exact h.cursorDown hs _
    · exact (h.cursorDown hs _).still ⟨rfl, rfl⟩
    · exact (h.cursorUp hs _).still ⟨rfl, rfl⟩
    · exact moveTo hs.region_eq hs.region_le h.top_le _ _
    · exact moveTo hs.region_eq hs.region_le h.top_le _ _
    · exact h.repeatChar hs _
    · exact h.toRow hs _
    · refine h.down hs (hwithin rfl) rfl ?_ (Nat.min_le_left _ _) (Nat.min_le_right _ _)
      show min (min t.cursor.row 65535) (t.rows - 1) ≤ min (t.cursor.row + paramOr params 0 1) (t.rows - 1)
      omega
    · exact ite ⟨h.row, h.top_le⟩ ⟨h.row, h.top_le⟩
    · exact h.setRegion hparams
    · exact h.restoreCursor hs

theorem csiQuestion (h : t.Inside) (hs : t.Sound f) (params : List (List ℕ)) (final : UInt8) :
    (t.csiQuestion params final).Inside := by
  rw [Terminal.csiQuestion]
  exact ite (h.still (.eraseDisplay t _ _)) <| ite (h.still (.eraseLine t _ _)) <|
    ite (h.setDecModes hs.soundFor params true) <| ite (h.setDecModes hs.soundFor params false) <|
    ite (ite (h.still ⟨rfl, rfl⟩) h) <| ite (h.still ⟨rfl, rfl⟩) h

theorem softReset (t : Terminal γ) : t.softReset.Inside := by
  rw [Terminal.softReset]
  refine touch (ite ?_ ?_)
  · exact off (by split <;> rfl) (by split <;> exact Nat.zero_le _)
  · exact off (by split <;> rfl) (by split <;> exact Nat.zero_le _)

theorem csiIntermediate (h : t.Inside) (params : List (List ℕ)) (im marker final : UInt8) :
    (t.csiIntermediate params im marker final).Inside := by
  rw [Terminal.csiIntermediate]
  exact ite (h.still ⟨rfl, rfl⟩) <| ite h <| ite (h.still ⟨rfl, rfl⟩) <| ite (softReset t) <|
    ite ⟨h.row, h.top_le⟩ <| ite (h.still ⟨rfl, rfl⟩) <| ite (h.still (.popColors t)) <|
    ite (h.still ⟨rfl, rfl⟩) <| ite (ite (h.still ⟨rfl, rfl⟩) h) h

theorem csiDispatch (h : t.Inside) (hs : t.Sound f) (hparams : PartsFit params)
    (intermediates : List UInt8) (marker final : UInt8)
    (hwithin : intermediates = [] → marker = 0 → final = byte 'e' → t.DownWithin (paramOr params 0 1)) :
    (t.csiDispatch params intermediates marker final).Inside := by
  rw [Terminal.csiDispatch]
  cases intermediates with
  | cons im rest => exact h.csiIntermediate params im marker final
  | nil =>
    dsimp only [List.head?_nil]
    split
    case isTrue hmarker => exact h.csiPlain hs hparams final (hwithin rfl hmarker)
    case isFalse => exact ite (h.csiQuestion hs params final) (h.still (.csiMarked t params marker final))

variable [GraphicsStore γ] {data : List UInt8}

theorem escDispatch (h : t.Inside) (hs : t.Sound f) (intermediates : List UInt8) (final : UInt8) :
    (t.escDispatch intermediates final).Inside := by
  rw [Terminal.escDispatch]
  split
  · exact ite (h.still (.saveCursor t)) <| ite (h.restoreCursor hs) <| ite (h.index hs) <|
      ite (h.nextLine hs) <| ite (h.still ⟨rfl, rfl⟩) <| ite (h.reverseIndex hs) <|
      ite (off rfl (Nat.zero_le _)) <| ite (h.still ⟨rfl, rfl⟩) <| ite (h.still ⟨rfl, rfl⟩) <|
      ite (h.still ⟨rfl, rfl⟩) h
  · have hdecaln : t.decaln.Inside := by
      rw [decaln]
      refine touch (still (t := { t with
        scrollTop := 0
        scrollBot := t.rows - 1
        modes := { t.modes with origin := false }
        cursor := { t.cursor with row := 0, col := 0, pendingWrap := false } })
        (off rfl (Nat.zero_le _)) (.modifyScr _ _))
    exact ite hdecaln <| ite ⟨h.row, h.top_le⟩ <| ite ⟨h.row, h.top_le⟩ h

/-! ### Commands and strings -/

omit [GraphicsStore γ] in
theorem oscTextSize (h : t.Inside) (hs : t.Sound f) {rest : List Char} (hrest : ∀ c ∈ rest, Utf8.Plain c) :
    (t.oscTextSize rest).Inside := by
  rw [Terminal.oscTextSize]
  generalize hparts : (splitOnce ';' rest).getD ([], rest) = parts
  obtain ⟨info, text⟩ := parts
  obtain ⟨-, htext⟩ := splitOnce_getD hparts
  have hnoted : Inside { t with lastTextSize := some rest } := ⟨h.row, h.top_le⟩
  have hprinted := hnoted.printAll (f := f) { hs with } fun c hc => hrest c (htext c hc)
  refine ite hnoted (touch ?_)
  split
  · exact ite (hprinted.still (.setCol _ _)) hprinted
  · exact hprinted

omit [GraphicsStore γ] in
theorem oscDispatch (h : t.Inside) (hs : t.Sound f) (hdata : ∀ b ∈ data, 0x20 ≤ b.toNat)
    (bel : Bool) : (t.oscDispatch data bel).Inside := by
  rw [Terminal.oscDispatch]
  split
  · rename_i code _
    by_cases hcode : code = 66
    · subst hcode
      exact h.oscTextSize hs (plain_oscParts hdata)
    · exact h.still (.oscCommand t hcode _ _)
  · exact h

omit [GraphicsStore γ] in
theorem advanced (h : t.Inside) (hs : t.Sound f) (hstill : Still t t') (hrows : t'.rows = t.rows)
    {size : ℕ × ℕ} (hwithin : t.DownWithin (size.2 - 1)) :
    Inside { t' with
          cursor := { t'.cursor with
            row := min (min (t'.cursor.row + min (size.2 - 1) 65535) 65535) (t'.rows - 1)
            col := min (min (t'.cursor.col + min size.1 65535) 65535) (t'.cols - 1)
            pendingWrap := false } } := by
  refine h.down hs hwithin hstill.steady ?_ ?_ ?_
  all_goals
    dsimp only
    rw [hstill.row, hrows]
    omega

theorem apcDispatch (h : t.Inside) (hs : t.Sound f) (hwithin : t.StepsWithin (.apc data)) :
    (t.apcDispatch data).Inside := by
  rw [Terminal.apcDispatch.eq_def]
  split
  · rename_i g rest
    split
    case isFalse => exact h
    case isTrue hg =>
      have hsize := hwithin hg
      generalize GraphicsStore.dispatch t.graphics rest (t.cursor.row, t.cursor.col) = answer at hsize ⊢
      obtain ⟨graphics, resp, advance⟩ := answer
      dsimp only at hsize ⊢
      refine touch ?_
      cases resp with
      | none =>
        have hreply : Still t { t with graphics } := ⟨rfl, rfl⟩
        cases advance with
        | none => exact h.still hreply
        | some size => exact h.advanced hs hreply rfl (hsize size rfl)
      | some r =>
        have hreply : Still t (Terminal.respond { t with graphics } r) := ⟨rfl, rfl⟩
        cases advance with
        | none => exact h.still hreply
        | some size => exact h.advanced hs hreply rfl (hsize size rfl)
  · exact h

end Inside

/-! ### Runs -/

section

variable [GraphicsStore γ]

/-- **Every action that steps within the region confines the cursor.** -/
theorem Inside.dispatch {a : Action} (h : t.Inside) (hs : t.Sound f) (ha : a.Sound) (hparams : a.ParamsFit)
    (hwithin : t.StepsWithin a) : (t.dispatch a).Inside := by
  cases a with
  | print c => exact h.print hs c
  | execute b => exact h.execute hs b
  | csi params intermediates marker final =>
    refine h.csiDispatch hs hparams intermediates marker final fun hnil => ?_
    subst hnil
    exact hwithin
  | esc intermediates final => exact h.escDispatch hs intermediates final
  | osc data bel => exact h.oscDispatch hs ha bel
  | dcs params intermediates final data => exact h.still (.dcsDispatch t intermediates final data)
  | apc data => exact h.apcDispatch hs hwithin

omit [GraphicsStore γ] in
theorem vpr_confined_iff (h : t.Inside) (hs : t.Sound f) (n : ℕ) :
    (t.setRow (min (t.cursor.row + n) (t.rows - 1))).touch.Confined ↔ t.DownWithin n := by
  have hrow : (t.setRow (min (t.cursor.row + n) (t.rows - 1))).touch.Confined ↔
      (t.modes.origin = true → t.scrollTop ≤ min (t.cursor.row + n) (t.rows - 1) ∧
        min (t.cursor.row + n) (t.rows - 1) ≤ t.scrollBot) := by
    have hregion : (t.setRow (min (t.cursor.row + n) (t.rows - 1))).touch.region =
        (t.scrollTop, t.scrollBot) := hs.region_eq
    rw [Confined, hregion]
    exact Iff.rfl
  have hrows := hs.rows_eq
  have hlt := hs.region_lt
  rw [hrow, DownWithin, hs.region_eq, hrows]
  refine forall_congr' fun horigin => ?_
  obtain ⟨htop, hbot⟩ := h.row horigin
  have hscreen := hs.row_lt
  dsimp only
  omega

theorem keptBy_stepsWithin : KeptBy (γ := γ) StepsWithin Inside where
  dispatch hs ha hparams hwithin h := h.dispatch hs ha hparams hwithin
  resize rows cols _ h := h.resize rows cols
  parser _ h := ⟨h.row, h.top_le⟩

/-- **In every run that never steps past the bottom of the region, the cursor is within the region
whenever origin mode is set.** -/
theorem confined_of_stepsWithin (rows cols scrollback : ℕ) (calls : List Call)
    (hwithin : (withScrollback rows cols scrollback : Terminal γ).CallsMeet StepsWithin calls) :
    ∀ before, before <+: calls → (run rows cols scrollback before : Terminal γ).Confined := by
  intro before hbefore
  have hinside := keptBy_stepsWithin.run rows cols scrollback hwithin (Inside.home rfl rfl) before hbefore
  obtain ⟨f, -, -, hs⟩ := good_run (γ := γ) rows cols scrollback before
  exact hinside.confined hs

end

theorem confined_of_stepsWithin_vpr :
    (run 4 2 0 [.process [0x1B, 0x5B, 0x31, 0x3B, 0x32, 0x72, 0x1B, 0x5B, 0x3F, 0x36, 0x68,
      0x1B, 0x5B, 0x65]] : Terminal Unit).Confined :=
  confined_of_stepsWithin 4 2 0 [.process [0x1B, 0x5B, 0x31, 0x3B, 0x32, 0x72, 0x1B, 0x5B, 0x3F, 0x36, 0x68,
    0x1B, 0x5B, 0x65]] (by decide +kernel) _ (List.prefix_refl _)

theorem vpr_leaves_region :
    ¬ (run 4 2 0 [.process [0x1B, 0x5B, 0x31, 0x3B, 0x32, 0x72, 0x1B, 0x5B, 0x3F, 0x36, 0x68,
        0x1B, 0x5B, 0x39, 0x65]] : Terminal Unit).Confined := by
  decide +kernel

end

end Posh.Term.Terminal
