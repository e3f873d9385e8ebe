/-
**The cursor after a frame.**

What surrounds the grid of a frame, the titles and copies before it and the modes after it, leaves the
cursor; a scroll leaves it in a known place, or unknown.  Then the rows are written, and the cursor goes
where it is to be.  It gets there, but where it was left past the last column of the very row.
-/

import Posh.Render.Landing
import Posh.Term.PairedRun

set_option autoImplicit false

namespace Posh.Term.Render

open Terminal
open FrameState
open List (append_assoc)

variable {γ : Type} [GraphicsStore γ] {F : Frame} {t : Terminal γ} {last f : Snapshot}
  {fr : FrameState} {init wheel lastWheel allow : Bool}

/-! ### What surrounds the grid -/

theorem asides_leadOut (hf : f.Sound) : Asides γ F (leadOut init last f) := by
  refine .append (.append (.append ?_ ?_) ?_) ?_
  · exact .ite (fun _ => asides_title hf.title) fun _ => .nil
  · exact .ite (fun _ => asides_bell) fun _ => .nil
  · exact .ite (fun _ => asides_clipboard hf.kinds fun b hb =>
      (Base64.encode_ascii _ b hb).1) fun _ => .nil
  · exact .ite (fun _ => .ite (fun _ => asides_decset (by decide)) fun _ => asides_decrst (by decide))
      fun _ => .nil

theorem isFlag_mouse (hf : f.Sound) : IsFlag f.mouseMode ∧ IsFlag f.mouseEncoding := by
  have hmode : ∀ n ∈ [0, 9, 1000, 1002, 1003], IsFlag n := by decide
  have hencoding : ∀ n ∈ [0, 1005, 1006, 1016], IsFlag n := by decide
  exact ⟨hmode _ hf.mouseMode, hencoding _ hf.mouseEncoding⟩

theorem asides_mouseModeSync (hl : last.Sound) (hf : f.Sound) (want lastWant : Bool) :
    Asides γ F (mouseModeSync init last f want lastWant) := by
  refine .ite (fun _ => .ite (fun _ => .ite (fun _ => ?_) fun _ => ?_) fun _ => .append ?_ ?_)
    fun _ => .nil
  · exact .append (.append (.append (.append (asides_decrst (by decide)) (asides_decrst (by decide)))
      (asides_decrst (by decide))) (asides_decset (by decide))) (asides_decset (by decide))
  · exact .append (.append (.append (asides_decrst (by decide)) (asides_decrst (by decide)))
      (asides_decrst (by decide))) (asides_decrst (by decide))
  · exact .ite (fun _ => asides_decrst (isFlag_mouse hl).1) fun _ => .nil
  · exact asides_decset (isFlag_mouse hf).1

theorem asides_mouseEncodingSync (hl : last.Sound) (hf : f.Sound) (want lastWant : Bool) :
    Asides γ F (mouseEncodingSync init last f want lastWant) := by
  refine .ite (fun _ => .ite (fun _ => .ite (fun _ => ?_) fun _ => .nil) fun _ => .append ?_ ?_)
    fun _ => .nil
  · exact .append (.append (asides_decrst (by decide)) (asides_decrst (by decide)))
      (asides_decrst (by decide))
  · exact .ite (fun _ => asides_decrst (isFlag_mouse hl).2) fun _ => .nil
  · exact asides_decset (isFlag_mouse hf).2

theorem asides_sync {n : ℕ} (hn : IsFlag n) (c : Prop) [Decidable c] (set : Bool) :
    Asides γ F (if c then if set then decset n else decrst n else []) :=
  .ite (fun _ => .ite (fun _ => asides_decset hn) fun _ => asides_decrst hn) fun _ => .nil

theorem asides_modesOut (hl : last.Sound) (hf : f.Sound) : Asides γ F (modesOut init last f wheel lastWheel) := by
  refine .append (.append (.append (.append (.append (.append (.append ?_ ?_) ?_) ?_) ?_) ?_) ?_) ?_
  · exact asides_sync (by decide) _ _
  · exact asides_sync (by decide) _ _
  · exact .ite (fun _ => .ite (fun _ => asides_keypad.1) fun _ => asides_keypad.2) fun _ => .nil
  · exact asides_mouseModeSync hl hf _ _
  · exact asides_sync (by decide) _ _
  · exact asides_sync (by decide) _ _
  · exact .ite (fun _ => asides_kitty _) fun _ => .nil
  · exact asides_mouseEncodingSync hl hf _ _

/-! ### The scroll -/

omit [GraphicsStore γ] in
/-- **What is scrolled**: some rows of the screen, each of which was there further down. -/
theorem scrollPlan_spec (h : 0 < (scrollPlan init last f allow).2) : 0 < (scrollPlan init last f allow).1 ∧
      (scrollPlan init last f allow).1 + (scrollPlan init last f allow).2 ≤ f.rows ∧
      ∀ i < (scrollPlan init last f allow).2,
        sameRow last f (shownRows init last f) i ((scrollPlan init last f allow).1 + i) = true := by
  rw [scrollPlan] at h ⊢
  split at h
  case isFalse => exact absurd h (Nat.lt_irrefl 0)
  case isTrue hallow =>
    rw [if_pos hallow]
    rw [scrollMatch] at h ⊢
    cases hfind : (List.range f.rows).find? (sameRow last f (shownRows init last f) 0) with
    | none => rw [hfind] at h; exact absurd h (Nat.lt_irrefl 0)
    | some m =>
      cases m with
      | zero => rw [hfind] at h; exact absurd h (Nat.lt_irrefl 0)
      | succ n =>
        have hlt : n + 1 < f.rows := List.mem_range.mp (List.mem_of_find?_eq_some hfind)
        have hsame := List.find?_some hfind
        dsimp only
        generalize hmore : (List.range' 1 (f.rows - (n + 1) - 1)).takeWhile _ = more
        have hprefix : more <+: List.range' 1 (f.rows - (n + 1) - 1) :=
          hmore ▸ List.takeWhile_prefix _
        have hlen := hprefix.length_le
        rw [List.length_range'] at hlen
        refine ⟨Nat.succ_pos n, by omega, fun i hi => ?_⟩
        cases i with
        | zero => exact hsame
        | succ j =>
          have hj : j < more.length := by omega
          have hget : more[j] = j + 1 := by
            rw [List.prefix_iff_getElem.mp hprefix |>.2 j hj, List.getElem_range']
            omega
          have hmem : j + 1 ∈ more := hget ▸ List.getElem_mem hj
          rw [← hmore] at hmem
          exact List.mem_takeWhile_imp
            (p := fun h => sameRow last f (shownRows init last f) h (n + 1 + h)) hmem

theorem FrameState.appendSilentMove_lost (h : fr.x = -1) (row col : ℕ) : ∃ hide, Asides γ F hide ∧
      (fr.appendSilentMove row col).out = fr.out ++ (hide ++ cup (row + 1) (col + 1)) := by
  rw [appendSilentMove, if_neg (by omega), appendMove]
  split
  case isTrue =>
    refine ⟨decrst 25, asides_decrst (by decide), ?_⟩
    rw [if_neg (fun hno => hno.1 h), if_neg (fun hno => hno.1 h), ← append_assoc]
    rfl
  case isFalse =>
    refine ⟨[], .nil, ?_⟩
    rw [if_neg (fun hno => hno.1 h), if_neg (fun hno => hno.1 h)]
    rfl

theorem scrollOut_follows (hf : f.FitsIn F) (h : Follows F t fr) {n m : ℕ} (hn : 0 < n) (hm : 0 < m)
    (hle : n + m ≤ f.rows) : Follows F t (scrollOut f.rows n m fr) ∧ (scrollOut f.rows n m fr).x ≠ f.cols := by
  have hr := hf.rows
  have hc := hf.cols
  have hpos := hf.sound.cols_pos
  have hpen := (h.updateStyle {} true).updateLink (List.forall_mem_nil _) true
  have hy : ((fr.updateStyle {} true).updateLink [] true).y = fr.y := by
    rw [updateLink, if_pos (.inl rfl), updateStyle, if_pos (.inl rfl)]
    rfl
  rw [scrollOut]
  generalize (fr.updateStyle {} true).updateLink [] true = fr₁ at hpen hy ⊢
  dsimp only
  rw [hy]
  split
  case isTrue hwhole =>
    refine ⟨?_, fun hx => by
      have : (0 : ℤ) = f.cols := hx
      omega⟩
    rcases hpen.here with ⟨-, hlost⟩ | ⟨row, col, hrow, hcol, hat⟩
    · omega
    · have hlast : row = F.rows - 1 := by have := hat.y; omega
      have hfed : At F t { (fr₁.append [0x0D]).appendN n 0x0A with x := 0 } row 0 := by
        refine hat.append ?_ (append_assoc _ _ _) hat.y rfl
        have hfeeds := goes_feeds (γ := γ) hrow n
        rw [show min (row + n) (F.rows - 1) = row by omega] at hfeeds
        rw [atCol_of_lt (show 0 < F.cols by omega), atCol]
        split
        · exact (moves_return _ _ _).goes.append hfeeds
        · exact (moves_return _ _ _).goes.append hfeeds
      exact hfed.follows hrow (by omega)
  case isFalse =>
    refine ⟨⟨?_, .inl ⟨rfl, rfl⟩⟩, fun hx => by
      have : (-1 : ℤ) = f.cols := hx
      omega⟩
    obtain ⟨hide, hhide, hout⟩ := @appendSilentMove_lost γ _ F
      { fr₁.append (csi (numbers [1, n + m - 1 + 1]) 'r') with x := -1, y := -1 } rfl (n + m - 1) 0
    have hregion := hpen.outer.regionScroll (show 0 < n + m - 1 by omega) (by omega) hf.rows_le hhide n rfl
    rw [← process_append] at hregion
    dsimp only [append, appendN] at hout ⊢
    rw [hout, append_assoc, append_assoc, append_assoc, append_assoc]
    exact hregion.1

/-! ### The frame -/

theorem startFrame_same (hrows : f.rows = last.rows) (hcols : f.cols = last.cols) :
    startFrame true last f = (true,
      { out := leadOut true last f, x := last.cursorCol, y := last.cursorRow
        cursorVisible := last.cursorVisible }) := by
  rw [startFrame]
  dsimp only
  rw [if_neg (by simp [hrows, hcols])]

/-- **The cursor goes where it is to be**, unless it was left past the last column of its row. -/
theorem settle_place (hf : f.FitsIn F) (h : Follows F t fr) :
    (t.process (settle true f fr).out).Outer F ∧ (t.process (settle true f fr).out).place =
      ⟨f.cursorRow, if Short F fr f.cursorRow f.cursorCol then f.cursorCol - 1 else f.cursorCol, false⟩ := by
  have hr := hf.rows
  have hc := hf.cols
  have hrow := hf.sound.cursorRow
  have hcol := hf.sound.cursorCol
  obtain ⟨fr₁, hfr₁⟩ : ∃ fr₁ : FrameState, fr₁ =
    if !true ∨ fr.y ≠ f.cursorRow ∨ fr.x ≠ f.cursorCol then fr.appendMove f.cursorRow f.cursorCol
    else fr := ⟨_, rfl⟩
  have hmoved : (t.process fr₁.out).Outer F ∧ (t.process fr₁.out).place = ⟨f.cursorRow,
      if Short F fr f.cursorRow f.cursorCol then f.cursorCol - 1 else f.cursorCol, false⟩ := by
    rw [hfr₁]
    split_ifs with hmove hshort hshort
    · obtain ⟨hy, hx, hpos, hnear⟩ := hshort
      have hat := h.at_last hf hy (by rw [hx, hc])
      obtain ⟨bytes, hout, hmoves⟩ := hat.appendMove_short (by omega) hpos hnear
      rw [hout, process_append]
      exact hmoves.goes _ hat.outer hat.place
    · have hat := (h.appendMove hf.rows_le hf.cols_le (by omega) (by omega) hshort).at h.outer
      exact ⟨hat.outer, hat.place.trans (atCol_of_lt (by omega))⟩
    · have := hshort.2.1
      omega
    · rcases h.here with ⟨hx, -⟩ | ⟨row, col, -, -, hat⟩
      · omega
      · have hy := hat.y
        have hx := hat.x
        obtain rfl : row = f.cursorRow := by omega
        obtain rfl : col = f.cursorCol := by omega
        exact ⟨hat.outer, hat.place.trans (atCol_of_lt (by omega))⟩
  generalize (⟨f.cursorRow, _, false⟩ : Place) = p at hmoved ⊢
  -- the cursor's visibility and the pen
  obtain ⟨seen, hseen, hfr₂⟩ : ∃ seen, Asides γ F seen ∧ (if !true ∨ f.cursorVisible ≠ fr₁.cursorVisible then
        { fr₁.append (if f.cursorVisible then decset 25 else decrst 25) with
          cursorVisible := f.cursorVisible }
      else fr₁).out = fr₁.out ++ seen := by
    split
    · exact ⟨_, asides_flag (by decide) f.cursorVisible, rfl⟩
    · exact ⟨[], .nil, (List.append_nil _).symm⟩
  rw [settle, ← hfr₁]
  dsimp only
  generalize (if !true ∨ f.cursorVisible ≠ fr₁.cursorVisible then _ else fr₁) = fr₂ at hfr₂ ⊢
  obtain ⟨b₁, hstyle, hb₁⟩ := fr₂.updateStyle_eq {} !true
  obtain ⟨b₂, hlink, hb₂⟩ := (fr₂.updateStyle {} !true).updateLink_eq [] !true
  rw [hlink, hstyle]
  dsimp only
  rw [hfr₂, append_assoc, append_assoc, process_append]
  have hpen : Goes γ F p b₁ p := by
    rcases hb₁ with rfl | ⟨rfl, -⟩
    · exact goes_sgr _ p
    · exact .nil p
  have hopen : Goes γ F p b₂ p := by
    rcases hb₂ with rfl | ⟨rfl, -⟩
    · exact goes_link (List.forall_mem_nil _) p
    · exact .nil p
  exact (Goes.of_asides hseen p).append (hpen.append hopen) _ hmoved.1 hmoved.2

/-- **Where the cursor is after a frame**: where the frame says, or one column to the left. -/
theorem newFrameOpt_place (hl : last.Sound) (hf : f.FitsIn F) (hrows : f.rows = last.rows)
    (hcols : f.cols = last.cols) (h : t.Outer F) (hplace : t.place = ⟨last.cursorRow, last.cursorCol, false⟩) :
    (t.process (newFrameOpt true last f wheel lastWheel allow)).Outer F ∧
      (t.process (newFrameOpt true last f wheel lastWheel allow)).place =
        ⟨f.cursorRow, if Overruns last f allow then f.cursorCol - 1 else f.cursorCol, false⟩ := by
  have hr := hf.rows
  have hc := hf.cols
  have hlrow := hl.cursorRow
  have hlcol := hl.cursorCol
  rw [newFrameOpt, startFrame_same hrows hcols]
  dsimp only
  obtain ⟨fr₀, hfr₀⟩ : ∃ fr : FrameState, fr =
    { out := leadOut true last f, x := last.cursorCol, y := last.cursorRow
      cursorVisible := last.cursorVisible } := ⟨_, rfl⟩
  rw [← hfr₀]
  have hstart : Follows F t fr₀ ∧ fr₀.x ≠ f.cols := by
    obtain ⟨houter, hplace'⟩ := Goes.of_asides (asides_leadOut hf.sound) _ t h hplace
    have hat : At F t fr₀ last.cursorRow last.cursorCol := by
      rw [hfr₀]
      exact ⟨houter, rfl, rfl, hplace'.trans (atCol_of_lt (by omega)).symm⟩
    refine ⟨hat.follows (by omega) (by omega), ?_⟩
    rw [hat.x]
    omega
  -- the scroll
  obtain ⟨fr₁, hfr₁⟩ : ∃ fr : FrameState, fr =
    if (scrollPlan true last f allow).2 > 0 then scrollOut f.rows (scrollPlan true last f allow).1
      (scrollPlan true last f allow).2 fr₀ else fr₀ := ⟨_, rfl⟩
  rw [← hfr₁]
  have hscrolled : Follows F t fr₁ ∧ fr₁.x ≠ f.cols ∧ (scrollPlan true last f allow).2 ≤ f.rows := by
    rw [hfr₁]
    split
    case isTrue hpos =>
      obtain ⟨hn, hle, -⟩ := scrollPlan_spec hpos
      obtain ⟨hfollows, hx⟩ := scrollOut_follows hf hstart.1 hn hpos hle
      exact ⟨hfollows, hx, by omega⟩
    case isFalse hno => exact ⟨hstart.1, hstart.2, by omega⟩
  -- the rows
  obtain ⟨hfollows, hpast⟩ := ran_putRows (scrolledRows true last f allow) hf hscrolled.2.2 hscrolled.1
    hscrolled.2.1
  have hshort : Short F (putRows true f (scrolledRows true last f allow)
      (scrollPlan true last f allow).2 fr₁) f.cursorRow f.cursorCol ↔ Overruns last f allow := by
    rw [Short, hc, ← and_assoc, hpast, Overruns]
    have := hf.sound.cursorRow
    tauto
  obtain ⟨houter, hplace'⟩ := settle_place hf hfollows
  rw [if_congr hshort rfl rfl] at hplace'
  rw [process_append]
  exact Goes.of_asides (asides_modesOut hl hf.sound) _ _ houter hplace'

/-- **The cursor lands where the frame says, but where it was left past the last column of its row** and
is to go a little back. -/
theorem newFrame_cursor_iff (hl : last.Sound) (hf : f.FitsIn F) (hrows : f.rows = last.rows)
    (hcols : f.cols = last.cols) (h : t.Outer F)
    (hplace : t.place = ⟨last.cursorRow, last.cursorCol, false⟩) :
    ((t.process (newFrame true last f false)).cursor.row = f.cursorRow ∧
      (t.process (newFrame true last f false)).cursor.col = f.cursorCol) ↔ ¬ Overruns last f true := by
  obtain ⟨-, hplace'⟩ := @newFrameOpt_place γ _ F t last f false false true hl hf hrows hcols h hplace
  rw [← newFrame] at hplace'
  obtain ⟨hrow, hcol, -⟩ := Place.mk.inj hplace'
  rw [hrow, hcol]
  split
  case isTrue hover =>
    refine iff_of_false (fun hno => ?_) (not_not.mpr hover)
    have := hover.2.1
    omega
  case isFalse hover => exact iff_of_true ⟨rfl, rfl⟩ hover

/-- A terminal of one row and two columns that was sent some bytes. -/
def narrow (bytes : List UInt8) : Terminal Unit := run 1 2 0 [.process bytes]

theorem newFrame_cursor_letter :
    ((narrow []).process (newFrame true (.fromTerm (narrow [])) (.fromTerm (narrow [0x61])) false)).cursor.row =
        (Snapshot.fromTerm (narrow [0x61])).cursorRow ∧
      ((narrow []).process (newFrame true (.fromTerm (narrow [])) (.fromTerm (narrow [0x61])) false)).cursor.col =
        (Snapshot.fromTerm (narrow [0x61])).cursorCol := by
  obtain ⟨F, -, -, hsound⟩ := good_run (γ := Unit) 1 2 0 [.process []]
  obtain ⟨F', -, -, hsound'⟩ := good_run (γ := Unit) 1 2 0 [.process [0x61]]
  rw [← narrow] at hsound hsound'
  have hpaired : (narrow [0x61]).Paired :=
    paired_of_callsWhole 1 2 0 [.process [0x61]] (by decide +kernel) _ (List.prefix_refl _)
  have hscr : (narrow [0x61]).scr = (narrow [0x61]).primary := by
    rw [scr, show (narrow [0x61]).altActive = false by decide +kernel]
    rfl
  have hrows : (narrow []).rows = 1 ∧ (narrow [0x61]).rows = 1 := by decide +kernel
  have hcols : (narrow []).cols = 2 ∧ (narrow [0x61]).cols = 2 := by decide +kernel
  rw [hsound.rows_eq, hsound'.rows_eq] at hrows
  rw [hsound.cols_eq, hsound'.cols_eq] at hcols
  have hl := Snapshot.sound_fromTerm hsound (by omega) (by omega)
  have hf := Snapshot.sound_fromTerm hsound' (by omega) (by omega)
  have hp := Snapshot.paired_fromTerm hsound' (hscr ▸ hpaired.1)
  have hsize : (Snapshot.fromTerm (narrow [])).rows = 1 ∧ (Snapshot.fromTerm (narrow [])).cols = 2 ∧
      (Snapshot.fromTerm (narrow [0x61])).rows = 1 ∧ (Snapshot.fromTerm (narrow [0x61])).cols = 2 := by
    decide +kernel
  have houter : (narrow []).Outer F := by
    refine ⟨⟨{ hsound with parser := rfl }, ?_, ?_⟩, ?_, ?_, ?_⟩
    · decide +kernel
    · decide +kernel
    · decide +kernel
    · decide +kernel
    · rw [hrows.1]
      decide +kernel
  refine (@newFrame_cursor_iff Unit _ F _ _ _ hl ⟨hf, hp, ?_, ?_⟩ ?_ ?_ houter ?_).mpr ?_
  · omega
  · omega
  · omega
  · omega
  · decide +kernel
  · decide +kernel

/-- Two letters, and the cursor in the last of two columns: it ends in the first. -/
theorem newFrame_cursor_letters :
    (narrow []).place = ⟨(Snapshot.fromTerm (narrow [])).cursorRow,
        (Snapshot.fromTerm (narrow [])).cursorCol, false⟩ ∧
      (Snapshot.fromTerm (narrow [0x61, 0x62])).cursorCol = 1 ∧
      ((narrow []).process (newFrame true (.fromTerm (narrow [])) (.fromTerm (narrow [0x61, 0x62]))
        false)).cursor.col = 0 := by
  decide +kernel

end Posh.Term.Render
