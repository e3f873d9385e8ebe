/-
**The drawing part of a dump is quiet.**

What a dump writes of the grid, of graphics, of the modes and of the cursor leaves what lies outside the
grid alone.
-/

import Mathlib.Data.Bool.AllAny
import Posh.Term.OutsideReads

set_option autoImplicit false

namespace Posh.Term.Terminal

open Posh.Term.Parser (IsParam)
open List (forall_mem_append forall_mem_cons forall_mem_singleton)
open Quiet
open Utf8

variable {γ : Type} [GraphicsStore γ]

/-! ### Pens and text -/

theorem decimal_params (n : ℕ) : ∀ b ∈ decimal n, IsParam b := fun b hb =>
  ⟨(decimal_digits n b hb).1, Nat.le_trans (decimal_digits n b hb).2 (by decide)⟩

theorem numbers_params (n : ℕ) (ns : List ℕ) : ∀ b ∈ numbers (n :: ns), IsParam b := by
  rw [numbers_cons]
  exact forall_mem_append.mpr ⟨decimal_params n, itemsText_params _⟩

theorem quiet_cup (row col : ℕ) : Quiet γ (cup row col) :=
  quiet_csi (numbers_params row [col]) (by decide) fun t params =>
    show Leaves t (t.moveTo _ _) from rfl

theorem quiet_sgrSeq (style : Style) : Quiet γ (sgrSeq style) :=
  quiet_csi (sgrParams_params style) (by decide) fun t params => show Leaves t (t.sgr params) from .sgr t params

theorem quiet_emitProtect (isProtected : Bool) : Quiet γ (emitProtect isProtected) :=
  quiet_csi_intermediate (decimal_params _) (by decide) (by decide) fun t params => rfl

theorem quiet_hyperlink {rest : List UInt8} (h : ∀ b ∈ rest, 0x20 ≤ b.toNat) :
    Quiet γ (oscSt (decimal 8 ++ byte ';' :: rest)) :=
  quiet_oscSt (by decide) (fun b hb => Parser.not_endsOsc (h b hb)) fun t text =>
    show (t.oscHyperlink text).outside = t.outside from (Leaves.oscHyperlink t text).outside

theorem quiet_closeHyperlink : Quiet γ closeHyperlink :=
  quiet_hyperlink (forall_mem_singleton.mpr (by decide))

variable {f : Frame} {s : Terminal γ} {cell : Cell}

theorem quiet_emitHyperlink (hs : s.Sound f) (id : ℕ) : Quiet γ (s.emitHyperlink id) := by
  rw [emitHyperlink]
  split
  · rename_i link hlink
    refine .ite ?_ quiet_closeHyperlink
    obtain ⟨front, back, heq, -⟩ := List.lookup_eq_some_iff.mp hlink
    have hsound := hs.links.texts (id, link) (by rw [heq]; simp)
    have htext := encode_plain (linkText_plain hsound)
    have hbytes : encode (linkText link) = (if link.id = [] then [] else
        encode (['i', 'd', '='] ++ link.id)) ++ byte ';' :: encode link.uri := by
      rw [linkText, encode_append, apply_ite encode]
      rfl
    dsimp only at htext ⊢
    rw [hbytes] at htext
    rw [List.append_assoc, List.cons_append]
    exact quiet_hyperlink htext
  · exact quiet_closeHyperlink

variable (γ) in
/-- A writer of quiet bytes. -/
def Calm (w : Writer) : Prop := ∀ st, Quiet γ (w st).1

theorem calm_put {bytes : List UInt8} (h : Quiet γ bytes) : Calm γ (.put bytes) := fun _ => h

theorem calm_all {ws : List Writer} (h : ∀ w ∈ ws, Calm γ w) : Calm γ (.all ws) := by
  induction ws with
  | nil => exact calm_put nil
  | cons w ws ih =>
    obtain ⟨hw, hws⟩ := forall_mem_cons.mp h
    exact fun st => append (hw st) (ih hws _)

theorem calm_when {w : Writer} (c : Bool) (h : Calm γ w) : Calm γ (.when c w) := by
  cases c
  · exact calm_put nil
  · exact h

theorem calm_resetPen : Calm γ resetPen := fun _ =>
  append (append (.ite (quiet_emitProtect false) .nil) (.ite (quiet_sgrSeq {}) .nil))
    (.ite quiet_closeHyperlink .nil)

theorem calm_emitPen (hs : s.Sound f) (style : Style) (hyperlink : ℕ) : Calm γ (s.emitPen style hyperlink) :=
  fun _ => append (append (.ite (quiet_emitProtect _) .nil) (.ite (quiet_sgrSeq style) .nil))
    (.ite (quiet_emitHyperlink hs hyperlink) .nil)

/-! ### The grid -/

theorem quiet_cellText (h : cell.Sound s.hyperlinks) (hwidth : cell.width ≠ 0) : Quiet γ (cellText cell) := by
  refine quiet_text (forall_mem_cons.mpr ⟨?_, fun c hc => (h.extra c hc).plain⟩)
  split
  · decide
  · exact plain_of_wcwidth (h.width ▸ hwidth)

theorem calm_emitCell (hs : s.Sound f) (h : cell.Sound s.hyperlinks) : Calm γ (s.emitCell cell) := by
  rw [emitCell]
  split
  · exact calm_put nil
  · rename_i hwidth
    exact calm_all (forall_mem_cons.mpr ⟨calm_emitPen hs _ _,
      forall_mem_singleton.mpr (calm_put (quiet_cellText h hwidth))⟩)

theorem quiet_emitMark (mark : Option SemanticMark) : Quiet γ (emitMark mark) := by
  have hmark : ∀ letter : Char, 0x20 ≤ (byte letter).toNat →
      Quiet γ (oscSt (decimal 133 ++ [byte ';', byte letter])) := fun letter h =>
    quiet_oscSt (by decide) (forall_mem_singleton.mpr (Parser.not_endsOsc h)) fun t text =>
      show (t.oscPromptMark text).outside = t.outside from (Leaves.oscPromptMark t text).outside
  rcases mark with - | m
  · exact nil
  · cases m <;> exact hmark _ (by decide)

theorem calm_emitRow (hs : s.Sound f) {row : Row} (h : ∀ cell ∈ row.cells, cell.Sound s.hyperlinks) :
    Calm γ (s.emitRow row) := by
  have hcells : ∀ cell ∈ emittedCells row, cell.Sound s.hyperlinks := by
    rw [emittedCells]
    split
    · exact h
    · exact fun cell hc => h cell (List.mem_of_mem_take hc)
  intro st
  refine calm_all ?_ st
  simp only [List.mem_cons, List.not_mem_nil, or_false, forall_eq_or_imp, forall_eq]
  refine ⟨calm_put (quiet_emitMark _), calm_when _ ?_, fun _ => nil, calm_all fun w hw => ?_⟩
  · have hspace : Quiet γ (encode [' ']) := quiet_text (forall_mem_singleton.mpr (by decide))
    exact calm_all (forall_mem_cons.mpr ⟨calm_resetPen, forall_mem_singleton.mpr (calm_put hspace)⟩)
  · obtain ⟨cell, hcell, rfl⟩ := List.mem_map.mp hw
    exact calm_emitCell hs (hcells cell hcell)

theorem calm_crlf : Calm γ (.put crlf) :=
  calm_put (append (quiet_control (by decide) (by decide)) (quiet_control (by decide) (by decide)))

theorem calm_emitTerminatedRow (hs : s.Sound f) {row : Row} (h : ∀ cell ∈ row.cells, cell.Sound s.hyperlinks) :
    Calm γ (s.emitTerminatedRow row) :=
  calm_all (forall_mem_cons.mpr ⟨calm_emitRow hs h, forall_mem_singleton.mpr (calm_when _
    (calm_all (forall_mem_cons.mpr ⟨calm_resetPen, forall_mem_singleton.mpr calm_crlf⟩)))⟩)

theorem calm_emitRows (hs : s.Sound f) (reset : Bool) {rows : List Row}
    (h : ∀ row ∈ rows, ∀ cell ∈ row.cells, cell.Sound s.hyperlinks) : Calm γ (s.emitRows reset rows) := by
  fun_induction emitRows s reset rows with
  | case1 => exact calm_put nil
  | case2 row => exact calm_emitRow hs (h row List.mem_cons_self)
  | case3 row rest _ ih =>
    obtain ⟨hrow, hrest⟩ := forall_mem_cons.mp h
    refine calm_all (forall_mem_cons.mpr ⟨calm_emitRow hs hrow, forall_mem_cons.mpr
      ⟨calm_when _ (calm_all ?_), forall_mem_singleton.mpr (ih hrest)⟩⟩)
    exact forall_mem_cons.mpr ⟨calm_when _ calm_resetPen, forall_mem_singleton.mpr calm_crlf⟩

theorem calm_drawGrid (hs : s.Sound f) {grid : Screen} {ring : ℕ}
    (h : grid.Fits (Cell.Sound s.hyperlinks) f.rows f.cols ring) : Calm γ (s.drawGrid grid) := by
  refine calm_all ?_
  simp only [List.mem_cons, List.not_mem_nil, or_false, forall_eq_or_imp, forall_eq]
  refine ⟨calm_put ?_, fun _ => nil, calm_emitRows hs false fun row hrow => (h.grid row hrow).cells⟩
  exact quiet_csi (List.forall_mem_nil _) (by decide) fun t params => show Leaves t (t.moveTo _ _) from rfl

theorem calm_dumpFlow (hs : s.Sound f) (replay : ℕ) : Calm γ (s.dumpFlow replay) := by
  refine calm_all (forall_mem_cons.mpr ⟨calm_all fun w hw => ?_, forall_mem_singleton.mpr
    (calm_emitRows hs true fun row hrow => (hs.primary.grid row hrow).cells)⟩)
  obtain ⟨row, hrow, rfl⟩ := List.mem_map.mp hw
  exact calm_emitTerminatedRow hs (hs.primary.scrollback row (List.mem_of_mem_drop hrow)).cells

/-! ### Graphics -/

theorem decimal_printable (n : ℕ) : ∀ b ∈ decimal n, 0x20 ≤ b.toNat := fun b hb =>
  Nat.le_trans (by decide) (decimal_digits n b hb).1

theorem key_printable {k : Char} (hk : 0x20 ≤ (byte k).toNat) (n : ℕ) : ∀ b ∈ key k n, 0x20 ≤ b.toNat :=
  forall_mem_cons.mpr ⟨by decide, forall_mem_cons.mpr ⟨hk, forall_mem_cons.mpr
    ⟨by decide, decimal_printable n⟩⟩⟩

theorem keyInt_printable {k : Char} (hk : 0x20 ≤ (byte k).toNat) (n : ℤ) : ∀ b ∈ keyInt k n, 0x20 ≤ b.toNat := by
  refine forall_mem_cons.mpr ⟨by decide, forall_mem_cons.mpr ⟨hk, forall_mem_cons.mpr
    ⟨by decide, ?_⟩⟩⟩
  cases n with
  | ofNat n => exact decimal_printable n
  | negSucc n => exact forall_mem_cons.mpr ⟨by decide, decimal_printable (n + 1)⟩

theorem action_printable {a : Char} (ha : 0x20 ≤ (byte a).toNat) : ∀ b ∈ action a, 0x20 ≤ b.toNat :=
  forall_mem_append.mpr ⟨forall_mem_cons.mpr ⟨by decide, forall_mem_cons.mpr
    ⟨by decide, forall_mem_cons.mpr ⟨by decide, forall_mem_singleton.mpr ha⟩⟩⟩,
    key_printable (by decide) 2⟩

theorem ite_printable {c : Prop} [Decidable c] {bs : List UInt8} (h : ∀ b ∈ bs, 0x20 ≤ b.toNat) :
    ∀ b ∈ if c then bs else [], 0x20 ≤ b.toNat := by
  split
  · exact h
  · exact List.forall_mem_nil _

theorem quiet_moreChunks {payload : List UInt8} (h : ∀ b ∈ payload, 0x20 ≤ b.toNat) (fuel : ℕ) :
    Quiet γ (moreChunks fuel payload) := by
  induction fuel generalizing payload with
  | zero => exact nil
  | succ fuel ih =>
    rw [moreChunks]
    refine .ite .nil (append (quiet_apc ?_) (ih fun b hb => h b (List.mem_of_mem_drop hb)))
    refine forall_mem_append.mpr ⟨forall_mem_append.mpr
      ⟨List.all_iff_forall_prop.mp (by decide), decimal_printable _⟩,
      forall_mem_cons.mpr ⟨by decide, fun b hb => h b (List.mem_of_mem_take hb)⟩⟩

theorem quiet_emitApcChunks {keys : List UInt8} (hkeys : ∀ b ∈ keys, 0x20 ≤ b.toNat) (data : List UInt8) :
    Quiet γ (emitApcChunks keys data) := by
  have hpayload : ∀ b ∈ Base64.encode data, 0x20 ≤ b.toNat := fun b hb => (Base64.encode_ascii data b hb).1
  rw [emitApcChunks]
  refine .ite (quiet_apc ?_) (append (quiet_apc ?_) (quiet_moreChunks ?_ _))
  · exact forall_mem_append.mpr ⟨hkeys, forall_mem_cons.mpr ⟨by decide, hpayload⟩⟩
  · exact forall_mem_append.mpr ⟨forall_mem_append.mpr ⟨hkeys, key_printable (by decide) 1⟩,
      forall_mem_cons.mpr ⟨by decide, fun b hb => hpayload b (List.mem_of_mem_take hb)⟩⟩
  · exact fun b hb => hpayload b (List.mem_of_mem_drop hb)

theorem quiet_dumpPlacement (s : Terminal γ) (p : Placement) : Quiet γ (s.dumpPlacement p) := by
  refine append (.ite (quiet_cup _ _) .nil) (quiet_apc ?_)
  have hkey := fun (k : Char) hk n => key_printable (k := k) hk n
  simp only [forall_mem_append]
  refine ⟨⟨⟨⟨⟨⟨⟨⟨⟨⟨⟨⟨⟨action_printable ?_, hkey _ ?_ _⟩, hkey _ ?_ _⟩, hkey _ ?_ _⟩, hkey _ ?_ _⟩, hkey _ ?_ _⟩,
    hkey _ ?_ _⟩, hkey _ ?_ _⟩, hkey _ ?_ _⟩, keyInt_printable ?_ _⟩, hkey _ ?_ _⟩, hkey _ ?_ _⟩,
    ite_printable ?_⟩, ite_printable (hkey _ ?_ _)⟩
  all_goals first
    | decide
    | skip
  simp only [forall_mem_append]
  exact ⟨⟨⟨hkey _ (by decide) _, hkey _ (by decide) _⟩, keyInt_printable (by decide) _⟩,
    keyInt_printable (by decide) _⟩

theorem quiet_dumpFrame (id : ℕ) (f : ImageFrame) : Quiet γ (dumpFrame id f) := by
  refine quiet_emitApcChunks ?_ _
  have hkey := fun (k : Char) hk n => key_printable (k := k) hk n
  simp only [forall_mem_append]
  refine ⟨⟨⟨⟨⟨⟨⟨⟨⟨⟨action_printable ?_, hkey _ ?_ _⟩, hkey _ ?_ _⟩, hkey _ ?_ _⟩, hkey _ ?_ _⟩, hkey _ ?_ _⟩,
    hkey _ ?_ _⟩, hkey _ ?_ _⟩, keyInt_printable ?_ _⟩, hkey _ ?_ _⟩, ite_printable (hkey _ ?_ _)⟩
  all_goals decide

theorem quiet_dumpImage (s : Terminal γ) (img : Image) : Quiet γ (s.dumpImage img) := by
  have hkey := fun (k : Char) hk n => key_printable (k := k) hk n
  refine append (append (quiet_emitApcChunks ?_ _)
    (.flatMap fun f _ => quiet_dumpFrame img.id f)) ?_
  · simp only [forall_mem_append]
    refine ⟨⟨⟨⟨⟨action_printable ?_, hkey _ ?_ _⟩, hkey _ ?_ _⟩, hkey _ ?_ _⟩, hkey _ ?_ _⟩,
      ite_printable (hkey _ ?_ _)⟩
    all_goals decide
  · split
    · refine quiet_apc ?_
      simp only [forall_mem_append]
      refine ⟨⟨⟨⟨action_printable ?_, hkey _ ?_ _⟩, hkey _ ?_ _⟩, hkey _ ?_ _⟩, hkey _ ?_ _⟩
      all_goals decide
    · exact nil

/-- **Graphics.** -/
theorem quiet_dumpGraphics (s : Terminal γ) : Quiet γ s.dumpGraphics :=
  append (.flatMap fun img _ => quiet_dumpImage s img) (.flatMap fun p _ => quiet_dumpPlacement s p)

/-! ### Modes -/

theorem quiet_decset {n : ℕ} (hn : IsFlag n ∨ n ∈ [3, 6, 7]) : Quiet γ (decset n) := by
  rcases hn with hn | hn
  · exact quiet_mode hn.1 (by have := hn.2; simp at this; omega) true
  · exact quiet_mode (by simp at hn; omega) (by simp at hn; omega) true

theorem quiet_decrst {n : ℕ} (hn : IsFlag n ∨ n ∈ [3, 6, 7]) : Quiet γ (decrst n) := by
  rcases hn with hn | hn
  · exact quiet_mode hn.1 (by have := hn.2; simp at this; omega) false
  · exact quiet_mode (by simp at hn; omega) (by simp at hn; omega) false

theorem quiet_dumpDeccolm (m : Modes) (cols : ℕ) : Quiet γ (dumpDeccolm m cols) := by
  have hset := fun {n} h => quiet_decset (γ := γ) (n := n) h
  have hrst := fun {n} h => quiet_decrst (γ := γ) (n := n) h
  refine append (append (.ite (hset ?_) .nil) (.ite (append (append (hset ?_) (hset ?_))
    (.ite .nil (hrst ?_))) (.ite (hset ?_) .nil))) (.ite (hrst ?_) .nil)
  all_goals decide

theorem quiet_dumpTabs (s : Terminal γ) : Quiet γ s.dumpTabs := by
  rw [dumpTabs]
  refine .ite .nil (append ?_ (.flatMap fun tab _ => .ite (append (quiet_cup _ _) ?_) .nil))
  · exact quiet_csi (decimal_params 3) (by decide) fun t params =>
      show Leaves t (t.clearTabs _) from Leaves.clearTabs t _
  · exact quiet_esc (by decide) (by decide) fun t => rfl

theorem quiet_dumpCharsets (s : Terminal γ) : Quiet γ s.dumpCharsets := by
  refine append (append ?_ ?_) (.ite (quiet_control (by decide) (by decide)) .nil)
  · cases s.cursor.g0 with
    | ascii => exact nil
    | decSpecial => exact quiet_designate (.inl rfl) (.inl rfl)
    | uk => exact quiet_designate (.inl rfl) (.inr rfl)
  · cases s.cursor.g1 with
    | ascii => exact nil
    | decSpecial => exact quiet_designate (.inr rfl) (.inl rfl)
    | uk => exact quiet_designate (.inr rfl) (.inr rfl)

theorem quiet_modes (s : Terminal γ) : ∃ front, s.dumpModes = front ++ dumpKitty s.kittyStack ∧ Quiet γ front := by
  have hset := fun {n} h => quiet_decset (γ := γ) (n := n) h
  have hrst := fun {n} h => quiet_decrst (γ := γ) (n := n) h
  refine ⟨_, rfl, ?_⟩
  refine .append (.append (.append (.append (.append (.append (.append (.append (.append (.append (.append (.append
    (.append (.append (.append (.append (.append (.append (quiet_dumpDeccolm _ _) (.ite ?_ .nil))
      (.ite (hset ?_) .nil)) (quiet_dumpTabs s)) (quiet_dumpCharsets s)) (.ite (hset ?_) .nil))
      (.ite .nil (hrst ?_))) (.ite (hset ?_) .nil)) (.ite .nil (hrst ?_))) (.ite (hset ?_) .nil))
      (.ite (hset ?_) .nil)) (.ite (hset ?_) .nil)) (.ite (hset ?_) .nil)) (.ite (hset ?_) .nil)) (.ite ?_ .nil))
      (.ite ?_ .nil)) (.ite ?_ .nil)) ?_) ?_
  all_goals first
    | decide
    | skip
  · exact quiet_csi (numbers_params _ _) (by decide) fun t params => Leaves.setRegion t params
  · exact quiet_csi (decimal_params 4) (by decide) fun t params => rfl
  · exact quiet_csi (decimal_params 20) (by decide) fun t params => rfl
  · exact quiet_esc (by decide) (by decide) fun t => rfl
  · cases s.modes.mouseMode
    case none => exact nil
    all_goals exact hset (by decide)
  · cases s.modes.mouseProtocol
    case normal => exact nil
    all_goals exact hset (by decide)

/-! ### The cursor -/

theorem quiet_saveFlowAnchoredCursor (s : Terminal γ) : Quiet γ s.saveFlowAnchoredCursor := by
  refine append (append (append (quiet_control (by decide) (by decide)) (.ite ?_ .nil))
    (.ite ?_ .nil)) ?_
  · exact quiet_csi (decimal_params _) (by decide) fun t params => show Leaves t (t.cursorUp _) from rfl
  · exact quiet_csi (decimal_params _) (by decide) fun t params =>
      show Leaves t (t.setCol _).touch from rfl
  · exact quiet_esc (by decide) (by decide) fun t => Leaves.saveCursor t

theorem quiet_reprint (hs : s.Sound f) (pen : Style) : Quiet γ (s.reprint pen) := by
  rw [reprint]
  refine .ite ?_ .nil
  split
  · rename_i cell hcell
    split
    · rename_i hwidth
      obtain ⟨row, hrow, hmem⟩ := Option.bind_eq_some_iff.mp hcell
      obtain ⟨ring, hfits⟩ := hs.scr_fits
      have hcells := (hfits.grid row (List.mem_of_getElem? hrow)).cells
      have htext := quiet_cellText (γ := γ) (hcells cell (List.mem_of_getElem? hmem)) (by omega)
      exact append (append (append (append (.ite (quiet_emitProtect _) .nil)
        (.ite (quiet_sgrSeq _) .nil)) htext) (.ite (quiet_sgrSeq _) .nil)) (.ite (quiet_emitProtect _) .nil)
    · exact nil
  · exact nil

theorem calm_dumpCursor (hs : s.Sound f) (anchor : CursorAnchor) : Calm γ (s.dumpCursor anchor) := by
  refine calm_all ?_
  simp only [List.mem_cons, List.not_mem_nil, or_false, forall_eq_or_imp, forall_eq]
  refine ⟨calm_put (append (.ite (append ?_ (quiet_dumpCharsets s)) .nil) (.ite ?_ .nil)),
    calm_emitPen hs _ _, fun st => append (.ite (quiet_cup _ _) .nil) (quiet_reprint hs _), calm_put (.ite .nil
      (quiet_decrst (by decide)))⟩
  · exact quiet_esc (by decide) (by decide) fun t => Leaves.restoreCursor t
  · refine quiet_csi_intermediate (decimal_params _) (by decide) (by decide) fun t params => ?_
    show Leaves t (if param params 0 0 ≤ 6 then _ else t)
    exact .ite rfl rfl

end Posh.Term.Terminal
