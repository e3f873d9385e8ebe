/-
**The input modes follow the session.**

What the outer terminal does with a key, a paste or the mouse is decided by modes, and a frame writes those
that changed since the last.  The picture between them is text, pens and moves, which leave the modes alone;
so a run of frames is a run of a few switches, each written when its own part of the picture changes.  The
two switches of the mouse are shared with the wheel, which is reported where the session asks for nothing.
-/

import Posh.Render.FrameCursor
import Posh.Term.QuietDump

set_option autoImplicit false

namespace Posh.Term

open List (append_assoc forall_mem_cons forall_mem_nil mem_cons not_mem_nil)
open Posh.Term.Parser
open Utf8

/-- What decides what is sent for a key, a paste or the mouse. -/
structure InputModes where
  reverseVideo : Bool
  bracketedPaste : Bool
  appCursorKeys : Bool
  appKeypad : Bool
  focusReporting : Bool
  alternateScroll : Bool
  kittyKeyboardFlags : UInt8
  mouseMode : ℕ
  mouseEncoding : ℕ
deriving DecidableEq, Repr

def Render.Snapshot.inputModes (f : Render.Snapshot) : InputModes :=
  ⟨f.reverseVideo, f.bracketedPaste, f.appCursorKeys, f.appKeypad, f.focusReporting, f.alternateScroll,
    f.kittyKeyboardFlags, f.mouseMode, f.mouseEncoding⟩

namespace Terminal

variable {γ : Type}

def inputModes (t : Terminal γ) : InputModes :=
  ⟨t.modes.reverseVideo, t.modes.bracketedPaste, t.modes.cursorKeys, t.modes.keypadApp, t.modes.focusReporting,
    t.modes.alternateScroll, t.kittyStack.flags, t.modes.mouseMode.decset.getD 0,
    t.modes.mouseProtocol.decset.getD 0⟩

/-- The input modes are as they were, and so is the parser. -/
def Deaf (t t' : Terminal γ) : Prop := (t'.inputModes, t'.parser) = (t.inputModes, t.parser)

namespace Deaf

variable {t t' t'' : Terminal γ}

theorem trans (h : Deaf t t') (h' : Deaf t' t'') : Deaf t t'' := Eq.trans h' h

theorem ite {c : Prop} [Decidable c] (h : Deaf t t') (h' : Deaf t t'') : Deaf t (if c then t' else t'') := by
  split
  · exact h
  · exact h'

theorem modifyScr (t : Terminal γ) (g : Screen → Screen) : Deaf t (t.modifyScr g) := ite rfl rfl

theorem of_drawn (h : Drawn t t') : Deaf t t' :=
  show (t'.undrawn.inputModes, t'.undrawn.parser) = (t.undrawn.inputModes, t.undrawn.parser) by rw [h]

theorem eraseLine (t : Terminal γ) (mode : ℕ) (selective : Bool) : Deaf t (t.eraseLine mode selective) :=
  ite (modifyScr t.cancelWrap _) <| ite (modifyScr t.cancelWrap _) <| ite (modifyScr t.cancelWrap _) rfl

theorem oscHyperlink (t : Terminal γ) (rest : List Char) : Deaf t (t.oscHyperlink rest) := by
  rw [Terminal.oscHyperlink]
  refine ite rfl ?_
  dsimp only
  split <;> exact rfl

theorem oscClipboard (t : Terminal γ) (rest : List Char) (bel : Bool) : Deaf t (t.oscClipboard rest bel) := by
  have hset (kinds : List Char) (data : List UInt8) : ∀ t : Terminal γ,
      Deaf t (kinds.foldl (fun t kind => t.setSelection kind data) t) := by
    induction kinds with
    | nil => exact fun _ => rfl
    | cons kind kinds ih =>
      intro t
      have hone : Deaf t (t.setSelection kind data) := ite rfl (ite rfl rfl)
      exact hone.trans (ih _)
  rw [Terminal.oscClipboard]
  dsimp only
  refine ite rfl ?_
  split
  · exact hset _ _ t
  · exact rfl

end Deaf

end Terminal

namespace Render

open Terminal

variable {γ : Type} [GraphicsStore γ] {xs ys : List UInt8} {m m' m'' : InputModes} {fr fr' fr'' : FrameState}
  {last f : Snapshot} {init wheel lastWheel : Bool}

/-! ### Bytes that leave the input modes -/

variable (γ) in
/-- Read between sequences, these bytes turn the input modes `m` into `m'`. -/
def Leads (m : InputModes) (bytes : List UInt8) (m' : InputModes) : Prop :=
  ∀ t : Terminal γ, t.parser.Rests → t.inputModes = m →
    (t.process bytes).parser.Rests ∧ (t.process bytes).inputModes = m'

theorem Leads.nil (m : InputModes) : Leads γ m [] m := fun _ ht hm => ⟨ht, hm⟩

theorem Leads.append (h : Leads γ m xs m') (h' : Leads γ m' ys m'') : Leads γ m (xs ++ ys) m'' := by
  intro t ht hm
  obtain ⟨hrests, hmodes⟩ := h t ht hm
  rw [process_append]
  exact h' _ hrests hmodes

/-- Bytes that are written where something changed, or is not known. -/
theorem Leads.changed {α : Type} [DecidableEq α] {a b : α} (h : Leads γ m xs m')
    (hno : init = true → a = b → m' = m) : Leads γ m (if !init ∨ a ≠ b then xs else []) m' := by
  split
  · exact h
  · rename_i hc
    have hsame : init = true ∧ a = b := by simpa using hc
    rw [hno hsame.1 hsame.2]
    exact .nil m

theorem Leads.of_reads {a : Action} (hreads : ∀ p : Parser, p.Rests → p.Reads xs a)
    (h : ∀ t : Terminal γ, t.inputModes = m → ((dispatch t a).inputModes, (dispatch t a).parser) = (m', t.parser)) :
    Leads γ m xs m' := by
  intro t ht hm
  obtain ⟨p, hp, heq⟩ := process_reads (hreads _ ht)
  obtain ⟨hmodes, hparser⟩ := Prod.mk.inj (h { t with parser := p } hm)
  rw [heq, hparser]
  exact ⟨hp, hmodes⟩

variable (γ) in
/-- These bytes leave them alone. -/
def Mute (bytes : List UInt8) : Prop := ∀ m, Leads γ m bytes m

theorem Mute.nil : Mute γ [] := Leads.nil

theorem Mute.append (h : Mute γ xs) (h' : Mute γ ys) : Mute γ (xs ++ ys) := fun m => (h m).append (h' m)

theorem Mute.ite {c : Prop} [Decidable c] (h : c → Mute γ xs) (h' : ¬ c → Mute γ ys) :
    Mute γ (if c then xs else ys) := by
  split
  case isTrue hc => exact h hc
  case isFalse hc => exact h' hc

theorem mute_csi {bs : List UInt8} (hbs : ∀ b ∈ bs, Parser.IsParam b) {c : Char} (hc : Parser.IsFinal (byte c))
    (h : ∀ (t : Terminal γ) params, Deaf t (t.csiPlain params (byte c))) : Mute γ (csi bs c) := by
  intro m t ht hm
  obtain ⟨params, hreads⟩ := reads_csi_params ht hbs hc
  obtain ⟨p, hp, heq⟩ := process_reads hreads
  obtain ⟨hmodes, hparser⟩ := Prod.mk.inj (h { t with parser := p } params)
  rw [heq]
  exact ⟨hparser ▸ hp, hmodes.trans hm⟩

theorem mute_cup (row col : ℕ) : Mute γ (cup row col) :=
  mute_csi (numbers_params row [col]) (by decide) fun t _ => show Deaf t (t.moveTo _ _) from rfl

theorem mute_sgr (style : Style) : Mute γ (sgrSeq style) :=
  mute_csi (sgrParams_params style) (by decide) fun t params => show Deaf t (t.sgr params) from .ite rfl rfl

theorem mute_region {bs : List UInt8} (hbs : ∀ b ∈ bs, Parser.IsParam b) : Mute γ (csi bs 'r') :=
  mute_csi hbs (by decide) fun t params => show Deaf t (t.setRegion params) from .ite rfl rfl

theorem mute_control {b : UInt8} (hb : b.toNat ≤ 0x1F) (hesc : b ≠ 0x1B)
    (h : ∀ t : Terminal γ, Deaf t (t.execute b)) : Mute γ [b] := by
  intro m t ht hm
  obtain ⟨hmodes, hparser⟩ := Prod.mk.inj (h t)
  rw [process_control ht hb hesc, hparser]
  exact ⟨ht, hmodes.trans hm⟩

theorem Mute.replicate {b : UInt8} (h : Mute γ [b]) (n : ℕ) : Mute γ (List.replicate n b) := by
  induction n with
  | zero => exact .nil
  | succ n ih => exact h.append ih

theorem mute_return : Mute γ [0x0D] := mute_control (by decide) (by decide) fun _ => rfl

theorem mute_back : Mute γ [0x08] := mute_control (by decide) (by decide) fun _ => rfl

theorem mute_feed : Mute γ [0x0A] := by
  refine mute_control (by decide) (by decide) fun t => ?_
  have hindex : Deaf t t.index := .of_drawn (.index t)
  exact show Deaf t t.linefeed from .ite hindex hindex

theorem mute_char {c : Char} (hc : Utf8.Plain c) (hno : ¬ (0x80 ≤ c.toNat ∧ c.toNat < 0xA0)) :
    Mute γ (String.utf8EncodeChar c) := by
  intro m t ht hm
  rcases process_char ht hc with ⟨-, heq⟩ | ⟨p, hp, heq⟩
  · rw [heq]
    exact ⟨ht, hm⟩
  · obtain ⟨hmodes, hparser⟩ := Prod.mk.inj (Deaf.of_drawn (.print { t with parser := p } hno))
    rw [heq, hparser]
    exact ⟨hp, hmodes.trans hm⟩

theorem mute_text {cs : List Char} (h : ∀ c ∈ cs, Utf8.Plain c ∧ ¬ (0x80 ≤ c.toNat ∧ c.toNat < 0xA0)) :
    Mute γ (encode cs) := by
  induction cs with
  | nil => exact .nil
  | cons c cs ih =>
    obtain ⟨hc, hcs⟩ := forall_mem_cons.mp h
    rw [encode_cons]
    exact (mute_char hc.1 hc.2).append (ih hcs)

/-- **A command** that leaves the modes. -/
theorem mute_osc {code : ℕ} (hcode : parseU16 (digits code) = some code) {rest : List UInt8}
    (hrest : ∀ b ∈ rest, 0x20 ≤ b.toNat) (h : ∀ (t : Terminal γ) text bel, Deaf t (t.oscCommand code text bel)) :
    Mute γ (oscBel (decimal code ++ byte ';' :: rest)) ∧ Mute γ (oscSt (decimal code ++ byte ';' :: rest)) := by
  have hbody := @not_endsOsc_code code rest fun b hb => not_endsOsc (hrest b hb)
  have hdispatch (t : Terminal γ) (bel : Bool) :
      Deaf t (t.oscDispatch (payload (decimal code ++ byte ';' :: rest)) bel) := by
    rw [payload_code, oscDispatch_code t hcode]
    exact h t _ bel
  constructor
  · intro m t ht hm
    obtain ⟨p, hp, heq⟩ := process_oscBel ht hbody
    rw [heq]
    obtain ⟨hmodes, hparser⟩ := Prod.mk.inj (hdispatch { t with parser := p } true)
    split
    · rw [hparser]
      exact ⟨hp, hmodes.trans hm⟩
    · exact ⟨hp, hm⟩
  · intro m t ht hm
    obtain ⟨p, q, hp, heq⟩ := process_oscSt ht hbody
    rw [heq]
    refine ⟨hp, ?_⟩
    split
    · exact (Prod.mk.inj (hdispatch { t with parser := q } false)).1.trans hm
    · exact hm

theorem mute_link {uri : List Char} (huri : ∀ c ∈ uri, Utf8.Plain c) : Mute γ (linkSeq uri) :=
  (@mute_osc γ _ 8 (by decide) (byte ';' :: encode uri)
    (forall_mem_cons.mpr ⟨by decide, encode_plain huri⟩) fun t text _ =>
      show Deaf t (t.oscHyperlink text) from .oscHyperlink t text).2

/-! ### Switches -/

/-- What a private mode does to the input modes. -/
def InputModes.flag (n : ℕ) (set : Bool) (m : InputModes) : InputModes :=
  if n = 1 then { m with appCursorKeys := set }
  else if n = 5 then { m with reverseVideo := set }
  else if n = 2004 then { m with bracketedPaste := set }
  else if n = 1004 then { m with focusReporting := set }
  else if n = 1007 then { m with alternateScroll := set }
  else if n ∈ [9, 1000, 1002, 1003] then { m with mouseMode := if set then n else 0 }
  else if n ∈ [1005, 1006, 1016] then { m with mouseEncoding := if set then n else 0 }
  else m

/-- The private modes that a frame switches. -/
def frameFlags : List ℕ := [1, 5, 9, 25, 1000, 1002, 1003, 1004, 1005, 1006, 1007, 1016, 2004]

variable {n : ℕ} {t : Terminal γ}

theorem leads_flag (hn : n ∈ frameFlags) (set : Bool) (m : InputModes) :
    Leads γ m (if set then decset n else decrst n) (InputModes.flag n set m) := by
  have hflag : ∀ n ∈ frameFlags, IsFlag n := by decide
  refine .of_reads (fun p hp => reads_flag hp (hflag n hn).1 set) fun t ht => ?_
  rw [dispatch_flag (hflag n hn), ← ht]
  simp only [frameFlags, mem_cons, not_mem_nil, or_false] at hn
  rcases hn with rfl | rfl | rfl | rfl | rfl | rfl | rfl | rfl | rfl | rfl | rfl | rfl | rfl <;>
    cases set <;> rfl

theorem mute_cursorFlag (set : Bool) : Mute γ (if set then decset 25 else decrst 25) :=
  fun m => leads_flag (by decide) set m

/-! ### The picture -/

variable (γ) in
/-- What was added leaves the input modes. -/
def Adds (fr fr' : FrameState) : Prop := ∃ bytes, fr'.out = fr.out ++ bytes ∧ Mute γ bytes

namespace Adds

theorem refl (fr : FrameState) : Adds γ fr fr := ⟨[], (List.append_nil _).symm, .nil⟩

theorem trans (h : Adds γ fr fr') (h' : Adds γ fr' fr'') : Adds γ fr fr'' := by
  obtain ⟨xs, hxs, hx⟩ := h
  obtain ⟨ys, hys, hy⟩ := h'
  exact ⟨xs ++ ys, by rw [hys, hxs, append_assoc], hx.append hy⟩

theorem ite {c : Prop} [Decidable c] (h : Adds γ fr fr') (h' : Adds γ fr fr'') :
    Adds γ fr (if c then fr' else fr'') := by
  split
  · exact h
  · exact h'

theorem append (fr : FrameState) (h : Mute γ xs) : Adds γ fr (fr.append xs) := ⟨xs, rfl, h⟩

theorem updateStyle (fr : FrameState) (style : Style) (force : Bool) : Adds γ fr (fr.updateStyle style force) :=
  ite ⟨_, rfl, mute_sgr style⟩ (refl fr)

theorem updateLink (fr : FrameState) {uri : List Char} (huri : ∀ c ∈ uri, Utf8.Plain c) (force : Bool) :
    Adds γ fr (fr.updateLink uri force) := ite ⟨_, rfl, mute_link huri⟩ (refl fr)

theorem appendMove (fr : FrameState) (y x : ℕ) : Adds γ fr (fr.appendMove y x) := by
  rw [FrameState.appendMove]
  refine ite ?_ (ite ⟨_, rfl, mute_back.replicate _⟩ ⟨_, rfl, mute_cup _ _⟩)
  split
  · exact ⟨_, append_assoc .., mute_return.append (mute_feed.replicate _)⟩
  · exact ⟨_, rfl, mute_feed.replicate _⟩

theorem appendSilentMove (fr : FrameState) (y x : ℕ) : Adds γ fr (fr.appendSilentMove y x) := by
  rw [FrameState.appendSilentMove]
  refine ite (refl fr) ?_
  dsimp only
  split
  · have hhidden := appendMove (γ := γ) { fr.append (decrst 25) with cursorVisible := false } y x
    exact trans ⟨_, rfl, mute_cursorFlag false⟩ hhidden
  · exact appendMove fr y x

end Adds

theorem mute_spaces (n : ℕ) : Mute γ (List.replicate n (byte ' ')) :=
  Mute.replicate (mute_char (c := ' ') (by decide) (by decide)) n

theorem mute_cellText {cell : Cell} (h : Printed cell) : Mute γ (FrameState.cellText cell) := by
  refine mute_text (forall_mem_cons.mpr ⟨?_, fun m hm => ⟨(h.extra m hm).plain, (h.extra m hm).not_c1⟩⟩)
  split
  · decide
  · rename_i hnul
    have hw : wcwidth cell.ch ≠ 0 := fun h0 => hnul (h.spacer (h.width.trans h0))
    exact ⟨plain_of_wcwidth hw, not_c1_of_wcwidth hw⟩

theorem printed_blank : Printed blankCell := ⟨by decide +kernel, by decide, forall_mem_nil _⟩

omit [GraphicsStore γ] in
theorem printed_getD (hf : f.Sound) (y x : ℕ) : Printed ((f.cells.getD y []).getD x blankCell) := by
  rw [List.getD_eq_getElem?_getD]
  cases hcell : (f.cells.getD y [])[x]? with
  | none => exact printed_blank
  | some cell =>
    have hmem := List.mem_of_getElem? hcell
    rw [List.getD_eq_getElem?_getD] at hmem
    cases hrow : f.cells[y]? with
    | none => rw [hrow] at hmem; cases hmem
    | some row =>
      rw [hrow] at hmem
      exact hf.printed row (List.mem_of_getElem? hrow) cell hmem

omit [GraphicsStore γ] in
/-- The keyboard flags of a terminal's picture are known ones. -/
theorem Snapshot.known_fromTerm {F : Frame} (h : t.Sound F) :
    (fromTerm t).kittyKeyboardFlags &&& 0x1f = (fromTerm t).kittyKeyboardFlags := by
  have hflags (k : KittyKeyStack) (hk : k.Sound) : k.flags &&& 0x1f = k.flags := by
    rw [KittyKeyStack.flags]
    cases hlast : k.stack.getLast? with
    | none => rfl
    | some flags => exact hk.known flags (List.mem_of_getLast? hlast)
  have hstack : t.kittyStack.Sound := by
    rw [kittyStack]
    split
    · exact h.kittyAlt
    · exact h.kittyPrimary
  exact hflags _ hstack

omit [GraphicsStore γ] in
/-- An empty picture is sound. -/
theorem Snapshot.sound_blank {rows cols : ℕ} (hrows : rows ≤ 65535) (hcols : cols ≤ 65535) :
    (blank rows cols).Sound where
  rows_pos := lt_max_of_lt_right Nat.one_pos
  rows_le := max_le hrows (by decide)
  cols_pos := lt_max_of_lt_right Nat.one_pos
  cols_le := max_le hcols (by decide)
  height := List.length_replicate
  width row hrow := by rw [List.eq_of_mem_replicate hrow]; exact List.length_replicate
  printed row hrow c hc := by
    rw [List.eq_of_mem_replicate hrow] at hc
    rw [List.eq_of_mem_replicate hc]
    exact printed_blank
  wrapped := List.length_replicate
  cursorRow := lt_max_of_lt_right Nat.one_pos
  cursorCol := lt_max_of_lt_right Nat.one_pos
  title := forall_mem_nil _
  kinds := List.forall_mem_singleton.mpr (by decide)
  uris := forall_mem_nil _
  mouseMode := List.mem_cons_self
  mouseEncoding := List.mem_cons_self

section

variable (hf : f.Sound) (y : ℕ)

include hf

theorem adds_toBlanks (s : RowScan) : Adds γ s.fr (s.toBlanks f y) :=
  ((Adds.appendSilentMove ..).trans (.updateStyle ..)).trans (.updateLink _ (hf.linkUri _) _)

theorem adds_flushBlanks (s : RowScan) : Adds γ s.fr (s.flushBlanks f y).fr := by
  rw [RowScan.flushBlanks]
  refine (adds_toBlanks hf y s).trans (.ite (.append _ ?_) ⟨_, rfl, mute_spaces _⟩)
  refine mute_csi (decimal_params _) (by decide) fun t params => ?_
  exact show Deaf t (t.eraseChars _) from (Deaf.modifyScr t _).trans rfl

theorem adds_drawCell (rowWrap : Bool) {cell : Cell} (h : Printed cell) (s : RowScan) :
    Adds γ s.fr (s.drawCell f y rowWrap cell).fr := by
  rw [RowScan.drawCell]
  dsimp only
  generalize hfr : (if rowWrap = true ∧ s.frameX + cellWidth cell ≥ f.cols then _ else s.fr : FrameState) = fr
  have hstart : Adds γ s.fr fr := hfr ▸ .ite (.refl s.fr) (.refl s.fr)
  have hpen := ((hstart.trans (.appendSilentMove fr y s.frameX)).trans (.updateStyle _ cell.style false)).trans
    (.updateLink _ (hf.linkUri cell.hyperlink) false)
  exact hpen.trans ⟨_, rfl, mute_cellText h⟩

theorem adds_scanCell (rowWrap : Bool) (oldCells : List Cell) (s : RowScan) :
    Adds γ s.fr (s.scanCell f y init rowWrap (f.cells.getD y []) oldCells).fr := by
  have hcell := printed_getD hf y s.frameX
  rw [RowScan.scanCell]
  dsimp only
  split
  · split
    · exact .refl s.fr
    · split
      · exact .refl s.fr
      · generalize hs' : (if ((f.cells.getD y []).getD s.frameX blankCell).isBlank ∧ s.clearCount = 0 then
          { s with blankStyle := ((f.cells.getD y []).getD s.frameX blankCell).style
                   blankLink := ((f.cells.getD y []).getD s.frameX blankCell).hyperlink }
          else s : RowScan) = s'
        have hsame : s'.fr = s.fr ∧ s'.frameX = s.frameX := by
          rw [← hs']
          split <;> exact ⟨rfl, rfl⟩
        rw [← hsame.1]
        split
        · exact .refl s'.fr
        · split
          · split
            · exact adds_flushBlanks hf y s'
            · exact (adds_flushBlanks hf y s').trans (adds_drawCell hf y rowWrap hcell _)
          · exact adds_drawCell hf y rowWrap hcell s'
  · exact .refl s.fr

theorem adds_endBlanks (rowWrap : Bool) (s : RowScan) : Adds γ s.fr (s.endBlanks f y rowWrap).fr := by
  rw [RowScan.endBlanks]
  split
  · dsimp only
    split
    · refine (adds_toBlanks hf y s).trans (.append _ ?_)
      refine mute_csi (forall_mem_nil _) (by decide) fun t params => ?_
      exact show Deaf t (t.eraseLine _ false) from .eraseLine t _ false
    · exact (adds_toBlanks hf y s).trans ⟨_, rfl, mute_spaces _⟩
  · exact .refl s.fr

theorem adds_putRow (oldCells : List Cell) (fr : FrameState) (wrap : Bool) :
    Adds γ fr (putRow init f y oldCells fr wrap).1 := by
  have hscan (rowWrap : Bool) (n : ℕ) (s : RowScan) : Adds γ s.fr
      ((fun s : RowScan => s.scanCell f y init rowWrap (f.cells.getD y []) oldCells)^[n] s).fr := by
    induction n generalizing s with
    | zero => exact .refl s.fr
    | succ n ih => exact (adds_scanCell hf y rowWrap oldCells s).trans (ih _)
  rw [putRow]
  dsimp only
  generalize hs : (if wrap = true then forceFirst f (f.cells.getD y []) fr else _ : RowScan) = s
  have hstart : Adds γ fr s.fr := by
    rw [← hs]
    split
    · exact ((Adds.updateStyle fr _ false).trans (.updateLink _ (hf.linkUri _) false)).trans
        ⟨_, rfl, mute_cellText (printed_getD hf y 0)⟩
    · exact .refl fr
  have hrow := (hstart.trans (hscan (f.wrapped.getD y false) f.cols s)).trans
    (adds_endBlanks hf y (f.wrapped.getD y false) _)
  split
  · split
    · exact hrow
    · exact hrow.trans ⟨_, rfl, mute_return.append mute_feed⟩
  · exact hrow

theorem adds_putRows (rows : List (List Cell)) (first : ℕ) (fr : FrameState) :
    Adds γ fr (putRows init f rows first fr) := by
  rw [putRows]
  generalize List.range' first (f.rows - first) = ys
  suffices h : ∀ s : FrameState × Bool, Adds γ s.1 (ys.foldl
      (fun s y => putRow init f y (rows.getD y []) s.1 s.2) s).1 from h (fr, false)
  induction ys with
  | nil => exact fun s => .refl s.1
  | cons y ys ih => exact fun s => (adds_putRow hf y _ s.1 s.2).trans (ih _)

omit hf in
theorem adds_scrollOut (height n k : ℕ) (fr : FrameState) : Adds γ fr (scrollOut height n k fr) := by
  rw [scrollOut]
  dsimp only
  have hpen := (Adds.updateStyle (γ := γ) fr {} true).trans (.updateLink _ (forall_mem_nil _) true)
  split
  · exact hpen.trans ⟨_, append_assoc .., mute_return.append (mute_feed.replicate n)⟩
  · generalize (fr.updateStyle {} true).updateLink [] true = pen at hpen ⊢
    have hregion : Adds γ pen { pen.append (csi (numbers [1, n + k - 1 + 1]) 'r') with x := -1, y := -1 } :=
      ⟨_, rfl, mute_region (numbers_params 1 [n + k - 1 + 1])⟩
    exact ((hpen.trans hregion).trans (.appendSilentMove _ (n + k - 1) 0)).trans
      ⟨_, append_assoc .., (mute_feed.replicate n).append (mute_region (forall_mem_nil _))⟩

omit hf in
theorem adds_settle (fr : FrameState) : Adds γ fr (settle init f fr) := by
  rw [settle]
  dsimp only
  generalize hmoved : (if !init ∨ fr.y ≠ f.cursorRow ∨ fr.x ≠ f.cursorCol then
    fr.appendMove f.cursorRow f.cursorCol else fr) = moved
  have hmove : Adds γ fr moved := hmoved ▸ .ite (.appendMove fr _ _) (.refl fr)
  refine ((hmove.trans (.ite ?_ (.refl moved))).trans (.updateStyle _ _ _)).trans
    (.updateLink _ (forall_mem_nil _) _)
  exact ⟨_, rfl, mute_cursorFlag f.cursorVisible⟩

/-- **The picture leaves the input modes**: they are decided by what comes before it and after it. -/
theorem newFrameOpt_parts (allow : Bool) : ∃ picture, Mute γ picture ∧
    newFrameOpt init last f wheel lastWheel allow =
      leadOut init last f ++ picture ++ modesOut (startFrame init last f).1 last f wheel lastWheel := by
  have hstart : ∃ picture, Mute γ picture ∧ (startFrame init last f).2.out = leadOut init last f ++ picture := by
    rw [startFrame]
    dsimp only
    split
    · refine ⟨_, ?_, rfl⟩
      refine .append (.append (.append (.append ?_ ?_) ?_) ?_) (mute_cursorFlag false)
      · exact mute_region (forall_mem_nil _)
      · exact mute_csi (decimal_params 0) (by decide) fun t params => show Deaf t (t.sgr params) from .ite rfl rfl
      · exact mute_csi (forall_mem_nil _) (by decide) fun t _ => show Deaf t (t.moveTo _ _) from rfl
      · refine mute_csi (decimal_params 2) (by decide) fun t params => ?_
        exact show Deaf t (t.eraseDisplay _ false) from .trans (.modifyScr t.cancelWrap _) rfl
    · exact ⟨[], .nil, (List.append_nil _).symm⟩
  obtain ⟨cleared, hcleared, hout⟩ := hstart
  rw [newFrameOpt]
  generalize startFrame init last f = start at hout ⊢
  dsimp only
  have hscroll : Adds γ start.2 (if (scrollPlan start.1 last f allow).2 > 0 then scrollOut f.rows
      (scrollPlan start.1 last f allow).1 (scrollPlan start.1 last f allow).2 start.2 else start.2) :=
    .ite (adds_scrollOut _ _ _ _) (.refl _)
  obtain ⟨drawn, heq, hdrawn⟩ := (hscroll.trans (adds_putRows hf (scrolledRows start.1 last f allow)
    (scrollPlan start.1 last f allow).2 _)).trans (@adds_settle γ _ f start.1 _)
  refine ⟨cleared ++ drawn, hcleared.append hdrawn, ?_⟩
  rw [heq, hout]
  simp only [append_assoc]

end

/-! ### What is written of the modes -/

/-- A switch is written when it changes, and when it is not known. -/
theorem leads_switch (hn : n ∈ frameFlags) {set was : Bool}
    (h : init = true → InputModes.flag n was m = m) : Leads γ m
      (if !init ∨ set ≠ was then if set then decset n else decrst n else []) (InputModes.flag n set m) :=
  .changed (leads_flag hn set m) fun hi hset => hset ▸ h hi

theorem leads_leadOut (hf : f.Sound) (h : init = true → m.reverseVideo = last.reverseVideo) :
    Leads γ m (leadOut init last f) { m with reverseVideo := f.reverseVideo } := by
  have htitle : Mute γ (oscBel (decimal 0 ++ byte ';' :: encode f.title)) :=
    (@mute_osc γ _ 0 (by decide) _ (encode_plain hf.title) fun _ _ _ => rfl).1
  have hcopy : Mute γ (oscSt (decimal 52 ++ byte ';' :: encode f.clipboardKinds ++
      byte ';' :: Base64.encode f.clipboard)) := by
    rw [append_assoc, List.cons_append]
    refine (@mute_osc γ _ 52 (by decide) _ (fun b hb => ?_) fun t text bel => Deaf.oscClipboard t text bel).2
    rcases List.mem_append.mp hb with hb | hb
    · exact encode_plain hf.kinds b hb
    · rcases mem_cons.mp hb with rfl | hb
      · decide
      · exact (Base64.encode_ascii _ b hb).1
  have hbell : Mute γ [0x07] := mute_control (by decide) (by decide) fun _ => rfl
  refine Leads.append (Leads.append (Leads.append (Mute.ite (fun _ => htitle) (fun _ => .nil) m)
    (Mute.ite (fun _ => hbell) (fun _ => .nil) m)) (Mute.ite (fun _ => hcopy) (fun _ => .nil) m)) ?_
  exact @leads_switch γ _ m init 5 (by decide) f.reverseVideo last.reverseVideo fun hi => h hi ▸ rfl

theorem leads_keypad (h : init = true → m.appKeypad = last.appKeypad) : Leads γ m
    (if !init ∨ f.appKeypad ≠ last.appKeypad then if f.appKeypad then escSeq [] '=' else escSeq [] '>' else [])
    { m with appKeypad := f.appKeypad } := by
  refine .changed ?_ fun hi hset => by rw [hset, ← h hi]
  cases f.appKeypad with
  | true => exact .of_reads (fun p hp => reads_esc hp (by decide) (by decide)) fun t ht => ht ▸ rfl
  | false => exact .of_reads (fun p hp => reads_esc hp (by decide) (by decide)) fun t ht => ht ▸ rfl

theorem leads_kitty (hknown : f.kittyKeyboardFlags &&& 0x1f = f.kittyKeyboardFlags)
    (h : init = true → m.kittyKeyboardFlags = last.kittyKeyboardFlags) : Leads γ m
      (if !init ∨ f.kittyKeyboardFlags ≠ last.kittyKeyboardFlags then
        csi (byte '=' :: numbers [f.kittyKeyboardFlags.toNat, 1]) 'u' else [])
      { m with kittyKeyboardFlags := f.kittyKeyboardFlags } := by
  have hlt := f.kittyKeyboardFlags.toNat_lt
  refine .changed ?_ fun hi hset => by rw [hset, ← h hi]
  refine @Leads.of_reads γ _ _ _ _ (.csi [[f.kittyKeyboardFlags.toNat], [1]] [] (byte '=') (byte 'u'))
    (fun p hp => reads_csi_marked_numbers hp (by decide) (by omega)
      (List.forall_mem_singleton.mpr (by decide)) (show 1 < maxParams by decide) (by decide)) fun t ht => ?_
  have hset : dispatch t (.csi [[f.kittyKeyboardFlags.toNat], [1]] [] (byte '=') (byte 'u')) =
      t.modifyKittyStack fun k => k.set (UInt8.ofNat f.kittyKeyboardFlags.toNat) 1 := rfl
  have hflags (k : KittyKeyStack) : (k.set f.kittyKeyboardFlags 1).flags = f.kittyKeyboardFlags := by
    rw [KittyKeyStack.set, KittyKeyStack.flags, List.getLast?_concat]
    exact hknown
  rw [hset, UInt8.ofNat_toNat, ← ht, modifyKittyStack]
  cases hactive : t.altActive with
  | true => simp [inputModes, kittyStack, hactive, hflags]
  | false => simp [inputModes, kittyStack, hactive, hflags]

/-! ### The mouse -/

theorem leads_mouseMode (hn : n ∈ [9, 1000, 1002, 1003]) (m : InputModes) :
    Leads γ m (decset n) { m with mouseMode := n } ∧ Leads γ m (decrst n) { m with mouseMode := 0 } := by
  have hmem : n ∈ frameFlags := by
    simp only [frameFlags, mem_cons, not_mem_nil, or_false] at hn ⊢
    tauto
  have hflag (set : Bool) : InputModes.flag n set m = { m with mouseMode := if set then n else 0 } := by
    simp only [mem_cons, not_mem_nil, or_false] at hn
    rcases hn with rfl | rfl | rfl | rfl <;> rfl
  exact ⟨hflag true ▸ leads_flag hmem true m, hflag false ▸ leads_flag hmem false m⟩

theorem leads_mouseEncoding (hn : n ∈ [1005, 1006, 1016]) (m : InputModes) :
    Leads γ m (decset n) { m with mouseEncoding := n } ∧ Leads γ m (decrst n) { m with mouseEncoding := 0 } := by
  have hmem : n ∈ frameFlags := by
    simp only [frameFlags, mem_cons, not_mem_nil, or_false] at hn ⊢
    tauto
  have hflag (set : Bool) : InputModes.flag n set m = { m with mouseEncoding := if set then n else 0 } := by
    simp only [mem_cons, not_mem_nil, or_false] at hn
    rcases hn with rfl | rfl | rfl <;> rfl
  exact ⟨hflag true ▸ leads_flag hmem true m, hflag false ▸ leads_flag hmem false m⟩

/-- The wheel is reported where the application asks for nothing. -/
def Snapshot.wantWheel (f : Snapshot) (wheel : Bool) : Bool := f.mouseMode = 0 && wheel

/-- A change that has something written of the mouse. -/
abbrev Fires (init : Bool) (was is : ℕ) (lastWant want : Bool) : Prop := !init ∨ is ≠ was ∨ want ≠ lastWant

theorem leads_mouseModeSync (hl : last.Sound) (hf : f.Sound) (want lastWant : Bool)
    (hwant : want = true → f.mouseMode = 0)
    (h : init = true → m.mouseMode = if lastWant then 1000 else last.mouseMode) :
    Leads γ m (mouseModeSync init last f want lastWant) { m with
        mouseMode := if want then 1000 else f.mouseMode
        mouseEncoding :=
          if Fires init last.mouseMode f.mouseMode lastWant want ∧ want then 1006 else m.mouseEncoding } := by
  rw [mouseModeSync]
  split
  case isTrue hfires =>
    split
    case isTrue hzero =>
      have hoff (m : InputModes) (n : ℕ) (hn : n ∈ [9, 1000, 1002, 1003]) := (leads_mouseMode (γ := γ) hn m).2
      cases want with
      | true =>
        rw [if_pos rfl, if_pos rfl, if_pos ⟨hfires, rfl⟩]
        exact ((((hoff _ 1003 (by decide)).append (hoff _ 1002 (by decide))).append
          (hoff _ 9 (by decide))).append (leads_mouseMode (by decide) _).1).append
          (leads_mouseEncoding (by decide) _).1
      | false =>
        rw [if_neg Bool.false_ne_true, if_neg Bool.false_ne_true, if_neg (fun hno => Bool.false_ne_true hno.2),
          hzero]
        exact (((hoff _ 1003 (by decide)).append (hoff _ 1002 (by decide))).append
          (hoff _ 1000 (by decide))).append (hoff _ 9 (by decide))
    case isFalse hmode =>
      have hno : want = false := by
        cases want with
        | true => exact absurd (hwant rfl) hmode
        | false => rfl
      have hmem (g : Snapshot) (hg : g.Sound) (hz : g.mouseMode ≠ 0) : g.mouseMode ∈ [9, 1000, 1002, 1003] :=
        (mem_cons.mp hg.mouseMode).resolve_left hz
      rw [hno, if_neg Bool.false_ne_true, if_neg fun hno : _ ∧ false = true => Bool.false_ne_true hno.2]
      have hset (m : InputModes) := (leads_mouseMode (γ := γ) (hmem f hf hmode) m).1
      split
      case isTrue hlast => exact (leads_mouseMode (hmem last hl hlast.2) m).2.append (hset _)
      case isFalse => exact hset m
  case isFalse hquiet =>
    have hsame : init = true ∧ f.mouseMode = last.mouseMode ∧ want = lastWant := by simpa [Fires] using hquiet
    have hkept : (if want then 1000 else f.mouseMode) = m.mouseMode := by rw [h hsame.1, hsame.2.1, hsame.2.2]
    rw [hkept, if_neg fun hno : _ ∧ want = true => hquiet hno.1]
    exact .nil m

theorem leads_mouseEncodingSync (hl : last.Sound) (hf : f.Sound) (want lastWant : Bool) (m : InputModes) :
    Leads γ m (mouseEncodingSync init last f want lastWant) { m with
        mouseEncoding := if ¬ Fires init last.mouseEncoding f.mouseEncoding lastWant want then m.mouseEncoding
          else if f.mouseEncoding ≠ 0 then f.mouseEncoding else if want then m.mouseEncoding else 0 } := by
  have hmem (g : Snapshot) (hg : g.Sound) (hz : g.mouseEncoding ≠ 0) : g.mouseEncoding ∈ [1005, 1006, 1016] :=
    (mem_cons.mp hg.mouseEncoding).resolve_left hz
  rw [mouseEncodingSync]
  split
  case isTrue hfires =>
    split
    case isTrue hzero =>
      rw [if_neg (not_not.mpr hzero : ¬ f.mouseEncoding ≠ 0)]
      cases want with
      | true => exact .nil m
      | false =>
        exact ((leads_mouseEncoding (by decide) m).2.append (leads_mouseEncoding (by decide) _).2).append
          (leads_mouseEncoding (by decide) _).2
    case isFalse hcode =>
      have hset (m : InputModes) := (leads_mouseEncoding (γ := γ) (hmem f hf hcode) m).1
      split
      case isTrue hlast => exact (leads_mouseEncoding (hmem last hl hlast.2) m).2.append (hset _)
      case isFalse => exact hset m
  case isFalse => exact .nil m

/-- The input modes that a picture asks for: its own, but that the wheel is reported where it is wanted. -/
def Snapshot.wanted (f : Snapshot) (wheel : Bool) : InputModes :=
  if f.wantWheel wheel then { f.inputModes with mouseMode := 1000, mouseEncoding := 1006 } else f.inputModes

/-- Where the wheel is reported, the application has asked for no other encoding. -/
def Snapshot.SpeaksSgr (f : Snapshot) (wheel : Bool) : Prop :=
  f.wantWheel wheel = true → f.mouseEncoding = 0 ∨ f.mouseEncoding = 1006

instance (f : Snapshot) (wheel : Bool) : Decidable (f.SpeaksSgr wheel) := inferInstanceAs (Decidable (_ → _))

/-- The encoding that the modes of a frame leave, given the one before. -/
def encodingAfter (init : Bool) (last f : Snapshot) (want lastWant : Bool) (was : ℕ) : ℕ :=
  let shown := if Fires init last.mouseMode f.mouseMode lastWant want ∧ want then 1006 else was
  if ¬ Fires init last.mouseEncoding f.mouseEncoding lastWant want then shown
  else if f.mouseEncoding ≠ 0 then f.mouseEncoding else if want then shown else 0

/-- **What is written of the modes** makes them those of the picture, but for the mouse. -/
theorem leads_modesOut (hl : last.Sound) (hf : f.Sound)
    (hknown : f.kittyKeyboardFlags &&& 0x1f = f.kittyKeyboardFlags)
    (h : init = true → m = { last.wanted lastWheel with reverseVideo := f.reverseVideo }) :
    Leads γ { m with reverseVideo := f.reverseVideo } (modesOut init last f wheel lastWheel) { f.inputModes with
      mouseMode := if f.wantWheel wheel then 1000 else f.mouseMode
      mouseEncoding := encodingAfter init last f (f.wantWheel wheel) (last.wantWheel lastWheel) m.mouseEncoding } := by
  have hwas (hi : init = true) : m = { last.inputModes with
      reverseVideo := f.reverseVideo
      mouseMode := if last.wantWheel lastWheel then 1000 else last.mouseMode
      mouseEncoding := if last.wantWheel lastWheel then 1006 else last.mouseEncoding } := by
    rw [h hi, Snapshot.wanted]
    cases last.wantWheel lastWheel <;> rfl
  have hpaste := @leads_switch γ _ { m with reverseVideo := f.reverseVideo } init 2004 (by decide) f.bracketedPaste
    last.bracketedPaste fun hi => by rw [hwas hi]; rfl
  have hkeys := hpaste.append (@leads_switch γ _ _ init 1 (by decide) f.appCursorKeys last.appCursorKeys
    fun hi => by rw [hwas hi]; rfl)
  have hpad := hkeys.append (leads_keypad (f := f) fun hi : init = true => by rw [hwas hi]; rfl)
  have hmouse := hpad.append (leads_mouseModeSync hl hf (f.wantWheel wheel) (last.wantWheel lastWheel)
    (fun hwant => by simpa using (Bool.and_eq_true_iff.mp hwant).1) fun hi => by rw [hwas hi]; rfl)
  have hfocus := hmouse.append (@leads_switch γ _ _ init 1004 (by decide) f.focusReporting last.focusReporting
    fun hi => by rw [hwas hi]; rfl)
  have hscroll := hfocus.append (@leads_switch γ _ _ init 1007 (by decide) f.alternateScroll last.alternateScroll
    fun hi => by rw [hwas hi]; rfl)
  have hkitty := hscroll.append (leads_kitty hknown fun hi => by rw [hwas hi]; rfl)
  exact hkitty.append (leads_mouseEncodingSync hl hf (f.wantWheel wheel) (last.wantWheel lastWheel) _)

/-- **The encoding is the one that is wanted** exactly when the application has asked for no other. -/
theorem encodingAfter_iff {was : ℕ}
    (h : init = true → was = (last.wanted lastWheel).mouseEncoding ∧ last.SpeaksSgr lastWheel) :
    encodingAfter init last f (f.wantWheel wheel) (last.wantWheel lastWheel) was =
      (f.wanted wheel).mouseEncoding ↔ f.SpeaksSgr wheel := by
  have hwanted (g : Snapshot) (wheel : Bool) :
      (g.wanted wheel).mouseEncoding = if g.wantWheel wheel then 1006 else g.mouseEncoding := by
    rw [Snapshot.wanted]
    cases g.wantWheel wheel <;> rfl
  have hmode (g : Snapshot) {wheel : Bool} (hwant : g.wantWheel wheel = true) : g.mouseMode = 0 := by
    simpa using (Bool.and_eq_true_iff.mp hwant).1
  rw [hwanted] at h ⊢
  have hf := @hmode f wheel
  have hl := @hmode last lastWheel
  rw [Snapshot.SpeaksSgr] at h ⊢
  rw [encodingAfter]
  generalize f.wantWheel wheel = want at hf ⊢
  generalize last.wantWheel lastWheel = lastWant at h hl ⊢
  cases want <;> cases lastWant <;> cases init <;> simp [Fires] at h hf hl ⊢ <;> grind

/-- **The modes after a frame** of a terminal that shows another. -/
theorem leads_newFrameOpt (wheel : Bool) (hl : last.Sound) (hf : f.Sound)
    (hknown : f.kittyKeyboardFlags &&& 0x1f = f.kittyKeyboardFlags) (allow : Bool)
    (h : init = true → m = last.wanted lastWheel ∧ last.SpeaksSgr lastWheel) :
    ∃ m', Leads γ m (newFrameOpt init last f wheel lastWheel allow) m' ∧
      (m' = f.wanted wheel ↔ f.SpeaksSgr wheel) := by
  obtain ⟨picture, hpicture, heq⟩ := @newFrameOpt_parts γ _ last f init wheel lastWheel hf allow
  have hinit : (startFrame init last f).1 = true → init = true := by
    rw [startFrame]
    dsimp only
    split
    · exact fun hno => absurd hno Bool.false_ne_true
    · rename_i hc
      exact fun _ => by simpa using (not_or.mp hc).1
  have hlead := leads_leadOut (γ := γ) (m := m) hf fun hi : init = true => by
    rw [(h hi).1, Snapshot.wanted]
    split <;> rfl
  have hmodes := @leads_modesOut γ _ { m with reverseVideo := f.reverseVideo } last f (startFrame init last f).1 wheel
    lastWheel hl hf hknown fun hi => by rw [(h (hinit hi)).1]
  rw [heq]
  refine ⟨_, (hlead.append (hpicture _)).append hmodes, ?_⟩
  rw [← @encodingAfter_iff last f (startFrame init last f).1 wheel lastWheel m.mouseEncoding fun hi =>
    ⟨congrArg InputModes.mouseEncoding (h (hinit hi)).1, (h (hinit hi)).2⟩]
  refine ⟨congrArg InputModes.mouseEncoding, fun he => ?_⟩
  rw [he, Snapshot.wanted]
  cases f.wantWheel wheel <;> rfl

/-! ### A run of frames -/

/-- A run of frames: after each one the modes are those that its picture asks for. -/
def Follow (t : Terminal γ) (init : Bool) (last : Snapshot) (lastWheel : Bool) :
    List (Snapshot × Bool × Bool) → Prop
  | [] => True
  | (f, wheel, allow) :: rest =>
    (t.process (newFrameOpt init last f wheel lastWheel allow)).inputModes = f.wanted wheel ∧
      Follow (t.process (newFrameOpt init last f wheel lastWheel allow)) true f wheel rest

theorem follow_iff (frames : List (Snapshot × Bool × Bool)) (ht : t.parser.Rests) (hl : last.Sound)
    (hframes : ∀ e ∈ frames, e.1.Sound ∧ e.1.kittyKeyboardFlags &&& 0x1f = e.1.kittyKeyboardFlags)
    (h : init = true → t.inputModes = last.wanted lastWheel ∧ last.SpeaksSgr lastWheel) :
    Follow t init last lastWheel frames ↔ ∀ e ∈ frames, e.1.SpeaksSgr e.2.1 := by
  induction frames generalizing t init last lastWheel with
  | nil => exact iff_of_true trivial (forall_mem_nil _)
  | cons e frames ih =>
    obtain ⟨f, wheel, allow⟩ := e
    obtain ⟨⟨hf, hknown⟩, hrest⟩ := forall_mem_cons.mp hframes
    obtain ⟨m', hleads, hiff⟩ := leads_newFrameOpt (γ := γ) wheel hl hf hknown allow h
    obtain ⟨hrests, hmodes⟩ := hleads t ht rfl
    rw [Follow, hmodes, hiff, forall_mem_cons]
    refine and_congr_right fun hsgr => ih hrests hf hrest fun _ => ⟨?_, hsgr⟩
    rw [hmodes, hiff.mpr hsgr]

/-- **The input modes follow the session** over a run of frames exactly when no picture asks for another encoding
of the mouse while it asks for no mouse and the wheel is wanted. -/
theorem modes_follow_iff {rows cols : ℕ} (hrows : rows ≤ 65535) (hcols : cols ≤ 65535) (w₀ : Bool)
    (frames : List (Snapshot × Bool × Bool)) {t : Terminal γ} (ht : t.parser.Rests)
    (hframes : ∀ e ∈ frames, e.1.Sound ∧ e.1.kittyKeyboardFlags &&& 0x1f = e.1.kittyKeyboardFlags) :
    Follow t false (.blank rows cols) w₀ frames ↔ ∀ e ∈ frames, e.1.SpeaksSgr e.2.1 :=
  follow_iff frames ht (Snapshot.sound_blank hrows hcols) hframes fun hno => absurd hno Bool.false_ne_true

theorem modes_follow_narrow : Follow (narrow []) false (.blank 1 2) true
    [(.fromTerm (narrow []), true, true), (.fromTerm (narrow []), false, false)] := by
  obtain ⟨F, -, -, hs⟩ := good_run (γ := Unit) 1 2 0 [.process []]
  rw [← narrow] at hs
  have hrows : F.rows = 1 := hs.rows_eq ▸ (by decide +kernel)
  have hcols : F.cols = 2 := hs.cols_eq ▸ (by decide +kernel)
  refine (@modes_follow_iff Unit _ 1 2 (by decide) (by decide) true _ (narrow []) ⟨rfl, rfl⟩ fun e he => ?_).mpr ?_
  · have hshown : e.1 = .fromTerm (narrow []) := by
      simp only [List.mem_cons, List.not_mem_nil, or_false] at he
      rcases he with rfl | rfl <;> rfl
    rw [hshown]
    exact ⟨Snapshot.sound_fromTerm hs (by omega) (by omega), Snapshot.known_fromTerm hs⟩
  · decide +kernel

/-- The application asked for the encoding of UTF-8 and for no mouse: the wheel is reported in that encoding. -/
theorem modes_lost_utf8 : ¬ Follow (narrow []) false (.blank 1 2) true
    [(.fromTerm (narrow (decset 1005)), true, true)] :=
  fun h => absurd (congrArg InputModes.mouseEncoding h.1) (by decide +kernel)

end Render

end Posh.Term
