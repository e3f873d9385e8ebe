/-
**Replaying a dump: what each sequence does.**

A terminal at rest that reads a sequence carries out its action and rests again.  The sequences that
change the pen leave everything else that matters to drawing; the table of hyperlinks only grows, so what
is on the screen stays as it is.
-/

import Posh.Term.Canvas
import Posh.Term.Dump
import Posh.Term.Reached
import Posh.Term.SgrReads
import Posh.Term.Steady

set_option autoImplicit false

namespace Posh.Term.Terminal

open Posh.Term.Parser (Reads Rests)
open Posh.Term.Parser
open Utf8 (lossy)

variable {γ : Type} {f : Frame} {t t' u : Terminal γ} {link : Hyperlink}

/-! ### The code of a command -/

theorem splitOnce_append {c : Char} {front back : List Char} (h : c ∉ front) :
    splitOnce c (front ++ c :: back) = some (front, back) := by
  induction front with
  | nil => rw [List.nil_append, splitOnce, if_pos rfl]
  | cons x front ih =>
    rw [List.mem_cons, not_or] at h
    rw [List.cons_append, splitOnce, if_neg fun heq => h.1 heq.symm, ih h.2]
    rfl

/-- The digits of a number as text. -/
def digits (n : ℕ) : List Char := (decimal n).map fun b => Utf8.scalar b.toNat

theorem not_mem_digits (n : ℕ) {c : Char} (hc : c.toNat < 0x30 ∨ 0x39 < c.toNat) : c ∉ digits n := by
  intro hmem
  obtain ⟨b, hb, rfl⟩ := List.mem_map.mp hmem
  have hd := decimal_digits n b hb
  rw [Utf8.toNat_scalar (.inl (by omega))] at hc
  omega

/-- A command with a code. -/
theorem oscDispatch_code (t : Terminal γ) {code : ℕ} (hcode : parseU16 (digits code) = some code)
    (rest : List UInt8) (bel : Bool) :
    t.oscDispatch (decimal code ++ byte ';' :: rest) bel = t.oscCommand code (lossy rest) bel := by
  have hsemi : lossy (byte ';' :: rest) = ';' :: lossy rest :=
    Utf8.lossy_cons_ascii (by decide) rest
  have htext : lossy (decimal code ++ byte ';' :: rest) = digits code ++ ';' :: lossy rest := by
    rw [Utf8.lossy_ascii_append (decimal_ascii code), hsemi, digits]
  have hparts : oscParts (decimal code ++ byte ';' :: rest) = (digits code, lossy rest) := by
    rw [oscParts, htext, splitOnce_append (not_mem_digits code (by decide))]
    rfl
  rw [oscDispatch, hparts]
  dsimp only
  rw [hcode]

theorem payload_code (code : ℕ) (rest : List UInt8) :
    payload (decimal code ++ byte ';' :: rest) = decimal code ++ byte ';' :: payload rest := by
  have hdigits : payload (decimal code) = decimal code :=
    payload_eq_self fun b hb => by have := decimal_digits code b hb; omega
  rw [payload, List.filter_append, List.filter_cons, if_pos (by decide)]
  exact congrArg (· ++ _) hdigits

theorem not_endsOsc_code {code : ℕ} {rest : List UInt8} (h : ∀ b ∈ rest, ¬ Parser.EndsOsc b) :
    ∀ b ∈ decimal code ++ byte ';' :: rest, ¬ Parser.EndsOsc b := by
  rw [List.forall_mem_append, List.forall_mem_cons]
  refine ⟨fun b hb => not_endsOsc ?_, by decide, h⟩
  have := decimal_digits code b hb
  omega

/-! ### A change of the pen -/

/-- Sound, and between sequences. -/
structure Idle (f : Frame) (t : Terminal γ) : Prop where
  sound : t.Sound { f with parser := t.parser }
  rests : t.parser.Rests

theorem Idle.of_sound {p : Parser} (h : u.Sound { f with parser := p }) (hp : p.Rests) : u.Idle f := by
  constructor
  · rw [h.parser]
    exact h
  · rw [h.parser]
    exact hp

theorem Idle.withParser (h : t.Idle f) (p : Parser) :
    Sound { f with parser := p } { t with parser := p } := { h.sound with parser := rfl }

/-- The cursor but for its pen. -/
def spot (t : Terminal γ) : CursorState := { t.cursor with style := {}, hyperlink := 0 }

/-- A change of the pen, which the table of hyperlinks may have grown for. -/
structure Repens (t t' : Terminal γ) : Prop where
  spot : t'.spot = t.spot
  scr : t'.scr = t.scr
  modes : t'.modes = t.modes
  scrollTop : t'.scrollTop = t.scrollTop
  scrollBot : t'.scrollBot = t.scrollBot
  tabs : t'.tabs = t.tabs
  shape : t'.cursorStyleRaw = t.cursorStyleRaw
  title : t'.title = t.title
  links : ∀ k, LinkIn t.hyperlinks k → t'.link k = t.link k

namespace Repens

variable {t'' : Terminal γ}

theorem row (h : Repens t t') : t'.cursor.row = t.cursor.row := by
  have hspot := congrArg CursorState.row h.spot
  exact hspot

theorem col (h : Repens t t') : t'.cursor.col = t.cursor.col := by
  have hspot := congrArg CursorState.col h.spot
  exact hspot

theorem pendingWrap (h : Repens t t') : t'.cursor.pendingWrap = t.cursor.pendingWrap := by
  have hspot := congrArg CursorState.pendingWrap h.spot
  exact hspot

end Repens

/-! ### Hyperlinks -/

theorem lookup_of_mem {links : List (ℕ × Hyperlink)} {next k : ℕ}
    (h : LinksSound links next) (hmem : (k, link) ∈ links) : links.lookup k = some link := by
  obtain ⟨front, back, heq⟩ := List.append_of_mem hmem
  refine List.lookup_eq_some_iff.mpr ⟨front, back, heq, fun e he => ?_⟩
  have hkeys := h.keys
  rw [heq, List.map_append, List.nodup_append] at hkeys
  have hne := hkeys.2.2 e.1 (List.mem_map_of_mem he) k (by simp)
  simpa [bne_iff_ne] using hne.symm

/-- The text of the command that opens a hyperlink. -/
def linkText (link : Hyperlink) : List Char :=
  (if link.id = [] then [] else ['i', 'd', '='] ++ link.id) ++ ';' :: link.uri

theorem linkText_plain (h : link.Sound) : ∀ c ∈ linkText link, Utf8.Plain c := by
  rw [linkText, List.forall_mem_append, List.forall_mem_cons]
  refine ⟨?_, by decide, h.uri⟩
  split
  · exact List.forall_mem_nil _
  · refine List.forall_mem_append.mpr ⟨?_, fun c hc => (h.id c hc).1⟩
    exact List.forall_mem_cons.mpr ⟨by decide, List.forall_mem_cons.mpr
      ⟨by decide, List.forall_mem_singleton.mpr (by decide)⟩⟩

theorem splitOnce_linkText (h : link.Sound) : ∃ params, splitOnce ';' (linkText link) = some (params, link.uri) ∧
      ((params.splitOn ':').findSome? (stripPrefix ['i', 'd', '='])).getD [] = link.id := by
  rw [linkText]
  by_cases hid : link.id = []
  · refine ⟨[], ?_, ?_⟩
    · rw [if_pos hid, splitOnce_append List.not_mem_nil]
    · rw [hid]
      rfl
  · refine ⟨['i', 'd', '='] ++ link.id, ?_, ?_⟩
    · rw [if_neg hid, splitOnce_append]
      intro hmem
      rcases List.mem_append.mp hmem with hmem | hmem
      · revert hmem
        decide
      · exact (h.id _ hmem).2.2 rfl
    · have hcolon : ':' ∉ ['i', 'd', '='] ++ link.id := by
        intro hmem
        rcases List.mem_append.mp hmem with hmem | hmem
        · revert hmem
          decide
        · exact (h.id _ hmem).2.1 rfl
      rw [List.splitOn_eq_singleton hcolon]
      rfl

/-- **A hyperlink is read back**: the cursor gets one with the same target. -/
theorem oscHyperlink_linkText (hlinks : LinksSound t.hyperlinks t.nextHyperlink) (h : link.Sound) :
    Repens t (t.oscHyperlink (linkText link)) ∧ (t.oscHyperlink (linkText link)).cursor.style = t.cursor.style ∧
      (t.oscHyperlink (linkText link)).link (t.oscHyperlink (linkText link)).cursor.hyperlink = some link.uri := by
  obtain ⟨params, hsplit, hid⟩ := splitOnce_linkText h
  rw [oscHyperlink, hsplit]
  dsimp only [Option.getD_some]
  rw [if_neg h.uri_ne, hid]
  cases hfind : t.hyperlinks.find? fun entry => entry.2.id = link.id ∧ entry.2.uri = link.uri with
  | some entry =>
    have hsame := List.find?_some hfind
    rw [decide_eq_true_eq] at hsame
    refine ⟨⟨rfl, rfl, rfl, rfl, rfl, rfl, rfl, rfl, fun _ _ => rfl⟩, rfl, ?_⟩
    have hlookup := lookup_of_mem hlinks (k := entry.1) (List.mem_of_find?_eq_some hfind)
    rw [Terminal.link]
    dsimp only
    rw [hlookup, Option.map_some, hsame.2]
  | none =>
    -- a number not used before
    have hold : ∀ k, LinkIn t.hyperlinks k → k ≠ t.nextHyperlink + 1 := by
      rintro k (rfl | hk)
      · exact (Nat.succ_ne_zero _).symm
      · obtain ⟨e, he, heq⟩ := List.lookup_isSome_iff.mp hk
        have hbound := (hlinks.bound e he).2
        rw [← beq_iff_eq.mp heq] at hbound
        omega
    have hfresh : t.hyperlinks.lookup (t.nextHyperlink + 1) = none := by
      by_contra hne
      exact hold _ (.inr (Option.isSome_iff_ne_none.mpr hne)) rfl
    refine ⟨⟨rfl, rfl, rfl, rfl, rfl, rfl, rfl, rfl, fun k hk => ?_⟩, rfl, ?_⟩
    · have hne : (k == t.nextHyperlink + 1) = false := beq_eq_false_iff_ne.mpr (hold k hk)
      rw [Terminal.link, Terminal.link]
      dsimp only
      rw [List.lookup_append, List.lookup_cons, hne]
      exact congrArg _ Option.or_none
    · rw [Terminal.link]
      dsimp only
      rw [List.lookup_append, hfresh, Option.none_or, List.lookup_cons, beq_self_eq_true]
      rfl

section

variable [GraphicsStore γ] {bytes : List UInt8} {body : List UInt8}

/-! ### Sequences -/

theorem process_quiet {q : Parser} (h : t.parser.run bytes = (q, [])) :
    t.process bytes = { t with parser := q } := by
  induction bytes generalizing t with
  | nil =>
    rw [run_nil, Prod.mk.injEq] at h
    rw [process_nil, ← h.1]
  | cons b bytes ih =>
    rw [run_cons, Prod.mk.injEq, List.append_eq_nil_iff] at h
    obtain ⟨hq, hfirst, hrest⟩ := h
    have hstep : t.processByte b = { t with parser := (t.parser.advance b).1 } := by
      rw [processByte, hfirst]
      rfl
    rw [process_cons, hstep]
    exact ih (t := { t with parser := (t.parser.advance b).1 }) (Prod.ext hq hrest)

/-- **A sequence is carried out.** -/
theorem process_reads {a : Action} (h : t.parser.Reads bytes a) :
    ∃ p, p.Rests ∧ t.process bytes = dispatch { t with parser := p } a := by
  obtain ⟨front, b, q, q', rfl, hfront, hlast, hrest⟩ := h.split
  refine ⟨q', hrest, ?_⟩
  rw [process_append, process_quiet hfront, process_cons, process_nil, processByte]
  dsimp only
  rw [hlast]
  rfl

theorem process_char (h : t.parser.Rests) {c : Char} (hc : Utf8.Plain c) :
    (c.toNat = 0x7F ∧ t.process (String.utf8EncodeChar c) = t) ∨ ∃ p : Parser, p.Rests ∧
        t.process (String.utf8EncodeChar c) = print { t with parser := p } c := by
  by_cases hdel : c.toNat = 0x7F
  · exact .inl ⟨hdel, process_quiet (run_del h hdel)⟩
  · obtain ⟨p, hp, heq⟩ := process_reads (reads_char h hc hdel)
    exact .inr ⟨p, hp, heq⟩

theorem process_control (h : t.parser.Rests) {b : UInt8} (hb : b.toNat ≤ 0x1F) (hesc : b ≠ 0x1B) :
    t.process [b] = t.execute b := by
  rw [process_cons, process_nil, processByte, h.advance, groundByte, if_neg hesc, if_pos hb]
  rfl

theorem process_oscBel (h : t.parser.Rests) (hbody : ∀ b ∈ body, ¬ Parser.EndsOsc b) :
    ∃ p, p.Rests ∧ t.process (oscBel body) = if (payload body).length ≤ maxOsc then
        oscDispatch { t with parser := p } (payload body) true
      else { t with parser := p } := by
  obtain ⟨q, hrun, hstate, hneed, hover, hbuf⟩ := run_osc h hbody
  have hend : q.advance 0x07 = q.finishOsc true := by
    rw [advance, hstate]
    rfl
  refine ⟨{ q with stringBuf := [], stringOverflow := false, state := .ground }, ⟨rfl, hneed⟩, ?_⟩
  have hbytes : oscBel body = (esc :: byte ']' :: body) ++ [0x07] := rfl
  rw [hbytes, process_append, process_quiet hrun, process_cons, process_nil, processByte]
  dsimp only
  rw [hend, finishOsc_collected hover hbuf]
  split
  · rfl
  · rfl

theorem process_oscSt (h : t.parser.Rests) (hbody : ∀ b ∈ body, ¬ Parser.EndsOsc b) :
    ∃ p q, p.Rests ∧ t.process (oscSt body) = { (if (payload body).length ≤ maxOsc then
          oscDispatch { t with parser := q } (payload body) false
        else t) with
        parser := p } := by
  obtain ⟨q, hrun, hstate, hneed, hover, hbuf⟩ := run_osc h hbody
  have hend : q.advance esc =
      ({ q with stringBuf := [], stringOverflow := false, state := .escape }, (q.finishOsc false).2) := by
    rw [advance, hstate]
    rfl
  generalize hq : ({ q with stringBuf := [], stringOverflow := false, state := .escape } : Parser) = q'
    at hend
  have hlast : q'.advance 0x5C = ({ q' with state := .ground }, [.esc [] 0x5C]) := by
    rw [← hq]
    rfl
  refine ⟨{ q' with state := .ground }, q', ⟨rfl, by rw [← hq]; exact hneed⟩, ?_⟩
  have hbytes : oscSt body = (esc :: byte ']' :: body) ++ [esc, 0x5C] := rfl
  have hquiet : ∀ v : Terminal γ, v.parser = q' →
      v.process [0x5C] = { v with parser := { q' with state := .ground } } := by
    intro v hv
    rw [process_cons, process_nil, processByte, hv, hlast]
    rfl
  have hfinish : Terminal.process { t with parser := q } [esc] =
      (q.finishOsc false).2.foldl dispatch { t with parser := q' } := by
    rw [process_cons, process_nil, processByte]
    dsimp only
    rw [hend]
  have htwo : [esc, (0x5C : UInt8)] = [esc] ++ [0x5C] := rfl
  rw [hbytes, process_append, process_quiet hrun, htwo, process_append, hfinish,
    finishOsc_collected hover hbuf]
  split
  · exact hquiet _ (Steady.oscDispatch { t with parser := q' } (payload body) false).parser
  · exact hquiet { t with parser := q' } rfl

/-! ### The parts of the pen -/

/-- What changes the pen: the style and the hyperlink after it are the last two arguments. -/
structure PenTo (f : Frame) (t t' : Terminal γ) (style : Style) (hyperlink : ℕ) : Prop where
  idle : t'.Idle f
  repens : Repens t t'
  style : t'.cursor.style = style
  hyperlink : t'.cursor.hyperlink = hyperlink

/-- **A style is read back**, but for the protection. -/
theorem Idle.sgrSeq (h : t.Idle f) (style : Style) :
    PenTo f t (t.process (sgrSeq style)) { style with isProtected := t.cursor.style.isProtected }
      t.cursor.hyperlink := by
  have hreads : t.parser.Reads (Posh.Term.sgrSeq style)
      (.csi ([0] :: sgrItems style) [] 0 (byte 'm')) := by
    rw [Posh.Term.sgrSeq, sgrParams_eq]
    exact reads_csi_items h.rests (by decide) (itemsFit_sgrItems style)
      (length_sgrItems_lt style) (by decide)
  obtain ⟨p, hp, heq⟩ := process_reads hreads
  have hpen := applySgr_sgrItems style t.cursor.style
  generalize [0] :: sgrItems style = params at heq hpen
  have hstep : t.process (Posh.Term.sgrSeq style) = sgr { t with parser := p } params := heq
  rw [hstep]
  refine ⟨.of_sound ((h.withParser p).sgr params) hp, ?_, ?_, ?_⟩
  · rw [sgr]
    split <;> exact ⟨rfl, rfl, rfl, rfl, rfl, rfl, rfl, rfl, fun _ _ => rfl⟩
  · rw [sgr]
    split <;> exact hpen
  · rw [sgr]
    split <;> rfl

end

end Posh.Term.Terminal
