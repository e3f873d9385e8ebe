/-
**The outer terminal.**

The bytes of a frame are read by a terminal whose margins are the whole screen and whose lines wrap.  Two
kinds of bytes are told apart: those that leave the screen, the cursor and the pen as they are, and those
that move the cursor, whatever they write on the way.
-/

import Posh.Term.ModeReads

set_option autoImplicit false

namespace Posh.Term.Terminal

open Utf8 (encode)
open Keeps (moved of_drawn)
open Utf8
open Posh.Term.Parser

variable {γ : Type} {f : Frame} {t t' t'' : Terminal γ}

/-! ### Places -/

structure Place where
  row : ℕ
  col : ℕ
  /-- it waits to wrap -/
  pending : Bool
  deriving DecidableEq, Repr

def place (t : Terminal γ) : Place := ⟨t.cursor.row, t.cursor.col, t.cursor.pendingWrap⟩

/-- A terminal between sequences, its margins the whole screen and its lines wrapping. -/
structure Outer (f : Frame) (t : Terminal γ) : Prop where
  idle : t.Idle f
  autowrap : t.modes.autowrap = true
  top : t.scrollTop = 0
  bot : t.scrollBot = f.rows - 1

namespace Outer

theorem withParser (h : t.Outer f) {p : Parser} (hp : p.Rests) :
    Outer f { t with parser := p } where
  idle := ⟨h.idle.withParser p, hp⟩
  autowrap := h.autowrap
  top := h.top
  bot := h.bot

theorem of_keeps (h : t.Outer f) (hk : Keeps t t') (hs : t'.Sound { f with parser := t.parser }) :
    t'.Outer f where
  idle := .of_sound hs h.idle.rests
  autowrap := by rw [hk.modes, h.autowrap]
  top := hk.scrollTop.trans h.top
  bot := hk.scrollBot.trans h.bot

theorem region_eq (h : t.Outer f) : t.region = (0, f.rows - 1) := by
  rw [h.idle.sound.region_eq, h.top, h.bot]

theorem row_lt (h : t.Outer f) : t.cursor.row < f.rows := h.idle.sound.row_lt

theorem rows_eq (h : t.Outer f) : t.rows = f.rows := h.idle.sound.rows_eq

theorem cols_eq (h : t.Outer f) : t.cols = f.cols := h.idle.sound.cols_eq

end Outer

/-! ### The hand -/

/-- What is drawn with: the pen, the charsets and whether characters are inserted. -/
structure SameHand (t t' : Terminal γ) : Prop where
  style : t'.cursor.style = t.cursor.style
  hyperlink : t'.cursor.hyperlink = t.cursor.hyperlink
  hyperlinks : t'.hyperlinks = t.hyperlinks
  insert : t'.modes.insert = t.modes.insert
  g0 : t'.cursor.g0 = t.cursor.g0
  g1 : t'.cursor.g1 = t.cursor.g1
  shift : t'.cursor.shift = t.cursor.shift

theorem SameHand.refl (t : Terminal γ) : SameHand t t := ⟨rfl, rfl, rfl, rfl, rfl, rfl, rfl⟩

theorem SameHand.trans (h : SameHand t t') (h' : SameHand t' t'') : SameHand t t'' :=
  ⟨h'.style.trans h.style, h'.hyperlink.trans h.hyperlink, h'.hyperlinks.trans h.hyperlinks,
    h'.insert.trans h.insert, h'.g0.trans h.g0, h'.g1.trans h.g1, h'.shift.trans h.shift⟩

theorem Keeps.sameHand (h : Keeps t t') : SameHand t t' :=
  ⟨h.style, h.hyperlink, h.hyperlinks, by rw [h.modes], h.g0, h.g1, h.shift⟩

/-! ### Bytes aside -/

/-- The screen, the cursor with its pen, and all that drawing depends on stay. -/
structure Aside (t t' : Terminal γ) : Prop where
  cursor : t'.cursor = t.cursor
  scr : t'.scr = t.scr
  hyperlinks : t'.hyperlinks = t.hyperlinks
  autowrap : t'.modes.autowrap = t.modes.autowrap
  insert : t'.modes.insert = t.modes.insert
  top : t'.scrollTop = t.scrollTop
  bot : t'.scrollBot = t.scrollBot

namespace Aside

theorem refl (t : Terminal γ) : Aside t t := ⟨rfl, rfl, rfl, rfl, rfl, rfl, rfl⟩

theorem trans (h : Aside t t') (h' : Aside t' t'') : Aside t t'' :=
  ⟨h'.cursor.trans h.cursor, h'.scr.trans h.scr, h'.hyperlinks.trans h.hyperlinks,
    h'.autowrap.trans h.autowrap, h'.insert.trans h.insert, h'.top.trans h.top, h'.bot.trans h.bot⟩

theorem place (h : Aside t t') : t'.place = t.place := by
  rw [Terminal.place, Terminal.place, h.cursor]

theorem outer (h : Aside t t') (ho : t.Outer f) (hi : t'.Idle f) : t'.Outer f :=
  ⟨hi, h.autowrap.trans ho.autowrap, h.top.trans ho.top, h.bot.trans ho.bot⟩

theorem sameHand (h : Aside t t') : SameHand t t' := by
  refine ⟨?_, ?_, h.hyperlinks, h.insert, ?_, ?_, ?_⟩ <;> rw [h.cursor]

end Aside

variable [GraphicsStore γ]

variable (γ f) in
/-- Bytes that concern neither the screen nor the cursor. -/
def Asides (bytes : List UInt8) : Prop :=
  ∀ t : Terminal γ, t.Idle f → (t.process bytes).Idle f ∧ Aside t (t.process bytes)

variable {xs ys : List UInt8}

namespace Asides

theorem nil : Asides γ f [] := fun t h => ⟨h, .refl t⟩

theorem append (h : Asides γ f xs) (h' : Asides γ f ys) : Asides γ f (xs ++ ys) := by
  intro t ht
  obtain ⟨hidle, haside⟩ := h t ht
  obtain ⟨hidle', haside'⟩ := h' _ hidle
  rw [process_append]
  exact ⟨hidle', haside.trans haside'⟩

theorem ite {c : Prop} [Decidable c] (h : c → Asides γ f xs) (h' : ¬ c → Asides γ f ys) :
    Asides γ f (if c then xs else ys) := by
  split
  case isTrue hc => exact h hc
  case isFalse hc => exact h' hc

theorem of_reads {a : Action} (hreads : ∀ p : Parser, p.Rests → p.Reads xs a)
    (h : ∀ (t : Terminal γ) (p : Parser), Sound { f with parser := p } t →
      Sound { f with parser := p } (t.dispatch a) ∧ Aside t (t.dispatch a)) : Asides γ f xs := by
  intro t ht
  obtain ⟨p, hp, heq⟩ := process_reads (hreads _ ht.rests)
  obtain ⟨hsound, haside⟩ := h { t with parser := p } p (ht.withParser p)
  rw [heq]
  exact ⟨.of_sound hsound hp, { haside with }⟩

end Asides

omit [GraphicsStore γ] in
theorem setMode_drawing (m : Modes) (n : ℕ) (set : Bool) :
    (setMode m n set).autowrap = m.autowrap ∧ (setMode m n set).insert = m.insert := by
  have hite : ∀ (c : Prop) [Decidable c] (a b : Modes), (a.autowrap = m.autowrap ∧ a.insert = m.insert) →
      (b.autowrap = m.autowrap ∧ b.insert = m.insert) →
      (if c then a else b).autowrap = m.autowrap ∧ (if c then a else b).insert = m.insert := by
    intro c _ a b ha hb
    split
    · exact ha
    · exact hb
  rw [setMode]
  iterate 19 refine hite _ _ _ ⟨rfl, rfl⟩ ?_
  exact ⟨rfl, rfl⟩

theorem asides_flag {n : ℕ} (hn : IsFlag n) (set : Bool) : Asides γ f (if set then decset n else decrst n) := by
  refine .of_reads (fun p hp => reads_flag hp hn.1 set) fun t p ht => ?_
  obtain ⟨hautowrap, hinsert⟩ := setMode_drawing t.modes n set
  rw [dispatch_flag hn]
  exact ⟨{ ht with }, ⟨rfl, rfl, rfl, hautowrap, hinsert, rfl, rfl⟩⟩

theorem asides_decset {n : ℕ} (hn : IsFlag n) : Asides γ f (decset n) := asides_flag hn true

theorem asides_decrst {n : ℕ} (hn : IsFlag n) : Asides γ f (decrst n) := asides_flag hn false

theorem asides_keypad : Asides γ f (escSeq [] '=') ∧ Asides γ f (escSeq [] '>') := by
  constructor
  · refine .of_reads (fun p hp => reads_esc hp (by decide) (by decide)) fun t p ht => ?_
    exact ⟨{ ht with }, ⟨rfl, rfl, rfl, rfl, rfl, rfl, rfl⟩⟩
  · refine .of_reads (fun p hp => reads_esc hp (by decide) (by decide)) fun t p ht => ?_
    exact ⟨{ ht with }, ⟨rfl, rfl, rfl, rfl, rfl, rfl, rfl⟩⟩

theorem asides_bell : Asides γ f [0x07] := by
  intro t ht
  rw [process_control ht.rests (by decide) (by decide)]
  exact ⟨⟨{ ht.sound with }, ht.rests⟩, ⟨rfl, rfl, rfl, rfl, rfl, rfl, rfl⟩⟩

theorem asides_osc {code : ℕ} (hcode : parseU16 (digits code) = some code) {rest : List UInt8}
    (hrest : ∀ b ∈ rest, ¬ Parser.EndsOsc b)
    (h : ∀ (t : Terminal γ) (text : List Char) (bel : Bool), Aside t (t.oscCommand code text bel)) :
    Asides γ f (oscBel (decimal code ++ byte ';' :: rest)) ∧
      Asides γ f (oscSt (decimal code ++ byte ';' :: rest)) := by
  have hbody := @not_endsOsc_code code _ hrest
  have hdispatch : ∀ (t : Terminal γ) (bel : Bool),
      Aside t (t.oscDispatch (payload (decimal code ++ byte ';' :: rest)) bel) := by
    intro t bel
    rw [payload_code, oscDispatch_code t hcode]
    exact h t _ bel
  constructor
  · intro t ht
    obtain ⟨p, hp, heq⟩ := process_oscBel ht.rests hbody
    rw [heq]
    split
    · have hsound := (ht.withParser p).oscDispatch
        (@mem_payload (decimal code ++ byte ';' :: rest)) true
      exact ⟨.of_sound hsound hp, { hdispatch { t with parser := p } true with }⟩
    · exact ⟨.of_sound (ht.withParser p) hp, ⟨rfl, rfl, rfl, rfl, rfl, rfl, rfl⟩⟩
  · intro t ht
    obtain ⟨p, q, hp, heq⟩ := process_oscSt ht.rests hbody
    rw [heq]
    split
    · have hsound := (ht.withParser q).oscDispatch
        (@mem_payload (decimal code ++ byte ';' :: rest)) false
      exact ⟨.of_sound { hsound with parser := rfl } hp, { hdispatch { t with parser := q } false with }⟩
    · exact ⟨.of_sound (ht.withParser p) hp, ⟨rfl, rfl, rfl, rfl, rfl, rfl, rfl⟩⟩

theorem asides_title {title : List Char} (h : ∀ c ∈ title, Utf8.Plain c) :
    Asides γ f (oscBel (decimal 0 ++ byte ';' :: encode title)) :=
  (asides_osc (by decide) (fun b hb => not_endsOsc (encode_plain h b hb))
    fun _ _ _ => ⟨rfl, rfl, rfl, rfl, rfl, rfl, rfl⟩).1

omit [GraphicsStore γ] in
theorem aside_oscClipboard (t : Terminal γ) (rest : List Char) (bel : Bool) :
    Aside t (t.oscClipboard rest bel) := by
  have hset : ∀ (kinds : List Char) (data : List UInt8) (t : Terminal γ),
      Aside t (kinds.foldl (fun t kind => t.setSelection kind data) t) := by
    intro kinds data
    induction kinds with
    | nil => exact .refl
    | cons kind kinds ih =>
      intro t
      refine Aside.trans (?_ : Aside t (t.setSelection kind data)) (ih _)
      rw [setSelection]
      split_ifs <;> exact ⟨rfl, rfl, rfl, rfl, rfl, rfl, rfl⟩
  rw [oscClipboard]
  dsimp only
  split
  · exact ⟨rfl, rfl, rfl, rfl, rfl, rfl, rfl⟩
  · split
    · exact { hset _ _ t with }
    · exact .refl t

theorem asides_clipboard {kinds : List Char} (h : ∀ c ∈ kinds, Utf8.Plain c) {data : List UInt8}
    (hdata : ∀ b ∈ data, 0x20 ≤ b.toNat) :
    Asides γ f (oscSt (decimal 52 ++ byte ';' :: encode kinds ++ byte ';' :: data)) := by
  have hbytes : decimal 52 ++ byte ';' :: encode kinds ++ byte ';' :: data =
      decimal 52 ++ byte ';' :: (encode kinds ++ byte ';' :: data) := by
    rw [List.append_assoc, List.cons_append]
  rw [hbytes]
  refine (asides_osc (by decide) (fun b hb => not_endsOsc ?_) aside_oscClipboard).2
  rcases List.mem_append.mp hb with hb | hb
  · exact encode_plain h b hb
  · rcases List.mem_cons.mp hb with rfl | hb
    · decide
    · exact hdata b hb

theorem asides_kitty (flags : UInt8) : Asides γ f (csi (byte '=' :: numbers [flags.toNat, 1]) 'u') := by
  have hlt := flags.toNat_lt
  refine .of_reads (a := .csi [[flags.toNat], [1]] [] (byte '=') (byte 'u')) (fun p hp => ?_)
    fun t p ht => ?_
  · exact reads_csi_marked_numbers hp (by decide) (by omega)
      (List.forall_mem_singleton.mpr (by decide)) (show 1 < maxParams by decide) (by decide)
  · have hset : t.dispatch (.csi [[flags.toNat], [1]] [] (byte '=') (byte 'u')) =
        t.modifyKittyStack fun k => k.set (UInt8.ofNat (param [[flags.toNat], [1]] 0 0))
          (paramOr [[flags.toNat], [1]] 1 1) := rfl
    rw [hset]
    refine ⟨ht.modifyKittyStack fun _ hk => hk.set _ _, ?_⟩
    rw [modifyKittyStack]
    split <;> exact ⟨rfl, rfl, rfl, rfl, rfl, rfl, rfl⟩

/-! ### The hyperlink of the pen -/

omit [GraphicsStore γ] in
/-- The target of the pen's hyperlink; empty for none. -/
def openUri (t : Terminal γ) : List Char := (t.link t.cursor.hyperlink).getD []

/-- The command that opens the hyperlink of a target, or closes it. -/
def linkBody (uri : List Char) : List UInt8 := decimal 8 ++ byte ';' :: byte ';' :: Utf8.encode uri

/-- There is room in a command for a target. -/
def UriFits (uri : List Char) : Prop := (linkBody uri).length ≤ Parser.maxOsc

instance (uri : List Char) : Decidable (UriFits uri) := inferInstanceAs (Decidable (_ ≤ _))

/-- **A target is read back** if there is room for it; else the hyperlink stays. -/
theorem Idle.openLink (h : t.Idle f) {uri : List Char} (huri : ∀ c ∈ uri, Utf8.Plain c)
    {t' : Terminal γ} (ht' : t.process (oscSt (linkBody uri)) = t') :
    t'.Idle f ∧ Repens t t' ∧ t'.cursor.style = t.cursor.style ∧
      t'.openUri = if UriFits uri then uri else t.openUri := by
  have htext : byte ';' :: encode uri = encode (';' :: uri) := by
    rw [encode_cons]
    rfl
  have hplain : ∀ c ∈ ';' :: uri, Utf8.Plain c := List.forall_mem_cons.mpr ⟨by decide, huri⟩
  obtain ⟨p, q, hp, heq⟩ := process_oscSt h.rests (@not_endsOsc_code 8 (encode (';' :: uri))
    fun b hb => not_endsOsc (encode_plain hplain b hb))
  rw [← htext, ← linkBody] at heq
  have hpayload : payload (linkBody uri) = linkBody uri := by
    rw [linkBody, htext, payload_code, payload_eq_self (encode_plain hplain)]
  rw [hpayload] at heq
  rw [heq] at ht'
  by_cases hfits : UriFits uri
  · rw [if_pos hfits]
    rw [if_pos (show (linkBody uri).length ≤ maxOsc from hfits), linkBody, htext,
      oscDispatch_code _ (by decide), lossy_encode] at ht'
    have hopen : oscCommand { t with parser := q } 8 (';' :: uri) false =
        oscHyperlink { t with parser := q } (';' :: uri) := rfl
    have hsound := (h.withParser q).oscHyperlink hplain
    rw [hopen] at ht'
    rw [← ht']
    by_cases hnil : uri = []
    · have hclose : oscHyperlink { t with parser := q } (';' :: uri) =
          { t with parser := q, cursor := { t.cursor with hyperlink := 0 } } := by
        rw [hnil]
        rfl
      rw [hclose] at hsound ⊢
      refine ⟨.of_sound { hsound with parser := rfl } hp,
        ⟨rfl, rfl, rfl, rfl, rfl, rfl, rfl, rfl, fun _ _ => rfl⟩, rfl, ?_⟩
      rw [openUri, link, link_zero h.sound.links, hnil]
      rfl
    · have hlink : Hyperlink.Sound { id := [], uri } := ⟨List.forall_mem_nil _, huri, hnil⟩
      obtain ⟨hrepens, hstyle, htarget⟩ :=
        oscHyperlink_linkText (t := { t with parser := q }) h.sound.links hlink
      have htext' : linkText { id := [], uri } = ';' :: uri := rfl
      rw [htext'] at hrepens hstyle htarget
      refine ⟨.of_sound { hsound with parser := rfl } hp, { hrepens with }, hstyle, ?_⟩
      exact congrArg (Option.getD · []) htarget
  · rw [if_neg hfits]
    rw [if_neg (show ¬ (linkBody uri).length ≤ maxOsc from hfits)] at ht'
    rw [← ht']
    exact ⟨.of_sound (h.withParser p) hp, ⟨rfl, rfl, rfl, rfl, rfl, rfl, rfl, rfl, fun _ _ => rfl⟩, rfl, rfl⟩

/-! ### Moves of the cursor -/

omit [GraphicsStore γ] in
theorem Repens.place (h : Repens t t') : t'.place = t.place := by
  rw [Terminal.place, Terminal.place, h.row, h.col, h.pendingWrap]

omit [GraphicsStore γ] in
theorem Repens.outer (h : Repens t t') (ho : t.Outer f) (hi : t'.Idle f) : t'.Outer f :=
  ⟨hi, by rw [h.modes, ho.autowrap], h.scrollTop.trans ho.top, h.scrollBot.trans ho.bot⟩

variable (γ f) in
/-- Bytes that take the cursor from one place to another. -/
def Goes (p : Place) (bytes : List UInt8) (p' : Place) : Prop :=
  ∀ t : Terminal γ, t.Outer f → t.place = p → (t.process bytes).Outer f ∧ (t.process bytes).place = p'

variable {p p' p'' : Place} {row col : ℕ} {c : Char}

namespace Goes

theorem nil (p : Place) : Goes γ f p [] p := fun _ h hp => ⟨h, hp⟩

theorem append (h : Goes γ f p xs p') (h' : Goes γ f p' ys p'') : Goes γ f p (xs ++ ys) p'' := by
  intro t ht hp
  obtain ⟨houter, hplace⟩ := h t ht hp
  rw [process_append]
  exact h' _ houter hplace

theorem of_asides (h : Asides γ f xs) (p : Place) : Goes γ f p xs p := by
  intro t ht hp
  obtain ⟨hidle, haside⟩ := h t ht.idle
  exact ⟨haside.outer ht hidle, haside.place.trans hp⟩

theorem of_reads {a : Action} (hreads : ∀ q : Parser, q.Rests → q.Reads xs a)
    (h : ∀ t : Terminal γ, t.Outer f → t.place = p →
      Sound { f with parser := t.parser } (t.dispatch a) ∧ Keeps t (t.dispatch a) ∧
        (t.dispatch a).place = p') : Goes γ f p xs p' := by
  intro t ht hp
  obtain ⟨q, hq, heq⟩ := process_reads (hreads _ ht.idle.rests)
  have ht' : Outer f { t with parser := q } := ht.withParser hq
  obtain ⟨hsound, hkeeps, hplace⟩ := h { t with parser := q } ht' hp
  rw [heq]
  exact ⟨ht'.of_keeps hkeeps hsound, hplace⟩

theorem of_control {b : UInt8} (hb : b.toNat ≤ 0x1F) (hesc : b ≠ 0x1B)
    (h : ∀ t : Terminal γ, t.Outer f → t.place = p →
      Keeps t (t.execute b) ∧ (t.execute b).place = p') : Goes γ f p [b] p' := by
  intro t ht hp
  obtain ⟨hkeeps, hplace⟩ := h t ht hp
  rw [process_control ht.idle.rests hb hesc]
  exact ⟨ht.of_keeps hkeeps (ht.idle.sound.execute b), hplace⟩

theorem of_char {c : Char} (hc : wcwidth c ≠ 0)
    (h : ∀ t : Terminal γ, t.Outer f → t.place = p → (t.print c).place = p') :
    Goes γ f p (String.utf8EncodeChar c) p' := by
  intro t ht hp
  rcases process_char ht.idle.rests (plain_of_wcwidth hc) with ⟨hdel, -⟩ | ⟨q, hq, heq⟩
  · rw [wcwidth, if_pos (.inr ⟨by omega, by omega⟩)] at hc
    exact absurd rfl hc
  · have ht' : Outer f { t with parser := q } := ht.withParser hq
    have hsound : Sound { f with parser := q } { t with parser := q } := ht'.idle.sound
    rw [heq]
    exact ⟨ht'.of_keeps (Keeps.print _ (not_c1_of_wcwidth hc)) (hsound.print (plain_of_wcwidth hc)),
      h _ ht' hp⟩

end Goes

variable (γ f) in
/-- Bytes that move the cursor, and leave the screen and the hand. -/
def Moves (p : Place) (bytes : List UInt8) (p' : Place) : Prop :=
  ∀ t : Terminal γ, t.Outer f → t.place = p →
    (t.process bytes).Outer f ∧ (t.process bytes).place = p' ∧ SameHand t (t.process bytes) ∧
      (t.process bytes).scr = t.scr

namespace Moves

theorem goes (h : Moves γ f p xs p') : Goes γ f p xs p' := fun t ht hp =>
  ⟨(h t ht hp).1, (h t ht hp).2.1⟩

theorem nil (p : Place) : Moves γ f p [] p := fun t h hp => ⟨h, hp, .refl t, rfl⟩

theorem append (h : Moves γ f p xs p') (h' : Moves γ f p' ys p'') : Moves γ f p (xs ++ ys) p'' := by
  intro t ht hp
  obtain ⟨houter, hplace, hhand, hscr⟩ := h t ht hp
  obtain ⟨houter', hplace', hhand', hscr'⟩ := h' _ houter hplace
  rw [process_append]
  exact ⟨houter', hplace', hhand.trans hhand', hscr'.trans hscr⟩

theorem of_asides (h : Asides γ f xs) (p : Place) : Moves γ f p xs p := by
  intro t ht hp
  obtain ⟨hidle, haside⟩ := h t ht.idle
  exact ⟨haside.outer ht hidle, haside.place.trans hp, haside.sameHand, haside.scr⟩

theorem of_control {b : UInt8} (hb : b.toNat ≤ 0x1F) (hesc : b ≠ 0x1B)
    (h : ∀ t : Terminal γ, t.Outer f → t.place = p →
      Keeps t (t.execute b) ∧ (t.execute b).place = p' ∧ (t.execute b).scr = t.scr) : Moves γ f p [b] p' := by
  intro t ht hp
  obtain ⟨hkeeps, hplace, hscr⟩ := h t ht hp
  rw [process_control ht.idle.rests hb hesc]
  exact ⟨ht.of_keeps hkeeps (ht.idle.sound.execute b), hplace, hkeeps.sameHand, hscr⟩

theorem of_reads {a : Action} (hreads : ∀ q : Parser, q.Rests → q.Reads xs a)
    (h : ∀ t : Terminal γ, t.Outer f → t.place = p →
      Sound { f with parser := t.parser } (t.dispatch a) ∧ Keeps t (t.dispatch a) ∧
        (t.dispatch a).place = p' ∧ (t.dispatch a).scr = t.scr) : Moves γ f p xs p' := by
  intro t ht hp
  obtain ⟨q, hq, heq⟩ := process_reads (hreads _ ht.idle.rests)
  have ht' : Outer f { t with parser := q } := ht.withParser hq
  obtain ⟨hsound, hkeeps, hplace, hscr⟩ := h { t with parser := q } ht' hp
  rw [heq]
  exact ⟨ht'.of_keeps hkeeps hsound, hplace, { hkeeps.sameHand with }, hscr⟩

end Moves

theorem moves_return (row col : ℕ) (pending : Bool) : Moves γ f ⟨row, col, pending⟩ [0x0D] ⟨row, 0, false⟩ := by
  refine .of_control (by decide) (by decide) fun t ht hp => ?_
  obtain ⟨hrow, -, -⟩ := Place.mk.inj hp
  exact ⟨(moved t t.cursor.row 0 false).touch, by rw [← hrow]; rfl, rfl⟩

theorem moves_back (row col : ℕ) (pending : Bool) :
    Moves γ f ⟨row, col, pending⟩ [0x08] ⟨row, col - 1, false⟩ := by
  refine .of_control (by decide) (by decide) fun t ht hp => ?_
  obtain ⟨hrow, hcol, -⟩ := Place.mk.inj hp
  exact ⟨(moved t t.cursor.row (t.cursor.col - 1) false).touch, by rw [← hrow, ← hcol]; rfl, rfl⟩

theorem moves_backs (row col : ℕ) (pending : Bool) (n : ℕ) :
    Moves γ f ⟨row, col, pending⟩ (List.replicate (n + 1) 0x08) ⟨row, col - (n + 1), false⟩ := by
  induction n generalizing col pending with
  | zero => exact moves_back row col pending
  | succ n ih =>
    have hrest := (moves_back row col pending).append (ih (col - 1) false)
    rw [show col - 1 - (n + 1) = col - (n + 1 + 1) by omega] at hrest
    exact hrest

omit [GraphicsStore γ] in
theorem Outer.index_place (h : t.Outer f) :
    t.index.place = ⟨min (t.cursor.row + 1) (f.rows - 1), t.cursor.col, false⟩ := by
  have hlt := h.row_lt
  have hregion : t.cancelWrap.region = (0, f.rows - 1) := h.region_eq
  have hrows : t.cancelWrap.rows = f.rows := h.rows_eq
  rw [index, hregion, hrows, place]
  dsimp only [touch]
  by_cases hlast : t.cursor.row = f.rows - 1
  · have hscroll : (t.cancelWrap.scrollUpN 1).cursor = t.cancelWrap.cursor := modifyScr_cursor _ _
    rw [if_pos (show t.cancelWrap.cursor.row = f.rows - 1 from hlast), hscroll]
    dsimp only [cancelWrap]
    rw [hlast, Nat.min_eq_right (by omega)]
  · rw [if_neg (show ¬ t.cancelWrap.cursor.row = f.rows - 1 from hlast),
      if_pos (show t.cancelWrap.cursor.row + 1 < f.rows from by
        have : t.cancelWrap.cursor.row = t.cursor.row := rfl
        omega)]
    dsimp only [setRow, cancelWrap]
    rw [Nat.min_eq_left (by omega)]

omit [GraphicsStore γ] in
theorem Outer.index_scr (h : t.Outer f) (hrow : t.cursor.row + 1 < f.rows) : t.index.scr = t.scr := by
  have hregion : t.cancelWrap.region = (0, f.rows - 1) := h.region_eq
  have hrows : t.cancelWrap.rows = f.rows := h.rows_eq
  have hcursor : t.cancelWrap.cursor.row = t.cursor.row := rfl
  rw [index, hregion, hrows]
  dsimp only
  rw [if_neg (by omega), if_pos (by omega)]
  rfl

theorem goes_feed (row : ℕ) (pending : Bool) :
    Goes γ f ⟨row, 0, pending⟩ [0x0A] ⟨min (row + 1) (f.rows - 1), 0, false⟩ := by
  refine .of_control (by decide) (by decide) fun t ht hp => ?_
  obtain ⟨hrow, hcol, -⟩ := Place.mk.inj hp
  have hfeed : t.execute 0x0A = t.linefeed := rfl
  have hindex := ht.index_place
  rw [hrow, hcol] at hindex
  have hkeeps := of_drawn (.index t)
  rw [hfeed, linefeed]
  generalize t.index = u at hindex hkeeps
  split
  · refine ⟨hkeeps.trans (.moved u u.cursor.row 0 u.cursor.pendingWrap), ?_⟩
    obtain ⟨hrow', -, hpend'⟩ := Place.mk.inj hindex
    rw [← hrow', ← hpend']
    rfl
  · exact ⟨hkeeps, hindex⟩

theorem moves_feed {row : ℕ} (hrow : row + 1 < f.rows) (pending : Bool) :
    Moves γ f ⟨row, 0, pending⟩ [0x0A] ⟨row + 1, 0, false⟩ := by
  intro t ht hp
  obtain ⟨houter, hplace⟩ := goes_feed row pending t ht hp
  obtain ⟨hrow', -, -⟩ := Place.mk.inj hp
  rw [Nat.min_eq_left (by omega)] at hplace
  refine ⟨houter, hplace, ?_⟩
  have hscr := ht.index_scr (by omega)
  have hkeeps := of_drawn (.index t)
  have hfeed : t.execute 0x0A = t.linefeed := rfl
  rw [process_control ht.idle.rests (by decide) (by decide), hfeed, linefeed]
  generalize t.index = u at hscr hkeeps
  split
  · exact ⟨(hkeeps.trans (.moved u u.cursor.row 0 u.cursor.pendingWrap)).sameHand, hscr⟩
  · exact ⟨hkeeps.sameHand, hscr⟩

theorem moves_feeds {row : ℕ} (n : ℕ) (hrow : row + n < f.rows) :
    Moves γ f ⟨row, 0, false⟩ (List.replicate n 0x0A) ⟨row + n, 0, false⟩ := by
  induction n generalizing row with
  | zero => exact .nil _
  | succ n ih =>
    have hrest := (moves_feed (show row + 1 < f.rows by omega) false).append
      (@ih (row + 1) (by omega))
    rw [show row + 1 + n = row + (n + 1) by omega] at hrest
    exact hrest

theorem goes_feeds {row : ℕ} (hrow : row < f.rows) (n : ℕ) :
    Goes γ f ⟨row, 0, false⟩ (List.replicate n 0x0A) ⟨min (row + n) (f.rows - 1), 0, false⟩ := by
  induction n generalizing row with
  | zero =>
    rw [Nat.add_zero, Nat.min_eq_left (by omega)]
    exact .nil _
  | succ n ih =>
    have hrest := (goes_feed row false).append (@ih (min (row + 1) (f.rows - 1)) (by omega))
    rw [show min (min (row + 1) (f.rows - 1) + n) (f.rows - 1) = min (row + (n + 1)) (f.rows - 1) by
      omega] at hrest
    exact hrest

theorem moves_cup (hrow : row < f.rows) (hcol : col < f.cols) (hrows : f.rows ≤ 65535)
    (hcols : f.cols ≤ 65535) (p : Place) : Moves γ f p (cup (row + 1) (col + 1)) ⟨row, col, false⟩ := by
  refine .of_reads (fun q hq => reads_cup hq (by omega) (by omega)) fun t ht _ => ?_
  have hsound : t.Sound { f with parser := t.parser } := ht.idle.sound
  rw [dispatch_cup]
  refine ⟨hsound.moveTo row col, ?_, ?_, rfl⟩
  · exact { moved t (t.moveTo row col).cursor.row (t.moveTo row col).cursor.col false with }
  · rw [place, moveTo]
    dsimp only [touch]
    rw [ht.region_eq, ht.rows_eq, ht.cols_eq, Nat.min_eq_left (show col ≤ f.cols - 1 by omega)]
    dsimp only
    congr 1
    split <;> omega

/-! ### Text -/

omit [GraphicsStore γ] in
theorem wcwidth_mapCharset (t : Terminal γ) (c : Char) : wcwidth (t.mapCharset c) = wcwidth c := by
  have hdrawn : ∀ n < 32, wcwidth (scalar (decSpecialTable.getD n 0x20)) = 1 ∧
      wcwidth (scalar (0x5F + n)) = 1 := by
    decide +kernel
  rw [mapCharset]
  split
  · rfl
  · split
    case isTrue h => rw [h]; decide
    case isFalse => rfl
  · rw [decSpecial]
    split
    case isTrue h =>
      obtain ⟨htable, hascii⟩ := hdrawn (c.toNat - 0x5F) (by omega)
      rw [show 0x5F + (c.toNat - 0x5F) = c.toNat by omega, scalar_toNat] at hascii
      rw [htable, hascii]
    case isFalse => rfl

omit [GraphicsStore γ] in
theorem Outer.putChar_place (h : t.Outer f) (hc : wcwidth c ≠ 0) : (t.putChar c (wcwidth c)).place =
      if f.cols ≤ t.cursor.col + wcwidth c then ⟨t.cursor.row, f.cols - 1, true⟩
      else ⟨t.cursor.row, t.cursor.col + wcwidth c, t.cursor.pendingWrap⟩ := by
  have hsound : t.Sound { f with parser := t.parser } := h.idle.sound
  rw [putChar]
  dsimp only
  generalize hins : (if t.modes.insert then _ else t) = u
  have hu : u.Sound { f with parser := t.parser } ∧ u.cursor = t.cursor ∧ u.modes = t.modes := by
    rw [← hins]
    split
    · refine ⟨?_, modifyScr_cursor _ _, modifyScr_modes _ _⟩
      exact hsound.modifyScr fun _ _ hs => Sound.repairWideHalves_fits hsound.law
        (hs.modifyRow _ fun _ hr => Sound.shiftRight_fits hsound.law hsound.col_lt _ hr) _
    · exact ⟨hsound, rfl, rfl⟩
  obtain ⟨hsound', hcursor, hmodes⟩ := hu
  have hput := hsound'.modifyScr fun _ _ hfit => Sound.writeCells_fits hsound'.law hfit t.cursor.row
    t.cursor.col (Cell.Sound.char u.cursor.style hc hsound'.cursorLink) rfl
  have hkept (edit : Screen → Screen) : (u.modifyScr edit).cursor = u.cursor ∧ (u.modifyScr edit).modes = u.modes :=
    ⟨modifyScr_cursor u edit, modifyScr_modes u edit⟩
  obtain ⟨hput_cursor, hput_modes⟩ := hkept fun s =>
    let s := (cleanWide s t.cursor.row t.cursor.col (wcwidth c)).setCell t.cursor.row t.cursor.col
      { ch := c, style := u.cursor.style, width := wcwidth c, hyperlink := u.cursor.hyperlink }
    if wcwidth c = 2 then
      s.setCell t.cursor.row (t.cursor.col + 1)
        { ch := Cell.nul, style := u.cursor.style, width := 0, hyperlink := u.cursor.hyperlink }
    else s
  dsimp only at hput hput_cursor hput_modes
  generalize u.modifyScr _ = v at hput hput_cursor hput_modes ⊢
  rw [hput.cols_eq]
  split
  · rw [place]
    dsimp only
    rw [hput_cursor, hcursor, hput_modes, hmodes, if_pos h.autowrap]
  · rw [place]
    dsimp only
    rw [hput_cursor, hcursor]

omit [GraphicsStore γ] in
theorem Outer.wrapPending_place (h : t.Outer f) (hp : t.cursor.pendingWrap = true) :
    t.wrapPending.place = ⟨min (t.cursor.row + 1) (f.rows - 1), 0, false⟩ := by
  obtain ⟨u, hu⟩ : ∃ u : Terminal γ, u = t.cancelWrap.modifyScr fun s =>
      s.modifyRow t.cursor.row fun r => { r with wrapped := true } := ⟨_, rfl⟩
  obtain ⟨v, hv⟩ : ∃ v : Terminal γ, v = { u with cursor := { u.cursor with col := 0 } } := ⟨_, rfl⟩
  have hcancelled : t.cancelWrap.Outer f :=
    h.of_keeps (moved t t.cursor.row t.cursor.col false) h.idle.sound.cancelWrap
  have hmarked : u.Outer f := by
    rw [hu]
    exact hcancelled.of_keeps (Keeps.modifyScr _ _)
      (hcancelled.idle.sound.modifyScr fun _ _ hs => hs.relabel _ fun _ => rfl)
  have hreturned : v.Outer f := by
    rw [hv]
    exact hmarked.of_keeps (moved u u.cursor.row 0 u.cursor.pendingWrap)
      { hmarked.idle.sound with col_lt := hmarked.idle.sound.cols_pos }
  have hrow : v.cursor.row = t.cursor.row := by
    rw [hv, hu, modifyScr_cursor]
    rfl
  have hwrap : t.wrapPending = v.index := by
    rw [wrapPending, if_pos hp, hv, hu]
    exact if_pos h.autowrap
  have hindex := hreturned.index_place
  rw [hwrap, hindex, hrow, hv]

variable (f) in
/-- Before a column of a row; past the last column the cursor waits to wrap. -/
def atCol (row col : ℕ) : Place :=
  if col = f.cols then ⟨row, f.cols - 1, true⟩ else ⟨row, col, false⟩

theorem atCol_of_lt (h : col < f.cols) : atCol f row col = ⟨row, col, false⟩ :=
  if_neg (Nat.ne_of_lt h)

theorem atCol_cols (row : ℕ) : atCol f row f.cols = ⟨row, f.cols - 1, true⟩ := if_pos rfl

omit [GraphicsStore γ] in
theorem Outer.noted (h : t.Outer f) (hc : wcwidth c ≠ 0) : Outer f { t.touch with lastPrinted := some c } :=
  { h with
    idle := ⟨{ h.idle.sound with lastPrinted := fun _ heq => Option.some.inj heq ▸ hc }, h.idle.rests⟩ }

omit [GraphicsStore γ] in
theorem Outer.print_place (h : t.Outer f) (hc : wcwidth c ≠ 0)
    (hp : (wrapPending { t.touch with lastPrinted := some (t.mapCharset c) }).place = ⟨row, col, false⟩)
    (hroom : col + wcwidth c ≤ f.cols) : (t.print c).place = atCol f row (col + wcwidth c) := by
  have hw : wcwidth (t.mapCharset c) ≠ 0 := by rwa [wcwidth_mapCharset]
  have hnoted := h.noted hw
  have hwrapped := hnoted.of_keeps (of_drawn (.wrapPending _)) hnoted.idle.sound.wrapPending
  rw [print, if_neg (not_c1_of_wcwidth hc)]
  dsimp only
  rw [if_neg hw]
  generalize wrapPending { t.touch with lastPrinted := some (t.mapCharset c) } = u at hp hwrapped
  obtain ⟨hrow, hcol, hpend⟩ := Place.mk.inj hp
  have hfits : u.fitWide (wcwidth (t.mapCharset c)) = some u := by
    rw [fitWide, if_neg]
    rw [wcwidth_mapCharset, hwrapped.cols_eq]
    omega
  rw [hfits]
  dsimp only
  rw [hwrapped.putChar_place hw, wcwidth_mapCharset, hrow, hcol, hpend, atCol]
  split
  · rw [if_pos (by omega)]
  · rw [if_neg (by omega)]

theorem goes_char (hc : wcwidth c ≠ 0) (hroom : col + wcwidth c ≤ f.cols) :
    Goes γ f (atCol f row col) (String.utf8EncodeChar c) (atCol f row (col + wcwidth c)) := by
  rw [atCol_of_lt (show col < f.cols by omega)]
  refine .of_char hc fun t ht hp => ?_
  refine ht.print_place hc ?_ hroom
  obtain ⟨-, -, hpend⟩ := Place.mk.inj hp
  rw [wrapPending, if_neg]
  · exact hp
  · exact fun h => Bool.false_ne_true (hpend.symm.trans h)

theorem goes_charWrapped (hc : wcwidth c ≠ 0) {row : ℕ} (hrow : row + 1 < f.rows) (hroom : wcwidth c ≤ f.cols) :
    Goes γ f (atCol f row f.cols) (String.utf8EncodeChar c) (atCol f (row + 1) (wcwidth c)) := by
  rw [atCol_cols]
  refine .of_char hc fun t ht hp => ?_
  obtain ⟨hrow', -, hpend⟩ := Place.mk.inj hp
  have hplace := @Outer.print_place _ _ _ (row + 1) 0 _ ht hc ?_ (by omega)
  · rwa [Nat.zero_add] at hplace
  · have hw : wcwidth (t.mapCharset c) ≠ 0 := by rwa [wcwidth_mapCharset]
    rw [(ht.noted hw).wrapPending_place hpend]
    dsimp only [touch]
    rw [hrow', Nat.min_eq_left (by omega)]

theorem goes_marks {ms : List Char} (hms : ∀ m ∈ ms, Mark m) (p : Place) : Goes γ f p (encode ms) p := by
  induction ms with
  | nil => exact .nil p
  | cons m ms ih =>
    rw [List.forall_mem_cons] at hms
    rw [encode_cons]
    refine .append ?_ (ih hms.2)
    intro t ht hp
    rcases process_char ht.idle.rests hms.1.plain with ⟨-, heq⟩ | ⟨q, hq, heq⟩
    · rw [heq]
      exact ⟨ht, hp⟩
    · have ht' : Outer f { t with parser := q } := ht.withParser hq
      have hsound : Sound { f with parser := q } { t with parser := q } := ht'.idle.sound
      rw [heq]
      refine ⟨ht'.of_keeps (Keeps.print _ hms.1.not_c1) (hsound.print hms.1.plain), ?_⟩
      have hcombine : ∀ (u : Terminal γ) (c : Char), (u.combine c).cursor = u.cursor := by
        intro u c
        rw [combine]
        dsimp only
        split
        · exact modifyScr_cursor _ _
        · rfl
      rw [print, if_neg hms.1.not_c1]
      dsimp only
      rw [wcwidth_mapCharset, if_pos hms.1.width, place, hcombine]
      exact hp

/-- **The text of a cell**, on its line. -/
theorem goes_text (hc : wcwidth c ≠ 0) {ms : List Char} (hms : ∀ m ∈ ms, Mark m)
    (hroom : col + wcwidth c ≤ f.cols) :
    Goes γ f (atCol f row col) (encode (c :: ms)) (atCol f row (col + wcwidth c)) := by
  rw [encode_cons]
  exact (goes_char hc hroom).append (goes_marks hms _)

/-- **The text of a cell**, after a soft wrap. -/
theorem goes_wrapped (hc : wcwidth c ≠ 0) {ms : List Char} (hms : ∀ m ∈ ms, Mark m)
    {row : ℕ} (hrow : row + 1 < f.rows) (hroom : wcwidth c ≤ f.cols) :
    Goes γ f (atCol f row f.cols) (encode (c :: ms)) (atCol f (row + 1) (wcwidth c)) := by
  rw [encode_cons]
  exact (goes_charWrapped hc hrow hroom).append (goes_marks hms _)

theorem goes_spaces {row col n : ℕ} (hroom : col + n ≤ f.cols) :
    Goes γ f (atCol f row col) (List.replicate n (byte ' ')) (atCol f row (col + n)) := by
  induction n generalizing col with
  | zero => exact .nil _
  | succ n ih =>
    have hspace : Goes γ f (atCol f row col) [byte ' '] (atCol f row (col + 1)) :=
      goes_char (c := ' ') (by decide) (show col + 1 ≤ f.cols by omega)
    have hrest := hspace.append (@ih (col + 1) (by omega))
    rwa [show col + 1 + n = col + (n + 1) by omega] at hrest

/-! ### Erasing -/

theorem goes_eraseChars {row col n : ℕ} (hcol : col < f.cols) (hn : n ≤ 65535) :
    Goes γ f (atCol f row col) (csi (decimal n) 'X') (atCol f row col) := by
  rw [atCol_of_lt hcol]
  refine .of_reads (a := .csi [[n]] [] 0 (byte 'X')) (fun q hq => ?_) fun t ht hp => ?_
  · exact reads_csi_numbers hq hn (List.forall_mem_nil _) (by decide) (by decide)
  · obtain ⟨hrow, hcol', -⟩ := Place.mk.inj hp
    have herase : t.dispatch (.csi [[n]] [] 0 (byte 'X')) = t.eraseChars (paramOr [[n]] 0 1) := rfl
    rw [herase]
    refine ⟨ht.idle.sound.eraseChars _, ?_, ?_⟩
    · rw [eraseChars]
      have hedit := Keeps.modifyScr t fun s => repairWideHalves
        ((List.range' t.cursor.col (min (t.cursor.col + paramOr [[n]] 0 1) t.cols - t.cursor.col)).foldl
          (fun s c => s.setCell t.cursor.row c (Cell.blank {})) s) t.cursor.row
      generalize t.modifyScr _ = u at hedit ⊢
      exact hedit.trans (moved u u.cursor.row u.cursor.col false).touch
    · rw [eraseChars, place]
      dsimp only [touch, cancelWrap]
      rw [modifyScr_cursor, hrow, hcol']

theorem goes_eraseLine (hcol : col < f.cols) : Goes γ f (atCol f row col) (csi [] 'K') (atCol f row col) := by
  rw [atCol_of_lt hcol]
  refine .of_reads (fun q hq => reads_csi_empty hq (by decide)) fun t ht hp => ?_
  obtain ⟨hrow, hcol', -⟩ := Place.mk.inj hp
  have herase : t.dispatch (.csi [] [] 0 (byte 'K')) = t.eraseLine 0 false := rfl
  rw [herase]
  refine ⟨ht.idle.sound.eraseLine 0 false, ?_, ?_⟩
  · rw [eraseLine, if_pos rfl]
    exact (Keeps.trans (u := t.cancelWrap) (moved t t.cursor.row t.cursor.col false)
      (Keeps.modifyScr _ _)).touch
  · rw [eraseLine, if_pos rfl, place]
    dsimp only [touch]
    rw [modifyScr_cursor]
    dsimp only [cancelWrap]
    rw [hrow, hcol']

end Posh.Term.Terminal
