/-
**The terminal attached never switches its screens.**

The terminal of a client is held on its alternate screen for as long as it is attached, so that it can be given back
as it was.  What an application writes is passed on but for its own switches: each is taken out of the stream, and a
repaint of the screen switched to is put in its place.  Bytes are withheld while a sequence is unfinished, up to a
bound; and where nothing is withheld and no sequence can begin, a read is passed on whole.

The terminal attached reads another stream than the daemon's, so its parser is not in the same state.  It differs only
in what is begun anew before it is read.
-/

import Posh.Term.GraphicsCommand
import Posh.Term.QuietDump
import Posh.Term.SwitchReads

set_option autoImplicit false

namespace Posh.Term

/-! ### The filter -/

/-- Everything that affects how a replay is drawn, at its default. -/
def drawableStateReset : List UInt8 :=
  csi [] 'r' ++ decrst 6 ++ decrst 5 ++ decset 7 ++ decrst 12 ++ decrst 2026 ++ csi (decimal 20) 'l' ++
    csi (decimal 4) 'l' ++ escSeq [byte '('] 'B' ++ escSeq [byte ')'] 'B' ++ [0x0F] ++ csi (decimal 0) 'm' ++
    csi (decimal 0 ++ [byte '"']) 'q' ++ closeHyperlink

/-- For RIS: the shared modes at their defaults. -/
def risSubstitute : List UInt8 :=
  csi [byte '!'] 'p' ++ [1000, 1002, 1003, 9, 1005, 1006, 1016, 2004, 1004, 1007, 12].flatMap decrst ++ decset 25 ++
    decrst 1 ++ decrst 5 ++ decset 8 ++ decrst 2026 ++ escSeq [] '>' ++ csi (decimal 20) 'l' ++ csi (decimal 4) 'l' ++
    [104, 110, 111, 112].flatMap fun code => oscBel (decimal code)

/-- A number of 32 bits, or 0. -/
def parseU32 (part : List UInt8) : ℕ :=
  match digitsValue 0 part with
  | some n => if n < 2 ^ 32 then n else 0
  | none => 0

/-- DECSET or DECRST without the modes of the alternate screen; `none` if no mode is left, or it is of another form. -/
def stripAltScreenParams : List UInt8 → Option (List UInt8)
  | 0x1B :: 0x5B :: 0x3F :: body =>
    match body.getLast? with
    | none => none
    | some final =>
      if final = byte 'h' ∨ final = byte 'l' then
        let parts := body.dropLast.splitOn (byte ';')
        if parts.all fun part => part.all fun b => 0x30 ≤ b.toNat ∧ b.toNat ≤ 0x39 then
          let kept := parts.filter fun part => !switchesScreen (parseU32 part)
          if kept = [] then none else some (esc :: byte '[' :: byte '?' :: [byte ';'].intercalate kept ++ [final])
        else none
      else none
  | _ => none

namespace Terminal

variable {γ : Type} [GraphicsStore γ]

/-- Repaints the active screen on a terminal that shows another one. -/
def dumpScreenSwitch (t : Terminal γ) : List UInt8 :=
  let (top, bot) := t.region
  (Writer.all
    [.put (decrst 25 ++ drawableStateReset ++ csi (decimal 2) 'J'), t.drawGrid t.scr,
      .put ((if top ≠ 0 ∨ bot ≠ t.rows - 1 then csi (numbers [top + 1, bot + 1]) 'r' else []) ++
        (if t.modes.origin then decset 6 else []) ++ t.dumpCharsets ++
        (if t.modes.insert then csi (decimal 4) 'h' else []) ++ (if t.modes.autowrap then [] else decrst 7) ++
        t.dumpPlacements),
      t.dumpCursor .absolute, .put (if t.modes.cursorVisible then decset 25 else [])] {}).1

end Terminal

open Terminal

/-- The filter, with the terminal that it feeds and what it has passed on. -/
structure ScreenSwitchFilter (γ : Type) where
  term : Terminal γ
  held : List UInt8 := []
  out : List UInt8 := []

namespace ScreenSwitchFilter

variable {γ : Type} [GraphicsStore γ]

def maxHeld : ℕ := 4096

/-- What takes the place of a sequence that switches. -/
def substitute (seq : List UInt8) : ScreenSwitch → List UInt8
  | .reset => risSubstitute
  | .alt => (stripAltScreenParams seq).getD []

def feedByte (f : ScreenSwitchFilter γ) (b : UInt8) : ScreenSwitchFilter γ :=
  let held := f.held ++ [b]
  match (f.term.process [b]).takeScreenSwitch with
  | (some kind, term) => { term, out := f.out ++ (substitute held kind ++ term.dumpScreenSwitch) }
  | (none, term) =>
    if !term.midEscape then { term, out := f.out ++ held }
    else if held.length > maxHeld then { term, out := f.out ++ held }
    else { f with term, held }

/-- A read. -/
def feed (f : ScreenSwitchFilter γ) (chunk : List UInt8) : ScreenSwitchFilter γ :=
  if f.held = [] ∧ f.term.midEscape = false ∧ !chunk.any fun b => b = 0x1B ∨ b = 0x9B then
    { f with term := f.term.process chunk, out := f.out ++ chunk }
  else chunk.foldl feedByte f

def call (f : ScreenSwitchFilter γ) : Call → ScreenSwitchFilter γ
  | .process bytes => f.feed bytes
  | .resize rows cols => { f with term := f.term.resize rows cols }

end ScreenSwitchFilter

/-! ### What the parser forgets -/

namespace Parser

/-- What the machine still reads of itself, but for what a string holds: parameters are begun anew before they are
read. -/
def live (p : Parser) : Parser :=
  let q := { p with utf8 := [], dcsFinal := 0, stringBuf := [], stringOverflow := false }
  match p.state with
  | .ground | .escape | .csiIgnore | .oscString | .dcsIgnore | .sosPmString | .apcString => q.clear
  | _ => q

theorem live_spec (p : Parser) : p.live.state = p.state ∧ p.live.utf8Need = p.utf8Need ∧ p.live.live = p.live := by
  rcases p with ⟨state⟩
  cases state <;> exact ⟨rfl, rfl, rfl⟩

theorem Rests.live {p : Parser} (h : p.Rests) : p.live = ({} : Parser).live := by
  rcases p with ⟨state⟩
  obtain ⟨rfl, rfl⟩ := h
  rfl

/-- Two steps that go the same way and record the same switch; if they record one, no sequence is unfinished then. -/
structure Alike (r r' : Parser × List Action) : Prop where
  live : r.1.live = r'.1.live
  recorded : recordedBy r.2 = recordedBy r'.2
  lands : recordedBy r.2 = none ∨ r.1.state = .ground

namespace Alike

variable {p q : Parser} {b : UInt8} {r r' s s' : Parser × List Action}

theorem ite {c : Prop} [Decidable c] (h : Alike r r') (h' : Alike s s') :
    Alike (if c then r else s) (if c then r' else s') := by
  split
  · exact h
  · exact h'

theorem quiet {actions actions' : List Action} (h : p.live = q.live) (hr : actions.any Action.isSequence = false)
    (hr' : actions'.any Action.isSequence = false) : Alike (p, actions) (q, actions') :=
  ⟨h, (recordedBy_eq_none hr).trans (recordedBy_eq_none hr').symm, .inl (recordedBy_eq_none hr)⟩

theorem c1 (hp : p.state = .ground) (hq : q.state = .ground) (hneed : p.utf8Need = q.utf8Need) :
    Alike (p.c1 b) (q.c1 b) := by
  rcases p with ⟨_⟩
  rcases q with ⟨_⟩
  cases hp
  cases hq
  cases hneed
  exact ite (quiet rfl rfl rfl) <| ite (quiet rfl rfl rfl) <| ite (quiet rfl rfl rfl) <| ite (quiet rfl rfl rfl) <|
    ite (quiet rfl rfl rfl) <| ite (quiet rfl rfl rfl) (quiet rfl rfl rfl)

theorem groundByte (hp : p.state = .ground) (hq : q.state = .ground) (hneed : p.utf8Need = q.utf8Need) :
    Alike (p.groundByte b) (q.groundByte b) := by
  have hc1 : Alike (p.c1 b) (q.c1 b) := c1 hp hq hneed
  rcases p with ⟨_⟩
  rcases q with ⟨_⟩
  cases hp
  cases hq
  cases hneed
  repeat' first
    | exact hc1
    | refine ite ?_ ?_
    | exact quiet rfl rfl rfl

theorem printed {c : Char} (h : Alike r r') : Alike (r.1, .print c :: r.2) (r'.1, .print c :: r'.2) :=
  ⟨h.live, congrArg (Option.or · none) h.recorded, h.lands.imp_left (congrArg (Option.or · none))⟩

theorem orElse (hneed : p.utf8Need = q.utf8Need) (h : Alike r r') : Alike (match p.anywhere b with
      | some r => r
      | none => r) (match q.anywhere b with
      | some r => r
      | none => r') := by
  have hc1 : Alike (Parser.c1 { p with state := .ground } b) (Parser.c1 { q with state := .ground } b) :=
    c1 rfl rfl hneed
  rcases p with ⟨_⟩
  rcases q with ⟨_⟩
  cases hneed
  rw [Parser.anywhere, Parser.anywhere]
  split_ifs
  · exact quiet rfl rfl rfl
  · exact quiet rfl rfl rfl
  · exact hc1
  · exact h

theorem pushStringByte (p : Parser) (b : UInt8) (cap : ℕ) :
    Alike (p.pushStringByte b cap, []) (p.live.pushStringByte b cap, []) := by
  have hkeep : ∀ p : Parser, (p.pushStringByte b cap).live = p.live := fun p => by
    rw [Parser.pushStringByte]
    split
    · rfl
    · rfl
  exact quiet ((hkeep p).trans (p.live_spec.2.2.symm.trans (hkeep _).symm)) rfl rfl

theorem advance_live (p : Parser) (b : UInt8) : Alike (p.advance b) (p.live.advance b) := by
  rcases p with ⟨state⟩
  cases state with
  | ground =>
    have hreset : ∀ p : Parser, p.state = .ground → Alike (p.utf8Reset.groundByte b) (p.live.utf8Reset.groundByte b) :=
      fun p hp => groundByte hp (p.live_spec.1.trans hp) rfl
    exact ite (ite (ite (quiet rfl rfl rfl) (quiet rfl rfl rfl)) (hreset _ rfl).printed) (groundByte rfl rfl rfl)
  | oscString | dcsPassthrough | apcString =>
    repeat' first
      | refine ite ?_ ?_
      | exact quiet rfl (any_unless _ rfl) (any_unless _ rfl)
      | exact pushStringByte _ _ _
      | exact quiet rfl rfl rfl
  | dcsIgnore | sosPmString =>
    exact ite (quiet rfl rfl rfl) <| ite (quiet rfl rfl rfl) (quiet rfl rfl rfl)
  | _ =>
    -- both take the same branch, and none reads what is not live
    refine orElse rfl ?_
    repeat' first
      | refine ite ?_ ?_
      | exact quiet rfl rfl rfl
      | exact ⟨rfl, rfl, .inr rfl⟩

theorem advance (h : p.live = q.live) (b : UInt8) : Alike (p.advance b) (q.advance b) := by
  have hp := advance_live p b
  have hq := advance_live q b
  rw [h] at hp
  exact ⟨hp.live.trans hq.live.symm, hp.recorded.trans hq.recorded.symm, hp.lands⟩

end Alike

end Parser

theorem recordedBy_append (xs ys : List Action) : recordedBy (xs ++ ys) = (recordedBy ys).or (recordedBy xs) := by
  induction xs with
  | nil => exact (Option.or_none).symm
  | cons a xs ih => rw [List.cons_append, recordedBy, ih, recordedBy, Option.or_assoc]

theorem Parser.run_alike {p q : Parser} (h : p.live = q.live) (bs : List UInt8) :
    (p.run bs).1.live = (q.run bs).1.live ∧ recordedBy (p.run bs).2 = recordedBy (q.run bs).2 := by
  induction bs generalizing p q with
  | nil => exact ⟨h, rfl⟩
  | cons b bs ih =>
    have hstep := Alike.advance h b
    obtain ⟨hlive, hrest⟩ := ih hstep.live
    rw [run_cons, run_cons, recordedBy_append, recordedBy_append, hrest, hstep.recorded]
    exact ⟨hlive, rfl⟩


/-! ### The screen that is drawn on -/

namespace Terminal

variable {γ : Type} [GraphicsStore γ] {t : Terminal γ} {f : Frame} {ring : ℕ}

omit [GraphicsStore γ] in
theorem altActive_setDecModes {params : List (List ℕ)} (set : Bool)
    (h : (params.any fun p => switchesScreen (p.head?.getD 0)) = false) :
    (t.setDecModes params set).altActive = t.altActive := by
  rw [setDecModes]
  induction params generalizing t with
  | nil => rfl
  | cons p params ih =>
    obtain ⟨hp, hparams⟩ := Bool.or_eq_false_iff.mp h
    exact (ih hparams).trans (congrArg Outside.altActive
      (Leaves.setDecMode t (of_decide_eq_false hp) set).outside)

/-- **Only a switch changes the screen that is drawn on.** -/
theorem Sound.altActive_dispatch (h : t.Sound f) {a : Action} (ha : a.Sound) (hnone : a.screenSwitch = none) :
    (t.dispatch a).altActive = t.altActive := by
  have hkept : ∀ {u : Terminal γ}, u.Sound f → u.altActive = t.altActive := fun hu => hu.altActive.trans h.altActive.symm
  cases a with
  | print c => exact hkept (h.print ha)
  | execute b => exact hkept (h.execute b)
  | osc data bel => exact hkept (h.oscDispatch ha bel)
  | dcs params intermediates final data => exact hkept (h.dcsDispatch _ _ _)
  | apc data => exact hkept (h.apcDispatch data)
  | esc intermediates final =>
    cases intermediates with
    | cons im rest => exact hkept <| ite h.decaln <| ite { h with } <| ite { h with } h
    | nil =>
      have hreset : final ≠ byte 'c' := fun heq => by simp [Action.screenSwitch, heq] at hnone
      show (t.escDispatch [] final).altActive = _
      rw [Terminal.escDispatch]
      dsimp only [List.head?_nil]
      rw [if_neg hreset]
      exact hkept <| ite h.saveCursor <| ite h.restoreCursor <| ite h.index <|
        ite (index { h with col_lt := h.cols_pos }) <| ite h.setTab <| ite h.reverseIndex <| ite { h with } <|
        ite { h with } <| ite (h.respond _) h
  | csi params intermediates marker final =>
    cases intermediates with
    | cons im rest => exact hkept (h.csiIntermediate _ _ _ _)
    | nil =>
      show (t.csiDispatch params [] marker final).altActive = _
      rw [Terminal.csiDispatch]
      dsimp only [List.head?_nil]
      split
      · exact hkept (h.csiPlain _ _)
      · split
        · next hmarker =>
            by_cases hset : final = byte 'h' ∨ final = byte 'l'
            · have hmodes : (params.any fun p => switchesScreen (p.head?.getD 0)) = false := by
                simpa [Action.screenSwitch, hmarker, hset] using hnone
              rcases hset with rfl | rfl
              · exact altActive_setDecModes true hmodes
              · exact altActive_setDecModes false hmodes
            · rw [not_or] at hset
              rw [Terminal.csiQuestion, if_neg hset.1, if_neg hset.2]
              exact hkept <| ite (h.eraseDisplay _ _) <| ite (h.eraseLine _ _) <| ite (ite (h.respond _) h) <|
                ite (h.respond _) h
        · exact hkept (h.csiMarked _ _ _)

theorem SoundFor.altActive_dispatchAll (h : t.SoundFor f) {actions : List Action} (hactions : ∀ a ∈ actions, a.Sound)
    (hnone : recordedBy actions = none) : (actions.foldl dispatch t).altActive = t.altActive := by
  induction actions generalizing t with
  | nil => rfl
  | cons a actions ih =>
    obtain ⟨cols, altActive, h⟩ := h
    rw [List.forall_mem_cons] at hactions
    obtain ⟨hrest, ha⟩ := Option.or_eq_none_iff.mp hnone
    exact (ih (h.dispatch hactions.1) hactions.2 hrest).trans (h.altActive_dispatch hactions.1 ha)

theorem Good.altActive_process (h : t.Good ring) {bytes : List UInt8}
    (hnone : recordedBy (t.parser.run bytes).2 = none) : (t.process bytes).altActive = t.altActive := by
  induction bytes generalizing t with
  | nil => rfl
  | cons b bytes ih =>
    rw [Parser.run_cons, recordedBy_append, Option.or_eq_none_iff] at hnone
    rw [process_cons]
    refine (ih (h.processByte b) (by rw [Terminal.parser_processByte]; exact hnone.1)).trans ?_
    obtain ⟨f, -, hparser, hs⟩ := h
    rw [hs.parser] at hnone
    have hbefore : Sound { f with parser := (f.parser.advance b).1 }
        { t with parser := (f.parser.advance b).1 } := { hs with parser := rfl }
    rw [Terminal.processByte, hs.parser]
    exact SoundFor.altActive_dispatchAll hbefore.soundFor (Parser.sound_advance hparser b).actions hnone.2

/-! ### What takes the place of a switch -/

variable (γ) in
/-- Read between sequences, these bytes end between sequences and switch nothing. -/
def Pins (bytes : List UInt8) : Prop := ∀ ⦃ring : ℕ⦄ ⦃t : Terminal γ⦄, t.Good ring → t.parser.Rests →
  (t.process bytes).parser.Rests ∧ (t.process bytes).altActive = t.altActive

variable {xs ys : List UInt8}

theorem pins_of_quiet (h : Quiet γ xs) : Pins γ xs :=
  fun _ _ _ ht => ⟨(h _ ht).1, congrArg Outside.altActive (h _ ht).2⟩

theorem Pins.append (hx : Pins γ xs) (hy : Pins γ ys) : Pins γ (xs ++ ys) := by
  intro ring t h ht
  obtain ⟨hrest, halt⟩ := hx h ht
  obtain ⟨hrest', halt'⟩ := hy (h.process xs) hrest
  rw [process_append]
  exact ⟨hrest', halt'.trans halt⟩

theorem pins_of_run (h : ∀ p : Parser, p.Rests → (p.run xs).1.Rests ∧ recordedBy (p.run xs).2 = none) : Pins γ xs := by
  intro ring t ht hrest
  rw [parser_process]
  exact ⟨(h _ hrest).1, ht.altActive_process (h _ hrest).2⟩

/-- It is enough to read them once, from the start. -/
theorem pins_closed (hrest : (Parser.run {} xs).1.Rests) (hnone : recordedBy (Parser.run {} xs).2 = none) : Pins γ xs := by
  refine pins_of_run fun p hp => ?_
  obtain ⟨hstay, hsame⟩ := Parser.run_alike hp.live xs
  obtain ⟨hstate, hneed, -⟩ := (p.run xs).1.live_spec
  rw [hstay] at hstate hneed
  obtain ⟨hstate', hneed', -⟩ := (Parser.run {} xs).1.live_spec
  exact ⟨⟨hstate.symm.trans (hstate'.trans hrest.state), hneed.symm.trans (hneed'.trans hrest.need)⟩, hsame.trans hnone⟩

/-- An escape breaks off whatever the machine was reading. -/
theorem Pins.interrupt {rest : List UInt8} (h : Pins γ (esc :: rest)) (ht : t.Good ring) (hp : t.parser.Tidy) :
    (t.process (esc :: rest)).parser.Rests ∧ (t.process (esc :: rest)).altActive = t.altActive := by
  obtain ⟨hstate, hquiet⟩ := t.parser.advance_esc
  have hsame : (t.processByte esc).altActive = t.altActive := by
    have hnone : recordedBy (t.parser.run [esc]).2 = none := by
      rw [Parser.run_cons, recordedBy_append]
      exact recordedBy_eq_none hquiet
    exact ht.altActive_process hnone
  -- as if it had been at rest
  obtain ⟨p, hparser⟩ : ∃ p, p = (t.parser.advance esc).1 := ⟨_, rfl⟩
  have hrests : Parser.Rests { p with state := .ground } :=
    ⟨rfl, by rw [hparser]; exact (Parser.tidy_advance hp esc).ground (by rw [esc, hstate]; decide)⟩
  have hgood : Good ring { t.processByte esc with parser := { p with state := .ground } } := by
    obtain ⟨f, hring, -, hs⟩ := ht.processByte esc
    exact ⟨{ f with parser := { p with state := .ground } }, hring, .ground rfl, { hs with parser := rfl }⟩
  have hagain : process { t.processByte esc with parser := { p with state := .ground } } (esc :: rest) =
      t.process (esc :: rest) := by
    have hback : { p with state := .escape } = (t.processByte esc).parser := by
      rw [parser_processByte, ← hparser, ← show p.state = .escape by rw [hparser]; exact hstate]
    rw [process_cons, process_cons, processByte]
    dsimp only
    rw [hrests.advance_esc]
    dsimp only [List.foldl_nil]
    rw [hback]
  rw [← hagain]
  obtain ⟨hrest, halt⟩ := h hgood hrests
  exact ⟨hrest, halt.trans hsame⟩

theorem pins_all {ws : List Writer} (h : ∀ w ∈ ws, ∀ st, Pins γ (w st).1) : ∀ st, Pins γ (Writer.all ws st).1 := by
  induction ws with
  | nil => exact fun _ => pins_of_quiet Quiet.nil
  | cons w ws ih =>
    obtain ⟨hw, hws⟩ := List.forall_mem_cons.mp h
    exact fun st => Pins.append (hw st) (ih hws _)

/-- **The repaint.** -/
theorem pins_dumpScreenSwitch {s : Terminal γ} (hs : s.Good ring) : Pins γ s.dumpScreenSwitch := by
  obtain ⟨f, -, -, hs⟩ := hs
  have hset := fun {n} h => quiet_decset (γ := γ) (n := n) h
  obtain ⟨_, hfits⟩ := hs.scr_fits
  rw [dumpScreenSwitch]
  dsimp only
  refine pins_all ?_ {}
  simp only [List.mem_cons, List.not_mem_nil, or_false, forall_eq_or_imp, forall_eq]
  have hclear : Pins γ (decrst 25 ++ drawableStateReset ++ csi (decimal 2) 'J') :=
    pins_closed ⟨by decide +kernel, by decide +kernel⟩ (by decide +kernel)
  refine ⟨fun _ => hclear, fun st => pins_of_quiet (calm_drawGrid hs hfits st), fun _ => pins_of_quiet ?_,
    fun st => pins_of_quiet (calm_dumpCursor hs _ st), fun _ => pins_of_quiet (.ite (hset (by decide)) .nil)⟩
  refine .append (.append (.append (.append (.append (.ite ?_ .nil) (.ite (hset (by decide)) .nil))
    (quiet_dumpCharsets s)) (.ite ?_ .nil)) (.ite .nil (quiet_decrst (by decide))))
    (.flatMap fun p _ => quiet_dumpPlacement s p)
  · exact quiet_csi (numbers_params _ _) (by decide) fun t params => Leaves.setRegion t params
  · exact quiet_csi (decimal_params 4) (by decide) fun t params => rfl

theorem pins_risSubstitute : Pins γ risSubstitute :=
  pins_closed ⟨by decide +kernel, by decide +kernel⟩ (by decide +kernel)

end Terminal

/-! ### What is left of a switch -/

namespace Parser

variable {p : Parser} {n v : ℕ} {final : UInt8} {part : List UInt8} {parts : List (List UInt8)}

/-- In a private sequence, with no parameter that switches; the last one is `v` so far. -/
structure Unswitching (v : ℕ) (p : Parser) : Prop where
  state : p.state = .csiEntry ∨ p.state = .csiParam
  need : p.utf8Need = 0
  params : ∀ x ∈ p.params, switchesScreen (x.head?.getD 0) = false
  curParts : p.curParts = []
  curVal : p.curVal = min v 65535

theorem Unswitching.digits (h : p.Unswitching v) (hpart : ∀ b ∈ part, 0x30 ≤ b.toNat ∧ b.toNat ≤ 0x39) :
    ∃ n q, digitsValue v part = some n ∧ p.run part = (q, []) ∧ q.Unswitching n := by
  induction part generalizing p v with
  | nil => exact ⟨v, p, rfl, rfl, h⟩
  | cons b part ih =>
    obtain ⟨hb, hpart⟩ := List.forall_mem_cons.mp hpart
    have hval : min (p.curVal * 10 + (b.toNat - 0x30)) 65535 = min (v * 10 + (b.toNat - 0x30)) 65535 := by
      rw [h.curVal]
      omega
    have hnext : Unswitching (v * 10 + (b.toNat - 0x30)) (p.paramByte b) := by
      rw [paramByte, if_pos hb.2]
      exact { h with state := .inr rfl, curVal := hval }
    obtain ⟨n, q, hn, hrun, hq⟩ := ih hnext hpart
    refine ⟨n, q, ?_, ?_, hq⟩
    · rw [digitsValue, if_pos hb, hn]
    · rw [run_cons_nil (advance_param h.state ⟨hb.1, by omega⟩), hrun]

/-- A mode is cut as the machine cuts it, which makes no other one of the alternate screen. -/
theorem switchesScreen_min (hn : digitsValue 0 part = some n) (h : switchesScreen (parseU32 part) = false) :
    switchesScreen (min n 65535) = false := by
  rw [parseU32, hn] at h
  simp only [switchesScreen, decide_eq_false_iff_not] at h ⊢
  split at h <;> omega

theorem Unswitching.pushed (h : p.Unswitching n) (hn : switchesScreen (min n 65535) = false) {c : Prop} [Decidable c] :
    ∀ x ∈ (if c then p.params ++ [p.curParts ++ [p.curVal]] else p.params), switchesScreen (x.head?.getD 0) = false := by
  split
  · refine List.forall_mem_append.mpr ⟨h.params, List.forall_mem_singleton.mpr ?_⟩
    rw [h.curParts, h.curVal]
    exact hn
  · exact h.params

theorem Unswitching.joined (h : p.Unswitching 0)
    (hdigits : ∀ part' ∈ part :: parts, ∀ b ∈ part', 0x30 ≤ b.toNat ∧ b.toNat ≤ 0x39)
    (hkept : ∀ part' ∈ part :: parts, switchesScreen (parseU32 part') = false) :
    ∃ n q, p.run ([byte ';'].intercalate (part :: parts)) = (q, []) ∧ q.Unswitching n ∧
      switchesScreen (min n 65535) = false := by
  induction parts generalizing p part with
  | nil =>
    obtain ⟨n, q, hn, hrun, hq⟩ := h.digits (hdigits part (List.mem_cons_self))
    rw [List.intercalate_singleton]
    exact ⟨n, q, hrun, hq, switchesScreen_min hn (hkept part (List.mem_cons_self))⟩
  | cons part' parts ih =>
    obtain ⟨hpart, hdigits⟩ := List.forall_mem_cons.mp hdigits
    obtain ⟨hkept', hkept⟩ := List.forall_mem_cons.mp hkept
    obtain ⟨n, q, hn, hrun, hq⟩ := h.digits hpart
    have hsemi : q.advance (byte ';') = (q.paramByte (byte ';'), []) := advance_param hq.state (by decide)
    have hnext : (q.paramByte (byte ';')).Unswitching 0 :=
      ⟨.inr (state_paramByte _ _), hq.need, hq.pushed (switchesScreen_min hn hkept'), rfl, rfl⟩
    rw [List.intercalate_cons_cons, List.append_assoc, run_append_nil hrun, List.singleton_append, run_cons_nil hsemi]
    exact ih hnext hdigits hkept

/-- **What is left of a switch switches nothing**, and the machine is at rest behind it. -/
theorem strips {seq rest : List UInt8} (hrest : stripAltScreenParams seq = some rest) :
    ∃ tail, rest = esc :: tail ∧ ∀ p : Parser, p.Rests → (p.run rest).1.Rests ∧ recordedBy (p.run rest).2 = none := by
  unfold stripAltScreenParams at hrest
  split at hrest
  · split at hrest
    · cases hrest
    · next body final hlast =>
      dsimp only at hrest
      split_ifs at hrest with hfinal hdigits hkept
      cases hrest
      refine ⟨_, rfl, fun p h => ?_⟩
      obtain ⟨part, parts, hparts⟩ := List.exists_cons_of_ne_nil hkept
      rw [hparts]
      simp only [List.all_eq_true, decide_eq_true_eq] at hdigits
      have hmem : ∀ part' ∈ part :: parts, (∀ b ∈ part', 0x30 ≤ b.toNat ∧ b.toNat ≤ 0x39) ∧
          switchesScreen (parseU32 part') = false := fun part' hpart => by
        rw [← hparts, List.mem_filter, Bool.not_eq_true'] at hpart
        exact ⟨hdigits part' hpart.1, hpart.2⟩
      obtain ⟨q, hbegin, hentered, hstate, -⟩ := h.entered
      obtain ⟨r, hmark, hr⟩ := hentered.mark (m := byte '?') hstate (by decide)
      have hfresh : r.Unswitching 0 := ⟨hr.state, hr.need, fun x hx => (List.not_mem_nil (hr.params ▸ hx)).elim,
        hr.curParts, hr.curVal⟩
      obtain ⟨n, last, hrun, hlast, hn⟩ := hfresh.joined (fun part' h => (hmem part' h).1) fun part' h => (hmem part' h).2
      have hend : last.advance final = last.csiDispatch final :=
        advance_final hlast.state (by rcases hfinal with rfl | rfl <;> decide)
      have hread : p.run (esc :: byte '[' :: byte '?' :: [byte ';'].intercalate (part :: parts) ++ [final]) =
          last.run [final] := by
        rw [show esc :: byte '[' :: byte '?' :: [byte ';'].intercalate (part :: parts) ++ [final] =
          [esc, byte '['] ++ (byte '?' :: ([byte ';'].intercalate (part :: parts) ++ [final])) from rfl,
          run_append_nil hbegin, run_cons_nil hmark, run_append_nil hrun]
      rw [hread, run_cons, run_nil, hend]
      refine ⟨⟨rfl, hlast.need⟩, ?_⟩
      have hparams : ∀ x ∈ last.takeParams.1, switchesScreen (x.head?.getD 0) = false := by
        rw [takeParams]
        dsimp only
        split
        · exact hlast.pushed hn
        · exact hlast.params
      show Option.or none (Action.screenSwitch _) = none
      refine if_neg fun hswitch => ?_
      obtain ⟨x, hx, hon⟩ := List.any_eq_true.mp hswitch.2.2.2
      rw [hparams x hx] at hon
      cases hon
  · cases hrest

end Parser

/-! ### The terminal attached -/

namespace ScreenSwitchFilter

open Terminal (Good Leaves Outside Pins Records parser_process process_append processByte_screenSwitch)

variable {γ : Type} [GraphicsStore γ] {f : ScreenSwitchFilter γ} {outer s : Terminal γ} {ring : ℕ} {screen : Bool}

/-- What takes the place of a switch begins with an escape. -/
theorem pins_substitute (hs : s.Good ring) (seq : List UInt8) (kind : ScreenSwitch) :
    ∃ tail, substitute seq kind ++ s.dumpScreenSwitch = esc :: tail ∧ Pins γ (esc :: tail) := by
  have hdump := pins_dumpScreenSwitch hs
  cases kind with
  | reset => exact ⟨_, rfl, pins_risSubstitute.append hdump⟩
  | alt =>
    rw [substitute]
    cases hstrip : stripAltScreenParams seq with
    | none => exact ⟨_, rfl, hdump⟩
    | some rest =>
      obtain ⟨tail, rfl, hrest⟩ := Parser.strips hstrip
      exact ⟨_, rfl, (pins_of_run hrest).append hdump⟩

theorem good_next (h : s.Good ring) (b : UInt8) : (s.processByte b).takeScreenSwitch.2.Good ring := by
  obtain ⟨f, hring, hparser, hs⟩ := h.processByte b
  exact ⟨f, hring, hparser, { hs with }⟩

/-- **What a byte does**: a repaint takes its sequence's place, or it is held, or all that is held is passed on. -/
theorem feedByte_cases (hgood : f.term.Good ring) (htaken : f.term.screenSwitch = none) (b : UInt8) :
    ∃ t, t = (f.term.processByte b).takeScreenSwitch.2 ∧ ((recordedBy (f.term.parser.advance b).2 ≠ none ∧
          ∃ tail, f.feedByte b = { term := t, out := f.out ++ esc :: tail } ∧ Pins γ (esc :: tail)) ∨
        recordedBy (f.term.parser.advance b).2 = none ∧
          (f.feedByte b = { f with term := t, held := f.held ++ [b] } ∧ f.held.length < maxHeld ∨
            f.feedByte b = { term := t, out := f.out ++ (f.held ++ [b]) })) := by
  refine ⟨_, rfl, ?_⟩
  have hkind : (f.term.process [b]).takeScreenSwitch =
      (recordedBy (f.term.parser.advance b).2, (f.term.processByte b).takeScreenSwitch.2) :=
    Prod.ext ((processByte_screenSwitch f.term b).trans (by rw [htaken, Option.or_none])) rfl
  rw [feedByte, hkind]
  cases recordedBy (f.term.parser.advance b).2 with
  | some kind =>
    obtain ⟨tail, heq, hpins⟩ := pins_substitute (good_next hgood b) (f.held ++ [b]) kind
    exact .inl ⟨Option.some_ne_none _, tail, by dsimp only; rw [heq], hpins⟩
  | none =>
    refine .inr ⟨rfl, ?_⟩
    dsimp only
    split
    · exact .inr rfl
    · split
      · exact .inr rfl
      · next hlen =>
        rw [List.length_append, List.length_singleton] at hlen
        exact .inl ⟨rfl, by omega⟩

/-- The terminal attached shows the screen that it was put on, and has read what the daemon has, but for what is held. -/
structure Mirrors (screen : Bool) (outer : Terminal γ) (f : ScreenSwitchFilter γ) : Prop where
  good : ∃ ring, f.term.Good ring
  taken : f.term.screenSwitch = none
  tidy : f.term.parser.Tidy
  held : f.held.length ≤ maxHeld
  outerGood : ∃ ring, outer.Good ring
  outerTidy : outer.parser.Tidy
  screen : outer.altActive = screen
  live : (outer.parser.run f.held).1.live = f.term.parser.live
  quiet : recordedBy (outer.parser.run f.held).2 = none

theorem Mirrors.feedByte (h : Mirrors screen (outer.process f.out) f) (b : UInt8) :
    Mirrors screen (outer.process (f.feedByte b).out) (f.feedByte b) := by
  obtain ⟨ring, hgood⟩ := h.good
  obtain ⟨ring', hread⟩ := h.outerGood
  obtain ⟨t, ht, hcases⟩ := feedByte_cases hgood h.taken b
  have hgood' : t.Good ring := ht ▸ good_next hgood b
  have htaken : t.screenSwitch = none := by rw [ht]; rfl
  have hparser : t.parser = (f.term.parser.advance b).1 := ht ▸ parser_processByte f.term b
  have htidy : t.parser.Tidy := hparser ▸ Parser.tidy_advance h.tidy b
  have hprocess : ∀ bytes, ((outer.process f.out).process bytes).parser.Tidy := fun bytes => by
    rw [parser_process]
    exact Parser.tidy_run h.outerTidy bytes
  have hstep := Parser.Alike.advance h.live b
  have hlive : ((outer.process f.out).parser.run (f.held ++ [b])).1.live = t.parser.live := by
    rw [Parser.run_concat, hparser]
    exact hstep.live
  have hquiet : recordedBy (f.term.parser.advance b).2 = none →
      recordedBy ((outer.process f.out).parser.run (f.held ++ [b])).2 = none := fun hnone => by
    rw [Parser.run_append, recordedBy_append, h.quiet, Option.or_none, Parser.run_cons, recordedBy_append]
    exact hstep.recorded.trans hnone
  obtain ⟨hswitch, tail, heq, hpins⟩ | ⟨hnone, ⟨heq, hlen⟩ | heq⟩ := hcases
  · have hmid := (switch_ends hswitch).1
    have hstate : f.term.parser.state ≠ .ground := fun hground => by
      rw [midEscape, Parser.midEscape, hground] at hmid
      cases hmid
    have hrests : t.parser.Rests := by
      rw [hparser]
      exact ⟨(Parser.Alike.advance rfl b).lands.resolve_left hswitch,
        (Parser.SameUtf8.advance hstate b).need.trans (h.tidy.ground hstate)⟩
    -- whatever was passed on of the sequence, the escape breaks it off
    obtain ⟨hrest, hscreen⟩ := hpins.interrupt hread h.outerTidy
    rw [heq, process_append]
    exact ⟨⟨ring, hgood'⟩, htaken, htidy, Nat.zero_le _, ⟨ring', hread.process _⟩, hprocess _,
      hscreen.trans h.screen, hrest.live.trans hrests.live.symm, rfl⟩
  · rw [heq]
    exact ⟨⟨ring, hgood'⟩, htaken, htidy, by rw [List.length_append, List.length_singleton]; exact hlen, h.outerGood,
      h.outerTidy, h.screen, hlive, hquiet hnone⟩
  · rw [heq, process_append]
    refine ⟨⟨ring, hgood'⟩, htaken, htidy, Nat.zero_le _, ⟨ring', hread.process _⟩, hprocess _,
      (hread.altActive_process (hquiet hnone)).trans h.screen, ?_, rfl⟩
    rw [parser_process]
    exact hlive

/-! ### Reads -/

/-- Where nothing is withheld and no sequence can begin, a byte is passed on. -/
theorem feedByte_plain (htaken : f.term.screenSwitch = none) (hheld : f.held = []) (hmid : f.term.midEscape = false)
    {b : UInt8} (hb : ¬ Parser.Introduces b) :
    f.feedByte b = { f with term := f.term.processByte b, out := f.out ++ [b] } ∧
      (f.term.processByte b).screenSwitch = none ∧ (f.term.processByte b).midEscape = false := by
  have hbounded := Parser.Bounded.advance f.term.parser b
  have hafter : (f.term.processByte b).midEscape = false := by
    rw [midEscape, parser_processByte]
    refine (Bool.not_eq_true _).mp fun hmid' => ?_
    rcases hbounded.begun hmid' with hopened | hwas
    · exact hb (hopened.imp And.left And.left)
    · exact absurd (hmid.symm.trans hwas.2) (by decide)
  have hnone : (f.term.processByte b).screenSwitch = none := by
    rw [processByte_screenSwitch, htaken, Option.or_none]
    exact recordedBy_eq_none ((Bool.not_eq_true _).mp fun hsequence =>
      absurd (hmid.symm.trans (hbounded.ended hsequence).1) (by decide))
  refine ⟨?_, hnone, hafter⟩
  have htake : (f.term.process [b]).takeScreenSwitch = (none, f.term.processByte b) := Prod.ext hnone
    (show { f.term.processByte b with screenSwitch := none } = f.term.processByte b by rw [← hnone])
  rw [feedByte, htake]
  dsimp only
  rw [hafter, hheld]
  rfl

/-- **The fast path agrees with the loop.** -/
theorem feed_eq (htaken : f.term.screenSwitch = none) (chunk : List UInt8) : f.feed chunk = chunk.foldl feedByte f := by
  rw [feed]
  split
  · next hfast =>
    obtain ⟨hheld, hmid, hplain⟩ := hfast
    induction chunk generalizing f with
    | nil =>
      rw [process, List.append_nil]
      rfl
    | cons b chunk ih =>
      rw [List.any_cons, Bool.not_or, Bool.and_eq_true, Bool.not_eq_true', decide_eq_false_iff_not] at hplain
      obtain ⟨heq, htaken', hmid'⟩ := feedByte_plain htaken hheld hmid hplain.1
      have hrest := ih (f := { f with term := f.term.processByte b, out := f.out ++ [b] }) htaken' hheld hmid' hplain.2
      rw [List.foldl_cons, heq, ← hrest, process_cons, List.append_assoc, List.singleton_append]
  · rfl

theorem taken_feedByte (f : ScreenSwitchFilter γ) (b : UInt8) : (f.feedByte b).term.screenSwitch = none := by
  rw [feedByte, takeScreenSwitch]
  cases (f.term.process [b]).screenSwitch with
  | some kind => rfl
  | none =>
    dsimp only
    split
    · rfl
    · split <;> rfl

theorem feeds_eq (htaken : f.term.screenSwitch = none) (reads : List (List UInt8)) :
    reads.foldl feed f = reads.flatten.foldl feedByte f := by
  have hloop : ∀ (bytes : List UInt8) (f : ScreenSwitchFilter γ), f.term.screenSwitch = none →
      (bytes.foldl feedByte f).term.screenSwitch = none := fun bytes => by
    induction bytes with
    | nil => exact fun _ h => h
    | cons b bytes ih => exact fun f _ => ih _ (taken_feedByte f b)
  induction reads generalizing f with
  | nil => rfl
  | cons chunk reads ih =>
    rw [List.foldl_cons, feed_eq htaken, ih (hloop chunk f htaken), List.flatten_cons, List.foldl_append]

/-- **Where reads are cut makes no difference.** -/
theorem reads_cut (rows cols scrollback : ℕ) (reads : List (List UInt8)) :
    reads.foldl feed { term := .withScrollback rows cols scrollback } =
      feed ({ term := .withScrollback rows cols scrollback } : ScreenSwitchFilter γ) reads.flatten :=
  (feeds_eq rfl reads).trans (feed_eq rfl _).symm

theorem passes_feedByte : ∀ (bytes : List UInt8) {f : ScreenSwitchFilter γ}, f.term.Good ring →
    f.term.screenSwitch = none → recordedBy (f.term.parser.run bytes).2 = none →
    (bytes.foldl feedByte f).out ++ (bytes.foldl feedByte f).held = f.out ++ f.held ++ bytes
  | [], _, _, _, _ => (List.append_nil _).symm
  | b :: bytes, f, hgood, htaken, hnone => by
    rw [Parser.run_cons, recordedBy_append, Option.or_eq_none_iff] at hnone
    obtain ⟨t, ht, ⟨hrec, -⟩ | ⟨-, ⟨heq, -⟩ | heq⟩⟩ := feedByte_cases hgood htaken b
    · exact absurd hnone.2 hrec
    all_goals
      have hrest := passes_feedByte bytes (f := f.feedByte b) (heq ▸ ht ▸ good_next hgood b) (heq ▸ ht ▸ rfl)
        (heq ▸ ht ▸ f.term.parser_processByte b ▸ hnone.1)
      rw [List.foldl_cons, hrest, heq]
      simp

/-- **A session that switches no screen passes unchanged**, but for what is held. -/
theorem passes_reads {rows cols scrollback : ℕ} {reads : List (List UInt8)} {f : ScreenSwitchFilter γ}
    (hf : f = reads.foldl feed { term := .withScrollback rows cols scrollback })
    (h : recordedBy (Parser.run {} reads.flatten).2 = none) : f.out ++ f.held = reads.flatten := by
  rw [hf, feeds_eq rfl]
  exact passes_feedByte reads.flatten (good_run rows cols scrollback []) rfl h

/-- A sequence that is cut in two. -/
theorem passes_reads_cut :
    let f : ScreenSwitchFilter Unit := [[esc], [0x5b, 0x6d]].foldl feed { term := .withScrollback 1 1 0 }
    f.out ++ f.held = [esc, 0x5b, 0x6d] :=
  passes_reads rfl (by decide +kernel)

/-! ### Interleavings -/

/-- What may happen: a read or a resize of the session, or a resize of the terminal attached, which is given what is
passed on. -/
def step (s : Terminal γ × ScreenSwitchFilter γ) : Call ⊕ (ℕ × ℕ) → Terminal γ × ScreenSwitchFilter γ
  | .inl c => (s.1.process (s.2.call c).out, { s.2.call c with out := [] })
  | .inr (rows, cols) => (s.1.resize rows cols, s.2)

theorem Mirrors.feed (h : Mirrors screen (outer.process f.out) f) (chunk : List UInt8) :
    Mirrors screen (outer.process (f.feed chunk).out) (f.feed chunk) := by
  rw [feed_eq h.taken]
  induction chunk generalizing f with
  | nil => exact h
  | cons b chunk ih => exact ih (h.feedByte b)

theorem Mirrors.event (h : Mirrors screen outer f) (hout : f.out = []) (e : Call ⊕ (ℕ × ℕ)) :
    Mirrors screen (step (outer, f) e).1 (step (outer, f) e).2 ∧ (step (outer, f) e).2.out = [] := by
  have hread : outer.process f.out = outer := by rw [hout]; rfl
  rcases e with c | ⟨rows, cols⟩
  · refine ⟨?_, rfl⟩
    cases c with
    | process bytes => exact { Mirrors.feed (by rwa [hread]) bytes with }
    | resize rows cols =>
      obtain ⟨ring, hgood⟩ := h.good
      have hsame := Records.resize f.term rows cols
      show Mirrors screen (outer.process f.out) { f with term := f.term.resize rows cols, out := [] }
      rw [hread]
      exact { h with
        good := ⟨ring, hgood.call (.resize rows cols)⟩
        taken := hsame.screenSwitch.trans h.taken
        tidy := hsame.parser ▸ h.tidy
        live := hsame.parser ▸ h.live }
  · obtain ⟨ring, hgood⟩ := h.outerGood
    obtain ⟨hparser, -⟩ := Records.resize outer rows cols
    refine ⟨{ h with
      outerGood := ⟨ring, hgood.call (.resize rows cols)⟩
      outerTidy := hparser.symm ▸ h.outerTidy
      screen := (congrArg Outside.altActive (Leaves.resize outer rows cols).outside).trans h.screen
      live := ?_
      quiet := ?_ }, hout⟩ <;> dsimp only [step] <;> rw [hparser]
    · exact h.live
    · exact h.quiet

theorem tidy_fresh : ({} : Parser).Tidy := ⟨fun _ => rfl, fun _ => rfl, List.forall_mem_nil _⟩

theorem tidy_calls (h : outer.parser.Tidy) (calls : List Call) : (calls.foldl Terminal.call outer).parser.Tidy := by
  induction calls generalizing outer with
  | nil => exact h
  | cons c calls ih =>
    refine ih ?_
    cases c with
    | process bytes => exact parser_process outer bytes ▸ Parser.tidy_run h bytes
    | resize rows cols => exact (Records.resize outer rows cols).parser.symm ▸ h

/-- The terminal attached and the filter of a new session, after some events. -/
def attached (outer : Terminal γ) (rows cols scrollback : ℕ) (events : List (Call ⊕ (ℕ × ℕ))) :
    Terminal γ × ScreenSwitchFilter γ :=
  events.foldl step (outer, { term := .withScrollback rows cols scrollback })

/-- **The terminal attached keeps the screen that it was put on**, whatever the session writes, however its reads are
cut and whichever is resized in between; and what is withheld is bounded. -/
theorem outer_keeps_screen {rows cols scrollback : ℕ} {calls : List Call}
    (houter : outer = .run rows cols scrollback calls) (hrests : outer.parser.Rests) (rows' cols' scrollback' : ℕ) (events : List (Call ⊕ (ℕ × ℕ))) :
    (attached outer rows' cols' scrollback' events).1.altActive = outer.altActive ∧
      (attached outer rows' cols' scrollback' events).2.held.length ≤ maxHeld := by
  have hrun : ∀ s : Terminal γ × ScreenSwitchFilter γ, Mirrors outer.altActive s.1 s.2 → s.2.out = [] →
      Mirrors outer.altActive (events.foldl step s).1 (events.foldl step s).2 := by
    induction events with
    | nil => exact fun _ h _ => h
    | cons e events ih =>
      intro s h hout
      obtain ⟨hstep, hout'⟩ := h.event hout e
      exact ih _ hstep hout'
  have hgood : outer.Good scrollback := houter ▸ Terminal.good_run rows cols scrollback calls
  have htidy : outer.parser.Tidy := houter ▸ tidy_calls tidy_fresh calls
  have hfinal := hrun (outer, { term := .withScrollback rows' cols' scrollback' })
    ⟨⟨_, Terminal.good_run rows' cols' scrollback' []⟩, rfl, tidy_fresh, Nat.zero_le _, ⟨_, hgood⟩, htidy, rfl,
      hrests.live, rfl⟩ rfl
  exact ⟨hfinal.screen, hfinal.held⟩

/-- A shell on the alternate screen, which an application is said to leave. -/
theorem outer_keeps_screen_alternate :
    let outer : Terminal Unit := .run 1 2 0 [.process (decset 1049)]
    let after := attached outer 1 1 0 [.inl (.process (decrst 1049)), .inr (1, 1), .inl (.process (decset 47))]
    after.1.altActive = outer.altActive ∧ after.2.held.length ≤ maxHeld :=
  outer_keeps_screen rfl ⟨by decide +kernel, by decide +kernel⟩ 1 1 0 _

end ScreenSwitchFilter

end Posh.Term
