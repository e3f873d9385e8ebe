/-
**A switch of screens completes within a sequence.**

What reaches the terminal attached must not leave its alternate screen, so a switch is taken out of the
stream and a repaint put in its place.  That works because only the last byte of a sequence records a
switch: a consumer that withholds what it is fed while a sequence is unfinished still holds the whole of
it then.
-/

import Posh.Term.Steady

set_option autoImplicit false

namespace Posh.Term

variable {γ : Type}

/-! ### What records a switch -/

/-- The private modes of the alternate screen. -/
def switchesScreen (n : ℕ) : Bool := n = 47 ∨ n = 1047 ∨ n = 1049

/-- The switch an action records: DECSET and DECRST of such a mode, and RIS. -/
def Action.screenSwitch : Action → Option ScreenSwitch
  | .csi params intermediates marker final =>
    if intermediates = [] ∧ marker = byte '?' ∧ (final = byte 'h' ∨ final = byte 'l') ∧
        params.any fun p => switchesScreen (p.head?.getD 0)
    then some .alt else none
  | .esc intermediates final => if intermediates = [] ∧ final = byte 'c' then some .reset else none
  | _ => none

/-- The switch the actions record, the last one if there are several. -/
def recordedBy : List Action → Option ScreenSwitch
  | [] => none
  | a :: as => (recordedBy as).or a.screenSwitch

theorem recordedBy_eq_none {actions : List Action} (h : actions.any Action.isSequence = false) :
    recordedBy actions = none := by
  induction actions with
  | nil => rfl
  | cons a as ih =>
    obtain ⟨ha, has⟩ := Bool.or_eq_false_iff.mp h
    rw [recordedBy, ih has]
    cases a with
    | csi => cases ha
    | esc => cases ha
    | _ => rfl

namespace Terminal

/-- Inside an escape or control sequence. -/
def midEscape (t : Terminal γ) : Bool := t.parser.midEscape

def takeScreenSwitch (t : Terminal γ) : Option ScreenSwitch × Terminal γ :=
  (t.screenSwitch, { t with screenSwitch := none })

/-- A switch is recorded over what is pending, the parser left as it is. -/
structure Records (recorded : Option ScreenSwitch) (t t' : Terminal γ) : Prop where
  parser : t'.parser = t.parser
  screenSwitch : t'.screenSwitch = recorded.or t.screenSwitch

namespace Records

variable {t t' t'' : Terminal γ} {recorded recorded' : Option ScreenSwitch}

theorem of_steady (h : Steady t t') : Records none t t' := ⟨h.parser, h.screenSwitch⟩

theorem trans (h : Records recorded t t') (h' : Records recorded' t' t'') :
    Records (recorded'.or recorded) t t'' :=
  ⟨h'.parser.trans h.parser, by rw [h'.screenSwitch, h.screenSwitch, Option.or_assoc]⟩

theorem andThen (h : Records recorded t t') (h' : Records none t' t'') : Records recorded t t'' := h.trans h'

theorem ite {c : Prop} [Decidable c] (h : Records recorded t t') (h' : Records recorded t t'') :
    Records recorded t (if c then t' else t'') := by
  split
  · exact h
  · exact h'

theorem touch (h : Records recorded t t') : Records recorded t t'.touch := ⟨h.parser, h.screenSwitch⟩

theorem clamped (h : Records recorded t t') : Records recorded t t'.clampToRegionIfOrigin :=
  ite ⟨h.parser, h.screenSwitch⟩ h

theorem toRow (t : Terminal γ) (row : ℕ) : Records none t (t.toRow row) := by
  have hclamp : ∀ row, Records none t (clampToRegionIfOrigin { t with cursor := { t.cursor with row } }) :=
    fun row => clamped ⟨rfl, rfl⟩
  exact ⟨(hclamp _).parser, (hclamp _).screenSwitch⟩

/-! ### Modes -/

theorem restoreCursor (t : Terminal γ) : Records none t t.restoreCursor := touch (clamped ⟨rfl, rfl⟩)

theorem saveCursor (t : Terminal γ) : Records none t t.saveCursor := of_steady (Still.saveCursor t).steady

theorem resize (t : Terminal γ) (rows cols : ℕ) : Records none t (t.resize rows cols) :=
  ite ⟨rfl, rfl⟩ ⟨rfl, rfl⟩

theorem setDeccolm (t : Terminal γ) (set : Bool) : Records none t (t.setDeccolm set) := by
  rw [Terminal.setDeccolm]
  refine ite ?_ ⟨rfl, rfl⟩
  have hafter : ∀ u : Terminal γ, Records none t u → Records none t
      (let u := { u with scrollTop := 0, scrollBot := u.rows - 1 }
      if u.modes.noClearOnDeccolm then u else u.modifyScr fun s => s.clearGrid {}) := by
    intro u hu
    have hregion : Records none t { u with scrollTop := 0, scrollBot := u.rows - 1 } :=
      ⟨hu.parser, hu.screenSwitch⟩
    exact ite hregion (hregion.andThen (of_steady (Still.modifyScr _ _).steady))
  have hresize : Records none t (Terminal.resize { t with modes := { t.modes with deccolm := set } } t.rows
      (if set then 132 else 80)) := ⟨(resize _ _ _).parser, (resize _ _ _).screenSwitch⟩
  exact ⟨(hafter _ hresize).parser, (hafter _ hresize).screenSwitch⟩

theorem setAltScreen (t : Terminal γ) (mode : ℕ) (set : Bool) :
    Records (some .alt) t (t.setAltScreen mode set) := by
  have hnoted : Records (some .alt) t { t with screenSwitch := some .alt } := ⟨rfl, rfl⟩
  rw [Terminal.setAltScreen]
  generalize { t with screenSwitch := some .alt } = u at hnoted ⊢
  have henter : Records none u (u.enterAlt mode) := by
    rw [enterAlt]
    have hsave := ite (c := mode = 1049) (saveCursor u) (of_steady (Steady.refl u))
    exact ⟨hsave.parser, hsave.screenSwitch⟩
  have hleave : Records none u (u.leaveAlt mode) := by
    rw [leaveAlt]
    have hrestore := restoreCursor
      { u with altActive := false, alt := if mode = 1047 then u.alt.clearGrid {} else u.alt }
    exact ite ⟨hrestore.parser, hrestore.screenSwitch⟩ ⟨rfl, rfl⟩
  have hswitch := hnoted.andThen (ite (c := (set && !u.altActive) = true) henter
    (ite (c := (!set && u.altActive) = true) hleave (of_steady (Steady.refl u))))
  exact ⟨hswitch.parser, hswitch.screenSwitch⟩

theorem setDecMode (t : Terminal γ) (n : ℕ) (set : Bool) :
    Records (if switchesScreen n then some .alt else none) t (t.setDecMode n set) := by
  rw [Terminal.setDecMode]
  refine touch ?_
  by_cases hn : n = 47 ∨ n = 1047 ∨ n = 1049
  · have hne : n ≠ 3 ∧ n ≠ 6 ∧ n ≠ 7 := by omega
    rw [if_neg hne.1, if_neg hne.2.1, if_neg hne.2.2, if_pos hn, switchesScreen, if_pos (decide_eq_true hn)]
    exact setAltScreen t n set
  · rw [if_neg hn, switchesScreen, if_neg (by rw [decide_eq_false hn]; decide)]
    exact ite (setDeccolm t set) <| ite ⟨rfl, rfl⟩ <| ite ⟨rfl, rfl⟩ <|
      ite (ite (saveCursor t) (restoreCursor t)) ⟨rfl, rfl⟩

theorem setDecModes (t : Terminal γ) (params : List (List ℕ)) (set : Bool) :
    Records (if params.any fun p => switchesScreen (p.head?.getD 0) then some .alt else none) t
      (t.setDecModes params set) := by
  rw [Terminal.setDecModes]
  induction params generalizing t with
  | nil => exact of_steady (Steady.refl t)
  | cons p params ih =>
    have hboth := (setDecMode t (p.head?.getD 0) set).trans (ih _)
    rw [List.any_cons]
    cases hp : switchesScreen (p.head?.getD 0) with
    | false =>
      rw [hp, if_neg Bool.false_ne_true, Option.or_none] at hboth
      exact hboth
    | true =>
      rw [hp, if_pos rfl] at hboth
      rw [Bool.true_or, if_pos rfl]
      split at hboth
      · exact hboth
      · exact hboth

/-! ### Sequences -/

theorem csiPlain (t : Terminal γ) (params : List (List ℕ)) (final : UInt8) :
    Records none t (t.csiPlain params final) := by
  by_cases hstill : ∀ c ∈ Still.moving, final ≠ byte c
  · exact of_steady (Still.csiPlain t params hstill).steady
  · push Not at hstill
    obtain ⟨c, hc, rfl⟩ := hstill
    simp only [Still.moving, List.mem_cons, List.not_mem_nil, or_false] at hc
    rcases hc with rfl | rfl | rfl | rfl | rfl | rfl | rfl | rfl | rfl | rfl | rfl | rfl
    case inr.inr.inr.inr.inr.inr.inl =>
      have hrepeat : Steady t (t.repeatChar (paramOr params 0 1)) := by
        rw [repeatChar]
        split
        · exact Steady.iterate (fun t => Steady.print t _) t _
        · exact Steady.refl t
      exact of_steady hrepeat
    case inr.inr.inr.inr.inr.inr.inr.inl => exact toRow t _
    case inr.inr.inr.inr.inr.inr.inr.inr.inr.inl => exact ite ⟨rfl, rfl⟩ ⟨rfl, rfl⟩
    case inr.inr.inr.inr.inr.inr.inr.inr.inr.inr.inl => exact ite ⟨rfl, rfl⟩ ⟨rfl, rfl⟩
    case inr.inr.inr.inr.inr.inr.inr.inr.inr.inr.inr => exact restoreCursor t
    all_goals exact ⟨rfl, rfl⟩

theorem csiIntermediate (t : Terminal γ) (params : List (List ℕ)) (im marker final : UInt8) :
    Records none t (t.csiIntermediate params im marker final) := by
  have hreset : Records none t t.softReset := by
    rw [softReset]
    dsimp only
    refine touch (trans ?_ (of_steady (Still.modifyKittyStack _ _).steady))
    exact ite ⟨rfl, rfl⟩ ⟨rfl, rfl⟩
  rw [Terminal.csiIntermediate]
  exact ite ⟨rfl, rfl⟩ <| ite ⟨rfl, rfl⟩ <| ite ⟨rfl, rfl⟩ <| ite hreset <| ite ⟨rfl, rfl⟩ <|
    ite ⟨rfl, rfl⟩ <| ite (of_steady (Still.popColors t).steady) <| ite ⟨rfl, rfl⟩ <|
    ite (ite ⟨rfl, rfl⟩ ⟨rfl, rfl⟩) ⟨rfl, rfl⟩

theorem csiQuestion (t : Terminal γ) (params : List (List ℕ)) (final : UInt8) :
    Records (if (final = byte 'h' ∨ final = byte 'l') ∧ params.any fun p => switchesScreen (p.head?.getD 0)
        then some .alt else none) t (t.csiQuestion params final) := by
  by_cases hset : final = byte 'h'
  · subst hset
    have hmodes : t.csiQuestion params (byte 'h') = t.setDecModes params true := rfl
    rw [hmodes]
    simpa only [true_or, true_and] using setDecModes t params true
  · by_cases hreset : final = byte 'l'
    · subst hreset
      have hmodes : t.csiQuestion params (byte 'l') = t.setDecModes params false := rfl
      rw [hmodes]
      simpa only [or_true, true_and] using setDecModes t params false
    · rw [if_neg fun h => h.1.elim hset hreset, Terminal.csiQuestion, if_neg hset, if_neg hreset]
      exact ite (of_steady (Still.eraseDisplay t _ _).steady) <|
        ite (of_steady (Still.eraseLine t _ _).steady) <| ite (ite ⟨rfl, rfl⟩ ⟨rfl, rfl⟩) <|
        ite ⟨rfl, rfl⟩ ⟨rfl, rfl⟩

theorem csiDispatch (t : Terminal γ) (params : List (List ℕ)) (intermediates : List UInt8)
    (marker final : UInt8) : Records (Action.csi params intermediates marker final).screenSwitch t
      (t.csiDispatch params intermediates marker final) := by
  rw [Terminal.csiDispatch, Action.screenSwitch]
  cases intermediates with
  | cons im rest =>
    rw [if_neg fun h => List.cons_ne_nil im rest h.1]
    exact csiIntermediate t params im marker final
  | nil =>
    by_cases hzero : marker = 0
    · rw [if_neg fun h => by rw [hzero] at h; exact absurd h.2.1 (by decide)]
      subst hzero
      exact csiPlain t params final
    · by_cases hmarker : marker = byte '?'
      · subst hmarker
        dsimp only [List.head?_nil]
        rw [if_neg hzero, if_pos rfl]
        simpa only [true_and] using csiQuestion t params final
      · rw [if_neg fun h => hmarker h.2.1]
        dsimp only [List.head?_nil]
        rw [if_neg hzero, if_neg hmarker]
        exact of_steady (Still.csiMarked t params marker final).steady

variable [GraphicsStore γ]

theorem escDispatch (t : Terminal γ) (intermediates : List UInt8) (final : UInt8) :
    Records (Action.esc intermediates final).screenSwitch t (t.escDispatch intermediates final) := by
  rw [Terminal.escDispatch, Action.screenSwitch]
  cases intermediates with
  | cons im rest =>
    rw [if_neg fun h => List.cons_ne_nil im rest h.1]
    have hdecaln : Records none t t.decaln := by
      have hfill : ∀ (u : Terminal γ) (g : Screen → Screen), Records none u (u.modifyScr g) :=
        fun u g => of_steady (Still.modifyScr u g).steady
      exact ⟨(hfill _ _).parser, (hfill _ _).screenSwitch⟩
    exact ite hdecaln (ite ⟨rfl, rfl⟩ (ite ⟨rfl, rfl⟩ ⟨rfl, rfl⟩))
  | nil =>
    by_cases hreset : final = byte 'c'
    · subst hreset
      exact ⟨rfl, rfl⟩
    · rw [if_neg fun h => hreset h.2]
      exact ite (saveCursor t) <| ite (restoreCursor t) <| ite (of_steady (Steady.index t)) <|
        ite (of_steady (Steady.index { t with cursor := { t.cursor with col := 0 } })) <|
        ite ⟨rfl, rfl⟩ <| ite (of_steady (Steady.reverseIndex t)) <|
        (if_neg hreset).symm ▸ ite ⟨rfl, rfl⟩ (ite ⟨rfl, rfl⟩ (ite ⟨rfl, rfl⟩ ⟨rfl, rfl⟩))

end Records

variable [GraphicsStore γ] {t : Terminal γ}

/-- **Which actions record a switch**: DECSET and DECRST of 47, 1047 and 1049, and RIS. -/
theorem dispatch_records (t : Terminal γ) (a : Action) : Records a.screenSwitch t (t.dispatch a) := by
  cases a with
  | csi params intermediates marker final => exact .csiDispatch t params intermediates marker final
  | esc intermediates final => exact .escDispatch t intermediates final
  | _ => exact .of_steady (Steady.dispatch t rfl)

theorem dispatchAll_records (t : Terminal γ) (actions : List Action) :
    Records (recordedBy actions) t (actions.foldl dispatch t) := by
  induction actions generalizing t with
  | nil => exact .of_steady (Steady.refl t)
  | cons a as ih => exact (dispatch_records t a).trans (ih _)

theorem parser_processByte (t : Terminal γ) (b : UInt8) :
    (t.processByte b).parser = (t.parser.advance b).1 := (dispatchAll_records _ _).parser

theorem processByte_screenSwitch (t : Terminal γ) (b : UInt8) :
    (t.processByte b).screenSwitch = (recordedBy (t.parser.advance b).2).or t.screenSwitch :=
  (dispatchAll_records _ _).screenSwitch

theorem parser_process (t : Terminal γ) (bytes : List UInt8) :
    (t.process bytes).parser = (t.parser.run bytes).1 := by
  induction bytes generalizing t with
  | nil => rfl
  | cons b bytes ih => rw [process_cons, ih, parser_processByte, Parser.run_cons]

theorem takeScreenSwitch_processByte (t : Terminal γ) (b : UInt8) :
    (t.takeScreenSwitch.2.processByte b).takeScreenSwitch.1 = recordedBy (t.parser.advance b).2 := by
  rw [takeScreenSwitch, processByte_screenSwitch]
  exact Option.or_none

/-- **A switch is recorded by the last byte of a sequence.** -/
theorem switch_ends {b : UInt8} (h : recordedBy (t.parser.advance b).2 ≠ none) :
    t.midEscape = true ∧ (t.processByte b).midEscape = false := by
  have hsequence : (t.parser.advance b).2.any Action.isSequence = true := by
    by_contra hquiet
    exact h (recordedBy_eq_none ((Bool.not_eq_true _).mp hquiet))
  rw [midEscape, midEscape, parser_processByte]
  exact (Parser.Bounded.advance t.parser b).ended hsequence

end Terminal

open Terminal

/-! ### A consumer that withholds -/

/-- A consumer of what a terminal is fed: what it withholds, and what it has passed on. -/
structure Withholding (γ : Type) where
  term : Terminal γ
  held : List UInt8 := []
  forwarded : List UInt8 := []

namespace Withholding

variable [GraphicsStore γ] {w : Withholding γ} {b : UInt8}

/-- One byte.  With a switch what is held is dropped, for the repaint to take its place; otherwise it is
passed on once no sequence is unfinished. -/
def feedByte (w : Withholding γ) (b : UInt8) : Withholding γ :=
  match (w.term.processByte b).takeScreenSwitch with
  | (some _, t) => { term := t, held := [], forwarded := w.forwarded }
  | (none, t) =>
    if t.midEscape then { term := t, held := w.held ++ [b], forwarded := w.forwarded }
    else { term := t, held := [], forwarded := w.forwarded ++ (w.held ++ [b]) }

/-- A byte stream. -/
def feed (w : Withholding γ) (bytes : List UInt8) : Withholding γ := bytes.foldl feedByte w

theorem feed_concat (w : Withholding γ) (bytes : List UInt8) (b : UInt8) :
    w.feed (bytes ++ [b]) = (w.feed bytes).feedByte b := by
  rw [feed, List.foldl_append]
  rfl

/-- The consumer has read as the machine has, and holds nothing while that is at rest. -/
structure Follows (w : Withholding γ) (p : Parser) : Prop where
  parser : w.term.parser = p
  taken : w.term.screenSwitch = none
  rests : p.midEscape = false → w.held = []

variable {p : Parser}

theorem Follows.feedByte_eq (h : w.Follows p) (b : UInt8) :
    w.feedByte b = match recordedBy (p.advance b).2 with
      | some _ => { term := (w.term.processByte b).takeScreenSwitch.2, held := [], forwarded := w.forwarded }
      | none =>
        if (p.advance b).1.midEscape then
          { term := (w.term.processByte b).takeScreenSwitch.2,
            held := w.held ++ [b], forwarded := w.forwarded }
        else
          { term := (w.term.processByte b).takeScreenSwitch.2,
            held := [], forwarded := w.forwarded ++ (w.held ++ [b]) } := by
  have hparser : ({ w.term.processByte b with screenSwitch := none } : Terminal γ).midEscape =
      (p.advance b).1.midEscape := by
    rw [midEscape]
    exact congrArg Parser.midEscape ((w.term.parser_processByte b).trans (by rw [h.parser]))
  rw [feedByte, takeScreenSwitch, processByte_screenSwitch, h.taken, Option.or_none, h.parser]
  cases recordedBy (p.advance b).2 with
  | none =>
    dsimp only
    rw [hparser]
  | some kind => rfl

theorem Follows.feedByte (h : w.Follows p) (b : UInt8) : (w.feedByte b).Follows (p.advance b).1 := by
  have hparser : (w.term.processByte b).takeScreenSwitch.2.parser = (p.advance b).1 :=
    (w.term.parser_processByte b).trans (by rw [h.parser])
  rw [h.feedByte_eq]
  split
  · exact ⟨hparser, rfl, fun _ => rfl⟩
  · split
    case isTrue hmid => exact ⟨hparser, rfl, fun hrest => absurd (hmid.symm.trans hrest) (by decide)⟩
    case isFalse => exact ⟨hparser, rfl, fun _ => rfl⟩

theorem Follows.feed (h : w.Follows p) (bytes : List UInt8) : (w.feed bytes).Follows (p.run bytes).1 := by
  induction bytes generalizing w p with
  | nil => exact h
  | cons b bytes ih =>
    rw [Parser.run_cons]
    exact ih (h.feedByte b)

theorem Follows.withheld (h : w.Follows p) (hmid : (p.advance b).1.midEscape = true) :
    (w.feedByte b).held = w.held ++ [b] ∧ (w.feedByte b).forwarded = w.forwarded := by
  have hnone : recordedBy (p.advance b).2 = none := by
    by_contra hrecorded
    rw [← h.parser] at hrecorded hmid
    have hends := (switch_ends hrecorded).2
    rw [midEscape, parser_processByte] at hends
    exact absurd (hmid.symm.trans hends) (by decide)
  rw [h.feedByte_eq, hnone]
  dsimp only
  rw [if_pos hmid]
  exact ⟨rfl, rfl⟩

theorem Follows.dropped (h : w.Follows p) (hswitch : recordedBy (p.advance b).2 ≠ none) :
    (w.feedByte b).held = [] ∧ (w.feedByte b).forwarded = w.forwarded := by
  rw [h.feedByte_eq]
  split
  · exact ⟨rfl, rfl⟩
  · rename_i hnone
    exact absurd hnone hswitch

theorem Follows.withheld_since (h : w.Follows p) (hrest : p.midEscape = false) {bytes : List UInt8}
    (hinside : ∀ ys zs, bytes = ys ++ zs → ys ≠ [] → (p.run ys).1.midEscape = true) :
    (w.feed bytes).held = bytes ∧ (w.feed bytes).forwarded = w.forwarded := by
  induction bytes using List.reverseRecOn with
  | nil => exact ⟨h.rests hrest, rfl⟩
  | append_singleton bytes b ih =>
    obtain ⟨hheld, hforwarded⟩ := ih fun ys zs hsplit hys =>
      hinside ys (zs ++ [b]) (by rw [hsplit, List.append_assoc]) hys
    have hmid := hinside (bytes ++ [b]) [] (List.append_nil _).symm
      (List.append_ne_nil_of_right_ne_nil _ (List.cons_ne_nil b []))
    rw [Parser.run_concat] at hmid
    obtain ⟨hheld', hforwarded'⟩ := (h.feed bytes).withheld hmid
    rw [feed_concat, hheld', hforwarded', hheld, hforwarded]
    exact ⟨rfl, rfl⟩

/-! ### The switching sequence -/

/-- Where a byte after a stream records a switch: since the parser was last at rest, after `before`, it
read sequences each broken off by the next, and all of that is withheld. -/
structure Withheld (t : Terminal γ) (bytes : List UInt8) (b : UInt8) (before : List UInt8)
    (broken : List (List UInt8)) (last : List UInt8) : Prop where
  stream : bytes = before ++ (broken.flatten ++ last)
  rest : (t.process before).midEscape = false
  inside : ∀ ys zs, broken.flatten ++ last = ys ++ zs → ys ≠ [] → (t.process (before ++ ys)).midEscape = true
  chain : (t.process before).parser.Chain (broken ++ [last])
  held : (feed { term := t } bytes).held = broken.flatten ++ last
  forwarded : (feed { term := t } bytes).forwarded = (feed { term := t } before).forwarded
  nothing : (feed { term := t } before).held = []
  dropped : (feed { term := t } (bytes ++ [b])).held = []
  kept : (feed { term := t } (bytes ++ [b])).forwarded = (feed { term := t } before).forwarded

/-- **A switch is recorded only by the last byte of a sequence, and all of the sequence is withheld
then**: the machine was last at rest right before the sequence, or before the first of those that were
broken off for it one after the other. -/
theorem switch_withheld (rows cols scrollback : ℕ) (bytes : List UInt8) (b : UInt8)
    (hswitch : (((Terminal.withScrollback rows cols scrollback : Terminal γ).process
      bytes).takeScreenSwitch.2.processByte b).takeScreenSwitch.1 ≠ none) :
    let t : Terminal γ := Terminal.withScrollback rows cols scrollback
    (t.process bytes).midEscape = true ∧ (t.process (bytes ++ [b])).midEscape = false ∧
      ∃ before broken last, Withheld t bytes b before broken last := by
  intro t
  have hrecorded : recordedBy (((t.process bytes).parser).advance b).2 ≠ none := by
    rw [← Terminal.takeScreenSwitch_processByte]
    exact hswitch
  obtain ⟨hmid, hends⟩ := Terminal.switch_ends hrecorded
  refine ⟨hmid, by rw [Terminal.process_append]; exact hends, ?_⟩
  have hfollows : Follows { term := t } t.parser := ⟨rfl, rfl, fun _ => rfl⟩
  rw [Terminal.midEscape, Terminal.parser_process] at hmid
  obtain ⟨before, broken, last, rfl, hrest, hchain⟩ := Parser.chain_of_midEscape rfl bytes hmid
  have hinside : ∀ ys zs, broken.flatten ++ last = ys ++ zs → ys ≠ [] →
      ((t.parser.run before).1.run ys).1.midEscape = true := fun ys zs hsplit hys =>
    hchain.inside (List.flatten_concat.trans hsplit) hys
  have hfeed : ∀ w : Withholding γ, ∀ xs ys, w.feed (xs ++ ys) = (w.feed xs).feed ys :=
    fun w xs ys => List.foldl_append
  obtain ⟨hheld, hforwarded⟩ := (hfollows.feed before).withheld_since hrest hinside
  have hdropped := (hfollows.feed (before ++ (broken.flatten ++ last))).dropped (b := b)
    (by rw [← Terminal.parser_process]; exact hrecorded)
  refine ⟨before, broken, last, ?_⟩
  constructor
  case stream => rfl
  case rest =>
    rw [Terminal.midEscape, Terminal.parser_process]
    exact hrest
  case inside =>
    intro ys zs hsplit hys
    rw [Terminal.midEscape, Terminal.parser_process, Parser.run_append]
    exact hinside ys zs hsplit hys
  case chain =>
    rw [Terminal.parser_process]
    exact hchain
  case held =>
    rw [hfeed]
    exact hheld
  case forwarded =>
    rw [hfeed]
    exact hforwarded
  case nothing => exact (hfollows.feed before).rests hrest
  case dropped =>
    rw [feed_concat]
    exact hdropped.1
  case kept =>
    rw [feed_concat, hdropped.2, hfeed]
    exact hforwarded

theorem switch_withheld_broken :
    let t : Terminal Unit := Terminal.withScrollback 1 1 0
    (t.process [byte 'x', 0x1B, byte '[', byte '3', 0x1B]).midEscape = true ∧
      (t.process [byte 'x', 0x1B, byte '[', byte '3', 0x1B, byte 'c']).midEscape = false ∧
      ∃ before broken last,
        Withheld t [byte 'x', 0x1B, byte '[', byte '3', 0x1B] (byte 'c') before broken last :=
  switch_withheld 1 1 0 [byte 'x', 0x1B, byte '[', byte '3', 0x1B] (byte 'c') (by decide +kernel)

/-- There the machine was last at rest before the sequence that was broken off, and neither the byte
before that nor the one after it broke anything off. -/
theorem switch_after_broken :
    let t : Terminal Unit := Terminal.withScrollback 1 1 0
    let before := [byte 'x']
    let rest := [0x1B, byte '[', byte '3', 0x1B]
    ((t.process (before ++ rest)).takeScreenSwitch.2.processByte (byte 'c')).takeScreenSwitch.1 =
        some .reset ∧ (t.process before).midEscape = false ∧
      (∀ n, 0 < n → n ≤ rest.length → (t.process (before ++ rest.take n)).midEscape = true) ∧
      ¬ ((t.process before).parser.Begun rest ∨ (t.process before).parser.state ≠ .ground ∨
        t.parser.state ≠ .ground) := by
  refine ⟨by decide +kernel, by decide +kernel, ?_, ?_⟩
  · intro n hpos hn
    have hcases : n = 1 ∨ n = 2 ∨ n = 3 ∨ n = 4 := by
      have hlength : n ≤ 4 := hn
      omega
    rcases hcases with rfl | rfl | rfl | rfl <;> decide +kernel
  · rintro (hbegun | hstate | hstate)
    · obtain ⟨lead, tail, hsplit, -, htail⟩ := hbegun.opened
      cases hsplit
      exact htail 0x1B (by decide) (.inl rfl)
    · exact hstate (by decide +kernel)
    · exact hstate rfl

end Withholding

end Posh.Term
