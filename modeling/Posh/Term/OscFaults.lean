/-
**The commands that stop the program.**

An operating system command is dispatched by its code.  It stops the program where a colour or a path that it reads is
torn, where a new link has no number left, and where the copies have none: nowhere else.
-/

import Posh.Term.OscSlices
import Posh.Term.Reached

set_option autoImplicit false

namespace Posh.Term

open ByteCursor
open Checked (fits fits_eq sub_eq)
open ByteCursor.Outcome (bind_ok)

/-! ### Base64 -/

/-- Decodes with `bits` bits pending in `acc`, both in 32 bits; `done` once padding was seen. -/
def checkedDecode (acc bits : ℕ) (done : Bool) : List UInt8 → Checks (Option (List UInt8))
  | [] => .ok (some [])
  | b :: rest =>
    if Base64.isWhitespace b then checkedDecode acc bits done rest
    else if b = Base64.padding then checkedDecode acc bits true rest
    else if done then .ok none
    else
      match Base64.decodeDigit b with
      | none => .ok none
      | some d =>
        (Checked.fits (2 ^ 32) (acc * 64 + d)).bind fun acc =>
          (Checked.fits (2 ^ 32) (bits + 6)).bind fun bits =>
            if 8 ≤ bits then
              (Checked.sub bits 8).bind fun bits =>
                (checkedDecode (acc % 2 ^ bits) bits done rest).bind fun out =>
                  .ok (out.map (UInt8.ofNat (acc / 2 ^ bits) :: ·))
            else checkedDecode acc bits done rest

theorem decodeDigit_lt {b : UInt8} {d : ℕ} (h : Base64.decodeDigit b = some d) : d < 64 := by
  rw [Base64.decodeDigit] at h
  split at h
  · cases h
    omega
  · split at h
    · cases h
      omega
    · split at h
      · cases h
        omega
      · split at h
        · cases h
          decide
        · split at h
          · cases h
            decide
          · cases h

/-- **Base64 stops nothing**: there are never as many bits as a byte has between two digits. -/
theorem checkedDecode_eq (data : List UInt8) : ∀ {acc bits : ℕ} (done : Bool), acc < 2 ^ bits → bits < 8 →
    checkedDecode acc bits done data = .ok (Base64.decodeFrom acc bits done data) := by
  induction data with
  | nil => exact fun _ _ _ => rfl
  | cons b rest ih =>
    intro acc bits done hacc hbits
    rw [checkedDecode, Base64.decodeFrom]
    split
    · exact ih done hacc hbits
    · split
      · exact ih true hacc hbits
      · split
        · rfl
        · cases hdigit : Base64.decodeDigit b with
          | none => rfl
          | some d =>
            have hd := decodeDigit_lt hdigit
            have hpow : 2 ^ bits ≤ 2 ^ 7 := Nat.pow_le_pow_right (by decide) (by omega)
            dsimp only
            rw [fits_eq (by omega), bind_ok, fits_eq (by omega), bind_ok]
            split
            · rw [sub_eq (by omega), bind_ok, ih done (Nat.mod_lt _ (Nat.two_pow_pos _)) (by omega)]
              rfl
            · refine ih done ?_ (by omega)
              calc acc * 64 + d < (acc + 1) * 64 := by omega
                _ ≤ 2 ^ bits * 64 := Nat.mul_le_mul_right 64 hacc
                _ = 2 ^ (bits + 6) := (Nat.pow_add 2 bits 6).symm

variable {γ : Type}

namespace Terminal

/-! ### Commands -/

/-- Palette entries: pairs of a slot and a colour, or of a slot and a question mark. -/
def checkedPalette (bel : Bool) : List (List Char) → Terminal γ → Checks (Terminal γ)
  | idx :: spec :: parts, t =>
    (match parseU16 idx with
      | some i =>
        if i < 256 then
          -- the palette has 256 places
          (Checked.fits 256 i).bind fun i =>
            if spec = ['?'] then
              .ok (t.respond (oscReply bel
                (numbers [4, i] ++ byte ';' :: formatRgb16 (t.palette.getD i (0, 0, 0)))))
            else
              (checkedColorSpec spec).bind fun rgb =>
                match rgb with
                | some rgb => .ok { t with palette := t.palette.set i rgb }.touch
                | none => .ok t
        else .ok t
      | none => .ok t : Checks (Terminal γ)).bind (checkedPalette bel parts)
  | _, t => .ok t

/-- The foreground (10), background (11) or cursor (12) colour, set or asked for. -/
def checkedDynamicColor (t : Terminal γ) (code : ℕ) (rest : List Char) (bel : Bool) : Checks (Terminal γ) :=
  let slot := if code = 10 then t.fgColor else if code = 11 then t.bgColor else t.cursorColor
  if rest = ['?'] then
    let rgb := slot.getD (if code = 11 then (0, 0, 0) else (255, 255, 255))
    .ok (t.respond (oscReply bel (decimal code ++ byte ';' :: formatRgb16 rgb)))
  else
    (checkedColorSpec rest).bind fun rgb =>
      match rgb with
      | some rgb =>
        .ok (if code = 10 then { t with fgColor := some rgb }
          else if code = 11 then { t with bgColor := some rgb }
          else { t with cursorColor := some rgb }).touch
      | none => .ok t

/-- Opens or closes a hyperlink; a new one takes the next number, of 32 bits. -/
def checkedHyperlink (t : Terminal γ) (rest : List Char) : Checks (Terminal γ) :=
  let (params, uri) := (splitOnce ';' rest).getD ([], rest)
  if uri = [] then .ok { t with cursor := { t.cursor with hyperlink := 0 } }
  else
    let id := ((params.splitOn ':').findSome? (stripPrefix ['i', 'd', '='])).getD []
    match t.hyperlinks.find? fun entry => entry.2.id = id ∧ entry.2.uri = uri with
    | some (k, _) => .ok { t with cursor := { t.cursor with hyperlink := k } }
    | none =>
      (Checked.fits (2 ^ 32) (t.nextHyperlink + 1)).bind fun k =>
        .ok { t with
          nextHyperlink := k
          hyperlinks := t.hyperlinks ++ [(k, { id, uri })]
          cursor := { t.cursor with hyperlink := k } }

/-- **A copy**, or a question for a selection; copies are counted in 64 bits. -/
def checkedClipboard (t : Terminal γ) (rest : List Char) (bel : Bool) : Checks (Terminal γ) :=
  let (sel, payload) := (splitOnce ';' rest).getD ([], rest)
  let kinds := slotLetters sel
  if payload = ['?'] then
    (Checked.get kinds 0).bind fun kind =>
      .ok (t.respond (oscReply bel
        (decimal 52 ++ byte ';' :: byte kind :: byte ';' :: Base64.encode (t.selection kind))))
  else
    (checkedDecode 0 0 false (Utf8.encode payload)).bind fun decoded =>
      match decoded with
      | some decoded =>
        let t := kinds.foldl (fun t kind => t.setSelection kind decoded) t
        (Checked.fits (2 ^ 64) (t.clipboardSeq + 1)).bind fun seq =>
          .ok { t with clipboardSeq := seq, clipboardKinds := kinds }.touch
      | none => .ok t

/-- Text of a declared width. -/
def checkedTextSize (t : Terminal γ) (rest : List Char) : Checks (Terminal γ) :=
  let (info, text) := (splitOnce ';' rest).getD ([], rest)
  let t := { t with lastTextSize := some rest }
  if text = [] then .ok t
  else
    let start := t.cursor.col
    let t := text.foldl print t
    let width := (info.splitOn ':').findSome? fun kv =>
      match splitOnce '=' kv with
      | some (k, v) => if k = ['w'] then parseU16 v else none
      | none => none
    match width with
    | some w =>
      if w > 0 then
        (Checked.sub t.cols 1).bind fun last => .ok (t.setCol (min (min (start + w) 65535) last)).touch
      else .ok t.touch
    | none => .ok t.touch

def checkedOscCommand (t : Terminal γ) (code : ℕ) (rest : List Char) (bel : Bool) : Checks (Terminal γ) :=
  if code = 4 then checkedPalette bel (rest.splitOn ';') t
  else if code = 7 then (checkedFileUri rest).bind fun pwd => .ok { t with pwd }.touch
  else if code = 8 then t.checkedHyperlink rest
  else if code = 10 ∨ code = 11 ∨ code = 12 then t.checkedDynamicColor code rest bel
  else if code = 52 then t.checkedClipboard rest bel
  else if code = 66 then t.checkedTextSize rest
  -- the other commands store text, or defaults, and neither slice nor count
  else .ok (t.oscCommand code rest bel)

/-- **An operating system command.** -/
def checkedOscDispatch (t : Terminal γ) (data : List UInt8) (bel : Bool) : Checks (Terminal γ) :=
  match parseU16 (oscParts data).1 with
  | some code => t.checkedOscCommand code (oscParts data).2 bel
  | none => .ok t

/-! ### The commands that stop the program -/

/-- The pairs of a list of parts. -/
def oscPairs : List (List Char) → List (List Char × List Char)
  | idx :: spec :: parts => (idx, spec) :: oscPairs parts
  | _ => []

/-- A colour for a place of the palette is torn. -/
def PaletteTorn (parts : List (List Char)) : Prop :=
  ∃ p ∈ oscPairs parts, (∃ i < 256, parseU16 p.1 = some i) ∧ SpecTorn p.2

/-- The command opens a link that is not open yet. -/
def OpensLink (t : Terminal γ) (rest : List Char) : Prop :=
  ∃ params uri, (splitOnce ';' rest).getD ([], rest) = (params, uri) ∧ uri ≠ [] ∧
    ∀ entry ∈ t.hyperlinks, ¬ (entry.2.id = ((params.splitOn ':').findSome? (stripPrefix ['i', 'd', '='])).getD [] ∧
      entry.2.uri = uri)

def Copies (rest : List Char) : Prop :=
  ∃ sel payload, (splitOnce ';' rest).getD ([], rest) = (sel, payload) ∧ payload ≠ ['?'] ∧
    (Base64.decode (Utf8.encode payload)).isSome

/-- The commands that stop the program, by their code. -/
def CommandFaults (t : Terminal γ) (code : ℕ) (rest : List Char) : Prop :=
  (code = 4 ∧ PaletteTorn (rest.splitOn ';')) ∨ (code = 7 ∧ PathTorn rest) ∨
    (code = 8 ∧ t.OpensLink rest ∧ 2 ^ 32 ≤ t.nextHyperlink + 1) ∨
    ((code = 10 ∨ code = 11 ∨ code = 12) ∧ SpecTorn rest) ∨
    (code = 52 ∧ Copies rest ∧ 2 ^ 64 ≤ t.clipboardSeq + 1)

/-- **The payloads that stop the program.** -/
def OscFaults (t : Terminal γ) (data : List UInt8) : Prop :=
  ∃ code, parseU16 (oscParts data).1 = some code ∧ t.CommandFaults code (oscParts data).2

/-! ### What each command does -/

variable {t : Terminal γ} {f : Frame} {rest : List Char}

theorem not_specTorn_query : ¬ SpecTorn ['?'] := by
  rintro ⟨hex, heq, -⟩
  cases heq

theorem checkedPalette_spec (bel : Bool) (parts : List (List Char)) (t : Terminal γ) :
    StopsIff (PaletteTorn parts) (checkedPalette bel parts t) (oscPalette bel parts t) := by
  induction parts using List.twoStepInduction generalizing t with
  | nil =>
    refine .never ?_ rfl
    rintro ⟨p, hp, -⟩
    cases hp
  | singleton part =>
    refine .never ?_ rfl
    rintro ⟨p, hp, -⟩
    cases hp
  | cons_cons idx spec parts ih _ =>
    have hpairs : PaletteTorn (idx :: spec :: parts) ↔
        ((∃ i < 256, parseU16 idx = some i) ∧ SpecTorn spec) ∨ PaletteTorn parts := by
      constructor
      · rintro ⟨p, hp, h⟩
        obtain rfl | hp := List.mem_cons.1 hp
        · exact .inl h
        · exact .inr ⟨p, hp, h⟩
      · rintro (h | ⟨p, hp, h⟩)
        · exact ⟨_, List.mem_cons_self, h⟩
        · exact ⟨p, List.mem_cons_of_mem _ hp, h⟩
    rw [checkedPalette, oscPalette]
    refine StopsIff.congr (.bind ?_ (ih _)) hpairs
    cases hidx : parseU16 idx with
    | none =>
      refine .never ?_ rfl
      rintro ⟨⟨i, -, hi⟩, -⟩
      cases hi
    | some i =>
      dsimp only
      by_cases hi : i < 256
      · rw [if_pos hi, if_pos hi, fits_eq hi, bind_ok]
        by_cases hquery : spec = ['?']
        · rw [if_pos hquery, if_pos hquery]
          refine .never ?_ rfl
          rintro ⟨-, htorn⟩
          exact not_specTorn_query (hquery ▸ htorn)
        · rw [if_neg hquery, if_neg hquery]
          refine StopsIff.congr ((checkedColorSpec_spec spec).map ?_)
            ⟨fun h => h.2, fun h => ⟨⟨i, hi, rfl⟩, h⟩⟩
          cases parseColorSpec spec <;> rfl
      · rw [if_neg hi, if_neg hi]
        refine .never ?_ rfl
        rintro ⟨⟨j, hj, heq⟩, -⟩
        cases heq
        exact hi hj

theorem checkedDynamicColor_spec (t : Terminal γ) (code : ℕ) (rest : List Char) (bel : Bool) :
    StopsIff (SpecTorn rest) (t.checkedDynamicColor code rest bel) (t.oscDynamicColor code rest bel) := by
  rw [checkedDynamicColor, oscDynamicColor]
  dsimp only
  by_cases hquery : rest = ['?']
  · rw [if_pos hquery, if_pos hquery]
    exact .never (fun h => not_specTorn_query (hquery ▸ h)) rfl
  · rw [if_neg hquery, if_neg hquery]
    refine (checkedColorSpec_spec rest).map ?_
    cases parseColorSpec rest <;> rfl

theorem checkedHyperlink_spec (t : Terminal γ) (rest : List Char) :
    StopsIff (t.OpensLink rest ∧ 2 ^ 32 ≤ t.nextHyperlink + 1) (t.checkedHyperlink rest) (t.oscHyperlink rest) := by
  obtain ⟨params, uri, hparts⟩ : ∃ params uri, (splitOnce ';' rest).getD ([], rest) = (params, uri) := ⟨_, _, rfl⟩
  have hopens : t.OpensLink rest ↔ uri ≠ [] ∧ ∀ entry ∈ t.hyperlinks,
      ¬ (entry.2.id = ((params.splitOn ':').findSome? (stripPrefix ['i', 'd', '='])).getD [] ∧
        entry.2.uri = uri) := by
    constructor
    · rintro ⟨params', uri', heq, h⟩
      rw [hparts] at heq
      cases heq
      exact h
    · exact fun h => ⟨params, uri, hparts, h⟩
  rw [checkedHyperlink, oscHyperlink, hparts, hopens]
  dsimp only
  by_cases huri : uri = []
  · rw [if_pos huri, if_pos huri]
    exact .never (fun h => h.1.1 huri) rfl
  · rw [if_neg huri, if_neg huri]
    cases hfind : t.hyperlinks.find? fun entry => decide (entry.2.id =
        ((params.splitOn ':').findSome? (stripPrefix ['i', 'd', '='])).getD [] ∧ entry.2.uri = uri) with
    | some entry =>
      refine .never (fun h => ?_) rfl
      exact h.1.2 entry (List.mem_of_find?_eq_some hfind) (by simpa using List.find?_some hfind)
    | none =>
      dsimp only
      by_cases hroom : t.nextHyperlink + 1 < 2 ^ 32
      · rw [fits_eq hroom]
        exact .never (fun h => Nat.not_le_of_lt hroom h.2) rfl
      · refine ⟨fun _ => ?_, fun h => absurd ⟨⟨huri, fun entry hentry => ?_⟩, Nat.le_of_not_lt hroom⟩ h⟩
        · rw [fits, if_neg hroom]
          rfl
        · have := List.find?_eq_none.1 hfind entry hentry
          exact fun heq => this (decide_eq_true heq)

theorem clipboardSeq_setSelections (kinds : List Char) (data : List UInt8) (t : Terminal γ) :
    (kinds.foldl (fun t kind => t.setSelection kind data) t).clipboardSeq = t.clipboardSeq := by
  induction kinds generalizing t with
  | nil => rfl
  | cons kind kinds ih =>
    rw [List.foldl_cons, ih, setSelection]
    split
    · rfl
    · split <;> rfl

theorem get_slotLetters (sel : List Char) : (Checked.get (slotLetters sel) 0 : Checks Char) = .ok ((slotLetters sel).headD 'c') := by
  rw [slotLetters]
  split
  · rfl
  · next hne =>
      obtain ⟨kind, kinds, heq⟩ := List.exists_cons_of_ne_nil hne
      rw [heq]
      rfl

theorem checkedClipboard_spec (t : Terminal γ) (rest : List Char) (bel : Bool) :
    StopsIff (Copies rest ∧ 2 ^ 64 ≤ t.clipboardSeq + 1) (t.checkedClipboard rest bel) (t.oscClipboard rest bel) := by
  obtain ⟨sel, payload, hparts⟩ : ∃ sel payload, (splitOnce ';' rest).getD ([], rest) = (sel, payload) := ⟨_, _, rfl⟩
  have hcopies : Copies rest ↔ payload ≠ ['?'] ∧ (Base64.decode (Utf8.encode payload)).isSome := by
    constructor
    · rintro ⟨sel', payload', heq, h⟩
      rw [hparts] at heq
      cases heq
      exact h
    · exact fun h => ⟨sel, payload, hparts, h⟩
  rw [checkedClipboard, oscClipboard, hparts, hcopies]
  dsimp only
  by_cases hquery : payload = ['?']
  · rw [if_pos hquery, if_pos hquery, get_slotLetters]
    exact .never (fun h => h.1.1 hquery) rfl
  · rw [if_neg hquery, if_neg hquery, checkedDecode_eq _ false (by decide) (by decide), bind_ok, Base64.decode]
    cases Base64.decodeFrom 0 0 false (Utf8.encode payload) with
    | none => exact .never (fun h => absurd h.1.2 Bool.false_ne_true) rfl
    | some decoded =>
      dsimp only
      rw [clipboardSeq_setSelections]
      by_cases hroom : t.clipboardSeq + 1 < 2 ^ 64
      · rw [fits_eq hroom]
        exact .never (fun h => Nat.not_le_of_lt hroom h.2) rfl
      · refine ⟨fun _ => ?_, fun h => absurd ⟨⟨hquery, rfl⟩, Nat.le_of_not_lt hroom⟩ h⟩
        rw [fits, if_neg hroom]
        rfl

theorem checkedTextSize_eq (h : t.Sound f) (hrest : ∀ c ∈ rest, Utf8.Plain c) :
    t.checkedTextSize rest = .ok (t.oscTextSize rest) := by
  rw [checkedTextSize, oscTextSize]
  generalize hparts : (splitOnce ';' rest).getD ([], rest) = parts
  obtain ⟨info, text⟩ := parts
  obtain ⟨-, htext⟩ := splitOnce_getD hparts
  have hnoted : Sound f { t with lastTextSize := some rest } := { h with }
  have hprinted : (text.foldl print { t with lastTextSize := some rest }).Sound f :=
    Sound.foldl (fun _ c (hc : c ∈ text) ht => ht.print (hrest c (htext c hc))) hnoted
  dsimp only
  generalize text.foldl print _ = u at hprinted ⊢
  generalize (info.splitOn ':').findSome? _ = width
  split
  · rfl
  · cases width with
    | none => rfl
    | some w =>
      dsimp only
      rw [sub_eq (hprinted.cols_eq ▸ hprinted.cols_pos), bind_ok]
      split <;> rfl

/-! ### Every command -/

theorem checkedOscCommand_spec (h : t.Sound f) (code : ℕ) (hrest : ∀ c ∈ rest, Utf8.Plain c) (bel : Bool) :
    StopsIff (t.CommandFaults code rest) (t.checkedOscCommand code rest bel) (t.oscCommand code rest bel) := by
  by_cases h4 : code = 4
  · subst h4
    have hfaults : t.CommandFaults 4 rest ↔ PaletteTorn (rest.splitOn ';') := by simp [CommandFaults]
    exact (checkedPalette_spec bel (rest.splitOn ';') t).congr hfaults
  by_cases h7 : code = 7
  · subst h7
    have hfaults : t.CommandFaults 7 rest ↔ PathTorn rest := by simp [CommandFaults]
    have hpath : StopsIff (PathTorn rest) (t.checkedOscCommand 7 rest bel) (t.oscCommand 7 rest bel) :=
      (checkedFileUri_spec rest).map rfl
    exact hpath.congr hfaults
  by_cases h8 : code = 8
  · subst h8
    have hfaults : t.CommandFaults 8 rest ↔ t.OpensLink rest ∧ 2 ^ 32 ≤ t.nextHyperlink + 1 := by
      simp [CommandFaults]
    exact (t.checkedHyperlink_spec rest).congr hfaults
  by_cases hcolor : code = 10 ∨ code = 11 ∨ code = 12
  · have hcommand : t.checkedOscCommand code rest bel = t.checkedDynamicColor code rest bel ∧
        t.oscCommand code rest bel = t.oscDynamicColor code rest bel := by
      obtain rfl | rfl | rfl := hcolor <;> exact ⟨rfl, rfl⟩
    have hfaults : t.CommandFaults code rest ↔ SpecTorn rest := by
      obtain rfl | rfl | rfl := hcolor <;> simp [CommandFaults]
    rw [hcommand.1, hcommand.2]
    exact (t.checkedDynamicColor_spec code rest bel).congr hfaults
  by_cases h52 : code = 52
  · subst h52
    have hfaults : t.CommandFaults 52 rest ↔ Copies rest ∧ 2 ^ 64 ≤ t.clipboardSeq + 1 := by simp [CommandFaults]
    exact (t.checkedClipboard_spec rest bel).congr hfaults
  have hno : ¬ t.CommandFaults code rest := by simp [CommandFaults, h4, h7, h8, hcolor, h52]
  refine .never hno ?_
  by_cases h66 : code = 66
  · subst h66
    exact checkedTextSize_eq h hrest
  · rw [checkedOscCommand, if_neg h4, if_neg h7, if_neg h8, if_neg hcolor, if_neg h52, if_neg h66]

/-- **Where the dispatch stops.** -/
theorem checkedOscDispatch_spec (h : t.Sound f) {data : List UInt8} (hdata : ∀ x ∈ data, 0x20 ≤ x.toNat)
    (bel : Bool) : StopsIff (t.OscFaults data) (t.checkedOscDispatch data bel) (t.oscDispatch data bel) := by
  rw [checkedOscDispatch, oscDispatch]
  cases hcode : parseU16 (oscParts data).1 with
  | none =>
    refine .never ?_ rfl
    rintro ⟨code, heq, -⟩
    rw [hcode] at heq
    cases heq
  | some code =>
    refine (checkedOscCommand_spec h code (plain_oscParts hdata) bel).congr ?_
    constructor
    · rintro ⟨code', heq, hfaults⟩
      rw [hcode] at heq
      cases heq
      exact hfaults
    · exact fun hfaults => ⟨code, hcode, hfaults⟩

section Reached

variable [GraphicsStore γ]

theorem spec_of_delivered (rows cols scrollback : ℕ) (calls : List Call) {b : UInt8} {data : List UInt8} {bel : Bool}
    (hdata : .osc data bel ∈ ((run rows cols scrollback calls : Terminal γ).parser.advance b).2) :
    StopsIff ((run rows cols scrollback calls : Terminal γ).OscFaults data)
      ((run rows cols scrollback calls : Terminal γ).checkedOscDispatch data bel)
      ((run rows cols scrollback calls : Terminal γ).oscDispatch data bel) := by
  obtain ⟨f, -, hparser, hsound⟩ := @good_run γ _ rows cols scrollback calls
  rw [hsound.parser] at hdata
  exact checkedOscDispatch_spec hsound ((Parser.sound_advance hparser b).actions _ hdata) bel

/-- **The commands that do not stop the program**, of all that the parser of a terminal reached hands over: those
without a torn colour or path, for which there is a number where they need one. -/
theorem osc_dispatch_ok_iff (rows cols scrollback : ℕ) (calls : List Call) (b : UInt8) (data : List UInt8) (bel : Bool)
    (hdata : .osc data bel ∈ ((run rows cols scrollback calls : Terminal γ).parser.advance b).2) :
    (run rows cols scrollback calls : Terminal γ).checkedOscDispatch data bel =
        .ok ((run rows cols scrollback calls : Terminal γ).oscDispatch data bel) ↔
      ¬ (run rows cols scrollback calls : Terminal γ).OscFaults data :=
  (spec_of_delivered rows cols scrollback calls hdata).ok_iff

end Reached

theorem osc_dispatch_ok_digits :
    let t : Terminal Unit := run 2 2 0 [.process [0x1B, 0x5D, 0x31, 0x30, 0x3B, 0x23, 0x66, 0x30, 0x38]]
    t.checkedOscDispatch [0x31, 0x30, 0x3B, 0x23, 0x66, 0x30, 0x38] true =
      .ok (t.oscDispatch [0x31, 0x30, 0x3B, 0x23, 0x66, 0x30, 0x38] true) := by
  have hparts : oscParts [0x31, 0x30, 0x3B, 0x23, 0x66, 0x30, 0x38] = (['1', '0'], ['#', 'f', '0', '8']) := by
    have hbytes : [0x31, 0x30, 0x3B, 0x23, 0x66, 0x30, 0x38] = Utf8.encode ['1', '0', ';', '#', 'f', '0', '8'] := rfl
    rw [oscParts, hbytes, Utf8.lossy_encode]
    rfl
  refine (osc_dispatch_ok_iff 2 2 0 [.process [0x1B, 0x5D, 0x31, 0x30, 0x3B, 0x23, 0x66, 0x30, 0x38]] 0x07 _ true
    (by decide +kernel)).2 ?_
  rintro ⟨code, hcode, hfaults⟩
  rw [hparts] at hcode hfaults
  obtain rfl : 10 = code := Option.some.inj hcode
  have htorn : SpecTorn ['#', 'f', '0', '8'] := by simpa [CommandFaults] using hfaults
  have hstops := (checkedColorSpec_spec _).stops htorn
  rw [checkedColorSpec_ascii (by simp)] at hstops
  cases hstops

/-- The foreground set to a colour that is one character of three bytes. -/
theorem osc_dispatch_torn :
    let t : Terminal Unit := run 2 2 0 [.process [0x1B, 0x5D, 0x31, 0x30, 0x3B, 0x23, 0xE2, 0x82, 0xAC]]
    .osc [0x31, 0x30, 0x3B, 0x23, 0xE2, 0x82, 0xAC] true ∈ (t.parser.advance 0x07).2 ∧
      t.checkedOscDispatch [0x31, 0x30, 0x3B, 0x23, 0xE2, 0x82, 0xAC] true = .outOfRange := by
  have hdata : Action.osc [0x31, 0x30, 0x3B, 0x23, 0xE2, 0x82, 0xAC] true ∈
      ((run 2 2 0 [.process [0x1B, 0x5D, 0x31, 0x30, 0x3B, 0x23, 0xE2, 0x82, 0xAC]] :
        Terminal Unit).parser.advance 0x07).2 := by decide +kernel
  have hparts : oscParts [0x31, 0x30, 0x3B, 0x23, 0xE2, 0x82, 0xAC] = (['1', '0'], ['#', '€']) := by
    have hbytes : [0x31, 0x30, 0x3B, 0x23, 0xE2, 0x82, 0xAC] = Utf8.encode ['1', '0', ';', '#', '€'] := rfl
    rw [oscParts, hbytes, Utf8.lossy_encode]
    rfl
  refine ⟨hdata, (spec_of_delivered 2 2 0 _ hdata).stops ⟨10, by rw [hparts]; rfl, ?_⟩⟩
  rw [hparts]
  exact .inr (.inr (.inr (.inl ⟨.inl rfl, ['€'], rfl, .inl ⟨rfl, torn_of_uncut (by decide) rfl⟩⟩)))

end Terminal

end Posh.Term
