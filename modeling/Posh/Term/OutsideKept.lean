/-
**What lies outside the grid survives a dump.**

A dump is replayed on a fresh terminal.  What it writes about the grid is quiet; the colours, the titles,
the working directory and the two keyboard stacks are each set by a command of their own, and read back as
they were.  There are exceptions.  The working directory is written as the path of a URI, as it is, and a
path is decoded: one that has an escape in it, does not begin with a slash or holds a control is read
back as another, and one with a percent sign before part of a character stops the program.  And a text
that does not fit in a command is dropped with it.
-/

import Posh.Term.OscSlices
import Posh.Term.QuietDump

set_option autoImplicit false

namespace Posh.Term

open List (foldl_cons forall_mem_cons length_append length_cons)
open Utf8 (encode lossy lossy_encode)
open UInt8 (ofNat)
open KittyKeyStack
open Posh.Term.Parser
open Utf8

/-! ### Working directories -/

/-- Somewhere a percent sign is followed by what is read as a hexadecimal number. -/
def hasEscape : List UInt8 → Bool
  | a :: b :: c :: rest =>
    (a = byte '%' && (parseRadix 16 256 [Utf8.scalar b.toNat, Utf8.scalar c.toNat]).isSome) ||
      hasEscape (b :: c :: rest)
  | _ => false

theorem percentDecode_of_literal {bs : List UInt8} (h : hasEscape bs = false) : percentDecode bs = bs := by
  fun_induction percentDecode bs with
  | case1 => rfl
  | case2 => rfl
  | case3 => rfl
  | case4 a b c rest v hv ih =>
    rw [hasEscape, Bool.or_eq_false_iff] at h
    split at hv
    case isTrue ha =>
      rw [decide_eq_true ha, Bool.true_and, hv] at h
      cases h.1
    case isFalse => cases hv
  | case5 a b c rest hv ih =>
    rw [hasEscape, Bool.or_eq_false_iff] at h
    rw [ih h.2]

namespace Terminal

variable {γ : Type} {t u : Terminal γ} {pwd : List Char}

/-- The scheme of the URI a working directory is written as. -/
def fileScheme : List Char := ['f', 'i', 'l', 'e', ':', '/', '/']

/-- A working directory is the path of its URI: it begins with a slash, and has no control and no escape
in it, nor a percent sign before two bytes that end inside a character. -/
structure PathSafe (pwd : List Char) : Prop where
  slash : pwd.head? = some '/'
  plain : ∀ c ∈ pwd, Utf8.Plain c
  literal : hasEscape (Utf8.encode pwd) = false
  whole : ¬ EscapeTorn pwd

/-- **The texts outside the grid fit in their commands**, and the working directory is a path. -/
structure TextsFit (t : Terminal γ) : Prop where
  title : (Utf8.encode t.title).length + 2 ≤ Parser.maxOsc
  iconTitle : (Utf8.encode t.iconTitle).length + 2 ≤ Parser.maxOsc
  pwd : t.pwd ≠ [] → PathSafe t.pwd ∧ (Utf8.encode t.pwd).length + 9 ≤ Parser.maxOsc

theorem parseFileUri_of_pathSafe (h : PathSafe pwd) : parseFileUri (fileScheme ++ pwd) = pwd := by
  obtain ⟨rest, rfl⟩ : ∃ rest, pwd = '/' :: rest := by
    have hslash := h.slash
    cases pwd with
    | nil => cases hslash
    | cons c rest => exact ⟨rest, by rw [Option.some.inj hslash]⟩
  have hstrip : stripPrefix ['f', 'i', 'l', 'e', ':', '/', '/'] (fileScheme ++ '/' :: rest) =
      some ('/' :: rest) := rfl
  rw [parseFileUri, hstrip]
  dsimp only
  rw [if_pos List.mem_cons_self, List.dropWhile_cons_of_neg (by decide), percentDecode_of_literal h.literal,
    lossy_encode]

theorem checkedFileUri_of_pathSafe (h : PathSafe pwd) : checkedFileUri (fileScheme ++ pwd) = .ok pwd := by
  have htorn : ¬ PathTorn (fileScheme ++ pwd) := by
    rintro ⟨host, path, heq, hhost, htorn⟩
    have hpwd : pwd = host ++ '/' :: path := List.append_cancel_left heq
    have hslash := h.slash
    cases host with
    | nil => exact h.whole (hpwd ▸ htorn)
    | cons c host =>
      rw [hpwd, List.cons_append, List.head?_cons] at hslash
      exact hhost (Option.some.inj hslash ▸ List.mem_cons_self)
  rw [(checkedFileUri_spec _).goes htorn, parseFileUri_of_pathSafe h]

/-! ### Stacks and screens -/

/-- The stack of the screen drawn on changes. -/
def Outside.modifyKitty (o : Outside) (g : KittyKeyStack → KittyKeyStack) : Outside :=
  if o.altActive then { o with kittyAlt := g o.kittyAlt } else { o with kittyPrimary := g o.kittyPrimary }

theorem outside_modifyKittyStack (t : Terminal γ) (g : KittyKeyStack → KittyKeyStack) :
    ((t.modifyKittyStack g).outside, (t.modifyKittyStack g).parser) = (t.outside.modifyKitty g, t.parser) := by
  rw [modifyKittyStack, Outside.modifyKitty]
  have halt : t.outside.altActive = t.altActive := rfl
  rw [halt]
  split <;> rfl

theorem outside_setAltScreen (t : Terminal γ) (mode : ℕ) (on : Bool) :
    ((t.setAltScreen mode on).outside, (t.setAltScreen mode on).parser) =
      ({ t.outside with altActive := on }, t.parser) := by
  have henter : ∀ t : Terminal γ,
      ((t.enterAlt mode).outside, (t.enterAlt mode).parser) = ({ t.outside with altActive := true }, t.parser) := by
    intro t
    have hsaved : Leaves t (if mode = 1049 then t.saveCursor else t) := .ite (.saveCursor t) rfl
    rw [enterAlt]
    generalize (if mode = 1049 then t.saveCursor else t) = t' at hsaved
    rw [← hsaved.outside, ← hsaved.parser]
    rfl
  have hleave : ∀ t : Terminal γ,
      ((t.leaveAlt mode).outside, (t.leaveAlt mode).parser) = ({ t.outside with altActive := false }, t.parser) := by
    intro t
    rw [leaveAlt]
    dsimp only
    split
    · exact Leaves.restoreCursor _
    · rfl
  have hchange : ∀ t t' : Terminal γ,
      (if on && !t.altActive then t.enterAlt mode else if !on && t.altActive then t.leaveAlt mode else t) = t' →
        (t'.outside, t'.parser) = ({ t.outside with altActive := on }, t.parser) := by
    rintro t t' rfl
    cases on <;> cases halt : t.altActive
    · exact congrArg (fun b => (({ t.outside with altActive := b } : Outside), t.parser)) halt
    · exact hleave t
    · exact henter t
    · exact congrArg (fun b => (({ t.outside with altActive := b } : Outside), t.parser)) halt
  have hmoved := hchange { t with screenSwitch := some .alt } _ rfl
  exact hmoved

theorem outside_setDecMode (h : t.outside = u.outside) (n : ℕ) (on : Bool) :
    (t.setDecMode n on).outside = (u.setDecMode n on).outside := by
  by_cases hn : n = 47 ∨ n = 1047 ∨ n = 1049
  · have hswitch : ∀ t : Terminal γ, (t.setDecMode n on).outside = { t.outside with altActive := on } := by
      intro t
      have halt := congrArg Prod.fst (outside_setAltScreen t n on)
      rcases hn with rfl | rfl | rfl <;> exact halt
    rw [hswitch, hswitch, h]
  · rw [(Leaves.setDecMode t hn on).outside, (Leaves.setDecMode u hn on).outside, h]

theorem outside_setDecModes (h : t.outside = u.outside) (params : List (List ℕ)) (on : Bool) :
    (t.setDecModes params on).outside = (u.setDecModes params on).outside := by
  rw [setDecModes, setDecModes]
  induction params generalizing t u with
  | nil => exact h
  | cons p params ih => exact ih (outside_setDecMode h _ on)

variable [GraphicsStore γ] {o : Outside} {k : KittyKeyStack}

/-! ### Before and after -/

section

variable {xs ys : List UInt8} {F : Outside → Outside} {o o' o'' : Outside} {w : Writer}

variable (γ) in
/-- Read between sequences, these bytes bring what lies outside the grid from `o` to `o'`. -/
def Brings (bytes : List UInt8) (o o' : Outside) : Prop :=
  ∀ t : Terminal γ, t.parser.Rests → t.outside = o →
    (t.process bytes).parser.Rests ∧ (t.process bytes).outside = o'

theorem Does.brings (h : Does γ xs F) (o : Outside) : Brings γ xs o (F o) :=
  fun t ht hout => hout ▸ h t ht

theorem Brings.nil : Brings γ [] o o := Does.brings Quiet.nil o

theorem Brings.append (hx : Brings γ xs o o') (hy : Brings γ ys o' o'') : Brings γ (xs ++ ys) o o'' := by
  intro t ht hout
  obtain ⟨hrests, hout'⟩ := hx t ht hout
  rw [process_append]
  exact hy _ hrests hout'

variable (γ) in
/-- A writer of such bytes, whatever the pen is. -/
def Carries (w : Writer) (o o' : Outside) : Prop := ∀ st, Brings γ (w st).1 o o'

theorem Calm.carries (h : Calm γ w) (o : Outside) : Carries γ w o o :=
  fun st => Does.brings (h st) o

theorem Carries.put (h : Brings γ xs o o') : Carries γ (.put xs) o o' := fun _ => h

theorem Carries.last (h : Carries γ w o o') : Carries γ (.all [w]) o o' :=
  fun st => (h st).append .nil

theorem Carries.andThen {ws : List Writer} (h : Carries γ w o o') (hs : Carries γ (.all ws) o' o'') :
    Carries γ (.all (w :: ws)) o o'' := fun st => (h st).append (hs _)

end

/-! ### Colours -/

/-- The digits of a channel. -/
def hexText (c : UInt8) : List Char := [Nat.digitChar (c.toNat / 16 % 16), Nat.digitChar (c.toNat % 16)]

def specText (c : Rgb) : List Char :=
  ['r', 'g', 'b', ':'] ++ (hexText c.1 ++ '/' :: (hexText c.2.1 ++ '/' :: hexText c.2.2))

theorem hexText_spec (c : UInt8) : hex 2 c.toNat = encode (hexText c) ∧
    parseChannel (hexText c) = some c ∧ (∀ d ∈ hexText c, Utf8.Plain d ∧ d ≠ '/' ∧ d ≠ ';') := by
  have hall : ∀ n < 256, hex 2 n = encode (hexText (ofNat n)) ∧
      parseChannel (hexText (ofNat n)) = some (ofNat n) ∧
      ((hexText (ofNat n)).all fun d => Utf8.Plain d ∧ d ≠ '/' ∧ d ≠ ';') = true := by decide +kernel
  have hc := hall c.toNat c.toNat_lt
  rw [UInt8.ofNat_toNat] at hc
  exact ⟨hc.1, hc.2.1, List.all_iff_forall_prop.mp hc.2.2⟩

theorem spec_eq (c : Rgb) : spec c = encode (specText c) := by
  rw [spec, (hexText_spec c.1).1, (hexText_spec c.2.1).1, (hexText_spec c.2.2).1, specText]
  simp only [encode_append, encode_cons, List.append_assoc, List.cons_append]
  rfl

theorem parseColorSpec_specText (c : Rgb) : parseColorSpec (specText c) = some c := by
  obtain ⟨-, hr, hrs⟩ := hexText_spec c.1
  obtain ⟨-, hg, hgs⟩ := hexText_spec c.2.1
  obtain ⟨-, hb, hbs⟩ := hexText_spec c.2.2
  have hstrip : stripPrefix ['r', 'g', 'b', ':'] (specText c) =
      some (hexText c.1 ++ '/' :: (hexText c.2.1 ++ '/' :: hexText c.2.2)) := rfl
  rw [parseColorSpec, hstrip]
  dsimp only
  rw [List.splitOn_append_cons_self_of_not_mem fun h => (hrs _ h).2.1 rfl,
    List.splitOn_append_cons_self_of_not_mem fun h => (hgs _ h).2.1 rfl,
    List.splitOn_eq_singleton fun h => (hbs _ h).2.1 rfl]
  dsimp only
  rw [hr, hg, hb]

theorem specText_plain (c : Rgb) : ∀ d ∈ specText c, Utf8.Plain d ∧ d ≠ ';' := by
  have hex : ∀ c : UInt8, ∀ d ∈ hexText c, Utf8.Plain d ∧ d ≠ ';' := fun c d hd =>
    ⟨((hexText_spec c).2.2 d hd).1, ((hexText_spec c).2.2 d hd).2.2⟩
  exact List.forall_mem_append.mpr ⟨List.all_iff_forall_prop.mp (by decide), List.forall_mem_append.mpr ⟨hex _,
    forall_mem_cons.mpr ⟨by decide, List.forall_mem_append.mpr ⟨hex _, forall_mem_cons.mpr ⟨by decide, hex _⟩⟩⟩⟩⟩

theorem specText_ne (c : Rgb) : specText c ≠ ['?'] := by
  intro h
  cases h

theorem length_spec (c : Rgb) : (spec c).length = 12 := rfl

def Outside.setEntry (o : Outside) (i : ℕ) (c : Rgb) : Outside := { o with palette := o.palette.set i c }

theorem does_entry {i : ℕ} (hi : i < 256) (c : Rgb) :
    Does γ (oscSt (numbers [4, i] ++ byte ';' :: spec c)) fun o => o.setEntry i c := by
  have hparse : ∀ i < 256, parseU16 (digits i) = some i ∧ (decimal i).length ≤ 3 := by decide +kernel
  obtain ⟨hindex, hlength⟩ := hparse i hi
  have hbytes : numbers [4, i] ++ byte ';' :: spec c = decimal 4 ++ byte ';' :: (decimal i ++ byte ';' :: spec c) :=
    rfl
  have hprintable : ∀ b ∈ decimal i ++ byte ';' :: spec c, 0x20 ≤ b.toNat := by
    rw [spec_eq]
    exact List.forall_mem_append.mpr ⟨decimal_printable i, forall_mem_cons.mpr
      ⟨by decide, encode_plain fun d hd => (specText_plain c d hd).1⟩⟩
  have hpayload : payload (decimal i ++ byte ';' :: spec c) = decimal i ++ byte ';' :: spec c :=
    payload_eq_self hprintable
  rw [hbytes]
  refine does_oscSt (by decide) (fun b hb => not_endsOsc (hprintable b hb)) ?_ fun t => ?_
  · have hfour : (decimal 4).length = 1 := rfl
    rw [hpayload, length_append, length_cons, length_append, length_cons, length_spec, hfour,
      maxOsc]
    omega
  · have htext : lossy (decimal i ++ byte ';' :: spec c) = digits i ++ ';' :: specText c := by
      have hsemi : lossy (byte ';' :: spec c) = ';' :: lossy (spec c) :=
        lossy_cons_ascii (by decide) _
      rw [lossy_ascii_append (decimal_ascii i), hsemi, spec_eq, lossy_encode, digits]
    have hsplit : (digits i ++ ';' :: specText c).splitOn ';' = [digits i, specText c] := by
      rw [List.splitOn_append_cons_self_of_not_mem (not_mem_digits i (by decide)),
        List.splitOn_eq_singleton fun h => (specText_plain c _ h).2 rfl]
    rw [hpayload, htext]
    have hcommand : t.oscCommand 4 (digits i ++ ';' :: specText c) false =
        oscPalette false ((digits i ++ ';' :: specText c).splitOn ';') t := rfl
    rw [hcommand, hsplit, oscPalette, hindex]
    dsimp only
    rw [if_pos hi, if_neg (specText_ne c), parseColorSpec_specText]
    rfl

def setSlot (palette : List Rgb) (c : Rgb × ℕ) : List Rgb :=
  if c.1 ≠ defaultPaletteEntry c.2 then palette.set c.2 c.1 else palette

theorem foldl_setSlot (front colors : List Rgb) : (colors.zipIdx front.length).foldl setSlot
        (front ++ (List.range' front.length colors.length).map defaultPaletteEntry) = front ++ colors := by
  induction colors generalizing front with
  | nil => rfl
  | cons c colors ih =>
    have hset : setSlot (front ++ (List.range' front.length (c :: colors).length).map defaultPaletteEntry)
        (c, front.length) =
        (front ++ [c]) ++ (List.range' (front ++ [c]).length colors.length).map defaultPaletteEntry := by
      rw [setSlot, length_cons, List.range'_succ, List.map_cons, length_append, List.length_singleton,
        List.append_assoc, List.singleton_append]
      split
      · rw [List.set_append_right _ _ (Nat.le_refl _), Nat.sub_self, List.set_cons_zero]
      · rename_i heq
        rw [← not_not.mp heq]
    have hlength : (front ++ [c]).length = front.length + 1 := length_append
    have hrest := ih (front ++ [c])
    rw [List.zipIdx_cons, foldl_cons, hset]
    rw [hlength] at hrest ⊢
    rw [hrest, List.append_assoc, List.singleton_append]

theorem brings_palette {palette : List Rgb} (h : palette.length = 256)
    (ho : o.palette = defaultPalette) :
    Brings γ (palette.zipIdx.flatMap fun c =>
      if c.1 ≠ defaultPaletteEntry c.2 then oscSt (numbers [4, c.2] ++ byte ';' :: spec c.1) else [])
      o { o with palette } := by
  have hentries := Does.flatMap (γ := γ) (l := palette.zipIdx)
    (f := fun c => if c.1 ≠ defaultPaletteEntry c.2 then oscSt (numbers [4, c.2] ++ byte ';' :: spec c.1) else [])
    (F := fun c o => { o with palette := setSlot o.palette c }) fun c hc => by
      dsimp only [setSlot]
      split
      · exact does_entry (by have := List.snd_lt_of_mem_zipIdx hc; omega) c.1
      · exact Quiet.nil
  have hfold : ∀ (l : List (Rgb × ℕ)) (o : Outside),
      l.foldl (fun o c => { o with palette := setSlot o.palette c }) o =
        { o with palette := l.foldl setSlot o.palette } := by
    intro l
    induction l with
    | nil => exact fun o => rfl
    | cons c l ih =>
      intro o
      rw [foldl_cons, foldl_cons, ih]
  have hset := foldl_setSlot [] palette
  rw [h, List.length_nil, List.nil_append, List.nil_append, ← List.range_eq_range'] at hset
  have hafter := hfold palette.zipIdx o
  rw [ho] at hafter
  have hpalette : palette.zipIdx.foldl setSlot defaultPalette = palette := hset
  rw [hpalette] at hafter
  exact hafter ▸ hentries.brings o

def Outside.setDynamic (o : Outside) (code : ℕ) (c : Rgb) : Outside :=
  if code = 10 then { o with fgColor := some c }
  else if code = 11 then { o with bgColor := some c }
  else { o with cursorColor := some c }

theorem does_dynamic {code : ℕ} (hcode : code ∈ [10, 11, 12]) (c : Rgb) :
    Does γ (oscSt (decimal code ++ byte ';' :: spec c)) fun o => o.setDynamic code c := by
  have hparse : ∀ code ∈ [10, 11, 12], parseU16 (digits code) = some code ∧ (decimal code).length = 2 := by decide
  obtain ⟨hindex, hlength⟩ := hparse code hcode
  have hprintable : ∀ b ∈ spec c, 0x20 ≤ b.toNat := by
    rw [spec_eq]
    exact encode_plain fun d hd => (specText_plain c d hd).1
  have hpayload := payload_eq_self hprintable
  refine does_oscSt hindex (fun b hb => not_endsOsc (hprintable b hb)) ?_ fun t => ?_
  · rw [hpayload, length_append, length_cons, length_spec, hlength, maxOsc]
    omega
  · have hcommand : t.oscCommand code (specText c) false = t.oscDynamicColor code (specText c) false := by
      simp only [List.mem_cons, List.not_mem_nil, or_false] at hcode
      rcases hcode with rfl | rfl | rfl <;> rfl
    rw [hpayload, spec_eq, lossy_encode, hcommand, oscDynamicColor]
    dsimp only
    rw [if_neg (specText_ne c), parseColorSpec_specText, Outside.setDynamic]
    dsimp only
    split
    · rfl
    · split <;> rfl

/-- **Colours.** -/
theorem brings_dumpColors {s : Terminal γ} (h : s.palette.length = 256)
    (ho : o.palette = defaultPalette ∧ o.fgColor = none ∧ o.bgColor = none ∧ o.cursorColor = none) :
    Brings γ s.dumpColors o
      { o with palette := s.palette, fgColor := s.fgColor, bgColor := s.bgColor, cursorColor := s.cursorColor } := by
  obtain ⟨hpalette, hfg, hbg, hcursor⟩ := ho
  have hdynamic : ∀ (code : ℕ) (c : Option Rgb) (o : Outside), code ∈ [10, 11, 12] → Brings γ
      (c.elim [] fun c => oscSt (decimal code ++ byte ';' :: spec c)) o (c.elim o fun c => o.setDynamic code c) := by
    intro code c o hcode
    cases c with
    | none => exact .nil
    | some c => exact (does_dynamic hcode c).brings o
  have hall := ((brings_palette h hpalette).append (hdynamic 10 s.fgColor _ (by decide))).append
    (hdynamic 11 s.bgColor _ (by decide)) |>.append (hdynamic 12 s.cursorColor _ (by decide))
  refine Eq.mp (congrArg₂ (Brings γ · o ·) ?_ ?_) hall
  · rw [dumpColors]
    cases s.fgColor <;> cases s.bgColor <;> cases s.cursorColor <;> rfl
  · cases s.fgColor <;> cases s.bgColor <;> cases s.cursorColor <;>
      simp [Outside.setDynamic, hfg, hbg, hcursor]

/-! ### Titles and the working directory -/

theorem does_titleOsc {code : ℕ} (hcode : code ∈ [0, 1, 2]) {title : List Char} (h : ∀ c ∈ title, Utf8.Plain c)
    (hfit : (encode title).length + 2 ≤ maxOsc) :
    Does γ (titleOsc code title) fun o =>
      { o with
          title := if code = 1 then o.title else title
          iconTitle := if code = 2 then o.iconTitle else title } := by
  have hparse : ∀ code ∈ [0, 1, 2], parseU16 (digits code) = some code ∧ (decimal code).length = 1 := by decide
  obtain ⟨hindex, hlength⟩ := hparse code hcode
  have hprintable := encode_plain h
  have hpayload := payload_eq_self hprintable
  refine does_oscBel hindex (fun b hb => not_endsOsc (hprintable b hb)) ?_ fun t => ?_
  · rw [hpayload, length_append, length_cons, hlength]
    omega
  · rw [hpayload, lossy_encode]
    simp only [List.mem_cons, List.not_mem_nil, or_false] at hcode
    rcases hcode with rfl | rfl | rfl <;> rfl

/-- **Titles.** -/
theorem brings_dumpTitles {s : Terminal γ} {f : Frame} (hs : s.Sound f) (hfits : s.TextsFit)
    (ho : o.title = [] ∧ o.iconTitle = []) :
    Brings γ s.dumpTitles o { o with title := s.title, iconTitle := s.iconTitle } := by
  obtain ⟨htitle, hicon⟩ := ho
  rw [dumpTitles]
  split
  · rename_i hsame
    have hboth : Brings γ (titleOsc 0 s.title) o _ := (does_titleOsc (by decide) hs.title hfits.title).brings o
    rw [if_neg (by decide), if_neg (by decide)] at hboth
    rwa [← hsame.2]
  · have hfirst : Brings γ (if s.title ≠ [] then titleOsc 2 s.title else []) o { o with title := s.title } := by
      split
      · exact (does_titleOsc (by decide) hs.title hfits.title).brings o
      · rename_i hempty
        rw [not_not.mp hempty, ← htitle]
        exact .nil
    refine hfirst.append ?_
    split
    · exact (does_titleOsc (by decide) hs.iconTitle hfits.iconTitle).brings _
    · rename_i hempty
      rw [not_not.mp hempty, ← hicon]
      exact .nil

/-- **The working directory.** -/
theorem brings_dumpPwd {s : Terminal γ} (hfits : s.TextsFit) (ho : o.pwd = []) :
    Brings γ s.dumpPwd o { o with pwd := s.pwd } := by
  rw [dumpPwd]
  split
  · rename_i hne
    obtain ⟨hsafe, hfit⟩ := hfits.pwd hne
    have hplain : ∀ c ∈ fileScheme ++ s.pwd, Utf8.Plain c :=
      List.forall_mem_append.mpr ⟨List.all_iff_forall_prop.mp (by decide), hsafe.plain⟩
    have hprintable := encode_plain hplain
    have hpayload := payload_eq_self hprintable
    have hdoes : Does γ (oscSt (decimal 7 ++ byte ';' :: encode (fileScheme ++ s.pwd))) fun o =>
        { o with pwd := s.pwd } := by
      refine does_oscSt (by decide) (fun b hb => not_endsOsc (hprintable b hb)) ?_ fun t => ?_
      · have hcode : (decimal 7).length = 1 := rfl
        have hscheme : (encode fileScheme).length = 7 := by decide
        rw [hpayload, length_append, length_cons, encode_append, length_append, hcode, hscheme]
        omega
      · rw [hpayload, lossy_encode]
        have hcommand : ∀ text, (t.oscCommand 7 text false).outside =
            { t.outside with pwd := parseFileUri text } := fun text => rfl
        rw [hcommand, parseFileUri_of_pathSafe hsafe]
    exact hdoes.brings o
  · rename_i hempty
    rw [not_not.mp hempty, ← ho]
    exact .nil

/-! ### Keyboard stacks -/

theorem does_push (flags : UInt8) :
    Does γ (csi (byte '>' :: decimal flags.toNat) 'u') fun o => o.modifyKitty fun k => k.push flags := by
  have hlt := flags.toNat_lt
  refine fun t ht => does_reads (F := fun o => o.modifyKitty fun k => k.push flags)
    (reads_csi_marked (m := byte '>') (n := flags.toNat) (c := 'u') ht (by decide)
    (by omega) (by decide)) fun p => ?_
  have hdispatch : dispatch { t with parser := p } (.csi [[flags.toNat]] [] (byte '>') (byte 'u')) =
      modifyKittyStack { t with parser := p } fun k => k.push (ofNat flags.toNat) := rfl
  rw [hdispatch, UInt8.ofNat_toNat, outside_modifyKittyStack]
  rfl

theorem foldl_push {pushed : List UInt8} (hknown : ∀ flags ∈ pushed, flags &&& 0x1f = flags)
    (hlength : k.stack.length + pushed.length ≤ maxStack) : pushed.foldl push k = ⟨k.stack ++ pushed⟩ := by
  induction pushed generalizing k with
  | nil => rw [List.append_nil, List.foldl_nil]
  | cons flags pushed ih =>
    obtain ⟨hflags, hknown⟩ := forall_mem_cons.mp hknown
    rw [length_cons] at hlength
    have hpush : k.push flags = ⟨k.stack ++ [flags]⟩ := by
      rw [push, if_neg (by omega), hflags]
    rw [foldl_cons, hpush, ih hknown (by rw [length_append, List.length_singleton]; omega),
      List.append_assoc, List.singleton_append]

/-- **A keyboard stack** is pushed on the empty one of the screen drawn on. -/
theorem brings_dumpKitty (h : k.Sound)
    (ho : (if o.altActive then o.kittyAlt else o.kittyPrimary) = {}) :
    Brings γ (dumpKitty k) o (o.modifyKitty fun _ => k) := by
  have hpushes := Does.flatMap (γ := γ) fun flags (_ : flags ∈ k.stack) => does_push flags
  have hfold : ∀ (pushed : List UInt8) (o : Outside),
      pushed.foldl (fun o flags => o.modifyKitty fun k => k.push flags) o =
        o.modifyKitty fun k => pushed.foldl push k := by
    intro pushed
    induction pushed with
    | nil =>
      intro o
      rw [Outside.modifyKitty]
      split <;> rfl
    | cons flags pushed ih =>
      intro o
      rw [foldl_cons, ih, Outside.modifyKitty, Outside.modifyKitty, Outside.modifyKitty]
      cases o.altActive <;> rfl
  have hall : k.stack.foldl push {} = k := foldl_push h.known (by have := h.length; simpa using this)
  have hafter : (o.modifyKitty fun k' => k.stack.foldl push k') = o.modifyKitty fun _ => k := by
    rw [Outside.modifyKitty, Outside.modifyKitty]
    split
    · rename_i halt
      rw [if_pos halt] at ho
      rw [ho, hall]
    · rename_i halt
      rw [if_neg halt] at ho
      rw [ho, hall]
  have hbrings := hpushes.brings o
  rw [hfold, hafter] at hbrings
  exact hbrings

theorem does_switch (on : Bool) :
    Does γ (if on then decset 1049 else decrst 1049) fun o => { o with altActive := on } := by
  refine fun t ht => does_reads (F := fun o => { o with altActive := on })
    (reads_flag (n := 1049) ht (by decide) on) fun p => ?_
  have hswitch := outside_setAltScreen { t with parser := p } 1049 on
  cases on <;> exact hswitch

/-! ### The dump -/

variable {f : Frame} {s : Terminal γ}

theorem brings_dumpModes (hs : s.Sound f)
    (ho : (if o.altActive then o.kittyAlt else o.kittyPrimary) = {}) :
    Brings γ s.dumpModes o (o.modifyKitty fun _ => s.kittyStack) := by
  have hkitty : s.kittyStack.Sound := by
    rw [kittyStack]
    split
    · exact hs.kittyAlt
    · exact hs.kittyPrimary
  obtain ⟨front, hfront, hquiet⟩ := quiet_modes s
  rw [hfront]
  exact (Does.brings hquiet o).append (brings_dumpKitty hkitty ho)

theorem brings_head (hs : s.Sound f) (hfits : s.TextsFit) :
    Brings γ (s.dumpColors ++ s.dumpTitles ++ s.dumpPwd ++
      (if !false && !s.altActive && !s.kittyAlt.stack.isEmpty then
        decset 1049 ++ dumpKitty s.kittyAlt ++ decrst 1049
      else [])) {}
      { s.outside with
          kittyPrimary := {}
          kittyAlt := if s.altActive then {} else s.kittyAlt
          altActive := false } := by
  have hcolors := brings_dumpColors (γ := γ) (s := s) hs.palette (o := {}) ⟨rfl, rfl, rfl, rfl⟩
  have htitles := brings_dumpTitles hs hfits (o := { s.outside with
    title := [], iconTitle := [], pwd := [], kittyPrimary := {}, kittyAlt := {}, altActive := false }) ⟨rfl, rfl⟩
  have hpwd := brings_dumpPwd hfits (o := { s.outside with
    pwd := [], kittyPrimary := {}, kittyAlt := {}, altActive := false }) rfl
  refine ((hcolors.append htitles).append hpwd).append ?_
  split
  · rename_i hcond
    have hactive : s.altActive = false := by
      cases halt : s.altActive
      · rfl
      · rw [halt] at hcond
        cases hcond
    have hset := (does_switch (γ := γ) true).brings { s.outside with
      kittyPrimary := {}, kittyAlt := {}, altActive := false }
    have hpush := brings_dumpKitty (γ := γ) hs.kittyAlt (o := { s.outside with
      kittyPrimary := {}, kittyAlt := {}, altActive := true }) rfl
    have hreset := (does_switch (γ := γ) false).brings { s.outside with
      kittyPrimary := {}, altActive := true }
    rw [hactive]
    exact (hset.append hpush).append hreset
  · rename_i hcond
    have hempty : (if s.altActive then {} else s.kittyAlt) = ({} : KittyKeyStack) := by
      split
      · rfl
      · rename_i halt
        rw [Bool.not_eq_true] at halt
        rw [halt] at hcond
        generalize s.kittyAlt = k at hcond
        rcases k with ⟨stack⟩
        cases stack with
        | nil => rfl
        | cons flags stack => exact absurd rfl hcond
    rw [hempty]
    exact .nil

/-- **What a dump does outside the grid.** -/
theorem brings_dumpVt (hs : s.Sound f) (hfits : s.TextsFit) : Brings γ s.dumpVt {} s.outside := by
  rw [dumpVt, dumpVtImpl]
  generalize (if min s.primary.scrollback.length usizeMax > 0 ∧ ¬ s.altActive then CursorAnchor.relative
    else .absolute) = anchor
  refine (brings_head hs hfits).append ?_
  rw [if_neg Bool.false_ne_true]
  generalize hinner : ({ s.outside with
    kittyPrimary := {}, kittyAlt := if s.altActive then {} else s.kittyAlt, altActive := false } : Outside) = o
  have hbody : Carries γ (.all [if min s.primary.scrollback.length usizeMax > 0 then
          .all [.put (if anchor = .relative ∧ s.modes.origin then decset 6 else []),
              s.dumpFlow (min s.primary.scrollback.length usizeMax)]
        else s.drawGrid s.primary, .put (if anchor = .relative then s.saveFlowAnchoredCursor else []),
        .when s.altActive s.dumpAlt, .put (s.dumpGraphics ++ s.dumpModes),
        s.dumpCursor anchor]) o s.outside := by
    have hflow : Calm γ (if min s.primary.scrollback.length usizeMax > 0 then
        Writer.all [.put (if anchor = .relative ∧ s.modes.origin then decset 6 else []),
            s.dumpFlow (min s.primary.scrollback.length usizeMax)]
        else s.drawGrid s.primary) := by
      split
      · exact calm_all (forall_mem_cons.mpr ⟨calm_put (.ite (quiet_decset (by decide)) .nil),
          List.forall_mem_singleton.mpr (calm_dumpFlow hs _)⟩)
      · exact calm_drawGrid hs hs.primary
    have hsave : Calm γ (.put (if anchor = .relative then s.saveFlowAnchoredCursor else [])) :=
      calm_put (.ite (quiet_saveFlowAnchoredCursor s) .nil)
    -- the screen drawn on, with its keyboard stack still empty
    obtain ⟨o', halt, hmodes⟩ : ∃ o', Carries γ (.when s.altActive s.dumpAlt) o o' ∧
        Brings γ (s.dumpGraphics ++ s.dumpModes) o' s.outside := by
      have hgraphics := fun o => Does.brings (γ := γ) (quiet_dumpGraphics s) o
      have hout : s.outside = { s.outside with altActive := s.altActive } := rfl
      rw [← hinner]
      cases hactive : s.altActive
      · rw [hactive] at hout
        have hmodes := brings_dumpModes hs (o := { s.outside with kittyPrimary := {}, altActive := false }) rfl
        rw [kittyStack, hactive] at hmodes
        refine ⟨_, fun _ => .nil, ?_⟩
        rw [hout]
        exact (hgraphics _).append hmodes
      · rw [hactive] at hout
        have hmodes := brings_dumpModes hs (o := { s.outside with kittyAlt := {}, altActive := true }) rfl
        rw [kittyStack, hactive] at hmodes
        refine ⟨_, ?_, by rw [hout]; exact (hgraphics _).append hmodes⟩
        have hpark := (Does.brings (γ := γ) (quiet_cup (s.savedPrimary.cursor.row + 1) (s.savedPrimary.cursor.col + 1))
          { s.outside with kittyPrimary := {}, kittyAlt := {}, altActive := false }).append
          (brings_dumpKitty hs.kittyPrimary rfl)
        have hswitch := hpark.append ((does_switch true).brings _)
        exact (calm_resetPen.carries _).andThen ((Carries.put hswitch).andThen
          (Carries.last ((calm_drawGrid hs hs.alt).carries _)))
    exact (hflow.carries o).andThen ((hsave.carries o).andThen (halt.andThen (Carries.andThen (.put hmodes)
      (Carries.last ((calm_dumpCursor hs anchor).carries _)))))
  exact hbody {}

/-! ### Later keyboard commands -/

/-- A keyboard command, or private modes, among them the switches of screens. -/
inductive KeyOp where
  | push (params : List (List ℕ))
  | pop (params : List (List ℕ))
  | set (params : List (List ℕ))
  | modes (params : List (List ℕ)) (on : Bool)
  deriving DecidableEq, Repr

/-- The sequence that is read. -/
def KeyOp.action : KeyOp → Action
  | .push params => .csi params [] (byte '>') (byte 'u')
  | .pop params => .csi params [] (byte '<') (byte 'u')
  | .set params => .csi params [] (byte '=') (byte 'u')
  | .modes params on => .csi params [] (byte '?') (if on then byte 'h' else byte 'l')

theorem outside_keyOp (h : t.outside = u.outside) (op : KeyOp) :
    (dispatch t op.action).outside = (dispatch u op.action).outside := by
  have hstack : ∀ g, (t.modifyKittyStack g).outside = (u.modifyKittyStack g).outside := by
    intro g
    have hleft : (t.modifyKittyStack g).outside = _ := congrArg Prod.fst (outside_modifyKittyStack t g)
    have hright : (u.modifyKittyStack g).outside = _ := congrArg Prod.fst (outside_modifyKittyStack u g)
    rw [hleft, hright]
    exact congrArg (Outside.modifyKitty · g) h
  cases op with
  | push params => exact hstack fun k => k.push (ofNat (param params 0 0))
  | pop params => exact hstack fun k => k.pop (paramOr params 0 1)
  | set params => exact hstack fun k => k.set (ofNat (param params 0 0)) (paramOr params 1 1)
  | modes params on =>
    have hmodes := outside_setDecModes h params on
    cases on <;> exact hmodes

theorem outside_keyOps (ops : List KeyOp) (h : t.outside = u.outside) :
    ((ops.map KeyOp.action).foldl dispatch t).outside = ((ops.map KeyOp.action).foldl dispatch u).outside := by
  induction ops generalizing t u with
  | nil => exact h
  | cons op ops ih => exact ih (outside_keyOp h op)

/-- **What lies outside the grid survives a dump**: where the texts fit, a dump replayed on a fresh terminal
of the same size brings back the titles, the working directory, the colours and the two keyboard stacks,
which report the same flags whatever is pushed, popped and switched after it.  The slices that reading the
working directory takes are there. -/
theorem outside_survives (rows cols ring ring' : ℕ) (calls : List Call) (ops : List KeyOp)
    (hfits : (run rows cols ring calls : Terminal γ).TextsFit) :
    let t : Terminal γ := run rows cols ring calls
    let u : Terminal γ := (withScrollback t.rows t.cols ring').process t.dumpVt
    (u.title = t.title ∧ u.iconTitle = t.iconTitle ∧ u.pwd = t.pwd) ∧
      (t.pwd ≠ [] → checkedFileUri (fileScheme ++ t.pwd) = .ok t.pwd) ∧
      (u.palette = t.palette ∧ u.fgColor = t.fgColor ∧ u.bgColor = t.bgColor ∧ u.cursorColor = t.cursorColor) ∧
      u.kittyPrimary = t.kittyPrimary ∧ u.kittyAlt = t.kittyAlt ∧
      ((ops.map KeyOp.action).foldl dispatch u).kittyStack.flags =
        ((ops.map KeyOp.action).foldl dispatch t).kittyStack.flags := by
  intro t u
  obtain ⟨f, -, -, hsound⟩ := good_run (γ := γ) rows cols ring calls
  have hout : u.outside = t.outside :=
    (brings_dumpVt hsound hfits (withScrollback t.rows t.cols ring') Parser.rests_fresh rfl).2
  have hlater := outside_keyOps ops hout
  have hpath : t.pwd ≠ [] → checkedFileUri (fileScheme ++ t.pwd) = .ok t.pwd := fun hne =>
    checkedFileUri_of_pathSafe (hfits.pwd hne).1
  clear_value u t
  refine ⟨⟨congrArg Outside.title hout, congrArg Outside.iconTitle hout, congrArg Outside.pwd hout⟩, hpath,
    ⟨congrArg Outside.palette hout, congrArg Outside.fgColor hout, congrArg Outside.bgColor hout,
      congrArg Outside.cursorColor hout⟩,
    congrArg Outside.kittyPrimary hout, congrArg Outside.kittyAlt hout, ?_⟩
  exact congrArg (fun o => (if o.altActive then o.kittyAlt else o.kittyPrimary).flags) hlater

/-- A title, a working directory and pushes on both screens. -/
def dressed : List Call :=
  [.process (titleOsc 2 ['v', 'i'] ++
    oscSt (decimal 7 ++ byte ';' :: Utf8.encode ['f', 'i', 'l', 'e', ':', '/', '/', '/', 'h']) ++
    csi (byte '>' :: decimal 5) 'u' ++ decset 1049 ++ csi (byte '>' :: decimal 3) 'u')]

theorem dressed_whole : ¬ EscapeTorn (run 1 1 0 dressed : Terminal Unit).pwd := by
  have hpwd : (run 1 1 0 dressed : Terminal Unit).pwd = ['/', 'h'] := by decide +kernel
  rw [hpwd, escapeTorn_cons (by decide), escapeTorn_cons (by decide)]
  exact not_escapeTorn_nil

theorem dressed_survives :
    let t : Terminal Unit := run 1 1 0 dressed
    let u : Terminal Unit := (withScrollback t.rows t.cols 0).process t.dumpVt
    (t.title = ['v', 'i'] ∧ t.pwd = ['/', 'h']) ∧ u.title = t.title ∧ u.iconTitle = t.iconTitle ∧ u.pwd = t.pwd :=
  ⟨by decide +kernel, (outside_survives 1 1 0 0 dressed [.modes [[1049]] false]
    { title := by decide +kernel
      iconTitle := by decide +kernel
      pwd := fun _ => ⟨⟨by decide +kernel, List.all_iff_forall_prop.mp (by decide +kernel), by decide +kernel,
        dressed_whole⟩, by decide +kernel⟩ }).1⟩

/-- The path `/a%2541`, which is read as `/a%41`. -/
def escapedPwd : List Call :=
  [.process (oscBel (decimal 7 ++ byte ';' ::
    Utf8.encode ['f', 'i', 'l', 'e', ':', '/', '/', '/', 'a', '%', '2', '5', '4', '1']))]

/-- A working directory with an escape in it comes back as another. -/
theorem escaped_pwd_lost :
    let t : Terminal Unit := run 1 1 0 escapedPwd
    let u : Terminal Unit := (withScrollback t.rows t.cols 0).process t.dumpVt
    t.pwd = ['/', 'a', '%', '4', '1'] ∧ u.pwd = ['/', 'a', 'A'] ∧ u.pwd ≠ t.pwd := by
  decide +kernel

end Terminal

end Posh.Term
