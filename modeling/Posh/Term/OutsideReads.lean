/-
**Replaying what lies outside the grid.**

Most of a dump is about the grid: its text, its pens, its cursor and its modes are written in sequences
that leave what lies outside it alone, whatever they do to the grid.  The rest sets one thing each: a
colour, a title, the working directory, an entry of the keyboard stack of the screen drawn on, the screen
drawn on.
-/

import Posh.Term.Outside
import Posh.Term.PenReads

set_option autoImplicit false

namespace Posh.Term

namespace Parser

variable {p : Parser} {bs : List UInt8} {body : List UInt8}

/-! ### Sequences of any parameters -/

theorem run_params (h : p.state = .csiEntry ∨ p.state = .csiParam) (hbs : ∀ b ∈ bs, IsParam b) :
    ∃ q, p.run bs = (q, []) ∧ (q.state = .csiEntry ∨ q.state = .csiParam) ∧ q.marker = p.marker ∧
      q.intermediates = p.intermediates ∧ q.utf8Need = p.utf8Need := by
  induction bs generalizing p with
  | nil => exact ⟨p, rfl, h, rfl, rfl, rfl⟩
  | cons b bs ih =>
    obtain ⟨hb, hbs⟩ := List.forall_mem_cons.mp hbs
    obtain ⟨q, hrun, hstate, hmarker, him, hneed⟩ := ih (.inr (state_paramByte p b)) hbs
    have hkept : (p.paramByte b).marker = p.marker ∧ (p.paramByte b).intermediates = p.intermediates ∧
        (p.paramByte b).utf8Need = p.utf8Need := by
      rw [paramByte]
      split
      · exact ⟨rfl, rfl, rfl⟩
      · split <;> exact ⟨rfl, rfl, rfl⟩
    refine ⟨q, ?_, hstate, hmarker.trans hkept.1, him.trans hkept.2.1, hneed.trans hkept.2.2⟩
    rw [run_cons_nil (advance_param h hb), hrun]

/-- **A control sequence, whatever its parameters are.** -/
theorem reads_csi_params (h : p.Rests) (hbs : ∀ b ∈ bs, IsParam b) {c : Char}
    (hc : IsFinal (byte c)) : ∃ params, p.Reads (csi bs c) (.csi params [] 0 (byte c)) := by
  obtain ⟨p₁, h₁, hentered, hstate, -⟩ := h.entered
  obtain ⟨p₂, h₂, hstate₂, hmarker, him, hneed⟩ := run_params (.inl hstate) hbs
  refine ⟨p₂.takeParams.1, esc :: byte '[' :: bs, byte c, p₂, (p₂.csiDispatch (byte c)).1, rfl, ?_, ?_, rfl, ?_⟩
  · rw [show esc :: byte '[' :: bs = [esc, byte '['] ++ bs from rfl, run_append_nil h₁, h₂]
  · rw [advance_final hstate₂ hc, Parser.csiDispatch]
    dsimp only [takeParams]
    rw [hmarker, him, hentered.marker, hentered.intermediates]
  · exact hneed.trans hentered.need

theorem reads_csi_params_intermediate (h : p.Rests) (hbs : ∀ b ∈ bs, IsParam b)
    {im : UInt8} {c : Char} (him : 0x20 ≤ im.toNat ∧ im.toNat ≤ 0x2F) (hc : IsFinal (byte c)) :
    ∃ params, p.Reads (csi (bs ++ [im]) c) (.csi params [im] 0 (byte c)) := by
  obtain ⟨p₁, h₁, hentered, hstate, -⟩ := h.entered
  obtain ⟨p₂, h₂, hstate₂, hmarker, hims, hneed⟩ := run_params (.inl hstate) hbs
  have hstep : p₂.advance im = ({ p₂ with intermediates := [im], state := .csiIntermediate }, []) := by
    have hnone : p₂.anywhere im = none := anywhere_eq_none him.1 (by omega)
    rw [hentered.intermediates] at hims
    rw [Parser.advance]
    rcases hstate₂ with hs | hs
    · rw [hs]
      dsimp only
      rw [csiEntry, hnone]
      dsimp only
      rw [if_neg (by omega), if_pos him.2, hims]
      rfl
    · rw [hs]
      dsimp only
      rw [csiParam, hnone]
      dsimp only
      rw [if_neg (by omega), if_pos him.2, hims]
      rfl
  generalize hp₃ : ({ p₂ with intermediates := [im], state := .csiIntermediate } : Parser) = p₃ at hstep
  have hlast : p₃.advance (byte c) = p₃.csiDispatch (byte c) := by
    obtain ⟨hlo, hhi⟩ := hc
    rw [Parser.advance, ← hp₃]
    dsimp only
    rw [csiIntermediate, anywhere_eq_none (by omega) (by omega)]
    dsimp only
    rw [if_neg (by omega), if_neg (by omega), if_neg (by omega), if_pos hhi]
  refine ⟨p₃.takeParams.1, esc :: byte '[' :: (bs ++ [im]), byte c, p₃, (p₃.csiDispatch (byte c)).1, rfl, ?_, ?_,
    rfl, ?_⟩
  · rw [show esc :: byte '[' :: (bs ++ [im]) = [esc, byte '['] ++ (bs ++ [im]) from rfl, run_append_nil h₁,
      run_append_nil h₂, run_singleton hstep]
  · rw [hlast, Parser.csiDispatch, ← hp₃]
    dsimp only [takeParams]
    rw [hmarker, hentered.marker]
  · rw [← hp₃]
    exact hneed.trans hentered.need

/-! ### Application program commands -/

theorem run_content (hbody : ∀ b ∈ body, 0x20 ≤ b.toNat) (h : p.state = .apcString) :
    ∃ q, p.run body = (q, []) ∧ q.state = .apcString ∧ q.utf8Need = p.utf8Need := by
  induction body generalizing p with
  | nil => exact ⟨p, rfl, h, rfl⟩
  | cons b body ih =>
    obtain ⟨hb, hbody⟩ := List.forall_mem_cons.mp hbody
    have hends := not_endsOsc hb
    rw [EndsOsc, not_or, not_or, not_or] at hends
    have hstep : p.advance b = (p.pushStringByte b maxApc, []) := by
      rw [Parser.advance, h]
      dsimp only
      rw [apcString, if_neg hends.2.2.2, if_neg (not_or.mpr ⟨hends.2.1, hends.2.2.1⟩)]
    have hkept : (p.pushStringByte b maxApc).state = p.state ∧
        (p.pushStringByte b maxApc).utf8Need = p.utf8Need := by
      rw [pushStringByte]
      split <;> exact ⟨rfl, rfl⟩
    obtain ⟨q, hrun, hstate, hneed⟩ := ih hbody (hkept.1.trans h)
    exact ⟨q, by rw [run_cons_nil hstep, hrun], hstate, hneed.trans hkept.2⟩

/-- **A graphics command is handed on or dropped**, and its last byte does nothing by itself. -/
theorem run_apc (h : p.Rests) (hbody : ∀ b ∈ body, 0x20 ≤ b.toNat) :
    ∃ q q', ∃ datas : List (List UInt8), p.run (esc :: byte '_' :: body) = (q, []) ∧
      q.advance esc = (q', datas.map .apc) ∧ q'.state = .escape ∧ q'.utf8Need = 0 := by
  have hstep : Parser.advance { p with state := .escape } (byte '_') =
      (startString { p with state := .escape } .apcString, []) := by
    simp only [Parser.advance, escape]
    rw [anywhere_eq_none (by decide) (by decide)]
    rfl
  obtain ⟨q, hrun, hstate, hneed⟩ := run_content (p := startString { p with state := .escape } .apcString)
    hbody rfl
  refine ⟨q, { q with stringBuf := [], stringOverflow := false, state := .escape },
    if q.stringOverflow then [] else [q.stringBuf], ?_, ?_, rfl, hneed.trans h.need⟩
  · rw [run_cons_nil h.advance_esc, run_cons_nil hstep, hrun]
  · rw [Parser.advance, hstate]
    dsimp only
    rw [apcString, if_pos (show esc = 0x1B from rfl)]
    split <;> rfl

end Parser

open Posh.Term.Parser

namespace Terminal

open Posh.Term.Parser (Reads Rests IsParam IsFinal)

variable {γ : Type} [GraphicsStore γ] {rest : List UInt8} {code : ℕ} {c : Char} {F : Outside → Outside}

/-! ### What bytes do outside the grid -/

variable (γ) in
/-- Read between sequences, these bytes change what lies outside the grid by `F`. -/
def Does (bytes : List UInt8) (F : Outside → Outside) : Prop :=
  ∀ t : Terminal γ, t.parser.Rests → (t.process bytes).parser.Rests ∧ (t.process bytes).outside = F t.outside

variable (γ) in
/-- These bytes leave it alone. -/
abbrev Quiet (bytes : List UInt8) : Prop := Does γ bytes id

section

variable {xs ys : List UInt8} {F G : Outside → Outside}

theorem Quiet.nil : Quiet γ [] := fun _ h => ⟨h, rfl⟩

theorem Does.append (hx : Does γ xs F) (hy : Does γ ys G) : Does γ (xs ++ ys) (G ∘ F) := by
  intro t h
  obtain ⟨hrests, hout⟩ := hx t h
  obtain ⟨hrests', hout'⟩ := hy _ hrests
  rw [process_append]
  exact ⟨hrests', hout'.trans (congrArg G hout)⟩

theorem Quiet.append (hx : Quiet γ xs) (hy : Quiet γ ys) : Quiet γ (xs ++ ys) := Does.append hx hy

theorem Quiet.ite {c : Prop} [Decidable c] (hx : Quiet γ xs) (hy : Quiet γ ys) :
    Quiet γ (if c then xs else ys) := by
  split
  · exact hx
  · exact hy

theorem Does.flatMap {α : Type} {f : α → List UInt8} {F : α → Outside → Outside} :
    ∀ {l : List α}, (∀ a ∈ l, Does γ (f a) (F a)) → Does γ (l.flatMap f) fun o => l.foldl (fun o a => F a o) o
  | [], _ => Quiet.nil
  | a :: l, h => by
      have hrest := Does.flatMap (l := l) fun b hb => h b (List.mem_cons_of_mem a hb)
      exact (h a List.mem_cons_self).append hrest

theorem Quiet.flatMap {α : Type} {f : α → List UInt8} {l : List α} (h : ∀ a ∈ l, Quiet γ (f a)) :
    Quiet γ (l.flatMap f) := by
  induction l with
  | nil => exact Quiet.nil
  | cons a l ih =>
    obtain ⟨ha, hl⟩ := List.forall_mem_cons.mp h
    exact Quiet.append ha (ih hl)

theorem does_reads {t : Terminal γ} {a : Action} (hreads : t.parser.Reads xs a)
    (ha : ∀ p, ((dispatch { t with parser := p } a).outside, (dispatch { t with parser := p } a).parser) =
      (F t.outside, p)) :
    (t.process xs).parser.Rests ∧ (t.process xs).outside = F t.outside := by
  obtain ⟨p, hp, heq⟩ := process_reads hreads
  obtain ⟨hout, hparser⟩ := Prod.mk.inj (ha p)
  rw [heq, hparser]
  exact ⟨hp, hout⟩

end

/-! ### Sequences about the grid -/

variable {bs : List UInt8}

/-- **A control sequence** without a marker. -/
theorem quiet_csi (hbs : ∀ b ∈ bs, IsParam b) (hc : IsFinal (byte c))
    (h : ∀ (t : Terminal γ) params, Leaves t (t.csiPlain params (byte c))) : Quiet γ (csi bs c) := by
  intro t ht
  obtain ⟨params, hreads⟩ := reads_csi_params ht hbs hc
  exact does_reads hreads fun p => h { t with parser := p } params

theorem quiet_csi_intermediate (hbs : ∀ b ∈ bs, IsParam b) {im : UInt8}
    (him : 0x20 ≤ im.toNat ∧ im.toNat ≤ 0x2F) (hc : IsFinal (byte c))
    (h : ∀ (t : Terminal γ) params, Leaves t (t.csiIntermediate params im 0 (byte c))) :
    Quiet γ (csi (bs ++ [im]) c) := by
  intro t ht
  obtain ⟨params, hreads⟩ := reads_csi_params_intermediate ht hbs him hc
  exact does_reads hreads fun p => h { t with parser := p } params

theorem quiet_mode {n : ℕ} (hn : n ≤ 65535) (h : ¬ (n = 47 ∨ n = 1047 ∨ n = 1049)) (set : Bool) :
    Quiet γ (if set then decset n else decrst n) := by
  refine fun t ht => does_reads (reads_flag ht hn set) fun p => ?_
  have hmode := Leaves.setDecMode { t with parser := p } h set
  cases set <;> exact hmode

theorem quiet_esc (hc : 0x30 ≤ (byte c).toNat ∧ (byte c).toNat ≤ 0x7E)
    (hplain : byte c ∉ [0x5B, 0x5D, 0x50, 0x5F, 0x58, (0x5E : UInt8)])
    (h : ∀ t : Terminal γ, Leaves t (t.escDispatch [] (byte c))) : Quiet γ (escSeq [] c) :=
  fun t ht => does_reads (reads_esc ht hc hplain) fun p => h { t with parser := p }

theorem quiet_designate {slot c : Char} (hslot : slot = '(' ∨ slot = ')') (hc : c = '0' ∨ c = 'A') :
    Quiet γ (escSeq [byte slot] c) := by
  have him : 0x20 ≤ (byte slot).toNat ∧ (byte slot).toNat ≤ 0x2F := by rcases hslot with rfl | rfl <;> decide
  have hfinal : 0x30 ≤ (byte c).toNat ∧ (byte c).toNat ≤ 0x7E := by rcases hc with rfl | rfl <;> decide
  refine fun t ht => does_reads (reads_esc_intermediate ht him hfinal) fun p => ?_
  rcases hslot with rfl | rfl <;> rcases hc with rfl | rfl <;> rfl

theorem quiet_control {b : UInt8} (hb : b.toNat ≤ 0x1F) (hesc : b ≠ 0x1B) : Quiet γ [b] := by
  intro t ht
  have hleaves := Leaves.execute t b
  rw [process_control ht hb hesc, hleaves.parser]
  exact ⟨ht, hleaves.outside⟩

/-- **Text.** -/
theorem quiet_text {cs : List Char} (h : ∀ c ∈ cs, Utf8.Plain c) : Quiet γ (Utf8.encode cs) := by
  induction cs with
  | nil => exact Quiet.nil
  | cons c cs ih =>
    obtain ⟨hc, hcs⟩ := List.forall_mem_cons.mp h
    rw [Utf8.encode_cons]
    refine Quiet.append (fun t ht => ?_) (ih hcs)
    rcases process_char ht hc with ⟨-, heq⟩ | ⟨p, hp, heq⟩
    · rw [heq]
      exact ⟨ht, rfl⟩
    · have hleaves := Leaves.print { t with parser := p } c
      rw [heq, hleaves.parser]
      exact ⟨hp, hleaves.outside⟩

/-! ### Commands -/

/-- **A command ended by ST.** -/
theorem does_oscSt (hcode : parseU16 (digits code) = some code) (hrest : ∀ b ∈ rest, ¬ Parser.EndsOsc b)
    (hfit : (decimal code ++ byte ';' :: payload rest).length ≤ maxOsc)
    (h : ∀ t : Terminal γ, (t.oscCommand code (Utf8.lossy (payload rest)) false).outside = F t.outside) :
    Does γ (oscSt (decimal code ++ byte ';' :: rest)) F := by
  intro t ht
  obtain ⟨p, q, hp, heq⟩ := process_oscSt ht (not_endsOsc_code hrest)
  rw [payload_code, if_pos hfit, oscDispatch_code _ hcode] at heq
  rw [heq]
  exact ⟨hp, h { t with parser := q }⟩

theorem quiet_oscSt (hcode : parseU16 (digits code) = some code) (hrest : ∀ b ∈ rest, ¬ Parser.EndsOsc b)
    (h : ∀ (t : Terminal γ) text, (t.oscCommand code text false).outside = t.outside) :
    Quiet γ (oscSt (decimal code ++ byte ';' :: rest)) := by
  intro t ht
  obtain ⟨p, q, hp, heq⟩ := process_oscSt ht (not_endsOsc_code hrest)
  rw [payload_code, oscDispatch_code _ hcode] at heq
  rw [heq]
  refine ⟨hp, ?_⟩
  show (if _ then _ else _ : Terminal γ).outside = t.outside
  split
  · exact h { t with parser := q } _
  · rfl

theorem does_oscBel (hcode : parseU16 (digits code) = some code) (hrest : ∀ b ∈ rest, ¬ Parser.EndsOsc b)
    (hfit : (decimal code ++ byte ';' :: payload rest).length ≤ maxOsc)
    (h : ∀ t : Terminal γ, (t.oscCommand code (Utf8.lossy (payload rest)) true).outside = F t.outside) :
    Does γ (oscBel (decimal code ++ byte ';' :: rest)) F := by
  intro t ht
  obtain ⟨p, hp, heq⟩ := process_oscBel ht (not_endsOsc_code hrest)
  have hparser := (Steady.oscDispatch { t with parser := p }
    (payload (decimal code ++ byte ';' :: rest)) true).parser
  rw [payload_code] at heq hparser
  rw [if_pos hfit] at heq
  rw [heq, hparser, oscDispatch_code _ hcode]
  exact ⟨hp, h { t with parser := p }⟩

/-- **A graphics command**, whatever it says. -/
theorem quiet_apc {body : List UInt8} (hbody : ∀ b ∈ body, 0x20 ≤ b.toNat) : Quiet γ (apc body) := by
  intro t ht
  obtain ⟨q, q', datas, hrun, hend, hstate, hneed⟩ := run_apc ht hbody
  have hlast : q'.advance 0x5C = ({ q' with state := .ground }, [.esc [] 0x5C]) := by
    rw [advance, hstate]
    rfl
  have hall : ∀ (datas : List (List UInt8)) (u : Terminal γ), Leaves u ((datas.map .apc).foldl dispatch u) := by
    intro datas
    induction datas with
    | nil => exact .refl
    | cons data datas ih => exact fun u => (Leaves.apcDispatch u data).trans (ih _)
  have hbytes : apc body = (esc :: byte '_' :: body) ++ [esc, 0x5C] := rfl
  have hleaves := hall datas { t with parser := q' }
  rw [hbytes, process_append, process_quiet hrun, process_cons, processByte]
  dsimp only
  rw [hend]
  generalize (datas.map Action.apc).foldl dispatch { t with parser := q' } = u at hleaves ⊢
  rw [process_cons, process_nil, processByte, hleaves.parser]
  dsimp only
  rw [hlast]
  exact ⟨⟨rfl, hneed⟩, hleaves.outside⟩

end Terminal

end Posh.Term
