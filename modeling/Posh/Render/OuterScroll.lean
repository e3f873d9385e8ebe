/-
**Scrolling the outer terminal.**

Line feeds in the last row of the margins move the rows above up and leave blank ones.  The margins are
the whole screen, or they are set for the occasion and reset after it.
-/

import Posh.Render.Outer

set_option autoImplicit false

namespace Posh.Term.Terminal

variable {γ : Type} {f : Frame} {t t' t'' : Terminal γ} {bot n m : ℕ}

/-- The rows down to `bot` moved up by `n`; blank ones came after them. -/
def Scrolled (f : Frame) (bot n : ℕ) (t t' : Terminal γ) : Prop :=
  ∀ i < f.rows, ∀ j < f.cols, t'.view i j =
    if i ≤ bot then if i + n ≤ bot then t.view (i + n) j else some CellView.blank else t.view i j

namespace Scrolled

theorem refl (f : Frame) (bot : ℕ) (t : Terminal γ) : Scrolled f bot 0 t t := by
  intro i _ j _
  rw [Nat.add_zero]
  split <;> rfl

theorem trans (hbot : bot < f.rows) (h : Scrolled f bot n t t') (h' : Scrolled f bot m t' t'') :
    Scrolled f bot (n + m) t t'' := by
  intro i hi j hj
  rw [h' i hi j hj]
  split
  case isTrue hle =>
    by_cases hm : i + m ≤ bot
    · rw [if_pos hm, h (i + m) (by omega) j hj, if_pos hm, Nat.add_assoc, Nat.add_comm m n]
    · rw [if_neg hm, if_neg (by omega)]
  case isFalse hgt => rw [h i hi j hj, if_neg hgt]

theorem congr {u u' : Terminal γ} (h : Scrolled f bot n t t') (hview : ∀ i j, u.view i j = t.view i j)
    (hview' : ∀ i j, u'.view i j = t'.view i j) : Scrolled f bot n u u' := by
  intro i hi j hj
  rw [hview', hview, hview]
  exact h i hi j hj

end Scrolled

variable [GraphicsStore γ]

theorem scrolled_feed (h : t.Idle f) (htop : t.scrollTop = 0) (hbot : t.scrollBot = bot)
    (hrow : t.cursor.row = bot) (hcol : t.cursor.col = 0) :
    (t.process [0x0A]).Idle f ∧ Keeps t (t.process [0x0A]) ∧
      (t.process [0x0A]).place = ⟨bot, 0, false⟩ ∧ Scrolled f bot 1 t (t.process [0x0A]) := by
  have hlt : bot < f.rows := hrow ▸ h.sound.row_lt
  have hregion : t.cancelWrap.region = (0, bot) := by
    rw [h.sound.cancelWrap.region_eq]
    exact congrArg₂ Prod.mk htop hbot
  obtain ⟨u, hu⟩ : ∃ u : Terminal γ, u = t.index := ⟨_, rfl⟩
  have hindex : u = (t.cancelWrap.scrollUpN 1).touch := by
    rw [hu, index, hregion, if_pos (show t.cancelWrap.cursor.row = bot from hrow)]
  have hcursor : u.cursor = t.cancelWrap.cursor := by
    rw [hindex]
    exact modifyScr_cursor _ _
  have hplace : u.place = ⟨bot, 0, false⟩ := by
    rw [place, hcursor]
    dsimp only [cancelWrap]
    rw [hrow, hcol]
  have hkeeps : Keeps t u := hu ▸ Keeps.of_drawn (.index t)
  have hscrolled : Scrolled f bot 1 t u := by
    intro i hi j hj
    obtain ⟨ring, hfits⟩ := h.sound.scr_fits
    have hscr : ∃ save, u.scr = t.scr.scrollUp 0 bot 1 save {} := by
      rw [hindex, scrollUpN, hregion]
      exact ⟨_, scr_modifyScr _ _⟩
    obtain ⟨save, hscr⟩ := hscr
    have hview : u.cellView = t.cellView := by
      funext cell
      rw [cellView, cellView, hkeeps.link]
    rw [view, hscr, hview, cell?_scrollUpTo hfits hlt save hj]
    split
    case isTrue h' => rw [if_pos (by omega), if_pos (by omega), view]
    case isFalse h' =>
      split
      case isTrue heq =>
        rw [if_pos (by omega), if_neg (by omega), Option.map_some, cellView_blank h.sound.links]
      case isFalse hne => rw [if_neg (by omega), view]
  have hsound := h.sound.index
  rw [← hu] at hsound
  have hfeed : t.process [0x0A] = u.process [] ∨ t.process [0x0A] =
      { u with cursor := { u.cursor with col := 0 } } := by
    rw [process_control h.rests (by decide) (by decide), process_nil, hu]
    have hexec : t.execute 0x0A = t.linefeed := rfl
    rw [hexec, linefeed]
    split
    · exact .inr rfl
    · exact .inl rfl
  rcases hfeed with heq | heq
  · rw [heq, process_nil]
    exact ⟨.of_sound hsound h.rests, hkeeps, hplace, hscrolled⟩
  · obtain ⟨hrow', hcol', hpend'⟩ := Place.mk.inj hplace
    rw [heq]
    refine ⟨.of_sound { hsound with col_lt := hsound.cols_pos } h.rests,
      hkeeps.trans (.moved u u.cursor.row 0 u.cursor.pendingWrap), ?_, ?_⟩
    · rw [place]
      dsimp only
      rw [hrow', hpend']
    · exact hscrolled.congr (fun _ _ => rfl) fun _ _ => rfl

/-- **Line feeds in the last row of the margins** scroll. -/
theorem scrolled_feeds (h : t.Idle f) (htop : t.scrollTop = 0) (hbot : t.scrollBot = bot)
    (hplace : t.place = ⟨bot, 0, false⟩) (n : ℕ) {t' : Terminal γ} (ht' : t.process (List.replicate n 0x0A) = t') :
    t'.Idle f ∧ Keeps t t' ∧ t'.place = ⟨bot, 0, false⟩ ∧ Scrolled f bot n t t' := by
  obtain ⟨hrow, hcol, -⟩ := Place.mk.inj hplace
  have hlt : bot < f.rows := hrow ▸ h.sound.row_lt
  induction n generalizing t with
  | zero =>
    rw [← ht']
    exact ⟨h, .refl t, hplace, .refl f bot t⟩
  | succ n ih =>
    obtain ⟨hidle, hkeeps, hplace', hscrolled⟩ := scrolled_feed h htop hbot hrow hcol
    have hbytes : List.replicate (n + 1) (0x0A : UInt8) = [0x0A] ++ List.replicate n 0x0A := rfl
    rw [hbytes, process_append] at ht'
    obtain ⟨hrow', hcol', -⟩ := Place.mk.inj hplace'
    obtain ⟨hidle', hkeeps', hplace'', hscrolled'⟩ := ih hidle (hkeeps.scrollTop.trans htop)
      (hkeeps.scrollBot.trans hbot) hplace' ht' hrow' hcol'
    refine ⟨hidle', hkeeps.trans hkeeps', hplace'', ?_⟩
    rw [Nat.add_comm n 1]
    exact hscrolled.trans hlt hscrolled'

/-! ### The whole screen -/

/-! ### A region -/

theorem process_region (h : t.Idle f) (hbot : 0 < bot) (hlt : bot < f.rows) (hrows : f.rows ≤ 65535) :
    ∃ p, p.Rests ∧ t.process (csi (numbers [1, bot + 1]) 'r') =
      moveTo { t with parser := p, scrollTop := 0, scrollBot := bot } 0 0 := by
  obtain ⟨p, hp, heq⟩ := process_reads (Parser.reads_csi_numbers h.rests (show 1 ≤ 65535 by decide)
    (List.forall_mem_singleton.mpr (show bot + 1 ≤ 65535 by omega))
    (show 1 < Parser.maxParams by decide) (show Parser.IsFinal (byte 'r') by decide))
  refine ⟨p, hp, heq.trans ?_⟩
  have hset : dispatch { t with parser := p } (.csi ([1] :: [bot + 1].map fun m => [m]) [] 0 (byte 'r')) =
      setRegion { t with parser := p } [[0 + 1], [bot + 1]] := rfl
  have hrows' : Terminal.rows { t with parser := p } = f.rows := h.sound.rows_eq
  rw [hset, setRegion, (paramOr_pos 0 bot 1 _).1, (paramOr_pos 0 bot _ []).2, hrows',
    Nat.add_sub_cancel, Nat.add_sub_cancel, Nat.min_eq_left (by omega), if_pos hbot]

theorem process_wholeRegion (h : t.Idle f) (hrows : 1 < f.rows) : ∃ p, p.Rests ∧ t.process (csi [] 'r') =
      moveTo { t with parser := p, scrollTop := 0, scrollBot := f.rows - 1 } 0 0 := by
  obtain ⟨p, hp, heq⟩ := process_reads (Parser.reads_csi_empty h.rests
    (show Parser.IsFinal (byte 'r') by decide))
  refine ⟨p, hp, heq.trans ?_⟩
  have hset : dispatch { t with parser := p } (.csi [] [] 0 (byte 'r')) =
      setRegion { t with parser := p } [] := rfl
  have hrows' : Terminal.rows { t with parser := p } = f.rows := h.sound.rows_eq
  have hnone : ∀ i d, paramOr [] i d = d := fun _ _ => rfl
  rw [hset, setRegion, hnone, hnone, hrows', Nat.sub_self, Nat.min_self, if_pos (by omega)]

/-- **A region scrolled**, from the first row to row `bot`, wherever the cursor was. -/
theorem Outer.regionScroll (h : t.Outer f) (hbot : 0 < bot) (hlt : bot < f.rows) (hrows : f.rows ≤ 65535)
    {hide : List UInt8} (hhide : Asides γ f hide) (n : ℕ)
    (ht' : t.process (csi (numbers [1, bot + 1]) 'r' ++ (hide ++ (cup (bot + 1) 1 ++
      (List.replicate n 0x0A ++ csi [] 'r')))) = t') :
    t'.Outer f ∧ SameHand t t' ∧ t'.place = ⟨0, 0, false⟩ ∧ Scrolled f bot n t t' := by
  have hsound : t.Sound { f with parser := t.parser } := h.idle.sound
  rw [process_append, process_append, process_append, process_append] at ht'
  -- the margins
  obtain ⟨p₁, hp₁, heq₁⟩ := process_region h.idle hbot hlt hrows
  obtain ⟨t₁, ht₁⟩ : ∃ u, u = t.process (csi (numbers [1, bot + 1]) 'r') := ⟨_, rfl⟩
  have hset : Sound { f with parser := p₁ } { t with parser := p₁, scrollTop := 0, scrollBot := bot } :=
    { h.idle.withParser p₁ with
      region_le := Nat.zero_le _
      region_lt := hlt
      region_proper := .inl hbot }
  have hidle₁ : t₁.Idle f := by
    rw [ht₁, heq₁]
    exact .of_sound (hset.moveTo 0 0) hp₁
  rw [← ht₁] at ht'
  rw [heq₁] at ht₁
  have hand₁ : SameHand t t₁ := ht₁ ▸ ⟨rfl, rfl, rfl, rfl, rfl, rfl, rfl⟩
  have hview₁ : ∀ i j, t₁.view i j = t.view i j := ht₁ ▸ view_congr rfl rfl
  -- the cursor is hidden
  obtain ⟨hidle₂, haside⟩ := hhide t₁ hidle₁
  generalize t₁.process hide = t₂ at ht' hidle₂ haside
  -- the cursor goes to the last row of the region
  obtain ⟨p₃, hp₃, heq₃⟩ := process_reads (reads_cup hidle₂.rests (show bot < 65535 by omega)
    (show 0 < 65535 by decide))
  rw [dispatch_cup] at heq₃
  rw [heq₃] at ht'
  obtain ⟨t₃, ht₃⟩ : ∃ u : Terminal γ, u = moveTo { t₂ with parser := p₃ } bot 0 := ⟨_, rfl⟩
  have hidle₃ : t₃.Idle f := ht₃ ▸ .of_sound ((hidle₂.withParser p₃).moveTo bot 0) hp₃
  have htop₃ : t₃.scrollTop = 0 := by rw [ht₃]; exact haside.top.trans (by rw [ht₁]; rfl)
  have hbot₃ : t₃.scrollBot = bot := by rw [ht₃]; exact haside.bot.trans (by rw [ht₁]; rfl)
  have hplace₃ : t₃.place = ⟨bot, 0, false⟩ := by
    have hregion : region { t₂ with parser := p₃ } = (0, bot) := by
      rw [(hidle₂.withParser p₃).region_eq]
      exact congrArg₂ Prod.mk (htop₃.symm.trans (by rw [ht₃]; rfl)).symm
        (hbot₃.symm.trans (by rw [ht₃]; rfl)).symm
    have hrows' : Terminal.rows { t₂ with parser := p₃ } = f.rows := (hidle₂.withParser p₃).rows_eq
    rw [ht₃, place, moveTo, hregion, hrows']
    dsimp only [touch]
    rw [Nat.zero_min]
    congr 1
    split <;> omega
  have hand₃ : SameHand t₂ t₃ := ht₃ ▸ ⟨rfl, rfl, rfl, rfl, rfl, rfl, rfl⟩
  have hview₃ : ∀ i j, t₃.view i j = t₁.view i j := by
    intro i j
    rw [ht₃]
    exact view_congr haside.scr haside.hyperlinks i j
  rw [← ht₃] at ht'
  -- the line feeds
  obtain ⟨hidle₄, hkeeps₄, -, hscrolled⟩ := scrolled_feeds hidle₃ htop₃ hbot₃ hplace₃ n rfl
  generalize t₃.process (List.replicate n 0x0A) = t₄ at ht' hidle₄ hkeeps₄ hscrolled
  -- the margins are the whole screen again
  obtain ⟨p₅, hp₅, heq₅⟩ := process_wholeRegion hidle₄ (by omega)
  rw [heq₅] at ht'
  have hreset : Sound { f with parser := p₅ }
      { t₄ with parser := p₅, scrollTop := 0, scrollBot := f.rows - 1 } :=
    { hidle₄.withParser p₅ with
      region_le := Nat.zero_le _
      region_lt := by dsimp only; omega
      region_proper := .inl (by dsimp only; omega) }
  have hautowrap : t₄.modes.autowrap = true := by
    rw [hkeeps₄.modes, ht₃]
    refine haside.autowrap.trans ?_
    rw [ht₁]
    exact h.autowrap
  rw [← ht']
  refine ⟨⟨.of_sound (hreset.moveTo 0 0) hp₅, hautowrap, rfl, rfl⟩, ?_, ?_, ?_⟩
  · exact ((hand₁.trans haside.sameHand).trans (hand₃.trans hkeeps₄.sameHand)).trans
      ⟨rfl, rfl, rfl, rfl, rfl, rfl, rfl⟩
  · have hregion : region { t₄ with parser := p₅, scrollTop := 0, scrollBot := f.rows - 1 } =
        (0, f.rows - 1) := hreset.region_eq
    rw [place, moveTo, hregion]
    dsimp only [touch]
    rw [Nat.zero_min, Nat.zero_min]
    congr 1
    split <;> simp
  · refine hscrolled.congr (fun i j => ?_) fun i j => rfl
    rw [hview₃, hview₁]

end Posh.Term.Terminal
