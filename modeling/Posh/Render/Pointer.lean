/-
**The cursor of a frame.**

The renderer keeps track of the cursor by what it writes; the outer terminal has it by what it reads.  The
two agree, column for column, with the last column taken as passed once it was written; only a move to the
left from there, made with backspaces, ends one column short.
-/

import Posh.Render.OuterScroll
import Posh.Render.RowDiff

set_option autoImplicit false

namespace Posh.Term.Render

open Terminal

variable {γ : Type} [GraphicsStore γ] {F : Frame} {t : Terminal γ} {fr fr' : FrameState}
  {row col row' col' : ℕ} {bytes : List UInt8}

/-! ### What an operation writes -/

namespace FrameState

theorem updateStyle_eq (fr : FrameState) (style : Style) (force : Bool) :
    ∃ bytes, fr.updateStyle style force = { fr with out := fr.out ++ bytes, style } ∧
      (bytes = sgrSeq style ∨ bytes = [] ∧ fr.style = style) := by
  rw [updateStyle]
  split
  case isTrue => exact ⟨_, rfl, .inl rfl⟩
  case isFalse h =>
    have hstyle : fr.style = style := Decidable.byContradiction fun hne => h (.inr hne)
    exact ⟨[], by rw [List.append_nil, ← hstyle], .inr ⟨rfl, hstyle⟩⟩

theorem updateLink_eq (fr : FrameState) (uri : List Char) (force : Bool) :
    ∃ bytes, fr.updateLink uri force = { fr with out := fr.out ++ bytes, link := uri } ∧
      (bytes = linkSeq uri ∨ bytes = [] ∧ fr.link = uri) := by
  rw [updateLink]
  split
  case isTrue => exact ⟨_, rfl, .inl rfl⟩
  case isFalse h =>
    have hlink : fr.link = uri := Decidable.byContradiction fun hne => h (.inr hne)
    exact ⟨[], by rw [List.append_nil, ← hlink], .inr ⟨rfl, hlink⟩⟩

end FrameState

open FrameState

/-! ### The cursor is followed -/

/-- The cursor is before a column of a row, and thought to be there. -/
structure At (F : Frame) (t : Terminal γ) (fr : FrameState) (row col : ℕ) : Prop where
  outer : (t.process fr.out).Outer F
  y : fr.y = row
  x : fr.x = col
  place : (t.process fr.out).place = atCol F row col

/-- Where the cursor is is not known, or it is there. -/
structure Follows (F : Frame) (t : Terminal γ) (fr : FrameState) : Prop where
  outer : (t.process fr.out).Outer F
  here : fr.x = -1 ∧ fr.y = -1 ∨ ∃ row col, row < F.rows ∧ col ≤ F.cols ∧ At F t fr row col

theorem At.follows (h : At F t fr row col) (hrow : row < F.rows) (hcol : col ≤ F.cols) : Follows F t fr :=
  ⟨h.outer, .inr ⟨row, col, hrow, hcol, h⟩⟩

theorem At.append (h : At F t fr row col) (hgoes : Goes γ F (atCol F row col) bytes (atCol F row' col'))
    (hout : fr'.out = fr.out ++ bytes) (hy : fr'.y = row') (hx : fr'.x = col') : At F t fr' row' col' := by
  obtain ⟨houter, hplace⟩ := hgoes _ h.outer h.place
  rw [← process_append, ← hout] at houter hplace
  exact ⟨houter, hy, hx, hplace⟩

theorem Follows.still (h : Follows F t fr) (hgoes : ∀ p, Goes γ F p bytes p)
    (hout : fr'.out = fr.out ++ bytes) (hy : fr'.y = fr.y) (hx : fr'.x = fr.x) : Follows F t fr' := by
  obtain ⟨houter, -⟩ := hgoes _ _ h.outer rfl
  rw [← process_append, ← hout] at houter
  refine ⟨houter, ?_⟩
  rcases h.here with hlost | ⟨row, col, hrow, hcol, hat⟩
  · exact .inl (by rwa [hx, hy])
  · exact .inr ⟨row, col, hrow, hcol, hat.append (hgoes _) hout (hy.trans hat.y) (hx.trans hat.x)⟩

/-! ### The pen and the hyperlink -/

theorem goes_sgr (style : Style) (p : Place) : Goes γ F p (sgrSeq style) p := by
  intro t ht hp
  have hpen := ht.idle.sgrSeq style
  exact ⟨hpen.repens.outer ht hpen.idle, hpen.repens.place.trans hp⟩

variable {uri : List Char}

theorem goes_link (huri : ∀ c ∈ uri, Utf8.Plain c) (p : Place) : Goes γ F p (linkSeq uri) p := by
  intro t ht hp
  obtain ⟨hidle, hrepens, -, -⟩ := ht.idle.openLink huri rfl
  exact ⟨hrepens.outer ht hidle, hrepens.place.trans hp⟩

theorem Follows.updateStyle (h : Follows F t fr) (style : Style) (force : Bool) :
    Follows F t (fr.updateStyle style force) := by
  obtain ⟨bytes, heq, hbytes⟩ := fr.updateStyle_eq style force
  rw [heq]
  refine h.still (fun p => ?_) rfl rfl rfl
  rcases hbytes with rfl | ⟨rfl, -⟩
  · exact goes_sgr style p
  · exact .nil p

theorem At.updateStyle (h : At F t fr row col) (style : Style) (force : Bool) :
    At F t (fr.updateStyle style force) row col := by
  obtain ⟨bytes, heq, hbytes⟩ := fr.updateStyle_eq style force
  rw [heq]
  refine h.append ?_ rfl h.y h.x
  rcases hbytes with rfl | ⟨rfl, -⟩
  · exact goes_sgr style _
  · exact .nil _

theorem Follows.updateLink (h : Follows F t fr) (huri : ∀ c ∈ uri, Utf8.Plain c)
    (force : Bool) : Follows F t (fr.updateLink uri force) := by
  obtain ⟨bytes, heq, hbytes⟩ := fr.updateLink_eq uri force
  rw [heq]
  refine h.still (fun p => ?_) rfl rfl rfl
  rcases hbytes with rfl | ⟨rfl, -⟩
  · exact goes_link huri p
  · exact .nil p

theorem At.updateLink (h : At F t fr row col) (huri : ∀ c ∈ uri, Utf8.Plain c)
    (force : Bool) : At F t (fr.updateLink uri force) row col := by
  obtain ⟨bytes, heq, hbytes⟩ := fr.updateLink_eq uri force
  rw [heq]
  refine h.append ?_ rfl h.y h.x
  rcases hbytes with rfl | ⟨rfl, -⟩
  · exact goes_link huri _
  · exact .nil _

/-! ### Moves -/

/-- The cursor past the last column is a move to the left away, and near enough for backspaces. -/
def Short (F : Frame) (fr : FrameState) (row col : ℕ) : Prop :=
  fr.y = row ∧ fr.x = F.cols ∧ 0 < col ∧ F.cols < col + 5

instance (F : Frame) (fr : FrameState) (row col : ℕ) : Decidable (Short F fr row col) :=
  inferInstanceAs (Decidable (_ ∧ _))

theorem moves_returnFeeds {row₀ col₀ : ℕ} (hle : row₀ ≤ row) (hrow : row < F.rows) (hpos : 0 < F.cols) :
    Moves γ F (atCol F row₀ col₀) ((if (col₀ : ℤ) ≠ 0 then [0x0D] else []) ++
      List.replicate (row - row₀) 0x0A) (atCol F row 0) := by
  have hreturned : Moves γ F (atCol F row₀ col₀) (if (col₀ : ℤ) ≠ 0 then [0x0D] else [])
      ⟨row₀, 0, false⟩ := by
    split
    case isTrue =>
      rw [atCol]
      split
      · exact moves_return _ _ _
      · exact moves_return _ _ _
    case isFalse h =>
      obtain rfl : col₀ = 0 := by omega
      rw [atCol_of_lt hpos]
      exact .nil _
  have hfeeds := moves_feeds (γ := γ) (row - row₀) (show row₀ + (row - row₀) < F.rows by omega)
  rw [Nat.add_sub_cancel' hle] at hfeeds
  rw [atCol_of_lt hpos]
  exact hreturned.append hfeeds

theorem moves_backspaces (row : ℕ) {col₀ : ℕ} (hlt : col < col₀) :
    Moves γ F (atCol F row col₀) (List.replicate (col₀ - col) 0x08)
      ⟨row, if col₀ = F.cols then col - 1 else col, false⟩ := by
  obtain ⟨n, hn⟩ : ∃ n, col₀ - col = n + 1 := ⟨col₀ - col - 1, by omega⟩
  rw [hn, atCol]
  split
  case isTrue h =>
    have hbacks := moves_backs (γ := γ) (f := F) row (F.cols - 1) true n
    rwa [show F.cols - 1 - (n + 1) = col - 1 by omega] at hbacks
  case isFalse =>
    have hbacks := moves_backs (γ := γ) (f := F) row col₀ false n
    rwa [show col₀ - (n + 1) = col by omega] at hbacks

/-- The cursor is moved, and nothing else but its visibility changes. -/
structure MovedTo (F : Frame) (t : Terminal γ) (fr : FrameState) (row col : ℕ) (fr' : FrameState) :
    Prop where
  bytes : ∃ bytes, fr'.out = fr.out ++ bytes ∧ Moves γ F (t.process fr.out).place bytes (atCol F row col)
  y : fr'.y = row
  x : fr'.x = col
  style : fr'.style = fr.style
  link : fr'.link = fr.link

theorem MovedTo.at (h : MovedTo F t fr row col fr') (houter : (t.process fr.out).Outer F) :
    At F t fr' row col := by
  obtain ⟨bytes, hout, hmoves⟩ := h.bytes
  obtain ⟨houter', hplace, -⟩ := hmoves _ houter rfl
  rw [← process_append, ← hout] at houter' hplace
  exact ⟨houter', h.y, h.x, hplace⟩

/-- **A move that falls short** ends one column to the left. -/
theorem At.appendMove_short (h : At F t fr row F.cols) (hcol : col < F.cols) (hpos : 0 < col)
    (hnear : F.cols < col + 5) : ∃ bytes, (fr.appendMove row col).out = fr.out ++ bytes ∧
      Moves γ F (atCol F row F.cols) bytes ⟨row, col - 1, false⟩ := by
  have hmoves := @moves_backspaces γ _ F col row _ hcol
  rw [if_pos rfl] at hmoves
  refine ⟨_, ?_, hmoves⟩
  rw [appendMove, h.x, h.y, if_neg (by omega), if_pos (by omega),
    show ((F.cols : ℤ) - col).toNat = F.cols - col by omega]
  rfl

section

variable (hrows : F.rows ≤ 65535) (hcols : F.cols ≤ 65535)
include hrows hcols

/-- **A move goes where it is to go**, unless it falls short. -/
theorem Follows.appendMove (h : Follows F t fr) (hrow : row < F.rows) (hcol : col < F.cols)
    (hshort : ¬ Short F fr row col) : MovedTo F t fr row col (fr.appendMove row col) := by
  -- an address is right wherever the cursor was
  have haddress : Moves γ F (t.process fr.out).place (cup (row + 1) (col + 1)) (atCol F row col) := by
    rw [atCol_of_lt hcol]
    exact moves_cup hrow hcol hrows hcols _
  rw [FrameState.appendMove]
  rcases h.here with ⟨hx, hy⟩ | ⟨row₀, col₀, hrow₀, hcol₀, hat⟩
  · rw [if_neg fun hc => hc.1 hx, if_neg fun hc => hc.1 hx]
    exact ⟨⟨_, rfl, haddress⟩, rfl, rfl, rfl, rfl⟩
  · have hx := hat.x
    have hy := hat.y
    rw [Short, hx, hy] at hshort
    rw [hx, hy]
    split
    case isTrue hfeeds =>
      obtain ⟨-, -, hzero, hle, -⟩ := hfeeds
      have hmoves := @moves_returnFeeds γ _ F row row₀ col₀ (by omega) hrow (by omega)
      rw [← hat.place] at hmoves
      rw [hzero, show ((row : ℤ) - row₀).toNat = row - row₀ by omega]
      obtain rfl : col = 0 := by omega
      refine ⟨⟨_, ?_, hmoves⟩, ?_, ?_, ?_, ?_⟩
      · rw [appendN, append]
        dsimp only
        rw [← List.append_assoc]
        split
        · rfl
        · rw [List.append_nil]
      all_goals
        rw [appendN, append]
        split <;> rfl
    case isFalse hfeeds =>
      split
      case isTrue hbacks =>
        obtain ⟨-, -, hsame, hlt, hnear⟩ := hbacks
        obtain rfl : row = row₀ := by omega
        have hmoves := @moves_backspaces γ _ F col row col₀ (by omega)
        rw [if_neg (by omega), ← atCol_of_lt hcol, ← hat.place] at hmoves
        rw [show ((col₀ : ℤ) - col).toNat = col₀ - col by omega]
        exact ⟨⟨_, rfl, hmoves⟩, rfl, rfl, rfl, rfl⟩
      case isFalse => exact ⟨⟨_, rfl, haddress⟩, rfl, rfl, rfl, rfl⟩

theorem Follows.appendSilentMove (h : Follows F t fr) (hrow : row < F.rows) (hcol : col < F.cols)
    (hshort : ¬ Short F fr row col) : MovedTo F t fr row col (fr.appendSilentMove row col) := by
  rw [FrameState.appendSilentMove]
  split
  case isTrue hhere =>
    rcases h.here with ⟨hx, -⟩ | ⟨row₀, col₀, -, -, hat⟩
    · omega
    · obtain rfl : row₀ = row := by have := hat.y; omega
      obtain rfl : col₀ = col := by have := hat.x; omega
      refine ⟨⟨[], (List.append_nil _).symm, ?_⟩, hat.y, hat.x, rfl, rfl⟩
      rw [hat.place]
      exact .nil _
  case isFalse =>
    have hhide : Asides γ F (decrst 25) := asides_decrst (by decide)
    split
    case isTrue =>
      have hfollows : Follows F t { fr.append (decrst 25) with cursorVisible := false } :=
        h.still (fun p => (Moves.of_asides hhide p).goes) rfl rfl rfl
      obtain ⟨⟨bytes, hout, hmoves⟩, hy, hx, hstyle, hlink⟩ :=
        Follows.appendMove hrows hcols hfollows hrow hcol hshort
      refine ⟨⟨decrst 25 ++ bytes, hout.trans (List.append_assoc _ _ _), ?_⟩, hy, hx, hstyle, hlink⟩
      have hplace : (t.process (fr.out ++ decrst 25)).place = (t.process fr.out).place := by
        rw [process_append]
        exact (Moves.of_asides hhide _ _ h.outer rfl).2.1
      have hmoves' : Moves γ F (t.process (fr.out ++ decrst 25)).place bytes (atCol F row col) := hmoves
      rw [hplace] at hmoves'
      exact (Moves.of_asides hhide _).append hmoves'
    case isFalse => exact Follows.appendMove hrows hcols h hrow hcol hshort

end

/-! ### Cells -/

theorem cellText_eq {cell : Cell} (hprinted : Printed cell) (hw : cell.width ≠ 0) :
    cellText cell = Utf8.encode (cell.ch :: cell.extra) := by
  rw [cellText, if_neg]
  rintro hch
  rw [hprinted.width, hch] at hw
  exact hw wcwidth_nul

theorem At.appendCell (h : At F t fr row col) {cell : Cell} (hprinted : Printed cell)
    (hw : cell.width ≠ 0) (hroom : col + cell.width ≤ F.cols) :
    At F t { fr.appendCell cell with x := (fr.appendCell cell).x + cellWidth cell } row
      (col + cell.width) := by
  have hwidth := hprinted.width
  have htext := @goes_text γ F _ row col cell.ch (hwidth ▸ hw) _ hprinted.extra (hwidth ▸ hroom)
  rw [← hwidth, ← cellText_eq hprinted hw] at htext
  refine h.append htext rfl h.y ?_
  show fr.x + (cellWidth cell : ℤ) = _
  rw [h.x, cellWidth_eq hw]
  exact (Nat.cast_add _ _).symm

theorem At.spaces (h : At F t fr row col) {n : ℕ} (hroom : col + n ≤ F.cols) {x : ℤ}
    (hx : x = (col + n : ℕ)) : At F t { fr.appendN n (byte ' ') with x } row (col + n) :=
  h.append (goes_spaces hroom) rfl h.y hx

end Posh.Term.Render
