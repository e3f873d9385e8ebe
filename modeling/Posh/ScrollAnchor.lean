/-
**The scrolled window and the rows it shows.**

While the window is scrolled back, rows and holes join the history at its tail, held bodies are settled, the row of
what is still arriving comes and goes, and the ring drops its oldest rows.  The offset counts from the tail, and
moves by what the tail moved: line for line, the window goes on showing the rows that it showed.
-/

import Mathlib.Data.List.Forall2
import Posh.ScrollView

set_option autoImplicit false

namespace Posh

/-- A row of the view, and what it may become: more lines may be missing where some are. -/
def ViewRow.Becomes : ViewRow → ViewRow → Prop
  | .row a, .row b => a = b
  | .notReceived m, .notReceived n => m ≤ n
  | _, _ => False

theorem ViewRow.Becomes.refl (x : ViewRow) : x.Becomes x := by
  cases x with
  | row a => exact rfl
  | notReceived m => exact Nat.le_refl m

theorem ViewRow.Becomes.trans {x y z : ViewRow} (h : x.Becomes y) (h' : y.Becomes z) : x.Becomes z := by
  cases x with
  | row a =>
    cases y with
    | row b =>
      cases z with
      | row c => exact Eq.trans h h'
      | notReceived n => exact h'
    | notReceived m => exact h.elim
  | notReceived l =>
    cases y with
    | row b => exact h.elim
    | notReceived m =>
      cases z with
      | row c => exact h'
      | notReceived n => exact Nat.le_trans h h'

theorem ViewRow.Becomes.isRow_eq {x y : ViewRow} (h : x.Becomes y) : x.isRow = y.isRow := by
  cases x <;> cases y <;> first | rfl | exact h.elim

namespace ScrollbackRing

/-! ### A ring that slides -/

/-- The number of row `i` of the view; for a hole, the number of the row that it stands before. -/
def numberAt (r : ScrollbackRing) (i : ℕ) : ℕ := r.firstNumber + rowCount (r.drawn.take i)

/-- The ring took up `grew` rows and holes at its tail, and `gone` of them left at the far end. -/
structure Slides (r r' : ScrollbackRing) (grew gone : ℕ) : Prop where
  total : r'.viewTotal = r.viewTotal + grew
  len : r'.viewLen + gone = r.viewLen + grew
  appended_le : r.appended ≤ r'.appended
  /-- what is left stands as many rows further up as have left -/
  shows : ∀ i x, r.drawn[i]? = some x → gone ≤ i →
    ∃ y, r'.drawn[i - gone]? = some y ∧ x.Becomes y ∧ r'.numberAt (i - gone) = r.numberAt i
  /-- and what comes after it is new -/
  fresh : ∀ i, r.viewLen ≤ i + gone → i < r'.viewLen → r.appended ≤ r'.numberAt i

variable {r r' r'' : ScrollbackRing} {grew gone grew' gone' : ℕ} {kept kept' : List ViewRow}

theorem Drawable.rowCount_drawn (h : r.Drawable) : r.firstNumber + rowCount r.drawn = r.appended := by
  rw [drawn, rowCount_drawnFrom, firstNumber, Nat.sub_add_cancel h.wf.length_le_appended]

theorem Slides.refl (r : ScrollbackRing) : r.Slides r 0 0 where
  total := rfl
  len := rfl
  appended_le := Nat.le_refl _
  shows := fun _ x hx _ => ⟨x, hx, .refl x, rfl⟩
  fresh := by
    intro i hi hlt
    omega

theorem Slides.trans (hdraw : r'.Drawable) (h : r.Slides r' grew gone) (h' : r'.Slides r'' grew' gone') :
    r.Slides r'' (grew + grew') (gone + gone') where
  total := by rw [h'.total, h.total, Nat.add_assoc]
  len := by
    have hlen := h.len
    have hlen' := h'.len
    omega
  appended_le := Nat.le_trans h.appended_le h'.appended_le
  shows := by
    intro i x hx hi
    obtain ⟨y, hy, hxy, hnum⟩ := h.shows i x hx (by omega)
    obtain ⟨z, hz, hyz, hnum'⟩ := h'.shows (i - gone) y hy (by omega)
    rw [Nat.sub_sub] at hz hnum'
    exact ⟨z, hz, hxy.trans hyz, hnum'.trans hnum⟩
  fresh := by
    intro i hi hlt
    by_cases hnew : r'.viewLen ≤ i + gone'
    · exact Nat.le_trans h.appended_le (h'.fresh i hnew hlt)
    · -- it was there in between, and new then
      obtain ⟨x, hx⟩ : ∃ x, r'.drawn[i + gone']? = some x :=
        ⟨_, List.getElem?_eq_getElem (by rw [hdraw.length_drawn]; omega)⟩
      obtain ⟨-, -, -, hnum⟩ := h'.shows (i + gone') x hx (by omega)
      rw [Nat.add_sub_cancel] at hnum
      rw [hnum]
      exact h.fresh _ (by omega) (by omega)

theorem rowCount_take_becomes (h : List.Forall₂ ViewRow.Becomes kept kept') (n : ℕ) :
    rowCount (kept'.take n) = rowCount (kept.take n) := by
  induction h generalizing n with
  | nil => rfl
  | @cons x y kept kept' hxy _ ih =>
    cases n with
    | zero => rfl
    | succ n =>
      rw [List.take_succ_cons, List.take_succ_cons, rowCount, rowCount, List.countP_cons, List.countP_cons,
        ← hxy.isRow_eq]
      exact congrArg (· + _) (ih n)

theorem getElem?_becomes (h : List.Forall₂ ViewRow.Becomes kept kept') {i : ℕ} {x : ViewRow}
    (hx : kept[i]? = some x) : ∃ y, kept'[i]? = some y ∧ x.Becomes y := by
  induction h generalizing i with
  | nil => cases hx
  | @cons a b kept kept' hab _ ih =>
    cases i with
    | zero =>
      cases hx
      exact ⟨b, rfl, hab⟩
    | succ i => exact ih hx

/-- **What is drawn before and after**: the far end leaves, the tail is new, and between them no more changes than the
lines missing. -/
theorem slides_of_drawn (hr : r.Drawable) (hr' : r'.Drawable) {left kept kept' more : List ViewRow}
    (hdrawn : r.drawn = left ++ kept) (hdrawn' : r'.drawn = kept' ++ more)
    (hkept : List.Forall₂ ViewRow.Becomes kept kept') (hfirst : r'.firstNumber = r.firstNumber + rowCount left)
    (htotal : r'.viewTotal = r.viewTotal + more.length) (happended : r.appended ≤ r'.appended) :
    r.Slides r' more.length left.length := by
  have hlen : kept.length = kept'.length := hkept.length_eq
  have hview : r.viewLen = left.length + kept.length := by rw [← hr.length_drawn, hdrawn, List.length_append]
  have hview' : r'.viewLen = kept'.length + more.length := by rw [← hr'.length_drawn, hdrawn', List.length_append]
  refine ⟨htotal, by omega, happended, fun i x hx hi => ?_, fun i hi hlt => ?_⟩
  · rw [hdrawn, List.getElem?_append_right hi] at hx
    obtain ⟨y, hy, hxy⟩ := getElem?_becomes hkept hx
    have hilt : i - left.length < kept'.length := (List.getElem?_eq_some_iff.1 hy).1
    refine ⟨y, ?_, hxy, ?_⟩
    · rw [hdrawn', List.getElem?_append_left hilt, hy]
    · rw [numberAt, numberAt, hdrawn, hdrawn', hfirst, List.take_append_of_le_length (Nat.le_of_lt hilt),
        rowCount_take_becomes hkept, List.take_append, List.take_of_length_le hi, rowCount_append, Nat.add_assoc]
  · have hall : rowCount kept' = rowCount kept := by
      have htake := rowCount_take_becomes hkept kept'.length
      rwa [List.take_length, ← hlen, List.take_length] at htake
    have hcount := hr.rowCount_drawn
    rw [hdrawn, rowCount_append] at hcount
    rw [numberAt, hdrawn', List.take_append, List.take_of_length_le (by omega), rowCount_append, hfirst]
    omega

theorem exists_afterRows {n : ℕ} {j : List ViewRow} (hn : n ≤ rowCount j) :
    ∃ left, j = left ++ afterRows n j ∧ rowCount left = n := by
  induction j generalizing n with
  | nil =>
    obtain rfl : n = 0 := Nat.le_zero.1 hn
    exact ⟨[], rfl, rfl⟩
  | cons x j ih =>
    cases n with
    | zero => exact ⟨[], (afterRows_zero _).symm, rfl⟩
    | succ n =>
      cases x with
      | row b =>
        rw [rowCount_row] at hn
        obtain ⟨left, hj, hleft⟩ := ih (Nat.le_of_succ_le_succ hn)
        exact ⟨.row b :: left, congrArg (ViewRow.row b :: ·) hj, by rw [rowCount_row, hleft]⟩
      | notReceived l =>
        obtain ⟨left, hj, hleft⟩ := ih (rowCount_notReceived l j ▸ hn)
        exact ⟨.notReceived l :: left, congrArg (ViewRow.notReceived l :: ·) hj, by rw [rowCount_notReceived, hleft]⟩

theorem viewTotal_append (r : ScrollbackRing) (rows : List Bytes) :
    (r.append rows).viewTotal = r.viewTotal + rows.length := by
  rw [viewTotal, appended_append, (counters_append r rows).1, viewTotal]
  omega

theorem Drawable.slides_appendOne (h : r.Drawable) (row : Bytes) : ∃ gone, r.Slides (r.append [row]) 1 gone := by
  obtain ⟨hdraw, hdrawn⟩ := h.appendOne row
  obtain ⟨n, hn⟩ : ∃ n, n = if r.capacity ≤ r.rows.length then 1 else 0 := ⟨_, rfl⟩
  have hle : n ≤ rowCount r.drawn := by
    have hpos := h.wf.capacity_pos
    rw [drawn, rowCount_drawnFrom, hn]
    split <;> omega
  obtain ⟨left, hleft, hcount⟩ := exists_afterRows hle
  rw [← hn] at hdrawn
  have hrows : (r.append [row]).rows.length = r.rows.length + 1 - n := by
    show ((if r.rows.length ≥ r.capacity then r.rows.drop 1 else r.rows) ++ [row]).length = _
    rw [List.length_append, List.length_singleton, hn]
    split
    · rw [List.length_drop]
      have := h.wf.capacity_pos
      omega
    · rfl
  have happended : (r.append [row]).appended = r.appended + 1 := rfl
  refine ⟨left.length, slides_of_drawn h hdraw hleft hdrawn (List.forall₂_same.2 fun x _ => .refl x) ?_
    (viewTotal_append r [row]) (Nat.le_succ _)⟩
  have hfit := h.wf.length_le_appended
  have hfit' := hdraw.wf.length_le_appended
  rw [drawn, rowCount_drawnFrom] at hle
  rw [hcount, firstNumber, firstNumber, hrows, happended]
  omega

/-- **Rows are appended.** -/
theorem Drawable.slides_append (h : r.Drawable) (rows : List Bytes) :
    ∃ gone, r.Slides (r.append rows) rows.length gone := by
  induction rows generalizing r with
  | nil =>
    rw [h.append_nil]
    exact ⟨0, .refl r⟩
  | cons row rows ih =>
    obtain ⟨gone, hone⟩ := h.slides_appendOne row
    obtain ⟨gone', hrest⟩ := ih (h.appendOne row).1
    have hall : r.append (row :: rows) = (r.append [row]).append rows := by
      rw [append_append, List.singleton_append]
    rw [hall, List.length_cons, Nat.add_comm]
    exact ⟨_, hone.trans (h.appendOne row).1 hrest⟩

theorem viewTotal_markNotReceived (r : ScrollbackRing) (lines : ℕ) :
    (r.markNotReceived lines).viewTotal + r.viewLen = r.viewTotal + (r.markNotReceived lines).viewLen := by
  have hnew : r.appended + (r.holesAdded + 1) + r.viewLen =
      r.viewTotal + (r.rows.length + (r.holes ++ [(r.appended, lines)]).length) := by
    rw [List.length_append, List.length_singleton, viewTotal, viewLen]
    omega
  rw [markNotReceived]
  split
  · rfl
  · dsimp only
    split
    · next before merged hlast =>
        split
        · have hholes := congrArg List.length (List.dropLast_append_getLast? _ hlast)
          rw [List.length_append, List.length_singleton] at hholes
          show r.appended + r.holesAdded + r.viewLen =
            r.viewTotal + (r.rows.length + (r.holes.dropLast ++ [(before, merged + lines)]).length)
          rw [List.length_append, List.length_singleton, hholes]
          rfl
        · exact hnew
    · exact hnew

theorem markNotReceived_rows (r : ScrollbackRing) (lines : ℕ) : (r.markNotReceived lines).rows = r.rows ∧
    (r.markNotReceived lines).appended = r.appended := by
  rw [markNotReceived]
  split
  · exact ⟨rfl, rfl⟩
  · dsimp only
    split
    · split <;> exact ⟨rfl, rfl⟩
    · exact ⟨rfl, rfl⟩

/-- **Lines are marked**: the last hole grows, or a new one is added. -/
theorem Drawable.slides_markNotReceived (h : r.Drawable) {lines : ℕ} (hlines : lines ≠ 0) :
    ∃ grew, r.Slides (r.markNotReceived lines) grew 0 := by
  obtain ⟨hdraw, hdrawn⟩ := h.mark hlines
  obtain ⟨hrows, happended⟩ := markNotReceived_rows r lines
  have hfirst : (r.markNotReceived lines).firstNumber = r.firstNumber := by
    rw [firstNumber, firstNumber, hrows, happended]
  have htotal := viewTotal_markNotReceived r lines
  rw [← h.length_drawn, ← hdraw.length_drawn] at htotal
  have hsame : ∀ {kept kept' : List ViewRow} (more : List ViewRow), r.drawn = kept →
      (r.markNotReceived lines).drawn = kept' ++ more → List.Forall₂ ViewRow.Becomes kept kept' →
      ∃ grew, r.Slides (r.markNotReceived lines) grew 0 := by
    intro kept kept' more hkept hkept' hbecomes
    refine ⟨_, @slides_of_drawn r _ h hdraw [] kept kept' more hkept hkept' hbecomes hfirst ?_ happended.ge⟩
    rw [hkept, hkept', List.length_append, ← hbecomes.length_eq] at htotal
    omega
  rw [markLast] at hdrawn
  split at hdrawn
  · next merged hlast =>
      -- the last row of the view is a hole, and grows
      refine hsame [] (List.dropLast_append_getLast? _ hlast).symm (hdrawn.trans (List.append_nil _).symm) ?_
      exact List.rel_append (List.forall₂_same.2 fun x _ => .refl x) (.cons (Nat.le_add_right _ _) .nil)
  · exact hsame [.notReceived lines] rfl hdrawn (List.forall₂_same.2 fun x _ => .refl x)

end ScrollbackRing

/-! ### The window -/

inductive WindowLine where
  /-- a row of the history, or a hole: `number` is that of the row, or of the row after the hole -/
  | history (number : ℕ) (row : ViewRow)
  | arriving (lines : ℕ)
  /-- a line of the live screen -/
  | live (line : ℕ)
  deriving DecidableEq, Repr

/-- What arrives and can move the tail of the history: an extent, a body by its row offset, or growth of a frame. -/
inductive HistoryUpdate where
  | extent (x : Scrollback2Extent)
  | body (epoch : UInt8) (rowOffset : ℕ) (rows : List Bytes)
  | growth (rows : List Bytes)
  deriving DecidableEq, Repr

namespace HistoryView

/-- The first line shown, among the history and then the `visible` lines of the live screen. -/
def windowTop (v : HistoryView) (visible rows : ℕ) : ℕ :=
  v.historyViewLen + visible - rows - min v.scrollOffset v.historyViewLen

/-- Line `i` of the history and the live screen. -/
def lineAt (v : HistoryView) (i : ℕ) : WindowLine :=
  match v.scrollback.viewRow i with
  | some row => .history (v.scrollback.numberAt i) row
  | none => if i < v.historyViewLen then .arriving v.historyArriving else .live (i - v.historyViewLen)

/-- The `rows` lines of the window, or as many as there are. -/
def window (v : HistoryView) (visible rows : ℕ) : List WindowLine :=
  let top := v.windowTop visible rows
  (List.range (min rows (v.historyViewLen + visible - top))).map fun j => v.lineAt (top + j)

/-- What arrived is applied. -/
def update (v : HistoryView) : HistoryUpdate → HistoryView
  | .extent x => v.adoptExtent x
  | .body epoch rowOffset rows => v.applyScrollback2 epoch rowOffset rows
  | .growth rows => v.appendGrowth rows

/-- Wheel ticks: three lines each, up is positive. -/
def scrollBy (v : HistoryView) (ticks : ℤ) : HistoryView := v.setScroll (max (v.scrollOffset + ticks * 3) 0).toNat

/-! ### What an update does -/

/-- The ring slides, and the offset is not moved yet. -/
structure SlidTo (v v' : HistoryView) : Prop where
  drawable : v'.scrollback.Drawable
  slides : ∃ grew gone, v.scrollback.Slides v'.scrollback grew gone
  offset : v'.scrollOffset = v.scrollOffset

variable {v v' v'' : HistoryView}

theorem SlidTo.of_scrollback (h : v.scrollback.Drawable) (hring : v'.scrollback = v.scrollback)
    (hoffset : v'.scrollOffset = v.scrollOffset) : v.SlidTo v' where
  drawable := hring ▸ h
  slides := ⟨0, 0, hring ▸ .refl _⟩
  offset := hoffset

theorem SlidTo.trans (h : v.SlidTo v') (h' : v'.SlidTo v'') : v.SlidTo v'' where
  drawable := h'.drawable
  slides := by
    obtain ⟨grew, gone, hslides⟩ := h.slides
    obtain ⟨grew', gone', hslides'⟩ := h'.slides
    exact ⟨_, _, hslides.trans h.drawable hslides'⟩
  offset := h'.offset.trans h.offset

theorem slidTo_claim (h : v.scrollback.Drawable) (rowOffset : ℕ) (rows : List Bytes) :
    v.SlidTo (v.claimScrollback2Tail rowOffset rows) := by
  rw [claimScrollback2Tail]
  split
  · exact .of_scrollback h rfl rfl
  · obtain ⟨gone, hslides⟩ := h.slides_append (rows.drop (v.sb2Rows - rowOffset))
    exact ⟨(h.append _).1, ⟨_, gone, hslides⟩, rfl⟩

theorem slidTo_markGone (h : v.scrollback.Drawable) {n : ℕ} (hn : v.sb2Rows < n) : v.SlidTo (v.markGone n) := by
  obtain ⟨grew, hslides⟩ := h.slides_markNotReceived (Nat.sub_ne_zero_of_lt hn)
  exact ⟨(h.mark (Nat.sub_ne_zero_of_lt hn)).1, ⟨grew, 0, hslides⟩, rfl⟩

theorem slidTo_settleFuel (fuel : ℕ) : ∀ {v : HistoryView}, v.scrollback.Drawable → v.SlidTo (settleFuel fuel v) := by
  induction fuel with
  | zero =>
    intro v h
    exact .of_scrollback h rfl rfl
  | succ fuel ih =>
    intro v h
    rw [settleFuel]
    split
    · next off rows held _ =>
        have hheld : v.SlidTo { v with sb2Held := held } := .of_scrollback h rfl rfl
        have hclaim := hheld.trans (slidTo_claim hheld.drawable off rows)
        exact hclaim.trans (ih hclaim.drawable)
    · split
      · exact .of_scrollback h rfl rfl
      · next hgap =>
          have hgone := slidTo_markGone h (Nat.lt_of_not_le hgap)
          exact hgone.trans (ih hgone.drawable)

theorem slidTo_applyScrollback2Rows (h : v.scrollback.Drawable) (rowOffset : ℕ) (rows : List Bytes) :
    v.SlidTo (v.applyScrollback2Rows rowOffset rows) := by
  rw [applyScrollback2Rows]
  split
  · have hheld : v.SlidTo { v with sb2Held := (v.sb2Held.hold rowOffset rows).2 } := .of_scrollback h rfl rfl
    exact hheld.trans (slidTo_settleFuel _ hheld.drawable)
  · have hjump : v.SlidTo (if rowOffset > v.sb2Rows then v.markGone rowOffset else v) := by
      split
      · next hgap => exact slidTo_markGone h hgap
      · exact .of_scrollback h rfl rfl
    have hclaim := hjump.trans (slidTo_claim hjump.drawable rowOffset rows)
    exact hclaim.trans (slidTo_settleFuel _ hclaim.drawable)

/-- Where the offset stands after an update that moved the tail from one place to the other, if nothing stops it. -/
def movedOffset (v v' : HistoryView) : ℤ := v.scrollOffset + ((v'.historyMark : ℤ) - v.historyMark)

/-- **An update slid the ring, and the offset with it**, unless it is stopped at 1 or at the top. -/
structure SlidBy (v v' : HistoryView) : Prop where
  drawable : v'.scrollback.Drawable
  slides : ∃ grew gone, v.scrollback.Slides v'.scrollback grew gone
  offset : 0 < v.scrollOffset → 1 ≤ v.movedOffset v' → v.movedOffset v' ≤ v'.historyViewLen →
    (v'.scrollOffset : ℤ) = v.movedOffset v'

theorem SlidTo.anchored (h : v.SlidTo v') : v.SlidBy (v'.keepHistoryAnchor v.historyMark) := by
  obtain ⟨offset, hfields⟩ := v'.keepHistoryAnchor_fields v.historyMark
  have hmark : (v'.keepHistoryAnchor v.historyMark).historyMark = v'.historyMark := by
    rw [hfields]
    rfl
  have hlen : (v'.keepHistoryAnchor v.historyMark).historyViewLen = v'.historyViewLen := by
    rw [hfields]
    rfl
  have hring : (v'.keepHistoryAnchor v.historyMark).scrollback = v'.scrollback := by rw [hfields]
  refine ⟨hring ▸ h.drawable, hring ▸ h.slides, fun hpos hlow hhigh => ?_⟩
  rw [movedOffset, hmark] at hlow hhigh ⊢
  rw [hlen] at hhigh
  rw [← h.offset] at hpos hlow hhigh ⊢
  rw [keepHistoryAnchor]
  split
  · show ((min (max ((v'.scrollOffset : ℤ) + ((v'.historyMark : ℤ) - v.historyMark)) 1).toNat
      v'.historyViewLen : ℕ) : ℤ) = _
    omega
  · next hstill =>
      have hdelta : (v'.historyMark : ℤ) - v.historyMark = 0 := by
        by_contra hne
        exact hstill ⟨hpos, hne⟩
      omega

/-- **An update slides the ring, and the offset with it.** -/
theorem slidBy_update (h : v.scrollback.Drawable) (u : HistoryUpdate) : v.SlidBy (v.update u) := by
  have hstill : v.SlidBy v := ⟨h, ⟨0, 0, .refl _⟩, fun _ _ _ => by rw [movedOffset]; omega⟩
  cases u with
  | extent x =>
    show v.SlidBy (v.adoptExtent x)
    rw [adoptExtent]
    split
    · have hx : v.SlidTo { v with sb2Extent := some ((v.sb2Extent.getD x).merge x) } := .of_scrollback h rfl rfl
      exact (hx.trans (slidTo_settleFuel _ hx.drawable)).anchored
    · exact hstill
  | body epoch rowOffset rows =>
    show v.SlidBy (v.applyScrollback2 epoch rowOffset rows)
    rw [applyScrollback2]
    split
    · exact hstill
    · split
      · exact hstill
      · exact (slidTo_applyScrollback2Rows h rowOffset rows).anchored
  | growth rows =>
    obtain ⟨gone, hslides⟩ := h.slides_append rows
    have hdraw := (h.append rows).1
    show v.SlidBy (v.appendGrowth rows)
    rw [appendGrowth]
    dsimp only
    have htotal : ((v.scrollback.append rows).viewTotal : ℤ) = v.scrollback.viewTotal + rows.length := by
      rw [ScrollbackRing.viewTotal_append]
      exact Int.natCast_add _ _
    have hmark : v.movedOffset { v with scrollback := v.scrollback.append rows } = v.scrollOffset + rows.length := by
      show (v.scrollOffset : ℤ) +
        (((v.scrollback.append rows).viewTotal + (if v.historyArriving > 0 then 1 else 0) : ℕ) -
          ((v.scrollback.viewTotal + (if v.historyArriving > 0 then 1 else 0) : ℕ) : ℤ)) = _
      omega
    split
    · refine ⟨hdraw, ⟨_, gone, hslides⟩, fun _ _ hhigh => ?_⟩
      have hhigh : v.movedOffset { v with scrollback := v.scrollback.append rows } ≤
        (historyViewLen { v with scrollback := v.scrollback.append rows } : ℕ) := hhigh
      show ((min (v.scrollOffset + rows.length)
        (historyViewLen { v with scrollback := v.scrollback.append rows }) : ℕ) : ℤ) =
          v.movedOffset { v with scrollback := v.scrollback.append rows }
      rw [hmark] at hhigh ⊢
      omega
    · next hlive => exact ⟨hdraw, ⟨_, gone, hslides⟩, fun hpos => absurd hpos hlive⟩

/-! ### What the window shows -/

theorem window_history (h : v.scrollback.Drawable) {visible rows j number : ℕ} {row : ViewRow} :
    (v.window visible rows)[j]? = some (.history number row) ↔
      j < rows ∧ v.scrollback.drawn[v.windowTop visible rows + j]? = some row ∧
        v.scrollback.numberAt (v.windowTop visible rows + j) = number := by
  have hline : ∀ i, v.lineAt i = .history number row ↔
      v.scrollback.drawn[i]? = some row ∧ v.scrollback.numberAt i = number := by
    intro i
    rw [lineAt, h.viewRow_eq]
    cases hrow : v.scrollback.drawn[i]? with
    | none =>
      dsimp only
      split
      · exact ⟨nofun, nofun⟩
      · exact ⟨nofun, nofun⟩
    | some row' =>
      dsimp only
      rw [WindowLine.history.injEq, Option.some.injEq, and_comm]
  rw [window, List.getElem?_map, Option.map_eq_some_iff]
  constructor
  · rintro ⟨k, hk, hkline⟩
    obtain ⟨hlt, hkj⟩ := List.getElem?_eq_some_iff.1 hk
    rw [List.getElem_range] at hkj
    subst hkj
    rw [List.length_range] at hlt
    exact ⟨Nat.lt_of_lt_of_le hlt (Nat.min_le_left _ _), (hline _).1 hkline⟩
  · rintro ⟨hj, hshown⟩
    refine ⟨j, List.getElem?_range ?_, (hline _).2 hshown⟩
    have hlt := (List.getElem?_eq_some_iff.1 hshown.1).1
    rw [h.length_drawn] at hlt
    rw [historyViewLen]
    omega

end HistoryView

/-- How many rows of the view left at the far end between two rings. -/
def ScrollbackRing.evicted (r r' : ScrollbackRing) : ℕ := r.viewLen + (r'.viewTotal - r.viewTotal) - r'.viewLen

theorem ScrollbackRing.Slides.evicted_eq {r r' : ScrollbackRing} {grew gone : ℕ} (h : r.Slides r' grew gone) :
    r.evicted r' = gone := by
  have htotal := h.total
  have hlen := h.len
  rw [evicted]
  omega

namespace HistoryView

variable {v v' : HistoryView} {visible rows : ℕ}

theorem SlidBy.windowTop_add (h : v.SlidBy v') {grew gone : ℕ} (hslides : v.scrollback.Slides v'.scrollback grew gone)
    (hpos : 0 < v.scrollOffset) (hlow : 1 ≤ v.movedOffset v') (hhigh : v.movedOffset v' ≤ v'.historyViewLen)
    (hgone : gone ≤ v.windowTop visible rows) : v'.windowTop visible rows + gone = v.windowTop visible rows := by
  have hoffset := h.offset hpos hlow hhigh
  have htotal := hslides.total
  have hlen := hslides.len
  rw [windowTop] at hgone
  rw [windowTop, windowTop]
  simp only [movedOffset, historyMark, historyViewLen] at hoffset hhigh hgone ⊢
  omega

/-- **Line for line, the window shows what it showed.** -/
theorem SlidBy.window_stays (hdraw : v.scrollback.Drawable) (h : v.SlidBy v') (hpos : 0 < v.scrollOffset)
    (hlow : 1 ≤ v.movedOffset v') (hhigh : v.movedOffset v' ≤ v'.historyViewLen)
    (hkept : v.scrollback.evicted v'.scrollback ≤ v.windowTop visible rows) :
    (∀ (j number : ℕ) (row : ViewRow), (v.window visible rows)[j]? = some (.history number row) →
        ∃ row', row.Becomes row' ∧ (v'.window visible rows)[j]? = some (.history number row')) ∧
      ∀ (j number : ℕ) (row : ViewRow), (v'.window visible rows)[j]? = some (.history number row) →
        (∃ row', (v.window visible rows)[j]? = some (.history number row')) ∨ v.scrollback.appended ≤ number := by
  obtain ⟨grew, gone, hslides⟩ := h.slides
  rw [hslides.evicted_eq] at hkept
  have htop := h.windowTop_add hslides hpos hlow hhigh hkept
  refine ⟨fun j number row hrow => ?_, fun j number row hrow => ?_⟩
  · obtain ⟨hj, hshown, rfl⟩ := (window_history hdraw).1 hrow
    obtain ⟨row', hrow', hbecomes, hnumber⟩ := hslides.shows _ row hshown (by omega)
    refine ⟨row', hbecomes, (window_history h.drawable).2 ⟨hj, ?_, ?_⟩⟩
    · rw [← hrow']
      congr 1
      omega
    · rw [← hnumber]
      congr 1
      omega
  · obtain ⟨hj, hshown, rfl⟩ := (window_history h.drawable).1 hrow
    have hlt := (List.getElem?_eq_some_iff.1 hshown).1
    rw [h.drawable.length_drawn] at hlt
    by_cases hnew : v.scrollback.viewLen ≤ v'.windowTop visible rows + j + gone
    · exact .inr (hslides.fresh _ hnew hlt)
    · obtain ⟨row₀, hrow₀⟩ : ∃ row₀, v.scrollback.drawn[v.windowTop visible rows + j]? = some row₀ :=
        ⟨_, List.getElem?_eq_getElem (by rw [hdraw.length_drawn]; omega)⟩
      obtain ⟨-, -, -, hnumber⟩ := hslides.shows _ row₀ hrow₀ (by omega)
      refine .inl ⟨row₀, (window_history hdraw).2 ⟨hj, hrow₀, ?_⟩⟩
      rw [← hnumber]
      congr 1
      omega

end HistoryView

/-! ### Every state of a client -/

/-- What happens to a client's history: a frame, growth, the wheel, the return to the live screen, a resize. -/
inductive HistoryEvent where
  | frame (f : HistoryFrame)
  | growth (rows : List Bytes)
  | scroll (ticks : ℤ)
  | live
  | resize
  deriving DecidableEq, Repr

namespace HistoryView

def event (v : HistoryView) : HistoryEvent → HistoryView
  | .frame f => v.processFrame f
  | .growth rows => v.appendGrowth rows
  | .scroll ticks => v.scrollBy ticks
  | .live => v.setScroll 0
  | .resize => v.clearV2RowSpace none

/-- A client with a ring of this capacity, after some events. -/
def afterEvents (capacity : ℕ) (events : List HistoryEvent) : HistoryView :=
  events.foldl event { scrollback := .new capacity }

variable {v : HistoryView}

theorem drawable_event (h : v.scrollback.Drawable) (e : HistoryEvent) : (v.event e).scrollback.Drawable := by
  cases e with
  | frame f =>
    have hepoch : ((f.epochAck.map v.adoptEpoch).getD v).scrollback.Drawable := by
      cases f.epochAck with
      | none => exact h
      | some epoch =>
        show (v.adoptEpoch epoch).scrollback.Drawable
        rw [adoptEpoch]
        split
        · exact h.clear
        · exact h
    obtain ⟨w, hw⟩ : ∃ w, w = (f.epochAck.map v.adoptEpoch).getD v := ⟨_, rfl⟩
    rw [← hw] at hepoch
    have hextent : ((f.extent.map w.adoptExtent).getD w).scrollback.Drawable := by
      cases f.extent with
      | none => exact hepoch
      | some x => exact (slidBy_update hepoch (.extent x)).drawable
    show (v.processFrame f).scrollback.Drawable
    rw [processFrame, ← hw]
    split
    · next epoch rowOffset rows _ => exact (slidBy_update hextent (.body epoch rowOffset rows)).drawable
    · exact hextent
  | growth rows => exact (slidBy_update h (.growth rows)).drawable
  | scroll ticks => exact h
  | live => exact h
  | resize => exact h.clear

theorem drawable_afterEvents (capacity : ℕ) (events : List HistoryEvent) :
    (afterEvents capacity events).scrollback.Drawable := by
  have hrun : ∀ (v : HistoryView), v.scrollback.Drawable → (events.foldl event v).scrollback.Drawable := by
    induction events with
    | nil => exact fun v h => h
    | cons e events ih => exact fun v h => ih _ (drawable_event h e)
  exact hrun _ (ScrollbackRing.drawable_new capacity)

end HistoryView

end Posh
