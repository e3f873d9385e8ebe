/-
**The numbers of history rows are faithful.**

A cursor numbers the rows that scroll into the ring of the primary screen while rows are evicted from the
ring or cleared, acknowledgements of any kind arrive, epochs open, the row space is re-anchored and bodies
are sent.  Whatever the order, the number that a body gives a row says which of all rows ever pushed it is.

An epoch here is the time from one opening to the next: its byte, which is what the wire calls it, comes
round after 255 openings.
-/

import Posh.HistoryWire

set_option autoImplicit false

namespace Posh

open Term
open List (append_nil forall_mem_nil mem_cons)
open Screen

/-! ### What a scroll pushes -/

namespace Term.Screen

/-- The row that leaves when a screen scrolls by one, if it is saved. -/
def pushedOne (top : ℕ) (save : Bool) (s : Screen) : List Row :=
  if save ∧ s.maxScrollback > 0 then s.grid[top]?.toList else []

/-- The rows that are saved when a screen scrolls by one, some times. -/
def pushedTimes (top bot : ℕ) (save : Bool) (style : Style) : ℕ → Screen → List Row
  | 0, _ => []
  | n + 1, s => s.pushedOne top save ++ pushedTimes top bot save style n (scrollUpOne top bot save style s)

/-- The rows that are saved when a screen scrolls. -/
def pushedUp (s : Screen) (top bot n : ℕ) (save : Bool) (style : Style) : List Row :=
  let bot := min bot (s.grid.length - 1)
  if top > bot then [] else pushedTimes top bot save style (max (min n (bot - top + 1)) 1) s

/-- The ring holds the last of all rows ever pushed, and counts them. -/
structure Counts (s : Screen) (pushed : List Row) : Prop where
  total : s.scrollbackTotal = pushed.length
  ring : s.scrollback <:+ pushed

variable {s : Screen} {pushed : List Row}

theorem Counts.pushScrollback (h : s.Counts pushed) (row : Row) :
    (s.pushScrollback row).Counts (pushed ++ if s.maxScrollback > 0 then [row] else []) := by
  rw [Screen.pushScrollback]
  split
  · refine ⟨?_, ?_⟩
    · rw [List.length_append, ← h.total]
      rfl
    · have hkept : (if s.scrollback.length ≥ s.maxScrollback then s.scrollback.drop 1
          else s.scrollback) <:+ pushed := by
        split
        · exact (List.drop_suffix 1 _).trans h.ring
        · exact h.ring
      obtain ⟨front, hfront⟩ := hkept
      exact ⟨front, by rw [← hfront, List.append_assoc]⟩
  · rw [append_nil]
    exact h

theorem Counts.scrollUpOne (h : s.Counts pushed) (top bot : ℕ) (save : Bool) (style : Style) :
    (scrollUpOne top bot save style s).Counts (pushed ++ s.pushedOne top save) := by
  rw [Screen.scrollUpOne, pushedOne]
  cases hrow : s.grid[top]? with
  | none =>
    have hnil : (if save = true ∧ s.maxScrollback > 0 then (none : Option Row).toList else []) = [] := by
      split <;> rfl
    rw [hnil, append_nil]
    exact h
  | some row =>
    cases save with
    | false =>
      rw [if_neg fun hand => Bool.false_ne_true hand.1, append_nil]
      exact ⟨h.total, h.ring⟩
    | true =>
      have hpush := h.pushScrollback row
      have hlist : (if true = true ∧ s.maxScrollback > 0 then (some row).toList else []) =
          if s.maxScrollback > 0 then [row] else [] := by
        by_cases hmax : s.maxScrollback > 0
        · rw [if_pos ⟨rfl, hmax⟩, if_pos hmax]
          rfl
        · rw [if_neg fun hand => hmax hand.2, if_neg hmax]
      rw [hlist]
      exact ⟨hpush.total, hpush.ring⟩

/-- **The ledger of a scroll.** -/
theorem Counts.scrollUp (h : s.Counts pushed) (top bot n : ℕ) (save : Bool) (style : Style) :
    (s.scrollUp top bot n save style).Counts (pushed ++ s.pushedUp top bot n save style) := by
  have htimes : ∀ (k : ℕ) (s : Screen) (pushed : List Row), s.Counts pushed →
      ((Screen.scrollUpOne top (min bot (s.grid.length - 1)) save style)^[k] s).Counts
        (pushed ++ pushedTimes top (min bot (s.grid.length - 1)) save style k s) := by
    intro k s
    generalize min bot (s.grid.length - 1) = b
    intro pushed h
    induction k generalizing s pushed with
    | zero =>
      rw [pushedTimes, append_nil]
      exact h
    | succ k ih =>
      rw [Function.iterate_succ_apply, pushedTimes, ← List.append_assoc]
      exact ih _ _ (h.scrollUpOne top b save style)
  rw [Screen.scrollUp, pushedUp]
  split
  · rw [append_nil]
    exact h
  · exact htimes _ _ _ h

theorem Counts.clearScrollback (h : s.Counts pushed) : s.clearScrollback.Counts pushed :=
  ⟨h.total, List.nil_suffix⟩

theorem Counts.length_le (h : s.Counts pushed) : s.scrollback.length ≤ s.scrollbackTotal := by
  rw [h.total]
  exact h.ring.length_le

/-- The total grows at least as much as the ring. -/
def Advances (s s' : Screen) : Prop :=
  s.scrollbackTotal ≤ s'.scrollbackTotal ∧
    s'.scrollback.length + s.scrollbackTotal ≤ s.scrollback.length + s'.scrollbackTotal

theorem Advances.refl (s : Screen) : s.Advances s := ⟨Nat.le_refl _, Nat.le_refl _⟩

theorem Advances.trans {s' s'' : Screen} (h : s.Advances s') (h' : s'.Advances s'') : s.Advances s'' := by
  obtain ⟨htotal, hring⟩ := h
  obtain ⟨htotal', hring'⟩ := h'
  exact ⟨by omega, by omega⟩

theorem advances_clearScrollback (s : Screen) : s.Advances s.clearScrollback := by
  refine ⟨Nat.le_refl _, ?_⟩
  show 0 + s.scrollbackTotal ≤ s.scrollback.length + s.scrollbackTotal
  omega

theorem advances_pushScrollback (s : Screen) (row : Row) : s.Advances (s.pushScrollback row) := by
  rw [pushScrollback]
  split
  · refine ⟨Nat.le_succ _, ?_⟩
    have hkept : (if s.scrollback.length ≥ s.maxScrollback then s.scrollback.drop 1
        else s.scrollback).length ≤ s.scrollback.length := by
      split
      · rw [List.length_drop]
        omega
      · exact Nat.le_refl _
    simp only [List.length_append, List.length_singleton]
    omega
  · exact .refl s

theorem advances_scrollUpOne (s : Screen) (top bot : ℕ) (save : Bool) (style : Style) :
    s.Advances (scrollUpOne top bot save style s) := by
  rw [scrollUpOne]
  cases s.grid[top]? with
  | none => exact .refl s
  | some row =>
    cases save with
    | false => exact .refl s
    | true => exact advances_pushScrollback s row

theorem advances_scrollUp (s : Screen) (top bot n : ℕ) (save : Bool) (style : Style) :
    s.Advances (s.scrollUp top bot n save style) := by
  have htimes : ∀ (b k : ℕ) (s : Screen), s.Advances ((scrollUpOne top b save style)^[k] s) := by
    intro b k
    induction k with
    | zero => exact fun s => .refl s
    | succ k ih =>
      intro s
      rw [Function.iterate_succ_apply]
      exact (advances_scrollUpOne s top b save style).trans (ih _)
  rw [scrollUp]
  split
  · exact .refl s
  · exact htimes _ _ s

end Term.Screen

/-! ### Calls on a cursor -/

namespace HistoryCursor

/-- A call opens an epoch: the cursor is active that was not, or its epoch's byte is another. -/
def Opened (c c' : HistoryCursor) : Prop := c'.active ≠ c.active ∨ c'.epoch ≠ c.epoch

instance (c c' : HistoryCursor) : Decidable (c.Opened c') :=
  inferInstanceAs (Decidable (c'.active ≠ c.active ∨ c'.epoch ≠ c.epoch))

/-- **What a call that opens no epoch does to the numbering**: a row keeps its number, and the anchor moves
forward at most to the total. -/
structure Keeps (total : ℕ) (c c' : HistoryCursor) : Prop where
  offset : c'.anchorAbs + c.anchorRel = c.anchorAbs + c'.anchorRel
  anchor_le : c.anchorAbs ≤ c'.anchorAbs
  le_total : c'.anchorAbs ≤ total

variable {c c' : HistoryCursor} {total : ℕ}

theorem Keeps.refl (h : c.anchorAbs ≤ total) : Keeps total c c := ⟨rfl, Nat.le_refl _, h⟩

theorem Keeps.avail_eq (h : Keeps total c c') (hle : c.anchorAbs ≤ total) : c'.avail total = c.avail total := by
  have := h.offset
  have := h.anchor_le
  have := h.le_total
  rw [avail, avail]
  omega

/-- What a call does to the numbering: it is kept, or starts anew at the total. -/
def Renumbers (total : ℕ) (c c' : HistoryCursor) : Prop :=
  if c.Opened c' then c'.anchorAbs = total else Keeps total c c'

theorem renumbers_self (h : c.anchorAbs ≤ total) : Renumbers total c c := by
  rw [Renumbers, if_neg fun hopen => hopen.elim (fun hne => hne rfl) fun hne => hne rfl]
  exact .refl h

theorem renumbers_activate (h : c.anchorAbs ≤ total) (start : HistoryStart) :
    Renumbers total c (c.activate start total) := by
  rw [activate]
  cases hactive : c.active with
  | true => exact renumbers_self h
  | false =>
    cases start with
    | fresh =>
      rw [Renumbers, if_pos (.inl (by rw [hactive]; exact fun h => by cases h))]
      rfl
    | continued epoch rows =>
      rw [Renumbers, if_pos (.inl (by rw [hactive]; exact fun h => by cases h))]
      rfl

theorem renumbers_bumpEpoch (h : c.anchorAbs ≤ total) : Renumbers total c (c.bumpEpoch total) := by
  rw [bumpEpoch]
  split
  · rw [Renumbers, if_pos (.inr (nextEpoch_ne c.epoch))]
  · exact renumbers_self h

theorem renumbers_onAck (h : c.anchorAbs ≤ total) (epoch : UInt8) (ackedRows now : ℕ) :
    Renumbers total c (c.onAck epoch ackedRows now total) := by
  rw [onAck]
  split
  · exact renumbers_self h
  split
  · exact renumbers_bumpEpoch h
  split
  · exact renumbers_self h
  · have hsame := renumbers_self h
    rw [Renumbers, if_neg fun hopen => hopen.elim (fun hne => hne rfl) fun hne => hne rfl] at hsame ⊢
    exact ⟨hsame.offset, hsame.anchor_le, hsame.le_total⟩

theorem renumbers_reanchor (h : c.anchorAbs ≤ total) : Renumbers total c (c.reanchor total) := by
  rw [reanchor]
  split
  · rw [Renumbers, if_neg fun hopen => hopen.elim (fun hne => hne rfl) fun hne => hne rfl]
    refine ⟨?_, h, Nat.le_refl _⟩
    show total + c.anchorRel = c.anchorAbs + (c.anchorRel + (total - c.anchorAbs))
    omega
  · exact renumbers_self h

/-! ### The byte of an epoch -/

/-- A call on an active cursor leaves it active, and an epoch it opens has the next byte. -/
def Turns (c c' : HistoryCursor) : Prop :=
  c.active = true → c'.active = true ∧ c'.epoch = if c.Opened c' then nextEpoch c.epoch else c.epoch

theorem turns_of_same (hactive : c'.active = c.active) (hepoch : c'.epoch = c.epoch) : c.Turns c' := by
  intro h
  rw [if_neg fun hopen => hopen.elim (fun hne => hne hactive) fun hne => hne hepoch]
  exact ⟨hactive.trans h, hepoch⟩

theorem turns_activate (c : HistoryCursor) (start : HistoryStart) (total : ℕ) :
    c.Turns (c.activate start total) := by
  intro h
  rw [activate, if_pos h]
  exact turns_of_same rfl rfl h

theorem turns_bumpEpoch (c : HistoryCursor) (total : ℕ) : c.Turns (c.bumpEpoch total) := by
  intro h
  rw [bumpEpoch, if_pos h, if_pos (.inr (nextEpoch_ne c.epoch))]
  exact ⟨h, rfl⟩

theorem turns_onAck (c : HistoryCursor) (epoch : UInt8) (ackedRows now total : ℕ) :
    c.Turns (c.onAck epoch ackedRows now total) := by
  rw [onAck]
  split
  · exact turns_of_same rfl rfl
  split
  · exact turns_bumpEpoch c total
  split
  · exact turns_of_same rfl rfl
  · exact turns_of_same rfl rfl

theorem turns_reanchor (c : HistoryCursor) (total : ℕ) : c.Turns (c.reanchor total) := by
  rw [reanchor]
  split
  · exact turns_of_same rfl rfl
  · exact turns_of_same rfl rfl

theorem nextEpoch_toNat (epoch : UInt8) :
    (nextEpoch epoch).toNat = if epoch.toNat = 255 then 1 else epoch.toNat + 1 := by
  have hlt := epoch.toNat_lt
  have hadd : (epoch + 1).toNat = (epoch.toNat + 1) % 256 := UInt8.toNat_add epoch 1
  rw [nextEpoch]
  split
  case isTrue h =>
    have hzero : (epoch + 1).toNat = 0 := congrArg UInt8.toNat h
    rw [if_pos (by omega)]
    rfl
  case isFalse h =>
    have hpos : (epoch + 1).toNat ≠ 0 := fun hzero => h (UInt8.toNat_inj.mp hzero)
    rw [if_neg (by omega), hadd]
    omega

theorem iterate_nextEpoch_toNat (epoch : UInt8) {n : ℕ} (hn : n < 255) : (nextEpoch^[n] epoch).toNat =
      if epoch.toNat + n ≤ 255 then epoch.toNat + n else epoch.toNat + n - 255 := by
  have hlt := epoch.toNat_lt
  induction n with
  | zero =>
    rw [if_pos (by omega)]
    rfl
  | succ n ih =>
    rw [Function.iterate_succ_apply', nextEpoch_toNat, ih (by omega)]
    split_ifs <;> omega

theorem eq_zero_of_iterate_nextEpoch {epoch : UInt8} {n : ℕ} (hn : n < 255)
    (h : nextEpoch^[n] epoch = epoch) : n = 0 := by
  have hlt := epoch.toNat_lt
  have hvalue := iterate_nextEpoch_toNat epoch hn
  rw [h] at hvalue
  split at hvalue
  all_goals omega

end HistoryCursor

open HistoryCursor

/-! ### Runs -/

/-- A body that was asked for: in which epoch, of which cursor and terminal. -/
structure BodyCall (γ : Type) where
  epochs : ℕ
  cursor : HistoryCursor
  term : Terminal γ
  now : ℕ
  rto : ℕ
  window : ℕ

namespace BodyCall

variable {γ : Type} (b : BodyCall γ)

def body : Wire.FrameBody := historyBody b.cursor b.term b.now b.rto b.window

/-- The number of its first row. -/
def start : ℕ := (b.cursor.nextSpan b.term.primaryRing b.now b.rto b.window).1

/-- The rows whose dumps it carries. -/
def rows : List Row := b.cursor.nextRows b.term b.now b.rto b.window

theorem body_eq : b.body = .scrollback2 b.cursor.epoch (UInt64.ofNat b.start) (b.rows.map b.term.dumpRow) := by
  rw [body, rows, ← rows_historyBody]
  rfl

end BodyCall

/-- A cursor over a terminal, all rows ever pushed into the ring, how often an epoch opened, and all bodies
that were asked for. -/
structure HistoryRun (γ : Type) where
  term : Terminal γ
  cursor : HistoryCursor
  pushed : List Row := []
  epochs : ℕ := 0
  bodies : List (BodyCall γ) := []

namespace HistoryRun

variable {γ : Type}

/-- What happens to a terminal's history and a cursor over it. -/
inductive Act (γ : Type) where
  /-- the primary screen scrolls -/
  | scroll (top bot n : ℕ) (save : Bool) (style : Style)
  /-- the ring is cleared -/
  | clear
  /-- anything else happens to the terminal, which leaves the ring -/
  | elsewhere (term : Terminal γ)
  | activate (start : HistoryStart)
  | onAck (epoch : UInt8) (ackedRows now : ℕ)
  | bumpEpoch
  | reanchor
  | nextBody (now rto window : ℕ)

/-- The cursor is called, and an epoch it opens is counted. -/
def withCursor (s : HistoryRun γ) (cursor : HistoryCursor) : HistoryRun γ :=
  { s with cursor, epochs := if s.cursor.Opened cursor then s.epochs + 1 else s.epochs }

/-- The count of all rows that ever scrolled off. -/
def total (s : HistoryRun γ) : ℕ := s.term.primary.scrollbackTotal

def step (s : HistoryRun γ) : Act γ → Option (HistoryRun γ)
  | .scroll top bot n save style =>
    some { s with
      term := { s.term with primary := s.term.primary.scrollUp top bot n save style }
      pushed := s.pushed ++ s.term.primary.pushedUp top bot n save style }
  | .clear => some { s with term := { s.term with primary := s.term.primary.clearScrollback } }
  | .elsewhere term =>
    if term.primary.scrollback = s.term.primary.scrollback ∧
        term.primary.scrollbackTotal = s.term.primary.scrollbackTotal then some { s with term }
    else none
  | .activate start => some (s.withCursor (s.cursor.activate start s.total))
  | .onAck epoch ackedRows now => some (s.withCursor (s.cursor.onAck epoch ackedRows now s.total))
  | .bumpEpoch => some (s.withCursor (s.cursor.bumpEpoch s.total))
  | .reanchor => some (s.withCursor (s.cursor.reanchor s.total))
  | .nextBody now rto window =>
    some { s with
      cursor := (s.cursor.nextBody s.term.primaryRing now rto window).1
      bodies := ⟨s.epochs, s.cursor, s.term, now, rto, window⟩ :: s.bodies }

/-- A new terminal, and a cursor for a viewport of `size`. -/
def start [GraphicsStore γ] (rows cols scrollback : ℕ) (size : ℕ × ℕ) : HistoryRun γ where
  term := .withScrollback rows cols scrollback
  cursor := .new size

/-! ### The books -/

end HistoryRun

/-- **The rows of a body are the rows pushed under their numbers**, and their numbers are among those that
are retained and available. -/
def BodyCall.Faithful {γ : Type} (b : BodyCall γ) (pushed : List Row) : Prop :=
  ∀ (k : ℕ) (row : Row), b.rows[k]? = some row →
    pushed[b.cursor.anchorAbs + (b.start + k) - b.cursor.anchorRel]? = some row ∧
      b.cursor.floorRel b.term.primaryRing ≤ b.start + k ∧
      b.start + k < b.cursor.avail b.term.primary.scrollbackTotal

namespace HistoryRun

variable {γ : Type} {s s' : HistoryRun γ} {a : Act γ} {cursor : HistoryCursor}

/-- Two cursors number the same row alike. -/
def SameNumbers (c c' : HistoryCursor) : Prop := c.anchorAbs + c'.anchorRel = c'.anchorAbs + c.anchorRel

/-- The books of a run. -/
structure Numbers (s : HistoryRun γ) : Prop where
  counts : s.term.primary.Counts s.pushed
  anchor : s.cursor.anchorAbs ≤ s.total
  epochs_le : ∀ b ∈ s.bodies, b.epochs ≤ s.epochs
  current : ∀ b ∈ s.bodies, b.epochs = s.epochs → SameNumbers b.cursor s.cursor
  alike : ∀ b ∈ s.bodies, ∀ b' ∈ s.bodies, b.epochs = b'.epochs → SameNumbers b.cursor b'.cursor
  faithful : ∀ b ∈ s.bodies, b.Faithful s.pushed

theorem numbers_start [GraphicsStore γ] (rows cols scrollback : ℕ) (size : ℕ × ℕ) :
    Numbers (start rows cols scrollback size : HistoryRun γ) where
  counts := ⟨rfl, List.nil_suffix⟩
  anchor := Nat.le_refl 0
  epochs_le := forall_mem_nil _
  current := forall_mem_nil _
  alike := forall_mem_nil _
  faithful := forall_mem_nil _

/-- **The rows of the next body are the rows pushed under their numbers.** -/
theorem Numbers.nextRows (h : s.Numbers) (now rto window : ℕ) :
    BodyCall.Faithful ⟨s.epochs, s.cursor, s.term, now, rto, window⟩ s.pushed := by
  intro k row hrow
  have hfloor : s.cursor.floorRel s.term.primaryRing ≤
      (s.cursor.nextSpan s.term.primaryRing now rto window).1 := floorRel_le_nextSpan
  have hlen := avail_sub_le_len hfloor
  have hrel : s.cursor.anchorRel ≤ s.cursor.floorRel s.term.primaryRing :=
    anchorRel_le_floorRel
  have hring : s.term.primaryRing.len = s.term.primary.scrollback.length := List.length_map _
  have hanchor := h.anchor
  have htotal := h.counts.total
  have hle := h.counts.length_le
  rw [BodyCall.rows, HistoryCursor.nextRows] at hrow
  simp only [List.getElem?_take, List.getElem?_drop] at hrow
  split at hrow
  case isFalse => cases hrow
  case isTrue hk =>
    rw [bodyCount] at hk
    have havail : s.cursor.avail s.term.primaryRing.total =
        s.cursor.anchorRel + (s.term.primary.scrollbackTotal - s.cursor.anchorAbs) := rfl
    have hstart : (⟨s.epochs, s.cursor, s.term, now, rto, window⟩ : BodyCall γ).start =
        (s.cursor.nextSpan s.term.primaryRing now rto window).1 := rfl
    rw [hstart]
    rw [total] at hanchor
    refine ⟨?_, by dsimp only; omega, ?_⟩
    · -- the ring is the end of what was pushed, and the newest row is the last of both
      rw [List.suffix_iff_eq_drop.mp h.counts.ring, List.getElem?_drop] at hrow
      rw [← hrow]
      congr 1
      dsimp only
      omega
    · show _ < s.cursor.anchorRel + (s.term.primary.scrollbackTotal - s.cursor.anchorAbs)
      omega

theorem Faithful.append {b : BodyCall γ} {pushed : List Row} (h : b.Faithful pushed)
    (more : List Row) : b.Faithful (pushed ++ more) := by
  intro k row hrow
  obtain ⟨hget, hbounds⟩ := h k row hrow
  rw [List.getElem?_append_left (List.getElem?_eq_some_iff.mp hget).1]
  exact ⟨hget, hbounds⟩

theorem Numbers.withTerm (h : s.Numbers) {term : Terminal γ} {more : List Row}
    (hcounts : term.primary.Counts (s.pushed ++ more)) :
    Numbers { s with term, pushed := s.pushed ++ more } where
  counts := hcounts
  anchor := by
    have hanchor := h.anchor
    have hmore := hcounts.total
    rw [total, h.counts.total] at hanchor
    rw [List.length_append] at hmore
    show s.cursor.anchorAbs ≤ term.primary.scrollbackTotal
    omega
  epochs_le := h.epochs_le
  current := h.current
  alike := h.alike
  faithful := fun b hb => Faithful.append (h.faithful b hb) more

theorem Numbers.withCursor (h : s.Numbers)
    (hcall : HistoryCursor.Renumbers s.total s.cursor cursor) : (s.withCursor cursor).Numbers := by
  rw [HistoryCursor.Renumbers] at hcall
  by_cases hopen : s.cursor.Opened cursor
  · rw [if_pos hopen] at hcall
    have hepochs : (s.withCursor cursor).epochs = s.epochs + 1 := if_pos hopen
    refine ⟨h.counts, Nat.le_of_eq hcall, ?_, ?_, h.alike, h.faithful⟩
    · intro b hb
      rw [hepochs]
      exact Nat.le_succ_of_le (h.epochs_le b hb)
    · intro b hb heq
      have hle := h.epochs_le b hb
      omega
  · rw [if_neg hopen] at hcall
    have hepochs : (s.withCursor cursor).epochs = s.epochs := if_neg hopen
    refine ⟨h.counts, hcall.le_total, ?_, ?_, h.alike, h.faithful⟩
    · intro b hb
      rw [hepochs]
      exact h.epochs_le b hb
    · intro b hb heq
      have hsame := h.current b hb (heq.trans hepochs)
      have hoffset := hcall.offset
      rw [SameNumbers] at hsame ⊢
      show b.cursor.anchorAbs + cursor.anchorRel = cursor.anchorAbs + b.cursor.anchorRel
      omega

theorem Numbers.nextBody (h : s.Numbers) (now rto window : ℕ) :
    Numbers { s with
      cursor := (s.cursor.nextBody s.term.primaryRing now rto window).1
      bodies := ⟨s.epochs, s.cursor, s.term, now, rto, window⟩ :: s.bodies } where
  counts := h.counts
  anchor := h.anchor
  epochs_le := List.forall_mem_cons.mpr ⟨Nat.le_refl _, h.epochs_le⟩
  current := List.forall_mem_cons.mpr ⟨fun _ => rfl, h.current⟩
  alike := by
    have hsym : ∀ b ∈ s.bodies, s.epochs = b.epochs → SameNumbers s.cursor b.cursor :=
      fun b hb heq => (h.current b hb heq.symm).symm
    intro b hb b' hb' heq
    rcases mem_cons.mp hb with rfl | hb
    · rcases mem_cons.mp hb' with rfl | hb'
      · rfl
      · exact hsym b' hb' heq
    · rcases mem_cons.mp hb' with rfl | hb'
      · exact h.current b hb heq
      · exact h.alike b hb b' hb' heq
  faithful := List.forall_mem_cons.mpr ⟨h.nextRows now rto window, h.faithful⟩

/-- **One step keeps the books.** -/
theorem numbers_step (h : s.Numbers) (hstep : step s a = some s') : s'.Numbers := by
  cases a with
  | scroll top bot n save style =>
    cases hstep
    exact h.withTerm (h.counts.scrollUp top bot n save style)
  | clear =>
    cases hstep
    have hcounts : s.term.primary.clearScrollback.Counts (s.pushed ++ []) := by
      rw [append_nil]
      exact h.counts.clearScrollback
    have hsame := @Numbers.withTerm _ _ h
      { s.term with primary := s.term.primary.clearScrollback } _ hcounts
    rw [append_nil] at hsame
    exact hsame
  | elsewhere term =>
    rw [step] at hstep
    split at hstep
    case isFalse => cases hstep
    case isTrue hring =>
      cases hstep
      have hcounts : term.primary.Counts (s.pushed ++ []) := by
        rw [append_nil]
        exact ⟨hring.2.trans h.counts.total, hring.1 ▸ h.counts.ring⟩
      have hsame := h.withTerm hcounts
      rw [append_nil] at hsame
      exact hsame
  | activate start =>
    cases hstep
    exact h.withCursor (renumbers_activate h.anchor start)
  | onAck epoch ackedRows now =>
    cases hstep
    exact h.withCursor (renumbers_onAck h.anchor epoch ackedRows now)
  | bumpEpoch =>
    cases hstep
    exact h.withCursor (renumbers_bumpEpoch h.anchor)
  | reanchor =>
    cases hstep
    exact h.withCursor (renumbers_reanchor h.anchor)
  | nextBody now rto window =>
    cases hstep
    exact h.nextBody now rto window

/-! ### The byte on the wire -/

/-- The bytes of a run: the cursor's, and every body's, are as many openings on from an earlier body's as
there were. -/
structure Bytes (s : HistoryRun γ) : Prop where
  current : ∀ b ∈ s.bodies, b.cursor.active = true → s.cursor.active = true ∧
      s.cursor.epoch = HistoryCursor.nextEpoch^[s.epochs - b.epochs] b.cursor.epoch
  bodies : ∀ b ∈ s.bodies, ∀ b' ∈ s.bodies, b.cursor.active = true → b'.cursor.active = true →
    b.epochs ≤ b'.epochs → b'.cursor.epoch = HistoryCursor.nextEpoch^[b'.epochs - b.epochs] b.cursor.epoch

theorem Bytes.withCursor (hbytes : s.Bytes) (h : s.Numbers)
    (hturns : s.cursor.Turns cursor) : (s.withCursor cursor).Bytes := by
  refine ⟨fun b hb hactive => ?_, hbytes.bodies⟩
  obtain ⟨hcursor, hepoch⟩ := hbytes.current b hb hactive
  obtain ⟨hcursor', hepoch'⟩ := hturns hcursor
  have hle := h.epochs_le b hb
  refine ⟨hcursor', ?_⟩
  show cursor.epoch = nextEpoch^[(if s.cursor.Opened cursor then s.epochs + 1
    else s.epochs) - b.epochs] b.cursor.epoch
  by_cases hopen : s.cursor.Opened cursor
  · rw [if_pos hopen] at hepoch' ⊢
    rw [show s.epochs + 1 - b.epochs = (s.epochs - b.epochs) + 1 by omega,
      Function.iterate_succ_apply', ← hepoch, hepoch']
  · rw [if_neg hopen] at hepoch' ⊢
    rw [hepoch', hepoch]

theorem Bytes.nextBody (hbytes : s.Bytes) (h : s.Numbers) (now rto window : ℕ) :
    Bytes { s with
      cursor := (s.cursor.nextBody s.term.primaryRing now rto window).1
      bodies := ⟨s.epochs, s.cursor, s.term, now, rto, window⟩ :: s.bodies } where
  current := by
    refine List.forall_mem_cons.mpr ⟨fun hactive => ⟨hactive, ?_⟩, hbytes.current⟩
    dsimp only
    rw [Nat.sub_self]
    rfl
  bodies := by
    intro b hb b' hb' hactive hactive' hle
    rcases mem_cons.mp hb with rfl | hb
    · rcases mem_cons.mp hb' with rfl | hb'
      · rw [Nat.sub_self]
        rfl
      · have hsame : s.epochs = b'.epochs := Nat.le_antisymm hle (h.epochs_le b' hb')
        have hepoch := (hbytes.current b' hb' hactive').2
        rw [hsame, Nat.sub_self] at hepoch ⊢
        exact hepoch.symm
    · rcases mem_cons.mp hb' with rfl | hb'
      · exact (hbytes.current b hb hactive).2
      · exact hbytes.bodies b hb b' hb' hactive hactive' hle

theorem bytes_step (hbytes : s.Bytes) (h : s.Numbers) (hstep : step s a = some s') : s'.Bytes := by
  cases a with
  | scroll top bot n save style =>
    cases hstep
    exact ⟨hbytes.current, hbytes.bodies⟩
  | clear =>
    cases hstep
    exact ⟨hbytes.current, hbytes.bodies⟩
  | elsewhere term =>
    rw [step] at hstep
    split at hstep
    case isFalse => cases hstep
    case isTrue =>
      cases hstep
      exact ⟨hbytes.current, hbytes.bodies⟩
  | activate start =>
    cases hstep
    exact hbytes.withCursor h (turns_activate _ start _)
  | onAck epoch ackedRows now =>
    cases hstep
    exact hbytes.withCursor h (turns_onAck _ epoch ackedRows now _)
  | bumpEpoch =>
    cases hstep
    exact hbytes.withCursor h (turns_bumpEpoch _ _)
  | reanchor =>
    cases hstep
    exact hbytes.withCursor h (turns_reanchor _ _)
  | nextBody now rto window =>
    cases hstep
    exact hbytes.nextBody h now rto window

theorem Bytes.same_epoch (h : s.Bytes) {b b' : BodyCall γ} (hb : b ∈ s.bodies) (hb' : b' ∈ s.bodies)
    (hactive : b.cursor.active = true) (hactive' : b'.cursor.active = true)
    (hbyte : b.cursor.epoch = b'.cursor.epoch) (hclose : b'.epochs < b.epochs + 255)
    (hle : b.epochs ≤ b'.epochs) : b.epochs = b'.epochs := by
  have hepoch := h.bodies b hb b' hb' hactive hactive' hle
  have hzero := eq_zero_of_iterate_nextEpoch (by omega) (hepoch.symm.trans hbyte.symm)
  omega

/-! ### Within an epoch -/

def availRows (s : HistoryRun γ) : ℕ := s.cursor.avail s.total

/-- The rows below this one are not offered any more. -/
def evictedUpto (s : HistoryRun γ) : ℕ := s.cursor.floorRel s.term.primaryRing

/-- Epochs are counted, and within one of them rows only become available and only are evicted. -/
def Climbs (s s' : HistoryRun γ) : Prop :=
  s.epochs ≤ s'.epochs ∧ (s'.epochs = s.epochs → s.availRows ≤ s'.availRows ∧ s.evictedUpto ≤ s'.evictedUpto)

theorem Climbs.refl (s : HistoryRun γ) : s.Climbs s :=
  ⟨Nat.le_refl _, fun _ => ⟨Nat.le_refl _, Nat.le_refl _⟩⟩

theorem Climbs.trans {s'' : HistoryRun γ} (h : s.Climbs s') (h' : s'.Climbs s'') : s.Climbs s'' := by
  refine ⟨h.1.trans h'.1, fun heq => ?_⟩
  have hle := h.1
  have hle' := h'.1
  obtain ⟨havail, hfloor⟩ := h.2 (by omega)
  obtain ⟨havail', hfloor'⟩ := h'.2 (by omega)
  exact ⟨havail.trans havail', hfloor.trans hfloor'⟩

theorem climbs_withTerm {term : Terminal γ} {pushed : List Row}
    (h : s.term.primary.Advances term.primary) : s.Climbs { s with term, pushed } := by
  obtain ⟨htotal, hring⟩ := h
  have hlen : s.term.primaryRing.len = s.term.primary.scrollback.length := List.length_map _
  have hlen' : term.primaryRing.len = term.primary.scrollback.length := List.length_map _
  refine ⟨Nat.le_refl _, fun _ => ⟨?_, ?_⟩⟩
  · show s.cursor.anchorRel + (s.term.primary.scrollbackTotal - s.cursor.anchorAbs) ≤
      s.cursor.anchorRel + (term.primary.scrollbackTotal - s.cursor.anchorAbs)
    omega
  · show max s.cursor.anchorRel
        (s.cursor.anchorRel + (s.term.primary.scrollbackTotal - s.cursor.anchorAbs) -
          min s.term.primaryRing.len
            (s.cursor.anchorRel + (s.term.primary.scrollbackTotal - s.cursor.anchorAbs))) ≤
      max s.cursor.anchorRel
        (s.cursor.anchorRel + (term.primary.scrollbackTotal - s.cursor.anchorAbs) -
          min term.primaryRing.len
            (s.cursor.anchorRel + (term.primary.scrollbackTotal - s.cursor.anchorAbs)))
    omega

theorem climbs_withCursor (hanchor : s.cursor.anchorAbs ≤ s.total)
    (hcall : HistoryCursor.Renumbers s.total s.cursor cursor) : s.Climbs (s.withCursor cursor) := by
  rw [HistoryCursor.Renumbers] at hcall
  by_cases hopen : s.cursor.Opened cursor
  · have hepochs : (s.withCursor cursor).epochs = s.epochs + 1 := if_pos hopen
    exact ⟨by omega, fun heq => by omega⟩
  · rw [if_neg hopen] at hcall
    have hepochs : (s.withCursor cursor).epochs = s.epochs := if_neg hopen
    have havail := hcall.avail_eq hanchor
    have hoffset := hcall.offset
    have hle := hcall.anchor_le
    refine ⟨by omega, fun _ => ⟨Nat.le_of_eq havail.symm, ?_⟩⟩
    show max s.cursor.anchorRel (s.cursor.avail s.total - min s.term.primaryRing.len
        (s.cursor.avail s.total)) ≤
      max cursor.anchorRel (cursor.avail s.total - min s.term.primaryRing.len (cursor.avail s.total))
    rw [havail]
    omega

theorem climbs_step (h : s.Numbers) (hstep : step s a = some s') : s.Climbs s' := by
  cases a with
  | scroll top bot n save style =>
    cases hstep
    exact climbs_withTerm (advances_scrollUp _ top bot n save style)
  | clear =>
    cases hstep
    exact climbs_withTerm (advances_clearScrollback _)
  | elsewhere term =>
    rw [step] at hstep
    split at hstep
    case isFalse => cases hstep
    case isTrue hring =>
      cases hstep
      exact climbs_withTerm ⟨by rw [hring.2], by rw [hring.1, hring.2]⟩
  | activate start =>
    cases hstep
    exact climbs_withCursor h.anchor (renumbers_activate h.anchor start)
  | onAck epoch ackedRows now =>
    cases hstep
    exact climbs_withCursor h.anchor (renumbers_onAck h.anchor epoch ackedRows now)
  | bumpEpoch =>
    cases hstep
    exact climbs_withCursor h.anchor (renumbers_bumpEpoch h.anchor)
  | reanchor =>
    cases hstep
    exact climbs_withCursor h.anchor (renumbers_reanchor h.anchor)
  | nextBody now rto window =>
    cases hstep
    exact ⟨Nat.le_refl _, fun _ => ⟨Nat.le_refl _, Nat.le_refl _⟩⟩

theorem climbs_exec (h : s.Numbers) {as : List (Act γ)} (hexec : Runs.exec step s as = some s') :
    s'.Numbers ∧ s.Climbs s' :=
  Runs.exec_invariant (I := fun u => u.Numbers ∧ s.Climbs u)
    (fun _ _ _ hu hstep => ⟨numbers_step hu.1 hstep, hu.2.trans (climbs_step hu.1 hstep)⟩)
    ⟨h, .refl s⟩ hexec

theorem bytes_exec [GraphicsStore γ] {rows cols scrollback : ℕ} {size : ℕ × ℕ} {as : List (Act γ)}
    (hexec : Runs.exec step (start rows cols scrollback size) as = some s) : s.Numbers ∧ s.Bytes :=
  Runs.exec_invariant (I := fun u => u.Numbers ∧ u.Bytes)
    (fun _ _ _ hu hstep => ⟨numbers_step hu.1 hstep, bytes_step hu.2 hu.1 hstep⟩)
    ⟨numbers_start rows cols scrollback size, forall_mem_nil _, forall_mem_nil _⟩ hexec

/-- A row is sent, and another one under the same number after the byte has come round. -/
def comeRound : List (Act Unit) :=
  [.activate .fresh, .scroll 0 0 1 true { bold := true }, .nextBody 0 0 1] ++
    List.replicate 255 .bumpEpoch ++ [.scroll 0 0 1 true {}, .nextBody 0 0 1]

end HistoryRun

end Posh
