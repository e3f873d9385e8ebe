/-
**The addressed scrollback stream within an epoch.**

A cursor numbers the rows of a ring that grows, loses its oldest rows and is renumbered by resizes, and
sends bodies and extents to a viewport over a link that loses, repeats and reorders frames; the viewport
acknowledges its count, and the acknowledgements are lost, repeated and reordered too.  Every number
below the viewport's count is accounted for once: its row was appended, with the bytes the server gave
that number, or it was marked as not received.  Rows are given up for one of two reasons.  A viewport
that has seen how far the server evicted gives up what lies below that floor, and holds a body past it
until the gap is filled; one that has seen no extent cannot tell a lost body from an evicted one, and
takes a body past its count as it comes.
-/

import Posh.HistoryCursor
import Posh.HistoryLedger

set_option autoImplicit false

namespace Posh

open HistoryCursor (anchorRel_le_floorRel avail_sub_le_len floorRel)
open List (prefix_rfl)
open HistoryCursor
open HistoryView
open PrimaryRing
open Option (getD_some map_eq_some_iff)

/-- The two sides of a history stream and what is between them. -/
structure HistoryStream where
  ring : PrimaryRing
  cursor : HistoryCursor
  client : HistoryView
  /-- the frames sent; each may arrive any number of times, or never -/
  frames : List HistoryFrame := []
  /-- the frames that arrived, in order -/
  taken : List HistoryFrame := []
  /-- the acknowledgements sent: an epoch and a count -/
  acks : List (UInt8 × ℕ) := []
  /-- the number of the first row of the row space -/
  first : ℕ := 0
  /-- the rows that took a number, from `first` on; a resize may count rows that are never offered -/
  numbered : List (Option Bytes) := []
  /-- the viewport's count when the first extent arrived -/
  firstExtent : Option ℕ := none
  deriving DecidableEq, Repr

namespace HistoryStream

inductive Act where
  /-- a row scrolls off the screen -/
  | scroll (row : Bytes)
  /-- the oldest rows leave the ring -/
  | evict (n : ℕ)
  /-- the session is resized: the ring holds other rows, `scrolled` were counted, and the cursor is
  anchored again -/
  | resize (rows : List Bytes) (scrolled : ℕ)
  /-- a frame with the epoch, with the extent or without, and with a body when one is due -/
  | emit (extent : Bool) (body : Option (ℕ × ℕ × ℕ))
  /-- the frame sent as number `i` arrives -/
  | deliver (i : ℕ)
  /-- the viewport acknowledges its count -/
  | ack
  /-- the acknowledgement sent as number `i` arrives -/
  | deliverAck (i now : ℕ)
  deriving DecidableEq, Repr

/-- The viewport's count where an extent finds it. -/
def countAt (v : HistoryView) (f : HistoryFrame) : Option ℕ :=
  f.extent.map fun _ => ((f.epochAck.map v.adoptEpoch).getD v).sb2Rows

/-- One step.  An acknowledgement that would open another epoch ends the epoch, and is not a step of
this system. -/
def step (s : HistoryStream) : Act → Option HistoryStream
  | .scroll row =>
    some { s with ring := s.ring.push row, numbered := s.numbered ++ [some row] }
  | .evict n => some { s with ring := s.ring.evict n }
  | .resize rows scrolled =>
    let ring := s.ring.renumber rows scrolled
    some { s with
      ring
      cursor := s.cursor.reanchor ring.total
      numbered := s.numbered ++ List.replicate scrolled none }
  | .emit extent body =>
    let sent := body.map fun (now, rto, window) => s.cursor.nextBody s.ring now rto window
    let cursor := (sent.map Prod.fst).getD s.cursor
    some { s with
      cursor
      frames := s.frames ++
        [{ epochAck := cursor.currentEpoch
           extent := if extent then cursor.extent s.ring else none
           body := sent.map Prod.snd }] }
  | .deliver i =>
    s.frames[i]?.map fun f =>
      { s with
        client := s.client.processFrame f
        taken := s.taken ++ [f]
        firstExtent := s.firstExtent.or (countAt s.client f) }
  | .ack => some { s with acks := s.acks ++ [(s.client.sb2Epoch.getD 0, s.client.sb2Rows)] }
  | .deliverAck i now =>
    s.acks[i]?.bind fun a =>
      let cursor := s.cursor.onAck a.1 a.2 now s.ring.total
      if cursor.epoch = s.cursor.epoch then some { s with cursor } else none

/-- The row of number `n` is `row`. -/
def Numbered (s : HistoryStream) (n : ℕ) (row : Bytes) : Prop :=
  s.first ≤ n ∧ s.numbered[n - s.first]? = some (some row)

/-- An extent arrived whose floor is past `n`. -/
def Reported (s : HistoryStream) (n : ℕ) : Prop :=
  ∃ f ∈ s.taken, ∃ x, f.extent = some x ∧ n < x.evictedUpto

/-- The numbers there are: those below the rows available. -/
def total (s : HistoryStream) : ℕ := s.first + s.numbered.length

/-! ### The server's side -/

/-- **What the server keeps**: the cursor is in the epoch `e` and within the rows there are, and the rows
it may still offer are the newest of the ring, under their numbers. -/
structure Serves (e : UInt8) (s : HistoryStream) : Prop where
  active : s.cursor.active = true
  epoch : s.cursor.epoch = e
  avail : s.cursor.avail s.ring.total = s.total
  anchorAbs_le : s.cursor.anchorAbs ≤ s.ring.total
  first_le : s.first ≤ s.cursor.anchorRel
  sentUpto_le : s.cursor.sentUpto ≤ s.total
  ackedRows_le : s.cursor.ackedRows ≤ s.total
  retained : ∀ r, s.cursor.floorRel s.ring ≤ r → r < s.total → ∃ row,
    s.Numbered r row ∧ s.ring.rows[s.ring.len - (s.total - r)]? = some row

variable {e : UInt8} {s s' t : HistoryStream} {f : HistoryFrame} {l : List (Option Bytes)} {n : ℕ}

theorem Serves.floorRel_le (h : Serves e s) : s.cursor.floorRel s.ring ≤ s.total :=
  h.avail ▸ floorRel_le_avail

theorem Numbered.append {row : Bytes} {numbered : List (Option Bytes)}
    (h : s.Numbered n row) (hfirst : s'.first = s.first) (hn : s.numbered = numbered)
    (hn' : s'.numbered = numbered ++ l) : s'.Numbered n row := by
  refine ⟨hfirst ▸ h.1, ?_⟩
  rw [hn', hfirst, List.getElem?_append_left]
  · exact hn ▸ h.2
  · exact hn ▸ (List.getElem?_eq_some_iff.1 h.2).1

theorem Serves.scroll (h : Serves e s) (row : Bytes) :
    Serves e { s with ring := s.ring.push row, numbered := s.numbered ++ [some row] } := by
  have htotal : total { s with ring := s.ring.push row, numbered := s.numbered ++ [some row] } =
      s.total + 1 := by
    simp [total, Nat.add_assoc]
  have havail : s.cursor.avail (s.ring.push row).total = s.total + 1 := by
    have h1 := h.avail
    have h2 := h.anchorAbs_le
    rw [HistoryCursor.avail] at h1 ⊢
    show _ + (s.ring.total + 1 - _) = _
    omega
  have hlen : (s.ring.push row).len = s.ring.len + 1 := by simp [len, push]
  have hfloor : s.cursor.floorRel (s.ring.push row) = s.cursor.floorRel s.ring := by
    rw [floorRel, floorRel, havail, h.avail, hlen]
    omega
  refine ⟨h.active, h.epoch, ?_, Nat.le_succ_of_le h.anchorAbs_le, h.first_le, ?_, ?_, ?_⟩
  · rw [htotal]
    exact havail
  · exact htotal ▸ Nat.le_succ_of_le h.sentUpto_le
  · exact htotal ▸ Nat.le_succ_of_le h.ackedRows_le
  · intro r hr hlt
    rw [htotal] at hlt
    have hr' : s.cursor.floorRel s.ring ≤ r := hfloor ▸ hr
    have hlenle := avail_sub_le_len hr'
    rw [h.avail] at hlenle
    show ∃ row', _ ∧ (s.ring.rows ++ [row])[(s.ring.push row).len - (_ - r)]? = some row'
    rw [htotal, hlen]
    by_cases hnew : r = s.total
    · -- the row that just scrolled
      refine ⟨row, ⟨?_, ?_⟩, ?_⟩
      · exact Nat.le_trans h.first_le (Nat.le_trans anchorRel_le_floorRel hr')
      · show (s.numbered ++ [some row])[r - s.first]? = some (some row)
        rw [hnew, total, Nat.add_sub_cancel_left, List.getElem?_append_right (Nat.le_refl _)]
        simp
      · rw [hnew, Nat.add_sub_cancel_left, Nat.add_sub_cancel, len,
          List.getElem?_append_right (Nat.le_refl _)]
        simp
    · obtain ⟨row', hnum, hrow⟩ := h.retained r hr' (by omega)
      refine ⟨row', hnum.append rfl rfl rfl, ?_⟩
      have hidx : s.ring.len + 1 - (s.total + 1 - r) = s.ring.len - (s.total - r) := by omega
      have hlt' : s.ring.len - (s.total - r) < s.ring.rows.length :=
        (List.getElem?_eq_some_iff.1 hrow).1
      rw [hidx, List.getElem?_append_left hlt', hrow]

theorem Serves.evict (h : Serves e s) (n : ℕ) : Serves e { s with ring := s.ring.evict n } := by
  refine ⟨h.active, h.epoch, h.avail, h.anchorAbs_le, h.first_le, h.sentUpto_le, h.ackedRows_le, ?_⟩
  intro r hr hlt
  have hlenle := avail_sub_le_len hr
  have hlen : (s.ring.evict n).len = s.ring.len - n := by simp [PrimaryRing.len, PrimaryRing.evict]
  have hav : s.cursor.avail (s.ring.evict n).total = s.total := h.avail
  rw [hlen, hav] at hlenle
  have hr' : s.cursor.floorRel s.ring ≤ r := by
    have hr'' : s.cursor.floorRel (s.ring.evict n) ≤ r := hr
    rw [floorRel, hav, hlen] at hr''
    rw [floorRel, h.avail]
    omega
  obtain ⟨row, hnum, hrow⟩ := h.retained r hr' hlt
  refine ⟨row, hnum, ?_⟩
  show (s.ring.rows.drop n)[(s.ring.evict n).len - (s.total - r)]? = some row
  have hidx : n + ((s.ring.len - n) - (s.total - r)) = s.ring.len - (s.total - r) := by
    have : r < s.total := hlt
    omega
  rw [hlen, List.getElem?_drop, hidx, hrow]

theorem Serves.resize (h : Serves e s) (rows : List Bytes) (scrolled : ℕ) : Serves e { s with
      ring := s.ring.renumber rows scrolled
      cursor := s.cursor.reanchor (s.ring.renumber rows scrolled).total
      numbered := s.numbered ++ List.replicate scrolled none } := by
  have htotal : ∀ cursor, total { s with
      ring := s.ring.renumber rows scrolled
      cursor
      numbered := s.numbered ++ List.replicate scrolled none } = s.total + scrolled := by
    simp [total, Nat.add_assoc]
  have havail : s.cursor.avail (s.ring.renumber rows scrolled).total = s.total + scrolled := by
    have h1 := h.avail
    have h2 := h.anchorAbs_le
    rw [HistoryCursor.avail] at h1 ⊢
    show _ + (s.ring.total + scrolled - _) = _
    omega
  have hcursor : s.cursor.reanchor (s.ring.renumber rows scrolled).total = { s.cursor with
        anchorAbs := (s.ring.renumber rows scrolled).total
        anchorRel := s.total + scrolled
        resends := 0 } := by
    rw [reanchor, if_pos h.active, havail]
  have hle := h.floorRel_le
  refine ⟨?_, ?_, ?_, ?_, ?_, ?_, ?_, ?_⟩ <;> simp only [hcursor, htotal]
  · exact h.active
  · exact h.epoch
  · simp [HistoryCursor.avail]
  · exact Nat.le_refl _
  · exact Nat.le_trans (Nat.le_add_right _ _) (Nat.le_add_right s.total scrolled)
  · exact Nat.le_trans h.sentUpto_le (Nat.le_add_right _ _)
  · exact Nat.le_trans h.ackedRows_le (Nat.le_add_right _ _)
  · intro r hr hlt
    have hanchor := anchorRel_le_floorRel.trans hr
    exact absurd hlt (Nat.not_lt.2 hanchor)

theorem Serves.nextBody (h : Serves e s) (now rto window : ℕ) :
    Serves e { s with cursor := (s.cursor.nextBody s.ring now rto window).1 } ∧
      HistoryView.Numbers s.Numbered (s.cursor.nextBody s.ring now rto window).2.2.1
        (s.cursor.nextBody s.ring now rto window).2.2.2 ∧
      (s.cursor.nextBody s.ring now rto window).2.2.1 ≤ s.total := by
  have hstart : (s.cursor.nextSpan s.ring now rto window).1 ≤ s.total := by
    have hle := h.sentUpto_le
    have hle' := h.ackedRows_le
    rw [← h.avail] at hle hle' ⊢
    exact nextSpan_le_avail hle hle'
  refine ⟨⟨h.active, h.epoch, h.avail, h.anchorAbs_le, h.first_le, ?_, h.ackedRows_le, h.retained⟩,
    fun k row hk => ?_, hstart⟩
  · have hcount : s.cursor.bodyCount s.ring now rto window ≤
        s.total - (s.cursor.nextSpan s.ring now rto window).1 :=
      h.avail ▸ Nat.min_le_left _ _
    show (s.cursor.nextSpan s.ring now rto window).1 + s.cursor.bodyCount s.ring now rto window ≤ s.total
    omega
  · obtain ⟨hlt, hrow⟩ := nextBody_row hk
    rw [h.avail] at hlt hrow
    have hfloor : s.cursor.floorRel s.ring ≤ (s.cursor.nextSpan s.ring now rto window).1 + k :=
      Nat.le_add_right_of_le floorRel_le_nextSpan
    obtain ⟨row', hnum, hrow'⟩ := h.retained _ hfloor hlt
    rw [dumpScrollbackRow, hrow', getD_some] at hrow
    exact hrow ▸ hnum

theorem Serves.onAck (h : Serves e s) {epoch : UInt8} {acked now : ℕ} (hacked : epoch = e → acked ≤ s.total)
    (hsame : (s.cursor.onAck epoch acked now s.ring.total).epoch = s.cursor.epoch) :
    Serves e { s with cursor := s.cursor.onAck epoch acked now s.ring.total } := by
  unfold HistoryCursor.onAck at hsame ⊢
  split
  case isTrue => exact h
  case isFalse hours =>
    rw [h.active, h.epoch] at hours
    simp only [Bool.not_true, ne_eq, Bool.false_or, decide_eq_true_eq, not_not] at hours
    split
    case isTrue hzero =>
      -- this one would open another epoch
      rw [if_neg (by simp [h.active, h.epoch, hours]), if_pos hzero, bumpEpoch,
        if_pos h.active] at hsame
      exact absurd hsame (nextEpoch_ne _)
    case isFalse =>
      split
      case isTrue => exact h
      case isFalse =>
        exact ⟨h.active, h.epoch, h.avail, h.anchorAbs_le, h.first_le, h.sentUpto_le, hacked hours,
          h.retained⟩

/-! ### What is in flight -/

/-- What a frame of the epoch says: its body holds rows under their numbers, and its extent reports rows
there are. -/
structure FrameOk (e : UInt8) (s : HistoryStream) (f : HistoryFrame) : Prop where
  epochAck : f.epochAck = some e
  extent : ∀ x, f.extent = some x → x.epoch = e ∧ x.evictedUpto ≤ s.total
  body : ∀ epoch off rows, f.body = some (epoch, off, rows) →
    HistoryView.Numbers s.Numbered off rows ∧ off ≤ s.total

/-- What was true of the row space stays true as it grows. -/
structure Grows (s s' : HistoryStream) : Prop where
  first : s'.first = s.first
  numbered : s.numbered <+: s'.numbered
  taken : s.taken <+: s'.taken

theorem Grows.total_le (h : Grows s s') : s.total ≤ s'.total := by
  rw [total, total, h.first]
  exact Nat.add_le_add_left h.numbered.length_le _

theorem Grows.row (h : Grows s s') {row : Bytes} (hn : s.Numbered n row) : s'.Numbered n row := by
  obtain ⟨l, hl⟩ := h.numbered
  exact hn.append h.first rfl hl.symm

theorem Grows.reported (h : Grows s s') (hn : s.Reported n) : s'.Reported n := by
  obtain ⟨f, hf, x, hx, hlt⟩ := hn
  exact ⟨f, h.taken.subset hf, x, hx, hlt⟩

theorem FrameOk.grows (h : FrameOk e s f) (hg : Grows s s') : FrameOk e s' f where
  epochAck := h.epochAck
  extent := fun x hx => ⟨(h.extent x hx).1, (h.extent x hx).2.trans hg.total_le⟩
  body := fun epoch off rows hb =>
    ⟨fun k row hk => hg.row ((h.body epoch off rows hb).1 k row hk),
      (h.body epoch off rows hb).2.trans hg.total_le⟩

theorem Serves.extent (h : Serves e s) {x : Scrollback2Extent} (hx : s.cursor.extent s.ring = some x) :
    x.epoch = e ∧ x.evictedUpto ≤ s.total := by
  rw [HistoryCursor.extent, if_pos h.active] at hx
  obtain rfl := Option.some.inj hx
  exact ⟨h.epoch, h.floorRel_le⟩

theorem Serves.emit (h : Serves e s) {extent : Bool} {body : Option (ℕ × ℕ × ℕ)}
    (hstep : step s (.emit extent body) = some s') :
    Serves e s' ∧ ∃ f, FrameOk e s f ∧ s' = { s with cursor := s'.cursor, frames := s.frames ++ [f] } := by
  obtain rfl := Option.some.inj hstep
  have key : ∀ (cursor : HistoryCursor) (b : Option (UInt8 × ℕ × List Bytes)), Serves e { s with cursor } →
      (∀ epoch off rows, b = some (epoch, off, rows) →
        HistoryView.Numbers s.Numbered off rows ∧ off ≤ s.total) → FrameOk e s
        { epochAck := cursor.currentEpoch
          extent := if extent then cursor.extent s.ring else none
          body := b } := by
    intro cursor b hserves hbody
    refine ⟨?_, fun x hx => ?_, hbody⟩
    · have hactive : cursor.active = true := hserves.active
      have hepoch : cursor.epoch = e := hserves.epoch
      simp [currentEpoch, hactive, hepoch]
    · cases extent with
      | false => cases hx
      | true => exact hserves.extent hx
  cases body with
  | none => exact ⟨{ h with }, _, key s.cursor none { h with } nofun, rfl⟩
  | some due =>
    obtain ⟨now, rto, window⟩ := due
    obtain ⟨hserves, hnum, hoff⟩ := h.nextBody now rto window
    refine ⟨{ hserves with }, _, key _ _ { hserves with } ?_, rfl⟩
    rintro epoch off rows hb
    obtain ⟨-, rfl, rfl⟩ := Option.some.inj hb
    exact ⟨hnum, hoff⟩

/-! ### The viewport's side -/

/-- Why a row is given up: there is such a row, and an extent reports it evicted unless none had been
seen when it was passed. -/
def Lost (s : HistoryStream) (n : ℕ) : Prop :=
  n < s.total ∧ ∀ m, s.firstExtent = some m → m ≤ n → s.Reported n

theorem Grows.lost (h : Grows s s') (hfirst : s'.firstExtent = s.firstExtent) (hn : s.Lost n) : s'.Lost n :=
  ⟨Nat.lt_of_lt_of_le hn.1 h.total_le, fun m hm hle => h.reported (hn.2 m (hfirst ▸ hm) hle)⟩

/-- **What holds of the server and of what is in flight**, whatever the viewport did. -/
structure Wire (e : UInt8) (s : HistoryStream) : Prop where
  serves : Serves e s
  frames : ∀ f ∈ s.frames, FrameOk e s f
  acks : ∀ a ∈ s.acks, a.1 = e → a.2 ≤ s.total

/-- **What holds of a viewport that entered the epoch** with the view `opened`: its ledger begins with
`past`, and the floor it has seen is one that was reported. -/
structure Follows (e : UInt8) (opened : HistoryView) (past : List (Option Bytes)) (s : HistoryStream) :
    Prop where
  epoch : s.client.sb2Epoch = some e
  held : s.client.HeldNumbered s.Numbered
  count_le : s.client.sb2Rows ≤ s.total
  seen : s.client.sb2Extent.isSome = s.firstExtent.isSome
  firstExtent_le : ∀ m, s.firstExtent = some m → m ≤ s.client.sb2Rows
  floor : ∀ n, s.client.sb2Rows ≤ n → n < s.client.floor → s.Lost n
  ledger : ∃ l, past <+: l ∧ HistoryView.Extends s.Numbered s.Lost opened s.client l

variable {opened : HistoryView} {past : List (Option Bytes)} {a : Act} {v : HistoryView} {as : List Act}

theorem Wire.grows (h : Wire e s) (hg : Grows s s') (hserves : Serves e s')
    (hframes : ∀ f ∈ s'.frames, f ∈ s.frames ∨ FrameOk e s' f)
    (hacks : ∀ a ∈ s'.acks, a ∈ s.acks ∨ (a.1 = e → a.2 ≤ s'.total)) : Wire e s' where
  serves := hserves
  frames := fun f hf => (hframes f hf).elim (fun hold => (h.frames f hold).grows hg) id
  acks := fun a ha => (hacks a ha).elim (fun hold hae => (h.acks a hold hae).trans hg.total_le) id

theorem Follows.grows (h : Follows e opened past s) (hg : Grows s s') (hclient : s'.client = s.client)
    (hfirst : s'.firstExtent = s.firstExtent) : Follows e opened past s' where
  epoch := hclient ▸ h.epoch
  held := hclient ▸ fun b hb k row hk => hg.row (h.held b hb k row hk)
  count_le := hclient ▸ h.count_le.trans hg.total_le
  seen := by rw [hclient, hfirst, h.seen]
  firstExtent_le := by rw [hclient, hfirst]; exact h.firstExtent_le
  floor := by rw [hclient]; exact fun n hn hlt => hg.lost hfirst (h.floor n hn hlt)
  ledger := by
    obtain ⟨l, hpast, hl⟩ := h.ledger
    rw [hclient]
    exact ⟨l, hpast, hl.mono (fun _ _ => hg.row) fun n _ => hg.lost hfirst⟩

theorem Numbered.lt_total {row : Bytes} (h : s.Numbered n row) : n < s.total := by
  have hlt := (List.getElem?_eq_some_iff.1 h.2).1
  have hle := h.1
  rw [total]
  omega

theorem count_le_of_extends {v v' : HistoryView} {lost : ℕ → Prop}
    (h : HistoryView.Extends s.Numbered lost v v' l) (hlost : ∀ n, lost n → n < s.total)
    (hv : v.sb2Rows ≤ s.total) : v'.sb2Rows ≤ s.total := by
  rw [h.rows]
  rcases List.eq_nil_or_concat l with rfl | ⟨l, x, rfl⟩
  · exact hv
  · have hat := h.account l.length x (by simp)
    have hlt : v.sb2Rows + l.length < s.total := by
      cases x with
      | some row => exact Numbered.lt_total hat
      | none => exact hlost _ hat
    simp only [List.concat_eq_append, List.length_append, List.length_singleton]
    omega

theorem Follows.reported (h : Follows e opened past s) (hn : s.client.sb2Rows ≤ n)
    (hlt : n < s.client.floor) : s.Reported n := by
  cases hfirst : s.firstExtent with
  | some m => exact (h.floor n hn hlt).2 m hfirst ((h.firstExtent_le m hfirst).trans hn)
  | none =>
    have hseen := h.seen
    rw [hfirst] at hseen
    have hnone : s.client.sb2Extent = none := by simpa using hseen
    rw [HistoryView.floor, hnone] at hlt
    exact absurd hlt (Nat.not_lt_zero n)

theorem Follows.advances (h : Follows e opened past s) (hv : HistoryView.Advances s.Numbered s.Lost s.client v) :
    Follows e opened past { s with client := v } := by
  obtain ⟨l₀, hpast, hl₀⟩ := h.ledger
  obtain ⟨l, hl⟩ := hv.ledger
  refine ⟨hv.epoch.trans h.epoch, hv.held, ?_, ?_, fun m hm => ?_, ?_, l₀ ++ l, ?_, hl₀.trans hl⟩
  · exact count_le_of_extends hl (fun _ hlost => hlost.1) h.count_le
  · exact (congrArg Option.isSome hv.extent).trans h.seen
  · have hle := h.firstExtent_le m hm
    show m ≤ v.sb2Rows
    rw [hl.rows]
    exact Nat.le_add_right_of_le hle
  · exact hv.lost_below h.floor
  · exact hpast.trans (List.prefix_append _ _)

theorem Follows.body (h : Follows e opened past s) {epoch : UInt8} {off : ℕ} {rows : List Bytes}
    (hnum : HistoryView.Numbers s.Numbered off rows) (hoff : off ≤ s.total) :
    Follows e opened past { s with client := s.client.applyScrollback2 epoch off rows } := by
  refine h.advances (advances_applyScrollback2 h.held (fun _ => hnum) ?_ ?_)
  · exact h.floor
  · intro hnone n hn
    refine ⟨Nat.lt_of_lt_of_le hn hoff, fun m hm => ?_⟩
    have hseen := h.seen
    rw [hnone, hm] at hseen
    cases hseen

theorem Follows.extent (h : Follows e opened past s) {x : Scrollback2Extent} (hf : f ∈ s.taken)
    (hx : f.extent = some x) (hok : FrameOk e s f) :
    Follows e opened past { s with
      client := s.client.adoptExtent x
      firstExtent := s.firstExtent.or (some s.client.sb2Rows) } := by
  obtain ⟨l₀, hpast, hl₀⟩ := h.ledger
  have hepoch : s.client.sb2Epoch = some x.epoch := by rw [h.epoch, (hok.extent x hx).1]
  have hseen : Follows e opened past { s with
      client := { s.client with sb2Extent := some ((s.client.sb2Extent.getD x).merge x) }
      firstExtent := s.firstExtent.or (some s.client.sb2Rows) } := by
    refine ⟨h.epoch, h.held, h.count_le, ?_, fun m hm => ?_, fun n hn hlt => ?_, l₀, hpast, ?_⟩
    · cases s.firstExtent <;> rfl
    · cases hfirst : s.firstExtent with
      | none =>
        rw [hfirst] at hm
        exact (Option.some.inj hm).symm.le
      | some m' =>
        rw [hfirst] at hm
        exact h.firstExtent_le m (hfirst ▸ hm)
    · have hcases : n < x.evictedUpto ∨ n < s.client.floor := by
        simp only [HistoryView.floor, Option.map_some, getD_some, Scrollback2Extent.merge] at hlt
        cases hold : s.client.sb2Extent with
        | none =>
          rw [hold, Option.getD_none, Nat.max_self] at hlt
          exact .inl hlt
        | some y =>
          rw [hold, getD_some] at hlt
          rcases Nat.lt_or_ge n x.evictedUpto with hnew | hnew
          · exact .inl hnew
          · refine .inr ?_
            simp only [HistoryView.floor, hold, Option.map_some, getD_some]
            omega
      rcases hcases with hnew | hold
      · exact ⟨Nat.lt_of_lt_of_le hnew (hok.extent x hx).2, fun _ _ _ => ⟨f, hf, x, hx, hnew⟩⟩
      · exact ⟨(h.floor n hn hold).1, fun _ _ _ => h.reported hn hold⟩
    · refine ⟨hl₀.rows, hl₀.ring, (hl₀.mono (fun _ _ hn => hn) fun n hn hlost => ?_).account⟩
      refine ⟨hlost.1, fun m hm hle => ?_⟩
      cases hfirst : s.firstExtent with
      | none =>
        -- what was given up before lies below the count the extent found
        rw [hfirst] at hm
        obtain rfl := Option.some.inj hm
        exact absurd hle (Nat.not_le.2 hn)
      | some m' =>
        rw [hfirst] at hm
        exact hlost.2 m (hfirst ▸ hm) hle
  exact hseen.advances (HistoryView.advances_adoptExtent hseen.held hepoch hseen.floor)

/-- **A frame arrives at a viewport that is in the epoch or enters it.** -/
theorem Follows.deliver (hw : Wire e s) (hf : f ∈ s.frames)
    (h : Follows e opened past { s with client := s.client.adoptEpoch e }) :
    Follows e opened past { s with
      client := s.client.processFrame f
      taken := s.taken ++ [f]
      firstExtent := s.firstExtent.or (countAt s.client f) } := by
  have hok := hw.frames f hf
  have htaken : Follows e opened past { s with
      client := s.client.adoptEpoch e
      taken := s.taken ++ [f] } :=
    h.grows ⟨rfl, prefix_rfl, List.prefix_append _ _⟩ rfl rfl
  have hextent : Follows e opened past { s with
      client := (f.extent.map (s.client.adoptEpoch e).adoptExtent).getD (s.client.adoptEpoch e)
      taken := s.taken ++ [f]
      firstExtent := s.firstExtent.or (countAt s.client f) } := by
    rw [countAt, hok.epochAck]
    cases hx : f.extent with
    | none => rw [Option.map_none, Option.map_none, Option.or_none]; exact htaken
    | some x =>
      exact htaken.extent (List.mem_append_right _ List.mem_cons_self) hx
        ⟨hok.epochAck, hok.extent, hok.body⟩
  rw [processFrame, hok.epochAck]
  cases hb : f.body with
  | none => exact hextent
  | some body =>
    obtain ⟨epoch, off, rows⟩ := body
    obtain ⟨hnum, hoff⟩ := hok.body epoch off rows hb
    exact hextent.body hnum hoff

/-! ### Every step keeps the account -/

/-- **The invariant**: the viewport is in the epoch, or would enter it with the view `opened`. -/
structure Inv (e : UInt8) (opened : HistoryView) (past : List (Option Bytes)) (s : HistoryStream) :
    Prop where
  wire : Wire e s
  follows : Follows e opened past { s with client := s.client.adoptEpoch e }

theorem Inv.grows (h : Inv e opened past s) (hg : Grows s s') (hserves : Serves e s')
    (hframes : ∀ f ∈ s'.frames, f ∈ s.frames ∨ FrameOk e s' f)
    (hacks : ∀ a ∈ s'.acks, a ∈ s.acks ∨ (a.1 = e → a.2 ≤ s'.total)) (hclient : s'.client = s.client)
    (hfirst : s'.firstExtent = s.firstExtent) : Inv e opened past s' where
  wire := h.wire.grows hg hserves hframes hacks
  follows := h.follows.grows ⟨hg.first, hg.numbered, hg.taken⟩
    (congrArg (adoptEpoch · e) hclient) hfirst

theorem adoptEpoch_of_eq (h : v.sb2Epoch = some e) : v.adoptEpoch e = v := by
  rw [adoptEpoch, if_neg (not_not.2 h)]

/-- **Every step keeps the account.** -/
theorem inv_step (he : e ≠ 0) (h : Inv e opened past s) (hstep : step s a = some s') : Inv e opened past s' := by
  cases a with
  | scroll row =>
    obtain rfl := Option.some.inj hstep
    exact h.grows ⟨rfl, List.prefix_append _ _, prefix_rfl⟩ (h.wire.serves.scroll row)
      (fun _ => .inl) (fun _ => .inl) rfl rfl
  | evict n =>
    obtain rfl := Option.some.inj hstep
    exact h.grows ⟨rfl, prefix_rfl, prefix_rfl⟩ (h.wire.serves.evict n)
      (fun _ => .inl) (fun _ => .inl) rfl rfl
  | resize rows scrolled =>
    obtain rfl := Option.some.inj hstep
    exact h.grows ⟨rfl, List.prefix_append _ _, prefix_rfl⟩ (h.wire.serves.resize rows scrolled)
      (fun _ => .inl) (fun _ => .inl) rfl rfl
  | emit extent body =>
    obtain ⟨hserves, f, hok, heq⟩ := h.wire.serves.emit hstep
    have hg : Grows s s' := by
      rw [heq]
      exact ⟨rfl, prefix_rfl, prefix_rfl⟩
    refine h.grows hg hserves (fun f' hf' => ?_) (fun a ha => .inl ?_) (by rw [heq]) (by rw [heq])
    · rw [heq] at hf'
      rcases List.mem_append.1 hf' with hf' | hf'
      · exact .inl hf'
      · exact .inr (List.mem_singleton.1 hf' ▸ hok.grows hg)
    · rw [heq] at ha
      exact ha
  | deliver i =>
    obtain ⟨f, hf, rfl⟩ := map_eq_some_iff.1 hstep
    have hfollows := Follows.deliver h.wire (List.mem_of_getElem? hf) h.follows
    refine ⟨⟨{ h.wire.serves with }, fun f' hf' => ?_, h.wire.acks⟩, ?_⟩
    · exact ⟨(h.wire.frames f' hf').epochAck, (h.wire.frames f' hf').extent, (h.wire.frames f' hf').body⟩
    · show Follows e opened past { s with
        client := (s.client.processFrame f).adoptEpoch e
        taken := s.taken ++ [f]
        firstExtent := s.firstExtent.or (countAt s.client f) }
      rw [adoptEpoch_of_eq hfollows.epoch]
      exact hfollows
  | ack =>
    obtain rfl := Option.some.inj hstep
    refine h.grows ⟨rfl, prefix_rfl, prefix_rfl⟩ { h.wire.serves with } (fun _ => .inl)
      (fun a ha => ?_) rfl rfl
    rcases List.mem_append.1 ha with ha | ha
    · exact .inl ha
    · rw [List.mem_singleton] at ha
      rw [ha]
      refine .inr fun hepoch => ?_
      have hin : s.client.sb2Epoch = some e := by
        cases hc : s.client.sb2Epoch with
        | none =>
          rw [hc] at hepoch
          exact absurd hepoch.symm he
        | some epoch =>
          rw [hc] at hepoch
          exact congrArg some hepoch
      have hle := h.follows.count_le
      rw [adoptEpoch_of_eq hin] at hle
      exact hle
  | deliverAck i now =>
    obtain ⟨a, ha, hstep⟩ := Option.bind_eq_some_iff.1 hstep
    simp only at hstep
    split at hstep
    case isTrue hsame =>
      obtain rfl := Option.some.inj hstep
      exact h.grows ⟨rfl, prefix_rfl, prefix_rfl⟩
        (h.wire.serves.onAck (h.wire.acks a (List.mem_of_getElem? ha)) hsame)
        (fun _ => .inl) (fun _ => .inl) rfl rfl
    case isFalse => cases hstep

theorem inv_exec (he : e ≠ 0) (h : Inv e opened past s)
    (hrun : Runs.exec step s as = some t) : Inv e opened past t :=
  Runs.exec_invariant (fun _ _ _ hi hs => inv_step he hi hs) h hrun

theorem client_step (hstep : step s a = some s') :
    s'.client = s.client ∨ ∃ f ∈ s.frames, s'.client = s.client.processFrame f := by
  cases a with
  | scroll | evict | resize | emit | ack => exact .inl (Option.some.inj hstep ▸ rfl)
  | deliver i =>
    obtain ⟨f, hf, rfl⟩ := map_eq_some_iff.1 hstep
    exact .inr ⟨f, List.mem_of_getElem? hf, rfl⟩
  | deliverAck i now =>
    obtain ⟨a, -, hstep⟩ := Option.bind_eq_some_iff.1 hstep
    simp only at hstep
    split at hstep
    · exact .inl (Option.some.inj hstep ▸ rfl)
    · cases hstep

theorem entered_exec (he : e ≠ 0) (h : Inv e opened past s)
    (hentered : s.client.sb2Epoch = some e) (hrun : Runs.exec step s as = some t) :
    Inv e opened past t ∧ t.client.sb2Epoch = some e := by
  refine Runs.exec_invariant (I := fun s => Inv e opened past s ∧ s.client.sb2Epoch = some e) ?_
    ⟨h, hentered⟩ hrun
  rintro s a s' ⟨hi, hin⟩ hstep
  refine ⟨inv_step he hi hstep, ?_⟩
  rcases client_step hstep with heq | ⟨f, hf, heq⟩
  · rw [heq, hin]
  · rw [heq]
    exact (Follows.deliver hi.wire hf hi.follows).epoch

/-- Where every frame carries an extent, the first one found the viewport at its entry. -/
def FirstSeen (e : UInt8) (opened : HistoryView) (s : HistoryStream) : Prop :=
  (s.taken = [] → (s.client.adoptEpoch e).sb2Rows = opened.sb2Rows ∧
    (s.firstExtent = none ∨ s.firstExtent = some opened.sb2Rows)) ∧
  (s.taken ≠ [] → (∀ f ∈ s.taken, f.extent.isSome) → s.firstExtent = some opened.sb2Rows)

theorem firstSeen_step (hw : Wire e s) (h : FirstSeen e opened s)
    (hstep : step s a = some s') : FirstSeen e opened s' := by
  cases a with
  | scroll | evict | resize | emit | ack => exact Option.some.inj hstep ▸ h
  | deliver i =>
    obtain ⟨f, hf, rfl⟩ := map_eq_some_iff.1 hstep
    refine ⟨fun hnil => absurd hnil (List.append_ne_nil_of_right_ne_nil _ (List.cons_ne_nil _ _)), ?_⟩
    intro _ hall
    show s.firstExtent.or (countAt s.client f) = _
    rcases List.eq_nil_or_concat s.taken with hnil | ⟨_, _, hne⟩
    · obtain ⟨hcount, hfirst⟩ := h.1 hnil
      rcases hfirst with hfirst | hfirst
      · obtain ⟨x, hx⟩ := Option.isSome_iff_exists.1
          (hall f (List.mem_append_right _ List.mem_cons_self))
        rw [hfirst, Option.none_or, countAt, hx, (hw.frames f (List.mem_of_getElem? hf)).epochAck]
        exact congrArg some hcount
      · rw [hfirst]
        rfl
    · have hold := h.2 (by rw [hne]; simp) fun f' hf' => hall f' (List.mem_append_left _ hf')
      rw [hold]
      rfl
  | deliverAck i now =>
    obtain ⟨a, -, hstep⟩ := Option.bind_eq_some_iff.1 hstep
    simp only at hstep
    split at hstep
    · exact Option.some.inj hstep ▸ h
    · cases hstep

/-! ### The account of an epoch -/

/-- An epoch begins: the cursor opens a row space, nothing is in flight, and the viewport either holds
another epoch, or none, or goes on in this one at the count the cursor was told. -/
structure Opening (e : UInt8) (s : HistoryStream) : Prop where
  cursor : s.cursor.Opens e s.first s.ring.total
  epoch_ne : e ≠ 0
  frames : s.frames = []
  taken : s.taken = []
  acks : s.acks = []
  numbered : s.numbered = []
  placed : s.client.scrollback.Placed
  client :
    (s.client.sb2Epoch ≠ some e ∧ s.first = 0 ∧ s.firstExtent = none) ∨
      (s.client.sb2Epoch = some e ∧ s.client.sb2Rows = s.first ∧ s.client.sb2Held.bodies = [] ∧
        s.client.floor ≤ s.first ∧ s.firstExtent = s.client.sb2Extent.map fun _ => s.first)

/-- **The account of the numbers below the viewport's count**: entry `i` of the ledger is the number
`opened.sb2Rows + i`, its row or lost, and the ring is what the ledger leaves of the ring at entry. -/
structure Accounts (opened : HistoryView) (s : HistoryStream) (l : List (Option Bytes)) : Prop where
  count : s.client.sb2Rows = opened.sb2Rows + l.length
  ring : s.client.scrollback = opened.scrollback.replay l
  shown : s.client.scrollback.shown <:+ opened.scrollback.shown ++ l
  row : ∀ i row, l[i]? = some (some row) → s.Numbered (opened.sb2Rows + i) row
  lost : ∀ i, l[i]? = some none → s.Lost (opened.sb2Rows + i)

theorem accounts_of_extends (hplaced : opened.scrollback.Placed)
    (h : HistoryView.Extends s.Numbered s.Lost opened s.client l) : Accounts opened s l where
  count := h.rows
  ring := h.ring
  shown := h.ring ▸ (ScrollbackRing.shown_replay hplaced l).2
  row := fun i _ hl => h.account i _ hl
  lost := fun i hl => h.account i _ hl

theorem inv_of_opening (h : Opening e s) : Inv e (s.client.adoptEpoch e) [] s := by
  have htotal : s.total = s.first := by rw [total, h.numbered]; rfl
  have hserves : Serves e s := by
    obtain ⟨hactive, hepoch, habs, hrel, hacked, hsent⟩ := h.cursor
    refine ⟨hactive, hepoch, ?_, habs.le, hrel.symm.le, ?_, ?_, fun r hr hlt => ?_⟩
    · rw [avail, habs, hrel, Nat.sub_self, Nat.add_zero, htotal]
    · rw [hsent, htotal]
    · rw [hacked, htotal]
    · have hle := anchorRel_le_floorRel.trans hr
      rw [htotal] at hlt
      omega
  refine ⟨⟨hserves, by simp [h.frames], by simp [h.acks]⟩, ?_⟩
  rcases h.client with ⟨hother, -, hfirst⟩ | ⟨hsame, hrows, hheld, hfloor, hfirst⟩
  · rw [adoptEpoch, if_pos hother]
    refine ⟨rfl, List.forall_mem_nil _, Nat.zero_le _, ?_, ?_, fun n _ hn => absurd hn (Nat.not_lt_zero n),
      [], prefix_rfl, .refl _⟩
    · show none.isSome = s.firstExtent.isSome
      rw [hfirst]
      rfl
    · show ∀ m, s.firstExtent = some m → _
      rw [hfirst]
      simp
  · rw [adoptEpoch_of_eq hsame]
    refine ⟨hsame, ?_, ?_, ?_, fun m hm => ?_, fun n hn hlt => ?_, [], prefix_rfl, .refl _⟩
    · intro b hb
      have hb' : b ∈ s.client.sb2Held.bodies := hb
      rw [hheld] at hb'
      cases hb'
    · exact (hrows.trans htotal.symm).le
    · show s.client.sb2Extent.isSome = s.firstExtent.isSome
      rw [hfirst, Option.isSome_map]
    · have hm' : s.firstExtent = some m := hm
      rw [hfirst] at hm'
      obtain ⟨-, -, rfl⟩ := map_eq_some_iff.1 hm'
      exact hrows.symm.le
    · have hn' : s.client.sb2Rows ≤ n := hn
      have hlt' : n < s.client.floor := hlt
      omega

theorem firstSeen_of_opening (h : Opening e s) : FirstSeen e (s.client.adoptEpoch e) s := by
  refine ⟨fun _ => ⟨rfl, ?_⟩, fun hne => absurd h.taken hne⟩
  rcases h.client with ⟨-, -, hfirst⟩ | ⟨hsame, hrows, -, -, hfirst⟩
  · exact .inl hfirst
  · rw [adoptEpoch_of_eq hsame, hrows, hfirst]
    cases s.client.sb2Extent with
    | none => exact .inl rfl
    | some x => exact .inr rfl

/-- **The history is complete within an epoch.**  At every moment of a run each number below the
viewport's count is accounted for by one entry of a ledger: the row of that number, appended in its
place, or a lost row, and then one that an extent reports evicted if an extent had been seen when it was
passed; so it is for every lost row where all frames that arrived carried an extent.  Later moments only
add to the ledger, so the count does not go back. -/
theorem history_complete {s₀ : HistoryStream} {as bs : List Act} (h₀ : Opening e s₀)
    (hrun : Runs.exec step s₀ as = some s) (hentered : s.client.sb2Epoch = some e)
    (hmore : Runs.exec step s bs = some t) :
    t.client.sb2Epoch = some e ∧ s.client.sb2Rows ≤ t.client.sb2Rows ∧
      ∃ l l', Accounts (s₀.client.adoptEpoch e) s l ∧ Accounts (s₀.client.adoptEpoch e) t (l ++ l') ∧
          ((∀ f ∈ t.taken, f.extent.isSome) → ∀ i, (l ++ l')[i]? = some none →
            t.Reported ((s₀.client.adoptEpoch e).sb2Rows + i)) := by
  have hplaced : (s₀.client.adoptEpoch e).scrollback.Placed := by
    unfold HistoryView.adoptEpoch
    split
    · exact ScrollbackRing.placed_clear
    · exact h₀.placed
  have hs := (inv_exec h₀.epoch_ne (inv_of_opening h₀) hrun)
  have hfollows := hs.follows
  rw [adoptEpoch_of_eq hentered] at hfollows
  obtain ⟨l, -, hl⟩ := hfollows.ledger
  have haccounts := accounts_of_extends hplaced hl
  have hs' : Inv e (s₀.client.adoptEpoch e) l s := by
    refine ⟨hs.wire, ?_⟩
    rw [adoptEpoch_of_eq hentered]
    exact { hfollows with ledger := ⟨l, List.prefix_rfl, hl⟩ }
  obtain ⟨ht, hin⟩ := entered_exec h₀.epoch_ne hs' hentered hmore
  have hfollows' := ht.follows
  rw [adoptEpoch_of_eq hin] at hfollows'
  obtain ⟨_, ⟨l', rfl⟩, hl'⟩ := hfollows'.ledger
  have haccounts' := accounts_of_extends hplaced hl'
  refine ⟨hin, ?_, l, l', haccounts, haccounts', fun hall i hi => ?_⟩
  · rw [haccounts.count, haccounts'.count, List.length_append]
    omega
  · have hseen : FirstSeen e (s₀.client.adoptEpoch e) t := by
      refine (Runs.exec_invariant
        (I := fun s => Inv e (s₀.client.adoptEpoch e) [] s ∧ FirstSeen e (s₀.client.adoptEpoch e) s)
        (fun _ _ _ h hstep => ⟨inv_step h₀.epoch_ne h.1 hstep, firstSeen_step h.1.wire h.2 hstep⟩)
        ⟨inv_of_opening h₀, firstSeen_of_opening h₀⟩
        (Runs.exec_append_eq_some.2 ⟨s, hrun, hmore⟩)).2
    have hlost := haccounts'.lost i hi
    by_cases hnil : t.taken = []
    · have hcount := (hseen.1 hnil).1
      rw [adoptEpoch_of_eq hin, haccounts'.count] at hcount
      have hlt := (List.getElem?_eq_some_iff.1 hi).1
      omega
    · exact hlost.2 _ (hseen.2 hnil hall) (Nat.le_add_right _ _)

/-- A fresh cursor and a viewport that holds no epoch. -/
def freshStart : HistoryStream where
  ring := { rows := [], total := 0 }
  cursor := (HistoryCursor.new (24, 80)).activate .fresh 0
  client := { scrollback := .new 100 }

theorem opening_freshStart : Opening 1 freshStart where
  cursor := opens_activate_fresh _ _
  epoch_ne := by decide
  frames := rfl
  taken := rfl
  acks := rfl
  numbered := rfl
  placed := ScrollbackRing.placed_new 100
  client := .inl ⟨nofun, rfl, rfl⟩

/-- The first body is lost and the second, of one row, arrives without an extent. -/
def lostBody : List Act :=
  [.scroll [97], .emit false (some (0, 100, 10)), .scroll [98], .emit false (some (1, 100, 10)), .deliver 1]

def lateExtent : List Act := [.emit true none, .deliver 2]

/-- The state after some actions. -/
def after (s : HistoryStream) (as : List Act) : HistoryStream := (Runs.exec step s as).getD s

theorem exec_lostBody : Runs.exec step freshStart lostBody = some (after freshStart lostBody) := by decide

theorem exec_lateExtent : Runs.exec step (after freshStart lostBody) lateExtent =
    some (after (after freshStart lostBody) lateExtent) := by decide

theorem history_complete_lostBody :
    (after (after freshStart lostBody) lateExtent).client.sb2Epoch = some 1 ∧
      (after freshStart lostBody).client.sb2Rows ≤
        (after (after freshStart lostBody) lateExtent).client.sb2Rows ∧
      ∃ l l', Accounts (freshStart.client.adoptEpoch 1) (after freshStart lostBody) l ∧
        Accounts (freshStart.client.adoptEpoch 1) (after (after freshStart lostBody) lateExtent)
          (l ++ l') ∧ ((∀ f ∈ (after (after freshStart lostBody) lateExtent).taken, f.extent.isSome) →
          ∀ i, (l ++ l')[i]? = some none → (after (after freshStart lostBody) lateExtent).Reported
              ((freshStart.client.adoptEpoch 1).sb2Rows + i)) :=
  history_complete opening_freshStart exec_lostBody (by decide) exec_lateExtent

/-- **A body lost before the first extent leaves a hole that no extent reports.** -/
theorem history_complete_fails :
    ¬∀ (e : UInt8) (s₀ s : HistoryStream) (as : List Act), Opening e s₀ →
      Runs.exec step s₀ as = some s → s.client.sb2Epoch = some e → ∃ l,
        Accounts (s₀.client.adoptEpoch e) s l ∧ (s.client.sb2Extent.isSome → ∀ i, l[i]? = some none →
            s.Reported ((s₀.client.adoptEpoch e).sb2Rows + i)) := by
  intro h
  have hrun := Runs.exec_append_eq_some.2 ⟨_, exec_lostBody, exec_lateExtent⟩
  obtain ⟨l, hl, hreported⟩ := h 1 freshStart _ _ opening_freshStart hrun (by decide)
  -- the ring shows one lost row and the row after it
  have hshown : (after (after freshStart lostBody) lateExtent).client.scrollback.shown =
      [none, some [98]] := by decide
  have hbefore : (freshStart.client.adoptEpoch 1).scrollback.shown = [] := by decide
  have hcount : (after (after freshStart lostBody) lateExtent).client.sb2Rows = 2 ∧
      (freshStart.client.adoptEpoch 1).sb2Rows = 0 := by decide
  have hlength : l.length = 2 := by
    have := hl.count
    omega
  have hledger := hl.shown
  rw [hshown, hbefore, List.nil_append] at hledger
  obtain rfl : [none, some [98]] = l := hledger.eq_of_length hlength.symm
  -- and no extent reports a row evicted
  obtain ⟨f, hf, x, hx, hlt⟩ := hreported (by decide) 0 rfl
  have hnone : ∀ f ∈ (after (after freshStart lostBody) lateExtent).taken,
      (f.extent.map Scrollback2Extent.evictedUpto).getD 0 = 0 := by decide
  have hzero := hnone f hf
  rw [hx, Option.map_some, Option.getD_some] at hzero
  omega

end HistoryStream

end Posh
