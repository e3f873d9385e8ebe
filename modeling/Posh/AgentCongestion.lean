/-
**The congestion window of the agent multiplexer, and when it is due again.**

The bytes that a multiplexer sends in one interval are bounded by a window.  The window rolls when the
interval is over: it grows when bytes were acknowledged in it, unless it was cut.  It is cut, once at most,
when bytes have to be sent again.  A channel that the window refuses bytes waits for the next one.

The poll loop does not look at the channels.  It asks for the next moment at which there is something to
send, which is computed apart from the sending: from the tombstones that owe an answer, the channels that
have something new, those that wait for the next window, and those that wait for an answer.  The two agree
because a channel that waits for the window was served in it, so that the interval after which it would be
sent again ends no earlier than the window.
-/

import Mathlib.Algebra.BigOperators.Group.List.Basic
import Posh.AgentMux

set_option autoImplicit false

namespace Posh

open List (mem_append mem_map)
open Keyed

namespace AgentChannelMux

/-! ### The next deadline -/

/-- A channel waits for an answer: to bytes, to its opening or to its ending. -/
def wants (ch : MuxChannel) : Bool :=
  !ch.outbox.isEmpty || ch.openUnconfirmed ||
    (ch.termFlag.isSome && decide (ch.termSends < termRetransmits))

/-- When a channel has something to send. -/
def dueAt (m : AgentChannelMux) (rto : ℕ) (ch : MuxChannel) : Option ℕ :=
  if ch.sendDue then some 0
  else if ch.budgetStarved then some (m.windowStart + rto)
  else if wants ch then some (ch.lastSend + backedOff rto ch.retxStreak)
  else none

/-- The earlier of two moments. -/
def fold (due : Option ℕ) (t : ℕ) : Option ℕ := some (due.elim t fun d => min d t)

/-- The earliest moment at which there is something to send. -/
def nextDeadline (m : AgentChannelMux) (rto : ℕ) : Option ℕ :=
  m.channels.foldl (fun due ch => (m.dueAt rto ch).elim due (fold due))
    (if m.closed.any (·.echoDue) then fold none 0 else none)

/-- It is `now`, or past. -/
def Reached (due : Option ℕ) (now : ℕ) : Prop := ∃ d, due = some d ∧ d ≤ now

theorem not_reached_none (now : ℕ) : ¬ Reached none now := nofun

theorem reached_some {d now : ℕ} : Reached (some d) now ↔ d ≤ now := by
  simp [Reached]

theorem reached_fold {due : Option ℕ} {t now : ℕ} : Reached (fold due t) now ↔ Reached due now ∨ t ≤ now := by
  cases due with
  | none => simp [fold, Reached]
  | some d => simp [fold, Reached]

theorem reached_foldl {now : ℕ} (f : MuxChannel → Option ℕ) :
    ∀ (l : List MuxChannel) (due : Option ℕ),
      Reached (l.foldl (fun due ch => (f ch).elim due (fold due)) due) now ↔
        Reached due now ∨ ∃ ch ∈ l, Reached (f ch) now := by
  intro l
  induction l with
  | nil => simp
  | cons ch l ih =>
    intro due
    rw [List.foldl_cons, ih]
    cases hf : f ch with
    | none => simp [hf, not_reached_none]
    | some t => simp [hf, reached_fold, reached_some, or_assoc]

theorem reached_nextDeadline {m : AgentChannelMux} {rto now : ℕ} : Reached (m.nextDeadline rto) now ↔
      (∃ t ∈ m.closed, t.echoDue = true) ∨ ∃ ch ∈ m.channels, Reached (m.dueAt rto ch) now := by
  rw [nextDeadline, reached_foldl]
  refine or_congr_left ?_
  rw [← List.any_eq_true]
  split
  case isTrue h => simp [h, fold, reached_some]
  case isFalse h => simp [h, not_reached_none]

/-! ### When something is sent -/

section Emission

variable {m : AgentChannelMux} {now rto : ℕ} {ch : MuxChannel}

/-- A channel is served. -/
def fires (now rto : ℕ) (ch : MuxChannel) : Bool :=
  ch.sendDue || (wants ch && decide (now - ch.lastSend ≥ backedOff rto ch.retxStreak))

theorem service_of_fires (h : fires now rto ch = true) : ∃ q, (m.service now rto ch).2.2 = some q := by
  unfold service
  simp only
  rw [if_pos (by simpa [fires, wants] using h)]
  exact ⟨_, rfl⟩

theorem service_of_not_fires (h : fires now rto ch = false) : m.service now rto ch = (m, ch, none) := by
  simp only [fires, wants, Bool.or_eq_false_iff] at h
  unfold service
  simp only [h.1, h.2, Bool.false_and, Bool.or_false, Bool.false_eq_true, if_false]

theorem drain_eq_nil : ∀ (l : List MuxChannel) (m : AgentChannelMux),
    (drain now rto m l).2 = [] ↔ ∀ ch ∈ l, fires now rto ch = false := by
  intro l
  induction l with
  | nil => exact fun m => iff_of_true rfl nofun
  | cons ch l ih =>
    intro m
    unfold drain
    simp only [List.append_eq_nil_iff, List.map_eq_nil_iff, Option.toList_eq_nil_iff, ih,
      List.forall_mem_cons]
    refine and_congr_left fun _ => ?_
    constructor
    · intro hnone
      by_contra hfires
      obtain ⟨q, hq⟩ := service_of_fires (m := m) (Bool.eq_true_of_not_eq_false hfires)
      rw [hq] at hnone
      cases hnone
    · intro hfires
      rw [service_of_not_fires hfires]

theorem echoes_eq_nil : m.echoes = [] ↔ ∀ t ∈ m.closed, t.echoDue = false := by
  simp [echoes, List.filter_eq_nil_iff]

theorem outgoing_eq_nil : (m.outgoing now rto).2 = [] ↔ (∀ t ∈ m.closed, t.echoDue = false) ∧
      ∀ ch ∈ (m.rollWindow now rto).channels, fires now rto ch = false := by
  have hclosed : (m.rollWindow now rto).closed = m.closed := by
    unfold rollWindow
    split <;> rfl
  unfold outgoing
  simp only [List.append_eq_nil_iff, echoes_eq_nil, drain_eq_nil, hclosed, (perm_rotateLeft _).mem_iff]

end Emission

/-! ### The deadline is exact -/

/-- A channel that waits for the window was served in it. -/
structure Paced (m : AgentChannelMux) (clock : ℕ) : Prop where
  started : m.windowStart ≤ clock
  starved : ∀ ch ∈ m.channels, ch.budgetStarved = true → m.windowStart ≤ ch.lastSend

section Deadline

variable {m : AgentChannelMux} {now rto clock : ℕ} {ch : MuxChannel}

theorem le_backedOff (rto streak : ℕ) : rto ≤ backedOff rto streak :=
  Nat.le_mul_of_pos_right _ (Nat.two_pow_pos _)

/-- A channel when the window rolls. -/
def refilled (ch : MuxChannel) : MuxChannel :=
  if ch.budgetStarved then { ch with budgetStarved := false, sendDue := true } else ch

theorem refilled_of_not_starved (h : ch.budgetStarved = false) : refilled ch = ch := by
  simp [refilled, h]

theorem rollWindow_channels : (m.rollWindow now rto).channels =
    m.channels.map fun ch => if now - m.windowStart ≥ rto then refilled ch else ch := by
  unfold rollWindow
  split
  case isTrue => rfl
  case isFalse => rw [List.map_id']

/-- **A channel is served at the moment it is due**, and at every later one. -/
theorem fires_iff_due (hrto : 0 < rto) (hstarved : ch.budgetStarved = true → m.windowStart ≤ ch.lastSend) :
    fires now rto (if now - m.windowStart ≥ rto then refilled ch else ch) = true ↔
      Reached (m.dueAt rto ch) now := by
  have hback := le_backedOff rto ch.retxStreak
  cases hdue : ch.sendDue with
  | true =>
    refine iff_of_true ?_ (by simp [dueAt, hdue, reached_some])
    unfold refilled
    split
    · split <;> simp [fires, hdue]
    · simp [fires, hdue]
  | false =>
    cases hst : ch.budgetStarved with
    | true =>
      have hserved := hstarved hst
      rw [dueAt, hdue, hst, if_neg Bool.false_ne_true, if_pos rfl, reached_some]
      split
      case isTrue hroll =>
        refine iff_of_true ?_ (by omega)
        simp [fires, refilled, hst]
      case isFalse hroll =>
        -- the interval of the channel ends no earlier than the window in which it was served
        have hearly : ¬ now - ch.lastSend ≥ backedOff rto ch.retxStreak := by omega
        refine iff_of_false ?_ (by omega)
        simp [fires, hdue, hearly]
    | false =>
      have hsame : (if now - m.windowStart ≥ rto then refilled ch else ch) = ch := by
        rw [refilled_of_not_starved hst, ite_self]
      rw [hsame, dueAt, hdue, hst, if_neg Bool.false_ne_true, if_neg Bool.false_ne_true]
      cases hwants : wants ch with
      | true =>
        rw [if_pos rfl, reached_some]
        simp only [fires, hdue, hwants, Bool.true_and, Bool.false_or, decide_eq_true_eq]
        omega
      | false =>
        rw [if_neg Bool.false_ne_true]
        exact iff_of_false (by simp [fires, hdue, hwants]) (not_reached_none now)

/-- **Something is sent exactly when it is due.** -/
theorem outgoing_ne_nil_iff (hrto : 0 < rto) (h : m.Paced clock) :
    (m.outgoing now rto).2 ≠ [] ↔ Reached (m.nextDeadline rto) now := by
  rw [ne_eq, outgoing_eq_nil, reached_nextDeadline, not_and_or]
  refine or_congr (by simp) ?_
  rw [rollWindow_channels]
  simp only [List.forall_mem_map, not_forall, Bool.not_eq_false, exists_prop]
  refine exists_congr fun ch => and_congr_right fun hch => ?_
  exact fires_iff_due hrto (h.starved ch hch)

end Deadline

/-! ### Sending nothing -/

section Silence

variable {m : AgentChannelMux} {now rto : ℕ}

theorem drain_silent (now rto : ℕ) : ∀ (l : List MuxChannel) (m : AgentChannelMux), (drain now rto m l).2 = [] →
    (drain now rto m l).1.windowStart = m.windowStart ∧
      (∀ ch ∈ (drain now rto m l).1.channels, ch ∈ m.channels ∨ ch ∈ l) ∧
        ∀ t ∈ (drain now rto m l).1.closed, t ∈ m.closed ∨ t.echoDue = false := by
  intro l
  induction l with
  | nil => exact fun m _ => ⟨rfl, fun ch hch => .inl hch, fun t ht => .inl ht⟩
  | cons ch l ih =>
    intro m hnil
    have hquiet := (drain_eq_nil (ch :: l) m).1 hnil
    have hserve := service_of_not_fires (m := m) (hquiet ch (.head l))
    have hrest : ∀ m' : AgentChannelMux, (drain now rto m' l).2 = [] := fun m' =>
      (drain_eq_nil l m').2 fun x hx => hquiet x (.tail ch hx)
    unfold drain
    simp only [hserve]
    cases retires ch with
    | some flag =>
      obtain ⟨hstart, hchannels, hclosed⟩ := ih _ (hrest (m.tombstone
        { id := ch.id, flag, finalBase := ch.outbox.endOffset, finalAck := ch.inbox.nextOffset,
          echoDue := false }))
      refine ⟨hstart, fun x hx => ?_, fun t ht => ?_⟩
      · exact (hchannels x hx).imp_right (.tail ch)
      · rcases hclosed t ht with ht | ht
        · unfold tombstone at ht
          rcases mem_append.1 ht with ht | ht
          · refine .inl ?_
            split at ht
            · exact List.mem_of_mem_tail ht
            · exact ht
          · rw [List.mem_singleton.1 ht]
            exact .inr rfl
        · exact .inr ht
    | none =>
      obtain ⟨hstart, hchannels, hclosed⟩ := ih _ (hrest { m with channels := m.channels ++ [ch] })
      refine ⟨hstart, fun x hx => ?_, hclosed⟩
      rcases hchannels x hx with hx | hx
      · rcases mem_append.1 hx with hx | hx
        · exact .inl hx
        · rw [List.mem_singleton.1 hx]
          exact .inr (.head l)
      · exact .inr (.tail ch hx)

/-- **Where nothing was sent, nothing is due any earlier.** -/
theorem outgoing_silent {later : ℕ} (hnil : (m.outgoing now rto).2 = [])
    (hdue : Reached ((m.outgoing now rto).1.nextDeadline rto) later) : Reached (m.nextDeadline rto) later := by
  obtain ⟨hquiet, hchannels⟩ := outgoing_eq_nil.1 hnil
  obtain ⟨hstart, hkept, hclosed⟩ := drain_silent now rto
    ((m.rollWindow now rto).channels.rotateLeft 1)
    { (m.rollWindow now rto).echoed with channels := [] }
    ((drain_eq_nil _ _).2 fun ch hch => hchannels ch ((perm_rotateLeft _).mem_iff.1 hch))
  rw [reached_nextDeadline] at hdue ⊢
  rcases hdue with ⟨t, ht, howes⟩ | ⟨ch, hch, hdue⟩
  · rcases hclosed t ht with ht | ht
    · obtain ⟨u, _, rfl⟩ := mem_map.1 ht
      cases howes
    · rw [ht] at howes
      cases howes
  · right
    rcases hkept ch hch with hmem | hmem
    · cases hmem
    · have hrolled := (perm_rotateLeft _).mem_iff.1 hmem
      have hfires := hchannels ch hrolled
      rw [rollWindow_channels] at hrolled
      obtain ⟨x, hx, hxch⟩ := mem_map.1 hrolled
      -- a channel that waited for the window would be served when it rolls
      have hnot : now - m.windowStart ≥ rto → x.budgetStarved = false := by
        intro hroll
        by_contra hst
        rw [if_pos hroll, refilled, if_pos (Bool.eq_true_of_not_eq_false hst)] at hxch
        rw [← hxch] at hfires
        cases hfires
      have hsame : x = ch := by
        rw [← hxch]
        split
        case isTrue hroll => exact (refilled_of_not_starved (hnot hroll)).symm
        case isFalse => rfl
      subst hsame
      refine ⟨x, hx, ?_⟩
      have hwindow : (m.outgoing now rto).1.windowStart = (m.rollWindow now rto).windowStart := hstart
      unfold dueAt at hdue ⊢
      rw [hwindow] at hdue
      cases hst : x.budgetStarved with
      | false =>
        rw [hst] at hdue
        exact hdue
      | true =>
        have hroll : ¬ now - m.windowStart ≥ rto := fun hroll => by
          rw [hnot hroll] at hst
          cases hst
        have hkeep : (m.rollWindow now rto).windowStart = m.windowStart := by
          rw [rollWindow, if_neg hroll]
        rw [hkeep, hst] at hdue
        exact hdue

end Silence

/-! ### The window -/

/-- The data bytes among some instructions. -/
def dataLen (l : List (ChannelId × AgentPayload)) : ℕ := (l.map fun x => x.2.data.length).sum

theorem dataLen_append (l l' : List (ChannelId × AgentPayload)) : dataLen (l ++ l') = dataLen l + dataLen l' := by
  rw [dataLen, List.map_append, List.sum_append]
  rfl

/-- **The window**: it was `peak` wide when it rolled and had been cut `cutsBefore` times, it was cut once
since, or not at all, and `sent` bytes went out, no more than it was wide unless it was at its limit. -/
structure Window (m : AgentChannelMux) (peak cutsBefore sent : ℕ) : Prop where
  floor : cwndFloor ≤ peak
  ceiling : peak ≤ cwndMax
  used : m.windowUsed = sent
  within : peak < cwndMax → sent ≤ peak
  uncut : m.windowCut = false → m.cwnd = peak ∧ m.cuts = cutsBefore
  cut : m.windowCut = true → m.cwnd = max (peak / 2) cwndFloor ∧ m.cuts = cutsBefore + 1

/-- Serving channels leaves the interval as it is, and never widens the window. -/
structure SameInterval (m m' : AgentChannelMux) : Prop where
  windowStart : m'.windowStart = m.windowStart
  windowProgress : m'.windowProgress = m.windowProgress
  cwnd : m'.cwnd ≤ m.cwnd

section Window

variable {m m' : AgentChannelMux} {peak cutsBefore sent now rto clock : ℕ} {ch : MuxChannel}

theorem Window.bounds (h : m.Window peak cutsBefore sent) : cwndFloor ≤ m.cwnd ∧ m.cwnd ≤ peak := by
  have hfloor := h.floor
  cases hcut : m.windowCut with
  | false => rw [(h.uncut hcut).1]; exact ⟨hfloor, Nat.le_refl _⟩
  | true => rw [(h.cut hcut).1]; omega

theorem Window.congr (h : m.Window peak cutsBefore sent) (hcwnd : m'.cwnd = m.cwnd)
    (hused : m'.windowUsed = m.windowUsed) (hcut : m'.windowCut = m.windowCut) (hcuts : m'.cuts = m.cuts) :
    m'.Window peak cutsBefore sent where
  floor := h.floor
  ceiling := h.ceiling
  used := hused.trans h.used
  within := h.within
  uncut := by rw [hcut, hcwnd, hcuts]; exact h.uncut
  cut := by rw [hcut, hcwnd, hcuts]; exact h.cut

theorem Window.backOff (h : m.Window peak cutsBefore sent) (ch : MuxChannel) (unacked : Bool) :
    (m.backOff ch unacked).1.Window peak cutsBefore sent := by
  unfold AgentChannelMux.backOff
  simp only
  split
  case isTrue hcut =>
    simp only [Bool.and_eq_true, Bool.not_eq_true'] at hcut
    obtain ⟨hcwnd, hcuts⟩ := h.uncut hcut.2
    exact ⟨h.floor, h.ceiling, h.used, h.within, nofun, fun _ => ⟨by rw [hcwnd], by rw [hcuts]⟩⟩
  case isFalse => exact h.congr rfl rfl rfl rfl

theorem Window.emit (h : m.Window peak cutsBefore sent) (now : ℕ) (ch : MuxChannel) :
    (m.emit now ch).1.Window peak cutsBefore (sent + (m.emit now ch).2.2.data.length) := by
  have hle := h.bounds.2
  have hused := h.used
  have hwithin := h.within
  unfold AgentChannelMux.emit
  simp only
  generalize htake : (if m.cwnd < cwndMax then
    min (min ch.outbox.pending.length agentInstructionDataMax) (m.cwnd - m.windowUsed)
    else min ch.outbox.pending.length agentInstructionDataMax) = take
  have hlen : (ch.outbox.pending.take take).length = take := by
    rw [List.length_take]
    split at htake <;> omega
  refine ⟨h.floor, h.ceiling, ?_, ?_, h.uncut, h.cut⟩
  · show m.windowUsed + take = _
    rw [hused, hlen]
  · intro hpeak
    have hsent := hwithin hpeak
    rw [if_pos (by omega)] at htake
    rw [hlen]
    omega

theorem Window.service (h : m.Window peak cutsBefore sent) (now rto : ℕ) (ch : MuxChannel) :
    (m.service now rto ch).1.Window peak cutsBefore
      (sent + (m.service now rto ch).2.2.elim 0 (·.data.length)) := by
  have hback : ∀ (b unacked : Bool),
      (if b then m.backOff ch unacked else (m, ch)).1.Window peak cutsBefore sent := by
    intro b unacked
    split
    · exact h.backOff ch unacked
    · exact h
  unfold AgentChannelMux.service
  simp only
  generalize hb : (_ && m.congestion) = b
  split
  · exact (hback b _).emit now _
  · exact hback b _

theorem service_paced (rto : ℕ) (hstart : m.windowStart ≤ now) (hfloor : cwndFloor ≤ m.cwnd)
    (h : ch.budgetStarved = true → m.windowStart ≤ ch.lastSend) :
    SameInterval m (m.service now rto ch).1 ∧ ((m.service now rto ch).2.1.budgetStarved = true →
        m.windowStart ≤ (m.service now rto ch).2.1.lastSend) := by
  cases hfires : fires now rto ch with
  | false =>
    rw [service_of_not_fires hfires]
    exact ⟨⟨rfl, rfl, Nat.le_refl _⟩, h⟩
  | true =>
    have hback : ∀ (b unacked : Bool), SameInterval m (if b then m.backOff ch unacked else (m, ch)).1 := by
      intro b unacked
      split
      · unfold backOff
        simp only
        split
        · exact ⟨rfl, rfl, Nat.max_le.2 ⟨Nat.div_le_self _ _, hfloor⟩⟩
        · exact ⟨rfl, rfl, Nat.le_refl _⟩
      · exact ⟨rfl, rfl, Nat.le_refl _⟩
    unfold service
    simp only
    rw [if_pos (by simpa [fires, wants] using hfires)]
    obtain ⟨hinterval, hprogress, hcwnd⟩ := hback (wants ch && decide (now - ch.lastSend ≥
      backedOff rto ch.retxStreak) && !ch.sendDue && m.congestion) (!ch.outbox.isEmpty)
    exact ⟨⟨hinterval, hprogress, hcwnd⟩, fun _ => hstart⟩

/-- **Draining is within the window**, and leaves the channels paced by it. -/
theorem drain_spec (rto : ℕ) : ∀ (l : List MuxChannel) {m : AgentChannelMux} {sent : ℕ},
    m.Window peak cutsBefore sent → m.Paced now →
    (∀ ch ∈ l, ch.budgetStarved = true → m.windowStart ≤ ch.lastSend) →
      (drain now rto m l).1.Window peak cutsBefore (sent + dataLen (drain now rto m l).2) ∧
        (drain now rto m l).1.Paced now ∧ SameInterval m (drain now rto m l).1 := by
  intro l
  induction l with
  | nil => exact fun hw hp _ => ⟨hw, hp, rfl, rfl, Nat.le_refl _⟩
  | cons ch l ih =>
    intro m sent hw hp hl
    obtain ⟨⟨hstart, hprogress, hcwnd⟩, hserved⟩ := service_paced rto hp.started hw.bounds.1 (hl ch (.head l))
    have hw' := hw.service now rto ch
    have hkeeps := (m.service_serves now rto ch).channels
    unfold drain
    simp only
    generalize m.service now rto ch = r at *
    -- the channel goes back to the others, or retires
    have hnext : ∀ m' : AgentChannelMux, m'.Window peak cutsBefore
        (sent + r.2.2.elim 0 (·.data.length)) → SameInterval r.1 m' →
        (∀ x ∈ m'.channels, x ∈ m.channels ∨ x = r.2.1) → (drain now rto m' l).1.Window peak cutsBefore
            (sent + dataLen (r.2.2.toList.map (Prod.mk ch.id) ++ (drain now rto m' l).2)) ∧
          (drain now rto m' l).1.Paced now ∧ SameInterval m (drain now rto m' l).1 := by
      intro m' hwindow hsame hchannels
      have hstart' : m'.windowStart = m.windowStart := hsame.windowStart.trans hstart
      have hp' : m'.Paced now := by
        refine ⟨hstart' ▸ hp.started, fun x hx hst => ?_⟩
        rw [hstart']
        rcases hchannels x hx with hx | rfl
        · exact hp.starved x hx hst
        · exact hserved hst
      obtain ⟨hdw, hdp, hds⟩ := ih hwindow hp' fun x hx hst => hstart' ▸ hl x (.tail ch hx) hst
      refine ⟨?_, hdp, hds.windowStart.trans hstart',
        hds.windowProgress.trans (hsame.windowProgress.trans hprogress),
        hds.cwnd.trans (hsame.cwnd.trans hcwnd)⟩
      rw [dataLen_append, ← Nat.add_assoc]
      cases hq : r.2.2 with
      | none => rw [hq] at hdw; exact hdw
      | some q => rw [hq] at hdw; exact hdw
    split
    · refine hnext _ (hw'.congr rfl rfl rfl rfl) ⟨rfl, rfl, Nat.le_refl _⟩ fun x hx => .inl ?_
      exact hkeeps ▸ hx
    · refine hnext _ (hw'.congr rfl rfl rfl rfl) ⟨rfl, rfl, Nat.le_refl _⟩ fun x hx => ?_
      rcases mem_append.1 hx with hx | hx
      · exact .inl (hkeeps ▸ hx)
      · exact .inr (List.mem_singleton.1 hx)

theorem rollWindow_rolled (hroll : now - m.windowStart ≥ rto) (h : m.Window peak cutsBefore sent) :
    (m.rollWindow now rto).Window (m.rollWindow now rto).cwnd m.cuts 0 ∧
      (m.rollWindow now rto).Paced now ∧ (m.rollWindow now rto).windowProgress = false := by
  have hfloor := h.bounds.1
  have hle := h.bounds.2
  have hceiling := h.ceiling
  have hwidth : cwndFloor ≤ (m.rollWindow now rto).cwnd ∧ (m.rollWindow now rto).cwnd ≤ cwndMax := by
    have hlimit : cwndFloor ≤ cwndMax := by decide
    rw [rollWindow, if_pos hroll]
    dsimp only
    split <;> omega
  refine ⟨⟨hwidth.1, hwidth.2, ?_, fun _ => Nat.zero_le _, fun _ => ⟨rfl, ?_⟩, fun hcut => ?_⟩,
    ⟨?_, fun ch hch hst => ?_⟩, ?_⟩
  · rw [rollWindow, if_pos hroll]
  · rw [rollWindow, if_pos hroll]
  · rw [rollWindow, if_pos hroll] at hcut
    cases hcut
  · rw [rollWindow, if_pos hroll]
  · rw [rollWindow_channels] at hch
    obtain ⟨x, _, rfl⟩ := mem_map.1 hch
    rw [if_pos hroll] at hst
    unfold refilled at hst
    split at hst
    case isTrue => cases hst
    case isFalse hx => exact absurd hst hx
  · rw [rollWindow, if_pos hroll]

theorem rollWindow_of_not (hroll : ¬ now - m.windowStart ≥ rto) : m.rollWindow now rto = m := by
  rw [rollWindow, if_neg hroll]

theorem rollWindow_grows (h : m.cwnd < (m.rollWindow now rto).cwnd) :
    rto ≤ now - m.windowStart ∧ m.windowProgress = true ∧ m.windowCut = false := by
  unfold rollWindow at h
  split at h
  case isFalse => exact absurd h (Nat.lt_irrefl _)
  case isTrue hroll =>
    simp only at h
    split at h
    case isFalse => exact absurd h (Nat.lt_irrefl _)
    case isTrue hgrow =>
      simp only [Bool.and_eq_true, Bool.not_eq_true'] at hgrow
      exact ⟨hroll, hgrow.2, hgrow.1⟩

theorem dataLen_echoes (m : AgentChannelMux) : dataLen m.echoes = 0 := by
  refine List.sum_eq_zero fun n hn => ?_
  obtain ⟨x, hx, rfl⟩ := mem_map.1 hn
  obtain ⟨t, _, rfl⟩ := mem_map.1 hx
  rfl

theorem outgoing_spec (hw : (m.rollWindow now rto).Window peak cutsBefore sent)
    (hp : (m.rollWindow now rto).Paced now) :
    (m.outgoing now rto).1.Window peak cutsBefore (sent + dataLen (m.outgoing now rto).2) ∧
      (m.outgoing now rto).1.Paced now ∧ SameInterval (m.rollWindow now rto) (m.outgoing now rto).1 := by
  have hempty : { (m.rollWindow now rto).echoed with channels := [] }.Paced now :=
    ⟨hp.started, nofun⟩
  have hdrain := drain_spec rto ((m.rollWindow now rto).channels.rotateLeft 1)
    (m := { (m.rollWindow now rto).echoed with channels := [] }) (hw.congr rfl rfl rfl rfl) hempty
    fun ch hch => hp.starved ch ((perm_rotateLeft _).mem_iff.1 hch)
  unfold outgoing
  simp only [dataLen_append, dataLen_echoes, Nat.zero_add]
  obtain ⟨hw', hp', hsame⟩ := hdrain
  exact ⟨hw', hp', hsame.windowStart, hsame.windowProgress, hsame.cwnd⟩

end Window

/-! ### Records and instructions -/

/-- **What records and instructions leave alone**: the window, and what paces the channels. -/
structure Untimed (m m' : AgentChannelMux) : Prop where
  cwnd : m'.cwnd = m.cwnd
  windowUsed : m'.windowUsed = m.windowUsed
  windowCut : m'.windowCut = m.windowCut
  cuts : m'.cuts = m.cuts
  windowStart : m'.windowStart = m.windowStart
  starved : ∀ x ∈ m'.channels, x.budgetStarved = true →
    ∃ y ∈ m.channels, y.budgetStarved = true ∧ y.lastSend = x.lastSend

section Untimed

variable {m m' m'' : AgentChannelMux} {peak cutsBefore sent clock : ℕ}

theorem Untimed.refl (m : AgentChannelMux) : m.Untimed m :=
  ⟨rfl, rfl, rfl, rfl, rfl, fun x hx hst => ⟨x, hx, hst, rfl⟩⟩

theorem Untimed.trans (h : m.Untimed m') (h' : m'.Untimed m'') : m.Untimed m'' where
  cwnd := h'.cwnd.trans h.cwnd
  windowUsed := h'.windowUsed.trans h.windowUsed
  windowCut := h'.windowCut.trans h.windowCut
  cuts := h'.cuts.trans h.cuts
  windowStart := h'.windowStart.trans h.windowStart
  starved := by
    intro x hx hst
    obtain ⟨y, hy, hyst, hyx⟩ := h'.starved x hx hst
    obtain ⟨z, hz, hzst, hzy⟩ := h.starved y hy hyst
    exact ⟨z, hz, hzst, hzy.trans hyx⟩

theorem Untimed.window (h : m.Untimed m') (hw : m.Window peak cutsBefore sent) : m'.Window peak cutsBefore sent :=
  hw.congr h.cwnd h.windowUsed h.windowCut h.cuts

theorem Untimed.paced (h : m.Untimed m') (hp : m.Paced clock) : m'.Paced clock where
  started := h.windowStart ▸ hp.started
  starved := by
    intro x hx hst
    obtain ⟨y, hy, hyst, hyx⟩ := h.starved x hx hst
    rw [h.windowStart, ← hyx]
    exact hp.starved y hy hyst

theorem untimed_updateFirst {p : MuxChannel → Bool} {f : MuxChannel → MuxChannel}
    (hf : ∀ x ∈ m.channels, (f x).budgetStarved = x.budgetStarved ∧ (f x).lastSend = x.lastSend) :
    m.Untimed { m with channels := updateFirst p f m.channels } := by
  refine ⟨rfl, rfl, rfl, rfl, rfl, fun x hx hst => ?_⟩
  rcases mem_updateFirst hx with hx | ⟨y, hy, rfl⟩
  · exact ⟨x, hx, hst, rfl⟩
  · obtain ⟨hstarved, hlast⟩ := hf y hy
    exact ⟨y, hy, hstarved ▸ hst, hlast.symm⟩

theorem untimed_append (ch : MuxChannel) (hch : ch.budgetStarved = false) :
    m.Untimed { m with channels := m.channels ++ [ch] } := by
  refine ⟨rfl, rfl, rfl, rfl, rfl, fun x hx hst => ?_⟩
  rcases mem_append.1 hx with hx | hx
  · exact ⟨x, hx, hst, rfl⟩
  · rw [List.mem_singleton.1 hx, hch] at hst
    cases hst

theorem untimed_queueRecord (m : AgentChannelMux) (rec : AgentRecord) :
    m.Untimed (m.queueRecord rec) ∧ (m.queueRecord rec).windowProgress = m.windowProgress := by
  unfold queueRecord
  split
  case h_1 =>
    split
    · exact ⟨.refl m, rfl⟩
    · have happ := untimed_append (m := m) (.new (m.alloc.next kindAgent).1 rec.channel true) rfl
      exact ⟨⟨rfl, rfl, rfl, rfl, rfl, happ.starved⟩, rfl⟩
  case h_2 => exact ⟨untimed_updateFirst fun _ _ => ⟨rfl, rfl⟩, rfl⟩
  all_goals
    refine ⟨untimed_updateFirst fun x _ => ?_, rfl⟩
    split <;> exact ⟨rfl, rfl⟩

theorem untimed_queueRecords : ∀ (records : List AgentRecord) (m : AgentChannelMux),
    m.Untimed (m.queueRecords records) ∧ (m.queueRecords records).windowProgress = m.windowProgress := by
  intro records
  induction records with
  | nil => exact fun m => ⟨.refl m, rfl⟩
  | cons rec records ih =>
    intro m
    obtain ⟨hfirst, hprogress⟩ := untimed_queueRecord m rec
    obtain ⟨hrest, hprogress'⟩ := ih (m.queueRecord rec)
    exact ⟨hfirst.trans hrest, hprogress'.trans hprogress⟩

theorem untimed_hear {ch : MuxChannel} (hch : ch ∈ m.channels) (p : AgentPayload)
    (out : List AgentRecord) : m.Untimed (m.hear ch p out).1 ∧
      (m.hear ch p out).1.windowProgress = (m.windowProgress || progress ch p) := by
  unfold hear
  simp only
  split
  · refine ⟨⟨rfl, rfl, rfl, rfl, rfl, fun x hx hst => ?_⟩, rfl⟩
    exact ⟨x, List.mem_of_mem_eraseP hx, hst, rfl⟩
  · refine ⟨⟨rfl, rfl, rfl, rfl, rfl, fun x hx hst => ?_⟩, rfl⟩
    rcases mem_updateFirst hx with hx | ⟨y, _, rfl⟩
    · exact ⟨x, hx, hst, rfl⟩
    · exact ⟨ch, hch, hst, rfl⟩

theorem progress_new (id : ChannelId) (recId : UInt32) (opener : Bool) (p : AgentPayload) :
    progress (.new id recId opener) p = false := by
  have hbase : (InputOutbox.new.ack p.recvAck).base = 0 := by
    unfold InputOutbox.ack
    split <;> simp [InputOutbox.new]
  show decide ((InputOutbox.new.ack p.recvAck).base > 0) = false
  rw [hbase]
  rfl

/-- The instruction acknowledges bytes of a live channel. -/
def acknowledges (m : AgentChannelMux) (id : ChannelId) (payload : Bytes) : Bool :=
  match AgentPayload.decode payload with
  | .error _ => false
  | .ok p =>
    !p.hasUnknownFlags && (Keyed.lookup Tombstone.id m.closed id).isNone &&
      (Keyed.lookup MuxChannel.id m.channels id).any fun ch => progress ch p

theorem untimed_receive (m : AgentChannelMux) (id : ChannelId) (p : AgentPayload) :
    m.Untimed (m.receive id p).1 ∧ (m.receive id p).1.windowProgress =
      (m.windowProgress || (!p.hasUnknownFlags && (lookup Tombstone.id m.closed id).isNone &&
        (lookup MuxChannel.id m.channels id).any fun ch => progress ch p)) := by
  unfold receive
  split
  case isTrue hunknown => simp [hunknown, Untimed.refl]
  case isFalse hunknown =>
    split
    case isTrue hclosed =>
      have hnone : (lookup Tombstone.id m.closed id).isNone = false := by
        rw [← Option.not_isSome, hclosed]
        rfl
      rw [hnone, Bool.and_false, Bool.false_and, Bool.or_false]
      show m.Untimed (if p.ends then m else m.reanswer id) ∧ _
      dsimp only
      split
      · exact ⟨.refl m, rfl⟩
      · exact ⟨⟨rfl, rfl, rfl, rfl, rfl, (Untimed.refl m).starved⟩, rfl⟩
    case isFalse hclosed =>
      have hnone : (lookup Tombstone.id m.closed id).isNone = true := by
        rw [← Option.not_isSome, Bool.eq_false_of_not_eq_true hclosed]
        rfl
      rw [hnone, Bool.eq_false_of_not_eq_true hunknown, Bool.not_false, Bool.true_and, Bool.true_and]
      cases hfound : lookup MuxChannel.id m.channels id with
      | some ch => exact untimed_hear (mem_of_lookup hfound) p []
      | none =>
        rw [Option.any_none, Bool.or_false]
        simp only
        split
        · exact ⟨.refl m, rfl⟩
        · unfold adopt
          split
          · exact ⟨⟨rfl, rfl, rfl, rfl, rfl, (Untimed.refl m).starved⟩, rfl⟩
          · have happ := untimed_append (m := m) (.new id m.nextRecId false) rfl
            have hopened : m.Untimed { m with
                nextRecId := m.nextRecId + 1
                channels := m.channels ++ [.new id m.nextRecId false] } :=
              ⟨rfl, rfl, rfl, rfl, rfl, happ.starved⟩
            obtain ⟨hheard, hprogress⟩ := untimed_hear (m := { m with
                nextRecId := m.nextRecId + 1
                channels := m.channels ++ [.new id m.nextRecId false] })
              (List.mem_append_right _ (List.mem_singleton_self _)) p
              [{ channel := m.nextRecId, kind := .open, payload := [] }]
            refine ⟨hopened.trans hheard, hprogress.trans ?_⟩
            rw [progress_new, Bool.or_false]

theorem untimed_onInstruction (m : AgentChannelMux) (id : ChannelId) (payload : Bytes) :
    m.Untimed (m.onInstruction id payload).1 ∧ (m.onInstruction id payload).1.windowProgress =
      (m.windowProgress || m.acknowledges id payload) := by
  unfold onInstruction acknowledges
  cases AgentPayload.decode payload with
  | error e => exact ⟨.refl m, (Bool.or_false _).symm⟩
  | ok p => exact untimed_receive m id p

end Untimed

end AgentChannelMux

/-! ### A multiplexer in use -/

/-- A multiplexer in use, with what happened since its window rolled. -/
structure CongestionRun where
  mux : AgentChannelMux
  /-- the last moment at which it was drained -/
  clock : ℕ := 0
  /-- history: the widest the window was since it rolled -/
  peak : ℕ
  /-- history: how often it had been cut when it rolled -/
  cutsBefore : ℕ := 0
  /-- history: the data bytes sent since it rolled -/
  sent : ℕ := 0
  /-- history: bytes were acknowledged since it rolled -/
  progressed : Bool := false
  /-- history: how many instructions were sent -/
  emitted : ℕ := 0

namespace CongestionRun

open AgentChannelMux

/-- What can happen to a multiplexer. -/
inductive Act where
  | queue (records : List AgentRecord)
  | instruction (id : ChannelId) (payload : Bytes)
  | outgoing (now : ℕ)

def start (role : Role) (congestion : Bool) : CongestionRun where
  mux := .new role congestion
  peak := cwndMax

/-- The multiplexer is now `m`. -/
def observe (s : CongestionRun) (m : AgentChannelMux) : CongestionRun :=
  { s with mux := m, peak := max s.peak m.cwnd }

/-- The window rolls, when the interval is over. -/
def roll (s : CongestionRun) (now rto : ℕ) : CongestionRun :=
  if now - s.mux.windowStart ≥ rto then
    { s with
      peak := (s.mux.rollWindow now rto).cwnd
      cutsBefore := s.mux.cuts
      sent := 0
      progressed := false }
  else s

/-- One step; the clock does not run backwards. -/
def step (rto : ℕ) (s : CongestionRun) : Act → Option CongestionRun
  | .queue records => some (s.observe (s.mux.queueRecords records))
  | .instruction id payload =>
    some { s.observe (s.mux.onInstruction id payload).1 with
      progressed := s.progressed || s.mux.acknowledges id payload }
  | .outgoing now =>
    if now < s.clock then none
    else
      let r := s.mux.outgoing now rto
      let s := s.roll now rto
      some { s.observe r.1 with
        clock := now
        sent := s.sent + dataLen r.2
        emitted := s.emitted + r.2.length }

/-- What is known of the multiplexer in use. -/
structure Inv (s : CongestionRun) : Prop where
  window : s.mux.Window s.peak s.cutsBefore s.sent
  paced : s.mux.Paced s.clock
  progress : s.mux.windowProgress = s.progressed

theorem inv_start (role : Role) (congestion : Bool) : (start role congestion).Inv where
  window := ⟨(by decide : cwndFloor ≤ cwndMax), Nat.le_refl _, rfl, fun h => absurd h (Nat.lt_irrefl _), fun _ => ⟨rfl, rfl⟩, nofun⟩
  paced := ⟨Nat.le_refl _, nofun⟩
  progress := rfl

section Steps

variable {s t : CongestionRun} {rto now : ℕ} {a : Act} {m : AgentChannelMux}

theorem peak_observe {cutsBefore sent : ℕ} (h : m.Window s.peak cutsBefore sent) : (s.observe m).peak = s.peak :=
  Nat.max_eq_left h.bounds.2

theorem inv_roll (rto : ℕ) (h : s.Inv) (hnow : s.clock ≤ now) :
    (s.mux.rollWindow now rto).Window (s.roll now rto).peak (s.roll now rto).cutsBefore
        (s.roll now rto).sent ∧ (s.mux.rollWindow now rto).Paced now ∧
        (s.mux.rollWindow now rto).windowProgress = (s.roll now rto).progressed := by
  unfold roll
  split
  case isTrue hroll => exact rollWindow_rolled hroll h.window
  case isFalse hroll =>
    rw [rollWindow_of_not hroll]
    exact ⟨h.window, ⟨h.paced.started.trans hnow, h.paced.starved⟩, h.progress⟩

theorem step_outgoing (hstep : step rto s (.outgoing now) = some t) : s.clock ≤ now ∧ t =
      { (s.roll now rto).observe (s.mux.outgoing now rto).1 with
        clock := now
        sent := (s.roll now rto).sent + dataLen (s.mux.outgoing now rto).2
        emitted := (s.roll now rto).emitted + (s.mux.outgoing now rto).2.length } := by
  simp only [step] at hstep
  split at hstep
  case isTrue => cases hstep
  case isFalse hnow => exact ⟨Nat.le_of_not_lt hnow, (Option.some.inj hstep).symm⟩

theorem inv_untimed (h : s.Inv) (hm : s.mux.Untimed m) :
    m.Window (s.observe m).peak s.cutsBefore s.sent ∧ m.Paced s.clock := by
  have hwindow := hm.window h.window
  rw [peak_observe hwindow]
  exact ⟨hwindow, hm.paced h.paced⟩

theorem inv_step (h : s.Inv) (hstep : step rto s a = some t) : t.Inv := by
  cases a with
  | queue records =>
    cases hstep
    obtain ⟨huntimed, hprogress⟩ := untimed_queueRecords records s.mux
    obtain ⟨hwindow, hpaced⟩ := inv_untimed h huntimed
    exact ⟨hwindow, hpaced, hprogress.trans h.progress⟩
  | instruction id payload =>
    cases hstep
    obtain ⟨huntimed, hprogress⟩ := untimed_onInstruction s.mux id payload
    obtain ⟨hwindow, hpaced⟩ := inv_untimed h huntimed
    refine ⟨hwindow, hpaced, hprogress.trans ?_⟩
    rw [h.progress]
  | outgoing now =>
    obtain ⟨hnow, rfl⟩ := step_outgoing hstep
    obtain ⟨hwindow, hpaced, hprogress⟩ := inv_roll rto h hnow
    obtain ⟨hwindow', hpaced', hsame⟩ := outgoing_spec hwindow hpaced
    refine ⟨?_, hpaced', hsame.windowProgress.trans hprogress⟩
    have hpeak := peak_observe hwindow'
    show AgentChannelMux.Window _ ((s.roll now rto).observe (s.mux.outgoing now rto).1).peak _ _
    rw [hpeak]
    exact hwindow'

theorem inv_of_exec {role : Role} {congestion : Bool} {as : List Act}
    (h : Runs.exec (step rto) (start role congestion) as = some s) : s.Inv :=
  Runs.exec_invariant (fun _ _ _ => inv_step) (inv_start role congestion) h

/-! ### What is true of it -/

theorem grows_by_roll (h : s.Inv) (hstep : step rto s a = some t) (hgrows : s.mux.cwnd < t.mux.cwnd) :
    ∃ now, a = .outgoing now ∧ s.mux.cwnd < (s.mux.rollWindow now rto).cwnd := by
  cases a with
  | queue records =>
    cases hstep
    have hsame : (s.mux.queueRecords records).cwnd = s.mux.cwnd :=
      (untimed_queueRecords records s.mux).1.cwnd
    exact absurd hgrows (by rw [observe, hsame]; exact Nat.lt_irrefl _)
  | instruction id payload =>
    cases hstep
    have hsame : (s.mux.onInstruction id payload).1.cwnd = s.mux.cwnd :=
      (untimed_onInstruction s.mux id payload).1.cwnd
    exact absurd hgrows (by rw [observe, hsame]; exact Nat.lt_irrefl _)
  | outgoing now =>
    refine ⟨now, rfl, ?_⟩
    obtain ⟨hnow, rfl⟩ := step_outgoing hstep
    obtain ⟨hwindow, hpaced, _⟩ := inv_roll rto h hnow
    have hnarrow := (outgoing_spec hwindow hpaced).2.2.cwnd
    exact Nat.lt_of_lt_of_le hgrows hnarrow

theorem silent_of_exec (hrto : 0 < rto) : ∀ (times : List ℕ) {s t : CongestionRun}, s.Inv →
    Runs.exec (step rto) s (times.map .outgoing) = some t →
    (∀ now ∈ times, ¬ Reached (s.mux.nextDeadline rto) now) → t.emitted = s.emitted := by
  intro times
  induction times with
  | nil =>
    intro s t _ hrun _
    cases hrun
    rfl
  | cons now times ih =>
    intro s t h hrun hquiet
    rw [List.map_cons] at hrun
    obtain ⟨u, hstep, hrun⟩ := Runs.exec_cons_eq_some.1 hrun
    have hu := inv_step h hstep
    have hnil : (s.mux.outgoing now rto).2 = [] := by
      by_contra hsent
      exact hquiet now (.head times) ((outgoing_ne_nil_iff hrto h.paced).1 hsent)
    obtain ⟨_, rfl⟩ := step_outgoing hstep
    have hrest := ih hu hrun fun later hlater hdue =>
      hquiet later (.tail now hlater) (outgoing_silent hnil hdue)
    have hsame : (s.roll now rto).emitted = s.emitted := by
      unfold roll
      split <;> rfl
    rw [hrest]
    show (s.roll now rto).emitted + (s.mux.outgoing now rto).2.length = s.emitted
    rw [hnil, hsame]
    rfl

/-- **The discipline of the window.** -/
structure Disciplined (rto : ℕ) (s : CongestionRun) : Prop where
  /-- it keeps its bounds -/
  bounds : cwndFloor ≤ s.mux.cwnd ∧ s.mux.cwnd ≤ cwndMax
  /-- since it rolled it was not cut, or cut once -/
  cut_once : (s.mux.cuts = s.cutsBefore ∧ s.mux.cwnd = s.peak) ∨
    (s.mux.cuts = s.cutsBefore + 1 ∧ s.mux.cwnd = max (s.peak / 2) cwndFloor)
  /-- it grows by a roll only -/
  grows_by_roll : ∀ (a : Act) (t : CongestionRun), step rto s a = some t → s.mux.cwnd < t.mux.cwnd →
    ∃ now, a = .outgoing now ∧ s.mux.cwnd < (s.mux.rollWindow now rto).cwnd
  /-- a roll makes it grow when bytes were acknowledged since the last one and it was not cut -/
  grows : ∀ now, s.mux.cwnd < (s.mux.rollWindow now rto).cwnd →
    rto ≤ now - s.mux.windowStart ∧ s.progressed = true ∧ s.mux.cuts = s.cutsBefore
  /-- where it was below its limit, no more bytes went out than it was wide -/
  bounded : s.peak < cwndMax → s.sent ≤ s.peak
  /-- from the deadline on something is sent -/
  sends : ∀ d now, s.mux.nextDeadline rto = some d → d ≤ now → (s.mux.outgoing now rto).2 ≠ []
  /-- before it nothing is sent, and without one nothing is ever sent -/
  silent : ∀ (times : List ℕ) (t : CongestionRun), Runs.exec (step rto) s (times.map .outgoing) = some t →
    (∀ d, s.mux.nextDeadline rto = some d → ∀ now ∈ times, now < d) → t.emitted = s.emitted

theorem Inv.disciplined (h : s.Inv) (hrto : 0 < rto) : Disciplined rto s where
  bounds := ⟨h.window.bounds.1, h.window.bounds.2.trans h.window.ceiling⟩
  cut_once := by
    cases hcut : s.mux.windowCut with
    | false => exact .inl ((h.window.uncut hcut).symm)
    | true => exact .inr ((h.window.cut hcut).symm)
  grows_by_roll := fun _ _ => grows_by_roll h
  grows := by
    intro now hgrows
    obtain ⟨hroll, hprogress, huncut⟩ := rollWindow_grows hgrows
    exact ⟨hroll, h.progress ▸ hprogress, (h.window.uncut huncut).2⟩
  bounded := h.window.within
  sends := by
    intro d now hd hle
    exact (outgoing_ne_nil_iff hrto h.paced).2 ⟨d, hd, hle⟩
  silent := by
    intro times t hrun hbefore
    refine silent_of_exec hrto times h hrun fun now hnow hreached => ?_
    obtain ⟨d, hd, hle⟩ := hreached
    exact absurd hle (Nat.not_le_of_lt (hbefore d hd now hnow))

end Steps

/-- **In every run the window is disciplined and the deadline exact.** -/
theorem window_discipline {rto : ℕ} (hrto : 0 < rto) (role : Role) (congestion : Bool) (as : List Act)
    {s : CongestionRun} (h : Runs.exec (step rto) (start role congestion) as = some s) :
    Disciplined rto s :=
  (inv_of_exec h).disciplined hrto

/-- A channel is opened and sends three bytes; they are not answered within the interval and sent again, and
the window is halved. -/
theorem window_discipline_cut : ∃ s, Runs.exec (step 50) (start .server true)
      [.queue [⟨7, .open, []⟩, ⟨7, .data, [1, 2, 3]⟩], .outgoing 10, .outgoing 60] = some s ∧
    s.mux.cuts = 1 ∧ s.mux.cwnd = cwndMax / 2 ∧ s.emitted = 2 ∧ Disciplined 50 s := by
  have hrun : (Runs.exec (step 50) (start .server true)
      [.queue [⟨7, .open, []⟩, ⟨7, .data, [1, 2, 3]⟩], .outgoing 10, .outgoing 60]).map
        (fun s => (s.mux.cuts, s.mux.cwnd, s.emitted)) = some (1, cwndMax / 2, 2) := by
    decide +kernel
  obtain ⟨s, hs, hsummary⟩ := Option.map_eq_some_iff.1 hrun
  simp only [Prod.mk.injEq] at hsummary
  exact ⟨s, hs, hsummary.1, hsummary.2.1, hsummary.2.2, window_discipline (by decide) .server true _ hs⟩

end CongestionRun

end Posh
