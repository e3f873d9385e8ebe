/-
**The roaming client's frame application.**

`ClientState.applyFrame` is the client's answer to one server frame.  A frame older than the state
shown is dropped, growth of the scrollback is applied only at exactly its base, and a body anchored
to a base is applied only to that base: the state shown, or one of the last eight dumps the client
keeps for the purpose.  A rejected body may leave a request for a keyframe behind, which the next
message carries.

What a frame can do to the state shown is said once, by the relation `Landing`; the properties of the
synchronisation loops are derived from it.
-/

import Posh.FrameProducer
import Posh.ClientHistory

set_option autoImplicit false

namespace Posh

variable {τ σ : Type}

/-! ### The client -/

/-- How many recently applied dumps the client retains as bases. -/
def baseHistoryDepth : ℕ := 8

/-- The part of the client's state that frames are applied to. -/
structure ClientState (τ : Type) where
  rows : ℕ
  cols : ℕ
  /-- the client's codec -/
  applier : FrameSync
  appliedNum : ℕ := 0
  appliedData : Bytes := []
  serverTerm : τ
  /-- recently applied dumps by frame number, oldest first -/
  baseHistory : List (ℕ × Bytes) := []
  baseHistoryOn : Bool := true
  /-- a keyframe is requested with the next message -/
  resync : Bool := false
  history : HistoryView

namespace ClientState

/-- Remembers a just-applied dump as a base, within the bound. -/
def rememberBase (st : ClientState τ) (frameNum : ℕ) (dump : Bytes) : List (ℕ × Bytes) :=
  if st.baseHistoryOn then
    let pushed := st.baseHistory ++ [(frameNum, dump)]
    if pushed.length > baseHistoryDepth then pushed.drop 1 else pushed
  else st.baseHistory

/-- The retained dump of frame `base`, for a diff anchored behind the state shown. -/
def heldBase (st : ClientState τ) (isDiff : Bool) (base : ℕ) : Option Bytes :=
  if isDiff && decide (base < st.appliedNum) && st.baseHistoryOn then
    (st.baseHistory.reverse.find? fun b => b.1 == base).map Prod.snd
  else none

/-- Whether an anchored body can be applied: `.ok held` when its base is the state shown (`none`) or
a retained dump, and `.error r` when it is rejected, `r` telling whether a keyframe is requested. -/
def checkAnchored (st : ClientState τ) (isDiff : Bool) (base : ℕ) (baseSum : Option UInt32) :
    Except Bool (Option Bytes) :=
  let retained : Except Bool (Option Bytes) :=
    if base ≠ st.appliedNum then
      match st.heldBase isDiff base with
      | some d => .ok (some d)
      -- a base ahead of us is one a retransmission resolves; only one behind us asks for a keyframe
      | none => .error (decide (base < st.appliedNum))
    else .ok none
  match retained, baseSum with
  | .ok held, some sum =>
    if baseChecksum (held.getD st.appliedData) ≠ sum then .error true else .ok held
  | r, _ => r

/-- Whether a visible body can be applied. -/
def checkBase (st : ClientState τ) : FrameBody → Except Bool (Option Bytes)
  | .diff base baseSum _ => st.checkAnchored true base baseSum
  | .morph base baseSum _ => st.checkAnchored false base baseSum
  | _ => .ok none

/-- A visible body that passed its base check: applied by the codec, unless it is the frame already
shown. -/
def applyVisible (D : Display τ σ) (st : ClientState τ) (frameNum : ℕ) (body : FrameBody)
    (retained : Option Bytes) : ClientState τ × Bool :=
  if frameNum = st.appliedNum then (st, true)
  else
    match st.applier.apply D st.rows st.cols (retained.getD st.appliedData) st.serverTerm body with
    | (.advanced dump, term) =>
      ({ st with
          serverTerm := term
          appliedNum := frameNum
          baseHistory := st.rememberBase frameNum dump
          appliedData := dump }, true)
    | (.advancedNoDump, term) => ({ st with serverTerm := term, appliedNum := frameNum }, true)
    | (.reackAndWait, term) => ({ st with serverTerm := term, resync := true }, true)
    | (.noChange, term) => ({ st with serverTerm := term }, false)

/-- **Applies a frame**; the flag tells whether an acknowledgement should go out. -/
def applyFrame (D : Display τ σ) (st : ClientState τ) (frame : ServerFrame) : ClientState τ × Bool :=
  match frame.body with
  | .scrollback2 epoch rowOffset rows =>
    ({ st with history := st.history.applyScrollback2 epoch rowOffset rows }, true)
  | body =>
    -- stale retransmission: re-acknowledge our newer state
    if frame.frameNum < st.appliedNum then (st, true)
    else
      match body with
      | .scrollback base rows =>
        if frame.frameNum = st.appliedNum then (st, true)
        -- growth against a state we are not at
        else if base ≠ st.appliedNum then (st, true)
        else
          ({ st with
              history := st.history.appendGrowth rows
              appliedNum := frame.frameNum }, true)
      | .empty => (st, false)
      | body =>
        match st.checkBase body with
        | .error resync => ({ st with resync := st.resync || resync }, true)
        | .ok retained => st.applyVisible D frame.frameNum body retained

end ClientState

/-! ### What a frame can do -/

/-- The state shown: the frame number, its dump, and the retained dumps. -/
structure Shown where
  num : ℕ
  data : Bytes
  history : List (ℕ × Bytes)

/-- The state a client shows. -/
def ClientState.shown (st : ClientState τ) : Shown where
  num := st.appliedNum
  data := st.appliedData
  history := st.baseHistory

/-- The retained dumps after `dump` was applied: the newest added, at most the oldest dropped. -/
def Remembers (h h' : List (ℕ × Bytes)) (num : ℕ) (dump : Bytes) : Prop :=
  ∀ b ∈ h', b ∈ h ∨ b = (num, dump)

/-- **How a frame can change the state shown.** -/
inductive Landing (v : Shown) (f : ServerFrame) : Shown → Prop where
  /-- not at all -/
  | rejected : Landing v f v
  /-- growth of the scrollback at exactly its base moves the number only -/
  | scrollback (rows : List Bytes) (hbody : f.body = .scrollback v.num rows)
      (hnew : v.num < f.frameNum) : Landing v f { v with num := f.frameNum }
  /-- a whole dump is shown -/
  | full (dump : Bytes) (history : List (ℕ × Bytes)) (hbody : f.body = .full dump)
      (hnew : v.num < f.frameNum) (hmem : Remembers v.history history f.frameNum dump) :
      Landing v f ⟨f.frameNum, dump, history⟩
  /-- a diff is applied to the state shown or to a retained dump, of the right number and, where a
  checksum came with it, of the right checksum -/
  | diff (base : ℕ) (sum : Option UInt32) (diff held dump : Bytes) (history : List (ℕ × Bytes))
      (hbody : f.body = .diff base sum diff) (hnew : v.num < f.frameNum)
      (hheld : (base = v.num ∧ held = v.data) ∨ (base, held) ∈ v.history)
      (hsum : ∀ s, sum = some s → baseChecksum held = s)
      (happly : applyDiff held diff = some dump)
      (hmem : Remembers v.history history f.frameNum dump) : Landing v f ⟨f.frameNum, dump, history⟩
  /-- escapes move the number only -/
  | morph (base : ℕ) (sum : Option UInt32) (escapes : Bytes)
      (hbody : f.body = .morph base sum escapes) (hnew : v.num < f.frameNum) :
      Landing v f { v with num := f.frameNum }

namespace ClientState

theorem remembers_rememberBase (st : ClientState τ) (frameNum : ℕ) (dump : Bytes) :
    Remembers st.baseHistory (st.rememberBase frameNum dump) frameNum dump := by
  intro b hb
  unfold rememberBase at hb
  split at hb
  · have hmem : b ∈ st.baseHistory ++ [(frameNum, dump)] := by
      simp only at hb
      split at hb
      · exact List.mem_of_mem_drop hb
      · exact hb
    simpa using hmem
  · exact .inl hb

variable {retained : Option Bytes}

/-- What passing the base check means: the base is the state shown or a retained dump, and the
checksum, if one was stamped, is the base's. -/
theorem checkAnchored_ok {st : ClientState τ} {isDiff : Bool} {base : ℕ} {sum : Option UInt32}
    (h : st.checkAnchored isDiff base sum = .ok retained) :
    ((base = st.appliedNum ∧ retained.getD st.appliedData = st.appliedData) ∨
        (base, retained.getD st.appliedData) ∈ st.baseHistory) ∧
      ∀ s, sum = some s → baseChecksum (retained.getD st.appliedData) = s := by
  -- the number check, before the checksum is looked at
  have hnum : ∀ r : Option Bytes, (if base ≠ st.appliedNum then
        match st.heldBase isDiff base with
        | some d => Except.ok (some d)
        | none => .error (decide (base < st.appliedNum))
      else .ok none) = Except.ok (ε := Bool) r →
      (base = st.appliedNum ∧ r.getD st.appliedData = st.appliedData) ∨
        (base, r.getD st.appliedData) ∈ st.baseHistory := by
    intro r hr
    split at hr
    · cases hheld : st.heldBase isDiff base with
      | none => rw [hheld] at hr; cases hr
      | some d =>
        rw [hheld] at hr
        simp only [Except.ok.injEq] at hr
        subst hr
        unfold heldBase at hheld
        split at hheld
        · obtain ⟨b, hb, rfl⟩ := Option.map_eq_some_iff.1 hheld
          have hbase := List.find?_some hb
          have hmem := List.mem_reverse.1 (List.mem_of_find?_eq_some hb)
          simp only [beq_iff_eq] at hbase
          refine .inr ?_
          rw [Option.getD_some, ← hbase]
          exact hmem
        · cases hheld
    · rename_i hne
      simp only [Except.ok.injEq] at hr
      subst hr
      exact .inl ⟨not_not.1 hne, rfl⟩
  unfold checkAnchored at h
  simp only at h
  split at h
  · rename_i held s heq
    split at h
    · cases h
    · rename_i hsum
      rw [Except.ok.injEq] at h
      subst h
      refine ⟨hnum held heq, ?_⟩
      intro s' hs'
      rw [Option.some.injEq] at hs'
      rw [← hs']
      exact not_not.1 hsum
  · rename_i r sum' hnone
    refine ⟨hnum retained h, ?_⟩
    intro s hs
    exact absurd hs (hnone retained s h)

theorem applyVisible_landing (D : Display τ σ) (st : ClientState τ) (frame : ServerFrame)
    (hle : st.appliedNum ≤ frame.frameNum) (hcheck : st.checkBase frame.body = .ok retained) :
    Landing st.shown frame (st.applyVisible D frame.frameNum frame.body retained).1.shown := by
  unfold applyVisible
  split
  · exact .rejected
  · rename_i hne
    have hnew : st.appliedNum < frame.frameNum := by omega
    cases hap : st.applier.apply D st.rows st.cols (retained.getD st.appliedData) st.serverTerm
        frame.body with
    | mk outcome term =>
      cases outcome with
      | noChange => exact .rejected
      | reackAndWait => exact .rejected
      | advancedNoDump =>
        obtain ⟨base, sum, escapes, hbody⟩ := st.applier.apply_advancedNoDump D st.rows st.cols
          (retained.getD st.appliedData) st.serverTerm frame.body (by rw [hap])
        exact .morph base sum escapes hbody hnew
      | advanced dump =>
        have hmem := st.remembers_rememberBase frame.frameNum dump
        rcases st.applier.apply_advanced D st.rows st.cols (retained.getD st.appliedData) dump
          st.serverTerm frame.body (by rw [hap]) with hbody | ⟨base, sum, diff, hbody, happly⟩
        · exact .full dump _ hbody hnew hmem
        · rw [hbody] at hcheck
          obtain ⟨hheld, hsum⟩ := checkAnchored_ok hcheck
          exact .diff base sum diff _ dump _ hbody hnew hheld hsum happly hmem

/-- **Everything a frame can do to the state shown.** -/
theorem applyFrame_landing (D : Display τ σ) (st : ClientState τ) (frame : ServerFrame) :
    Landing st.shown frame (st.applyFrame D frame).1.shown := by
  have hvisible : ∀ retained, st.appliedNum ≤ frame.frameNum → st.checkBase frame.body = .ok retained →
      Landing st.shown frame (st.applyVisible D frame.frameNum frame.body retained).1.shown :=
    fun _ hle hcheck => st.applyVisible_landing D frame hle hcheck
  unfold applyFrame
  cases hbody : frame.body with
  | scrollback2 epoch rowOffset rows => exact .rejected
  | empty =>
    simp only
    split <;> exact .rejected
  | scrollback base rows =>
    simp only
    split
    · exact .rejected
    · split
      · exact .rejected
      · split
        · exact .rejected
        · rename_i hlt hne hbase
          have hb : base = st.appliedNum := not_not.1 hbase
          exact .scrollback rows (by rw [hbody, hb]; rfl) (show st.appliedNum < _ by omega)
  | full | diff | morph =>
    simp only
    rw [hbody] at hvisible
    split
    · exact .rejected
    · rename_i hlt
      split
      · exact .rejected
      · rename_i retained hcheck
        exact hvisible retained (Nat.le_of_not_lt hlt) hcheck

/-- A frame does not change the client's codec. -/
theorem applyFrame_applier (D : Display τ σ) (st : ClientState τ) (frame : ServerFrame) :
    (st.applyFrame D frame).1.applier = st.applier := by
  have hvisible : ∀ num body retained, (st.applyVisible D num body retained).1.applier = st.applier := by
    intro num body retained
    unfold applyVisible
    split
    · rfl
    · split <;> rfl
  unfold applyFrame
  split
  · rfl
  · split
    · rfl
    · split
      · split
        · rfl
        · split <;> rfl
      · rfl
      · split
        · rfl
        · exact hvisible _ _ _

end ClientState

end Posh
