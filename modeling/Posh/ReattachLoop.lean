/-
**The re-attach loop dials a transition once.**

When an attach returns, the front door carries out what the viewport's machine asks for: it dials the transition that
was recorded, and when that attach returns it asks again.  A recorded transition is forgotten when a session is
entered, or when the dial fails.  A dial that returns without either, as that of a switch request to the session the
front door itself runs in, leaves it recorded, and the loop dials it again.

What becomes of a dial is left open here, whatever the front door finds: an attach that entered a session and went on
for a while, one that failed before or after it entered one, and a dispatch that returned without entering any.
-/

import Mathlib.Data.List.Nodup
import Posh.FrontDoor
import Posh.Lib.Runs
import Posh.SessionStack

set_option autoImplicit false

namespace Posh

open Prod (fst)
open List (append_nil mem_cons_self nil_append)
open ViewportState
open Runs
open StackEntry

/-- The events of an attach: the front door's own are not among them. -/
def ViewportEvent.ofAttach : ViewportEvent → Bool
  | .attachReturned => false
  | .dialFailed _ => false
  | _ => true

abbrev AttachEvent := { e : ViewportEvent // e.ofAttach = true }

/-- Nothing is asked for, and no other session entered. -/
def ViewportEvent.Quiet (e : ViewportEvent) : Prop :=
  (∀ t, e ≠ .switchRequested t) ∧ e ≠ .popRequested ∧ ∀ t, e ≠ .entered t

inductive DialOutcome where
  /-- it entered a session, as one that is made there if `armed`, lasted, and returned or failed -/
  | entered (armed : Bool) (target : Text) (during : List AttachEvent) (returned : Bool)
  /-- it failed before it entered a session -/
  | failed
  /-- it returned without having entered one -/
  | returned

/-- **An attach that does not last**: nothing happens in it but its end. -/
def DialOutcome.Brief : DialOutcome → Prop
  | .entered _ _ during _ => ∀ e ∈ during, e.1.Quiet
  | .failed => True
  | .returned => True

/-- The loop, with the effects that it has still to carry out. -/
structure ReattachLoop where
  viewport : ViewportState
  effects : List ViewportEffect := []
  ended : Bool := false
  /-- history: how many transitions were recorded -/
  recorded : ℕ := 0
  /-- history: the dials, each with the number of its transition -/
  dialled : List (ℕ × Text) := []

def ViewportEffect.isDial : ViewportEffect → Bool
  | .dial _ => true
  | _ => false

/-- An event that records a transition: a request, the end of a session that has another beneath it, and a dial that
failed when there is another to try. -/
def ViewportState.records (s : ViewportState) : ViewportEvent → Bool
  | .switchRequested _ => true
  | .popRequested => s.stack ≠ []
  | .attachReturned => s.pendingTarget.isNone && (s.apply .attachReturned).2.any (·.isDial)
  | .dialFailed target => (s.apply (.dialFailed target)).2.any (·.isDial)
  | _ => false

namespace ReattachLoop

/-! ### Turns -/

/-- An event of an attach; what it asks for is carried out where it happens. -/
def note (s : ReattachLoop) (e : ViewportEvent) : ReattachLoop :=
  { s with
    viewport := (s.viewport.apply e).1
    recorded := s.recorded + if s.viewport.records e then 1 else 0 }

/-- An observation of the front door; what it asks for is carried out in turn. -/
def observe (s : ReattachLoop) (e : ViewportEvent) : ReattachLoop :=
  { s.note e with effects := s.effects ++ (s.viewport.apply e).2 }

/-- A dial failed: the machine says what follows; if nothing does, the loop is over. -/
def dialFailed (s : ReattachLoop) (target : Text) : ReattachLoop :=
  if (s.viewport.apply (.dialFailed target)).2 = [] then { s.note (.dialFailed target) with ended := true }
  else s.observe (.dialFailed target)

/-- A session is entered, and things happen there. -/
def attach (s : ReattachLoop) (armed : Bool) (target : Text) (during : List AttachEvent) : ReattachLoop :=
  let s := if armed then s.note .anonymousCreateArmed else s
  during.foldl (fun s e => s.note e.1) (s.note (.entered target))

def dial (s : ReattachLoop) (target : Text) (o : DialOutcome) : ReattachLoop :=
  let s := { s with dialled := s.dialled ++ [(s.recorded, target)] }
  match o with
  | .entered armed entered during true => (s.attach armed entered during).observe .attachReturned
  | .entered armed entered during false => (s.attach armed entered during).dialFailed target
  | .failed => s.dialFailed target
  | .returned => s.observe .attachReturned

/-- **A turn of the loop**: an effect is carried out, and if it is a dial something becomes of it. -/
def turn (s : ReattachLoop) (o : Option DialOutcome) : Option ReattachLoop :=
  if s.ended then none
  else
    match s.effects, o with
    | .dial target :: effects, some o => some ({ s with effects }.dial target o)
    | .dial _ :: _, none => none
    | .refreshStatus :: effects, none => some { s with effects }
    | .exit _ _ :: effects, none => some { s with effects, ended := true }
    | [], none => some { s with ended := true }
    | _, some _ => none

/-- The loop when an attach of the viewport `v` has returned. -/
def start (v : ViewportState) : ReattachLoop := ({ viewport := v } : ReattachLoop).observe .attachReturned

/-- The transitions that were dialled, and the one that is dialled next. -/
def attempts (s : ReattachLoop) : List ℕ :=
  s.dialled.map Prod.fst ++ if s.effects.any (·.isDial) then [s.recorded] else []

/-! ### What is recorded -/

variable {s s' : ReattachLoop} {v : ViewportState} {effects : List ViewportEffect} {t : Text} {e : ViewportEvent}

/-- What the machine asks for when an attach has returned, or a dial has failed: at most one thing, and if that is a
dial, it is that of the transition that is recorded. -/
structure Asks (v : ViewportState) (effects : List ViewportEffect) : Prop where
  length : effects.length ≤ 1
  dials : ∀ target, .dial target ∈ effects → v.pendingTarget = some target

theorem asks_leave (v : ViewportState) (e : Option AttachEnd) : Asks (v.leave e).1 (v.leave e).2 := by
  rw [leave.eq_def]
  split
  · next top htop =>
      split
      · refine ⟨Nat.le_refl _, fun target htarget => ?_⟩
        obtain rfl : target = top.target := by simpa using htarget
        show v.stack.getLast?.map target = _
        rw [htop]
        rfl
      · exact ⟨Nat.le_refl _, fun target htarget => by simp at htarget⟩
  · exact ⟨Nat.le_refl _, fun target htarget => by simp at htarget⟩

theorem asks_attachReturned (v : ViewportState) :
    Asks (v.apply .attachReturned).1 (v.apply .attachReturned).2 := by
  simp only [apply]
  split
  · next target htarget =>
      refine ⟨Nat.le_refl _, fun target' htarget' => ?_⟩
      obtain rfl : target' = target := by simpa using htarget'
      exact htarget
  · exact asks_leave _ _

theorem asks_continueCascade (v : ViewportState) (c : Cascade) (t : Text) :
    Asks (v.continueCascade c t).1 (v.continueCascade c t).2 := by
  rw [continueCascade.eq_def]
  dsimp only
  split
  · next next hnext =>
      refine ⟨Nat.le_refl _, fun target htarget => ?_⟩
      obtain rfl : target = next.target := by simpa using htarget
      exact congrArg (Option.map target) hnext
  · exact ⟨Nat.le_refl _, fun target htarget => by simp at htarget⟩

theorem asks_dialFailed (v : ViewportState) (t : Text) :
    Asks (v.apply (.dialFailed t)).1 (v.apply (.dialFailed t)).2 := by
  simp only [apply]
  cases v.cascade with
  | none => exact ⟨Nat.zero_le _, fun target htarget => by cases htarget⟩
  | some c => exact asks_continueCascade _ c t

theorem records_dialFailed (hpending : (v.apply (.dialFailed t)).1.pending ≠ none) :
    v.records (.dialFailed t) = true := by
  by_contra hno
  rw [Bool.not_eq_true] at hno
  simp only [records, apply] at hno hpending
  cases hcascade : v.cascade with
  | none =>
    rw [hcascade] at hpending
    exact hpending rfl
  | some c =>
    rw [hcascade] at hno hpending
    dsimp only at hno hpending
    rw [continueCascade.eq_def] at hno hpending
    dsimp only at hno hpending
    split at hpending
    · next hnext =>
        rw [hnext] at hno
        cases hno
    · exact hpending rfl

theorem pending_leave {e : Option AttachEnd} (h : (v.leave e).2.any (·.isDial) = false) :
    (v.leave e).1.pending = v.pending := by
  rw [leave.eq_def] at h ⊢
  split
  · next top htop =>
      split
      · next hgone =>
          rw [htop] at h
          dsimp only at h
          rw [if_pos hgone] at h
          cases h
      · rfl
  · rfl

theorem pending_of_not_records (he : v.records e = false)
    (hpending : (v.apply e).1.pending ≠ none) : v.pending ≠ none := by
  cases e with
  | switchRequested t => cases he
  | popRequested =>
    have hnil : v.stack = [] := by simpa [records] using he
    simpa [apply, hnil] using hpending
  | entered t => exact absurd (pending_enter v t) hpending
  | kindReported kind =>
    simp only [apply] at hpending
    split at hpending
    · split at hpending
      · exact hpending
      · exact hpending
    · exact hpending
  | activityReported label =>
    simp only [apply] at hpending
    split at hpending
    · split at hpending
      · exact hpending
      · exact hpending
    · exact hpending
  | attachReturned =>
    simp only [apply] at hpending
    split at hpending
    · exact hpending
    · next hnone =>
        have hnone' : v.pendingTarget = none := hnone
        have hquiet : (({ v with attachEnd := none } : ViewportState).leave v.attachEnd).2.any (·.isDial) = false := by
          have heffects : (v.apply .attachReturned).2.any (·.isDial) = false := by
            simpa [records, hnone'] using he
          simp only [apply] at heffects
          rw [hnone] at heffects
          exact heffects
        rw [pending_leave hquiet] at hpending
        exact hpending
  | dialFailed t =>
    rw [records_dialFailed hpending] at he
    cases he
  | attachEnded attachEnd => exact hpending
  | anonymousCreateArmed => exact hpending
  | overlayOpened kind => exact hpending
  | overlayClosed kind => exact hpending

/-! ### Transitions that were not dialled yet -/

/-- **What the loop keeps**: no transition was dialled that is not recorded yet, and a dial that it has still to carry
out is that of the transition that is recorded. -/
structure Owed (s : ReattachLoop) : Prop where
  dialled_le : ∀ n ∈ s.dialled.map Prod.fst, n ≤ s.recorded
  asks : Asks s.viewport s.effects

/-- The transition that is recorded, if there is one, was not dialled yet. -/
def Fresh (s : ReattachLoop) : Prop := s.viewport.pending ≠ none → s.recorded ∉ s.dialled.map Prod.fst

theorem note_fresh (hle : ∀ n ∈ s.dialled.map fst, n ≤ s.recorded)
    (h : s.Fresh ∨ ((s.viewport.apply e).1.pending ≠ none → s.viewport.records e = true)) : (s.note e).Fresh := by
  intro hpending hmem
  have hmem' : (s.recorded + if s.viewport.records e then 1 else 0) ∈ s.dialled.map fst := hmem
  by_cases he : s.viewport.records e = true
  · rw [if_pos he] at hmem'
    have := hle _ hmem'
    omega
  · rw [if_neg he, Nat.add_zero] at hmem'
    rw [Bool.not_eq_true] at he
    rcases h with hfresh | hrecords
    · exact hfresh (pending_of_not_records he hpending) hmem'
    · rw [hrecords hpending] at he
      cases he

theorem note_le (hle : ∀ n ∈ s.dialled.map fst, n ≤ s.recorded) (e : ViewportEvent) :
    ∀ n ∈ (s.note e).dialled.map fst, n ≤ (s.note e).recorded :=
  fun n hn => Nat.le_add_right_of_le (hle n hn)

/-- **An attach forgets the transition that led to it.** -/
theorem attach_fresh (hle : ∀ n ∈ s.dialled.map fst, n ≤ s.recorded) (armed : Bool) (t : Text)
    (during : List AttachEvent) : (s.attach armed t during).Fresh ∧ (s.attach armed t during).dialled = s.dialled ∧
      (∀ n ∈ s.dialled.map fst, n ≤ (s.attach armed t during).recorded) ∧
      (s.attach armed t during).effects = s.effects ∧ (s.attach armed t during).ended = s.ended := by
  have hfold : ∀ (during : List AttachEvent) {r : ReattachLoop}, r.Fresh →
      (∀ n ∈ r.dialled.map fst, n ≤ r.recorded) →
      (during.foldl (fun s e => s.note e.1) r).Fresh ∧ (during.foldl (fun s e => s.note e.1) r).dialled = r.dialled ∧
        (∀ n ∈ r.dialled.map fst, n ≤ (during.foldl (fun s e => s.note e.1) r).recorded) ∧
        (during.foldl (fun s e => s.note e.1) r).effects = r.effects ∧
        (during.foldl (fun s e => s.note e.1) r).ended = r.ended := by
    intro during
    induction during with
    | nil => exact fun hfresh hle => ⟨hfresh, rfl, hle, rfl, rfl⟩
    | cons e during ih =>
      intro r hfresh hle
      exact ih (note_fresh hle (.inl hfresh)) (note_le hle e.1)
  have hentered : ∀ r : ReattachLoop, (∀ n ∈ r.dialled.map fst, n ≤ r.recorded) → (r.note (.entered t)).Fresh :=
    fun r hle => note_fresh hle (.inr fun hno => absurd (pending_enter r.viewport t) hno)
  rw [attach]
  cases armed with
  | false => exact hfold during (hentered s hle) (note_le hle _)
  | true =>
    have hle' := note_le hle ViewportEvent.anonymousCreateArmed
    exact hfold during (hentered _ hle') (note_le hle' _)

theorem Owed.observe (hle : ∀ n ∈ s.dialled.map fst, n ≤ s.recorded)
    (hnil : s.effects = []) (hasks : Asks (s.viewport.apply e).1 (s.viewport.apply e).2) : (s.observe e).Owed := by
  refine ⟨note_le hle e, ?_⟩
  show Asks _ (s.effects ++ (s.viewport.apply e).2)
  rw [hnil, nil_append]
  exact hasks

theorem Owed.dialFailed (hle : ∀ n ∈ s.dialled.map fst, n ≤ s.recorded) (hnil : s.effects = []) (t : Text) :
    (s.dialFailed t).Owed ∧ (s.dialFailed t).Fresh ∧ (s.dialFailed t).dialled = s.dialled := by
  have hfresh : (s.note (.dialFailed t)).Fresh := note_fresh hle (.inr records_dialFailed)
  rw [ReattachLoop.dialFailed]
  split
  · next heffects =>
      refine ⟨⟨note_le hle _, ?_⟩, hfresh, rfl⟩
      show Asks _ s.effects
      rw [hnil]
      exact ⟨Nat.zero_le _, fun target htarget => by cases htarget⟩
  · exact ⟨Owed.observe hle hnil (asks_dialFailed _ t), hfresh, rfl⟩

theorem Owed.dialled_le_concat (h : s.Owed) (t : Text) :
    ∀ n ∈ (s.dialled ++ [(s.recorded, t)]).map fst, n ≤ s.recorded := by
  intro n hn
  rw [List.map_append, List.mem_append] at hn
  rcases hn with hn | hn
  · exact h.dialled_le n hn
  · exact Nat.le_of_eq (List.mem_singleton.1 hn)

/-- **What a dial leaves**, unless it returned without having entered a session: a transition that was not dialled
yet, or none. -/
theorem Owed.dial (h : s.Owed) (heffects : s.effects = .dial t :: effects)
    {o : DialOutcome} : ({ s with effects }.dial t o).Owed ∧
      ({ s with effects }.dial t o).dialled = s.dialled ++ [(s.recorded, t)] ∧
      (o ≠ .returned → ({ s with effects }.dial t o).Fresh) := by
  have hnil : effects = [] := by
    have hlen := h.asks.length
    rw [heffects, List.length_cons] at hlen
    exact List.length_eq_zero_iff.1 (Nat.le_zero.1 (Nat.le_of_succ_le_succ hlen))
  obtain ⟨r, hr⟩ : ∃ r : ReattachLoop, r = { s with effects, dialled := s.dialled ++ [(s.recorded, t)] } := ⟨_, rfl⟩
  have hle : ∀ n ∈ r.dialled.map fst, n ≤ r.recorded := by
    rw [hr]
    exact h.dialled_le_concat t
  have hr_nil : r.effects = [] := by rw [hr]; exact hnil
  have hr_dialled : r.dialled = s.dialled ++ [(s.recorded, t)] := by rw [hr]
  rw [← hr_dialled]
  cases o with
  | returned =>
    show (ReattachLoop.observe { s with effects, dialled := _ } _).Owed ∧ _
    rw [← hr]
    exact ⟨Owed.observe hle hr_nil (asks_attachReturned _), by rw [hr]; rfl, fun hno => absurd rfl hno⟩
  | failed =>
    show (ReattachLoop.dialFailed { s with effects, dialled := _ } _).Owed ∧
      (ReattachLoop.dialFailed { s with effects, dialled := _ } _).dialled = _ ∧
      (_ → (ReattachLoop.dialFailed { s with effects, dialled := _ } _).Fresh)
    rw [← hr]
    obtain ⟨howed, hfresh, hdialled⟩ := Owed.dialFailed hle hr_nil t
    exact ⟨howed, hdialled, fun _ => hfresh⟩
  | entered armed entered during returned =>
    obtain ⟨hfresh, hdialled, hle', heffects', -⟩ := attach_fresh hle armed entered during
    rw [← hdialled] at hle'
    rw [hr_nil] at heffects'
    cases returned with
    | true =>
      show (ReattachLoop.observe (ReattachLoop.attach { s with effects, dialled := _ } _ _ _) _).Owed ∧
        (ReattachLoop.attach { s with effects, dialled := _ } _ _ _).dialled = _ ∧
        (_ → (ReattachLoop.note (ReattachLoop.attach { s with effects, dialled := _ } _ _ _) _).Fresh)
      rw [← hr]
      exact ⟨Owed.observe hle' heffects' (asks_attachReturned _), hdialled,
        fun _ => note_fresh hle' (.inl hfresh)⟩
    | false =>
      show (ReattachLoop.dialFailed (ReattachLoop.attach { s with effects, dialled := _ } _ _ _) _).Owed ∧
        (ReattachLoop.dialFailed (ReattachLoop.attach { s with effects, dialled := _ } _ _ _) _).dialled = _ ∧
        (_ → (ReattachLoop.dialFailed (ReattachLoop.attach { s with effects, dialled := _ } _ _ _) _).Fresh)
      rw [← hr]
      obtain ⟨howed, hfresh', hdialled'⟩ := Owed.dialFailed hle' heffects' t
      exact ⟨howed, hdialled'.trans hdialled, fun _ => hfresh'⟩

/-! ### No transition is dialled twice -/

theorem attempts_of_dial (heffects : s.effects = .dial t :: effects) :
    s.attempts = (s.dialled ++ [(s.recorded, t)]).map fst := by
  rw [attempts, heffects, List.map_append]
  rfl

variable {o : Option DialOutcome} {r : ReattachLoop} {turns : List (Option DialOutcome)}

theorem turn_cases (h : s.turn o = some s') : s.ended = false ∧
      ((∃ t effects o', s.effects = .dial t :: effects ∧ o = some o' ∧ s' = { s with effects }.dial t o') ∨
        (o = none ∧ (∀ t effects, s.effects ≠ .dial t :: effects) ∧
          ∃ ended, s' = { s with effects := s.effects.tail, ended } ∧ (ended = true ∨ s.effects ≠ []))) := by
  rw [turn.eq_def] at h
  split at h
  · cases h
  · next hover =>
      refine ⟨by simpa using hover, ?_⟩
      split at h
      case h_1 t effects o' heffects =>
        cases h
        exact .inl ⟨t, effects, o', heffects, rfl, rfl⟩
      case h_2 => cases h
      case h_3 effects heffects =>
        cases h
        refine .inr ⟨rfl, ?_, s.ended, by rw [heffects]; rfl, .inr (by rw [heffects]; exact List.cons_ne_nil _ _)⟩
        intro t rest heq
        rw [heffects] at heq
        cases heq
      case h_4 attachEnd skipped effects heffects =>
        cases h
        refine .inr ⟨rfl, ?_, true, by rw [heffects]; rfl, .inl rfl⟩
        intro t rest heq
        rw [heffects] at heq
        cases heq
      case h_5 heffects =>
        cases h
        refine .inr ⟨rfl, ?_, true, by rw [heffects]; rfl, .inl rfl⟩
        intro t rest heq
        rw [heffects] at heq
        cases heq
      case h_6 => cases h

theorem turn_of_dial (hover : s.ended = false) (heffects : s.effects = .dial t :: effects) {o : DialOutcome} :
    s.turn (some o) = some ({ s with effects }.dial t o) := by
  rw [turn.eq_def, hover, heffects]
  rfl

theorem Owed.tail (h : s.Owed) : s.effects.tail = [] := by
  have hlen := h.asks.length
  cases heffects : s.effects with
  | nil => rfl
  | cons e rest =>
    rw [heffects, List.length_cons] at hlen
    exact List.length_eq_zero_iff.1 (Nat.le_zero.1 (Nat.le_of_succ_le_succ hlen))

theorem Owed.attempts_of_not_dial (h : s.Owed) (hno : ∀ t effects, s.effects ≠ .dial t :: effects) :
    s.attempts = s.dialled.map fst := by
  have htail := h.tail
  rw [attempts]
  cases heffects : s.effects with
  | nil => exact append_nil _
  | cons e rest =>
    rw [heffects, List.tail_cons] at htail
    cases e with
    | dial t => exact absurd heffects (hno t rest)
    | exit attachEnd skipped =>
      rw [htail]
      exact append_nil _
    | refreshStatus =>
      rw [htail]
      exact append_nil _

theorem Owed.turn (h : s.Owed) (hturn : s.turn o = some s') : s'.Owed := by
  obtain ⟨-, ⟨t, effects, o', heffects, -, rfl⟩ | ⟨-, -, ended, rfl, -⟩⟩ := turn_cases hturn
  · exact (h.dial heffects).1
  · refine ⟨h.dialled_le, ?_⟩
    show Asks s.viewport s.effects.tail
    rw [h.tail]
    exact ⟨Nat.zero_le _, fun target htarget => by cases htarget⟩

theorem observe_again (htarget : s.viewport.pendingTarget = some t) :
    (s.observe .attachReturned).effects = s.effects ++ [.dial t] ∧
      (s.observe .attachReturned).recorded = s.recorded := by
  have htarget' : ({ s.viewport with attachEnd := none } : ViewportState).pendingTarget = some t := htarget
  have heffects : (s.viewport.apply .attachReturned).2 = [.dial t] := by
    simp only [apply]
    rw [htarget']
  refine ⟨congrArg _ heffects, ?_⟩
  have hrecords : s.viewport.records .attachReturned = false := by
    rw [records, htarget]
    rfl
  show s.recorded + (if s.viewport.records .attachReturned = true then 1 else 0) = s.recorded
  rw [hrecords]
  rfl

/-- **A turn dials no transition again**, unless a dial returned without having entered a session. -/
theorem Owed.nodup_iff (h : s.Owed) (hturn : s.turn o = some s') :
    s'.attempts.Nodup ↔ s.attempts.Nodup ∧ o ≠ some .returned := by
  obtain ⟨-, ⟨t, effects, o', heffects, rfl, rfl⟩ | ⟨rfl, hno, ended, rfl, -⟩⟩ := turn_cases hturn
  · obtain ⟨howed, hdialled, hfresh⟩ := h.dial (o := o') heffects
    obtain ⟨r, hr⟩ : ∃ r, r = ReattachLoop.dial { s with effects } t o' := ⟨_, rfl⟩
    rw [← hr] at howed hdialled hfresh ⊢
    rw [attempts_of_dial heffects, ← hdialled]
    constructor
    · intro hnodup
      refine ⟨(List.nodup_append.1 hnodup).1, fun ho => ?_⟩
      obtain rfl : o' = .returned := Option.some.inj ho
      -- the transition is still recorded, and is dialled again
      have htarget := h.asks.dials t (by rw [heffects]; exact mem_cons_self)
      obtain ⟨hagain, hsame⟩ := observe_again (s := { s with effects, dialled := s.dialled ++ [(s.recorded, t)] })
        htarget
      have hrecorded : r.recorded = s.recorded := by rw [hr]; exact hsame
      have hdial : r.effects.any (·.isDial) = true := by
        rw [hr]
        show (ReattachLoop.observe _ _).effects.any _ = true
        rw [hagain, List.any_append, List.any_cons]
        exact Bool.or_true _
      rw [attempts, if_pos hdial, hrecorded, hdialled, List.map_append] at hnodup
      exact (List.nodup_append.1 hnodup).2.2 s.recorded (List.mem_append_right _ mem_cons_self) s.recorded
        mem_cons_self rfl
    · rintro ⟨hnodup, ho⟩
      have ho' : o' ≠ .returned := fun heq => ho (by rw [heq])
      rw [attempts]
      split
      · next hdial =>
          obtain ⟨e, he, hisDial⟩ := List.any_eq_true.1 hdial
          cases e with
          | exit => cases hisDial
          | refreshStatus => cases hisDial
          | dial target =>
            have hpending : r.viewport.pending ≠ none := by
              intro hnone
              have htarget := howed.asks.dials target he
              rw [pendingTarget, hnone] at htarget
              cases htarget
            refine List.nodup_append.2 ⟨hnodup, List.nodup_singleton _, ?_⟩
            rintro n hn m hm rfl
            rw [List.mem_singleton] at hm
            exact hfresh ho' hpending (hm ▸ hn)
      · rw [append_nil]
        exact hnodup
  · have howed : ReattachLoop.Owed { s with effects := s.effects.tail, ended } := h.turn hturn
    have hrest : ReattachLoop.attempts { s with effects := s.effects.tail, ended } = s.dialled.map fst := by
      refine howed.attempts_of_not_dial fun t effects heq => ?_
      have heq' : s.effects.tail = .dial t :: effects := heq
      rw [h.tail] at heq'
      cases heq'
    rw [hrest, h.attempts_of_not_dial hno]
    exact (and_iff_left (by simp)).symm

/-! ### The loop ends -/

/-- How many dials can follow when no attach lasts: one for each session of the stack, and for a switch two more. -/
def left (v : ViewportState) (effects : List ViewportEffect) : ℕ :=
  if effects.any (·.isDial) then (if v.pending = some .pop then v.stack.length else v.stack.length + 2) else 0

def remaining (s : ReattachLoop) : ℕ := left s.viewport s.effects

theorem left_le (v : ViewportState) (effects : List ViewportEffect) : left v effects ≤ v.stack.length + 2 := by
  rw [left]
  split
  · split <;> omega
  · omega

theorem apply_quiet (hquiet : e.Quiet) (hattach : e.ofAttach = true) :
    (v.apply e).1.pending = v.pending ∧ (v.apply e).1.stack = v.stack := by
  cases e with
  | switchRequested t => exact absurd rfl (hquiet.1 t)
  | popRequested => exact absurd rfl hquiet.2.1
  | entered t => exact absurd rfl (hquiet.2.2 t)
  | kindReported kind =>
    simp only [apply]
    split
    · split
      · exact ⟨rfl, rfl⟩
      · exact ⟨rfl, rfl⟩
    · exact ⟨rfl, rfl⟩
  | activityReported label =>
    simp only [apply]
    split
    · split
      · exact ⟨rfl, rfl⟩
      · exact ⟨rfl, rfl⟩
    · exact ⟨rfl, rfl⟩
  | attachReturned => cases hattach
  | dialFailed t => cases hattach
  | attachEnded attachEnd => exact ⟨rfl, rfl⟩
  | anonymousCreateArmed => exact ⟨rfl, rfl⟩
  | overlayOpened kind => exact ⟨rfl, rfl⟩
  | overlayClosed kind => exact ⟨rfl, rfl⟩

/-- **An attach that does not last**: no transition is recorded after it, and the stack is one session shorter after a
*Back*, and at most one longer otherwise. -/
theorem attach_brief (armed : Bool) (t : Text) {during : List AttachEvent} (hbrief : ∀ e ∈ during, e.1.Quiet) :
    (s.attach armed t during).viewport.pending = none ∧ (s.attach armed t during).viewport.stack.length ≤
        if s.viewport.pending = some .pop then s.viewport.stack.length - 1 else s.viewport.stack.length + 1 := by
  have hfold : ∀ (during : List AttachEvent), (∀ e ∈ during, e.1.Quiet) → ∀ r : ReattachLoop,
      (during.foldl (fun s e => s.note e.1) r).viewport.pending = r.viewport.pending ∧
        (during.foldl (fun s e => s.note e.1) r).viewport.stack = r.viewport.stack := by
    intro during
    induction during with
    | nil => exact fun _ r => ⟨rfl, rfl⟩
    | cons e during ih =>
      intro hquiet r
      obtain ⟨hpending, hstack⟩ := apply_quiet (v := r.viewport) (hquiet e mem_cons_self) e.2
      obtain ⟨hpending', hstack'⟩ := ih (fun e' he' => hquiet e' (List.mem_cons_of_mem e he')) (r.note e.1)
      exact ⟨hpending'.trans hpending, hstack'.trans hstack⟩
  have hentered : ∀ v : ViewportState, (v.enter t).stack.length ≤
      if v.pending = some .pop then v.stack.length - 1 else v.stack.length + 1 := by
    intro v
    rw [stack_enter]
    split
    · exact Nat.le_of_eq List.length_dropLast
    · rw [List.length_append, currentEntry]
      cases v.current <;> simp
  have hpend : ∀ v : ViewportState, (v.enter t).pending = none := fun v => pending_enter v t
  rw [attach]
  cases armed with
  | false =>
    obtain ⟨hpending, hstack⟩ := hfold during hbrief (s.note (.entered t))
    refine ⟨hpending.trans (hpend _), ?_⟩
    rw [if_neg Bool.false_ne_true, hstack]
    exact hentered s.viewport
  | true =>
    obtain ⟨hpending, hstack⟩ := hfold during hbrief ((s.note .anonymousCreateArmed).note (.entered t))
    refine ⟨hpending.trans (hpend _), ?_⟩
    rw [if_pos rfl, hstack]
    exact hentered { s.viewport with anonymousCreate := true }

theorem remaining_observe (hnil : s.effects = []) (hnone : s.viewport.pending = none) :
    (s.observe .attachReturned).remaining ≤ s.viewport.stack.length := by
  have htarget : ({ s.viewport with attachEnd := none } : ViewportState).pendingTarget = none := by
    rw [pendingTarget, hnone]
  show left (s.viewport.apply .attachReturned).1 (s.effects ++ (s.viewport.apply .attachReturned).2) ≤ _
  rw [hnil, nil_append]
  simp only [apply]
  rw [htarget]
  dsimp only
  rw [leave.eq_def]
  split
  · split
    · exact Nat.le_refl _
    · exact Nat.zero_le _
  · exact Nat.zero_le _

/-- After a dial that failed, the sessions of the stack can be dialled, without the one that was if it was the top. -/
theorem remaining_dialFailed (hnil : s.effects = []) (t : Text) :
    (s.dialFailed t).remaining ≤ s.viewport.stack.length ∧ (s.viewport.stack.getLast?.map target = some t →
        (s.dialFailed t).remaining < s.viewport.stack.length) := by
  have hleft : (s.dialFailed t).remaining =
      left (s.viewport.apply (.dialFailed t)).1 (s.viewport.apply (.dialFailed t)).2 := by
    rw [dialFailed]
    split
    · next hnone =>
        show left (s.viewport.apply (.dialFailed t)).1 s.effects = _
        rw [hnil, hnone]
    · show left _ (s.effects ++ _) = _
      rw [hnil, nil_append]
      rfl
  rw [hleft]
  cases hcascade : s.viewport.cascade with
  | none =>
    rw [apply_dialFailed_none hcascade]
    refine ⟨Nat.zero_le _, fun htop => ?_⟩
    obtain ⟨top, htop, -⟩ := Option.map_eq_some_iff.1 htop
    exact List.length_pos_of_mem (List.mem_of_getLast? htop)
  | some c =>
    cases htop : s.viewport.stack.getLast? with
    | none =>
      have hempty : s.viewport.stack = [] := List.getLast?_eq_none_iff.1 htop
      refine ⟨?_, fun h => by cases h⟩
      simp only [apply, hcascade, continueCascade, htop]
      exact Nat.zero_le _
    | some top =>
      obtain ⟨below, hbelow⟩ := List.getLast?_eq_some_iff.1 htop
      have hlen : s.viewport.stack.length = below.length + 1 := by
        rw [hbelow, List.length_append]
        rfl
      by_cases heq : top.target = t
      · subst heq
        rw [apply_dialFailed_cascade hcascade hbelow]
        cases below.getLast? with
        | some next =>
          have hlt : below.length < s.viewport.stack.length := by omega
          exact ⟨Nat.le_of_lt hlt, fun _ => hlt⟩
        | none =>
          have hpos : 0 < s.viewport.stack.length := by omega
          exact ⟨Nat.zero_le _, fun _ => hpos⟩
      · refine ⟨?_, fun h => absurd (Option.some.inj h) heq⟩
        simp only [apply, hcascade, continueCascade, htop, if_neg heq]
        exact Nat.le_refl _

/-- **A dial of an attach that does not last brings the end nearer.** -/
theorem Owed.remaining_dial (h : s.Owed)
    (heffects : s.effects = .dial t :: effects) {o : DialOutcome} (hbrief : o.Brief) (ho : o ≠ .returned) :
    ({ s with effects }.dial t o).remaining < s.remaining := by
  have hnil : effects = [] := by
    have htail := h.tail
    rw [heffects, List.tail_cons] at htail
    exact htail
  have htarget := h.asks.dials t (by rw [heffects]; exact mem_cons_self)
  have hremaining : s.remaining =
      if s.viewport.pending = some .pop then s.viewport.stack.length else s.viewport.stack.length + 2 := by
    rw [remaining, left, if_pos (by rw [heffects]; rfl)]
  -- a *Back* is to the top of the stack
  have htop : s.viewport.pending = some .pop → s.viewport.stack.getLast?.map target = some t := by
    intro hpop
    rw [pendingTarget, hpop] at htarget
    exact htarget
  have hpos : s.viewport.pending = some .pop → 0 < s.viewport.stack.length := by
    intro hpop
    obtain ⟨top, htop, -⟩ := Option.map_eq_some_iff.1 (htop hpop)
    exact List.length_pos_of_mem (List.mem_of_getLast? htop)
  obtain ⟨r, hr⟩ : ∃ r : ReattachLoop, r = { s with effects, dialled := s.dialled ++ [(s.recorded, t)] } := ⟨_, rfl⟩
  have hr_nil : r.effects = [] := by rw [hr]; exact hnil
  have hr_viewport : r.viewport = s.viewport := by rw [hr]
  rw [hremaining]
  cases o with
  | returned => exact absurd rfl ho
  | failed =>
    show (ReattachLoop.dialFailed { s with effects, dialled := _ } t).remaining < _
    rw [← hr]
    obtain ⟨hle, hlt⟩ := remaining_dialFailed hr_nil t
    rw [hr_viewport] at hle hlt
    split
    · next hpop => exact hlt (htop hpop)
    · omega
  | entered armed entered during returned =>
    obtain ⟨hpending, hstack⟩ := attach_brief (s := r) armed entered hbrief
    have heffects' : (r.attach armed entered during).effects = [] := by
      have hle : ∀ n ∈ r.dialled.map fst, n ≤ r.recorded := by
        rw [hr]
        exact h.dialled_le_concat t
      exact (attach_fresh hle armed entered during).2.2.2.1.trans hr_nil
    rw [hr_viewport] at hstack
    have hshort : (r.attach armed entered during).viewport.stack.length <
        if s.viewport.pending = some .pop then s.viewport.stack.length else s.viewport.stack.length + 2 := by
      split at hstack
      · next hpop =>
          have := hpos hpop
          rw [if_pos hpop]
          omega
      · next hpop =>
          rw [if_neg hpop]
          omega
    cases returned with
    | true =>
      show (ReattachLoop.observe (ReattachLoop.attach { s with effects, dialled := _ } _ _ _) _).remaining < _
      rw [← hr]
      exact Nat.lt_of_le_of_lt (remaining_observe heffects' hpending) hshort
    | false =>
      show (ReattachLoop.dialFailed (ReattachLoop.attach { s with effects, dialled := _ } _ _ _) t).remaining < _
      rw [← hr]
      exact Nat.lt_of_le_of_lt (remaining_dialFailed heffects' t).1 hshort

/-- How many turns can follow when no attach lasts. -/
def turnsLeft (s : ReattachLoop) : ℕ := if s.ended then 0 else 2 * s.remaining + s.effects.length + 1

/-- **A turn in which no attach lasts brings the end nearer.** -/
theorem Owed.measure_turn (h : s.Owed) (hturn : s.turn o = some s')
    (hbrief : ∀ o', o = some o' → o'.Brief ∧ o' ≠ .returned) :
    s'.dialled.length + s'.remaining ≤ s.dialled.length + s.remaining ∧ s'.turnsLeft < s.turnsLeft := by
  obtain ⟨hover, ⟨t, effects, o', heffects, rfl, rfl⟩ | ⟨rfl, hno, ended, rfl, hleft⟩⟩ := turn_cases hturn
  · obtain ⟨hb, hreturned⟩ := hbrief o' rfl
    have hlt := h.remaining_dial heffects hb hreturned
    obtain ⟨howed, hdialled, -⟩ := h.dial (o := o') heffects
    obtain ⟨r, hr⟩ : ∃ r, r = ReattachLoop.dial { s with effects } t o' := ⟨_, rfl⟩
    rw [← hr] at hlt howed hdialled ⊢
    have hlen := howed.asks.length
    rw [hdialled, List.length_append, List.length_singleton, turnsLeft, turnsLeft, hover, heffects, List.length_cons]
    refine ⟨by omega, ?_⟩
    rw [if_neg Bool.false_ne_true]
    split
    · omega
    · omega
  · have hzero : s.remaining = 0 := by
      have hquiet : s.effects.any (·.isDial) = false := by
        have htail := h.tail
        cases heffects : s.effects with
        | nil => rfl
        | cons e rest =>
          rw [heffects, List.tail_cons] at htail
          cases e with
          | dial t => exact absurd heffects (hno t rest)
          | exit attachEnd skipped => rw [htail]; rfl
          | refreshStatus => rw [htail]; rfl
      rw [remaining, left, hquiet, if_neg Bool.false_ne_true]
    have hzero' : ReattachLoop.remaining { s with effects := s.effects.tail, ended } = 0 := by
      show left s.viewport s.effects.tail = 0
      rw [h.tail]
      rfl
    rw [hzero', turnsLeft, turnsLeft, hzero', hover, hzero, if_neg Bool.false_ne_true]
    refine ⟨Nat.le_refl _, ?_⟩
    dsimp only
    split
    · omega
    · next hgoes =>
        rcases hleft with rfl | hne
        · exact absurd rfl hgoes
        · have hpos := List.length_pos_iff.2 hne
          rw [List.length_tail]
          omega

/-! ### Runs -/

theorem owed_start (v : ViewportState) : (start v).Owed :=
  Owed.observe (by rintro n ⟨⟩) rfl (asks_attachReturned v)

theorem attempts_start (v : ViewportState) : (start v).attempts.Nodup := by
  rw [attempts]
  show ([] ++ _ : List ℕ).Nodup
  rw [nil_append]
  split
  · exact List.nodup_singleton _
  · exact List.nodup_nil

theorem stack_start (v : ViewportState) : (start v).viewport.stack = v.stack := by
  rcases (v.apply_of_not_entered (e := .attachReturned) fun t ht => by cases ht).2 with heq | ⟨top, -, ht⟩
  · exact heq
  · cases ht

theorem Owed.nodup_run : ∀ {s s' : ReattachLoop}, s.Owed →
    exec ReattachLoop.turn s turns = some s' → (s'.attempts.Nodup ↔ s.attempts.Nodup ∧ some .returned ∉ turns) := by
  induction turns with
  | nil =>
    intro s s' _ hrun
    rw [exec_nil, Option.some.injEq] at hrun
    rw [hrun]
    exact (and_iff_left (List.not_mem_nil)).symm
  | cons o turns ih =>
    intro s s' h hrun
    obtain ⟨m, hm, hrun⟩ := exec_cons_eq_some.1 hrun
    rw [ih (h.turn hm) hrun, h.nodup_iff hm, List.mem_cons, not_or, and_assoc, ne_comm]

theorem Owed.measure_run : ∀ {s s' : ReattachLoop}, s.Owed →
    exec ReattachLoop.turn s turns = some s' → (∀ o, some o ∈ turns → o.Brief ∧ o ≠ .returned) →
    s'.dialled.length + s'.remaining ≤ s.dialled.length + s.remaining ∧ turns.length + s'.turnsLeft ≤ s.turnsLeft := by
  induction turns with
  | nil =>
    intro s s' _ hrun _
    rw [exec_nil, Option.some.injEq] at hrun
    rw [hrun]
    exact ⟨Nat.le_refl _, Nat.le_of_eq (Nat.zero_add _)⟩
  | cons o turns ih =>
    intro s s' h hrun hbrief
    obtain ⟨m, hm, hrun⟩ := exec_cons_eq_some.1 hrun
    obtain ⟨hdials, hturns⟩ := ih (h.turn hm) hrun fun o' ho' => hbrief o' (List.mem_cons_of_mem o ho')
    obtain ⟨hdials', hturns'⟩ := h.measure_turn hm fun o' ho' => hbrief o' (ho' ▸ mem_cons_self)
    rw [List.length_cons]
    exact ⟨Nat.le_trans hdials hdials', by omega⟩

/-- **No transition is dialled twice**, and the loop ends after at most two dials more than the stack is deep if no
attach lasts, exactly when no dial returns without having entered a session. -/
theorem dialled_once_iff {v : ViewportState} {turns : List (Option DialOutcome)}
    (h : Runs.exec turn (start v) turns = some s) :
    (s.attempts.Nodup ∧ ((∀ o, some o ∈ turns → o.Brief) →
        s.dialled.length ≤ v.stack.length + 2 ∧ turns.length ≤ 2 * v.stack.length + 6)) ↔
      some .returned ∉ turns := by
  have hnodup := (owed_start v).nodup_run h
  rw [and_iff_right (attempts_start v)] at hnodup
  rw [hnodup]
  refine and_iff_left_of_imp fun hreturned hbrief => ?_
  obtain ⟨hdials, hturns⟩ := (owed_start v).measure_run h fun o ho => ⟨hbrief o ho, fun heq => hreturned (heq ▸ ho)⟩
  have hle := left_le (start v).viewport (start v).effects
  rw [stack_start] at hle
  have hlen := (owed_start v).asks.length
  have hleft : (start v).turnsLeft ≤ 2 * (start v).remaining + (start v).effects.length + 1 := by
    rw [turnsLeft]
    split
    · exact Nat.zero_le _
    · exact Nat.le_refl _
  have hnone : (start v).dialled.length = 0 := rfl
  rw [← remaining] at hle
  exact ⟨by omega, by omega⟩

/-- A session that ended over another one: one dial, and the loop is over. -/
theorem dialled_once_ended :
    some DialOutcome.returned ∉
      [some (DialOutcome.entered false ":a".toList [⟨.attachEnded (.ended 1 none), rfl⟩] true), none] :=
  (dialled_once_iff (rfl : Runs.exec turn
    (start { stack := [{ target := ":a".toList }], attachEnd := some (.ended 0 none) })
    [some (DialOutcome.entered false ":a".toList [⟨.attachEnded (.ended 1 none), rfl⟩] true), none] = some _)).1
    ⟨by decide, fun _ => by decide⟩

/-- The dial of a switch returns at once, without a session, and is dialled again. -/
theorem dialled_twice :
    ¬ ∀ (v : ViewportState) (turns : List (Option DialOutcome)) (s : ReattachLoop),
      Runs.exec turn (start v) turns = some s → s.attempts.Nodup := by
  intro h
  have hnodup := h ((ViewportState.enter {} "h:a".toList).apply (.switchRequested ":b".toList)).1 [some .returned] _ rfl
  exact absurd hnodup (by decide)

/-! ### The front door -/

/-- The loop does what the front door does. -/
structure Follows (r : ReattachLoop) (s : FrontDoor) : Prop where
  goes : r.ended = false
  viewport : r.viewport = s.viewport
  effects : r.effects = s.effects
  unarmed : s.viewport.anonymousCreate = false

theorem unarmed_attachReturned (h : v.anonymousCreate = false) :
    (v.apply .attachReturned).1.anonymousCreate = false := by
  grind [apply, leave.eq_def]

theorem unarmed_dialFailed (h : v.anonymousCreate = false) :
    (v.apply (.dialFailed t)).1.anonymousCreate = false := by
  grind [apply, continueCascade]

theorem unarmed_enter (v : ViewportState) : (v.enter t).anonymousCreate = false := by grind [enter]

theorem Follows.dialFailed {s : FrontDoor} (h : r.Follows s)
    (hphase : (s.dialFailed t).phase = .looping) : (r.dialFailed t).Follows (s.dialFailed t) := by
  rw [FrontDoor.dialFailed] at hphase ⊢
  rw [ReattachLoop.dialFailed, h.viewport]
  split
  · next hnone =>
      rw [if_pos hnone] at hphase
      cases hphase
  · refine ⟨h.goes, ?_, ?_, ?_⟩
    · show (r.viewport.apply _).1 = (s.viewport.apply _).1
      rw [h.viewport]
    · show r.effects ++ (r.viewport.apply _).2 = s.effects ++ (s.viewport.apply _).2
      rw [h.effects, h.viewport]
    · exact unarmed_dialFailed h.unarmed

theorem Follows.dial {s d : FrontDoor} {result : Dialled} (h : r.Follows { s with effects })
    (hd : FrontDoor.Dials { s with effects } (d, result)) :
    (result = .returned → ({ r with dialled := r.dialled ++ [(r.recorded, t)] } : ReattachLoop).Follows d) ∧
      (result = .failed → ({ r with dialled := r.dialled ++ [(r.recorded, t)] } : ReattachLoop).Follows d ∨
        ∃ armed entered, (({ r with dialled := r.dialled ++ [(r.recorded, t)] } : ReattachLoop).attach
          armed entered []).Follows d) := by
  rcases hd.viewport with ⟨hsame, -⟩ | ⟨⟨entered, armed, hentered⟩, hresult⟩
  · have hfollows : ({ r with dialled := r.dialled ++ [(r.recorded, t)] } : ReattachLoop).Follows d :=
      ⟨h.goes, h.viewport.trans hsame.symm, h.effects.trans hd.effects.symm, hsame ▸ h.unarmed⟩
    exact ⟨fun _ => hfollows, fun _ => .inl hfollows⟩
  · refine ⟨fun hreturned => ?_, fun _ => .inr ⟨armed, entered, ?_⟩⟩
    · rcases hresult with heq | ⟨place, heq⟩
      · exact absurd (hreturned.symm.trans heq) (by decide)
      · cases hreturned.symm.trans heq
    · have hunarmed : d.viewport.anonymousCreate = false := by
        rw [hentered]
        exact unarmed_enter _
      cases armed with
      | true =>
        refine ⟨h.goes, ?_, h.effects.trans hd.effects.symm, hunarmed⟩
        show ((r.viewport.apply .anonymousCreateArmed).1.apply (.entered entered)).1 = d.viewport
        rw [h.viewport]
        exact hentered.symm
      | false =>
        refine ⟨h.goes, ?_, h.effects.trans hd.effects.symm, hunarmed⟩
        show (r.viewport.apply (.entered entered)).1 = d.viewport
        rw [h.viewport]
        refine Eq.trans ?_ hentered.symm
        rw [← h.unarmed]

theorem looping_of_turn {w : World} {s s' : FrontDoor} (hturn : s.turn w = some s') : s.phase = .looping := by
  cases hs : s.phase with
  | looping => rfl
  | _ =>
    rw [FrontDoor.turn.eq_def, hs] at hturn
    cases hturn

/-- **The front door takes these turns**: while no attach runs, a turn of the front door is one of the loop. -/
theorem of_turn {w : World} {s s' : FrontDoor} (hturn : s.turn w = some s') (hphase : s'.phase = .looping)
    (h : r.Follows s) : ∃ o r', r.turn o = some r' ∧ r'.Follows s' := by
  have hlooping := looping_of_turn hturn
  cases heffects : s.effects with
  | nil =>
    rw [FrontDoor.turn.eq_def, hlooping, heffects] at hturn
    cases hturn
    cases hphase
  | cons e effects =>
    have hr : r.effects = e :: effects := h.effects.trans heffects
    cases e with
    | exit attachEnd skipped =>
      rw [FrontDoor.turn.eq_def, hlooping, heffects] at hturn
      cases hturn
      cases hphase
    | refreshStatus =>
      rw [FrontDoor.turn.eq_def, hlooping, heffects] at hturn
      cases hturn
      refine ⟨none, { r with effects }, ?_, h.goes, h.viewport, rfl, h.unarmed⟩
      rw [turn.eq_def, h.goes, hr]
      rfl
    | dial t =>
      rw [FrontDoor.turn_dial hlooping heffects] at hturn
      have hd := FrontDoor.dispatchPh_dials w { s with effects } (phParse (some t))
      have hfollows : Follows { r with effects } { s with effects } := ⟨h.goes, h.viewport, rfl, h.unarmed⟩
      cases hdial : FrontDoor.dispatchPh w { s with effects } (phParse (some t)) with
      | mk d result =>
        rw [hdial] at hturn hd
        obtain ⟨hreturned, hfailed⟩ := hfollows.dial (t := t) hd
        cases result with
        | attached place =>
          cases hturn
          cases hphase
        | choosing =>
          cases hturn
          cases hphase
        | returned =>
          cases hturn
          have hsame := hreturned rfl
          refine ⟨some .returned, _, turn_of_dial h.goes hr, hsame.goes, ?_, ?_,
            unarmed_attachReturned hsame.unarmed⟩
          · show (r.viewport.apply .attachReturned).1 = (d.viewport.apply .attachReturned).1
            rw [show r.viewport = d.viewport from hsame.viewport]
          · show effects ++ (r.viewport.apply .attachReturned).2 = d.effects ++ (d.viewport.apply .attachReturned).2
            rw [show r.viewport = d.viewport from hsame.viewport, show effects = d.effects from hsame.effects]
        | failed =>
          cases hturn
          rcases hfailed rfl with hsame | ⟨armed, entered, hentered⟩
          · exact ⟨some .failed, _, turn_of_dial h.goes hr, hsame.dialFailed hphase⟩
          · exact ⟨some (.entered armed entered [] false), _, turn_of_dial h.goes hr,
              hentered.dialFailed hphase⟩

/-- **The front door refines the loop**: from an attach that has returned, and whatever the world is at each turn, its
turns are a run of the loop. -/
theorem of_turns {ws : List World} {s : FrontDoor} (hunarmed : v.anonymousCreate = false)
    (h : exec (fun s w => FrontDoor.turn w s) (FrontDoor.afterAttach v) ws = some s) (hphase : s.phase = .looping) :
    ∃ os r, exec turn (start v) os = some r ∧ r.Follows s := by
  have hstart : (start v).Follows (FrontDoor.afterAttach v) := ⟨rfl, rfl, rfl, unarmed_attachReturned hunarmed⟩
  have hstep : ∀ (s : FrontDoor) (w : World) (s' : FrontDoor) (r : ReattachLoop), (s.phase = .looping → r.Follows s) →
      s.turn w = some s' → ∃ os r', exec turn r os = some r' ∧ (s'.phase = .looping → r'.Follows s') := by
    intro s w s' r hR hturn
    by_cases hgoes : s'.phase = .looping
    · obtain ⟨o, r', hr', hfollows⟩ := of_turn hturn hgoes (hR (looping_of_turn hturn))
      exact ⟨[o], r', (exec_singleton _ _).trans hr', fun _ => hfollows⟩
    · exact ⟨[], r, rfl, fun hno => absurd hno hgoes⟩
  obtain ⟨os, r, hr, hfollows⟩ := exec_simulation hstep (fun _ => hstart) h
  exact ⟨os, r, hr, hfollows hphase⟩

/-- A session's directory cannot be made: the one beneath it is dialled. -/
theorem of_turns_refused :
    ∃ os r, exec turn (start { attachEnd := some (.ended 0 none), stack := [{ target := ":a".toList },
      { target := ":b".toList }] }) os = some r ∧ r.effects = [.dial ":a".toList] :=
  let w : World := ⟨[], [], none, true, fun _ => false, fun _ => 0, fun _ _ => false, fun _ _ => false, fun _ => none,
    fun _ _ _ => .unreachable, fun _ _ => none⟩
  (of_turns rfl (show exec _ _ [w] = _ from rfl) rfl).imp fun _ h => h.imp fun _ h =>
    ⟨h.1, h.2.effects.trans (by decide +kernel)⟩

end ReattachLoop

end Posh
