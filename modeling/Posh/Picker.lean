/-
**The viewport's state machine.**

One process of the front door shows one session at a time.  What it knows about itself, where it is,
which sessions lie beneath and which transition is under way, is one state with one transition
function: an event is an observation by a client or by the front door, an effect is what the caller
must do about it.  Arriving somewhere and leaving somewhere are one operation, so nothing arrives
without the session it left going on the stack; and a session that ends on its own starts a cascade,
which collects the sessions found dead until the viewport lands or the stack runs out.
-/

import Mathlib.Data.Int.Notation
import Posh.Target

set_option autoImplicit false

namespace Posh

/-! ### What is known of a session -/

/-- The kind a daemon reports its session as. -/
inductive SessionKind where
  | unknown | anonymous | named | system
  deriving DecidableEq, Repr

/-- Why a session ended, when the daemon says. -/
inductive SessionEnd where
  | exited | killed | signaled (signo : UInt8) | failed
  deriving DecidableEq, Repr

inductive AttachEnd where
  /-- the session itself ended, with this status -/
  | ended (code : ℤ) (cause : Option SessionEnd)
  /-- the attach lost the session, for this reason -/
  | lost (reason : Text)
  /-- the user quit or detached, or a switch ended it -/
  | quit
  deriving DecidableEq, Repr

/-- The session went away: it ended, or was lost. -/
def AttachEnd.isGone : AttachEnd → Bool
  | .ended _ _ | .lost _ => true
  | .quit => false

/-- A session the viewport switched away from. -/
structure StackEntry where
  target : Text
  kind : SessionKind := .unknown
  activity : Text := []
  deriving DecidableEq, Repr

/-- The attach in progress. -/
structure Current where
  target : Text
  kind : SessionKind := .unknown
  /-- this front door created it as an anonymous session -/
  anonymousCreate : Bool := false
  activity : Text := []
  deriving DecidableEq, Repr

/-- The kind a session is reported as: a daemon that cannot say leaves one created here anonymous. -/
def Current.effectiveKind (c : Current) : SessionKind :=
  match c.kind with
  | .unknown => if c.anonymousCreate then .anonymous else .unknown
  | kind => kind

/-! ### The machine -/

/-- The transition a client asked for. -/
inductive Pending where
  | switch (target : Text)
  /-- to the top of the stack at the time of the dial -/
  | pop
  deriving DecidableEq, Repr

/-- An automatic pop in flight. -/
structure Cascade where
  /-- the end that started it -/
  original : AttachEnd
  /-- the session that ended, and each entry whose dial failed, in the order they were found -/
  gone : List StackEntry
  deriving DecidableEq, Repr

/-- The stack as it is shown: the newest first. -/
structure StackView where
  below : List StackEntry
  current : Option StackEntry
  deriving DecidableEq, Repr

/-- What an automatic pop has to say. -/
structure PopNotice where
  ended : AttachEnd
  gone : List StackEntry
  view : StackView
  deriving DecidableEq, Repr

/-- A view shown over a session. -/
structure Overlay where
  kind : Text
  overTarget : Option Text
  deriving DecidableEq, Repr

/-- Everything one viewport process knows about itself. -/
structure ViewportState where
  current : Option Current := none
  /-- the sessions switched away from, the most recent last -/
  stack : List StackEntry := []
  pending : Option Pending := none
  /-- the next session entered is one created here -/
  anonymousCreate : Bool := false
  /-- the client's verdict on the attach that just ended -/
  attachEnd : Option AttachEnd := none
  cascade : Option Cascade := none
  overlays : List Overlay := []
  /-- what the next attach shows -/
  notice : Option PopNotice := none
  deriving DecidableEq, Repr

inductive ViewportEvent where
  | switchRequested (target : Text)
  | popRequested
  /-- an attach began on `target` -/
  | entered (target : Text)
  | kindReported (kind : SessionKind)
  | activityReported (label : Text)
  | attachEnded (attachEnd : AttachEnd)
  /-- the attach call returned -/
  | attachReturned
  /-- dialling `target` failed -/
  | dialFailed (target : Text)
  | anonymousCreateArmed
  | overlayOpened (kind : Text)
  | overlayClosed (kind : Text)
  deriving DecidableEq, Repr

inductive ViewportEffect where
  | dial (target : Text)
  | exit (attachEnd : Option AttachEnd) (skipped : List StackEntry)
  | refreshStatus
  deriving DecidableEq, Repr

namespace ViewportState

/-- The attach in progress as a stack entry. -/
def currentEntry (s : ViewportState) : Option StackEntry :=
  s.current.map fun c => { target := c.target, kind := c.effectiveKind, activity := c.activity }

def view (s : ViewportState) : StackView where
  below := s.stack.reverse
  current := s.currentEntry

/-- The target a recorded transition dials. -/
def pendingTarget (s : ViewportState) : Option Text :=
  match s.pending with
  | some .pop => s.stack.getLast?.map StackEntry.target
  | some (.switch target) => some target
  | none => none

/-- Arriving: a pop takes its destination off the stack, everything else puts on it what is left. -/
def enter (s : ViewportState) (target : Text) : ViewportState :=
  let stack :=
    match s.pending with
    | some .pop => s.stack.dropLast
    | _ => s.stack ++ s.currentEntry.toList
  let arrived : ViewportState :=
    { s with
      pending := none
      stack
      current := some { target, anonymousCreate := s.anonymousCreate }
      anonymousCreate := false
      cascade := none }
  match s.cascade with
  | some c =>
    { arrived with
      notice := some { ended := c.original, gone := c.gone, view := arrived.view } }
  | none => arrived

/-- What follows an attach that returned without a transition asked for. -/
def leave (s : ViewportState) (attachEnd : Option AttachEnd) : ViewportState × List ViewportEffect :=
  match attachEnd, s.stack.getLast? with
  | some e, some top =>
    if e.isGone then
      ({ s with
          cascade := some { original := e, gone := s.currentEntry.toList }
          pending := some .pop }, [.dial top.target])
    else (s, [.exit attachEnd []])
  | _, _ => (s, [.exit attachEnd []])

/-- A dial that failed in the middle of a cascade. -/
def continueCascade (s : ViewportState) (c : Cascade) (target : Text) :
    ViewportState × List ViewportEffect :=
  let (dead, stack) : StackEntry × List StackEntry :=
    match s.stack.getLast? with
    | some top => if top.target = target then (top, s.stack.dropLast) else ({ target }, s.stack)
    | none => ({ target }, s.stack)
  let gone := c.gone ++ [dead]
  match stack.getLast? with
  | some top =>
    ({ s with stack, cascade := some { c with gone }, pending := some .pop }, [.dial top.target])
  | none => ({ s with stack, cascade := none, pending := none }, [.exit (some c.original) gone])

/-- **The transition function.** -/
def apply (s : ViewportState) : ViewportEvent → ViewportState × List ViewportEffect
  | .switchRequested target => ({ s with pending := some (.switch target) }, [])
  | .popRequested => if s.stack = [] then (s, []) else ({ s with pending := some .pop }, [])
  | .entered target => (s.enter target, [.refreshStatus])
  | .kindReported kind =>
    -- a known kind is never unsaid
    match s.current with
    | some c =>
      if kind ≠ .unknown ∧ c.kind ≠ kind then
        ({ s with current := some { c with kind } }, [.refreshStatus])
      else (s, [])
    | none => (s, [])
  | .activityReported label =>
    match s.current with
    | some c => if label ≠ [] then ({ s with current := some { c with activity := label } }, [])
        else (s, [])
    | none => (s, [])
  | .attachEnded e => ({ s with attachEnd := some e }, [])
  | .attachReturned =>
    let returned := { s with attachEnd := none }
    match returned.pendingTarget with
    | some target => (returned, [.dial target])
    | none => returned.leave s.attachEnd
  | .dialFailed target =>
    match s.cascade with
    | none => ({ s with pending := none }, [])
    | some c => ({ s with cascade := none } : ViewportState).continueCascade c target
  | .anonymousCreateArmed => ({ s with anonymousCreate := true }, [])
  | .overlayOpened kind =>
    ({ s with overlays := s.overlays ++ [{ kind, overTarget := s.current.map Current.target }] },
      [.refreshStatus])
  | .overlayClosed kind =>
    ({ s with overlays := (s.overlays.reverse.eraseP fun o => o.kind = kind).reverse }, [.refreshStatus])

/-! ### Landing and leaving -/

variable {s : ViewportState} {below : List StackEntry} {top : StackEntry} {c : Cascade}

/-- **Arriving at the end of a cascade** takes the destination off the stack and leaves one notice. -/
theorem apply_entered_cascade (hpending : s.pending = some .pop)
    (hcascade : s.cascade = some c) (hstack : s.stack = below ++ [top]) (target : Text) :
    (s.apply (.entered target)).1.current.map Current.target = some target ∧
      (s.apply (.entered target)).1.stack = below ∧ (s.apply (.entered target)).1.pending = none ∧
      (s.apply (.entered target)).1.cascade = none ∧ ∃ view, (s.apply (.entered target)).1.notice =
        some { ended := c.original, gone := c.gone, view } := by
  simp [apply, enter, hpending, hcascade, hstack]

/-- **A session that went away** is followed by a dial of the entry beneath it. -/
theorem apply_attachReturned_gone {e : AttachEnd} (hpending : s.pending = none)
    (hend : s.attachEnd = some e) (he : e.isGone = true) (hstack : s.stack = below ++ [top]) :
    s.apply .attachReturned = ({ s with
          attachEnd := none
          cascade := some { original := e, gone := s.currentEntry.toList }
          pending := some .pop }, [.dial top.target]) := by
  simp only [apply, pendingTarget, hpending, leave, hend, hstack, List.getLast?_concat, he, if_true]
  rfl

theorem apply_attachReturned_empty (hpending : s.pending = none) (hstack : s.stack = []) :
    s.apply .attachReturned = ({ s with attachEnd := none }, [.exit s.attachEnd []]) := by
  simp only [apply, pendingTarget, hpending, leave, hstack, List.getLast?_nil]
  cases s.attachEnd <;> rfl

/-- **A dial of the top that fails in a cascade** takes the entry off and records it, and the next one
is dialled, or the viewport leaves. -/
theorem apply_dialFailed_cascade (hcascade : s.cascade = some c)
    (hstack : s.stack = below ++ [top]) :
    s.apply (.dialFailed top.target) = match below.getLast? with
      | some next =>
        ({ s with
            stack := below
            cascade := some { c with gone := c.gone ++ [top] }
            pending := some .pop }, [.dial next.target])
      | none =>
        ({ s with stack := below, cascade := none, pending := none },
          [.exit (some c.original) (c.gone ++ [top])]) := by
  simp only [apply, hcascade, continueCascade, hstack, List.getLast?_concat, if_true, List.dropLast_concat]

theorem apply_dialFailed_none (hcascade : s.cascade = none) (target : Text) :
    s.apply (.dialFailed target) = ({ s with pending := none }, []) := by
  simp only [apply, hcascade]

theorem apply_entered (s : ViewportState) (target : Text) : (s.apply (.entered target)).1.cascade = none ∧
      (s.pending = some .pop → (s.apply (.entered target)).1.stack = s.stack.dropLast) := by
  simp only [apply, enter]
  refine ⟨by split <;> rfl, fun hpending => ?_⟩
  rw [hpending]
  split <;> rfl

theorem apply_dialFailed_some (hcascade : s.cascade = some c) (target : Text) :
    ((s.apply (.dialFailed target)).1.pending = some .pop ∧ (s.apply (.dialFailed target)).1.stack ≠ [] ∧
        (s.apply (.dialFailed target)).1.stack.length ≤ s.stack.length ∧
        ∃ next, (s.apply (.dialFailed target)).2 = [.dial next]) ∨
      ∃ skipped, (s.apply (.dialFailed target)).2 = [.exit (some c.original) skipped] := by
  have hle : s.stack.dropLast.length ≤ s.stack.length := by
    rw [List.length_dropLast]
    exact Nat.sub_le _ _
  have hne {stack : List StackEntry} {next : StackEntry} (h : stack.getLast? = some next) :
      stack ≠ [] := by
    rintro rfl
    cases h
  simp only [apply, hcascade, continueCascade]
  cases htop : s.stack.getLast? with
  | none =>
    simp only [htop]
    exact .inr ⟨_, rfl⟩
  | some top =>
    by_cases heq : top.target = target
    · simp only [if_pos heq]
      cases hnext : s.stack.dropLast.getLast? with
      | some next => exact .inl ⟨rfl, hne hnext, hle, _, rfl⟩
      | none => exact .inr ⟨_, rfl⟩
    · simp only [if_neg heq, htop]
      exact .inl ⟨trivial, hne htop, Nat.le_refl _, _, rfl⟩

end ViewportState

end Posh
