/-
**The session stack as the path taken.**

The viewport keeps the sessions it has left on a stack, so that it can go back.  Arriving somewhere should then
either take the session arrived at off the stack, or put the session left on it, and nothing else should touch the
stack except a dial of its top that failed.  What the arrival does is decided by the request that is recorded, and
not by where it arrives: a daemon that re-homes the viewport while a *Back* is still to be dialled takes the top off
all the same, and forgets the session that was left.
-/

import Mathlib.Data.List.Induction
import Posh.Picker

set_option autoImplicit false

namespace Posh

open StackEntry

/-- **The path visited**, with the suffixes that were popped, and the sessions that a dial found gone, taken off. -/
inductive Trail : List ViewportEvent → List Text → Prop where
  | start : Trail [] []
  | visit {events : List ViewportEvent} {path : List Text} (t : Text) :
      Trail events path → Trail (events ++ [.entered t]) (path ++ [t])
  | back {events : List ViewportEvent} {path : List Text} {t current : Text} :
      Trail events (path ++ [t, current]) → Trail (events ++ [.entered t]) (path ++ [t])
  | gone {events : List ViewportEvent} {path : List Text} {t current : Text} :
      Trail events (path ++ [t, current]) → Trail (events ++ [.dialFailed t]) (path ++ [current])
  | stay {events : List ViewportEvent} {path : List Text} {e : ViewportEvent} :
      (∀ t, e ≠ .entered t) → Trail events path → Trail (events ++ [e]) path

namespace ViewportState

/-- The viewport of a new process after events. -/
def after (events : List ViewportEvent) : ViewportState := events.foldl (fun s e => (s.apply e).1) {}

theorem after_concat (events : List ViewportEvent) (e : ViewportEvent) :
    after (events ++ [e]) = ((after events).apply e).1 := by
  rw [after, List.foldl_append]
  rfl

/-- The targets of the stack, and of the session that the viewport is in. -/
def path (s : ViewportState) : List Text := s.stack.map StackEntry.target ++ (s.current.map Current.target).toList

/-- An arrival at `t` takes the top off the stack, and `t` is its target, or it puts the session left on it. -/
def Arrives (s : ViewportState) (t : Text) (s' : ViewportState) : Prop :=
  (∃ top, s.stack = s'.stack ++ [top] ∧ top.target = t) ∨ s'.stack = s.stack ++ s.currentEntry.toList

/-- Any other event leaves the stack as it is, or it tells that a dial of the top failed. -/
def Holds (s : ViewportState) (e : ViewportEvent) (s' : ViewportState) : Prop :=
  s'.stack = s.stack ∨ ∃ top, s.stack = s'.stack ++ [top] ∧ e = .dialFailed top.target

/-- While a *Back* is recorded, the arrival is at the top of the stack. -/
def Expected (s : ViewportState) (t : Text) : Prop :=
  s.pending = some .pop → ∃ top ∈ s.stack.getLast?, top.target = t

/-! ### What is kept -/

/-- There is something to go back to, and whatever was left was left for another session. -/
structure Rooted (s : ViewportState) : Prop where
  back : s.pending = some .pop → s.stack ≠ []
  current : s.stack ≠ [] → s.current ≠ none

theorem rooted_empty : Rooted {} := ⟨fun h => (by cases h), fun h => absurd rfl h⟩

variable {s : ViewportState} {events : List ViewportEvent} {e : ViewportEvent}

theorem stack_enter (s : ViewportState) (t : Text) :
    (s.enter t).stack = if s.pending = some .pop then s.stack.dropLast else s.stack ++ s.currentEntry.toList := by
  rw [enter]
  cases s.cascade with
  | none | some =>
    dsimp only
    split
    · next hpop => rw [if_pos hpop]
    · next hpop => rw [if_neg hpop]

theorem current_enter (s : ViewportState) (t : Text) :
    (s.enter t).current = some { target := t, anonymousCreate := s.anonymousCreate } := by
  rw [enter]
  split <;> rfl

theorem pending_enter (s : ViewportState) (t : Text) : (s.enter t).pending = none := by
  rw [enter]
  split <;> rfl

/-- **A dial that failed in a cascade** takes the top off if it is what was dialled, and records a *Back* if there is
something left. -/
theorem continueCascade_spec (s : ViewportState) (c : Cascade) (t : Text) :
    (s.continueCascade c t).1.current = s.current ∧ s.Holds (.dialFailed t) (s.continueCascade c t).1 ∧
      ((s.continueCascade c t).1.pending = some .pop → (s.continueCascade c t).1.stack ≠ []) := by
  -- what is left of the stack decides what follows
  have hnext {stack : List StackEntry} {next : StackEntry} (h : stack.getLast? = some next) : stack ≠ [] := by
    rintro rfl
    cases h
  simp only [continueCascade]
  cases htop : s.stack.getLast? with
  | none =>
    simp only [htop]
    exact ⟨trivial, .inl rfl, fun h => by cases h⟩
  | some top =>
    obtain ⟨below, hbelow⟩ := List.getLast?_eq_some_iff.1 htop
    by_cases heq : top.target = t
    · have htaken : s.stack = s.stack.dropLast ++ [top] := by rw [hbelow, List.dropLast_concat]
      simp only [if_pos heq]
      cases hleft : s.stack.dropLast.getLast? with
      | some next => exact ⟨rfl, .inr ⟨top, htaken, by rw [heq]⟩, fun _ => hnext hleft⟩
      | none => exact ⟨rfl, .inr ⟨top, htaken, by rw [heq]⟩, fun h => by cases h⟩
    · simp only [if_neg heq, htop]
      exact ⟨trivial, .inl rfl, fun _ => hnext htop⟩

/-- **What an event that is no arrival does**: to the session that the viewport is in nothing, and to the stack what
`Holds` says. -/
theorem apply_of_not_entered (s : ViewportState) (he : ∀ t, e ≠ .entered t) :
    (s.apply e).1.current.map Current.target = s.current.map Current.target ∧ s.Holds e (s.apply e).1 := by
  cases e with
  | entered t => exact absurd rfl (he t)
  | switchRequested target => exact ⟨rfl, .inl rfl⟩
  | popRequested =>
    rw [apply]
    split
    · exact ⟨rfl, .inl rfl⟩
    · exact ⟨rfl, .inl rfl⟩
  | kindReported kind =>
    simp only [apply]
    cases hcurrent : s.current with
    | none => exact ⟨by rw [hcurrent], .inl rfl⟩
    | some c =>
      dsimp only
      split
      · exact ⟨rfl, .inl rfl⟩
      · exact ⟨by rw [hcurrent], .inl rfl⟩
  | activityReported label =>
    simp only [apply]
    cases hcurrent : s.current with
    | none => exact ⟨by rw [hcurrent], .inl rfl⟩
    | some c =>
      dsimp only
      split
      · exact ⟨rfl, .inl rfl⟩
      · exact ⟨by rw [hcurrent], .inl rfl⟩
  | attachEnded attachEnd => exact ⟨rfl, .inl rfl⟩
  | attachReturned =>
    simp only [apply]
    split
    · exact ⟨rfl, .inl rfl⟩
    · rw [leave.eq_def]
      split
      · split
        · exact ⟨rfl, .inl rfl⟩
        · exact ⟨rfl, .inl rfl⟩
      · exact ⟨rfl, .inl rfl⟩
  | dialFailed target =>
    simp only [apply]
    cases hcascade : s.cascade with
    | none => exact ⟨rfl, .inl rfl⟩
    | some c =>
      obtain ⟨hcurrent, hholds, -⟩ := continueCascade_spec { s with cascade := none } c target
      exact ⟨by rw [hcurrent], hholds⟩
  | anonymousCreateArmed => exact ⟨rfl, .inl rfl⟩
  | overlayOpened kind => exact ⟨rfl, .inl rfl⟩
  | overlayClosed kind => exact ⟨rfl, .inl rfl⟩

theorem Rooted.back_apply (h : s.Rooted) (e : ViewportEvent) :
    (s.apply e).1.pending = some .pop → (s.apply e).1.stack ≠ [] := by
  cases e with
  | entered t =>
    intro hpop
    rw [apply, pending_enter] at hpop
    cases hpop
  | switchRequested target => exact fun hpop => by cases hpop
  | popRequested =>
    rw [apply]
    split
    · exact h.back
    · next hne => exact fun _ => hne
  | kindReported kind =>
    simp only [apply]
    split
    · split
      · exact h.back
      · exact h.back
    · exact h.back
  | activityReported label =>
    simp only [apply]
    split
    · split
      · exact h.back
      · exact h.back
    · exact h.back
  | attachReturned =>
    simp only [apply]
    split
    · exact h.back
    · rw [leave.eq_def]
      split
      · next top _ htop =>
          split
          · intro _ hnil
            have hnil' : s.stack = [] := hnil
            rw [hnil'] at htop
            cases htop
          · exact h.back
      · exact h.back
  | dialFailed target =>
    simp only [apply]
    cases hcascade : s.cascade with
    | none => exact fun hpop => by cases hpop
    | some c => exact (continueCascade_spec { s with cascade := none } c target).2.2
  | attachEnded attachEnd => exact h.back
  | anonymousCreateArmed => exact h.back
  | overlayOpened kind => exact h.back
  | overlayClosed kind => exact h.back

/-- **A session that was left has a successor**, whatever happens. -/
theorem Rooted.apply (h : s.Rooted) (e : ViewportEvent) : (s.apply e).1.Rooted := by
  refine ⟨h.back_apply e, fun hne => ?_⟩
  by_cases he : ∃ t, e = .entered t
  · obtain ⟨t, rfl⟩ := he
    rw [ViewportState.apply, current_enter]
    exact Option.some_ne_none _
  · obtain ⟨hcurrent, hholds⟩ := s.apply_of_not_entered fun t ht => he ⟨t, ht⟩
    have hstack : s.stack ≠ [] := by
      rcases hholds with heq | ⟨top, heq, -⟩
      · exact heq ▸ hne
      · rw [heq]
        exact List.append_ne_nil_of_right_ne_nil _ (List.cons_ne_nil _ _)
    intro hnone
    rw [hnone, Option.map_none, eq_comm, Option.map_eq_none_iff] at hcurrent
    exact h.current hstack hcurrent

theorem rooted_after (events : List ViewportEvent) : (after events).Rooted := by
  induction events using List.reverseRecOn with
  | nil => exact rooted_empty
  | append_singleton events e ih =>
    rw [after_concat]
    exact ih.apply e

/-! ### Arrivals -/

/-- **What an arrival does**: it takes the session arrived at off the stack or puts the session left on it, exactly
when it is expected. -/
theorem Rooted.arrives_iff (h : s.Rooted) (t : Text) : s.Arrives t (s.apply (.entered t)).1 ↔ s.Expected t := by
  rw [Arrives, Expected]
  show (∃ top, s.stack = (s.enter t).stack ++ [top] ∧ top.target = t) ∨
    (s.enter t).stack = s.stack ++ s.currentEntry.toList ↔ _
  rw [stack_enter]
  by_cases hpop : s.pending = some .pop
  · obtain ⟨top, htop⟩ := Option.ne_none_iff_exists'.1 (mt List.getLast?_eq_none_iff.1 (h.back hpop))
    obtain ⟨below, hbelow⟩ := List.getLast?_eq_some_iff.1 htop
    rw [if_pos hpop, htop, hbelow, List.dropLast_concat]
    constructor
    · rintro (⟨top', heq, htarget⟩ | hpush) -
      · obtain rfl : top = top' := by simpa using heq
        exact ⟨top, rfl, htarget⟩
      · -- the stack is shorter than before
        have hlen := congrArg List.length hpush
        simp only [List.length_append, List.length_cons, List.length_nil] at hlen
        omega
    · intro hexpected
      obtain ⟨top', htop', htarget⟩ := hexpected hpop
      obtain rfl : top = top' := Option.some.inj htop'
      exact .inl ⟨top, rfl, htarget⟩
  · rw [if_neg hpop]
    exact iff_of_true (.inr rfl) fun hno => absurd hno hpop

theorem Rooted.trail_entered (h : s.Rooted) (htrail : Trail events s.path) {t : Text}
    (hexpected : s.Expected t) : Trail (events ++ [.entered t]) (s.apply (.entered t)).1.path := by
  show Trail _ ((s.enter t).stack.map target ++ ((s.enter t).current.map Current.target).toList)
  rw [stack_enter, current_enter]
  by_cases hpop : s.pending = some .pop
  · obtain ⟨top, htop, rfl⟩ := hexpected hpop
    obtain ⟨below, hbelow⟩ := List.getLast?_eq_some_iff.1 htop
    obtain ⟨c, hc⟩ := Option.ne_none_iff_exists'.1 (h.current (h.back hpop))
    rw [if_pos hpop, hbelow, List.dropLast_concat]
    have hback : Trail events (below.map target ++ [top.target, c.target]) := by
      rw [path, hbelow, hc] at htrail
      simpa using htrail
    exact hback.back
  · rw [if_neg hpop, List.map_append]
    have hpath : s.stack.map target ++ s.currentEntry.toList.map target = s.path := by
      rw [path, currentEntry]
      cases s.current <;> rfl
    rw [hpath]
    exact htrail.visit t

theorem Rooted.trail_other (h : s.Rooted) (htrail : Trail events s.path)
    (he : ∀ t, e ≠ .entered t) : Trail (events ++ [e]) (s.apply e).1.path := by
  obtain ⟨hcurrent, hholds⟩ := s.apply_of_not_entered he
  rw [path, hcurrent]
  rcases hholds with heq | ⟨top, heq, rfl⟩
  · rw [heq]
    exact htrail.stay he
  · have hne : s.stack ≠ [] := by
      rw [heq]
      exact List.append_ne_nil_of_right_ne_nil _ (List.cons_ne_nil _ _)
    obtain ⟨c, hc⟩ := Option.ne_none_iff_exists'.1 (h.current hne)
    have hgone : Trail events ((s.apply (.dialFailed top.target)).1.stack.map target ++
        [top.target, c.target]) := by
      rw [path, heq, hc] at htrail
      simpa using htrail
    rw [hc]
    exact hgone.gone

/-- **The stack is the path taken**: every arrival takes the session arrived at off the stack or puts the session left
on it, nothing else touches the stack but a dial of its top that failed, and the stack with the session that the
viewport is in is the path visited without what was popped, exactly when every arrival while a *Back* is recorded is
at the top of the stack. -/
theorem stack_is_path_iff (events : List ViewportEvent) :
    ((∀ front t, front ++ [.entered t] <+: events → (after front).Arrives t (after (front ++ [.entered t]))) ∧
        (∀ front e, front ++ [e] <+: events → (∀ t, e ≠ .entered t) →
          (after front).Holds e (after (front ++ [e]))) ∧ Trail events (after events).path) ↔
      ∀ front t, front ++ [.entered t] <+: events → (after front).Expected t := by
  constructor
  · rintro ⟨harrives, -, -⟩ front t hfront
    have harrive := harrives front t hfront
    rw [after_concat] at harrive
    exact ((rooted_after front).arrives_iff t).1 harrive
  · intro hexpected
    refine ⟨fun front t hfront => ?_, fun front e _ he => ?_, ?_⟩
    · rw [after_concat]
      exact ((rooted_after front).arrives_iff t).2 (hexpected front t hfront)
    · rw [after_concat]
      exact ((after front).apply_of_not_entered he).2
    · induction events using List.reverseRecOn with
      | nil => exact Trail.start
      | append_singleton events e ih =>
        have htrail := ih fun front t hfront => hexpected front t (hfront.trans (List.prefix_append _ _))
        rw [after_concat]
        by_cases he : ∃ t, e = .entered t
        · obtain ⟨t, rfl⟩ := he
          exact (rooted_after events).trail_entered htrail (hexpected events t (List.prefix_refl _))
        · exact (rooted_after events).trail_other htrail fun t ht => he ⟨t, ht⟩

/-- A daemon re-homes the viewport to `:c` while a *Back* to `:a` is recorded: `:a` is taken off the stack, and
`:b`, which was left, is not put on it. -/
theorem stack_is_path_rehomed :
    ¬ ∀ events : List ViewportEvent,
      ∀ front t, front ++ [.entered t] <+: events → (after front).Arrives t (after (front ++ [.entered t])) := by
  intro h
  have harrives := h [.entered ":a".toList, .entered ":b".toList, .popRequested, .entered ":c".toList]
    [.entered ":a".toList, .entered ":b".toList, .popRequested] ":c".toList (List.prefix_refl _)
  rcases harrives with ⟨top, hstack, htarget⟩ | hpush
  · have htop : [{ target := ":a".toList }] = [top] := hstack
    cases htop
    cases htarget
  · cases hpush

end ViewportState

end Posh
