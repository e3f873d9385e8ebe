/-
**Returning to the newest session still there.**

When the session of an attach has ended or was lost, the viewport should land on the newest session of
its stack that is alive and can be reached, having taken off the dead ones above it, making none, and
saying once what happened; with none left it should leave with the end it began with.  The cascade of
the viewport's machine does this as long as a dead entry is *refused*: a dial that fails before it
arrives anywhere continues the cascade.  Most dead entries are not refused.  A dead session on this
machine is started, one on a host that answers is made there, and one on a host that does not answer
is entered first, which ends the cascade.
-/

import Posh.FrontDoor
import Posh.Lib.Runs

set_option autoImplicit false

namespace Posh

open ViewportState
open World
open Option (any_some)

/-! ### Sessions and entries -/

/-- The spelling of a session's target. -/
def SessionPlace.target (p : SessionPlace) : Text := targetFor p.dest p.group p.name

namespace World

/-- The session a target names. -/
def sessionOf (w : World) (target : Text) : Option SessionPlace :=
  match phParse (some target) with
  | .localResolve g session => some ⟨none, some (g.getD w.group), session⟩
  | .remoteResolve user host g session =>
    some ⟨some (phDest user host), effectiveRemoteGroup g w.group, session⟩
  | _ => none

/-- A session is alive and can be reached. -/
def reaches (w : World) : SessionPlace → Bool
  | ⟨none, some group, name⟩ => w.configOk group && w.pathOk group name && w.live group name
  | ⟨none, none, _⟩ => false
  | ⟨some dest, group, name⟩ => w.remote dest group name = .live

/-- A target names a session that is alive and can be reached. -/
def usable (w : World) (target : Text) : Bool := (w.sessionOf target).any w.reaches

/-- An entry is dead, or out of reach. -/
def dead (w : World) (e : StackEntry) : Bool := !w.usable e.target

/-! ### The condition -/

/-- An attach to a usable target is not withheld: the front door does not itself run inside a session,
and the session's name is not a flag. -/
def attaches (w : World) (target : Text) : Bool :=
  match w.sessionOf target with
  | some ⟨none, _, name⟩ => w.inside.isNone && (parseAttachArgs name).isSome
  | _ => true

/-- A session on this machine cannot be started. -/
def startLocalRefused (w : World) (group name : Text) (detach : Bool) : Bool :=
  if detach then !w.pathOk group name || (!w.live group name && !w.bindable group name)
  else
    match w.inside with
    | some current =>
      !w.tty || decide (name = current ∧ group = w.group) || !w.pathOk group name ||
        w.live group name || !w.bindable group name
    | none => !w.pathOk group name || w.live group name || !w.bindable group name

/-- A start of at most one word is refused before anything is made. -/
def startRefused (w : World) (group : Text) (word : Option Text) : Bool :=
  if word = some "--ephemeral".toList then true
  else
    match parseStartArgs word with
    | none => true
    | some args =>
      match classifyStartTarget args.target with
      | .localAuto g =>
        !w.configOk (g.getD group) ||
          match w.nextAutoid (g.getD group) with
          | none => true
          | some name => w.startLocalRefused (g.getD group) name args.detach
      | .localNamed g session =>
        !w.configOk (g.getD group) || w.startLocalRefused (g.getD group) session args.detach
      | .remoteAuto user host g => (w.startRemote (phDest user host) (g.getD group)).isNone
      | .remoteNamed user host g session =>
        w.remote (phDest user host) (effectiveRemoteGroup g group) session ≠ .absent

/-- **A dial of a dead entry is refused** before it arrives: never one on a host, and one on this
machine only if it cannot be started. -/
def refused (w : World) (target : Text) : Bool :=
  match phParse (some target) with
  | .hostNeedsSession _ _ => true
  | .localNew g => w.startRefused (g.getD w.group) none
  | .localResolve g session =>
    !w.configOk (g.getD w.group) || !w.pathOk (g.getD w.group) session ||
      w.startRefused (g.getD w.group) (some session)
  | .remoteNew user host g => (w.startRemote (phDest user host) (g.getD w.group)).isNone
  | _ => false

/-- **The condition on a stack**, newest first: every entry above the newest usable one is refused,
and the attach to that one is not withheld. -/
def returnsCleanly (w : World) : List StackEntry → Bool
  | [] => true
  | e :: below =>
    if w.usable e.target then w.attaches e.target
    else w.refused e.target && w.returnsCleanly below

end World

namespace FrontDoor

variable {w : World} {s s' t : FrontDoor} {target : Text}

/-! ### A dial -/

/-- What a dial does that cannot end well: it makes a session, opens the chooser, fails after the
cascade has ended, or returns with nothing done. -/
def Spoils (s : FrontDoor) (r : FrontDoor × Dialled) : Prop :=
  r.1.created ≠ [] ∨ r.2 = .choosing ∨ (r.2 = .failed ∧ r.1.viewport.cascade = none) ∨ r = (s, .returned)

theorem live_eq (hc : s.created = []) (group name : Text) : s.live w group name = w.live group name := by
  unfold live
  rw [hc]
  simp

theorem make_created_ne (s : FrontDoor) (place : SessionPlace) : (s.make place).created ≠ [] := by
  unfold make
  simp

theorem Dials.created_ne {r : FrontDoor × Dialled} (h : Dials s' r) (hs : s'.created ≠ []) : r.1.created ≠ [] := by
  intro heq
  have hp := h.created
  rw [heq, List.prefix_nil] at hp
  exact hs hp

theorem ensureSession_eq (hc : s.created = []) (group name : Text) :
    ensureSession w s group name = if !w.pathOk group name then none else if w.live group name then some (false, s)
      else if w.bindable group name then some (true, s.make ⟨none, some group, name⟩) else none := by
  unfold ensureSession
  rw [live_eq hc]

theorem spoils_made (place : SessionPlace) (d : Dialled) : Spoils s (s.make place, d) :=
  .inl (make_created_ne s place)

theorem cmdStartLocal_cases (hc : s.created = []) (group name : Text) (detach : Bool) (kind : SessionKind) :
    (w.startLocalRefused group name detach = true ∧ cmdStartLocal w s group name detach kind = (s, .failed)) ∨
      (w.startLocalRefused group name detach = false ∧ Spoils s (cmdStartLocal w s group name detach kind)) := by
  have hensure := ensureSession_eq (w := w) hc group name
  unfold startLocalRefused
  cases detach with
  | true =>
    unfold cmdStartLocal
    rw [hensure]
    cases w.pathOk group name <;> cases w.live group name <;> cases w.bindable group name <;>
      simp [Spoils, make_created_ne]
  | false =>
    cases hin : w.inside with
    | none =>
      unfold cmdStartLocal
      rw [hin, hensure]
      obtain ⟨armed, harm⟩ := (s.make ⟨none, some group, name⟩).armAnonymousCreate_eq kind
      have hmade : (((s.make ⟨none, some group, name⟩).armAnonymousCreate kind).entered
          (targetFor none (some group) name)).created ≠ [] := by
        rw [harm]
        exact make_created_ne s _
      cases w.pathOk group name <;> cases w.live group name <;> cases w.bindable group name <;>
        simp [Spoils, hmade]
    | some current =>
      have hstart : cmdStartLocal w s group name false kind = switchInPlace w s current group name true := by
        unfold cmdStartLocal
        rw [hin]
        rfl
      have hsend : Spoils s (sendSwitchRequest w (s.make ⟨none, some group, name⟩) current) := by
        rcases sendSwitchRequest_cases w (s.make ⟨none, some group, name⟩) current with
          heq | heq <;> rw [heq] <;> exact spoils_made _ _
      rw [hstart]
      unfold switchInPlace
      rw [hensure]
      by_cases hsame : name = current ∧ group = w.group
      · simp [hsame]
      · cases w.tty <;> cases w.pathOk group name <;> cases w.live group name <;>
          cases w.bindable group name <;> simp [hsame, hsend]

theorem cmdSshSession_eq (hc : s.created = []) (user : Option Text) (host : Text)
    (targetGroup : Option Text) (globalGroup session : Text) :
    cmdSshSession w s user host targetGroup globalGroup session =
      match w.remote (phDest user host) (effectiveRemoteGroup targetGroup globalGroup) session with
      | .unreachable =>
        (s.entered (targetFor (some (phDest user host))
          (effectiveRemoteGroup targetGroup globalGroup) session), .failed)
      | .absent =>
        ((s.entered (targetFor (some (phDest user host))
            (effectiveRemoteGroup targetGroup globalGroup) session)).make
          ⟨some (phDest user host), effectiveRemoteGroup targetGroup globalGroup, session⟩, .attached
            ⟨some (phDest user host), effectiveRemoteGroup targetGroup globalGroup, session⟩)
      | .live =>
        (s.entered (targetFor (some (phDest user host))
            (effectiveRemoteGroup targetGroup globalGroup) session), .attached
            ⟨some (phDest user host), effectiveRemoteGroup targetGroup globalGroup, session⟩) := by
  unfold cmdSshSession entered
  rw [hc]
  rfl

theorem startRemoteAuto_cases (user : Option Text) (host : Text) (targetGroup : Option Text)
    (globalGroup : Text) : ((w.startRemote (phDest user host) (targetGroup.getD globalGroup)).isNone = true ∧
        startRemoteAuto w s user host targetGroup globalGroup = (s, .failed)) ∨
      ((w.startRemote (phDest user host) (targetGroup.getD globalGroup)).isNone = false ∧
        Spoils s (startRemoteAuto w s user host targetGroup globalGroup)) := by
  unfold startRemoteAuto
  cases w.startRemote (phDest user host) (targetGroup.getD globalGroup) with
  | none => exact .inl ⟨rfl, rfl⟩
  | some id =>
    have hdials (s' : FrontDoor) :
        Dials s' (cmdSshSession w s' user host targetGroup globalGroup id) :=
      cmdSshSession_dials w user host targetGroup globalGroup id (List.prefix_refl _) rfl rfl rfl
    exact .inr ⟨rfl, .inl ((hdials _).created_ne (make_created_ne s _))⟩

/-- **A start of at most one word is refused, or ends badly.** -/
theorem cmdStart_cases (hc : s.created = []) (group : Text) (word : Option Text) :
    (w.startRefused group word = true ∧ cmdStart w s group word = (s, .failed)) ∨
      (w.startRefused group word = false ∧ Spoils s (cmdStart w s group word)) := by
  unfold startRefused cmdStart
  split
  case isTrue => exact .inl ⟨rfl, rfl⟩
  cases hargs : parseStartArgs word with
  | none => exact .inl ⟨rfl, rfl⟩
  | some args =>
    simp only
    cases hcls : classifyStartTarget args.target with
    | localAuto g =>
      simp only
      cases w.configOk (g.getD group) with
      | false => exact .inl ⟨rfl, rfl⟩
      | true =>
        cases w.nextAutoid (g.getD group) with
        | none => exact .inl ⟨rfl, rfl⟩
        | some name => exact cmdStartLocal_cases hc _ _ _ _
    | localNamed g session =>
      simp only
      cases w.configOk (g.getD group) with
      | false => exact .inl ⟨rfl, rfl⟩
      | true => exact cmdStartLocal_cases hc _ _ _ _
    | remoteAuto user host g => exact startRemoteAuto_cases user host g group
    | remoteNamed user host g session =>
      simp only
      cases hr : w.remote (phDest user host) (effectiveRemoteGroup g group) session with
      | unreachable | live => exact .inl ⟨rfl, rfl⟩
      | absent =>
        refine .inr ⟨rfl, ?_⟩
        rw [cmdSshSession_eq hc, hr]
        exact .inl (make_created_ne _ _)

/-- **A usable entry is attached to**, unless the attach is withheld. -/
theorem dispatchPh_usable (hc : s.created = []) (hu : w.usable target = true)
    (ha : w.attaches target = true) : ∃ p, w.sessionOf target = some p ∧
      dispatchPh w s (phParse (some target)) = (s.entered p.target, .attached p) := by
  unfold usable sessionOf at hu
  unfold attaches sessionOf at ha
  unfold sessionOf
  cases hroute : phParse (some target) with
  | localResolve g session =>
    rw [hroute] at hu ha
    simp only [any_some, reaches, Bool.and_eq_true] at hu
    simp only [Bool.and_eq_true, Option.isNone_iff_eq_none, Option.isSome_iff_exists] at ha
    obtain ⟨⟨hconfig, hpath⟩, hlive⟩ := hu
    obtain ⟨hin, name, hname⟩ := ha
    have hsame : name = session := by
      unfold parseAttachArgs at hname
      split at hname
      · cases hname
      · exact (Option.some.inj hname).symm
    subst hsame
    refine ⟨_, rfl, ?_⟩
    have hlive' : s.live w (g.getD w.group) name = true := by rw [live_eq hc, hlive]
    simp only [dispatchPh, hconfig, hpath, hlive', Bool.not_true, Bool.false_eq_true, if_false,
      if_true, cmdAttach, hname, hin, Bool.and_true]
    split
    case h_1 heq => exact absurd heq (phParse_localResolve hroute _ _ _ _)
    case h_2 => rfl
  | remoteResolve user host g session =>
    rw [hroute] at hu
    simp only [any_some, reaches, decide_eq_true_eq] at hu
    refine ⟨_, rfl, ?_⟩
    rw [dispatchPh, cmdSshSession_eq hc, hu]
    rfl
  | pickerAll | pickerHost | hostNeedsSession | localNew | remoteNew =>
    rw [hroute] at hu
    cases hu

theorem dispatchPh_withheld (hc : s.created = []) (hu : w.usable target = true)
    (ha : w.attaches target = false) : dispatchPh w s (phParse (some target)) = (s, .failed) ∨
      dispatchPh w s (phParse (some target)) = (s, .returned) := by
  unfold usable sessionOf at hu
  unfold attaches sessionOf at ha
  cases hroute : phParse (some target) with
  | localResolve g session =>
    rw [hroute] at hu ha
    simp only [any_some, reaches, Bool.and_eq_true] at hu
    obtain ⟨⟨hconfig, hpath⟩, hlive⟩ := hu
    have hlive' : s.live w (g.getD w.group) session = true := by rw [live_eq hc, hlive]
    simp only [dispatchPh, hconfig, hpath, hlive', Bool.not_true, Bool.false_eq_true, if_false,
      if_true, cmdAttach]
    cases hname : parseAttachArgs session with
    | none => exact .inl rfl
    | some name =>
      have hsame : name = session := by
        unfold parseAttachArgs at hname
        split at hname
        · cases hname
        · exact (Option.some.inj hname).symm
      subst hsame
      simp only
      split
      case h_1 heq => exact absurd heq (phParse_localResolve hroute _ _ _ _)
      case h_2 =>
        cases hin : w.inside with
        | none => simp [hin, hname] at ha
        | some current =>
          simp only
          obtain ⟨hstate | ⟨hstrict, -⟩, hresult⟩ :=
            switchInPlace_cases w s current (g.getD w.group) name false
          · rcases hresult with heq | heq
            · exact .inr (Prod.ext hstate heq)
            · exact .inl (Prod.ext hstate heq)
          · cases hstrict
  | remoteResolve | pickerAll | pickerHost | hostNeedsSession | localNew | remoteNew =>
    rw [hroute] at ha
    cases ha

/-- **A dead entry is refused, or its dial ends badly.** -/
theorem dispatchPh_dead (hc : s.created = []) (hu : w.usable target = false) :
    (w.refused target = true ∧ dispatchPh w s (phParse (some target)) = (s, .failed)) ∨
      (w.refused target = false ∧ Spoils s (dispatchPh w s (phParse (some target)))) := by
  unfold usable sessionOf at hu
  unfold refused
  cases hroute : phParse (some target) with
  | pickerAll | pickerHost => exact .inr ⟨rfl, .inr (.inl rfl)⟩
  | hostNeedsSession => exact .inl ⟨rfl, rfl⟩
  | localNew g => exact cmdStart_cases hc _ _
  | remoteNew user host g => exact startRemoteAuto_cases user host g w.group
  | localResolve g session =>
    rw [hroute] at hu
    simp only [any_some, reaches] at hu
    simp only [dispatchPh]
    cases hconfig : w.configOk (g.getD w.group) with
    | false => exact .inl ⟨rfl, rfl⟩
    | true =>
      cases hpath : w.pathOk (g.getD w.group) session with
      | false => exact .inl ⟨rfl, rfl⟩
      | true =>
        have hlive : s.live w (g.getD w.group) session = false := by
          rw [hconfig, hpath] at hu
          rw [live_eq hc]
          exact hu
        simp only [hlive, Bool.not_true, Bool.false_eq_true, if_false, Bool.false_or]
        exact cmdStart_cases hc _ _
  | remoteResolve user host g session =>
    rw [hroute] at hu
    simp only [any_some, reaches, decide_eq_false_iff_not] at hu
    refine .inr ⟨rfl, ?_⟩
    rw [dispatchPh, cmdSshSession_eq hc]
    cases hr : w.remote (phDest user host) (effectiveRemoteGroup g w.group) session with
    | live => exact absurd hr hu
    | absent => exact .inl (make_created_ne _ _)
    | unreachable =>
      refine .inr (.inr (.inl ⟨rfl, ?_⟩))
      simp only [entered, apply, enter]
      split <;> rfl

/-! ### What the front door should come to -/

/-- The state after `n` turns of the loop. -/
def turns (w : World) (n : ℕ) (s : FrontDoor) : Option FrontDoor :=
  Runs.exec (fun s (_ : Unit) => turn w s) s (List.replicate n ())

/-- The session of `e` went away, after which those of `gone` were found dead, and the stack was `l`,
newest first: the front door runs an attach to the newest usable entry, or left with `e`. -/
structure Landed (w : World) (e : AttachEnd) (gone l : List StackEntry) (t : FrontDoor) : Prop where
  created : t.created = []
  home : ∀ top below, l.dropWhile w.dead = top :: below →
    ∃ p, w.sessionOf top.target = some p ∧ t.phase = .attached p ∧
      t.viewport.current.map Current.target = some p.target ∧ t.viewport.stack = below.reverse ∧
      ∃ view, t.viewport.notice = some { ended := e, gone := gone ++ l.takeWhile w.dead, view }
  left : l.dropWhile w.dead = [] → t.phase = .left (some e) ∧
    .alsoGone ((gone ++ l).map fun g => displayTarget w.hostname g.target) ∈ t.stderr

/-- **What the front door should come to** when the attach of the viewport `v` has returned with the
end `e`: the newest usable entry of the stack, with one notice that names the session that ended and
the dead entries above; without one, it leaves with `e` and names them all.  No session is made. -/
def Returned (w : World) (v : ViewportState) (e : AttachEnd) (t : FrontDoor) : Prop :=
  if v.stack = [] then t.created = [] ∧ t.phase = .left (some e)
  else Landed w e v.currentEntry.toList v.stack.reverse t

/-! ### A cascade -/

/-- A cascade in flight: the session of `e` went away, those of `gone` were found dead, and `l` is
left of the stack, newest first. -/
structure Cascading (e : AttachEnd) (gone l : List StackEntry) (s : FrontDoor) : Prop where
  phase : s.phase = .looping
  created : s.created = []
  attachEnd : s.viewport.attachEnd = none
  stack : s.viewport.stack = l.reverse
  dials : ∀ top below, l = top :: below → s.effects = [.dial top.target] ∧
    s.viewport.pending = some .pop ∧ s.viewport.cascade = some { original := e, gone }
  exits : l = [] → s.effects = [.exit (some e) gone] ∧ gone ≠ []

variable {e : AttachEnd} {gone below l : List StackEntry} {top : StackEntry} {n : ℕ}

theorem turns_succ (w : World) (n : ℕ) (s : FrontDoor) : turns w (n + 1) s = (turn w s).bind (turns w n) := rfl

theorem Cascading.turn_eq (h : Cascading e gone (top :: below) s) :
    turn w s = match dispatchPh w { s with effects := [] } (phParse (some top.target)) with
      | (s, .attached place) => some { s with phase := .attached place }
      | (s, .returned) => some (s.observe .attachReturned)
      | (s, .failed) => some (s.dialFailed top.target)
      | (s, .choosing) => some { s with phase := .choosing } := by
  exact turn_dial h.phase (h.dials top below rfl).1

/-- **A dial that is refused** leaves the rest of the cascade. -/
theorem Cascading.refused (h : Cascading e gone (top :: below) s) : Cascading e (gone ++ [top]) below
      (({ s with effects := [] } : FrontDoor).dialFailed top.target) := by
  obtain ⟨-, hpending, hcascade⟩ := h.dials top below rfl
  have hstack := h.stack
  rw [List.reverse_cons] at hstack
  have happly := apply_dialFailed_cascade hcascade hstack
  cases below with
  | nil =>
    rw [List.reverse_nil, List.getLast?_nil] at happly
    unfold dialFailed
    simp only [happly, List.cons_ne_nil, if_false, observe]
    exact ⟨h.phase, h.created, h.attachEnd, rfl, nofun, fun _ => ⟨rfl, by simp⟩⟩
  | cons next below =>
    rw [List.reverse_cons, List.getLast?_concat] at happly
    unfold dialFailed
    simp only [happly, List.cons_ne_nil, if_false, observe]
    refine ⟨h.phase, h.created, h.attachEnd, List.reverse_cons.symm, ?_, nofun⟩
    rintro _ _ heq
    cases heq
    exact ⟨rfl, rfl, rfl⟩

theorem Landed.dead (hdead : w.dead top = true) :
    Landed w e gone (top :: l) t ↔ Landed w e (gone ++ [top]) l t := by
  have hdrop : (top :: l).dropWhile w.dead = l.dropWhile w.dead := by
    rw [List.dropWhile_cons, if_pos hdead]
  have htake : gone ++ (top :: l).takeWhile w.dead = gone ++ [top] ++ l.takeWhile w.dead := by
    rw [List.takeWhile_cons, if_pos hdead, List.append_assoc]
    rfl
  have hall : gone ++ top :: l = gone ++ [top] ++ l := by
    rw [List.append_assoc]
    rfl
  constructor
  · rintro ⟨hcreated, hhome, hleft⟩
    rw [hdrop, htake] at hhome
    rw [hdrop, hall] at hleft
    exact ⟨hcreated, hhome, hleft⟩
  · rintro ⟨hcreated, hhome, hleft⟩
    refine ⟨hcreated, ?_, ?_⟩
    · rw [hdrop, htake]
      exact hhome
    · rw [hdrop, hall]
      exact hleft

/-- **A cascade lands**, or leaves, if its stack meets the condition. -/
theorem cascading_lands (h : Cascading e gone l s) (hclean : w.returnsCleanly l = true) :
    ∃ n t, turns w n s = some t ∧ Landed w e gone l t := by
  induction l generalizing s gone with
  | nil =>
    obtain ⟨heffects, hgone⟩ := h.exits rfl
    refine ⟨1, _, by rw [turns_succ, turn, h.phase, heffects]; rfl, ?_⟩
    refine ⟨h.created, nofun, fun _ => ⟨rfl, ?_⟩⟩
    refine (exitWithAttachEnd_stderr _ _).subset ?_
    rw [if_neg hgone, List.append_nil]
    simp
  | cons top below ih =>
    unfold returnsCleanly at hclean
    have hcreated : ({ s with effects := [] } : FrontDoor).created = [] := h.created
    split at hclean
    case isTrue hu =>
      obtain ⟨p, hp, hdial⟩ := dispatchPh_usable hcreated hu hclean
      obtain ⟨-, hpending, hcascade⟩ := h.dials top below rfl
      have hstack := h.stack
      rw [List.reverse_cons] at hstack
      obtain ⟨hcurrent, hbelow, -, -, view, hnotice⟩ :=
        apply_entered_cascade hpending hcascade hstack p.target
      have hdead : w.dead top = false := by
        unfold dead
        rw [hu]
        rfl
      refine ⟨1, _, by rw [turns_succ, h.turn_eq, hdial]; rfl, ?_⟩
      refine ⟨h.created, ?_, ?_⟩
      · intro top' below' heq
        rw [List.dropWhile_cons, if_neg (by rw [hdead]; exact Bool.false_ne_true)] at heq
        cases heq
        refine ⟨p, hp, rfl, hcurrent, hbelow, view, ?_⟩
        rw [List.takeWhile_cons, if_neg (by rw [hdead]; exact Bool.false_ne_true), List.append_nil]
        exact hnotice
      · intro heq
        rw [List.dropWhile_cons, if_neg (by rw [hdead]; exact Bool.false_ne_true)] at heq
        cases heq
    case isFalse hu =>
      rw [Bool.and_eq_true] at hclean
      rw [Bool.not_eq_true] at hu
      rcases dispatchPh_dead hcreated hu with ⟨-, hdial⟩ | ⟨hno, -⟩
      · obtain ⟨n, t, hturns, hlanded⟩ := ih h.refused hclean.2
        refine ⟨n + 1, t, ?_, (Landed.dead (by rw [dead, hu]; rfl)).2 hlanded⟩
        rw [turns_succ, h.turn_eq, hdial]
        exact hturns
      · rw [hclean.1] at hno
        cases hno

/-! ### A cascade that ends badly -/

/-- The loop dials one target again and again, and nothing comes of it. -/
structure Stuck (w : World) (s : FrontDoor) (target : Text) : Prop where
  phase : s.phase = .looping
  effects : s.effects = [.dial target]
  pending : s.viewport.pendingTarget = some target
  attachEnd : s.viewport.attachEnd = none
  returns : dispatchPh w { s with effects := [] } (phParse (some target)) =
    ({ s with effects := [] }, .returned)

/-- The front door cannot come to what it should any more. -/
inductive Spoiled (w : World) (s : FrontDoor) : Prop
  | made (h : s.created ≠ [])
  | choosing (h : s.phase = .choosing)
  | failed (h : s.phase = .failed)
  | stuck (target : Text) (h : Stuck w s target)

theorem observe_returned {target : Text} (heffects : s.effects = [])
    (hpending : s.viewport.pendingTarget = some target) (hend : s.viewport.attachEnd = none) :
    s.observe .attachReturned = { s with effects := [.dial target] } := by
  obtain ⟨viewport, _, created, stderr, phase⟩ := s
  subst heffects
  have hreturned : ({ viewport with attachEnd := none } : ViewportState) = viewport := by
    rw [← hend]
  unfold observe apply
  simp only [hreturned, hpending]
  rfl

theorem Stuck.turn_eq (h : Stuck w s target) : turn w s = some s := by
  rw [turn_dial h.phase h.effects, h.returns]
  have hobserve := observe_returned (s := { s with effects := [] }) rfl h.pending h.attachEnd
  simp only
  rw [hobserve]
  obtain ⟨viewport, _, created, stderr, phase⟩ := s
  have heffects := h.effects
  simp only at heffects
  rw [heffects]

/-- **What is spoiled stays so.** -/
theorem Spoiled.turn (h : Spoiled w s) (ht : turn w s = some s') : Spoiled w s' := by
  cases h with
  | made hne =>
    refine .made fun heq => ?_
    have hp := turn_created ht
    rw [heq, List.prefix_nil] at hp
    exact hne hp
  | choosing hphase =>
    unfold FrontDoor.turn at ht
    rw [hphase] at ht
    cases ht
  | failed hphase =>
    unfold FrontDoor.turn at ht
    rw [hphase] at ht
    cases ht
  | stuck target hstuck =>
    rw [hstuck.turn_eq, Option.some.injEq] at ht
    exact ht ▸ .stuck target hstuck

theorem Spoiled.turns (h : Spoiled w s) (ht : turns w n s = some t) : Spoiled w t :=
  Runs.exec_invariant (I := Spoiled w) (fun _ _ _ hs hstep => hs.turn hstep) h ht

theorem Landed.phase (h : Landed w e gone l t) : (∃ p, t.phase = .attached p) ∨ t.phase = .left (some e) := by
  cases hdrop : l.dropWhile w.dead with
  | nil => exact .inr (h.left hdrop).1
  | cons top below =>
    obtain ⟨p, -, hphase, -⟩ := h.home top below hdrop
    exact .inl ⟨p, hphase⟩

theorem Spoiled.not_landed (h : Spoiled w t) : ¬Landed w e gone l t := by
  intro hl
  have hphase := hl.phase
  cases h with
  | made hne => exact hne hl.created
  | choosing heq | failed heq =>
    rw [heq] at hphase
    rcases hphase with ⟨p, hp⟩ | hp <;> cases hp
  | stuck target hstuck =>
    rw [hstuck.phase] at hphase
    rcases hphase with ⟨p, hp⟩ | hp <;> cases hp

theorem dialFailed_outside {target : Text} (hcascade : s.viewport.cascade = none) :
    (s.dialFailed target).phase = .failed := by
  unfold dialFailed
  rw [apply_dialFailed_none hcascade]
  rfl

/-- **A dial that ends badly** spoils the cascade. -/
theorem Cascading.spoils (h : Cascading e gone (top :: below) s)
    (hs : Spoils ({ s with effects := [] } : FrontDoor)
      (dispatchPh w { s with effects := [] } (phParse (some top.target)))) :
    ∃ s', FrontDoor.turn w s = some s' ∧ Spoiled w s' := by
  have hturn := h.turn_eq (w := w)
  obtain ⟨heffects, hpending, -⟩ := h.dials top below rfl
  cases hr : dispatchPh w { s with effects := [] } (phParse (some top.target)) with
  | mk r d =>
  rw [hr] at hs hturn
  rcases hs with hmade | hchoosing | ⟨hfailed, hcascade⟩ | hsame
  · cases d with
    | attached place => exact ⟨_, hturn, .made hmade⟩
    | returned => exact ⟨_, hturn, .made hmade⟩
    | failed => exact ⟨_, hturn, .made (by rw [dialFailed_created]; exact hmade)⟩
    | choosing => exact ⟨_, hturn, .made hmade⟩
  · cases hchoosing
    exact ⟨_, hturn, .choosing rfl⟩
  · cases hfailed
    exact ⟨_, hturn, .failed (dialFailed_outside hcascade)⟩
  · cases hsame
    have htarget : s.viewport.pendingTarget = some top.target := by
      unfold pendingTarget
      rw [hpending, h.stack]
      simp
    have hstuck : Stuck w s top.target := ⟨h.phase, heffects, htarget, h.attachEnd, hr⟩
    exact ⟨s, hstuck.turn_eq, .stuck _ hstuck⟩

/-! ### A cascade that has passed an entry over -/

/-- The viewport only comes to entries deeper than `k` in the stack. -/
def Past (k : ℕ) (s : FrontDoor) : Prop :=
  match s.phase with
  | .attached _ => s.viewport.stack.length < k
  | .looping =>
    (s.viewport.pending = some .pop ∧ s.viewport.stack ≠ [] ∧ s.viewport.stack.length ≤ k ∧
      ∃ target, s.effects = [.dial target]) ∨ ∃ attachEnd skipped, s.effects = [.exit attachEnd skipped]
  | _ => True

/-- **What has passed an entry over** never comes back to it. -/
theorem Past.turn {k : ℕ} (h : Past k s) (ht : turn w s = some s') : Past k s' := by
  cases hphase : s.phase with
  | attached place | choosing | left attachEnd | failed | done =>
    unfold FrontDoor.turn at ht
    rw [hphase] at ht
    cases ht
  | looping =>
    unfold Past at h
    rw [hphase] at h
    rcases h with ⟨hpending, hne, hle, target, heffects⟩ | ⟨attachEnd, skipped, heffects⟩
    · rw [turn_dial hphase heffects] at ht
      have hdials := dispatchPh_dials w { s with effects := [] } (phParse (some target))
      cases hr : dispatchPh w { s with effects := [] } (phParse (some target)) with
      | mk r d =>
      rw [hr] at ht hdials
      obtain ⟨-, hreffects, hrphase, hviewport⟩ := hdials
      simp only at hreffects hrphase hviewport
      rcases hviewport with ⟨hviewport, hd⟩ | ⟨⟨entered, armed, hviewport⟩, hd⟩
      · cases d with
        | attached place => exact absurd rfl (hd place)
        | returned =>
          rw [Option.some.injEq] at ht
          subst ht
          obtain ⟨top, htop⟩ := Option.ne_none_iff_exists'.1 (mt List.getLast?_eq_none_iff.1 hne)
          have happly : r.viewport.apply .attachReturned =
              ({ s.viewport with attachEnd := none }, [.dial top.target]) := by
            rw [hviewport]
            unfold apply pendingTarget
            simp only [hpending, htop, Option.map_some]
          unfold Past observe
          simp only [hrphase, hphase, happly, hreffects]
          exact .inl ⟨hpending, hne, hle, _, rfl⟩
        | failed =>
          rw [Option.some.injEq] at ht
          subst ht
          cases hcascade : r.viewport.cascade with
          | none =>
            unfold Past
            rw [dialFailed_outside hcascade]
            trivial
          | some c =>
            have happly := apply_dialFailed_some hcascade target
            rw [hviewport] at happly
            have hsome : (r.viewport.apply (.dialFailed target)).2 ≠ [] := by
              rw [hviewport]
              rcases happly with ⟨-, -, -, next, heq⟩ | ⟨skipped, heq⟩ <;> rw [heq] <;>
                exact List.cons_ne_nil _ _
            unfold Past dialFailed
            rw [if_neg hsome]
            unfold observe
            simp only [hrphase, hphase, hreffects, hviewport, List.nil_append]
            rcases happly with ⟨hpop, hstack, hlen, hdial⟩ | ⟨skipped, heq⟩
            · exact .inl ⟨hpop, hstack, Nat.le_trans hlen hle, hdial⟩
            · exact .inr ⟨_, _, heq⟩
        | choosing =>
          rw [Option.some.injEq] at ht
          subst ht
          trivial
      · obtain ⟨hcascade, hstack⟩ :=
          ({ s.viewport with anonymousCreate := armed } : ViewportState).apply_entered entered
        rw [← hviewport] at hcascade hstack
        rcases hd with rfl | ⟨place, rfl⟩
        · rw [Option.some.injEq] at ht
          subst ht
          unfold Past
          rw [dialFailed_outside hcascade]
          trivial
        · rw [Option.some.injEq] at ht
          subst ht
          have hlen := List.length_pos_iff.2 hne
          change r.viewport.stack.length < k
          rw [hstack hpending, List.length_dropLast]
          exact Nat.lt_of_lt_of_le (Nat.sub_lt hlen Nat.one_pos) hle
    · unfold FrontDoor.turn at ht
      rw [hphase, heffects, Option.some.injEq] at ht
      subst ht
      unfold Past exitWithAttachEnd
      trivial

theorem Past.turns {k : ℕ} (h : Past k s) (ht : turns w n s = some t) : Past k t :=
  Runs.exec_invariant (I := Past k) (fun _ _ _ hs hstep => hs.turn hstep) h ht

theorem Cascading.past (h : Cascading e gone l s) : Past l.length s := by
  unfold Past
  rw [h.phase]
  cases l with
  | nil => exact .inr ⟨_, _, (h.exits rfl).1⟩
  | cons top below =>
    obtain ⟨heffects, hpending, -⟩ := h.dials top below rfl
    refine .inl ⟨hpending, ?_, ?_, _, heffects⟩
    · rw [h.stack]
      simp
    · exact Nat.le_of_eq (by rw [h.stack, List.length_reverse])

/-- **A cascade does not land**, nor leave as it should, if its stack does not meet the condition. -/
theorem cascading_not_lands (h : Cascading e gone l s) (hdirty : w.returnsCleanly l = false)
    (ht : turns w n s = some t) : ¬Landed w e gone l t := by
  induction l generalizing s gone n with
  | nil => cases hdirty
  | cons top below ih =>
    have hcreated : ({ s with effects := [] } : FrontDoor).created = [] := h.created
    cases n with
    | zero =>
      intro hl
      cases ht
      have hphase := hl.phase
      rw [h.phase] at hphase
      rcases hphase with ⟨p, hp⟩ | hp <;> cases hp
    | succ n =>
      rw [turns_succ] at ht
      have hspoiled (hs : Spoils ({ s with effects := [] } : FrontDoor)
          (dispatchPh w { s with effects := [] } (phParse (some top.target)))) :
          ¬Landed w e gone (top :: below) t := by
        obtain ⟨s', hturn, hs'⟩ := h.spoils hs
        rw [hturn] at ht
        exact (hs'.turns ht).not_landed
      have hrefused (hdial : dispatchPh w { s with effects := [] } (phParse (some top.target)) =
          ({ s with effects := [] }, .failed)) :
          turns w n (({ s with effects := [] } : FrontDoor).dialFailed top.target) = some t := by
        rw [h.turn_eq, hdial] at ht
        exact ht
      unfold returnsCleanly at hdirty
      split at hdirty
      case isTrue hu =>
        rcases dispatchPh_withheld hcreated hu hdirty with hdial | hdial
        · -- the entry to return to is taken for dead
          intro hl
          have hpast := h.refused.past.turns (hrefused hdial)
          have hdead : w.dead top = false := by
            unfold dead
            rw [hu]
            rfl
          obtain ⟨p, -, hphase, -, hstack, -⟩ := hl.home top below (by
            rw [List.dropWhile_cons, if_neg (by rw [hdead]; exact Bool.false_ne_true)])
          unfold Past at hpast
          rw [hphase, hstack, List.length_reverse] at hpast
          exact Nat.lt_irrefl _ hpast
        · refine hspoiled ?_
          rw [hdial]
          exact .inr (.inr (.inr rfl))
      case isFalse hu =>
        rw [Bool.not_eq_true] at hu
        rcases dispatchPh_dead hcreated hu with ⟨hr, hdial⟩ | ⟨-, hs⟩
        · rw [hr, Bool.true_and] at hdirty
          rw [Landed.dead (by rw [dead, hu]; rfl)]
          exact ih h.refused hdirty (hrefused hdial)
        · exact hspoiled hs

/-! ### An attach that ended -/

variable {v : ViewportState}

theorem afterAttach_cascading (hend : v.attachEnd = some e) (he : e.isGone = true)
    (hpending : v.pending = none) (hstack : v.stack ≠ []) :
    Cascading e v.currentEntry.toList v.stack.reverse (afterAttach v) := by
  obtain ⟨below, top, hsplit⟩ : ∃ below top, v.stack = below ++ [top] :=
    ⟨_, _, (List.dropLast_concat_getLast hstack).symm⟩
  have happly := apply_attachReturned_gone hpending hend he hsplit
  have hreverse : v.stack.reverse = top :: below.reverse := by
    rw [hsplit, List.reverse_append]
    rfl
  unfold afterAttach observe
  simp only [happly, List.nil_append]
  refine ⟨rfl, rfl, rfl, (List.reverse_reverse _).symm, ?_, ?_⟩
  · intro top' below' heq
    rw [hreverse] at heq
    cases heq
    exact ⟨rfl, rfl, rfl⟩
  · intro heq
    rw [hreverse] at heq
    cases heq

theorem not_returned (hend : v.attachEnd = some e) (he : e.isGone = true) (hpending : v.pending = none)
    (hdirty : w.returnsCleanly v.stack.reverse = false) :
    ¬∃ n t, turns w n (afterAttach v) = some t ∧ Returned w v e t := by
  have hstack : v.stack ≠ [] := by
    intro heq
    rw [heq] at hdirty
    cases hdirty
  rintro ⟨n, t, ht, hreturned⟩
  rw [Returned, if_neg hstack] at hreturned
  exact cascading_not_lands (afterAttach_cascading hend he hpending hstack) hdirty ht hreturned

theorem returns (hend : v.attachEnd = some e) (he : e.isGone = true) (hpending : v.pending = none)
    (hclean : w.returnsCleanly v.stack.reverse = true) :
    ∃ n t, turns w n (afterAttach v) = some t ∧ Returned w v e t := by
  unfold Returned
  by_cases hstack : v.stack = []
  · have happly := apply_attachReturned_empty hpending hstack
    simp only [if_pos hstack]
    unfold afterAttach observe
    simp only [happly, hend, List.nil_append]
    exact ⟨1, _, rfl, rfl, rfl⟩
  · simp only [if_neg hstack]
    exact cascading_lands (afterAttach_cascading hend he hpending hstack) hclean

/-- **The front door returns to the newest session still there exactly under the condition**: whatever
the stack, whatever lives and answers, and however the attach ended. -/
theorem returned_iff (w : World) (v : ViewportState) (e : AttachEnd) (hend : v.attachEnd = some e)
    (he : e.isGone = true) (hpending : v.pending = none) :
    (∃ n t, turns w n (afterAttach v) = some t ∧ Returned w v e t) ↔
      w.returnsCleanly v.stack.reverse = true := by
  constructor
  · intro hreturned
    by_contra hdirty
    exact not_returned hend he hpending (Bool.not_eq_true _ ▸ hdirty) hreturned
  · exact returns hend he hpending

/-! ### Two stacks -/

/-- A machine on which `dev` lives, and a host that answers nobody. -/
def sampleWorld : World where
  hostname := "here".toList
  dirOk := fun _ => true
  dirLen := fun _ => 20
  live := fun _ name => name = "dev".toList
  bindable := fun _ _ => true
  nextAutoid := fun _ => some "s-1".toList
  remote := fun _ _ _ => .unreachable
  startRemote := fun _ _ => none

/-- The viewport came over the sessions of `path` to one that has ended. -/
def sampleViewport (path : List Text) : ViewportState where
  current := some { target := ":work".toList }
  stack := path.map fun target => { target }
  attachEnd := some (.ended 1 (some .exited))

/-- An entry that is refused stands above the one that lives. -/
theorem returned_iff_refused :
    ∃ n t, turns sampleWorld n (afterAttach (sampleViewport [":dev".toList, "fe80::1:a".toList])) = some t ∧
      Returned sampleWorld (sampleViewport [":dev".toList, "fe80::1:a".toList])
        (.ended 1 (some .exited)) t :=
  (returned_iff sampleWorld (sampleViewport [":dev".toList, "fe80::1:a".toList])
    (.ended 1 (some .exited)) rfl rfl rfl).2 (by decide +kernel)

/-- **The front door does not return** past a session on a host that does not answer, nor past a dead
one on this machine. -/
theorem returned_fails :
    (¬∃ n t, turns sampleWorld n (afterAttach (sampleViewport [":dev".toList, "box:a".toList])) = some t ∧
      Returned sampleWorld (sampleViewport [":dev".toList, "box:a".toList])
        (.ended 1 (some .exited)) t) ∧
    ¬∃ n t, turns sampleWorld n (afterAttach (sampleViewport [":dev".toList, ":old".toList])) = some t ∧
      Returned sampleWorld (sampleViewport [":dev".toList, ":old".toList])
        (.ended 1 (some .exited)) t :=
  ⟨not_returned rfl rfl rfl (by decide +kernel), not_returned rfl rfl rfl (by decide +kernel)⟩

end FrontDoor

end Posh
