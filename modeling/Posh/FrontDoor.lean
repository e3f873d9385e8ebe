/-
**The front door.**

The front door dials a target, and when the attach returns it carries out the effects the viewport's
machine asks for, until an attach ends with nothing to follow.  Each route decides for itself when it
reports arriving and what a missing session means: a local session that is gone is started, a session
on a host is recorded as entered before the host is dialled and is made there when it is not found,
and a word that names no session is refused.

What the front door finds, which sessions live and which hosts answer, is a `World` that changes only
by the sessions the front door makes itself.  An attach is left at the moment it runs; the texts of
the errors play no part.
-/

import Mathlib.Algebra.GroupWithZero.Nat
import Mathlib.Data.List.Infix
import Posh.Picker

set_option autoImplicit false

namespace Posh

open List (prefix_append prefix_refl)

/-! ### The world -/

/-- Where a session is: a destination (`none`: this machine), a group (`none`: the host's default) and
a name. -/
structure SessionPlace where
  dest : Option Text
  group : Option Text
  name : Text
  deriving DecidableEq, Repr

/-- How an attach to a host finds a session there. -/
inductive RemoteDial where
  | unreachable | absent | live
  deriving DecidableEq, Repr

/-- What the front door finds. -/
structure World where
  hostname : Text
  /-- the session group of the environment -/
  group : Text := "default".toList
  /-- the session the front door itself runs in -/
  inside : Option Text := none
  /-- it has a terminal -/
  tty : Bool := true
  /-- a group's directory can be made, and is private -/
  dirOk : Text → Bool
  /-- the length of its path -/
  dirLen : Text → ℕ
  /-- a socket is there and something listens -/
  live : Text → Text → Bool
  /-- a session's socket can be bound -/
  bindable : Text → Text → Bool
  /-- the next free name of a group -/
  nextAutoid : Text → Option Text
  /-- over the host's shared endpoint, or a connection of its own -/
  remote : Text → Option Text → Text → RemoteDial
  /-- the name a host gives a session of its choice -/
  startRemote : Text → Text → Option Text

/-! ### Words of the command line -/

def filenameSafe (b : UInt8) : Bool := b ≠ 47 && b ≠ 92 && b ≠ 37 && b ≠ 0

/-- The length of a session's name in its socket's path: unsafe bytes are written with three
characters, and a byte beyond ASCII is a character of two bytes. -/
def encodedLen (name : Text) : ℕ :=
  ((name.flatMap String.utf8EncodeChar).map fun b =>
    if filenameSafe b then (if b < 128 then 1 else 2) else 3).sum

/-- The group that scopes a session on a host; the default is the host's own. -/
def effectiveRemoteGroup (targetGroup : Option Text) (globalGroup : Text) : Option Text :=
  if targetGroup.getD globalGroup ≠ "default".toList then some (targetGroup.getD globalGroup) else none

/-- What one word to `posh attach` names; a flag alone names nothing. -/
def parseAttachArgs (word : Text) : Option Text :=
  if word = "--detach".toList ∨ word = "--create".toList ∨ word = "--kind".toList then none
  else some word

/-- What at most one word to `posh start` asks for. -/
structure StartArgs where
  detach : Bool := false
  target : Option Text := none

def parseStartArgs : Option Text → Option StartArgs
  | none => some {}
  | some word =>
    if word = "--kind".toList then none
    else if word = "--detach".toList then some { detach := true }
    else if word = "--".toList then some {}
    else some { target := some word }

inductive StartClass where
  | localAuto (group : Option Text)
  | localNamed (group : Option Text) (session : Text)
  | remoteAuto (user : Option Text) (host : Text) (group : Option Text)
  | remoteNamed (user : Option Text) (host : Text) (group : Option Text) (session : Text)

/-- The class of a target to start: without a session, on this machine or on a host, it is the next
free name. -/
def classifyStartTarget : Option Text → StartClass
  | none => .localAuto none
  | some t =>
    match Target.parse t with
    | .localSession name => .localNamed none name
    | .explicitLocal group session =>
      if session = ['+'] then .localAuto group else .localNamed group session
    | .host user host => .remoteAuto user host none
    | .remoteSession user host group session =>
      if session = ['+'] then .remoteAuto user host group
      else .remoteNamed user host group session

def startKind : StartClass → SessionKind
  | .localAuto _ | .remoteAuto _ _ _ => .anonymous
  | .localNamed _ _ | .remoteNamed _ _ _ _ => .named

namespace World

/-- A group can be used: its name is one, and its directory is sound. -/
def configOk (w : World) (group : Text) : Bool :=
  group ≠ [] && !group.contains '/' && !decide (['.', '.'] <:+: group) && w.dirOk group

/-- The path of a session's socket fits. -/
def pathOk (w : World) (group name : Text) : Bool :=
  decide (w.dirLen group + 1 + encodedLen name ≤ 107)

end World

/-! ### The process -/

/-- What the front door is doing. -/
inductive Phase where
  /-- it carries out effects -/
  | looping
  /-- an attach runs -/
  | attached (place : SessionPlace)
  /-- the chooser is up -/
  | choosing
  /-- it left with the end of an attach -/
  | left (attachEnd : Option AttachEnd)
  /-- it returned an error -/
  | failed
  /-- it ran out of effects -/
  | done
  deriving DecidableEq, Repr

/-- A line the front door itself prints. -/
inductive StderrLine where
  | alsoGone (names : List Text)
  | ended (session : Text) (attachEnd : AttachEnd)
  | banner (notice : PopNotice)
  deriving DecidableEq, Repr

structure FrontDoor where
  viewport : ViewportState
  effects : List ViewportEffect := []
  /-- history: the sessions the front door made -/
  created : List SessionPlace := []
  stderr : List StderrLine := []
  phase : Phase := .looping
  deriving DecidableEq, Repr

inductive Dialled where
  | attached (place : SessionPlace)
  /-- it returned without an attach -/
  | returned
  | failed
  | choosing
  deriving DecidableEq, Repr

namespace FrontDoor

/-- A session lives that did before, or that the front door made. -/
def live (s : FrontDoor) (w : World) (group name : Text) : Bool :=
  w.live group name || s.created.contains ⟨none, some group, name⟩

/-- An attach began. -/
def entered (s : FrontDoor) (target : Text) : FrontDoor :=
  { s with viewport := (s.viewport.apply (.entered target)).1 }

/-- The next session entered is one made here. -/
def armAnonymousCreate (s : FrontDoor) (kind : SessionKind) : FrontDoor :=
  if kind = .anonymous then
    { s with viewport := (s.viewport.apply .anonymousCreateArmed).1 }
  else s

def make (s : FrontDoor) (place : SessionPlace) : FrontDoor :=
  { s with created := s.created ++ [place] }

/-- Makes a session that is not there; the flag tells whether it was made, `none` is an error. -/
def ensureSession (w : World) (s : FrontDoor) (group name : Text) : Option (Bool × FrontDoor) :=
  if !w.pathOk group name then none
  else if s.live w group name then some (false, s)
  else if w.bindable group name then some (true, s.make ⟨none, some group, name⟩)
  else none

/-! ### Dialling -/

/-- The request that re-homes the viewport the front door runs in goes over the current session's
socket. -/
def sendSwitchRequest (w : World) (s : FrontDoor) (current : Text) : FrontDoor × Dialled :=
  if w.configOk w.group && w.pathOk w.group current && s.live w w.group current then (s, .returned)
  else (s, .failed)

/-- An attach from inside a session re-homes the viewport around it; `strict` is that of a start. -/
def switchInPlace (w : World) (s : FrontDoor) (current group name : Text) (strict : Bool) :
    FrontDoor × Dialled :=
  if !w.tty then (s, .failed)
  else if name = current ∧ group = w.group then (s, .failed)
  else if strict then
    match ensureSession w s group name with
    | some (true, s) => sendSwitchRequest w s current
    | some (false, s) => (s, .failed)
    | none => (s, .failed)
  else if w.pathOk group name && s.live w group name then sendSwitchRequest w s current
  else (s, .failed)

/-- **An attach to a session on a host**: recorded as entered before the dial, and the session is made
when it is not there. -/
def cmdSshSession (w : World) (s : FrontDoor) (user : Option Text) (host : Text)
    (targetGroup : Option Text) (globalGroup session : Text) : FrontDoor × Dialled :=
  let dest := phDest user host
  let group := effectiveRemoteGroup targetGroup globalGroup
  let place : SessionPlace := ⟨some dest, group, session⟩
  let s := s.entered (targetFor (some dest) group session)
  if s.created.contains place then (s, .attached place)
  else
    match w.remote dest group session with
    | .unreachable => (s, .failed)
    | .absent => (s.make place, .attached place)
    | .live => (s, .attached place)

/-- A session of the host's choice: made by the host, or by the attach that follows. -/
def startRemoteAuto (w : World) (s : FrontDoor) (user : Option Text) (host : Text)
    (targetGroup : Option Text) (globalGroup : Text) : FrontDoor × Dialled :=
  match w.startRemote (phDest user host) (targetGroup.getD globalGroup) with
  | none => (s, .failed)
  | some id =>
    cmdSshSession w
      ((s.make ⟨some (phDest user host), effectiveRemoteGroup targetGroup globalGroup, id⟩)
        |>.armAnonymousCreate .anonymous)
      user host targetGroup globalGroup id

/-- A session on this machine is started: it must not be there. -/
def cmdStartLocal (w : World) (s : FrontDoor) (group name : Text) (detach : Bool)
    (kind : SessionKind) : FrontDoor × Dialled :=
  if detach then
    match ensureSession w s group name with
    | some (_, s) => (s, .returned)
    | none => (s, .failed)
  else
    match w.inside with
    | some current => switchInPlace w s current group name true
    | none =>
      match ensureSession w s group name with
      | some (true, s) =>
        ((s.armAnonymousCreate kind).entered (targetFor none (some group) name),
          .attached ⟨none, some group, name⟩)
      | some (false, s) => (s, .failed)
      | none => (s, .failed)

/-- **`posh start`** of at most one word. -/
def cmdStart (w : World) (s : FrontDoor) (group : Text) (word : Option Text) : FrontDoor × Dialled :=
  -- an ephemeral shell needs a host
  if word = some "--ephemeral".toList then (s, .failed)
  else
    match parseStartArgs word with
    | none => (s, .failed)
    | some args =>
      let cls := classifyStartTarget args.target
      match cls with
      | .localAuto g =>
        if !w.configOk (g.getD group) then (s, .failed)
        else
          match w.nextAutoid (g.getD group) with
          | none => (s, .failed)
          | some name => cmdStartLocal w s (g.getD group) name args.detach (startKind cls)
      | .localNamed g session =>
        if !w.configOk (g.getD group) then (s, .failed)
        else cmdStartLocal w s (g.getD group) session args.detach (startKind cls)
      | .remoteAuto user host g => startRemoteAuto w s user host g group
      | .remoteNamed user host g session =>
        match w.remote (phDest user host) (effectiveRemoteGroup g group) session with
        | .absent => cmdSshSession w s user host g group session
        | .unreachable | .live => (s, .failed)

/-- **`posh attach`** of one word: strict, the session must be there. -/
def cmdAttach (w : World) (s : FrontDoor) (group word : Text) : FrontDoor × Dialled :=
  match parseAttachArgs word with
  | none => (s, .failed)
  | some name =>
    match Target.parse name with
    | .remoteSession user host g session =>
      match w.remote (phDest user host) (effectiveRemoteGroup g group) session with
      | .live => cmdSshSession w s user host g group session
      | .unreachable | .absent => (s, .failed)
    | _ =>
      if !w.configOk group then (s, .failed)
      else
        match w.inside with
        | some current => switchInPlace w s current group name false
        | none =>
          if w.pathOk group name && s.live w group name then
            (s.entered (targetFor none (some group) name), .attached ⟨none, some group, name⟩)
          else (s, .failed)

/-- **Runs one route.**  A local session that lives is attached to, any other is started. -/
def dispatchPh (w : World) (s : FrontDoor) : PhRoute → FrontDoor × Dialled
  | .pickerAll | .pickerHost _ _ => (s, .choosing)
  | .hostNeedsSession _ _ => (s, .failed)
  | .localNew g => cmdStart w s (g.getD w.group) none
  | .localResolve g session =>
    if !w.configOk (g.getD w.group) then (s, .failed)
    else if !w.pathOk (g.getD w.group) session then (s, .failed)
    else if s.live w (g.getD w.group) session then cmdAttach w s (g.getD w.group) session
    else cmdStart w s (g.getD w.group) (some session)
  | .remoteNew user host g => startRemoteAuto w s user host g w.group
  | .remoteResolve user host g session => cmdSshSession w s user host g w.group session

/-! ### The loop -/

/-- An observation of the front door; its effects are carried out in turn. -/
def observe (s : FrontDoor) (event : ViewportEvent) : FrontDoor :=
  { s with
    viewport := (s.viewport.apply event).1
    effects := s.effects ++ (s.viewport.apply event).2 }

/-- The last word on an attach nothing followed: what a shell's own exit and a quit do not explain is
named. -/
def exitWithAttachEnd (s : FrontDoor) (attachEnd : Option AttachEnd) : FrontDoor :=
  let explained :=
    match attachEnd with
    | some (.ended _ cause) => decide (cause ≠ none ∧ cause ≠ some SessionEnd.exited)
    | some (.lost _) => true
    | some .quit | none => false
  { s with
    phase := .left attachEnd
    stderr :=
      match attachEnd with
      | some e =>
        if explained then
          s.stderr ++ [StderrLine.ended ((s.viewport.current.map Current.target).getD "session".toList) e]
        else s.stderr
      | none => s.stderr }

/-- A dial failed: the machine says what follows; if nothing does, the error is returned, after the
notice that nobody showed. -/
def dialFailed (s : FrontDoor) (target : Text) : FrontDoor :=
  if (s.viewport.apply (.dialFailed target)).2 = [] then
    { s with
      viewport := { (s.viewport.apply (.dialFailed target)).1 with notice := none }
      stderr := s.stderr ++ (s.viewport.notice.map StderrLine.banner).toList
      phase := .failed }
  else s.observe (.dialFailed target)

/-- **One turn of the loop.** -/
def turn (w : World) (s : FrontDoor) : Option FrontDoor :=
  match s.phase with
  | .looping =>
    match s.effects with
    | [] => some { s with phase := .done }
    | .dial target :: effects =>
      match dispatchPh w { s with effects } (phParse (some target)) with
      | (s, .attached place) => some { s with phase := .attached place }
      | (s, .returned) => some (s.observe .attachReturned)
      | (s, .failed) => some (s.dialFailed target)
      | (s, .choosing) => some { s with phase := .choosing }
    | .exit attachEnd skipped :: effects =>
      some <| exitWithAttachEnd
        { s with
          effects
          stderr :=
            if skipped = [] then s.stderr
            else s.stderr ++ [.alsoGone (skipped.map fun e => displayTarget w.hostname e.target)] }
        attachEnd
    | .refreshStatus :: effects => some { s with effects }
  | _ => none

/-- The process when an attach of the viewport `v` has returned. -/
def afterAttach (v : ViewportState) : FrontDoor := ({ viewport := v } : FrontDoor).observe .attachReturned

/-! ### What a dial does -/

/-- What a dial may do: it makes sessions, and it enters a target, after which an attach runs or the
dial fails, or it leaves the viewport alone. -/
structure Dials (s : FrontDoor) (r : FrontDoor × Dialled) : Prop where
  created : s.created <+: r.1.created
  effects : r.1.effects = s.effects
  phase : r.1.phase = s.phase
  viewport : (r.1.viewport = s.viewport ∧ ∀ place, r.2 ≠ .attached place) ∨ ((∃ target armed, r.1.viewport =
        (({ s.viewport with anonymousCreate := armed } : ViewportState).apply (.entered target)).1) ∧
      (r.2 = .failed ∨ ∃ place, r.2 = .attached place))

variable {w : World} {s s' : FrontDoor}

theorem Dials.failed (s : FrontDoor) : Dials s (s, .failed) :=
  ⟨prefix_refl _, rfl, rfl, .inl ⟨rfl, nofun⟩⟩

theorem Dials.made (place : SessionPlace) {d : Dialled} (hd : ∀ place, d ≠ .attached place) :
    Dials s (s.make place, d) := ⟨prefix_append _ _, rfl, rfl, .inl ⟨rfl, hd⟩⟩

theorem armAnonymousCreate_eq (s : FrontDoor) (kind : SessionKind) : ∃ armed, s.armAnonymousCreate kind =
      { s with viewport := { s.viewport with anonymousCreate := armed } } := by
  unfold armAnonymousCreate
  split
  · exact ⟨true, rfl⟩
  · exact ⟨s.viewport.anonymousCreate, rfl⟩

theorem ensureSession_cases {group name : Text} {made : Bool}
    (h : ensureSession w s group name = some (made, s')) :
    w.pathOk group name = true ∧ ((made = false ∧ s' = s ∧ s.live w group name = true) ∨
        (made = true ∧ s' = s.make ⟨none, some group, name⟩ ∧ s.live w group name = false ∧
          w.bindable group name = true)) := by
  unfold ensureSession at h
  cases hpath : w.pathOk group name <;> cases hlive : s.live w group name <;>
    cases hbind : w.bindable group name <;> simp_all

theorem sendSwitchRequest_cases (w : World) (s : FrontDoor) (current : Text) :
    sendSwitchRequest w s current = (s, .returned) ∨ sendSwitchRequest w s current = (s, .failed) := by
  unfold sendSwitchRequest
  split
  · exact .inl rfl
  · exact .inr rfl

theorem switchInPlace_cases (w : World) (s : FrontDoor) (current group name : Text) (strict : Bool) :
    ((switchInPlace w s current group name strict).1 = s ∨ strict = true ∧
          (switchInPlace w s current group name strict).1 = s.make ⟨none, some group, name⟩) ∧
      ((switchInPlace w s current group name strict).2 = .returned ∨
        (switchInPlace w s current group name strict).2 = .failed) := by
  unfold switchInPlace
  split
  · exact ⟨.inl rfl, .inr rfl⟩
  split
  · exact ⟨.inl rfl, .inr rfl⟩
  split
  case isTrue hstrict =>
    split
    case h_1 made hmade =>
      obtain ⟨-, ⟨hfalse, -⟩ | ⟨-, rfl, -⟩⟩ := ensureSession_cases hmade
      · cases hfalse
      · rcases sendSwitchRequest_cases w (s.make ⟨none, some group, name⟩) current with
          heq | heq
        · rw [heq]
          exact ⟨.inr ⟨hstrict, rfl⟩, .inl rfl⟩
        · rw [heq]
          exact ⟨.inr ⟨hstrict, rfl⟩, .inr rfl⟩
    case h_2 same hsame =>
      obtain ⟨-, ⟨-, rfl, -⟩ | ⟨htrue, -⟩⟩ := ensureSession_cases hsame
      · exact ⟨.inl rfl, .inr rfl⟩
      · cases htrue
    case h_3 => exact ⟨.inl rfl, .inr rfl⟩
  split
  · rcases sendSwitchRequest_cases w s current with heq | heq
    · rw [heq]
      exact ⟨.inl rfl, .inl rfl⟩
    · rw [heq]
      exact ⟨.inl rfl, .inr rfl⟩
  · exact ⟨.inl rfl, .inr rfl⟩

theorem switchInPlace_dials (w : World) (s : FrontDoor) (current group name : Text)
    (strict : Bool) : Dials s (switchInPlace w s current group name strict) := by
  obtain ⟨hstate, hresult⟩ := switchInPlace_cases w s current group name strict
  have hd : ∀ place, (switchInPlace w s current group name strict).2 ≠ .attached place := by
    rcases hresult with heq | heq <;> rw [heq] <;> exact nofun
  rcases hstate with heq | ⟨-, heq⟩
  · exact ⟨by simp only [heq, prefix_refl], by rw [heq], by rw [heq], .inl ⟨by rw [heq], hd⟩⟩
  · exact ⟨by rw [heq]; exact prefix_append _ _, by rw [heq]; rfl, by rw [heq]; rfl,
      .inl ⟨by rw [heq]; rfl, hd⟩⟩

/-- **An attach to a host enters its target**, whatever comes of it. -/
theorem cmdSshSession_dials (w : World) (user : Option Text) (host : Text)
    (targetGroup : Option Text) (globalGroup session : Text) {armed : Bool}
    (hcreated : s.created <+: s'.created) (heffects : s'.effects = s.effects) (hphase : s'.phase = s.phase)
    (hviewport : s'.viewport = { s.viewport with anonymousCreate := armed }) :
    Dials s (cmdSshSession w s' user host targetGroup globalGroup session) := by
  unfold cmdSshSession
  simp only
  split
  · exact ⟨hcreated, heffects, hphase, .inr ⟨⟨_, armed, by rw [← hviewport]; rfl⟩, .inr ⟨_, rfl⟩⟩⟩
  · split
    · exact ⟨hcreated, heffects, hphase, .inr ⟨⟨_, armed, by rw [← hviewport]; rfl⟩, .inl rfl⟩⟩
    · exact ⟨hcreated.trans (prefix_append _ _), heffects, hphase,
        .inr ⟨⟨_, armed, by rw [← hviewport]; rfl⟩, .inr ⟨_, rfl⟩⟩⟩
    · exact ⟨hcreated, heffects, hphase, .inr ⟨⟨_, armed, by rw [← hviewport]; rfl⟩, .inr ⟨_, rfl⟩⟩⟩

theorem startRemoteAuto_dials (w : World) (s : FrontDoor) (user : Option Text) (host : Text)
    (targetGroup : Option Text) (globalGroup : Text) :
    Dials s (startRemoteAuto w s user host targetGroup globalGroup) := by
  unfold startRemoteAuto
  split
  · exact .failed s
  · exact cmdSshSession_dials w user host targetGroup globalGroup _ (prefix_append _ _) rfl rfl
      rfl

theorem cmdStartLocal_dials (w : World) (s : FrontDoor) (group name : Text) (detach : Bool)
    (kind : SessionKind) : Dials s (cmdStartLocal w s group name detach kind) := by
  unfold cmdStartLocal
  split
  · split
    case h_1 made s' hmade =>
      obtain ⟨-, ⟨-, rfl, -⟩ | ⟨-, rfl, -⟩⟩ := ensureSession_cases hmade
      · exact ⟨prefix_refl _, rfl, rfl, .inl ⟨rfl, nofun⟩⟩
      · exact .made _ nofun
    case h_2 => exact .failed s
  · split
    · exact switchInPlace_dials w s _ group name true
    · split
      case h_1 s' hmade =>
        obtain ⟨-, ⟨hfalse, -⟩ | ⟨-, rfl, -⟩⟩ := ensureSession_cases hmade
        · cases hfalse
        · obtain ⟨armed, heq⟩ := (s.make ⟨none, some group, name⟩).armAnonymousCreate_eq kind
          rw [heq]
          exact ⟨prefix_append _ _, rfl, rfl, .inr ⟨⟨_, armed, rfl⟩, .inr ⟨_, rfl⟩⟩⟩
      case h_2 s' hsame =>
        obtain ⟨-, ⟨-, rfl, -⟩ | ⟨htrue, -⟩⟩ := ensureSession_cases hsame
        · exact .failed s'
        · cases htrue
      case h_3 => exact .failed s

theorem cmdStart_dials (w : World) (s : FrontDoor) (group : Text) (word : Option Text) :
    Dials s (cmdStart w s group word) := by
  unfold cmdStart
  split
  · exact .failed s
  split
  · exact .failed s
  simp only
  split
  · split
    · exact .failed s
    · split
      · exact .failed s
      · exact cmdStartLocal_dials w s _ _ _ _
  · split
    · exact .failed s
    · exact cmdStartLocal_dials w s _ _ _ _
  · exact startRemoteAuto_dials w s _ _ _ _
  · split
    · exact cmdSshSession_dials w _ _ _ _ _ (prefix_refl _) rfl rfl rfl
    · exact .failed s
    · exact .failed s

theorem cmdAttach_dials (w : World) (s : FrontDoor) (group word : Text) : Dials s (cmdAttach w s group word) := by
  unfold cmdAttach
  split
  · exact .failed s
  split
  · split
    · exact cmdSshSession_dials w _ _ _ _ _ (prefix_refl _) rfl rfl rfl
    · exact .failed s
    · exact .failed s
  · split
    · exact .failed s
    split
    · exact switchInPlace_dials w s _ _ _ _
    split
    · exact ⟨prefix_refl _, rfl, rfl, .inr ⟨⟨_, s.viewport.anonymousCreate, rfl⟩, .inr ⟨_, rfl⟩⟩⟩
    · exact .failed s

/-- **A dial forgets no session made and enters at most one target.** -/
theorem dispatchPh_dials (w : World) (s : FrontDoor) (route : PhRoute) : Dials s (dispatchPh w s route) := by
  cases route with
  | pickerAll | pickerHost => exact ⟨prefix_refl _, rfl, rfl, .inl ⟨rfl, nofun⟩⟩
  | hostNeedsSession user host => exact .failed s
  | localNew g => exact cmdStart_dials w s _ _
  | localResolve g session =>
    rw [dispatchPh]
    split
    · exact .failed s
    split
    · exact .failed s
    split
    · exact cmdAttach_dials w s _ _
    · exact cmdStart_dials w s _ _
  | remoteNew user host g => exact startRemoteAuto_dials w s _ _ _ _
  | remoteResolve user host g session =>
    exact cmdSshSession_dials w _ _ _ _ _ (prefix_refl _) rfl rfl rfl

theorem dialFailed_created (s : FrontDoor) (target : Text) : (s.dialFailed target).created = s.created := by
  unfold dialFailed
  split <;> rfl

/-- **A turn of the loop forgets no session made.** -/
theorem turn_created (h : turn w s = some s') : s.created <+: s'.created := by
  unfold turn at h
  split at h
  case h_2 => cases h
  split at h
  case h_1 =>
    rw [Option.some.injEq] at h
    exact h ▸ prefix_refl _
  case h_2 target effects _ =>
    have hd := (dispatchPh_dials w { s with effects } (phParse (some target))).created
    split at h
    case h_1 heq =>
      rw [heq] at hd
      rw [Option.some.injEq] at h
      exact h ▸ hd
    case h_2 heq =>
      rw [heq] at hd
      rw [Option.some.injEq] at h
      exact h ▸ hd
    case h_3 t heq =>
      rw [heq] at hd
      rw [Option.some.injEq] at h
      rw [← h, dialFailed_created]
      exact hd
    case h_4 heq =>
      rw [heq] at hd
      rw [Option.some.injEq] at h
      exact h ▸ hd
  case h_3 =>
    rw [Option.some.injEq] at h
    exact h ▸ prefix_refl _
  case h_4 =>
    rw [Option.some.injEq] at h
    exact h ▸ prefix_refl _

theorem turn_dial {target : Text} {effects : List ViewportEffect} (hphase : s.phase = .looping)
    (heffects : s.effects = .dial target :: effects) :
    turn w s = match dispatchPh w { s with effects } (phParse (some target)) with
      | (s, .attached place) => some { s with phase := .attached place }
      | (s, .returned) => some (s.observe .attachReturned)
      | (s, .failed) => some (s.dialFailed target)
      | (s, .choosing) => some { s with phase := .choosing } := by
  obtain ⟨viewport, _, created, stderr, _⟩ := s
  subst hphase heffects
  rfl

theorem exitWithAttachEnd_stderr (s : FrontDoor) (attachEnd : Option AttachEnd) :
    s.stderr <+: (s.exitWithAttachEnd attachEnd).stderr := by
  unfold exitWithAttachEnd
  cases attachEnd with
  | none => exact prefix_refl _
  | some e =>
    cases e with
    | ended code cause =>
      simp only
      split
      · exact prefix_append _ _
      · exact prefix_refl _
    | lost reason => exact prefix_append _ _
    | quit => exact prefix_refl _

end FrontDoor

end Posh
