/-
**What a target names.**

The front door takes one word and reads it as a session on this machine, a session on a host, or a
host; the colon tells them apart.  Reading never fails: whatever is not well formed keeps a meaning of
its own.  The way back is `targetFor`, the spelling under which the viewport remembers a session.

A word is a list of characters.
-/

import Mathlib.Data.Nat.Notation

set_option autoImplicit false

namespace Posh

/-- A word of the command line. -/
abbrev Text := List Char

/-- The parts before and after the first `c`. -/
def splitOnce (c : Char) : Text → Option (Text × Text)
  | [] => none
  | x :: xs => if x = c then some ([], xs) else (splitOnce c xs).map fun p => (x :: p.1, p.2)

/-! ### The grammar -/

inductive Target where
  /-- a bare word: a session on this machine -/
  | localSession (name : Text)
  /-- `:session` or `:group/session` -/
  | explicitLocal (group : Option Text) (session : Text)
  /-- an ssh destination without a session -/
  | host (user : Option Text) (host : Text)
  /-- `[user@]host:[group/]session` -/
  | remoteSession (user : Option Text) (host : Text) (group : Option Text) (session : Text)
  deriving DecidableEq, Repr

/-- The text before the first `@` is the user, when both halves are there. -/
def splitUser (s : Text) : Option Text × Text :=
  match splitOnce '@' s with
  | some (user, host) => if user ≠ [] ∧ host ≠ [] then (some user, host) else (none, s)
  | none => (none, s)

/-- The text before the first `/` is the group, when both halves are there. -/
def splitGroup (s : Text) : Option Text × Text :=
  match splitOnce '/' s with
  | some (group, session) => if group ≠ [] ∧ session ≠ [] then (some group, session) else (none, s)
  | none => (none, s)

namespace Target

/-- A session part is a word of its own without a colon. -/
def isSessionPart (s : Text) : Bool := s ≠ [] ∧ ':' ∉ s

/-- Rule 1: an explicit local target; a bare colon stays a session name. -/
def parseLocal : Text → Option Target
  | ':' :: rest =>
    if isSessionPart rest then
      some (.explicitLocal (splitGroup rest).1 (splitGroup rest).2)
    else if rest = [] then some (.localSession [':'])
    else none
  | _ => none

/-- Rule 2: a bracketed host; an unterminated bracket falls through. -/
def parseBracketed : Text → Option Target
  | '[' :: inner =>
    match splitOnce ']' inner with
    | some (dest, ':' :: part) =>
      if isSessionPart part then
        some (.remoteSession none dest (splitGroup part).1 (splitGroup part).2)
      else some (.host none dest)
    | some (dest, _) => some (.host none dest)
    | none => none
  | _ => none

/-- Rule 3: the first colon splits; a session part that is empty or has a colon of its own means the
word is a host.  Rule 6: without a colon, `@` or `.` marks a host. -/
def parseSplit (arg : Text) : Target :=
  match splitOnce ':' arg with
  | some (head, part) =>
    if head ≠ [] ∧ isSessionPart part then
      .remoteSession (splitUser head).1 (splitUser head).2 (splitGroup part).1 (splitGroup part).2
    else
      -- a trailing colon is not part of the host, the colons of an address are
      let raw := if part = [] ∧ head ≠ [] then head else arg
      .host (splitUser raw).1 (splitUser raw).2
  | none =>
    if '@' ∈ arg ∨ '.' ∈ arg then .host (splitUser arg).1 (splitUser arg).2
    else .localSession arg

/-- **Reads a word as a target**; the first rule that matches wins. -/
def parse (arg : Text) : Target := ((parseLocal arg).or (parseBracketed arg)).getD (parseSplit arg)

end Target

/-! ### Spelling a target -/

/-- The spelling of a session on `dest` (`none`: this machine) in `group` (`none`: the default). -/
def targetFor (dest group : Option Text) (session : Text) : Text :=
  let inGroup :=
    match group with
    | some g => if g ≠ "default".toList then g ++ '/' :: session else session
    | none => session
  dest.getD [] ++ ':' :: inGroup

def phDest (user : Option Text) (host : Text) : Text :=
  match user with
  | some u => u ++ '@' :: host
  | none => host

/-- A target in a message: a local one names this machine. -/
def displayTarget (hostname : Text) : Text → Text
  | ':' :: rest => hostname ++ ':' :: rest
  | target => target

/-! ### Routing -/

/-- How the front door routes a word. -/
inductive PhRoute where
  | pickerAll
  | pickerHost (user : Option Text) (host : Text)
  | hostNeedsSession (user : Option Text) (host : Text)
  | localNew (group : Option Text)
  | localResolve (group : Option Text) (session : Text)
  | remoteNew (user : Option Text) (host : Text) (group : Option Text)
  | remoteResolve (user : Option Text) (host : Text) (group : Option Text) (session : Text)
  deriving DecidableEq, Repr

/-- **Routes a word**: `+` after the colon is a new session, a trailing colon the host's picker. -/
def phParse : Option Text → PhRoute
  | none => .pickerAll
  | some t =>
    match Target.parse t with
    | .localSession name => .localResolve none name
    | .explicitLocal group session =>
      if session = ['+'] then .localNew group else .localResolve group session
    | .host user host =>
      if t.getLast? = some ':' then .pickerHost user host else .hostNeedsSession user host
    | .remoteSession user host group session =>
      if session = ['+'] then .remoteNew user host group
      else .remoteResolve user host group session

example : phParse (some "user@box:grp/dev".toList) =
    .remoteResolve (some "user".toList) "box".toList (some "grp".toList) "dev".toList := by decide

/-! ### The session of a local route -/

theorem splitOnce_spec {c : Char} {s front back : Text} (h : splitOnce c s = some (front, back)) :
    s = front ++ c :: back := by
  induction s generalizing front with
  | nil => cases h
  | cons x s ih =>
    unfold splitOnce at h
    split at h
    case isTrue hx =>
      simp only [Option.some.injEq, Prod.mk.injEq] at h
      obtain ⟨rfl, rfl⟩ := h
      rw [hx]
      rfl
    case isFalse =>
      obtain ⟨⟨front', back'⟩, hsplit, heq⟩ := Option.map_eq_some_iff.1 h
      simp only [Prod.mk.injEq] at heq
      obtain ⟨rfl, rfl⟩ := heq
      rw [ih hsplit]
      rfl

theorem splitOnce_eq_none_iff {c : Char} {s : Text} : splitOnce c s = none ↔ c ∉ s := by
  induction s with
  | nil => simp [splitOnce]
  | cons x s ih =>
    unfold splitOnce
    split
    case isTrue hx => simp [hx]
    case isFalse hx =>
      rw [Option.map_eq_none_iff, ih, List.mem_cons, not_or]
      exact ⟨fun h => ⟨fun heq => hx heq.symm, h⟩, fun h => h.2⟩

theorem splitGroup_subset (s : Text) : (splitGroup s).2 ⊆ s := by
  unfold splitGroup
  split
  case h_1 group session hsplit =>
    split
    · rw [splitOnce_spec hsplit]
      intro c hc
      simp [hc]
    · exact List.Subset.refl s
  case h_2 => exact List.Subset.refl s

namespace Target

variable {s : Text}

theorem parseLocal_cases {t : Target} (h : parseLocal s = some t) :
    ':' ∈ s ∧ ((∃ group session, t = .explicitLocal group session ∧ ':' ∉ session) ∨ t = .localSession [':']) := by
  unfold parseLocal at h
  split at h
  case h_2 => cases h
  refine ⟨List.mem_cons_self, ?_⟩
  split at h
  case isTrue hpart =>
    rw [Option.some.injEq] at h
    simp only [isSessionPart, decide_eq_true_eq] at hpart
    exact .inl ⟨_, _, h.symm, fun hmem => hpart.2 (splitGroup_subset _ hmem)⟩
  split at h
  · rw [Option.some.injEq] at h
    exact .inr h.symm
  · cases h

theorem parseBracketed_cases {t : Target} (h : parseBracketed s = some t) : (∃ dest, t = .host none dest) ∨
      ':' ∈ s ∧ ∃ dest group session, t = .remoteSession none dest group session := by
  unfold parseBracketed at h
  split at h
  case h_2 => cases h
  split at h
  case h_1 inner dest part hclose =>
    split at h
    · rw [Option.some.injEq] at h
      refine .inr ⟨?_, _, _, _, h.symm⟩
      rw [splitOnce_spec hclose]
      simp
    · rw [Option.some.injEq] at h
      exact .inl ⟨dest, h.symm⟩
  case h_2 dest suffix _ _ =>
    rw [Option.some.injEq] at h
    exact .inl ⟨dest, h.symm⟩
  case h_3 => cases h

theorem parse_of_no_colon (h : ':' ∉ s) (user : Option Text) (dest : Text)
    (group : Option Text) (session : Text) : parse s ≠ .remoteSession user dest group session := by
  unfold parse
  cases hl : parseLocal s with
  | some t => exact absurd (parseLocal_cases hl).1 h
  | none =>
    rw [Option.none_or]
    cases hb : parseBracketed s with
    | some t =>
      rcases parseBracketed_cases hb with ⟨_, rfl⟩ | ⟨hmem, -⟩
      · exact nofun
      · exact absurd hmem h
    | none =>
      rw [Option.getD_none]
      unfold parseSplit
      rw [splitOnce_eq_none_iff.2 h]
      simp only
      split <;> exact nofun

theorem parse_local {s session : Text}
    (h : parse s = .localSession session ∨ ∃ group, parse s = .explicitLocal group session) :
    ':' ∉ session ∨ session = [':'] := by
  unfold parse at h
  cases hl : parseLocal s with
  | some t =>
    rw [hl, Option.some_or, Option.getD_some] at h
    obtain ⟨-, ⟨group, session', rfl, hmem⟩ | rfl⟩ := parseLocal_cases hl
    · rcases h with h | ⟨_, h⟩ <;> cases h
      exact .inl hmem
    · rcases h with h | ⟨_, h⟩ <;> cases h
      exact .inr rfl
  | none =>
    rw [hl, Option.none_or] at h
    cases hb : parseBracketed s with
    | some t =>
      rw [hb, Option.getD_some] at h
      rcases parseBracketed_cases hb with ⟨_, rfl⟩ | ⟨-, _, _, _, rfl⟩ <;>
        rcases h with h | ⟨_, h⟩ <;> cases h
    | none =>
      rw [hb, Option.getD_none] at h
      unfold parseSplit at h
      cases hsplit : splitOnce ':' s with
      | some p =>
        rw [hsplit] at h
        simp only at h
        split at h <;> rcases h with h | ⟨_, h⟩ <;> cases h
      | none =>
        rw [hsplit] at h
        simp only at h
        split at h <;> rcases h with h | ⟨_, h⟩ <;> cases h
        exact .inl (splitOnce_eq_none_iff.1 hsplit)

end Target

/-- **The session of a local route**, read again as a target, is not on a host. -/
theorem phParse_localResolve {t session : Text} {group : Option Text}
    (h : phParse (some t) = .localResolve group session) (user : Option Text) (dest : Text)
    (group' : Option Text) (session' : Text) :
    Target.parse session ≠ .remoteSession user dest group' session' := by
  have hsession : ':' ∉ session ∨ session = [':'] := by
    refine Target.parse_local (s := t) ?_
    cases hp : Target.parse t with
    | localSession name =>
      simp only [phParse, hp, PhRoute.localResolve.injEq] at h
      exact .inl (by rw [h.2])
    | explicitLocal g name =>
      simp only [phParse, hp] at h
      split at h <;> cases h
      exact .inr ⟨_, rfl⟩
    | host u d =>
      simp only [phParse, hp] at h
      split at h <;> cases h
    | remoteSession u d g n =>
      simp only [phParse, hp] at h
      split at h <;> cases h
  rcases hsession with hmem | rfl
  · exact Target.parse_of_no_colon hmem user dest group' session'
  · exact nofun

end Posh
