/-
**Recorded targets lead back.**

An attach records the target of the session it entered, spelled from the destination, the group that was filled in and
the session's name.  The viewport dials that spelling again when it comes back.  The spelling leaves out the default
group and the brackets of a host, and puts the separators between parts that may contain them, so not every recorded
target leads back to the session it was recorded for.
-/

import Posh.SessionReturn
import Posh.SessionStack

set_option autoImplicit false

namespace Posh

open Option (getD_none getD_some)
open List (cons_append mem_cons)

/-! ### Splitting -/

theorem splitOnce_append {c : Char} {front : Text} (h : c ∉ front) (back : Text) :
    splitOnce c (front ++ c :: back) = some (front, back) := by
  induction front with
  | nil =>
    rw [List.nil_append, splitOnce, if_pos rfl]
  | cons x front ih =>
    rw [mem_cons, not_or] at h
    rw [cons_append, splitOnce, if_neg (Ne.symm h.1), ih h.2]
    rfl

theorem splitOnce_front {c : Char} : ∀ {s front back : Text}, splitOnce c s = some (front, back) → c ∉ front := by
  intro s
  induction s with
  | nil => exact fun h => by cases h
  | cons x s ih =>
    intro front back h
    rw [splitOnce] at h
    split at h
    · cases h
      exact List.not_mem_nil
    · next hx =>
        obtain ⟨⟨front', back'⟩, hsplit, heq⟩ := Option.map_eq_some_iff.1 h
        cases heq
        rw [mem_cons, not_or]
        exact ⟨fun heq => hx heq.symm, ih hsplit⟩

theorem phDest_splitUser (s : Text) : phDest (splitUser s).1 (splitUser s).2 = s := by
  rw [splitUser]
  split
  · next user host hsplit =>
      split
      · exact (splitOnce_spec hsplit).symm
      · rfl
  · rfl

theorem splitGroup_snd {s : Text} : (splitGroup s).2 = s ↔ (splitGroup s).1 = none := by
  rw [splitGroup]
  split
  · next group session hsplit =>
      split
      · refine iff_of_false (fun heq => ?_) nofun
        have hlen := congrArg List.length (splitOnce_spec hsplit)
        rw [List.length_append, List.length_cons, ← heq] at hlen
        dsimp only at hlen
        omega
      · exact iff_of_true rfl rfl
  · exact iff_of_true rfl rfl

theorem splitGroup_append {group name : Text} :
    (splitGroup (group ++ '/' :: name)).2 = name ↔ group ≠ [] ∧ '/' ∉ group ∧ name ≠ [] := by
  constructor
  · intro h
    rw [splitGroup] at h
    split at h
    · next group' name' hsplit =>
        split at h
        · next hne =>
            have hname : name' = name := h
            have heq := splitOnce_spec hsplit
            rw [hname] at heq
            obtain rfl : group = group' := (List.append_inj' heq rfl).1
            exact ⟨hne.1, splitOnce_front hsplit, hname ▸ hne.2⟩
        · have hlen := congrArg List.length h
          rw [List.length_append, List.length_cons] at hlen
          omega
    · have hlen := congrArg List.length h
      rw [List.length_append, List.length_cons] at hlen
      omega
  · rintro ⟨hgroup, hslash, hname⟩
    rw [splitGroup, splitOnce_append hslash]
    dsimp only
    rw [if_pos ⟨hgroup, hname⟩]

theorem splitGroup_append_fst {group name : Text} (h : (splitGroup (group ++ '/' :: name)).2 = name) :
    (splitGroup (group ++ '/' :: name)).1 = some group := by
  obtain ⟨hgroup, hslash, hname⟩ := splitGroup_append.1 h
  rw [splitGroup, splitOnce_append hslash]
  dsimp only
  rw [if_pos ⟨hgroup, hname⟩]

/-! ### Reading a spelled target -/

namespace Target

theorem isSessionPart_iff {s : Text} : isSessionPart s = true ↔ s ≠ [] ∧ ':' ∉ s := by
  rw [isSessionPart, decide_eq_true_eq]

/-- **A target on this machine**, as it is spelled. -/
theorem parse_colon (part : Text) :
    parse (':' :: part) = if isSessionPart part then .explicitLocal (splitGroup part).1 (splitGroup part).2
      else if part = [] then .localSession [':']
      else .host (splitUser (':' :: part)).1 (splitUser (':' :: part)).2 := by
  rw [parse, parseLocal]
  split
  · rfl
  · split
    · rfl
    · next hne =>
        have hbracketed : parseBracketed (':' :: part) = none := rfl
        have hsplit : splitOnce ':' (':' :: part) = some ([], part) := by rw [splitOnce, if_pos rfl]
        rw [hbracketed, Option.or_none, getD_none, parseSplit, hsplit]
        dsimp only
        rw [if_neg (fun h => h.1 rfl), if_neg (fun h => hne h.1)]

/-- A destination that is read back as it is spelled: it has no colon, and no bracket is closed behind it. -/
def Plain (dest part : Text) : Prop :=
  dest ≠ [] ∧ ':' ∉ dest ∧ (dest.head? = some '[' → ']' ∉ dest ++ ':' :: part)

variable {dest part : Text}

theorem parseLocal_dest (h : Plain dest part) : parseLocal (dest ++ ':' :: part) = none := by
  obtain ⟨hne, hcolon, -⟩ := h
  cases dest with
  | nil => exact absurd rfl hne
  | cons x dest =>
    rw [cons_append, parseLocal.eq_def]
    split
    · next heq =>
        obtain rfl := (List.cons.inj heq).1
        exact absurd List.mem_cons_self hcolon
    · rfl

theorem parseBracketed_dest (h : Plain dest part) : parseBracketed (dest ++ ':' :: part) = none := by
  obtain ⟨hne, hcolon, hbracket⟩ := h
  cases dest with
  | nil => exact absurd rfl hne
  | cons x dest =>
    rw [cons_append, parseBracketed.eq_def]
    split
    · next inner heq =>
        obtain ⟨rfl, rfl⟩ := List.cons.inj heq
        have hclose := hbracket rfl
        rw [cons_append, mem_cons, not_or] at hclose
        rw [splitOnce_eq_none_iff.2 hclose.2]
    · rfl

/-- **A target on a host**, as it is spelled. -/
theorem parse_dest (h : Plain dest part) (hpart : isSessionPart part = true) : parse (dest ++ ':' :: part) =
      .remoteSession (splitUser dest).1 (splitUser dest).2 (splitGroup part).1 (splitGroup part).2 := by
  rw [parse, parseLocal_dest h, parseBracketed_dest h, Option.or_none, getD_none, parseSplit,
    splitOnce_append h.2.1]
  dsimp only
  rw [if_pos ⟨h.1, hpart⟩]

theorem parse_dest_eq {dest part host session : Text} {user group : Option Text}
    (h : parse (dest ++ ':' :: part) = .remoteSession user host group session) (hdest : phDest user host = dest) :
    Plain dest part ∧ isSessionPart part = true ∧ group = (splitGroup part).1 ∧ session = (splitGroup part).2 := by
  rw [parse] at h
  cases hlocal : parseLocal (dest ++ ':' :: part) with
  | some t =>
    rw [hlocal, Option.some_or, getD_some] at h
    obtain ⟨-, ⟨_, _, heq, -⟩ | heq⟩ := parseLocal_cases hlocal
    · cases h.symm.trans heq
    · cases h.symm.trans heq
  | none =>
    rw [hlocal, Option.none_or] at h
    cases hbracketed : parseBracketed (dest ++ ':' :: part) with
    | some t =>
      -- the brackets are left out of the destination
      rw [hbracketed, getD_some] at h
      rw [parseBracketed.eq_def] at hbracketed
      split at hbracketed
      · next inner hinner =>
          split at hbracketed
          · next host' part' hclose =>
              split at hbracketed
              · cases hbracketed
                cases h
                have hhost : host = dest := hdest
                rw [splitOnce_spec hclose, hhost] at hinner
                have hsplit : (dest ++ [':']) ++ part = ('[' :: dest) ++ (']' :: ':' :: part') := by
                  rw [List.append_assoc]
                  exact hinner
                have hlen : (dest ++ [':']).length = ('[' :: dest).length := by
                  rw [List.length_append]
                  rfl
                have hcount := congrArg (List.count '[') (List.append_inj hsplit hlen).1
                rw [List.count_append, List.count_cons_self, show List.count '[' [':'] = 0 from rfl] at hcount
                omega
              · cases hbracketed
                cases h
          · cases hbracketed
            cases h
          · cases hbracketed
      · cases hbracketed
    | none =>
      rw [hbracketed, getD_none, parseSplit] at h
      split at h
      · next head part' hsplit =>
          split at h
          · next hparts =>
              cases h
              have hhead : head = dest := (phDest_splitUser head).symm.trans hdest
              rw [hhead] at hsplit hparts
              have hcolon := splitOnce_front hsplit
              obtain rfl : part = part' := by
                have hboth := (splitOnce_append hcolon part).symm.trans hsplit
                cases hboth
                rfl
              refine ⟨⟨hparts.1, hcolon, fun hopen => ?_⟩, hparts.2, rfl, rfl⟩
              cases dest with
              | nil => cases hopen
              | cons x dest =>
                obtain rfl : x = '[' := Option.some.inj hopen
                rw [cons_append, parseBracketed] at hbracketed
                rw [cons_append, mem_cons, not_or]
                refine ⟨by decide, splitOnce_eq_none_iff.1 ?_⟩
                cases hclose : splitOnce ']' (dest ++ ':' :: part) with
                | none => rfl
                | some closed =>
                  rw [hclose] at hbracketed
                  split at hbracketed
                  · split at hbracketed
                    · cases hbracketed
                    · cases hbracketed
                  · cases hbracketed
                  · next hnone => cases hnone
          · cases h
      · split at h
        · cases h
        · cases h

end Target

/-! ### The session of a route -/

/-- The group of a session: on this machine it is the default where none is named, and on a host the host's own where
it is the default. -/
def fillGroup (defaultGroup : Text) (dest group : Option Text) : Option Text :=
  match dest with
  | none => some (group.getD defaultGroup)
  | some _ => effectiveRemoteGroup group defaultGroup

/-- The group of an existing session is that of no name: the default on this machine, and on a host none. -/
def SessionPlace.InDefault (p : SessionPlace) : Prop := p.group = none ∨ p.group = some "default".toList

instance (p : SessionPlace) : Decidable p.InDefault := inferInstanceAs (Decidable (_ ∨ _))

/-- **The sessions whose recorded target leads back** under a default group. -/
structure SessionPlace.Recallable (p : SessionPlace) (defaultGroup : Text) : Prop where
  name : p.name ≠ [] ∧ ':' ∉ p.name ∧ p.name ≠ ['+']
  /-- a group that is spelled is read back -/
  group : ¬ p.InDefault → ∀ group, p.group = some group → group ≠ [] ∧ '/' ∉ group ∧ ':' ∉ group
  /-- one that is not is the default again, and the name is not taken for a group and a name -/
  inDefault : p.InDefault → defaultGroup = "default".toList ∧ (splitGroup p.name).1 = none
  dest : ∀ dest, p.dest = some dest → dest ≠ [] ∧ ':' ∉ dest ∧ (dest.head? = some '[' → ']' ∉ p.target)

namespace PhRoute

/-- The session that a route names. -/
def place (globalGroup : Text) : PhRoute → Option SessionPlace
  | .localResolve group session => some ⟨none, fillGroup globalGroup none group, session⟩
  | .remoteResolve user host group session =>
    some ⟨some (phDest user host), fillGroup globalGroup (some (phDest user host)) group, session⟩
  | _ => none

variable {p : SessionPlace}

theorem place_group {route : PhRoute} {globalGroup : Text} (h : route.place globalGroup = some p) :
    (p.dest = none → p.group ≠ none) ∧ (p.dest ≠ none → p.group ≠ some "default".toList) := by
  cases route with
  | localResolve group session =>
    cases h
    exact ⟨nofun, fun hne => absurd rfl hne⟩
  | remoteResolve user host group session =>
    cases h
    refine ⟨nofun, fun _ heq => ?_⟩
    have hgroup : effectiveRemoteGroup group globalGroup = some "default".toList := heq
    rw [effectiveRemoteGroup] at hgroup
    split at hgroup
    · next hne => exact hne (Option.some.inj hgroup)
    · cases hgroup
  | _ => cases h

theorem fillGroup_some {group : Text} (hgroup : group ≠ "default".toList) (defaultGroup : Text)
    (dest : Option Text) : fillGroup defaultGroup dest (some group) = some group := by
  cases dest with
  | none => rfl
  | some dest =>
    rw [fillGroup, effectiveRemoteGroup]
    exact if_pos hgroup

theorem fillGroup_none (h : p.InDefault)
    (hgroup : (p.dest = none → p.group ≠ none) ∧ (p.dest ≠ none → p.group ≠ some "default".toList))
    (defaultGroup : Text) : fillGroup defaultGroup p.dest none = p.group ↔ defaultGroup = "default".toList := by
  obtain ⟨dest, group, name⟩ := p
  cases dest with
  | none =>
    obtain rfl : group = some "default".toList := h.resolve_left (hgroup.1 rfl)
    exact Option.some_inj
  | some dest =>
    obtain rfl : group = none := h.resolve_right (hgroup.2 nofun)
    rw [fillGroup, effectiveRemoteGroup]
    dsimp only [getD_none]
    split
    · next hne => exact iff_of_false nofun hne
    · next heq => exact iff_of_true rfl (not_not.1 heq)

/-- **What a spelled target names**: the session it was spelled for, if its parts are read as such. -/
theorem place_spelled {part : Text} (htarget : p.target = p.dest.getD [] ++ ':' :: part)
    (hpart : part ≠ [] ∨ p.name ≠ [':']) (hgroup : p.dest = none → p.group ≠ none) (defaultGroup : Text) :
    (phParse (some p.target)).place defaultGroup = some p ↔
      (∀ dest, p.dest = some dest → Target.Plain dest part) ∧ Target.isSessionPart part = true ∧
        fillGroup defaultGroup p.dest (splitGroup part).1 = p.group ∧ (splitGroup part).2 = p.name ∧
        p.name ≠ ['+'] := by
  rw [htarget, phParse]
  obtain ⟨dest, group, name⟩ := p
  cases dest with
  | none =>
    rw [getD_none, List.nil_append, Target.parse_colon]
    by_cases hsession : Target.isSessionPart part = true
    · rw [if_pos hsession]
      dsimp only
      split
      · next hplus => exact iff_of_false (fun h => by cases h) fun h => h.2.2.2.2 (h.2.2.2.1 ▸ hplus)
      · next hplus =>
          rw [place, Option.some.injEq, SessionPlace.mk.injEq]
          exact ⟨fun h => ⟨by simp, hsession, h.2.1, h.2.2, h.2.2 ▸ hplus⟩,
            fun h => ⟨rfl, h.2.2.1, h.2.2.2.1⟩⟩
    · refine iff_of_false (fun h => ?_) fun h => hsession h.2.1
      rw [if_neg hsession] at h
      by_cases hnil : part = []
      · rw [if_pos hnil, place, Option.some.injEq, SessionPlace.mk.injEq] at h
        exact hpart.elim (fun hne => hne hnil) fun hne => hne h.2.2.symm
      · rw [if_neg hnil] at h
        dsimp only at h
        split at h
        · cases h
        · cases h
  | some dest =>
    rw [getD_some]
    constructor
    · intro h
      cases hparse : Target.parse (dest ++ ':' :: part) with
      | remoteSession user host group' session =>
        rw [hparse] at h
        dsimp only at h
        split at h
        · cases h
        · next hplus =>
            rw [place, Option.some.injEq, SessionPlace.mk.injEq, Option.some.injEq] at h
            obtain ⟨hdest, hg, hname⟩ := h
            obtain ⟨hplain, hsession, rfl, rfl⟩ := Target.parse_dest_eq hparse hdest
            rw [hdest] at hg
            refine ⟨fun dest' hdest' => ?_, hsession, hg, hname, hname ▸ hplus⟩
            obtain rfl : dest = dest' := Option.some.inj hdest'
            exact hplain
      | localSession name' =>
        rw [hparse] at h
        cases h
      | explicitLocal group' session =>
        rw [hparse] at h
        dsimp only at h
        split at h
        · cases h
        · cases h
      | host user host =>
        rw [hparse] at h
        dsimp only at h
        split at h
        · cases h
        · cases h
    · rintro ⟨hplain, hsession, hg, hname, hplus⟩
      rw [Target.parse_dest (hplain dest rfl) hsession]
      dsimp only
      rw [if_neg (by rw [hname]; exact hplus), place, phDest_splitUser, hg, hname]

/-- **The recorded target leads back** to the session it was recorded for, exactly if that is recallable. -/
theorem recorded_iff {token globalGroup : Text} {p : SessionPlace}
    (h : (phParse (some token)).place globalGroup = some p) (defaultGroup : Text) :
    (phParse (some p.target)).place defaultGroup = some p ↔ p.Recallable defaultGroup := by
  have hgroup := place_group h
  by_cases hdefault : p.InDefault
  · -- the group is left out
    have htarget : p.target = p.dest.getD [] ++ ':' :: p.name := by
      rw [SessionPlace.target, targetFor.eq_def]
      rcases hdefault with heq | heq
      · rw [heq]
      · rw [heq]
        rfl
    have hname : p.name ≠ [] ∨ p.name ≠ [':'] := by
      by_cases hnil : p.name = []
      · exact .inr (by rw [hnil]; exact nofun)
      · exact .inl hnil
    rw [place_spelled htarget hname hgroup.1, Target.isSessionPart_iff, splitGroup_snd]
    constructor
    · rintro ⟨hplain, hpart, hfill, hnone, hplus⟩
      rw [hnone, fillGroup_none hdefault hgroup] at hfill
      refine ⟨⟨hpart.1, hpart.2, hplus⟩, fun hno => absurd hdefault hno, fun _ => ⟨hfill, hnone⟩, fun dest hdest => ?_⟩
      rw [htarget, hdest]
      exact hplain dest hdest
    · intro hrecall
      obtain ⟨hfill, hnone⟩ := hrecall.inDefault hdefault
      refine ⟨fun dest hdest => ?_, ⟨hrecall.name.1, hrecall.name.2.1⟩, ?_, hnone, hrecall.name.2.2⟩
      · have hplain := hrecall.dest dest hdest
        rw [htarget, hdest] at hplain
        exact hplain
      · rw [hnone, fillGroup_none hdefault hgroup]
        exact hfill
  · -- the group is spelled
    obtain ⟨group, hsome⟩ : ∃ group, p.group = some group := by
      cases hg : p.group with
      | none => exact absurd (.inl hg) hdefault
      | some group => exact ⟨group, rfl⟩
    have hne : group ≠ "default".toList := fun heq => hdefault (.inr (by rw [hsome, heq]))
    have htarget : p.target = p.dest.getD [] ++ ':' :: (group ++ '/' :: p.name) := by
      rw [SessionPlace.target, targetFor.eq_def, hsome]
      dsimp only
      rw [if_pos hne]
    have hpart : group ++ '/' :: p.name ≠ [] := by simp
    rw [place_spelled htarget (.inl hpart) hgroup.1, Target.isSessionPart_iff]
    constructor
    · rintro ⟨hplain, ⟨-, hcolon⟩, -, hname, hplus⟩
      obtain ⟨hgroup_ne, hslash, hname_ne⟩ := splitGroup_append.1 hname
      rw [List.mem_append, List.mem_cons, not_or, not_or] at hcolon
      refine ⟨⟨hname_ne, hcolon.2.2, hplus⟩, fun _ group' hgroup' => ?_, fun hin => absurd hin hdefault,
        fun dest hdest => ?_⟩
      · obtain rfl : group = group' := Option.some.inj (hsome.symm.trans hgroup')
        exact ⟨hgroup_ne, hslash, hcolon.1⟩
      · rw [htarget, hdest]
        exact hplain dest hdest
    · intro hrecall
      obtain ⟨hgroup_ne, hslash, hcolon⟩ := hrecall.group hdefault group hsome
      have hname : (splitGroup (group ++ '/' :: p.name)).2 = p.name :=
        splitGroup_append.2 ⟨hgroup_ne, hslash, hrecall.name.1⟩
      refine ⟨fun dest hdest => ?_, ⟨hpart, ?_⟩, ?_, hname, hrecall.name.2.2⟩
      · have hplain := hrecall.dest dest hdest
        rw [htarget, hdest] at hplain
        exact hplain
      · rw [List.mem_append, List.mem_cons, not_or, not_or]
        exact ⟨hcolon, by decide, hrecall.name.2.1⟩
      · rw [splitGroup_append_fst hname, fillGroup_some hne, hsome]

theorem recorded_box :
    (phParse (some "me@box:work/dev".toList)).place "other".toList =
      some ⟨some "me@box".toList, some "work".toList, "dev".toList⟩ :=
  (recorded_iff (rfl : (phParse (some "me@box:work/dev".toList)).place "default".toList =
    some ⟨some "me@box".toList, some "work".toList, "dev".toList⟩) "other".toList).2
    ⟨by decide, by decide, by decide, by decide⟩

/-- A host that is written in brackets is recorded without them, and read as a host without a session. -/
theorem recorded_bracketed :
    ¬ ∀ (token globalGroup : Text) (p : SessionPlace), (phParse (some token)).place globalGroup = some p →
      ∀ defaultGroup, (phParse (some p.target)).place defaultGroup = some p := by
  intro h
  exact absurd (h "[::1]:dev".toList "default".toList ⟨some "::1".toList, none, "dev".toList⟩ (by decide)
    "default".toList) (by decide)

end PhRoute

/-! ### What an attach records -/

namespace FrontDoor

variable {w : World} {s s' : FrontDoor}

/-- An attach, if there is one, recorded the target of its session. -/
def Records (r : FrontDoor × Dialled) : Prop :=
  ∀ p, r.2 = .attached p → r.1.viewport.current.map Current.target = some p.target

theorem records_entered (s : FrontDoor) (p : SessionPlace) : Records (s.entered p.target, .attached p) := by
  rintro _ ⟨⟩
  show (s.viewport.enter p.target).current.map Current.target = _
  rw [ViewportState.current_enter]
  rfl

theorem records_of_ne {r : FrontDoor × Dialled} (h : ∀ p, r.2 ≠ .attached p) : Records r :=
  fun p hp => absurd hp (h p)

theorem records_failed (s : FrontDoor) : Records (s, .failed) := records_of_ne nofun

theorem records_switchInPlace (w : World) (s : FrontDoor) (current group name : Text) (strict : Bool) :
    Records (switchInPlace w s current group name strict) := by
  refine records_of_ne fun p hp => ?_
  rcases (switchInPlace_cases w s current group name strict).2 with heq | heq
  · cases hp.symm.trans heq
  · cases hp.symm.trans heq

theorem records_cmdSshSession (w : World) (s : FrontDoor) (user : Option Text) (host : Text)
    (targetGroup : Option Text) (globalGroup session : Text) :
    Records (cmdSshSession w s user host targetGroup globalGroup session) := by
  unfold cmdSshSession
  dsimp only
  split
  · exact records_entered s ⟨some (phDest user host), effectiveRemoteGroup targetGroup globalGroup, session⟩
  · split
    · exact records_failed _
    · exact records_entered s ⟨some (phDest user host), effectiveRemoteGroup targetGroup globalGroup, session⟩
    · exact records_entered s ⟨some (phDest user host), effectiveRemoteGroup targetGroup globalGroup, session⟩

theorem records_startRemoteAuto (w : World) (s : FrontDoor) (user : Option Text) (host : Text)
    (targetGroup : Option Text) (globalGroup : Text) :
    Records (startRemoteAuto w s user host targetGroup globalGroup) := by
  unfold startRemoteAuto
  split
  · exact records_failed s
  · exact records_cmdSshSession w _ user host targetGroup globalGroup _

theorem records_cmdStartLocal (w : World) (s : FrontDoor) (group name : Text) (detach : Bool) (kind : SessionKind) :
    Records (cmdStartLocal w s group name detach kind) := by
  unfold cmdStartLocal
  split
  · split
    · exact records_of_ne nofun
    · exact records_failed s
  · split
    · exact records_switchInPlace w s _ group name true
    · split
      · exact records_entered _ ⟨none, some group, name⟩
      · exact records_failed _
      · exact records_failed s

theorem records_cmdStart (w : World) (s : FrontDoor) (group : Text) (word : Option Text) :
    Records (cmdStart w s group word) := by
  unfold cmdStart
  split
  · exact records_failed s
  · split
    · exact records_failed s
    · dsimp only
      split
      · split
        · exact records_failed s
        · split
          · exact records_failed s
          · exact records_cmdStartLocal w s _ _ _ _
      · split
        · exact records_failed s
        · exact records_cmdStartLocal w s _ _ _ _
      · exact records_startRemoteAuto w s _ _ _ _
      · split
        · exact records_cmdSshSession w s _ _ _ _ _
        · exact records_failed s
        · exact records_failed s

theorem records_cmdAttach (w : World) (s : FrontDoor) (group word : Text) : Records (cmdAttach w s group word) := by
  unfold cmdAttach
  split
  · exact records_failed s
  · split
    · split
      · exact records_cmdSshSession w s _ _ _ _ _
      · exact records_failed s
      · exact records_failed s
    · split
      · exact records_failed s
      · split
        · exact records_switchInPlace w s _ group _ false
        · split
          · exact records_entered s ⟨none, some group, _⟩
          · exact records_failed s

/-- **An attach records the target of its session.** -/
theorem dispatchPh_records (w : World) (s : FrontDoor) (route : PhRoute) : Records (dispatchPh w s route) := by
  cases route with
  | pickerAll => exact records_of_ne nofun
  | pickerHost user host => exact records_of_ne nofun
  | hostNeedsSession user host => exact records_failed s
  | localNew group => exact records_cmdStart w s _ none
  | localResolve group session =>
    rw [dispatchPh]
    split
    · exact records_failed s
    · split
      · exact records_failed s
      · split
        · exact records_cmdAttach w s _ session
        · exact records_cmdStart w s _ (some session)
  | remoteNew user host group => exact records_startRemoteAuto w s user host group _
  | remoteResolve user host group session => exact records_cmdSshSession w s user host group _ session

end FrontDoor

end Posh
