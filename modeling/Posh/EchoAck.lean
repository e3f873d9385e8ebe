/-
**The echo ack.**

Input that was written to the application is taken to be echoed into the screen once a grace period is
over.  The server keeps the offsets that wait, each with the time its period began; while input still lies
in a buffer their periods begin anew, and the offsets collapse to the highest one.  A run notes every
offset that was recorded, with the time of its first record and of the last restamp that found it pending;
the deque keeps only what is needed to tell, of these, the largest one whose period is over.
-/

import Posh.Lib.Runs

set_option autoImplicit false

namespace Posh

open List (forall_mem_append forall_mem_singleton mem_append_left mem_of_getLast?)

/-- How long the application has for an echo, in milliseconds. -/
def echoTimeout : ℕ := 50

/-- The offsets that wait, oldest first, each with the time its period began. -/
structure EchoAck where
  pending : List (ℕ × ℕ) := []
  acked : ℕ := 0
  deriving DecidableEq, Repr

namespace EchoAck

def new : EchoAck := {}

def resume (acked : ℕ) : EchoAck := { acked }

/-- Input up to `offset` was written to the application. -/
def record (e : EchoAck) (offset now : ℕ) : EchoAck :=
  let newest := (e.pending.getLast?.map Prod.fst).getD e.acked
  if offset > newest then { e with pending := e.pending ++ [(offset, now)] } else e

/-- The loop of `update`. -/
def mature (now : ℕ) : List (ℕ × ℕ) → ℕ → Bool → EchoAck × Bool
  | [], acked, changed => ({ pending := [], acked }, changed)
  | (offset, at_) :: pending, acked, changed =>
    if now - at_ < echoTimeout then ({ pending := (offset, at_) :: pending, acked }, changed)
    else mature now pending offset true

/-- The ack advances over the offsets whose period is over; whether it moved. -/
def update (e : EchoAck) (now : ℕ) : EchoAck × Bool := mature now e.pending e.acked false

def ack (e : EchoAck) : ℕ := e.acked

/-- Every period begins anew. -/
def restampPending (e : EchoAck) (now : ℕ) : EchoAck :=
  match e.pending.getLast? with
  | some (newest, _) => { e with pending := [(newest, now)] }
  | none => e

/-- The time until a period is over. -/
def waitTime (e : EchoAck) (now : ℕ) : Option ℕ :=
  e.pending.head?.map fun (_, at_) => at_ + echoTimeout - now

/-- What the loop takes off is over, and the last of it is the ack; what it leaves begins with an offset
whose period is not. -/
theorem mature_eq (now : ℕ) (pending : List (ℕ × ℕ)) (acked : ℕ) (changed : Bool) :
    ∃ gone : List (ℕ × ℕ), pending = gone ++ (mature now pending acked changed).1.pending ∧
      (∀ p ∈ gone, echoTimeout ≤ now - p.2) ∧
      (∀ p ∈ (mature now pending acked changed).1.pending.head?, now - p.2 < echoTimeout) ∧
      (mature now pending acked changed).1.acked = (gone.getLast?.map Prod.fst).getD acked := by
  induction pending generalizing acked changed with
  | nil => exact ⟨[], rfl, nofun, nofun, rfl⟩
  | cons p pending ih =>
    obtain ⟨offset, at_⟩ := p
    rw [mature]
    split
    case isTrue hwait =>
      refine ⟨[], rfl, nofun, fun p hp => ?_, rfl⟩
      obtain rfl : (offset, at_) = p := Option.some.inj hp
      exact hwait
    case isFalse hover =>
      obtain ⟨gone, hsplit, hall, hhead, hacked⟩ := ih offset true
      refine ⟨(offset, at_) :: gone, congrArg _ hsplit, fun p hp => ?_, hhead, ?_⟩
      · rcases List.mem_cons.mp hp with rfl | hp
        · exact Nat.le_of_not_lt hover
        · exact hall p hp
      · rw [hacked, List.getLast?_cons]
        cases gone.getLast? <;> rfl

theorem mature_changed (now : ℕ) (pending : List (ℕ × ℕ)) (acked : ℕ) :
    (mature now pending acked true).2 = true := by
  induction pending generalizing acked with
  | nil => rfl
  | cons p pending ih =>
    rw [mature]
    split
    · rfl
    · exact ih p.1

theorem update_moves (e : EchoAck) (now : ℕ) :
    (e.update now).2 = true ↔ ∃ p ∈ e.pending.head?, echoTimeout ≤ now - p.2 := by
  rw [update]
  cases e.pending with
  | nil => exact ⟨nofun, fun h => (Option.not_mem_none _ h.choose_spec.1).elim⟩
  | cons p pending =>
    obtain ⟨offset, at_⟩ := p
    rw [List.head?_cons, mature]
    split
    case isTrue hwait =>
      refine ⟨nofun, fun h => ?_⟩
      obtain ⟨_, ⟨⟩, hover⟩ := h
      omega
    case isFalse hover => exact ⟨fun _ => ⟨_, rfl, Nat.le_of_not_lt hover⟩, fun _ => mature_changed _ _ _⟩

end EchoAck

open EchoAck

/-! ### Runs -/

/-- An offset that was recorded: when first, and when a restamp last found it pending. -/
structure Noted where
  offset : ℕ
  recorded : ℕ
  restamped : Option ℕ
  deriving DecidableEq, Repr

/-- The period is over, counted from the first record and from the last restamp. -/
def Noted.Mature (n : Noted) (now : ℕ) : Prop :=
  echoTimeout ≤ now - n.recorded ∧ ∀ t ∈ n.restamped, echoTimeout ≤ now - t

/-- The tracker, the time of the last call, and the offsets that were recorded. -/
structure EchoRun where
  echo : EchoAck
  clock : ℕ := 0
  noted : List Noted := []
  deriving DecidableEq, Repr

inductive EchoCall where
  | record (offset : ℕ)
  | restampPending
  | update
  deriving DecidableEq, Repr

/-- A record is noted unless there was one of that offset. -/
def noteRecord (noted : List Noted) (offset now : ℕ) : List Noted :=
  if noted.any (·.offset = offset) then noted
  else noted ++ [{ offset, recorded := now, restamped := none }]

/-- A restamp is noted by every offset above the ack. -/
def noteRestamp (noted : List Noted) (ack now : ℕ) : List Noted :=
  noted.map fun n => if ack < n.offset then { n with restamped := some now } else n

namespace EchoRun

/-- One call at time `now`. -/
def called (r : EchoRun) (now : ℕ) : EchoCall → EchoRun
  | .record offset =>
    { echo := r.echo.record offset now
      clock := now
      noted := noteRecord r.noted offset now }
  | .restampPending =>
    { echo := r.echo.restampPending now
      clock := now
      noted := noteRestamp r.noted r.echo.ack now }
  | .update => { r with echo := (r.echo.update now).1, clock := now }

/-- The clock does not go back. -/
def step (r : EchoRun) (call : EchoCall × ℕ) : Option EchoRun :=
  if call.2 < r.clock then none else some (r.called call.2 call.1)

theorem step_eq_some {r r' : EchoRun} {call : EchoCall} {now : ℕ} :
    r.step (call, now) = some r' ↔ r.clock ≤ now ∧ r.called now call = r' := by
  rw [step]
  split
  case isTrue hlt => exact ⟨nofun, fun h => absurd h.1 (Nat.not_le_of_lt hlt)⟩
  case isFalse hge =>
    rw [Option.some.injEq]
    exact ⟨fun h => ⟨Nat.le_of_not_lt hge, h⟩, And.right⟩

end EchoRun

/-- When the period began. -/
def Noted.stamp (n : Noted) : ℕ := max n.recorded (n.restamped.getD 0)

theorem Noted.mature_iff (n : Noted) (now : ℕ) : n.Mature now ↔ echoTimeout ≤ now - n.stamp := by
  rw [Mature, stamp]
  cases n.restamped with
  | none => simp
  | some t =>
    simp only [Option.mem_def, Option.some.injEq, forall_eq', Option.getD_some]
    omega

section Notes

variable {noted : List Noted} {n : Noted} {offset ack now : ℕ}

theorem mem_noteRecord (hn : n ∈ noted) : n ∈ noteRecord noted offset now := by
  rw [noteRecord]
  split
  · exact hn
  · exact mem_append_left _ hn

theorem of_mem_noteRecord (hn : n ∈ noteRecord noted offset now) :
    n ∈ noted ∨ n = { offset, recorded := now, restamped := none } := by
  rw [noteRecord] at hn
  split at hn
  · exact .inl hn
  · exact (List.mem_append.mp hn).imp_right List.mem_singleton.mp

theorem noteRecord_new (hnew : ∀ n ∈ noted, n.offset ≠ offset) :
    noteRecord noted offset now = noted ++ [{ offset, recorded := now, restamped := none }] := by
  refine if_neg fun hany => ?_
  obtain ⟨n, hn, heq⟩ := List.any_eq_true.mp hany
  exact hnew n hn (of_decide_eq_true heq)

theorem of_mem_noteRestamp (hn : n ∈ noteRestamp noted ack now) :
    ∃ old ∈ noted, n.offset = old.offset ∧ n.recorded = old.recorded ∧
      (ack < n.offset → n.restamped = some now) := by
  obtain ⟨old, hold, rfl⟩ := List.mem_map.mp hn
  refine ⟨old, hold, ?_⟩
  split
  case isTrue => exact ⟨rfl, rfl, fun _ => rfl⟩
  case isFalse hle => exact ⟨rfl, rfl, fun hlt => absurd hlt hle⟩

theorem mem_noteRestamp (hn : n ∈ noted) (ack now : ℕ) :
    ∃ new ∈ noteRestamp noted ack now, new.offset = n.offset ∧ new.recorded = n.recorded ∧
      (ack < n.offset → new.restamped = some now) := by
  refine ⟨_, List.mem_map_of_mem hn, ?_⟩
  split
  case isTrue => exact ⟨rfl, rfl, fun _ => rfl⟩
  case isFalse hle => exact ⟨rfl, rfl, fun hlt => absurd hlt hle⟩

theorem Noted.stamp_restamped (hle : n.recorded ≤ now) (hr : n.restamped = some now) : n.stamp = now := by
  rw [stamp, hr]
  exact Nat.max_eq_right hle

end Notes

namespace EchoAck

variable (e : EchoAck) (offset now : ℕ)

theorem acked_record : (e.record offset now).acked = e.acked := by
  rw [record]
  split <;> rfl

theorem acked_restampPending : (e.restampPending now).acked = e.acked := by
  rw [restampPending]
  split <;> rfl

end EchoAck

theorem le_getLast? {entries : List (ℕ × ℕ)} {last : ℕ × ℕ}
    (hsorted : entries.Pairwise fun p q => p.1 < q.1) (hlast : entries.getLast? = some last) :
    ∀ p ∈ entries, p.1 ≤ last.1 := by
  obtain ⟨front, rfl⟩ := List.getLast?_eq_some_iff.mp hlast
  rw [List.pairwise_append] at hsorted
  exact forall_mem_append.mpr
    ⟨fun p hp => Nat.le_of_lt (hsorted.2.2 p hp _ (List.mem_singleton_self _)),
      forall_mem_singleton.mpr (Nat.le_refl _)⟩

namespace EchoRun

/-- The deque is in order and above the ack; each of its entries has the period of its offset; and every
recorded offset above the ack is covered by an entry whose period began no later. -/
structure Tracks (start : ℕ) (r : EchoRun) : Prop where
  sorted : r.echo.pending.Pairwise fun p q => p.1 < q.1
  stamps : r.echo.pending.Pairwise fun p q => p.2 ≤ q.2
  above : ∀ p ∈ r.echo.pending, r.echo.acked < p.1
  past : ∀ p ∈ r.echo.pending, p.2 ≤ r.clock
  recorded_le : ∀ n ∈ r.noted, n.recorded ≤ r.clock
  source : r.echo.acked = start ∨ ∃ n ∈ r.noted, n.offset = r.echo.acked
  entry : ∀ p ∈ r.echo.pending, ∃ n ∈ r.noted, n.offset = p.1 ∧ n.stamp = p.2
  covered : ∀ n ∈ r.noted, r.echo.acked < n.offset → ∃ p ∈ r.echo.pending, n.offset ≤ p.1 ∧ p.2 ≤ n.stamp

section Tracks

variable {start now offset : ℕ} {r r' : EchoRun} {call : EchoCall}

theorem tracks_resume (start : ℕ) : Tracks start { echo := resume start } where
  sorted := .nil
  stamps := .nil
  above := nofun
  past := nofun
  recorded_le := nofun
  source := .inl rfl
  entry := nofun
  covered := nofun

theorem Tracks.le_newest (h : Tracks start r) :
    r.echo.acked ≤ (r.echo.pending.getLast?.map Prod.fst).getD r.echo.acked ∧
      ∀ p ∈ r.echo.pending, p.1 ≤ (r.echo.pending.getLast?.map Prod.fst).getD r.echo.acked := by
  cases hlast : r.echo.pending.getLast? with
  | none =>
    rw [List.getLast?_eq_none_iff.mp hlast]
    exact ⟨Nat.le_refl _, nofun⟩
  | some last =>
    exact ⟨Nat.le_of_lt (h.above last (mem_of_getLast? hlast)), le_getLast? h.sorted hlast⟩

theorem Tracks.record (h : Tracks start r) (hnow : r.clock ≤ now) (offset : ℕ) : Tracks start
      { echo := r.echo.record offset now
        clock := now
        noted := noteRecord r.noted offset now } := by
  have hacked := r.echo.acked_record offset now
  have hpast : ∀ p ∈ r.echo.pending, p.2 ≤ now := fun p hp => Nat.le_trans (h.past p hp) hnow
  have hrecorded : ∀ n ∈ noteRecord r.noted offset now, n.recorded ≤ now := by
    intro n hn
    rcases of_mem_noteRecord hn with hn | rfl
    · exact Nat.le_trans (h.recorded_le n hn) hnow
    · exact Nat.le_refl _
  have hsource : r.echo.acked = start ∨ ∃ n ∈ noteRecord r.noted offset now, n.offset = r.echo.acked :=
    h.source.imp_right fun ⟨n, hn, heq⟩ => ⟨n, mem_noteRecord hn, heq⟩
  by_cases hgt : offset > (r.echo.pending.getLast?.map Prod.fst).getD r.echo.acked
  · have hrecord : r.echo.record offset now =
        { pending := r.echo.pending ++ [(offset, now)], acked := r.echo.acked } := if_pos hgt
    have hhigh : ∀ p ∈ r.echo.pending, p.1 < offset := fun p hp =>
      Nat.lt_of_le_of_lt (h.le_newest.2 p hp) hgt
    have habove : r.echo.acked < offset := Nat.lt_of_le_of_lt h.le_newest.1 hgt
    have hnew : ∀ n ∈ r.noted, n.offset ≠ offset := by
      intro n hn heq
      obtain ⟨p, hp, hle, -⟩ := h.covered n hn (heq ▸ habove)
      have := hhigh p hp
      omega
    rw [noteRecord_new hnew] at hrecorded hsource
    rw [hrecord, noteRecord_new hnew]
    refine ⟨?_, ?_, ?_, ?_, hrecorded, hsource, ?_, ?_⟩
    · refine List.pairwise_append.mpr ⟨h.sorted, List.pairwise_singleton _ _, fun p hp q hq => ?_⟩
      rw [List.mem_singleton.mp hq]
      exact hhigh p hp
    · refine List.pairwise_append.mpr ⟨h.stamps, List.pairwise_singleton _ _, fun p hp q hq => ?_⟩
      rw [List.mem_singleton.mp hq]
      exact hpast p hp
    · exact forall_mem_append.mpr ⟨h.above, forall_mem_singleton.mpr habove⟩
    · exact forall_mem_append.mpr ⟨hpast, forall_mem_singleton.mpr (Nat.le_refl _)⟩
    · refine forall_mem_append.mpr ⟨fun p hp => ?_, forall_mem_singleton.mpr ?_⟩
      · obtain ⟨n, hn, heq⟩ := h.entry p hp
        exact ⟨n, mem_append_left _ hn, heq⟩
      · exact ⟨_, List.mem_append_right _ (List.mem_singleton_self _), rfl, Nat.max_eq_left (Nat.zero_le _)⟩
    · refine forall_mem_append.mpr ⟨fun n hn hlt => ?_, forall_mem_singleton.mpr fun _ => ?_⟩
      · obtain ⟨p, hp, hle⟩ := h.covered n hn hlt
        exact ⟨p, mem_append_left _ hp, hle⟩
      · exact ⟨_, List.mem_append_right _ (List.mem_singleton_self _), Nat.le_refl _, Nat.le_max_left ..⟩
  · have hrecord : r.echo.record offset now = r.echo := if_neg hgt
    rw [hrecord]
    refine ⟨h.sorted, h.stamps, h.above, hpast, hrecorded, hsource, fun p hp => ?_, fun n hn hlt => ?_⟩
    · obtain ⟨n, hn, heq⟩ := h.entry p hp
      exact ⟨n, mem_noteRecord hn, heq⟩
    · rcases of_mem_noteRecord hn with hn | rfl
      · exact h.covered n hn hlt
      · -- an offset that is not pushed is covered by the newest entry, whose period began before
        cases hlast : r.echo.pending.getLast? with
        | none =>
          rw [hlast] at hgt
          exact absurd hlt hgt
        | some last =>
          rw [hlast] at hgt
          have hmem := mem_of_getLast? hlast
          exact ⟨last, hmem, Nat.le_of_not_lt hgt, Nat.le_trans (hpast last hmem) (Nat.le_max_left ..)⟩

theorem Tracks.restampPending (h : Tracks start r) (hnow : r.clock ≤ now) : Tracks start
      { echo := r.echo.restampPending now
        clock := now
        noted := noteRestamp r.noted r.echo.ack now } := by
  have hrecorded : ∀ n ∈ noteRestamp r.noted r.echo.ack now, n.recorded ≤ now := by
    intro n hn
    obtain ⟨old, hold, -, heq, -⟩ := of_mem_noteRestamp hn
    rw [heq]
    exact Nat.le_trans (h.recorded_le old hold) hnow
  have hsource : r.echo.acked = start ∨
      ∃ n ∈ noteRestamp r.noted r.echo.ack now, n.offset = r.echo.acked := by
    refine h.source.imp_right fun ⟨old, hold, heq⟩ => ?_
    obtain ⟨n, hn, hoffset, -⟩ := mem_noteRestamp hold r.echo.ack now
    exact ⟨n, hn, hoffset.trans heq⟩
  cases hlast : r.echo.pending.getLast? with
  | none =>
    have hrestamp : r.echo.restampPending now = r.echo := by rw [EchoAck.restampPending, hlast]
    have hnil : r.echo.pending = [] := List.getLast?_eq_none_iff.mp hlast
    rw [hrestamp]
    refine ⟨h.sorted, h.stamps, h.above, ?_, hrecorded, hsource, ?_, fun n hn hlt => ?_⟩
    · rw [hnil]
      exact nofun
    · rw [hnil]
      exact nofun
    · obtain ⟨old, hold, hoffset, -⟩ := of_mem_noteRestamp hn
      obtain ⟨p, hp, -⟩ := h.covered old hold (hoffset ▸ hlt)
      rw [hnil] at hp
      cases hp
  | some last =>
    obtain ⟨newest, at_⟩ := last
    have hmem := mem_of_getLast? hlast
    have hrestamp : r.echo.restampPending now = { pending := [(newest, now)], acked := r.echo.acked } := by
      rw [EchoAck.restampPending, hlast]
    have habove : r.echo.ack < newest := h.above _ hmem
    rw [hrestamp]
    refine ⟨List.pairwise_singleton _ _, List.pairwise_singleton _ _, forall_mem_singleton.mpr habove,
      forall_mem_singleton.mpr (Nat.le_refl _), hrecorded, hsource,
      forall_mem_singleton.mpr ?_, fun n hn hlt => ?_⟩
    · obtain ⟨old, hold, heq, -⟩ := h.entry _ hmem
      obtain ⟨n, hn, hoffset, -, hr⟩ := mem_noteRestamp hold r.echo.ack now
      refine ⟨n, hn, hoffset.trans heq, Noted.stamp_restamped (hrecorded n hn) (hr ?_)⟩
      rw [heq]
      exact habove
    · obtain ⟨old, hold, hoffset, -, hr⟩ := of_mem_noteRestamp hn
      obtain ⟨p, hp, hle, -⟩ := h.covered old hold (hoffset ▸ hlt)
      refine ⟨_, List.mem_singleton_self _, ?_, ?_⟩
      · rw [hoffset]
        exact Nat.le_trans hle (le_getLast? h.sorted hlast p hp)
      · exact Nat.le_of_eq (Noted.stamp_restamped (hrecorded n hn) (hr hlt)).symm

theorem Tracks.goneiff (h : Tracks start r) (now : ℕ) : ∃ gone : List (ℕ × ℕ),
    r.echo.pending = gone ++ (r.echo.update now).1.pending ∧
      (∀ p ∈ gone, echoTimeout ≤ now - p.2 ∧ p.1 ≤ (r.echo.update now).1.acked) ∧
      (∀ p ∈ (r.echo.update now).1.pending, now - p.2 < echoTimeout ∧ (r.echo.update now).1.acked < p.1) ∧
      ((r.echo.update now).1.acked = r.echo.acked ∨ ∃ p ∈ gone, (r.echo.update now).1.acked = p.1) := by
  obtain ⟨gone, hsplit, hover, hhead, hacked⟩ := mature_eq now r.echo.pending r.echo.acked false
  have hsorted := h.sorted
  have hstamps := h.stamps
  have habove := h.above
  rw [hsplit, List.pairwise_append] at hsorted hstamps
  rw [hsplit, forall_mem_append] at habove
  -- the periods of the others began no earlier than that of the first one that stays
  have hstay : ∀ p ∈ (r.echo.update now).1.pending, now - p.2 < echoTimeout := by
    show ∀ p ∈ (mature now r.echo.pending r.echo.acked false).1.pending, _
    cases hcases : (mature now r.echo.pending r.echo.acked false).1.pending with
    | nil => exact nofun
    | cons first rest =>
      rw [hcases] at hhead hstamps
      have hfirst := hhead first rfl
      refine List.forall_mem_cons.mpr ⟨hfirst, fun p hp => ?_⟩
      have := (List.pairwise_cons.mp hstamps.2.1).1 p hp
      omega
  have hack : (r.echo.update now).1.acked = (gone.getLast?.map Prod.fst).getD r.echo.acked := hacked
  refine ⟨gone, hsplit, fun p hp => ⟨hover p hp, ?_⟩, fun p hp => ⟨hstay p hp, ?_⟩, ?_⟩
  · rw [hack]
    cases hlast : gone.getLast? with
    | none => rw [List.getLast?_eq_none_iff.mp hlast] at hp; cases hp
    | some last => exact le_getLast? hsorted.1 hlast p hp
  · rw [hack]
    cases hlast : gone.getLast? with
    | none => exact habove.2 p hp
    | some last => exact hsorted.2.2 last (mem_of_getLast? hlast) p hp
  · rw [hack]
    cases hlast : gone.getLast? with
    | none => exact .inl rfl
    | some last => exact .inr ⟨last, mem_of_getLast? hlast, rfl⟩

/-- **An update finds the largest offset whose period is over.** -/
theorem Tracks.update_largest (h : Tracks start r) (now : ℕ) :
    let ack := (r.echo.update now).1.ack
    r.echo.ack ≤ ack ∧ (ack ≠ r.echo.ack → ∃ n ∈ r.noted, n.offset = ack ∧ n.Mature now) ∧
      ∀ n ∈ r.noted, n.Mature now → n.offset ≤ ack := by
  obtain ⟨gone, hsplit, hgone, hstay, hack⟩ := h.goneiff now
  have hle : r.echo.acked ≤ (r.echo.update now).1.acked := by
    rcases hack with heq | ⟨p, hp, heq⟩
    · exact Nat.le_of_eq heq.symm
    · rw [heq]
      exact Nat.le_of_lt (h.above p (hsplit ▸ mem_append_left _ hp))
  refine ⟨hle, fun hne => ?_, fun n hn hmature => Nat.le_of_not_lt fun hlt => ?_⟩
  · obtain ⟨p, hp, heq⟩ := hack.resolve_left hne
    obtain ⟨n, hn, hoffset, hstamp⟩ := h.entry p (hsplit ▸ mem_append_left _ hp)
    exact ⟨n, hn, hoffset.trans heq.symm, (n.mature_iff now).mpr (hstamp ▸ (hgone p hp).1)⟩
  · -- the entry that covers it would have gone
    obtain ⟨p, hp, hcovers, hstamp⟩ := h.covered n hn (Nat.lt_of_le_of_lt hle hlt)
    rw [EchoAck.ack] at hlt
    rw [hsplit] at hp
    rcases List.mem_append.mp hp with hp | hp
    · have := (hgone p hp).2
      omega
    · have := (hstay p hp).1
      have := (n.mature_iff now).mp hmature
      omega

theorem Tracks.update (h : Tracks start r) (hnow : r.clock ≤ now) :
    Tracks start { r with echo := (r.echo.update now).1, clock := now } := by
  obtain ⟨hle, hsource, -⟩ := h.update_largest now
  obtain ⟨gone, hsplit, hgone, hstay, -⟩ := h.goneiff now
  have hsub : ∀ p ∈ (r.echo.update now).1.pending, p ∈ r.echo.pending := fun p hp =>
    hsplit ▸ List.mem_append_right _ hp
  have hsuffix : (r.echo.update now).1.pending <:+ r.echo.pending := ⟨gone, hsplit.symm⟩
  refine ⟨h.sorted.sublist hsuffix.sublist, h.stamps.sublist hsuffix.sublist, fun p hp => (hstay p hp).2,
    fun p hp => Nat.le_trans (h.past p (hsub p hp)) hnow,
    fun n hn => Nat.le_trans (h.recorded_le n hn) hnow, ?_, fun p hp => h.entry p (hsub p hp),
    fun n hn hlt => ?_⟩
  · by_cases heq : (r.echo.update now).1.ack = r.echo.ack
    · exact (show (r.echo.update now).1.acked = r.echo.acked from heq) ▸ h.source
    · obtain ⟨n, hn, hoffset, -⟩ := hsource heq
      exact .inr ⟨n, hn, hoffset⟩
  · obtain ⟨p, hp, hcovers, hstamp⟩ := h.covered n hn (Nat.lt_of_le_of_lt hle hlt)
    have hlt' : (r.echo.update now).1.acked < n.offset := hlt
    rw [hsplit] at hp
    rcases List.mem_append.mp hp with hp | hp
    · have := (hgone p hp).2
      omega
    · exact ⟨p, hp, hcovers, hstamp⟩

/-- **Each call keeps the deque enough.** -/
theorem Tracks.step (h : Tracks start r) (hs : r.step (call, now) = some r') : Tracks start r' := by
  obtain ⟨hnow, rfl⟩ := step_eq_some.mp hs
  cases call with
  | record offset => exact h.record hnow offset
  | restampPending => exact h.restampPending hnow
  | update => exact h.update hnow

theorem tracks_run {calls : List (EchoCall × ℕ)}
    (h : Runs.exec EchoRun.step { echo := resume start } calls = some r) : Tracks start r :=
  Runs.exec_invariant (fun _ _ _ => Tracks.step) (tracks_resume start) h

theorem ack_step (hs : r.step (call, now) = some r') :
    r'.echo.ack = if call = .update then (r.echo.update now).1.ack else r.echo.ack := by
  obtain ⟨-, rfl⟩ := step_eq_some.mp hs
  cases call with
  | record offset => exact r.echo.acked_record offset now
  | restampPending => exact r.echo.acked_restampPending now
  | update => rfl

/-- **The ack advances when a period is over, and only then.**  In every run from a new or resumed tracker
the ack is what it began with or an offset that was recorded, and the offsets that wait are in order and
above it; the next call does not take it back, and an update moves it to the largest offset whose period
is over, if that is above it. -/
theorem echo_timing {e : EchoAck} {calls : List (EchoCall × ℕ)}
    (he : e = EchoAck.new ∧ start = 0 ∨ e = EchoAck.resume start)
    (h : Runs.exec EchoRun.step { echo := e } calls = some r) :
    (r.echo.ack = start ∨ ∃ n ∈ r.noted, n.offset = r.echo.ack) ∧
      (r.echo.pending.Pairwise fun p q => p.1 < q.1) ∧ (∀ p ∈ r.echo.pending, r.echo.ack < p.1) ∧
      ∀ call now r', r.step (call, now) = some r' → r.echo.ack ≤ r'.echo.ack ∧ (r'.echo.ack ≠ r.echo.ack →
            call = .update ∧ ∃ n ∈ r.noted, n.offset = r'.echo.ack ∧ n.Mature now) ∧
          (call = .update → ∀ n ∈ r.noted, n.Mature now → n.offset ≤ r'.echo.ack) := by
  have hresume : e = EchoAck.resume start := by
    rcases he with ⟨rfl, rfl⟩ | rfl <;> rfl
  subst hresume
  have htracks : Tracks start r := tracks_run h
  refine ⟨htracks.source, htracks.sorted, htracks.above, fun call now r' hs => ?_⟩
  obtain ⟨hle, hsource, hlargest⟩ := htracks.update_largest now
  rw [ack_step hs]
  by_cases hcall : call = .update
  · rw [if_pos hcall]
    exact ⟨hle, fun hne => ⟨hcall, hsource hne⟩, fun _ => hlargest⟩
  · rw [if_neg hcall]
    exact ⟨Nat.le_refl _, fun hne => absurd rfl hne, fun heq => absurd heq hcall⟩

/-- Two offsets, collapsed by a restamp; the update is no earlier than the restamp's period allows. -/
theorem echo_timing_restamped :
    let r : EchoRun :=
      { echo := { pending := [(9, 140)], acked := 0 }
        clock := 140
        noted := [⟨3, 100, some 140⟩, ⟨9, 130, some 140⟩] }
    Runs.exec EchoRun.step { echo := EchoAck.new }
        [(.record 3, 100), (.record 9, 130), (.restampPending, 140)] = some r ∧
      (r.echo.pending.Pairwise fun p q => p.1 < q.1) := by
  have hrun : Runs.exec EchoRun.step { echo := EchoAck.new }
      [(.record 3, 100), (.record 9, 130), (.restampPending, 140)] = some
          { echo := { pending := [(9, 140)], acked := 0 }
            clock := 140
            noted := [⟨3, 100, some 140⟩, ⟨9, 130, some 140⟩] } := by decide
  exact ⟨hrun, (echo_timing (.inl ⟨rfl, rfl⟩) hrun).2.1⟩

end Tracks

end EchoRun

end Posh
