/-
**Replaying a recording.**

A recording's output is one stream of bytes, with the offsets at which its events stand.  The player feeds
the stream to a terminal a byte at a time, each resize before the first byte at or after its offset, and
stops where a step of the given kind ends.  A frame goes on while the next write comes soon after the one
before; at the end of the stream an empty write that is soon after itself keeps it there for ever.
-/

import Posh.Confine
import Posh.Term.SwitchReads

set_option autoImplicit false

namespace Posh.Recording

open ByteCursor Term
open Option (map_eq_some_iff)

variable {γ ν : Type}

/-! ### The player -/

inductive Granularity where
  | byte
  | escape
  | write
  | change
  | frame
  | marker
deriving DecidableEq, Repr

/-- `withinGap next cur` is whether `next - cur` is at most the frame gap. -/
structure Player (γ ν : Type) where
  term : Terminal γ
  flat : List UInt8 := []
  cursor : ℕ := 0
  /-- where each output event begins -/
  writes : List ℕ := []
  /-- offset, columns and rows -/
  resizes : List (ℕ × ℕ × ℕ) := []
  marks : List (ℕ × List Char) := []
  times : List (ℕ × ν) := []
  nextResize : ℕ := 0
  withinGap : ν → ν → Bool
  zero : ν

/-- `COLSxROWS`. -/
def parseResize (data : List Char) : Option (ℕ × ℕ) :=
  if 'x' ∈ data then
    (parseU16 (Confine.trim (data.takeWhile (· ≠ 'x')))).bind fun cols =>
      (parseU16 (Confine.trim ((data.dropWhile (· ≠ 'x')).drop 1))).map fun rows => (cols, rows)
  else none

namespace Player

def addEvent (p : Player γ ν) (ev : Event ν) : Player γ ν :=
  match ev.code with
  | .output =>
    { p with
      writes := p.writes ++ [p.flat.length]
      times := p.times ++ [(p.flat.length, ev.time)]
      flat := p.flat ++ Utf8.encode ev.data }
  | .resize =>
    match parseResize ev.data with
    | some size => { p with resizes := p.resizes ++ [(p.flat.length, size)] }
    | none => p
  | .marker => { p with marks := p.marks ++ [(p.flat.length, ev.data)] }
  | .input | .unknown _ => p

section

variable [GraphicsStore γ]

/-- The player of a header and the events after it, at its start. -/
def ofRecording (N : Numbers ν) (withinGap : ν → ν → Bool) (header : Header) (events : List (Event ν)) : Player γ ν :=
  events.foldl addEvent
    { term := .withScrollback header.height.toNat header.width.toNat 10000, withinGap, zero := N.zero }

def fromSource (N : Numbers ν) (withinGap : ν → ν → Bool) (src : List Char) : Outcome ReadFault (Player γ ν) :=
  (Reader.document N src).bind fun recording => .ok (ofRecording N withinGap recording.1 recording.2)

variable (p : Player γ ν)

/-- The whole stream has been fed. -/
def AtEnd : Prop := p.flat.length ≤ p.cursor

instance : Decidable p.AtEnd := inferInstanceAs (Decidable (_ ≤ _))

/-- The resizes up to `offset`, of those not yet made. -/
def applyPending (offset : ℕ) : List (ℕ × ℕ × ℕ) → Terminal γ × ℕ → Terminal γ × ℕ
  | [], s => s
  | (o, cols, rows) :: rest, (t, n) =>
    if o ≤ offset then applyPending offset rest (t.resize rows cols, n + 1) else (t, n)

def applyResizesThrough (offset : ℕ) : Player γ ν :=
  let s := applyPending offset (p.resizes.drop p.nextResize) (p.term, p.nextResize)
  { p with term := s.1, nextResize := s.2 }

/-- Resizes at the end of the stream are made once everything is fed. -/
def flushTrailingResizes : Player γ ν := if p.AtEnd then p.applyResizesThrough p.flat.length else p

/-- A byte to the terminal, its replies dropped. -/
def feedTerm (t : Terminal γ) (b : UInt8) : Terminal γ := { t.process [b] with responses := [] }

def feedByte : Option (Player γ ν) :=
  (p.flat[p.cursor]?).map fun b =>
    let q := p.applyResizesThrough p.cursor
    { q with term := feedTerm q.term b, cursor := q.cursor + 1 }

/-- Bytes while `c` holds and there are any; `fuel` is how many are left. -/
def feedWhile (c : Player γ ν → Bool) : ℕ → Player γ ν → Player γ ν
  | 0, p => p
  | fuel + 1, p =>
    if c p then
      match p.feedByte with
      | some q => feedWhile c fuel q
      | none => p
    else p

def remaining : ℕ := p.flat.length - p.cursor

def feedUntil (target : ℕ) : Player γ ν :=
  (feedWhile (fun q => q.cursor < target) p.remaining p).flushTrailingResizes

/-- `0x1b` or `0x9b` is next. -/
def atIntroducer : Bool := p.flat[p.cursor]? = some 0x1b || p.flat[p.cursor]? = some 0x9b

def stepEscape : Option (Player γ ν) :=
  if p.AtEnd then none
  else if p.atIntroducer then p.feedByte.map fun q => feedWhile (fun q => q.term.midEscape) q.remaining q
  else some (feedWhile (fun q => !q.atIntroducer) p.remaining p)

/-- Where the next write after `c` begins, or the end. -/
def boundary (c : ℕ) : ℕ := (p.writes.find? (c < ·)).getD p.flat.length

def stepWrite : Option (Player γ ν) := if p.AtEnd then none else some (p.feedUntil (p.boundary p.cursor))

def stepToChange : Option (Player γ ν) :=
  if p.AtEnd then none
  else some (feedWhile (fun q => q.term.generation = p.term.generation) p.remaining p).flushTrailingResizes

/-- The time of the last write that begins at or before an offset. -/
def eventTimeAt (offset : ℕ) : ν := ((p.times.takeWhile (·.1 ≤ offset)).getLast?.map Prod.snd).getD p.zero

/-- The time of the first write that begins at an offset. -/
def timeAt (offset : ℕ) : Option ν := (p.times.find? (·.1 = offset)).map Prod.snd

/-- The loop of a frame, if it ends within `fuel` turns. -/
def frameLoop : ℕ → ν → Player γ ν → Option (Player γ ν)
  | 0, _, _ => none
  | fuel + 1, curT, p =>
    match p.timeAt p.cursor with
    | some nextT => if p.withinGap nextT curT then frameLoop fuel nextT (p.stepWrite.getD p) else some p
    | none => some p

def stepFrame (fuel : ℕ) : Option (Option (Player γ ν)) :=
  if p.AtEnd then some none
  else (frameLoop fuel (p.eventTimeAt p.cursor) (p.stepWrite.getD p)).map some

/-- Where the next marker after `c` stands. -/
def nextMark (c : ℕ) : Option ℕ := (p.marks.map Prod.fst).find? (c < ·)

def stepMarker : Option (Player γ ν) := if p.AtEnd then none else (p.nextMark p.cursor).map p.feedUntil

/-- One step: no value if a frame does not end within `fuel` turns, and else the player moved, if it did. -/
def advance (fuel : ℕ) : Granularity → Option (Option (Player γ ν))
  | .byte => some p.feedByte
  | .escape => some p.stepEscape
  | .write => some p.stepWrite
  | .change => some p.stepToChange
  | .frame => p.stepFrame fuel
  | .marker => some p.stepMarker

/-- Steps up to `n`, of which `taken` are made. -/
def stepLoop (fuel : ℕ) (g : Granularity) : ℕ → ℕ → Player γ ν → Option (ℕ × Player γ ν)
  | 0, taken, p => some (taken, p.flushTrailingResizes)
  | n + 1, taken, p =>
    (p.advance fuel g).bind fun next =>
      match next with
      | some q => stepLoop fuel g n (taken + 1) q
      | none => some (taken, p.flushTrailingResizes)

/-- **Up to `n` steps of one kind**: how many were made, and where the player is. -/
def step (fuel : ℕ) (g : Granularity) (n : ℕ) : Option (ℕ × Player γ ν) := stepLoop fuel g n 0 p

end

/-! ### What a step keeps -/

/-- The recording, without where the player is in it. -/
def tape (p : Player γ ν) :=
  (p.flat, p.writes, p.resizes, p.marks, p.times, p.withinGap, p.zero)

variable {p q r : Player γ ν} {c : Player γ ν → Bool} {g : Granularity} {fuel n k target : ℕ} {t t' : ν}

theorem flat_eq (h : q.tape = p.tape) : q.flat = p.flat := (Prod.mk.inj h).1

theorem boundary_eq (h : q.tape = p.tape) : q.boundary = p.boundary := by
  obtain ⟨hflat, h⟩ := Prod.mk.inj h
  funext a
  rw [boundary, boundary, hflat, (Prod.mk.inj h).1]

theorem times_eq (h : q.tape = p.tape) :
    q.timeAt = p.timeAt ∧ q.eventTimeAt = p.eventTimeAt ∧ q.withinGap = p.withinGap := by
  simp only [tape, Prod.mk.injEq] at h
  obtain ⟨-, -, -, -, htimes, hgap, hzero⟩ := h
  refine ⟨?_, ?_, hgap⟩ <;> funext a
  · rw [timeAt, timeAt, htimes]
  · rw [eventTimeAt, eventTimeAt, htimes, hzero]

theorem nextMark_eq (h : q.tape = p.tape) : q.nextMark = p.nextMark := by
  simp only [tape, Prod.mk.injEq] at h
  funext a
  rw [nextMark, nextMark, h.2.2.2.1]

section

variable [GraphicsStore γ]

theorem feedByte_none : p.feedByte = none ↔ p.AtEnd := by
  rw [feedByte, Option.map_eq_none_iff, List.getElem?_eq_none_iff, AtEnd]

theorem feedByte_some (h : p.feedByte = some q) : q.tape = p.tape ∧ q.cursor = p.cursor + 1 ∧ ¬ p.AtEnd := by
  have hend : ¬ p.AtEnd := fun hend => by
    rw [feedByte_none.mpr hend] at h
    cases h
  obtain ⟨b, -, rfl⟩ := map_eq_some_iff.mp h
  exact ⟨rfl, rfl, hend⟩

omit [GraphicsStore γ] in
theorem flush_cases (p : Player γ ν) : p.flushTrailingResizes.tape = p.tape ∧
    p.flushTrailingResizes.cursor = p.cursor := by
  rw [flushTrailingResizes]
  split <;> exact ⟨rfl, rfl⟩

/-- What every byte keeps, a loop over the bytes keeps. -/
theorem feedWhile_keeps {P : Player γ ν → Prop} (hbyte : ∀ p q, P p → c p = true → p.feedByte = some q → P q)
    (h : P p) : P (feedWhile c fuel p) := by
  induction fuel generalizing p with
  | zero => exact h
  | succ fuel ih =>
    rw [feedWhile]
    split
    · rename_i hc
      cases hq : p.feedByte with
      | none => exact h
      | some q => exact ih (hbyte p q h hc hq)
    · exact h

/-- **A loop over the bytes** goes forward, and with enough fuel to where it is done. -/
theorem feedWhile_spec (hfuel : p.remaining ≤ fuel) : let q := feedWhile c fuel p
    q.tape = p.tape ∧ p.cursor ≤ q.cursor ∧ (q.AtEnd ∨ c q = false) ∧ (c p = true → ¬ p.AtEnd → p.cursor < q.cursor) := by
  induction fuel generalizing p with
  | zero =>
    have hend : p.AtEnd := Nat.le_of_sub_eq_zero (Nat.le_zero.mp hfuel)
    exact ⟨rfl, Nat.le_refl _, .inl hend, fun _ h => absurd hend h⟩
  | succ fuel ih =>
    rw [feedWhile]
    cases hc : c p with
    | false => exact ⟨rfl, Nat.le_refl _, .inr hc, fun h => absurd h Bool.false_ne_true⟩
    | true =>
      rw [if_pos rfl]
      cases hq : p.feedByte with
      | none =>
        have hend := feedByte_none.mp hq
        exact ⟨rfl, Nat.le_refl _, .inl hend, fun _ h => absurd hend h⟩
      | some q =>
        obtain ⟨htape, hcursor, hend⟩ := feedByte_some hq
        have hleft : q.remaining ≤ fuel := by
          simp only [remaining, AtEnd, flat_eq htape, hcursor] at hfuel hend ⊢
          omega
        obtain ⟨ht, hle, hdone, -⟩ := ih hleft
        dsimp only
        exact ⟨ht.trans htape, by omega, hdone, fun _ _ => by omega⟩

/-- A byte, or the resizes at the end: what is kept by both is kept by every step. -/
structure Kept (P : Player γ ν → Prop) : Prop where
  byte : ∀ p q, P p → p.feedByte = some q → P q
  flush : ∀ p, P p → P p.flushTrailingResizes

variable {P : Player γ ν → Prop} {p₀ : Player γ ν} {fuel' : ℕ}

theorem Kept.feedWhile (hk : Kept P) (h : P p) : P (Player.feedWhile c fuel p) :=
  feedWhile_keeps (fun p q hp _ hq => hk.byte p q hp hq) h

theorem Kept.feedUntil (hk : Kept P) (h : P p) (target : ℕ) : P (p.feedUntil target) := hk.flush _ (hk.feedWhile h)

theorem Kept.stepWrite (hk : Kept P) (h : P p) : P (p.stepWrite.getD p) := by
  rw [Player.stepWrite]
  split
  · exact h
  · exact hk.feedUntil h _

theorem Kept.frameLoop (hk : Kept P) (h : P p) (hr : Player.frameLoop fuel t p = some r) : P r := by
  induction fuel generalizing t p with
  | zero => cases hr
  | succ fuel ih =>
    rw [Player.frameLoop] at hr
    split at hr
    · split at hr
      · exact ih (hk.stepWrite h) hr
      · exact Option.some.inj hr ▸ h
    · exact Option.some.inj hr ▸ h

theorem Kept.advance (hk : Kept P) (h : P p) (hq : p.advance fuel g = some (some q)) : P q := by
  cases g with
  | byte => exact hk.byte p q h (Option.some.inj hq)
  | escape =>
    have hq := Option.some.inj hq
    rw [stepEscape] at hq
    split at hq
    · cases hq
    · split at hq
      · obtain ⟨p', hp', rfl⟩ := map_eq_some_iff.mp hq
        exact hk.feedWhile (hk.byte p p' h hp')
      · exact Option.some.inj hq ▸ hk.feedWhile h
  | write =>
    have hwrite := hk.stepWrite h
    rwa [Option.some.inj hq, Option.getD_some] at hwrite
  | change =>
    have hq := Option.some.inj hq
    rw [stepToChange] at hq
    split at hq
    · cases hq
    · exact Option.some.inj hq ▸ hk.flush _ (hk.feedWhile h)
  | frame =>
    have hq : p.stepFrame fuel = some (some q) := hq
    rw [stepFrame] at hq
    split at hq
    · cases hq
    · obtain ⟨r, hr, heq⟩ := map_eq_some_iff.mp hq
      exact Option.some.inj heq ▸ hk.frameLoop (hk.stepWrite h) hr
  | marker =>
    have hq := Option.some.inj hq
    rw [stepMarker] at hq
    split at hq
    · cases hq
    · obtain ⟨target, -, rfl⟩ := map_eq_some_iff.mp hq
      exact hk.feedUntil h target

/-- Steps end where the resizes at the end have been made. -/
theorem Kept.stepLoop {taken : ℕ} (hk : Kept P) (h : P p) (hq : Player.stepLoop fuel g n taken p = some (k, q)) :
    ∃ r, P r ∧ r.flushTrailingResizes = q := by
  induction n generalizing taken p with
  | zero => exact ⟨p, h, (Prod.mk.inj (Option.some.inj hq)).2⟩
  | succ n ih =>
    obtain ⟨next, hnext, hq⟩ := Option.bind_eq_some_iff.mp hq
    cases next with
    | none => exact ⟨p, h, (Prod.mk.inj (Option.some.inj hq)).2⟩
    | some p' => exact ih (hk.advance h hnext) hq

/-- The same recording, at or after a position of it. -/
def After (p q : Player γ ν) : Prop := q.tape = p.tape ∧ p.cursor ≤ q.cursor

theorem kept_after (p : Player γ ν) : Kept (After p) where
  byte q r h hr := by
    obtain ⟨htape, hcursor, -⟩ := feedByte_some hr
    exact ⟨htape.trans h.1, by have := h.2; omega⟩
  flush q h := ⟨(flush_cases q).1.trans h.1, by rw [(flush_cases q).2]; exact h.2⟩

/-- The cursor is within the stream. -/
theorem kept_inRange : Kept fun p : Player γ ν => p.cursor ≤ p.flat.length where
  byte p q h hq := by
    obtain ⟨htape, hcursor, hend⟩ := feedByte_some hq
    rw [flat_eq htape, hcursor]
    exact Nat.lt_of_not_le hend
  flush p h := by
    rw [flat_eq (flush_cases p).1, (flush_cases p).2]
    exact h

/-! ### Steps go forward -/

theorem feedUntil_forward (hend : ¬ p.AtEnd) (h : p.cursor < target) : p.cursor < (p.feedUntil target).cursor := by
  rw [feedUntil, (flush_cases _).2]
  exact (feedWhile_spec (Nat.le_refl _)).2.2.2 (decide_eq_true h) hend

omit [GraphicsStore γ] in
theorem lt_boundary (hend : ¬ p.AtEnd) : p.cursor < p.boundary p.cursor := by
  rw [boundary]
  cases hw : p.writes.find? (p.cursor < ·) with
  | none => exact Nat.lt_of_not_le hend
  | some w => exact of_decide_eq_true (List.find?_some (p := fun w => decide (p.cursor < w)) hw)

theorem stepWrite_eq (hend : ¬ p.AtEnd) : p.stepWrite.getD p = p.feedUntil (p.boundary p.cursor) := by
  rw [stepWrite, if_neg hend, Option.getD_some]

/-- **A step that counts moves forward.** -/
theorem advance_forward (hq : p.advance fuel g = some (some q)) : p.cursor < q.cursor := by
  cases g with
  | byte =>
    have := (feedByte_some (Option.some.inj hq)).2.1
    omega
  | escape =>
    have hq := Option.some.inj hq
    rw [stepEscape] at hq
    split at hq
    · cases hq
    · rename_i hend
      split at hq
      · obtain ⟨p', hp', rfl⟩ := map_eq_some_iff.mp hq
        have hfirst := (feedByte_some hp').2.1
        have hloop := (feedWhile_spec (c := fun q => q.term.midEscape) (Nat.le_refl p'.remaining)).2.1
        omega
      · rename_i hno
        rw [← Option.some.inj hq]
        exact (feedWhile_spec (Nat.le_refl _)).2.2.2 (by simpa using hno) hend
  | write =>
    have hq := Option.some.inj hq
    rw [stepWrite] at hq
    split at hq
    · cases hq
    · rename_i hend
      rw [← Option.some.inj hq]
      exact feedUntil_forward hend (lt_boundary hend)
  | change =>
    have hq := Option.some.inj hq
    rw [stepToChange] at hq
    split at hq
    · cases hq
    · rename_i hend
      rw [← Option.some.inj hq, (flush_cases _).2]
      exact (feedWhile_spec (Nat.le_refl _)).2.2.2 (decide_eq_true rfl) hend
  | frame =>
    have hq : p.stepFrame fuel = some (some q) := hq
    rw [stepFrame] at hq
    split at hq
    · cases hq
    · rename_i hend
      obtain ⟨r, hr, heq⟩ := map_eq_some_iff.mp hq
      have hfirst := feedUntil_forward hend (lt_boundary hend)
      rw [← stepWrite_eq hend] at hfirst
      have hloop := ((kept_after _).frameLoop ⟨rfl, Nat.le_refl _⟩ hr).2
      rw [← Option.some.inj heq]
      omega
  | marker =>
    have hq := Option.some.inj hq
    rw [stepMarker] at hq
    split at hq
    · cases hq
    · rename_i hend
      obtain ⟨target, ht, rfl⟩ := map_eq_some_iff.mp hq
      exact feedUntil_forward hend (of_decide_eq_true (List.find?_some (p := fun o => decide (p.cursor < o)) ht))

/-- One that does not count is at the end, or past the last marker. -/
theorem advance_exhausted (hq : p.advance fuel g = some none) :
    p.AtEnd ∨ (g = .marker ∧ p.nextMark p.cursor = none) := by
  by_contra hno
  obtain ⟨hend, hmark⟩ := not_or.mp hno
  cases g with
  | byte => exact hend (feedByte_none.mp (Option.some.inj hq))
  | escape =>
    have hq := Option.some.inj hq
    rw [stepEscape, if_neg hend] at hq
    split at hq
    · exact hend (feedByte_none.mp (Option.map_eq_none_iff.mp hq))
    · cases hq
  | write =>
    rw [advance, stepWrite, if_neg hend] at hq
    cases hq
  | change =>
    rw [advance, stepToChange, if_neg hend] at hq
    cases hq
  | frame =>
    rw [advance, stepFrame, if_neg hend] at hq
    obtain ⟨r, -, heq⟩ := map_eq_some_iff.mp hq
    cases heq
  | marker =>
    rw [advance, stepMarker, if_neg hend] at hq
    exact hmark ⟨rfl, Option.map_eq_none_iff.mp (Option.some.inj hq)⟩

/-! ### Frames -/

/-- Where the writes begin, and the end. -/
def bounds (p : Player γ ν) : List ℕ := p.writes ++ [p.flat.length]

/-- The writes are in order, and within the stream. -/
def Ordered (p : Player γ ν) : Prop := p.bounds.Pairwise (· ≤ ·)

omit [GraphicsStore γ] in
theorem Ordered.boundary_le (h : p.Ordered) (a : ℕ) : p.boundary a ≤ p.flat.length := by
  rw [boundary]
  cases hw : p.writes.find? (a < ·) with
  | none => exact Nat.le_refl _
  | some w =>
    exact (List.pairwise_append.mp h).2.2 w (List.mem_of_find?_eq_some hw) _ (List.mem_singleton_self _)

omit [GraphicsStore γ] in
/-- An event adds where its data ends, if it is output. -/
theorem bounds_addEvent (p : Player γ ν) (ev : Event ν) : (p.addEvent ev).bounds =
    if ev.code = .output then p.bounds ++ [p.flat.length + (Utf8.encode ev.data).length] else p.bounds := by
  rw [addEvent]
  split <;> rename_i hcode
  · rw [if_pos hcode, bounds, bounds, List.length_append]
  · rw [if_neg (by rw [hcode]; decide)]
    split <;> rfl
  · rw [if_neg (by rw [hcode]; decide)]
    rfl
  · rw [if_neg (by rw [hcode]; decide)]
  · rw [if_neg (by rw [hcode]; exact EventCode.noConfusion)]

omit [GraphicsStore γ] in
theorem length_mem_bounds (p : Player γ ν) : p.flat.length ∈ p.bounds :=
  List.mem_append_right _ (List.mem_singleton_self _)

omit [GraphicsStore γ] in
theorem Ordered.le (h : p.Ordered) {a : ℕ} (ha : a ∈ p.bounds) : a ≤ p.flat.length := by
  rcases List.mem_append.mp ha with hw | hlast
  · exact (List.pairwise_append.mp h).2.2 a hw _ (List.mem_singleton_self _)
  · exact (List.mem_singleton.mp hlast).le

omit [GraphicsStore γ] in
theorem Ordered.addEvent (h : p.Ordered) (ev : Event ν) : (p.addEvent ev).Ordered := by
  rw [Ordered, bounds_addEvent]
  split
  · refine List.pairwise_append.mpr ⟨h, List.pairwise_singleton .., fun a ha b hb => ?_⟩
    rw [List.mem_singleton.mp hb]
    exact Nat.le_add_right_of_le (h.le ha)
  · exact h

theorem ordered_ofRecording (N : Numbers ν) (withinGap : ν → ν → Bool) (header : Header) (events : List (Event ν)) :
    (ofRecording N withinGap header events : Player γ ν).Ordered :=
  List.foldlRecOn (motive := Ordered) events Player.addEvent (List.pairwise_singleton ..) fun _ h ev _ => h.addEvent ev

theorem feedUntil_cursor (ht : target ≤ p.flat.length) (hle : p.cursor ≤ target) : (p.feedUntil target).cursor = target := by
  have hkeep : (feedWhile (fun q => q.cursor < target) p.remaining p).cursor ≤ target :=
    feedWhile_keeps (P := fun q => q.cursor ≤ target) (fun q r _ hc hr => by
      rw [(feedByte_some hr).2.1]
      exact of_decide_eq_true hc) hle
  obtain ⟨htape, -, hdone, -⟩ := feedWhile_spec (c := fun q => q.cursor < target) (Nat.le_refl p.remaining)
  rw [feedUntil, (flush_cases _).2]
  rcases hdone with hend | hdone
  · rw [AtEnd, flat_eq htape] at hend
    omega
  · have := of_decide_eq_false hdone
    omega

/-- **A frame from `c₀` gets here**: it stands at a write or at the end, after a write of this time. -/
inductive Burst (p : Player γ ν) (c₀ : ℕ) : ν → ℕ → Prop
  | start : Burst p c₀ (p.eventTimeAt c₀) (p.boundary c₀)
  | absorb {t t' : ν} {a : ℕ} (h : Burst p c₀ t a) (hend : a < p.flat.length) (ht : p.timeAt a = some t')
      (hgap : p.withinGap t' t = true) : Burst p c₀ t' (p.boundary a)

/-- **The frame from `c₀` does not end**: it gets to the end of the stream, where an empty write comes soon
after the last, and soon after itself. -/
def RunsOut (p : Player γ ν) (c₀ : ℕ) : Prop :=
  ∃ t t', Burst p c₀ t p.flat.length ∧ p.timeAt p.flat.length = some t' ∧ p.withinGap t' t = true ∧
    p.withinGap t' t' = true

theorem frameLoop_ends (hordered : p₀.Ordered) {c₀ : ℕ} (hno : ¬ p₀.RunsOut c₀)
    (htape : p.tape = p₀.tape) (hb : Burst p₀ c₀ t p.cursor) (hle : p.cursor ≤ p.flat.length) :
    ∃ fuel q, frameLoop fuel t p = some q := by
  induction hn : p.remaining using Nat.strong_induction_on generalizing t p with
  | _ n ih =>
    obtain ⟨htimes, -, hgap⟩ := times_eq htape
    cases ht : p.timeAt p.cursor with
    | none => exact ⟨1, p, by rw [frameLoop, ht]⟩
    | some t' =>
      cases hw : p.withinGap t' t with
      | false => exact ⟨1, p, by rw [frameLoop, ht]; exact if_neg (by rw [hw]; exact Bool.false_ne_true)⟩
      | true =>
        have hturn (fuel : ℕ) : frameLoop (fuel + 1) t p = frameLoop fuel t' (p.stepWrite.getD p) := by
          rw [frameLoop, ht]
          exact if_pos hw
        rw [htimes] at ht
        rw [hgap] at hw
        by_cases hend : p.AtEnd
        · have hcursor : p.cursor = p₀.flat.length := by
            rw [← flat_eq htape]
            exact Nat.le_antisymm hle hend
          rw [hcursor] at hb ht
          have hself : p.withinGap t' t' = false := by
            rw [hgap, Bool.eq_false_iff]
            exact fun h => hno ⟨t, t', hb, ht, hw, h⟩
          refine ⟨2, p, ?_⟩
          rw [hturn, stepWrite, if_pos hend, Option.getD_none, frameLoop, hcursor, htimes, ht]
          exact if_neg (by rw [hself]; exact Bool.false_ne_true)
        · have hstep := stepWrite_eq hend
          have hbound : p.boundary p.cursor ≤ p.flat.length := by
            rw [boundary_eq htape, flat_eq htape]
            exact hordered.boundary_le _
          have hcursor := feedUntil_cursor hbound (lt_boundary hend).le
          have hsame := (kept_after p).feedUntil ⟨rfl, Nat.le_refl _⟩ (p.boundary p.cursor)
          have hlt := lt_boundary hend
          have hq : (p.feedUntil (p.boundary p.cursor)).remaining < n := by
            rw [← hn, remaining, remaining, flat_eq hsame.1, hcursor]
            omega
          have hnext : Burst p₀ c₀ t' (p.feedUntil (p.boundary p.cursor)).cursor := by
            rw [hcursor, boundary_eq htape]
            exact .absorb hb (flat_eq htape ▸ Nat.lt_of_not_le hend) ht hw
          obtain ⟨fuel, q, h⟩ := ih _ hq (hsame.1.trans htape) hnext (by rw [hcursor, flat_eq hsame.1]; exact hbound) rfl
          exact ⟨fuel + 1, q, by rw [hturn, hstep, h]⟩

/-- A frame that ends does so from wherever it gets. -/
theorem Burst.ends (hordered : p₀.Ordered) {a : ℕ} (htape : p.tape = p₀.tape)
    (hend : ¬ p.AtEnd) (hframe : p.stepFrame fuel = some (some r)) (hb : Burst p₀ p.cursor t a) :
    ∃ (q : Player γ ν) (fuel : ℕ) (r : Player γ ν), q.tape = p₀.tape ∧ q.cursor = a ∧ frameLoop fuel t q = some r := by
  have hwrite {q : Player γ ν} (hq : q.tape = p₀.tape) (hend : ¬ q.AtEnd) :
      (q.stepWrite.getD q).tape = p₀.tape ∧ (q.stepWrite.getD q).cursor = p₀.boundary q.cursor := by
    rw [stepWrite_eq hend, ← boundary_eq hq]
    have hsame := (kept_after q).feedUntil ⟨rfl, Nat.le_refl _⟩ (q.boundary q.cursor)
    refine ⟨hsame.1.trans hq, feedUntil_cursor ?_ (lt_boundary hend).le⟩
    rw [boundary_eq hq, flat_eq hq]
    exact hordered.boundary_le _
  induction hb with
  | start =>
    rw [stepFrame, if_neg hend] at hframe
    obtain ⟨r', hr, -⟩ := map_eq_some_iff.mp hframe
    rw [(times_eq htape).2.1] at hr
    exact ⟨_, fuel, r', (hwrite htape hend).1, (hwrite htape hend).2, hr⟩
  | absorb _ ha ht hgap ih =>
    obtain ⟨q, fuel, r, hq, hcursor, hr⟩ := ih
    have hqend : ¬ q.AtEnd := by
      rw [AtEnd, flat_eq hq, hcursor]
      omega
    cases fuel with
    | zero => cases hr
    | succ fuel =>
      rw [frameLoop, (times_eq hq).1, hcursor, ht] at hr
      dsimp only at hr
      rw [(times_eq hq).2.2, if_pos hgap] at hr
      exact ⟨_, fuel, r, (hwrite hq hqend).1, hcursor ▸ (hwrite hq hqend).2, hr⟩

theorem not_runsOut_of_frame (hordered : p₀.Ordered) (htape : p.tape = p₀.tape)
    (hend : ¬ p.AtEnd) (hframe : p.stepFrame fuel = some (some r)) : ¬ p₀.RunsOut p.cursor := by
  rintro ⟨t, t', hb, ht, hgap, hself⟩
  obtain ⟨q, fuel, r, hq, hcursor, hr⟩ := hb.ends hordered htape hend hframe
  have hforever (fuel : ℕ) (s : ν) (hs : p₀.withinGap t' s = true) : frameLoop fuel s q = none := by
    induction fuel generalizing s with
    | zero => rfl
    | succ fuel ih =>
      have hqend : q.AtEnd := by
        rw [AtEnd, flat_eq hq, hcursor]
      rw [frameLoop, (times_eq hq).1, hcursor, ht]
      dsimp only
      rw [(times_eq hq).2.2, if_pos hs, stepWrite, if_pos hqend, Option.getD_none]
      exact ih t' hself
  rw [hforever fuel t hgap] at hr
  cases hr

/-! ### Every step -/

/-- Where the player gets: bytes are fed, and resizes made at the end. -/
inductive Reached (p₀ : Player γ ν) : Player γ ν → Prop
  | start : Reached p₀ p₀
  | byte {p q : Player γ ν} (h : Reached p₀ p) (hq : p.feedByte = some q) : Reached p₀ q
  | flush {p : Player γ ν} (h : Reached p₀ p) : Reached p₀ p.flushTrailingResizes

/-- **Steps end and make progress**: each that counts moves the cursor forward, and fewer than asked for are
made at the end of the stream or past the last marker. -/
def Progresses (p : Player γ ν) (g : Granularity) (n : ℕ) : Prop :=
  (∀ fuel q, p.advance fuel g = some (some q) → p.cursor < q.cursor) ∧
  ∃ fuel k q, p.step fuel g n = some (k, q) ∧ k ≤ n ∧ p.cursor + k ≤ q.cursor ∧
    (k < n → q.AtEnd ∨ (g = .marker ∧ q.nextMark q.cursor = none))

theorem frameLoop_mono (hle : fuel ≤ fuel') (h : frameLoop fuel t p = some q) : frameLoop fuel' t p = some q := by
  induction fuel generalizing fuel' t p with
  | zero => cases h
  | succ fuel ih =>
    obtain ⟨m, rfl⟩ := Nat.exists_eq_add_of_le hle
    rw [Nat.add_right_comm]
    rw [frameLoop] at h ⊢
    split at h
    · split at h
      · rename_i hgap
        rw [if_pos hgap]
        exact ih (Nat.le_add_right _ _) h
      · rename_i hgap
        rw [if_neg hgap]
        exact h
    · exact h

theorem advance_mono (hle : fuel ≤ fuel') {next : Option (Player γ ν)} (h : p.advance fuel g = some next) :
    p.advance fuel' g = some next := by
  cases g with
  | frame =>
    have h : p.stepFrame fuel = some next := h
    show p.stepFrame fuel' = some next
    rw [stepFrame] at h ⊢
    split at h
    · rw [if_pos ‹_›]
      exact h
    · rw [if_neg ‹_›]
      obtain ⟨r, hr, rfl⟩ := map_eq_some_iff.mp h
      rw [frameLoop_mono hle hr, Option.map_some]
  | _ => exact h

theorem stepLoop_mono {fuel' taken : ℕ} (hle : fuel ≤ fuel') (h : stepLoop fuel g n taken p = some (k, q)) :
    stepLoop fuel' g n taken p = some (k, q) := by
  induction n generalizing taken p with
  | zero => exact h
  | succ n ih =>
    obtain ⟨next, hnext, h⟩ := Option.bind_eq_some_iff.mp h
    rw [stepLoop, advance_mono hle hnext, Option.bind_some]
    cases next with
    | none => exact h
    | some p' => exact ih h

/-- Every step ends where no frame runs out. -/
theorem progresses (hordered : p₀.Ordered) (hno : ∀ c < p₀.flat.length, ¬ p₀.RunsOut c)
    (htape : p.tape = p₀.tape) (hle : p.cursor ≤ p.flat.length) (g : Granularity) (n : ℕ) : p.Progresses g n := by
  refine ⟨fun _ _ => advance_forward, ?_⟩
  have hadvance (p : Player γ ν) (htape : p.tape = p₀.tape) (hle : p.cursor ≤ p.flat.length) :
      ∃ fuel next, p.advance fuel g = some next := by
    cases g with
    | frame =>
      by_cases hend : p.AtEnd
      · exact ⟨0, none, if_pos hend⟩
      · have hlt : p.cursor < p₀.flat.length := flat_eq htape ▸ Nat.lt_of_not_le hend
        have hbound : p.boundary p.cursor ≤ p.flat.length := by
          rw [boundary_eq htape, flat_eq htape]
          exact hordered.boundary_le _
        have hsame := (kept_after p).feedUntil ⟨rfl, Nat.le_refl _⟩ (p.boundary p.cursor)
        have hcursor := feedUntil_cursor hbound (lt_boundary hend).le
        have hb : Burst p₀ p.cursor (p.eventTimeAt p.cursor) (p.feedUntil (p.boundary p.cursor)).cursor := by
          rw [hcursor, boundary_eq htape, (times_eq htape).2.1]
          exact .start
        obtain ⟨fuel, q, hq⟩ := frameLoop_ends hordered (hno _ hlt) (hsame.1.trans htape) hb
          (by rw [hcursor, flat_eq hsame.1]; exact hbound)
        refine ⟨fuel, some q, ?_⟩
        rw [advance, stepFrame, if_neg hend, stepWrite_eq hend, hq, Option.map_some]
    | _ => exact ⟨0, _, rfl⟩
  have hloop (n taken : ℕ) (p : Player γ ν) (htape : p.tape = p₀.tape) (hle : p.cursor ≤ p.flat.length) :
      ∃ fuel k q, stepLoop fuel g n taken p = some (taken + k, q) ∧ k ≤ n ∧ p.cursor + k ≤ q.cursor ∧
        (k < n → q.AtEnd ∨ (g = .marker ∧ q.nextMark q.cursor = none)) := by
    induction n generalizing taken p with
    | zero => exact ⟨0, 0, _, rfl, Nat.le_refl _, (flush_cases p).2.ge, fun h => absurd h (Nat.lt_irrefl _)⟩
    | succ n ih =>
      obtain ⟨fuel, next, hnext⟩ := hadvance p htape hle
      cases next with
      | none =>
        refine ⟨fuel, 0, p.flushTrailingResizes, ?_, Nat.zero_le _, (flush_cases p).2.ge, fun _ => ?_⟩
        · rw [stepLoop, hnext]
          rfl
        · rw [AtEnd, flat_eq (flush_cases p).1, (flush_cases p).2, nextMark_eq (flush_cases p).1]
          exact advance_exhausted hnext
      | some p' =>
        have hforward := advance_forward hnext
        have hsame := (kept_after p).advance ⟨rfl, Nat.le_refl _⟩ hnext
        obtain ⟨fuel', k, q, hq, hk, hcursor, hdone⟩ := ih (taken + 1) p' (hsame.1.trans htape)
          (kept_inRange.advance hle hnext)
        refine ⟨max fuel fuel', k + 1, q, ?_, by omega, by omega, fun h => hdone (by omega)⟩
        rw [stepLoop, advance_mono (Nat.le_max_left ..) hnext, Option.bind_some]
        dsimp only
        rw [stepLoop_mono (Nat.le_max_right ..) hq]
        exact congrArg (fun m => some (m, q)) (by omega)
  obtain ⟨fuel, k, q, hq, h⟩ := hloop n 0 p htape hle
  rw [Nat.zero_add] at hq
  exact ⟨fuel, k, q, hq, h⟩

theorem ofRecording_start (N : Numbers ν) (withinGap : ν → ν → Bool) (header : Header) (events : List (Event ν)) :
    let p : Player γ ν := ofRecording N withinGap header events
    p.cursor = 0 ∧ p.nextResize = 0 := by
  refine List.foldlRecOn (motive := fun p : Player γ ν => p.cursor = 0 ∧ p.nextResize = 0) events addEvent ⟨rfl, rfl⟩ fun p h ev _ => ?_
  rw [addEvent]
  split
  · exact h
  · split <;> exact h
  · exact h
  · exact h
  · exact h

/-- **Which recordings can be stepped through**: every step from every position ends and makes progress,
exactly when no frame of the recording runs out. -/
theorem steps_end_iff (N : Numbers ν) (withinGap : ν → ν → Bool) (header : Header) (events : List (Event ν)) :
    let p₀ : Player γ ν := ofRecording N withinGap header events
    (∀ p, Reached p₀ p → ∀ g n, p.Progresses g n) ↔ ∀ c < p₀.flat.length, ¬ p₀.RunsOut c := by
  intro p₀
  have hordered : p₀.Ordered := ordered_ofRecording N withinGap header events
  have hstart : p₀.cursor = 0 := (ofRecording_start N withinGap header events).1
  constructor
  · intro hall c hc
    obtain ⟨p, hp, htape, hcursor⟩ : ∃ p, Reached p₀ p ∧ p.tape = p₀.tape ∧ p.cursor = c := by
      induction c with
      | zero => exact ⟨p₀, .start, rfl, hstart⟩
      | succ c ih =>
        obtain ⟨p, hp, htape, hcursor⟩ := ih (by omega)
        cases hq : p.feedByte with
        | none =>
          have hend := feedByte_none.mp hq
          rw [AtEnd, flat_eq htape] at hend
          omega
        | some q =>
          obtain ⟨ht, hcur, -⟩ := feedByte_some hq
          exact ⟨q, .byte hp hq, ht.trans htape, by omega⟩
    have hend : ¬ p.AtEnd := by
      rw [AtEnd, flat_eq htape]
      omega
    obtain ⟨-, fuel, k, q, hq, -⟩ := hall p hp .frame 1
    obtain ⟨next, hnext, -⟩ := Option.bind_eq_some_iff.mp hq
    cases next with
    | none => exact absurd (advance_exhausted hnext) (by simp [hend])
    | some r => exact hcursor ▸ not_runsOut_of_frame hordered htape hend hnext
  · intro hno p hp g n
    have hsame : p.tape = p₀.tape ∧ p.cursor ≤ p.flat.length := by
      induction hp with
      | start => exact ⟨rfl, by rw [hstart]; exact Nat.zero_le _⟩
      | byte _ hq ih => exact ⟨(feedByte_some hq).1.trans ih.1, kept_inRange.byte _ _ ih.2 hq⟩
      | flush _ ih => exact ⟨(flush_cases _).1.trans ih.1, kept_inRange.flush _ ih.2⟩
    exact progresses hordered hno hsame.1 hsame.2 g n

end

/-- A byte, and soon after it an empty write: a frame from the start does not end. -/
theorem empty_write_runs_out :
    let N : Numbers ℕ := ⟨0, fun _ => none, fun _ => [], fun _ => none⟩
    let p₀ : Player Unit ℕ := ofRecording N (fun next cur => next ≤ cur + 100) ⟨2, 80, 24, none⟩
      [⟨0, .output, ['a']⟩, ⟨50, .output, []⟩]
    ¬ ∀ p, Reached p₀ p → ∀ g n, p.Progresses g n := by
  intro N p₀ hall
  have hend : ¬ p₀.AtEnd := by decide
  have hruns : p₀.RunsOut p₀.cursor := ⟨0, 50, .start, rfl, rfl, rfl⟩
  obtain ⟨-, fuel, k, q, hq, -⟩ := hall p₀ .start .frame 1
  obtain ⟨next, hnext, -⟩ := Option.bind_eq_some_iff.mp hq
  cases next with
  | none =>
    rw [advance, stepFrame, if_neg hend] at hnext
    obtain ⟨r, -, heq⟩ := Option.map_eq_some_iff.mp hnext
    cases heq
  | some r => exact not_runsOut_of_frame (ordered_ofRecording _ _ _ _) rfl hend hnext hruns

end Player

end Posh.Recording
