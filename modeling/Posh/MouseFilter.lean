/-
**The mouse filter of the client's keyboard.**

While the client has grabbed the mouse, the reports of the outer terminal arrive among the typed bytes.  The filter
reads byte by byte: it holds back what may become a report, takes a complete report out, and gives everything else
on as it came.  A wheel report is counted, or turned into a cursor key; the other reports are dropped.

What is typed is never lost: the bytes given on, and then those still held, are the typed bytes without the complete
reports, wherever the reads were cut.
-/

import Mathlib.Data.List.TakeWhile
import Mathlib.Data.Int.Order.Basic
import Posh.InputStream
import Posh.Term.Osc

set_option autoImplicit false

namespace Posh

open List (append_nil cons_append map_cons nil_append)

/-! ### Reports -/

/-- The most bytes a candidate may have before its last one. -/
def maxMouseSeq : ℕ := 32

/-- Where the filter is in a candidate. -/
inductive MouseState where
  | ground
  /-- saw `ESC` -/
  | esc
  /-- saw `ESC [` -/
  | bracket
  /-- saw `ESC [ <`, collecting the numbers -/
  | body
  deriving DecidableEq, Repr

/-- How wheel reports are handled when a byte is read. -/
structure FilterMode where
  appCursorKeys : Bool
  /-- the wheel scrolls the client's own view -/
  scroll : Bool
  deriving DecidableEq, Repr

/-- The bytes to give on, and the wheel ticks: up is positive.  A read has fewer ticks than bytes, so that they fit a
word of 32 bits. -/
structure FilterOut where
  bytes : Bytes := []
  wheel : ℤ := 0
  deriving DecidableEq, Repr

/-- What comes first, and what comes after it. -/
instance : Append FilterOut where
  append a b := { bytes := a.bytes ++ b.bytes, wheel := a.wheel + b.wheel }

@[simp] theorem FilterOut.bytes_append (a b : FilterOut) : (a ++ b).bytes = a.bytes ++ b.bytes := rfl

@[simp] theorem FilterOut.wheel_append (a b : FilterOut) : (a ++ b).wheel = a.wheel + b.wheel := rfl

theorem FilterOut.append_assoc (a b c : FilterOut) : a ++ b ++ c = a ++ (b ++ c) := by
  show FilterOut.mk _ _ = FilterOut.mk _ _
  rw [bytes_append, bytes_append, List.append_assoc, wheel_append, wheel_append, Int.add_assoc]

@[simp] theorem FilterOut.append_empty (a : FilterOut) : a ++ ({} : FilterOut) = a := by
  show FilterOut.mk _ _ = a
  rw [append_nil, Int.add_zero]

@[simp] theorem FilterOut.empty_append (a : FilterOut) : ({} : FilterOut) ++ a = a := by
  show FilterOut.mk _ _ = a
  rw [nil_append, Int.zero_add]

/-- Bytes that are given on as they came. -/
def FilterOut.verbatim (bytes : Bytes) : FilterOut := { bytes }

/-- The digits and semicolons of a report. -/
def isReportByte (b : UInt8) : Bool := (0x30 ≤ b.toNat && b.toNat ≤ 0x39) || b == 0x3B

/-- `M` for a press, `m` for a release. -/
def isReportEnd (b : UInt8) : Bool := b == 0x4D || b == 0x6D

def arrowUp (appCursorKeys : Bool) : Bytes := if appCursorKeys then [0x1B, 0x4F, 0x41] else [0x1B, 0x5B, 0x41]

def arrowDown (appCursorKeys : Bool) : Bytes := if appCursorKeys then [0x1B, 0x4F, 0x42] else [0x1B, 0x5B, 0x42]

/-- The button code: the number in front of the first semicolon, if it fits 32 bits. -/
def buttonCode (body : Bytes) : Option ℕ :=
  Term.parseRadix 10 (2 ^ 32) (Utf8.lossy (body.takeWhile (· != 0x3B)))

/-- What becomes of a complete report with this body. -/
def translate (mode : FilterMode) (body : Bytes) : FilterOut :=
  match buttonCode body with
  | some 64 => if mode.scroll then { wheel := 1 } else { bytes := arrowUp mode.appCursorKeys }
  | some 65 => if mode.scroll then { wheel := -1 } else { bytes := arrowDown mode.appCursorKeys }
  -- a click, a motion, another button, or no code at all
  | _ => {}

/-! ### The filter -/

/-- The place in the candidate, and the bytes of it that are held back. -/
structure MouseFilter where
  state : MouseState := .ground
  pending : Bytes := []
  deriving DecidableEq, Repr

namespace MouseFilter

/-- The candidate is given on verbatim. -/
def flush (f : MouseFilter) : MouseFilter × FilterOut := ({}, .verbatim f.pending)

/-- The candidate grows by a byte. -/
def hold (f : MouseFilter) (state : MouseState) (b : UInt8) : MouseFilter := { state, pending := f.pending ++ [b] }

/-- A byte outside of any candidate. -/
def ground (f : MouseFilter) (b : UInt8) : MouseFilter × FilterOut :=
  if b = 0x1B then (f.hold .esc b, {}) else (f, .verbatim [b])

/-- The candidate is given on, and the byte is read again outside of it. -/
def reground (f : MouseFilter) (b : UInt8) : MouseFilter × FilterOut :=
  let (f', out) := f.flush
  let (f'', more) := f'.ground b
  (f'', out ++ more)

def step (f : MouseFilter) (b : UInt8) (mode : FilterMode) : MouseFilter × FilterOut :=
  match f.state with
  | .ground => f.ground b
  | .esc => if b = 0x5B then (f.hold .bracket b, {}) else f.reground b
  | .bracket => if b = 0x3C then (f.hold .body b, {}) else f.reground b
  | .body =>
    if isReportEnd b then ({}, translate mode (f.pending.drop 3))
    else if isReportByte b then
      let held := f.hold .body b
      -- too long for a report
      if held.pending.length > maxMouseSeq then held.flush else (held, {})
    else f.reground b

/-- The typed bytes, each with the mode it is read in. -/
def feedAll (f : MouseFilter) : List (UInt8 × FilterMode) → MouseFilter × FilterOut
  | [] => (f, {})
  | (b, mode) :: input =>
    let (f', out) := f.step b mode
    let (f'', more) := feedAll f' input
    (f'', out ++ more)

/-- One read, in one mode. -/
def feed (f : MouseFilter) (buf : Bytes) (mode : FilterMode) : MouseFilter × FilterOut :=
  f.feedAll (buf.map (·, mode))

/-- The grab ends: what is held is handed back. -/
def takePending (f : MouseFilter) : MouseFilter × Bytes := ({}, f.pending)

end MouseFilter

/-! ### The typed bytes without their reports -/

/-- A complete report at the front of typed bytes: its body, the mode its last byte is read in, and what follows. -/
def report? : List (UInt8 × FilterMode) → Option (Bytes × FilterMode × List (UInt8 × FilterMode))
  | (0x1B, _) :: (0x5B, _) :: (0x3C, _) :: rest =>
    let body := rest.takeWhile (isReportByte ·.1)
    match rest.dropWhile (isReportByte ·.1) with
    | (b, mode) :: after =>
      if isReportEnd b ∧ 3 + body.length ≤ maxMouseSeq then some (body.map (·.1), mode, after) else none
    | [] => none
  | _ => none

variable {b : UInt8}

theorem report?_intro (m₀ m₁ m₂ : FilterMode) {body : List (UInt8 × FilterMode)} (hbody : ∀ x ∈ body, isReportByte x.1)
    (hb : isReportByte b = false) (mode : FilterMode) (after : List (UInt8 × FilterMode)) :
    report? ((0x1B, m₀) :: (0x5B, m₁) :: (0x3C, m₂) :: (body ++ (b, mode) :: after)) =
      if isReportEnd b ∧ 3 + body.length ≤ maxMouseSeq then some (body.map (·.1), mode, after) else none := by
  rw [report?, List.takeWhile_append_of_pos hbody, List.dropWhile_append_of_pos hbody,
    List.takeWhile_cons_of_neg (by rw [hb]; exact Bool.false_ne_true),
    List.dropWhile_cons_of_neg (by rw [hb]; exact Bool.false_ne_true), append_nil]

theorem report?_long (m₀ m₁ m₂ : FilterMode) {body : List (UInt8 × FilterMode)} (hbody : ∀ x ∈ body, isReportByte x.1)
    (hlong : maxMouseSeq < 3 + body.length) (rest : List (UInt8 × FilterMode)) :
    report? ((0x1B, m₀) :: (0x5B, m₁) :: (0x3C, m₂) :: (body ++ rest)) = none := by
  rw [report?, List.takeWhile_append_of_pos hbody]
  split
  · rw [if_neg]
    rintro ⟨-, hle⟩
    rw [List.length_append] at hle
    omega
  · rfl

theorem length_of_report? {input after : List (UInt8 × FilterMode)} {body : Bytes} {mode : FilterMode}
    (h : report? input = some (body, mode, after)) : after.length < input.length := by
  unfold report? at h
  split at h
  · next rest =>
      have hle := (List.dropWhile_suffix (isReportByte ·.1) (l := rest)).length_le
      dsimp only at h
      split at h
      · next hdrop =>
          rw [hdrop, List.length_cons] at hle
          rw [Option.ite_none_right_eq_some, Option.some.injEq] at h
          rw [← (Prod.mk.inj (Prod.mk.inj h.2).2).2]
          simp only [List.length_cons]
          omega
      · cases h
  · cases h

/-- **The typed bytes, with the complete reports taken out or translated, in order.** -/
def stripped (input : List (UInt8 × FilterMode)) : FilterOut :=
  match input with
  | [] => {}
  | (b, m) :: rest =>
    match _h : report? ((b, m) :: rest) with
    | some (body, mode, after) => translate mode body ++ stripped after
    | none => .verbatim [b] ++ stripped rest
termination_by input.length
decreasing_by
  · exact length_of_report? _h
  · exact Nat.lt_succ_self _

@[simp] theorem stripped_nil : stripped [] = {} := by rw [stripped]

theorem stripped_report {input after : List (UInt8 × FilterMode)} {body : Bytes} {mode : FilterMode}
    (h : report? input = some (body, mode, after)) : stripped input = translate mode body ++ stripped after := by
  cases input with
  | nil => cases h
  | cons x rest =>
    rw [stripped]
    split
    · next h' =>
        rw [h, Option.some.injEq] at h'
        cases h'
        rfl
    · next h' =>
        rw [h] at h'
        cases h'

theorem stripped_keep {m : FilterMode} {rest : List (UInt8 × FilterMode)}
    (h : report? ((b, m) :: rest) = none) : stripped ((b, m) :: rest) = .verbatim [b] ++ stripped rest := by
  rw [stripped]
  split
  · next h' =>
      rw [h] at h'
      cases h'
  · rfl

theorem report?_of_ne (hb : b ≠ 0x1B) (m : FilterMode) (rest : List (UInt8 × FilterMode)) :
    report? ((b, m) :: rest) = none := by
  unfold report?
  split
  · next h => cases h; exact absurd rfl hb
  · rfl

theorem stripped_of_ne (hb : b ≠ 0x1B) (m : FilterMode) (rest : List (UInt8 × FilterMode)) :
    stripped ((b, m) :: rest) = .verbatim [b] ++ stripped rest := stripped_keep (report?_of_ne hb m rest)

theorem FilterOut.verbatim_append (a b : Bytes) : verbatim (a ++ b) = verbatim a ++ verbatim b := rfl

theorem stripped_plain {plain : List (UInt8 × FilterMode)} (hplain : ∀ x ∈ plain, x.1 ≠ 0x1B)
    (rest : List (UInt8 × FilterMode)) :
    stripped (plain ++ rest) = .verbatim (plain.map (·.1)) ++ stripped rest := by
  induction plain with
  | nil => exact (FilterOut.empty_append _).symm
  | cons x plain ih =>
    obtain ⟨hx, hplain⟩ := List.forall_mem_cons.1 hplain
    rw [cons_append, stripped_of_ne hx, ih hplain, ← FilterOut.append_assoc, ← FilterOut.verbatim_append]
    rfl

/-- **A candidate that came to nothing is kept whole.** -/
theorem stripped_broken {m : FilterMode} {plain rest : List (UInt8 × FilterMode)} (hplain : ∀ x ∈ plain, x.1 ≠ 0x1B)
    (h : report? ((0x1B, m) :: (plain ++ rest)) = none) :
    stripped ((0x1B, m) :: plain ++ rest) = .verbatim (((0x1B, m) :: plain).map (·.1)) ++ stripped rest := by
  rw [cons_append, stripped_keep h, stripped_plain hplain, ← FilterOut.append_assoc, ← FilterOut.verbatim_append]
  rfl

/-! ### What is held back -/

/-- The typed bytes the filter holds back in each of its states. -/
inductive Held : MouseState → List (UInt8 × FilterMode) → Prop
  | ground : Held .ground []
  | esc (m : FilterMode) : Held .esc [(0x1B, m)]
  | bracket (m₀ m₁ : FilterMode) : Held .bracket [(0x1B, m₀), (0x5B, m₁)]
  | body (m₀ m₁ m₂ : FilterMode) (body : List (UInt8 × FilterMode)) (hbody : ∀ x ∈ body, isReportByte x.1)
      (hlen : 3 + body.length ≤ maxMouseSeq) :
      Held .body ((0x1B, m₀) :: (0x5B, m₁) :: (0x3C, m₂) :: body)

theorem Held.length_le {state : MouseState} {held : List (UInt8 × FilterMode)} (h : Held state held) :
    held.length ≤ maxMouseSeq := by
  cases h with
  | ground => exact Nat.zero_le _
  | esc m => exact Nat.le_of_ble_eq_true rfl
  | bracket m₀ m₁ => exact Nat.le_of_ble_eq_true rfl
  | body m₀ m₁ m₂ body hbody hlen =>
    simp only [List.length_cons]
    omega

/-- The filter holds these typed bytes back. -/
structure MouseFilter.Holds (f : MouseFilter) (h : List (UInt8 × FilterMode)) : Prop where
  held : Held f.state h
  pending : f.pending = h.map (·.1)

theorem MouseFilter.holds_new : MouseFilter.Holds {} [] := ⟨.ground, rfl⟩

/-- **A step is right**: what it gives on, and then what is held, stand for what was held and the byte. -/
structure StepOk (h : List (UInt8 × FilterMode)) (x : UInt8 × FilterMode) (r : MouseFilter × FilterOut)
    (h' : List (UInt8 × FilterMode)) : Prop where
  holds : r.1.Holds h'
  stripped : ∀ rest, r.2 ++ stripped (h' ++ rest) = stripped (h ++ x :: rest)

theorem isReportByte_ne (h : isReportByte b) : b ≠ 0x1B := by
  rintro rfl
  cases h

theorem isReportByte_of_isReportEnd (h : isReportEnd b) : isReportByte b = false := by
  simp only [isReportEnd, Bool.or_eq_true, beq_iff_eq] at h
  obtain rfl | rfl := h <;> rfl

theorem candidate_ne {body : List (UInt8 × FilterMode)} (hbody : ∀ x ∈ body, isReportByte x.1) (m₁ m₂ : FilterMode) :
    ∀ x ∈ (0x5B, m₁) :: (0x3C, m₂) :: body, x.1 ≠ 0x1B := by
  intro x hx
  obtain rfl | rfl | hx := by simpa only [List.mem_cons] using hx
  · exact fun hc => by cases hc
  · exact fun hc => by cases hc
  · exact isReportByte_ne (hbody x hx)

namespace MouseFilter

variable {f : MouseFilter} {h : List (UInt8 × FilterMode)}

theorem Holds.hold (hf : f.Holds h) {state : MouseState} {b : UInt8} {mode : FilterMode}
    (hheld : Held state (h ++ [(b, mode)])) : StepOk h (b, mode) (f.hold state b, {}) (h ++ [(b, mode)]) where
  holds := ⟨hheld, by rw [List.map_append, ← hf.pending]; rfl⟩
  stripped rest := by
    rw [FilterOut.empty_append, List.append_assoc]
    rfl

theorem ground_ok (b : UInt8) (mode : FilterMode) :
    ∃ h', StepOk [] (b, mode) (({} : MouseFilter).ground b) h' := by
  rw [ground]
  split
  · next hb =>
      subst hb
      exact ⟨_, holds_new.hold (.esc mode)⟩
  · next hb =>
      refine ⟨[], holds_new, fun rest => ?_⟩
      rw [nil_append, nil_append, stripped_of_ne hb]

/-- **A candidate fails**: it is given on, and the byte is read outside of it. -/
theorem Holds.reground {m : FilterMode} {plain : List (UInt8 × FilterMode)} (hf : f.Holds ((0x1B, m) :: plain))
    (hplain : ∀ x ∈ plain, x.1 ≠ 0x1B) {b : UInt8} {mode : FilterMode}
    (hno : ∀ rest, report? ((0x1B, m) :: (plain ++ (b, mode) :: rest)) = none) :
    ∃ h', StepOk ((0x1B, m) :: plain) (b, mode) (f.reground b) h' := by
  obtain ⟨h', hok⟩ := ground_ok b mode
  refine ⟨h', hok.holds, fun rest => ?_⟩
  show .verbatim f.pending ++ (({} : MouseFilter).ground b).2 ++ _ = _
  rw [FilterOut.append_assoc, hok.stripped, nil_append, stripped_broken hplain (hno rest), ← hf.pending]

theorem Holds.body {m₀ m₁ m₂ : FilterMode} {body : List (UInt8 × FilterMode)}
    (hf : f.Holds ((0x1B, m₀) :: (0x5B, m₁) :: (0x3C, m₂) :: body)) (hstate : f.state = .body)
    (hbody : ∀ x ∈ body, isReportByte x.1) (hlen : 3 + body.length ≤ maxMouseSeq) (b : UInt8) (mode : FilterMode) :
    ∃ h', StepOk ((0x1B, m₀) :: (0x5B, m₁) :: (0x3C, m₂) :: body) (b, mode) (f.step b mode) h' := by
  rw [step, hstate]
  dsimp only
  split
  · next hend =>
      -- the report is complete
      refine ⟨[], holds_new, fun rest => ?_⟩
      have hreport := report?_intro m₀ m₁ m₂ hbody (isReportByte_of_isReportEnd hend) mode rest
      rw [if_pos ⟨hend, hlen⟩] at hreport
      rw [nil_append]
      refine Eq.trans ?_ (stripped_report hreport).symm
      rw [hf.pending]
      rfl
  · next hend =>
      split
      · next hb =>
          have hgrown : ∀ x ∈ body ++ [(b, mode)], isReportByte x.1 := by
            intro x hx
            obtain hx | rfl := by simpa only [List.mem_append, List.mem_singleton] using hx
            · exact hbody x hx
            · exact hb
          have hheld : (f.hold .body b).pending = ((0x1B, m₀) :: (0x5B, m₁) :: (0x3C, m₂) ::
              (body ++ [(b, mode)])).map (·.1) := by
            show f.pending ++ [b] = _
            rw [hf.pending, map_cons, map_cons, map_cons, map_cons, map_cons, map_cons,
              List.map_append]
            rfl
          have hlength : (f.hold .body b).pending.length = 3 + (body ++ [(b, mode)]).length := by
            rw [hheld, List.length_map]
            simp only [List.length_cons]
            omega
          split
          · next hlong =>
              -- no report is that long: all of it is given on
              refine ⟨[], holds_new, fun rest => ?_⟩
              have hno := report?_long m₀ m₁ m₂ hgrown (hlength ▸ hlong) rest
              have hkept := stripped_broken (candidate_ne hgrown m₁ m₂) hno
              rw [← hheld] at hkept
              rw [nil_append]
              refine Eq.trans ?_ (hkept.symm.trans ?_)
              · rfl
              · rw [cons_append, cons_append, cons_append, List.append_assoc]
                rfl
          · next hshort =>
              exact ⟨_, hf.hold (.body m₀ m₁ m₂ _ hgrown (hlength ▸ Nat.le_of_not_lt hshort))⟩
      · next hb =>
          -- neither a digit nor an end: not a report
          refine hf.reground (candidate_ne hbody m₁ m₂) fun rest => ?_
          refine Eq.trans (report?_intro m₀ m₁ m₂ hbody (Bool.eq_false_iff.2 hb) mode rest) ?_
          rw [if_neg fun hc => hend hc.1]

/-- **One step.** -/
theorem Holds.step (hf : f.Holds h) (b : UInt8) (mode : FilterMode) : ∃ h', StepOk h (b, mode) (f.step b mode) h' := by
  obtain ⟨state, pending⟩ := f
  obtain ⟨hheld, hpending⟩ := hf
  cases hheld with
  | ground =>
    cases hpending
    exact ground_ok b mode
  | esc m =>
    show ∃ h', StepOk _ _ (if b = 0x5B then _ else _) h'
    split
    · next hb =>
        subst hb
        exact ⟨_, Holds.hold ⟨.esc m, hpending⟩ (.bracket m mode)⟩
    · next hb =>
        refine Holds.reground ⟨.esc m, hpending⟩ (by rintro x ⟨⟩) fun rest => ?_
        unfold report?
        split
        · next heq => cases heq; exact absurd rfl hb
        · rfl
  | bracket m₀ m₁ =>
    show ∃ h', StepOk _ _ (if b = 0x3C then _ else _) h'
    split
    · next hb =>
        subst hb
        exact ⟨_, Holds.hold ⟨.bracket m₀ m₁, hpending⟩ (.body m₀ m₁ mode [] (by rintro x ⟨⟩) (by decide))⟩
    · next hb =>
        refine Holds.reground ⟨.bracket m₀ m₁, hpending⟩ (by rintro x (_ | ⟨_, ⟨⟩⟩) hc; cases hc)
          fun rest => ?_
        unfold report?
        split
        · next heq => cases heq; exact absurd rfl hb
        · rfl
  | body m₀ m₁ m₂ body hbody hlen =>
    exact Holds.body ⟨.body m₀ m₁ m₂ body hbody hlen, hpending⟩ rfl hbody hlen b mode

/-! ### Any number of bytes -/

theorem stripped_held {state : MouseState} (hheld : Held state h) : stripped h = .verbatim (h.map (·.1)) := by
  cases hheld with
  | ground => exact stripped_nil
  | esc m =>
    rw [stripped_keep rfl, stripped_nil, FilterOut.append_empty]
    rfl
  | bracket m₀ m₁ =>
    rw [stripped_keep rfl, stripped_of_ne (by decide), stripped_nil, FilterOut.append_empty]
    rfl
  | body m₀ m₁ m₂ body hbody hlen =>
    have hno : report? ((0x1B, m₀) :: ((0x5B, m₁) :: (0x3C, m₂) :: body ++ [])) = none := by
      rw [append_nil, report?, List.dropWhile_eq_nil_iff.2 hbody]
    have hkept := stripped_broken (candidate_ne hbody m₁ m₂) hno
    rwa [stripped_nil, FilterOut.append_empty, append_nil] at hkept

theorem feedAll_cons (f : MouseFilter) (b : UInt8) (mode : FilterMode) (input : List (UInt8 × FilterMode)) :
    f.feedAll ((b, mode) :: input) =
      (((f.step b mode).1.feedAll input).1, (f.step b mode).2 ++ ((f.step b mode).1.feedAll input).2) := rfl

/-- **What the filter gives on, and then what it holds**, stand for what it held and the bytes after it. -/
theorem Holds.feedAll (input : List (UInt8 × FilterMode)) : ∀ {f : MouseFilter} {h : List (UInt8 × FilterMode)},
    f.Holds h → ∃ h', (f.feedAll input).1.Holds h' ∧
      ∀ rest, (f.feedAll input).2 ++ stripped (h' ++ rest) = stripped (h ++ (input ++ rest)) := by
  induction input with
  | nil =>
    intro f h hf
    exact ⟨h, hf, fun rest => FilterOut.empty_append _⟩
  | cons x input ih =>
    intro f h hf
    obtain ⟨h', hok⟩ := hf.step x.1 x.2
    obtain ⟨h'', hholds, hrest⟩ := ih hok.holds
    refine ⟨h'', hholds, fun rest => ?_⟩
    rw [feedAll_cons, FilterOut.append_assoc, hrest, hok.stripped]
    rfl

end MouseFilter

/-! ### Runs -/

/-- What happens to a filter: a read, or the end of the grab. -/
inductive FilterAct where
  | feed (buf : Bytes) (mode : FilterMode)
  | takePending
  deriving DecidableEq, Repr

/-- A filter, and all that came out of it: the bytes given on and those handed back, in order. -/
structure FilterRun where
  filter : MouseFilter := {}
  out : FilterOut := {}
  deriving DecidableEq, Repr

namespace FilterRun

def step (r : FilterRun) : FilterAct → FilterRun
  | .feed buf mode => { filter := (r.filter.feed buf mode).1, out := r.out ++ (r.filter.feed buf mode).2 }
  | .takePending => { filter := r.filter.takePending.1, out := r.out ++ .verbatim r.filter.takePending.2 }

def run (r : FilterRun) (acts : List FilterAct) : FilterRun := acts.foldl step r

end FilterRun

/-- The typed bytes between one end of the grab and the next: the first span, and the spans after it. -/
def spans : List FilterAct → List (UInt8 × FilterMode) × List (List (UInt8 × FilterMode))
  | [] => ([], [])
  | .feed buf mode :: acts => (buf.map (·, mode) ++ (spans acts).1, (spans acts).2)
  | .takePending :: acts => ([], (spans acts).1 :: (spans acts).2)

/-- Every span, without its reports. -/
def strippedSpans (first : List (UInt8 × FilterMode)) : List (List (UInt8 × FilterMode)) → FilterOut
  | [] => stripped first
  | next :: more => stripped first ++ strippedSpans next more

theorem strippedSpans_append {out : FilterOut} {h h' : List (UInt8 × FilterMode)}
    (hout : ∀ rest, out ++ stripped (h' ++ rest) = stripped (h ++ rest)) (first : List (UInt8 × FilterMode))
    (more : List (List (UInt8 × FilterMode))) :
    out ++ strippedSpans (h' ++ first) more = strippedSpans (h ++ first) more := by
  cases more with
  | nil => exact hout first
  | cons next more =>
    rw [strippedSpans, strippedSpans, ← FilterOut.append_assoc, hout]

namespace FilterRun

theorem run_spec (acts : List FilterAct) : ∀ {r : FilterRun} {h : List (UInt8 × FilterMode)}, r.filter.Holds h →
    (∃ h', (r.run acts).filter.Holds h') ∧ (r.run acts).out ++ .verbatim (r.run acts).filter.pending =
      r.out ++ strippedSpans (h ++ (spans acts).1) (spans acts).2 := by
  induction acts with
  | nil =>
    intro r h hr
    refine ⟨⟨h, hr⟩, ?_⟩
    show r.out ++ .verbatim r.filter.pending = r.out ++ stripped (h ++ [])
    rw [append_nil, MouseFilter.stripped_held hr.held, hr.pending]
  | cons a acts ih =>
    intro r h hr
    cases a with
    | feed buf mode =>
      obtain ⟨h', hholds, hrest⟩ := hr.feedAll (buf.map (·, mode))
      obtain ⟨hend, hout⟩ := @ih (r.step (.feed buf mode)) h' hholds
      refine ⟨hend, hout.trans ?_⟩
      show r.out ++ _ ++ _ = r.out ++ strippedSpans (h ++ (buf.map (·, mode) ++ (spans acts).1)) (spans acts).2
      rw [FilterOut.append_assoc, ← List.append_assoc]
      refine congrArg (r.out ++ ·) (strippedSpans_append (fun rest => ?_) _ _)
      rw [List.append_assoc]
      exact hrest rest
    | takePending =>
      obtain ⟨hend, hout⟩ := @ih (r.step .takePending) [] MouseFilter.holds_new
      refine ⟨hend, hout.trans ?_⟩
      show r.out ++ .verbatim r.filter.pending ++ _ = r.out ++ (stripped (h ++ []) ++ _)
      rw [FilterOut.append_assoc, append_nil, MouseFilter.stripped_held hr.held, hr.pending]
      rfl

/-- **No keystroke is lost.**  What came out and what is held is the typed bytes without the complete reports, in
order; with the bytes in the same modes and the grab ended at the same places, the cuts of the reads change neither
that nor the wheel; no more than `maxMouseSeq` bytes are held, and the end of the grab hands them all back. -/
theorem mouse_filter_lossless (acts : List FilterAct) :
    (run {} acts).out.bytes ++ (run {} acts).filter.pending = (strippedSpans (spans acts).1 (spans acts).2).bytes ∧
      (run {} acts).out.wheel = (strippedSpans (spans acts).1 (spans acts).2).wheel ∧
      (∀ acts', spans acts' = spans acts → (run {} acts').out.wheel = (run {} acts).out.wheel) ∧
      (run {} acts).filter.pending.length ≤ maxMouseSeq ∧
      (run {} acts).filter.takePending = ({}, (run {} acts).filter.pending) := by
  have hspec : ∀ as, (run {} as).out ++ .verbatim (run {} as).filter.pending =
      strippedSpans (spans as).1 (spans as).2 := by
    intro as
    exact (@run_spec as {} [] MouseFilter.holds_new).2.trans (FilterOut.empty_append _)
  have hwheel : ∀ as, (run {} as).out.wheel = (strippedSpans (spans as).1 (spans as).2).wheel := by
    intro as
    rw [← hspec as]
    exact (Int.add_zero _).symm
  obtain ⟨h, hheld⟩ := (@run_spec acts {} [] MouseFilter.holds_new).1
  refine ⟨congrArg FilterOut.bytes (hspec acts), hwheel acts, ?_, ?_, rfl⟩
  · intro acts' hsame
    rw [hwheel, hwheel, hsame]
  · rw [hheld.pending, List.length_map]
    exact hheld.held.length_le

end FilterRun

end Posh
