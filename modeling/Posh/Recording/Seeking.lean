/-
**Where a player is in a recording.**

Wherever its steps have i it, a player's terminal is that of the bytes before its cursor, with each
resize made before the first byte at or after it.  The number of writes fed is counted from the cursor, so
writes without data, which share an offset with the next, are counted together with it: the count agrees
with the steps, and a search through the writes with both, exactly when every write has data.
-/

import Posh.Recording.Player

set_option autoImplicit false

namespace Posh.Recording

open Term
open List (mem_singleton pairwise_append)

namespace Player

variable {γ ν : Type}

/-- How many writes have been fed. -/
def writeIndex (p : Player γ ν) : ℕ :=
  if p.AtEnd then p.writes.length else (p.writes.takeWhile (· < p.cursor)).length

section

variable [GraphicsStore γ]

/-- Steps by write, which take no turns of a frame. -/
def stepWrites (n : ℕ) (p : Player γ ν) : ℕ × Player γ ν := (p.step 0 .write n).getD (0, p)

/-- From write to write until `holds`, and at least to the write `start`. -/
def seekLoop (holds : Terminal γ → Bool) (start : ℕ) : ℕ → Player γ ν → Option ℕ × Player γ ν
  | 0, p => (none, p)
  | fuel + 1, p =>
    if start ≤ p.writeIndex && holds p.term then (some p.writeIndex, p)
    else
      let s := p.stepWrites 1
      if s.1 = 0 then (none, s.2) else seekLoop holds start fuel s.2

/-- The first write from `fromWrite` on after which the screen satisfies a query. -/
def seek (p : Player γ ν) (holds : Terminal γ → Bool) (fromWrite : ℕ) : Option ℕ × Player γ ν :=
  let start := max fromWrite 1
  let skip := start - p.writeIndex
  seekLoop holds start (p.writes.length + 2) (if 0 < skip then (p.stepWrites skip).2 else p)

/-- Steps of any kinds, one call after the other. -/
def steps (fuel : ℕ) (calls : List (Granularity × ℕ)) (p : Player γ ν) : Option (Player γ ν) :=
  calls.foldlM (fun p call => (p.step fuel call.1 call.2).map Prod.snd) p

end

variable {p p₀ q r : Player γ ν} {g : Granularity} {fuel n k i : ℕ}

/-! ### The terminal of a position -/

/-- The resizes at an offset, on a terminal. -/
def resizedAt (p : Player γ ν) (offset : ℕ) (t : Terminal γ) : Terminal γ :=
  (p.resizes.filter (·.1 = offset)).foldl (fun t size => t.resize size.2.2 size.2.1) t

section

variable [GraphicsStore γ]

/-- The terminal of the first bytes, each after the resizes at its offset. -/
def fedTo (p : Player γ ν) : ℕ → Terminal γ
  | 0 => p.term
  | i + 1 =>
    match p.flat[i]? with
    | some b => feedTerm (p.resizedAt i (p.fedTo i)) b
    | none => p.fedTo i

/-- **The terminal of a position**: at the end, after the resizes there. -/
def replayed (p : Player γ ν) (c : ℕ) : Terminal γ :=
  if p.flat.length ≤ c then p.resizedAt c (p.fedTo c) else p.fedTo c

end

/-- The offsets of the resizes are in order, and within the stream. -/
def Placed (p : Player γ ν) : Prop :=
  p.resizes.Pairwise (·.1 ≤ ·.1) ∧ ∀ size ∈ p.resizes, size.1 ≤ p.flat.length

theorem applyPending_eq (offset : ℕ) {t : Terminal γ} {sizes : List (ℕ × ℕ × ℕ)} (h : sizes.Pairwise (·.1 ≤ ·.1)) :
    applyPending offset (sizes.drop (sizes.countP (·.1 < offset))) (t, n) =
      ((sizes.filter (·.1 = offset)).foldl (fun t size => t.resize size.2.2 size.2.1) t,
        n + sizes.countP (·.1 = offset)) := by
  induction sizes generalizing t n with
  | nil => rfl
  | cons size rest ih =>
    obtain ⟨hhead, hrest⟩ := List.pairwise_cons.mp h
    have hfrom : offset ≤ size.1 → rest.countP (·.1 < offset) = 0 := fun hle =>
      List.countP_eq_zero.mpr fun s hs => by
        have := hhead s hs
        simp only [decide_eq_true_eq]
        omega
    rcases Nat.lt_trichotomy size.1 offset with hlt | heq | hgt
    · rw [List.countP_cons_of_pos (by simpa using hlt), List.drop_succ_cons, ih hrest,
        List.filter_cons_of_neg (by simpa using hlt.ne), List.countP_cons_of_neg (by simpa using hlt.ne)]
    · have hnone := hfrom heq.ge
      rw [hnone, List.drop_zero] at ih
      rw [List.countP_cons_of_neg (by simpa using heq.ge), hnone, List.drop_zero, applyPending, if_pos heq.le, ih hrest,
        List.filter_cons_of_pos (by simpa using heq), List.countP_cons_of_pos (by simpa using heq), List.foldl_cons,
        Nat.add_right_comm, Nat.add_assoc]
    · have hlater : ∀ s ∈ size :: rest, ¬ (decide (s.1 = offset) = true) := by
        intro s hs
        rw [decide_eq_true_eq]
        rcases List.mem_cons.mp hs with rfl | hs
        · omega
        · have := hhead s hs
          omega
      rw [List.countP_cons_of_neg (by simpa using hgt.le), hfrom hgt.le, List.drop_zero, applyPending,
        if_neg (by omega), List.filter_eq_nil_iff.mpr hlater, List.countP_eq_zero.mpr hlater]
      rfl

theorem countP_succ (sizes : List (ℕ × ℕ × ℕ)) (offset : ℕ) :
    sizes.countP (·.1 < offset + 1) = sizes.countP (·.1 < offset) + sizes.countP (·.1 = offset) := by
  induction sizes with
  | nil => rfl
  | cons size rest ih =>
    simp only [List.countP_cons, ih, decide_eq_true_eq]
    split <;> split <;> split <;> omega

section

variable [GraphicsStore γ]

/-- Within the stream, with its resizes made: those before the cursor, or all of them at the end. -/
def Fed (p₀ p : Player γ ν) : Prop :=
  p.tape = p₀.tape ∧ p.cursor ≤ p₀.flat.length ∧
    ((p.term = p₀.fedTo p.cursor ∧ p.nextResize = p₀.resizes.countP (·.1 < p.cursor)) ∨
      (p₀.flat.length ≤ p.cursor ∧ p.term = p₀.replayed p.cursor ∧ p.nextResize = p₀.resizes.length))

omit [GraphicsStore γ] in
theorem resizes_eq (h : p.tape = p₀.tape) : p.resizes = p₀.resizes := by
  simp only [tape, Prod.mk.injEq] at h
  exact h.2.2.1

theorem Fed.flush (hplaced : p₀.Placed) (h : Fed p₀ p) :
    Fed p₀ p.flushTrailingResizes ∧ p.flushTrailingResizes.term = p₀.replayed p.cursor := by
  obtain ⟨htape, hle, hterm⟩ := h
  have hend : p.AtEnd ↔ p₀.flat.length ≤ p.cursor := by rw [AtEnd, flat_eq htape]
  rw [flushTrailingResizes]
  split
  · rename_i hat
    have hcursor : p.cursor = p₀.flat.length := Nat.le_antisymm hle (hend.mp hat)
    rcases hterm with ⟨hfed, hnext⟩ | ⟨-, hdone, hnext⟩
    · have hpending := applyPending_eq p₀.flat.length (t := p₀.fedTo p₀.flat.length)
        (n := p₀.resizes.countP (·.1 < p₀.flat.length)) hplaced.1
      have hall : p₀.resizes.countP (·.1 < p₀.flat.length + 1) = p₀.resizes.length :=
        List.countP_eq_length.mpr fun s hs => decide_eq_true (Nat.lt_succ_of_le (hplaced.2 s hs))
      rw [← countP_succ, hall] at hpending
      rw [hcursor] at hfed hnext
      have hterm : (p.applyResizesThrough p.flat.length).term = p₀.replayed p.cursor := by
        rw [applyResizesThrough, flat_eq htape, resizes_eq htape, hfed, hnext, hpending, hcursor, replayed, if_pos (Nat.le_refl _)]
        rfl
      refine ⟨⟨htape, hle, .inr ⟨hend.mp hat, hterm, ?_⟩⟩, hterm⟩
      rw [applyResizesThrough, flat_eq htape, resizes_eq htape, hfed, hnext, hpending]
    · have hsame : p.applyResizesThrough p.flat.length = p := by
        rw [applyResizesThrough, show p.resizes.drop p.nextResize = [] by rw [resizes_eq htape, hnext, List.drop_length]]
        rfl
      rw [hsame]
      exact ⟨⟨htape, hle, .inr ⟨hend.mp hat, hdone, hnext⟩⟩, hdone⟩
  · rename_i hat
    rw [hend] at hat
    rcases hterm with ⟨hfed, hnext⟩ | ⟨hover, -⟩
    · refine ⟨⟨htape, hle, .inl ⟨hfed, hnext⟩⟩, ?_⟩
      rw [hfed, replayed, if_neg hat]
    · exact absurd hover hat

theorem kept_fed (hplaced : p₀.Placed) : Kept (Fed p₀) where
  byte p q h hq := by
    obtain ⟨htape, -, hterm⟩ := h
    obtain ⟨hsame, hcursor, hend⟩ := feedByte_some hq
    rw [AtEnd, flat_eq htape] at hend
    rcases hterm with ⟨hfed, hnext⟩ | ⟨hover, -⟩
    · refine ⟨hsame.trans htape, by omega, .inl ?_⟩
      obtain ⟨b, hb, rfl⟩ := Option.map_eq_some_iff.mp hq
      have hpending := applyPending_eq p.cursor (t := p₀.fedTo p.cursor)
        (n := p₀.resizes.countP (·.1 < p.cursor)) hplaced.1
      rw [flat_eq htape] at hb
      rw [hcursor, countP_succ, fedTo, hb]
      simp only [applyResizesThrough, resizes_eq htape, hfed, hnext, hpending]
      exact ⟨rfl, trivial⟩
    · exact absurd hover hend
  flush p h := (h.flush hplaced).1

/-- **Steps of any kind leave the terminal of the position.** -/
theorem steps_replayed (hplaced : p₀.Placed) {calls : List (Granularity × ℕ)} (hp : Fed p₀ p)
    (hq : p.steps fuel calls = some q) : Fed p₀ q ∧ (calls ≠ [] → q.term = p₀.replayed q.cursor) := by
  induction calls generalizing p with
  | nil =>
    cases hq
    exact ⟨hp, fun h => absurd rfl h⟩
  | cons call calls ih =>
    obtain ⟨p', hp', hq⟩ := Option.bind_eq_some_iff.mp hq
    obtain ⟨⟨m, p'⟩, hstep, rfl⟩ := Option.map_eq_some_iff.mp hp'
    obtain ⟨r, hr, rfl⟩ := (kept_fed hplaced).stepLoop hp hstep
    obtain ⟨hfed, hterm⟩ := hr.flush hplaced
    have hrest := ih hfed hq
    refine ⟨hrest.1, fun _ => ?_⟩
    cases calls with
    | nil =>
      cases hq
      rw [(flush_cases r).2]
      exact hterm
    | cons => exact hrest.2 (List.cons_ne_nil _ _)

/-! ### Writes with data -/

end

/-- Every write has data. -/
def Filled (p : Player γ ν) : Prop := p.bounds.Pairwise (· < ·)

theorem writes_eq (h : q.tape = p.tape) : q.writes = p.writes := by
  simp only [tape, Prod.mk.injEq] at h
  exact h.2.1

theorem bounds_eq (h : q.tape = p.tape) : q.bounds = p.bounds := by
  simp only [tape, Prod.mk.injEq] at h
  rw [bounds, bounds, h.1, h.2.1]

theorem length_bounds (p : Player γ ν) : p.bounds.length = p.writes.length + 1 := List.length_append

theorem boundary_eq_bounds (p : Player γ ν) (c : ℕ) : p.boundary c = (p.bounds.find? (c < ·)).getD p.flat.length := by
  rw [boundary, bounds, List.find?_append]
  cases p.writes.find? (c < ·) with
  | some w => rfl
  | none =>
    rw [Option.none_or, List.find?_cons]
    split <;> rfl

/-- The player stands at the write `k`, or at the end. -/
def AtWrite (p : Player γ ν) (k : ℕ) : Prop := p.bounds[k]? = some p.cursor

theorem Filled.boundary (hfilled : p.Filled) (h : p.AtWrite k) (hlt : k < p.writes.length) :
    p.bounds[k + 1]? = some (p.boundary p.cursor) := by
  obtain ⟨hk, hc⟩ := List.getElem?_eq_some_iff.mp h
  have hk' : k + 1 < p.bounds.length := by rw [length_bounds]; omega
  have hfind : p.bounds.find? (p.cursor < ·) = some p.bounds[k + 1] := by
    rw [List.find?_eq_some_iff_getElem]
    refine ⟨?_, k + 1, hk', rfl, fun j hj => ?_⟩
    · rw [← hc]
      exact decide_eq_true (List.pairwise_iff_getElem.mp hfilled k (k + 1) hk hk' (Nat.lt_succ_self k))
    · rw [← hc, Bool.not_eq_true', decide_eq_false_iff_not, Nat.not_lt]
      rcases Nat.lt_or_eq_of_le (Nat.le_of_lt_succ hj) with hj | rfl
      · exact (List.pairwise_iff_getElem.mp hfilled j k (hj.trans hk) hk hj).le
      · exact Nat.le_refl _
  rw [boundary_eq_bounds, hfind, List.getElem?_eq_getElem hk', Option.getD_some]

theorem Filled.atEnd_iff (hfilled : p.Filled) (h : p.AtWrite k) : p.AtEnd ↔ p.writes.length ≤ k := by
  obtain ⟨hk, hc⟩ := List.getElem?_eq_some_iff.mp h
  rw [length_bounds] at hk
  rcases Nat.lt_or_eq_of_le (Nat.le_of_lt_succ hk) with hlt | rfl
  · have hmem : p.cursor ∈ p.writes := by
      rw [← hc]
      simp only [bounds, List.getElem_append_left hlt]
      exact List.getElem_mem _
    have := (pairwise_append.mp hfilled).2.2 _ hmem _ (List.mem_singleton_self _)
    rw [AtEnd]
    omega
  · have hlast : p.flat.length = p.cursor := by
      rw [← hc]
      simp [bounds]
    rw [AtEnd, hlast]
    exact ⟨fun _ => Nat.le_refl _, fun _ => Nat.le_refl _⟩

/-- Before the end, the count is of the writes before the cursor. -/
theorem writeIndex_iff (hend : ¬ p.AtEnd) (hk : k < p.writes.length) :
    p.writeIndex = k ↔ p.cursor ≤ p.writes[k] ∧ ∀ j (_ : j < p.writes.length), j < k → p.writes[j] < p.cursor := by
  rw [writeIndex, if_neg hend, List.takeWhile_eq_take_findIdx_not, List.length_take,
    Nat.min_eq_left List.findIdx_le_length, List.findIdx_eq hk]
  refine and_congr (by simp) ⟨fun h j _ hj => by simpa using h j hj, fun h j hj => ?_⟩
  simpa using h j (hj.trans hk) hj

theorem Filled.writeIndex (hfilled : p.Filled) (h : p.AtWrite k) : p.writeIndex = k := by
  obtain ⟨hk, hc⟩ := List.getElem?_eq_some_iff.mp h
  rw [length_bounds] at hk
  by_cases hend : p.AtEnd
  · have := (hfilled.atEnd_iff h).mp hend
    rw [Player.writeIndex, if_pos hend]
    omega
  · have hlt := mt (hfilled.atEnd_iff h).mpr hend
    rw [Nat.not_le] at hlt
    have hcursor : p.writes[k] = p.cursor := by
      rw [← hc]
      exact (List.getElem_append_left hlt).symm
    rw [writeIndex_iff hend hlt, hcursor]
    refine ⟨Nat.le_refl _, fun j hlen hj => ?_⟩
    rw [← hcursor]
    exact List.pairwise_iff_getElem.mp (pairwise_append.mp hfilled).1 j k hlen hlt hj

section

variable [GraphicsStore γ] {holds : Terminal γ → Bool} {fromWrite : ℕ}

/-- **Steps by write**, from one write to another. -/
theorem stepLoop_writes (hplaced : p₀.Placed) (hfilled : p₀.Filled) (hordered : p₀.Ordered) (hp : Fed p₀ p)
    (h : p.AtWrite k) : ∃ q, stepLoop 0 .write n i p = some (i + min n (p₀.writes.length - k), q) ∧
      Fed p₀ q ∧ q.AtWrite (k + min n (p₀.writes.length - k)) ∧ q.term = p₀.replayed q.cursor := by
  have hflush {p : Player γ ν} {k : ℕ} (hp : Fed p₀ p) (h : p.AtWrite k) : Fed p₀ p.flushTrailingResizes ∧
      p.flushTrailingResizes.AtWrite k ∧ p.flushTrailingResizes.term = p₀.replayed p.flushTrailingResizes.cursor := by
    rw [AtWrite, bounds_eq (flush_cases p).1, (flush_cases p).2]
    exact ⟨(hp.flush hplaced).1, h, (hp.flush hplaced).2⟩
  induction n generalizing k p i with
  | zero => exact ⟨p.flushTrailingResizes, by rw [Nat.zero_min]; rfl, by rw [Nat.zero_min]; exact hflush hp h⟩
  | succ n ih =>
    have hwrites := writes_eq hp.1
    have hfilled' : p.Filled := by
      rw [Filled, bounds_eq hp.1]
      exact hfilled
    by_cases hend : p.AtEnd
    · have hk := (hfilled'.atEnd_iff h).mp hend
      rw [hwrites] at hk
      rw [Nat.sub_eq_zero_of_le hk, Nat.min_zero]
      exact ⟨p.flushTrailingResizes, by rw [stepLoop, advance, stepWrite, if_pos hend]; rfl, hflush hp h⟩
    · have hk : k < p₀.writes.length := by
        rw [hfilled'.atEnd_iff h, hwrites] at hend
        omega
      have hbound : p.boundary p.cursor ≤ p.flat.length := by
        rw [boundary_eq hp.1, flat_eq hp.1]
        exact hordered.boundary_le _
      have hnext := (kept_fed hplaced).feedUntil hp (p.boundary p.cursor)
      have hat : (p.feedUntil (p.boundary p.cursor)).AtWrite (k + 1) := by
        rw [AtWrite, bounds_eq (hnext.1.trans hp.1.symm), feedUntil_cursor hbound (lt_boundary hend).le]
        exact hfilled'.boundary h (hwrites ▸ hk)
      obtain ⟨q, hq, hrest⟩ := ih (i := i + 1) hnext hat
      have hmin : min (n + 1) (p₀.writes.length - k) = min n (p₀.writes.length - (k + 1)) + 1 := by omega
      refine ⟨q, ?_, by rwa [hmin, Nat.add_comm _ 1, ← Nat.add_assoc]⟩
      rw [stepLoop, advance, stepWrite, if_neg hend, Option.bind_some, hmin]
      simp only [hq]
      exact congrArg (fun m => some (m, q)) (by omega)

/-- A player with every write filled, at the write `k`, with the terminal of its position. -/
structure Standing (p₀ : Player γ ν) (k : ℕ) (p : Player γ ν) : Prop where
  fed : Fed p₀ p
  atWrite : p.AtWrite k
  term : p.term = p₀.replayed p.cursor

/-- The terminal of the write `k`. -/
def shown (p : Player γ ν) (k : ℕ) : Terminal γ := p.replayed (p.bounds.getD k 0)

omit [GraphicsStore γ] in
theorem filled_eq (h : q.tape = p.tape) : q.Filled ↔ p.Filled := by rw [Filled, Filled, bounds_eq h]

theorem Standing.shown (h : Standing p₀ k p) : p.term = p₀.shown k := by
  have hat := h.atWrite
  rw [AtWrite, bounds_eq h.fed.1] at hat
  rw [h.term, Player.shown, List.getD_eq_getElem?_getD, hat, Option.getD_some]

theorem Standing.writeIndex (hfilled : p₀.Filled) (h : Standing p₀ k p) : p.writeIndex = k :=
  ((filled_eq h.fed.1).mpr hfilled).writeIndex h.atWrite

theorem stepWrites_standing (hplaced : p₀.Placed) (hfilled : p₀.Filled) (hordered : p₀.Ordered) (hp : Fed p₀ p)
    (h : p.AtWrite k) (n : ℕ) : (p.stepWrites n).1 = min n (p₀.writes.length - k) ∧
      Standing p₀ (k + min n (p₀.writes.length - k)) (p.stepWrites n).2 := by
  obtain ⟨q, hq, hfed, hat, hterm⟩ := stepLoop_writes (n := n) (i := 0) hplaced hfilled hordered hp h
  rw [stepWrites, step, hq, Nat.zero_add]
  exact ⟨rfl, hfed, hat, hterm⟩

/-- **The search** finds the first write at or after `start` whose terminal satisfies the query. -/
theorem seekLoop_eq (hplaced : p₀.Placed) (hfilled : p₀.Filled) (hordered : p₀.Ordered)
    {start : ℕ} (hp : Standing p₀ k p) (hk : k ≤ p₀.writes.length) (hfuel : p₀.writes.length + 1 - k ≤ fuel) :
    (seekLoop holds start fuel p).1 = (List.range' k (p₀.writes.length + 1 - k)).find? fun j =>
      start ≤ j && holds (p₀.shown j) := by
  induction fuel generalizing k p with
  | zero => omega
  | succ fuel ih =>
    have hnext := stepWrites_standing hplaced hfilled hordered hp.fed hp.atWrite 1
    rw [show p₀.writes.length + 1 - k = p₀.writes.length - k + 1 by omega, List.range'_succ, List.find?_cons, seekLoop,
      hp.writeIndex hfilled, hp.shown]
    cases hq : start ≤ k && holds (p₀.shown k) with
    | true => rfl
    | false =>
      rw [if_neg Bool.false_ne_true]
      dsimp only
      by_cases hend : k = p₀.writes.length
      · rw [hend, Nat.sub_self, Nat.min_zero] at hnext
        rw [if_pos hnext.1, hend, Nat.sub_self]
        rfl
      · have hmin : min 1 (p₀.writes.length - k) = 1 := by omega
        rw [hmin] at hnext
        rw [if_neg (by omega), ih hnext.2 (by omega) (by omega), Nat.add_sub_add_right]

/-! ### Agreement -/

/-- The write `k` is one that `seek` looks for. -/
def Sought (p : Player γ ν) (holds : Terminal γ → Bool) (fromWrite k : ℕ) : Prop :=
  max fromWrite 1 ≤ k ∧ k ≤ p.writes.length ∧ holds (p.stepWrites k).2.term = true

/-- **Position, count and search agree**, on a player at its start. -/
structure Agrees (p₀ : Player γ ν) : Prop where
  term : ∀ fuel calls q, p₀.steps fuel calls = some q → (calls = [] → ¬ q.AtEnd) → q.term = p₀.replayed q.cursor
  index : ∀ k ≤ p₀.writes.length, (p₀.stepWrites k).2.writeIndex = k
  seek_some : ∀ holds fromWrite k, (p₀.seek holds fromWrite).1 = some k ↔
    p₀.Sought holds fromWrite k ∧ ∀ j < k, ¬ p₀.Sought holds fromWrite j
  seek_none : ∀ holds fromWrite, (p₀.seek holds fromWrite).1 = none ↔ ∀ k, ¬ p₀.Sought holds fromWrite k

theorem seek_eq (hplaced : p₀.Placed) (hfilled : p₀.Filled) (hordered : p₀.Ordered) (hfed : Fed p₀ p₀)
    (hat : p₀.AtWrite 0) :
    let k := min (max fromWrite 1) p₀.writes.length
    (p₀.seek holds fromWrite).1 = (List.range' k (p₀.writes.length + 1 - k)).find? fun j =>
      max fromWrite 1 ≤ j && holds (p₀.shown j) := by
  have hskip := (stepWrites_standing hplaced hfilled hordered hfed hat (max fromWrite 1)).2
  rw [Nat.sub_zero, Nat.zero_add] at hskip
  rw [seek, hfilled.writeIndex hat]
  dsimp only
  rw [Nat.sub_zero, if_pos (by omega)]
  exact seekLoop_eq hplaced hfilled hordered hskip (Nat.min_le_right ..) (by omega)

theorem sought_iff (hplaced : p₀.Placed) (hfilled : p₀.Filled) (hordered : p₀.Ordered) (hfed : Fed p₀ p₀)
    (hat : p₀.AtWrite 0) : p₀.Sought holds fromWrite k ↔
      k ≤ p₀.writes.length ∧ (max fromWrite 1 ≤ k && holds (p₀.shown k)) = true := by
  rw [Sought, Bool.and_eq_true, decide_eq_true_eq]
  constructor
  · rintro ⟨hfrom, hk, hholds⟩
    have hstand := (stepWrites_standing hplaced hfilled hordered hfed hat k).2
    rw [Nat.sub_zero, Nat.zero_add, Nat.min_eq_left hk] at hstand
    exact ⟨hk, hfrom, hstand.shown ▸ hholds⟩
  · rintro ⟨hk, hfrom, hholds⟩
    have hstand := (stepWrites_standing hplaced hfilled hordered hfed hat k).2
    rw [Nat.sub_zero, Nat.zero_add, Nat.min_eq_left hk] at hstand
    exact ⟨hfrom, hk, hstand.shown ▸ hholds⟩

/-- Where every write has data, all agree. -/
theorem Filled.agrees (hfilled : p₀.Filled) (hplaced : p₀.Placed) (hordered : p₀.Ordered) (hfed : Fed p₀ p₀)
    (hat : p₀.AtWrite 0) (hterm : ∀ fuel calls q, p₀.steps fuel calls = some q → (calls = [] → ¬ q.AtEnd) → q.term = p₀.replayed q.cursor) :
    p₀.Agrees where
  term := hterm
  index k hk := by
    have hstand := (stepWrites_standing hplaced hfilled hordered hfed hat k).2
    rw [Nat.sub_zero, Nat.zero_add, Nat.min_eq_left hk] at hstand
    exact hstand.writeIndex hfilled
  seek_some holds fromWrite k := by
    simp only [sought_iff hplaced hfilled hordered hfed hat]
    rw [seek_eq hplaced hfilled hordered hfed hat, List.find?_range'_eq_some, List.mem_range'_1]
    constructor
    · rintro ⟨hk, hrange, hfirst⟩
      refine ⟨⟨by omega, hk⟩, fun j hj ⟨_, hj'⟩ => ?_⟩
      have hfrom := of_decide_eq_true ((Bool.and_eq_true ..).mp hj').1
      have hnot := hfirst j (by omega) hj
      rw [hj'] at hnot
      cases hnot
    · rintro ⟨⟨hk, hk'⟩, hfirst⟩
      have hfrom := of_decide_eq_true ((Bool.and_eq_true ..).mp hk').1
      refine ⟨hk', ⟨by omega, by omega⟩, fun j _ hj => ?_⟩
      rw [Bool.not_eq_true']
      exact Bool.eq_false_iff.mpr fun h => hfirst j hj ⟨by omega, h⟩
  seek_none holds fromWrite := by
    simp only [sought_iff hplaced hfilled hordered hfed hat]
    rw [seek_eq hplaced hfilled hordered hfed hat, List.find?_eq_none]
    refine ⟨fun h k ⟨hk, hk'⟩ => ?_, fun h k hk hk' => h k ⟨?_, hk'⟩⟩
    · have hfrom := of_decide_eq_true ((Bool.and_eq_true ..).mp hk').1
      exact h k (List.mem_range'_1.mpr ⟨by omega, by omega⟩) hk'
    · rw [List.mem_range'_1] at hk
      omega

/-- Steps by write go from bound to bound. -/
theorem stepLoop_mem_bounds (hordered : p₀.Ordered) (htape : p.tape = p₀.tape) (h : p.cursor ∈ p₀.bounds) :
    ∃ m q, stepLoop 0 .write n i p = some (m, q) ∧ q.tape = p₀.tape ∧ q.cursor ∈ p₀.bounds := by
  induction n generalizing p i with
  | zero => exact ⟨i, _, rfl, (flush_cases p).1.trans htape, by rwa [(flush_cases p).2]⟩
  | succ n ih =>
    rw [stepLoop, advance, stepWrite]
    split
    · exact ⟨i, _, rfl, (flush_cases p).1.trans htape, by rwa [(flush_cases p).2]⟩
    · rename_i hend
      have hbound : p.boundary p.cursor ≤ p.flat.length := by
        rw [boundary_eq htape, flat_eq htape]
        exact hordered.boundary_le _
      refine ih (((kept_after p).feedUntil ⟨rfl, Nat.le_refl _⟩ _).1.trans htape) ?_
      rw [feedUntil_cursor hbound (lt_boundary hend).le, boundary_eq_bounds, bounds_eq htape, flat_eq htape]
      cases hfind : p₀.bounds.find? (p.cursor < ·) with
      | some w => exact List.mem_of_find?_eq_some hfind
      | none => exact length_mem_bounds p₀

/-- Where the count agrees with the steps, every write has data. -/
theorem filled_of_index (hordered : p₀.Ordered) (hstart : p₀.cursor ∈ p₀.bounds)
    (h : ∀ k ≤ p₀.writes.length, (p₀.stepWrites k).2.writeIndex = k) : p₀.Filled := by
  have hat (k : ℕ) (hk : k < p₀.writes.length) : ∃ c ∈ p₀.writes, c ≤ p₀.writes[k] ∧ c < p₀.flat.length ∧
      ∀ j (_ : j < p₀.writes.length), j < k → p₀.writes[j] < c := by
    obtain ⟨m, q, hq, htape, hmem⟩ := stepLoop_mem_bounds (n := k) (i := 0) hordered rfl hstart
    have hindex := h k hk.le
    rw [stepWrites, step, hq, Option.getD_some] at hindex
    have hend : ¬ q.AtEnd := fun hend => by
      rw [writeIndex, if_pos hend, writes_eq htape] at hindex
      omega
    rw [writeIndex_iff hend (by rwa [writes_eq htape])] at hindex
    simp only [writes_eq htape] at hindex
    rw [AtEnd, flat_eq htape, Nat.not_le] at hend
    refine ⟨q.cursor, ?_, hindex.1, hend, hindex.2⟩
    rcases List.mem_append.mp hmem with hw | hlast
    · exact hw
    · exact absurd (mem_singleton.mp hlast) hend.ne
  have hwrites := List.pairwise_iff_getElem.mp (pairwise_append.mp hordered).1
  refine pairwise_append.mpr ⟨List.pairwise_iff_getElem.mpr fun i j hi hj hij => ?_, List.pairwise_singleton .., ?_⟩
  · obtain ⟨c, -, hc, -, hbefore⟩ := hat j hj
    exact (hbefore i hi hij).trans_le hc
  · intro w hw b hb
    rw [mem_singleton.mp hb]
    obtain ⟨i, hi, rfl⟩ := List.mem_iff_getElem.mp hw
    obtain ⟨c, hmem, hc, hlt, hbefore⟩ := hat i hi
    obtain ⟨j, hj, rfl⟩ := List.mem_iff_getElem.mp hmem
    rcases Nat.lt_or_ge j i with hji | hij
    · exact absurd (hbefore j hj hji) (Nat.lt_irrefl _)
    · rcases Nat.lt_or_eq_of_le hij with hij | rfl
      · exact (hwrites i j hi hj hij).trans_lt hlt
      · exact hlt

/-! ### Recordings -/

end

theorem Filled.addEvent_iff (hordered : p.Ordered) (ev : Event ν) :
    (p.addEvent ev).Filled ↔ p.Filled ∧ (ev.code = .output → ev.data ≠ []) := by
  rw [Filled, bounds_addEvent]
  split
  · rename_i hcode
    have hdata : ev.data ≠ [] ↔ 0 < (Utf8.encode ev.data).length := by
      cases ev.data with
      | nil => simp
      | cons c cs => simp [Utf8.encode_cons, String.length_utf8EncodeChar, Char.utf8Size_pos]
    rw [pairwise_append, hdata]
    constructor
    · rintro ⟨hfilled, -, hlt⟩
      refine ⟨hfilled, fun _ => ?_⟩
      have := hlt _ (length_mem_bounds p) _ (List.mem_singleton_self _)
      omega
    · rintro ⟨hfilled, hlt⟩
      refine ⟨hfilled, List.pairwise_singleton .., fun a ha b hb => ?_⟩
      rw [mem_singleton.mp hb]
      have := hordered.le ha
      have := hlt hcode
      omega
  · rename_i hcode
    exact ⟨fun h => ⟨h, fun hout => absurd hout hcode⟩, And.left⟩

theorem Filled.foldl_iff (hordered : p.Ordered) (events : List (Event ν)) : (events.foldl addEvent p).Filled ↔
    p.Filled ∧ ∀ ev ∈ events, ev.code = .output → ev.data ≠ [] := by
  induction events generalizing p with
  | nil => simp
  | cons ev events ih => rw [List.foldl_cons, ih (hordered.addEvent ev), Filled.addEvent_iff hordered, List.forall_mem_cons, and_assoc]

section

variable [GraphicsStore γ] (N : Numbers ν) (withinGap : ν → ν → Bool) (header : Header) (events : List (Event ν))

theorem placed_ofRecording : (ofRecording N withinGap header events : Player γ ν).Placed := by
  refine List.foldlRecOn (motive := Placed) events addEvent ⟨.nil, fun _ h => nomatch h⟩ fun p h ev _ => ?_
  rw [addEvent]
  split
  · exact ⟨h.1, fun s hs => by rw [List.length_append]; exact Nat.le_add_right_of_le (h.2 s hs)⟩
  · split
    · refine ⟨pairwise_append.mpr ⟨h.1, List.pairwise_singleton .., fun a ha b hb => ?_⟩, fun s hs => ?_⟩
      · rw [mem_singleton.mp hb]
        exact h.2 a ha
      · rcases List.mem_append.mp hs with hs | hs
        · exact h.2 s hs
        · rw [mem_singleton.mp hs]
    · exact h
  · exact h
  · exact h
  · exact h

theorem atWrite_ofRecording : (ofRecording N withinGap header events : Player γ ν).AtWrite 0 := by
  rw [AtWrite, (ofRecording_start N withinGap header events).1]
  refine List.foldlRecOn (motive := fun p : Player γ ν => p.bounds[0]? = some 0) events addEvent rfl fun p h ev _ => ?_
  rw [bounds_addEvent]
  split
  · rw [List.getElem?_append_left (List.getElem?_eq_some_iff.mp h).1, h]
  · exact h

/-- **Position, count and search agree exactly on writes with data.** -/
theorem agrees_iff : (ofRecording N withinGap header events : Player γ ν).Agrees ↔
    ∀ ev ∈ events, ev.code = .output → ev.data ≠ [] := by
  have hordered := ordered_ofRecording (γ := γ) N withinGap header events
  have hplaced := placed_ofRecording (γ := γ) N withinGap header events
  have hat := atWrite_ofRecording (γ := γ) N withinGap header events
  have hstart := ofRecording_start (γ := γ) N withinGap header events
  have hiff : (ofRecording N withinGap header events : Player γ ν).Filled ↔ ∀ ev ∈ events, ev.code = .output → ev.data ≠ [] := by
    refine (Filled.foldl_iff ?_ events).trans ⟨And.right, fun h => ⟨List.pairwise_singleton .., h⟩⟩
    exact List.pairwise_singleton ..
  generalize (ofRecording N withinGap header events : Player γ ν) = p₀ at *
  have hfed : Fed p₀ p₀ := by
    refine ⟨rfl, by rw [hstart.1]; exact Nat.zero_le _, .inl ?_⟩
    rw [hstart.1, hstart.2]
    exact ⟨rfl, (List.countP_eq_zero.mpr fun _ _ h => absurd (of_decide_eq_true h) (Nat.not_lt_zero _)).symm⟩
  rw [← hiff]
  constructor
  · intro h
    exact filled_of_index hordered (List.mem_of_getElem? hat) h.index
  · intro hfilled
    refine hfilled.agrees hplaced hordered hfed hat fun fuel calls q hq hnil => ?_
    cases calls with
    | nil =>
      cases hq
      have hend := hnil rfl
      rw [AtEnd] at hend
      rw [replayed, if_neg hend, hstart.1]
      rfl
    | cons => exact (steps_replayed hplaced hfed hq).2 (List.cons_ne_nil _ _)

end

/-- A write without data before another: after one step the count is two. -/
theorem index_counts_empty_write :
    let N : Numbers ℕ := ⟨0, fun _ => none, fun _ => [], fun _ => none⟩
    ¬ (ofRecording N (fun next cur => next ≤ cur + 100) ⟨2, 80, 24, none⟩
      [⟨0, .output, []⟩, ⟨10, .output, ['a']⟩, ⟨20, .output, ['b']⟩] : Player Unit ℕ).Agrees := by
  intro N h
  have hindex := h.index 1 (by decide)
  revert hindex
  decide +kernel

end Player

end Posh.Recording
