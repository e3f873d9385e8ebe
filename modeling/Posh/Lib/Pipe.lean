/-
**A lossless pipe.**

What a reliable byte stream is for, said without any protocol: a list of symbols that the writer
extends at its end, and a count of how many of them, from the front, the reader has been handed.
The reader's view `Pipe.read` is therefore always a prefix of what was written: nothing is lost,
duplicated or reordered, by construction.  The protocols that implement a pipe over a bad network
are related to it by a simulation.

Main results:

* `Pipe.read_prefix` — the reader's view is a prefix of what was written;
* `Pipe.read_mono` — the reader never takes a symbol back;
* `Pipe.exec_of_extends` — a pipe can do whatever extends both views and keeps the reader's a
  prefix of the writer's;
* `Pipe.simulates` — **so it simulates every system whose two histories behave so**.
-/

import Posh.Lib.Runs

set_option autoImplicit false

/-- A pipe: what was written, and how many symbols of it were handed to the reader. -/
@[ext] structure Pipe (α : Type*) where
  /-- everything written so far -/
  written : List α
  /-- how many symbols the reader was handed -/
  taken : ℕ
  /-- only written symbols are handed over -/
  taken_le : taken ≤ written.length

namespace Pipe

open Runs

variable {α : Type*} {p q : Pipe α}

/-- What the reader has been handed. -/
def read (p : Pipe α) : List α := p.written.take p.taken

/-- The pipe before anything was written. -/
def empty : Pipe α := ⟨[], 0, Nat.le_refl 0⟩

/-- What can happen to a pipe. -/
inductive Act (α : Type*) where
  /-- the writer appends `xs` -/
  | write (xs : List α)
  /-- the reader is handed the next `n` symbols -/
  | take (n : ℕ)

/-- One action on a pipe; the reader cannot take what was not written. -/
def step (p : Pipe α) : Act α → Option (Pipe α)
  | .write xs => some ⟨p.written ++ xs, p.taken, by
      rw [List.length_append]; exact Nat.le_add_right_of_le p.taken_le⟩
  | .take n =>
    if h : p.taken + n ≤ p.written.length then some ⟨p.written, p.taken + n, h⟩ else none

@[simp] theorem read_empty : (empty : Pipe α).read = [] := rfl

/-- **The reader's view is a prefix of what was written.** -/
theorem read_prefix (p : Pipe α) : p.read <+: p.written := List.take_prefix _ _

theorem length_read (p : Pipe α) : p.read.length = p.taken := by
  rw [read, List.length_take, Nat.min_eq_left p.taken_le]

theorem step_spec {a : Act α} (h : step p a = some q) : p.written <+: q.written ∧ p.read <+: q.read := by
  cases a with
  | write xs =>
    simp only [step, Option.some.injEq] at h
    subst h
    have hread : (p.written ++ xs).take p.taken = p.read :=
      List.take_append_of_le_length p.taken_le
    exact ⟨List.prefix_append _ _, hread.symm ▸ List.prefix_refl _⟩
  | take n =>
    simp only [step] at h
    split at h
    · rw [Option.some.injEq] at h
      subst h
      exact ⟨List.prefix_refl _, List.take_prefix_take_left (Nat.le_add_right _ _)⟩
    · exact absurd h (by simp)

/-- **The reader never takes a symbol back.** -/
theorem read_mono {as : List (Act α)} (h : exec step p as = some q) : p.read <+: q.read := by
  refine exec_invariant (I := fun r => p.read <+: r.read) ?_ (List.prefix_refl _) h
  intro r a r' hr hstep
  exact hr.trans (step_spec hstep).2

/-! ### Implementing a pipe -/

theorem exec_of_extends {p : Pipe α} {w r : List α} (hw : p.written <+: w) (hr : p.read <+: r)
    (hrw : r <+: w) : ∃ as q, exec step p as = some q ∧ q.written = w ∧ q.read = r := by
  obtain ⟨ws, rfl⟩ := hw
  have hlen : p.taken ≤ r.length := length_read p ▸ hr.length_le
  have hfit : p.taken + (r.length - p.taken) ≤ (p.written ++ ws).length := by
    rw [Nat.add_sub_cancel' hlen]
    exact hrw.length_le
  refine ⟨[.write ws, .take (r.length - p.taken)], ⟨p.written ++ ws, _, hfit⟩, ?_, rfl, ?_⟩
  · rw [exec_cons, step, Option.bind_some, exec_singleton, step, dif_pos hfit]
  · show (p.written ++ ws).take (p.taken + (r.length - p.taken)) = r
    rw [Nat.add_sub_cancel' hlen]
    exact (List.prefix_iff_eq_take.1 hrw).symm

/-- **Implementing a pipe.**  A system whose steps only extend what was written and what was read,
and in which the second stays a prefix of the first, is simulated by a pipe. -/
theorem simulates {σ β : Type*} {sys : σ → β → Option σ} {I : σ → Prop} (writtenOf readOf : σ → List α)
    (hI : ∀ s b t, I s → sys s b = some t → I t)
    (hmono : ∀ s b t, I s → sys s b = some t → writtenOf s <+: writtenOf t ∧ readOf s <+: readOf t)
    (hpre : ∀ s, I s → readOf s <+: writtenOf s)
    {bs : List β} {s t : σ} {p : Pipe α} (hs : I s) (hw : p.written = writtenOf s)
    (hr : p.read = readOf s) (hrun : exec sys s bs = some t) :
    ∃ as q, exec step p as = some q ∧ q.written = writtenOf t ∧ q.read = readOf t := by
  have hsim : ∀ u b v (q : Pipe α), (I u ∧ q.written = writtenOf u ∧ q.read = readOf u) →
      sys u b = some v → ∃ as q', exec step q as = some q' ∧
        I v ∧ q'.written = writtenOf v ∧ q'.read = readOf v := by
    rintro u b v q ⟨hu, hqw, hqr⟩ hstep
    have hv := hI u b v hu hstep
    obtain ⟨hwm, hrm⟩ := hmono u b v hu hstep
    obtain ⟨as, q', hq', hw', hr'⟩ := exec_of_extends (hqw ▸ hwm) (hqr ▸ hrm) (hpre v hv)
    exact ⟨as, q', hq', hv, hw', hr'⟩
  obtain ⟨as, q, hq, -, hqw, hqr⟩ := exec_simulation hsim ⟨hs, hw, hr⟩ hrun
  exact ⟨as, q, hq, hqw, hqr⟩

end Pipe
