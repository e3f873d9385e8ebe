/-
**Runs of an executable transition system.**

A system is a partial step function `step : σ → α → Option σ`: the action `a` is possible in the
state `s` exactly when `step s a` is `some _`, and every source of nondeterminism (which message is
delivered, which bytes are typed, when a timer fires) is part of the action.  A run is a finite list
of actions, so "in every interleaving" is a quantifier over lists, and a single interleaving is a
closed term that can be evaluated.

Main results:

* `Runs.exec_invariant` — **the invariant rule**;
* `Runs.exec_invariant_of_allOk` — the invariant rule for the runs whose steps meet a condition;
* `Runs.exec_iff_allOk` — a condition that each step must meet to keep a property is the condition
  under which whole runs keep it;
* `Runs.always_iff_allOk` — the condition under which a property holds in every state of a run;
* `Runs.exec_simulation` — a step-by-step simulation (one concrete step against any number of
  abstract ones) extends to runs.
-/

import Mathlib.Order.Defs.PartialOrder
import Mathlib.Tactic.Common

set_option autoImplicit false

namespace Runs

variable {σ τ α β : Type*} {step : σ → α → Option σ} {stepA : τ → β → Option τ} {ok : σ → α → Prop} {s t : σ}

/-! ### Runs -/

/-- The state that the actions `as` lead to from `s`; `none` when one of them is not possible. -/
def exec (step : σ → α → Option σ) : σ → List α → Option σ
  | s, [] => some s
  | s, a :: as => (step s a).bind fun t => exec step t as

@[simp] theorem exec_nil (s : σ) : exec step s [] = some s := rfl

theorem exec_cons (s : σ) (a : α) (as : List α) :
    exec step s (a :: as) = (step s a).bind fun t => exec step t as := rfl

variable {as : List α} {a : α} {I P : σ → Prop}

theorem exec_cons_eq_some : exec step s (a :: as) = some t ↔ ∃ m, step s a = some m ∧ exec step m as = some t := by
  rw [exec_cons, Option.bind_eq_some_iff]

@[simp] theorem exec_singleton (s : σ) (a : α) : exec step s [a] = step s a := by
  simp [exec_cons]

theorem exec_append (s : σ) (as bs : List α) :
    exec step s (as ++ bs) = (exec step s as).bind fun t => exec step t bs := by
  induction as generalizing s with
  | nil => rfl
  | cons a as ih =>
    rw [List.cons_append, exec_cons, exec_cons, Option.bind_assoc]
    exact congrArg _ (funext fun t => ih t)

theorem exec_append_eq_some {as bs : List α} :
    exec step s (as ++ bs) = some t ↔ ∃ m, exec step s as = some m ∧ exec step m bs = some t := by
  rw [exec_append, Option.bind_eq_some_iff]

/-! ### Invariants -/

/-- **The invariant rule.**  What every step preserves, every run preserves. -/
theorem exec_invariant {I : σ → Prop} (hstep : ∀ s a t, I s → step s a = some t → I t) :
    ∀ {as : List α} {s t : σ}, I s → exec step s as = some t → I t := by
  intro as
  induction as with
  | nil =>
    intro s t hI h
    rw [exec_nil, Option.some.injEq] at h
    exact h ▸ hI
  | cons a as ih =>
    intro s t hI h
    obtain ⟨m, hm, h⟩ := exec_cons_eq_some.1 h
    exact ih (hstep s a m hI hm) h

/-! ### Runs under a condition on their steps -/

/-- `AllOk ok step s as`: in the run of `as` from `s`, every action meets `ok` in the state in which
it is taken. -/
def AllOk (ok : σ → α → Prop) (step : σ → α → Option σ) : σ → List α → Prop
  | _, [] => True
  | s, a :: as => ok s a ∧ ∀ t, step s a = some t → AllOk ok step t as

@[simp] theorem allOk_nil (ok : σ → α → Prop) (s : σ) : AllOk ok step s [] := trivial

theorem allOk_cons_of_step (h : step s a = some t) : AllOk ok step s (a :: as) ↔ ok s a ∧ AllOk ok step t as := by
  refine and_congr_right fun _ => ⟨fun hall => hall t h, fun hall u hu => ?_⟩
  rw [h, Option.some.injEq] at hu
  exact hu ▸ hall

theorem allOk_cons_of_stuck {s : σ} (h : step s a = none) : AllOk ok step s (a :: as) ↔ ok s a := by
  refine ⟨fun hall => hall.1, fun hok => ⟨hok, fun t ht => ?_⟩⟩
  rw [h] at ht
  cases ht

theorem AllOk.mono {ok ok' : σ → α → Prop} (hok : ∀ s a, ok s a → ok' s a) :
    ∀ {as : List α} {s : σ}, AllOk ok step s as → AllOk ok' step s as := by
  intro as
  induction as with
  | nil => exact fun _ => trivial
  | cons a as ih => exact fun h => ⟨hok _ a h.1, fun t ht => ih (h.2 t ht)⟩

theorem allOk_of_forall {ok : α → Prop} :
    ∀ {as : List α} (s : σ), (∀ a ∈ as, ok a) → AllOk (fun _ => ok) step s as := by
  intro as
  induction as with
  | nil => exact fun _ _ => trivial
  | cons a as ih =>
    intro s h
    exact ⟨h a List.mem_cons_self, fun t _ => ih t fun b hb => h b (List.mem_cons_of_mem a hb)⟩

theorem AllOk.of_append {bs : List α} :
    ∀ {as : List α} {s : σ}, AllOk ok step s (as ++ bs) → AllOk ok step s as := by
  intro as
  induction as with
  | nil => exact fun _ => trivial
  | cons a as ih => exact fun h => ⟨h.1, fun t ht => ih (h.2 t ht)⟩

/-- A decidable condition on steps can be checked along a run. -/
instance decidableAllOk (ok : σ → α → Prop) [∀ s a, Decidable (ok s a)] (step : σ → α → Option σ) :
    ∀ (as : List α) (s : σ), Decidable (AllOk ok step s as)
  | [], s => isTrue (allOk_nil ok s)
  | a :: as, s =>
    match h : step s a with
    | some t =>
      have := decidableAllOk ok step as t
      decidable_of_iff _ (allOk_cons_of_step h).symm
    | none => decidable_of_iff _ (allOk_cons_of_stuck h).symm

/-- **The invariant rule for the runs whose steps meet `ok`.** -/
theorem exec_invariant_of_allOk {I : σ → Prop} (hstep : ∀ s a t, I s → ok s a → step s a = some t → I t) :
    ∀ {as : List α} {s t : σ}, I s → AllOk ok step s as → exec step s as = some t → I t := by
  intro as
  induction as with
  | nil =>
    intro s t hI _ h
    rw [exec_nil, Option.some.injEq] at h
    exact h ▸ hI
  | cons a as ih =>
    intro s t hI hok h
    obtain ⟨m, hm, h⟩ := exec_cons_eq_some.1 h
    exact ih (hstep s a m hI hok.1 hm) (hok.2 m hm) h

/-- **The exact condition of a run**: where, under the invariant, a step leads to `P` exactly from `P`
and when it meets `ok`, a run leads to `P` exactly from `P` and when all its steps meet `ok`. -/
theorem exec_iff_allOk (hI : ∀ s a t, I s → step s a = some t → I t)
    (hP : ∀ s a t, I s → step s a = some t → (P t ↔ P s ∧ ok s a)) :
    ∀ {as : List α} {s t : σ}, I s → exec step s as = some t → (P t ↔ P s ∧ AllOk ok step s as) := by
  intro as
  induction as with
  | nil =>
    intro s t _ h
    rw [exec_nil, Option.some.injEq] at h
    subst h
    exact (and_iff_left trivial).symm
  | cons a as ih =>
    intro s t hs h
    obtain ⟨m, hm, h⟩ := exec_cons_eq_some.1 h
    rw [ih (hI s a m hs hm) h, hP s a m hs hm, allOk_cons_of_step hm, and_assoc]

/-- **The exact condition of a run that keeps a property**: where, under the invariant, a step from a state
with `P` leads to `P` exactly when it meets `ok`, `P` holds in every state of a run exactly when all its steps
meet `ok`. -/
theorem always_iff_allOk (hI : ∀ s a t, I s → step s a = some t → I t)
    (hP : ∀ s a t, I s → P s → step s a = some t → (P t ↔ ok s a)) :
    ∀ {as : List α} {s t : σ}, I s → P s → exec step s as = some t →
      ((∀ bs, bs <+: as → ∀ m, exec step s bs = some m → P m) ↔ AllOk ok step s as) := by
  intro as
  induction as with
  | nil =>
    intro s t _ hs _
    refine iff_of_true ?_ trivial
    intro bs hbs m hm
    rw [List.prefix_nil.1 hbs, exec_nil, Option.some.injEq] at hm
    exact hm ▸ hs
  | cons a as ih =>
    intro s t hIs hs h
    obtain ⟨m, hm, hrest⟩ := exec_cons_eq_some.1 h
    rw [allOk_cons_of_step hm]
    constructor
    · intro hall
      have hPm : P m := hall [a] ⟨as, rfl⟩ m (by rw [exec_singleton, hm])
      refine ⟨(hP s a m hIs hs hm).1 hPm, (ih (hI s a m hIs hm) hPm hrest).1 ?_⟩
      intro bs hbs u hu
      exact hall (a :: bs) (List.cons_prefix_cons.2 ⟨rfl, hbs⟩) u (exec_cons_eq_some.2 ⟨m, hm, hu⟩)
    · rintro ⟨hok, hall⟩ bs hbs u hu
      cases bs with
      | nil =>
        rw [exec_nil, Option.some.injEq] at hu
        exact hu ▸ hs
      | cons b bs =>
        obtain ⟨rfl, hrun⟩ := List.cons_prefix_cons.1 hbs
        obtain ⟨m', hm', hu⟩ := exec_cons_eq_some.1 hu
        rw [hm, Option.some.injEq] at hm'
        subst hm'
        exact (ih (hI s b m hIs hm) ((hP s b m hIs hs hm).2 hok) hrest).2 hall bs hrun u hu

/-! ### Simulation -/

/-- **Simulation.**  When every concrete step is matched by abstract steps (none, one or several)
that restore the relation `R`, so is every concrete run. -/
theorem exec_simulation {R : σ → τ → Prop}
    (hstep : ∀ s a s' t, R s t → step s a = some s' → ∃ bs t', exec stepA t bs = some t' ∧ R s' t') :
    ∀ {as : List α} {s s' : σ} {t : τ}, R s t → exec step s as = some s' →
      ∃ bs t', exec stepA t bs = some t' ∧ R s' t' := by
  intro as
  induction as with
  | nil =>
    intro s s' t hR h
    rw [exec_nil, Option.some.injEq] at h
    exact ⟨[], t, rfl, h ▸ hR⟩
  | cons a as ih =>
    intro s s' t hR h
    obtain ⟨m, hm, h⟩ := exec_cons_eq_some.1 h
    obtain ⟨bs, u, hbs, hu⟩ := hstep s a m t hR hm
    obtain ⟨cs, t', hcs, ht'⟩ := ih hu h
    exact ⟨bs ++ cs, t', exec_append_eq_some.2 ⟨u, hbs, hcs⟩, ht'⟩

end Runs
