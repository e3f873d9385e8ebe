/-
**A register of clients, with a counter and a table of routes.**

Each client of a service has a name, may hold a reference to the service, and may own a key.  The service does
not look through its clients: it keeps how many references are held, and for every key who owns it.  Here is
what keeps the two true to the register: a reference is taken or dropped together with the counter, a key
together with its route, and a client leaves when it has neither.  The order of the clients does not matter.

Main results:

* `Registry.Kept.arrive`, `Registry.Kept.leave`, `Registry.Kept.hold`, `Registry.Kept.drop`,
  `Registry.Kept.own`, `Registry.Kept.disown`, `Registry.Kept.release` — **the rules**;
* `Registry.Kept.eq_of_owns` — no key has two owners;
* `Registry.Kept.rebuilt` — routes that were lost can be rebuilt.
-/

import Mathlib.Data.List.Nodup

set_option autoImplicit false

namespace Registry

open Function (update update_of_ne update_self)

structure Entry (ι κ : Type*) where
  id : ι
  /-- it holds a reference -/
  holds : Bool := false
  /-- the key it owns -/
  owns : Option κ := none
  deriving DecidableEq

variable {ι κ : Type*}

/-- **Counter and routes are true to the register.** -/
structure Kept (es : List (Entry ι κ)) (count : ℕ) (routes : κ → Option ι) : Prop where
  ids : (es.map (·.id)).Nodup
  count : count = es.countP (·.holds)
  routes : ∀ k i, routes k = some i ↔ ∃ e ∈ es, e.id = i ∧ e.owns = some k

section Rules

variable {es es' : List (Entry ι κ)} {e d : Entry ι κ} {count : ℕ} {routes : κ → Option ι} {i : ι} {k : κ}

theorem kept_nil : Kept ([] : List (Entry ι κ)) 0 fun _ => none where
  ids := List.nodup_nil
  count := rfl
  routes := by simp

theorem Kept.perm (h : Kept es count routes) (hperm : es.Perm es') : Kept es' count routes where
  ids := (hperm.map _).nodup_iff.1 h.ids
  count := h.count.trans (hperm.countP_eq _)
  routes := by
    intro k i
    rw [h.routes]
    exact exists_congr fun e => and_congr_left fun _ => hperm.mem_iff

theorem Kept.eq_of_id (h : Kept es count routes) (he : e ∈ es) (hd : d ∈ es) (heq : e.id = d.id) : e = d :=
  List.inj_on_of_nodup_map h.ids he hd heq

/-- **No key has two owners.** -/
theorem Kept.eq_of_owns (h : Kept es count routes) (he : e ∈ es) (hd : d ∈ es) (hek : e.owns = some k)
    (hdk : d.owns = some k) : e = d := by
  have hroute : routes k = some e.id := (h.routes k e.id).2 ⟨e, he, rfl, hek⟩
  have hroute' : routes k = some d.id := (h.routes k d.id).2 ⟨d, hd, rfl, hdk⟩
  rw [hroute, Option.some.injEq] at hroute'
  exact h.eq_of_id he hd hroute'

theorem Kept.arrive (h : Kept es count routes) (hi : i ∉ es.map (·.id)) :
    Kept ({ id := i } :: es) count routes where
  ids := List.nodup_cons.2 ⟨hi, h.ids⟩
  count := h.count
  routes := by
    intro k j
    rw [h.routes]
    simp

theorem Kept.leave (h : Kept (e :: es) count routes) (hholds : e.holds = false) (howns : e.owns = none) :
    Kept es count routes where
  ids := (List.nodup_cons.1 h.ids).2
  count := by
    rw [h.count, List.countP_cons, hholds]
    rfl
  routes := by
    intro k j
    rw [h.routes]
    simp [howns]

theorem Kept.hold (h : Kept (e :: es) count routes) (hholds : e.holds = false) :
    Kept ({ e with holds := true } :: es) (count + 1) routes where
  ids := h.ids
  count := by
    rw [h.count, List.countP_cons, List.countP_cons, hholds]
    rfl
  routes := fun k i => (h.routes k i).trans (by simp)

theorem Kept.drop (h : Kept (e :: es) count routes) (hholds : e.holds = true) :
    Kept ({ e with holds := false } :: es) (count - 1) routes where
  ids := h.ids
  count := by
    rw [h.count, List.countP_cons, List.countP_cons, hholds]
    rfl
  routes := fun k i => (h.routes k i).trans (by simp)

variable [DecidableEq κ]

theorem Kept.own (h : Kept (e :: es) count routes) (howns : e.owns = none) (hk : routes k = none) :
    Kept ({ e with owns := some k } :: es) count (update routes k (some e.id)) where
  ids := h.ids
  count := h.count
  routes := by
    intro j i
    rcases eq_or_ne j k with rfl | hne
    · rw [update_self, Option.some.injEq]
      constructor
      · exact fun hid => ⟨_, .head _, hid, rfl⟩
      · rintro ⟨x, hx, hid, hxj⟩
        rcases List.mem_cons.1 hx with rfl | hx
        · exact hid
        · rw [(h.routes j i).2 ⟨x, .tail _ hx, hid, hxj⟩] at hk
          cases hk
    · rw [update_of_ne hne, h.routes]
      simp [howns, hne.symm]

theorem Kept.disown (h : Kept (e :: es) count routes) (howns : e.owns = some k) :
    Kept ({ e with owns := none } :: es) count (update routes k none) where
  ids := h.ids
  count := h.count
  routes := by
    intro j i
    rcases eq_or_ne j k with rfl | hne
    · rw [update_self]
      refine iff_of_false nofun ?_
      rintro ⟨x, hx, _, hxj⟩
      rcases List.mem_cons.1 hx with rfl | hx
      · cases hxj
      · have heq := h.eq_of_owns (.head _) (.tail _ hx) howns hxj
        exact (List.nodup_cons.1 h.ids).1 (List.mem_map.2 ⟨x, hx, by rw [heq]⟩)
    · rw [update_of_ne hne, h.routes]
      simp [howns, hne.symm]

theorem Kept.release (h : Kept (e :: es) count routes) :
    Kept es (if e.holds then count - 1 else count)
      (e.owns.elim routes fun k => update routes k none) := by
  have hdisowned : Kept ({ e with owns := none } :: es) count
      (e.owns.elim routes fun k => update routes k none) := by
    cases howns : e.owns with
    | none =>
      have hsame : ({ e with owns := none } : Entry ι κ) = e := by rw [← howns]
      rw [hsame]
      exact h
    | some k => exact h.disown howns
  split
  case isTrue hholds => exact (hdisowned.drop hholds).leave rfl rfl
  case isFalse hholds => exact hdisowned.leave (by simpa using hholds) rfl

/-- The routes, rebuilt from the register. -/
def routesOf (es : List (Entry ι κ)) : κ → Option ι :=
  es.foldl (fun routes e => e.owns.elim routes fun k => Function.update routes k (some e.id)) fun _ => none

/-- **Routes that were lost can be rebuilt.** -/
theorem Kept.rebuilt (h : Kept es count routes) : routesOf es = routes := by
  funext k
  -- no route that is put in is wrong, so that none overwrites another
  have hfold : ∀ (l : List (Entry ι κ)) (start : κ → Option ι), l ⊆ es →
      (∀ i, start k = some i → routes k = some i) → ∀ i,
      (l.foldl (fun routes e => e.owns.elim routes fun k => update routes k (some e.id))
        start k = some i ↔ start k = some i ∨ ∃ e ∈ l, e.id = i ∧ e.owns = some k) := by
    intro l
    induction l with
    | nil => simp
    | cons e l ih =>
      intro start hl hstart i
      obtain ⟨he, hl⟩ := List.cons_subset.1 hl
      rw [List.foldl_cons]
      by_cases howns : e.owns = some k
      · have hroute : routes k = some e.id := (h.routes k e.id).2 ⟨e, he, rfl, howns⟩
        rw [howns, Option.elim_some, ih _ hl (by simp [hroute])]
        constructor
        · rintro (hid | ⟨d, hd, hdi⟩)
          · rw [update_self, Option.some.injEq] at hid
            exact .inr ⟨e, .head _, hid, howns⟩
          · exact .inr ⟨d, .tail _ hd, hdi⟩
        · rintro (hi | ⟨d, hd, hid, hdk⟩)
          · rw [← hroute, hstart i hi] at *
            simp
          · rcases List.mem_cons.1 hd with rfl | hd
            · exact .inl (by rw [update_self, hid])
            · exact .inr ⟨d, hd, hid, hdk⟩
      · have hsame : (e.owns.elim start fun k => update start k (some e.id)) k = start k := by
          cases hk : e.owns with
          | none => rfl
          | some j =>
            rw [Option.elim_some]
            exact update_of_ne (by rintro rfl; exact howns hk) _ _
        rw [ih _ hl (by rw [hsame]; exact hstart), hsame]
        simp [howns]
  refine Option.ext fun i => ?_
  rw [routesOf, hfold es _ (List.Subset.refl es) (by simp) i, h.routes]
  simp

end Rules

end Registry
