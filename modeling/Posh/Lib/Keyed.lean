/-
**Lists of records that are found by a key.**

A table kept as a list in no particular order: a record is found, replaced or taken out by its key, and no
two records have the same one.  What is found then does not depend on the order.

Main results:

* `Keyed.lookup_eq_some` — what is found is what is there;
* `Keyed.lookup_updateFirst`, `Keyed.lookup_eraseP_self`, `Keyed.lookup_eraseP_of_ne` — what is found
  after a change;
* `Keyed.lookup_perm` — the order does not matter;
* `Keyed.mem_eraseP`, `Keyed.sum_eraseP` — what is left when a record is taken out, and what it weighs;
* `Keyed.sum_lookup` — what is found under every key, weighed together, is what is there;
* `Keyed.sum_le_sum` — records that weigh no more one by one weigh no more together.
-/

import Mathlib.Algebra.GroupWithZero.Nat
import Mathlib.Data.List.Nodup

set_option autoImplicit false

namespace Keyed

open List (find?_cons map_cons mem_cons nodup_cons sum_cons)

section Update

variable {α κ : Type*} {key : α → κ} {l : List α} {p : α → Bool} {f : α → α}

/-- The first record of which `p` holds is changed. -/
def updateFirst (p : α → Bool) (f : α → α) : List α → List α
  | [] => []
  | x :: xs => if p x then f x :: xs else x :: updateFirst p f xs

theorem map_updateFirst (hf : ∀ x, p x = true → key (f x) = key x) : (updateFirst p f l).map key = l.map key := by
  induction l with
  | nil => rfl
  | cons y l ih =>
    unfold updateFirst
    split
    case isTrue hy => rw [map_cons, map_cons, hf y hy]
    case isFalse => rw [map_cons, map_cons, ih]

theorem mem_updateFirst {x : α} (h : x ∈ updateFirst p f l) : x ∈ l ∨ ∃ y ∈ l, x = f y := by
  induction l with
  | nil => cases h
  | cons y l ih =>
    unfold updateFirst at h
    split at h
    · rcases mem_cons.1 h with rfl | h
      · exact .inr ⟨y, .head _, rfl⟩
      · exact .inl (.tail _ h)
    · rcases mem_cons.1 h with rfl | h
      · exact .inl (.head _)
      · rcases ih h with h | ⟨z, hz, rfl⟩
        · exact .inl (.tail _ h)
        · exact .inr ⟨z, .tail _ hz, rfl⟩

theorem perm_eraseP {x : α} (h : l.find? p = some x) : l.Perm (x :: l.eraseP p) := by
  induction l with
  | nil => cases h
  | cons y l ih =>
    cases hy : p y with
    | true =>
      rw [find?_cons, hy] at h
      rw [← Option.some.inj h, List.eraseP_cons_of_pos hy]
    | false =>
      rw [find?_cons, hy] at h
      rw [List.eraseP_cons_of_neg (by rw [hy]; exact Bool.false_ne_true)]
      exact ((ih h).cons y).trans (.swap x y _)

theorem perm_updateFirst {x : α} (y : α) (h : l.find? p = some x) :
    (updateFirst p (fun _ => y) l).Perm (y :: l.eraseP p) := by
  induction l with
  | nil => cases h
  | cons z l ih =>
    unfold updateFirst
    cases hz : p z with
    | true =>
      rw [if_pos rfl, List.eraseP_cons_of_pos hz]
    | false =>
      rw [find?_cons, hz] at h
      rw [if_neg Bool.false_ne_true, List.eraseP_cons_of_neg (by rw [hz]; exact Bool.false_ne_true)]
      exact ((ih h).cons z).trans (.swap y z _)

theorem nodup_eraseP (hnodup : (l.map key).Nodup) : ((l.eraseP p).map key).Nodup :=
  hnodup.sublist (List.eraseP_sublist.map _)

theorem sum_updateFirst {x : α} (weight : α → ℕ) (h : l.find? p = some x) :
    ((updateFirst p f l).map weight).sum + weight x = (l.map weight).sum + weight (f x) := by
  induction l with
  | nil => cases h
  | cons y l ih =>
    unfold updateFirst
    rw [find?_cons] at h
    split
    case isTrue hy =>
      rw [hy] at h
      rw [Option.some.inj h, map_cons, map_cons, sum_cons, sum_cons]
      omega
    case isFalse hy =>
      rw [Bool.not_eq_true] at hy
      rw [hy] at h
      rw [map_cons, map_cons, sum_cons, sum_cons]
      have := ih h
      omega

theorem sum_le_sum {β : Type*} {m : List β} (keyB : β → κ) (weight : α → ℕ) (weightB : β → ℕ)
    (hnodup : (l.map key).Nodup) (h : ∀ x ∈ l, ∃ y ∈ m, keyB y = key x ∧ weight x ≤ weightB y) :
    (l.map weight).sum ≤ (m.map weightB).sum := by
  induction l generalizing m with
  | nil => exact Nat.zero_le _
  | cons x l ih =>
    rw [map_cons, nodup_cons] at hnodup
    obtain ⟨y, hy, hkey, hle⟩ := h x List.mem_cons_self
    obtain ⟨s, t, rfl⟩ := List.append_of_mem hy
    have hrest : ∀ z ∈ l, ∃ y' ∈ s ++ t, keyB y' = key z ∧ weight z ≤ weightB y' := by
      intro z hz
      obtain ⟨y', hy', hkey', hle'⟩ := h z (List.mem_cons_of_mem _ hz)
      refine ⟨y', ?_, hkey', hle'⟩
      have hne : y' ≠ y := by
        rintro rfl
        exact hnodup.1 (hkey ▸ hkey' ▸ List.mem_map_of_mem hz)
      simp only [List.mem_append, mem_cons] at hy' ⊢
      rcases hy' with hs | rfl | ht
      · exact .inl hs
      · exact absurd rfl hne
      · exact .inr ht
    have hsum := ih hnodup.2 hrest
    simp only [List.map_append, map_cons, List.sum_append, sum_cons] at hsum ⊢
    omega

end Update

variable {α κ : Type*} [DecidableEq κ] {key : α → κ} {l l' : List α} {k : κ} {x : α} {f : α → α}

/-- The first record with the key `k`. -/
def lookup (key : α → κ) (l : List α) (k : κ) : Option α := l.find? fun x => key x == k

theorem lookup_cons : lookup key (x :: l) k = if key x = k then some x else lookup key l k := by
  rw [lookup, find?_cons, lookup]
  by_cases h : key x = k
  · simp [h]
  · have hb : (key x == k) = false := by simpa using h
    simp [h, hb]

theorem key_of_lookup (h : lookup key l k = some x) : key x = k := by
  simpa using List.find?_some h

theorem mem_of_lookup (h : lookup key l k = some x) : x ∈ l := List.mem_of_find?_eq_some h

theorem lookup_eq_none : lookup key l k = none ↔ k ∉ l.map key := by
  simp [lookup, List.find?_eq_none]

/-- **What is found is what is there.** -/
theorem lookup_eq_some (hnodup : (l.map key).Nodup) : lookup key l k = some x ↔ x ∈ l ∧ key x = k := by
  constructor
  · intro h
    exact ⟨mem_of_lookup h, key_of_lookup h⟩
  · rintro ⟨hx, rfl⟩
    cases h : lookup key l (key x) with
    | none => exact absurd (List.mem_map_of_mem hx) (lookup_eq_none.1 h)
    | some y =>
      rw [List.inj_on_of_nodup_map hnodup (mem_of_lookup h) hx (key_of_lookup h)]

theorem lookup_append : lookup key (l ++ l') k = (lookup key l k).or (lookup key l' k) := by
  rw [lookup, List.find?_append]
  rfl

/-- **The order does not matter.** -/
theorem lookup_perm (h : l.Perm l') (hnodup : (l.map key).Nodup) (k : κ) : lookup key l k = lookup key l' k := by
  have hnodup' : (l'.map key).Nodup := (h.map key).nodup_iff.1 hnodup
  cases hx : lookup key l' k with
  | none =>
    rw [lookup_eq_none] at hx ⊢
    exact fun hmem => hx ((h.map key).mem_iff.1 hmem)
  | some x =>
    rw [lookup_eq_some hnodup'] at hx
    exact (lookup_eq_some hnodup).2 ⟨h.mem_iff.2 hx.1, hx.2⟩

theorem lookup_map (key : α → κ) (hf : ∀ x, key (f x) = key x) :
    lookup key (l.map f) k = (lookup key l k).map f := by
  rw [lookup, List.find?_map, lookup]
  congr 2
  funext x
  simp [hf]

theorem lookup_updateFirst (key : α → κ) {p : α → Bool}
    (hf : ∀ x, p x = true → key (f x) = key x) (hnodup : (l.map key).Nodup) :
    lookup key (updateFirst p f l) k = match l.find? p with
      | some y => if key y = k then some (f y) else lookup key l k
      | none => lookup key l k := by
  induction l with
  | nil => rfl
  | cons y l ih =>
    rw [map_cons, nodup_cons] at hnodup
    unfold updateFirst
    cases hp : p y with
    | true =>
      rw [if_pos rfl, find?_cons, hp]
      simp only [lookup_cons, hf y hp]
      split <;> rfl
    | false =>
      rw [if_neg Bool.false_ne_true, lookup_cons, ih hnodup.2, find?_cons, hp]
      simp only [lookup_cons]
      split
      case isFalse => rfl
      case isTrue hy =>
        cases hz : l.find? p with
        | none => rfl
        | some z =>
          have hne : key z ≠ k := fun heq =>
            hnodup.1 (hy ▸ heq ▸ List.mem_map_of_mem (List.mem_of_find?_eq_some hz))
          simp only [hne, if_false]

theorem lookup_eraseP_self (hnodup : (l.map key).Nodup) :
    lookup key (l.eraseP fun x => key x == k) k = none := by
  rw [lookup_eq_none]
  induction l with
  | nil => simp
  | cons y l ih =>
    rw [map_cons, nodup_cons] at hnodup
    by_cases hy : key y = k
    · rw [List.eraseP_cons_of_pos (by simpa using hy), ← hy]
      exact hnodup.1
    · rw [List.eraseP_cons_of_neg (by simpa using hy), map_cons, mem_cons, not_or]
      exact ⟨fun h => hy h.symm, ih hnodup.2⟩

theorem lookup_eraseP_of_ne {k' : κ} (hne : k ≠ k') :
    lookup key (l.eraseP fun x => key x == k') k = lookup key l k := by
  induction l with
  | nil => rfl
  | cons y l ih =>
    by_cases hy : key y = k'
    · rw [List.eraseP_cons_of_pos (by simpa using hy), lookup_cons, if_neg fun h => hne (h.symm.trans hy)]
    · rw [List.eraseP_cons_of_neg (by simpa using hy), lookup_cons, lookup_cons, ih]

theorem mem_eraseP (hnodup : (l.map key).Nodup) :
    x ∈ l.eraseP (fun y => key y == k) ↔ x ∈ l ∧ key x ≠ k := by
  constructor
  · intro h
    refine ⟨List.mem_of_mem_eraseP h, ?_⟩
    rintro rfl
    have hnone := lookup_eq_none.1 (lookup_eraseP_self hnodup (k := key x))
    exact hnone (List.mem_map_of_mem h)
  · rintro ⟨hx, hne⟩
    exact (List.mem_eraseP_of_neg (by simpa using hne)).2 hx

theorem sum_eraseP (weight : α → ℕ) :
    ((l.eraseP fun y => key y == k).map weight).sum + ((lookup key l k).map weight).getD 0 = (l.map weight).sum := by
  cases h : lookup key l k with
  | none =>
    have hkeep : ∀ y ∈ l, ¬ (key y == k) = true := by simpa [lookup] using h
    rw [List.eraseP_of_forall_not hkeep]
    rfl
  | some y =>
    have hsum := ((perm_eraseP h).map weight).sum_nat
    rw [map_cons, sum_cons] at hsum
    rw [hsum, Nat.add_comm]
    rfl

/-- **What is found under every key, weighed together, is what is there.** -/
theorem sum_lookup (weight : α → ℕ) {ks : List κ} (hks : ks.Nodup) (hnodup : (l.map key).Nodup)
    (hsub : ∀ x ∈ l, key x ∈ ks) :
    (ks.map fun k => ((lookup key l k).map weight).getD 0).sum = (l.map weight).sum := by
  induction l with
  | nil =>
    show (ks.map fun _ => 0).sum = 0
    rw [List.map_const', List.sum_replicate_nat, Nat.mul_zero]
  | cons x l ih =>
    rw [map_cons, nodup_cons] at hnodup
    have hrest := ih hnodup.2 fun y hy => hsub y (List.mem_cons_of_mem x hy)
    -- the key of the first record is one of the keys, and of no other record
    have hperm := List.perm_cons_erase (hsub x List.mem_cons_self)
    have hout : key x ∉ ks.erase (key x) := hks.not_mem_erase
    have hnone : lookup key l (key x) = none := lookup_eq_none.2 hnodup.1
    have hsum := (hperm.map fun k => ((lookup key l k).map weight).getD 0).sum_nat
    have hsum' := (hperm.map fun k => ((lookup key (x :: l) k).map weight).getD 0).sum_nat
    have hsame : (ks.erase (key x)).map (fun k => ((lookup key (x :: l) k).map weight).getD 0) =
        (ks.erase (key x)).map fun k => ((lookup key l k).map weight).getD 0 := by
      refine List.map_congr_left fun k hk => ?_
      rw [lookup_cons, if_neg]
      rintro rfl
      exact hout hk
    rw [map_cons, sum_cons, hsame, lookup_cons, if_pos rfl, Option.map_some, Option.getD_some] at hsum'
    rw [map_cons, sum_cons, hnone, Option.map_none, Option.getD_none] at hsum
    rw [hsum', map_cons, sum_cons]
    omega

end Keyed
