/-
**The books of a fragment receiver balance.**

The receiver counts the payload bytes that sit in all its assemblies in one number, which four places
adjust: a fragment is accepted, an instruction is complete, an assembly is evicted, an assembly is dropped
because it alone is too big.  Whatever fragments arrive, that number is what the slots hold, both bounds are
kept, and no subtraction goes below zero.
-/

import Mathlib.Data.Nat.PSub
import Posh.Reassembly

set_option autoImplicit false

namespace Posh

open Keyed
open Slots (filled)

/-! ### One assembly -/

namespace Partial

variable {p : Partial} {f : Fragment}

/-- The bytes of the contents in the slots. -/
def storedBytes (p : Partial) : ℕ := ((Slots.filled p.fragments).map List.length).sum

/-- The final fragment is known, and no slot up to it is empty. -/
def IsComplete (p : Partial) : Prop := p.total = some p.fragments.length ∧ none ∉ p.fragments

instance (p : Partial) : Decidable p.IsComplete :=
  inferInstanceAs (Decidable (p.total = some p.fragments.length ∧ none ∉ p.fragments))

/-- **What a partial instruction says about its slots**: its counters are right, there are no more slots
than an instruction may have, and it is not complete. -/
structure Sound (p : Partial) : Prop where
  arrived_eq : p.arrived = (Slots.filled p.fragments).length
  bytes_eq : p.bytes = p.storedBytes
  length_le : p.fragments.length ≤ maxFragments
  incomplete : ¬p.IsComplete

theorem sound_new : Sound {} where
  arrived_eq := rfl
  bytes_eq := rfl
  length_le := Nat.zero_le _
  incomplete := fun h => by cases h.1

theorem Sound.touch (h : p.Sound) (clock : UInt64) : Sound { p with touched := clock } :=
  ⟨h.arrived_eq, h.bytes_eq, h.length_le, h.incomplete⟩

theorem index_lt_of_not_rejects (h : p.rejects f = false) : f.num.toNat < maxFragments := by
  simp only [rejects, Bool.or_eq_false_iff, decide_eq_false_iff_not] at h
  omega

theorem filled_grow (p : Partial) (idx : ℕ) : filled (p.grow idx).fragments = filled p.fragments :=
  Slots.filled_append_none _ _

theorem length_grow (p : Partial) (idx : ℕ) :
    (p.grow idx).fragments.length = max p.fragments.length (idx + 1) := by
  rw [grow, List.length_append, List.length_replicate]
  omega

theorem slot_empty_iff (p : Partial) (f : Fragment) :
    (p.grow f.num.toNat).fragments[f.num.toNat]? = some none ↔ p.isDuplicate f = false := by
  rw [grow, isDuplicate]
  by_cases hlt : f.num.toNat < p.fragments.length
  · rw [List.getElem?_append_left hlt, List.getElem?_eq_getElem hlt]
    cases p.fragments[f.num.toNat] <;> simp
  · rw [List.getElem?_append_right (by omega), List.getElem?_eq_none (l := p.fragments) (by omega),
      List.getElem?_replicate, if_pos (by omega)]
    simp

theorem noteFinal_fields (p : Partial) (f : Fragment) :
    (p.noteFinal f).fragments = p.fragments ∧ (p.noteFinal f).arrived = p.arrived ∧
      (p.noteFinal f).bytes = p.bytes ∧ (p.noteFinal f).touched = p.touched := by
  rw [noteFinal]
  split <;> exact ⟨rfl, rfl, rfl, rfl⟩

theorem store_spec (harrived : p.arrived = (filled p.fragments).length) (hbytes : p.bytes = p.storedBytes) :
    (p.store f).arrived = (filled (p.store f).fragments).length ∧
      (p.store f).bytes = (p.store f).storedBytes ∧ (p.store f).fragments.length = p.fragments.length ∧
      (p.store f).bytes = p.bytes + if p.fragments[f.num.toNat]? = some none then f.contents.length else 0 := by
  rw [store]
  split
  case isTrue hempty =>
    have hperm := Slots.filled_set_perm (a := f.contents) hempty
    refine ⟨?_, ?_, List.length_set, rfl⟩
    · rw [hperm.length_eq, List.length_cons, harrived]
    · rw [storedBytes, (hperm.map _).sum_eq, List.map_cons, List.sum_cons]
      show p.bytes + _ = _
      rw [hbytes, storedBytes, Nat.add_comm]
  case isFalse => exact ⟨harrived, hbytes, rfl, rfl⟩

theorem Sound.put (h : p.Sound) (hrejects : p.rejects f = false) :
    (p.put f).arrived = (filled (p.put f).fragments).length ∧
      (p.put f).bytes = (p.put f).storedBytes ∧ (p.put f).fragments.length ≤ maxFragments ∧
      (p.put f).bytes = p.bytes + if p.isDuplicate f then 0 else f.contents.length := by
  have hidx := index_lt_of_not_rejects hrejects
  obtain ⟨hfragments, harrived, hbytes, -⟩ := (p.grow f.num.toNat).noteFinal_fields f
  have hfilled := p.filled_grow f.num.toNat
  have hlen := p.length_grow f.num.toNat
  have hmax := h.length_le
  obtain ⟨harrived', hbytes', hlen', hadded⟩ := store_spec (p := (p.grow f.num.toNat).noteFinal f)
    (f := f) (by rw [harrived, hfragments, hfilled]; exact h.arrived_eq)
    (by rw [hbytes, storedBytes, hfragments, hfilled]; exact h.bytes_eq)
  refine ⟨harrived', hbytes', by rw [hfragments] at hlen'; exact hlen'.trans_le (by omega), ?_⟩
  rw [hfragments, hbytes] at hadded
  rw [Partial.put, hadded]
  show p.bytes + _ = p.bytes + _
  congr 1
  have hslot := p.slot_empty_iff f
  by_cases hdup : p.isDuplicate f = true
  · rw [if_neg (by rw [hslot, hdup]; simp), if_pos hdup]
  · rw [Bool.not_eq_true] at hdup
    rw [if_pos (hslot.mpr hdup), if_neg (by rw [hdup]; simp)]

theorem isComplete_iff (harrived : p.arrived = (filled p.fragments).length) :
    p.IsComplete ↔ p.total = some p.arrived ∧ p.fragments.length = p.arrived := by
  rw [IsComplete, ← Slots.length_filled_eq_iff, ← harrived]
  constructor
  · rintro ⟨htotal, hlen⟩
    exact ⟨by rw [htotal, hlen], hlen.symm⟩
  · rintro ⟨htotal, hlen⟩
    exact ⟨by rw [htotal, hlen], hlen.symm⟩

/-- **An accepted fragment**, in its slot or as the last missing one. -/
theorem Sound.add (h : p.Sound) (hrejects : p.rejects f = false) :
    (p.add f).1.bytes = p.bytes + (if p.isDuplicate f then 0 else f.contents.length) ∧
      (((p.add f).2.isSome = true ∧ (p.put f).IsComplete) ∨
        ((p.add f).2 = none ∧ (p.add f).1 = p.put f ∧ (p.put f).Sound)) := by
  obtain ⟨harrived, hbytes, hlen, hadded⟩ := h.put hrejects
  rw [Partial.add]
  split
  case isTrue hdone => exact ⟨hadded, .inl ⟨rfl, (isComplete_iff harrived).mpr hdone⟩⟩
  case isFalse hmore =>
    exact ⟨hadded, .inr ⟨rfl, rfl, harrived, hbytes, hlen, fun hdone =>
      hmore ((isComplete_iff harrived).mp hdone)⟩⟩

end Partial

/-! ### The receiver -/

namespace FragmentAssembly

variable {a a' : FragmentAssembly} {f : Fragment} {p p' : Partial} {id : UInt64}

/-- **The books balance.** -/
structure Accounted (a : FragmentAssembly) : Prop where
  nodup : (a.assemblies.map Prod.fst).Nodup
  sound : ∀ e ∈ a.assemblies, e.2.Sound
  buffered_eq : a.buffered = (a.assemblies.map fun e => e.2.storedBytes).sum
  buffered_le : a.buffered ≤ a.maxBytes
  length_le : a.assemblies.length ≤ a.maxAssemblies

/-- A receiver with bounds of its own. -/
def withLimits (maxAssemblies maxBytes : ℕ) : FragmentAssembly := { maxAssemblies, maxBytes }

theorem accounted_withLimits (maxAssemblies maxBytes : ℕ) :
    (withLimits maxAssemblies maxBytes).Accounted where
  nodup := List.nodup_nil
  sound := fun e he => by cases he
  buffered_eq := rfl
  buffered_le := Nat.zero_le _
  length_le := Nat.zero_le _

/-- The assembly that was updated longest ago, among all but one. -/
def victim (a : FragmentAssembly) (exclude : UInt64) : Option (UInt64 × Partial) :=
  (leastRecentlyUpdated exclude a.assemblies).bind fun i => a.assemblies[i]?

theorem foldl_older {older : Option ((UInt64 × Partial) × ℕ) → (UInt64 × Partial) × ℕ →
      Option ((UInt64 × Partial) × ℕ)}
    (holder : ∀ best e, older best e = best ∨ older best e = some e)
    (hsome : ∀ best e, (older best e).isSome) (es : List ((UInt64 × Partial) × ℕ))
    (best : Option ((UInt64 × Partial) × ℕ)) :
    (∀ e, es.foldl older best = some e → best = some e ∨ e ∈ es) ∧
      (es.foldl older best = none → best = none ∧ es = []) := by
  induction es generalizing best with
  | nil => exact ⟨fun e he => .inl he, fun h => ⟨h, rfl⟩⟩
  | cons x es ih =>
    obtain ⟨hfound, hnone⟩ := ih (older best x)
    rw [List.foldl_cons]
    constructor
    · intro e he
      rcases hfound e he with heq | hmem
      · rcases holder best x with hold | hnew
        · exact .inl (hold ▸ heq)
        · rw [hnew, Option.some.injEq] at heq
          exact .inr (heq ▸ List.mem_cons_self)
      · exact .inr (List.mem_cons_of_mem _ hmem)
    · intro he
      have := hsome best x
      rw [(hnone he).1] at this
      cases this

theorem leastRecentlyUpdated_spec (exclude : UInt64) (es : List (UInt64 × Partial)) :
    (∀ i, leastRecentlyUpdated exclude es = some i → ∃ e, es[i]? = some e ∧ e.1 ≠ exclude) ∧
      (leastRecentlyUpdated exclude es = none → ∀ e ∈ es, e.1 = exclude) := by
  obtain ⟨older, hdef, holder, hsome⟩ : ∃ older, leastRecentlyUpdated exclude es =
        ((es.zipIdx.filter fun e => e.1.1 != exclude).foldl older none).map Prod.snd ∧
      (∀ best e, older best e = best ∨ older best e = some e) ∧ ∀ best e, (older best e).isSome :=
    ⟨_, rfl, by intro best e; cases best <;> grind, by intro best e; cases best <;> grind⟩
  obtain ⟨hfound, hnone⟩ := foldl_older holder hsome (es.zipIdx.filter fun e => e.1.1 != exclude) none
  rw [hdef]
  constructor
  · intro i hi
    rw [Option.map_eq_some_iff] at hi
    obtain ⟨e, he, rfl⟩ := hi
    have hmem := (hfound e he).resolve_left (by simp)
    rw [List.mem_filter, List.mem_zipIdx_iff_getElem?] at hmem
    exact ⟨e.1, hmem.1, by simpa using hmem.2⟩
  · intro hi e he
    rw [Option.map_eq_none_iff] at hi
    obtain ⟨i, hlt, rfl⟩ := List.mem_iff_getElem.mp he
    by_contra hne
    have hmem : (es[i], i) ∈ es.zipIdx.filter fun e => e.1.1 != exclude := by
      rw [List.mem_filter, List.mem_zipIdx_iff_getElem?]
      exact ⟨List.getElem?_eq_getElem hlt, by simpa using hne⟩
    rw [(hnone hi).2] at hmem
    cases hmem

/-- **What eviction takes away**, and when there is nothing to take. -/
theorem evict_spec (a : FragmentAssembly) (exclude : UInt64) :
    (∃ e, a.victim exclude = some e ∧ e.1 ≠ exclude ∧ ∃ rest, a.assemblies.Perm (e :: rest) ∧
        rest.Sublist a.assemblies ∧ a.evictLeastRecentlyUpdated exclude =
          some { a with buffered := a.buffered - e.2.bytes, assemblies := rest }) ∨
      (a.victim exclude = none ∧ (∀ e ∈ a.assemblies, e.1 = exclude) ∧
        a.evictLeastRecentlyUpdated exclude = none) := by
  obtain ⟨hfound, hnone⟩ := leastRecentlyUpdated_spec exclude a.assemblies
  rw [victim, evictLeastRecentlyUpdated]
  cases hi : leastRecentlyUpdated exclude a.assemblies with
  | none => exact .inr ⟨rfl, hnone hi, rfl⟩
  | some i =>
    obtain ⟨e, he, hne⟩ := hfound i hi
    have hlt := (List.getElem?_eq_some_iff.mp he).1
    refine .inl ⟨e, he, hne, a.assemblies.eraseIdx i, ?_, List.eraseIdx_sublist _ _, by dsimp only; rw [he]⟩
    have hperm := List.getElem_cons_eraseIdx_perm hlt
    rw [(List.getElem?_eq_some_iff.mp he).2] at hperm
    exact hperm.symm

theorem Accounted.without (h : a.Accounted) {e : UInt64 × Partial} {rest : List (UInt64 × Partial)}
    (hperm : a.assemblies.Perm (e :: rest)) :
    e.2.bytes ≤ a.buffered ∧ Accounted { a with buffered := a.buffered - e.2.bytes, assemblies := rest } := by
  have hsum := (hperm.map fun e => e.2.storedBytes).sum_eq
  have hlen := hperm.length_eq
  have hbuf := h.buffered_eq
  have hbytes := (h.sound e (hperm.mem_iff.mpr List.mem_cons_self)).bytes_eq
  have hle := h.buffered_le
  have hmax := h.length_le
  rw [List.map_cons, List.sum_cons] at hsum
  rw [List.length_cons] at hlen
  refine ⟨by omega, ?_, ?_, ?_, ?_, ?_⟩
  · exact ((hperm.map Prod.fst).nodup_iff.mp h.nodup).of_cons
  · exact fun e' he' => h.sound e' (hperm.mem_iff.mpr (List.mem_cons_of_mem _ he'))
  · show a.buffered - e.2.bytes = (rest.map fun e => e.2.storedBytes).sum
    omega
  · show a.buffered - e.2.bytes ≤ a.maxBytes
    omega
  · show rest.length ≤ a.maxAssemblies
    omega

/-- What is left after some evictions. -/
structure Evicted (exclude : UInt64) (a a' : FragmentAssembly) : Prop where
  sublist : a'.assemblies.Sublist a.assemblies
  find_eq : a'.find exclude = a.find exclude
  maxAssemblies_eq : a'.maxAssemblies = a.maxAssemblies
  maxBytes_eq : a'.maxBytes = a.maxBytes
  clock_eq : a'.clock = a.clock

/-- **Evicting while there is no room**: the books are kept, and either there is room or nothing is left
but the assembly that may not go. -/
theorem evictWhile_spec (full : FragmentAssembly → Bool) (exclude : UInt64) (h : a.Accounted) :
    (a.evictWhile full exclude).1.Accounted ∧ Evicted exclude a (a.evictWhile full exclude).1 ∧
      full (a.evictWhile full exclude).1 = !(a.evictWhile full exclude).2 ∧
      ((a.evictWhile full exclude).2 = false → ∀ e ∈ (a.evictWhile full exclude).1.assemblies, e.1 = exclude) := by
  induction hlen : a.assemblies.length using Nat.strong_induction_on generalizing a with
  | _ len ih =>
    rw [evictWhile]
    by_cases hfull : full a = true
    · rw [if_pos hfull]
      rcases a.evict_spec exclude with ⟨e, -, hne, rest, hperm, hsub, hevict⟩ | ⟨-, hkeys, hevict⟩
      · obtain ⟨-, hrest⟩ := h.without hperm
        have hshort : rest.length < len := by
          rw [← hlen, hperm.length_eq, List.length_cons]
          exact Nat.lt_succ_self _
        obtain ⟨hbooks, hevicted, hroom, hleft⟩ := ih _ hshort hrest rfl
        split
        case h_1 hnone => cases hnone.symm.trans hevict
        case h_2 a' hsome =>
          obtain rfl := Option.some.inj (hsome.symm.trans hevict)
          refine ⟨hbooks, ⟨hevicted.sublist.trans hsub, ?_, hevicted.maxAssemblies_eq,
            hevicted.maxBytes_eq, hevicted.clock_eq⟩, hroom, hleft⟩
          rw [hevicted.find_eq, find, find, lookup_perm hperm h.nodup, lookup_cons, if_neg hne]
      · split
        case h_1 => exact ⟨h, ⟨.refl _, rfl, rfl, rfl, rfl⟩, hfull, fun _ => hkeys⟩
        case h_2 a' hsome => cases hsome.symm.trans hevict
    · rw [if_neg hfull]
      exact ⟨h, ⟨.refl _, rfl, rfl, rfl, rfl⟩, by simpa using hfull, by simp⟩

theorem perm_of_find (h : a.find id = some p) :
    a.assemblies.Perm ((id, p) :: a.assemblies.eraseP fun e => e.1 == id) :=
  perm_eraseP (lookup_of_find h)

theorem mem_of_find (h : a.find id = some p) : (id, p) ∈ a.assemblies :=
  mem_of_lookup (lookup_of_find h)

theorem Accounted.modify (h : a.Accounted) (hp : a.find id = some p) (hp' : p'.Sound)
    (hle : p.bytes ≤ p'.bytes) (hroom : a.buffered + (p'.bytes - p.bytes) ≤ a.maxBytes) :
    Accounted { a.modify id (fun _ => p') with buffered := a.buffered + (p'.bytes - p.bytes) } where
  nodup := by
    rw [show _ = a.assemblies.map Prod.fst from keys_modify id fun _ => p']
    exact h.nodup
  sound := by
    intro e he
    have hnodup : ((a.modify id fun _ => p').assemblies.map Prod.fst).Nodup := by
      rw [keys_modify]
      exact h.nodup
    have hfind := find_of_mem hnodup he
    rw [find_modify h.nodup] at hfind
    split at hfind
    case isTrue heq =>
      rw [← heq, hp] at hfind
      rw [← Option.some.inj hfind]
      exact hp'
    case isFalse => exact h.sound _ (mem_of_find hfind)
  buffered_eq := by
    have hsum := sum_updateFirst (f := fun e : UInt64 × Partial => (e.1, p'))
      (fun e => e.2.storedBytes) (lookup_of_find hp)
    have hbuf := h.buffered_eq
    have hbytes := (h.sound _ (mem_of_find hp)).bytes_eq
    have hbytes' := hp'.bytes_eq
    show a.buffered + (p'.bytes - p.bytes) =
      ((updateFirst _ (fun e => (e.1, p')) a.assemblies).map fun e => e.2.storedBytes).sum
    simp only at hsum hbytes
    omega
  buffered_le := hroom
  length_le := by
    have hkeys := congrArg List.length (keys_modify (a := a) id fun _ => p')
    rw [List.length_map, List.length_map] at hkeys
    show (a.modify id fun _ => p').assemblies.length ≤ a.maxAssemblies
    rw [hkeys]
    exact h.length_le

theorem Accounted.insert (h : a.Accounted) (hnone : a.find id = none)
    (hroom : a.assemblies.length < a.maxAssemblies) :
    Accounted { a with assemblies := a.assemblies ++ [(id, {})] } where
  nodup := by
    rw [find, Option.map_eq_none_iff, lookup_eq_none] at hnone
    rw [List.map_append]
    exact h.nodup.append (List.nodup_singleton _) (by simpa using hnone)
  sound := by
    intro e he
    rcases List.mem_append.mp he with he | he
    · exact h.sound e he
    · rw [List.mem_singleton.mp he]
      exact Partial.sound_new
  buffered_eq := by
    rw [List.map_append, List.sum_append, ← h.buffered_eq]
    rfl
  buffered_le := h.buffered_le
  length_le := by
    rw [List.length_append, List.length_singleton]
    exact hroom

/-- **There is an assembly for the fragment**, or there may be none at all. -/
theorem Accounted.makeRoomFor (h : a.Accounted) (id : UInt64) :
    (a.makeRoomFor id).1.Accounted ∧ (a.makeRoomFor id).1.maxAssemblies = a.maxAssemblies ∧
      (a.makeRoomFor id).1.maxBytes = a.maxBytes ∧ ((a.makeRoomFor id).2 = true →
        (a.makeRoomFor id).1.find id = some ((a.find id).getD {})) ∧
      ((a.makeRoomFor id).2 = false → a.maxAssemblies = 0) := by
  rw [FragmentAssembly.makeRoomFor]
  cases hfind : a.find id with
  | some p => exact ⟨h, rfl, rfl, fun _ => hfind, by simp⟩
  | none =>
    obtain ⟨hbooks, hevicted, hroom, hleft⟩ :=
      evictWhile_spec (fun a => a.maxAssemblies ≤ a.assemblies.length) id h
    rcases hresult : a.evictWhile (fun a => a.maxAssemblies ≤ a.assemblies.length) id with ⟨a', ok⟩
    rw [hresult] at hbooks hevicted hroom hleft
    have hnone : a'.find id = none := hevicted.find_eq.trans hfind
    cases ok with
    | false =>
      refine ⟨hbooks, hevicted.maxAssemblies_eq, hevicted.maxBytes_eq, by simp, fun _ => ?_⟩
      have hempty : a'.assemblies = [] := by
        rw [List.eq_nil_iff_forall_not_mem]
        intro e he
        have hsome := find_of_mem hbooks.nodup he
        rw [hleft rfl e he, hnone] at hsome
        cases hsome
      have hle : a'.maxAssemblies ≤ a'.assemblies.length := by simpa using hroom
      rw [hempty, List.length_nil, hevicted.maxAssemblies_eq] at hle
      omega
    | true =>
      have hlt : a'.assemblies.length < a'.maxAssemblies := by simpa using hroom
      refine ⟨hbooks.insert hnone hlt, hevicted.maxAssemblies_eq, hevicted.maxBytes_eq, fun _ => ?_, by simp⟩
      rw [find, Option.map_eq_none_iff] at hnone
      rw [find, lookup_append, hnone, Option.none_or, lookup_cons, if_pos rfl]
      rfl

theorem Accounted.tick (h : a.Accounted) (clock : UInt64) : Accounted { a with clock } :=
  ⟨h.nodup, h.sound, h.buffered_eq, h.buffered_le, h.length_le⟩

/-- There is an assembly when an accepted fragment is taken out of its way: the stamp is all that
changed. -/
theorem find_modify_self (h : a.Accounted) (hp : a.find id = some p)
    (g : Partial → Partial) : (a.modify id g).find id = some (g p) := by
  rw [find_modify h.nodup, if_pos rfl, hp]
  rfl

theorem Accounted.stamp (h : a.Accounted) (hp : a.find id = some p) (clock : UInt64) :
    Accounted (a.modify id fun _ => { p with touched := clock }) := by
  have hmod := h.modify hp ((h.sound _ (mem_of_find hp)).touch clock) (Nat.le_refl _)
    (by rw [Nat.sub_self]; exact h.buffered_le)
  rw [Nat.sub_self] at hmod
  exact hmod

theorem remove_limits (a : FragmentAssembly) (id : UInt64) :
    (a.remove id).maxAssemblies = a.maxAssemblies ∧ (a.remove id).maxBytes = a.maxBytes := by
  rw [FragmentAssembly.remove]
  split <;> exact ⟨rfl, rfl⟩

theorem feed_limits (a : FragmentAssembly) (f : Fragment) (p : Partial) :
    (a.feed f p).1.maxAssemblies = a.maxAssemblies ∧ (a.feed f p).1.maxBytes = a.maxBytes := by
  rw [FragmentAssembly.feed]
  dsimp only
  split <;> exact ⟨rfl, rfl⟩

theorem Accounted.remove (h : a.Accounted) (id : UInt64) :
    (a.remove id).Accounted ∧ (a.remove id).find id = none := by
  rw [FragmentAssembly.remove]
  cases hp : a.find id with
  | none => exact ⟨h, hp⟩
  | some p =>
    refine ⟨(h.without (perm_of_find hp)).2, ?_⟩
    rw [find, lookup_eraseP_self h.nodup]
    rfl

/-- **The contents go into their assembly**, and the books are kept. -/
theorem Accounted.feed (h : a.Accounted) (hp : a.find f.id = some p) (hrejects : p.rejects f = false)
    (hroom : p.isDuplicate f = true ∨ a.buffered + f.contents.length ≤ a.maxBytes) :
    (a.feed f p).1.Accounted ∧ (a.feed f p).2 = (p.add f).2 ∧
      (a.feed f p).1.find f.id = if (p.add f).2.isSome then none else some (p.add f).1 := by
  have hsound : p.Sound := h.sound _ (mem_of_find hp)
  obtain ⟨hbytes, hcases⟩ := hsound.add hrejects
  have hadded : a.buffered + ((p.add f).1.bytes - p.bytes) ≤ a.maxBytes := by
    have hle := h.buffered_le
    rcases hroom with hdup | hroom
    · rw [if_pos hdup] at hbytes
      omega
    · split at hbytes <;> omega
  rw [FragmentAssembly.feed]
  rcases hcases with ⟨hdone, -⟩ | ⟨hmore, heq, hsound⟩
  · simp only [hdone, if_true]
    refine ⟨?_, trivial, ?_⟩
    · have hrest := (h.without (perm_of_find hp)).2
      have heq : a.buffered + ((p.add f).1.bytes - p.bytes) - (p.add f).1.bytes = a.buffered - p.bytes := by
        omega
      rw [heq]
      exact hrest
    · rw [find, lookup_eraseP_self h.nodup]
      rfl
  · simp only [hmore, Option.isSome_none, Bool.false_eq_true, if_false]
    have hsound' : (p.add f).1.Sound := heq ▸ hsound
    have hmod := h.modify hp hsound' (by omega) hadded
    exact ⟨hmod, trivial, find_modify_self h hp fun _ => (p.add f).1⟩

theorem Accounted.bytes_le (h : a.Accounted) (hp : a.find id = some p) : p.bytes ≤ a.buffered :=
  (h.without (perm_of_find hp)).1

theorem Accounted.buffered_eq_bytes (h : a.Accounted) (hp : a.find id = some p)
    (hkeys : ∀ e ∈ a.assemblies, e.1 = id) : a.buffered = p.bytes := by
  have hrest := (perm_of_find hp).map Prod.fst
  have hnodup := hrest.nodup_iff.mp h.nodup
  rw [List.map_cons, List.nodup_cons] at hnodup
  have hnil : (a.assemblies.eraseP fun e => e.1 == id) = [] := by
    rw [List.eq_nil_iff_forall_not_mem]
    intro e he
    have hmem := List.mem_map_of_mem (f := Prod.fst) he
    rw [hkeys e (List.mem_of_mem_eraseP he)] at hmem
    exact hnodup.1 hmem
  have hsum := ((perm_of_find hp).map fun e => e.2.storedBytes).sum_eq
  rw [hnil] at hsum
  have hbytes : p.bytes = p.storedBytes := (h.sound _ (mem_of_find hp)).bytes_eq
  rw [h.buffered_eq, hsum, hbytes]
  exact List.sum_singleton

/-- The contents of a fragment for a partial instruction are too many for the receiver even when it holds
nothing else. -/
def TooBig (maxBytes : ℕ) (p : Partial) (f : Fragment) : Prop :=
  p.isDuplicate f = false ∧ maxBytes < p.bytes + f.contents.length

instance (maxBytes : ℕ) (p : Partial) (f : Fragment) : Decidable (TooBig maxBytes p f) :=
  inferInstanceAs (Decidable (p.isDuplicate f = false ∧ maxBytes < p.bytes + f.contents.length))

theorem Accounted.roomFor (h : a.Accounted) (hp : a.find f.id = some p)
    {room : FragmentAssembly × Bool}
    (hroom : room = if p.isDuplicate f then (a, true)
      else a.evictWhile (fun a => a.maxBytes < a.buffered + f.contents.length) f.id) :
    room.1.Accounted ∧ Evicted f.id a room.1 ∧
      (room.2 = true → (p.isDuplicate f = true ∨ room.1.buffered + f.contents.length ≤ a.maxBytes) ∧
        ¬TooBig a.maxBytes p f) ∧ (room.2 = false → TooBig a.maxBytes p f) := by
  by_cases hdup : p.isDuplicate f = true
  · rw [if_pos hdup] at hroom
    rw [hroom]
    exact ⟨h, ⟨.refl _, rfl, rfl, rfl, rfl⟩, fun _ => ⟨.inl hdup, fun hbig => by
      rw [hbig.1] at hdup
      cases hdup⟩, nofun⟩
  · rw [if_neg hdup] at hroom
    obtain ⟨hbooks, hevicted, hfull, hleft⟩ :=
      evictWhile_spec (fun a => a.maxBytes < a.buffered + f.contents.length) f.id h
    rw [← hroom] at hbooks hevicted hfull hleft
    have hfind : room.1.find f.id = some p := hevicted.find_eq.trans hp
    have hmax := hevicted.maxBytes_eq
    refine ⟨hbooks, hevicted, fun hok => ?_, fun hok => ⟨Bool.not_eq_true _ ▸ hdup, ?_⟩⟩
    · rw [hok, Bool.not_true, decide_eq_false_iff_not] at hfull
      have hle := hbooks.bytes_le hfind
      exact ⟨.inr (by omega), fun hbig => by have := hbig.2; omega⟩
    · rw [hok, Bool.not_false, decide_eq_true_iff] at hfull
      have hall := hbooks.buffered_eq_bytes hfind (hleft hok)
      omega

/-- **One fragment keeps the books**, and what it gives depends on its own assembly and the bound on bytes
alone: it is refused, or too big to be kept, or goes into its slot. -/
theorem Accounted.add (h : a.Accounted) (f : Fragment) :
    (a.add f).1.Accounted ∧ (a.add f).1.maxAssemblies = a.maxAssemblies ∧
      (a.add f).1.maxBytes = a.maxBytes ∧ (0 < a.maxAssemblies → ∀ p, (a.find f.id).getD {} = p →
        if p.rejects f then (a.add f).2 = none ∧ (a.add f).1.find f.id = some p
        else if TooBig a.maxBytes p f then (a.add f).2 = none ∧ (a.add f).1.find f.id = none
        else ∃ clock, (a.add f).2 = (Partial.add { p with touched := clock } f).2 ∧
          (a.add f).1.find f.id = if (a.add f).2.isSome then none
            else some (Partial.add { p with touched := clock } f).1) := by
  obtain ⟨hbooks, hmaxA, hmaxB, hthere, hzero⟩ := (h.tick (a.clock + 1)).makeRoomFor f.id
  rw [FragmentAssembly.add]
  rcases hmade : FragmentAssembly.makeRoomFor { a with clock := a.clock + 1 } f.id with ⟨b, ok⟩
  rw [hmade] at hbooks hmaxA hmaxB hthere hzero
  cases ok with
  | false => exact ⟨hbooks, hmaxA, hmaxB, fun hpos => absurd (hzero rfl) (by simp only; omega)⟩
  | true =>
    obtain ⟨p, hp⟩ : ∃ p, (a.find f.id).getD {} = p := ⟨_, rfl⟩
    have hfind : b.find f.id = some p := by
      rw [hthere rfl, ← hp]
      rfl
    simp only [hfind]
    by_cases hrejects : p.rejects f = true
    · rw [if_pos hrejects]
      refine ⟨hbooks, hmaxA, hmaxB, fun _ q hq => ?_⟩
      rw [← hq, hp, if_pos hrejects]
      exact ⟨rfl, hfind⟩
    · rw [if_neg hrejects]
      have hstamped := hbooks.stamp hfind b.clock
      have hfind' := find_modify_self hbooks hfind fun _ => { p with touched := b.clock }
      obtain ⟨room, hroom⟩ : ∃ room, room = if Partial.isDuplicate { p with touched := b.clock } f then
        (b.modify f.id fun _ => { p with touched := b.clock }, true) else
        (b.modify f.id fun _ => { p with touched := b.clock }).evictWhile
          (fun a => a.maxBytes < a.buffered + f.contents.length) f.id := ⟨_, rfl⟩
      obtain ⟨hbooks', hevicted, hyes, hno⟩ := hstamped.roomFor hfind' hroom
      have hbig : TooBig (b.modify f.id fun _ => { p with touched := b.clock }).maxBytes
          { p with touched := b.clock } f ↔ TooBig a.maxBytes p f := by
        show TooBig b.maxBytes p f ↔ _
        rw [hmaxB]
      rw [hbig] at hyes hno
      rw [← hroom]
      rcases room with ⟨c, ok⟩
      have hmaxA' : c.maxAssemblies = a.maxAssemblies := hevicted.maxAssemblies_eq.trans hmaxA
      have hmaxB' : c.maxBytes = a.maxBytes := hevicted.maxBytes_eq.trans hmaxB
      cases ok with
      | false =>
        obtain ⟨hgone, hnone⟩ := hbooks'.remove f.id
        obtain ⟨hsameA, hsameB⟩ := c.remove_limits f.id
        refine ⟨hgone, hsameA.trans hmaxA', hsameB.trans hmaxB', fun _ q hq => ?_⟩
        rw [← hq, hp, if_neg hrejects, if_pos (hno rfl)]
        exact ⟨rfl, hnone⟩
      | true =>
        have hfind'' : c.find f.id = some { p with touched := b.clock } :=
          hevicted.find_eq.trans hfind'
        obtain ⟨hfed, hgiven, hkept⟩ := hbooks'.feed hfind'' (Bool.eq_false_iff.mpr hrejects)
          ((hyes rfl).1.imp_right fun hle => hle.trans (by rw [hmaxB']; exact hmaxB.le))
        obtain ⟨hsameA, hsameB⟩ := c.feed_limits f { p with touched := b.clock }
        refine ⟨hfed, hsameA.trans hmaxA', hsameB.trans hmaxB', fun _ q hq => ?_⟩
        rw [← hq, hp, if_neg hrejects, if_neg (hyes rfl).2]
        exact ⟨b.clock, hgiven, by rw [hkept]; simp only [hgiven]⟩

/-! ### Every subtraction is checked -/

/-- One assembly less, unless its bytes are more than all. -/
def evictLeastRecentlyUpdatedChecked (a : FragmentAssembly) (exclude : UInt64) :
    Option (Option FragmentAssembly) :=
  match leastRecentlyUpdated exclude a.assemblies with
  | none => some none
  | some i =>
    match a.assemblies[i]? with
    | none => some none
    | some e =>
      (Nat.psub a.buffered e.2.bytes).map fun buffered =>
        some { a with buffered, assemblies := a.assemblies.eraseIdx i }

theorem evict_of_checked {exclude : UInt64} {r : Option FragmentAssembly}
    (h : a.evictLeastRecentlyUpdatedChecked exclude = some r) : a.evictLeastRecentlyUpdated exclude = r := by
  rw [evictLeastRecentlyUpdatedChecked] at h
  rw [evictLeastRecentlyUpdated]
  cases hi : leastRecentlyUpdated exclude a.assemblies with
  | none =>
    rw [hi] at h
    exact Option.some.inj h
  | some i =>
    rw [hi] at h
    dsimp only at h ⊢
    cases he : a.assemblies[i]? with
    | none =>
      rw [he] at h
      exact Option.some.inj h
    | some e =>
      rw [he, Option.map_eq_some_iff] at h
      obtain ⟨buffered, hsub, rfl⟩ := h
      rw [Nat.psub_eq_some] at hsub
      dsimp only
      rw [Nat.sub_eq_of_eq_add hsub.symm]

/-- The loops that evict while there is no room. -/
def evictWhileChecked (full : FragmentAssembly → Bool) (exclude : UInt64) (a : FragmentAssembly) :
    Option (FragmentAssembly × Bool) :=
  if full a then
    match h : a.evictLeastRecentlyUpdatedChecked exclude with
    | none => none
    | some none => some (a, false)
    | some (some a') =>
      have := length_evictLeastRecentlyUpdated (evict_of_checked h)
      evictWhileChecked full exclude a'
  else some (a, true)
termination_by a.assemblies.length

def removeChecked (a : FragmentAssembly) (id : UInt64) : Option FragmentAssembly :=
  match a.find id with
  | none => some a
  | some p =>
    (Nat.psub a.buffered p.bytes).map fun buffered =>
      { a with buffered, assemblies := a.assemblies.eraseP fun e => e.1 == id }

def makeRoomForChecked (a : FragmentAssembly) (id : UInt64) : Option (FragmentAssembly × Bool) :=
  match a.find id with
  | some _ => some (a, true)
  | none =>
    (a.evictWhileChecked (fun a => a.maxAssemblies ≤ a.assemblies.length) id).map fun
      | (a, false) => (a, false)
      | (a, true) => ({ a with assemblies := a.assemblies ++ [(id, {})] }, true)

def feedChecked (a : FragmentAssembly) (frag : Fragment) (p : Partial) :
    Option (FragmentAssembly × Option Bytes) :=
  let (p', completed) := p.add frag
  (Nat.psub p'.bytes p.bytes).bind fun grown =>
    let buffered := a.buffered + grown
    if completed.isSome then
      (Nat.psub buffered p'.bytes).map fun buffered =>
        ({ a with buffered, assemblies := a.assemblies.eraseP fun e => e.1 == frag.id }, completed)
    else some ({ a.modify frag.id (fun _ => p') with buffered }, completed)

/-- One fragment arrives, and no subtraction goes below zero. -/
def addChecked (a : FragmentAssembly) (frag : Fragment) : Option (FragmentAssembly × Option Bytes) :=
  let a := { a with clock := a.clock + 1 }
  (a.makeRoomForChecked frag.id).bind fun
    | (a, false) => some (a, none)
    | (a, true) =>
      match a.find frag.id with
      | none => some (a, none)
      | some p =>
        if p.rejects frag then some (a, none)
        else
          let p := { p with touched := a.clock }
          let a := a.modify frag.id fun _ => p
          let incoming := frag.contents.length
          let room :=
            if p.isDuplicate frag then some (a, true)
            else a.evictWhileChecked (fun a => a.maxBytes < a.buffered + incoming) frag.id
          room.bind fun
            | (a, false) => (a.removeChecked frag.id).map fun a => (a, none)
            | (a, true) => a.feedChecked frag p

theorem Accounted.evictChecked (h : a.Accounted) (exclude : UInt64) :
    a.evictLeastRecentlyUpdatedChecked exclude = some (a.evictLeastRecentlyUpdated exclude) := by
  rw [evictLeastRecentlyUpdatedChecked, evictLeastRecentlyUpdated]
  cases leastRecentlyUpdated exclude a.assemblies with
  | none => rfl
  | some i =>
    dsimp only
    cases he : a.assemblies[i]? with
    | none => rfl
    | some e =>
      have hfind := find_of_mem h.nodup (List.mem_of_getElem? he)
      dsimp only
      rw [Nat.psub_eq_sub (h.bytes_le hfind)]
      rfl

theorem Accounted.evictWhileChecked (h : a.Accounted) (full : FragmentAssembly → Bool)
    (exclude : UInt64) : a.evictWhileChecked full exclude = some (a.evictWhile full exclude) := by
  induction hlen : a.assemblies.length using Nat.strong_induction_on generalizing a with
  | _ len ih =>
    rw [FragmentAssembly.evictWhileChecked, evictWhile]
    by_cases hfull : full a = true
    · rw [if_pos hfull, if_pos hfull]
      have hchecked := h.evictChecked exclude
      rcases a.evict_spec exclude with ⟨e, -, -, rest, hperm, -, hevict⟩ | ⟨-, -, hevict⟩
      · rw [hevict] at hchecked
        have hshort : rest.length < len := by
          rw [← hlen, hperm.length_eq, List.length_cons]
          exact Nat.lt_succ_self _
        have hrest := ih _ hshort (h.without hperm).2 rfl
        split
        case h_1 hnone => cases hnone.symm.trans hchecked
        case h_2 hnone => cases hnone.symm.trans hchecked
        case h_3 a₁ hsome =>
          obtain rfl := Option.some.inj (Option.some.inj (hsome.symm.trans hchecked))
          split
          case h_1 hnone => cases hnone.symm.trans hevict
          case h_2 a₂ hsome₂ =>
            obtain rfl := Option.some.inj (hsome₂.symm.trans hevict)
            exact hrest
      · rw [hevict] at hchecked
        split
        case h_1 hnone => cases hnone.symm.trans hchecked
        case h_3 a₁ hsome => cases hsome.symm.trans hchecked
        case h_2 =>
          split
          case h_1 => rfl
          case h_2 a₂ hsome => cases hsome.symm.trans hevict
    · rw [if_neg hfull, if_neg hfull]

theorem Accounted.removeChecked (h : a.Accounted) (id : UInt64) : a.removeChecked id = some (a.remove id) := by
  rw [FragmentAssembly.removeChecked, FragmentAssembly.remove]
  cases hp : a.find id with
  | none => rfl
  | some p =>
    dsimp only
    rw [Nat.psub_eq_sub (h.bytes_le hp)]
    rfl

theorem Accounted.makeRoomForChecked (h : a.Accounted) (id : UInt64) :
    a.makeRoomForChecked id = some (a.makeRoomFor id) := by
  rw [FragmentAssembly.makeRoomForChecked, FragmentAssembly.makeRoomFor, h.evictWhileChecked]
  cases a.find id with
  | some p => rfl
  | none =>
    rcases a.evictWhile (fun a => a.maxAssemblies ≤ a.assemblies.length) id with ⟨b, ok⟩
    cases ok <;> rfl

theorem Accounted.feedChecked (h : a.Accounted) (hp : a.find f.id = some p)
    (hrejects : p.rejects f = false) : a.feedChecked f p = some (a.feed f p) := by
  have hsound : p.Sound := h.sound _ (mem_of_find hp)
  have hbytes := (hsound.add hrejects).1
  have hle : p.bytes ≤ (p.add f).1.bytes := by omega
  have hall := h.bytes_le hp
  rw [FragmentAssembly.feedChecked, FragmentAssembly.feed]
  dsimp only
  rw [Nat.psub_eq_sub hle, Option.bind_some, Nat.psub_eq_sub (by omega)]
  split <;> rfl

/-- **Nothing underflows** while a fragment is added. -/
theorem Accounted.addChecked (h : a.Accounted) (f : Fragment) : a.addChecked f = some (a.add f) := by
  have hticked := h.tick (a.clock + 1)
  obtain ⟨hbooks, hmaxA, hmaxB, -, -⟩ := hticked.makeRoomFor f.id
  rw [FragmentAssembly.addChecked, FragmentAssembly.add]
  dsimp only
  rw [hticked.makeRoomForChecked, Option.bind_some]
  rcases hmade : FragmentAssembly.makeRoomFor { a with clock := a.clock + 1 } f.id with ⟨b, ok⟩
  rw [hmade] at hbooks hmaxA hmaxB
  cases ok with
  | false => rfl
  | true =>
    dsimp only
    cases hfind : b.find f.id with
    | none => rfl
    | some p =>
      dsimp only
      by_cases hrejects : p.rejects f = true
      · rw [if_pos hrejects, if_pos hrejects]
      · rw [if_neg hrejects, if_neg hrejects]
        have hstamped := hbooks.stamp hfind b.clock
        have hfind' := find_modify_self hbooks hfind fun _ => { p with touched := b.clock }
        obtain ⟨room, hroom⟩ : ∃ room, room = if Partial.isDuplicate { p with touched := b.clock } f then
            (b.modify f.id fun _ => { p with touched := b.clock }, true) else
            (b.modify f.id fun _ => { p with touched := b.clock }).evictWhile
              (fun a => a.maxBytes < a.buffered + f.contents.length) f.id := ⟨_, rfl⟩
        obtain ⟨hbooks', hevicted, -, -⟩ := hstamped.roomFor hfind' hroom
        have hroom' : (if Partial.isDuplicate { p with touched := b.clock } f then
            some (b.modify f.id fun _ => { p with touched := b.clock }, true) else
            (b.modify f.id fun _ => { p with touched := b.clock }).evictWhileChecked
              (fun a => a.maxBytes < a.buffered + f.contents.length) f.id) = some room := by
          rw [hstamped.evictWhileChecked, hroom]
          split <;> rfl
        rw [hroom', ← hroom, Option.bind_some]
        rcases room with ⟨c, ok⟩
        cases ok with
        | false =>
          dsimp only
          rw [hbooks'.removeChecked]
          rfl
        | true =>
          exact hbooks'.feedChecked (hevicted.find_eq.trans hfind') (Bool.eq_false_iff.mpr hrejects)

/-! ### Any fragments -/

/-- The receiver after some fragments. -/
def addAll (a : FragmentAssembly) : List Fragment → FragmentAssembly
  | [] => a
  | f :: fs => (a.add f).1.addAll fs

theorem Accounted.addAll (h : a.Accounted) (fs : List Fragment) :
    (a.addAll fs).Accounted ∧ (a.addAll fs).maxAssemblies = a.maxAssemblies ∧
      (a.addAll fs).maxBytes = a.maxBytes := by
  induction fs generalizing a with
  | nil => exact ⟨h, rfl, rfl⟩
  | cons f fs ih =>
    obtain ⟨hbooks, hmaxA, hmaxB, -⟩ := h.add f
    obtain ⟨hrest, hsameA, hsameB⟩ := ih hbooks
    exact ⟨hrest, hsameA.trans hmaxA, hsameB.trans hmaxB⟩

/-- **The books balance after every fragment, and nothing underflows**: whatever fragments arrived, the
bytes that are counted are those in the slots and within their bound, so is the number of assemblies, no
instruction has two of them, none has too many slots or is complete, and the next fragment is added without
a subtraction below zero. -/
theorem accounting (maxAssemblies maxBytes : ℕ) (fs : List Fragment) :
    let a := (withLimits maxAssemblies maxBytes).addAll fs
    a.buffered = (a.assemblies.map fun e => e.2.storedBytes).sum ∧
      a.buffered ≤ maxBytes ∧ a.assemblies.length ≤ maxAssemblies ∧ (a.assemblies.map Prod.fst).Nodup ∧
      (∀ e ∈ a.assemblies, e.2.fragments.length ≤ maxFragments ∧ ¬e.2.IsComplete) ∧
      ∀ f, a.addChecked f = some (a.add f) := by
  obtain ⟨hbooks, hmaxA, hmaxB⟩ := (accounted_withLimits maxAssemblies maxBytes).addAll fs
  refine ⟨hbooks.buffered_eq, hbooks.buffered_le.trans_eq hmaxB, hbooks.length_le.trans_eq hmaxA, hbooks.nodup, ?_,
    hbooks.addChecked⟩
  intro e he
  exact ⟨(hbooks.sound e he).length_le, (hbooks.sound e he).incomplete⟩

end FragmentAssembly

end Posh
