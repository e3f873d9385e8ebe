/-
**Every instruction is put together exactly once.**

The fragments of many instructions arrive in any order, interleaved, and again and again while their
instruction is not complete.  As long as the instructions that are begun and not complete are few enough
and small enough for the receiver's bounds, each gives its payload once: when its last missing fragment
arrives.
-/

import Mathlib.Algebra.Order.BigOperators.Group.List
import Posh.Fragments

set_option autoImplicit false

namespace Posh

open List (length_map mem_append)
open Prod (fst)
open Keyed
open Slots
open Fragment

/-! ### Arrivals -/

namespace Instruction

/-- Some fragment of the instruction arrived. -/
def Started (seen : List Fragment) (i : Instruction) : Prop := ∃ f ∈ i.fragments, f ∈ seen

/-- Every fragment of the instruction arrived. -/
def Complete (seen : List Fragment) (i : Instruction) : Prop := ∀ f ∈ i.fragments, f ∈ seen

instance (seen : List Fragment) (i : Instruction) : Decidable (i.Started seen) :=
  inferInstanceAs (Decidable (∃ f ∈ i.fragments, f ∈ seen))

instance (seen : List Fragment) (i : Instruction) : Decidable (i.Complete seen) :=
  inferInstanceAs (Decidable (∀ f ∈ i.fragments, f ∈ seen))

/-- The instruction has an assembly while `f` arrives: it is begun, with `f` or before, and was not
complete. -/
def Assembling (seen : List Fragment) (f : Fragment) (i : Instruction) : Prop :=
  (i.Started seen ∨ f ∈ i.fragments) ∧ ¬i.Complete seen

instance (seen : List Fragment) (f : Fragment) (i : Instruction) :
    Decidable (i.Assembling seen f) :=
  inferInstanceAs (Decidable ((i.Started seen ∨ f ∈ i.fragments) ∧ ¬i.Complete seen))

end Instruction

/-- The bounds of the receiver are kept by the instructions that assemble while `f` arrives. -/
def WithinBounds (insts : List Instruction) (seen : List Fragment) (f : Fragment) : Prop :=
  let assembling := insts.filter fun i => i.Assembling seen f
  assembling.length ≤ maxAssemblies ∧ (assembling.map fun i => i.payload.length).sum ≤ maxAssemblyBytes

/-- **The arrivals that the receiver's bounds allow**: in any order, each is a fragment of an instruction
that is not complete, whether it arrived before or not. -/
def Admissible (insts : List Instruction) (arrivals : List Fragment) : Prop :=
  ∀ (k : ℕ) (f : Fragment), arrivals[k]? = some f →
    (∃ i ∈ insts, f ∈ i.fragments ∧ ¬i.Complete (arrivals.take k)) ∧ WithinBounds insts (arrivals.take k) f

theorem withinBounds_of_few {insts : List Instruction} (hfew : insts.length ≤ maxAssemblies)
    (hsmall : (insts.map fun i => i.payload.length).sum ≤ maxAssemblyBytes) (seen : List Fragment)
    (f : Fragment) : WithinBounds insts seen f := by
  constructor
  · exact Nat.le_trans (List.length_filter_le _ _) hfew
  · exact Nat.le_trans (List.Sublist.sum_le_sum (List.filter_sublist.map _)
      fun _ _ => Nat.zero_le _) hsmall

/-! ### One assembly -/

namespace Partial

variable {id : UInt64} {payload : Bytes} {xs seen : List Fragment} {p : Partial} {f : Fragment}

/-- What an assembly holds after some arrivals: the contents of the fragments that arrived, and the
counters that belong to them. -/
structure Holds (seen xs : List Fragment) (p : Partial) : Prop where
  agrees : Slots.Agrees p.fragments (xs.map Fragment.contents)
  stored : ∀ (k : ℕ) (f : Fragment), xs[k]? = some f → ((∃ c, p.fragments[k]? = some (some c)) ↔ f ∈ seen)
  arrived_eq : p.arrived = (Slots.filled p.fragments).length
  bytes_eq : p.bytes = ((Slots.filled p.fragments).map List.length).sum
  total_eq : p.total = if p.fragments.length = xs.length then some xs.length else none

theorem holds_new (hne : xs ≠ []) (hseen : ∀ f ∈ xs, f ∉ seen) : Holds seen xs {} where
  agrees := agrees_nil _
  stored := fun k f hf =>
    iff_of_false (fun ⟨c, hc⟩ => by cases hc) (hseen f (List.mem_of_getElem? hf))
  arrived_eq := rfl
  bytes_eq := rfl
  total_eq := by
    rw [if_neg fun h => hne (List.eq_nil_of_length_eq_zero h.symm)]

theorem Holds.congr {seen' : List Fragment} (h : Holds seen xs p)
    (hseen : ∀ f ∈ xs, f ∈ seen ↔ f ∈ seen') : Holds seen' xs p where
  agrees := h.agrees
  stored := fun k f hf => (h.stored k f hf).trans (hseen f (List.mem_of_getElem? hf))
  arrived_eq := h.arrived_eq
  bytes_eq := h.bytes_eq
  total_eq := h.total_eq

theorem Holds.touch (h : Holds seen xs p) (clock : UInt64) : Holds seen xs { p with touched := clock } :=
  ⟨h.agrees, h.stored, h.arrived_eq, h.bytes_eq, h.total_eq⟩

theorem length_payload (hcut : IsCut id 0 payload xs) :
    ((xs.map contents).map List.length).sum = payload.length := by
  rw [← hcut.flatten, List.length_flatten]

theorem Holds.bytes_le (h : Holds seen xs p) (hcut : IsCut id 0 payload xs) : p.bytes ≤ payload.length := by
  rw [h.bytes_eq, ← length_payload hcut]
  exact h.agrees.sum_filled_le _

theorem getElem?_num (hcut : IsCut id 0 payload xs) (hf : f ∈ xs) : xs[f.num.toNat]? = some f := by
  obtain ⟨k, hk⟩ := List.getElem?_of_mem hf
  have hnum := hcut.num_eq k f hk
  rw [Nat.zero_add] at hnum
  rw [hnum, hk]

/-- **A fragment of the instruction is not rejected.** -/
theorem Holds.rejects_eq (h : Holds seen xs p) (hcut : IsCut id 0 payload xs)
    (hmax : xs.length ≤ maxFragments) (hf : f ∈ xs) : p.rejects f = false := by
  have hk := getElem?_num hcut hf
  have hlt := (List.getElem?_eq_some_iff.mp hk).1
  have hlen := h.agrees.length_le
  rw [length_map] at hlen
  have hfinal := hcut.isFinal_eq _ f hk
  simp only [rejects, h.total_eq, Bool.or_eq_false_iff, Bool.and_eq_false_iff, decide_eq_false_iff_not]
  refine ⟨⟨by omega, ?_⟩, ?_⟩
  · split
    · simpa using hlt
    · rfl
  · by_cases hlast : f.isFinal = true
    · have hlast' := hfinal.mp hlast
      refine .inr ⟨by omega, ?_⟩
      split
      · simp only [Option.any_some, bne_eq_false_iff_eq]
        omega
      · rfl
    · exact .inl (Bool.eq_false_iff.mpr hlast)

theorem Holds.isDuplicate_iff (h : Holds seen xs p) (hcut : IsCut id 0 payload xs) (hf : f ∈ xs) :
    p.isDuplicate f = true ↔ f ∈ seen := by
  rw [← h.stored _ f (getElem?_num hcut hf), isDuplicate]
  cases p.fragments[f.num.toNat]? with
  | none => simp
  | some slot => cases slot <;> simp

theorem Holds.grow_noteFinal (h : Holds seen xs p) (hcut : IsCut id 0 payload xs) (hf : f ∈ xs) :
    Holds seen xs ((p.grow f.num.toNat).noteFinal f) ∧
      f.num.toNat < ((p.grow f.num.toNat).noteFinal f).fragments.length := by
  have hk := getElem?_num hcut hf
  have hlt := (List.getElem?_eq_some_iff.mp hk).1
  have hlen := h.agrees.length_le
  rw [length_map] at hlen
  have hfinal := hcut.isFinal_eq _ f hk
  have hfields : ((p.grow f.num.toNat).noteFinal f).fragments = (p.grow f.num.toNat).fragments ∧
      ((p.grow f.num.toNat).noteFinal f).arrived = p.arrived ∧
      ((p.grow f.num.toNat).noteFinal f).bytes = p.bytes := by
    rw [noteFinal]
    split <;> exact ⟨rfl, rfl, rfl⟩
  have hgrown : (p.grow f.num.toNat).fragments.length = max p.fragments.length (f.num.toNat + 1) := by
    rw [grow, List.length_append, List.length_replicate]
    omega
  refine ⟨⟨?_, ?_, ?_, ?_, ?_⟩, ?_⟩
  · rw [hfields.1]
    exact h.agrees.grow (by rw [length_map]; omega)
  · intro k g hg
    rw [hfields.1, ← h.stored k g hg]
    exact exists_congr fun c => getElem?_append_none
  · rw [hfields.1, hfields.2.1, h.arrived_eq, grow, filled_append_none]
  · rw [hfields.1, hfields.2.2, h.bytes_eq, grow, filled_append_none]
  · rw [hfields.1, hgrown, noteFinal]
    split
    case isTrue hlast =>
      have hlast' := hfinal.mp hlast
      rw [if_pos (by omega), ← hlast']
    case isFalse hlast =>
      have hlast' := mt hfinal.mpr hlast
      show p.total = _
      rw [h.total_eq]
      exact if_congr (by omega) rfl rfl
  · rw [hfields.1, hgrown]
    omega

theorem Holds.store (h : Holds seen xs p) (hcut : IsCut id 0 payload xs) (hf : f ∈ xs)
    (hslot : f.num.toNat < p.fragments.length) : Holds (seen ++ [f]) xs (p.store f) ∧
      (p.store f).bytes = p.bytes + if f ∈ seen then 0 else f.contents.length := by
  have hk := getElem?_num hcut hf
  rw [Partial.store]
  split
  case isTrue hempty =>
    have hnew : f ∉ seen := by
      rw [← h.stored _ f hk, hempty]
      rintro ⟨c, hc⟩
      cases hc
    have hperm := filled_set_perm (a := f.contents) hempty
    refine ⟨⟨?_, ?_, ?_, ?_, ?_⟩, by rw [if_neg hnew]⟩
    · exact h.agrees.set (by rw [List.getElem?_map, hk]; rfl)
    · intro k g hg
      have hnum := hcut.num_eq k g hg
      rw [Nat.zero_add] at hnum
      rw [mem_append, List.mem_singleton, ← h.stored k g hg]
      by_cases heq : f.num.toNat = k
      · have hgf : g = f := Option.some.inj ((heq ▸ hg).symm.trans hk)
        rw [← heq, List.getElem?_set_self hslot]
        exact iff_of_true ⟨_, rfl⟩ (.inr hgf)
      · rw [List.getElem?_set_ne heq]
        refine ⟨.inl, fun hor => hor.resolve_right ?_⟩
        rintro rfl
        exact heq hnum
    · rw [hperm.length_eq, List.length_cons, h.arrived_eq]
    · rw [(hperm.map _).sum_eq, List.map_cons, List.sum_cons]
      show p.bytes + _ = _
      rw [h.bytes_eq, Nat.add_comm]
    · rw [List.length_set]
      exact h.total_eq
  case isFalse hfull =>
    have hold : f ∈ seen := by
      rw [← h.stored _ f hk]
      cases hslot' : p.fragments[f.num.toNat]? with
      | none => exact absurd (List.getElem?_eq_none_iff.mp hslot') (Nat.not_le.mpr hslot)
      | some slot =>
        cases slot with
        | none => exact absurd hslot' hfull
        | some c => exact ⟨c, rfl⟩
    refine ⟨h.congr fun g _ => ?_, by rw [if_pos hold, Nat.add_zero]⟩
    rw [mem_append, List.mem_singleton]
    exact ⟨.inl, fun hor => hor.elim (fun hin => hin) fun heq => heq ▸ hold⟩

theorem Holds.complete_iff (h : Holds seen xs p) (hcut : IsCut id 0 payload xs) :
    (p.total = some p.arrived ∧ p.fragments.length = p.arrived) ↔ ∀ f ∈ xs, f ∈ seen := by
  have hne : 0 < xs.length := List.length_pos_iff.mpr hcut.ne_nil
  constructor
  · rintro ⟨htotal, hlen⟩
    rw [h.total_eq] at htotal
    split at htotal
    case isFalse => cases htotal
    case isTrue hall =>
      have hfilled : (filled p.fragments).length = (xs.map contents).length := by
        rw [← h.arrived_eq, length_map, ← hlen, hall]
      intro f hf
      have hk := getElem?_num hcut hf
      rw [← h.stored _ f hk, h.agrees.eq_map_some hfilled, List.getElem?_map, List.getElem?_map, hk]
      exact ⟨_, rfl⟩
  · intro hall
    have hfilled := h.agrees.length_filled_eq fun k hk => by
      rw [length_map] at hk
      exact (h.stored k _ (List.getElem?_eq_getElem hk)).mpr (hall _ (List.getElem_mem hk))
    have hlen : p.fragments.length = xs.length := by
      rw [h.agrees.eq_map_some hfilled, length_map, length_map]
    rw [length_map] at hfilled
    rw [h.total_eq, if_pos hlen, h.arrived_eq, hfilled]
    exact ⟨rfl, hlen⟩

theorem Holds.put (h : Holds seen xs p) (hcut : IsCut id 0 payload xs) (hf : f ∈ xs) :
    Holds (seen ++ [f]) xs (p.put f) ∧ (p.put f).bytes = p.bytes + if f ∈ seen then 0 else f.contents.length := by
  obtain ⟨hgrown, hslot⟩ := h.grow_noteFinal hcut hf
  obtain ⟨hstored, hbytes⟩ := hgrown.store hcut hf hslot
  have hsame : ((p.grow f.num.toNat).noteFinal f).bytes = p.bytes := by
    rw [noteFinal]
    split <;> rfl
  rw [hsame] at hbytes
  exact ⟨hstored, hbytes⟩

/-- **A fragment arrives**: the last missing one gives the payload, and any other is kept. -/
theorem Holds.add (h : Holds seen xs p) (hcut : IsCut id 0 payload xs) (hf : f ∈ xs) :
    p.bytes ≤ (p.add f).1.bytes ∧ if ∀ g ∈ xs, g ∈ seen ++ [f] then (p.add f).2 = some payload
      else (p.add f).2 = none ∧ Holds (seen ++ [f]) xs (p.add f).1 := by
  obtain ⟨hstored, hbytes⟩ := h.put hcut hf
  have hle : p.bytes ≤ (p.put f).bytes := by omega
  rw [Partial.add]
  by_cases hall : ∀ g ∈ xs, g ∈ seen ++ [f]
  · have hdone := (hstored.complete_iff hcut).mpr hall
    rw [if_pos hdone, if_pos hall]
    refine ⟨hle, congrArg some ?_⟩
    have hfilled := hstored.agrees.length_filled_eq fun k hk => by
      rw [length_map] at hk
      exact (hstored.stored k _ (List.getElem?_eq_getElem hk)).mpr (hall _ (List.getElem_mem hk))
    rw [hstored.agrees.eq_map_some hfilled, filled_map_some, hcut.flatten]
  · have hnot := mt (hstored.complete_iff hcut).mp hall
    rw [if_neg hnot, if_neg hall]
    exact ⟨hle, rfl, hstored⟩

end Partial

/-! ### The receiver -/

namespace FragmentAssembly

variable {insts : List Instruction} {live : Instruction → Prop} {seen : List Fragment} {j : Instruction}
variable {a : FragmentAssembly} {i : Instruction} {f : Fragment} {p : Partial} {arrivals : List Fragment}

/-- The instructions of one sender: no two have the same number, and each is its payload cut into
fragments that the receiver has slots for. -/
structure Cut (insts : List Instruction) : Prop where
  nodup : (insts.map Instruction.id).Nodup
  isCut : ∀ i ∈ insts, IsCut i.id 0 i.payload i.fragments
  length_le : ∀ i ∈ insts, i.fragments.length ≤ maxFragments

theorem Cut.eq_of_id (h : Cut insts) (hi : i ∈ insts) (hj : j ∈ insts) (hid : i.id = j.id) : i = j :=
  List.inj_on_of_nodup_map h.nodup hi hj hid

theorem Cut.eq_of_mem (h : Cut insts) (hi : i ∈ insts) (hj : j ∈ insts)
    (hfi : f ∈ i.fragments) (hfj : f ∈ j.fragments) : i = j :=
  h.eq_of_id hi hj (((h.isCut i hi).id_eq f hfi).symm.trans ((h.isCut j hj).id_eq f hfj))

/-- **What a receiver holds after some arrivals**: one assembly for each live instruction. -/
structure Tracks (insts : List Instruction) (live : Instruction → Prop) (seen : List Fragment)
    (a : FragmentAssembly) : Prop where
  nodup : (a.assemblies.map Prod.fst).Nodup
  holds : ∀ (id : UInt64) (p : Partial), a.find id = some p →
    ∃ i ∈ insts, i.id = id ∧ live i ∧ p.Holds seen i.fragments
  found : ∀ i ∈ insts, live i → ∃ p, a.find i.id = some p
  buffered_eq : a.buffered = (a.assemblies.map fun e => e.2.bytes).sum
  maxAssemblies_eq : a.maxAssemblies = Posh.maxAssemblies
  maxBytes_eq : a.maxBytes = maxAssemblyBytes

theorem lookup_of_find {id : UInt64} (h : a.find id = some p) : lookup fst a.assemblies id = some (id, p) := by
  rw [find, Option.map_eq_some_iff] at h
  obtain ⟨⟨key, p'⟩, hlookup, hp⟩ := h
  have hkey : key = id := key_of_lookup hlookup
  have hp' : p' = p := hp
  rw [hlookup, hkey, hp']

theorem find_of_mem (hnodup : (a.assemblies.map fst).Nodup) {e : UInt64 × Partial}
    (he : e ∈ a.assemblies) : a.find e.1 = some e.2 := by
  rw [find, (lookup_eq_some hnodup).mpr ⟨he, rfl⟩]
  rfl

theorem keys_modify (id : UInt64) (g : Partial → Partial) :
    (a.modify id g).assemblies.map fst = a.assemblies.map fst :=
  map_updateFirst (f := fun e => (e.1, g e.2)) fun _ _ => rfl

theorem find_modify (hnodup : (a.assemblies.map fst).Nodup) (id key : UInt64) (g : Partial → Partial) :
    (a.modify id g).find key = if id = key then (a.find key).map g else a.find key := by
  rw [find, find]
  show (lookup fst (updateFirst _ (fun e => (e.1, g e.2)) a.assemblies) key).map _ = _
  rw [lookup_updateFirst fst (f := fun e => (e.1, g e.2)) (fun _ _ => rfl) hnodup]
  split
  case h_1 e he =>
    have hkey : e.1 = id := by simpa using List.find?_some he
    rw [hkey]
    split
    case isTrue heq =>
      have hlookup : lookup fst a.assemblies key = some e := by
        rw [← heq]
        exact he
      rw [hlookup]
      rfl
    case isFalse => rfl
  case h_2 he =>
    split
    case isTrue heq =>
      have hlookup : lookup fst a.assemblies key = none := by
        rw [← heq]
        exact he
      rw [hlookup]
      rfl
    case isFalse => rfl

theorem Tracks.modify (h : Tracks insts live seen a) (hinsts : Cut insts) (hi : i ∈ insts)
    (hp : a.find i.id = some p) {p' : Partial} {seen' : List Fragment}
    (hp' : p'.Holds seen' i.fragments)
    (hseen : ∀ j ∈ insts, j ≠ i → ∀ g ∈ j.fragments, g ∈ seen ↔ g ∈ seen')
    (hbytes : p.bytes ≤ p'.bytes) :
    Tracks insts live seen' { a.modify i.id (fun _ => p') with
      buffered := a.buffered + (p'.bytes - p.bytes) } where
  nodup := by
    rw [show _ = a.assemblies.map fst from keys_modify i.id fun _ => p']
    exact h.nodup
  holds := by
    intro id q hq
    have hfind := (find_modify h.nodup i.id id fun _ => p').symm.trans hq
    obtain ⟨j, hj, hid, hlive, hq'⟩ : ∃ j ∈ insts, j.id = id ∧ live j ∧
        (i.id = id ∨ q.Holds seen j.fragments) := by
      split at hfind
      case isTrue heq =>
        obtain ⟨j, hj, hid, hlive, -⟩ := h.holds i.id p hp
        exact ⟨j, hj, hid.trans heq, hlive, .inl heq⟩
      case isFalse =>
        obtain ⟨j, hj, hid, hlive, hq'⟩ := h.holds id q hfind
        exact ⟨j, hj, hid, hlive, .inr hq'⟩
    refine ⟨j, hj, hid, hlive, ?_⟩
    by_cases heq : i.id = id
    · rw [hinsts.eq_of_id hj hi (hid.trans heq.symm)]
      rw [if_pos heq, ← heq, hp] at hfind
      rw [← Option.some.inj hfind]
      exact hp'
    · refine (hq'.resolve_left heq).congr (hseen j hj ?_)
      rintro rfl
      exact heq hid
  found := by
    intro j hj hlive
    obtain ⟨q, hq⟩ := h.found j hj hlive
    by_cases heq : i.id = j.id
    · refine ⟨p', (find_modify h.nodup i.id j.id fun _ => p').trans ?_⟩
      rw [if_pos heq, hq]
      rfl
    · refine ⟨q, (find_modify h.nodup i.id j.id fun _ => p').trans ?_⟩
      rw [if_neg heq, hq]
  buffered_eq := by
    have hsum := sum_updateFirst (f := fun e : UInt64 × Partial => (e.1, p'))
      (fun e => e.2.bytes) (lookup_of_find hp)
    have hbuf := h.buffered_eq
    show a.buffered + (p'.bytes - p.bytes) =
      ((updateFirst _ (fun e => (e.1, p')) a.assemblies).map fun e => e.2.bytes).sum
    simp only at hsum
    omega
  maxAssemblies_eq := h.maxAssemblies_eq
  maxBytes_eq := h.maxBytes_eq

theorem Tracks.sum_le (h : Tracks insts live seen a) [DecidablePred live] (weight : Partial → ℕ)
    (weightI : Instruction → ℕ)
    (hle : ∀ i ∈ insts, ∀ p, a.find i.id = some p → p.Holds seen i.fragments → weight p ≤ weightI i) :
    (a.assemblies.map fun e => weight e.2).sum ≤ ((insts.filter fun i => live i).map weightI).sum := by
  refine sum_le_sum Instruction.id (fun e => weight e.2) weightI h.nodup fun e he => ?_
  have hfind := find_of_mem h.nodup he
  obtain ⟨i, hi, hid, hlive, hp⟩ := h.holds e.1 e.2 hfind
  exact ⟨i, List.mem_filter.mpr ⟨hi, decide_eq_true hlive⟩, hid, hle i hi e.2 (hid ▸ hfind) hp⟩

theorem Tracks.length_le (h : Tracks insts live seen a) [DecidablePred live] :
    a.assemblies.length ≤ (insts.filter fun i => live i).length := by
  have hsum := h.sum_le (fun _ => 1) (fun _ => 1) fun _ _ _ _ _ => Nat.le_refl 1
  simpa using hsum

theorem evictWhile_of_not_full {full : FragmentAssembly → Bool} (exclude : UInt64)
    (h : full a = false) : a.evictWhile full exclude = (a, true) := by
  rw [evictWhile, if_neg (by rw [h]; exact Bool.false_ne_true)]

variable {live' : Instruction → Prop}

theorem Tracks.congr_live (h : Tracks insts live seen a)
    (hlive : ∀ j ∈ insts, live j ↔ live' j) : Tracks insts live' seen a where
  nodup := h.nodup
  holds := fun id p hp => by
    obtain ⟨j, hj, hid, hl, hholds⟩ := h.holds id p hp
    exact ⟨j, hj, hid, (hlive j hj).mp hl, hholds⟩
  found := fun j hj hl => h.found j hj ((hlive j hj).mpr hl)
  buffered_eq := h.buffered_eq
  maxAssemblies_eq := h.maxAssemblies_eq
  maxBytes_eq := h.maxBytes_eq

theorem Tracks.tick (h : Tracks insts live seen a) (clock : UInt64) : Tracks insts live seen { a with clock } :=
  ⟨h.nodup, h.holds, h.found, h.buffered_eq, h.maxAssemblies_eq, h.maxBytes_eq⟩

theorem Tracks.holds_of_find (h : Tracks insts live seen a) (hinsts : Cut insts) (hi : i ∈ insts)
    (hp : a.find i.id = some p) : live i ∧ p.Holds seen i.fragments := by
  obtain ⟨j, hj, hid, hlive, hholds⟩ := h.holds i.id p hp
  rw [← hinsts.eq_of_id hj hi hid]
  exact ⟨hlive, hholds⟩

theorem Tracks.buffered_le (h : Tracks insts live seen a) (hinsts : Cut insts)
    [DecidablePred live] :
    a.buffered ≤ ((insts.filter fun i => live i).map fun i => i.payload.length).sum := by
  rw [h.buffered_eq]
  exact h.sum_le Partial.bytes (fun i => i.payload.length)
    fun i hi p _ hp => hp.bytes_le (hinsts.isCut i hi)

/-! ### One arrival -/

theorem Tracks.insert (h : Tracks insts live seen a) (hinsts : Cut insts) (hi : i ∈ insts)
    (hnone : a.find i.id = none) (hseen : ∀ g ∈ i.fragments, g ∉ seen) :
    Tracks insts (fun j => live j ∨ j = i) seen
      { a with assemblies := a.assemblies ++ [(i.id, {})] } where
  nodup := by
    rw [find, Option.map_eq_none_iff, lookup_eq_none] at hnone
    rw [List.map_append]
    exact h.nodup.append (List.nodup_singleton _) (by simpa using hnone)
  holds := by
    intro id p hp
    rw [find, lookup_append] at hp
    by_cases hid : i.id = id
    · rw [find, Option.map_eq_none_iff, hid] at hnone
      rw [hnone, Option.none_or, lookup_cons, if_pos hid] at hp
      rw [← Option.some.inj hp]
      exact ⟨i, hi, hid, .inr rfl, Partial.holds_new (hinsts.isCut i hi).ne_nil hseen⟩
    · rw [lookup_cons, if_neg hid] at hp
      have hold : a.find id = some p := by
        rw [← hp, find]
        exact congrArg _ Option.or_none.symm
      obtain ⟨j, hj, hjid, hlive, hholds⟩ := h.holds id p hold
      exact ⟨j, hj, hjid, .inl hlive, hholds⟩
  found := by
    intro j hj hlive
    rw [find, lookup_append]
    rcases hlive with hlive | rfl
    · obtain ⟨p, hp⟩ := h.found j hj hlive
      rw [lookup_of_find hp]
      exact ⟨p, rfl⟩
    · rw [find, Option.map_eq_none_iff] at hnone
      rw [hnone, Option.none_or, lookup_cons, if_pos rfl]
      exact ⟨{}, rfl⟩
  buffered_eq := by
    rw [List.map_append, List.sum_append, ← h.buffered_eq]
    rfl
  maxAssemblies_eq := h.maxAssemblies_eq
  maxBytes_eq := h.maxBytes_eq

/-- **There is room for the assembly of an arriving fragment.** -/
theorem Tracks.makeRoomFor (h : Tracks insts live seen a) (hinsts : Cut insts) (hi : i ∈ insts)
    [DecidablePred live'] (hlive : ∀ j ∈ insts, live j ∨ j = i ↔ live' j)
    (hseen : ¬live i → ∀ g ∈ i.fragments, g ∉ seen)
    (hroom : (insts.filter fun j => live' j).length ≤ Posh.maxAssemblies) :
    ∃ a', a.makeRoomFor i.id = (a', true) ∧ Tracks insts live' seen a' := by
  rw [FragmentAssembly.makeRoomFor]
  cases hfind : a.find i.id with
  | some p =>
    refine ⟨a, rfl, h.congr_live fun j hj => ?_⟩
    rw [← hlive j hj]
    refine ⟨.inl, fun hor => hor.elim (fun hl => hl) ?_⟩
    rintro rfl
    exact (h.holds_of_find hinsts hi hfind).1
  | none =>
    have hnot : ¬live i := fun hl => by
      obtain ⟨p, hp⟩ := h.found i hi hl
      rw [hfind] at hp
      cases hp
    have hnew := (h.insert hinsts hi hfind (hseen hnot)).congr_live hlive
    have hlen := hnew.length_le
    rw [List.length_append, List.length_singleton] at hlen
    have hfree : decide (a.maxAssemblies ≤ a.assemblies.length) = false := by
      rw [h.maxAssemblies_eq]
      exact decide_eq_false (by omega)
    have hevict : a.evictWhile (fun a => a.maxAssemblies ≤ a.assemblies.length) i.id = (a, true) :=
      evictWhile_of_not_full i.id hfree
    rw [hevict]
    exact ⟨_, rfl, hnew⟩

theorem Cut.frame (hinsts : Cut insts) (hi : i ∈ insts) (hf : f ∈ i.fragments)
    (hj : j ∈ insts) (hne : j ≠ i) {g : Fragment} (hg : g ∈ j.fragments) : g ∈ seen ↔ g ∈ seen ++ [f] := by
  rw [mem_append, List.mem_singleton]
  refine ⟨.inl, fun hor => hor.elim (fun hin => hin) ?_⟩
  rintro rfl
  exact absurd (hinsts.eq_of_mem hj hi hg hf) hne

/-- **There is room for the bytes of an arriving fragment.** -/
theorem Tracks.incoming_le (h : Tracks insts live seen a) [DecidablePred live] (hinsts : Cut insts)
    (hi : i ∈ insts) (hf : f ∈ i.fragments) (hp : a.find i.id = some p)
    (hdup : p.isDuplicate f = false)
    (hroom : ((insts.filter fun j => live j).map fun j => j.payload.length).sum ≤ maxAssemblyBytes) :
    a.buffered + f.contents.length ≤ maxAssemblyBytes := by
  have hholds := (h.holds_of_find hinsts hi hp).2
  have hcut := hinsts.isCut i hi
  have hnew : f ∉ seen := by
    rw [← hholds.isDuplicate_iff hcut hf, hdup]
    exact Bool.false_ne_true
  obtain ⟨hput, hbytes⟩ := hholds.put hcut hf
  rw [if_neg hnew] at hbytes
  have hle := (h.modify hinsts hi hp hput (fun j hj hne g hg => hinsts.frame hi hf hj hne hg)
    (by omega)).buffered_le hinsts
  simp only [hbytes] at hle
  omega

theorem Tracks.feed (h : Tracks insts live seen a) (hinsts : Cut insts) (hi : i ∈ insts)
    (hf : f ∈ i.fragments) (hp : a.find i.id = some p) :
    (a.feed f p).2 = (if i.Complete (seen ++ [f]) then some i.payload else none) ∧
      Tracks insts (fun j => live j ∧ ¬(j = i ∧ i.Complete (seen ++ [f]))) (seen ++ [f])
        (a.feed f p).1 := by
  have hcut := hinsts.isCut i hi
  have hid : f.id = i.id := hcut.id_eq f hf
  obtain ⟨hlive, hholds⟩ := h.holds_of_find hinsts hi hp
  obtain ⟨hle, hadd⟩ := hholds.add hcut hf
  have hframe : ∀ j ∈ insts, j ≠ i → ∀ g ∈ j.fragments, g ∈ seen ↔ g ∈ seen ++ [f] :=
    fun j hj hne g hg => hinsts.frame hi hf hj hne hg
  rw [FragmentAssembly.feed, hid]
  by_cases hdone : i.Complete (seen ++ [f])
  · rw [if_pos fun g hg => hdone g hg] at hadd
    simp only [hadd, Option.isSome_some, if_true]
    refine ⟨by rw [if_pos hdone], ?_, ?_, ?_, ?_, h.maxAssemblies_eq, h.maxBytes_eq⟩
    · exact nodup_eraseP h.nodup
    · intro id q hq
      by_cases hne : id = i.id
      · rw [find, hne, lookup_eraseP_self h.nodup] at hq
        cases hq
      · rw [find, lookup_eraseP_of_ne hne] at hq
        obtain ⟨j, hj, hjid, hjlive, hjholds⟩ := h.holds id q hq
        have hji : j ≠ i := by
          rintro rfl
          exact hne hjid.symm
        exact ⟨j, hj, hjid, ⟨hjlive, fun hand => hji hand.1⟩, hjholds.congr (hframe j hj hji)⟩
    · rintro j hj ⟨hjlive, hnot⟩
      have hji : j.id ≠ i.id := fun heq => hnot ⟨hinsts.eq_of_id hj hi heq, hdone⟩
      obtain ⟨q, hq⟩ := h.found j hj hjlive
      refine ⟨q, ?_⟩
      rw [find, lookup_eraseP_of_ne hji]
      exact hq
    · have hperm := perm_eraseP (lookup_of_find hp)
      have hsum := (hperm.map fun e => e.2.bytes).sum_eq
      rw [← h.buffered_eq, List.map_cons, List.sum_cons] at hsum
      simp only at hsum ⊢
      omega
  · have hmissing : ¬∀ g ∈ i.fragments, g ∈ seen ++ [f] := hdone
    rw [if_neg hmissing] at hadd
    simp only [hadd.1, Option.isSome_none, Bool.false_eq_true, if_false]
    refine ⟨by rw [if_neg hdone], ?_⟩
    refine (h.modify hinsts hi hp hadd.2 hframe hle).congr_live fun j _ => ?_
    exact ⟨fun hl => ⟨hl, fun hand => hdone hand.2⟩, And.left⟩

/-- An instruction is begun and not complete. -/
def Unfinished (seen : List Fragment) (i : Instruction) : Prop :=
  i.Started seen ∧ ¬i.Complete seen

/-- **One arrival**: the last missing fragment of an instruction gives its payload, any other gives
nothing, and the receiver goes on tracking what arrived. -/
theorem Tracks.add (h : Tracks insts (Unfinished seen) seen a) (hinsts : Cut insts) (hi : i ∈ insts)
    (hf : f ∈ i.fragments) (hnot : ¬i.Complete seen) (hroom : WithinBounds insts seen f) :
    (a.add f).2 = (if i.Complete (seen ++ [f]) then some i.payload else none) ∧
      Tracks insts (Unfinished (seen ++ [f])) (seen ++ [f]) (a.add f).1 := by
  have hid : f.id = i.id := (hinsts.isCut i hi).id_eq f hf
  have hassembling : ∀ j ∈ insts, Unfinished seen j ∨ j = i ↔ j.Assembling seen f := by
    intro j hj
    constructor
    · rintro (⟨hstart, hopen⟩ | rfl)
      · exact ⟨.inl hstart, hopen⟩
      · exact ⟨.inr hf, hnot⟩
    · rintro ⟨hstart | hmem, hopen⟩
      · exact .inl ⟨hstart, hopen⟩
      · exact .inr (hinsts.eq_of_mem hj hi hmem hf)
  obtain ⟨a', hplace, htracks⟩ := (h.tick (a.clock + 1)).makeRoomFor hinsts hi hassembling
    (fun hdead g hg hg' => hdead ⟨⟨g, hg, hg'⟩, hnot⟩) hroom.1
  obtain ⟨p, hp⟩ := htracks.found i hi ⟨.inr hf, hnot⟩
  have hholds := (htracks.holds_of_find hinsts hi hp).2
  have hrejects := hholds.rejects_eq (hinsts.isCut i hi) (hinsts.length_le i hi) hf
  -- the stamp of the last update changes nothing that is tracked
  have htouched := htracks.modify hinsts hi hp (hholds.touch a'.clock) (fun _ _ _ _ _ => .rfl)
    (Nat.le_refl _)
  rw [Nat.sub_self] at htouched
  have hfind : (a'.modify i.id fun _ => { p with touched := a'.clock }).find i.id =
      some { p with touched := a'.clock } := by
    rw [find_modify htracks.nodup, if_pos rfl, hp]
    rfl
  have hmade : (if Partial.isDuplicate { p with touched := a'.clock } f then
        (a'.modify i.id fun _ => { p with touched := a'.clock }, true)
      else
        (a'.modify i.id fun _ => { p with touched := a'.clock }).evictWhile
          (fun a => a.maxBytes < a.buffered + f.contents.length) i.id) =
      (a'.modify i.id fun _ => { p with touched := a'.clock }, true) := by
    split
    case isTrue => rfl
    case isFalse hdup =>
      have hle := Tracks.incoming_le htouched hinsts hi hf hfind (Bool.eq_false_iff.mpr hdup) hroom.2
      refine evictWhile_of_not_full i.id (decide_eq_false (Nat.not_lt.mpr ?_))
      rw [htouched.maxBytes_eq]
      exact hle
  have hfeed := Tracks.feed htouched hinsts hi hf hfind
  rw [FragmentAssembly.add, hid]
  simp only [hplace, hp, hrejects, hmade, Bool.false_eq_true, if_false]
  refine ⟨hfeed.1, hfeed.2.congr_live fun j hj => ?_⟩
  by_cases hji : j = i
  · subst hji
    exact ⟨fun hand => ⟨⟨f, hf, List.mem_append_right _ (List.mem_singleton_self f)⟩,
      fun hdone => hand.2 ⟨rfl, hdone⟩⟩, fun hun => ⟨⟨.inr hf, hnot⟩, fun hand => hun.2 hand.2⟩⟩
  · have hframe : ∀ g ∈ j.fragments, g ∈ seen ↔ g ∈ seen ++ [f] :=
      fun g hg => hinsts.frame hi hf hj hji hg
    have hmem : f ∉ j.fragments := fun hfj => hji (hinsts.eq_of_mem hj hi hfj hf)
    constructor
    · rintro ⟨⟨hstart | hfj, hopen⟩, -⟩
      · obtain ⟨g, hg, hgs⟩ := hstart
        exact ⟨⟨g, hg, (hframe g hg).mp hgs⟩, fun hall => hopen fun g hg => (hframe g hg).mpr (hall g hg)⟩
      · exact absurd hfj hmem
    · rintro ⟨⟨g, hg, hgs⟩, hopen⟩
      exact ⟨⟨.inl ⟨g, hg, (hframe g hg).mpr hgs⟩,
        fun hall => hopen fun g hg => (hframe g hg).mp (hall g hg)⟩, fun hand => hji hand.1⟩

/-! ### Every order of arrival -/

theorem tracks_new : Tracks insts (Unfinished []) [] {} where
  nodup := List.nodup_nil
  holds := fun _ _ hp => by cases hp
  found := fun j _ hlive => by
    obtain ⟨g, -, hg⟩ := hlive.1
    cases hg
  buffered_eq := rfl
  maxAssemblies_eq := rfl
  maxBytes_eq := rfl

theorem receive_toBytes (hinsts : Cut insts) (hi : i ∈ insts) (hf : f ∈ i.fragments) :
    a.receive f.toBytes = a.add f := by
  have hk := Partial.getElem?_num (hinsts.isCut i hi) hf
  have hlt := (List.getElem?_eq_some_iff.mp hk).1
  have hmax := hinsts.length_le i hi
  rw [maxFragments] at hmax
  rw [receive, fromBytes_toBytes (by omega)]

/-- **What the receiver tracks is what arrived**, all along. -/
theorem tracks_run (hinsts : Cut insts) (hadm : Admissible insts arrivals)
    {k : ℕ} (hk : k ≤ arrivals.length) : Tracks insts (Unfinished (arrivals.take k)) (arrivals.take k)
      (receiveRun {} ((arrivals.take k).map toBytes)) := by
  induction k with
  | zero => exact tracks_new
  | succ k ih =>
    have hget := List.getElem?_eq_getElem (show k < arrivals.length from hk)
    obtain ⟨⟨i, hi, hf, hnot⟩, hroom⟩ := hadm k _ hget
    have hstep := ((ih (Nat.le_of_succ_le hk)).add hinsts hi hf hnot hroom).2
    rw [List.take_succ_eq_append_getElem hk, List.map_append, List.map_singleton, receiveRun_append,
      receive_toBytes hinsts hi hf]
    exact hstep

theorem receiveAll_arrivals (hinsts : Cut insts)
    (hadm : Admissible insts arrivals) {k : ℕ} (hk : arrivals[k]? = some f) (hi : i ∈ insts)
    (hf : f ∈ i.fragments) : (receiveAll {} (arrivals.map toBytes))[k]? =
      some (if i.Complete (arrivals.take (k + 1)) then some i.payload else none) := by
  obtain ⟨⟨j, hj, hfj, hnot⟩, hroom⟩ := hadm k f hk
  obtain ⟨hlt, hget⟩ := List.getElem?_eq_some_iff.mp hk
  have htracks := tracks_run hinsts hadm (Nat.le_of_lt hlt)
  rw [hinsts.eq_of_mem hj hi hfj hf] at hnot
  rw [receiveAll_getElem?, List.getElem?_map, hk, ← List.map_take, List.take_succ_eq_append_getElem hlt, hget]
  show some ((receiveRun {} _).receive f.toBytes).2 = _
  rw [receive_toBytes hinsts hi hf, (htracks.add hinsts hi hf hnot hroom).1]

theorem Complete.mono {seen' : List Fragment} (h : i.Complete seen) (hsub : ∀ g ∈ seen, g ∈ seen') :
    i.Complete seen' :=
  fun g hg => hsub g (h g hg)

theorem exists_completing (hne : i.fragments ≠ []) (hall : i.Complete arrivals) :
    ∃ (k : ℕ) (f : Fragment), arrivals[k]? = some f ∧ f ∈ i.fragments ∧ i.Complete (arrivals.take (k + 1)) := by
  have hex : ∃ n, i.Complete (arrivals.take n) := ⟨arrivals.length, by rwa [List.take_length]⟩
  have hdone := Nat.find_spec hex
  rcases hn : Nat.find hex with _ | k
  · rw [hn, List.take_zero] at hdone
    obtain ⟨f, hf⟩ := List.exists_mem_of_ne_nil _ hne
    cases hdone f hf
  · rw [hn] at hdone
    have hbefore : ¬i.Complete (arrivals.take k) := Nat.find_min hex (by omega)
    have hlt : k < arrivals.length := by
      by_contra hge
      rw [List.take_of_length_le (by omega)] at hdone hbefore
      exact hbefore hdone
    rw [Instruction.Complete] at hbefore
    push Not at hbefore
    obtain ⟨g, hg, hnew⟩ := hbefore
    have hin := hdone g hg
    rw [List.take_succ_eq_append_getElem hlt, mem_append, List.mem_singleton] at hin
    have hgk := hin.resolve_left hnew
    refine ⟨k, g, ?_, hg, hdone⟩
    rw [hgk]
    exact List.getElem?_eq_getElem hlt

/-- **Every instruction is put together exactly once.**  A sender's instructions are cut, and their
fragments arrive in any order the receiver's bounds allow.  What the receiver gives at an arrival is the
payload of the fragment's instruction if that fragment was the last one missing, and nothing otherwise;
and each instruction whose fragments all arrive is given at one arrival and no other. -/
theorem reassembly (calls : List FragmentCall) (hcalls : calls.length < 2 ^ 64)
    (hsize : ∀ c ∈ calls, c.payload.length ≤ maxFragments * c.maxContents)
    (arrivals : List Fragment)
    (hadm : Admissible (Fragmenter.instructions {} calls) arrivals) :
    let answers := receiveAll {} (arrivals.map Fragment.toBytes)
    (∀ (k : ℕ) (f : Fragment), arrivals[k]? = some f →
      ∃ i ∈ Fragmenter.instructions {} calls, f ∈ i.fragments ∧ answers[k]? =
          some (if i.Complete (arrivals.take (k + 1)) then some i.payload else none)) ∧
    ∀ i ∈ Fragmenter.instructions {} calls, i.Complete arrivals →
      ∃! k : ℕ, ∃ f ∈ i.fragments, arrivals[k]? = some f ∧ ∃ payload, answers[k]? = some (some payload) := by
  intro answers
  have hinsts : Cut (Fragmenter.instructions {} calls) :=
    ⟨Fragmenter.ids_nodup hcalls, fun i hi => (Fragmenter.isCut_of_mem hsize hi).1,
      fun i hi => (Fragmenter.isCut_of_mem hsize hi).2⟩
  constructor
  · intro k f hk
    obtain ⟨⟨i, hi, hf, -⟩, -⟩ := hadm k f hk
    exact ⟨i, hi, hf, receiveAll_arrivals hinsts hadm hk hi hf⟩
  · intro i hi hall
    obtain ⟨k, f, hk, hf, hdone⟩ := exists_completing (hinsts.isCut i hi).ne_nil hall
    refine ⟨k, ⟨f, hf, hk, i.payload, ?_⟩, ?_⟩
    · rw [receiveAll_arrivals hinsts hadm hk hi hf, if_pos hdone]
    · rintro m ⟨g, hg, hm, payload, hpayload⟩
      have hdone' : i.Complete (arrivals.take (m + 1)) := by
        by_contra hnot
        rw [receiveAll_arrivals hinsts hadm hm hi hg, if_neg hnot] at hpayload
        cases hpayload
      -- an instruction is not complete before an arrival of its own, so neither arrival precedes the other
      have hfirst : ∀ {n : ℕ} {h : Fragment}, arrivals[n]? = some h → h ∈ i.fragments →
          ¬i.Complete (arrivals.take n) := by
        intro n h hn hh
        obtain ⟨⟨j, hj, hjh, hnot⟩, -⟩ := hadm n h hn
        rwa [hinsts.eq_of_mem hj hi hjh hh] at hnot
      have hmono : ∀ {n n' : ℕ}, n ≤ n' → i.Complete (arrivals.take n) → i.Complete (arrivals.take n') :=
        fun hle h => Complete.mono h fun g hg => List.take_subset_take_left _ hle hg
      rcases Nat.lt_trichotomy m k with hlt | heq | hlt
      · exact absurd (hmono hlt hdone') (hfirst hk hf)
      · exact heq
      · exact absurd (hmono hlt hdone) (hfirst hm hg)

/-- Two instructions interleave, the first with its final fragment ahead and twice. -/
theorem reassembly_interleaved :
    (receiveAll {} (List.map Fragment.toBytes
      [⟨1, 1, true, [3]⟩, ⟨2, 0, true, [4]⟩, ⟨1, 1, true, [3]⟩, ⟨1, 0, false, [1, 2]⟩]))[3]? =
      some (some [1, 2, 3]) := by
  have hinsts : Fragmenter.instructions {}
      [⟨[1, 2, 3], 2, by decide⟩, ⟨[4], 1, by decide⟩] =
      [⟨1, [1, 2, 3], [⟨1, 0, false, [1, 2]⟩, ⟨1, 1, true, [3]⟩]⟩, ⟨2, [4], [⟨2, 0, true, [4]⟩]⟩] := by
    simp [Fragmenter.instructions, Fragmenter.makeFragments, Fragmenter.cutFrom]
  have hadm : Admissible (Fragmenter.instructions {}
      [⟨[1, 2, 3], 2, by decide⟩, ⟨[4], 1, by decide⟩])
      [⟨1, 1, true, [3]⟩, ⟨2, 0, true, [4]⟩, ⟨1, 1, true, [3]⟩, ⟨1, 0, false, [1, 2]⟩] := by
    rw [hinsts]
    intro k f hk
    refine ⟨?_, withinBounds_of_few (by decide) (by decide) _ f⟩
    rcases k with _ | _ | _ | _ | k <;> cases hk <;> decide
  obtain ⟨i, hi, hf, hk⟩ := (reassembly _ (by decide) (by decide) _ hadm).1 3 _ rfl
  rw [hinsts] at hi
  rcases List.mem_cons.mp hi with rfl | hi
  · exact hk
  · rw [List.mem_singleton.mp hi] at hf
    exact absurd hf (by decide)

end FragmentAssembly

end Posh
