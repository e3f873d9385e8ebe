/-
**When a refused fragment does no harm.**

A fragment that cannot belong to its instruction is dropped.  But a receiver looks for the fragment's
assembly first, and begins one when there is none; a full table gives up the assembly that was updated
longest ago before the fragment is looked at.  So a refused fragment is harmless exactly when its instruction
has an assembly, or the table is not full, or the assembly to go holds nothing.
-/

import Posh.AssemblyAccounts

set_option autoImplicit false

namespace Posh

open FragmentAssembly (makeRoomFor)
open Partial
open Keyed

namespace Partial

variable {p : Partial} {f : Fragment}

theorem store_touched (p : Partial) (clock : UInt64) (f : Fragment) :
    store { p with touched := clock } f = { p.store f with touched := clock } := by
  by_cases hempty : p.fragments[f.num.toNat]? = some none
  · rw [store, store, if_pos hempty, if_pos hempty]
  · rw [store, store, if_neg hempty, if_neg hempty]

theorem add_touched (p : Partial) (clock : UInt64) (f : Fragment) :
    add { p with touched := clock } f = ({ (p.add f).1 with touched := clock }, (p.add f).2) := by
  have hput : put { p with touched := clock } f = { p.put f with touched := clock } := by
    rw [put, put, ← store_touched, noteFinal, noteFinal]
    cases f.isFinal <;> rfl
  rw [add, add, hput]
  by_cases hdone : (p.put f).total = some (p.put f).arrived ∧ (p.put f).fragments.length = (p.put f).arrived
  · rw [if_pos hdone, if_pos hdone]
  · rw [if_neg hdone, if_neg hdone]

/-- Two partial instructions hold the same, whenever they were updated. -/
def SameSlots (p q : Partial) : Prop := ∃ clock, q = { p with touched := clock }

theorem SameSlots.refl (p : Partial) : p.SameSlots p := ⟨p.touched, rfl⟩

theorem SameSlots.add {q : Partial} (h : p.SameSlots q) (f : Fragment) (s t : UInt64) :
    (add { p with touched := s } f).2 = (add { q with touched := t } f).2 ∧
      (add { p with touched := s } f).1.SameSlots (add { q with touched := t } f).1 := by
  obtain ⟨clock, rfl⟩ := h
  rw [add_touched p s f, show ({ ({ p with touched := clock } : Partial) with touched := t } : Partial) =
    { p with touched := t } from rfl, add_touched p t f]
  exact ⟨rfl, t, rfl⟩

end Partial

namespace FragmentAssembly

variable {a b : FragmentAssembly} {f : Fragment} {p : Partial} {id : UInt64} {e : UInt64 × Partial}

/-- The fragment is refused by its assembly, or by the one it would begin. -/
def refuses (a : FragmentAssembly) (f : Fragment) : Bool := ((a.find f.id).getD {}).rejects f

/-- What the receiver gives for some fragments. -/
def outputs (a : FragmentAssembly) : List Fragment → List (Option Bytes)
  | [] => []
  | f :: fs => (a.add f).2 :: (a.add f).1.outputs fs

/-- **What one instruction's fragments give depends on its own assembly alone**: whatever else two receivers
with the same bound on bytes hold. -/
theorem outputs_eq_of_find (ha : a.Accounted) (hb : b.Accounted) (hposA : 0 < a.maxAssemblies)
    (hposB : 0 < b.maxAssemblies) (hmax : a.maxBytes = b.maxBytes)
    (hsame : ((a.find id).getD {}).SameSlots ((b.find id).getD {})) {fs : List Fragment}
    (hid : ∀ f ∈ fs, f.id = id) : a.outputs fs = b.outputs fs := by
  induction fs generalizing a b with
  | nil => rfl
  | cons f fs ih =>
    obtain rfl := hid f List.mem_cons_self
    obtain ⟨haccA, hmaxA, hbytesA, hcasesA⟩ := ha.add f
    obtain ⟨haccB, hmaxB, hbytesB, hcasesB⟩ := hb.add f
    obtain ⟨p, hp⟩ : ∃ p, (a.find f.id).getD {} = p := ⟨_, rfl⟩
    obtain ⟨q, hq⟩ : ∃ q, (b.find f.id).getD {} = q := ⟨_, rfl⟩
    rw [hp, hq] at hsame
    have hpq : q.rejects f = p.rejects f ∧ (TooBig b.maxBytes q f ↔ TooBig a.maxBytes p f) := by
      obtain ⟨clock, rfl⟩ := hsame
      rw [hmax]
      exact ⟨rfl, .rfl⟩
    specialize hcasesA hposA p hp
    specialize hcasesB hposB q hq
    rw [hpq.1] at hcasesB
    have hgiven : (a.add f).2 = (b.add f).2 ∧
        (((a.add f).1.find f.id).getD {}).SameSlots (((b.add f).1.find f.id).getD {}) := by
      by_cases hrejects : p.rejects f = true
      · rw [if_pos hrejects] at hcasesA hcasesB
        rw [hcasesA.1, hcasesB.1, hcasesA.2, hcasesB.2]
        exact ⟨rfl, hsame⟩
      · rw [if_neg hrejects] at hcasesA hcasesB
        by_cases hbig : TooBig a.maxBytes p f
        · rw [if_pos hbig] at hcasesA
          rw [if_pos (hpq.2.mpr hbig)] at hcasesB
          rw [hcasesA.1, hcasesB.1, hcasesA.2, hcasesB.2]
          exact ⟨rfl, .refl _⟩
        · rw [if_neg hbig] at hcasesA
          rw [if_neg fun h => hbig (hpq.2.mp h)] at hcasesB
          obtain ⟨s, hgivenA, hkeptA⟩ := hcasesA
          obtain ⟨t, hgivenB, hkeptB⟩ := hcasesB
          obtain ⟨hout, hslots⟩ := hsame.add f s t
          have heq : (a.add f).2 = (b.add f).2 := by rw [hgivenA, hgivenB, hout]
          refine ⟨heq, ?_⟩
          rw [hkeptA, hkeptB, heq]
          split
          · exact .refl _
          · exact hslots
    rw [outputs, outputs, hgiven.1, ih haccA haccB (hmaxA ▸ hposA) (hmaxB ▸ hposB)
      (by rw [hbytesA, hbytesB, hmax]) hgiven.2 fun g hg => hid g (List.mem_cons_of_mem _ hg)]

/-- **What a refused fragment may not do**: it gives nothing, every instruction that is partly there has the
assembly it had, and its remaining fragments give what they would have given. -/
def Harmless (a : FragmentAssembly) (f : Fragment) : Prop :=
  (a.add f).2 = none ∧ ∀ (id : UInt64) (p : Partial), a.find id = some p → p.fragments ≠ [] →
      (a.add f).1.find id = some p ∧ ∀ rest : List Fragment, (∀ g ∈ rest, g.id = id) →
          (a.add f).1.outputs rest = a.outputs rest

/-- Nothing that holds a fragment has to go: the fragment's instruction has an assembly, or the table is not
full, or the assembly that was updated longest ago holds nothing. -/
def SparesLive (a : FragmentAssembly) (f : Fragment) : Prop :=
  a.find f.id = none → a.maxAssemblies ≤ a.assemblies.length →
    ∀ e, a.victim f.id = some e → e.2.fragments = []

instance (a : FragmentAssembly) (f : Fragment) : Decidable (a.SparesLive f) :=
  inferInstanceAs (Decidable (_ → _ → ∀ e ∈ a.victim f.id, e.2.fragments = []))

theorem add_refused (h : a.Accounted) (hrefused : a.refuses f = true) :
    a.add f = ((makeRoomFor { a with clock := a.clock + 1 } f.id).1, none) := by
  obtain ⟨-, -, -, hthere, -⟩ := (h.tick (a.clock + 1)).makeRoomFor f.id
  rw [FragmentAssembly.add]
  rcases hmade : makeRoomFor { a with clock := a.clock + 1 } f.id with ⟨b, ok⟩
  rw [hmade] at hthere
  cases ok with
  | false => rfl
  | true =>
    have hfind : b.find f.id = some ((a.find f.id).getD {}) := hthere rfl
    have hrejects : ((a.find f.id).getD {}).rejects f = true := hrefused
    simp only [hfind, hrejects, if_true]

theorem find_push (a : FragmentAssembly) (new : UInt64) (hp : a.find id = some p) :
    FragmentAssembly.find { a with assemblies := a.assemblies ++ [(new, {})] } id = some p := by
  rw [find, lookup_append, lookup_of_find hp]
  rfl

theorem makeRoomFor_of_free (hnone : a.find f.id = none) (hfree : ¬a.maxAssemblies ≤ a.assemblies.length) :
    a.makeRoomFor f.id = ({ a with assemblies := a.assemblies ++ [(f.id, {})] }, true) := by
  have hevict : a.evictWhile (fun a => a.maxAssemblies ≤ a.assemblies.length) f.id = (a, true) :=
    evictWhile_of_not_full f.id (decide_eq_false hfree)
  rw [makeRoomFor, hnone, hevict]

theorem makeRoomFor_of_full (h : a.Accounted) (hnone : a.find f.id = none)
    (hfull : a.maxAssemblies ≤ a.assemblies.length) (he : a.victim f.id = some e) :
    (∃ rest, a.assemblies.Perm (e :: rest) ∧
      (a.makeRoomFor f.id).1.assemblies = rest ++ [(f.id, ({} : Partial))]) ∧ e.1 ≠ f.id := by
  rcases a.evict_spec f.id with ⟨e', he', hne, rest, hperm, -, hevict⟩ | ⟨hno, -⟩
  · obtain rfl := Option.some.inj (he'.symm.trans he)
    refine ⟨⟨rest, hperm, ?_⟩, hne⟩
    have hlen := hperm.length_eq
    rw [List.length_cons] at hlen
    have hmax := h.length_le
    have hstop : FragmentAssembly.evictWhile (fun a => a.maxAssemblies ≤ a.assemblies.length) f.id
        { a with buffered := a.buffered - e'.2.bytes, assemblies := rest } =
        ({ a with buffered := a.buffered - e'.2.bytes, assemblies := rest }, true) :=
      evictWhile_of_not_full f.id (decide_eq_false (by dsimp only; omega))
    have hgo : a.evictWhile (fun a => a.maxAssemblies ≤ a.assemblies.length) f.id =
        ({ a with buffered := a.buffered - e'.2.bytes, assemblies := rest }, true) := by
      rw [evictWhile, if_pos (decide_eq_true hfull)]
      split
      case h_1 hno => cases hno.symm.trans hevict
      case h_2 a' hsome =>
        obtain rfl := Option.some.inj (hsome.symm.trans hevict)
        exact hstop
    rw [makeRoomFor, hnone, hgo]
  · cases hno.symm.trans he

theorem find_makeRoomFor (h : a.Accounted) (hspares : a.SparesLive f)
    (hp : a.find id = some p) (hlive : p.fragments ≠ []) : (a.makeRoomFor f.id).1.find id = some p := by
  cases hnone : a.find f.id with
  | some q =>
    rw [makeRoomFor, hnone]
    exact hp
  | none =>
    by_cases hfull : a.maxAssemblies ≤ a.assemblies.length
    · cases hvictim : a.victim f.id with
      | none =>
        rcases a.evict_spec f.id with ⟨e, he, -⟩ | ⟨-, hkeys, -⟩
        · cases hvictim.symm.trans he
        · have hid : id = f.id := hkeys _ (mem_of_find hp)
          rw [← hid, hp] at hnone
          cases hnone
      | some e =>
        obtain ⟨⟨rest, hperm, hleft⟩, -⟩ := makeRoomFor_of_full h hnone hfull hvictim
        have hempty := hspares hnone hfull e hvictim
        have hne : e.1 ≠ id := by
          rintro rfl
          have hfind := find_of_mem h.nodup (hperm.mem_iff.mpr List.mem_cons_self)
          rw [hp, Option.some.injEq] at hfind
          exact hlive (hfind ▸ hempty)
        have hlookup := lookup_of_find hp
        rw [lookup_perm hperm h.nodup, lookup_cons, if_neg hne] at hlookup
        rw [find, hleft, lookup_append, hlookup]
        rfl
    · rw [makeRoomFor_of_free hnone hfull]
      exact find_push a f.id hp

theorem find_makeRoomFor_victim (h : a.Accounted) (hnone : a.find f.id = none)
    (hfull : a.maxAssemblies ≤ a.assemblies.length)
    (he : a.victim f.id = some e) : (a.makeRoomFor f.id).1.find e.1 = none := by
  obtain ⟨⟨rest, hperm, hleft⟩, hne⟩ := makeRoomFor_of_full h hnone hfull he
  have hnodup := (hperm.map Prod.fst).nodup_iff.mp h.nodup
  rw [List.map_cons, List.nodup_cons] at hnodup
  rw [find, hleft, lookup_append, lookup_eq_none.mpr hnodup.1, Option.none_or,
    lookup_cons, if_neg hne.symm]
  rfl

/-- **A refused fragment does no harm exactly when nothing that holds a fragment has to go.** -/
theorem Accounted.harmless_iff (h : a.Accounted) (hrefused : a.refuses f = true) :
    a.Harmless f ↔ a.SparesLive f := by
  have hticked := h.tick (a.clock + 1)
  rw [Harmless, add_refused h hrefused]
  constructor
  · rintro ⟨-, hlive⟩ hnone hfull e he
    by_contra hne
    have hgone := find_makeRoomFor_victim hticked hnone hfull he
    have hthere : a.find e.1 = some e.2 := by
      obtain ⟨⟨rest, hperm, -⟩, -⟩ := makeRoomFor_of_full h hnone hfull he
      exact find_of_mem h.nodup (hperm.mem_iff.mpr List.mem_cons_self)
    cases hgone.symm.trans (hlive e.1 e.2 hthere hne).1
  · intro hspares
    refine ⟨rfl, fun id p hp hlive => ?_⟩
    have hkept := find_makeRoomFor hticked hspares hp hlive
    obtain ⟨hbooks, hmaxA, hmaxB, -⟩ := hticked.makeRoomFor f.id
    have hpos : 0 < a.maxAssemblies :=
      (List.length_pos_of_mem (mem_of_find hp)).trans_le h.length_le
    refine ⟨hkept, fun rest hid => outputs_eq_of_find hbooks h (hpos.trans_eq hmaxA.symm) hpos hmaxB
      ?_ hid⟩
    rw [hkept, hp]
    exact .refl _

/-- **A refused fragment does no harm exactly when nothing that holds a fragment has to go**, in every state
that fragments lead to. -/
theorem refused_harmless_iff (maxAssemblies maxBytes : ℕ) (fs : List Fragment) (f : Fragment)
    (hrefused : ((withLimits maxAssemblies maxBytes).addAll fs).refuses f = true) :
    ((withLimits maxAssemblies maxBytes).addAll fs).Harmless f ↔
      ((withLimits maxAssemblies maxBytes).addAll fs).SparesLive f :=
  Accounted.harmless_iff ((accounted_withLimits maxAssemblies maxBytes).addAll fs).1 hrefused

/-- The first of two fragments of each of some instructions. -/
def begun (count : ℕ) : List Fragment :=
  (List.range count).map fun k =>
    { id := UInt64.ofNat (k + 1), num := 0, isFinal := false, contents := [97] }

/-- A stray fragment past the known final one of an instruction that is being assembled. -/
theorem refused_harmless_iff_stray :
    ((withLimits 1 10).addAll [⟨1, 2, true, [99]⟩]).Harmless ⟨1, 5, false, [120]⟩ :=
  (refused_harmless_iff 1 10 [⟨1, 2, true, [99]⟩] ⟨1, 5, false, [120]⟩ (by decide +kernel)).mpr
    (by decide +kernel)

/-- A fragment past the cap, of an instruction of which nothing arrived, costs the oldest of eight. -/
theorem refused_harms_full_table :
    ((withLimits Posh.maxAssemblies maxAssemblyBytes).addAll (begun 8)).refuses
        ⟨9, 12288, false, []⟩ = true ∧
      ¬((withLimits Posh.maxAssemblies maxAssemblyBytes).addAll (begun 8)).Harmless
        ⟨9, 12288, false, []⟩ := by
  have hrefused : ((withLimits Posh.maxAssemblies maxAssemblyBytes).addAll (begun 8)).refuses
      ⟨9, 12288, false, []⟩ = true := by decide +kernel
  have hbooks := ((accounted_withLimits Posh.maxAssemblies maxAssemblyBytes).addAll (begun 8)).1
  refine ⟨hrefused, fun hharmless => ?_⟩
  have hspares := (Accounted.harmless_iff hbooks hrefused).mp hharmless
  revert hspares
  decide +kernel

end FragmentAssembly

end Posh
