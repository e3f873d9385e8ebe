/-
**Instructions cut into fragments, and put together again.**

A sender numbers its instructions and cuts each into fragments that fit a datagram.  A receiver keeps one
buffer for each instruction that is being assembled, fills its slots as fragments arrive, and gives the
payload when the last one is there.  It bounds the number of buffers and the bytes in them by evicting the
buffer that was updated longest ago.
-/

import Posh.InputStream
import Posh.Lib.Keyed
import Posh.Lib.Slots
import Posh.Lib.WordBytes

set_option autoImplicit false

namespace Posh

open UInt64 (ofNat)
open WordBytes
open List (length_cons length_drop)

/-! ### Fragments on the wire -/

/-- The instruction's number, then the fragment's with the final bit above it. -/
def fragHeaderLen : ℕ := 10

/-- The most fragments of one instruction. -/
def maxFragments : ℕ := 12288

/-- The most instructions that assemble at once. -/
def maxAssemblies : ℕ := 8

/-- The most payload bytes that sit in all assemblies. -/
def maxAssemblyBytes : ℕ := 16 * 1024 * 1024

structure Fragment where
  id : UInt64
  num : UInt16
  isFinal : Bool
  contents : Bytes
  deriving DecidableEq, Repr

/-- Why bytes are no fragment. -/
inductive FragmentError where
  | tooShort
  deriving DecidableEq, Repr

def FragmentError.message : FragmentError → String
  | tooShort => "fragment too short"

namespace Fragment

/-- The number in fifteen bits, and the final bit on top. -/
def combined (f : Fragment) : UInt16 :=
  ((if f.isFinal then 1 else 0 : UInt16) <<< (15 : UInt16)) ||| (f.num &&& 0x7fff)

def toBytes (f : Fragment) : Bytes :=
  WordBytes.be 8 f.id.toNat ++ WordBytes.be 2 f.combined.toNat ++ f.contents

def fromBytes (data : Bytes) : Except FragmentError Fragment :=
  if data.length < fragHeaderLen then .error .tooShort
  else
    let combined := UInt16.ofNat (WordBytes.ofBe ((data.drop 8).take 2))
    .ok
      { id := UInt64.ofNat (WordBytes.ofBe (data.take 8))
        num := combined &&& 0x7fff
        isFinal := combined &&& 0x8000 != 0
        contents := data.drop fragHeaderLen }

theorem and_or_distrib (a b c : UInt16) : a &&& (b ||| c) = a &&& b ||| a &&& c := by
  apply UInt16.toNat_inj.mp
  rw [UInt16.toNat_and, UInt16.toNat_or, UInt16.toNat_or, UInt16.toNat_and, UInt16.toNat_and,
    Nat.and_or_distrib_left]

theorem and_mask_of_lt {n : UInt16} (h : n.toNat < 2 ^ 15) : n &&& 0x7fff = n := by
  apply UInt16.toNat_inj.mp
  rw [UInt16.toNat_and]
  exact (Nat.and_two_pow_sub_one_eq_mod n.toNat 15).trans (Nat.mod_eq_of_lt h)

variable {f : Fragment}

theorem combined_and_low (h : f.num.toNat < 2 ^ 15) : f.combined &&& 0x7fff = f.num := by
  rw [combined, and_mask_of_lt h, UInt16.and_comm, and_or_distrib, UInt16.and_comm _ f.num, and_mask_of_lt h]
  cases f.isFinal <;> exact UInt16.zero_or

theorem combined_and_high (h : f.num.toNat < 2 ^ 15) : (f.combined &&& 0x8000 != 0) = f.isFinal := by
  have hlow : f.num &&& 0x8000 = 0 := by
    rw [← and_mask_of_lt h, UInt16.and_assoc]
    exact UInt16.and_zero
  rw [combined, and_mask_of_lt h, UInt16.and_comm, and_or_distrib,
    UInt16.and_comm _ f.num, hlow, UInt16.or_zero]
  cases f.isFinal <;> rfl

/-- **A fragment is read back from its wire image**, when its number fits fifteen bits. -/
theorem fromBytes_toBytes (h : f.num.toNat < 2 ^ 15) : fromBytes f.toBytes = .ok f := by
  have hid : f.toBytes.take 8 = be 8 f.id.toNat := by
    rw [toBytes, List.append_assoc, List.take_left' (length_be 8 _)]
  have hnum : (f.toBytes.drop 8).take 2 = be 2 f.combined.toNat := by
    rw [toBytes, List.append_assoc, List.drop_left' (length_be 8 _),
      List.take_left' (length_be 2 _)]
  have hcontents : f.toBytes.drop fragHeaderLen = f.contents := by
    rw [toBytes]
    exact List.drop_left' (by rw [List.length_append, length_be, length_be]; rfl)
  have hlen : ¬f.toBytes.length < fragHeaderLen := by
    rw [toBytes, List.length_append, List.length_append, length_be, length_be]
    simp [fragHeaderLen]
  have hword : UInt16.ofNat (ofBe (be 2 f.combined.toNat)) = f.combined := by
    rw [ofBe_be, Nat.mod_eq_of_lt (by exact f.combined.toNat_lt), UInt16.ofNat_toNat]
  have hword8 : ofNat (ofBe (be 8 f.id.toNat)) = f.id := by
    rw [ofBe_be, Nat.mod_eq_of_lt (by exact f.id.toNat_lt), UInt64.ofNat_toNat]
  rw [fromBytes, if_neg hlen]
  simp only [hid, hnum, hcontents, hword, hword8, combined_and_low h, combined_and_high h]

end Fragment

/-! ### Cutting -/

/-- What a sender is asked to cut, and how small. -/
structure FragmentCall where
  payload : Bytes
  maxContents : ℕ
  maxContents_pos : 0 < maxContents

structure Fragmenter where
  nextId : UInt64 := 0
  deriving DecidableEq, Repr

namespace Fragmenter

/-- The loop over what is left of the payload: one chunk, and the tail if there is one. -/
def cutFrom (id : UInt64) (maxContents : ℕ) (hpos : 0 < maxContents) (num : UInt16) (rest : Bytes) :
    List Fragment :=
  let tail := rest.drop (min rest.length maxContents)
  let chunk := rest.take (min rest.length maxContents)
  if h : tail = [] then [{ id, num, isFinal := true, contents := chunk }]
  else
    { id, num, isFinal := false, contents := chunk } :: cutFrom id maxContents hpos (num + 1) tail
termination_by rest.length
decreasing_by
  have hlen : 0 < rest.length := by
    rcases rest with _ | ⟨b, rest⟩
    · exact absurd List.drop_nil h
    · exact Nat.succ_pos _
  rw [List.length_drop]
  omega

def makeFragments (f : Fragmenter) (c : FragmentCall) : Fragmenter × List Fragment :=
  let id := f.nextId + 1
  ({ nextId := id }, cutFrom id c.maxContents c.maxContents_pos 0 c.payload)

end Fragmenter

/-- The fragments that a payload is cut into, from the number `start` on. -/
structure IsCut (id : UInt64) (start : ℕ) (payload : Bytes) (xs : List Fragment) : Prop where
  ne_nil : xs ≠ []
  flatten : (xs.map Fragment.contents).flatten = payload
  id_eq : ∀ f ∈ xs, f.id = id
  num_eq : ∀ (k : ℕ) (f : Fragment), xs[k]? = some f → f.num.toNat = start + k
  isFinal_eq : ∀ (k : ℕ) (f : Fragment), xs[k]? = some f → (f.isFinal = true ↔ k + 1 = xs.length)

namespace Fragmenter

section Cut

variable {id : UInt64} {maxContents : ℕ} {hpos : 0 < maxContents} {num : UInt16} {rest : Bytes}

theorem length_cutFrom_le {n : ℕ} (hn : 0 < n)
    (h : rest.length ≤ n * maxContents) : (cutFrom id maxContents hpos num rest).length ≤ n := by
  induction n generalizing num rest with
  | zero => exact absurd hn (Nat.lt_irrefl 0)
  | succ n ih =>
    rw [cutFrom]
    split
    case isTrue => exact hn
    case isFalse htail =>
      have hmin : min rest.length maxContents < rest.length := by
        by_contra hge
        exact htail (List.drop_eq_nil_of_le (by omega))
      rw [Nat.succ_mul] at h
      have hlen : (rest.drop (min rest.length maxContents)).length ≤ n * maxContents := by
        rw [length_drop]
        omega
      have hn' : 0 < n := by
        rcases n with _ | n
        · simp only [Nat.zero_mul, length_drop] at hlen
          omega
        · exact Nat.succ_pos n
      exact Nat.succ_le_succ (ih hn' hlen)

/-- **What the fragments of an instruction are**, as long as they can be numbered. -/
theorem isCut_cutFrom (h : num.toNat + (cutFrom id maxContents hpos num rest).length ≤ 2 ^ 16) :
    IsCut id num.toNat rest (cutFrom id maxContents hpos num rest) := by
  induction hlen : rest.length using Nat.strong_induction_on generalizing num rest with
  | _ len ih =>
    rw [cutFrom] at h ⊢
    split
    case isTrue htail =>
      refine ⟨List.cons_ne_nil _ _, ?_, ?_, ?_, ?_⟩
      · rw [List.map_singleton, List.flatten_singleton]
        have happ := List.take_append_drop (min rest.length maxContents) rest
        rwa [htail, List.append_nil] at happ
      · intro f hf
        rw [List.mem_singleton.mp hf]
      · intro k f hf
        rcases k with _ | k
        · rw [← Option.some.inj hf]
          rfl
        · cases hf
      · intro k f hf
        rcases k with _ | k
        · rw [← Option.some.inj hf]
          exact iff_of_true rfl rfl
        · cases hf
    case isFalse htail =>
      rw [dif_neg htail, length_cons] at h
      have hmin : 0 < min rest.length maxContents := by
        rcases rest with _ | ⟨b, rest⟩
        · exact absurd List.drop_nil htail
        · rw [length_cons]
          omega
      have hshort : (rest.drop (min rest.length maxContents)).length < len := by
        rw [length_drop]
        omega
      have hrest : 0 < (cutFrom id maxContents hpos (num + 1)
          (rest.drop (min rest.length maxContents))).length := by
        rw [cutFrom]
        split <;> exact Nat.succ_pos _
      have hnum : (num + 1).toNat = num.toNat + 1 := by
        rw [UInt16.toNat_add]
        exact Nat.mod_eq_of_lt (by
          have : (1 : UInt16).toNat = 1 := rfl
          omega)
      have htailCut := ih _ hshort (by rw [hnum]; omega) rfl
      refine ⟨List.cons_ne_nil _ _, ?_, ?_, ?_, ?_⟩
      · rw [List.map_cons, List.flatten_cons, htailCut.flatten]
        exact List.take_append_drop _ _
      · intro f hf
        rcases List.mem_cons.mp hf with rfl | hf
        · rfl
        · exact htailCut.id_eq f hf
      · intro k f hf
        rcases k with _ | k
        · rw [← Option.some.inj hf]
          rfl
        · rw [htailCut.num_eq k f hf, hnum]
          omega
      · intro k f hf
        rcases k with _ | k
        · rw [← Option.some.inj hf, length_cons]
          exact iff_of_false Bool.false_ne_true (by omega)
        · rw [htailCut.isFinal_eq k f hf, length_cons]
          omega

end Cut

end Fragmenter

/-! ### Numbering -/

theorem Fragment.num_lt_of_fromBytes {data : Bytes} {f : Fragment}
    (h : Fragment.fromBytes data = .ok f) : f.num.toNat < 2 ^ 15 := by
  rw [Fragment.fromBytes] at h
  split at h
  · cases h
  · rw [← Except.ok.inj h, UInt16.toNat_and]
    exact Nat.lt_of_le_of_lt Nat.and_le_right (by decide)

namespace Fragmenter

theorem lt_length_cutFrom {id : UInt64} {maxContents : ℕ} {hpos : 0 < maxContents} {num : UInt16}
    {rest : Bytes} {n : ℕ} (h : n * maxContents < rest.length) :
    n < (cutFrom id maxContents hpos num rest).length := by
  induction n generalizing num rest with
  | zero =>
    rw [cutFrom]
    split <;> exact Nat.succ_pos _
  | succ n ih =>
    rw [Nat.succ_mul] at h
    have hmin : min rest.length maxContents = maxContents := by omega
    rw [cutFrom]
    split
    case isTrue htail =>
      have hlen := congrArg List.length htail
      rw [hmin, length_drop, List.length_nil] at hlen
      omega
    case isFalse =>
      refine Nat.succ_lt_succ (ih ?_)
      rw [hmin, length_drop]
      omega

/-- **The fragments of a payload survive the wire**: they are read back with their numbers in order, only
the last one is final, and their contents are the payload. -/
def SurvivesWire (f : Fragmenter) (c : FragmentCall) : Prop :=
  ∃ back : List Fragment, (f.makeFragments c).2.map (fun g => Fragment.fromBytes g.toBytes) = back.map .ok ∧
      IsCut (f.nextId + 1) 0 c.payload back

theorem survivesWire_iff {f : Fragmenter} {c : FragmentCall} :
    f.SurvivesWire c ↔ c.payload.length ≤ 2 ^ 15 * c.maxContents := by
  constructor
  · rintro ⟨back, hread, hcut⟩
    by_contra hlong
    have hcount : 2 ^ 15 < (cutFrom (f.nextId + 1) c.maxContents c.maxContents_pos 0 c.payload).length :=
      lt_length_cutFrom (Nat.lt_of_not_le hlong)
    have hlen := congrArg List.length hread
    rw [List.length_map, List.length_map] at hlen
    have hback : 2 ^ 15 < back.length := hcount.trans_eq hlen
    -- the number that should be 2 ^ 15 is read from fifteen bits
    have hget : back[2 ^ 15]? = some back[2 ^ 15] := List.getElem?_eq_getElem hback
    have hwire := congrArg (fun l => l[2 ^ 15]?) hread
    simp only [List.getElem?_map, hget, Option.map_some, Option.map_eq_some_iff] at hwire
    obtain ⟨g, -, hg⟩ := hwire
    have hlt := Fragment.num_lt_of_fromBytes hg
    have hnum := hcut.num_eq _ _ hget
    omega
  · intro hshort
    have hlen : (f.makeFragments c).2.length ≤ 2 ^ 15 := length_cutFrom_le (by decide) hshort
    have hcut : IsCut (f.nextId + 1) 0 c.payload (f.makeFragments c).2 :=
      isCut_cutFrom (Nat.le_trans (Nat.add_le_add_left hlen _) (by decide))
    refine ⟨(f.makeFragments c).2, List.map_congr_left fun g hg => ?_, hcut⟩
    obtain ⟨k, hk⟩ := List.getElem?_of_mem hg
    have hnum := hcut.num_eq k g hk
    have hklt := (List.getElem?_eq_some_iff.mp hk).1
    exact Fragment.fromBytes_toBytes (by omega)

/-- **The fragments of a payload survive the wire exactly when there are at most `2 ^ 15` of them.** -/
theorem numbering (f : Fragmenter) (c : FragmentCall) :
    f.SurvivesWire c ↔ c.payload.length ≤ 2 ^ 15 * c.maxContents :=
  survivesWire_iff

/-- One byte a fragment, and one fragment more than fifteen bits can number. -/
theorem numbering_wraps :
    ¬Fragmenter.SurvivesWire {} ⟨List.replicate (2 ^ 15 + 1) 0, 1, by decide⟩ := by
  rw [survivesWire_iff, List.length_replicate]
  decide

end Fragmenter

/-! ### Instructions -/

/-- An instruction: what a sender cut, and into which fragments. -/
structure Instruction where
  id : UInt64
  payload : Bytes
  fragments : List Fragment
  deriving DecidableEq, Repr

namespace Fragmenter

/-- The instructions that a sender makes of its calls. -/
def instructions (f : Fragmenter) : List FragmentCall → List Instruction
  | [] => []
  | c :: cs =>
    let (f', fragments) := f.makeFragments c
    { id := f'.nextId, payload := c.payload, fragments } :: f'.instructions cs

theorem ids_instructions (f : Fragmenter) (cs : List FragmentCall) :
    (f.instructions cs).map Instruction.id =
      (List.range cs.length).map fun k => f.nextId + ofNat (k + 1) := by
  induction cs generalizing f with
  | nil => rfl
  | cons c cs ih =>
    rw [instructions, List.map_cons, ih, length_cons, List.range_succ_eq_map, List.map_cons,
      List.map_map]
    congr 1
    apply List.map_congr_left
    intro k _
    show f.nextId + 1 + ofNat (k + 1) = f.nextId + ofNat (k + 1 + 1)
    rw [UInt64.add_assoc, UInt64.ofNat_add (k + 1) 1, UInt64.add_comm 1]
    rfl

variable {cs : List FragmentCall}

/-- **No two instructions have the same number**, while the counter does not come round. -/
theorem ids_nodup {f : Fragmenter} (h : cs.length < 2 ^ 64) : ((f.instructions cs).map Instruction.id).Nodup := by
  rw [ids_instructions]
  refine List.Nodup.map_on ?_ List.nodup_range
  intro j hj k hk heq
  rw [List.mem_range] at hj hk
  have hof : ofNat (j + 1) = ofNat (k + 1) := (UInt64.add_right_inj _).mp heq
  have hnat := congrArg UInt64.toNat hof
  rw [UInt64.toNat_ofNat_of_lt' (by exact Nat.lt_of_le_of_lt hj h),
    UInt64.toNat_ofNat_of_lt' (by exact Nat.lt_of_le_of_lt hk h)] at hnat
  omega

theorem isCut_of_mem {f : Fragmenter}
    (hsize : ∀ c ∈ cs, c.payload.length ≤ maxFragments * c.maxContents) {inst : Instruction}
    (hinst : inst ∈ f.instructions cs) :
    IsCut inst.id 0 inst.payload inst.fragments ∧ inst.fragments.length ≤ maxFragments := by
  induction cs generalizing f with
  | nil => cases hinst
  | cons c cs ih =>
    rcases List.mem_cons.mp hinst with rfl | hinst
    · have hlen : (cutFrom (f.nextId + 1) c.maxContents c.maxContents_pos 0 c.payload).length ≤
          maxFragments :=
        length_cutFrom_le (by decide : 0 < maxFragments) (hsize c List.mem_cons_self)
      exact ⟨isCut_cutFrom (Nat.le_trans (Nat.add_le_add_left hlen _) (by decide)), hlen⟩
    · exact ih (fun c hc => hsize c (List.mem_cons_of_mem _ hc)) hinst

end Fragmenter

/-! ### The receiver -/

/-- An instruction being assembled: a slot for each fragment up to the highest that arrived, how many
arrived, how many there are once the final one is known, and the bytes in the slots. -/
structure Partial where
  fragments : List (Option Bytes) := []
  arrived : ℕ := 0
  total : Option ℕ := none
  bytes : ℕ := 0
  touched : UInt64 := 0
  deriving DecidableEq, Repr

namespace Partial

/-- The fragment cannot belong to the instruction: past the cap, past a known final one, or a final one
that contradicts what arrived. -/
def rejects (p : Partial) (frag : Fragment) : Bool :=
  let idx := frag.num.toNat
  maxFragments ≤ idx
    || p.total.any (fun t => t ≤ idx)
    || (frag.isFinal && (idx + 1 < p.fragments.length || p.total.any (fun t => t != idx + 1)))

def isDuplicate (p : Partial) (frag : Fragment) : Bool :=
  p.fragments[frag.num.toNat]?.any Option.isSome

/-- The slots up to an index are there. -/
def grow (p : Partial) (idx : ℕ) : Partial :=
  { p with fragments := p.fragments ++ List.replicate (idx + 1 - p.fragments.length) none }

/-- A final fragment says how many there are. -/
def noteFinal (p : Partial) (frag : Fragment) : Partial :=
  if frag.isFinal then { p with total := some (frag.num.toNat + 1) } else p

/-- An empty slot takes the contents. -/
def store (p : Partial) (frag : Fragment) : Partial :=
  if p.fragments[frag.num.toNat]? = some none then
    { p with
      bytes := p.bytes + frag.contents.length
      fragments := p.fragments.set frag.num.toNat (some frag.contents)
      arrived := p.arrived + 1 }
  else p

def put (p : Partial) (frag : Fragment) : Partial :=
  ((p.grow frag.num.toNat).noteFinal frag).store frag

/-- The last missing fragment gives the payload, and leaves the slots drained. -/
def add (p : Partial) (frag : Fragment) : Partial × Option Bytes :=
  let p := p.put frag
  if p.total = some p.arrived ∧ p.fragments.length = p.arrived then
    ({ p with fragments := [] }, some (Slots.filled p.fragments).flatten)
  else (p, none)

end Partial

structure FragmentAssembly where
  assemblies : List (UInt64 × Partial) := []
  buffered : ℕ := 0
  maxAssemblies : ℕ := Posh.maxAssemblies
  maxBytes : ℕ := maxAssemblyBytes
  clock : UInt64 := 0
  deriving DecidableEq, Repr

namespace FragmentAssembly

/-- The place of the assembly that was updated longest ago, among all but one. -/
def leastRecentlyUpdated (exclude : UInt64) (assemblies : List (UInt64 × Partial)) : Option ℕ :=
  let older (best : Option ((UInt64 × Partial) × ℕ)) (e : (UInt64 × Partial) × ℕ) :=
    match best with
    | some b => if e.1.2.touched < b.1.2.touched then some e else some b
    | none => some e
  ((assemblies.zipIdx.filter fun e => e.1.1 != exclude).foldl older none).map Prod.snd

/-- One assembly less, if there is another than the excluded one. -/
def evictLeastRecentlyUpdated (a : FragmentAssembly) (exclude : UInt64) : Option FragmentAssembly :=
  match leastRecentlyUpdated exclude a.assemblies with
  | none => none
  | some i =>
    match a.assemblies[i]? with
    | none => none
    | some e =>
      some { a with buffered := a.buffered - e.2.bytes, assemblies := a.assemblies.eraseIdx i }

theorem length_evictLeastRecentlyUpdated {a a' : FragmentAssembly} {exclude : UInt64}
    (h : a.evictLeastRecentlyUpdated exclude = some a') : a'.assemblies.length < a.assemblies.length := by
  rw [evictLeastRecentlyUpdated] at h
  split at h
  · cases h
  · split at h
    · cases h
    · rename_i e he
      cases h
      have hlt := (List.getElem?_eq_some_iff.mp he).1
      rw [List.length_eraseIdx_of_lt hlt]
      omega

/-- The loops that evict while there is no room; `false` when nothing is left to evict. -/
def evictWhile (full : FragmentAssembly → Bool) (exclude : UInt64) (a : FragmentAssembly) :
    FragmentAssembly × Bool :=
  if full a then
    match h : a.evictLeastRecentlyUpdated exclude with
    | none => (a, false)
    | some a' =>
      have := length_evictLeastRecentlyUpdated h
      evictWhile full exclude a'
  else (a, true)
termination_by a.assemblies.length

/-- The assembly with a number. -/
def find (a : FragmentAssembly) (id : UInt64) : Option Partial :=
  (Keyed.lookup Prod.fst a.assemblies id).map Prod.snd

/-- The assembly with a number is changed. -/
def modify (a : FragmentAssembly) (id : UInt64) (f : Partial → Partial) : FragmentAssembly :=
  { a with
    assemblies := Keyed.updateFirst (fun e => e.1 == id) (fun e => (e.1, f e.2)) a.assemblies }

/-- An assembly is dropped with its bytes. -/
def remove (a : FragmentAssembly) (id : UInt64) : FragmentAssembly :=
  match a.find id with
  | none => a
  | some p =>
    { a with
      buffered := a.buffered - p.bytes
      assemblies := a.assemblies.eraseP fun e => e.1 == id }

/-- There is an assembly for a number; `false` when no room can be made for a new one. -/
def makeRoomFor (a : FragmentAssembly) (id : UInt64) : FragmentAssembly × Bool :=
  match a.find id with
  | some _ => (a, true)
  | none =>
    match a.evictWhile (fun a => a.maxAssemblies ≤ a.assemblies.length) id with
    | (a, false) => (a, false)
    | (a, true) => ({ a with assemblies := a.assemblies ++ [(id, {})] }, true)

/-- The fragment's contents go into its assembly, which ends when it is complete. -/
def feed (a : FragmentAssembly) (frag : Fragment) (p : Partial) : FragmentAssembly × Option Bytes :=
  let (p', completed) := p.add frag
  let buffered := a.buffered + (p'.bytes - p.bytes)
  if completed.isSome then
    ({ a with
       buffered := buffered - p'.bytes
       assemblies := a.assemblies.eraseP fun e => e.1 == frag.id }, completed)
  else ({ a.modify frag.id (fun _ => p') with buffered }, completed)

/-- One fragment arrives. -/
def add (a : FragmentAssembly) (frag : Fragment) : FragmentAssembly × Option Bytes :=
  let a := { a with clock := a.clock + 1 }
  match a.makeRoomFor frag.id with
  | (a, false) => (a, none)
  | (a, true) =>
    match a.find frag.id with
    | none => (a, none)
    | some p =>
      if p.rejects frag then (a, none)
      else
        let p := { p with touched := a.clock }
        let a := a.modify frag.id fun _ => p
        let incoming := frag.contents.length
        let room :=
          if p.isDuplicate frag then (a, true)
          else a.evictWhile (fun a => a.maxBytes < a.buffered + incoming) frag.id
        match room with
        | (a, false) => (a.remove frag.id, none)
        | (a, true) => a.feed frag p

/-- One datagram arrives; what is no fragment is passed over. -/
def receive (a : FragmentAssembly) (data : Bytes) : FragmentAssembly × Option Bytes :=
  match Fragment.fromBytes data with
  | .error _ => (a, none)
  | .ok frag => a.add frag

/-- The receiver after some datagrams. -/
def receiveRun (a : FragmentAssembly) : List Bytes → FragmentAssembly
  | [] => a
  | data :: rest => (a.receive data).1.receiveRun rest

/-- What a receiver gives for each of the datagrams that arrive. -/
def receiveAll (a : FragmentAssembly) : List Bytes → List (Option Bytes)
  | [] => []
  | data :: rest => (a.receive data).2 :: (a.receive data).1.receiveAll rest

theorem receiveAll_getElem? {a : FragmentAssembly} {ds : List Bytes} {k : ℕ} :
    (a.receiveAll ds)[k]? = ds[k]?.map fun data => ((a.receiveRun (ds.take k)).receive data).2 := by
  induction ds generalizing a k with
  | nil => rfl
  | cons data rest ih =>
    cases k with
    | zero => rfl
    | succ k =>
      rw [receiveAll, List.getElem?_cons_succ, ih, List.getElem?_cons_succ, List.take_succ_cons, receiveRun]

theorem receiveRun_append {a : FragmentAssembly} {ds : List Bytes} {data : Bytes} :
    a.receiveRun (ds ++ [data]) = ((a.receiveRun ds).receive data).1 := by
  induction ds generalizing a with
  | nil => rfl
  | cons d ds ih => exact ih

end FragmentAssembly

end Posh
