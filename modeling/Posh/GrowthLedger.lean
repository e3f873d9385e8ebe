/-
**Growth bodies and what they leave in the client's ring.**

A growth body carries the rows of the session's scrollback from the coverage the server takes for
confirmed up to the coverage of its slot.  The session's rows are numbered from 0 and, without
evictions, stay where they are; so a body is a span of numbers, and a client that appends bodies keeps
an account of the spans it took.
-/

import Posh.HistoryLedger
import Posh.Lib.NatSpan
import Posh.LocalAttach
import Posh.RoamingClient

set_option autoImplicit false

namespace Posh

open ServerFrame
open DumpDiff
open NatSpan

variable {τ σ : Type} {f : ServerFrame}

/-! ### Bodies -/

namespace FrameBody

/-- A body that carries no scrollback. -/
def isRowless : FrameBody → Bool
  | .scrollback _ _ | .scrollback2 _ _ _ => false
  | _ => true

/-- A growth body is the rows of the span `s`. -/
def Covers (primary : List Bytes) (s : NatSpan) : FrameBody → Prop
  | .scrollback _ rows => s.hi ≤ primary.length ∧ rows = s.slice primary
  | body => body.isRowless = true

variable {body : FrameBody} {primary : List Bytes} {s : NatSpan}

theorem Covers.of_isRowless (h : body.isRowless = true) : body.Covers primary s := by
  cases body with
  | scrollback | scrollback2 => cases h
  | full | diff | morph | empty => exact h

theorem Covers.append (h : body.Covers primary s) (rows : List Bytes) : body.Covers (primary ++ rows) s := by
  cases body with
  | scrollback base carried =>
    obtain ⟨hle, heq⟩ := h
    refine ⟨?_, heq.trans (slice_append hle rows).symm⟩
    rw [List.length_append]
    exact Nat.le_trans hle (Nat.le_add_right _ _)
  | full | diff | morph | empty | scrollback2 => exact h

end FrameBody

theorem rowless_stampBaseSum (wants : Bool) (acked : Option Dump) (body : FrameBody) :
    (stampBaseSum wants acked body).isRowless = body.isRowless := by
  cases wants with
  | false => rfl
  | true =>
    cases acked with
    | none => rfl
    | some d => cases body <;> rfl

theorem DumpDiff.rowless_encode (acked : Option (BaselineRef σ)) (cur : CurrentFrame σ) :
    (encode acked cur).isRowless = true := by
  rcases encode_cases acked cur with h | ⟨base, -, -, h⟩
  · rw [h]
    rfl
  · rw [h]
    rfl

theorem FrameProducer.rowless_encodeVisible (D : Display τ σ) (p : FrameProducer σ)
    (useMorph : Bool) : (p.encodeVisible D useMorph).isRowless = true := by
  unfold FrameProducer.encodeVisible
  split
  · unfold MorphDelta.encode
    split
    · split
      · rfl
      · exact rowless_encode _ _
    · exact rowless_encode _ _
  · exact rowless_encode _ _

/-! ### The ledger -/

namespace ScrollbackRing

theorem append_nil_of_holes {r : ScrollbackRing} (h : r.holes = []) : r.append [] = r := by
  obtain ⟨rows, capacity, appended, holes, holesAdded, linesNotReceived⟩ := r
  have hnil : holes = [] := h
  subst hnil
  rfl

theorem holes_append_of_holes {r : ScrollbackRing} (h : r.holes = []) (rows : List Bytes) :
    (r.append rows).holes = [] := by
  show (rows.foldl appendRow r).holes.dropWhile _ = []
  rw [holes_foldl_appendRow, h]
  rfl

end ScrollbackRing

open ScrollbackRing

/-- **The ring is what the spans taken leave there**, and they name rows the session has. -/
structure GrowthLedger (start ring : ScrollbackRing) (primary : List Bytes) (took : List NatSpan) :
    Prop where
  replays : ring = start.replay ((NatSpan.numbersOf took).map fun n => primary[n]?)
  /-- growth leaves no holes -/
  holes : ring.holes = []
  within : ∀ s ∈ took, s.hi ≤ primary.length

namespace GrowthLedger

variable {start ring : ScrollbackRing} {primary : List Bytes} {took : List NatSpan}

theorem nil (h : start.holes = []) (primary : List Bytes) : GrowthLedger start start primary [] :=
  ⟨rfl, h, nofun⟩

theorem lt_length (h : GrowthLedger start ring primary took) : ∀ n ∈ numbersOf took, n < primary.length := by
  intro n hn
  obtain ⟨s, hs, -, hlt⟩ := mem_numbersOf.1 hn
  exact Nat.lt_of_lt_of_le hlt (h.within s hs)

theorem print (h : GrowthLedger start ring primary took) (rows : List Bytes) :
    GrowthLedger start ring (primary ++ rows) took where
  replays := by
    rw [map_getElem?_append h.within]
    exact h.replays
  holes := h.holes
  within := by
    intro s hs
    rw [List.length_append]
    exact Nat.le_trans (h.within s hs) (Nat.le_add_right _ _)

/-- **A growth body extends the ledger by its span.** -/
theorem take (h : GrowthLedger start ring primary took) {s : NatSpan} (hs : s.hi ≤ primary.length) :
    GrowthLedger start (ring.append (s.slice primary)) primary (took ++ [s]) where
  replays := by
    rw [numbersOf_concat, List.map_append, replay_append, ← h.replays,
      ← map_some_slice hs]
    by_cases hne : s.slice primary = []
    · rw [hne]
      exact append_nil_of_holes h.holes
    · exact append_eq_replay hne
  holes := holes_append_of_holes h.holes _
  within := by
    intro t ht
    rcases List.mem_append.1 ht with ht | ht
    · exact h.within t ht
    · rw [List.mem_singleton.1 ht]
      exact hs

end GrowthLedger

/-! ### The two clients -/

/-- The growth body of a frame is taken at the number `num`: the frame is newer, and its base is
`num`. -/
def ServerFrame.growsFrom (f : ServerFrame) (num : ℕ) : Bool :=
  match f.body with
  | .scrollback base _ => decide (num < f.frameNum) && decide (base = num)
  | _ => false

theorem ServerFrame.growsFrom_iff {num base : ℕ} {rows : List Bytes}
    (hbody : f.body = .scrollback base rows) : f.growsFrom num = true ↔ num < f.frameNum ∧ base = num := by
  rw [growsFrom, hbody]
  simp only [Bool.and_eq_true, decide_eq_true_eq]

theorem GrowthLedger.receive {start ring ring' : ScrollbackRing} {primary : List Bytes}
    {took : List NatSpan} (h : GrowthLedger start ring primary took) {num : ℕ}
    {span : NatSpan} (hf : f.body.Covers primary span)
    (hgrow : ∀ base rows, f.body = .scrollback base rows → f.growsFrom num = true → ring' = ring.append rows)
    (hleave : (∀ epoch off rows, f.body ≠ .scrollback2 epoch off rows) →
      f.growsFrom num = false → ring' = ring) : GrowthLedger start ring' primary
      (took ++ (if f.growsFrom num then some span else none).toList) := by
  have hsb2 : ∀ epoch off rows, f.body ≠ .scrollback2 epoch off rows := by
    intro epoch off rows hbody
    rw [hbody] at hf
    cases hf
  cases htakes : f.growsFrom num with
  | false =>
    rw [if_neg Bool.false_ne_true, Option.toList_none, List.append_nil, hleave hsb2 htakes]
    exact h
  | true =>
    rw [if_pos rfl, Option.toList_some]
    cases hbody : f.body with
    | scrollback base rows =>
      rw [hbody] at hf
      obtain ⟨hle, rfl⟩ := hf
      rw [hgrow base _ hbody htakes]
      exact h.take hle
    | full | diff | morph | empty | scrollback2 =>
      rw [growsFrom, hbody] at htakes
      cases htakes

namespace ClientState

theorem appendGrowth_scrollback (v : HistoryView) (rows : List Bytes) :
    (v.appendGrowth rows).scrollback = v.scrollback.append rows := by
  unfold HistoryView.appendGrowth
  simp only
  split <;> rfl

theorem applyFrame_growth (D : Display τ σ) {st : ClientState τ} {f : ServerFrame} {base : ℕ}
    {rows : List Bytes} (hbody : f.body = .scrollback base rows) (h : f.growsFrom st.appliedNum = true) :
    (st.applyFrame D f).1.history.scrollback = st.history.scrollback.append rows := by
  obtain ⟨hnew, hbase⟩ := (growsFrom_iff hbody).1 h
  have hstale : ¬f.frameNum < st.appliedNum := by omega
  have hdup : ¬f.frameNum = st.appliedNum := by omega
  unfold applyFrame
  rw [hbody]
  simp only [hstale, hdup, hbase, if_false, ne_eq, not_true_eq_false]
  exact appendGrowth_scrollback _ _

theorem applyVisible_history (D : Display τ σ) (st : ClientState τ) (num : ℕ) (body : FrameBody)
    (held : Option Bytes) : (st.applyVisible D num body held).1.history = st.history := by
  unfold applyVisible
  split
  · rfl
  · split <;> rfl

theorem applyFrame_noGrowth (D : Display τ σ) {st : ClientState τ} {f : ServerFrame}
    (hsb2 : ∀ epoch off rows, f.body ≠ .scrollback2 epoch off rows) (h : f.growsFrom st.appliedNum = false) :
    (st.applyFrame D f).1.history.scrollback = st.history.scrollback := by
  unfold applyFrame
  cases hbody : f.body with
  | scrollback2 epoch off rows => exact absurd hbody (hsb2 epoch off rows)
  | scrollback base rows =>
    rw [growsFrom, hbody] at h
    simp only [Bool.and_eq_false_iff, decide_eq_false_iff_not] at h
    simp only
    split
    · rfl
    · split
      · rfl
      · rename_i hstale hdup
        rcases h with hold | hbase
        · omega
        · rw [if_pos hbase]
  | empty =>
    simp only
    split <;> rfl
  | full | diff | morph =>
    simp only
    split
    · rfl
    · split
      · rfl
      · rw [applyVisible_history]

end ClientState

namespace FrameRenderer

theorem renderFrameAcking_growth (D : Display τ σ) {r : FrameRenderer τ} {f : ServerFrame} {base : ℕ}
    {rows : List Bytes} (hbody : f.body = .scrollback base rows) (h : f.growsFrom r.appliedNum = true) :
    (r.renderFrameAcking D f).1.scrollback = r.scrollback.append rows := by
  obtain ⟨hnew, hbase⟩ := (growsFrom_iff hbody).1 h
  rcases renderFrameAcking_scrollback D hnew hbody with ⟨-, heq⟩ | ⟨hne, -⟩
  · rw [heq]
  · exact absurd hbase hne

theorem applyBody_scrollback (D : Display τ σ) (r : FrameRenderer τ) (f : ServerFrame) :
    (r.applyBody D f).1.scrollback = r.scrollback := by
  unfold applyBody
  split
  · rfl
  · split <;> rfl

theorem renderFrameAcking_noGrowth (D : Display τ σ) {r : FrameRenderer τ} {f : ServerFrame}
    (h : f.growsFrom r.appliedNum = false) : (r.renderFrameAcking D f).1.scrollback = r.scrollback := by
  unfold renderFrameAcking
  cases hbody : f.body with
  | scrollback base rows =>
    rw [growsFrom, hbody] at h
    simp only [Bool.and_eq_false_iff, decide_eq_false_iff_not] at h
    simp only
    split
    · rfl
    · split
      · rfl
      · rename_i hstale hdup
        rcases h with hold | hbase
        · omega
        · rw [if_pos hbase]
  | diff | morph =>
    simp only [anchoredBase]
    split
    · rfl
    · split
      · rfl
      · exact applyBody_scrollback D r f
  | full | empty | scrollback2 =>
    simp only [anchoredBase]
    split
    · rfl
    · exact applyBody_scrollback D r f

end FrameRenderer

end Posh
