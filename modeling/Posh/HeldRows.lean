/-
**The books of the held rows.**

The bodies past a gap are kept in the order of their row offsets, and their rows are counted as they come and
go.  A longer body takes the place of a shorter one at its offset, so that the count loses the one and gains the
other; each loss is a subtraction without a sign.  The books are right in every state: the count is of the rows
that are held, and so nothing is ever subtracted that was not counted before.
-/

import Posh.HistoryLedger
import Posh.Lib.Checked

set_option autoImplicit false

namespace Posh.HeldRows

open ByteCursor

variable {h : HeldRows} {bs : List (ℕ × List Bytes)} {off t : ℕ} {rows : List Bytes}

/-! ### The operations, with their subtractions checked -/

/-- The rows of the body at an offset. -/
def existing (bs : List (ℕ × List Bytes)) (rowOffset : ℕ) : ℕ :=
  ((bs.find? fun b => b.1 == rowOffset).map fun b => b.2.length).getD 0

def holdChecked (h : HeldRows) (rowOffset : ℕ) (rows : List Bytes) : Outcome Empty (Bool × HeldRows) :=
  if rows.length ≤ existing h.bodies rowOffset then .ok (true, h)
  else (Checked.sub h.rows (existing h.bodies rowOffset)).bind fun left =>
    if left + rows.length > sb2HeldMaxRows then .ok (false, h)
    else .ok (true, { bodies := insertBody rowOffset rows h.bodies, rows := left + rows.length })

def takeReachableChecked (h : HeldRows) (t : ℕ) : Outcome Empty (Option (ℕ × List Bytes × HeldRows)) :=
  match h.bodies with
  | [] => .ok none
  | (off, rows) :: bs =>
    if off ≤ t then
      (Checked.sub h.rows rows.length).bind fun left => .ok (some (off, rows, { bodies := bs, rows := left }))
    else .ok none

def clear (_ : HeldRows) : HeldRows := { bodies := [], rows := 0 }

inductive Call
  | hold (rowOffset : ℕ) (rows : List Bytes)
  | takeReachable (t : ℕ)
  | clear

/-- What a call leaves. -/
def call (h : HeldRows) : Call → HeldRows
  | .hold rowOffset rows => (h.hold rowOffset rows).2
  | .takeReachable t => ((h.takeReachable t).map fun taken => taken.2.2).getD h
  | .clear => h.clear

/-- The same, out of range where a subtraction is. -/
def callChecked (h : HeldRows) : Call → Outcome Empty HeldRows
  | .hold rowOffset rows => (h.holdChecked rowOffset rows).bind fun r => .ok r.2
  | .takeReachable t => (h.takeReachableChecked t).bind fun r => .ok ((r.map fun taken => taken.2.2).getD h)
  | .clear => .ok h.clear

/-! ### The books -/

/-- The rows of some bodies. -/
def total (bs : List (ℕ × List Bytes)) : ℕ := (bs.map fun b => b.2.length).sum

/-- The count is of the rows held, which are not too many, and each offset has one body. -/
structure Accounts (h : HeldRows) : Prop where
  rows : h.rows = total h.bodies
  bound : h.rows ≤ sb2HeldMaxRows
  offsets : h.bodies.Pairwise fun b c => b.1 < c.1

theorem accounts_empty : Accounts {} := ⟨rfl, Nat.zero_le _, .nil⟩

theorem existing_cons (b : ℕ × List Bytes) (bs : List (ℕ × List Bytes)) (off : ℕ) :
    existing (b :: bs) off = if b.1 = off then b.2.length else existing bs off := by
  rw [existing, List.find?_cons]
  split
  case h_1 heq => rw [if_pos (by simpa using heq)]; rfl
  case h_2 heq => rw [if_neg (by simpa using heq)]; rfl

theorem existing_of_lt (h : ∀ b ∈ bs, off < b.1) : existing bs off = 0 := by
  have hnone : bs.find? (fun b => b.1 == off) = none := by
    rw [List.find?_eq_none]
    intro b hb
    have := h b hb
    simp only [beq_iff_eq]
    omega
  rw [existing, hnone]
  rfl

theorem total_cons (b : ℕ × List Bytes) (bs : List (ℕ × List Bytes)) : total (b :: bs) = b.2.length + total bs :=
  List.sum_cons

theorem existing_le_total (bs : List (ℕ × List Bytes)) (off : ℕ) : existing bs off ≤ total bs := by
  induction bs with
  | nil => exact Nat.le_refl 0
  | cons b bs ih =>
    rw [existing_cons, total_cons]
    split
    · exact Nat.le_add_right _ _
    · exact ih.trans (Nat.le_add_left _ _)

/-- **A body in its place**: what was there goes, and its own rows come. -/
theorem total_insertBody (hs : bs.Pairwise fun b c => b.1 < c.1) :
    total (insertBody off rows bs) + existing bs off = total bs + rows.length := by
  induction bs with
  | nil =>
    rw [insertBody, total, List.map_singleton, List.sum_singleton]
    exact Nat.add_comm _ _
  | cons b bs ih =>
    obtain ⟨hhead, htail⟩ := List.pairwise_cons.mp hs
    rw [insertBody, existing_cons]
    split
    case isTrue hlt =>
      have hnone : existing bs off = 0 := existing_of_lt fun c hc => hlt.trans (hhead c hc)
      rw [if_neg (by omega), hnone, total_cons, Nat.add_zero]
      exact Nat.add_comm _ _
    case isFalse =>
      split
      case isTrue heq =>
        rw [if_pos heq.symm, total_cons, total_cons]
        dsimp only
        omega
      case isFalse hne =>
        have hrest := ih htail
        rw [if_neg (Ne.symm hne), total_cons, total_cons]
        dsimp only
        omega

theorem offsets_insertBody (hs : bs.Pairwise fun b c => b.1 < c.1) :
    (insertBody off rows bs).Pairwise fun b c => b.1 < c.1 := by
  induction bs with
  | nil => exact List.pairwise_singleton _ _
  | cons b bs ih =>
    obtain ⟨hhead, htail⟩ := List.pairwise_cons.mp hs
    rw [insertBody]
    split
    case isTrue hlt =>
      refine List.pairwise_cons.mpr ⟨fun c hc => ?_, hs⟩
      rcases List.mem_cons.mp hc with rfl | hc
      · exact hlt
      · exact hlt.trans (hhead c hc)
    case isFalse hge =>
      split
      case isTrue heq => exact List.pairwise_cons.mpr ⟨fun c hc => heq ▸ hhead c hc, htail⟩
      case isFalse hne =>
        refine List.pairwise_cons.mpr ⟨fun c hc => ?_, ih htail⟩
        rcases HistoryView.mem_insertBody hc with rfl | hc
        · exact Nat.lt_of_le_of_ne (Nat.le_of_not_lt hge) (Ne.symm hne)
        · exact hhead c hc

/-! ### Calls -/

theorem Accounts.hold (ha : h.Accounts) (off : ℕ) (rows : List Bytes) :
    h.holdChecked off rows = .ok (h.hold off rows) ∧ (h.hold off rows).2.Accounts := by
  have hle : existing h.bodies off ≤ h.rows := ha.rows ▸ existing_le_total h.bodies off
  rw [holdChecked, HeldRows.hold, ← existing]
  split
  case isTrue => exact ⟨rfl, ha⟩
  case isFalse =>
    rw [Checked.sub_eq hle, Outcome.bind_ok]
    dsimp only
    split
    case isTrue => exact ⟨rfl, ha⟩
    case isFalse hfits =>
      refine ⟨rfl, ⟨?_, Nat.le_of_not_lt hfits, offsets_insertBody ha.offsets⟩⟩
      have hsum := @total_insertBody h.bodies off rows ha.offsets
      have hrows := ha.rows
      show h.rows - existing h.bodies off + rows.length = total (insertBody off rows h.bodies)
      omega

theorem Accounts.takeReachable (ha : h.Accounts) (t : ℕ) :
    h.takeReachableChecked t = .ok (h.takeReachable t) ∧
      (((h.takeReachable t).map fun taken => taken.2.2).getD h).Accounts := by
  have hrows := ha.rows
  have hoffsets := ha.offsets
  rw [takeReachableChecked, HeldRows.takeReachable]
  cases hb : h.bodies with
  | nil => exact ⟨rfl, ha⟩
  | cons b bs =>
    rw [hb, total_cons] at hrows
    rw [hb] at hoffsets
    dsimp only
    split
    case isTrue =>
      rw [Checked.sub_eq (by omega), Outcome.bind_ok]
      refine ⟨rfl, ⟨?_, (Nat.sub_le _ _).trans ha.bound, (List.pairwise_cons.mp hoffsets).2⟩⟩
      show h.rows - b.2.length = total bs
      omega
    case isFalse => exact ⟨rfl, ha⟩

theorem hold_refused : (h.hold off rows).1 = false → (h.hold off rows).2 = h := by
  rw [HeldRows.hold, ← existing]
  dsimp only
  split
  case isTrue => exact fun hrefused => nomatch hrefused
  case isFalse =>
    split
    case isTrue => exact fun _ => rfl
    case isFalse => exact fun hrefused => nomatch hrefused

/-- **A call** subtracts nothing that was not counted, and leaves the books right. -/
theorem Accounts.call (ha : h.Accounts) (c : Call) : h.callChecked c = .ok (h.call c) ∧ (h.call c).Accounts := by
  cases c with
  | hold off rows =>
    obtain ⟨heq, haccounts⟩ := ha.hold off rows
    exact ⟨by rw [callChecked, heq]; rfl, haccounts⟩
  | takeReachable t =>
    obtain ⟨heq, haccounts⟩ := ha.takeReachable t
    exact ⟨by rw [callChecked, heq]; rfl, haccounts⟩
  | clear => exact ⟨rfl, accounts_empty⟩

theorem Accounts.calls (ha : h.Accounts) (calls : List Call) :
    Checked.each callChecked h calls = .ok (calls.foldl HeldRows.call h) ∧ (calls.foldl HeldRows.call h).Accounts := by
  induction calls generalizing h with
  | nil => exact ⟨rfl, ha⟩
  | cons c calls ih =>
    obtain ⟨heq, haccounts⟩ := ha.call c
    rw [Checked.each, heq, Outcome.bind_ok]
    exact ih haccounts

/-- **The books of the held rows are right** after any calls: the count is the sum of the lengths of the bodies
held and within its bound, no subtraction on the way was out of range, each offset is held once, and a body that
is refused changes nothing. -/
theorem held_accounts (calls : List Call) : ∃ h : HeldRows, h = calls.foldl HeldRows.call {} ∧
    Checked.each callChecked {} calls = .ok h ∧ h.rows = total h.bodies ∧ h.rows ≤ sb2HeldMaxRows ∧
      (h.bodies.map Prod.fst).Nodup ∧ ∀ off rows, (h.hold off rows).1 = false → (h.hold off rows).2 = h := by
  obtain ⟨heq, ha⟩ := accounts_empty.calls calls
  have hunique : ((calls.foldl HeldRows.call {}).bodies.map Prod.fst).Nodup :=
    List.pairwise_map.mpr (ha.offsets.imp Nat.ne_of_lt)
  exact ⟨_, rfl, heq, ha.rows, ha.bound, hunique, fun _ _ => hold_refused⟩

end Posh.HeldRows
