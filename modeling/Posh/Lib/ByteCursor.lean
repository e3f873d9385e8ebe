/-
**Reading a byte string at offsets.**

A decoder reads a byte string at offsets it computes.  An access past the end is an outcome of its own
here, beside a value and a reported error, so that "the decoder never reads out of range" is a statement
about it.  A cursor `At data pos rest` says that `rest` is what `data` has from the offset `pos` on; reading
is then taking from the front of `rest`.

Main results:

* `ByteCursor.Outcome.Meets.bind` — **the rule for one step after another**;
* `ByteCursor.At.wordAt_eq`, `ByteCursor.At.byteAt_eq` — reading what is there;
* `ByteCursor.At.wordAt_meets`, `ByteCursor.At.byteAt_meets` — what reading says is there.
-/

import Posh.Lib.WordBytes

set_option autoImplicit false

namespace ByteCursor

open WordBytes

variable {ε α β : Type*}

/-! ### Outcomes -/

/-- A value, a reported error, or an access out of range. -/
inductive Outcome (ε α : Type*) where
  | ok (a : α)
  | error (e : ε)
  | outOfRange
  deriving DecidableEq, Repr

namespace Outcome

/-- One step after another. -/
def bind : Outcome ε α → (α → Outcome ε β) → Outcome ε β
  | ok a, f => f a
  | error e, _ => error e
  | outOfRange, _ => outOfRange

@[simp] theorem bind_ok (a : α) (f : α → Outcome ε β) : (ok a).bind f = f a := rfl

variable {o : Outcome ε α} {P : α → Prop} {f : α → Outcome ε β} {wrong : Prop}

theorem bind_eq_ok {b : β} (h : o.bind f = ok b) : ∃ a, o = ok a ∧ f a = ok b := by
  cases o with
  | ok a => exact ⟨a, rfl, h⟩
  | error e => cases h
  | outOfRange => cases h

/-- An error, if something is wrong. -/
def failIf (wrong : Prop) [Decidable wrong] (e : ε) : Outcome ε Unit :=
  if wrong then error e else ok ()

/-- No access is out of range, and `P` holds of the value if there is one. -/
def Meets (P : α → Prop) : Outcome ε α → Prop
  | ok a => P a
  | error _ => True
  | outOfRange => False

/-- **The rule for one step after another.** -/
theorem Meets.bind {Q : β → Prop} (h : o.Meets P) (hf : ∀ a, P a → (f a).Meets Q) : (o.bind f).Meets Q := by
  cases o with
  | ok a => exact hf a h
  | error e => trivial
  | outOfRange => exact h.elim

theorem Meets.mono {P Q : α → Prop} (h : o.Meets P) (hpq : ∀ a, P a → Q a) : o.Meets Q := by
  cases o with
  | ok a => exact hpq a h
  | error e => trivial
  | outOfRange => exact h.elim

theorem failIf_meets [Decidable wrong] (e : ε) :
    (failIf wrong e).Meets fun _ => ¬wrong := by
  rw [failIf]
  split
  · trivial
  · assumption

theorem failIf_of_not [Decidable wrong] (e : ε) (h : ¬wrong) : failIf wrong e = ok () :=
  if_neg h

theorem Meets.ne_outOfRange (h : o.Meets P) : o ≠ outOfRange := by
  rintro rfl
  exact h

theorem Meets.of_eq_ok (h : o.Meets P) {a : α} (ha : o = ok a) : P a := by
  rw [ha] at h
  exact h

end Outcome

/-! ### Accesses -/

/-- `data[pos]` -/
def byteAt (data : List UInt8) (pos : ℕ) : Outcome ε UInt8 :=
  match data[pos]? with
  | some b => .ok b
  | none => .outOfRange

/-- The number in `data[pos..pos + k]`, little-endian. -/
def wordAt (k : ℕ) (data : List UInt8) (pos : ℕ) : Outcome ε ℕ :=
  if pos + k ≤ data.length then .ok (WordBytes.ofLe ((data.drop pos).take k)) else .outOfRange

/-- The number in `data[pos..pos + k]` as a fixed-width number. -/
def wordAs (make : ℕ → α) (k : ℕ) (data : List UInt8) (pos : ℕ) : Outcome ε α :=
  (wordAt k data pos).bind fun n => .ok (make n)

/-- `data[pos..]` -/
def tailAt (data : List UInt8) (pos : ℕ) : Outcome ε (List UInt8) :=
  if pos ≤ data.length then .ok (data.drop pos) else .outOfRange

/-- `data.get(lo..hi)`, which is nothing when it is out of range. -/
def getRange (data : List UInt8) (lo hi : ℕ) : Option (List UInt8) :=
  if lo ≤ hi ∧ hi ≤ data.length then some ((data.drop lo).take (hi - lo)) else none

/-! ### Cursors -/

/-- `rest` is what `data` has from `pos` on. -/
structure At (data : List UInt8) (pos : ℕ) (rest : List UInt8) : Prop where
  le_length : pos ≤ data.length
  drop_eq : data.drop pos = rest

section Cursor

variable {data w rest : List UInt8} {pos : ℕ} {b : UInt8} {k : ℕ}

theorem at_zero (data : List UInt8) : At data 0 data := ⟨Nat.zero_le _, rfl⟩

theorem At.length_eq (h : At data pos rest) : data.length = pos + rest.length := by
  have hle := h.le_length
  have hlen := congrArg List.length h.drop_eq
  rw [List.length_drop] at hlen
  omega

theorem At.advance (h : At data pos (w ++ rest)) (hk : w.length = k) : At data (pos + k) rest := by
  have hlen := h.length_eq
  rw [List.length_append] at hlen
  refine ⟨by omega, ?_⟩
  rw [← List.drop_drop, h.drop_eq, List.drop_left' hk]

theorem At.next (h : At data pos (b :: rest)) : At data (pos + 1) rest :=
  At.advance (w := [b]) h rfl

theorem At.getElem?_eq (h : At data pos (b :: rest)) : data[pos]? = some b := by
  have hget : (data.drop pos)[0]? = some b := by
    rw [h.drop_eq]
    rfl
  rwa [List.getElem?_drop, Nat.add_zero] at hget

theorem At.byteAt_eq (h : At data pos (b :: rest)) : byteAt data pos = (.ok b : Outcome ε UInt8) := by
  rw [byteAt, h.getElem?_eq]

theorem At.wordAt_eq (h : At data pos (w ++ rest)) (hk : w.length = k) :
    wordAt k data pos = (.ok (ofLe w) : Outcome ε ℕ) := by
  have hlen := h.length_eq
  rw [List.length_append] at hlen
  rw [wordAt, if_pos (by omega), h.drop_eq, List.take_left' hk]

theorem At.tailAt_eq (h : At data pos rest) : tailAt data pos = (.ok rest : Outcome ε (List UInt8)) := by
  rw [tailAt, if_pos h.le_length, h.drop_eq]

theorem At.getRange_eq (h : At data pos (w ++ rest)) (hk : w.length = k) :
    getRange data pos (pos + k) = some w := by
  have hlen := h.length_eq
  rw [List.length_append] at hlen
  rw [getRange, if_pos (by omega), h.drop_eq, Nat.add_sub_cancel_left, List.take_left' hk]

theorem At.of_getRange (h : At data pos rest) (hw : getRange data pos (pos + k) = some w) :
    w.length = k ∧ ∃ rest', rest = w ++ rest' ∧ At data (pos + k) rest' := by
  rw [getRange] at hw
  split at hw
  case isFalse => cases hw
  case isTrue hin =>
    rw [h.drop_eq, Nat.add_sub_cancel_left, Option.some.injEq] at hw
    have hlen := h.length_eq
    have hsplit : rest = w ++ rest.drop k := by rw [← hw, List.take_append_drop]
    have hwlen : w.length = k := by
      rw [← hw, List.length_take]
      omega
    rw [hsplit] at h
    exact ⟨hwlen, rest.drop k, hsplit, h.advance hwlen⟩

theorem At.of_getElem? (h : At data pos rest) (hb : data[pos]? = some b) :
    ∃ rest', rest = b :: rest' ∧ At data (pos + 1) rest' := by
  rcases rest with _ | ⟨c, rest⟩
  · have hlen := h.length_eq
    rw [List.getElem?_eq_none (by rw [hlen]; exact Nat.le_refl _)] at hb
    cases hb
  · rw [h.getElem?_eq, Option.some.injEq] at hb
    exact ⟨rest, by rw [hb], h.next⟩

theorem At.wordAt_meets (h : At data pos rest) (hk : k ≤ rest.length) :
    (wordAt k data pos : Outcome ε ℕ).Meets fun n =>
      n < 256 ^ k ∧ ∃ rest', rest = le k n ++ rest' ∧ At data (pos + k) rest' := by
  have hw : (rest.take k).length = k := List.length_take_of_le hk
  rw [← List.take_append_drop k rest] at h
  rw [h.wordAt_eq hw]
  have hlt := ofLe_lt (rest.take k)
  have hle := le_ofLe (rest.take k)
  rw [hw] at hlt hle
  exact ⟨hlt, rest.drop k, by rw [hle, List.take_append_drop], h.advance hw⟩

section Word

variable {make : ℕ → α} {toNat : α → ℕ} {k : ℕ}

theorem At.wordAs_eq {n : α} (h : At data pos (le k (toNat n) ++ rest))
    (hmake : make (toNat n) = n) (hlt : toNat n < 256 ^ k) : wordAs make k data pos = (.ok n : Outcome ε α) := by
  rw [wordAs, h.wordAt_eq (length_le k _), ofLe_le, Nat.mod_eq_of_lt hlt, Outcome.bind_ok, hmake]

theorem At.wordAs_meets (h : At data pos rest) (hk : k ≤ rest.length)
    (hmake : ∀ n < 256 ^ k, toNat (make n) = n) :
    (wordAs make k data pos : Outcome ε α).Meets fun n =>
      ∃ rest', rest = le k (toNat n) ++ rest' ∧ At data (pos + k) rest' := by
  refine (h.wordAt_meets hk).bind ?_
  rintro n ⟨hlt, rest', heq, hat⟩
  exact ⟨rest', by rw [hmake n hlt, heq], hat⟩

end Word

theorem At.byteAt_meets (h : At data pos rest) (hne : 0 < rest.length) :
    (byteAt data pos : Outcome ε UInt8).Meets fun b =>
      ∃ rest', rest = b :: rest' ∧ At data (pos + 1) rest' := by
  rcases rest with _ | ⟨c, rest⟩
  · cases hne
  · rw [h.byteAt_eq]
    exact ⟨rest, rfl, h.next⟩

theorem At.tailAt_meets (h : At data pos rest) :
    (tailAt data pos : Outcome ε (List UInt8)).Meets fun bs => bs = rest := by
  rw [h.tailAt_eq]
  rfl

end Cursor

end ByteCursor
