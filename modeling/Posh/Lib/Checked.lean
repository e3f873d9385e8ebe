/-
**Checked operations and loops.**

A program that indexes a table, subtracts without a sign or adds in a fixed width goes wrong when the
index, the difference or the sum is not there.  Here each such step is an outcome (`ByteCursor.Outcome`)
that says so, and so is a loop that does not come nearer to its end: a property of every outcome is then a
property of a program that neither goes wrong nor runs forever.

Main results:

* `Checked.get_meets`, `Checked.fits_meets` — when they go right;
* `Checked.loop_next`, `Checked.loop_done` — a turn of the loop;
* `Checked.loop_meets` — **the rule for loops**: an invariant and a measure that falls;
* `Checked.each_meets`, `Checked.upTo_meets` — the rules for steps over a list, and over the numbers;
* `Checked.Gives.bind`, `Checked.Gives.each` — the rules for what comes out;
* `Checked.Stops.bind` — **where one step after another stops**.
-/

import Posh.Lib.ByteCursor

set_option autoImplicit false

namespace Checked

open ByteCursor

variable {ε α σ : Type*} {xs : List α} {n i : ℕ}

/-! ### Checked operations -/

/-- `xs[i]` -/
def get (xs : List α) (i : ℕ) : Outcome ε α :=
  match xs[i]? with
  | some a => .ok a
  | none => .outOfRange

/-- `xs[i] = a` -/
def set (xs : List α) (i : ℕ) (a : α) : Outcome ε (List α) :=
  if i < xs.length then .ok (xs.set i a) else .outOfRange

/-- `&xs[..i]` and `&xs[i..]` -/
def split (xs : List α) (i : ℕ) : Outcome ε (List α × List α) :=
  if i ≤ xs.length then .ok (xs.take i, xs.drop i) else .outOfRange

/-- `a - b`, without a sign -/
def sub (a b : ℕ) : Outcome ε ℕ := if b ≤ a then .ok (a - b) else .outOfRange

/-- A result that must be below `bound`. -/
def fits (bound n : ℕ) : Outcome ε ℕ := if n < bound then .ok n else .outOfRange

/-- A signed result that must fit `w` bits. -/
def fitsSigned (w : ℕ) (n : ℤ) : Outcome ε ℤ :=
  if -2 ^ (w - 1) ≤ n ∧ n < 2 ^ (w - 1) then .ok n else .outOfRange

theorem get_eq {i : ℕ} {a : α} (h : xs[i]? = some a) : (get xs i : Outcome ε α) = .ok a := by
  rw [get, h]

theorem get_meets {i : ℕ} (h : i < xs.length) :
    (get xs i : Outcome ε α).Meets fun a => xs[i]? = some a := by
  rw [get_eq (List.getElem?_eq_getElem h)]
  exact List.getElem?_eq_getElem h

theorem set_eq {i : ℕ} (h : i < xs.length) (a : α) : (set xs i a : Outcome ε (List α)) = .ok (xs.set i a) :=
  if_pos h

theorem sub_eq {a b : ℕ} (h : b ≤ a) : (sub a b : Outcome ε ℕ) = .ok (a - b) := if_pos h

theorem fits_eq {bound n : ℕ} (h : n < bound) : (fits bound n : Outcome ε ℕ) = .ok n := if_pos h

theorem fits_meets {bound n : ℕ} (h : n < bound) :
    (fits bound n : Outcome ε ℕ).Meets fun m => m = n := by
  rw [fits_eq h]
  rfl

theorem split_eq {i : ℕ} (h : i ≤ xs.length) :
    (split xs i : Outcome ε (List α × List α)) = .ok (xs.take i, xs.drop i) :=
  if_pos h

theorem fitsSigned_eq {w : ℕ} {n : ℤ} (hlow : -2 ^ (w - 1) ≤ n) (hhigh : n < 2 ^ (w - 1)) :
    (fitsSigned w n : Outcome ε ℤ) = .ok n :=
  if_pos ⟨hlow, hhigh⟩

/-! ### Tables -/

/-- The table of a function, of `n` entries. -/
def table (n : ℕ) (f : ℕ → α) : List α := (List.range n).map f

@[simp] theorem length_table (n : ℕ) (f : ℕ → α) : (table n f).length = n := by
  rw [table, List.length_map, List.length_range]

theorem getElem?_table (f : ℕ → α) (h : i < n) : (table n f)[i]? = some (f i) := by
  rw [table, List.getElem?_map, List.getElem?_range h]
  rfl

theorem get_table (f : ℕ → α) (h : i < n) : (get (table n f) i : Outcome ε α) = .ok (f i) :=
  get_eq (getElem?_table f h)

theorem table_set (f : ℕ → α) (a : α) : (table n f).set i a = table n (Function.update f i a) := by
  refine List.ext_getElem? fun j => ?_
  rw [List.getElem?_set, length_table]
  rcases Nat.lt_or_ge j n with hj | hj
  · rw [getElem?_table _ hj, getElem?_table _ hj]
    by_cases hij : i = j
    · rw [if_pos hij, if_pos (hij ▸ hj), ← hij, Function.update_self]
    · rw [if_neg hij, Function.update_of_ne (Ne.symm hij)]
  · rw [List.getElem?_eq_none (by rw [length_table]; exact hj),
      List.getElem?_eq_none (by rw [length_table]; exact hj)]
    split
    · rw [if_neg (by omega)]
    · rfl

theorem set_table (f : ℕ → α) (h : i < n) (a : α) :
    (set (table n f) i a : Outcome ε (List α)) = .ok (table n (Function.update f i a)) := by
  rw [set_eq (by rw [length_table]; exact h), table_set]

theorem table_congr {n : ℕ} {f g : ℕ → α} (h : ∀ i < n, f i = g i) : table n f = table n g :=
  List.map_congr_left fun i hi => h i (List.mem_range.1 hi)

/-! ### Loops -/

/-- Turns the body until it returns a result.  A turn that does not bring the measure down is not one of a
loop that ends. -/
def loop (measure : σ → ℕ) (body : σ → Outcome ε (σ ⊕ α)) (s : σ) : Outcome ε α :=
  match body s with
  | .ok (.inl t) => if measure t < measure s then loop measure body t else .outOfRange
  | .ok (.inr a) => .ok a
  | .error e => .error e
  | .outOfRange => .outOfRange
termination_by measure s

variable {measure : σ → ℕ} {body : σ → Outcome ε (σ ⊕ α)} {s t : σ} {ι : Type*} {I : σ → Prop}

theorem loop_next (h : body s = .ok (.inl t)) (hlt : measure t < measure s) :
    loop measure body s = loop measure body t := by
  rw [loop, h]
  exact if_pos hlt

theorem loop_done {a : α} (h : body s = .ok (.inr a)) : loop measure body s = .ok a := by
  rw [loop, h]

/-- What a turn from `s` comes to: a state that is nearer to the end, or a result. -/
def Turned (I : σ → Prop) (Q : α → Prop) (measure : σ → ℕ) (s : σ) : σ ⊕ α → Prop
  | .inl t => I t ∧ measure t < measure s
  | .inr a => Q a

/-- **The rule for loops**: what holds before each turn, and a measure that falls. -/
theorem loop_meets {Q : α → Prop} (hbody : ∀ s, I s → (body s).Meets (Turned I Q measure s)) :
    ∀ s, I s → (loop measure body s).Meets Q := by
  intro s
  induction hn : measure s using Nat.strong_induction_on generalizing s with
  | _ n ih =>
    intro hI
    have hturn := hbody s hI
    rw [loop]
    cases hs : body s with
    | error e => trivial
    | outOfRange =>
      rw [hs] at hturn
      exact hturn.elim
    | ok next =>
      rw [hs] at hturn
      cases next with
      | inr a => exact hturn
      | inl t =>
        obtain ⟨hIt, hlt⟩ := hturn
        dsimp only
        rw [if_pos hlt]
        exact ih (measure t) (hn ▸ hlt) t rfl hIt

/-! ### Steps over a list -/

/-- A step for each entry of a list. -/
def each {ι : Type*} (step : σ → ι → Outcome ε σ) : σ → List ι → Outcome ε σ
  | s, [] => .ok s
  | s, i :: is => (step s i).bind fun t => each step t is

theorem each_meets {step : σ → ι → Outcome ε σ} {is : List ι}
    (hstep : ∀ i ∈ is, ∀ s, I s → (step s i).Meets I) : ∀ {s : σ}, I s → (each step s is).Meets I := by
  induction is with
  | nil => exact fun h => h
  | cons i is ih =>
    intro s h
    exact (hstep i List.mem_cons_self s h).bind fun t ht => ih (fun j hj => hstep j (List.mem_cons_of_mem i hj)) ht

/-! ### Steps over the numbers below a bound -/

/-- A step for each number below a bound, in turn. -/
def upTo (step : σ → ℕ → Outcome ε σ) (s : σ) : ℕ → Outcome ε σ
  | 0 => .ok s
  | n + 1 => (upTo step s n).bind fun t => step t n

theorem upTo_meets {step : σ → ℕ → Outcome ε σ} {I : ℕ → σ → Prop} {s : σ} {n : ℕ} (hs : I 0 s)
    (hstep : ∀ k < n, ∀ t, I k t → (step t k).Meets (I (k + 1))) : (upTo step s n).Meets (I n) := by
  induction n with
  | zero => exact hs
  | succ n ih =>
    have hfront : (upTo step s n).Meets (I n) := ih fun k hk => hstep k (Nat.lt_succ_of_lt hk)
    exact hfront.bind fun t ht => hstep n (Nat.lt_succ_self n) t ht

theorem each_append (step : σ → ι → Outcome ε σ) (is js : List ι) (s : σ) :
    each step s (is ++ js) = (each step s is).bind fun t => each step t js := by
  induction is generalizing s with
  | nil => rfl
  | cons i is ih =>
    rw [List.cons_append, each, each]
    cases step s i with
    | ok t => exact ih t
    | error e => rfl
    | outOfRange => rfl

theorem each_concat (step : σ → ι → Outcome ε σ) (is : List ι) (i : ι) (s : σ) :
    each step s (is ++ [i]) = (each step s is).bind fun t => step t i := by
  rw [each_append]
  cases each step s is with
  | ok t =>
    show (step t i).bind (fun t => each step t []) = step t i
    cases step t i <;> rfl
  | error e => rfl
  | outOfRange => rfl

theorem each_range (step : σ → ℕ → Outcome ε σ) (s : σ) (n : ℕ) : each step s (List.range n) = upTo step s n := by
  induction n with
  | zero => rfl
  | succ n ih => rw [List.range_succ, each_concat, ih, upTo]

/-! ### What comes out -/

/-- What holds of a value, if one comes out. -/
def Gives (o : Outcome ε α) (P : α → Prop) : Prop := ∀ a, o = .ok a → P a

namespace Gives

variable {β : Type*} {o : Outcome ε α} {P P' : α → Prop} {Q : β → Prop} {f : α → Outcome ε β}

theorem ok {a : α} (h : P a) : Gives (.ok a : Outcome ε α) P := by
  rintro _ ⟨⟩
  exact h

theorem error (e : ε) : Gives (.error e : Outcome ε α) P := nofun

theorem outOfRange : Gives (.outOfRange : Outcome ε α) P := nofun

theorem mono (h : Gives o P) (hP : ∀ a, P a → P' a) : Gives o P' := fun a ha => hP a (h a ha)

/-- **One step after another.** -/
theorem bind (h : Gives o P) (hf : ∀ a, P a → Gives (f a) Q) : Gives (o.bind f) Q := by
  intro b hb
  obtain ⟨a, ha, hfa⟩ := Outcome.bind_eq_ok hb
  exact hf a (h a ha) b hfa

theorem each {ι : Type*} {step : α → ι → Outcome ε α} {is : List ι}
    (hstep : ∀ i ∈ is, ∀ a, P a → Gives (step a i) P) : ∀ {a : α}, P a → Gives (Checked.each step a is) P := by
  induction is with
  | nil => exact fun h => ok h
  | cons i is ih =>
    intro a h
    exact (hstep i List.mem_cons_self a h).bind fun b hb => ih (fun j hj => hstep j (List.mem_cons_of_mem i hj)) hb

end Gives

/-! ### Where a program stops -/

/-- It is out of range where `P` holds, and elsewhere it is not, and `Q` holds of the value if there is one. -/
structure Stops (P : Prop) (o : Outcome ε α) (Q : α → Prop) : Prop where
  stops : P → o = .outOfRange
  goes : ¬ P → o.Meets Q

namespace Stops

variable {β : Type*} {P P' : Prop} {o : Outcome ε α} {Q Q' : α → Prop} {f : α → Outcome ε β} {R : α → Prop}
  {S : β → Prop}

theorem of_not (hP : ¬ P) (h : o.Meets Q) : Stops P o Q := ⟨fun hp => absurd hp hP, fun _ => h⟩

theorem congr (h : Stops P o Q) (hP : P' ↔ P) : Stops P' o Q :=
  ⟨fun hp => h.stops (hP.1 hp), fun hp => h.goes fun hp' => hp (hP.2 hp')⟩

theorem mono (h : Stops P o Q) (hQ : ∀ a, Q a → Q' a) : Stops P o Q' :=
  ⟨h.stops, fun hp => (h.goes hp).mono hQ⟩

theorem iff_outOfRange (h : Stops P o Q) : o = .outOfRange ↔ P := by
  refine ⟨fun ho => ?_, h.stops⟩
  by_contra hp
  exact (h.goes hp).ne_outOfRange ho

theorem fits (bound n : ℕ) : Stops (bound ≤ n) (Checked.fits bound n : Outcome ε ℕ) fun m => m = n := by
  refine ⟨fun h => if_neg (Nat.not_lt.2 h), fun h => ?_⟩
  exact fits_meets (Nat.not_le.1 h)

/-- **Where one step after another stops**: where the first does, or where the second does on its value. -/
theorem bind (h : Stops P o Q) (hf : ∀ a, o = .ok a → Q a → Stops (R a) (f a) S) :
    Stops (P ∨ ∃ a, o = .ok a ∧ R a) (o.bind f) S := by
  cases o with
  | ok a =>
    have hP : ¬ P := fun hp => by cases h.stops hp
    have hQ : Q a := h.goes hP
    refine (hf a rfl hQ).congr ?_
    constructor
    · rintro (hp | ⟨b, hb, hR⟩)
      · exact absurd hp hP
      · cases hb
        exact hR
    · exact fun hR => .inr ⟨a, rfl, hR⟩
  | error e =>
    refine ⟨?_, fun _ => trivial⟩
    rintro (hp | ⟨b, hb, -⟩)
    · cases h.stops hp
    · cases hb
  | outOfRange =>
    refine ⟨fun _ => rfl, fun hno => ?_⟩
    exact h.goes fun hp => hno (.inl hp)

theorem map (h : Stops P o Q) {make : α → β} (hmake : ∀ a, Q a → S (make a)) :
    Stops P (o.bind fun a => .ok (make a)) S :=
  ⟨fun hp => by rw [h.stops hp]; rfl, fun hp => (h.goes hp).bind fun a ha => hmake a ha⟩

theorem seq {R : Prop} (h : Stops P o Q) (hok : ∀ e, o ≠ .error e) (hf : ∀ a, Q a → Stops R (f a) S) :
    Stops (P ∨ R) (o.bind f) S := by
  refine (h.bind fun a _ => hf a).congr (or_congr_right' fun hP => ?_)
  cases o with
  | ok a => exact ⟨fun hR => ⟨a, rfl, hR⟩, fun ⟨_, _, hR⟩ => hR⟩
  | error e => exact absurd rfl (hok e)
  | outOfRange => exact (h.goes hP).elim

theorem of_ok (h : Stops P o Q) {a : α} (ho : o = .ok a) : Q a :=
  (h.goes fun hp => by cases ho.symm.trans (h.stops hp)).of_eq_ok ho

theorem gives (h : Stops P o Q) : Gives o Q := fun _ ha => h.of_ok ha

end Stops

end Checked
