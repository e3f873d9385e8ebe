/-
**Self-delimiting records in a byte stream.**

A framing writes a record as a nonempty word of symbols and, given a buffer, either cannot tell yet,
or splits one record off the front, or rejects the buffer.  A streaming decoder keeps the symbols of
the record it is in the middle of and, whenever symbols arrive, splits off every record that became
complete.  Where the symbols are cut into arrivals does not matter: fed any prefix of the encoding of
a list of records, the decoder has produced exactly the records that fit in it.

Main results:

* `Framing.drain_eq` — the loop equation: the fuel of `drain` never runs out;
* `Framing.drain_spec` — **what a drain produces** from a prefix of an encoded list;
* `Framing.eq_nil_of_stuck` — a buffer that holds whole records is not one the decoder stops at;
* `Framing.arrivals_pairwise` — **after an error there is no record**;
* `Framing.beforeError_arrivals_iff` — **where the cuts between arrivals do not matter**.
-/

import Mathlib.Data.List.Infix

set_option autoImplicit false

/-- A framing of records `ρ` in symbols `β`, with the errors `ε` of its parser. -/
structure Framing (β ρ ε : Type*) where
  /-- the word of a record -/
  encode : ρ → List β
  /-- the first record of a buffer and what follows it; `none` when more symbols are needed -/
  parse : List β → Except ε (Option (ρ × List β))

namespace Framing

open List (append_assoc append_nil mem_cons_self nil_prefix)

variable {β ρ ε : Type*} {F : Framing β ρ ε} {valid : ρ → Prop}

/-- The laws of a self-delimiting framing, for the records that meet `valid`. -/
structure Lawful (F : Framing β ρ ε) (valid : ρ → Prop) : Prop where
  /-- a word has at least one symbol -/
  encode_ne_nil : ∀ r, valid r → F.encode r ≠ []
  /-- a whole word at the front is recognised, whatever follows -/
  parse_encode : ∀ r rest, valid r → F.parse (F.encode r ++ rest) = .ok (some (r, rest))
  /-- in the middle of a word the parser waits -/
  parse_inside : ∀ r p, valid r → p <+: F.encode r → p ≠ F.encode r → F.parse p = .ok none
  /-- a record takes at least one symbol off the buffer -/
  parse_shrinks : ∀ b r rest, F.parse b = .ok (some (r, rest)) → rest.length < b.length

/-- The words of a list of records, one after the other. -/
def encodeAll (F : Framing β ρ ε) (rs : List ρ) : List β := rs.flatMap F.encode

@[simp] theorem encodeAll_nil : F.encodeAll [] = [] := rfl

@[simp] theorem encodeAll_cons (r : ρ) (rs : List ρ) :
    F.encodeAll (r :: rs) = F.encode r ++ F.encodeAll rs := List.flatMap_cons

@[simp] theorem encodeAll_append (rs ts : List ρ) :
    F.encodeAll (rs ++ ts) = F.encodeAll rs ++ F.encodeAll ts := List.flatMap_append

/-! ### The decoder's loop -/

/-- Splits records off the front of the buffer for at most `fuel` rounds. -/
def drainFuel (F : Framing β ρ ε) : ℕ → List β → Except ε (List ρ) × List β
  | 0, buf => (.ok [], buf)
  | fuel + 1, buf =>
    match F.parse buf with
    | .error e => (.error e, buf)
    | .ok none => (.ok [], buf)
    | .ok (some (r, rest)) =>
      ((drainFuel F fuel rest).1.map (r :: ·), (drainFuel F fuel rest).2)

/-- Splits off every complete record; the rest of the buffer is kept. -/
def drain (F : Framing β ρ ε) (buf : List β) : Except ε (List ρ) × List β :=
  F.drainFuel (buf.length + 1) buf

theorem drainFuel_eq (h : F.Lawful valid) (n : ℕ) :
    ∀ (m : ℕ) (buf : List β), buf.length < n → buf.length < m → F.drainFuel n buf = F.drainFuel m buf := by
  induction n with
  | zero => intro m buf hn; omega
  | succ n ih =>
    intro m buf hn hm
    cases m with
    | zero => omega
    | succ m =>
      rw [drainFuel, drainFuel]
      cases hp : F.parse buf with
      | error e => rfl
      | ok o =>
        cases o with
        | none => rfl
        | some rr =>
          have hlt := h.parse_shrinks buf rr.1 rr.2 hp
          simp only
          rw [ih m rr.2 (by omega) (by omega)]

/-- **The loop equation.**  The decoder goes on for as long as the parser finds a record. -/
theorem drain_eq (h : F.Lawful valid) (buf : List β) : F.drain buf = match F.parse buf with
      | .error e => (.error e, buf)
      | .ok none => (.ok [], buf)
      | .ok (some (r, rest)) => ((F.drain rest).1.map (r :: ·), (F.drain rest).2) := by
  rw [drain, drainFuel]
  cases hp : F.parse buf with
  | error e => rfl
  | ok o =>
    cases o with
    | none => rfl
    | some rr =>
      have hlt := h.parse_shrinks buf rr.1 rr.2 hp
      simp only
      rw [drain, drainFuel_eq h _ _ rr.2 hlt (Nat.lt_succ_self _)]

theorem drain_of_parse_none (h : F.Lawful valid) {buf : List β} (hp : F.parse buf = .ok none) :
    F.drain buf = (.ok [], buf) := by
  rw [drain_eq h, hp]

theorem drain_encode_append (h : F.Lawful valid) {r : ρ} (hr : valid r) (rest : List β) :
    F.drain (F.encode r ++ rest) = ((F.drain rest).1.map (r :: ·), (F.drain rest).2) := by
  rw [drain_eq h, h.parse_encode r rest hr]

theorem prefix_append_cases {p w v : List β} (h : p <+: w ++ v) :
    (p <+: w ∧ p ≠ w) ∨ ∃ q, p = w ++ q ∧ q <+: v := by
  rcases List.prefix_or_prefix_of_prefix h (List.prefix_append w v) with hp | ⟨q, rfl⟩
  · rcases eq_or_ne p w with rfl | hne
    · exact .inr ⟨[], (append_nil _).symm, nil_prefix⟩
    · exact .inl ⟨hp, hne⟩
  · exact .inr ⟨q, rfl, (List.prefix_append_right_inj w).1 h⟩

/-- **What a drain produces.**  From a prefix of an encoded list of records, the decoder produces a
prefix of the list and keeps the rest of the symbols, at which it waits. -/
theorem drain_spec (h : F.Lawful valid) (hnil : F.parse [] = .ok none) (rs : List ρ) :
    ∀ buf : List β, (∀ r ∈ rs, valid r) → buf <+: F.encodeAll rs →
      ∃ out rest, F.drain buf = (.ok out, rest) ∧ out <+: rs ∧ buf = F.encodeAll out ++ rest ∧
        F.parse rest = .ok none := by
  induction rs with
  | nil =>
    intro buf _ hb
    rw [encodeAll_nil, List.prefix_nil] at hb
    subst hb
    exact ⟨[], [], drain_of_parse_none h hnil, List.prefix_refl _, rfl, hnil⟩
  | cons r rs ih =>
    intro buf hv hb
    have hr := hv r (mem_cons_self ..)
    rw [encodeAll_cons] at hb
    rcases prefix_append_cases hb with ⟨hp, hne⟩ | ⟨q, rfl, hq⟩
    · -- the buffer ends inside the first word
      have hwait := h.parse_inside r buf hr hp hne
      exact ⟨[], buf, drain_of_parse_none h hwait, nil_prefix, rfl, hwait⟩
    · -- the first word is complete; the induction hypothesis drains what follows it
      obtain ⟨out, rest, hd, hout, hq', hwait⟩ := ih q (fun r' hr' => hv r' (List.mem_cons_of_mem _ hr')) hq
      refine ⟨r :: out, rest, ?_, ?_, ?_, hwait⟩
      · rw [drain_encode_append h hr, hd]
        rfl
      · exact List.cons_prefix_cons.2 ⟨rfl, hout⟩
      · rw [encodeAll_cons, append_assoc, ← hq']

/-- A buffer of whole records at which the decoder waits is empty. -/
theorem eq_nil_of_stuck (h : F.Lawful valid) {rs : List ρ} (hv : ∀ r ∈ rs, valid r)
    (hs : F.parse (F.encodeAll rs) = .ok none) : rs = [] := by
  cases rs with
  | nil => rfl
  | cons r rs =>
    rw [encodeAll_cons, h.parse_encode r _ (hv r (mem_cons_self ..))] at hs
    cases hs

/-- A prefix of an encoded list is whole words and a proper prefix of the next. -/
theorem prefix_encodeAll (rs : List ρ) :
    ∀ {p : List β}, p <+: F.encodeAll rs → ∃ out rest, p = F.encodeAll out ++ rest ∧ out <+: rs ∧
      (rest = [] ∨ ∃ r, out ++ [r] <+: rs ∧ rest <+: F.encode r ∧ rest ≠ F.encode r) := by
  induction rs with
  | nil =>
    intro p hp
    rw [encodeAll_nil, List.prefix_nil] at hp
    exact ⟨[], [], hp, List.prefix_refl _, .inl rfl⟩
  | cons r rs ih =>
    intro p hp
    rw [encodeAll_cons] at hp
    rcases prefix_append_cases hp with ⟨hin, hne⟩ | ⟨q, rfl, hq⟩
    · exact ⟨[], p, rfl, nil_prefix, .inr ⟨r, ⟨rs, rfl⟩, hin, hne⟩⟩
    · obtain ⟨out, rest, rfl, hout, hrest⟩ := ih hq
      refine ⟨r :: out, rest, ?_, List.cons_prefix_cons.2 ⟨rfl, hout⟩, hrest.imp_right ?_⟩
      · rw [encodeAll_cons, append_assoc]
      · rintro ⟨next, hnext, hword⟩
        exact ⟨next, List.cons_prefix_cons.2 ⟨rfl, hnext⟩, hword⟩

/-! ### A buffer is cut -/

/-- The laws of a parser that can be run as the symbols arrive. -/
structure Streams (F : Framing β ρ ε) (valid : ρ → Prop) : Prop where
  parse_nil : F.parse [] = .ok none
  /-- what is split off is a word -/
  parse_some : ∀ b r rest, F.parse b = .ok (some (r, rest)) → valid r ∧ b = F.encode r ++ rest
  /-- what is rejected stays rejected -/
  parse_error : ∀ b x e, F.parse b = .error e → F.parse (b ++ x) = .error e

/-- The records at the front of a buffer and what follows them. -/
structure Cut (F : Framing β ρ ε) (valid : ρ → Prop) (buf : List β) (rs : List ρ) (rest : List β) :
    Prop where
  eq : buf = F.encodeAll rs ++ rest
  valid : ∀ r ∈ rs, valid r
  ends : ∀ r rest', F.parse rest ≠ .ok (some (r, rest'))

section Cut

variable {buf rest rest' x : List β} {rs rs' : List ρ} {e : ε}

theorem Cut.of_none (hp : F.parse buf = .ok none) : F.Cut valid buf [] buf where
  eq := rfl
  valid := nofun
  ends := by rw [hp]; nofun

theorem Cut.of_error (hp : F.parse buf = .error e) : F.Cut valid buf [] buf where
  eq := rfl
  valid := nofun
  ends := by rw [hp]; nofun

theorem Cut.append (hvalid : ∀ r ∈ rs, valid r) (hc : F.Cut valid rest rs' rest') :
    F.Cut valid (F.encodeAll rs ++ rest) (rs ++ rs') rest' where
  eq := by rw [encodeAll_append, append_assoc, ← hc.eq]
  valid := List.forall_mem_append.mpr ⟨hvalid, hc.valid⟩
  ends := hc.ends

theorem exists_cut (h : F.Lawful valid) (hs : F.Streams valid) (buf : List β) :
    ∃ rs rest, F.Cut valid buf rs rest := by
  induction hn : buf.length using Nat.strong_induction_on generalizing buf with
  | _ n ih =>
    cases hp : F.parse buf with
    | error e => exact ⟨[], buf, .of_error hp⟩
    | ok o =>
      cases o with
      | none => exact ⟨[], buf, .of_none hp⟩
      | some rr =>
        obtain ⟨r, rest⟩ := rr
        obtain ⟨hr, hbuf⟩ := hs.parse_some buf r rest hp
        obtain ⟨rs, rest', hc⟩ := ih _ (hn ▸ h.parse_shrinks buf r rest hp) rest rfl
        refine ⟨r :: rs, rest', ?_⟩
        rw [hbuf, ← append_nil (F.encode r), ← encodeAll_nil (F := F), ← encodeAll_cons]
        exact Cut.append (List.forall_mem_singleton.mpr hr) hc

theorem Cut.unique (h : F.Lawful valid) (hc : F.Cut valid buf rs rest) (hc' : F.Cut valid buf rs' rest') :
    rs = rs' ∧ rest = rest' := by
  induction rs generalizing buf rs' with
  | nil =>
    cases rs' with
    | nil => exact ⟨rfl, hc.eq.symm.trans hc'.eq⟩
    | cons r rs' =>
      have heq : rest = F.encode r ++ (F.encodeAll rs' ++ rest') := by
        rw [← append_assoc, ← encodeAll_cons, ← hc'.eq, hc.eq]
        rfl
      exact absurd (heq ▸ h.parse_encode r _ (hc'.valid r mem_cons_self)) (hc.ends _ _)
  | cons r rs ih =>
    have hr := hc.valid r mem_cons_self
    have heq : buf = F.encode r ++ (F.encodeAll rs ++ rest) := by
      rw [← append_assoc, ← encodeAll_cons, ← hc.eq]
    cases rs' with
    | nil =>
      have hbuf : buf = rest' := hc'.eq
      exact absurd ((hbuf ▸ heq) ▸ h.parse_encode r _ hr) (hc'.ends _ _)
    | cons r' rs' =>
      have hr' := hc'.valid r' mem_cons_self
      have heq' : buf = F.encode r' ++ (F.encodeAll rs' ++ rest') := by
        rw [← append_assoc, ← encodeAll_cons, ← hc'.eq]
      have hparse := h.parse_encode r (F.encodeAll rs ++ rest) hr
      rw [← heq, heq', h.parse_encode r' _ hr'] at hparse
      obtain ⟨hrr, htail⟩ := Prod.mk.inj (Option.some.inj (Except.ok.inj hparse))
      obtain ⟨hrs, hrest⟩ := ih
        ⟨rfl, fun r hmem => hc.valid r (List.mem_cons_of_mem _ hmem), hc.ends⟩
        ⟨htail.symm, fun r hmem => hc'.valid r (List.mem_cons_of_mem _ hmem), hc'.ends⟩
      exact ⟨by rw [hrr, hrs], hrest⟩

theorem Cut.eq_nil_of_none (h : F.Lawful valid) (hc : F.Cut valid buf rs rest)
    (hp : F.parse buf = .ok none) : rs = [] :=
  (hc.unique h (.of_none hp)).1

theorem Cut.eq_nil_of_error (h : F.Lawful valid) (hc : F.Cut valid buf rs rest)
    (hp : F.parse buf = .error e) : rs = [] ∧ rest = buf :=
  hc.unique h (.of_error hp)

theorem drain_encodeAll_append (h : F.Lawful valid) (hvalid : ∀ r ∈ rs, valid r) (rest : List β) :
    F.drain (F.encodeAll rs ++ rest) = ((F.drain rest).1.map (rs ++ ·), (F.drain rest).2) := by
  induction rs with
  | nil =>
    show F.drain rest = _
    cases hd : F.drain rest with
    | mk out kept => cases out <;> rfl
  | cons r rs ih =>
    rw [encodeAll_cons, append_assoc, drain_encode_append h (hvalid r mem_cons_self),
      ih fun r hmem => hvalid r (List.mem_cons_of_mem _ hmem)]
    cases (F.drain rest).1 <;> rfl

theorem Cut.drain_of_none (h : F.Lawful valid) (hc : F.Cut valid buf rs rest)
    (hp : F.parse rest = .ok none) : F.drain buf = (.ok rs, rest) := by
  rw [hc.eq, drain_encodeAll_append h hc.valid, drain_of_parse_none h hp]
  exact congrArg (fun out => (Except.ok out, rest)) (append_nil rs)

theorem Cut.drain_of_error (h : F.Lawful valid) (hc : F.Cut valid buf rs rest)
    (hp : F.parse rest = .error e) : F.drain buf = (.error e, rest) := by
  have hd : F.drain rest = (.error e, rest) := by rw [drain_eq h, hp]
  rw [hc.eq, drain_encodeAll_append h hc.valid, hd]
  rfl

end Cut

/-! ### Arrivals -/

/-- What each of some arrivals gives. -/
def arrivals (F : Framing β ρ ε) : List β → List (List β) → List (Except ε (List ρ))
  | _, [] => []
  | buf, x :: xs => (F.drain (buf ++ x)).1 :: arrivals F (F.drain (buf ++ x)).2 xs

/-- The records before the first error. -/
def beforeError : List (Except ε (List ρ)) → List ρ
  | [] => []
  | .error _ :: _ => []
  | .ok rs :: results => rs ++ beforeError results

section Arrivals

variable {buf rest x : List β} {rs : List ρ} {e : ε} {xs front back : List (List β)}

theorem beforeError_arrivals_none (h : F.Lawful valid) (hc : F.Cut valid (buf ++ x) rs rest)
    (hp : F.parse rest = .ok none) (xs : List (List β)) :
    beforeError (F.arrivals buf (x :: xs)) = rs ++ beforeError (F.arrivals rest xs) := by
  rw [arrivals, hc.drain_of_none h hp, beforeError]

theorem beforeError_arrivals_error (h : F.Lawful valid) (hc : F.Cut valid (buf ++ x) rs rest)
    (hp : F.parse rest = .error e) (xs : List (List β)) : beforeError (F.arrivals buf (x :: xs)) = [] := by
  rw [arrivals, hc.drain_of_error h hp, beforeError]

theorem Cut.rest_cases (hc : F.Cut valid buf rs rest) :
    F.parse rest = .ok none ∨ ∃ e, F.parse rest = .error e := by
  cases hp : F.parse rest with
  | error e => exact .inr ⟨e, rfl⟩
  | ok o =>
    cases o with
    | none => exact .inl rfl
    | some rr => exact absurd hp (hc.ends rr.1 rr.2)

/-- **After an error there is no record.** -/
theorem arrivals_pairwise (h : F.Lawful valid) (hs : F.Streams valid) (buf : List β)
    (xs : List (List β)) :
    (F.arrivals buf xs).Pairwise fun a b => ∀ e, a = .error e → b = .error e := by
  have hall : ∀ (xs : List (List β)) (buf : List β) (e : ε), F.parse buf = .error e →
      ∀ result ∈ F.arrivals buf xs, result = .error e := by
    intro xs
    induction xs with
    | nil => exact fun _ _ _ => nofun
    | cons x xs ih =>
      intro buf e hp
      have hp' := hs.parse_error buf x e hp
      rw [arrivals, (Cut.of_error hp').drain_of_error h hp']
      exact List.forall_mem_cons.mpr ⟨rfl, ih _ e hp'⟩
  induction xs generalizing buf with
  | nil => exact .nil
  | cons x xs ih =>
    refine List.pairwise_cons.mpr ⟨fun result hmem e he => ?_, ih _⟩
    obtain ⟨rs, rest, hc⟩ := exists_cut h hs (buf ++ x)
    rcases hc.rest_cases with hp | ⟨e', hp⟩
    · rw [hc.drain_of_none h hp] at he
      cases he
    · rw [hc.drain_of_error h hp] at he hmem
      obtain rfl : e' = e := Except.error.inj he
      exact hall xs rest e' hp result hmem

/-- The records are those of the arrivals up to some point at which the decoder waits. -/
theorem exists_front (h : F.Lawful valid) (hs : F.Streams valid) (xs : List (List β))
    (hb : F.parse buf = .ok none) : ∃ front back rest, xs = front ++ back ∧
      F.Cut valid (buf ++ front.flatten) (beforeError (F.arrivals buf xs)) rest ∧ F.parse rest = .ok none := by
  induction xs generalizing buf with
  | nil => exact ⟨[], [], buf, rfl, (append_nil buf).symm ▸ .of_none hb, hb⟩
  | cons x xs ih =>
    obtain ⟨rs, rest, hc⟩ := exists_cut h hs (buf ++ x)
    rcases hc.rest_cases with hp | ⟨e, hp⟩
    · obtain ⟨front, back, kept, rfl, hc', hkept⟩ := ih hp
      refine ⟨x :: front, back, kept, rfl, ?_, hkept⟩
      rw [beforeError_arrivals_none h hc hp, List.flatten_cons, ← append_assoc, hc.eq, append_assoc]
      exact hc'.append hc.valid
    · rw [beforeError_arrivals_error h hc hp]
      exact ⟨[], x :: xs, buf, rfl, (append_nil buf).symm ▸ .of_none hb, hb⟩

theorem prefix_beforeError (h : F.Lawful valid) (hs : F.Streams valid) (hb : F.parse buf = .ok none)
    (hc : F.Cut valid (buf ++ front.flatten) rs rest) (hp : F.parse rest = .ok none)
    (back : List (List β)) : rs <+: beforeError (F.arrivals buf (front ++ back)) := by
  induction front generalizing buf rs with
  | nil =>
    obtain rfl := hc.eq_nil_of_none h ((append_nil buf).symm ▸ hb)
    exact nil_prefix
  | cons x front ih =>
    rw [List.flatten_cons, ← append_assoc] at hc
    obtain ⟨rs', rest', hc'⟩ := exists_cut h hs (buf ++ x)
    obtain ⟨rs'', rest'', hc''⟩ := exists_cut h hs (rest' ++ front.flatten)
    have hwhole : F.Cut valid (buf ++ x ++ front.flatten) (rs' ++ rs'') rest'' := by
      rw [hc'.eq, append_assoc]
      exact hc''.append hc'.valid
    obtain ⟨rfl, rfl⟩ := Cut.unique h hc hwhole
    rcases hc'.rest_cases with hp' | ⟨e, hp'⟩
    · rw [List.cons_append, beforeError_arrivals_none h hc' hp']
      exact (List.prefix_append_right_inj rs').mpr (ih hp' hc'')
    · -- what is rejected would stay so
      have herror := hs.parse_error rest' front.flatten e hp'
      obtain ⟨-, heq⟩ := hc''.eq_nil_of_error h herror
      rw [heq, herror] at hp
      cases hp

theorem rest_eq_nil {b : β} {r : ρ} (h : F.Lawful valid) (hs : F.Streams valid)
    (hb : F.parse buf = .ok none) (hp : F.parse (buf ++ [b]) = .ok (some (r, rest))) : rest = [] := by
  obtain ⟨hr, heq⟩ := hs.parse_some _ _ _ hp
  rcases List.eq_nil_or_concat rest with hnil | ⟨front, last, rfl⟩
  · exact hnil
  · rw [List.concat_eq_append, ← append_assoc] at heq
    have hbuf := (List.append_inj' heq rfl).1
    rw [hbuf, h.parse_encode r front hr] at hb
    cases hb

/-- **One by one, the records before the error are all there.** -/
theorem beforeError_singles (h : F.Lawful valid) (hs : F.Streams valid) (stream : List β)
    (hb : F.parse buf = .ok none) (hc : F.Cut valid (buf ++ stream) rs rest) :
    beforeError (F.arrivals buf (stream.map ([·]))) = rs := by
  induction stream generalizing buf rs rest with
  | nil =>
    obtain rfl := hc.eq_nil_of_none h ((append_nil buf).symm ▸ hb)
    rfl
  | cons b stream ih =>
    have hsplit : buf ++ b :: stream = buf ++ [b] ++ stream := (List.append_cons buf b stream)
    rw [hsplit] at hc
    rw [List.map_cons]
    cases hp : F.parse (buf ++ [b]) with
    | error e =>
      obtain ⟨rfl, -⟩ := hc.eq_nil_of_error h (hs.parse_error _ stream e hp)
      exact beforeError_arrivals_error h (.of_error hp) hp _
    | ok o =>
      cases o with
      | none =>
        rw [beforeError_arrivals_none h (.of_none hp) hp]
        exact ih hp hc
      | some rr =>
        obtain ⟨r, rest'⟩ := rr
        obtain rfl := rest_eq_nil h hs hb hp
        obtain ⟨hr, heq⟩ := hs.parse_some _ _ _ hp
        have hone : F.Cut valid (buf ++ [b]) [r] [] := by
          rw [heq, ← encodeAll_nil (F := F), ← encodeAll_cons]
          have hcut : F.Cut valid (F.encodeAll [r] ++ []) ([r] ++ []) [] :=
            .append (List.forall_mem_singleton.mpr hr) (Cut.of_none hs.parse_nil)
          rw [append_nil, append_nil] at hcut
          exact hcut
        obtain ⟨rs', rest'', hc'⟩ := exists_cut h hs stream
        have hwhole : F.Cut valid (buf ++ [b] ++ stream) ([r] ++ rs') rest'' := by
          rw [hone.eq, append_nil]
          exact hc'.append hone.valid
        obtain ⟨rfl, -⟩ := Cut.unique h hc hwhole
        rw [beforeError_arrivals_none h hone hs.parse_nil, ih hs.parse_nil hc']

/-- **Where the cuts do not matter.**  The records before the error are those of the symbols one by one
exactly when, if something is rejected after some records, an arrival ends between the last of these and
the symbol by which it is rejected. -/
theorem beforeError_arrivals_iff (h : F.Lawful valid) (hs : F.Streams valid) (xs : List (List β)) :
    beforeError (F.arrivals [] xs) = beforeError (F.arrivals [] (xs.flatten.map ([·]))) ↔
      ∀ rs bad e, (∀ r ∈ rs, valid r) → xs.flatten = F.encodeAll rs ++ bad → F.parse bad = .error e →
        ∃ front back rest, xs = front ++ back ∧ front.flatten = F.encodeAll rs ++ rest ∧
          F.parse rest = .ok none := by
  constructor
  · intro heq rs bad e hvalid hflat hbad
    have hc : F.Cut valid ([] ++ xs.flatten) rs bad := ⟨hflat, hvalid, by rw [hbad]; nofun⟩
    obtain ⟨front, back, rest, hxs, hfront, hrest⟩ := exists_front h hs xs hs.parse_nil
    rw [heq, beforeError_singles h hs _ hs.parse_nil hc] at hfront
    exact ⟨front, back, rest, hxs, hfront.eq, hrest⟩
  · intro hcond
    obtain ⟨rs, bad, hc⟩ := exists_cut h hs ([] ++ xs.flatten)
    rw [beforeError_singles h hs _ hs.parse_nil hc]
    obtain ⟨front, back, rest, hxs, hfront, hrest⟩ := exists_front h hs xs hs.parse_nil
    -- no more records than there are
    have hle : beforeError (F.arrivals [] xs) <+: rs := by
      obtain ⟨rs', rest', hc'⟩ := exists_cut h hs (rest ++ back.flatten)
      have hwhole : F.Cut valid ([] ++ xs.flatten) (beforeError (F.arrivals [] xs) ++ rs') rest' := by
        rw [hxs, List.flatten_append, ← append_assoc, hfront.eq, append_assoc]
        exact hxs ▸ hc'.append hfront.valid
      obtain ⟨rfl, -⟩ := Cut.unique h hc hwhole
      exact List.prefix_append _ _
    refine hle.eq_of_length_le (List.IsPrefix.length_le ?_)
    rcases hc.rest_cases with hp | ⟨e, hp⟩
    · have := prefix_beforeError h hs hs.parse_nil hc hp []
      rwa [append_nil] at this
    · obtain ⟨front, back, rest, rfl, hfront, hrest⟩ := hcond rs bad e hc.valid hc.eq hp
      exact prefix_beforeError h hs hs.parse_nil ⟨hfront, hc.valid, by rw [hrest]; nofun⟩ hrest back

end Arrivals

end Framing
