/-
**Control keys across reads.**

Under the kitty keyboard protocol a control key is an escape sequence, which the tty may hand over in
pieces.  Both clients look for their keys byte by byte and hold back an end that may still become one:
the roaming client writes the palette key as its one raw byte and passes everything else on, the local
client forwards up to the first key it intercepts.  A lone escape is not held, since it is most often the
key itself; as long as no read ends between an escape and the bracket after it, where the reads are cut
makes no difference.
-/

import Mathlib.Data.List.Infix

set_option autoImplicit false

namespace Posh.Keys

open List (append_assoc append_nil prefix_append prefix_rfl)

/-! ### Matching a sequence -/

/-- The palette key in its two CSI-u forms, `ESC [54;5u` and `ESC [54;5:1u`. -/
def kittyPaletteSeqs : List (List UInt8) :=
  [[0x1b, 0x5b, 0x35, 0x34, 0x3b, 0x35, 0x75], [0x1b, 0x5b, 0x35, 0x34, 0x3b, 0x35, 0x3a, 0x31, 0x75]]

/-- The detach key in its two CSI-u forms, `ESC [92;5u` and `ESC [92;5:1u`. -/
def kittyDetachSeqs : List (List UInt8) :=
  [[0x1b, 0x5b, 0x39, 0x32, 0x3b, 0x35, 0x75], [0x1b, 0x5b, 0x39, 0x32, 0x3b, 0x35, 0x3a, 0x31, 0x75]]

def escapeKey : UInt8 := 0x1e

def detachKey : UInt8 := 0x1c

inductive KittyMatch where
  | full (len : ℕ)
  | more
  | no
deriving DecidableEq, Repr

/-- The loop over the candidates; `held` is the source's `partial`. -/
def matchLoop (s : List UInt8) : Bool → List (List UInt8) → KittyMatch
  | held, [] => if held && decide (2 ≤ s.length) then .more else .no
  | held, seq :: seqs =>
    if seq.length ≤ s.length then
      if s.take seq.length = seq then .full seq.length else matchLoop s held seqs
    else if s.isPrefixOf seq then matchLoop s true seqs
    else matchLoop s held seqs

/-- **What the slice begins with**: a candidate, a part of one with its bracket, or neither. -/
def matchKittySeqs (s : List UInt8) (seqs : List (List UInt8)) : KittyMatch := matchLoop s false seqs

theorem matchLoop_eq (s : List UInt8) (held : Bool) (seqs : List (List UInt8)) :
    matchLoop s held seqs = match seqs.find? (·.isPrefixOf s) with
      | some q => .full q.length
      | none => if (held || seqs.any s.isPrefixOf) && decide (2 ≤ s.length) then .more else .no := by
  induction seqs generalizing held with
  | nil => rw [matchLoop, List.find?_nil, List.any_nil, Bool.or_false]
  | cons seq seqs ih =>
    rw [matchLoop, List.find?_cons, List.any_cons]
    by_cases hp : seq <+: s
    · rw [if_pos hp.length_le, if_pos (List.prefix_iff_eq_take.mp hp).symm, List.isPrefixOf_iff_prefix.mpr hp]
    · have hno : seq.isPrefixOf s = false := by
        rw [Bool.eq_false_iff]
        exact fun h => hp (List.isPrefixOf_iff_prefix.mp h)
      rw [hno]
      by_cases hle : seq.length ≤ s.length
      · have hshort : s.isPrefixOf seq = false := by
          rw [Bool.eq_false_iff]
          intro h
          have heq := (List.isPrefixOf_iff_prefix.mp h).eq_of_length_le hle
          exact hp (heq ▸ prefix_rfl)
        rw [if_pos hle, if_neg fun h => hp (List.prefix_iff_eq_take.mpr h.symm), ih, hshort, Bool.false_or]
      · rw [if_neg hle]
        cases hs : s.isPrefixOf seq with
        | false => rw [if_neg Bool.false_ne_true, ih, Bool.false_or]
        | true =>
          simp only [if_true, ih, Bool.true_or, Bool.or_true]

variable {s : List UInt8} {seqs : List (List UInt8)} {reads : List (List UInt8)}

theorem matchKittySeqs_full {n : ℕ} (h : matchKittySeqs s seqs = .full n) : ∃ q ∈ seqs, q <+: s ∧ n = q.length := by
  rw [matchKittySeqs, matchLoop_eq] at h
  cases hq : seqs.find? (·.isPrefixOf s) with
  | none =>
    rw [hq] at h
    dsimp only at h
    split at h <;> cases h
  | some q =>
    rw [hq] at h
    have hprefix := List.find?_some (p := fun q : List UInt8 => q.isPrefixOf s) hq
    exact ⟨q, List.mem_of_find?_eq_some hq, List.isPrefixOf_iff_prefix.mp hprefix, (KittyMatch.full.inj h).symm⟩

theorem not_prefix_of_find? (h : seqs.find? (·.isPrefixOf s) = none) : ∀ q ∈ seqs, ¬ q <+: s := fun q hq hp =>
  List.find?_eq_none.mp h q hq (List.isPrefixOf_iff_prefix.mpr hp)

theorem matchKittySeqs_more (h : matchKittySeqs s seqs = .more) :
    (∀ q ∈ seqs, ¬ q <+: s) ∧ 2 ≤ s.length ∧ ∃ q ∈ seqs, s <+: q := by
  rw [matchKittySeqs, matchLoop_eq] at h
  cases hq : seqs.find? (·.isPrefixOf s) with
  | some q =>
    rw [hq] at h
    cases h
  | none =>
    rw [hq] at h
    dsimp only at h
    split at h
    · rename_i hmore
      obtain ⟨hany, hlen⟩ := Bool.and_eq_true_iff.mp hmore
      obtain ⟨q, hq', hp⟩ := List.any_eq_true.mp ((Bool.false_or _).symm.trans hany)
      exact ⟨not_prefix_of_find? hq, of_decide_eq_true hlen, q, hq', List.isPrefixOf_iff_prefix.mp hp⟩
    · cases h

theorem matchKittySeqs_no (h : matchKittySeqs s seqs = .no) :
    ∀ q ∈ seqs, ¬ q <+: s ∧ (s <+: q → s.length < 2) := by
  rw [matchKittySeqs, matchLoop_eq] at h
  cases hq : seqs.find? (·.isPrefixOf s) with
  | some q =>
    rw [hq] at h
    cases h
  | none =>
    rw [hq] at h
    dsimp only at h
    split at h
    · cases h
    · rename_i hmore
      refine fun q hmem => ⟨not_prefix_of_find? hq q hmem, fun hp => ?_⟩
      by_contra hlen
      exact hmore (Bool.and_eq_true_iff.mpr ⟨Bool.or_eq_true_iff.mpr (.inr (List.any_eq_true.mpr
        ⟨q, hmem, List.isPrefixOf_iff_prefix.mpr hp⟩)), decide_eq_true (by omega)⟩)

/-! ### The two clients -/

/-- The roaming client's rewriting of its input; `carry` is what is held back. -/
structure PaletteKeyNormalizer where
  carry : List UInt8 := []
deriving DecidableEq, Repr

/-- The loop over the bytes, with what it returns and what it leaves held. -/
def rewriteKeys : List UInt8 → List UInt8 × List UInt8
  | [] => ([], [])
  | b :: rest =>
    if b = 0x1b then
      match _hm : matchKittySeqs (b :: rest) kittyPaletteSeqs with
      | .full len =>
        let next := rewriteKeys ((b :: rest).drop len)
        (escapeKey :: next.1, next.2)
      | .more => ([], b :: rest)
      | .no =>
        let next := rewriteKeys rest
        (b :: next.1, next.2)
    else
      let next := rewriteKeys rest
      (b :: next.1, next.2)
termination_by data => data.length
decreasing_by
  all_goals
    first
    | exact Nat.lt_succ_self _
    | obtain ⟨q, hq, -, rfl⟩ := matchKittySeqs_full _hm
      have hpos : 0 < q.length := (by decide : ∀ q ∈ kittyPaletteSeqs, 0 < q.length) q hq
      rw [List.length_drop, List.length_cons]
      omega

def PaletteKeyNormalizer.feed (n : PaletteKeyNormalizer) (input : List UInt8) : List UInt8 × PaletteKeyNormalizer :=
  let next := rewriteKeys (n.carry ++ input)
  (next.1, { carry := next.2 })

/-- What the normalizer returns over a run of reads, joined, and where it stands. -/
def PaletteKeyNormalizer.feeds (n : PaletteKeyNormalizer) : List (List UInt8) → List UInt8 × PaletteKeyNormalizer
  | [] => ([], n)
  | input :: reads =>
    let (out, n') := n.feed input
    let next := n'.feeds reads
    (out ++ next.1, next.2)

/-- What one read of the local client comes to. -/
inductive EscapeEvent where
  | forward (bytes : List UInt8)
  | detach (forward : List UInt8)
  | palette (forward tail : List UInt8)
deriving DecidableEq, Repr

/-- The local client's search for its control keys. -/
structure EscapeKeyMatcher where
  carry : List UInt8 := []
deriving DecidableEq, Repr

/-- The loop over the bytes, with those forwarded so far. -/
def EscapeKeyMatcher.scan (paletteEnabled : Bool) (forward : List UInt8) : List UInt8 → EscapeEvent × EscapeKeyMatcher
  | [] => (.forward forward, {})
  | b :: rest =>
    if b = detachKey then (.detach forward, {})
    else if paletteEnabled = true ∧ b = escapeKey then (.palette forward rest, {})
    else if b = 0x1b then
      match matchKittySeqs (b :: rest) kittyDetachSeqs with
      | .full _ => (.detach forward, {})
      | .more => (.forward forward, { carry := b :: rest })
      | .no =>
        if paletteEnabled then
          match matchKittySeqs (b :: rest) kittyPaletteSeqs with
          | .full len => (.palette forward ((b :: rest).drop len), {})
          | .more => (.forward forward, { carry := b :: rest })
          | .no => scan paletteEnabled (forward ++ [b]) rest
        else scan paletteEnabled (forward ++ [b]) rest
    else scan paletteEnabled (forward ++ [b]) rest

def EscapeKeyMatcher.feed (m : EscapeKeyMatcher) (input : List UInt8) (paletteEnabled : Bool) :
    EscapeEvent × EscapeKeyMatcher :=
  EscapeKeyMatcher.scan paletteEnabled [] (m.carry ++ input)

/-- A run of reads up to its first key: what the reads before it forwarded, the reads not made, and the
event with the read it came from, if there is one. -/
structure Run where
  forwarded : List UInt8
  event : Option (List UInt8 × EscapeEvent)
  unread : List (List UInt8)
  matcher : EscapeKeyMatcher

def EscapeKeyMatcher.feeds (m : EscapeKeyMatcher) (paletteEnabled : Bool) : List (List UInt8) → Run
  | [] => ⟨[], none, [], m⟩
  | input :: reads =>
    match m.feed input paletteEnabled with
    | (.forward bytes, m') =>
      let next := m'.feeds paletteEnabled reads
      { next with forwarded := bytes ++ next.forwarded }
    | (event, m') => ⟨[], some (input, event), reads, m'⟩

/-! ### Keys in a stream -/

inductive ControlKey where
  | detach
  | palette
deriving DecidableEq, Repr

/-- The escape sequences the local client looks for. -/
def candidates (paletteEnabled : Bool) : List (List UInt8) :=
  kittyDetachSeqs ++ if paletteEnabled then kittyPaletteSeqs else []

/-- The keys the local client intercepts, in each of their forms. -/
def controlKeys (paletteEnabled : Bool) : List (ControlKey × List UInt8) :=
  ([detachKey] :: kittyDetachSeqs).map (.detach, ·) ++
    if paletteEnabled then ([escapeKey] :: kittyPaletteSeqs).map (.palette, ·) else []

def encodings (paletteEnabled : Bool) : List (List UInt8) := (controlKeys paletteEnabled).map Prod.snd

/-- Nothing of `seqs` begins within `x` when `rest` comes after it. -/
def NoneIn (seqs : List (List UInt8)) : List UInt8 → List UInt8 → Prop
  | [], _ => True
  | b :: x, rest => (∀ q ∈ seqs, ¬ q <+: b :: (x ++ rest)) ∧ NoneIn seqs x rest

instance NoneIn.decidable (seqs : List (List UInt8)) : ∀ x rest, Decidable (NoneIn seqs x rest)
  | [], _ => .isTrue trivial
  | b :: x, rest =>
    haveI := NoneIn.decidable seqs x rest
    inferInstanceAs (Decidable ((∀ q ∈ seqs, ¬ q <+: b :: (x ++ rest)) ∧ NoneIn seqs x rest))

/-- A proper prefix of one of `seqs`. -/
def Unfinished (seqs : List (List UInt8)) (c : List UInt8) : Prop := ∃ q ∈ seqs, c <+: q ∧ c ≠ q

/-- **A stream with each leftmost palette sequence replaced** by one raw key, and nothing else changed. -/
inductive Collapsed : List UInt8 → List UInt8 → Prop where
  | nil : Collapsed [] []
  | key {q rest out : List UInt8} (hq : q ∈ kittyPaletteSeqs) (h : Collapsed rest out) :
      Collapsed (q ++ rest) (escapeKey :: out)
  | byte {b : UInt8} {rest out : List UInt8} (hno : ∀ q ∈ kittyPaletteSeqs, ¬ q <+: b :: rest)
      (h : Collapsed rest out) : Collapsed (b :: rest) (b :: out)

/-- **The first key of a stream**: what is before it, its kind, its bytes and what is after it. -/
structure FirstKey (paletteEnabled : Bool) (stream before : List UInt8) (kind : ControlKey)
    (key after : List UInt8) : Prop where
  whole : stream = before ++ (key ++ after)
  intercepted : (kind, key) ∈ controlKeys paletteEnabled
  first : NoneIn (encodings paletteEnabled) before (key ++ after)

/-- No read ends between an escape and a bracket, with `hist` read before. -/
def Whole (hist : List UInt8) (reads : List (List UInt8)) : Prop :=
  ∀ pre post, reads = pre ++ post → (hist ++ pre.flatten).getLast? = some 0x1b → post.flatten.head? ≠ some 0x5b

def WholeEscapes (reads : List (List UInt8)) : Prop := Whole [] reads

variable {more x y : List UInt8} {rest : List UInt8} {q : List UInt8} {b : UInt8} {e : Bool} {d : List UInt8}

theorem NoneIn.append (hx : NoneIn seqs x (y ++ more)) (hy : NoneIn seqs y more) : NoneIn seqs (x ++ y) more := by
  induction x with
  | nil => exact hy
  | cons b x ih =>
    refine ⟨?_, ih hx.2⟩
    show ∀ q ∈ seqs, ¬ q <+: b :: ((x ++ y) ++ more)
    rw [append_assoc]
    exact hx.1

theorem NoneIn.not_mem (h : NoneIn seqs (x ++ (q ++ y)) more) (hne : q ≠ []) : q ∉ seqs := by
  induction x with
  | nil =>
    intro hq
    cases q with
    | nil => exact hne rfl
    | cons b q =>
      have hrest : b :: q <+: b :: ((q ++ y) ++ more) := ⟨y ++ more, by rw [append_assoc, List.cons_append]⟩
      exact h.1 _ hq hrest
  | cons b x ih => exact ih h.2

theorem Collapsed.unique {out out' : List UInt8} (h : Collapsed x out) (h' : Collapsed x out') : out = out' := by
  have hone : ∀ q ∈ kittyPaletteSeqs, ∀ q' ∈ kittyPaletteSeqs, q <+: q' → q = q' := by decide
  have hne : ∀ q ∈ kittyPaletteSeqs, q ≠ [] := by decide
  induction h generalizing out' with
  | nil =>
    generalize hx : ([] : List UInt8) = x at h'
    cases h' with
    | nil => rfl
    | key hq h' => exact absurd (List.append_eq_nil_iff.mp hx.symm).1 (hne _ hq)
    | byte hno h' => cases hx
  | @key q rest out hq h ih =>
    generalize hx : q ++ rest = x at h'
    cases h' with
    | nil => exact absurd (List.append_eq_nil_iff.mp hx).1 (hne _ hq)
    | @key q' rest' out' hq' h' =>
      have hqq : q = q' := by
        rcases List.prefix_or_prefix_of_prefix (prefix_append q rest) (hx ▸ prefix_append q' rest') with
          hp | hp
        · exact hone q hq q' hq' hp
        · exact (hone q' hq' q hq hp).symm
      subst hqq
      rw [ih (List.append_cancel_left hx ▸ h')]
    | byte hno h' => exact absurd (hx ▸ prefix_append q rest) (hno q hq)
  | @byte b rest out hno h ih =>
    generalize hx : b :: rest = x at h'
    cases h' with
    | nil => cases hx
    | @key q' rest' out' hq' h' => exact absurd (hx ▸ prefix_append q' rest') (hno q' hq')
    | byte hno' h' =>
      obtain ⟨rfl, rfl⟩ := List.cons.inj hx
      rw [ih h']

/-! ### One byte -/

/-- Nothing of `seqs` begins the slice, nor is the slice a part of it with its bracket. -/
def Passes (seqs : List (List UInt8)) (d : List UInt8) : Prop :=
  ∀ q ∈ seqs, ¬ q <+: d ∧ (d <+: q → d.length < 2)

/-- Each of `seqs` is one byte or begins with an escape and a bracket. -/
def Bracketed (seqs : List (List UInt8)) : Prop := ∀ q ∈ seqs, q.length = 1 ∨ q.take 2 = [0x1b, 0x5b]

instance (seqs : List (List UInt8)) : Decidable (Bracketed seqs) :=
  inferInstanceAs (Decidable (∀ q ∈ seqs, q.length = 1 ∨ q.take 2 = [0x1b, 0x5b]))

theorem eq_of_take_two {a b : UInt8} (h : q.take 2 = [a, b]) : q = a :: b :: q.drop 2 := by
  conv_lhs => rw [← List.take_append_drop 2 q, h]
  rfl

/-- **A byte that is passed begins no key**, whatever comes after the read. -/
theorem Passes.not_prefix_append (hb : Bracketed seqs) (h : Passes seqs d) (hd : d ≠ [])
    (hcut : d.getLast? = some 0x1b → more.head? ≠ some 0x5b) : ∀ q ∈ seqs, ¬ q <+: d ++ more := by
  intro q hq hp
  rcases List.prefix_or_prefix_of_prefix hp (prefix_append d more) with hle | hle
  · exact (h q hq).1 hle
  · have hlen := (h q hq).2 hle
    obtain ⟨b, rfl⟩ : ∃ b, d = [b] := by
      match d, hd with
      | [b], _ => exact ⟨b, rfl⟩
      | _ :: _ :: _, _ => exact absurd hlen (by simp)
    rcases hb q hq with hone | htwo
    · exact (h q hq).1 (hle.eq_of_length (by rw [hone]; rfl) ▸ prefix_rfl)
    · rw [eq_of_take_two htwo] at hp
      obtain ⟨rfl, u, hu⟩ := List.cons_prefix_cons.mp hp
      have hmore : more = 0x5b :: (q.drop 2 ++ u) := hu.symm
      exact hcut rfl (by rw [hmore]; rfl)

theorem passes_of_ne (hb : ∀ q ∈ seqs, q.take 2 = [0x1b, 0x5b]) (h : b ≠ 0x1b) (rest : List UInt8) :
    Passes seqs (b :: rest) := by
  intro q hq
  rw [eq_of_take_two (hb q hq)]
  exact ⟨fun hp => h (List.cons_prefix_cons.mp hp).1.symm, fun hp => absurd (List.cons_prefix_cons.mp hp).1 h⟩

/-! ### The roaming client -/

theorem bracketed_palette : Bracketed kittyPaletteSeqs := by decide

variable {c : List UInt8}

theorem held_palette (h : Unfinished kittyPaletteSeqs c) : NoneIn kittyPaletteSeqs c [] := by
  have hall : ∀ q ∈ kittyPaletteSeqs, ∀ n < q.length, NoneIn kittyPaletteSeqs (q.take n) [] := by decide +kernel
  obtain ⟨q, hq, hp, hne⟩ := h
  rw [List.prefix_iff_eq_take.mp hp]
  exact hall q hq _ (Nat.lt_of_le_of_ne hp.length_le fun hlen => hne (hp.eq_of_length hlen))

theorem collapsed_of_noneIn (h : NoneIn kittyPaletteSeqs x []) : Collapsed x x := by
  induction x with
  | nil => exact .nil
  | cons b x ih =>
    refine .byte ?_ (ih h.2)
    rw [← append_nil x]
    exact h.1

theorem getLast?_of_suffix (hs : x <:+ d) (h : x.getLast? = some b) : d.getLast? = some b := by
  obtain ⟨t, rfl⟩ := hs
  rw [List.getLast?_append, h]
  rfl

theorem rewriteKeys_full {len : ℕ} (hm : matchKittySeqs (0x1b :: rest) kittyPaletteSeqs = .full len) :
    rewriteKeys (0x1b :: rest) = (escapeKey :: (rewriteKeys ((0x1b :: rest).drop len)).1,
      (rewriteKeys ((0x1b :: rest).drop len)).2) := by
  rw [rewriteKeys, if_pos rfl]
  split
  · rename_i h
    rw [KittyMatch.full.inj (hm.symm.trans h)]
  · rename_i h
    cases hm.symm.trans h
  · rename_i h
    cases hm.symm.trans h

theorem rewriteKeys_more (hm : matchKittySeqs (0x1b :: rest) kittyPaletteSeqs = .more) :
    rewriteKeys (0x1b :: rest) = ([], 0x1b :: rest) := by
  rw [rewriteKeys, if_pos rfl]
  split
  · rename_i h
    cases hm.symm.trans h
  · rfl
  · rename_i h
    cases hm.symm.trans h

theorem rewriteKeys_byte (hm : b = 0x1b → matchKittySeqs (b :: rest) kittyPaletteSeqs = .no) :
    rewriteKeys (b :: rest) = (b :: (rewriteKeys rest).1, (rewriteKeys rest).2) := by
  rw [rewriteKeys]
  split
  · rename_i hb
    split
    · rename_i h
      cases (hm hb).symm.trans h
    · rename_i h
      cases (hm hb).symm.trans h
    · rfl
  · rfl

/-- What the loop returns is the replacement of what it does not hold, before any bytes that follow. -/
structure Rewrites (more d : List UInt8) (next : List UInt8 × List UInt8) : Prop where
  held : Unfinished kittyPaletteSeqs next.2
  suffix : next.2 <:+ d
  collapsed : ∀ out, Collapsed (next.2 ++ more) out → Collapsed (d ++ more) (next.1 ++ out)

theorem rewrites_byte (hm : b = 0x1b → matchKittySeqs (b :: rest) kittyPaletteSeqs = .no)
    (hcut : (b :: rest).getLast? = some 0x1b → more.head? ≠ some 0x5b) (ih : Rewrites more rest (rewriteKeys rest)) :
    Rewrites more (b :: rest) (rewriteKeys (b :: rest)) := by
  have hpasses : Passes kittyPaletteSeqs (b :: rest) := by
    by_cases hb : b = 0x1b
    · exact matchKittySeqs_no (hm hb)
    · exact passes_of_ne (by decide) hb rest
  rw [rewriteKeys_byte hm]
  exact ⟨ih.held, ih.suffix.trans (List.suffix_cons b rest), fun out h =>
    .byte (hpasses.not_prefix_append bracketed_palette (List.cons_ne_nil _ _) hcut) (ih.collapsed out h)⟩

theorem rewriteKeys_spec (d : List UInt8) (hcut : d.getLast? = some 0x1b → more.head? ≠ some 0x5b) :
    Rewrites more d (rewriteKeys d) := by
  induction d using rewriteKeys.induct with
  | case1 =>
    rw [rewriteKeys]
    exact ⟨⟨_, List.mem_cons_self, List.nil_prefix, List.cons_ne_nil _ _ ∘ Eq.symm⟩, List.suffix_rfl, fun _ h => h⟩
  | case2 rest len hm ih =>
    rw [rewriteKeys_full hm]
    obtain ⟨q, hq, ⟨t, ht⟩, rfl⟩ := matchKittySeqs_full hm
    have hdrop : (0x1b :: rest).drop q.length = t := by rw [← ht, List.drop_left]
    rw [hdrop] at ih ⊢
    have hs : t <:+ 0x1b :: rest := ht ▸ List.suffix_append q t
    have hnext := ih fun hl => hcut (getLast?_of_suffix hs hl)
    refine ⟨hnext.held, hnext.suffix.trans hs, fun out h => ?_⟩
    rw [← ht, append_assoc]
    exact .key hq (hnext.collapsed out h)
  | case3 rest hm =>
    rw [rewriteKeys_more hm]
    obtain ⟨hno, -, q, hq, hp⟩ := matchKittySeqs_more hm
    exact ⟨⟨q, hq, hp, fun heq => hno q hq (heq ▸ prefix_rfl)⟩, List.suffix_rfl, fun _ h => h⟩
  | case4 rest hm ih =>
    exact rewrites_byte (fun _ => hm) hcut (ih fun hl => hcut (getLast?_of_suffix (List.suffix_cons _ _) hl))
  | case5 b rest hb ih =>
    exact rewrites_byte (fun h => absurd h hb) hcut (ih fun hl => hcut (getLast?_of_suffix (List.suffix_cons _ _) hl))

theorem Whole.tail {hist input : List UInt8} (h : Whole hist (input :: reads)) : Whole (hist ++ input) reads := by
  intro pre post heq hlast
  refine h (input :: pre) post (by rw [heq]; rfl) ?_
  rw [List.flatten_cons, ← append_assoc]
  exact hlast

theorem Whole.cut {hist input d : List UInt8} (h : Whole hist (input :: reads))
    (hs : d <:+ hist ++ input) : d.getLast? = some 0x1b → reads.flatten.head? ≠ some 0x5b := by
  intro hl
  refine h [input] reads rfl ?_
  rw [List.flatten_singleton]
  exact getLast?_of_suffix hs hl

theorem suffix_append_right (hs : x <:+ y) (input : List UInt8) : x ++ input <:+ y ++ input := by
  obtain ⟨t, ht⟩ := hs
  exact ⟨t, by rw [← append_assoc, ht]⟩

theorem PaletteKeyNormalizer.feeds_spec (reads : List (List UInt8)) (n : PaletteKeyNormalizer) (hist : List UInt8)
    (hs : n.carry <:+ hist) (hu : Unfinished kittyPaletteSeqs n.carry) (hw : Whole hist reads) :
    Collapsed (n.carry ++ reads.flatten) ((n.feeds reads).1 ++ (n.feeds reads).2.carry) ∧
      Unfinished kittyPaletteSeqs (n.feeds reads).2.carry := by
  induction reads generalizing n hist with
  | nil =>
    rw [List.flatten_nil, append_nil]
    exact ⟨collapsed_of_noneIn (held_palette hu), hu⟩
  | cons input reads ih =>
    have hd := suffix_append_right hs input
    have hone := rewriteKeys_spec (n.carry ++ input) (hw.cut hd)
    obtain ⟨hcollapsed, hheld⟩ := ih { carry := (rewriteKeys (n.carry ++ input)).2 } (hist ++ input)
      (hone.suffix.trans hd) hone.held hw.tail
    have hall := hone.collapsed _ hcollapsed
    rw [append_assoc, ← append_assoc (rewriteKeys _).1] at hall
    exact ⟨hall, hheld⟩

/-- **How the reads are cut makes no difference** to what the normalizer returns and what it holds at the end. -/
theorem normalizer_reads_cut {reads reads' : List (List UInt8)} (h : Whole [] reads) (h' : Whole [] reads')
    (hsame : reads.flatten = reads'.flatten) :
    (PaletteKeyNormalizer.feeds {} reads).1 ++ (PaletteKeyNormalizer.feeds {} reads).2.carry =
      (PaletteKeyNormalizer.feeds {} reads').1 ++ (PaletteKeyNormalizer.feeds {} reads').2.carry := by
  have hnil : Unfinished kittyPaletteSeqs [] := ⟨_, List.mem_cons_self, List.nil_prefix, List.cons_ne_nil _ _ ∘ Eq.symm⟩
  have hout := (PaletteKeyNormalizer.feeds_spec reads {} [] List.suffix_rfl hnil h).1
  rw [hsame] at hout
  exact hout.unique (PaletteKeyNormalizer.feeds_spec reads' {} [] List.suffix_rfl hnil h').1

theorem whole_pair {x y : List UInt8} (h : x.getLast? ≠ some 0x1b) : Whole [] [x, y] := by
  rintro (_ | ⟨a, _ | ⟨b, pre⟩⟩) post heq hlast
  · cases hlast
  · obtain ⟨rfl, -⟩ := List.cons.inj heq
    rw [List.nil_append, List.flatten_singleton] at hlast
    exact absurd hlast h
  · obtain ⟨-, rfl⟩ := List.append_eq_nil_iff.mp (List.cons.inj (List.cons.inj heq).2).2.symm
    exact Option.some_ne_none _ ∘ Eq.symm

theorem normalizer_reads_cut_palette :
    let x : List UInt8 := [0x61, 0x1b, 0x5b, 0x35]
    let y : List UInt8 := [0x34, 0x3b, 0x35, 0x75, 0x62]
    (PaletteKeyNormalizer.feeds {} [x, y]).1 ++ (PaletteKeyNormalizer.feeds {} [x, y]).2.carry =
      (PaletteKeyNormalizer.feeds {} [x ++ y, []]).1 ++ (PaletteKeyNormalizer.feeds {} [x ++ y, []]).2.carry :=
  normalizer_reads_cut (whole_pair (by decide)) (whole_pair (by decide)) rfl

/-! ### The local client -/

/-- The event a key comes to. -/
def EscapeEvent.of (forward tail : List UInt8) : ControlKey → EscapeEvent
  | .detach => .detach forward
  | .palette => .palette forward tail

theorem bracketed_encodings (e : Bool) : Bracketed (encodings e) := by cases e <;> decide

theorem held_candidates (h : Unfinished (candidates e) c) : NoneIn (encodings e) c [] := by
  have hall : ∀ e, ∀ q ∈ candidates e, ∀ n < q.length, NoneIn (encodings e) (q.take n) [] := by decide +kernel
  obtain ⟨q, hq, hp, hne⟩ := h
  rw [List.prefix_iff_eq_take.mp hp]
  exact hall e q hq _ (Nat.lt_of_le_of_ne hp.length_le fun hlen => hne (hp.eq_of_length hlen))

theorem mem_controlKeys_detach (e : Bool) (h : q ∈ [detachKey] :: kittyDetachSeqs) :
    (.detach, q) ∈ controlKeys e := List.mem_append_left _ (List.mem_map_of_mem h)

theorem mem_controlKeys_palette (h : q ∈ [escapeKey] :: kittyPaletteSeqs) :
    (.palette, q) ∈ controlKeys true := List.mem_append_right _ (List.mem_map_of_mem h)

theorem unfinished_nil (e : Bool) : Unfinished (candidates e) [] :=
  ⟨_, List.mem_append_left _ List.mem_cons_self, List.nil_prefix, List.cons_ne_nil _ _ ∘ Eq.symm⟩

theorem passes_encodings (hd : b ≠ detachKey)
    (hp : ¬ (e = true ∧ b = escapeKey)) (h : Passes (candidates e) (b :: rest)) :
    Passes (encodings e) (b :: rest) := by
  have hraw {k : UInt8} (hk : b ≠ k) : ¬ [k] <+: b :: rest ∧ (b :: rest <+: [k] → (b :: rest).length < 2) :=
    ⟨fun hp => hk (List.cons_prefix_cons.mp hp).1.symm, fun hp => Nat.lt_succ_of_le hp.length_le⟩
  intro q hq
  obtain ⟨⟨k, q⟩, hk, rfl⟩ := List.mem_map.mp hq
  rcases List.mem_append.mp hk with hk | hk
  · obtain ⟨q', hq', heq⟩ := List.mem_map.mp hk
    obtain ⟨-, rfl⟩ := Prod.mk.inj heq
    rcases List.mem_cons.mp hq' with rfl | hq'
    · exact hraw hd
    · exact h _ (List.mem_append_left _ hq')
  · cases e with
    | false => cases hk
    | true =>
      obtain ⟨q', hq', heq⟩ := List.mem_map.mp hk
      obtain ⟨-, rfl⟩ := Prod.mk.inj heq
      rcases List.mem_cons.mp hq' with rfl | hq'
      · exact hraw fun hb => hp ⟨rfl, hb⟩
      · exact h _ (List.mem_append_right _ hq')

/-- **What one byte does**: it is the first of a key, or of the bytes held back, or it is forwarded. -/
theorem EscapeKeyMatcher.scan_cases (e : Bool) (forward : List UInt8) (b : UInt8) (rest : List UInt8) :
    (∃ k q tail, (k, q) ∈ controlKeys e ∧ b :: rest = q ++ tail ∧
      scan e forward (b :: rest) = (EscapeEvent.of forward tail k, {})) ∨ (Unfinished (candidates e) (b :: rest) ∧
      scan e forward (b :: rest) = (.forward forward, { carry := b :: rest })) ∨
    (Passes (encodings e) (b :: rest) ∧ scan e forward (b :: rest) = scan e (forward ++ [b]) rest) := by
  rw [scan]
  split
  · rename_i hb
    exact .inl ⟨.detach, [detachKey], rest, mem_controlKeys_detach e List.mem_cons_self, by rw [hb]; rfl, rfl⟩
  · rename_i hd
    split
    · rename_i hb
      obtain ⟨rfl, rfl⟩ := hb
      exact .inl ⟨.palette, [escapeKey], rest, mem_controlKeys_palette List.mem_cons_self, rfl, rfl⟩
    · rename_i hp
      split
      · split
        · rename_i hm
          obtain ⟨q, hq, ⟨t, ht⟩, -⟩ := matchKittySeqs_full hm
          exact .inl ⟨.detach, q, t, mem_controlKeys_detach e (List.mem_cons_of_mem _ hq), ht.symm, rfl⟩
        · rename_i hm
          obtain ⟨hno, -, q, hq, hp⟩ := matchKittySeqs_more hm
          exact .inr (.inl ⟨⟨q, List.mem_append_left _ hq, hp, fun heq => hno q hq (heq ▸ prefix_rfl)⟩, rfl⟩)
        · rename_i hdetach
          have hdetach := matchKittySeqs_no hdetach
          cases e with
          | false =>
            exact .inr (.inr ⟨passes_encodings hd hp fun q hq =>
              (List.mem_append.mp hq).elim (hdetach q) (fun h => nomatch h), rfl⟩)
          | true =>
            rw [if_pos rfl]
            split
            · rename_i hm
              obtain ⟨q, hq, ⟨t, ht⟩, rfl⟩ := matchKittySeqs_full hm
              refine .inl ⟨.palette, q, t, mem_controlKeys_palette (List.mem_cons_of_mem _ hq), ht.symm, ?_⟩
              rw [← ht, List.drop_left]
              rfl
            · rename_i hm
              obtain ⟨hno, -, q, hq, hp⟩ := matchKittySeqs_more hm
              exact .inr (.inl ⟨⟨q, List.mem_append_right _ hq, hp, fun heq => hno q hq (heq ▸ prefix_rfl)⟩, rfl⟩)
            · rename_i hm
              exact .inr (.inr ⟨passes_encodings hd hp fun q hq =>
                (List.mem_append.mp hq).elim (hdetach q) (matchKittySeqs_no hm q), rfl⟩)
      · rename_i hb
        have hbrackets : ∀ q ∈ candidates e, q.take 2 = [0x1b, 0x5b] := by cases e <;> decide
        exact .inr (.inr ⟨passes_encodings hd hp (passes_of_ne hbrackets hb rest), rfl⟩)

/-- **One read**: it forwards what is before the first key, or before what it holds back. -/
theorem EscapeKeyMatcher.scan_spec (e : Bool) (d forward : List UInt8)
    (hcut : d.getLast? = some 0x1b → more.head? ≠ some 0x5b) :
    (∃ bytes held, scan e forward d = (.forward (forward ++ bytes), { carry := held }) ∧ d = bytes ++ held ∧
      Unfinished (candidates e) held ∧ NoneIn (encodings e) bytes (held ++ more)) ∨
    (∃ k q bytes tail, scan e forward d = (EscapeEvent.of (forward ++ bytes) tail k, {}) ∧
      (k, q) ∈ controlKeys e ∧ d = bytes ++ (q ++ tail) ∧ NoneIn (encodings e) bytes (q ++ tail ++ more)) := by
  induction d generalizing forward with
  | nil => exact .inl ⟨[], [], by rw [append_nil]; rfl, rfl, unfinished_nil e, trivial⟩
  | cons b rest ih =>
    rcases scan_cases e forward b rest with ⟨k, q, tail, hk, heq, hscan⟩ | ⟨hu, hscan⟩ | ⟨hpasses, hscan⟩
    · exact .inr ⟨k, q, [], tail, by rw [hscan, append_nil], hk, heq, trivial⟩
    · exact .inl ⟨[], b :: rest, by rw [hscan, append_nil], rfl, hu, trivial⟩
    · have hno := hpasses.not_prefix_append (bracketed_encodings e) (List.cons_ne_nil _ _) hcut
      rcases ih (forward ++ [b]) (fun hl => hcut (getLast?_of_suffix (List.suffix_cons b rest) hl)) with
        ⟨bytes, held, hs, rfl, hu, hn⟩ | ⟨k, q, bytes, tail, hs, hk, rfl, hn⟩
      · refine .inl ⟨b :: bytes, held, by rw [hscan, hs, append_assoc]; rfl, rfl, hu, ?_, hn⟩
        rw [← append_assoc]
        exact hno
      · refine .inr ⟨k, q, b :: bytes, tail, by rw [hscan, hs, append_assoc]; rfl, hk, rfl, ?_, hn⟩
        rw [← append_assoc]
        exact hno

theorem tail_suffix {carry input bytes q tail : List UInt8} (hc : Unfinished (candidates e) carry)
    (hq : q ∈ encodings e) (h : carry ++ input = bytes ++ (q ++ tail)) : tail <:+ input := by
  have hne : q ≠ [] := by
    rintro rfl
    cases e <;> exact absurd hq (by decide)
  rw [← append_assoc] at h
  rcases List.append_eq_append_iff.mp h with ⟨t, ht, rfl⟩ | ⟨t, rfl, ht⟩
  · exact List.suffix_append t tail
  · rw [append_assoc] at hc
    exact absurd hq ((held_candidates hc).not_mem hne)

/-- **A run of reads**: every byte is forwarded or held and no key is among them, or the run ends at the
first key. -/
theorem EscapeKeyMatcher.feeds_spec (e : Bool) (reads : List (List UInt8)) (m : EscapeKeyMatcher)
    (hist : List UInt8) (hs : m.carry <:+ hist) (hu : Unfinished (candidates e) m.carry) (hw : Whole hist reads) :
    let r := m.feeds e reads
    Unfinished (candidates e) r.matcher.carry ∧ match r.event with
    | none => r.forwarded ++ r.matcher.carry = m.carry ++ reads.flatten ∧
        NoneIn (encodings e) (m.carry ++ reads.flatten) []
    | some (input, event) => ∃ pre k bytes key tail, reads = pre ++ input :: r.unread ∧
        event = EscapeEvent.of bytes tail k ∧ tail <:+ input ∧
        FirstKey e (m.carry ++ reads.flatten) (r.forwarded ++ bytes) k key (tail ++ r.unread.flatten) := by
  induction reads generalizing m hist with
  | nil =>
    refine ⟨hu, ?_⟩
    rw [List.flatten_nil, append_nil]
    exact ⟨rfl, held_candidates hu⟩
  | cons input reads ih =>
    have hd := suffix_append_right hs input
    rw [List.flatten_cons, ← append_assoc]
    rcases scan_spec e (m.carry ++ input) [] (hw.cut hd) with
      ⟨bytes, held, hscan, heq, hu', hn⟩ | ⟨k, q, bytes, tail, hscan, hk, heq, hn⟩
    · have hfeeds : m.feeds e (input :: reads) =
          { EscapeKeyMatcher.feeds { carry := held } e reads with
            forwarded := bytes ++ (EscapeKeyMatcher.feeds { carry := held } e reads).forwarded } := by
        rw [feeds, feed, hscan]
        rfl
      have hih := ih { carry := held } (hist ++ input) ((heq ▸ List.suffix_append bytes held).trans hd) hu' hw.tail
      rw [hfeeds, heq]
      generalize EscapeKeyMatcher.feeds { carry := held } e reads = r at hih ⊢
      refine ⟨hih.1, ?_⟩
      have hrest := hih.2
      dsimp only at hrest ⊢
      cases hev : r.event with
      | none =>
        rw [hev] at hrest
        obtain ⟨hbytes, hnone⟩ := hrest
        refine ⟨by rw [append_assoc, hbytes, ← append_assoc], ?_⟩
        rw [append_assoc]
        exact NoneIn.append (by rwa [append_nil]) hnone
      | some ev =>
        rw [hev] at hrest
        obtain ⟨input', event⟩ := ev
        obtain ⟨pre, k, bytes', key, tail, hreads, hevent, htail, hfirst⟩ := hrest
        refine ⟨input :: pre, k, bytes', key, tail, by rw [hreads]; rfl, hevent, htail, ?_, hfirst.intercepted, ?_⟩
        · simp only [append_assoc, hfirst.whole]
        · rw [append_assoc]
          refine NoneIn.append ?_ hfirst.first
          rw [← hfirst.whole]
          exact hn
    · have hfeeds : m.feeds e (input :: reads) = ⟨[], some (input, EscapeEvent.of bytes tail k), reads, {}⟩ := by
        rw [feeds, feed, hscan]
        cases k <;> rfl
      rw [hfeeds]
      have hq : q ∈ encodings e := List.mem_map_of_mem hk
      refine ⟨unfinished_nil e, [], k, bytes, q, tail, rfl, rfl, tail_suffix hu hq heq, ?_, hk, ?_⟩
      · rw [heq, append_assoc, append_assoc]
        rfl
      · rw [← append_assoc]
        exact hn

/-! ### Wherever the stream is cut -/

/-- **Control keys are found wherever the read is cut**, short of between an escape and its bracket.  What
the roaming client passes on, with what it holds, is the stream with its palette keys replaced.  The local
client forwards the whole stream, when there is no key in it, and else what is before the first key, whose
kind it reports and after which it hands over the rest of that read.  What either holds back is a proper
prefix of a sequence it looks for. -/
theorem control_keys_found (paletteEnabled : Bool) (reads : List (List UInt8)) (hcuts : WholeEscapes reads) :
    let n := PaletteKeyNormalizer.feeds {} reads
    let r := EscapeKeyMatcher.feeds {} paletteEnabled reads
    (Collapsed reads.flatten (n.1 ++ n.2.carry) ∧ Unfinished kittyPaletteSeqs n.2.carry) ∧
      Unfinished (candidates paletteEnabled) r.matcher.carry ∧ match r.event with
      | none => r.forwarded ++ r.matcher.carry = reads.flatten ∧ NoneIn (encodings paletteEnabled) reads.flatten []
      | some (input, event) => ∃ pre k bytes key tail, reads = pre ++ input :: r.unread ∧
          event = EscapeEvent.of bytes tail k ∧ tail <:+ input ∧
          FirstKey paletteEnabled reads.flatten (r.forwarded ++ bytes) k key (tail ++ r.unread.flatten) :=
  ⟨PaletteKeyNormalizer.feeds_spec reads {} [] List.suffix_rfl
      ⟨_, List.mem_cons_self, List.nil_prefix, List.cons_ne_nil _ _ ∘ Eq.symm⟩ hcuts,
    EscapeKeyMatcher.feeds_spec paletteEnabled reads {} [] List.suffix_rfl (unfinished_nil paletteEnabled) hcuts⟩

theorem cut_palette_key_found :
    let reads : List (List UInt8) := [[0x61, 0x1b, 0x5b, 0x35], [0x34, 0x3b, 0x35, 0x75, 0x62]]
    let r := EscapeKeyMatcher.feeds {} true reads
    r.forwarded = [0x61] ∧ r.event = some ([0x34, 0x3b, 0x35, 0x75, 0x62], .palette [] [0x62]) ∧
      Unfinished (candidates true) r.matcher.carry := by
  refine ⟨by decide, by decide, (control_keys_found true [[0x61, 0x1b, 0x5b, 0x35], [0x34, 0x3b, 0x35, 0x75, 0x62]] ?_).2.1⟩
  rintro (_ | ⟨a, _ | ⟨b, _ | ⟨c, pre⟩⟩⟩) post heq
  · exact fun h => nomatch h
  · obtain ⟨rfl, -⟩ := List.cons.inj heq
    exact fun h => nomatch h
  · obtain ⟨-, rfl⟩ := List.cons.inj (List.cons.inj heq).2
    exact fun _ h => nomatch h
  · cases heq

end Posh.Keys
