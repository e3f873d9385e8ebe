/-
**What the client's ring says of the rows of an epoch.**

The count of a viewport's history only grows, and every number below it is either a row that was
appended or a row that was marked as not received.  That account is a list, the ledger: its entry at a
place is the row of that number, or nothing where the row is lost.  The ring is what the ledger leaves
behind, entry by entry; a run of lost rows is one hole, at the place where the rows are missing, and the
newest part of the ledger can be read off the ring.
-/

import Mathlib.Algebra.GroupWithZero.Nat
import Posh.ClientHistory

set_option autoImplicit false

namespace Posh

open List (append_assoc length_cons replicate)

namespace ScrollbackRing

variable {r : ScrollbackRing} {row : Bytes} {rows : List Bytes} {l l' : List (Option Bytes)} {n : ℕ}

/-! ### The ring after a ledger -/

/-- One number accounted for: its row is appended, or it is lost. -/
def enter (r : ScrollbackRing) : Option Bytes → ScrollbackRing
  | some row => r.append [row]
  | none => r.markNotReceived 1

/-- The numbers of a ledger accounted for, in order. -/
def replay (r : ScrollbackRing) (l : List (Option Bytes)) : ScrollbackRing := l.foldl enter r

@[simp] theorem replay_nil : r.replay [] = r := rfl

theorem replay_append : r.replay (l ++ l') = (r.replay l).replay l' := List.foldl_append ..

theorem dropWhile_dropWhile {α : Type} {p q : α → Bool} (h : ∀ x, p x = true → q x = true)
    (xs : List α) : (xs.dropWhile p).dropWhile q = xs.dropWhile q := by
  induction xs with
  | nil => rfl
  | cons x xs ih =>
    rw [List.dropWhile_cons]
    split
    case isTrue hp => rw [ih, List.dropWhile_cons, if_pos (h x hp)]
    case isFalse => rfl

theorem firstNumber_appendRow_le (row : Bytes) : r.firstNumber ≤ (r.appendRow row).firstNumber := by
  rw [firstNumber, firstNumber, appendRow]
  split <;> simp only [List.length_append, List.length_drop, List.length_singleton] <;> omega

theorem firstNumber_foldl_le (rows : List Bytes) : r.firstNumber ≤ (rows.foldl appendRow r).firstNumber := by
  induction rows generalizing r with
  | nil => exact Nat.le_refl _
  | cons row rows ih => exact Nat.le_trans (firstNumber_appendRow_le row) ih

theorem foldl_appendRow_holes (rows : List Bytes) (holes : List (ℕ × ℕ)) :
    ∀ r : ScrollbackRing, rows.foldl appendRow { r with holes } = { rows.foldl appendRow r with holes } := by
  induction rows with
  | nil => exact fun r => rfl
  | cons row rows ih => exact fun r => ih (r.appendRow row)

theorem holes_foldl_appendRow (rows : List Bytes) :
    ∀ r : ScrollbackRing, (rows.foldl appendRow r).holes = r.holes := by
  induction rows with
  | nil => exact fun r => rfl
  | cons row rows ih => exact fun r => ih (r.appendRow row)

theorem append_append (rows rows' : List Bytes) : (r.append rows).append rows' = r.append (rows ++ rows') := by
  have hle := firstNumber_foldl_le (r := rows.foldl appendRow r) rows'
  have hdrop := dropWhile_dropWhile
    (p := fun h : ℕ × ℕ => decide (h.1 < (rows.foldl appendRow r).firstNumber))
    (q := fun h => decide (h.1 < (rows'.foldl appendRow (rows.foldl appendRow r)).firstNumber))
    (fun h hlt => decide_eq_true (Nat.lt_of_lt_of_le (of_decide_eq_true hlt) hle)) r.holes
  simp only [append, List.foldl_append, foldl_appendRow_holes, holes_foldl_appendRow]
  exact congrArg (fun holes => { rows'.foldl appendRow (rows.foldl appendRow r) with holes }) hdrop

theorem append_eq_replay (hne : rows ≠ []) : r.append rows = r.replay (rows.map some) := by
  induction rows generalizing r with
  | nil => exact absurd rfl hne
  | cons row rows ih =>
    rw [List.map_cons]
    show _ = (r.append [row]).replay (rows.map some)
    cases rows with
    | nil => rfl
    | cons row' rows' => rw [← ih (List.cons_ne_nil _ _), append_append, List.singleton_append]

theorem markNotReceived_add (m n : ℕ) : (r.markNotReceived m).markNotReceived n = r.markNotReceived (m + n) := by
  by_cases hn : n = 0
  · rw [hn]
    rfl
  by_cases hm : m = 0
  · rw [hm, Nat.zero_add]
    rfl
  have hmn : m + n ≠ 0 := by omega
  cases hlast : r.holes.getLast? with
  | none => simp [markNotReceived, hn, hm, hlast, Nat.add_assoc]
  | some hole =>
    obtain ⟨before, merged⟩ := hole
    by_cases hb : before = r.appended
    · simp [markNotReceived, hn, hm, hlast, hb, Nat.add_assoc]
    · simp [markNotReceived, hn, hm, hlast, hb, Nat.add_assoc]

theorem markNotReceived_eq_replay (n : ℕ) : r.markNotReceived n = r.replay (replicate n none) := by
  induction n with
  | zero => rfl
  | succ n ih =>
    rw [List.replicate_succ', replay_append, ← ih, ← markNotReceived_add]
    rfl

/-! ### What the ring shows -/

/-- The lines missing before the row number `n`. -/
def gap (r : ScrollbackRing) (n : ℕ) : ℕ :=
  ((r.holes.filter fun h => decide (h.1 = n)).map Prod.snd).sum

/-- Rows numbered from `n`, each after the lines missing before it, and the lines missing at the end. -/
def shownFrom (gap : ℕ → ℕ) : ℕ → List Bytes → List (Option Bytes)
  | n, [] => List.replicate (gap n) none
  | n, row :: rows => List.replicate (gap n) none ++ some row :: shownFrom gap (n + 1) rows

/-- The rows the ring holds and the lines it misses, in order. -/
def shown (r : ScrollbackRing) : List (Option Bytes) := shownFrom r.gap r.firstNumber r.rows

/-- The rows held were appended, and no hole lies past them. -/
structure Placed (r : ScrollbackRing) : Prop where
  length_le : r.rows.length ≤ r.appended
  holes_le : ∀ h ∈ r.holes, h.1 ≤ r.appended

theorem placed_clear : r.clear.Placed := ⟨Nat.zero_le _, nofun⟩

@[simp] theorem shown_clear : r.clear.shown = [] := rfl

theorem placed_new (capacity : ℕ) : (new capacity).Placed := ⟨Nat.zero_le _, nofun⟩

theorem shownFrom_congr {f g : ℕ → ℕ}
    (h : ∀ k, n ≤ k → k ≤ n + rows.length → f k = g k) : shownFrom f n rows = shownFrom g n rows := by
  induction rows generalizing n with
  | nil => rw [shownFrom, shownFrom, h n (Nat.le_refl _) (Nat.le_refl _)]
  | cons row rows ih =>
    rw [length_cons] at h
    rw [shownFrom, shownFrom, h n (Nat.le_refl _) (by omega), ih fun k _ _ => h k (by omega) (by omega)]

theorem shownFrom_concat (f : ℕ → ℕ) (n : ℕ) (rows : List Bytes) (row : Bytes) : shownFrom f n (rows ++ [row]) =
      shownFrom f n rows ++ some row :: replicate (f (n + rows.length + 1)) none := by
  induction rows generalizing n with
  | nil => rfl
  | cons head rows ih =>
    rw [List.cons_append, shownFrom, ih, shownFrom, length_cons, append_assoc, List.cons_append]
    congr 6
    omega

theorem shownFrom_succ {f g : ℕ → ℕ} (hlast : g (n + rows.length) = f (n + rows.length) + 1)
    (h : ∀ k, k < n + rows.length → g k = f k) : shownFrom g n rows = shownFrom f n rows ++ [none] := by
  induction rows generalizing n with
  | nil =>
    have hlast' : g n = f n + 1 := hlast
    rw [shownFrom, shownFrom, hlast', List.replicate_succ']
  | cons row rows ih =>
    rw [length_cons] at h hlast
    have hn : n + (rows.length + 1) = n + 1 + rows.length := by omega
    have hnext := ih (n := n + 1) (hn ▸ hlast) fun k hk => h k (by omega)
    rw [shownFrom, shownFrom, h n (by omega), hnext, append_assoc, List.cons_append]

theorem shownFrom_tail (f : ℕ → ℕ) (n : ℕ) (row : Bytes) (rows : List Bytes) :
    shownFrom f (n + 1) rows <:+ shownFrom f n (row :: rows) :=
  ⟨replicate (f n) none ++ [some row], by rw [shownFrom, append_assoc]; rfl⟩

theorem filter_dropWhile (holes : List (ℕ × ℕ)) {first n : ℕ} (hn : first ≤ n) :
    (holes.dropWhile fun h => decide (h.1 < first)).filter (fun h => decide (h.1 = n)) =
      holes.filter fun h => decide (h.1 = n) := by
  induction holes with
  | nil => rfl
  | cons h holes ih =>
    rw [List.dropWhile_cons]
    split
    case isTrue hlt =>
        have hne : ¬h.1 = n := by
          have := of_decide_eq_true hlt
          omega
        rw [ih, List.filter_cons_of_neg (by simpa using hne)]
    case isFalse => rfl

theorem gap_append (row : Bytes) (hn : (r.append [row]).firstNumber ≤ n) : (r.append [row]).gap n = r.gap n :=
  congrArg (fun holes => (holes.map Prod.snd).sum) (filter_dropWhile r.holes hn)

theorem gap_eq_zero (h : ∀ hole ∈ r.holes, hole.1 < n) : r.gap n = 0 := by
  have hnone : r.holes.filter (fun h => decide (h.1 = n)) = [] := by
    rw [List.filter_eq_nil_iff]
    intro hole hmem heq
    have := h hole hmem
    have := of_decide_eq_true heq
    omega
  rw [gap, hnone]
  rfl

theorem append_rows (r : ScrollbackRing) (row : Bytes) : ∃ kept : List Bytes,
    (r.append [row]).rows = kept ++ [row] ∧ (r.rows = kept ∨ ∃ oldest, r.rows = oldest :: kept) := by
  refine ⟨if r.rows.length ≥ r.capacity then r.rows.drop 1 else r.rows, rfl, ?_⟩
  split
  case isTrue =>
    cases r.rows with
    | nil => exact .inl rfl
    | cons oldest kept => exact .inr ⟨oldest, rfl⟩
  case isFalse => exact .inl rfl

theorem placed_append (hr : r.Placed) (row : Bytes) : (r.append [row]).Placed := by
  constructor
  · obtain ⟨kept, hrows, hkept⟩ := append_rows r row
    have happended : (r.append [row]).appended = r.appended + 1 := rfl
    have hle := hr.length_le
    rw [hrows, happended, List.length_append, List.length_singleton]
    rcases hkept with hkept | ⟨oldest, hkept⟩
    · rw [hkept] at hle
      omega
    · rw [hkept, length_cons] at hle
      omega
  · intro h hmem
    have hmem' : h ∈ r.holes := (List.dropWhile_sublist _).subset hmem
    exact Nat.le_succ_of_le (hr.holes_le h hmem')

/-- **A row appended is shown after what was shown**, and the oldest may be gone. -/
theorem shown_append (hr : r.Placed) (row : Bytes) : (r.append [row]).shown <:+ r.shown ++ [some row] := by
  obtain ⟨kept, hrows, hkept⟩ := append_rows r row
  have hle := hr.length_le
  have hfirst : (r.append [row]).firstNumber = r.appended - kept.length := by
    show r.appended + 1 - (r.append [row]).rows.length = _
    rw [hrows, List.length_append, List.length_singleton]
    omega
  have hkeptle : kept.length ≤ r.appended := by
    rcases hkept with hkept | ⟨oldest, hkept⟩
    · exact hkept ▸ hle
    · rw [hkept, length_cons] at hle
      omega
  have hlast : (r.append [row]).gap (r.appended - kept.length + kept.length + 1) = 0 := by
    rw [gap_append row (by omega)]
    refine gap_eq_zero fun hole hmem => ?_
    have := hr.holes_le hole hmem
    omega
  have hshown : (r.append [row]).shown = shownFrom r.gap (r.appended - kept.length) kept ++ [some row] := by
    rw [shown, hrows, hfirst, shownFrom_concat, hlast, List.replicate_zero]
    rw [shownFrom_congr fun k hk _ => gap_append row (hfirst ▸ hk)]
  have hold : shownFrom r.gap (r.appended - kept.length) kept <:+ r.shown := by
    rw [shown, firstNumber]
    rcases hkept with hkept | ⟨oldest, hkept⟩
    · rw [hkept]
    · rw [hkept, length_cons] at hle ⊢
      have hn : r.appended - kept.length = r.appended - (kept.length + 1) + 1 := by omega
      rw [hn]
      exact shownFrom_tail ..
  obtain ⟨gone, hgone⟩ := hold
  exact ⟨gone, by rw [hshown, ← hgone, append_assoc]⟩

theorem gap_markNotReceived (n : ℕ) : (r.markNotReceived 1).gap n = r.gap n + if n = r.appended then 1 else 0 := by
  have hcount : ∀ (l : List (ℕ × ℕ)) (before lines : ℕ),
      (((l ++ [(before, lines)]).filter fun h => decide (h.1 = n)).map Prod.snd).sum =
        ((l.filter fun h => decide (h.1 = n)).map Prod.snd).sum +
          if n = before then lines else 0 := by
    intro l before lines
    by_cases hn : n = before
    · simp [hn]
    · have hn' : ¬before = n := fun h => hn h.symm
      simp [hn, hn']
  unfold markNotReceived gap
  rw [if_neg Nat.one_ne_zero]
  simp only
  split
  case h_1 before merged hlast =>
    have hholes : r.holes = r.holes.dropLast ++ [(before, merged)] :=
      (List.dropLast_append_getLast? _ hlast).symm
    split
    case isTrue hb =>
      rw [hcount]
      conv_rhs => rw [hholes, hcount]
      rw [hb]
      split <;> omega
    case isFalse => exact hcount ..
  case h_2 => exact hcount ..

theorem placed_markNotReceived (hr : r.Placed) : (r.markNotReceived 1).Placed := by
  unfold markNotReceived
  rw [if_neg Nat.one_ne_zero]
  simp only
  split
  case h_1 before merged hlast =>
    split
    case isTrue hb =>
      refine ⟨hr.length_le, fun h hmem => ?_⟩
      rcases List.mem_append.1 hmem with hmem | hmem
      · exact hr.holes_le h ((List.dropLast_sublist _).subset hmem)
      · rw [List.mem_singleton.1 hmem]
        exact hb.le
    case isFalse =>
      refine ⟨hr.length_le, fun h hmem => ?_⟩
      rcases List.mem_append.1 hmem with hmem | hmem
      · exact hr.holes_le h hmem
      · rw [List.mem_singleton.1 hmem]
  case h_2 =>
    refine ⟨hr.length_le, fun h hmem => ?_⟩
    rcases List.mem_append.1 hmem with hmem | hmem
    · exact hr.holes_le h hmem
    · rw [List.mem_singleton.1 hmem]

/-- **A lost row is one more line missing at the end.** -/
theorem shown_markNotReceived (hr : r.Placed) : (r.markNotReceived 1).shown = r.shown ++ [none] := by
  have hrows : (r.markNotReceived 1).rows = r.rows ∧ (r.markNotReceived 1).firstNumber = r.firstNumber := by
    unfold markNotReceived
    rw [if_neg Nat.one_ne_zero]
    simp only
    split
    · split <;> exact ⟨rfl, rfl⟩
    · exact ⟨rfl, rfl⟩
  have hend : r.firstNumber + r.rows.length = r.appended := Nat.sub_add_cancel hr.length_le
  rw [shown, hrows.1, hrows.2]
  refine shownFrom_succ ?_ fun k hk => ?_
  · rw [gap_markNotReceived, hend, if_pos rfl]
  · rw [gap_markNotReceived, if_neg (by omega), Nat.add_zero]

/-- **The ring shows the newest part of its ledger.** -/
theorem shown_replay (hr : r.Placed) (l : List (Option Bytes)) :
    (r.replay l).Placed ∧ (r.replay l).shown <:+ r.shown ++ l := by
  induction l generalizing r with
  | nil => exact ⟨hr, by rw [List.append_nil]; exact List.suffix_rfl⟩
  | cons x l ih =>
    have henter : (r.enter x).Placed ∧ (r.enter x).shown <:+ r.shown ++ [x] := by
      cases x with
      | some row => exact ⟨placed_append hr row, shown_append hr row⟩
      | none => exact ⟨placed_markNotReceived hr, shown_markNotReceived hr ▸ List.suffix_rfl⟩
    obtain ⟨hplaced, hsuffix⟩ := ih henter.1
    refine ⟨hplaced, hsuffix.trans ?_⟩
    obtain ⟨gone, hgone⟩ := henter.2
    exact ⟨gone, by rw [← append_assoc, hgone, append_assoc, List.singleton_append]⟩

end ScrollbackRing

/-! ### A view whose count advanced -/

namespace HistoryView

variable {num : ℕ → Bytes → Prop} {lost : ℕ → Prop} {v v' v'' : HistoryView}
variable {l l' : List (Option Bytes)} {off : ℕ} {rows : List Bytes}

/-- What a number may be accounted for as: its row, or lost. -/
def Account (num : ℕ → Bytes → Prop) (lost : ℕ → Prop) (n : ℕ) : Option Bytes → Prop
  | some row => num n row
  | none => lost n

/-- The rows from `off` on are the ones of those numbers. -/
def Numbers (num : ℕ → Bytes → Prop) (off : ℕ) (rows : List Bytes) : Prop :=
  ∀ k row, rows[k]? = some row → num (off + k) row

/-- The bodies held are of the numbers they are held under. -/
def HeldNumbered (num : ℕ → Bytes → Prop) (v : HistoryView) : Prop :=
  ∀ b ∈ v.sb2Held.bodies, Numbers num b.1 b.2

/-- **The count of `v` advanced by a ledger**, and the ring with it. -/
structure Extends (num : ℕ → Bytes → Prop) (lost : ℕ → Prop) (v v' : HistoryView)
    (l : List (Option Bytes)) : Prop where
  rows : v'.sb2Rows = v.sb2Rows + l.length
  ring : v'.scrollback = v.scrollback.replay l
  account : ∀ i x, l[i]? = some x → Account num lost (v.sb2Rows + i) x

theorem Extends.refl (v : HistoryView) : Extends num lost v v [] := ⟨rfl, rfl, nofun⟩

theorem Extends.trans (h : Extends num lost v v' l) (h' : Extends num lost v' v'' l') :
    Extends num lost v v'' (l ++ l') := by
  refine ⟨?_, ?_, fun i x hx => ?_⟩
  · rw [h'.rows, h.rows, List.length_append, Nat.add_assoc]
  · rw [h'.ring, h.ring, ScrollbackRing.replay_append]
  · rcases Nat.lt_or_ge i l.length with hi | hi
    · rw [List.getElem?_append_left hi] at hx
      exact h.account i x hx
    · rw [List.getElem?_append_right hi] at hx
      have hat := h'.account _ x hx
      rw [h.rows] at hat
      convert hat using 1
      omega

theorem Extends.mono {num' : ℕ → Bytes → Prop} {lost' : ℕ → Prop} (h : Extends num lost v v' l)
    (hnum : ∀ n row, num n row → num' n row)
    (hlost : ∀ n, n < v'.sb2Rows → lost n → lost' n) : Extends num' lost' v v' l := by
  refine ⟨h.rows, h.ring, fun i x hx => ?_⟩
  have hi : i < l.length := (List.getElem?_eq_some_iff.1 hx).1
  have hat := h.account i x hx
  cases x with
  | some row => exact hnum _ _ hat
  | none => exact hlost _ (by rw [h.rows]; omega) hat

/-- What an operation of the client leaves: the count advanced, under the same epoch and extent. -/
structure Advances (num : ℕ → Bytes → Prop) (lost : ℕ → Prop) (v v' : HistoryView) : Prop where
  epoch : v'.sb2Epoch = v.sb2Epoch
  extent : v'.sb2Extent = v.sb2Extent
  held : v'.HeldNumbered num
  ledger : ∃ l, Extends num lost v v' l

theorem Advances.refl (h : v.HeldNumbered num) : Advances num lost v v := ⟨rfl, rfl, h, [], .refl v⟩

theorem Advances.trans (h : Advances num lost v v') (h' : Advances num lost v' v'') : Advances num lost v v'' := by
  obtain ⟨l, hl⟩ := h.ledger
  obtain ⟨l', hl'⟩ := h'.ledger
  exact ⟨h'.epoch.trans h.epoch, h'.extent.trans h.extent, h'.held, l ++ l', hl.trans hl'⟩

theorem advances_claim (h : v.HeldNumbered num) (hoff : off ≤ v.sb2Rows) (hnum : Numbers num off rows) :
    Advances num lost v (v.claimScrollback2Tail off rows) := by
  unfold claimScrollback2Tail
  simp only
  split
  case isTrue => exact .refl h
  case isFalse hlong =>
    have hne : rows.drop (v.sb2Rows - off) ≠ [] := by
      rw [Ne, List.drop_eq_nil_iff]
      omega
    refine ⟨rfl, rfl, h, (rows.drop (v.sb2Rows - off)).map some, ?_, ?_, fun i x hx => ?_⟩
    · rw [List.length_map, List.length_drop]
      show off + rows.length = _
      omega
    · exact ScrollbackRing.append_eq_replay hne
    · rw [List.getElem?_map, List.getElem?_drop] at hx
      obtain ⟨row, hrow, rfl⟩ := Option.map_eq_some_iff.1 hx
      have hat := hnum _ row hrow
      show num (v.sb2Rows + i) row
      convert hat using 1
      omega

theorem advances_markGone (h : v.HeldNumbered num) {n : ℕ} (hn : v.sb2Rows ≤ n)
    (hlost : ∀ k, v.sb2Rows ≤ k → k < n → lost k) : Advances num lost v (v.markGone n) := by
  refine ⟨rfl, rfl, h, replicate (n - v.sb2Rows) none, ?_, ?_, fun i x hx => ?_⟩
  · rw [List.length_replicate]
    exact (Nat.add_sub_cancel' hn).symm
  · exact ScrollbackRing.markNotReceived_eq_replay _
  · rw [List.getElem?_replicate] at hx
    split at hx
    · obtain rfl := Option.some.inj hx
      exact hlost _ (Nat.le_add_right _ _) (by omega)
    · cases hx

/-- The floor of the extent seen. -/
def floor (v : HistoryView) : ℕ := (v.sb2Extent.map Scrollback2Extent.evictedUpto).getD 0

theorem Advances.lost_below (h : Advances num lost v v')
    (hlost : ∀ k, v.sb2Rows ≤ k → k < v.floor → lost k) : ∀ k, v'.sb2Rows ≤ k → k < v'.floor → lost k := by
  intro k hrows hk
  obtain ⟨l, hl⟩ := h.ledger
  rw [hl.rows] at hrows
  rw [floor, h.extent] at hk
  exact hlost k (by omega) hk

theorem goneTo_le_floor (v : HistoryView) : v.goneTo ≤ v.floor := by
  unfold goneTo floor
  cases v.sb2Held.firstOffset with
  | none => exact Nat.le_refl _
  | some o => exact Nat.min_le_right _ _

/-- **The settling loop**: it appends what is held from the count on, and gives up what lies below the
floor. -/
theorem advances_settleFuel (fuel : ℕ) (h : v.HeldNumbered num)
    (hlost : ∀ k, v.sb2Rows ≤ k → k < v.floor → lost k) : Advances num lost v (settleFuel fuel v) := by
  induction fuel generalizing v with
  | zero => exact .refl h
  | succ fuel ih =>
    rw [settleFuel]
    cases ht : v.sb2Held.takeReachable v.sb2Rows with
    | some r =>
      obtain ⟨off, rows, held⟩ := r
      obtain ⟨hbodies, hoff⟩ : v.sb2Held.bodies = (off, rows) :: held.bodies ∧ off ≤ v.sb2Rows := by
        unfold HeldRows.takeReachable at ht
        split at ht
        · cases ht
        · rename_i hb
          split at ht
          case isTrue hle =>
            simp only [Option.some.injEq, Prod.mk.injEq] at ht
            obtain ⟨rfl, rfl, rfl⟩ := ht
            exact ⟨hb, hle⟩
          case isFalse => cases ht
      have hnum : Numbers num off rows := h _ (hbodies ▸ List.mem_cons_self)
      have hheld : { v with sb2Held := held }.HeldNumbered num := fun b hb =>
        h b (hbodies ▸ List.mem_cons_of_mem _ hb)
      have hclaim : Advances num lost v ({ v with sb2Held := held }.claimScrollback2Tail off rows) := by
        have hclaimed : Advances num lost { v with sb2Held := held }
            ({ v with sb2Held := held }.claimScrollback2Tail off rows) :=
          advances_claim hheld hoff hnum
        obtain ⟨hepoch, hextent, hheld', l, hl⟩ := hclaimed
        exact ⟨hepoch, hextent, hheld', l, hl.rows, hl.ring, hl.account⟩
      exact hclaim.trans (ih hclaim.held (hclaim.lost_below hlost))
    | none =>
      simp only
      split
      case isTrue => exact .refl h
      case isFalse hgap =>
        have hgone : Advances num lost v (v.markGone v.goneTo) :=
          advances_markGone h (by omega) fun k hrows hk =>
            hlost k hrows (Nat.lt_of_lt_of_le hk v.goneTo_le_floor)
        exact hgone.trans (ih hgone.held (hgone.lost_below hlost))

theorem advances_settleHistory (h : v.HeldNumbered num)
    (hlost : ∀ k, v.sb2Rows ≤ k → k < v.floor → lost k) : Advances num lost v v.settleHistory :=
  advances_settleFuel _ h hlost

theorem keepHistoryAnchor_fields (v : HistoryView) (mark : ℕ) :
    ∃ offset, v.keepHistoryAnchor mark = { v with scrollOffset := offset } := by
  unfold keepHistoryAnchor
  simp only
  split
  · exact ⟨_, rfl⟩
  · exact ⟨v.scrollOffset, rfl⟩

theorem Advances.anchored (h : Advances num lost v v') (mark : ℕ) :
    Advances num lost v (v'.keepHistoryAnchor mark) := by
  obtain ⟨offset, heq⟩ := v'.keepHistoryAnchor_fields mark
  obtain ⟨hepoch, hextent, hheld, l, hl⟩ := h
  rw [heq]
  exact ⟨hepoch, hextent, hheld, l, hl.rows, hl.ring, hl.account⟩

theorem mem_insertBody {b : ℕ × List Bytes} {bs : List (ℕ × List Bytes)}
    (h : b ∈ HeldRows.insertBody off rows bs) : b = (off, rows) ∨ b ∈ bs := by
  induction bs with
  | nil => exact .inl (List.mem_singleton.1 h)
  | cons c bs ih =>
    unfold HeldRows.insertBody at h
    split at h
    · exact (List.mem_cons.1 h).imp id id
    · split at h
      · rcases List.mem_cons.1 h with h | h
        · exact .inl h
        · exact .inr (List.mem_cons_of_mem _ h)
      · rcases List.mem_cons.1 h with h | h
        · exact .inr (h ▸ List.mem_cons_self)
        · exact (ih h).imp id (List.mem_cons_of_mem _)

theorem heldNumbered_hold (h : v.HeldNumbered num) (hnum : Numbers num off rows) :
    { v with sb2Held := (v.sb2Held.hold off rows).2 }.HeldNumbered num := by
  intro b hb
  unfold HeldRows.hold at hb
  simp only at hb
  split at hb
  · exact h b hb
  · split at hb
    · exact h b hb
    · rcases mem_insertBody hb with rfl | hb
      · exact hnum
      · exact h b hb

/-- **A body is applied**: it is dropped, held, or entered with what it leaves lost. -/
theorem advances_applyScrollback2 {epoch : UInt8} (h : v.HeldNumbered num)
    (hnum : v.sb2Epoch = some epoch → Numbers num off rows) (hfloor : ∀ k, v.sb2Rows ≤ k → k < v.floor → lost k)
    (hunseen : v.sb2Extent = none → ∀ k, k < off → lost k) :
    Advances num lost v (v.applyScrollback2 epoch off rows) := by
  unfold applyScrollback2
  split
  case isTrue => exact .refl h
  case isFalse hepoch =>
    rw [not_not] at hepoch
    split
    case isTrue => exact .refl h
    case isFalse =>
      refine Advances.anchored ?_ _
      unfold applyScrollback2Rows
      split
      case isTrue hpast =>
        have hheld := heldNumbered_hold h (hnum hepoch)
        obtain ⟨hepoch, hextent, hheld', l, hl⟩ := advances_settleHistory hheld hfloor
        exact ⟨hepoch, hextent, hheld', l, hl.rows, hl.ring, hl.account⟩
      case isFalse hpast =>
        have hjump : Advances num lost v (if off > v.sb2Rows then v.markGone off else v) ∧
            off ≤ (if off > v.sb2Rows then v.markGone off else v).sb2Rows := by
          split
          case isTrue hgap =>
            have hnone : v.sb2Extent = none := by
              cases hx : v.sb2Extent with
              | none => rfl
              | some x => exact absurd ⟨hgap, by rw [hx]; rfl⟩ hpast
            exact ⟨advances_markGone h (Nat.le_of_lt hgap) fun k _ hk => hunseen hnone k hk, Nat.le_refl _⟩
          case isFalse hgap => exact ⟨.refl h, Nat.le_of_not_lt hgap⟩
        have hclaim := hjump.1.trans (advances_claim hjump.1.held hjump.2 (hnum hepoch))
        exact hclaim.trans (advances_settleHistory hclaim.held (hclaim.lost_below hfloor))

/-- **An extent is taken**: what lies below its floor is given up. -/
theorem advances_adoptExtent {x : Scrollback2Extent} (h : v.HeldNumbered num) (hepoch : v.sb2Epoch = some x.epoch)
    (hfloor : ∀ k, v.sb2Rows ≤ k → k < ((v.sb2Extent.getD x).merge x).evictedUpto → lost k) :
    Advances num lost { v with sb2Extent := some ((v.sb2Extent.getD x).merge x) } (v.adoptExtent x) := by
  unfold adoptExtent
  rw [if_pos hepoch]
  have hsettled : Advances num lost { v with sb2Extent := some ((v.sb2Extent.getD x).merge x) }
      { v with sb2Extent := some ((v.sb2Extent.getD x).merge x) }.settleHistory :=
    advances_settleHistory h hfloor
  exact hsettled.anchored _

end HistoryView

end Posh
