/-
**The rows of a history body on the wire.**

A history body carries rows of the session's scrollback as they are dumped.  Its frame stores the length of
each row in sixteen bits, but a row's dump has no bound: a cell takes combining marks without end.  So the
body is read back exactly when each of its rows has fewer than `2 ^ 16` bytes.
-/

import Posh.FrameWire
import Posh.HistoryCursor
import Posh.Term.Replay

set_option autoImplicit false

namespace Posh

open ByteCursor.Outcome (bind_eq_ok)
open HistoryCursor

/-! ### What is read has a length that was read -/

namespace Wire

open ByteCursor

variable {data : Bytes} {pos : ℕ} {rows : List Bytes} {body : FrameBody}

theorem length_of_getRange {lo hi : ℕ} {bytes : Bytes} (h : getRange data lo hi = some bytes) :
    bytes.length ≤ hi - lo := by
  rw [getRange] at h
  split at h
  · rw [← Option.some.inj h]
    exact List.length_take_le _ _
  · cases h

theorem decodeRowsFrom_row_le {header truncated : WireError} {n : ℕ}
    (h : decodeRowsFrom header truncated data n pos = .ok rows) : ∀ row ∈ rows, row.length ≤ 65535 := by
  induction n generalizing pos rows with
  | zero =>
    cases h
    exact fun _ hrow => by cases hrow
  | succ n ih =>
    rw [decodeRowsFrom] at h
    split at h
    case h_2 => cases h
    case h_1 lo hi _ _ =>
      simp only at h
      split at h
      case h_2 => cases h
      case h_1 row hrow =>
        obtain ⟨rest, hrest, heq⟩ := bind_eq_ok h
        cases heq
        refine List.forall_mem_cons.mpr ⟨?_, ih hrest⟩
        have hlt : WordBytes.ofLe [lo, hi] < 256 ^ 2 := WordBytes.ofLe_lt [lo, hi]
        have hle := length_of_getRange hrow
        omega

theorem decodeRows_row_le {count header truncated : WireError}
    (h : decodeRows count header truncated data pos = .ok rows) : ∀ row ∈ rows, row.length ≤ 65535 := by
  obtain ⟨n, -, hn⟩ := bind_eq_ok h
  obtain ⟨-, -, hfrom⟩ := bind_eq_ok hn
  exact decodeRowsFrom_row_le hfrom

theorem rows_decodeBased {make : UInt64 → Option UInt32 → Bytes → FrameBody} {short : WireError}
    (hmake : ∀ base sum bytes, (make base sum bytes).rows = [])
    (h : decodeBased make short data pos = .ok body ∨ decodeBasedSum make short data pos = .ok body) :
    body.rows = [] := by
  rcases h with h | h
  · obtain ⟨-, -, h⟩ := bind_eq_ok h
    obtain ⟨base, -, h⟩ := bind_eq_ok h
    obtain ⟨bytes, -, h⟩ := bind_eq_ok h
    cases h
    exact hmake _ _ _
  · obtain ⟨-, -, h⟩ := bind_eq_ok h
    obtain ⟨base, -, h⟩ := bind_eq_ok h
    obtain ⟨sum, -, h⟩ := bind_eq_ok h
    obtain ⟨bytes, -, h⟩ := bind_eq_ok h
    cases h
    exact hmake _ _ _

theorem FrameBody.decode_row_le (h : FrameBody.decode data pos = .ok body) :
    ∀ row ∈ body.rows, row.length ≤ 65535 := by
  have hnone (hrows : body.rows = []) : ∀ row ∈ body.rows, row.length ≤ 65535 := by
    rw [hrows]
    exact fun _ hrow => by cases hrow
  obtain ⟨kind, -, h⟩ := bind_eq_ok h
  split at h
  · obtain ⟨bytes, -, h⟩ := bind_eq_ok h
    cases h
    exact hnone rfl
  split at h
  · exact hnone (rows_decodeBased (fun _ _ _ => rfl) (.inl h))
  split at h
  · exact hnone (rows_decodeBased (fun _ _ _ => rfl) (.inr h))
  split at h
  · exact hnone (rows_decodeBased (fun _ _ _ => rfl) (.inl h))
  split at h
  · exact hnone (rows_decodeBased (fun _ _ _ => rfl) (.inr h))
  split at h
  · cases h
    exact hnone rfl
  split at h
  · obtain ⟨-, -, h⟩ := bind_eq_ok h
    obtain ⟨base, -, h⟩ := bind_eq_ok h
    obtain ⟨rows, hrows, h⟩ := bind_eq_ok h
    cases h
    exact decodeRows_row_le hrows
  split at h
  · obtain ⟨-, -, h⟩ := bind_eq_ok h
    obtain ⟨epoch, -, h⟩ := bind_eq_ok h
    obtain ⟨rowOffset, -, h⟩ := bind_eq_ok h
    obtain ⟨rows, hrows, h⟩ := bind_eq_ok h
    cases h
    exact decodeRows_row_le hrows
  · cases h

/-- **A row that is read from a frame has a length of sixteen bits.** -/
theorem decode_row_le {m : ServerFrame} (h : ServerFrame.decode data = .ok m) :
    ∀ row ∈ m.body.rows, row.length ≤ 65535 := by
  obtain ⟨⟨flags, caps, pos⟩, -, h⟩ := bind_eq_ok h
  obtain ⟨-, -, h⟩ := bind_eq_ok h
  obtain ⟨frameNum, -, h⟩ := bind_eq_ok h
  obtain ⟨inputAck, -, h⟩ := bind_eq_ok h
  obtain ⟨echoAck, -, h⟩ := bind_eq_ok h
  obtain ⟨body, hbody, h⟩ := bind_eq_ok h
  cases h
  exact FrameBody.decode_row_le hbody

end Wire

/-! ### The body of a terminal's history -/

section

open Term Term.Terminal

variable {γ : Type} {t : Terminal γ} {c : HistoryCursor} {now rto window : ℕ}

/-- A row on its own, from a fresh pen. -/
def Term.Terminal.dumpRow (t : Terminal γ) (row : Row) : Bytes := (t.emitTerminatedRow row {}).1

/-- A row of the primary screen's scrollback, by its index in the ring. -/
def Term.Terminal.dumpScrollbackRow (t : Terminal γ) (i : ℕ) : Option Bytes :=
  t.primary.scrollback[i]?.map t.dumpRow

/-- The scrollback of the primary screen as a cursor reads it. -/
def Term.Terminal.primaryRing (t : Terminal γ) : PrimaryRing where
  rows := t.primary.scrollback.map t.dumpRow
  total := t.primary.scrollbackTotal

theorem primaryRing_dumpScrollbackRow (t : Terminal γ) (i : ℕ) :
    t.primaryRing.dumpScrollbackRow i = (t.dumpScrollbackRow i).getD [] := by
  rw [PrimaryRing.dumpScrollbackRow, primaryRing, List.getElem?_map, Term.Terminal.dumpScrollbackRow]

/-- The body a cursor sends of a terminal's history. -/
def historyBody (c : HistoryCursor) (t : Terminal γ) (now rto window : ℕ) : Wire.FrameBody :=
  let (epoch, start, rows) := (c.nextBody t.primaryRing now rto window).2
  .scrollback2 epoch (UInt64.ofNat start) rows

/-- The rows of the scrollback that are next to be sent. -/
def HistoryCursor.nextRows (c : HistoryCursor) (t : Terminal γ) (now rto window : ℕ) : List Row :=
  let g := t.primaryRing
  let (start, _) := c.nextSpan g now rto window
  (t.primary.scrollback.drop (g.len - (c.avail g.total - start))).take (c.bodyCount g now rto window)

theorem rows_historyBody : (historyBody c t now rto window).rows =
    (c.nextRows t now rto window).map t.dumpRow := by
  have hfloor : c.avail t.primaryRing.total - (c.nextSpan t.primaryRing now rto window).1 ≤
      t.primaryRing.len := avail_sub_le_len floorRel_le_nextSpan
  have hlen : t.primaryRing.len = t.primary.scrollback.length := List.length_map _
  have hcount : c.bodyCount t.primaryRing now rto window ≤
      c.avail t.primaryRing.total - (c.nextSpan t.primaryRing now rto window).1 := Nat.min_le_left _ _
  show (c.nextBody t.primaryRing now rto window).2.2.2 = _
  apply List.ext_getElem?
  intro k
  rw [List.getElem?_map, nextRows]
  simp only [nextBody, List.getElem?_map, List.getElem?_take, List.getElem?_drop]
  by_cases hk : k < c.bodyCount t.primaryRing now rto window
  · -- the row's distance from the newest one is the same in the ring and in the row space
    have hidx : t.primaryRing.len - (c.avail t.primaryRing.total -
        ((c.nextSpan t.primaryRing now rto window).1 + k)) =
        t.primaryRing.len - (c.avail t.primaryRing.total -
          (c.nextSpan t.primaryRing now rto window).1) + k := by
      omega
    rw [List.getElem?_range hk, if_pos hk, Option.map_some, hidx, primaryRing_dumpScrollbackRow,
      Term.Terminal.dumpScrollbackRow, List.getElem?_eq_getElem (by omega)]
    rfl
  · rw [List.getElem?_eq_none (by rw [List.length_range]; omega), if_neg hk]
    rfl

theorem length_rows_historyBody_le : (historyBody c t now rto window).rows.length ≤ Wire.maxScrollbackRows := by
  have hlen : (historyBody c t now rto window).rows.length = c.bodyCount t.primaryRing now rto window :=
    length_nextBody
  have hcap : (c.nextSpan t.primaryRing now rto window).2 ≤ sb2RowsPerBody := by
    rw [nextSpan]
    split
    · exact Nat.le_refl _
    · exact Nat.min_le_left _ _
  have hcount : c.bodyCount t.primaryRing now rto window ≤
      (c.nextSpan t.primaryRing now rto window).2 := Nat.min_le_right _ _
  have hmax : sb2RowsPerBody ≤ Wire.maxScrollbackRows := by decide
  omega

/-- **A frame with history is read back**: its body is what was sent. -/
def SurvivesWire (m : Wire.ServerFrame) : Prop :=
  ∃ m', Wire.ServerFrame.decode m.encode = .ok m' ∧ m'.body = m.body

theorem not_survivesWire {m : Wire.ServerFrame} {row : Bytes} (hrow : row ∈ m.body.rows)
    (hlong : 65535 < row.length) : ¬SurvivesWire m := by
  rintro ⟨m', hdecode, hbody⟩
  have hle := Wire.decode_row_le hdecode row (hbody ▸ hrow)
  omega

/-- **A history body is read back exactly when its rows are short enough**: in a frame whose flags and
capabilities are those of a frame, every row that is next to be sent dumps to fewer than `2 ^ 16` bytes. -/
theorem historyBody_survives_iff {m : Wire.ServerFrame} (hflags : m.flags &&& Wire.flagExtension = 0)
    (hcaps : Wire.TableFits m.caps) (hbody : m.body = historyBody c t now rto window) :
    SurvivesWire m ↔ ∀ row ∈ c.nextRows t now rto window, (t.dumpRow row).length < 2 ^ 16 := by
  have hrows : m.body.rows = (c.nextRows t now rto window).map t.dumpRow := by
    rw [hbody, rows_historyBody]
  constructor
  · intro hsurvives row hrow
    by_contra hlong
    have hmem : t.dumpRow row ∈ m.body.rows := by
      rw [hrows]
      exact List.mem_map_of_mem hrow
    exact not_survivesWire hmem (by omega) hsurvives
  · intro hshort
    refine ⟨m, Wire.ServerFrame.decode_encode ⟨hflags, hcaps, ?_, ?_⟩, rfl⟩
    · rw [hbody]
      exact length_rows_historyBody_le
    · rw [hrows]
      intro bytes hbytes
      obtain ⟨row, hrow, rfl⟩ := List.mem_map.mp hbytes
      have hlt := hshort row hrow
      omega

end

/-! ### A row that is too long -/

section

open Term Term.Terminal

/-- A letter in one row of two columns. -/
def lettered : Term.Terminal Unit := run 1 2 4 [.process [0x61]]

/-- The row with `n` combining acutes on the letter. -/
def accentedRow (n : ℕ) : Row where
  cells := [{ ch := 'a', extra := List.replicate n '\u0301' }, Cell.blank {}]

/-- What a terminal is after the letter and `n` combining acutes. -/
def Accented (n : ℕ) (t : Term.Terminal Unit) : Prop :=
  ∃ p generation, p.Rests ∧ t = { lettered with
    parser := p
    generation
    primary := { lettered.primary with grid := [accentedRow n] } }

theorem accented_lettered : Accented 0 lettered := by
  have hgrid : lettered.primary.grid = [accentedRow 0] := by decide
  refine ⟨lettered.parser, lettered.generation, ⟨by decide, by decide⟩, ?_⟩
  rw [← hgrid]

variable {t : Term.Terminal Unit}

theorem accented_mark {n : ℕ} (h : Accented n t) : Accented (n + 1) (t.process [0xCC, 0x81]) := by
  obtain ⟨p, generation, hp, rfl⟩ := h
  obtain ⟨q, hq, heq⟩ := process_reads (t := { lettered with
    parser := p
    generation
    primary := { lettered.primary with grid := [accentedRow n] } })
    (Parser.reads_char hp (c := '\u0301') (by decide) (by decide))
  have hbytes : String.utf8EncodeChar '\u0301' = [0xCC, 0x81] := by decide
  rw [hbytes] at heq
  refine ⟨q, generation + 1, hq, heq.trans ?_⟩
  have hrow : accentedRow (n + 1) = ⟨[{ ch := 'a', extra := List.replicate n '\u0301' ++ ['\u0301'] },
      Cell.blank {}], false, none⟩ := by
    rw [accentedRow, List.replicate_succ']
  rw [hrow]
  rfl

theorem accented_marks (n : ℕ) : Accented n (lettered.process (List.replicate n [0xCC, 0x81]).flatten) := by
  induction n with
  | zero => exact accented_lettered
  | succ n ih =>
    rw [List.replicate_succ', List.flatten_concat, process_append]
    exact accented_mark ih

theorem scrollback_accented {n : ℕ} (h : Accented n t) :
    (t.process [0x0A]).primary.scrollback = [accentedRow n] ∧ (t.process [0x0A]).primary.scrollbackTotal = 1 := by
  obtain ⟨p, generation, hp, rfl⟩ := h
  rw [process_control hp (by decide) (by decide)]
  exact ⟨rfl, rfl⟩

theorem length_dumpRow (t : Term.Terminal Unit) (n : ℕ) : (t.dumpRow (accentedRow n)).length = 2 * n + 3 := by
  have htext : t.dumpRow (accentedRow n) = Utf8.encode ('a' :: List.replicate n '\u0301') ++ crlf := by
    have hletter : Cell.isDumpSkippable { ch := 'a', extra := List.replicate n '\u0301' } = false := by
      have hnul : ('a' == Cell.nul) = false := by decide
      simp [Cell.isDumpSkippable, Cell.isBlank, hnul]
    have hcells : emittedCells (accentedRow n) = [{ ch := 'a', extra := List.replicate n '\u0301' }] := by
      have hblank : (Cell.blank {}).isDumpSkippable = true := by decide
      simp [emittedCells, accentedRow, Screen.shownLength, hletter, hblank]
    have hmark : (accentedRow n).mark = none := rfl
    have hhard : (accentedRow n).wrapped = false := rfl
    have hnul : ('a' = Cell.nul) = False := by decide
    simp [dumpRow, emitTerminatedRow, emitRow, hcells, emitCell, emitPen, resetPen, emitMark, cellText,
      hmark, hhard, Writer.all, Writer.andThen, Writer.put, Writer.when, Writer.setAfterWrap, hnul]
  rw [htext]
  have hmarks : (Utf8.encode (List.replicate n '\u0301')).length = 2 * n := by
    clear htext
    induction n with
    | zero => rfl
    | succ n ih =>
      rw [List.replicate_succ, Utf8.encode_cons, List.length_append, ih]
      have hmark : (String.utf8EncodeChar '\u0301').length = 2 := by decide
      omega
  rw [Utf8.encode_cons, List.length_append, List.length_append, hmarks]
  have hletter : (String.utf8EncodeChar 'a').length = 1 := by decide
  have hcrlf : crlf.length = 2 := rfl
  omega

/-- A cursor that was opened before anything scrolled off. -/
def opened : HistoryCursor := (HistoryCursor.new (1, 2)).activate .fresh 0

/-- The frame with the cursor's next body, one row allowed in flight. -/
def historyFrame (t : Term.Terminal Unit) : Wire.ServerFrame where
  flags := 0
  caps := []
  frameNum := 1
  inputAck := 0
  echoAck := 0
  body := historyBody opened t 0 0 1

theorem historyBody_survives_short :
    SurvivesWire (historyFrame (run 1 2 4 [.process [0x61, 0xCC, 0x81, 0x0A]])) :=
  (@historyBody_survives_iff _ (run 1 2 4 [.process [0x61, 0xCC, 0x81, 0x0A]]) opened 0 0 1 _
    (by decide) ⟨by decide, by decide⟩ rfl).mpr (by decide)

/-- A letter with `2 ^ 15` marks, and a line feed. -/
def manyMarks : Bytes := [0x61] ++ (List.replicate (2 ^ 15) [0xCC, 0x81]).flatten ++ [0x0A]

theorem historyBody_lost : ¬SurvivesWire (historyFrame (run 1 2 4 [.process manyMarks])) := by
  have hrun : (run 1 2 4 [.process manyMarks] : Term.Terminal Unit) =
      (lettered.process (List.replicate (2 ^ 15) [0xCC, 0x81]).flatten).process [0x0A] := by
    rw [run, List.foldl_cons, List.foldl_nil, call, manyMarks, process_append, process_append]
    rfl
  obtain ⟨hring, htotal⟩ := scrollback_accented (accented_marks (2 ^ 15))
  rw [← hrun] at hring htotal
  obtain ⟨t, ht⟩ : ∃ t : Term.Terminal Unit, run 1 2 4 [.process manyMarks] = t := ⟨_, rfl⟩
  rw [ht] at hring htotal ⊢
  have hrow : (historyFrame t).body.rows = [t.dumpRow (accentedRow (2 ^ 15))] := by
    rw [historyFrame, rows_historyBody]
    simp [HistoryCursor.nextRows, HistoryCursor.bodyCount, HistoryCursor.nextSpan, primaryRing,
      PrimaryRing.len, HistoryCursor.avail, HistoryCursor.resendDue, HistoryCursor.inFlight,
      HistoryCursor.floorRel, HistoryCursor.nextFresh, HistoryCursor.activate, HistoryCursor.new, opened,
      sb2RowsPerBody, hring, htotal]
  have hmem : t.dumpRow (accentedRow (2 ^ 15)) ∈ (historyFrame t).body.rows := by
    rw [hrow]
    exact List.mem_singleton_self _
  refine not_survivesWire hmem ?_
  rw [length_dumpRow]
  decide

end

end Posh
