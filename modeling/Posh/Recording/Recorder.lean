/-
**Recording a session.**

The recorder writes down what happens in a session: its output, its input, resizes and named markers.  Output comes in
pieces that may end inside a character, so the bytes of a character that is not complete are held back until the rest
of them comes, or until something else has to be written.  What is read back is then the text of the output, whatever
the pieces were.  Input is written as the text of its bytes: what is not UTF-8 in it is replaced.

The file that is written to is taken to accept everything.
-/

import Posh.Lib.TextSlice
import Posh.Recording.Castx

set_option autoImplicit false

namespace Posh.Recording

open ByteCursor
open Utf8 (encode fromUtf8)
open List (append_assoc append_nil)
open ByteCursor.Outcome (bind_ok)
open Utf8
open Checked

variable {ν : Type*} {events : List (Event ν)}

/-! ### The recorder -/

structure Recorder (ν : Type*) where
  writer : List UInt8
  pending : List UInt8
  lastTime : ν

def unwrap {ε : Type*} : Except Utf8.Utf8Error (List Char) → Outcome ε (List Char)
  | .ok s => .ok s
  | .error _ => .outOfRange

namespace Recorder

variable (N : Numbers ν)

def new : Recorder ν := ⟨[], [], N.zero⟩

def writeHeader (r : Recorder ν) (h : Header) : Recorder ν :=
  { r with writer := r.writer ++ Utf8.encode (Recording.writeHeader h) ++ Utf8.encode ['\n'] }

def writeLine (r : Recorder ν) (time : ν) (code : EventCode) (data : List Char) : Recorder ν :=
  { r with writer := r.writer ++ Utf8.encode (writeEvent N ⟨time, code, data⟩) ++ Utf8.encode ['\n'] }

/-- `self.pending.drain(..n)` -/
def drain (r : Recorder ν) (n : ℕ) : Outcome Empty (Recorder ν) :=
  (Checked.split r.pending n).bind fun (_, rest) => .ok { r with pending := rest }

/-- The text of the first `n` bytes that are pending, which has to be one. -/
def validPrefix (r : Recorder ν) (n : ℕ) : Outcome Empty (List Char) :=
  (Checked.split r.pending n).bind fun (front, _) => unwrap (Utf8.fromUtf8 front)

/-- One turn over what is pending. -/
def flushTurn (time : ν) (r : Recorder ν) : Outcome Empty (Recorder ν ⊕ Recorder ν) :=
  match Utf8.fromUtf8 r.pending with
  | .ok s => if s ≠ [] then .ok (.inr { r.writeLine N time .output s with pending := [] }) else .ok (.inr r)
  | .error e =>
    match e.errorLen with
    | none =>
      -- a character that is cut short is held back
      if 0 < e.validUpTo then
        (r.validPrefix e.validUpTo).bind fun s =>
          ((r.writeLine N time .output s).drain e.validUpTo).bind fun r => .ok (.inr r)
      else .ok (.inr r)
    | some bad =>
      -- what is no character is replaced
      (r.validPrefix e.validUpTo).bind fun s =>
        ((r.writeLine N time .output (s ++ [Utf8.replacement])).drain (e.validUpTo + bad)).bind fun r => .ok (.inl r)

def flushComplete (time : ν) (r : Recorder ν) : Outcome Empty (Recorder ν) :=
  Checked.loop (fun r => r.pending.length) (flushTurn N time) r

def flushHeld (time : ν) (r : Recorder ν) : Recorder ν :=
  if r.pending = [] then r
  else writeLine N { r with pending := [] } time .output (Utf8.lossy r.pending)

def output (r : Recorder ν) (time : ν) (bytes : List UInt8) : Outcome Empty (Recorder ν) :=
  flushComplete N time { r with lastTime := time, pending := r.pending ++ bytes }

def resize (r : Recorder ν) (time : ν) (cols rows : UInt16) : Recorder ν :=
  (flushHeld N time { r with lastTime := time }).writeLine N time .resize (decimal cols ++ 'x' :: decimal rows)

def input (r : Recorder ν) (time : ν) (bytes : List UInt8) : Recorder ν :=
  (flushHeld N time { r with lastTime := time }).writeLine N time .input (Utf8.lossy bytes)

def marker (r : Recorder ν) (time : ν) (name : List Char) : Recorder ν :=
  (flushHeld N time { r with lastTime := time }).writeLine N time .marker name

def finish (r : Recorder ν) : Recorder ν := flushHeld N r.lastTime r

end Recorder

open Recorder

/-! ### What is recorded -/

inductive Call (ν : Type*) where
  | output (time : ν) (bytes : List UInt8)
  | input (time : ν) (bytes : List UInt8)
  | resize (time : ν) (cols rows : UInt16)
  | marker (time : ν) (name : List Char)

namespace Call

def time : Call ν → ν
  | output time _ => time
  | input time _ => time
  | resize time _ _ => time
  | marker time _ => time

/-- What a call tells: some bytes of output, or another event. -/
def tells : Call ν → List UInt8 ⊕ Event ν
  | output _ bytes => .inl bytes
  | input time bytes => .inr ⟨time, .input, Utf8.lossy bytes⟩
  | resize time cols rows => .inr ⟨time, .resize, decimal cols ++ 'x' :: decimal rows⟩
  | marker time name => .inr ⟨time, .marker, name⟩

end Call

def Recorder.call (N : Numbers ν) (r : Recorder ν) : Call ν → Outcome Empty (Recorder ν)
  | .output time bytes => r.output N time bytes
  | .input time bytes => .ok (r.input N time bytes)
  | .resize time cols rows => .ok (r.resize N time cols rows)
  | .marker time name => .ok (r.marker N time name)

/-- The header of a recording, as every caller writes it. -/
def recordingHeader (width height : UInt16) (poshterity : Option Poshterity) : Header := ⟨2, width, height, poshterity⟩

/-- A recording: its header, and calls. -/
def record (N : Numbers ν) (h : Header) (calls : List (Call ν)) : Outcome Empty (Recorder ν) :=
  Checked.each (Recorder.call N) ((Recorder.new N).writeHeader h) calls

/-- **What was recorded**: the bytes of the output in front of the first other event, and each other event with the bytes of
the output from there to the next one. -/
def said : List (Call ν) → List UInt8 × List (Event ν × List UInt8)
  | [] => ([], [])
  | c :: calls =>
    match c.tells with
    | .inl bytes => (bytes ++ (said calls).1, (said calls).2)
    | .inr e => ([], (e, (said calls).1) :: (said calls).2)

/-- **What events say**: the text of the output in front of the first other event, and each other event with the text of
the output from there to the next one. -/
def told : List (Event ν) → List Char × List (Event ν × List Char)
  | [] => ([], [])
  | e :: events =>
    if e.code = .output then (e.data ++ (told events).1, (told events).2)
    else ([], (e, (told events).1) :: (told events).2)

/-- What was recorded, with the bytes of the output read as a text. -/
def asText (s : List UInt8 × List (Event ν × List UInt8)) : List Char × List (Event ν × List Char) :=
  (Utf8.lossy s.1, s.2.map fun p => (p.1, Utf8.lossy p.2))

/-- The same, with bytes in front. -/
def behind (bytes : List UInt8) (s : List UInt8 × List (Event ν × List UInt8)) : List UInt8 × List (Event ν × List UInt8) :=
  (bytes ++ s.1, s.2)

/-! ### What is written -/

namespace Recorder

variable {N : Numbers ν} {r : Recorder ν}

/-- `r'` has written `events` since `r`. -/
def Wrote (N : Numbers ν) (r r' : Recorder ν) (events : List (Event ν)) : Prop :=
  r'.writer = r.writer ++ Utf8.encode (document (events.map (writeEvent N)))

theorem Wrote.refl (r : Recorder ν) : Wrote N r r [] := (append_nil _).symm

theorem Wrote.trans {r r₁ r₂ : Recorder ν} {events₁ events₂ : List (Event ν)} (h₁ : Wrote N r r₁ events₁)
    (h₂ : Wrote N r₁ r₂ events₂) : Wrote N r r₂ (events₁ ++ events₂) := by
  rw [Wrote, h₂, h₁, List.map_append, document, document, document, List.flatMap_append, encode_append,
    append_assoc]

theorem wrote_writeLine (r : Recorder ν) (time : ν) (code : EventCode) (data : List Char) :
    Wrote N r (r.writeLine N time code data) [⟨time, code, data⟩] := by
  rw [Wrote, writeLine, List.map_singleton, document, List.flatMap_singleton, encode_append, append_assoc]

theorem validPrefix_eq {cs : List Char} {rest : List UInt8} (h : r.pending = encode cs ++ rest) :
    r.validPrefix (encode cs).length = .ok cs := by
  rw [validPrefix, h, split_eq (by rw [List.length_append]; exact Nat.le_add_right _ _), List.take_left,
    bind_ok]
  dsimp only
  rw [fromUtf8_encode]
  rfl

theorem drain_eq {n : ℕ} (h : n ≤ r.pending.length) : r.drain n = .ok { r with pending := r.pending.drop n } := by
  rw [drain, split_eq h]
  rfl

/-- **Output is written as far as it is settled**, and the rest of it is held back. -/
theorem flushComplete_eq (N : Numbers ν) (time : ν) (r : Recorder ν) :
    ∃ r' events, flushComplete N time r = .ok r' ∧ Wrote N r r' events ∧ r'.pending = (settled r.pending).2 ∧
      r'.lastTime = r.lastTime ∧ (∀ e ∈ events, e.time = time ∧ e.code = .output) ∧
      events.flatMap (·.data) = (settled r.pending).1 := by
  induction hlen : r.pending.length using Nat.strong_induction_on generalizing r with
  | _ n ih =>
    have hwritten : ∀ cs, ∀ e ∈ [(⟨time, .output, cs⟩ : Event ν)], e.time = time ∧ e.code = .output := by
      intro cs e he
      rw [List.mem_singleton.1 he]
      exact ⟨rfl, rfl⟩
    rcases fromUtf8From_cases 0 r.pending with ⟨cs, hread, hcs⟩ |
      ⟨cs, a, rest, hcs, ⟨hcut, hread⟩ | ⟨bad, hbad, hread⟩⟩
    · -- all of it is a text
      have hsettled := settled_encode_append cs []
      rw [append_nil, ← hcs, settled_nil, append_nil] at hsettled
      rw [hsettled]
      by_cases hne : cs = []
      · have hturn : flushTurn N time r = .ok (.inr r) := by
          rw [flushTurn, fromUtf8, hread]
          exact if_neg (not_not.2 hne)
        exact ⟨r, [], loop_done hturn, .refl r, by rw [hcs, hne]; rfl, rfl, List.forall_mem_nil _, hne.symm⟩
      · have hturn : flushTurn N time r = .ok (.inr { r.writeLine N time .output cs with pending := [] }) := by
          rw [flushTurn, fromUtf8, hread]
          exact if_pos hne
        exact ⟨_, [⟨time, .output, cs⟩], loop_done hturn, wrote_writeLine r time .output cs, rfl, rfl,
          hwritten cs, append_nil cs⟩
    · -- a character is cut short
      rw [Nat.zero_add] at hread
      have hsettled := settled_encode_append cs (a :: rest)
      rw [← hcs, settled_cut hcut, append_nil] at hsettled
      rw [hsettled]
      by_cases hpos : 0 < (encode cs).length
      · have hle : (encode cs).length ≤ r.pending.length := by
          rw [hcs, List.length_append]
          exact Nat.le_add_right _ _
        have hpending : (r.writeLine N time .output cs).pending = encode cs ++ a :: rest := hcs
        have hdrain := drain_eq (r := r.writeLine N time .output cs) hle
        have hturn : flushTurn N time r = .ok (.inr { r.writeLine N time .output cs with pending := a :: rest }) := by
          rw [flushTurn, fromUtf8, hread]
          dsimp only
          rw [if_pos hpos, validPrefix_eq hcs, bind_ok, hdrain, bind_ok]
          rw [hpending, List.drop_left]
        exact ⟨_, [⟨time, .output, cs⟩], loop_done hturn, wrote_writeLine r time .output cs, rfl, rfl,
          hwritten cs, append_nil cs⟩
      · have hnil : cs = [] := size_eq_zero.1 (Nat.eq_zero_of_not_pos hpos)
        have hturn : flushTurn N time r = .ok (.inr r) := by
          rw [flushTurn, fromUtf8, hread]
          exact if_neg hpos
        exact ⟨r, [], loop_done hturn, .refl r, by rw [hcs, hnil]; rfl, rfl, List.forall_mem_nil _,
          hnil.symm⟩
    · -- some bytes are no character
      rw [Nat.zero_add] at hread
      have hn := first_bad hbad
      have hle : (encode cs).length + bad ≤ r.pending.length := by
        rw [hcs, List.length_append, List.length_cons]
        omega
      obtain ⟨r₁, hr₁⟩ : ∃ r₁ : Recorder ν, r₁ =
        { r.writeLine N time .output (cs ++ [replacement]) with pending := (a :: rest).drop bad } := ⟨_, rfl⟩
      have hbytes : (r.writeLine N time .output (cs ++ [replacement])).pending = encode cs ++ a :: rest := hcs
      have hdrain := drain_eq (r := r.writeLine N time .output (cs ++ [replacement])) hle
      have hturn : flushTurn N time r = .ok (.inl r₁) := by
        rw [flushTurn, fromUtf8, hread]
        dsimp only
        rw [validPrefix_eq hcs, bind_ok, hdrain, bind_ok, hr₁]
        rw [hbytes, ← List.drop_drop, List.drop_left]
      have hpending : r₁.pending = (a :: rest).drop bad := by rw [hr₁]
      have hlt : r₁.pending.length < r.pending.length := by
        rw [hpending, hcs, List.length_drop, List.length_append, List.length_cons]
        omega
      have hwrote : Wrote N r r₁ [⟨time, .output, cs ++ [replacement]⟩] := by
        rw [hr₁]
        exact wrote_writeLine r time .output _
      obtain ⟨r', events, hflush, hwrote', hleft, htime, hevents, hdata⟩ := ih _ (hlen ▸ hlt) r₁ rfl
      have hsettled := settled_encode_append cs (a :: rest)
      rw [← hcs, settled_bad hbad, ← hpending] at hsettled
      rw [hsettled]
      refine ⟨r', _, (loop_next hturn hlt).trans hflush, hwrote.trans hwrote', hleft, ?_, ?_, ?_⟩
      · rw [htime, hr₁]
        rfl
      · exact List.forall_mem_append.2 ⟨hwritten _, hevents⟩
      · rw [List.singleton_append, List.flatMap_cons, hdata, append_assoc]
        rfl

/-- What is held back, as an event. -/
def held (r : Recorder ν) (time : ν) : List (Event ν) :=
  if r.pending = [] then [] else [⟨time, .output, Utf8.lossy r.pending⟩]

theorem flushHeld_eq (N : Numbers ν) (time : ν) (r : Recorder ν) :
    Wrote N r (flushHeld N time r) (r.held time) ∧ (flushHeld N time r).pending = [] ∧
      (flushHeld N time r).lastTime = r.lastTime := by
  rw [flushHeld, held]
  split
  · next hnil => exact ⟨.refl r, hnil, rfl⟩
  · exact ⟨wrote_writeLine { r with pending := [] } time .output _, rfl, rfl⟩

end Recorder

/-! ### What events tell -/

theorem told_output (h : ∀ e ∈ events, e.code = .output) (later : List (Event ν)) :
    told (events ++ later) = (events.flatMap (·.data) ++ (told later).1, (told later).2) := by
  induction events with
  | nil => rfl
  | cons e events ih =>
    obtain ⟨he, hevents⟩ := List.forall_mem_cons.1 h
    rw [List.cons_append, told, if_pos he, ih hevents, List.flatMap_cons, append_assoc]

theorem told_other {e : Event ν} (h : e.code ≠ .output) (later : List (Event ν)) :
    told (e :: later) = ([], (e, (told later).1) :: (told later).2) := by
  rw [told, if_neg h]

theorem told_held (r : Recorder ν) (time : ν) (later : List (Event ν)) :
    told (r.held time ++ later) = (lossy r.pending ++ (told later).1, (told later).2) := by
  rw [held]
  split
  · next hnil => rw [hnil, lossy_nil]; rfl
  · rw [told_output (List.forall_mem_singleton.2 rfl), List.flatMap_singleton]

/-! ### Runs -/

variable {N : Numbers ν}

/-- **One call**: it does not go wrong, and what is told afterwards is told behind what it wrote. -/
theorem recorder_call (N : Numbers ν) (r : Recorder ν) (c : Call ν) :
    ∃ r' events, r.call N c = .ok r' ∧ r.Wrote N r' events ∧ r'.lastTime = c.time ∧
      (∀ e ∈ events, e.time = c.time ∧ e.code.Known) ∧
      ∀ (later : List (Event ν)) (calls : List (Call ν)), told later = asText (behind r'.pending (said calls)) →
        told (events ++ later) = asText (behind r.pending (said (c :: calls))) := by
  have hother : ∀ (e : Event ν) (r₀ r' : Recorder ν) (h₀ : r₀ = { r with lastTime := c.time })
      (hr' : r' = (r₀.flushHeld N c.time).writeLine N e.time e.code e.data), c.tells = .inr e → e.time = c.time →
      e.code ≠ .output → e.code.Known → ∃ events, r.Wrote N r' events ∧ r'.lastTime = c.time ∧
        (∀ e ∈ events, e.time = c.time ∧ e.code.Known) ∧
        ∀ (later : List (Event ν)) (calls : List (Call ν)), told later = asText (behind r'.pending (said calls)) →
          told (events ++ later) = asText (behind r.pending (said (c :: calls))) := by
    rintro e r₀ r' h₀ rfl htells htime hcode hknown
    obtain ⟨hheld, hpending, hlast⟩ := r₀.flushHeld_eq N c.time
    have hsame : r₀.pending = r.pending := by rw [h₀]
    refine ⟨r₀.held c.time ++ [e], ?_, ?_, ?_, ?_⟩
    · have hwrote := hheld.trans (wrote_writeLine (r₀.flushHeld N c.time) e.time e.code e.data)
      rw [Recorder.Wrote, h₀] at hwrote
      rw [h₀]
      exact hwrote
    · show (r₀.flushHeld N c.time).lastTime = c.time
      rw [hlast, h₀]
    · refine List.forall_mem_append.2 ⟨fun e' he' => ?_, List.forall_mem_singleton.2 ⟨htime, hknown⟩⟩
      rw [held] at he'
      split at he'
      · cases he'
      · rw [List.mem_singleton.1 he']
        exact ⟨rfl, rfl⟩
    · intro later calls hlater
      have hnone : ((r₀.flushHeld N c.time).writeLine N e.time e.code e.data).pending = [] := hpending
      rw [hnone] at hlater
      rw [append_assoc, told_held, List.singleton_append, told_other hcode, hlater, hsame, said, htells]
      simp only [asText, behind, append_nil, List.nil_append, List.map_cons]
  cases c with
  | output time bytes =>
    obtain ⟨r', events, hflush, hwrote, hpending, hlast, hevents, hdata⟩ :=
      flushComplete_eq N time { r with lastTime := time, pending := r.pending ++ bytes }
    refine ⟨r', events, hflush, hwrote, hlast, fun e he => ⟨(hevents e he).1, ?_⟩, fun later calls hlater => ?_⟩
    · rw [(hevents e he).2]
      rfl
    · have hsaid : said (.output time bytes :: calls) = behind bytes (said calls) := rfl
      rw [told_output fun e he => (hevents e he).2, hlater, hdata, hpending, hsaid]
      simp only [asText, behind]
      rw [← lossy_append, append_assoc]
  | input time bytes =>
    obtain ⟨events, h⟩ := hother ⟨time, .input, lossy bytes⟩ _ _ rfl rfl rfl rfl nofun rfl
    exact ⟨_, events, rfl, h⟩
  | resize time cols rows =>
    obtain ⟨events, h⟩ := hother ⟨time, .resize, decimal cols ++ 'x' :: decimal rows⟩ _ _ rfl rfl rfl rfl nofun rfl
    exact ⟨_, events, rfl, h⟩
  | marker time name =>
    obtain ⟨events, h⟩ := hother ⟨time, .marker, name⟩ _ _ rfl rfl rfl rfl nofun rfl
    exact ⟨_, events, rfl, h⟩

/-- **A run**: no call goes wrong, and what is written, with what is held back, tells what was recorded. -/
theorem recorder_run {calls : List (Call ν)} (htimes : ∀ c ∈ calls, N.Shows c.time) : ∀ r : Recorder ν,
    ∃ r' events, each (call N) r calls = .ok r' ∧ r.Wrote N r' events ∧
      (N.Shows r.lastTime → N.Shows r'.lastTime) ∧ (∀ e ∈ events, N.Shows e.time ∧ e.code.Known) ∧
      ∀ time, told (events ++ r'.held time) = asText (behind r.pending (said calls)) := by
  induction calls with
  | nil =>
    intro r
    refine ⟨r, [], rfl, .refl r, id, List.forall_mem_nil _, fun time => ?_⟩
    have h := told_held r time []
    rw [append_nil] at h
    rw [List.nil_append, h]
    simp only [told, asText, behind, said, append_nil, List.map_nil]
  | cons c calls ih =>
    intro r
    obtain ⟨htime, htimes⟩ := List.forall_mem_cons.1 htimes
    obtain ⟨r₁, events₁, hcall, hwrote₁, hlast₁, hevents₁, htold₁⟩ := recorder_call N r c
    obtain ⟨r', events, hrun, hwrote, hlast, hevents, htold⟩ := ih htimes r₁
    refine ⟨r', events₁ ++ events, ?_, hwrote₁.trans hwrote, fun _ => hlast (hlast₁ ▸ htime), ?_, fun time => ?_⟩
    · rw [each, hcall, bind_ok, hrun]
    · exact List.forall_mem_append.2 ⟨fun e he => ⟨(hevents₁ e he).1 ▸ htime, (hevents₁ e he).2⟩, hevents⟩
    · rw [append_assoc]
      exact htold₁ _ calls (htold time)

/-- **A document of one line for each record**, which is read back. -/
structure Holds (N : Numbers ν) (h : Header) (doc : List UInt8) (events : List (Event ν)) : Prop where
  records : doc = Utf8.encode (document (writeHeader h :: events.map (writeEvent N)))
  oneLine : ∀ l ∈ writeHeader h :: events.map (writeEvent N), '\n' ∉ l
  readBack : ∃ text, Utf8.fromUtf8 doc = .ok text ∧ Reader.document N text = .ok (h, events)

theorem Holds.of_records (hN : N.Lawful) {h : Header} (hversion : h.version = 2)
    (hevents : ∀ e ∈ events, N.Shows e.time ∧ e.code.Known) {doc : List UInt8}
    (hdoc : doc = encode (document (writeHeader h :: events.map (writeEvent N)))) : Holds N h doc events := by
  refine ⟨hdoc, List.forall_mem_cons.2 ⟨(isRecord_writeHeader hN h).oneLine, fun l hl => ?_⟩, _, ?_,
    Reader.document_of_lines hN hversion hevents⟩
  · obtain ⟨e, he, rfl⟩ := List.mem_map.1 hl
    exact (isRecord_writeEvent (hevents e he).1).oneLine
  · rw [hdoc, fromUtf8_encode]

theorem Recorder.Wrote.records {h : Header} {r : Recorder ν} (hwrote : ((new N).writeHeader h).Wrote N r events) :
    r.writer = encode (document (Recording.writeHeader h :: events.map (writeEvent N))) := by
  rw [hwrote, document_cons, encode_append]
  exact append_assoc _ _ _

/-- **Recordings read back what was recorded.**  No call goes wrong; at any time, and when the recorder is finished, the
document has one line for each record and is read back without an error; and the events that are read, with what is
still held back, tell what was recorded: the other events in the order of the calls, and between them the text of the
output, read leniently. -/
theorem recording_read_back (hN : N.Lawful) (width height : UInt16) (poshterity : Option Poshterity)
    {calls : List (Call ν)} (htimes : ∀ c ∈ calls, N.Shows c.time) :
    ∃ r events, record N (recordingHeader width height poshterity) calls = .ok r ∧
      Holds N (recordingHeader width height poshterity) r.writer events ∧
      Holds N (recordingHeader width height poshterity) (r.finish N).writer (events ++ r.held r.lastTime) ∧
      told (events ++ r.held r.lastTime) = asText (said calls) := by
  obtain ⟨r, events, hrun, hwrote, hlast, hevents, htold⟩ :=
    recorder_run htimes ((Recorder.new N).writeHeader (recordingHeader width height poshterity))
  have hheld : ∀ e ∈ r.held r.lastTime, N.Shows e.time ∧ e.code.Known := by
    intro e he
    rw [Recorder.held] at he
    split at he
    · cases he
    · rw [List.mem_singleton.1 he]
      exact ⟨hlast hN.zero, rfl⟩
  refine ⟨r, events, hrun, .of_records hN rfl hevents hwrote.records, ?_, htold _⟩
  exact .of_records hN rfl (List.forall_mem_append.2 ⟨hevents, hheld⟩)
    (hwrote.trans (r.flushHeld_eq N r.lastTime).1).records

def wholeNumbers : Numbers ℕ where
  zero := 0
  parse s := if s ≠ [] ∧ s.all Char.isDigit then some (Nat.ofDigitChars 10 s 0) else none
  display := Nat.toDigits 10
  toU16 n := if n < 65536 then some (UInt16.ofNat n) else none

theorem wholeNumbers_parse (n : ℕ) : wholeNumbers.parse (Nat.toDigits 10 n) = some n := by
  have hdigits : (Nat.toDigits 10 n).all Char.isDigit :=
    List.all_eq_true.2 fun c hc => Nat.isDigit_of_mem_toDigits (by decide) (by decide) hc
  rw [wholeNumbers]
  dsimp only
  rw [if_pos ⟨Nat.toDigits_ne_nil, hdigits⟩, Nat.ofDigitChars_ten_toDigits]

theorem wholeNumbers_shows (n : ℕ) : wholeNumbers.Shows n := reads_digits (wholeNumbers_parse n)

theorem wholeNumbers_lawful : wholeNumbers.Lawful where
  zero := wholeNumbers_shows 0
  decimal n := by
    refine ⟨n.toNat, wholeNumbers_parse _, ?_⟩
    rw [wholeNumbers]
    dsimp only
    rw [if_pos n.toNat_lt, UInt16.ofNat_toNat]

/-- Half of a character, a marker, and a byte with which no character begins. -/
theorem recording_read_back_cut :
    ∃ r events, record wholeNumbers (recordingHeader 80 24 none)
        [.output 1 [0x61, 0xC3], .marker 2 "mid".toList, .output 3 [0xFF]] = .ok r ∧
      Holds wholeNumbers (recordingHeader 80 24 none) r.writer events ∧
      Holds wholeNumbers (recordingHeader 80 24 none) (r.finish wholeNumbers).writer (events ++ r.held r.lastTime) ∧
      told (events ++ r.held r.lastTime) =
        asText (said [.output 1 [0x61, 0xC3], .marker 2 "mid".toList, .output 3 [0xFF]]) :=
  recording_read_back wholeNumbers_lawful 80 24 none fun c _ => wholeNumbers_shows c.time

/-- **Input that is no text is not recorded as it is**: the byte `0xFF` comes back as the bytes of U+FFFD. -/
theorem input_replaced :
    ∃ r e text, record wholeNumbers (recordingHeader 80 24 none) [.input 1 [0xFF]] = .ok r ∧
      Utf8.fromUtf8 r.writer = .ok text ∧ Reader.document wholeNumbers text = .ok (recordingHeader 80 24 none, [e]) ∧
      e.code = .input ∧ Utf8.encode e.data = [0xEF, 0xBF, 0xBD] ∧ Utf8.encode e.data ≠ [0xFF] := by
  have hwrote : ((Recorder.new wholeNumbers).writeHeader (recordingHeader 80 24 none)).Wrote wholeNumbers
      (((Recorder.new wholeNumbers).writeHeader (recordingHeader 80 24 none)).input wholeNumbers 1 [0xFF])
      [⟨1, .input, [Utf8.replacement]⟩] := Recorder.wrote_writeLine _ _ _ _
  have hknown : ∀ e ∈ [(⟨1, .input, [Utf8.replacement]⟩ : Event ℕ)], wholeNumbers.Shows e.time ∧ e.code.Known :=
    List.forall_mem_singleton.2 ⟨wholeNumbers_shows 1, rfl⟩
  obtain ⟨-, -, text, htext, hread⟩ := Holds.of_records wholeNumbers_lawful (h := recordingHeader 80 24 none) rfl hknown
    hwrote.records
  exact ⟨_, _, text, rfl, htext, hread, rfl, by decide, by decide⟩

end Posh.Recording
