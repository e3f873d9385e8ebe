/-
**The reassembly of records from a stream socket.**

A connection's bytes arrive in pieces that have nothing to do with the records in them.  A buffer takes the pieces,
and hands out the records one by one: it remembers how far it has read, and gives the room back when the next piece
comes.  Records of a kind it does not know are skipped; a header that announces more than the kinds of this
connection allow is an error.

What a call of `next` answers depends on the bytes that have arrived, and on how many records were handed out:
not on where the bytes were cut, nor on the calls in between.
-/

import Posh.IpcRecords

set_option autoImplicit false

namespace Posh

open List (append_assoc cons_append length_append length_cons)
open WordBytes

variable {κ : Type}

/-! ### Records -/

/-- A space of kinds of records; a length below the bound is a length of 32 bits. -/
structure FrameTag (κ : Type) where
  /-- names the protocol in an error -/
  label : String
  /-- the most bytes a payload may have -/
  maxLen : ℕ
  /-- the kind of a byte, if it is known -/
  fromTagByte : UInt8 → Option κ
  maxLen_lt : maxLen < 2 ^ 32

/-- The kinds of the records between a daemon and its clients. -/
def IpcTag.frameTag : FrameTag IpcTag where
  label := "frame"
  maxLen := maxFrameLen
  fromTagByte := IpcTag.fromByte
  maxLen_lt := by decide

structure TaggedFrame (κ : Type) where
  tag : κ
  payload : Bytes
  deriving DecidableEq, Repr

/-- A record as it is on the wire, of a known kind or not. -/
structure RawFrame where
  tagByte : UInt8
  payload : Bytes
  deriving DecidableEq, Repr

def headerLen : ℕ := 5

/-- The kind, the length of the payload in four bytes, and the payload. -/
def RawFrame.encode (f : RawFrame) : Bytes := f.tagByte :: (WordBytes.le 4 f.payload.length ++ f.payload)

@[simp] theorem RawFrame.length_encode (f : RawFrame) : f.encode.length = headerLen + f.payload.length := by
  rw [encode, length_cons, length_append, length_le, headerLen]
  omega

/-- The words of records, one after the other. -/
def encodeFrames (frames : List RawFrame) : Bytes := frames.flatMap RawFrame.encode

@[simp] theorem encodeFrames_nil : encodeFrames [] = [] := rfl

@[simp] theorem encodeFrames_cons (f : RawFrame) (frames : List RawFrame) :
    encodeFrames (f :: frames) = f.encode ++ encodeFrames frames := List.flatMap_cons

@[simp] theorem encodeFrames_append (frames more : List RawFrame) :
    encodeFrames (frames ++ more) = encodeFrames frames ++ encodeFrames more := List.flatMap_append

/-- A record of a known kind. -/
def RawFrame.known (T : FrameTag κ) (f : RawFrame) : Option (TaggedFrame κ) :=
  (T.fromTagByte f.tagByte).map fun tag => { tag, payload := f.payload }

/-- The records of known kinds. -/
def knowns (T : FrameTag κ) (frames : List RawFrame) : List (TaggedFrame κ) := frames.filterMap (RawFrame.known T)

@[simp] theorem knowns_append (T : FrameTag κ) (frames more : List RawFrame) :
    knowns T (frames ++ more) = knowns T frames ++ knowns T more := List.filterMap_append

/-- The records that are whole in the first `n` bytes. -/
def whole : List RawFrame → ℕ → List RawFrame
  | [], _ => []
  | f :: frames, n => if f.encode.length ≤ n then f :: whole frames (n - f.encode.length) else []

theorem whole_append (frames rest : List RawFrame) (n : ℕ) :
    whole (frames ++ rest) ((encodeFrames frames).length + n) = frames ++ whole rest n := by
  induction frames with
  | nil => rw [encodeFrames_nil, List.length_nil, Nat.zero_add, List.nil_append, List.nil_append]
  | cons f frames ih =>
    rw [encodeFrames_cons, length_append, cons_append, whole, if_pos (by omega), cons_append, Nat.add_assoc,
      Nat.add_sub_cancel_left, ih]

/-! ### The buffer -/

/-- The bytes that have arrived, and how many of them were read. -/
structure FrameBuffer where
  buf : Bytes := []
  head : ℕ := 0
  head_le : head ≤ buf.length := by exact Nat.zero_le _

namespace FrameBuffer

/-- The bytes that were not read yet. -/
def avail (b : FrameBuffer) : Bytes := b.buf.drop b.head

theorem length_avail (b : FrameBuffer) : b.avail.length = b.buf.length - b.head := List.length_drop

/-- The room of what was read is given back. -/
def compact (b : FrameBuffer) : FrameBuffer where
  buf := b.buf.drop b.head

/-- A piece arrives. -/
def feed (b : FrameBuffer) (data : Bytes) : FrameBuffer where
  buf := b.compact.buf ++ data

/-- Some bytes more were read. -/
def advance (b : FrameBuffer) (n : ℕ) (h : n ≤ b.avail.length) : FrameBuffer where
  buf := b.buf
  head := b.head + n
  head_le := by
    have hle := b.head_le
    rw [length_avail] at h
    omega

theorem avail_advance (b : FrameBuffer) (n : ℕ) (h : n ≤ b.avail.length) :
    (b.advance n h).avail = b.avail.drop n := (List.drop_drop ..).symm

@[simp] theorem avail_feed (b : FrameBuffer) (data : Bytes) : (b.feed data).avail = b.avail ++ data := rfl

/-- The error of a length past the bound. -/
def tooLong (T : FrameTag κ) (len : ℕ) : String := s!"{T.label} length {len} exceeds maximum {T.maxLen}"

/-- **The next record of a known kind**, if it is whole. -/
def next (T : FrameTag κ) (b : FrameBuffer) : Except String (Option (TaggedFrame κ)) × FrameBuffer :=
  match havail : b.avail with
  | tagByte :: l₀ :: l₁ :: l₂ :: l₃ :: rest =>
    let len := WordBytes.ofLe [l₀, l₁, l₂, l₃]
    if len > T.maxLen then (.error (tooLong T len), b)
    else if hlen : rest.length < len then (.ok none, b)
    else
      let read := b.advance (headerLen + len) (by
        rw [havail]
        simp only [List.length_cons, headerLen]
        omega)
      match T.fromTagByte tagByte with
      | some tag => (.ok (some { tag, payload := rest.take len }), read)
      | none => next T read
  | _ => (.ok none, b)
termination_by b.avail.length
decreasing_by
  rw [avail_advance, havail, List.length_drop]
  simp only [List.length_cons, headerLen]
  omega

/-! ### What a call does -/

variable {T : FrameTag κ} {b : FrameBuffer} {body : Bytes}

theorem next_short (h : b.avail.length < headerLen) : b.next T = (.ok none, b) := by
  unfold next
  split
  · next havail =>
      rw [havail] at h
      simp only [length_cons, headerLen] at h
      omega
  · rfl

theorem next_tooLong {tagByte : UInt8} {n : ℕ} (hn : n < 2 ^ 32) (hmax : T.maxLen < n)
    (h : b.avail = tagByte :: (le 4 n ++ body)) : b.next T = (.error (tooLong T n), b) := by
  have hofLe : ofLe (le 4 n) = n := by rw [ofLe_le, Nat.mod_eq_of_lt (by omega)]
  obtain ⟨l₀, l₁, l₂, l₃, hle⟩ : ∃ l₀ l₁ l₂ l₃, le 4 n = [l₀, l₁, l₂, l₃] := ⟨_, _, _, _, rfl⟩
  rw [hle] at h hofLe
  rw [next]
  split
  · next tag' m₀ m₁ m₂ m₃ rest havail =>
      rw [h] at havail
      cases havail
      simp only [hofLe, if_pos hmax]
  · next hno => exact absurd h (hno _ _ _ _ _ _)

/-- **Behind a header within the bound**: the buffer waits for the payload, or reads the record. -/
theorem next_header {f : RawFrame} (hmax : f.payload.length ≤ T.maxLen)
    (h : b.avail = f.tagByte :: (le 4 f.payload.length ++ body)) :
    (body.length < f.payload.length → b.next T = (.ok none, b)) ∧
      (f.payload.length ≤ body.length → ∃ b' : FrameBuffer, b'.avail = body.drop f.payload.length ∧
        b.next T = match T.fromTagByte f.tagByte with
          | some tag => (.ok (some { tag, payload := body.take f.payload.length }), b')
          | none => b'.next T) := by
  have hlt := T.maxLen_lt
  have hofLe : ofLe (le 4 f.payload.length) = f.payload.length := by
    rw [ofLe_le, Nat.mod_eq_of_lt (by omega)]
  obtain ⟨l₀, l₁, l₂, l₃, hle⟩ : ∃ l₀ l₁ l₂ l₃, le 4 f.payload.length = [l₀, l₁, l₂, l₃] :=
    ⟨_, _, _, _, rfl⟩
  rw [hle] at h hofLe
  have hnot : ¬ f.payload.length > T.maxLen := Nat.not_lt.2 hmax
  constructor
  · intro hshort
    rw [next]
    split
    · next tag' m₀ m₁ m₂ m₃ rest havail =>
        rw [h] at havail
        cases havail
        have hshort' : ([].append body).length < f.payload.length := hshort
        simp only [hofLe, if_neg hnot, dif_pos hshort']
    · rfl
  · intro hwhole
    have hle' : headerLen + f.payload.length ≤ b.avail.length := by
      rw [h]
      simp only [cons_append, List.nil_append, length_cons, headerLen]
      omega
    refine ⟨b.advance (headerLen + f.payload.length) hle', ?_, ?_⟩
    · rw [avail_advance, h, headerLen, Nat.add_comm]
      rfl
    · rw [next]
      split
      · next tag' m₀ m₁ m₂ m₃ rest havail =>
          rw [h] at havail
          cases havail
          have hwhole' : ¬ ([].append body).length < f.payload.length := Nat.not_lt.2 hwhole
          simp only [hofLe, if_neg hnot, dif_neg hwhole']
          rfl
      · next hno => exact absurd h (hno _ _ _ _ _ _)

end FrameBuffer

/-! ### What a call answers -/

/-- The bytes from a header on that announces too much. -/
structure Oversize (T : FrameTag κ) where
  tagByte : UInt8
  len : ℕ
  body : Bytes
  tooMuch : T.maxLen < len
  len_lt : len < 2 ^ 32

def Oversize.bytes {T : FrameTag κ} (o : Oversize T) : Bytes := o.tagByte :: (WordBytes.le 4 o.len ++ o.body)

/-- What follows the records of a stream: nothing, or a header that announces too much. -/
def tailBytes {T : FrameTag κ} (tail : Option (Oversize T)) : Bytes := tail.elim [] Oversize.bytes

/-- **What a call answers**, `n` bytes behind the beginning of `frames`, of which none was handed out: the first of a
known kind that is whole, the error of the header behind them, or nothing yet. -/
def answer (T : FrameTag κ) (frames : List RawFrame) (tail : Option (Oversize T)) (n : ℕ) :
    Except String (Option (TaggedFrame κ)) :=
  match (knowns T (whole frames n)).head?, tail with
  | some frame, _ => .ok (some frame)
  | none, some o =>
    if (encodeFrames frames).length + headerLen ≤ n then .error (FrameBuffer.tooLong T o.len) else .ok none
  | none, none => .ok none

/-- What an answer hands out. -/
def handed : Except String (Option (TaggedFrame κ)) → List (TaggedFrame κ)
  | .ok (some frame) => [frame]
  | _ => []

section Answer

variable {T : FrameTag κ} {frames : List RawFrame} {tail : Option (Oversize T)} {f : RawFrame} {n : ℕ}

theorem answer_waits (h : n < f.encode.length) : answer T (f :: frames) tail n = .ok none := by
  unfold answer
  rw [whole, if_neg (Nat.not_le.2 h)]
  cases tail with
  | none => rfl
  | some o =>
    rw [encodeFrames_cons, length_append]
    exact if_neg (by omega)

theorem answer_skips (h : f.known T = none) : answer T (f :: frames) tail (f.encode.length + n) = answer T frames tail n := by
  have hknowns : knowns T (whole (f :: frames) (f.encode.length + n)) = knowns T (whole frames n) := by
    rw [whole, if_pos (Nat.le_add_right _ _), Nat.add_sub_cancel_left, knowns, List.filterMap_cons_none h]
    rfl
  unfold answer
  rw [hknowns, encodeFrames_cons, length_append, Nat.add_assoc]
  cases (knowns T (whole frames n)).head? with
  | some frame => rfl
  | none =>
    cases tail with
    | none => rfl
    | some o => simp only [Nat.add_le_add_iff_left]

theorem answer_hands {frame : TaggedFrame κ} (h : f.known T = some frame) :
    answer T (f :: frames) tail (f.encode.length + n) = .ok (some frame) := by
  unfold answer
  rw [whole, if_pos (Nat.le_add_right _ _), knowns, List.filterMap_cons_some h]
  rfl

end Answer

theorem avail_header {avail unfed : Bytes} {tagByte : UInt8} {len : ℕ} {body : Bytes}
    (h : avail ++ unfed = tagByte :: (le 4 len ++ body)) (hlong : headerLen ≤ avail.length) :
    ∃ rest, avail = tagByte :: (le 4 len ++ rest) ∧ rest ++ unfed = body := by
  have hprefix : (tagByte :: le 4 len) <+: avail := by
    have hwhole : (tagByte :: le 4 len) <+: avail ++ unfed := by
      rw [h]
      exact ⟨body, rfl⟩
    refine List.prefix_of_prefix_length_le hwhole (List.prefix_append _ _) ?_
    rw [length_cons, length_le]
    exact hlong
  obtain ⟨rest, rfl⟩ := hprefix
  refine ⟨rest, rfl, ?_⟩
  rw [append_assoc] at h
  have hcancel : (tagByte :: le 4 len) ++ (rest ++ unfed) = (tagByte :: le 4 len) ++ body := h
  exact List.append_cancel_left hcancel

/-- **What a call hands out, and what it leaves.** -/
theorem FrameBuffer.next_spec {T : FrameTag κ} {rest : List RawFrame} {tail : Option (Oversize T)} {unfed : Bytes}
    (hrest : ∀ f ∈ rest, f.payload.length ≤ T.maxLen) {b : FrameBuffer}
    (h : b.avail ++ unfed = encodeFrames rest ++ tailBytes tail) :
    (b.next T).1 = answer T rest tail b.avail.length ∧
      ∃ done rest', rest = done ++ rest' ∧ (b.next T).2.avail ++ unfed = encodeFrames rest' ++ tailBytes tail ∧
        knowns T done = handed (b.next T).1 := by
  induction rest generalizing b with
  | nil =>
    cases tail with
    | none =>
      have hnil : b.avail = [] := (List.append_eq_nil_iff.1 h).1
      rw [next_short (by rw [hnil]; exact Nat.zero_lt_succ _)]
      exact ⟨rfl, [], [], rfl, h, rfl⟩
    | some o =>
      by_cases hshort : b.avail.length < headerLen
      · rw [next_short hshort]
        refine ⟨?_, [], [], rfl, h, rfl⟩
        exact (if_neg (by rw [encodeFrames_nil, List.length_nil]; omega)).symm
      · obtain ⟨body, havail, -⟩ := avail_header (h : b.avail ++ unfed = o.bytes) (Nat.le_of_not_lt hshort)
        rw [next_tooLong o.len_lt o.tooMuch havail]
        refine ⟨?_, [], [], rfl, h, rfl⟩
        exact (if_pos (by rw [encodeFrames_nil, List.length_nil]; omega)).symm
  | cons f rest ih =>
    rw [encodeFrames_cons, append_assoc] at h
    by_cases hshort : b.avail.length < headerLen
    · rw [next_short hshort, answer_waits (by rw [f.length_encode]; omega)]
      refine ⟨rfl, [], f :: rest, rfl, ?_, rfl⟩
      rw [encodeFrames_cons, append_assoc]
      exact h
    · have hlong : b.avail ++ unfed =
          f.tagByte :: (le 4 f.payload.length ++ (f.payload ++ (encodeFrames rest ++ tailBytes tail))) := by
        rw [h, RawFrame.encode, cons_append, append_assoc]
      obtain ⟨body, havail, hbody⟩ := avail_header hlong (Nat.le_of_not_lt hshort)
      have hlen : b.avail.length = headerLen + body.length := by
        rw [havail, length_cons, length_append, length_le, headerLen]
        omega
      obtain ⟨hwaits, hreads⟩ := next_header (hrest f List.mem_cons_self) havail
      by_cases hpart : body.length < f.payload.length
      · rw [hwaits hpart, answer_waits (by rw [f.length_encode]; omega)]
        refine ⟨rfl, [], f :: rest, rfl, ?_, rfl⟩
        rw [encodeFrames_cons, append_assoc]
        exact h
      · -- the payload is there: the record is handed out, or the next one is looked at
        have hwhole := Nat.le_of_not_lt hpart
        obtain ⟨b', havail', hnext⟩ := hreads hwhole
        have hprefix : f.payload <+: body :=
          List.prefix_of_prefix_length_le (List.prefix_append f.payload _) (hbody ▸ List.prefix_append body unfed) hwhole
        obtain ⟨more, rfl⟩ := hprefix
        rw [List.drop_left'  rfl] at havail'
        rw [List.take_left' rfl] at hnext
        have hunfed : b'.avail ++ unfed = encodeFrames rest ++ tailBytes tail := by
          rw [append_assoc] at hbody
          rw [havail']
          exact List.append_cancel_left hbody
        have hn : b.avail.length = f.encode.length + b'.avail.length := by
          rw [hlen, f.length_encode, havail', length_append, Nat.add_assoc]
        rw [hnext, hn]
        cases hknown : T.fromTagByte f.tagByte with
        | some tag =>
          have hframe : f.known T = some { tag, payload := f.payload } := by rw [RawFrame.known, hknown]; rfl
          refine ⟨(answer_hands hframe).symm, [f], rest, rfl, hunfed, ?_⟩
          rw [knowns, List.filterMap_cons_some hframe]
          rfl
        | none =>
          have hframe : f.known T = none := by rw [RawFrame.known, hknown]; rfl
          obtain ⟨hanswer, done, rest', heq, hunfed', hdone⟩ :=
            ih (fun g hg => hrest g (List.mem_cons_of_mem f hg)) hunfed
          refine ⟨hanswer.trans (answer_skips hframe).symm, f :: done, rest', ?_, hunfed', ?_⟩
          · rw [heq, cons_append]
          · rw [knowns, List.filterMap_cons_none hframe]
            exact hdone

/-! ### Runs -/

/-- A buffer, with the bytes that arrived and what the calls answered. -/
structure BufferRun (κ : Type) where
  buffer : FrameBuffer := {}
  fed : Bytes := []
  answers : List (Except String (Option (TaggedFrame κ))) := []

namespace BufferRun

inductive Act where
  /-- a piece arrives -/
  | feed (data : Bytes)
  | next

def step (T : FrameTag κ) (s : BufferRun κ) : Act → Option (BufferRun κ)
  | .feed data => some { s with buffer := s.buffer.feed data, fed := s.fed ++ data }
  | .next => some { s with buffer := (s.buffer.next T).2, answers := s.answers ++ [(s.buffer.next T).1] }

/-- What was handed out. -/
def yielded (s : BufferRun κ) : List (TaggedFrame κ) := s.answers.flatMap handed

/-- **Where the buffer is in the stream**: some records were read, and those of known kinds handed out. -/
def Reads (T : FrameTag κ) (frames : List RawFrame) (tail : Option (Oversize T)) (s : BufferRun κ) : Prop :=
  ∀ unfed, s.fed ++ unfed = encodeFrames frames ++ tailBytes tail → ∃ done rest, frames = done ++ rest ∧
    s.buffer.avail ++ unfed = encodeFrames rest ++ tailBytes tail ∧ s.yielded = knowns T done

variable {T : FrameTag κ} {frames : List RawFrame} {tail : Option (Oversize T)} {s t : BufferRun κ}

theorem reads_start : Reads T frames tail {} := fun _ h => ⟨[], frames, rfl, h, rfl⟩

theorem Reads.step (h : Reads T frames tail s) (hframes : ∀ f ∈ frames, f.payload.length ≤ T.maxLen) {a : Act}
    (hstep : step T s a = some t) : Reads T frames tail t := by
  cases a with
  | feed data =>
    cases hstep
    intro unfed hfed
    rw [append_assoc] at hfed
    obtain ⟨done, rest, heq, havail, hyielded⟩ := h (data ++ unfed) hfed
    refine ⟨done, rest, heq, ?_, hyielded⟩
    rw [FrameBuffer.avail_feed, append_assoc]
    exact havail
  | next =>
    cases hstep
    intro unfed hfed
    obtain ⟨done, rest, rfl, havail, hyielded⟩ := h unfed hfed
    obtain ⟨-, read, rest', rfl, hunfed, hread⟩ :=
      FrameBuffer.next_spec (fun f hf => hframes f (List.mem_append_right _ hf)) havail
    refine ⟨done ++ read, rest', (append_assoc ..).symm, hunfed, ?_⟩
    show (s.answers ++ [(s.buffer.next T).1]).flatMap handed = _
    rw [List.flatMap_append, List.flatMap_singleton, knowns_append, hread]
    exact congrArg (· ++ _) hyielded

/-- What `next` answers after a run: the first record that arrived and was not handed out, or the error of the header
behind all records, or nothing yet. -/
def answerNow (T : FrameTag κ) (frames : List RawFrame) (tail : Option (Oversize T)) (s : BufferRun κ) :
    Except String (Option (TaggedFrame κ)) :=
  match (knowns T (whole frames s.fed.length))[s.yielded.length]?, tail with
  | some frame, _ => .ok (some frame)
  | none, some o =>
    if (encodeFrames frames).length + headerLen ≤ s.fed.length then .error (FrameBuffer.tooLong T o.len) else .ok none
  | none, none => .ok none

theorem Reads.answers (h : Reads T frames tail s) (hframes : ∀ f ∈ frames, f.payload.length ≤ T.maxLen)
    (hfed : s.fed <+: encodeFrames frames ++ tailBytes tail) :
    s.yielded <+: knowns T (whole frames s.fed.length) ∧ (s.buffer.next T).1 = answerNow T frames tail s := by
  obtain ⟨unfed, hunfed⟩ := hfed
  obtain ⟨done, rest, rfl, havail, hyielded⟩ := h unfed hunfed
  have hlen : s.fed.length = (encodeFrames done).length + s.buffer.avail.length := by
    have hall := congrArg List.length hunfed
    have hrest := congrArg List.length havail
    simp only [length_append, encodeFrames_append] at hall hrest
    omega
  have harrived : knowns T (whole (done ++ rest) s.fed.length) =
      knowns T done ++ knowns T (whole rest s.buffer.avail.length) := by
    rw [hlen, whole_append, knowns_append]
  obtain ⟨hanswer, -⟩ := FrameBuffer.next_spec (fun f hf => hframes f (List.mem_append_right _ hf)) havail
  constructor
  · rw [harrived, hyielded]
    exact List.prefix_append _ _
  · have hcount : (encodeFrames rest).length + headerLen ≤ s.buffer.avail.length ↔
        (encodeFrames (done ++ rest)).length + headerLen ≤ s.fed.length := by
      rw [encodeFrames_append, length_append, hlen]
      omega
    rw [hanswer]
    unfold answerNow answer
    rw [harrived, hyielded, List.getElem?_append_right (Nat.le_refl _), Nat.sub_self, ← List.head?_eq_getElem?]
    simp only [hcount]

theorem whole_of_le {n : ℕ} (h : (encodeFrames frames).length ≤ n) : whole frames n = frames := by
  obtain ⟨k, rfl⟩ := Nat.exists_eq_add_of_le h
  have hall := whole_append frames [] k
  rw [List.append_nil] at hall
  rw [hall, whole, List.append_nil]

/-- **The framing does not depend on the chunks.**  A stream is records within the bound, of kinds that are known or
not, and perhaps a header behind them that announces too much.  After any feeds of its bytes, cut anywhere, and any
calls between them: what was handed out are the first of the records of known kinds that have arrived whole, in order;
the next call hands out the one after them; when there is none, it is the error of the header, as soon as that header
has arrived, and nothing otherwise.  So when all records have arrived and a call hands nothing out, all records of
known kinds were handed out. -/
theorem framing_chunk_independent {acts : List Act} (hframes : ∀ f ∈ frames, f.payload.length ≤ T.maxLen)
    (hrun : Runs.exec (BufferRun.step T) {} acts = some s)
    (hfed : s.fed <+: encodeFrames frames ++ tailBytes tail) :
    s.yielded <+: knowns T (whole frames s.fed.length) ∧ (s.buffer.next T).1 = answerNow T frames tail s ∧
      ((encodeFrames frames).length ≤ s.fed.length → (∀ frame, (s.buffer.next T).1 ≠ .ok (some frame)) →
        s.yielded = knowns T frames) := by
  have hreads : Reads T frames tail s :=
    Runs.exec_invariant (fun _ _ _ h hstep => h.step hframes hstep) reads_start hrun
  obtain ⟨hyielded, hanswer⟩ := hreads.answers hframes hfed
  refine ⟨hyielded, hanswer, fun hall hnone => ?_⟩
  rw [whole_of_le hall] at hyielded
  refine hyielded.eq_of_length_le ?_
  -- a record that was not handed out would be the answer
  by_contra hless
  obtain ⟨frame, hframe⟩ : ∃ frame, (knowns T frames)[s.yielded.length]? = some frame :=
    ⟨_, List.getElem?_eq_getElem (Nat.lt_of_not_le hless)⟩
  refine hnone frame ?_
  rw [hanswer]
  unfold answerNow
  rw [whole_of_le hall, hframe]

/-- Two records with one of an unknown kind between them, and a header that announces too much. -/
def strangeFrames : List RawFrame := [⟨0, [0x61]⟩, ⟨99, [0x62, 0x63]⟩, ⟨7, []⟩]

def strangeTail : Oversize IpcTag.frameTag where
  tagByte := 0
  len := maxFrameLen + 1
  body := []
  tooMuch := by decide
  len_lt := by decide

/-- The first pieces end within the second record. -/
def strangePieces : List Act :=
  [.feed [0, 1, 0, 0], .next, .feed [0, 0x61, 99, 2, 0], .next, .next]

/-- The first record was handed out, and the answer is nothing yet. -/
theorem framing_chunk_independent_strange :
    ∃ s, Runs.exec (BufferRun.step IpcTag.frameTag) {} strangePieces = some s ∧
      s.yielded <+: [⟨.input, [0x61]⟩] ∧
      (s.buffer.next IpcTag.frameTag).1 = answerNow IpcTag.frameTag strangeFrames (some strangeTail) s := by
  obtain ⟨s, hs, hfed⟩ : ∃ s, Runs.exec (BufferRun.step IpcTag.frameTag) {} strangePieces = some s ∧
      s.fed = [0, 1, 0, 0, 0, 0x61, 99, 2, 0] := ⟨_, rfl, rfl⟩
  have hframes : ∀ f ∈ strangeFrames, f.payload.length ≤ IpcTag.frameTag.maxLen := by decide
  have hprefix : s.fed <+: encodeFrames strangeFrames ++ tailBytes (some strangeTail) := by
    rw [hfed]
    decide
  obtain ⟨hyielded, hanswer, -⟩ := framing_chunk_independent hframes hs hprefix
  rw [hfed] at hyielded
  exact ⟨s, hs, hyielded, hanswer⟩

end BufferRun

end Posh
