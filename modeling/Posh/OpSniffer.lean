/-
**Sniffing the requests of a forwarded agent channel.**

The sniffer reads an SSH agent request stream, `[u32 length][type][body]` after `[u32 length][type][body]`,
in whatever pieces the channel delivers it.  It gathers the five bytes in front of each body, reports
what the type byte asks for, and counts the body down without keeping it.  Its loop takes as many
bytes at a time as it can; here it is shown to be the machine that takes them one by one, so that
where the stream is cut cannot matter.
-/

import Posh.Lib.Framing
import Posh.Lib.WordBytes

set_option autoImplicit false

/-! ### The request types -/

/-- What the remote asked the forwarded agent to do. -/
inductive AgentOp where
  | listKeys
  | sign
  | addKey
  | removeKey
  | removeAllKeys
  | addSmartcardKey
  | removeSmartcardKey
  | lock
  | unlock
  | extension
  | other (kind : UInt8)
deriving DecidableEq, Repr

/-- The operation a request type stands for. -/
def AgentOp.classify (kind : UInt8) : AgentOp :=
  match kind.toNat with
  | 11 => .listKeys
  | 13 => .sign
  | 17 | 25 => .addKey
  | 18 => .removeKey
  | 19 => .removeAllKeys
  | 20 | 26 => .addSmartcardKey
  | 21 => .removeSmartcardKey
  | 22 => .lock
  | 23 => .unlock
  | 27 => .extension
  | _ => .other kind

/-! ### The sniffer -/

/-- The bytes in front of a body: the length and the type. -/
def agentRequestHeader : ℕ := 5

/-- The sniffer of one channel.  Between two pushes the header in `head` is never complete. -/
structure OpSniffer where
  /-- the part of the current header that has arrived -/
  head : List UInt8
  /-- the bytes of the current body still to be skipped -/
  skip : ℕ
  head_lt : head.length < agentRequestHeader

namespace OpSniffer

open WordBytes

theorem ext' {s t : OpSniffer} (hhead : s.head = t.head) (hskip : s.skip = t.skip) : s = t := by
  cases s
  cases t
  cases hhead
  cases hskip
  rfl

def new : OpSniffer := ⟨[], 0, by decide⟩

/-- The sniffer behind a header: the body is to be skipped. -/
def skipping (n : ℕ) : OpSniffer := ⟨[], n, by decide⟩

/-- The sniffer with more of a header that is still incomplete. -/
def keep (s : OpSniffer) (v : List UInt8) (h : (s.head ++ v).length < agentRequestHeader) :
    OpSniffer :=
  ⟨s.head ++ v, s.skip, h⟩

/-- Feeds channel bytes: the operations of the headers that became complete, and the sniffer after.
A length of zero leaves nothing to skip. -/
def push (s : OpSniffer) : List UInt8 → List AgentOp × OpSniffer
  | [] => ([], s)
  | b :: bs =>
    if 0 < s.skip then
      -- mid-body: discard as much of it as has arrived
      push { s with skip := s.skip - min s.skip (b :: bs).length }
        ((b :: bs).drop (min s.skip (b :: bs).length))
    else
      let take := min (agentRequestHeader - s.head.length) (b :: bs).length
      let head := s.head ++ (b :: bs).take take
      if h : head.length < agentRequestHeader then ([], s.keep _ h)
      else
        have : 4 < head.length := Nat.lt_of_lt_of_le (by decide) (Nat.le_of_not_lt h)
        let after := push (skipping (WordBytes.ofBe (head.take 4) - 1)) ((b :: bs).drop take)
        (AgentOp.classify head[4] :: after.1, after.2)
termination_by bytes => bytes.length
decreasing_by
  · simp only [List.length_drop, List.length_cons]
    omega
  · have hs := s.head_lt
    simp only [List.length_drop, List.length_cons]
    omega

/-- Which of the bytes the same loop copies into `head`; it discards the others unread. -/
def readsAsHeader (s : OpSniffer) : List UInt8 → List Bool
  | [] => []
  | b :: bs =>
    if 0 < s.skip then
      List.replicate (min s.skip (b :: bs).length) false ++
        readsAsHeader { s with skip := s.skip - min s.skip (b :: bs).length }
          ((b :: bs).drop (min s.skip (b :: bs).length))
    else
      let take := min (agentRequestHeader - s.head.length) (b :: bs).length
      let head := s.head ++ (b :: bs).take take
      List.replicate take true ++ if head.length < agentRequestHeader then []
        else readsAsHeader (skipping (WordBytes.ofBe (head.take 4) - 1)) ((b :: bs).drop take)
termination_by bytes => bytes.length
decreasing_by
  · simp only [List.length_drop, List.length_cons]
    omega
  · have hs := s.head_lt
    simp only [List.length_drop, List.length_cons]
    omega

/-- The sniffer over a list of pushes: what each of them reports, and the sniffer after the last. -/
def pushes (s : OpSniffer) : List (List UInt8) → List (List AgentOp) × OpSniffer
  | [] => ([], s)
  | c :: cs => ((s.push c).1 :: ((s.push c).2.pushes cs).1, ((s.push c).2.pushes cs).2)

/-- Which bytes a list of pushes copies into `head`. -/
def allReadsAsHeader (s : OpSniffer) : List (List UInt8) → List Bool
  | [] => []
  | c :: cs => s.readsAsHeader c ++ (s.push c).2.allReadsAsHeader cs

/-! ### One byte at a time -/

/-- The sniffer on a single byte. -/
def eat (s : OpSniffer) (b : UInt8) : Option AgentOp × OpSniffer :=
  if 0 < s.skip then (none, { s with skip := s.skip - 1 })
  else
    if h : (s.head ++ [b]).length < agentRequestHeader then (none, s.keep [b] h)
    else (some (AgentOp.classify b), skipping (WordBytes.ofBe s.head - 1))

/-- The sniffer fed byte by byte. -/
def feed (s : OpSniffer) : List UInt8 → List AgentOp × OpSniffer
  | [] => ([], s)
  | b :: bs => ((s.eat b).1.toList ++ ((s.eat b).2.feed bs).1, ((s.eat b).2.feed bs).2)

/-- The bytes that find nothing left to skip. -/
def reads (s : OpSniffer) : List UInt8 → List Bool
  | [] => []
  | b :: bs => decide (s.skip = 0) :: (s.eat b).2.reads bs

theorem feed_append (s : OpSniffer) (v w : List UInt8) :
    s.feed (v ++ w) = ((s.feed v).1 ++ ((s.feed v).2.feed w).1, ((s.feed v).2.feed w).2) := by
  induction v generalizing s with
  | nil => rfl
  | cons b v ih => rw [List.cons_append, feed, feed, ih, List.append_assoc]

theorem reads_append (s : OpSniffer) (v w : List UInt8) :
    s.reads (v ++ w) = s.reads v ++ (s.feed v).2.reads w := by
  induction v generalizing s with
  | nil => rfl
  | cons b v ih => rw [List.cons_append, reads, ih, reads, feed, List.cons_append]

variable {s : OpSniffer} {v : List UInt8} {bytes : List UInt8}

theorem feed_body (h : v.length ≤ s.skip) :
    s.feed v = ([], { s with skip := s.skip - v.length }) ∧ s.reads v = List.replicate v.length false := by
  induction v generalizing s with
  | nil => exact ⟨rfl, rfl⟩
  | cons b v ih =>
    rw [List.length_cons] at h
    have hpos : 0 < s.skip := by omega
    have heat : s.eat b = (none, { s with skip := s.skip - 1 }) := if_pos hpos
    have hrest : v.length ≤ s.skip - 1 := by omega
    obtain ⟨hfeed, hreads⟩ := ih (s := { s with skip := s.skip - 1 }) hrest
    constructor
    · rw [feed, heat, hfeed, List.length_cons, Nat.sub_sub, Nat.add_comm 1]
      rfl
    · rw [reads, heat, hreads, List.length_cons, List.replicate_succ, decide_eq_false hpos.ne']

theorem feed_head (hskip : s.skip = 0) (h : (s.head ++ v).length < agentRequestHeader) :
    s.feed v = ([], s.keep v h) ∧ s.reads v = List.replicate v.length true := by
  induction v generalizing s with
  | nil => exact ⟨Prod.ext rfl (ext' (List.append_nil _).symm rfl), rfl⟩
  | cons b v ih =>
    have hone : (s.head ++ [b]).length < agentRequestHeader := by
      rw [List.length_append] at h ⊢
      exact Nat.lt_of_le_of_lt (Nat.add_le_add_left (Nat.le_add_left 1 v.length) _) h
    have heat : s.eat b = (none, s.keep [b] hone) := by
      rw [eat, if_neg (by omega), dif_pos hone]
    have hrest : ((s.keep [b] hone).head ++ v).length < agentRequestHeader := by
      rw [keep, ← List.append_cons]
      exact h
    obtain ⟨hfeed, hreads⟩ := ih (s := s.keep [b] hone) hskip hrest
    constructor
    · rw [feed, heat, hfeed]
      exact Prod.ext rfl (ext' (List.append_assoc _ _ _) rfl)
    · rw [reads, heat, hreads, List.length_cons, List.replicate_succ, decide_eq_true hskip]

theorem eat_type (hskip : s.skip = 0) (hlen : s.head.length = 4) (b : UInt8) :
    s.eat b = (some (AgentOp.classify b), skipping (ofBe s.head - 1)) := by
  have hfull : ¬(s.head ++ [b]).length < agentRequestHeader := by
    rw [List.length_append, hlen, List.length_singleton]
    decide
  rw [eat, if_neg (by omega), dif_neg hfull]

theorem feed_header (hskip : s.skip = 0) (b : UInt8) (hlen : (s.head ++ v).length = 4) :
    s.feed (v ++ [b]) = ([AgentOp.classify b], skipping (ofBe (s.head ++ v) - 1)) ∧
      s.reads (v ++ [b]) = List.replicate (v ++ [b]).length true := by
  have hlt : (s.head ++ v).length < agentRequestHeader := by
    rw [hlen]
    decide
  obtain ⟨hfeed, hreads⟩ := feed_head hskip hlt
  have heat := eat_type (s := s.keep v hlt) hskip hlen b
  constructor
  · rw [feed_append, hfeed, feed, heat]
    rfl
  · rw [reads_append, hfeed, hreads, List.length_append, ← List.replicate_append_replicate]
    exact congrArg _ (congrArg (· :: []) (decide_eq_true hskip))

/-! ### The loop takes the bytes one by one -/

theorem push_body (hne : bytes ≠ []) (hpos : 0 < s.skip) :
    s.push bytes = push { s with skip := s.skip - min s.skip bytes.length }
        (bytes.drop (min s.skip bytes.length)) ∧
      s.readsAsHeader bytes = List.replicate (min s.skip bytes.length) false ++
        readsAsHeader { s with skip := s.skip - min s.skip bytes.length }
          (bytes.drop (min s.skip bytes.length)) := by
  cases bytes with
  | nil => exact absurd rfl hne
  | cons b bs =>
    constructor
    · rw [push, if_pos hpos]
    · rw [readsAsHeader, if_pos hpos]

theorem push_part (hskip : s.skip = 0) (h : (s.head ++ bytes).length < agentRequestHeader) :
    s.push bytes = ([], s.keep bytes h) ∧ s.readsAsHeader bytes = List.replicate bytes.length true := by
  have hlen : s.head.length + bytes.length < agentRequestHeader := by
    rw [← List.length_append]
    exact h
  cases bytes with
  | nil =>
    rw [push, readsAsHeader]
    exact ⟨Prod.ext rfl (ext' (List.append_nil _).symm rfl), rfl⟩
  | cons b bs =>
    have htake : min (agentRequestHeader - s.head.length) (b :: bs).length = (b :: bs).length :=
      Nat.min_eq_right (by omega)
    have hpart : ¬0 < s.skip := by omega
    constructor
    · rw [push, if_neg hpart]
      simp only [htake, List.take_length]
      rw [dif_pos h]
    · rw [readsAsHeader, if_neg hpart]
      simp only [htake, List.take_length]
      rw [if_pos h, List.append_nil]

theorem push_header (b : UInt8) (rest : List UInt8) (hskip : s.skip = 0)
    (hlen : (s.head ++ v).length = 4) : s.push (v ++ b :: rest) =
        (AgentOp.classify b :: (push (skipping (ofBe (s.head ++ v) - 1)) rest).1,
          (push (skipping (ofBe (s.head ++ v) - 1)) rest).2) ∧
      s.readsAsHeader (v ++ b :: rest) = List.replicate (v ++ [b]).length true ++
        readsAsHeader (skipping (ofBe (s.head ++ v) - 1)) rest := by
  obtain ⟨c, cs, hbytes⟩ := List.exists_cons_of_ne_nil (l := v ++ b :: rest) (by simp)
  have hv : s.head.length + v.length = 4 := by rw [← List.length_append, hlen]
  have htake : min (agentRequestHeader - s.head.length) (c :: cs).length = (v ++ [b]).length := by
    rw [← hbytes, List.length_append, List.length_append, List.length_cons, List.length_singleton,
      agentRequestHeader]
    omega
  have hcut : c :: cs = (v ++ [b]) ++ rest := by rw [← hbytes, List.append_assoc]; rfl
  have htaken : (c :: cs).take (v ++ [b]).length = v ++ [b] := by rw [hcut, List.take_left]
  have hdropped : (c :: cs).drop (v ++ [b]).length = rest := by rw [hcut, List.drop_left]
  have hpart : ¬0 < s.skip := by omega
  have hfull : ¬(s.head ++ (v ++ [b])).length < agentRequestHeader := by
    rw [← List.append_assoc, List.length_append, hlen, List.length_singleton]
    decide
  have hword : (s.head ++ (v ++ [b])).take 4 = s.head ++ v := by
    rw [← List.append_assoc, ← hlen, List.take_left]
  have htype : (s.head ++ (v ++ [b]))[4]? = some b := by
    rw [← List.append_assoc, ← hlen, List.getElem?_concat_length]
  rw [hbytes]
  constructor
  · rw [push, if_neg hpart]
    simp only [htake, htaken, hdropped, hword]
    rw [dif_neg hfull, (List.getElem_eq_iff _).2 htype]
  · rw [readsAsHeader, if_neg hpart]
    simp only [htake, htaken, hdropped, hword]
    rw [if_neg hfull]

theorem exists_header (h : ¬(s.head ++ bytes).length < agentRequestHeader) :
    ∃ v b rest, bytes = v ++ b :: rest ∧ (s.head ++ v).length = 4 := by
  have hs : s.head.length < 5 := s.head_lt
  rw [List.length_append, agentRequestHeader] at h
  have hlt : 4 - s.head.length < bytes.length := by omega
  refine ⟨bytes.take (4 - s.head.length), bytes[4 - s.head.length],
    bytes.drop (4 - s.head.length + 1), ?_, ?_⟩
  · rw [← List.drop_eq_getElem_cons hlt, List.take_append_drop]
  · rw [List.length_append, List.length_take]
    omega

/-- **The loop is the byte-by-byte machine**, in what it reports, in what it keeps and in what it
reads. -/
theorem push_eq_feed (s : OpSniffer) (bytes : List UInt8) :
    s.push bytes = s.feed bytes ∧ s.readsAsHeader bytes = s.reads bytes := by
  induction hn : bytes.length using Nat.strong_induction_on generalizing s bytes with
  | _ n ih =>
    rcases Nat.eq_zero_or_pos s.skip with hskip | hpos
    · by_cases hpart : (s.head ++ bytes).length < agentRequestHeader
      · obtain ⟨hpush, hread⟩ := push_part hskip hpart
        obtain ⟨hfeed, hreads⟩ := feed_head hskip hpart
        rw [hpush, hread, hfeed, hreads]
        exact ⟨rfl, rfl⟩
      · obtain ⟨v, b, rest, rfl, hlen⟩ := exists_header hpart
        have hshorter : rest.length < n := by
          rw [← hn, List.length_append, List.length_cons]
          omega
        obtain ⟨hpush, hread⟩ := push_header b rest hskip hlen
        obtain ⟨hfeed, hreads⟩ := feed_header hskip b hlen
        obtain ⟨ihpush, ihread⟩ := ih _ hshorter (skipping (ofBe (s.head ++ v) - 1)) rest rfl
        rw [hpush, hread, ihpush, ihread, List.append_cons v b rest, feed_append, reads_append, hfeed, hreads]
        exact ⟨rfl, rfl⟩
    · cases bytes with
      | nil => rw [push, readsAsHeader]; exact ⟨rfl, rfl⟩
      | cons b bs =>
        obtain ⟨hpush, hread⟩ := push_body (List.cons_ne_nil b bs) hpos
        -- the body, or as much of it as has arrived, and what follows it
        obtain ⟨v, rest, hcut, hlen⟩ : ∃ v rest, b :: bs = v ++ rest ∧
            v.length = min s.skip (b :: bs).length :=
          ⟨_, _, (List.take_append_drop _ _).symm, List.length_take_of_le (Nat.min_le_right _ _)⟩
        have hle : v.length ≤ s.skip := hlen ▸ Nat.min_le_left _ _
        have hshorter : rest.length < n := by
          rw [← hn, hcut, List.length_append, hlen, List.length_cons]
          omega
        obtain ⟨hfeed, hreads⟩ := feed_body hle
        obtain ⟨ihpush, ihread⟩ := ih _ hshorter { s with skip := s.skip - v.length } rest rfl
        rw [hpush, hread, ← hlen, hcut, List.drop_left, ihpush, ihread, feed_append,
          reads_append, hfeed, hreads]
        exact ⟨rfl, rfl⟩

theorem pushes_eq_feed (s : OpSniffer) (cs : List (List UInt8)) :
    (s.pushes cs).1.flatten = (s.feed cs.flatten).1 ∧ (s.pushes cs).2 = (s.feed cs.flatten).2 ∧
      s.allReadsAsHeader cs = s.reads cs.flatten := by
  induction cs generalizing s with
  | nil => exact ⟨rfl, rfl, rfl⟩
  | cons c cs ih =>
    obtain ⟨hpush, hread⟩ := push_eq_feed s c
    obtain ⟨hops, hafter, hreads⟩ := ih (s.feed c).2
    rw [pushes, allReadsAsHeader, hpush, hread, List.flatten_cons, List.flatten_cons, feed_append,
      reads_append, hops, hafter, hreads]
    exact ⟨rfl, rfl, rfl⟩

end OpSniffer

/-! ### A stream of requests -/

/-- A well-formed request: what its length says fits in the prefix. -/
structure AgentRequest where
  kind : UInt8
  body : List UInt8
  length_lt : body.length + 1 < 2 ^ 32

namespace AgentRequest

/-- What a request asks for. -/
def op (m : AgentRequest) : AgentOp := AgentOp.classify m.kind

/-- The length in front of a request: the type and the body. -/
def lengthPrefix (m : AgentRequest) : List UInt8 := WordBytes.be 4 (m.body.length + 1)

/-- A request on the wire. -/
def bytes (m : AgentRequest) : List UInt8 := m.lengthPrefix ++ m.kind :: m.body

/-- Requests on the wire, one after the other. -/
def stream (ms : List AgentRequest) : List UInt8 := ms.flatMap bytes

/-- Which bytes of a request belong to its header. -/
def layout (m : AgentRequest) : List Bool :=
  List.replicate agentRequestHeader true ++ List.replicate m.body.length false

/-- The places of the fifth bytes of requests that begin at `start`, and what they ask for. -/
def fifthBytes : ℕ → List AgentRequest → List (ℕ × AgentOp)
  | _, [] => []
  | start, m :: ms => (start + 4, m.op) :: fifthBytes (start + m.bytes.length) ms

theorem ofBe_lengthPrefix (m : AgentRequest) : WordBytes.ofBe m.lengthPrefix = m.body.length + 1 := by
  rw [lengthPrefix, WordBytes.ofBe_be]
  exact Nat.mod_eq_of_lt m.length_lt

theorem length_bytes (m : AgentRequest) : m.bytes.length = 5 + m.body.length := by
  rw [bytes, List.length_append, lengthPrefix, WordBytes.length_be, List.length_cons]
  omega

@[simp] theorem stream_cons (m : AgentRequest) (ms : List AgentRequest) :
    stream (m :: ms) = m.bytes ++ stream ms := List.flatMap_cons

theorem fifthBytes_ge {ms : List AgentRequest} : ∀ {start : ℕ}, ∀ x ∈ fifthBytes start ms, start + 4 ≤ x.1 := by
  induction ms with
  | nil => intro start x hx; cases hx
  | cons m ms ih =>
    intro start x hx
    rcases List.mem_cons.1 hx with rfl | hx
    · exact Nat.le_refl _
    · exact Nat.le_trans (by omega) (ih x hx)

theorem fifthBytes_pairwise (ms : List AgentRequest) (start : ℕ) :
    (fifthBytes start ms).Pairwise fun x y => x.1 < y.1 := by
  induction ms generalizing start with
  | nil => exact List.Pairwise.nil
  | cons m ms ih =>
    refine List.Pairwise.cons (fun x hx => ?_) (ih _)
    have hge := fifthBytes_ge x hx
    have hlen := m.length_bytes
    show start + 4 < x.1
    omega

end AgentRequest

namespace OpSniffer

open AgentRequest

theorem filter_below {α : Type*} {l : List (ℕ × α)} {a b : ℕ} (hab : a ≤ b)
    (hl : l.Pairwise fun x y => x.1 < y.1) :
    l.filter (·.1 < b) = l.filter (·.1 < a) ++ l.filter (fun x => a ≤ x.1 ∧ x.1 < b) := by
  induction l with
  | nil => rfl
  | cons x l ih =>
    rw [List.pairwise_cons] at hl
    by_cases hx : x.1 < a
    · have hxb : x.1 < b := Nat.lt_of_lt_of_le hx hab
      simp [hx, hxb, Nat.not_le.2 hx, ih hl.2]
    · -- from here on nothing is below `a`
      have hnone : (x :: l).filter (·.1 < a) = [] := by
        rw [List.filter_eq_nil_iff]
        intro y hy
        rcases List.mem_cons.1 hy with rfl | hy
        · simpa using hx
        · have := hl.1 y hy
          simp only [decide_eq_true_eq]
          omega
      rw [hnone, List.nil_append]
      refine List.filter_congr fun y hy => ?_
      have hya : a ≤ y.1 := by
        rcases List.mem_cons.1 hy with rfl | hy
        · exact Nat.le_of_not_lt hx
        · have := hl.1 y hy
          omega
      simp [hya]

theorem feed_request (m : AgentRequest) {v : List UInt8} (hv : v.length ≤ m.body.length) :
    new.feed (m.lengthPrefix ++ m.kind :: v) = ([m.op], skipping (m.body.length - v.length)) ∧
      new.reads (m.lengthPrefix ++ m.kind :: v) =
        List.replicate agentRequestHeader true ++ List.replicate v.length false := by
  have hlen : (new.head ++ m.lengthPrefix).length = 4 := WordBytes.length_be 4 _
  obtain ⟨hfeed, hreads⟩ := feed_header rfl m.kind hlen
  have hskip : WordBytes.ofBe (new.head ++ m.lengthPrefix) - 1 = m.body.length := by
    show WordBytes.ofBe m.lengthPrefix - 1 = _
    rw [ofBe_lengthPrefix]
    rfl
  have hheader : (m.lengthPrefix ++ [m.kind]).length = agentRequestHeader := by
    rw [List.length_append, lengthPrefix, WordBytes.length_be]
    rfl
  rw [hskip] at hfeed
  rw [hheader] at hreads
  obtain ⟨hbody, hunread⟩ := feed_body (s := skipping m.body.length) hv
  rw [List.append_cons, feed_append, reads_append, hfeed, hreads, hbody, hunread]
  exact ⟨rfl, rfl⟩

theorem feed_bytes (m : AgentRequest) : new.feed m.bytes = ([m.op], new) ∧ new.reads m.bytes = m.layout := by
  obtain ⟨hfeed, hreads⟩ := feed_request m (Nat.le_refl m.body.length)
  rw [Nat.sub_self] at hfeed
  exact ⟨hfeed, hreads⟩

theorem feed_stream (ms : List AgentRequest) :
    new.feed (stream ms) = (ms.map op, new) ∧ new.reads (stream ms) = ms.flatMap layout := by
  induction ms with
  | nil => exact ⟨rfl, rfl⟩
  | cons m ms ih =>
    obtain ⟨hfeed, hreads⟩ := feed_bytes m
    rw [stream_cons, feed_append, reads_append, hfeed, hreads, ih.1, ih.2, List.flatMap_cons]
    exact ⟨rfl, rfl⟩

theorem exists_body {m : AgentRequest} {p : List UInt8} (hp : p <+: m.bytes)
    (hlen : agentRequestHeader ≤ p.length) :
    ∃ v, p = m.lengthPrefix ++ m.kind :: v ∧ v.length ≤ m.body.length := by
  have hheader : (m.lengthPrefix ++ [m.kind]).length = agentRequestHeader := by
    rw [List.length_append, lengthPrefix, WordBytes.length_be]
    rfl
  have hpre : m.lengthPrefix ++ [m.kind] <+: m.bytes := by
    rw [bytes, List.append_cons]
    exact List.prefix_append _ _
  obtain ⟨v, rfl⟩ := List.prefix_of_prefix_length_le hpre hp (hheader ▸ hlen)
  refine ⟨v, by rw [List.append_assoc]; rfl, ?_⟩
  have hle := hp.length_le
  rw [List.length_append, hheader, length_bytes, agentRequestHeader] at hle
  omega

variable {ms : List AgentRequest}

/-- **The sniffer after any beginning of a stream** has reported the requests whose fifth byte it
has been given. -/
theorem feed_prefix : ∀ {p : List UInt8} (start : ℕ), p <+: stream ms →
      (new.feed p).1 = ((fifthBytes start ms).filter (·.1 < start + p.length)).map Prod.snd := by
  induction ms with
  | nil =>
    intro p start hp
    rw [List.prefix_nil.1 hp]
    rfl
  | cons m ms ih =>
    intro p start hp
    rw [stream_cons] at hp
    rcases Framing.prefix_append_cases hp with ⟨hin, hne⟩ | ⟨q, rfl, hq⟩
    · -- the beginning ends inside the first request, so the later ones have not begun
      have hlt : p.length < m.bytes.length :=
        Nat.lt_of_le_of_ne hin.length_le fun h => hne (hin.eq_of_length h)
      have hlater : (fifthBytes (start + m.bytes.length) ms).filter (·.1 < start + p.length) = [] := by
        rw [List.filter_eq_nil_iff]
        intro x hx
        have hge := fifthBytes_ge x hx
        simp only [decide_eq_true_eq]
        omega
      by_cases hfour : p.length < agentRequestHeader
      · have hnot : ¬start + 4 < start + p.length := by
          rw [agentRequestHeader] at hfour
          omega
        rw [(feed_head (s := new) rfl hfour).1, fifthBytes, List.filter_cons_of_neg (by simpa using hnot),
          hlater]
        rfl
      · obtain ⟨v, rfl, hv⟩ := exists_body hin (Nat.le_of_not_lt hfour)
        have hyes : start + 4 < start + (m.lengthPrefix ++ m.kind :: v).length := by
          rw [agentRequestHeader] at hfour
          omega
        rw [(feed_request m hv).1, fifthBytes, List.filter_cons_of_pos (by simpa using hyes), hlater]
        rfl
    · rw [feed_append, (feed_bytes m).1, ih (start + m.bytes.length) hq, fifthBytes,
        List.filter_cons_of_pos, List.length_append, Nat.add_assoc]
      · rfl
      · have hlen := m.length_bytes
        simp only [decide_eq_true_eq, List.length_append]
        omega

theorem push_reports {v c : List UInt8} (hp : v ++ c <+: stream ms) :
    ((new.feed v).2.feed c).1 = ((fifthBytes 0 ms).filter fun x =>
      v.length ≤ x.1 ∧ x.1 < v.length + c.length).map Prod.snd := by
  have hboth := feed_prefix 0 hp
  have hfirst := feed_prefix 0 ((List.prefix_append v c).trans hp)
  have hcut := filter_below (Nat.le_add_right v.length c.length) (fifthBytes_pairwise ms 0)
  rw [Nat.zero_add] at hboth hfirst
  rw [feed_append, List.length_append, hcut, List.map_append, hfirst] at hboth
  exact List.append_cancel_left hboth

theorem getElem?_pushes (s : OpSniffer) (before : List (List UInt8)) (c : List UInt8) (after : List (List UInt8)) :
    (s.pushes (before ++ c :: after)).1[before.length]? = some ((s.feed before.flatten).2.feed c).1 := by
  induction before generalizing s with
  | nil => exact congrArg some (congrArg Prod.fst (push_eq_feed s c).1)
  | cons d before ih =>
    rw [List.flatten_cons, feed_append, ← (push_eq_feed s d).1]
    exact ih _

/-- **The operations of a stream, however it is cut.**  The pushes report the types of the requests
in order; each push reports those whose fifth byte it delivers; and the bytes that go into `head`
are the first five of each request, so that no byte of a body is read as a header. -/
theorem reports_the_requests (ms : List AgentRequest) (cs : List (List UInt8))
    (hcut : cs.flatten = stream ms) :
    (new.pushes cs).1.flatten = ms.map (fun m => AgentOp.classify m.kind) ∧
      (∀ before c after, cs = before ++ c :: after →
        (new.pushes cs).1[before.length]? = some (((fifthBytes 0 ms).filter fun x =>
          before.flatten.length ≤ x.1 ∧ x.1 < before.flatten.length + c.length).map Prod.snd)) ∧
      new.allReadsAsHeader cs = ms.flatMap layout := by
  obtain ⟨hops, _, hreads⟩ := pushes_eq_feed new cs
  obtain ⟨hfeed, hlayout⟩ := feed_stream ms
  refine ⟨?_, ?_, ?_⟩
  · rw [hops, hcut, hfeed]
    rfl
  · rintro before c after rfl
    have hp : before.flatten ++ c <+: stream ms := by
      rw [← hcut, List.flatten_append, List.flatten_cons, ← List.append_assoc]
      exact List.prefix_append _ _
    rw [getElem?_pushes, push_reports hp]
  · rw [hreads, hcut, hlayout]

/-- A listing without a body and a signature with two bytes of one, cut inside the second header. -/
theorem reports_listing_and_signature :
    (new.pushes [[0, 0, 0, 1, 11, 0, 0], [0], [3, 13, 170], [187]]).1 =
      [[AgentOp.listKeys], [], [AgentOp.sign], []] := by
  have h := reports_the_requests [⟨11, [], by decide⟩, ⟨13, [170, 187], by decide⟩]
    [[0, 0, 0, 1, 11, 0, 0], [0], [3, 13, 170], [187]] (by decide)
  refine List.ext_getElem? fun i => ?_
  match i with
  | 0 => exact h.2.1 [] _ _ rfl
  | 1 => exact h.2.1 [_] _ _ rfl
  | 2 => exact h.2.1 [_, _] _ _ rfl
  | 3 => exact h.2.1 [_, _, _] _ _ rfl
  | i + 4 => rfl

end OpSniffer
