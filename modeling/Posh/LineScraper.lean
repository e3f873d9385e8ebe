/-
**The bootstrap scraper hides the session key.**

The ssh of a bootstrap prints, between prompts and a message of the day, the lines in which the server says
where it listens and with which key.  The scraper takes those lines out of what is shown: it holds back a line
while it may still begin with the mark of the protocol, and takes it whole at its newline.  After the line that
says where to connect it lets everything pass.
-/

import Posh.Confine
import Posh.Lib.Utf8Check
import Posh.Term.Osc

set_option autoImplicit false

namespace Posh

open Confine (trim)
open Recording (isWhitespace stripCr)
open Term (stripPrefix parseU16)
open List (append_assoc append_nil forall_mem_cons nil_append prefix_append)
open Utf8 (encode)
open Utf8

/-! ### The report of a server -/

structure ServerReport where
  ip : Option (List Char) := none
  port : Option ℕ := none
  key : Option (List Char) := none
  agentExport : Bool := false
deriving DecidableEq, Repr

/-- `trim_end_matches('\r')`. -/
def trimCrs (text : List Char) : List Char := text.rdropWhile (· = '\r')

def splitWhitespace (text : List Char) : List (List Char) := (text.splitOnP isWhitespace).filter (· ≠ [])

def parseConnect (rest : List Char) : Option (ℕ × List Char) :=
  match splitWhitespace rest with
  | [port, key] =>
    (parseU16 port).bind fun port => if (Utf8.encode key).length = 22 then some (port, key) else none
  | _ => none

def agentExportAckLine : List Char := "POSH AGENT_EXPORT".toList

def ipPrefix : List Char := "POSH IP ".toList

def connectPrefix : List Char := "POSH CONNECT ".toList

/-- One line of output, and whether it is the last of the protocol; or that it is malformed. -/
def ServerReport.feed (r : ServerReport) (line : List Char) : Except (List Char) (ServerReport × Bool) :=
  if line.rdropWhile isWhitespace = agentExportAckLine then .ok ({ r with agentExport := true }, false)
  else
    match stripPrefix ipPrefix line with
    | some rest =>
      if trim rest = [] ∨ (trim rest).any isWhitespace then .error ("bad POSH IP string: ".toList ++ line)
      else .ok ({ r with ip := some (trim rest) }, false)
    | none =>
      match stripPrefix connectPrefix line with
      | some rest =>
        match parseConnect rest with
        | none => .error ("bad POSH CONNECT string: ".toList ++ line)
        | some (port, key) => .ok ({ r with port := some port, key := some key }, true)
      | none => .ok (r, false)

/-! ### The scraper -/

/-- `POSH ` in bytes. -/
def protoPrefix : List UInt8 := [0x50, 0x4F, 0x53, 0x48, 0x20]

def newline : UInt8 := 0x0A

structure LineScraper where
  report : ServerReport := {}
  /-- the line so far, while it may be of the protocol -/
  held : List UInt8 := []
  passthrough : Bool := false
  done : Bool := false
deriving DecidableEq, Repr

namespace LineScraper

/-- One byte, and the bytes that are shown for it. -/
def push (s : LineScraper) (b : UInt8) : Except (List Char) (LineScraper × List UInt8) :=
  if s.passthrough || s.done then .ok ({ s with passthrough := s.passthrough && b ≠ newline }, [b])
  else if b = newline then
    if protoPrefix.isPrefixOf s.held then
      (s.report.feed (trimCrs (Utf8.lossy s.held))).map fun fed => ({ s with held := [], report := fed.1, done := fed.2 }, [])
    else .ok ({ s with held := [] }, s.held ++ [b])
  else if s.held.length < protoPrefix.length ∧ protoPrefix[s.held.length]? ≠ some b then
    .ok ({ s with held := [], passthrough := true }, s.held ++ [b])
  else .ok ({ s with held := s.held ++ [b] }, [])

def feed (s : LineScraper) : List UInt8 → Except (List Char) (LineScraper × List UInt8)
  | [] => .ok (s, [])
  | b :: bs => (s.push b).bind fun r => (feed r.1 bs).map fun r' => (r'.1, r.2 ++ r'.2)

/-- One read after the other. -/
def feeds (s : LineScraper) : List (List UInt8) → Except (List Char) (LineScraper × List UInt8)
  | [] => .ok (s, [])
  | bytes :: reads => (s.feed bytes).bind fun r => (feeds r.1 reads).map fun r' => (r'.1, r.2 ++ r'.2)

end LineScraper

/-! ### The piped driver -/

/-- The complete lines of a stream, without their newlines, and what is after them. -/
def splitLines : List UInt8 → List (List UInt8) × List UInt8
  | [] => ([], [])
  | b :: bs =>
    if b = newline then ([] :: (splitLines bs).1, (splitLines bs).2)
    else
      match (splitLines bs).1 with
      | [] => ([], b :: (splitLines bs).2)
      | l :: ls => ((b :: l) :: ls, (splitLines bs).2)

/-- Lines up to the one that ends the protocol; one with a newline is read without the carriage return at its end. -/
def pipedLoop (r : ServerReport) : List (List UInt8 × Bool) → Except (List Char) ServerReport
  | [] => .ok r
  | (l, ended) :: ls =>
    match Utf8.fromUtf8 l with
    | .error _ => .error "stream did not contain valid UTF-8".toList
    | .ok text => (r.feed (if ended then stripCr text else text)).bind fun fed => if fed.2 then .ok fed.1 else pipedLoop fed.1 ls

/-- The report of the piped driver. -/
def bootstrapPiped (stream : List UInt8) : Except (List Char) ServerReport :=
  let s := splitLines stream
  pipedLoop {} (s.1.map (·, true) ++ if s.2 = [] then [] else [(s.2, false)])

/-! ### Lines of the protocol -/

/-- The text of a line, as the scraper reads it. -/
def lineText (l : List UInt8) : List Char := trimCrs (Utf8.lossy l)

/-- A line that begins with `POSH `. -/
def IsProto (l : List UInt8) : Prop := protoPrefix <+: l

/-- A line that begins with `POSH CONNECT `. -/
def IsConnect (l : List UInt8) : Prop := IsProto l ∧ connectPrefix <+: lineText l

def Malformed (l : List UInt8) : Prop := ∃ e, ServerReport.feed {} (lineText l) = .error e

instance : DecidablePred IsProto := fun l => inferInstanceAs (Decidable (protoPrefix <+: l))

instance : DecidablePred IsConnect := fun l => inferInstanceAs (Decidable (_ ∧ connectPrefix <+: lineText l))

/-- The lines up to the first that says where to connect, and with it. -/
def untilConnect : List (List UInt8) → List (List UInt8)
  | [] => []
  | l :: ls => if IsConnect l then [l] else l :: untilConnect ls

/-- Lines with their newlines. -/
def joined (ls : List (List UInt8)) : List UInt8 := ls.flatMap (· ++ [newline])

/-- **The lines without those of the protocol**, up to the first that says where to connect. -/
def kept (ls : List (List UInt8)) : List UInt8 :=
  joined ((untilConnect ls).filter fun l => !decide (IsProto l)) ++ joined (ls.drop (untilConnect ls).length)

/-! ### One line of the protocol -/

namespace ServerReport

variable {r r' : ServerReport} {line : List Char} {fin : Bool} {fed : ServerReport × Bool}

theorem stripPrefix_eq (front s : List Char) :
    stripPrefix front s = if front <+: s then some (s.drop front.length) else none := by
  rw [stripPrefix]
  exact if_congr (by rw [List.prefix_iff_eq_take, eq_comm]) rfl rfl

theorem not_prefix_of_ack (h : line.rdropWhile isWhitespace = agentExportAckLine) : ¬ connectPrefix <+: line := by
  intro hconnect
  have hack : agentExportAckLine <+: line := h ▸ List.rdropWhile_prefix ..
  rcases List.prefix_or_prefix_of_prefix hconnect hack with hp | hp
  · exact absurd hp (by decide)
  · exact absurd hp (by decide)

/-- Whether a line ends the protocol. -/
theorem feed_fin (h : r.feed line = .ok (r', fin)) : fin = decide (connectPrefix <+: line) := by
  rw [feed] at h
  split at h
  · rename_i hack
    cases h
    exact (decide_eq_false (not_prefix_of_ack hack)).symm
  · rw [stripPrefix_eq, stripPrefix_eq] at h
    by_cases hip : ipPrefix <+: line
    · have hconnect : ¬ connectPrefix <+: line := fun hconnect => by
        rcases List.prefix_or_prefix_of_prefix hconnect hip with hp | hp
        · exact absurd hp (by decide)
        · exact absurd hp (by decide)
      rw [if_pos hip] at h
      dsimp only at h
      split at h
      · cases h
      · cases h
        exact (decide_eq_false hconnect).symm
    · rw [if_neg hip] at h
      by_cases hconnect : connectPrefix <+: line
      · rw [if_pos hconnect] at h
        dsimp only at h
        split at h
        · cases h
        · cases h
          exact (decide_eq_true hconnect).symm
      · rw [if_neg hconnect] at h
        cases h
        exact (decide_eq_false hconnect).symm

/-- Whether a line is malformed does not depend on the report. -/
theorem feed_ok_of (h : ¬ ∃ e, ServerReport.feed {} line = .error e) (r : ServerReport) :
    ∃ fed, r.feed line = .ok fed := by
  rw [feed] at h ⊢
  split at h
  · exact ⟨_, if_pos ‹_›⟩
  · rw [if_neg ‹_›]
    split at h
    · split at h
      · exact absurd ⟨_, rfl⟩ h
      · exact ⟨_, if_neg ‹_›⟩
    · split at h
      · split at h
        · exact absurd ⟨_, rfl⟩ h
        · exact ⟨_, rfl⟩
      · exact ⟨_, rfl⟩

/-- A line without the mark of the protocol changes nothing. -/
theorem feed_other (h : ¬ "POSH ".toList <+: line) : r.feed line = .ok (r, false) := by
  have hno (front : List Char) (hfront : "POSH ".toList <+: front) : ¬ front <+: line := fun hp => h (hfront.trans hp)
  rw [feed, if_neg, stripPrefix_eq, if_neg (hno ipPrefix (by decide)), stripPrefix_eq, if_neg (hno connectPrefix (by decide))]
  intro hack
  exact hno agentExportAckLine (by decide) (hack ▸ List.rdropWhile_prefix ..)

theorem trim_cr (rest : List Char) : trim (rest ++ ['\r']) = trim rest := by
  rw [trim, trim, List.dropWhile_append]
  split
  · rename_i h
    rw [List.isEmpty_iff.mp h]
    rfl
  · exact List.rdropWhile_concat_pos _ _ _ (by decide)

theorem splitWhitespace_cr (rest : List Char) : splitWhitespace (rest ++ ['\r']) = splitWhitespace rest := by
  rw [splitWhitespace, List.splitOnP_append_cons _ _ (by decide), List.splitOnP_nil, List.filter_append]
  exact append_nil _

theorem stripPrefix_cr {front : List Char} (hfront : front.getLast? ≠ some '\r') (s : List Char) :
    stripPrefix front (s ++ ['\r']) = (stripPrefix front s).map (· ++ ['\r']) := by
  rw [stripPrefix_eq, stripPrefix_eq]
  by_cases h : front <+: s
  · rw [if_pos h, if_pos (h.trans (prefix_append ..)), List.drop_append_of_le_length h.length_le]
    rfl
  · rw [if_neg h, if_neg]
    · rfl
    · intro hp
      rcases List.prefix_concat_iff.mp hp with rfl | hp
      · exact hfront List.getLast?_concat
      · exact h hp

/-- A carriage return at the end does not matter. -/
theorem feed_cr (h : r.feed line = .ok fed) : r.feed (line ++ ['\r']) = .ok fed := by
  rw [feed] at h ⊢
  rw [List.rdropWhile_concat_pos _ _ _ (by decide), stripPrefix_cr (by decide), stripPrefix_cr (by decide)]
  split at h
  · rw [if_pos ‹_›]
    exact h
  · rw [if_neg ‹_›]
    split at h <;> rename_i hip
    · rw [hip, Option.map_some]
      dsimp only
      rw [trim_cr]
      split at h
      · cases h
      · rw [if_neg ‹_›]
        exact h
    · rw [hip, Option.map_none]
      dsimp only
      split at h <;> rename_i hconnect
      · rw [hconnect, Option.map_some]
        dsimp only
        rw [parseConnect, splitWhitespace_cr, ← parseConnect]
        split at h
        · cases h
        · exact h
      · rw [hconnect, Option.map_none]
        exact h

theorem feed_trimCrs (line : List Char) (h : r.feed (trimCrs line) = .ok fed) : r.feed line = .ok fed := by
  induction line using List.reverseRecOn with
  | nil => exact h
  | append_singleton line c ih =>
    by_cases hc : c = '\r'
    · rw [trimCrs, List.rdropWhile_concat_pos (fun c => decide (c = '\r')) _ _ (decide_eq_true hc)] at h
      rw [hc]
      exact feed_cr (ih h)
    · rwa [trimCrs, List.rdropWhile_concat_neg (fun c => decide (c = '\r')) _ _ (by simpa using hc)] at h

theorem feed_stripCr (line : List Char) (h : r.feed (trimCrs line) = .ok fed) :
    r.feed (stripCr line) = .ok fed := by
  rw [stripCr]
  split
  · rename_i hlast
    obtain ⟨front, rfl⟩ := List.getLast?_eq_some_iff.mp hlast
    rw [List.dropLast_concat]
    rw [trimCrs, List.rdropWhile_concat_pos (fun c => decide (c = '\r')) _ _ rfl] at h
    exact feed_trimCrs front h
  · exact feed_trimCrs line h

end ServerReport

open ServerReport

/-! ### The lines of a stream -/

theorem splitLines_of_not_mem {l : List UInt8} (h : newline ∉ l) : splitLines l = ([], l) := by
  induction l with
  | nil => rfl
  | cons b l ih =>
    rw [List.mem_cons, not_or] at h
    rw [splitLines, if_neg (Ne.symm h.1), ih h.2]

theorem splitLines_line {l : List UInt8} (h : newline ∉ l) (bs : List UInt8) :
    splitLines (l ++ newline :: bs) = (l :: (splitLines bs).1, (splitLines bs).2) := by
  induction l with
  | nil => rw [nil_append, splitLines, if_pos rfl]
  | cons b l ih =>
    rw [List.mem_cons, not_or] at h
    rw [List.cons_append, splitLines, if_neg (Ne.symm h.1), ih h.2]

/-- A stream is a line that goes on, or a line and a stream. -/
theorem stream_induction {P : List UInt8 → Prop} (hrest : ∀ l, newline ∉ l → P l)
    (hline : ∀ l bs, newline ∉ l → P bs → P (l ++ newline :: bs)) (bs : List UInt8) : P bs := by
  induction hn : bs.length using Nat.strong_induction_on generalizing bs with
  | _ n ih =>
    by_cases h : newline ∈ bs
    · obtain ⟨l, rest, rfl, hl⟩ := List.eq_append_cons_of_mem h
      refine hline l rest hl (ih rest.length ?_ rest rfl)
      rw [← hn, List.length_append, List.length_cons]
      omega
    · exact hrest bs h

theorem joined_splitLines (bs : List UInt8) : joined (splitLines bs).1 ++ (splitLines bs).2 = bs := by
  induction bs using stream_induction with
  | hrest l h => rw [splitLines_of_not_mem h]; rfl
  | hline l bs h ih =>
    rw [splitLines_line h, joined, List.flatMap_cons, append_assoc, ← joined, ih, append_assoc]
    rfl

theorem newline_not_mem_encodeChar {c : Char} (hc : c ≠ '\n') : newline ∉ String.utf8EncodeChar c := by
  intro hb
  have hnat := (eq_of_mem_encodeChar hb (by decide)).2
  exact hc (Char.ext (UInt32.toNat_inj.mp hnat))

/-- The lines of a text are texts. -/
theorem splitLines_encode (text : List Char) : (∀ l ∈ (splitLines (encode text)).1, ∃ t, l = encode t) ∧
    ∃ t, (splitLines (encode text)).2 = encode t := by
  have hprepend {xs : List UInt8} (hxs : newline ∉ xs) (bs : List UInt8) : splitLines (xs ++ bs) =
      match (splitLines bs).1 with
      | [] => ([], xs ++ (splitLines bs).2)
      | l :: ls => ((xs ++ l) :: ls, (splitLines bs).2) := by
    induction bs using stream_induction with
    | hrest l h => rw [splitLines_of_not_mem h, splitLines_of_not_mem (List.not_mem_append hxs h)]
    | hline l bs h _ =>
      rw [← append_assoc, splitLines_line (List.not_mem_append hxs h), splitLines_line h]
  induction text with
  | nil => exact ⟨fun _ h => (nomatch h), [], rfl⟩
  | cons c text ih =>
    obtain ⟨hlines, t, hlast⟩ := ih
    rw [encode_cons]
    by_cases hc : c = '\n'
    · subst hc
      rw [show splitLines (String.utf8EncodeChar '\n' ++ encode text) = _ from
        splitLines_line List.not_mem_nil (encode text)]
      exact ⟨forall_mem_cons.mpr ⟨⟨[], rfl⟩, hlines⟩, t, hlast⟩
    · rw [hprepend (newline_not_mem_encodeChar hc)]
      cases hsplit : (splitLines (encode text)).1 with
      | nil => exact ⟨fun _ h => (nomatch h), c :: t, by rw [hlast, encode_cons]⟩
      | cons l ls =>
        rw [hsplit] at hlines
        obtain ⟨⟨u, rfl⟩, hls⟩ := forall_mem_cons.mp hlines
        exact ⟨forall_mem_cons.mpr ⟨⟨c :: u, (encode_cons ..).symm⟩, hls⟩, t, hlast⟩

/-! ### Bytes of a line -/

namespace LineScraper

variable {s : LineScraper} {r : ServerReport} {l : List UInt8} {b : UInt8} {ls : List (List UInt8)}

/-- A line so far may be of the protocol. -/
def Undecided (l : List UInt8) : Prop := l <+: protoPrefix ∨ protoPrefix <+: l

theorem undecided_concat : Undecided (l ++ [b]) ↔
    Undecided l ∧ ¬ (l.length < protoPrefix.length ∧ protoPrefix[l.length]? ≠ some b) := by
  have hnext (h : l ++ [b] <+: protoPrefix) : protoPrefix[l.length]? = some b := by
    obtain ⟨rest, hrest⟩ := h
    rw [← hrest, append_assoc, List.getElem?_append_right (Nat.le_refl _), Nat.sub_self]
    rfl
  constructor
  · rintro (h | h)
    · exact ⟨.inl ((prefix_append ..).trans h), fun hno => hno.2 (hnext h)⟩
    · rcases List.prefix_concat_iff.mp h with heq | h
      · have hall : l ++ [b] <+: protoPrefix := heq ▸ List.prefix_refl _
        exact ⟨.inl ((prefix_append ..).trans hall), fun hno => hno.2 (hnext hall)⟩
      · exact ⟨.inr h, fun hno => absurd h.length_le (Nat.not_le.mpr hno.1)⟩
  · rintro ⟨h | h, hno⟩
    · obtain ⟨rest, hrest⟩ := h
      cases rest with
      | nil =>
        rw [append_nil] at hrest
        exact .inr (hrest ▸ prefix_append ..)
      | cons c rest =>
        have hc : protoPrefix[l.length]? = some c := by
          rw [← hrest, List.getElem?_append_right (Nat.le_refl _), Nat.sub_self]
          rfl
        have hlen : l.length < protoPrefix.length := by
          rw [← hrest, List.length_append, List.length_cons]
          omega
        have hbc : c = b := by
          by_contra hne
          exact hno ⟨hlen, fun heq => hne (Option.some.inj (hc.symm.trans heq))⟩
        exact .inl ⟨rest, by rw [← hrest, ← hbc, append_assoc]; rfl⟩
    · exact .inr (h.trans (prefix_append ..))

theorem feed_append (s : LineScraper) (xs ys : List UInt8) : s.feed (xs ++ ys) =
    (s.feed xs).bind fun r => (feed r.1 ys).map fun r' => (r'.1, r.2 ++ r'.2) := by
  induction xs generalizing s with
  | nil =>
    rw [nil_append, feed, Except.bind]
    cases s.feed ys <;> rfl
  | cons b xs ih =>
    rw [List.cons_append, feed, feed]
    cases s.push b with
    | error e => rfl
    | ok r =>
      simp only [Except.bind, ih]
      cases feed r.1 xs with
      | error e => rfl
      | ok r' =>
        simp only [Except.map]
        cases feed r'.1 ys with
        | error e => rfl
        | ok r'' => exact congrArg (fun out => Except.ok (r''.1, out)) (append_assoc ..).symm

/-- Where the stream is cut does not matter. -/
theorem feeds_eq (s : LineScraper) (reads : List (List UInt8)) : s.feeds reads = s.feed reads.flatten := by
  induction reads generalizing s with
  | nil => rfl
  | cons bytes reads ih =>
    rw [feeds, List.flatten_cons, feed_append]
    simp only [ih]

/-- **A line that goes on** is held while it is undecided. -/
theorem feed_partial (r : ServerReport) (h : newline ∉ l) :
    (Undecided l → feed { report := r } l = .ok ({ report := r, held := l }, [])) ∧
      (¬ Undecided l → feed { report := r } l = .ok ({ report := r, passthrough := true }, l)) := by
  induction l using List.reverseRecOn with
  | nil => exact ⟨fun _ => rfl, fun hno => absurd (.inl (List.nil_prefix)) hno⟩
  | append_singleton l b ih =>
    rw [List.mem_append, List.mem_singleton, not_or] at h
    obtain ⟨hheld, hpassed⟩ := ih h.1
    have hb : b ≠ newline := Ne.symm h.2
    rw [undecided_concat, feed_append]
    refine ⟨fun ⟨hl, hnext⟩ => ?_, fun hno => ?_⟩
    · rw [hheld hl]
      simp only [Except.bind, feed, push, Bool.or_self, Bool.false_eq_true, if_false, if_neg hb, if_neg hnext, Except.map]
      rfl
    · by_cases hl : Undecided l
      · have hnext := not_not.mp fun hn => hno ⟨hl, hn⟩
        rw [hheld hl]
        simp only [Except.bind, feed, push, Bool.or_self, Bool.false_eq_true, if_false, if_neg hb, if_pos hnext, Except.map,
          nil_append, append_nil]
      · rw [hpassed hl]
        simp only [Except.bind, feed, push, Bool.true_or, if_true, Except.map, decide_eq_true hb]
        rfl

/-- **A line that is complete**: it is fed to the report, or it has been shown. -/
theorem feed_line (r : ServerReport) (h : newline ∉ l) : feed { report := r } (l ++ [newline]) =
    if IsProto l then (r.feed (lineText l)).map fun fed => ({ report := fed.1, done := fed.2 }, [])
    else .ok ({ report := r }, l ++ [newline]) := by
  obtain ⟨hheld, hpassed⟩ := feed_partial r h
  rw [feed_append]
  by_cases hl : Undecided l
  · rw [hheld hl]
    by_cases hp : IsProto l
    · have hpre : protoPrefix.isPrefixOf l = true := List.isPrefixOf_iff_prefix.mpr hp
      rw [if_pos hp]
      simp only [Except.bind, feed, push, Bool.or_self, Bool.false_eq_true, if_false, if_true, hpre, lineText]
      cases r.feed (trimCrs (lossy l)) <;> rfl
    · have hpre : ¬ protoPrefix.isPrefixOf l = true := fun h => hp (List.isPrefixOf_iff_prefix.mp h)
      rw [if_neg hp]
      simp only [Except.bind, feed, push, Bool.or_self, Bool.false_eq_true, if_false, if_true, if_neg hpre]
      exact congrArg (fun out => Except.ok (_, out)) (append_nil _)
  · rw [hpassed hl, if_neg fun hp : IsProto l => hl (.inr hp)]
    rfl

theorem feed_done (r : ServerReport) (bs : List UInt8) :
    feed { report := r, done := true } bs = .ok ({ report := r, done := true }, bs) := by
  induction bs with
  | nil => rfl
  | cons b bs ih =>
    rw [feed, push]
    simp only [Bool.or_true, if_true, Except.bind, Bool.false_and, ih, Except.map]
    rfl

/-! ### Streams -/

/-- What has been shown of a stream and what is held of it, after the lines `ls` and the bytes `last`. -/
structure Scraped (stream : List UInt8) (s : LineScraper) (shown : List UInt8) : Prop where
  /-- the stream without the lines of the protocol -/
  all : shown ++ s.held = kept (splitLines stream).1 ++ (splitLines stream).2
  /-- nothing is shown of a line that may be of the protocol -/
  hidden : (∀ l ∈ (splitLines stream).1, ¬ IsConnect l) → Undecided (splitLines stream).2 →
    shown = kept (splitLines stream).1
  /-- of another line little is delayed -/
  prompt : ¬ IsProto (splitLines stream).2 → s.held.length ≤ protoPrefix.length
  /-- the report is that of the piped driver -/
  report : ∀ text, stream = Utf8.encode text → (splitLines stream).2 = [] → bootstrapPiped stream = .ok s.report

/-- No line of the protocol is malformed, up to the one that says where to connect. -/
def WellFormed (ls : List (List UInt8)) : Prop := ∀ l ∈ untilConnect ls, IsProto l → ¬ Malformed l

/-- What a stream leaves, by its lines. -/
def Left (r : ServerReport) (stream : List UInt8) (s : LineScraper) (shown : List UInt8) : Prop :=
  let ls := (splitLines stream).1
  let last := (splitLines stream).2
  ((∀ l ∈ ls, ¬ IsConnect l) → (Undecided last → s.held = last ∧ shown = kept ls) ∧
      (¬ Undecided last → s.held = [] ∧ shown = kept ls ++ last)) ∧
    ((∃ l ∈ ls, IsConnect l) → s.held = [] ∧ shown = kept ls ++ last) ∧
    ((∀ l ∈ ls, ∃ t, l = Utf8.encode t) → pipedLoop r (ls.map (·, true)) = .ok s.report)

theorem WellFormed.head (h : WellFormed (l :: ls)) (hp : IsProto l) (r : ServerReport) :
    ∃ r', r.feed (lineText l) = .ok (r', decide (IsConnect l)) := by
  have hl : l ∈ untilConnect (l :: ls) := by
    rw [untilConnect]
    split <;> exact List.mem_cons_self
  obtain ⟨⟨r', fin⟩, hfed⟩ := feed_ok_of (h l hl hp) r
  refine ⟨r', ?_⟩
  rw [hfed, feed_fin hfed]
  exact congrArg (fun fin => Except.ok (r', fin)) (decide_eq_decide.mpr ⟨fun h => ⟨hp, h⟩, And.right⟩)

theorem WellFormed.tail (h : WellFormed (l :: ls)) (hno : ¬ IsConnect l) : WellFormed ls := by
  rw [WellFormed, untilConnect, if_neg hno] at h
  exact fun l' hl' => h l' (List.mem_cons_of_mem _ hl')

theorem kept_cons (hno : ¬ IsConnect l) :
    kept (l :: ls) = (if IsProto l then [] else l ++ [newline]) ++ kept ls := by
  rw [kept, untilConnect, if_neg hno, List.length_cons, List.drop_succ_cons, kept]
  by_cases hp : IsProto l
  · rw [List.filter_cons_of_neg (by simpa using hp), if_pos hp]
    rfl
  · rw [List.filter_cons_of_pos (by simpa using hp), if_neg hp, joined, List.flatMap_cons, append_assoc, ← joined,
      append_assoc]

theorem kept_connect (h : IsConnect l) : kept (l :: ls) = joined ls := by
  rw [kept, untilConnect, if_pos h, List.filter_cons_of_neg (by simpa using h.1)]
  rfl

/-- The piped driver on the first of its lines. -/
theorem pipedLoop_line {r : ServerReport} {text : List Char} {fed : ServerReport × Bool} {ls : List (List UInt8 × Bool)}
    (h : r.feed (stripCr text) = .ok fed) :
    pipedLoop r ((encode text, true) :: ls) = if fed.2 then .ok fed.1 else pipedLoop fed.1 ls := by
  rw [pipedLoop, fromUtf8_encode]
  dsimp only
  rw [if_pos rfl, h]
  rfl

/-- **What a stream leaves**, line by line. -/
theorem feed_stream (stream : List UInt8) : ∀ r : ServerReport, WellFormed (splitLines stream).1 →
    ∃ s shown, feed { report := r } stream = .ok (s, shown) ∧ Left r stream s shown := by
  induction stream using stream_induction with
  | hrest l h =>
    intro r _
    obtain ⟨hheld, hpassed⟩ := feed_partial r h
    simp only [Left, splitLines_of_not_mem h]
    by_cases hl : Undecided l
    · exact ⟨_, _, hheld hl, fun _ => ⟨fun _ => ⟨rfl, rfl⟩, fun hno => absurd hl hno⟩, fun ⟨_, hmem, _⟩ => (nomatch hmem), fun _ => rfl⟩
    · exact ⟨_, _, hpassed hl, fun _ => ⟨fun hl' => absurd hl' hl, fun _ => ⟨rfl, rfl⟩⟩, fun ⟨_, hmem, _⟩ => (nomatch hmem), fun _ => rfl⟩
  | hline l bs h ih =>
    intro r hwell
    simp only [Left, splitLines_line h] at hwell ⊢
    have hcut : l ++ newline :: bs = (l ++ [newline]) ++ bs := by rw [append_assoc]; rfl
    rw [hcut, feed_append, feed_line r h]
    by_cases hp : IsProto l
    · obtain ⟨r', hfed⟩ := hwell.head hp r
      rw [if_pos hp, hfed]
      by_cases hconnect : IsConnect l
      · rw [decide_eq_true hconnect]
        refine ⟨{ report := r', done := true }, bs, ?_, fun hno => absurd hconnect (hno l List.mem_cons_self), fun _ => ?_, fun htexts => ?_⟩
        · simp only [Except.map, Except.bind, feed_done, nil_append]
        · rw [kept_connect hconnect, joined_splitLines]
          exact ⟨rfl, rfl⟩
        · obtain ⟨⟨text, rfl⟩, -⟩ := forall_mem_cons.mp htexts
          rw [lineText, lossy_encode, decide_eq_true hconnect] at hfed
          rw [List.map_cons, pipedLoop_line (feed_stripCr text hfed)]
          rfl
      · obtain ⟨s, shown, hrun, hopen, hclosed, hpiped⟩ := ih r' (hwell.tail hconnect)
        rw [decide_eq_false hconnect]
        refine ⟨s, shown, ?_, ?_, ?_, fun htexts => ?_⟩
        · simp only [Except.map, Except.bind, hrun, nil_append]
        · rw [kept_cons hconnect, if_pos hp, forall_mem_cons]
          exact fun hno => hopen hno.2
        · rw [kept_cons hconnect, if_pos hp, List.exists_mem_cons_iff]
          exact fun hsome => hclosed (hsome.resolve_left hconnect)
        · obtain ⟨⟨text, rfl⟩, hrest⟩ := forall_mem_cons.mp htexts
          rw [lineText, lossy_encode, decide_eq_false hconnect] at hfed
          rw [List.map_cons, pipedLoop_line (feed_stripCr text hfed)]
          exact hpiped hrest
    · have hconnect : ¬ IsConnect l := fun hc => hp hc.1
      obtain ⟨s, shown, hrun, hopen, hclosed, hpiped⟩ := ih r (hwell.tail hconnect)
      rw [if_neg hp]
      refine ⟨s, l ++ [newline] ++ shown, ?_, ?_, ?_, fun htexts => ?_⟩
      · simp only [Except.map, Except.bind, hrun]
      · rw [kept_cons hconnect, if_neg hp, forall_mem_cons]
        intro hno
        obtain ⟨hheld, hpassed⟩ := hopen hno.2
        refine ⟨fun hl => ⟨(hheld hl).1, by rw [(hheld hl).2]⟩, fun hl => ⟨(hpassed hl).1, by rw [(hpassed hl).2]; simp⟩⟩
      · rw [kept_cons hconnect, if_neg hp, List.exists_mem_cons_iff]
        intro hsome
        obtain ⟨hheld, hshown⟩ := hclosed (hsome.resolve_left hconnect)
        exact ⟨hheld, by rw [hshown]; simp⟩
      · obtain ⟨⟨text, rfl⟩, hrest⟩ := forall_mem_cons.mp htexts
        have hother : ¬ "POSH ".toList <+: stripCr text := by
          intro hpre
          have htext : "POSH ".toList <+: text := by
            rw [stripCr] at hpre
            split at hpre
            · exact hpre.trans (List.dropLast_prefix _)
            · exact hpre
          obtain ⟨rest, rfl⟩ := htext
          exact hp ⟨encode rest, (encode_append "POSH ".toList rest).symm⟩
        rw [List.map_cons, pipedLoop_line (feed_other hother)]
        exact hpiped hrest

/-- **The lines of the protocol are hidden and nothing else**, however the stream is cut into reads. -/
theorem scraped (reads : List (List UInt8)) (hwell : WellFormed (splitLines reads.flatten).1) :
    ∃ s shown, feeds {} reads = .ok (s, shown) ∧ feed {} reads.flatten = .ok (s, shown) ∧
      Scraped reads.flatten s shown := by
  obtain ⟨s, shown, hrun, hopen, hclosed, hpiped⟩ := feed_stream reads.flatten {} hwell
  refine ⟨s, shown, (feeds_eq _ _).trans hrun, hrun, ?_, fun hno hl => ((hopen hno).1 hl).2, fun hp => ?_, ?_⟩
  · by_cases hconnect : ∃ l ∈ (splitLines reads.flatten).1, IsConnect l
    · rw [(hclosed hconnect).1, (hclosed hconnect).2, List.append_nil]
    · have hno : ∀ l ∈ (splitLines reads.flatten).1, ¬ IsConnect l := fun l hl hc => hconnect ⟨l, hl, hc⟩
      by_cases hl : Undecided (splitLines reads.flatten).2
      · rw [((hopen hno).1 hl).1, ((hopen hno).1 hl).2]
      · rw [((hopen hno).2 hl).1, ((hopen hno).2 hl).2, List.append_nil]
  · by_cases hconnect : ∃ l ∈ (splitLines reads.flatten).1, IsConnect l
    · rw [(hclosed hconnect).1]
      exact Nat.zero_le _
    · have hno : ∀ l ∈ (splitLines reads.flatten).1, ¬ IsConnect l := fun l hl hc => hconnect ⟨l, hl, hc⟩
      by_cases hl : Undecided (splitLines reads.flatten).2
      · rw [((hopen hno).1 hl).1]
        exact (hl.resolve_right hp).length_le
      · rw [((hopen hno).2 hl).1]
        exact Nat.zero_le _
  · intro text htext hlast
    have hlines := (splitLines_encode text).1
    rw [← htext] at hlines
    simp only [bootstrapPiped, hlast, if_true, List.append_nil]
    exact hpiped hlines

/-- A prompt, and a line of the protocol cut in two. -/
theorem scraped_prompt :
    ∃ s shown, feeds {} [[0x3E, 0x0A, 0x50, 0x4F], [0x53, 0x48, 0x20, 0x78, 0x0A]] = .ok (s, shown) ∧
      feed {} [[0x3E, 0x0A, 0x50, 0x4F], [0x53, 0x48, 0x20, 0x78, 0x0A]].flatten = .ok (s, shown) ∧
      Scraped [[0x3E, 0x0A, 0x50, 0x4F], [0x53, 0x48, 0x20, 0x78, 0x0A]].flatten s shown := by
  refine scraped [[0x3E, 0x0A, 0x50, 0x4F], [0x53, 0x48, 0x20, 0x78, 0x0A]] ?_
  have hfed : ServerReport.feed {} (lineText [0x50, 0x4F, 0x53, 0x48, 0x20, 0x78]) = .ok ({}, false) := by decide +kernel
  intro l hl hp
  rcases List.mem_cons.mp hl with rfl | hl
  · exact absurd hp (by decide)
  · rw [List.mem_singleton.mp hl]
    rintro ⟨e, he⟩
    cases hfed.symm.trans he

end LineScraper

end Posh
