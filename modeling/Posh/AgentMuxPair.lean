/-
**Two agent multiplexers.**

The multiplexers at the two ends of a connection, with every instruction ever sent by either and the history
of one channel.  For that channel they are a `ChannelPair`: each thing a multiplexer does, whatever it does
on other channels meanwhile, is a few steps of the pair.  What is proved of the pair then holds of every
channel of the multiplexers, as long as neither has closed as many channels as it remembers.
-/

import Posh.AgentMux

set_option autoImplicit false

namespace Posh

open List (append_nil mem_append mem_cons mem_cons_self)
open Function (comp_apply update update_of_ne update_self)
open Runs
open Keyed
open ChannelPair
open AgentEnd

/-! ### The history of a channel -/

structure ChannelHistory where
  /-- the bytes queued -/
  queued : Bytes := []
  /-- the records surfaced -/
  surfaced : List AgentRecord := []
  /-- how the end was told to end the channel, and how much was queued then -/
  ended : Option (AgentTerm × ℕ) := none

/-- A record of the local machinery that goes to the channel `c`. -/
def ChannelHistory.queue (h : ChannelHistory) (c : ChannelId) (m : AgentChannelMux)
    (rec : AgentRecord) : ChannelHistory :=
  match m.byRec rec.channel with
  | none => h
  | some ch =>
    if ch.id ≠ c then h
    else
      match rec.kind with
      | .open => h
      | .data => { h with queued := h.queued ++ rec.payload }
      | .close | .fail =>
        if ch.termFlag.isSome then h
        else { h with ended := some (if rec.kind = .fail then .fail else .close, h.queued.length) }

/-- The end of the channel `c` at a multiplexer. -/
def AgentChannelMux.endOf (m : AgentChannelMux) (c : ChannelId) (h : ChannelHistory) : AgentEnd where
  life := m.lifeOf c
  queued := h.queued
  surfaced := h.surfaced
  ended := h.ended

/-! ### Two multiplexers -/

/-- Two multiplexers, everything sent, and the history of one channel. -/
structure AgentMuxPair where
  mux : Role → AgentChannelMux
  sent : Role → List (ChannelId × AgentPayload) := fun _ => []
  hist : Role → ChannelHistory := fun _ => {}

namespace AgentMuxPair

/-- Both fresh. -/
def init (congestion : Role → Bool) : AgentMuxPair := { mux := fun r => .new r (congestion r) }

/-- What can happen.  An instruction in flight is named by its position in the order of sending. -/
inductive Act where
  /-- the local machinery queues records -/
  | queue (r : Role) (records : List AgentRecord)
  /-- everything due is drained -/
  | outgoing (r : Role) (now rto : ℕ)
  /-- the `i`-th instruction of the other end arrives -/
  | deliver (r : Role) (i : ℕ)

/-- A multiplexer changes, and the history of the channel at its end. -/
def setMux (s : AgentMuxPair) (r : Role) (m : AgentChannelMux) (h : ChannelHistory) : AgentMuxPair :=
  { s with mux := Function.update s.mux r m, hist := Function.update s.hist r h }

/-- One step, with the history of the channel `c`. -/
def step (c : ChannelId) (s : AgentMuxPair) : Act → Option AgentMuxPair
  | .queue r records =>
    let x := records.foldl (fun x rec => (x.1.queueRecord rec, x.2.queue c x.1 rec))
      (s.mux r, s.hist r)
    some (s.setMux r x.1 x.2)
  | .outgoing r now rto =>
    let x := (s.mux r).outgoing now rto
    some
      { s.setMux r x.1 (s.hist r) with
        sent := Function.update s.sent r (s.sent r ++ x.2) }
  | .deliver r i =>
    (s.sent r.other)[i]?.map fun q =>
      let x := (s.mux r).receive q.1 q.2
      s.setMux r x.1
        (if q.1 = c then { s.hist r with surfaced := (s.hist r).surfaced ++ x.2 } else s.hist r)

theorem foldl_queue (c : ChannelId) (records : List AgentRecord) (m : AgentChannelMux)
    (h : ChannelHistory) :
    (records.foldl (fun x rec => (x.1.queueRecord rec, x.2.queue c x.1 rec)) (m, h)).1 =
      m.queueRecords records := by
  induction records generalizing m h with
  | nil => rfl
  | cons rec records ih => rw [List.foldl_cons, ih]; rfl

end AgentMuxPair

/-! ### Following a multiplexer -/

/-- An end of a channel can get from `e` to `e'` and send `out` on the way. -/
def Follows (r : Role) (e e' : AgentEnd) (out : List AgentPayload) : Prop :=
  ∀ p : ChannelPair, p.ends r = e → ∃ bs p', Runs.exec ChannelPair.step p bs = some p' ∧
    p'.ends r = e' ∧ p'.ends r.other = p.ends r.other ∧
      (∀ r' q, q ∈ p.sent r' → q ∈ p'.sent r') ∧ ∀ q ∈ out, q ∈ p'.sent r

section Follows

variable {r : Role} {e e' e'' : AgentEnd} {out out' : List AgentPayload} {q : AgentPayload}

theorem Follows.refl (r : Role) (e : AgentEnd) : Follows r e e [] := by
  intro p hp
  exact ⟨[], p, rfl, hp, rfl, fun _ _ hq => hq, nofun⟩

theorem Follows.of_eq (h : e = e') : Follows r e e' [] := h ▸ .refl r e

theorem Follows.trans (h : Follows r e e' out) (h' : Follows r e' e'' out') : Follows r e e'' (out ++ out') := by
  intro p hp
  obtain ⟨bs, p', hrun, hself, hother, hsent, hout⟩ := h p hp
  obtain ⟨bs', p'', hrun', hself', hother', hsent', hout'⟩ := h' p' hself
  refine ⟨bs ++ bs', p'', exec_append_eq_some.2 ⟨p', hrun, hrun'⟩, hself',
    hother'.trans hother, fun r' q hq => hsent' r' q (hsent r' q hq), fun q hq => ?_⟩
  rcases mem_append.1 hq with hq | hq
  · exact hsent' r q (hout q hq)
  · exact hout' q hq

theorem Follows.setEnd (act : ChannelPair.Act)
    (h : ∀ p : ChannelPair, p.ends r = e → p.step act = some (p.setEnd r e')) : Follows r e e' [] := by
  intro p hp
  refine ⟨[act], p.setEnd r e', by rw [exec_singleton]; exact h p hp, p.setEnd_ends_self r e',
    p.setEnd_ends_other r e', fun _ _ hq => hq, nofun⟩

theorem Follows.emit (act : ChannelPair.Act)
    (h : ∀ p : ChannelPair, p.ends r = e → p.step act = some (p.emit r q)) : Follows r e e [q] := by
  intro p hp
  have hmem : q ∈ (p.emit r q).sent r := by
    show q ∈ update p.sent r (p.sent r ++ [q]) r
    rw [update_self]
    exact List.mem_append_right _ mem_cons_self
  refine ⟨[act], p.emit r q, by rw [exec_singleton]; exact h p hp, hp, rfl,
    fun r' q' hq' => ?_, fun q' hq' => List.mem_singleton.1 hq' ▸ hmem⟩
  show q' ∈ update p.sent r (p.sent r ++ [q]) r'
  by_cases hr : r' = r
  · subst hr
    rw [update_self]
    exact List.mem_append_left _ hq'
  · rw [update_of_ne hr]
    exact hq'

end Follows

/-! ### Queueing -/

namespace AgentChannelMux

variable {m m' : AgentChannelMux} {c : ChannelId} {r : Role} {h : ChannelHistory} {sent : Option AgentPayload}

theorem endOf_congr (hlife : m'.lifeOf c = m.lifeOf c) : m'.endOf c h = m.endOf c h := by
  rw [endOf, endOf, hlife]

theorem endOf_eq {life : ChannelLife} (hlife : m.lifeOf c = life) : m.endOf c h =
    { life, queued := h.queued, surfaced := h.surfaced, ended := h.ended } := by
  rw [endOf, hlife]

theorem follows_queueOpen (hm : m.WellFormed) (hrole : m.role = r) {rec : AgentRecord}
    (hkind : rec.kind = .open) : (m.queueRecord rec).WellFormed ∧ (m.queueRecord rec).role = r ∧
      Follows r (m.endOf c h) ((m.queueRecord rec).endOf c (h.queue c m rec)) [] := by
  have hhist : h.queue c m rec = h := by
    unfold ChannelHistory.queue
    split
    · rfl
    · split
      · rfl
      · rw [hkind]
  rw [hhist]
  by_cases hno : m.role ≠ .server ∨ (m.byRec rec.channel).isSome = true
  · have hsame : m.queueRecord rec = m := by
      unfold queueRecord
      rw [hkind]
      exact if_pos hno
    rw [hsame]
    exact ⟨hm, hrole, .refl _ _⟩
  · have hserver : m.role = .server := by
      by_contra hne
      exact hno (.inl hne)
    have hopen : m.queueRecord rec =
        { m with
          alloc := (m.alloc.next kindAgent).2
          channels := m.channels ++ [.new (m.alloc.next kindAgent).1 rec.channel true] } := by
      unfold queueRecord
      rw [hkind]
      exact if_neg hno
    obtain ⟨hord, hnext⟩ := m.alloc.next_ordinal kindAgent
    have hnew : (m.alloc.next kindAgent).1 ∉ m.names := fun hmem => by
      have hlt := hm.fresh hserver _ hmem
      omega
    obtain ⟨hnames, hself, hother⟩ := lifeOf_append (.new (m.alloc.next kindAgent).1 rec.channel true) hnew
    rw [hopen]
    refine ⟨⟨hnames.nodup_iff.2 (List.nodup_cons.2 ⟨hnew, hm.nodup⟩), fun _ c' hc' => ?_⟩, hrole, ?_⟩
    · show c'.ordinal < (m.alloc.next kindAgent).2.nextOrdinal (kindAgent &&& 0x7f)
      rw [hnext]
      rcases mem_cons.1 (hnames.mem_iff.1 hc') with heq | hold
      · have heq' : c' = (m.alloc.next kindAgent).1 := heq
        rw [heq', hord]
        omega
      · have hlt := hm.fresh hserver c' hold
        omega
    · by_cases hc : c = (m.alloc.next kindAgent).1
      · subst hc
        rw [hserver] at hrole
        subst hrole
        refine .setEnd (.open_ rec.channel) fun p hp => ?_
        have hun : (p.ends .server).life = .unopened := by
          rw [hp]
          exact lifeOf_unopened hnew
        rw [step, hun, hp]
        exact congrArg (fun e => some (p.setEnd .server e)) (endOf_eq hself).symm
      · exact .of_eq (endOf_congr (hother c hc)).symm

theorem follows_updateRec (hm : m.WellFormed) (hrole : m.role = r) {rec : AgentRecord}
    {f : MuxChannel → MuxChannel} (hqueue : m.queueRecord rec = { m with
      channels := updateFirst (fun ch => ch.recId == rec.channel) f m.channels })
    (hf : ∀ x, (f x).id = x.id)
    (hfollows : ∀ ch, m.byRec rec.channel = some ch → ch.id = c → Follows r
      { life := .live ch.toChannelCore, queued := h.queued, surfaced := h.surfaced, ended := h.ended }
      { life := .live (f ch).toChannelCore, queued := (h.queue c m rec).queued,
        surfaced := (h.queue c m rec).surfaced, ended := (h.queue c m rec).ended } []) :
    (m.queueRecord rec).WellFormed ∧ (m.queueRecord rec).role = r ∧
      Follows r (m.endOf c h) ((m.queueRecord rec).endOf c (h.queue c m rec)) [] := by
  obtain ⟨hm', hself, hother⟩ :=
    lifeOf_updateFirst (p := fun ch => ch.recId == rec.channel) hm fun x _ => hf x
  rw [hqueue]
  refine ⟨hm', hrole, ?_⟩
  by_cases hc : ∃ ch, m.byRec rec.channel = some ch ∧ ch.id = c
  · obtain ⟨ch, hch, rfl⟩ := hc
    rw [endOf_eq (lifeOf_live hm (List.mem_of_find?_eq_some hch)), endOf_eq (hself ch hch)]
    exact hfollows ch hch rfl
  · have hhist : h.queue c m rec = h := by
      unfold ChannelHistory.queue
      split
      · rfl
      · rename_i ch hch
        exact if_pos fun heq => hc ⟨ch, hch, heq⟩
    rw [hhist]
    exact .of_eq (endOf_congr (hother c fun ch hch heq => hc ⟨ch, hch, heq⟩)).symm

/-- **A record that is queued is a step of its channel.** -/
theorem follows_queueRecord (hm : m.WellFormed) (hrole : m.role = r) (rec : AgentRecord) :
    (m.queueRecord rec).WellFormed ∧ (m.queueRecord rec).role = r ∧
      Follows r (m.endOf c h) ((m.queueRecord rec).endOf c (h.queue c m rec)) [] := by
  cases hkind : rec.kind with
  | «open» => exact follows_queueOpen hm hrole hkind
  | data =>
    have hqueue : m.queueRecord rec = { m with
        channels := updateFirst (fun ch => ch.recId == rec.channel)
          (fun ch => { ch with outbox := ch.outbox.push rec.payload, sendDue := true })
          m.channels } := by
      rw [queueRecord, hkind]
    refine follows_updateRec hm hrole hqueue (fun _ => rfl) fun ch hch hc => ?_
    have hhist : h.queue c m rec = { h with queued := h.queued ++ rec.payload } := by
      rw [ChannelHistory.queue, hch]
      simp only [hc, ne_eq, not_true, if_false, hkind]
    rw [hhist]
    refine .setEnd (.push r rec.payload) fun p hp => ?_
    simp only [step, hp]
  | close | fail =>
    have hqueue : m.queueRecord rec = { m with
        channels := updateFirst (fun ch => ch.recId == rec.channel)
          (fun ch =>
            if ch.termFlag.isNone then
              { ch with
                termFlag := some (if rec.kind = .fail then .fail else .close)
                sendDue := true }
            else ch) m.channels } := by
      rw [queueRecord, hkind]
    refine follows_updateRec hm hrole hqueue (fun ch => ?_) fun ch hch hc => ?_
    · split <;> rfl
    · have hhist : h.queue c m rec = if ch.termFlag.isSome then h
          else { h with ended := some (if rec.kind = .fail then .fail else .close, h.queued.length) } := by
        rw [ChannelHistory.queue, hch]
        simp only [hc, ne_eq, not_true, if_false, hkind]
      rw [hhist]
      cases hterm : ch.termFlag with
      | some k =>
        simp only [Option.isSome_some, Option.isNone_some, if_true, Bool.false_eq_true, if_false]
        exact .refl _ _
      | none =>
        simp only [Option.isSome_none, Option.isNone_none, if_true, Bool.false_eq_true, if_false]
        refine .setEnd (.finish r (if rec.kind = .fail then .fail else .close)) fun p hp => ?_
        simp only [step, hp, hterm, Option.isSome_none, Bool.false_eq_true, if_false]

/-! ### Receiving -/

/-- The records an instruction surfaces on a live channel. -/
def heardRecords (ch : ChannelCore) (p : AgentPayload) : List AgentRecord :=
  ch.surfaces p ++ if p.ends then [ch.termRecord p.term] else []

/-- What a live channel becomes by an instruction. -/
def heardLife (ch : ChannelCore) (p : AgentPayload) : ChannelLife :=
  if p.ends then .closed ((ch.hear p).entomb (ch.termFlag.getD .close)) else .live (ch.hear p)

theorem heard_eq (e : AgentEnd) (ch : ChannelCore) (p : AgentPayload) :
    e.heard ch p = { e with life := heardLife ch p, surfaced := e.surfaced ++ heardRecords ch p } := by
  unfold heard heardLife heardRecords
  split
  · rw [List.append_assoc]
  · rw [append_nil]

/-- **An instruction on a live channel.** -/
theorem hear_spec (hm : m.WellFormed) {ch : MuxChannel} (hch : ch ∈ m.channels) (p : AgentPayload)
    (out : List AgentRecord) : (m.hear ch p out).1.WellFormed ∧ (m.hear ch p out).1.role = m.role ∧
      (m.hear ch p out).2 = out ++ heardRecords ch.toChannelCore p ∧
        (m.hear ch p out).1.lifeOf ch.id = heardLife ch.toChannelCore p ∧
          ∀ c, c ≠ ch.id → Keeps c m (m.hear ch p out).1 → (m.hear ch p out).1.lifeOf c = m.lifeOf c := by
  have hfound : m.channels.find? (fun x => x.id == ch.id) = some ch :=
    (lookup_eq_some hm.channels).2 ⟨hch, rfl⟩
  have hm' : { m with windowProgress := m.windowProgress || progress ch p }.WellFormed :=
    hm.of_perm (.refl _) rfl rfl
  cases hends : p.ends with
  | true =>
    have hhear : m.hear ch p out = (_, _) := if_pos hends
    rw [hhear]
    obtain ⟨hremoved, hnew, hothers⟩ := lifeOf_remove hm' (perm_eraseP hfound)
    have hord : m.role = .server → ch.id.ordinal < m.alloc.nextOrdinal (kindAgent &&& 0x7f) :=
      fun hserver => hm.fresh hserver ch.id
        (List.mem_append_left _ (List.mem_map_of_mem hch))
    obtain ⟨hwf, hself, hother⟩ := lifeOf_tombstone hremoved
      (t :=
        { id := ch.id
          flag := ch.termFlag.getD .close
          finalBase := (hearing ch p).outbox.endOffset
          finalAck := (hearing ch p).inbox.nextOffset
          echoDue := true }) hnew hord
    refine ⟨hwf, rfl, ?_, ?_, fun c hc hkeeps => ?_⟩
    · have hkind : (if p.fails then RecordKind.fail else .close) = p.term.kind := by
        unfold AgentPayload.term
        split <;> rfl
      rw [heardRecords, if_pos hends, hkind, List.append_assoc]
      rfl
    · rw [heardLife, if_pos hends]
      exact hself
    · have hsub : (m.channels.eraseP fun x => x.id == ch.id).map (·.id) ⊆ m.channels.map (·.id) :=
        (List.eraseP_sublist.map _).subset
      refine (hother c hc (hkeeps.mono (fun hmem => ?_) (Nat.le_refl _) id)).trans (hothers c hc)
      exact mem_append.2 ((mem_append.1 hmem).imp_left fun h => hsub h)
  | false =>
    have hno : ¬ p.ends = true := by rw [hends]; exact Bool.false_ne_true
    have hhear : m.hear ch p out = (_, _) := if_neg hno
    rw [hhear]
    obtain ⟨hwf, hself, hother⟩ := lifeOf_updateFirst hm' (p := fun x => x.id == ch.id)
      (f := fun _ => hearing ch p) fun x hx => (by simpa using hx : x.id = ch.id).symm
    refine ⟨hwf, rfl, ?_, ?_, fun c hc _ => hother c fun y hy heq => hc ?_⟩
    · rw [heardRecords, if_neg hno, append_nil]
      rfl
    · rw [heardLife, if_neg hno]
      exact hself ch hfound
    · obtain rfl : y = ch := Option.some.inj (hy.symm.trans hfound)
      exact heq.symm

/-- What an instruction does to its channel, as the pair has it: nothing, or what a delivery does. -/
def Delivers (r : Role) (m m' : AgentChannelMux) (id : ChannelId) (p : AgentPayload)
    (out : List AgentRecord) : Prop :=
  (m'.lifeOf id = m.lifeOf id ∧ out = []) ∨
    ∃ recId room, ∀ e : AgentEnd, e.life = m.lifeOf id → e.deliver r recId room p =
      { e with life := m'.lifeOf id, surfaced := e.surfaced ++ out }

/-- **An instruction that opens a channel.** -/
theorem adopt_spec (hm : m.WellFormed) (hrole : m.role = .client) {id : ChannelId} (hid : id ∉ m.names)
    {p : AgentPayload} (hopens : p.opens = true) : (m.adopt id p).1.WellFormed ∧ (m.adopt id p).1.role = .client ∧
      (∀ c, c ≠ id → Keeps c m (m.adopt id p).1 → (m.adopt id p).1.lifeOf c = m.lifeOf c) ∧
        Delivers .client m (m.adopt id p).1 id p (m.adopt id p).2 := by
  have hun := lifeOf_unopened hid
  have hno : ¬ (Role.client = .server ∨ p.opens = false) := by
    rw [hopens]
    rintro (h | h) <;> cases h
  by_cases hfull : m.channels.length ≥ maxAgentChannels
  · have hadopt : m.adopt id p = (_, _) := if_pos hfull
    rw [hadopt]
    obtain ⟨hwf, hself, hother⟩ := lifeOf_tombstone hm
      (t := { id, flag := .fail, finalBase := 0, finalAck := 0, echoDue := true }) hid
      fun h => by rw [hrole] at h; cases h
    refine ⟨hwf, hrole, hother, .inr ⟨0, false, fun e he => ?_⟩⟩
    rw [hun] at he
    rw [deliver, he]
    simp only [if_neg hno, Bool.false_eq_true, if_false, append_nil]
    exact congrArg (fun life => { e with life }) hself.symm
  · have hadopt : m.adopt id p = hear _ _ p _ := if_neg hfull
    obtain ⟨hnames, hlive, hothers⟩ := lifeOf_append (.new id m.nextRecId false) hid
    have hm' : { m with
        nextRecId := m.nextRecId + 1
        channels := m.channels ++ [MuxChannel.new id m.nextRecId false] }.WellFormed :=
      ⟨hnames.nodup_iff.2 (List.nodup_cons.2 ⟨hid, hm.nodup⟩), fun h => by
        have h' : m.role = .server := h
        rw [hrole] at h'
        cases h'⟩
    rw [hadopt]
    obtain ⟨hwf, hrole', hrecords, hself, hother⟩ :=
      hear_spec hm' (List.mem_append_right _ mem_cons_self) p _
    refine ⟨hwf, hrole'.trans hrole, fun c hc hkeeps => ?_, .inr ⟨m.nextRecId, true, fun e he => ?_⟩⟩
    · refine (hother c hc (hkeeps.mono (fun hmem => ?_) (Nat.le_refl _) fun h => h)).trans
        (hothers c hc)
      exact (mem_cons.1 (hnames.mem_iff.1 hmem)).resolve_left hc
    · rw [hun] at he
      rw [deliver, he]
      simp only [if_neg hno, if_true]
      have hself' : (hear { m with
          nextRecId := m.nextRecId + 1
          channels := m.channels ++ [MuxChannel.new id m.nextRecId false] }
          (MuxChannel.new id m.nextRecId false) p
          [{ channel := m.nextRecId, kind := .open, payload := [] }]).1.lifeOf id =
            heardLife { recId := m.nextRecId, openUnconfirmed := false } p := hself
      rw [heard_eq, hrecords, hself', opened]
      simp only [Bool.false_eq_true, if_false, List.append_assoc]
      rfl

/-- **An instruction that arrives.** -/
theorem receive_spec (hm : m.WellFormed) (hrole : m.role = r) (id : ChannelId) (p : AgentPayload) :
    (m.receive id p).1.WellFormed ∧ (m.receive id p).1.role = r ∧
      (∀ c, c ≠ id → Keeps c m (m.receive id p).1 → (m.receive id p).1.lifeOf c = m.lifeOf c) ∧
        Delivers r m (m.receive id p).1 id p (m.receive id p).2 := by
  have hsame : m.WellFormed ∧ m.role = r ∧ (∀ c, c ≠ id → Keeps c m m → m.lifeOf c = m.lifeOf c) ∧
      Delivers r m m id p [] := ⟨hm, hrole, fun _ _ _ => rfl, .inl ⟨rfl, rfl⟩⟩
  unfold receive
  split
  case isTrue => exact hsame
  case isFalse hknown =>
    split
    case isTrue hclosed =>
      split
      case isTrue => exact hsame
      case isFalse =>
        obtain ⟨hwf, hlife⟩ := lifeOf_reanswer hm id
        exact ⟨hwf, hrole, fun c _ _ => hlife c, .inl ⟨hlife id, rfl⟩⟩
    case isFalse hopen =>
      have hclosed : lookup Tombstone.id m.closed id = none := by simpa using hopen
      split
      case h_1 ch hch =>
        have hmem := mem_of_lookup hch
        obtain rfl : ch.id = id := key_of_lookup hch
        obtain ⟨hwf, hrole', hrecords, hself, hother⟩ := hear_spec hm hmem p []
        refine ⟨hwf, hrole'.trans hrole, hother, .inr ⟨0, true, fun e he => ?_⟩⟩
        rw [lifeOf_live hm hmem] at he
        rw [deliver, he, hself, hrecords, List.nil_append]
        exact heard_eq _ _ _
      case h_2 hnone =>
        split
        case isTrue => exact hsame
        case isFalse hopens =>
          have hid : id ∉ m.names := by
            rw [names, mem_append, not_or]
            exact ⟨lookup_eq_none.1 hnone, lookup_eq_none.1 hclosed⟩
          rw [not_or, not_not] at hopens
          rw [hopens.1] at hrole
          subst hrole
          exact adopt_spec hm hopens.1 hid (by simpa using hopens.2)

/-! ### Draining -/

/-- The instructions on a channel, among some. -/
def onChannel (c : ChannelId) (out : List (ChannelId × AgentPayload)) : List AgentPayload :=
  (out.filter fun x => x.1 == c).map (·.2)

theorem onChannel_append (c : ChannelId) (out out' : List (ChannelId × AgentPayload)) :
    onChannel c (out ++ out') = onChannel c out ++ onChannel c out' := by
  rw [onChannel, List.filter_append, List.map_append]
  rfl

theorem mem_onChannel {out : List (ChannelId × AgentPayload)} {q : AgentPayload} :
    q ∈ onChannel c out ↔ (c, q) ∈ out := by
  simp [onChannel]

variable {ch ch' : MuxChannel}

theorem follows_service (hserves : Serves m m' ch ch' sent) (e : AgentEnd) (he : e.life = .live ch.toChannelCore) :
    Follows r e e (onChannel ch.id (sent.toList.map (Prod.mk ch.id))) := by
  cases sent with
  | none => exact .refl r e
  | some q =>
    obtain ⟨take, hle, hq⟩ := hserves.sent q rfl
    have hout : onChannel ch.id (((some q).toList).map (Prod.mk ch.id)) = [q] := by
      simp [onChannel]
    rw [hout, hq]
    refine .emit (.send r take) fun p hp => ?_
    simp only [step, hp, he, hle, if_true]

theorem onChannel_of_ne {id : ChannelId} (hne : c ≠ id) (sent : Option AgentPayload) :
    onChannel c (sent.toList.map (Prod.mk id)) = [] := by
  cases sent with
  | none => rfl
  | some q => simp [onChannel, hne.symm]

theorem retires_eq_some {ch : MuxChannel} {flag : AgentTerm} (hret : retires ch = some flag) :
    ch.termFlag = some flag ∧ ch.outbox.isEmpty = true := by
  rw [retires, Option.filter_eq_some_iff, Bool.and_eq_true] at hret
  exact ⟨hret.1, hret.2.1⟩

theorem drain_closed_le (now rto : ℕ) : ∀ (l : List MuxChannel) (m : AgentChannelMux),
    m.closed.length ≤ (drain now rto m l).1.closed.length := by
  intro l
  induction l with
  | nil => exact fun m => Nat.le_refl _
  | cons ch rest ih =>
    intro m
    rw [drain]
    refine le_trans ?_ (ih _)
    have hclosed := (m.service_serves now rto ch).closed
    split
    · exact le_trans (Nat.le_of_eq (by rw [hclosed])) (length_tombstone_le _ _)
    · exact Nat.le_of_eq (by rw [← hclosed])

variable {rest : List MuxChannel}

theorem names_kept (hserves : Serves m m' ch ch' sent) :
    { m' with channels := m'.channels ++ [ch'] ++ rest }.names =
      { m with channels := m.channels ++ ch :: rest }.names := by
  simp [names, hserves.channels, hserves.closed, hserves.id]

theorem mem_names_retired (hserves : Serves m m' ch ch' sent) {t : Tombstone} (ht : t.id = ch.id)
    (hc : c ∈ { m'.tombstone t with channels := m'.channels ++ rest }.names) :
    c ∈ { m with channels := m.channels ++ ch :: rest }.names := by
  have hcases : c = t.id ∨ c ∈ ({ m' with channels := m'.channels ++ rest } : AgentChannelMux).names :=
    mem_names_tombstone hc
  simp only [names, hserves.channels, hserves.closed] at hcases ⊢
  rcases hcases with rfl | hmem
  · simp [ht]
  · simp only [List.map_append, List.map_cons, mem_append, mem_cons] at hmem ⊢
    rcases hmem with (hmem | hmem) | hmem
    · exact .inl (.inl hmem)
    · exact .inl (.inr (.inr hmem))
    · exact .inr hmem

theorem mem_names_drain (now rto : ℕ) : ∀ (l : List MuxChannel) {m : AgentChannelMux},
    c ∈ (drain now rto m l).1.names → c ∈ { m with channels := m.channels ++ l }.names := by
  intro l
  induction l with
  | nil =>
    intro m hc
    rw [append_nil]
    exact hc
  | cons ch rest ih =>
    intro m hc
    have hserves := m.service_serves now rto ch
    rw [drain] at hc
    have hc' := ih hc
    cases hret : retires (m.service now rto ch).2.1 with
    | some flag =>
      rw [hret] at hc'
      exact mem_names_retired hserves rfl hc'
    | none =>
      rw [hret] at hc'
      exact names_kept hserves ▸ hc'

theorem follows_kept (hm : { m with channels := m.channels ++ ch :: rest }.WellFormed)
    (hserves : Serves m m' ch ch' sent) :
    { m' with channels := m'.channels ++ [ch'] ++ rest }.WellFormed ∧
      Follows r ({ m with channels := m.channels ++ ch :: rest }.endOf c h)
        ({ m' with channels := m'.channels ++ [ch'] ++ rest }.endOf c h)
        (onChannel c (sent.toList.map (Prod.mk ch.id))) := by
  have hsame : SameCores (m.channels ++ ch :: rest) (m'.channels ++ [ch'] ++ rest) := by
    rw [hserves.channels, List.append_assoc, List.singleton_append]
    constructor <;> simp [hserves.id, hserves.core]
  obtain ⟨hwf, hlife⟩ := lifeOf_sameCores hm hsame
  obtain ⟨hwf', hlife'⟩ := lifeOf_fields
    { m' with channels := m'.channels ++ [ch'] ++ rest } hwf rfl hserves.closed hserves.role
    hserves.alloc
  have heq := endOf_congr (h := h) ((hlife' c).trans (hlife c))
  refine ⟨hwf', ?_⟩
  rw [heq]
  by_cases hc : c = ch.id
  · subst hc
    exact follows_service hserves _
      (lifeOf_live hm (List.mem_append_right _ mem_cons_self))
  · rw [onChannel_of_ne hc]
    exact .refl _ _

theorem follows_retired (hm : { m with channels := m.channels ++ ch :: rest }.WellFormed)
    (hserves : Serves m m' ch ch' sent) {flag : AgentTerm} (hret : retires ch' = some flag)
    {t : Tombstone} (ht : t.id = ch.id) (htomb : t.toClosedCore = ch'.toChannelCore.entomb flag)
    (hkeeps : Keeps c { m with channels := m.channels ++ ch :: rest }
      { m'.tombstone t with channels := m'.channels ++ rest }) :
    { m'.tombstone t with channels := m'.channels ++ rest }.WellFormed ∧
      Follows r ({ m with channels := m.channels ++ ch :: rest }.endOf c h)
        ({ m'.tombstone t with channels := m'.channels ++ rest }.endOf c h)
        (onChannel c (sent.toList.map (Prod.mk ch.id))) := by
  obtain ⟨hremoved, hnew, hothers⟩ := lifeOf_remove (l := m.channels ++ rest) hm List.perm_middle
  obtain ⟨hwf, hlife⟩ := lifeOf_fields { m' with channels := m'.channels ++ rest } hremoved
    (by simp only [hserves.channels]) hserves.closed hserves.role hserves.alloc
  have hnew' : t.id ∉ { m' with channels := m'.channels ++ rest }.names := by
    rw [ht, names]
    simp only [hserves.channels, hserves.closed]
    exact hnew
  have hord : m'.role = .server → t.id.ordinal < m'.alloc.nextOrdinal (kindAgent &&& 0x7f) := by
    rw [ht, hserves.role, hserves.alloc]
    refine fun hserver => hm.fresh hserver ch.id (List.mem_append_left _ ?_)
    exact List.mem_map_of_mem (List.mem_append_right _ mem_cons_self)
  obtain ⟨hwf', hself, hother⟩ := lifeOf_tombstone hwf (t := t) hnew' hord
  refine ⟨hwf', ?_⟩
  have hlive := lifeOf_live hm (List.mem_append_right _ mem_cons_self)
  by_cases hc : c = ch.id
  · subst hc
    rw [ht] at hself
    have hend : { m'.tombstone t with channels := m'.channels ++ rest }.endOf ch.id h =
        { life := .closed t.toClosedCore, queued := h.queued, surfaced := h.surfaced,
          ended := h.ended } := endOf_eq hself
    rw [hend, htomb, hserves.core, ← append_nil (onChannel _ _), endOf_eq hlive]
    refine (follows_service hserves _ rfl).trans (.setEnd (.retire r) fun p hp => ?_)
    obtain ⟨hflag, hempty⟩ := retires_eq_some hret
    have hflag' : ch.termFlag = some flag := by
      rw [← congrArg ChannelCore.termFlag hserves.core]
      exact hflag
    have hempty' : ch.outbox.isEmpty = true := by
      rw [← congrArg ChannelCore.outbox hserves.core]
      exact hempty
    simp only [step, hp, hflag', hempty', if_true]
  · rw [onChannel_of_ne hc]
    have hc' : c ≠ t.id := ht ▸ hc
    have hkeeps' : Keeps c { m' with channels := m'.channels ++ rest }
        ({ m' with channels := m'.channels ++ rest }.tombstone t) := by
      refine hkeeps.mono (fun hmem => ?_) (Nat.le_refl _) fun h => h
      simp only [names, hserves.channels, hserves.closed, List.map_append, List.map_cons,
        mem_append, mem_cons] at hmem ⊢
      rcases hmem with (hmem | hmem) | hmem
      · exact .inl (.inl hmem)
      · exact .inl (.inr (.inr hmem))
      · exact .inr hmem
    have hlife' : { m'.tombstone t with channels := m'.channels ++ rest }.lifeOf c =
        { m with channels := m.channels ++ ch :: rest }.lifeOf c :=
      (hother c hc' hkeeps').trans ((hlife c).trans (hothers c hc))
    exact .of_eq (endOf_congr hlife').symm

/-- **Draining is a few steps of each channel**: the channels served already are those of the
multiplexer, and the others wait. -/
theorem follows_drain (c : ChannelId) (h : ChannelHistory) (now rto : ℕ) :
    ∀ (l : List MuxChannel) {m : AgentChannelMux}, { m with channels := m.channels ++ l }.WellFormed → m.role = r →
      Keeps c { m with channels := m.channels ++ l } (drain now rto m l).1 →
      (drain now rto m l).1.WellFormed ∧ (drain now rto m l).1.role = r ∧
        Follows r ({ m with channels := m.channels ++ l }.endOf c h)
          ((drain now rto m l).1.endOf c h) (onChannel c (drain now rto m l).2) := by
  intro l
  induction l with
  | nil =>
    intro m hm hrole _
    rw [append_nil] at hm ⊢
    exact ⟨hm, hrole, .refl _ _⟩
  | cons ch rest ih =>
    intro m hm hrole hkeeps
    have hserves := m.service_serves now rto ch
    rw [drain] at hkeeps ⊢
    simp only at hkeeps ⊢
    rw [onChannel_append]
    cases hret : retires (m.service now rto ch).2.1 with
    | some flag =>
      rw [hret] at hkeeps
      have hle := drain_closed_le now rto rest ((m.service now rto ch).1.tombstone
        { id := ch.id
          flag
          finalBase := (m.service now rto ch).2.1.outbox.endOffset
          finalAck := (m.service now rto ch).2.1.inbox.nextOffset
          echoDue := false })
      obtain ⟨hwf, hfollows⟩ := follows_retired (c := c) (h := h) (r := r) hm hserves hret
        (t :=
          { id := ch.id
            flag
            finalBase := (m.service now rto ch).2.1.outbox.endOffset
            finalAck := (m.service now rto ch).2.1.inbox.nextOffset
            echoDue := false }) rfl rfl
        (hkeeps.mono (fun hc => hc) hle (mem_names_drain now rto rest))
      obtain ⟨hwf', hrole', hrest⟩ := ih hwf (hserves.role.trans hrole)
        (hkeeps.mono (mem_names_retired hserves rfl) (Nat.le_refl _) fun hc => hc)
      exact ⟨hwf', hrole', hfollows.trans hrest⟩
    | none =>
      rw [hret] at hkeeps
      obtain ⟨hwf, hfollows⟩ := follows_kept (c := c) (h := h) (r := r) hm hserves
      obtain ⟨hwf', hrole', hrest⟩ := ih (m := { (m.service now rto ch).1 with
        channels := (m.service now rto ch).1.channels ++ [(m.service now rto ch).2.1] }) hwf
        (hserves.role.trans hrole)
        (hkeeps.mono (fun hc => names_kept hserves ▸ hc) (Nat.le_refl _) fun hc => hc)
      exact ⟨hwf', hrole', hfollows.trans hrest⟩

theorem rollWindow_fields (hm : m.WellFormed) (now rto : ℕ) :
    (m.rollWindow now rto).WellFormed ∧ (m.rollWindow now rto).role = m.role ∧
      ∀ c, (m.rollWindow now rto).lifeOf c = m.lifeOf c := by
  unfold rollWindow
  split
  case isFalse => exact ⟨hm, rfl, fun _ => rfl⟩
  case isTrue =>
    have hsame : SameCores m.channels (m.channels.map fun ch =>
        if ch.budgetStarved then { ch with budgetStarved := false, sendDue := true } else ch) := by
      constructor <;> rw [List.map_map] <;> refine List.map_congr_left fun ch _ => ?_
      · simp only [comp_apply]
        split <;> rfl
      · simp only [comp_apply]
        split <;> rfl
    obtain ⟨hwf, hlife⟩ := lifeOf_sameCores hm hsame
    exact ⟨hwf.of_perm (.refl _) rfl rfl, rfl, hlife⟩

theorem follows_echoes (hm : m.WellFormed) (c : ChannelId) (h : ChannelHistory) :
    Follows r (m.endOf c h) (m.endOf c h) (onChannel c m.echoes) := by
  unfold echoes
  have hall : ∀ t ∈ m.closed.filter (·.echoDue), t ∈ m.closed := fun t ht => List.mem_of_mem_filter ht
  generalize m.closed.filter (·.echoDue) = l at hall
  induction l with
  | nil => exact .refl _ _
  | cons t l ih =>
    rw [List.map_cons, ← List.singleton_append, onChannel_append]
    refine .trans ?_ (ih fun t' ht' => hall t' (List.mem_cons_of_mem _ ht'))
    by_cases hc : t.id = c
    · subst hc
      have hout : onChannel t.id [(t.id, t.toClosedCore.payload)] = [t.toClosedCore.payload] := by
        simp [onChannel]
      have hlife := lifeOf_closed hm (hall t mem_cons_self)
      rw [hout]
      refine .emit (.echo r) fun p hp => ?_
      simp only [step, hp, endOf, hlife]
    · have hout : onChannel c [(t.id, t.toClosedCore.payload)] = [] := by simp [onChannel, hc]
      rw [hout]
      exact .refl _ _

theorem names_outgoing_start (m : AgentChannelMux) (now rto : ℕ) :
    ({ (m.rollWindow now rto).echoed with
      channels := (m.rollWindow now rto).channels.rotateLeft 1 } : AgentChannelMux).names.Perm m.names := by
  have hroll : (m.rollWindow now rto).names = m.names := by
    unfold rollWindow
    split
    case isFalse => rfl
    case isTrue =>
      rw [names, names, List.map_map]
      congr 1
      refine List.map_congr_left fun ch _ => ?_
      simp only [comp_apply]
      split <;> rfl
  rw [← hroll]
  refine ((perm_rotateLeft _).map _).append ?_
  show List.Perm (((m.rollWindow now rto).closed.map _).map _) _
  rw [List.map_map]
  exact .refl _

/-- **What is drained is a few steps of each channel.** -/
theorem follows_outgoing (hm : m.WellFormed) (hrole : m.role = r) (c : ChannelId) (h : ChannelHistory)
    (now rto : ℕ) (hkeeps : Keeps c m (m.outgoing now rto).1) :
    (m.outgoing now rto).1.WellFormed ∧ (m.outgoing now rto).1.role = r ∧
      Follows r (m.endOf c h) ((m.outgoing now rto).1.endOf c h) (onChannel c (m.outgoing now rto).2) := by
  obtain ⟨hroll, hrollrole, hrolllife⟩ := rollWindow_fields hm now rto
  obtain ⟨hechoed, hechoedlife⟩ := lifeOf_echoed hroll
  have hrotate : ((m.rollWindow now rto).channels.rotateLeft 1).Perm
      (m.rollWindow now rto).echoed.channels := perm_rotateLeft _
  obtain ⟨hperm, hpermlife⟩ := lifeOf_perm hechoed hrotate
  obtain ⟨hwf, hrole', hdrain⟩ := follows_drain c h now rto
    ((m.rollWindow now rto).channels.rotateLeft 1)
    (m := { (m.rollWindow now rto).echoed with channels := [] }) hperm (hrollrole.trans hrole)
    (hkeeps.mono (fun hc => (names_outgoing_start m now rto).mem_iff.1 hc) (Nat.le_refl _) fun hc => hc)
  refine ⟨hwf, hrole', ?_⟩
  have hechoes := follows_echoes (r := r) hroll c h
  have hrolled := endOf_congr (h := h) (hrolllife c)
  have hstart : m.endOf c h = { (m.rollWindow now rto).echoed with
      channels := (m.rollWindow now rto).channels.rotateLeft 1 }.endOf c h :=
    (endOf_congr ((hpermlife c).trans ((hechoedlife c).trans (hrolllife c)))).symm
  rw [hrolled] at hechoes
  have hout : (m.outgoing now rto).2 = (m.rollWindow now rto).echoes ++ (drain now rto
      { (m.rollWindow now rto).echoed with channels := [] }
      ((m.rollWindow now rto).channels.rotateLeft 1)).2 := rfl
  rw [hout, onChannel_append]
  exact hechoes.trans (hstart ▸ hdrain)

end AgentChannelMux

/-! ### What is remembered -/

namespace AgentChannelMux

variable (m : AgentChannelMux)

theorem queueRecords_closed (records : List AgentRecord) : (m.queueRecords records).closed = m.closed := by
  unfold queueRecords
  induction records generalizing m with
  | nil => rfl
  | cons rec records ih =>
    rw [List.foldl_cons, ih]
    unfold queueRecord
    split
    · split <;> rfl
    · rfl
    · rfl
    · rfl

theorem outgoing_closed_le (now rto : ℕ) : m.closed.length ≤ (m.outgoing now rto).1.closed.length := by
  have hroll : (m.rollWindow now rto).closed = m.closed := by
    unfold rollWindow
    split <;> rfl
  refine le_trans (Nat.le_of_eq ?_) (drain_closed_le now rto _ _)
  show m.closed.length = ((m.rollWindow now rto).closed.map fun t =>
    { t with echoDue := false }).length
  rw [List.length_map, hroll]

theorem hear_closed_le (ch : MuxChannel) (p : AgentPayload) (out : List AgentRecord) :
    m.closed.length ≤ (m.hear ch p out).1.closed.length := by
  unfold hear
  simp only
  split
  · exact length_tombstone_le _ _
  · exact Nat.le_refl _

theorem receive_closed_le (id : ChannelId) (p : AgentPayload) :
    m.closed.length ≤ (m.receive id p).1.closed.length := by
  unfold receive
  split
  · exact Nat.le_refl _
  · split
    · split
      · exact Nat.le_refl _
      · have hids : (m.reanswer id).closed.map (·.id) = m.closed.map (·.id) :=
          map_updateFirst fun _ _ => rfl
        have hlen := congrArg List.length hids
        rw [List.length_map, List.length_map] at hlen
        exact Nat.le_of_eq hlen.symm
    · split
      · exact hear_closed_le _ _ _ _
      · split
        · exact Nat.le_refl _
        · unfold adopt
          split
          · exact length_tombstone_le _ _
          · exact hear_closed_le { m with
              nextRecId := m.nextRecId + 1
              channels := m.channels ++ [.new id m.nextRecId false] } _ _ _

end AgentChannelMux

/-! ### The simulation -/

namespace AgentMuxPair

open AgentChannelMux

/-- Neither end has closed as many channels as it remembers. -/
def Remembers (s : AgentMuxPair) : Prop := ∀ r, (s.mux r).closed.length < closedChannelMemory

/-- The pair `p` is the channel `c` of the two multiplexers. -/
structure Sim (c : ChannelId) (s : AgentMuxPair) (p : ChannelPair) : Prop where
  wf : ∀ r, (s.mux r).WellFormed ∧ (s.mux r).role = r
  ends : ∀ r, p.ends r = (s.mux r).endOf c (s.hist r)
  sent : ∀ r q, (c, q) ∈ s.sent r → q ∈ p.sent r

section Simulation

variable {c : ChannelId} {s s' : AgentMuxPair} {p p' : ChannelPair} {r : Role} {m : AgentChannelMux}
  {h : ChannelHistory}

theorem setMux_self (s : AgentMuxPair) (r : Role) (m : AgentChannelMux) (h : ChannelHistory) :
    (s.setMux r m h).mux r = m ∧ (s.setMux r m h).hist r = h := by
  constructor
  · show update s.mux r m r = m
    rw [update_self]
  · show update s.hist r h r = h
    rw [update_self]

theorem setMux_other (s : AgentMuxPair) (r : Role) (m : AgentChannelMux) (h : ChannelHistory) :
    (s.setMux r m h).mux r.other = s.mux r.other ∧ (s.setMux r m h).hist r.other = s.hist r.other := by
  constructor
  · show update s.mux r m r.other = s.mux r.other
    rw [update_of_ne r.other_ne]
  · show update s.hist r h r.other = s.hist r.other
    rw [update_of_ne r.other_ne]

theorem Sim.setMux (hsim : Sim c s p) (hwf : m.WellFormed ∧ m.role = r)
    (hself : p'.ends r = m.endOf c h) (hother : p'.ends r.other = p.ends r.other)
    {sent : Role → List (ChannelId × AgentPayload)} (hsent : ∀ r' q, (c, q) ∈ sent r' → q ∈ p'.sent r') :
    Sim c { s.setMux r m h with sent } p' := by
  obtain ⟨hmux, hhist⟩ := s.setMux_self r m h
  obtain ⟨hmux', hhist'⟩ := s.setMux_other r m h
  refine ⟨fun r' => ?_, fun r' => ?_, hsent⟩
  · rcases Role.eq_or_eq_other r r' with rfl | rfl
    · show ((s.setMux r' m h).mux r').WellFormed ∧ ((s.setMux r' m h).mux r').role = r'
      rw [hmux]
      exact hwf
    · show ((s.setMux r m h).mux r.other).WellFormed ∧ ((s.setMux r m h).mux r.other).role = r.other
      rw [hmux']
      exact hsim.wf r.other
  · rcases Role.eq_or_eq_other r r' with rfl | rfl
    · show p'.ends r' = ((s.setMux r' m h).mux r').endOf c ((s.setMux r' m h).hist r')
      rw [hmux, hhist]
      exact hself
    · show p'.ends r.other = ((s.setMux r m h).mux r.other).endOf c ((s.setMux r m h).hist r.other)
      rw [hmux', hhist', hother]
      exact hsim.ends r.other

/-- **Records that are queued are a few steps of each channel.** -/
theorem follows_queue (c : ChannelId) (records : List AgentRecord) : ∀ {m : AgentChannelMux}
    {h : ChannelHistory}, m.WellFormed → m.role = r →
      let x := records.foldl (fun x rec => (x.1.queueRecord rec, x.2.queue c x.1 rec)) (m, h)
      x.1.WellFormed ∧ x.1.role = r ∧ Follows r (m.endOf c h) (x.1.endOf c x.2) [] := by
  induction records with
  | nil => exact fun hm hrole => ⟨hm, hrole, .refl _ _⟩
  | cons rec records ih =>
    intro m h hm hrole
    obtain ⟨hwf, hrole', hfollows⟩ := follows_queueRecord (c := c) (h := h) hm hrole rec
    obtain ⟨hwf', hrole'', hrest⟩ := ih (h := h.queue c m rec) hwf hrole'
    exact ⟨hwf', hrole'', hfollows.trans hrest⟩

/-- **A step of two multiplexers is a few steps of each channel** that neither forgets. -/
theorem simulates_step {a : Act} (hsim : Sim c s p) (hstep : step c s a = some s')
    (hkeeps : ∀ r, Keeps c (s.mux r) (s'.mux r)) : ∃ bs p', exec ChannelPair.step p bs = some p' ∧ Sim c s' p' := by
  cases a with
  | queue r records =>
    rw [step, Option.some.injEq] at hstep
    obtain ⟨hwf, hrole, hfollows⟩ :=
      follows_queue (r := r) c records (h := s.hist r) (hsim.wf r).1 (hsim.wf r).2
    obtain ⟨bs, p', hrun, hself, hother, hsent, -⟩ := hfollows p (hsim.ends r)
    refine ⟨bs, p', hrun, ?_⟩
    rw [← hstep]
    exact hsim.setMux ⟨hwf, hrole⟩ hself hother fun r' q hq => hsent r' q (hsim.sent r' q hq)
  | outgoing r now rto =>
    rw [step, Option.some.injEq] at hstep
    have hkeeps' : Keeps c (s.mux r) ((s.mux r).outgoing now rto).1 := by
      have hr := hkeeps r
      rw [← hstep] at hr
      simpa [AgentMuxPair.setMux] using hr
    obtain ⟨hwf, hrole, hfollows⟩ := follows_outgoing (hsim.wf r).1 (hsim.wf r).2 c (s.hist r) now rto hkeeps'
    obtain ⟨bs, p', hrun, hself, hother, hsent, hout⟩ := hfollows p (hsim.ends r)
    refine ⟨bs, p', hrun, ?_⟩
    rw [← hstep]
    refine hsim.setMux ⟨hwf, hrole⟩ hself hother fun r' q hq => ?_
    by_cases hr : r' = r
    · subst hr
      rw [update_self] at hq
      rcases mem_append.1 hq with hq | hq
      · exact hsent r' q (hsim.sent r' q hq)
      · exact hout q (mem_onChannel.2 hq)
    · rw [update_of_ne hr] at hq
      exact hsent r' q (hsim.sent r' q hq)
  | deliver r i =>
    rw [step, Option.map_eq_some_iff] at hstep
    obtain ⟨⟨id, q⟩, hi, hstep⟩ := hstep
    simp only at hstep
    have hkeeps' : Keeps c (s.mux r) ((s.mux r).receive id q).1 := by
      have hr := hkeeps r
      rw [← hstep] at hr
      simpa [AgentMuxPair.setMux] using hr
    obtain ⟨hwf, hrole, hothers, hdelivers⟩ := receive_spec (hsim.wf r).1 (hsim.wf r).2 id q
    rw [← hstep]
    by_cases hid : id = c
    · subst hid
      rw [if_pos rfl]
      rcases hdelivers with ⟨hlife, hout⟩ | ⟨recId, room, hdeliver⟩
      · refine ⟨[], p, rfl, hsim.setMux ⟨hwf, hrole⟩ ?_ rfl hsim.sent⟩
        rw [hout, append_nil, hsim.ends r]
        exact (endOf_congr hlife).symm
      · have hsent := hsim.sent r.other q (List.mem_of_getElem? hi)
        obtain ⟨j, hj⟩ := List.getElem?_of_mem hsent
        refine ⟨[.deliver r j recId room], p.setEnd r ((p.ends r).deliver r recId room q), ?_,
          hsim.setMux ⟨hwf, hrole⟩ ?_ (p.setEnd_ends_other r _) hsim.sent⟩
        · rw [exec_singleton, ChannelPair.step, hj, Option.map_some]
        · rw [setEnd_ends_self, hsim.ends r, hdeliver _ rfl]
          rfl
    · rw [if_neg hid]
      refine ⟨[], p, rfl, hsim.setMux ⟨hwf, hrole⟩ ?_ rfl hsim.sent⟩
      rw [hsim.ends r]
      exact (endOf_congr (hothers c (fun heq => hid heq.symm) hkeeps')).symm

theorem closed_le_step {a : Act} (hstep : step c s a = some s') (r : Role) :
    (s.mux r).closed.length ≤ (s'.mux r).closed.length := by
  have hset : ∀ (r' : Role) (m : AgentChannelMux) (h : ChannelHistory),
      (s.mux r').closed.length ≤ m.closed.length →
        (s.mux r).closed.length ≤ ((s.setMux r' m h).mux r).closed.length := by
    intro r' m h hle
    rcases Role.eq_or_eq_other r' r with rfl | rfl
    · rw [(s.setMux_self r m h).1]
      exact hle
    · rw [(s.setMux_other r' m h).1]
  cases a with
  | queue r' records =>
    rw [step, Option.some.injEq] at hstep
    rw [← hstep]
    refine hset r' _ _ ?_
    rw [foldl_queue, queueRecords_closed]
  | outgoing r' now rto =>
    rw [step, Option.some.injEq] at hstep
    rw [← hstep]
    exact hset r' _ (s.hist r') (outgoing_closed_le _ now rto)
  | deliver r' i =>
    rw [step, Option.map_eq_some_iff] at hstep
    obtain ⟨⟨id, q⟩, -, hstep⟩ := hstep
    rw [← hstep]
    exact hset r' _ _ (receive_closed_le _ id q)

end Simulation

theorem sim_init (c : ChannelId) (congestion : Role → Bool) : Sim c (init congestion) {} where
  wf := fun _ => ⟨⟨List.nodup_nil, fun _ _ hc => by cases hc⟩, rfl⟩
  ends := fun _ => rfl
  sent := fun _ _ hq => by cases hq

/-- A step after which neither multiplexer has forgotten the channel `c`. -/
def Keeping (c : ChannelId) (s : AgentMuxPair) (a : Act) : Prop :=
  ∀ s', step c s a = some s' → ∀ r, Keeps c (s.mux r) (s'.mux r)

variable {c : ChannelId} {as : List Act}

/-- **The two multiplexers are a pair of each channel** that neither of them forgets. -/
theorem sim_of_keeping {congestion : Role → Bool} {s : AgentMuxPair}
    (hrun : exec (step c) (init congestion) as = some s)
    (hkeeps : Runs.AllOk (Keeping c) (step c) (init congestion) as) :
    ∃ bs p, exec ChannelPair.step {} bs = some p ∧ Sim c s p := by
  refine exec_invariant_of_allOk (I := fun s => ∃ bs p,
    exec ChannelPair.step {} bs = some p ∧ Sim c s p) ?_ ?_ hkeeps hrun
  · rintro s a s' ⟨bs, p, hbs, hsim⟩ hkeeps hstep
    obtain ⟨bs', p', hbs', hsim'⟩ := simulates_step hsim hstep (hkeeps s' hstep)
    exact ⟨bs ++ bs', p', exec_append_eq_some.2 ⟨p, hbs, hbs'⟩, hsim'⟩
  · exact ⟨[], {}, rfl, sim_init c congestion⟩

theorem keeping_of_remembers : ∀ {s t : AgentMuxPair},
    exec (step c) s as = some t → t.Remembers → s.Remembers ∧ Runs.AllOk (Keeping c) (step c) s as := by
  induction as with
  | nil =>
    intro s t hrun hroom
    rw [exec_nil, Option.some.injEq] at hrun
    exact ⟨hrun ▸ hroom, trivial⟩
  | cons a as ih =>
    intro s t hrun hroom
    obtain ⟨m, hm, hrest⟩ := exec_cons_eq_some.1 hrun
    obtain ⟨hroom', hkeeps⟩ := ih hrest hroom
    refine ⟨fun r => Nat.lt_of_le_of_lt (closed_le_step hm r) (hroom' r),
      (allOk_cons_of_step hm).2 ⟨fun s' hs' r => ?_, hkeeps⟩⟩
    rw [hm] at hs'
    exact .inl (Option.some.inj hs' ▸ hroom' r)

/-- **The two multiplexers are a pair of each channel**, in every run, as long as they remember. -/
theorem sim_of_exec {congestion : Role → Bool} {s : AgentMuxPair}
    (hrun : exec (step c) (init congestion) as = some s) (hroom : s.Remembers) :
    ∃ bs p, exec ChannelPair.step {} bs = some p ∧ Sim c s p :=
  sim_of_keeping hrun (keeping_of_remembers hrun hroom).2

/-! ### What is surfaced is what was queued -/

/-- **The safety of a channel**, at each of its ends. -/
structure ChannelSafe (s : AgentMuxPair) : Prop where
  /-- the bytes surfaced are the first the other end queued -/
  data : ∀ r, AgentEnd.dataOf (s.hist r).surfaced <+: (s.hist r.other).queued
  /-- only the first record opens the channel -/
  opened_once : ∀ r, ∀ x ∈ (s.hist r).surfaced.tail, x.kind ≠ .open
  /-- at the end that did not open it, the first record does -/
  opened_first : ∀ x, (s.hist .client).surfaced.head? = some x → x.kind = .open
  /-- nothing is surfaced after the record that ends the channel -/
  ended_last : ∀ r, ∀ x ∈ (s.hist r).surfaced.dropLast, x.kind.ends = false
  /-- an end that did not end the channel is told that it is closed with everything that was queued
  before the other end closed it -/
  closed_after : ∀ r, (s.hist r).ended = none → (∃ x ∈ (s.hist r).surfaced, x.kind = .close) →
    ∃ n, (s.hist r.other).ended = some (.close, n) ∧
      (s.hist r.other).queued.take n <+: AgentEnd.dataOf (s.hist r).surfaced

/-- **What is surfaced on a channel is what was queued on it**, in every interleaving of what the local
machinery queues, of what is drained and of what arrives, on any number of channels, with any instruction
lost, duplicated or late, as long as neither end has closed as many channels as it remembers. -/
theorem channel_safe (c : ChannelId) (congestion : Role → Bool) (as : List Act) {s : AgentMuxPair}
    (hrun : Runs.exec (step c) (init congestion) as = some s) (hroom : s.Remembers) :
    ChannelSafe s := by
  obtain ⟨bs, p, hbs, hsim⟩ := sim_of_exec hrun hroom
  have hinv := ChannelPair.inv_of_exec hbs
  have hshape : ∀ r, ((s.mux r).endOf c (s.hist r)).Shape r := fun r => hsim.ends r ▸ hinv.shape r
  have hhalf : ∀ r, ChannelPair.Half ((s.mux r.other).endOf c (s.hist r.other))
      ((s.mux r).endOf c (s.hist r)) (p.sent r.other) := by
    intro r
    rw [← hsim.ends r, ← hsim.ends r.other]
    exact hinv.half_other r
  refine
    { data := fun r => (hhalf r).received
      opened_once := fun r => (hshape r).first
      opened_first := (hshape .client).head rfl
      ended_last := fun r => (hshape r).last
      closed_after := ?_ }
  rintro r hnone ⟨x, hx, hkind⟩
  rcases (hhalf r).seen x hx hkind with hended | ⟨n, hn, hle⟩
  · have hended' : (s.hist r).ended.isSome = true := hended
    rw [hnone] at hended'
    cases hended'
  · refine ⟨n, hn, ?_⟩
    have hreceived : AgentEnd.dataOf (s.hist r).surfaced <+: (s.hist r.other).queued :=
      (hhalf r).received
    exact List.prefix_of_prefix_length_le (List.take_prefix _ _) hreceived
      (le_trans (List.length_take_le _ _) hle)

def firstChannel : ChannelId := .new true kindAgent 1

/-- The local machinery of the server opens a channel, queues two bytes on it and closes it; the
instructions arrive twice, and the client's local machinery queues one byte. -/
def closeRun : List Act :=
  [.queue .server [⟨7, .open, []⟩, ⟨7, .data, [104]⟩], .outgoing .server 1000 100, .deliver .client 0,
    .queue .client [⟨1, .data, [33]⟩], .outgoing .client 1000 100,
    .queue .server [⟨7, .data, [105]⟩, ⟨7, .close, []⟩], .outgoing .server 2000 100,
    .deliver .client 1, .deliver .client 0, .deliver .client 1, .deliver .server 0]

theorem channel_safe_closeRun : ∃ s,
    Runs.exec (step firstChannel) (init fun _ => true) closeRun = some s ∧ s.Remembers ∧
      (s.hist .client).surfaced = [⟨1, .open, []⟩, ⟨1, .data, [104]⟩, ⟨1, .data, [105]⟩, ⟨1, .close, []⟩] ∧
      ChannelSafe s := by
  have hroom : ((Runs.exec (step firstChannel) (init fun _ => true) closeRun).get rfl).Remembers := by
    intro r
    cases r <;> decide
  exact ⟨_, rfl, hroom, rfl, channel_safe firstChannel (fun _ => true) closeRun rfl hroom⟩

end AgentMuxPair

end Posh
