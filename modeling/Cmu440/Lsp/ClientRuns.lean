import Cmu440.Lsp.Client

/-!
# Runs of the client

`ClientRun` is the client with a record of what went in and out: the datagrams
it has sent, the payloads accepted by `Write` and returned by `Read`, the
numbers acknowledged to it and the numbers it has accepted. The requests come
in any order, with any datagrams; the API's methods are called only after
`NewClient` has returned.

`ClientEffect` lists what an iteration of the event handler can do. From it come
the two facts the rest rests on: the sending half follows a flow
(`ClientSends.step`) and, on datagrams from the peer, the receiving half
follows the flow in the other direction (`ClientReceives.step`).
-/
namespace Cmu440.Lsp

/-! ## What an iteration can do -/

/-- Equal up to the bookkeeping of epochs and blocked requests. -/
structure Client.SameBuffers (c c' : Client) : Prop where
  write : c'.writeBuffer = c.writeBuffer
  unAcked : c'.unAckedMsgBuffer = c.unAckedMsgBuffer
  latestAck : c'.latestAckBuffer = c.latestAckBuffer
  read : c'.readBuffer = c.readBuffer
  connId : c'.connId = c.connId
  seqNum : c'.seqNum = c.seqNum
  expected : c'.expectedSeqNum = c.expectedSeqNum

/-- The payload a successful `Read` returns. -/
def ClientOut.payload : ClientOut → Option Payload
  | .reply _ ⟨.bytes p, none⟩ => some p
  | _ => none

def ClientOut.datagram : ClientOut → Option Message
  | .send msg => some msg
  | _ => none

/-- Neither a datagram, nor a payload, nor the news of the connection. -/
def ClientOut.silent (o : ClientOut) : Bool :=
  o.payload = none && o.datagram = none && o ≠ .connEstablishedSignal

/-- The request is no accepted `Write`, no ack and no connect. -/
structure Passive (incoming : Option ClientReq) (out : List ClientOut) : Prop where
  reject : ∀ p replyc, incoming = some ⟨.dowrite p, replyc⟩ → .reply replyc ⟨.nil, none⟩ ∉ out
  noAck : ∀ msg replyc, incoming = some ⟨.receivemsg msg, replyc⟩ → msg.type ≠ .ack
  noConnect : ∀ req, incoming = some req → req.op ≠ .doconnect

/-- The effects of one iteration on the buffers, with its outputs. -/
inductive ClientEffect (P : Params) (c : Client) :
    Option ClientReq → Client → List ClientOut → Prop
  | quiet {incoming : Option ClientReq} {c' : Client} {out : List ClientOut}
      (hsame : c.SameBuffers c') (hout : ∀ o ∈ out, o.silent = true) (hpass : Passive incoming out) :
      ClientEffect P c incoming c' out
  | read {incoming : Option ClientReq} {c' : Client} {replyc : Nat} {m : Message} {rb : Buffer}
      (hm : c.readBuffer.remove = some (m, rb)) (hexp : m.seqNum = c.expectedSeqNum)
      (hop : ∀ req, incoming = some req → req.op = .doread)
      (hsame : Client.SameBuffers
        { c with readBuffer := rb, expectedSeqNum := c.expectedSeqNum + 1 } c') :
      ClientEffect P c incoming c' [.reply replyc ⟨.bytes m.payload, none⟩]
  | write {c' : Client} {p : Payload} {replyc : Nat} {r : Buffer × Buffer × List Message}
      (hr : sendOrQueue P.windowSize c.unAckedMsgBuffer c.writeBuffer
        (newData c.connId (c.seqNum + 1) p) = r)
      (hsame : Client.SameBuffers
        { c with seqNum := c.seqNum + 1, unAckedMsgBuffer := r.1, writeBuffer := r.2.1 } c') :
      ClientEffect P c (some ⟨.dowrite p, replyc⟩) c'
        (r.2.2.map .send ++ [.reply replyc ⟨.nil, none⟩])
  | epoch {c' : Client} {out : List ClientOut} {replyc : Nat} (hsame : c.SameBuffers c')
      (hout : ∀ o ∈ out, ∃ m, o = .send m ∧
        (m ∈ c.unAckedMsgBuffer.l ∨ m = newAck c.connId 0 ∨ m ∈ c.latestAckBuffer.l)) :
      ClientEffect P c (some ⟨.epochtimer, replyc⟩) c' out
  | ack {c' : Client} {msg : Message} {replyc : Nat} {r : Bool × Buffer × Buffer × List Message}
      (htype : msg.type = .ack)
      (hr : ackReceived P.windowSize c.unAckedMsgBuffer c.writeBuffer msg.seqNum = some r)
      (hest : ¬(r.1 = true ∧ msg.seqNum = 0))
      (hsame : Client.SameBuffers
        { c with unAckedMsgBuffer := r.2.1, writeBuffer := r.2.2.1 } c') :
      ClientEffect P c (some ⟨.receivemsg msg, replyc⟩) c' (r.2.2.2.map .send)
  | established {c' : Client} {msg : Message} {replyc : Nat}
      {r : Bool × Buffer × Buffer × List Message} (htype : msg.type = .ack)
      (hr : ackReceived P.windowSize c.unAckedMsgBuffer c.writeBuffer msg.seqNum = some r)
      (hfound : r.1 = true) (hzero : msg.seqNum = 0)
      (hsame : Client.SameBuffers
        { c with unAckedMsgBuffer := r.2.1, writeBuffer := r.2.2.1, connId := msg.connID } c') :
      ClientEffect P c (some ⟨.receivemsg msg, replyc⟩) c'
        (r.2.2.2.map .send ++ [.connEstablishedSignal])
  | data {c' : Client} {msg : Message} {replyc : Nat} {r : Buffer × Buffer}
      (htype : msg.type = .data) (hge : msg.seqNum ≥ c.expectedSeqNum) (hconn : c.connId ≠ 0)
      (hr : acceptData P.windowSize c.connId c.readBuffer c.latestAckBuffer msg = some r)
      (hsame : Client.SameBuffers { c with readBuffer := r.1, latestAckBuffer := r.2 } c') :
      ClientEffect P c (some ⟨.receivemsg msg, replyc⟩) c' [.send (newAck c.connId msg.seqNum)]
  | connect {c' : Client} {replyc : Nat}
      (hsame : Client.SameBuffers
        { c with unAckedMsgBuffer := c.unAckedMsgBuffer.insert newConnect } c') :
      ClientEffect P c (some ⟨.doconnect, replyc⟩) c'
        [.send newConnect, .reply replyc ⟨.nil, none⟩]

/-! ## The event handler taken apart -/

/-- An iteration takes up a request that was put off, puts off the one it receives, or
handles it. -/
inductive Iterates (P : Params) (c : Client) : Option ClientReq → Client → List ClientOut → Prop
  | wakeRead {replyc : Nat} {rest : List Nat} {c' : Client} {out : List ClientOut}
      (hreads : c.deferedRead = replyc :: rest)
      (h : Client.handleRead { c with deferedRead := rest } replyc = some (c', out)) :
      Iterates P c none c' out
  | wakeClose {replyc : Nat} {rest : List Nat} {c' : Client} {out : List ClientOut}
      (hreads : c.deferedRead = []) (hcloses : c.deferedClose = replyc :: rest)
      (h : Client.handleClose { c with deferedClose := rest } replyc = (c', out)) :
      Iterates P c none c' out
  | deferRead (replyc : Nat) : Iterates P c (some ⟨.doread, replyc⟩)
      { c with deferedRead := c.deferedRead ++ [replyc] } []
  | deferClose (replyc : Nat) : Iterates P c (some ⟨.doclose, replyc⟩)
      { c with deferedClose := c.deferedClose ++ [replyc] } []
  | handle {req : ClientReq} {c' : Client} {out : List ClientOut}
      (hflushed : req.op = .doclose → c.flushed = true) (h : c.handle P req = some (c', out)) :
      Iterates P c (some req) c' out

theorem iterates_of_iterate {P : Params} {c c' : Client} {incoming : Option ClientReq}
    {out : List ClientOut} (h : c.iterate P incoming = some (c', out)) :
    Iterates P c incoming c' out := by
  unfold Client.iterate at h
  split at h
  · rename_i c₁ req hturn
    unfold Client.turn at hturn
    split at hturn
    · cases hturn
    · split at hturn
      · cases hturn
      · split at hturn
        · rename_i hreads hwake
          cases hturn
          exact .wakeRead hreads h
        · rename_i hblocked
          split at hturn
          · rename_i hcloses hdone
            cases hturn
            refine .wakeClose ?_ hcloses (Option.some.inj h)
            -- a blocked read would have been taken up first
            cases hreads : c.deferedRead with
            | nil => rfl
            | cons k rest =>
              refine absurd ?_ (hblocked k rest hreads)
              simp [hcloses]
          · cases hturn
  · rename_i req hturn
    obtain ⟨op, replyc⟩ := req
    split at h
    · rename_i c₁ hdefer
      cases h
      unfold Client.deferRequest at hdefer
      split at hdefer
      · rename_i hop
        cases hdefer
        cases hop.1
        exact .deferRead replyc
      · split at hdefer
        · rename_i hop
          cases hdefer
          cases hop.1
          exact .deferClose replyc
        · cases hdefer
    · rename_i hdefer
      refine .handle (fun hop => ?_) h
      cases hop
      by_contra hflushed
      simp [Client.deferRequest, hflushed] at hdefer
  · cases h

theorem iterate_epoch {P : Params} {c c' : Client} {replyc : Nat} {out : List ClientOut}
    (h : c.iterate P (some ⟨.epochtimer, replyc⟩) = some (c', out)) :
    c.handleEpoch P = (c', out) := by
  cases iterates_of_iterate h with
  | handle _ h => exact Option.some.inj h

/-! ## The effect of each handler -/

theorem Client.SameBuffers.refl (c : Client) : c.SameBuffers c := ⟨rfl, rfl, rfl, rfl, rfl, rfl, rfl⟩

section Effects

variable {P : Params} {c c' : Client} {incoming : Option ClientReq} {out : List ClientOut}
  {replyc : Nat}

/-- Replies with an error are silent, and no answer to a `Write`. -/
theorem quiet_of_error {text : String} (hsame : c.SameBuffers c')
    (hop : ∀ req, incoming = some req → req.op = .doread ∨ ∃ p, req.op = .dowrite p) :
    ClientEffect P c incoming c' [.reply replyc ⟨.nil, some text⟩] := by
  refine .quiet hsame ?_ ⟨?_, ?_, ?_⟩
  · intro o ho
    rw [List.mem_singleton.mp ho]
    rfl
  · intro p r _ hmem
    cases List.mem_singleton.mp hmem
  · intro msg r hreq
    rcases hop _ hreq with h | ⟨p, h⟩ <;> cases h
  · intro req hreq hc
    rcases hop _ hreq with h | ⟨p, h⟩ <;> rw [hc] at h <;> cases h

theorem quiet_of_other {req : ClientReq} (hsame : c.SameBuffers c')
    (hout : ∀ o ∈ out, o.silent = true) (hop : ∀ p, req.op ≠ .dowrite p)
    (hconnect : req.op ≠ .doconnect) (hack : ∀ msg, req.op = .receivemsg msg → msg.type ≠ .ack) :
    ClientEffect P c (some req) c' out := by
  refine .quiet hsame hout ⟨?_, ?_, ?_⟩
  · intro p r hreq
    cases hreq
    exact absurd rfl (hop p)
  · intro msg r hreq
    cases hreq
    exact hack msg rfl
  · intro req' hreq
    cases hreq
    exact hconnect

theorem effect_of_handleRead (hop : ∀ req, incoming = some req → req.op = .doread)
    (h : c.handleRead replyc = some (c', out)) : ClientEffect P c incoming c' out := by
  have hop' : ∀ req, incoming = some req → req.op = .doread ∨ ∃ p, req.op = .dowrite p :=
    fun req hreq => .inl (hop req hreq)
  unfold Client.handleRead at h
  split at h
  · cases h
    exact quiet_of_error (.refl c) hop'
  · split at h
    · cases h
      exact quiet_of_error (.refl c) hop'
    · rename_i hready
      simp only [Option.bind_eq_bind, Option.bind_eq_some_iff, Option.pure_def, Option.some.injEq,
        Prod.mk.injEq] at h
      obtain ⟨⟨m, rb⟩, hm, rfl, rfl⟩ := h
      refine .read hm ?_ hop (.refl _)
      -- the front of the buffer is the expected message
      have hl := Buffer.remove_eq_some.mp hm
      simpa [Client.ready, Buffer.front, hl] using hready

theorem effect_of_handleWrite {p : Payload} (h : c.handleWrite P p replyc = (c', out)) :
    ClientEffect P c (some ⟨.dowrite p, replyc⟩) c' out := by
  have hop : ∀ req : ClientReq, some ⟨.dowrite p, replyc⟩ = some req →
      req.op = .doread ∨ ∃ p, req.op = .dowrite p := by
    intro req hreq
    cases hreq
    exact .inr ⟨p, rfl⟩
  unfold Client.handleWrite at h
  split at h
  · cases h
    exact quiet_of_error (.refl c) hop
  · split at h
    · cases h
      exact quiet_of_error (.refl c) hop
    · cases h
      exact .write rfl (.refl _)

theorem effect_of_handleEpoch (h : c.handleEpoch P = (c', out)) :
    ClientEffect P c (some ⟨.epochtimer, replyc⟩) c' out := by
  unfold Client.handleEpoch at h
  simp only at h
  split at h
  · cases h
    refine quiet_of_other ⟨rfl, rfl, rfl, rfl, rfl, rfl, rfl⟩ ?_ nofun nofun nofun
    intro o ho
    simp only [List.mem_cons, List.not_mem_nil, or_false] at ho
    rcases ho with rfl | rfl <;> rfl
  · cases h
    refine .epoch ⟨rfl, rfl, rfl, rfl, rfl, rfl, rfl⟩ ?_
    intro o ho
    simp only [List.mem_append, List.mem_map] at ho
    rcases ho with (ho | ⟨m, hm, rfl⟩) | ho
    · split at ho
      · rw [List.mem_singleton.mp ho]
        exact ⟨_, rfl, .inr (.inl rfl)⟩
      · cases ho
    · exact ⟨m, rfl, .inl hm⟩
    · split at ho
      · obtain ⟨m, hm, rfl⟩ := List.mem_map.mp ho
        exact ⟨m, rfl, .inr (.inr hm)⟩
      · cases ho

theorem effect_of_handleClose (hop : ∀ req, incoming = some req → req.op = .doclose)
    (h : c.handleClose replyc = (c', out)) : ClientEffect P c incoming c' out := by
  unfold Client.handleClose at h
  simp only at h
  cases h
  refine .quiet ⟨rfl, rfl, rfl, rfl, rfl, rfl, rfl⟩ ?_ ?_
  · intro o ho
    rcases List.mem_append.mp ho with ho | ho
    · split at ho
      · cases ho
      · rw [List.mem_singleton.mp ho]
        rfl
    · obtain ⟨r, -, rfl⟩ := List.mem_map.mp ho
      split <;> rfl
  · constructor
    · intro p r hreq
      cases hop _ hreq
    · intro msg r hreq
      cases hop _ hreq
    · intro req hreq he
      rw [hop req hreq] at he
      cases he

theorem effect_of_handleReceivedMsg {msg : Message}
    (h : c.handleReceivedMsg P msg = some (c', out)) :
    ClientEffect P c (some ⟨.receivemsg msg, replyc⟩) c' out := by
  unfold Client.handleReceivedMsg at h
  have ignored : ∀ c₁ : Client, c.SameBuffers c₁ → msg.type ≠ .ack →
      ClientEffect P c (some ⟨.receivemsg msg, replyc⟩) c₁ [] := by
    intro c₁ hsame htype
    refine quiet_of_other hsame (fun o ho => by cases ho) nofun nofun ?_
    rintro m ⟨⟩
    exact htype
  cases htype : msg.type <;> simp only [htype] at h
  case connect =>
    cases h
    exact ignored _ ⟨rfl, rfl, rfl, rfl, rfl, rfl, rfl⟩ (by rw [htype]; nofun)
  case data =>
    unfold Client.handleData at h
    simp only at h
    split at h
    · cases h
      exact ignored _ ⟨rfl, rfl, rfl, rfl, rfl, rfl, rfl⟩ (by rw [htype]; nofun)
    · rename_i hconn
      split at h
      · rename_i hge
        simp only [Option.bind_eq_bind, Option.bind_eq_some_iff, Option.pure_def,
          Option.some.injEq, Prod.mk.injEq] at h
        obtain ⟨r, hr, rfl, rfl⟩ := h
        exact .data htype hge (fun h0 => hconn (.inl h0)) hr ⟨rfl, rfl, rfl, rfl, rfl, rfl, rfl⟩
      · cases h
        exact ignored _ ⟨rfl, rfl, rfl, rfl, rfl, rfl, rfl⟩ (by rw [htype]; nofun)
  case ack =>
    unfold Client.handleAck at h
    simp only [Option.bind_eq_bind, Option.bind_eq_some_iff] at h
    obtain ⟨r, hr, h⟩ := h
    split at h
    · rename_i hest
      cases h
      exact .established htype hr hest.1 hest.2 ⟨rfl, rfl, rfl, rfl, rfl, rfl, rfl⟩
    · rename_i hest
      cases h
      exact .ack htype hr hest ⟨rfl, rfl, rfl, rfl, rfl, rfl, rfl⟩

theorem effect_of_handle {req : ClientReq} (h : c.handle P req = some (c', out)) :
    ClientEffect P c (some req) c' out := by
  obtain ⟨op, replyc⟩ := req
  unfold Client.handle at h
  cases op <;> simp only [Option.some.injEq] at h
  case doread => exact effect_of_handleRead (by rintro req ⟨⟩; rfl) h
  case dowrite p => exact effect_of_handleWrite h
  case doclose => exact effect_of_handleClose (by rintro req ⟨⟩; rfl) h
  case doconnid =>
    cases h
    refine quiet_of_other (.refl c) ?_ nofun nofun nofun
    intro o ho
    rw [List.mem_singleton.mp ho]
    rfl
  case doconnect =>
    cases h
    exact .connect (.refl _)
  case epochtimer => exact effect_of_handleEpoch h
  case receivemsg msg => exact effect_of_handleReceivedMsg h

/-- A blocked request that is taken up finds the buffers as they are. -/
theorem effect_of_unblock {c₁ : Client} (heff : ClientEffect P c₁ none c' out)
    (hs : c.SameBuffers c₁) : ClientEffect P c none c' out := by
  cases heff with
  | quiet hsame hout hpass =>
    exact .quiet ⟨hsame.write.trans hs.write, hsame.unAcked.trans hs.unAcked,
      hsame.latestAck.trans hs.latestAck, hsame.read.trans hs.read, hsame.connId.trans hs.connId,
      hsame.seqNum.trans hs.seqNum, hsame.expected.trans hs.expected⟩ hout hpass
  | read hm hexp hop hsame =>
    refine .read (hs.read ▸ hm) (hexp.trans hs.expected) hop ?_
    exact ⟨hsame.write.trans hs.write, hsame.unAcked.trans hs.unAcked,
      hsame.latestAck.trans hs.latestAck, hsame.read, hsame.connId.trans hs.connId,
      hsame.seqNum.trans hs.seqNum, hsame.expected.trans (by simp only [hs.expected])⟩

theorem effect_of_iterate (h : c.iterate P incoming = some (c', out)) :
    ClientEffect P c incoming c' out := by
  cases iterates_of_iterate h with
  | wakeRead _ h =>
    exact effect_of_unblock (effect_of_handleRead nofun h) ⟨rfl, rfl, rfl, rfl, rfl, rfl, rfl⟩
  | wakeClose _ _ h =>
    exact effect_of_unblock (effect_of_handleClose nofun h) ⟨rfl, rfl, rfl, rfl, rfl, rfl, rfl⟩
  | deferRead | deferClose =>
    exact quiet_of_other ⟨rfl, rfl, rfl, rfl, rfl, rfl, rfl⟩ (fun o ho => by cases ho) nofun nofun
      nofun
  | handle _ h => exact effect_of_handle h

end Effects

/-! ## The client with its history -/

structure ClientRun where
  client : Client
  called : Bool
  established : Bool
  net : List Message
  written : List Payload
  returned : List Payload
  acked : List Int
  accepted : List Int

namespace ClientRun

def init : ClientRun := ⟨.newClient, false, false, [], [], [], [], []⟩

/-- `NewClient` submits the connect request once and hands out the client when
the connection is established; epochs and datagrams come at any time. -/
def admits (r : ClientRun) : Option ClientReq → Bool
  | none => true
  | some req => match req.op with
    | .doconnect => !r.called
    | .epochtimer | .receivemsg _ => true
    | .doread | .dowrite _ | .doclose | .doconnid => r.established

/-- The payload of a `Write` that returns nil. -/
def newlyWritten (incoming : Option ClientReq) (out : List ClientOut) : List Payload :=
  match incoming with
  | some ⟨.dowrite p, replyc⟩ => if .reply replyc ⟨.nil, none⟩ ∈ out then [p] else []
  | _ => []

/-- The number an incoming ack acknowledges: that of a data message sent
before. -/
def newlyAcked (net : List Message) (incoming : Option ClientReq) : List Int :=
  match incoming with
  | some ⟨.receivemsg msg, _⟩ =>
    if msg.type = .ack ∧ ∃ m ∈ net, m.type = .data ∧ m.seqNum = msg.seqNum then [msg.seqNum] else []
  | _ => []

/-- A number is accepted when its message is in the read buffer. -/
def record (r : ClientRun) (incoming : Option ClientReq) (c : Client) (out : List ClientOut) :
    ClientRun where
  client := c
  called := r.called || incoming.any fun req => req.op = .doconnect
  established := r.established || decide (.connEstablishedSignal ∈ out)
  net := r.net ++ out.filterMap ClientOut.datagram
  written := r.written ++ newlyWritten incoming out
  returned := r.returned ++ out.filterMap ClientOut.payload
  acked := newlyAcked r.net incoming ++ r.acked
  accepted := c.readBuffer.l.map (·.seqNum) ++ r.accepted

def step (P : Params) (r : ClientRun) (incoming : Option ClientReq) : Option ClientRun :=
  if r.admits incoming then
    (r.client.iterate P incoming).map fun t => r.record incoming t.1 t.2
  else none

end ClientRun

/-- Every run of the client, on any datagrams. -/
def clientRuns (P : Params) : LTS ClientRun (Option ClientReq) := .ofFn (· = .init) (ClientRun.step P)

theorem ClientRun.step_cases {P : Params} {r r' : ClientRun} {incoming : Option ClientReq}
    (h : r.step P incoming = some r') : r.admits incoming = true ∧
      ∃ c out, r' = r.record incoming c out ∧ ClientEffect P r.client incoming c out := by
  unfold ClientRun.step at h
  split at h
  · rename_i hadm
    obtain ⟨⟨c, out⟩, hit, rfl⟩ := Option.map_eq_some_iff.mp h
    exact ⟨hadm, c, out, rfl, effect_of_iterate hit⟩
  · cases h

/-! ## Outputs -/

theorem filterMap_send (l : List Message) :
    (l.map ClientOut.send).filterMap ClientOut.datagram = l := by
  rw [List.filterMap_map]
  exact List.filterMap_some

theorem payload_send (l : List Message) :
    (l.map ClientOut.send).filterMap ClientOut.payload = [] := by
  rw [List.filterMap_map]
  exact List.filterMap_eq_nil_iff.mpr fun _ _ => rfl

theorem datagram_of_silent {out : List ClientOut} (h : ∀ o ∈ out, o.silent = true) :
    out.filterMap ClientOut.datagram = [] := by
  refine List.filterMap_eq_nil_iff.mpr fun o ho => ?_
  have := h o ho
  simp only [ClientOut.silent, Bool.and_eq_true, decide_eq_true_eq] at this
  exact this.1.2

theorem payload_of_silent {out : List ClientOut} (h : ∀ o ∈ out, o.silent = true) :
    out.filterMap ClientOut.payload = [] := by
  refine List.filterMap_eq_nil_iff.mpr fun o ho => ?_
  have := h o ho
  simp only [ClientOut.silent, Bool.and_eq_true, decide_eq_true_eq] at this
  exact this.1.1

theorem no_signal_of_silent {out : List ClientOut} (h : ∀ o ∈ out, o.silent = true) :
    ClientOut.connEstablishedSignal ∉ out := by
  intro hmem
  have := h _ hmem
  simp [ClientOut.silent] at this

theorem no_signal_send (l : List Message) :
    ClientOut.connEstablishedSignal ∉ l.map ClientOut.send := by
  intro hmem
  obtain ⟨m, -, hm⟩ := List.mem_map.mp hmem
  cases hm

theorem newlyWritten_nil {incoming : Option ClientReq} {out : List ClientOut}
    (h : ∀ p replyc, incoming = some ⟨.dowrite p, replyc⟩ → .reply replyc ⟨.nil, none⟩ ∉ out) :
    ClientRun.newlyWritten incoming out = [] := by
  unfold ClientRun.newlyWritten
  split
  · rw [if_neg (h _ _ rfl)]
  · rfl

theorem newlyAcked_nil {net : List Message} {incoming : Option ClientReq}
    (h : ∀ msg replyc, incoming = some ⟨.receivemsg msg, replyc⟩ → msg.type ≠ .ack) :
    ClientRun.newlyAcked net incoming = [] := by
  unfold ClientRun.newlyAcked
  split
  · rw [if_neg (fun hc => h _ _ rfl hc.1)]
  · rfl

/-! ## Where an iteration's messages come from -/

/-- The number of the connection comes with the ack of the Connect. -/
theorem connId_of_effect {P : Params} {c c' : Client} {incoming : Option ClientReq}
    {out : List ClientOut} (h : ClientEffect P c incoming c' out) :
    (.connEstablishedSignal ∉ out ∧ c'.connId = c.connId) ∨
      .connEstablishedSignal ∈ out ∧ ∃ msg replyc, incoming = some ⟨.receivemsg msg, replyc⟩ ∧
        msg.type = .ack ∧ msg.seqNum = 0 ∧ c'.connId = msg.connID := by
  cases h with
  | quiet hsame hout => exact .inl ⟨no_signal_of_silent hout, hsame.connId⟩
  | read hm hexp hop hsame => exact .inl ⟨by simp, hsame.connId⟩
  | write hr hsame => exact .inl ⟨by simp [no_signal_send], hsame.connId⟩
  | epoch hsame hout =>
    refine .inl ⟨fun hmem => ?_, hsame.connId⟩
    obtain ⟨m, hm, -⟩ := hout _ hmem
    cases hm
  | ack htype hr hest hsame => exact .inl ⟨no_signal_send _, hsame.connId⟩
  | established htype hr hfound hzero hsame =>
    exact .inr ⟨by simp, _, _, rfl, htype, hzero, hsame.connId⟩
  | data htype hge hconn hr hsame => exact .inl ⟨by simp, hsame.connId⟩
  | connect hsame => exact .inl ⟨by simp, hsame.connId⟩

/-- Where the messages come from that an iteration leaves in the sending buffers. -/
structure Origins (c : Client) (incoming : Option ClientReq) (c' : Client) (out : List ClientOut) :
    Prop where
  seqNum : 0 ≤ c.seqNum → 0 ≤ c'.seqNum
  write : ∀ x ∈ c'.writeBuffer.l, x ∈ c.writeBuffer.l ∨
    ∃ p replyc, incoming = some ⟨.dowrite p, replyc⟩ ∧ x.seqNum = c.seqNum + 1
  unAcked : ∀ x ∈ c'.unAckedMsgBuffer.l, x ∈ c.unAckedMsgBuffer.l ∨ x ∈ c.writeBuffer.l ∨
    (∃ p replyc, incoming = some ⟨.dowrite p, replyc⟩ ∧ x.seqNum = c.seqNum + 1) ∨
    ∃ replyc, incoming = some ⟨.doconnect, replyc⟩ ∧ x = newConnect
  established : .connEstablishedSignal ∈ out → (∃ m ∈ c.unAckedMsgBuffer.l, m.seqNum = 0) ∧
    ∀ x ∈ c'.unAckedMsgBuffer.l, x.seqNum ≠ 0 ∨ x ∈ c.writeBuffer.l

theorem origins_of_effect {P : Params} {c c' : Client} {incoming : Option ClientReq}
    {out : List ClientOut} (h : ClientEffect P c incoming c' out) : Origins c incoming c' out := by
  -- the buffers of the sending half are as they were
  have same : c'.seqNum = c.seqNum → c'.writeBuffer = c.writeBuffer →
      c'.unAckedMsgBuffer = c.unAckedMsgBuffer → .connEstablishedSignal ∉ out →
      Origins c incoming c' out := by
    intro hseq hwrite hunAcked hout
    refine ⟨fun h0 => hseq ▸ h0, fun x hx => .inl (hwrite ▸ hx), fun x hx => .inl (hunAcked ▸ hx),
      fun hmem => absurd hmem hout⟩
  cases h with
  | quiet hsame hout => exact same hsame.seqNum hsame.write hsame.unAcked (no_signal_of_silent hout)
  | read hm hexp hop hsame => exact same hsame.seqNum hsame.write hsame.unAcked (by simp)
  | data htype hge hconn hr hsame => exact same hsame.seqNum hsame.write hsame.unAcked (by simp)
  | epoch hsame hout =>
    refine same hsame.seqNum hsame.write hsame.unAcked fun hmem => ?_
    obtain ⟨m, hm, -⟩ := hout _ hmem
    cases hm
  | write hr hsame =>
    rename_i p replyc r
    subst hr
    refine ⟨fun h0 => ?_, fun x hx => ?_, fun x hx => ?_, fun hmem => ?_⟩
    · rw [hsame.seqNum]
      simp only
      omega
    · rw [hsame.write] at hx
      exact (mem_sendOrQueue.2.1 hx).imp_right fun he => ⟨p, replyc, rfl, by rw [he]; rfl⟩
    · rw [hsame.unAcked] at hx
      exact (mem_sendOrQueue.1 hx).imp_right fun he => .inr (.inl ⟨p, replyc, rfl, by rw [he]; rfl⟩)
    · simp [no_signal_send] at hmem
  | ack htype hr hest hsame =>
    refine ⟨fun h0 => hsame.seqNum ▸ h0, fun x hx => .inl ?_, fun x hx => ?_,
      fun hmem => absurd hmem (no_signal_send _)⟩
    · rw [hsame.write] at hx
      exact (mem_ackReceived hr).2.1 hx
    · rw [hsame.unAcked] at hx
      exact ((mem_ackReceived hr).1 hx).imp And.left .inl
  | established htype hr hfound hzero hsame =>
    refine ⟨fun h0 => hsame.seqNum ▸ h0, fun x hx => .inl ?_, fun x hx => ?_,
      fun _ => ⟨?_, fun x hx => ?_⟩⟩
    · rw [hsame.write] at hx
      exact (mem_ackReceived hr).2.1 hx
    · rw [hsame.unAcked] at hx
      exact ((mem_ackReceived hr).1 hx).imp And.left .inl
    · rw [hzero] at hr
      exact (ackReceived_found hr).mp hfound
    · rw [hsame.unAcked] at hx
      rw [hzero] at hr
      exact ((mem_ackReceived hr).1 hx).imp_left And.right
  | connect hsame =>
    rename_i replyc
    refine ⟨fun h0 => hsame.seqNum ▸ h0, fun x hx => .inl ?_, fun x hx => ?_, fun hmem => ?_⟩
    · rw [hsame.write] at hx
      exact hx
    · rw [hsame.unAcked] at hx
      rcases Buffer.mem_insert.mp hx with hx | ⟨hx, -⟩
      · exact .inl hx
      · exact .inr (.inr (.inr ⟨replyc, rfl, hx⟩))
    · simp at hmem

/-! ## The sending half -/

/-- What the client has written, sent and been acknowledged is the sending end
of `f`. Before the connection is established there is at most the connect
message. -/
structure ClientSends (W : Int) (r : ClientRun) (f : Flow Payload) : Prop where
  written : f.written = r.written
  acked : f.acked = r.acked
  sentData : ∀ m, m ∈ transmitted r.client.connId f ↔ m ∈ r.net ∧ m.type = .data
  acks : ∀ m ∈ r.client.latestAckBuffer.l, m.type = .ack
  called : r.established = true → r.called = true
  waiting : r.established = false → f.written = [] ∧ r.client.writeBuffer.l = [] ∧
    r.client.seqNum = 0 ∧ r.client.unAckedMsgBuffer.l = if r.called then [newConnect] else []
  sends : r.established = true →
    Sends W r.client.connId f r.client.unAckedMsgBuffer r.client.writeBuffer ∧
      r.client.seqNum = f.written.length

theorem clientSends_init (W : Int) : ClientSends W .init .empty where
  written := rfl
  acked := rfl
  sentData m := by simp [transmitted, numbered, Flow.empty, ClientRun.init]
  acks := nofun
  called := nofun
  waiting _ := ⟨rfl, rfl, rfl, rfl⟩
  sends := nofun

/-- Nothing has been sent before the connection is established. -/
theorem transmitted_nil {f : Flow Payload} (h : f.written = []) (id : Int) :
    transmitted id f = [] := by
  unfold transmitted
  rw [h, List.take_nil]
  rfl

section SendingHalf

variable {W : Int} {r : ClientRun} {f : Flow Payload} {incoming : Option ClientReq} {c : Client}
  {out : List ClientOut}

theorem ClientSends.unAcked_transmitted (h : ClientSends W r f) {m : Message}
    (hm : m ∈ r.client.unAckedMsgBuffer.l) (hdata : m.type = .data) :
    m ∈ transmitted r.client.connId f := by
  cases hest : r.established with
  | true => exact ((h.sends hest).1.mem_unAcked.mp hm).1
  | false =>
    rw [(h.waiting hest).2.2.2] at hm
    split at hm
    · rw [List.mem_singleton.mp hm] at hdata
      cases hdata
    · cases hm

theorem ClientSends.seqNum_waiting (h : ClientSends W r f) (hest : r.established = false)
    {m : Message} (hm : m ∈ r.client.unAckedMsgBuffer.l) : m.seqNum = 0 := by
  rw [(h.waiting hest).2.2.2] at hm
  split at hm
  · rw [List.mem_singleton.mp hm]
    rfl
  · cases hm

/-- An iteration that leaves the sending half as it is, and at most repeats
unacknowledged messages. -/
theorem ClientSends.idle (h : ClientSends W r f) (hwrite : c.writeBuffer = r.client.writeBuffer)
    (hunAcked : c.unAckedMsgBuffer = r.client.unAckedMsgBuffer)
    (hconnId : c.connId = r.client.connId) (hseqNum : c.seqNum = r.client.seqNum)
    (hacks : ∀ m ∈ c.latestAckBuffer.l, m.type = .ack)
    (hwritten : ClientRun.newlyWritten incoming out = [])
    (hacked : ClientRun.newlyAcked r.net incoming = [])
    (hcalled : ∀ req, incoming = some req → req.op ≠ .doconnect)
    (hest : ClientOut.connEstablishedSignal ∉ out)
    (hdata : ∀ m ∈ out.filterMap ClientOut.datagram, m.type = .data →
      m ∈ r.client.unAckedMsgBuffer.l) :
    ClientSends W (r.record incoming c out) f := by
  have hest' : (r.record incoming c out).established = r.established := by
    simp [ClientRun.record, hest]
  have hcalled' : (r.record incoming c out).called = r.called := by
    cases incoming with
    | none => simp [ClientRun.record]
    | some req => simp [ClientRun.record, hcalled req rfl]
  refine ⟨?_, ?_, ?_, hacks, ?_, ?_, ?_⟩
  · simp only [ClientRun.record, hwritten, List.append_nil, h.written]
  · simp only [ClientRun.record, hacked, List.nil_append, h.acked]
  · intro m
    simp only [ClientRun.record, hconnId, h.sentData, List.mem_append]
    constructor
    · rintro ⟨hm, hty⟩
      exact ⟨.inl hm, hty⟩
    · rintro ⟨hm | hm, hty⟩
      · exact ⟨hm, hty⟩
      · exact (h.sentData m).mp (h.unAcked_transmitted (hdata m hm hty) hty)
  · rw [hest', hcalled']
    exact h.called
  · rw [hest', hcalled']
    simp only [ClientRun.record, hwrite, hunAcked, hseqNum]
    exact h.waiting
  · rw [hest']
    simp only [ClientRun.record, hwrite, hunAcked, hseqNum, hconnId]
    exact h.sends

/-- The history of acks in terms of the flow. -/
theorem ClientSends.newlyAcked_eq (h : ClientSends W r f) (hok : f.Ok W) {msg : Message}
    (htype : msg.type = .ack) (replyc : Nat) :
    ClientRun.newlyAcked r.net (some ⟨.receivemsg msg, replyc⟩) ++ r.acked =
      ackedBy f msg.seqNum := by
  have hiff : (∃ m ∈ r.net, m.type = .data ∧ m.seqNum = msg.seqNum) ↔ f.Sent msg.seqNum := by
    constructor
    · rintro ⟨m, hm, hty, hseq⟩
      rw [← hseq]
      exact transmitted_bounds ((h.sentData m).mpr ⟨hm, hty⟩)
    · intro hsent
      obtain ⟨m, hm, hseq⟩ := transmitted_exists r.client.connId hok.sent_le hsent
      obtain ⟨hnet, hty⟩ := (h.sentData m).mp hm
      exact ⟨m, hnet, hty, hseq⟩
  unfold ClientRun.newlyAcked ackedBy
  simp only [htype, true_and, hiff, h.acked]
  split <;> rfl

theorem ClientSends.no_data (h : ClientSends W r f) (hest : r.established = false) :
    ∀ m ∈ r.net, m.type ≠ .data := by
  intro m hm hty
  have hmem := (h.sentData m).mpr ⟨hm, hty⟩
  rw [transmitted_nil (h.waiting hest).1] at hmem
  cases hmem

theorem ClientSends.newlyAcked_waiting (h : ClientSends W r f) (hest : r.established = false)
    (incoming : Option ClientReq) : ClientRun.newlyAcked r.net incoming = [] := by
  unfold ClientRun.newlyAcked
  split
  · rw [if_neg]
    rintro ⟨-, m, hm, hty, -⟩
    exact h.no_data hest m hm hty
  · rfl

/-- The buffers after an ack while the connection is not established. -/
theorem ClientSends.ack_waiting (h : ClientSends W r f) (hest : r.established = false) {P : Params}
    {q : Int} {t : Bool × Buffer × Buffer × List Message}
    (ht : ackReceived P.windowSize r.client.unAckedMsgBuffer r.client.writeBuffer q = some t) :
    t.2.2 = (r.client.writeBuffer, []) ∧
      t.2.1.l = r.client.unAckedMsgBuffer.l.filter (fun m => decide (m.seqNum ≠ q)) ∧
      (t.1 = true ↔ ∃ m ∈ r.client.unAckedMsgBuffer.l, m.seqNum = q) := by
  have hlen : ¬r.client.writeBuffer.len > 0 := by
    simp only [Buffer.len, (h.waiting hest).2.1, List.length_nil, gt_iff_lt, lt_irrefl,
      not_false_eq_true]
  unfold ackReceived at ht
  simp only [hlen, and_false, if_false, Option.some.injEq] at ht
  subst ht
  exact ⟨rfl, Buffer.delete_l _ _, Buffer.delete_found⟩

/-- The flow sends `sent`, and these are the datagrams of the iteration. -/
theorem ClientSends.forward (h : ClientSends W r f) (hest : r.established = true)
    {f' : Flow Payload} {sent : List Message} (hid : c.connId = r.client.connId)
    (hlatest : c.latestAckBuffer = r.client.latestAckBuffer)
    (htr : transmitted c.connId f' = transmitted c.connId f ++ sent)
    (hout : out.filterMap ClientOut.datagram = sent)
    (hwritten : f'.written = r.written ++ ClientRun.newlyWritten incoming out)
    (hacked : f'.acked = ClientRun.newlyAcked r.net incoming ++ r.acked)
    (hsends : Sends W c.connId f' c.unAckedMsgBuffer c.writeBuffer)
    (hseq : c.seqNum = f'.written.length) : ClientSends W (r.record incoming c out) f' := by
  refine ⟨hwritten, hacked, ?_, hlatest ▸ h.acks, ?_, ?_, fun _ => ⟨hsends, hseq⟩⟩
  · intro m
    -- what goes out in this step is data
    have hdata : m ∈ sent → m.type = .data := by
      intro hm
      have hmem : m ∈ transmitted c.connId f' := by
        rw [htr]
        exact List.mem_append_right _ hm
      exact (transmitted_data hmem).1
    show m ∈ transmitted c.connId f' ↔ m ∈ r.net ++ out.filterMap ClientOut.datagram ∧ m.type = .data
    rw [htr, hout, List.mem_append, List.mem_append, hid, h.sentData]
    constructor
    · rintro (⟨hm, hty⟩ | hm)
      · exact ⟨.inl hm, hty⟩
      · exact ⟨.inr hm, hdata hm⟩
    · rintro ⟨hm | hm, hty⟩
      · exact .inl ⟨hm, hty⟩
      · exact .inr hm
  · simp [ClientRun.record, h.called hest]
  · simp [ClientRun.record, hest]

/-- An accepted `Write`. -/
theorem ClientSends.write (h : ClientSends W r f) (hW : 1 ≤ W) (hok : f.Ok W)
    (hest : r.established = true) {p : Payload} {replyc : Nat} {t : Buffer × Buffer × List Message}
    (ht : sendOrQueue W r.client.unAckedMsgBuffer r.client.writeBuffer
      (newData r.client.connId (r.client.seqNum + 1) p) = t)
    (hsame : Client.SameBuffers { r.client with
      seqNum := r.client.seqNum + 1, unAckedMsgBuffer := t.1, writeBuffer := t.2.1 } c) :
    ∃ f', Advances W c.connId f f' ∧ ClientSends W (r.record (some ⟨.dowrite p, replyc⟩) c
      (t.2.2.map .send ++ [.reply replyc ⟨.nil, none⟩])) f' := by
  obtain ⟨hs, hseq⟩ := h.sends hest
  rw [hseq] at ht
  obtain ⟨ls, k, hrun, hs', htr⟩ := hs.sendOrQueue hW hok p ht
  have hid : c.connId = r.client.connId := hsame.connId
  rw [← hid] at hs' htr
  refine ⟨_, ⟨⟨ls, hrun⟩, rfl, rfl, htr ▸ List.prefix_append _ _⟩,
    h.forward hest hid hsame.latestAck htr ?_ ?_ h.acked ?_ ?_⟩
  · rw [List.filterMap_append, filterMap_send]
    exact List.append_nil _
  · simp [ClientRun.newlyWritten, h.written]
  · rw [hsame.unAcked, hsame.write]
    exact hs'
  · rw [hsame.seqNum]
    simp [hseq]

/-- An ack on the established connection. -/
theorem ClientSends.ack (h : ClientSends W r f) (hW : 1 ≤ W) (hok : f.Ok W)
    (hest : r.established = true) {msg : Message} {replyc : Nat} (htype : msg.type = .ack)
    {t : Bool × Buffer × Buffer × List Message}
    (ht : ackReceived W r.client.unAckedMsgBuffer r.client.writeBuffer msg.seqNum = some t)
    (hsame : Client.SameBuffers { r.client with
      unAckedMsgBuffer := t.2.1, writeBuffer := t.2.2.1 } c) :
    ∃ f', Advances W c.connId f f' ∧ ClientSends W (r.record (some ⟨.receivemsg msg, replyc⟩) c
      (t.2.2.2.map .send)) f' := by
  obtain ⟨hs, hseq⟩ := h.sends hest
  obtain ⟨ls, k, hrun, hs', htr⟩ := hs.ackReceived hW hok msg.seqNum ht
  have hid : c.connId = r.client.connId := hsame.connId
  rw [← hid] at hs' htr
  refine ⟨_, ⟨⟨ls, hrun⟩, rfl, rfl, htr ▸ List.prefix_append _ _⟩,
    h.forward hest hid hsame.latestAck htr (filterMap_send _) ?_ (h.newlyAcked_eq hok htype replyc).symm ?_ ?_⟩
  · simp [ClientRun.newlyWritten, h.written]
  · rw [hsame.unAcked, hsame.write]
    exact hs'
  · rw [hsame.seqNum]
    exact hseq

/-- The connect message is in `unAckedMsgBuffer` until it is acknowledged. -/
theorem ClientSends.handshake (h : ClientSends W r f) (hest : r.established = false)
    (hlatest : c.latestAckBuffer = r.client.latestAckBuffer) (hwrite : c.writeBuffer.l = [])
    (hseq : c.seqNum = 0) (hwritten : ClientRun.newlyWritten incoming out = [])
    (hdata : ∀ m ∈ out.filterMap ClientOut.datagram, m.type ≠ .data)
    (hunAcked : ClientOut.connEstablishedSignal ∉ out → c.unAckedMsgBuffer.l =
      if (r.record incoming c out).called then [newConnect] else [])
    (hdone : ClientOut.connEstablishedSignal ∈ out →
      c.unAckedMsgBuffer.l = [] ∧ r.called = true) : ClientSends W (r.record incoming c out) f := by
  obtain ⟨hnil, -, -, -⟩ := h.waiting hest
  refine ⟨?_, ?_, ?_, hlatest ▸ h.acks, ?_, ?_, ?_⟩
  · simp only [ClientRun.record, hwritten, List.append_nil, h.written]
  · simp only [ClientRun.record, h.newlyAcked_waiting hest, List.nil_append, h.acked]
  · intro m
    rw [transmitted_nil hnil]
    simp only [ClientRun.record, List.not_mem_nil, List.mem_append, false_iff, not_and]
    rintro (hm | hm)
    · exact h.no_data hest m hm
    · exact hdata m hm
  · simp only [ClientRun.record, hest, Bool.false_or, decide_eq_true_eq]
    intro hsig
    rw [(hdone hsig).2, Bool.true_or]
  · intro hest'
    simp only [ClientRun.record, hest, Bool.false_or, decide_eq_false_iff_not] at hest'
    exact ⟨hnil, hwrite, hseq, hunAcked hest'⟩
  · intro hest'
    simp only [ClientRun.record, hest, Bool.false_or, decide_eq_true_eq] at hest'
    refine ⟨⟨⟨?_, ?_⟩, fun hne => absurd hwrite hne⟩, ?_⟩
    · rw [transmitted_nil hnil]
      exact (hdone hest').1
    · rw [hnil, List.drop_nil]
      exact hwrite
    · rw [hnil]
      exact hseq

end SendingHalf

/-- Whatever arrives, the sending half of the client follows a flow. -/
theorem ClientSends.step {P : Params} (hW : 1 ≤ P.windowSize) {r r' : ClientRun}
    {f : Flow Payload} (h : ClientSends P.windowSize r f) (hok : f.Ok P.windowSize)
    {incoming : Option ClientReq} (hst : r.step P incoming = some r') :
    ∃ f', Advances P.windowSize r'.client.connId f f' ∧ ClientSends P.windowSize r' f' := by
  obtain ⟨hadm, c, out, rfl, heff⟩ := ClientRun.step_cases hst
  cases heff with
  | quiet hsame hout hpass =>
    refine ⟨f, .refl _ _ f, h.idle hsame.write hsame.unAcked hsame.connId hsame.seqNum
      (hsame.latestAck ▸ h.acks) ?_ ?_
      hpass.noConnect (no_signal_of_silent hout) ?_⟩
    · exact newlyWritten_nil hpass.reject
    · exact newlyAcked_nil hpass.noAck
    · simp [datagram_of_silent hout]
  | read hm hexp hop hsame =>
    have hop' : ∀ req, incoming = some req → req.op ≠ .doconnect := by
      intro req hreq
      simp [hop req hreq]
    refine ⟨f, .refl _ _ f, h.idle hsame.write hsame.unAcked hsame.connId hsame.seqNum
      (hsame.latestAck ▸ h.acks) ?_ ?_ hop'
      (by simp) (by simp [ClientOut.datagram])⟩
    · exact newlyWritten_nil fun p replyc hreq => by cases hop _ hreq
    · exact newlyAcked_nil fun msg replyc hreq => by cases hop _ hreq
  | write hr hsame => exact h.write hW hok hadm hr hsame
  | epoch hsame hout =>
    refine ⟨f, .refl _ _ f, h.idle hsame.write hsame.unAcked hsame.connId hsame.seqNum
      (hsame.latestAck ▸ h.acks) rfl rfl ?_ ?_ ?_⟩
    · rintro req ⟨⟩
      simp
    · intro hsig
      obtain ⟨m, hm, -⟩ := hout _ hsig
      cases hm
    · intro m hm hty
      obtain ⟨o, ho, hom⟩ := List.mem_filterMap.mp hm
      obtain ⟨m', rfl, hm'⟩ := hout o ho
      cases hom
      rcases hm' with hm' | rfl | hm'
      · exact hm'
      · cases hty
      · rw [h.acks m hm'] at hty
        cases hty
  | ack htype hr hest hsame =>
    rename_i msg replyc t
    cases hest' : r.established with
    | true => exact h.ack hW hok hest' htype hr hsame
    | false =>
      -- the ack is not for the connect message, so it is for nothing
      obtain ⟨h2, hl, hfound⟩ := h.ack_waiting hest' hr
      have hmiss : r.client.unAckedMsgBuffer.l.filter (fun m => decide (m.seqNum ≠ msg.seqNum)) =
          r.client.unAckedMsgBuffer.l := by
        refine List.filter_eq_self.mpr fun m hm => decide_eq_true fun he => ?_
        exact hest ⟨hfound.mpr ⟨m, hm, he⟩, he ▸ h.seqNum_waiting hest' hm⟩
      rw [hmiss] at hl
      refine ⟨f, .refl _ _ f, h.idle (hsame.write.trans (congrArg Prod.fst h2))
        (hsame.unAcked.trans (Buffer.ext hl)) hsame.connId hsame.seqNum (hsame.latestAck ▸ h.acks)
        rfl (h.newlyAcked_waiting hest' _) ?_ (by simp) ?_⟩
      · rintro req ⟨⟩
        simp
      · simp [congrArg Prod.snd h2]
  | established htype hr hfound hzero hsame =>
    cases hest' : r.established with
    | true =>
      -- every message that waits for an ack is numbered from 1
      exfalso
      obtain ⟨m, hm, hseq⟩ := (ackReceived_found hr).mp hfound
      have := ((h.sends hest').1.outstanding hm).1.1
      omega
    | false =>
      obtain ⟨h2, hl, hfound'⟩ := h.ack_waiting hest' hr
      obtain ⟨-, hw, hseq, hu⟩ := h.waiting hest'
      obtain ⟨m, hm, -⟩ := hfound'.mp hfound
      have hcalled : r.called = true := by
        by_contra hc
        rw [hu, if_neg hc] at hm
        cases hm
      refine ⟨f, ⟨⟨[], .nil f⟩, rfl, rfl, List.prefix_refl _⟩, h.handshake hest' hsame.latestAck ?_
        (hsame.seqNum.trans hseq) rfl ?_ ?_ ?_⟩
      · rw [hsame.write, congrArg Prod.fst h2]
        exact hw
      · rw [List.filterMap_append, filterMap_send, congrArg Prod.snd h2]
        simp [ClientOut.datagram]
      · intro hno
        exact absurd (List.mem_append_right _ (List.mem_singleton_self _)) hno
      · intro _
        refine ⟨?_, hcalled⟩
        rw [hsame.unAcked, hl, hu, if_pos hcalled, hzero]
        rfl
  | data htype hge hconn hr hsame =>
    refine ⟨f, .refl _ _ f, h.idle hsame.write hsame.unAcked hsame.connId hsame.seqNum
      ?_ rfl ?_ ?_ (by simp) ?_⟩
    · intro m hm
      rw [hsame.latestAck] at hm
      rcases acceptData_latestAck hr hm with hm | rfl
      · exact h.acks m hm
      · rfl
    · refine newlyAcked_nil ?_
      rintro msg replyc ⟨⟩
      simp [htype]
    · rintro req ⟨⟩
      simp
    · simp [ClientOut.datagram, newAck]
  | connect hsame =>
    have hcalled : r.called = false := by simpa [ClientRun.admits] using hadm
    have hest : r.established = false := by
      by_contra hest
      rw [h.called (Bool.eq_true_of_not_eq_false hest)] at hcalled
      cases hcalled
    obtain ⟨-, hw, hseq, hu⟩ := h.waiting hest
    refine ⟨f, .refl _ _ f, h.handshake hest hsame.latestAck (by rw [hsame.write]; exact hw)
      (hsame.seqNum.trans hseq) rfl ?_ ?_ (fun hsig => by simp at hsig)⟩
    · simp [ClientOut.datagram, newConnect]
    · intro _
      rw [hcalled] at hu
      rw [hsame.unAcked, Buffer.insert_last (by simp [hu]), hu]
      simp [ClientRun.record]

/-! ## The receiving half -/

/-- What the client has accepted and returned is the receiving end of `g`, the
flow of the connection `id`. -/
structure ClientReceives (W id : Int) (r : ClientRun) (g : Flow Payload) : Prop where
  returned : g.returned = r.returned
  accepted : ∀ q ∈ r.accepted, q ∈ g.accepted
  connId : r.client.connId = 0 ∨ r.client.connId = id
  established : r.established = true → r.client.connId = id
  receives : Receives W id g r.client.readBuffer r.client.latestAckBuffer r.client.expectedSeqNum

theorem clientReceives_init (W id : Int) : ClientReceives W id .init .empty where
  returned := rfl
  accepted := nofun
  connId := .inl rfl
  established := nofun
  receives := receives_empty W id

/-- The datagrams that come from the server's end of the connection. -/
def FromPeer (id : Int) (g : Flow Payload) (msg : Message) : Prop :=
  (msg.type = .data → msg ∈ transmitted id g) ∧ (msg.type = .ack → msg.connID = id)

section ReceivingHalf

variable {W id : Int} {r : ClientRun} {g : Flow Payload} {incoming : Option ClientReq} {c : Client}
  {out : List ClientOut}

theorem ClientReceives.advance (h : ClientReceives W id r g) {W' : Int} {g' : Flow Payload}
    (hadv : Advances W' id g g') : ClientReceives W id r g' where
  returned := hadv.returned.trans h.returned
  accepted := hadv.accepted ▸ h.accepted
  connId := h.connId
  established := h.established
  receives := h.receives.advance hadv

/-- The connection keeps its id. -/
theorem ClientReceives.same_connId (h : ClientReceives W id r g) (hc : c.connId = r.client.connId)
    (hsig : ClientOut.connEstablishedSignal ∉ out) : (c.connId = 0 ∨ c.connId = id) ∧
      ((r.record incoming c out).established = true → c.connId = id) := by
  rw [hc]
  refine ⟨h.connId, fun hest => h.established ?_⟩
  simpa [ClientRun.record, hsig] using hest

/-- The receiving half has followed the flow from `g` to `g'`. -/
theorem ClientReceives.next (h : ClientReceives W id r g) {g' : Flow Payload}
    (hrec : Receives W id g' c.readBuffer c.latestAckBuffer c.expectedSeqNum)
    (hret : g'.returned = g.returned ++ out.filterMap ClientOut.payload)
    (hacc : ∀ q ∈ g.accepted, q ∈ g'.accepted) (hid : (c.connId = 0 ∨ c.connId = id) ∧
      ((r.record incoming c out).established = true → c.connId = id)) :
    ClientReceives W id (r.record incoming c out) g' where
  returned := by
    rw [hret, h.returned]
    rfl
  accepted q hq := by
    simp only [ClientRun.record, List.mem_append, List.mem_map] at hq
    rcases hq with ⟨m, hm, rfl⟩ | hq
    · exact hrec.read_accepted m hm
    · exact hacc q (h.accepted q hq)
  connId := hid.1
  established := hid.2
  receives := hrec

theorem ClientReceives.idle (h : ClientReceives W id r g)
    (hread : c.readBuffer = r.client.readBuffer)
    (hlatest : c.latestAckBuffer = r.client.latestAckBuffer)
    (hexp : c.expectedSeqNum = r.client.expectedSeqNum) (hid : (c.connId = 0 ∨ c.connId = id) ∧
      ((r.record incoming c out).established = true → c.connId = id))
    (hout : out.filterMap ClientOut.payload = []) :
    ClientReceives W id (r.record incoming c out) g := by
  refine h.next ?_ (by rw [hout, List.append_nil]) (fun _ hq => hq) hid
  rw [hread, hlatest, hexp]
  exact h.receives

theorem ClientReceives.deliver (h : ClientReceives W id r g) {replyc : Nat} {m : Message}
    {rb : Buffer} (hm : r.client.readBuffer.remove = some (m, rb))
    (hexp : m.seqNum = r.client.expectedSeqNum) (hsame : Client.SameBuffers { r.client with
      readBuffer := rb, expectedSeqNum := r.client.expectedSeqNum + 1 } c) :
    ∃ g', Absorbs g g' ∧
      ClientReceives W id (r.record incoming c [.reply replyc ⟨.bytes m.payload, none⟩]) g' := by
  obtain ⟨habs, hrec⟩ := h.receives.deliver hm hexp
  refine ⟨_, habs, h.next ?_ rfl (fun _ hq => hq) (h.same_connId hsame.connId (by simp))⟩
  rw [hsame.read, hsame.latestAck, hsame.expected]
  exact hrec

theorem ClientReceives.accept (h : ClientReceives W id r g) {msg : Message} {replyc : Nat}
    (hmem : msg ∈ transmitted id g) (hge : msg.seqNum ≥ r.client.expectedSeqNum)
    (hconn : r.client.connId ≠ 0) {t : Buffer × Buffer}
    (ht : acceptData W r.client.connId r.client.readBuffer r.client.latestAckBuffer msg = some t)
    (hsame : Client.SameBuffers { r.client with readBuffer := t.1, latestAckBuffer := t.2 } c) :
    ∃ g', Absorbs g g' ∧ ClientReceives W id (r.record (some ⟨.receivemsg msg, replyc⟩) c
      [.send (newAck r.client.connId msg.seqNum)]) g' := by
  rw [h.connId.resolve_left hconn] at ht
  obtain ⟨habs, hrec⟩ := h.receives.acceptData hmem hge ht
  refine ⟨_, habs, h.next ?_ (List.append_nil _).symm (fun _ hq => List.mem_cons_of_mem _ hq)
    (h.same_connId hsame.connId (by simp))⟩
  rw [hsame.read, hsame.latestAck, hsame.expected]
  exact hrec

end ReceivingHalf

/-- On datagrams from the peer, the receiving half of the client follows the
peer's flow. -/
theorem ClientReceives.step {P : Params} {id : Int} {r r' : ClientRun} {g : Flow Payload}
    (h : ClientReceives P.windowSize id r g) {incoming : Option ClientReq}
    (hpeer : ∀ msg replyc, incoming = some ⟨.receivemsg msg, replyc⟩ → FromPeer id g msg)
    (hst : r.step P incoming = some r') :
    ∃ g', Absorbs g g' ∧ ClientReceives P.windowSize id r' g' := by
  obtain ⟨-, c, out, rfl, heff⟩ := ClientRun.step_cases hst
  cases heff with
  | quiet hsame hout hpass =>
    exact ⟨g, .refl g, h.idle hsame.read hsame.latestAck hsame.expected
      (h.same_connId hsame.connId (no_signal_of_silent hout)) (payload_of_silent hout)⟩
  | read hm hexp hop hsame => exact h.deliver hm hexp hsame
  | write hr hsame =>
    refine ⟨g, .refl g, h.idle hsame.read hsame.latestAck hsame.expected
      (h.same_connId hsame.connId (by simp)) ?_⟩
    rw [List.filterMap_append, payload_send]
    rfl
  | epoch hsame hout =>
    refine ⟨g, .refl g, h.idle hsame.read hsame.latestAck hsame.expected
      (h.same_connId hsame.connId fun hsig => ?_) ?_⟩
    · obtain ⟨m, hm, -⟩ := hout _ hsig
      cases hm
    · refine List.filterMap_eq_nil_iff.mpr fun o ho => ?_
      obtain ⟨m, rfl, -⟩ := hout o ho
      rfl
  | ack htype hr hest hsame =>
    exact ⟨g, .refl g, h.idle hsame.read hsame.latestAck hsame.expected
      (h.same_connId hsame.connId (by simp)) (payload_send _)⟩
  | established htype hr hfound hzero hsame =>
    have hid : c.connId = id := hsame.connId.trans ((hpeer _ _ rfl).2 htype)
    refine ⟨g, .refl g, h.idle hsame.read hsame.latestAck hsame.expected
      ⟨.inr hid, fun _ => hid⟩ ?_⟩
    rw [List.filterMap_append, payload_send]
    rfl
  | data htype hge hconn hr hsame =>
    exact h.accept ((hpeer _ _ rfl).1 htype) hge hconn hr hsame
  | connect hsame =>
    exact ⟨g, .refl g, h.idle hsame.read hsame.latestAck hsame.expected
      (h.same_connId hsame.connId (by simp)) rfl⟩

end Cmu440.Lsp
