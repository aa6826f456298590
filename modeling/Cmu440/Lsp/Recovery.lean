import Cmu440.Lsp.Delivery
import Cmu440.Lsp.Received

/-!
# An open connection recovers

The network may have lost everything that was ever sent. As long as the connection
is open and the client survives its next epoch, what happens from then on can still
bring every payload to the other side and every ack back, with datagrams that are
sent from then on only (`healing`):

* in an epoch a side sends what is unacknowledged, and acks: those it remembers, or
  the ack of number 0 if there are none. So an epoch of either side is something for
  the other side to hear, and keeps the connection there alive;
* a data message with a number that `Read` has not passed is acknowledged when it
  arrives, also if it has arrived before. The ack of a number that was passed is
  still remembered as long as the sender waits for it (`Linked.server_remembers`,
  `Linked.client_remembers`), and comes with the next epoch. This is where the windows
  have to agree.

So every unacknowledged number is acknowledged after one epoch on each side
(`Sound.up_one`, `Sound.down_one`), the next ones move into the window, and what is
acknowledged can be read.
-/
namespace Cmu440.Lsp

variable {A : Type}

section

variable [DecidableEq A]

/-- What arrives was sent after the first `n` datagrams of the client and the first
`k` of the server. -/
def Link.since (addr : A) (n k : Nat) (l : Link A) : LinkLbl A → Bool
  | .client (some ⟨.receivemsg msg, _⟩) => decide ((addr, msg) ∈ l.server.net.drop k)
  | .client _ => true
  | .server req =>
    match req.op with
    | .receivemsg _ msg => decide (msg ∈ l.client.net.drop n)
    | _ => true

/-- The runs of an open connection that go on after everything in the network was
lost. -/
def healing (P Q : Params) (addr : A) (n k : Nat) : LTS (Link A) (LinkLbl A) :=
  .ofFn (openLink P Q addr).Reachable
    (LTS.guarded (Link.since addr n k) fun l a => (l.step P Q addr a).filter Link.isOpen)

end

/-- The connection is open, established, and has got as far as `n` and `k`. -/
structure Sound (P Q : Params) (addr : A) (n k : Nat) (l : Link A) : Prop where
  linked : ∃ f F, Linked P Q addr l f F
  received : Received l
  established : l.client.established = true
  clientNet : n ≤ l.client.net.length
  serverNet : k ≤ l.server.net.length

/-- The connection goes on from `l` to `l'`, without calls of `Write`. -/
structure Goes [DecidableEq A] (P Q : Params) (addr : A) (n k : Nat) (l l' : Link A) : Prop where
  run : ∃ ls, (healing P Q addr n k).Run l ls l'
  sound : Sound P Q addr n k l'
  clientWritten : l'.client.written = l.client.written
  serverWritten : l'.server.written 1 = l.server.written 1
  clientAcked : l.client.acked ⊆ l'.client.acked
  serverAcked : l.server.acked 1 ⊆ l'.server.acked 1
  serverSent : l.server.net ⊆ l'.server.net

variable {P Q : Params} {addr : A} {n k : Nat} {l l' l'' : Link A}

theorem Goes.refl [DecidableEq A] (h : Sound P Q addr n k l) : Goes P Q addr n k l l :=
  ⟨⟨[], .nil l⟩, h, rfl, rfl, fun _ hq => hq, fun _ hq => hq, fun _ hx => hx⟩

theorem Goes.trans [DecidableEq A] (h : Goes P Q addr n k l l') (h' : Goes P Q addr n k l' l'') :
    Goes P Q addr n k l l'' where
  run := by
    obtain ⟨ls, hr⟩ := h.run
    obtain ⟨ls', hr'⟩ := h'.run
    exact ⟨ls ++ ls', hr.append hr'⟩
  sound := h'.sound
  clientWritten := h'.clientWritten.trans h.clientWritten
  serverWritten := h'.serverWritten.trans h.serverWritten
  clientAcked _ hq := h'.clientAcked (h.clientAcked hq)
  serverAcked _ hq := h'.serverAcked (h.serverAcked hq)
  serverSent _ hx := h'.serverSent (h.serverSent hx)

/-! ## Where the connection stands -/

theorem Client.isOpen_iff {c : Client} : c.isOpen = true ↔
    c.clientRunning = true ∧ c.connLost = false ∧ c.deferedClose = [] := by
  simp [Client.isOpen, and_assoc]

namespace Sound

variable (h : Sound P Q addr n k l)
include h

theorem clientOpen : l.client.client.clientRunning = true ∧ l.client.client.connLost = false ∧
    l.client.client.deferedClose = [] := by
  obtain ⟨f, F, hl⟩ := h.linked
  exact Client.isOpen_iff.mp hl.isOpen_both.1

theorem connId : l.client.client.connId = 1 := by
  obtain ⟨f, F, hl⟩ := h.linked
  exact hl.clientIn.established h.established

theorem serverOpen : l.server.server.isOpen = true := by
  obtain ⟨f, F, hl⟩ := h.linked
  exact hl.isOpen_both.2

theorem serverConnId : l.server.server.connId = 1 := by
  obtain ⟨f, F, hl⟩ := h.linked
  have h₁ := h.received.opened h.established
  have h₂ := hl.known.connId_le
  omega

theorem ids : l.server.server.ids = [1] := by
  rw [Server.ids, h.serverConnId]
  rfl

theorem entries : Entries l.server.server 1 addr := by
  obtain ⟨f, F, hl⟩ := h.linked
  rcases hl.known with ⟨h₀, -⟩ | ⟨-, -, haddr⟩
  · rw [h.serverConnId] at h₀
    cases h₀
  · exact h.received.maps.entries haddr

theorem connIdOf : l.server.server.connIdOf addr = 1 := by
  rw [Server.connIdOf, h.entries.hostport]
  rfl

end Sound

/-! ## Moves of the client -/

section Client

variable [DecidableEq A]

theorem Goes.of_step (h : Sound P Q addr n k l) {a : LinkLbl A} (hP : 1 ≤ P.windowSize)
    (hQ : 1 ≤ Q.windowSize) (hsince : l.since addr n k a = true)
    (hst : l.step P Q addr a = some l') (hopen : l'.isOpen = true)
    (hest : l'.client.established = true) (hcnet : l.client.net.length ≤ l'.client.net.length)
    (hsnet : l.server.net <+: l'.server.net)
    (hcw : l'.client.written = l.client.written)
    (hsw : l'.server.written 1 = l.server.written 1)
    (hca : l.client.acked ⊆ l'.client.acked) (hsa : l.server.acked 1 ⊆ l'.server.acked 1) :
    Goes P Q addr n k l l' := by
  have hfilter : (l.step P Q addr a).filter Link.isOpen = some l' :=
    Option.filter_eq_some_iff.mpr ⟨hst, hopen⟩
  obtain ⟨hlinked, hreceived⟩ := (received_inductive hP hQ addr).step l a l'
    ⟨h.linked, h.received⟩ hfilter
  exact ⟨⟨[a], .single (LTS.guarded_eq_some.mpr ⟨hsince, hfilter⟩)⟩,
    ⟨hlinked, hreceived, hest, h.clientNet.trans hcnet, h.serverNet.trans hsnet.length_le⟩,
    hcw, hsw, hca, hsa, fun _ hx => hsnet.subset hx⟩

/-- An iteration of the client's event handler. -/
theorem Sound.clientMove (h : Sound P Q addr n k l) (hP : 1 ≤ P.windowSize) (hQ : 1 ≤ Q.windowSize)
    {incoming : Option ClientReq} {c : Client} {out : List ClientOut}
    (hadm : l.client.admits incoming = true)
    (hsince : ∀ msg replyc, incoming = some ⟨.receivemsg msg, replyc⟩ →
      (addr, msg) ∈ l.server.net.drop k)
    (hit : l.client.client.iterate P incoming = some (c, out)) (hopen : c.isOpen = true)
    (hno : ClientRun.newlyWritten incoming out = []) :
    Goes P Q addr n k l { l with client := l.client.record incoming c out } := by
  have hhears : l.since addr n k (.client incoming) = true ∧
      l.clientHears addr incoming = true := by
    unfold Link.since Link.clientHears
    split
    · rename_i msg replyc heq
      cases heq
      have hmem := hsince msg replyc rfl
      exact ⟨decide_eq_true hmem, decide_eq_true (List.mem_of_mem_drop hmem)⟩
    · rename_i incoming' hne heq
      cases heq
      refine ⟨rfl, ?_⟩
      split
      · rename_i msg replyc
        exact absurd rfl (hne msg replyc)
      · rfl
    · rename_i heq
      cases heq
  refine .of_step h hP hQ hhears.1 ?_ ?_ ?_ ?_ (List.prefix_refl _) ?_ rfl ?_ (fun _ hq => hq)
  · simp only [Link.step, hhears.2, if_true, ClientRun.step, hadm, hit, Option.map_some]
  · simp only [Link.isOpen, Bool.and_eq_true]
    exact ⟨hopen, h.serverOpen⟩
  · simp [ClientRun.record, h.established]
  · simp [ClientRun.record]
  · simp [ClientRun.record, hno]
  · exact fun q hq => List.mem_append_right _ hq

/-- No blocked `Read` can be answered. -/
def Client.Idle (c : Client) : Prop := c.deferedRead = [] ∨ c.ready = false

theorem Client.Idle.turn {c : Client} (h : c.Idle) (hopen : c.clientRunning = true ∧
    c.connLost = false ∧ c.deferedClose = []) : c.turn = .receive := by
  obtain ⟨hrun, hlost, hclose⟩ := hopen
  unfold Client.turn
  rcases h with h | h
  · simp [hrun, hlost, hclose, h]
  · simp [hrun, hlost, hclose, h]

/-- The client is as before, up to its blocked reads and what they have read. -/
structure SameClient (r r' : ClientRun) : Prop where
  unAcked : r'.client.unAckedMsgBuffer = r.client.unAckedMsgBuffer
  latestAck : r'.client.latestAckBuffer = r.client.latestAckBuffer
  currEpoch : r'.client.currEpoch = r.client.currEpoch
  latestActiveEpoch : r'.client.latestActiveEpoch = r.client.latestActiveEpoch

omit [DecidableEq A] in
theorem Client.handleRead_ready {c : Client} (hclose : c.deferedClose = [])
    (hready : c.ready = true) {m : Message} {rb : Buffer}
    (hm : c.readBuffer.remove = some (m, rb)) (replyc : Nat) :
    c.handleRead replyc = some ({ c with
      readBuffer := rb, expectedSeqNum := c.expectedSeqNum + 1 },
      [.reply replyc ⟨.bytes m.payload, none⟩]) := by
  simp [Client.handleRead, hclose, hready, hm]

/-- Blocked reads are answered as long as there is something to read. -/
theorem Sound.flush (h : Sound P Q addr n k l) (hP : 1 ≤ P.windowSize) (hQ : 1 ≤ Q.windowSize) :
    ∃ l', Goes P Q addr n k l l' ∧ l'.server = l.server ∧ l'.client.client.Idle ∧
      SameClient l.client l'.client := by
  generalize hlen : l.client.client.deferedRead.length = len
  induction len generalizing l with
  | zero =>
    exact ⟨l, .refl h, rfl, .inl (List.length_eq_zero_iff.mp hlen), rfl, rfl, rfl, rfl⟩
  | succ len ih =>
    cases hready : l.client.client.ready with
    | false => exact ⟨l, .refl h, rfl, .inr hready, rfl, rfl, rfl, rfl⟩
    | true =>
      obtain ⟨replyc, rest, hreads⟩ := List.exists_cons_of_length_eq_add_one hlen
      obtain ⟨hrun, hlost, hclose⟩ := h.clientOpen
      have hturn : l.client.client.turn =
          .unblock { l.client.client with deferedRead := rest } ⟨.doread, replyc⟩ := by
        simp [Client.turn, hrun, hlost, hready, hreads]
      obtain ⟨⟨m, rb⟩, hm⟩ : ∃ t, l.client.client.readBuffer.remove = some t := by
        cases hrm : l.client.client.readBuffer.remove with
        | none => simp [Client.ready, Buffer.front, Buffer.remove_eq_none.mp hrm] at hready
        | some t => exact ⟨t, rfl⟩
      have hit : l.client.client.iterate P none = some ({ l.client.client with
          deferedRead := rest, readBuffer := rb,
          expectedSeqNum := l.client.client.expectedSeqNum + 1 },
          [.reply replyc ⟨.bytes m.payload, none⟩]) := by
        unfold Client.iterate
        rw [hturn]
        exact Client.handleRead_ready (c := { l.client.client with deferedRead := rest })
          hclose hready hm replyc
      have hgoes := h.clientMove hP hQ rfl (fun _ _ heq => by cases heq) hit
        (Client.isOpen_iff.mpr ⟨hrun, hlost, hclose⟩) rfl
      obtain ⟨l', hgoes', hserver, hidle, hsame⟩ := ih hgoes.sound (by
        have hlen' : rest.length + 1 = len + 1 := by
          rw [hreads] at hlen
          exact hlen
        exact Nat.succ.inj hlen')
      exact ⟨l', hgoes.trans hgoes', hserver, hidle, hsame.unAcked, hsame.latestAck,
        hsame.currEpoch, hsame.latestActiveEpoch⟩

omit [DecidableEq A] in
theorem Client.Idle.iterate {c : Client} (h : c.Idle) (hopen : c.clientRunning = true ∧
    c.connLost = false ∧ c.deferedClose = []) {req : ClientReq} (hread : req.op ≠ .doread)
    (hclose : req.op ≠ .doclose) : c.iterate P (some req) = c.handle P req := by
  unfold Client.iterate
  rw [h.turn hopen]
  simp [Client.deferRequest, hread, hclose]

omit [DecidableEq A] in
/-- What is sent now is sent after the first `n` datagrams. -/
theorem mem_drop_append {α : Type} {net new : List α} {n : Nat} (hn : n ≤ net.length) {m : α}
    (hm : m ∈ new) : m ∈ (net ++ new).drop n := by
  rw [List.drop_append_of_le_length hn]
  exact List.mem_append_right _ hm

/-- The connection survives the client's next epoch. -/
def Client.Alive (P : Params) (c : Client) : Prop :=
  c.currEpoch + 1 - c.latestActiveEpoch < P.epochLimit

omit [DecidableEq A] in
theorem Client.handleEpoch_alive {c : Client} (hclose : c.deferedClose = []) (halive : c.Alive P) :
    ∃ out, c.handleEpoch P = ({ c with currEpoch := c.currEpoch + 1 }, out) ∧
      (∀ m ∈ c.unAckedMsgBuffer.l, .send m ∈ out) ∧ (∀ m ∈ c.latestAckBuffer.l, .send m ∈ out) ∧
      (0 < c.connId → c.latestAckBuffer.l = [] → .send (newAck c.connId 0) ∈ out) := by
  have hnot : ¬c.currEpoch + 1 - c.latestActiveEpoch ≥ P.epochLimit := not_le.mpr halive
  refine ⟨_, by simp only [Client.handleEpoch, if_neg hnot]; rfl, ?_, ?_, ?_⟩
  · intro m hm
    exact List.mem_append_left _ (List.mem_append_right _ (List.mem_map_of_mem hm))
  · intro m hm
    refine List.mem_append_right _ ?_
    rw [if_pos (List.length_eq_zero_iff.mpr hclose)]
    exact List.mem_map_of_mem hm
  · intro hconn hnil
    refine List.mem_append_left _ (List.mem_append_left _ ?_)
    rw [if_pos ⟨hconn, Buffer.len_eq_zero.mpr hnil, List.length_eq_zero_iff.mpr hclose⟩]
    exact List.mem_singleton_self _

/-- An epoch of the client sends what is unacknowledged and the acks it remembers,
and at least one ack. -/
theorem Sound.clientEpoch (h : Sound P Q addr n k l) (hP : 1 ≤ P.windowSize)
    (hQ : 1 ≤ Q.windowSize) (hidle : l.client.client.Idle) (halive : l.client.client.Alive P) :
    ∃ l', Goes P Q addr n k l l' ∧ l'.server = l.server ∧ l'.client.client =
        { l.client.client with currEpoch := l.client.client.currEpoch + 1 } ∧
      (∀ m ∈ l.client.client.unAckedMsgBuffer.l, m ∈ l'.client.net.drop n) ∧
      (∀ m ∈ l.client.client.latestAckBuffer.l, m ∈ l'.client.net.drop n) ∧
      ∃ m ∈ l'.client.net.drop n, m.type = .ack := by
  have hopen := h.clientOpen
  obtain ⟨f, F, hl⟩ := h.linked
  obtain ⟨out, hepoch, hunAcked, hacks, hnone⟩ := Client.handleEpoch_alive hopen.2.2 halive
  have hit : l.client.client.iterate P (some ⟨.epochtimer, 0⟩) = some
      ({ l.client.client with currEpoch := l.client.client.currEpoch + 1 }, out) := by
    rw [← hepoch]
    exact hidle.iterate hopen (by decide) (by decide)
  have hsent : ∀ m, .send m ∈ out → m ∈ (l.client.net ++ out.filterMap ClientOut.datagram).drop n :=
    fun m hm => mem_drop_append h.clientNet (List.mem_filterMap.mpr ⟨.send m, hm, rfl⟩)
  refine ⟨_, h.clientMove hP hQ rfl (fun _ _ heq => by cases heq) hit
    (Client.isOpen_iff.mpr hopen) rfl, rfl, rfl, fun m hm => hsent m (hunAcked m hm),
    fun m hm => hsent m (hacks m hm), ?_⟩
  cases hlist : l.client.client.latestAckBuffer.l with
  | nil => exact ⟨_, hsent _ (hnone (by rw [h.connId]; decide) hlist), rfl⟩
  | cons m rest =>
    have hm : m ∈ l.client.client.latestAckBuffer.l := by
      rw [hlist]
      exact List.mem_cons_self
    exact ⟨m, hsent m (hacks m hm), hl.clientOut.acks m hm⟩

omit [DecidableEq A] in
/-- Equal up to the buffers. -/
structure Client.SameState (c c' : Client) : Prop where
  clientRunning : c'.clientRunning = c.clientRunning
  connLost : c'.connLost = c.connLost
  deferedClose : c'.deferedClose = c.deferedClose
  currEpoch : c'.currEpoch = c.currEpoch
  latestActiveEpoch : c'.latestActiveEpoch = c.latestActiveEpoch

theorem Client.SameState.isOpen {c c' : Client} (hs : c.SameState c')
    (hopen : c.clientRunning = true ∧ c.connLost = false ∧ c.deferedClose = []) :
    c'.isOpen = true :=
  Client.isOpen_iff.mpr ⟨hs.clientRunning.trans hopen.1, hs.connLost.trans hopen.2.1,
    hs.deferedClose.trans hopen.2.2⟩

theorem Client.handleAck_isSome (c : Client) (msg : Message) :
    ∃ c' out, c.handleAck P msg = some (c', out) ∧ c.SameState c' := by
  obtain ⟨r, hr⟩ := ackReceived_isSome P.windowSize c.unAckedMsgBuffer c.writeBuffer msg.seqNum
  unfold Client.handleAck
  rw [hr, Option.bind_eq_bind, Option.bind_some]
  split
  · exact ⟨_, _, rfl, rfl, rfl, rfl, rfl, rfl⟩
  · exact ⟨_, _, rfl, rfl, rfl, rfl, rfl, rfl⟩

/-- A client that hears something is alive. -/
theorem Client.alive_of_heard {c c' : Client} (hlim : 2 ≤ P.epochLimit)
    (hs : Client.SameState { c with latestActiveEpoch := c.currEpoch } c') : c'.Alive P := by
  unfold Client.Alive
  rw [hs.currEpoch, hs.latestActiveEpoch]
  simp only
  omega

/-- An ack arrives at the client. -/
theorem Sound.clientAck (h : Sound P Q addr n k l) (hP : 1 ≤ P.windowSize) (hQ : 1 ≤ Q.windowSize)
    (hlim : 2 ≤ P.epochLimit) (hidle : l.client.client.Idle) {msg : Message}
    (hmem : (addr, msg) ∈ l.server.net.drop k) (hack : msg.type = .ack) :
    ∃ l', Goes P Q addr n k l l' ∧ l'.server = l.server ∧ l'.client.client.Alive P ∧
      ∀ m ∈ l.client.net, m.type = .data → m.seqNum = msg.seqNum →
        msg.seqNum ∈ l'.client.acked := by
  have hopen := h.clientOpen
  obtain ⟨c, out, hhandle, hsame⟩ := Client.handleAck_isSome (P := P)
    { l.client.client with latestActiveEpoch := l.client.client.currEpoch } msg
  have hit : l.client.client.iterate P (some ⟨.receivemsg msg, 0⟩) = some (c, out) := by
    rw [hidle.iterate hopen (by simp) (by simp)]
    simp only [Client.handle, Client.handleReceivedMsg, hack]
    exact hhandle
  refine ⟨_, h.clientMove hP hQ rfl (fun _ _ heq => by cases heq; exact hmem) hit
    (hsame.isOpen hopen) rfl, rfl, Client.alive_of_heard hlim hsame, fun m hm hdata hseq => ?_⟩
  refine List.mem_append_left _ ?_
  simp only [ClientRun.newlyAcked]
  rw [if_pos ⟨hack, m, hm, hdata, hseq⟩]
  exact List.mem_singleton_self _

/-- Data arrives at the client, with a number that has not been read. -/
theorem Sound.clientData (h : Sound P Q addr n k l) (hP : 1 ≤ P.windowSize) (hQ : 1 ≤ Q.windowSize)
    (hlim : 2 ≤ P.epochLimit) (hidle : l.client.client.Idle) {msg : Message}
    (hmem : (addr, msg) ∈ l.server.net.drop k) (hdata : msg.type = .data)
    (hge : l.client.client.expectedSeqNum ≤ msg.seqNum) :
    ∃ l', Goes P Q addr n k l l' ∧ l'.server = l.server ∧ l'.client.client.Alive P ∧
      newAck 1 msg.seqNum ∈ l'.client.net.drop n := by
  have hopen := h.clientOpen
  obtain ⟨t, ht⟩ := acceptData_isSome P.windowSize l.client.client.connId
    l.client.client.readBuffer l.client.client.latestAckBuffer msg
  have hit : l.client.client.iterate P (some ⟨.receivemsg msg, 0⟩) = some
      ({ l.client.client with
          latestActiveEpoch := l.client.client.currEpoch
          readBuffer := t.1
          latestAckBuffer := t.2 }, [.send (newAck l.client.client.connId msg.seqNum)]) := by
    rw [hidle.iterate hopen (by simp) (by simp)]
    simp only [Client.handle, Client.handleReceivedMsg, hdata, Client.handleData]
    rw [if_neg (by simp [h.connId, hopen.2.2]), if_pos hge, ht]
    rfl
  have hsame : Client.SameState
      { l.client.client with latestActiveEpoch := l.client.client.currEpoch }
      { l.client.client with
          latestActiveEpoch := l.client.client.currEpoch
          readBuffer := t.1
          latestAckBuffer := t.2 } := ⟨rfl, rfl, rfl, rfl, rfl⟩
  refine ⟨_, h.clientMove hP hQ rfl (fun _ _ heq => by cases heq; exact hmem) hit
    (hsame.isOpen hopen) rfl, rfl, Client.alive_of_heard hlim hsame, ?_⟩
  rw [h.connId]
  exact mem_drop_append h.clientNet (List.mem_singleton_self _)

/-- `Read` on the client, when there is something to read. -/
theorem Sound.clientRead (h : Sound P Q addr n k l) (hP : 1 ≤ P.windowSize) (hQ : 1 ≤ Q.windowSize)
    (hidle : l.client.client.Idle) (hready : l.client.client.ready = true) :
    ∃ l', Goes P Q addr n k l l' ∧ l'.server = l.server ∧
      l'.client.client.deferedRead = l.client.client.deferedRead ∧
      l'.client.returned.length = l.client.returned.length + 1 := by
  have hopen := h.clientOpen
  obtain ⟨⟨m, rb⟩, hm⟩ : ∃ t, l.client.client.readBuffer.remove = some t := by
    cases hrm : l.client.client.readBuffer.remove with
    | none => simp [Client.ready, Buffer.front, Buffer.remove_eq_none.mp hrm] at hready
    | some t => exact ⟨t, rfl⟩
  have hit : l.client.client.iterate P (some ⟨.doread, 0⟩) = some
      ({ l.client.client with
        readBuffer := rb, expectedSeqNum := l.client.client.expectedSeqNum + 1 },
        [.reply 0 ⟨.bytes m.payload, none⟩]) := by
    unfold Client.iterate
    rw [hidle.turn hopen]
    simp only [Client.deferRequest, hready, Bool.not_true, Bool.false_eq_true, and_false,
      if_false, reduceCtorEq, false_and]
    exact Client.handleRead_ready hopen.2.2 hready hm 0
  have hadm : l.client.admits (some ⟨.doread, 0⟩) = true := h.established
  refine ⟨_, h.clientMove hP hQ hadm (fun _ _ heq => by cases heq) hit
    (Client.isOpen_iff.mpr hopen) rfl, rfl, rfl, ?_⟩
  simp [ClientRun.record, ClientOut.payload]

end Client

/-! ## Moves of the server -/

section Server

/-- An event of the server; there is one connection to go through. -/
def atOne (op : ServerOp A) : ServerReq A := ⟨op, 0, ⟨[1], [1], [1]⟩⟩

theorem Server.isOpen_of {s : Server A} (hrun : s.serverRunning = true)
    (hclose : s.deferedClose = []) (hconn : s.connId = 1) (hactive : s.active 1 = true) :
    s.isOpen = true := by
  have hids : s.ids = [1] := by
    rw [Server.ids, hconn]
    rfl
  simp [Server.isOpen, hrun, hclose, hids, hactive]

theorem Server.running_of_isOpen {s : Server A} (h : s.isOpen = true) : s.serverRunning = true := by
  simp only [Server.isOpen, Bool.and_eq_true] at h
  exact h.1.1

/-- Equal up to the buffers and what has been heard. -/
structure Server.SameState (s s' : Server A) : Prop where
  serverRunning : s'.serverRunning = s.serverRunning
  deferedClose : s'.deferedClose = s.deferedClose
  connId : s'.connId = s.connId
  activeConn : s'.activeConn = s.activeConn
  latestActiveEpoch : s'.latestActiveEpoch = s.latestActiveEpoch
  currEpoch : s'.currEpoch = s.currEpoch

theorem Sound.stillOpen (h : Sound P Q addr n k l) {s s' : Server A} (hs : s.SameState s')
    (hrun : s.serverRunning = l.server.server.serverRunning)
    (hclose : s.deferedClose = l.server.server.deferedClose)
    (hconn : s.connId = l.server.server.connId)
    (hactive : s.activeConn = l.server.server.activeConn) : s'.isOpen = true := by
  refine Server.isOpen_of
    (hs.serverRunning.trans (hrun.trans (Server.running_of_isOpen h.serverOpen)))
    (hs.deferedClose.trans (hclose.trans (Server.isOpen_closing h.serverOpen)))
    (hs.connId.trans (hconn.trans h.serverConnId)) ?_
  rw [Server.active, hs.activeConn, hactive]
  exact h.entries.active

theorem Server.handleRead_state {s s' : Server A} {replyc : Nat} {o : Orders}
    {out : List (ServerOut A)} (h : s.handleRead replyc o = some (s', out)) : s.SameState s' := by
  unfold Server.handleRead at h
  split at h
  · cases h
    exact ⟨rfl, rfl, rfl, rfl, rfl, rfl⟩
  · split at h
    · simp only [Option.bind_eq_bind, Option.bind_eq_some_iff, Option.pure_def, Option.some.injEq,
        Prod.mk.injEq] at h
      obtain ⟨rb, -, t, -, rfl, -⟩ := h
      exact ⟨rfl, rfl, rfl, rfl, rfl, rfl⟩
    · split at h
      · cases h
        exact ⟨rfl, rfl, rfl, rfl, rfl, rfl⟩
      · cases h
        exact ⟨rfl, rfl, rfl, rfl, rfl, rfl⟩

/-- The connection survives the server's next epoch. -/
def Server.Alive (Q : Params) (s : Server A) : Prop :=
  ∀ e, s.latestActiveEpoch 1 = some e → s.currEpoch + 1 - e < Q.epochLimit

/-- A connection on which something is heard is alive. -/
theorem Server.alive_of_heard {s s' : Server A} (hlim : 2 ≤ Q.epochLimit)
    (hs : (s.heardFrom 1).SameState s') : s'.Alive Q := by
  intro e he
  rw [hs.latestActiveEpoch] at he
  simp only [Server.heardFrom, mapSet, Function.update_self, Option.some.injEq] at he
  rw [hs.currEpoch, ← he]
  simp only [Server.heardFrom]
  omega

variable [DecidableEq A]

/-- An event of the server's event handler. -/
theorem Sound.serverMove (h : Sound P Q addr n k l) (hP : 1 ≤ P.windowSize) (hQ : 1 ≤ Q.windowSize)
    {op : ServerOp A} {s : Server A} {out : List (ServerOut A)}
    (hsince : ∀ a msg, op = .receivemsg a msg → a = addr ∧ msg ∈ l.client.net.drop n)
    (hwrite : ∀ id p, op ≠ .dowrite id p)
    (hh : l.server.server.handle Q (atOne op) = some (s, out)) (hopen : s.isOpen = true) :
    Goes P Q addr n k l { l with server := l.server.record (atOne op) s out } := by
  have hhears : l.since addr n k (.server (atOne op)) = true ∧
      l.serverHears addr (atOne op) = true := by
    cases op with
    | receivemsg a msg =>
      obtain ⟨ha, hmem⟩ := hsince a msg rfl
      exact ⟨decide_eq_true hmem, decide_eq_true ⟨ha, List.mem_of_mem_drop hmem⟩⟩
    | _ => exact ⟨rfl, rfl⟩
  refine .of_step h hP hQ hhears.1 ?_ ?_ h.established (le_refl _) ?_ rfl ?_ (fun _ hq => hq) ?_
  · simp only [Link.step, hhears.2, if_true, ServerRun.step, hh, Option.map_some]
  · obtain ⟨f, F, hl⟩ := h.linked
    simp only [Link.isOpen, Bool.and_eq_true]
    exact ⟨hl.isOpen_both.1, hopen⟩
  · exact List.prefix_append _ _
  · have hno : ServerRun.newlyWritten 1 (atOne op) out = [] := by
      cases op with
      | dowrite id p => exact absurd rfl (hwrite id p)
      | _ => rfl
    simp [ServerRun.record, hno]
  · exact fun q hq => List.mem_append_right _ hq

theorem Sound.handle_eq (h : Sound P Q addr n k l) (op : ServerOp A) :
    l.server.server.handle Q (atOne op) = match op with
      | .receivemsg raddr msg => l.server.server.handleReceivedMsg Q raddr msg ⟨[1], [1], [1]⟩
      | .epochtimer => l.server.server.handleEpoch Q ⟨[1], [1], [1]⟩
      | .doread => l.server.server.handleRead 0 ⟨[1], [1], [1]⟩
      | .dowrite connId payload => l.server.server.handleWrite Q connId payload 0
      | .docloseconn connId => l.server.server.handleCloseConn connId 0
      | .doclose => l.server.server.handleClose 0 ⟨[1], [1], [1]⟩ := by
  have hperm : [1].Perm l.server.server.ids := by rw [h.ids]
  rw [Server.handle, if_pos ⟨Server.running_of_isOpen h.serverOpen, hperm, hperm, hperm⟩]
  rfl

/-- An ack arrives at the server. -/
theorem Sound.serverAck (h : Sound P Q addr n k l) (hP : 1 ≤ P.windowSize) (hQ : 1 ≤ Q.windowSize)
    (hlim : 2 ≤ Q.epochLimit) {msg : Message} (hmem : msg ∈ l.client.net.drop n)
    (hack : msg.type = .ack) :
    ∃ l', Goes P Q addr n k l l' ∧ l'.client = l.client ∧ l'.server.server.Alive Q ∧
      ∀ a m, (a, m) ∈ l.server.net → m.type = .data → m.connID = 1 → m.seqNum = msg.seqNum →
        msg.seqNum ∈ l'.server.acked 1 := by
  have hconn := h.connIdOf
  obtain ⟨⟨s, out⟩, hhandle, -⟩ := h.received.maps.ack_agrees Q addr msg
  have hh : l.server.server.handle Q (atOne (.receivemsg addr msg)) = some (s, out) := by
    rw [h.handle_eq]
    simp only [Server.handleReceivedMsg, hack]
    exact hhandle
  have hsame : (l.server.server.heardFrom 1).SameState s := by
    cases handlesAck_of_handle hhandle with
    | unknown hid =>
      rw [hconn] at hid
      exact absurd (by decide) hid
    | missed =>
      rw [hconn]
      exact ⟨rfl, rfl, rfl, rfl, rfl, rfl⟩
    | acked =>
      rw [hconn]
      exact ⟨rfl, rfl, rfl, rfl, rfl, rfl⟩
    | last hid hu hw hr hnil hclosed =>
      rw [hconn, h.entries.active] at hclosed
      exact absurd (Server.isOpen_closing h.serverOpen) (hclosed.resolve_left (by simp))
  have hopen := h.stillOpen hsame rfl rfl rfl rfl
  refine ⟨_, h.serverMove hP hQ (fun a m heq => by cases heq; exact ⟨rfl, hmem⟩)
    (fun _ _ heq => by cases heq) hh hopen, rfl, Server.alive_of_heard hlim hsame, ?_⟩
  intro a m hm hdata hid hseq
  refine List.mem_append_left _ ?_
  simp only [ServerRun.newlyAcked, atOne]
  rw [if_pos ⟨hack, by decide, hconn, (a, m), hm, hdata, hid, hseq⟩]
  exact List.mem_singleton_self _

/-- Data arrives at the server: a number that has not been read is acknowledged, and
another one changes nothing. -/
theorem Sound.serverData (h : Sound P Q addr n k l) (hP : 1 ≤ P.windowSize) (hQ : 1 ≤ Q.windowSize)
    (hlim : 2 ≤ Q.epochLimit) {msg : Message} (hmem : msg ∈ l.client.net.drop n)
    (hdata : msg.type = .data) :
    ∃ l', Goes P Q addr n k l l' ∧ l'.client = l.client ∧ l'.server.server.Alive Q ∧
      (l.server.server.expected 1 ≤ msg.seqNum →
        (addr, newAck 1 msg.seqNum) ∈ l'.server.net.drop k) ∧
      (msg.seqNum < l.server.server.expected 1 →
        l'.server.server.expected 1 = l.server.server.expected 1) := by
  have hconn := h.connIdOf
  have hclose := Server.isOpen_closing h.serverOpen
  obtain ⟨⟨s, out⟩, hhandle, -⟩ := h.received.maps.data_agrees Q addr msg ⟨[1], [1], [1]⟩
  have hh : l.server.server.handle Q (atOne (.receivemsg addr msg)) = some (s, out) := by
    rw [h.handle_eq]
    simp only [Server.handleReceivedMsg, hdata]
    exact hhandle
  -- what the handler does
  have hspec : (l.server.server.heardFrom 1).SameState s ∧
      (l.server.server.expected 1 ≤ msg.seqNum → .send addr (newAck 1 msg.seqNum) ∈ out) ∧
      (msg.seqNum < l.server.server.expected 1 → s.expected 1 = l.server.server.expected 1) := by
    have hguard : 1 > (0 : Int) ∧ l.server.server.active 1 = true ∧
        l.server.server.deferedClose.length = 0 :=
      ⟨by decide, h.entries.active, by rw [hclose]; rfl⟩
    simp only [Server.handleData, hconn, if_pos hguard] at hhandle
    split at hhandle
    · rename_i hge
      have hge' : l.server.server.expected 1 ≤ msg.seqNum := hge
      simp only [Option.bind_eq_bind, Option.bind_eq_some_iff] at hhandle
      obtain ⟨rb, -, lab, -, t, -, hhandle⟩ := hhandle
      refine and_assoc.mp ⟨?_, fun hlt => absurd hge' (not_le.mpr hlt)⟩
      split at hhandle
      · split at hhandle
        · simp only [Option.bind_eq_some_iff, Option.pure_def, Option.some.injEq,
            Prod.mk.injEq] at hhandle
          obtain ⟨⟨s₁, out₁⟩, hread, rfl, rfl⟩ := hhandle
          have hs := Server.handleRead_state hread
          exact ⟨⟨hs.serverRunning, hs.deferedClose, hs.connId, hs.activeConn,
            hs.latestActiveEpoch, hs.currEpoch⟩, fun _ => List.mem_cons_self⟩
        · cases hhandle
          exact ⟨⟨rfl, rfl, rfl, rfl, rfl, rfl⟩, fun _ => List.mem_cons_self⟩
      · cases hhandle
        exact ⟨⟨rfl, rfl, rfl, rfl, rfl, rfl⟩, fun _ => List.mem_cons_self⟩
    · rename_i hlt
      cases hhandle
      exact ⟨⟨rfl, rfl, rfl, rfl, rfl, rfl⟩, fun hge => absurd hge hlt, fun _ => rfl⟩
  obtain ⟨hsame, hack, hkept⟩ := hspec
  have hopen := h.stillOpen hsame rfl rfl rfl rfl
  refine ⟨_, h.serverMove hP hQ (fun a m heq => by cases heq; exact ⟨rfl, hmem⟩)
    (fun _ _ heq => by cases heq) hh hopen, rfl, Server.alive_of_heard hlim hsame, fun hge => ?_,
    hkept⟩
  exact mem_drop_append h.serverNet (List.mem_filterMap.mpr ⟨_, hack hge, rfl⟩)

/-- An epoch in which the only connection is not given up. -/
theorem Server.handleEpoch_kept {s s' : Server A}
    (hs : s' = { s with currEpoch := s.currEpoch + 1 }) (hclose : s.deferedClose = [])
    (halive : s.Alive Q) {b : Bool} (hpend : s.pending 1 = some b) :
    s.handleEpoch Q ⟨[1], [1], [1]⟩ = some (s', s'.resendAcks 1 ++ s'.resendUnAcked 1) := by
  have hone : s'.detectLost Q 1 = some (s', []) := by
    unfold Server.detectLost
    split
    · rfl
    · rename_i e he
      rw [hs] at he ⊢
      exact if_neg (not_le.mpr (halive e he))
  have hloop : s'.detectLostAll Q [1] = some (s', []) := by
    simp [Server.detectLostAll, hone]
  have hclose' : s'.deferedClose = [] := by rw [hs]; exact hclose
  have hpend' : s'.pending 1 = some b := by rw [hs]; exact hpend
  unfold Server.handleEpoch
  rw [← hs, hloop]
  simp [hclose', hpend']

/-- An epoch of the server sends what is unacknowledged and the acks it remembers,
and at least one ack. -/
theorem Sound.serverEpoch (h : Sound P Q addr n k l) (hP : 1 ≤ P.windowSize)
    (hQ : 1 ≤ Q.windowSize) (halive : l.server.server.Alive Q) :
    ∃ l', Goes P Q addr n k l l' ∧ l'.client = l.client ∧
      (∀ u, l.server.server.unAckedMsgBuffer 1 = some u → ∀ m ∈ u.l,
        (addr, m) ∈ l'.server.net.drop k) ∧
      (∀ lab, l.server.server.latestAckBuffer 1 = some lab → ∀ m ∈ lab.l,
        (addr, m) ∈ l'.server.net.drop k) ∧
      ∃ m, (addr, m) ∈ l'.server.net.drop k ∧ m.type = .ack := by
  obtain ⟨f, F, hl⟩ := h.linked
  have hclose := Server.isOpen_closing h.serverOpen
  obtain ⟨lab, hlab⟩ := Option.isSome_iff_exists.mp h.entries.latestAck
  obtain ⟨b, hb⟩ := h.received.maps.pending_isSome 1
  obtain ⟨s, hs⟩ : ∃ s : Server A,
      s = { l.server.server with currEpoch := l.server.server.currEpoch + 1 } := ⟨_, rfl⟩
  have hh : l.server.server.handle Q (atOne .epochtimer) =
      some (s, s.resendAcks 1 ++ s.resendUnAcked 1) := by
    rw [h.handle_eq]
    exact Server.handleEpoch_kept hs hclose halive hb
  have hopen : s.isOpen = true := by
    rw [hs]
    exact Server.isOpen_of (Server.running_of_isOpen h.serverOpen) hclose h.serverConnId
      h.entries.active
  have hsent : ∀ m, .send addr m ∈ s.resendAcks 1 ++ s.resendUnAcked 1 → (addr, m) ∈
      (l.server.net ++ (s.resendAcks 1 ++ s.resendUnAcked 1).filterMap ServerOut.datagram).drop k :=
    fun m hm => mem_drop_append h.serverNet (List.mem_filterMap.mpr ⟨_, hm, rfl⟩)
  have haddr : s.connIdHostportMap 1 = some addr := by rw [hs]; exact h.entries.addr
  have hacks : s.resendAcks 1 = if lab.len = 0 then [.send addr (newAck 1 0)]
      else lab.l.flatMap fun m => [.send addr m] := by
    have hactive : s.active 1 = true := by rw [hs]; exact h.entries.active
    have hlab' : s.latestAckBuffer 1 = some lab := by rw [hs]; exact hlab
    simp only [Server.resendAcks, hlab', hactive, if_true, haddr, sendMessageToAddr]
    rfl
  refine ⟨_, h.serverMove hP hQ (fun _ _ heq => by cases heq) (fun _ _ heq => by cases heq) hh
    hopen, rfl, ?_, ?_, ?_⟩
  · intro u hu m hm
    refine hsent m (List.mem_append_right _ ?_)
    have hu' : s.unAckedMsgBuffer 1 = some u := by rw [hs]; exact hu
    simp only [Server.resendUnAcked, hu', haddr, sendMessageToAddr, List.mem_flatMap,
      List.mem_singleton]
    exact ⟨m, hm, rfl⟩
  · intro lab' hlab' m hm
    cases hlab.symm.trans hlab'
    refine hsent m (List.mem_append_left _ ?_)
    have hlen : ¬lab.len = 0 := fun hz => by
      rw [Buffer.len_eq_zero.mp hz] at hm
      cases hm
    rw [hacks, if_neg hlen]
    exact List.mem_flatMap.mpr ⟨m, hm, List.mem_singleton_self _⟩
  · cases hlist : lab.l with
    | nil =>
      refine ⟨newAck 1 0, hsent _ (List.mem_append_left _ ?_), rfl⟩
      rw [hacks, if_pos (Buffer.len_eq_zero.mpr hlist)]
      exact List.mem_singleton_self _
    | cons m rest =>
      have hm : m ∈ lab.l := by
        rw [hlist]
        exact List.mem_cons_self
      refine ⟨m, hsent m (List.mem_append_left _ ?_), (hl.serverOut.acks 1 lab hlab m hm).1⟩
      rw [hacks, if_neg (by simp [Buffer.len, hlist])]
      exact List.mem_flatMap.mpr ⟨m, hm, List.mem_singleton_self _⟩

/-- `Read` on the server, when there is something to read. -/
theorem Sound.serverRead (h : Sound P Q addr n k l) (hP : 1 ≤ P.windowSize) (hQ : 1 ≤ Q.windowSize)
    {rb : Buffer} (hrb : l.server.server.readBuffer 1 = some rb)
    (hready : l.server.server.ready 1 rb = true) :
    ∃ l', Goes P Q addr n k l l' ∧ l'.client = l.client ∧
      (l'.server.returned 1).length = (l.server.returned 1).length + 1 := by
  have hclose := Server.isOpen_closing h.serverOpen
  obtain ⟨⟨m, rb'⟩, hm⟩ : ∃ t, rb.remove = some t := by
    cases hrm : rb.remove with
    | none => simp [Server.ready, Buffer.front, Buffer.remove_eq_none.mp hrm] at hready
    | some t => exact ⟨t, rfl⟩
  have hfind : [1].find? (fun connId => (l.server.server.readBuffer connId).any
      (l.server.server.ready connId)) = some 1 := by
    simp [hrb, hready]
  have hhandle : l.server.server.handleRead 0 ⟨[1], [1], [1]⟩ = some ({ l.server.server with
      readBuffer := mapSet l.server.server.readBuffer 1 rb'
      expectedSeqNum := mapSet l.server.server.expectedSeqNum 1
        (l.server.server.expected 1 + 1) }, [.reply 0 ⟨.bundle 1 m.payload, none⟩]) := by
    simp only [Server.handleRead, hclose, List.length_nil, gt_iff_lt, lt_irrefl, if_false, hfind,
      hrb, hm, Option.bind_eq_bind, Option.bind_some, Option.pure_def]
  have hh := h.handle_eq .doread
  simp only [hhandle] at hh
  refine ⟨_, h.serverMove hP hQ (fun _ _ heq => by cases heq) (fun _ _ heq => by cases heq) hh
    (h.stillOpen (Server.handleRead_state hhandle) rfl rfl rfl rfl), rfl, ?_⟩
  simp [ServerRun.record, ServerOut.payload]

end Server

/-! ## Every number is acknowledged -/

section Rounds

variable [DecidableEq A]

omit [DecidableEq A] in
/-- What is unacknowledged on the client has been sent. -/
theorem Sound.clientSent (h : Sound P Q addr n k l) {m : Message}
    (hm : m ∈ l.client.client.unAckedMsgBuffer.l) : m ∈ l.client.net ∧ m.type = .data := by
  obtain ⟨f, F, hl⟩ := h.linked
  have hs := (hl.clientOut.sends h.established).1
  exact (hl.clientOut.sentData m).mp (hs.mem_unAcked.mp hm).1

omit [DecidableEq A] in
theorem Sound.serverSent (h : Sound P Q addr n k l) {u : Buffer}
    (hu : l.server.server.unAckedMsgBuffer 1 = some u) {m : Message} (hm : m ∈ u.l) :
    (∃ a, (a, m) ∈ l.server.net) ∧ m.type = .data ∧ m.connID = 1 := by
  obtain ⟨f, F, hl⟩ := h.linked
  have hc := hl.serverOut.conn 1 hl.not_lost
  have hs := hc.sends
  rw [hu, Option.getD_some] at hs
  exact (hc.sentData m).mp (hs.mem_unAcked.mp hm).1

/-- An epoch of the client, and one of the server if the number was read before,
bring an ack for what the client has not heard about. -/
theorem Sound.up_one (h : Sound P Q addr n k l) (hP : 1 ≤ P.windowSize)
    (hsame : Q.windowSize = P.windowSize) (hPlim : 2 ≤ P.epochLimit) (hQlim : 2 ≤ Q.epochLimit)
    (halive : l.client.client.Alive P) {m : Message}
    (hm : m ∈ l.client.client.unAckedMsgBuffer.l) :
    ∃ l', Goes P Q addr n k l l' ∧ l'.client.client.Alive P ∧ m.seqNum ∈ l'.client.acked := by
  have hQ : 1 ≤ Q.windowSize := hsame ▸ hP
  obtain ⟨l₁, hg₁, -, hidle, hsame₁⟩ := h.flush hP hQ
  have halive₁ : l₁.client.client.Alive P := by
    unfold Client.Alive
    rw [hsame₁.currEpoch, hsame₁.latestActiveEpoch]
    exact halive
  rw [← hsame₁.unAcked] at hm
  obtain ⟨l₂, hg₂, -, hc₂, hsent, -, -⟩ := hg₁.sound.clientEpoch hP hQ hidle halive₁
  have hm₂ : m ∈ l₂.client.client.unAckedMsgBuffer.l := by rw [hc₂]; exact hm
  obtain ⟨hnet, hdata⟩ := hg₂.sound.clientSent hm₂
  obtain ⟨l₃, hg₃, hc₃, halive₃, hnew, hold⟩ := hg₂.sound.serverData hP hQ hQlim (hsent m hm) hdata
  have hidle₃ : l₃.client.client.Idle := by rw [hc₃, hc₂]; exact hidle
  -- the ack is there, at once or after an epoch of the server
  have hack : ∃ l₄, Goes P Q addr n k l₃ l₄ ∧ l₄.client = l₃.client ∧
      (addr, newAck 1 m.seqNum) ∈ l₄.server.net.drop k := by
    by_cases hge : l₂.server.server.expected 1 ≤ m.seqNum
    · exact ⟨l₃, .refl hg₃.sound, rfl, hnew hge⟩
    · obtain ⟨f, F, hl⟩ := hg₃.sound.linked
      have hlt : m.seqNum < l₃.server.server.expected 1 := by
        rw [hold (not_le.mp hge)]
        exact not_le.mp hge
      obtain ⟨lab, hlab, hrem⟩ :=
        hl.server_remembers hsame (by rw [hc₃]; exact hm₂) hdata (.inr hlt)
      obtain ⟨l₄, hg₄, hc₄, -, hacks, -⟩ := hg₃.sound.serverEpoch hP hQ halive₃
      exact ⟨l₄, hg₄, hc₄, hacks lab hlab _ hrem⟩
  obtain ⟨l₄, hg₄, hc₄, hmem⟩ := hack
  obtain ⟨l₅, hg₅, -, halive₅, hacked⟩ := hg₄.sound.clientAck hP hQ hPlim
    (by rw [hc₄]; exact hidle₃) hmem rfl
  refine ⟨l₅, (((hg₁.trans hg₂).trans hg₃).trans hg₄).trans hg₅, halive₅,
    hacked m ?_ hdata rfl⟩
  rw [hc₄, hc₃]
  exact hnet

/-- The same for what the server has not heard about. -/
theorem Sound.down_one (h : Sound P Q addr n k l) (hP : 1 ≤ P.windowSize)
    (hsame : Q.windowSize = P.windowSize) (hPlim : 2 ≤ P.epochLimit) (hQlim : 2 ≤ Q.epochLimit)
    (halive : l.client.client.Alive P) {u : Buffer}
    (hu : l.server.server.unAckedMsgBuffer 1 = some u) {m : Message} (hm : m ∈ u.l) :
    ∃ l', Goes P Q addr n k l l' ∧ l'.client.client.Alive P ∧ m.seqNum ∈ l'.server.acked 1 := by
  have hQ : 1 ≤ Q.windowSize := hsame ▸ hP
  obtain ⟨l₁, hg₁, hs₁, hidle, hsame₁⟩ := h.flush hP hQ
  have halive₁ : l₁.client.client.Alive P := by
    unfold Client.Alive
    rw [hsame₁.currEpoch, hsame₁.latestActiveEpoch]
    exact halive
  have hu₁ : l₁.server.server.unAckedMsgBuffer 1 = some u := by rw [hs₁]; exact hu
  obtain ⟨⟨a, hnet⟩, hdata, hid⟩ := hg₁.sound.serverSent hu₁ hm
  obtain ⟨l₂, hg₂, hs₂, hc₂, -, hacks, hsome⟩ := hg₁.sound.clientEpoch hP hQ hidle halive₁
  have hidle₂ : l₂.client.client.Idle := by rw [hc₂]; exact hidle
  -- after this the server's epoch gives the client something to hear
  have hback : ∀ l₃, Goes P Q addr n k l₁ l₃ → l₃.client = l₂.client → l₃.server.server.Alive Q →
      m.seqNum ∈ l₃.server.acked 1 → ∃ l', Goes P Q addr n k l₁ l' ∧ l'.client.client.Alive P ∧
        m.seqNum ∈ l'.server.acked 1 := by
    intro l₃ hg₃ hc₃ halive₃ hacked
    obtain ⟨l₄, hg₄, hc₄, -, -, x, hx, hack⟩ := hg₃.sound.serverEpoch hP hQ halive₃
    obtain ⟨l₅, hg₅, -, halive₅, -⟩ := hg₄.sound.clientAck hP hQ hPlim
      (by rw [hc₄, hc₃]; exact hidle₂) hx hack
    exact ⟨l₅, (hg₃.trans hg₄).trans hg₅, halive₅, hg₅.serverAcked (hg₄.serverAcked hacked)⟩
  suffices hsuff : ∃ l', Goes P Q addr n k l₁ l' ∧ l'.client.client.Alive P ∧
      m.seqNum ∈ l'.server.acked 1 by
    obtain ⟨l', hg', halive', hacked⟩ := hsuff
    exact ⟨l', hg₁.trans hg', halive', hacked⟩
  by_cases hge : l₁.client.client.expectedSeqNum ≤ m.seqNum
  · obtain ⟨x, hx, hxack⟩ := hsome
    obtain ⟨l₃, hg₃, hc₃, halive₃, -⟩ := hg₂.sound.serverAck hP hQ hQlim hx hxack
    by_cases hacked : m.seqNum ∈ l₃.server.acked 1
    · exact hback l₃ (hg₂.trans hg₃) hc₃ halive₃ hacked
    · -- the message is still unacknowledged, and sent once more
      obtain ⟨f, F, hl⟩ := hg₃.sound.linked
      have hnet₃ : (a, m) ∈ l₃.server.net := hg₃.serverSent (hg₂.serverSent hnet)
      have hconn := hl.serverOut.conn 1 hl.not_lost
      obtain ⟨u₃, hu₃⟩ := Option.isSome_iff_exists.mp hg₃.sound.entries.unAcked
      have hm₃ : m ∈ u₃.l := by
        have hsends := hconn.sends
        rw [hu₃, Option.getD_some] at hsends
        refine hsends.mem_unAcked.mpr ⟨(hconn.sentData m).mpr ⟨⟨a, hnet₃⟩, hdata, hid⟩, ?_⟩
        rw [hconn.acked]
        exact hacked
      obtain ⟨l₄, hg₄, hc₄, hunAcked, -, -⟩ := hg₃.sound.serverEpoch hP hQ halive₃
      have hidle₄ : l₄.client.client.Idle := by rw [hc₄, hc₃]; exact hidle₂
      obtain ⟨l₅, hg₅, hs₅, halive₅, hack⟩ := hg₄.sound.clientData hP hQ hPlim hidle₄
        (hunAcked u₃ hu₃ m hm₃) hdata (by rw [hc₄, hc₃, hc₂]; exact hge)
      obtain ⟨l₆, hg₆, hc₆, -, hacked₆⟩ := hg₅.sound.serverAck hP hQ hQlim hack rfl
      refine ⟨l₆, (((hg₂.trans hg₃).trans hg₄).trans hg₅).trans hg₆, by rw [hc₆]; exact halive₅,
        hacked₆ a m ?_ hdata hid rfl⟩
      rw [hs₅]
      exact hg₄.serverSent hnet₃
  · -- the client has read the number, and repeats its ack
    obtain ⟨f, F, hl⟩ := hg₁.sound.linked
    have hrem := hl.client_remembers hsame hu₁ hm (.inr (not_le.mp hge))
    obtain ⟨l₃, hg₃, hc₃, halive₃, hacked⟩ := hg₂.sound.serverAck hP hQ hQlim (hacks _ hrem) rfl
    exact hback l₃ (hg₂.trans hg₃) hc₃ halive₃ (hacked a m (by rw [hs₂]; exact hnet) hdata hid rfl)

/-- The first number that is not acknowledged has been sent. -/
theorem Sends.first_unAcked {W id : Int} {f : Flow Payload} {unAcked write : Buffer}
    (h : Sends W id f unAcked write) (hok : f.Ok W) {q : Int} (hle : q ≤ f.written.length)
    (h1 : 1 ≤ q) (hfirst : ∀ p, 1 ≤ p → p < q → p ∈ f.acked) (hq : q ∉ f.acked) :
    ∃ m ∈ unAcked.l, m.seqNum = q := by
  refine h.exists_of_outstanding hok.sent_le ⟨⟨h1, ?_⟩, hq⟩
  by_contra hsent
  have hwrite : write.l ≠ [] := by
    intro hnil
    have := h.write_nil hok.sent_le hnil
    omega
  obtain ⟨m, hm, -⟩ := h.full hwrite
  have hout := h.outstanding (List.mem_of_head? hm)
  have h₁ := hout.1.1
  have h₂ := hout.1.2
  exact hout.2 (hfirst _ h₁ (by omega))

theorem Sends.flushed {W id : Int} {f : Flow Payload} {unAcked write : Buffer}
    (h : Sends W id f unAcked write) (hok : f.Ok W)
    (hall : ∀ q : Int, 1 ≤ q → q ≤ f.written.length → q ∈ f.acked) :
    unAcked.l = [] ∧ write.l = [] := by
  have hnone : unAcked.l = [] := by
    refine List.eq_nil_iff_forall_not_mem.mpr fun m hm => ?_
    have hout := h.outstanding hm
    have h₁ := hout.1.2
    have h₂ := hok.sent_le
    exact hout.2 (hall _ hout.1.1 (by omega))
  refine ⟨hnone, ?_⟩
  by_contra hwrite
  obtain ⟨m, hm, -⟩ := h.full hwrite
  have := List.mem_of_head? hm
  rw [hnone] at this
  cases this

/-- The sequence numbers up to `N` are acknowledged one after the other, in order. -/
theorem Sound.acked_all (h : Sound P Q addr n k l) (halive : l.client.client.Alive P)
    {acked : Link A → List Int} {N : Nat}
    (hkeep : ∀ {l₁ l₂}, Goes P Q addr n k l₁ l₂ → acked l₁ ⊆ acked l₂)
    (hnext : ∀ {l₁} {j : Nat}, Goes P Q addr n k l l₁ → l₁.client.client.Alive P → j + 1 ≤ N →
      (∀ q : Int, 1 ≤ q → q < j + 1 → q ∈ acked l₁) → (j : Int) + 1 ∉ acked l₁ →
      ∃ l₂, Goes P Q addr n k l₁ l₂ ∧ l₂.client.client.Alive P ∧ (j : Int) + 1 ∈ acked l₂) :
    ∃ l', Goes P Q addr n k l l' ∧ l'.client.client.Alive P ∧
      ∀ q : Int, 1 ≤ q → q ≤ N → q ∈ acked l' := by
  suffices hall : ∀ j ≤ N, ∃ l', Goes P Q addr n k l l' ∧ l'.client.client.Alive P ∧
      ∀ q : Int, 1 ≤ q → q < j + 1 → q ∈ acked l' by
    obtain ⟨l', hg, halive', hacked⟩ := hall N (le_refl _)
    exact ⟨l', hg, halive', fun q h₁ h₂ => hacked q h₁ (by omega)⟩
  intro j hj
  induction j with
  | zero => exact ⟨l, .refl h, halive, fun q h₁ h₂ => by omega⟩
  | succ j ih =>
    obtain ⟨l₁, hg₁, halive₁, hacked₁⟩ := ih (Nat.le_of_succ_le hj)
    have hlast : ∃ l₂, Goes P Q addr n k l₁ l₂ ∧ l₂.client.client.Alive P ∧
        (j : Int) + 1 ∈ acked l₂ := by
      by_cases hin : (j : Int) + 1 ∈ acked l₁
      · exact ⟨l₁, .refl hg₁.sound, halive₁, hin⟩
      · exact hnext hg₁ halive₁ hj hacked₁ hin
    obtain ⟨l₂, hg₂, halive₂, hin⟩ := hlast
    refine ⟨l₂, hg₁.trans hg₂, halive₂, fun q h₁ h₂ => ?_⟩
    by_cases hq : q < j + 1
    · exact hkeep hg₂ (hacked₁ q h₁ hq)
    · obtain rfl : q = j + 1 := by omega
      exact hin

theorem Sound.up_all (h : Sound P Q addr n k l) (hP : 1 ≤ P.windowSize)
    (hsame : Q.windowSize = P.windowSize) (hPlim : 2 ≤ P.epochLimit) (hQlim : 2 ≤ Q.epochLimit)
    (halive : l.client.client.Alive P) :
    ∃ l', Goes P Q addr n k l l' ∧ l'.client.client.Alive P ∧
      ∀ q : Int, 1 ≤ q → q ≤ l.client.written.length → q ∈ l'.client.acked := by
  refine h.acked_all halive Goes.clientAcked fun hg₁ halive₁ hj hacked₁ hin => ?_
  obtain ⟨f, F, hl⟩ := hg₁.sound.linked
  have hs := (hl.clientOut.sends hg₁.sound.established).1
  rw [← hg₁.clientWritten, ← hl.clientOut.written] at hj
  rw [← hl.clientOut.acked] at hacked₁ hin
  obtain ⟨m, hm, hseq⟩ := hs.first_unAcked hl.up (by omega) (by omega) hacked₁ hin
  rw [← hseq]
  exact hg₁.sound.up_one hP hsame hPlim hQlim halive₁ hm

theorem Sound.down_all (h : Sound P Q addr n k l) (hP : 1 ≤ P.windowSize)
    (hsame : Q.windowSize = P.windowSize) (hPlim : 2 ≤ P.epochLimit) (hQlim : 2 ≤ Q.epochLimit)
    (halive : l.client.client.Alive P) :
    ∃ l', Goes P Q addr n k l l' ∧ l'.client.client.Alive P ∧
      ∀ q : Int, 1 ≤ q → q ≤ (l.server.written 1).length → q ∈ l'.server.acked 1 := by
  refine h.acked_all halive Goes.serverAcked fun hg₁ halive₁ hj hacked₁ hin => ?_
  obtain ⟨f, F, hl⟩ := hg₁.sound.linked
  have hc := hl.serverOut.conn 1 hl.not_lost
  have hs := hc.sends
  obtain ⟨u, hu⟩ := Option.isSome_iff_exists.mp hg₁.sound.entries.unAcked
  rw [hu, Option.getD_some] at hs
  rw [← hg₁.serverWritten, ← hc.written] at hj
  rw [← hc.acked] at hacked₁ hin
  obtain ⟨m, hm, hseq⟩ := hs.first_unAcked (hl.down 1) (by omega) (by omega) hacked₁ hin
  rw [← hseq]
  exact hg₁.sound.down_one hP hsame hPlim hQlim halive₁ hu hm

/-! ## Everything can be read -/

theorem Sound.server_reads (h : Sound P Q addr n k l) (hP : 1 ≤ P.windowSize)
    (hQ : 1 ≤ Q.windowSize)
    (hall : ∀ q : Int, 1 ≤ q → q ≤ l.client.written.length → q ∈ l.client.acked) :
    ∃ l', Goes P Q addr n k l l' ∧ l'.client = l.client ∧
      l'.server.returned 1 = l.client.written := by
  generalize hd : l.client.written.length - (l.server.returned 1).length = d
  induction d generalizing l with
  | zero =>
    obtain ⟨f, F, hl⟩ := h.linked
    have hprefix := hl.up.returned_initial
    rw [hl.serverIn.returned, hl.clientOut.written] at hprefix
    exact ⟨l, .refl h, rfl, hprefix.eq_of_length (by have := hprefix.length_le; omega)⟩
  | succ d ih =>
    obtain ⟨f, F, hl⟩ := h.linked
    obtain ⟨rb, hrb⟩ := Option.isSome_iff_exists.mp h.entries.read
    obtain ⟨e, he⟩ := Option.isSome_iff_exists.mp
      (hl.serverIn.receiving.present h.entries.active).2
    have hrec := hl.serverIn.receiving.receives
    have hkeep := h.received.server.keeping
    unfold ServerHalf at hkeep
    rw [hrb, he, Option.getD_some, Option.getD_some] at hrec hkeep
    have hexp : e = (l.server.returned 1).length + 1 := by
      rw [← hl.serverIn.returned]
      exact hrec.expected_eq
    obtain ⟨m, hfront, hm⟩ := hkeep.front hrec.read_ge
      (h.received.up e (hall e (by omega) (by omega)))
    have hready : l.server.server.ready 1 rb = true := by
      simp [Server.ready, hfront, Server.expected, he, hm]
    obtain ⟨l₁, hg₁, hc₁, hlen⟩ := h.serverRead hP hQ hrb hready
    rw [← hc₁] at hall hd
    obtain ⟨l₂, hg₂, hc₂, hret⟩ := ih hg₁.sound hall (by omega)
    exact ⟨l₂, hg₁.trans hg₂, hc₂.trans hc₁, by rw [hret, hc₁]⟩

omit [DecidableEq A] in
/-- What is acknowledged and not read can be read. -/
theorem Sound.client_ready (h : Sound P Q addr n k l)
    (hall : ∀ q : Int, 1 ≤ q → q ≤ (l.server.written 1).length → q ∈ l.server.acked 1)
    (hlt : l.client.returned.length < (l.server.written 1).length) :
    l.client.client.ready = true := by
  obtain ⟨f, F, hl⟩ := h.linked
  have hrec := hl.clientIn.receives
  have hexp : l.client.client.expectedSeqNum = l.client.returned.length + 1 := by
    rw [← hl.clientIn.returned]
    exact hrec.expected_eq
  obtain ⟨m, hfront, hm⟩ := h.received.client.keeping.front hrec.read_ge
    (h.received.down _ (hall _ (by omega) (by omega)))
  simp [Client.ready, hfront, hm]

omit [DecidableEq A] in
theorem Sound.client_read (h : Sound P Q addr n k l)
    (hge : (l.server.written 1).length ≤ l.client.returned.length) :
    l.client.returned = l.server.written 1 := by
  obtain ⟨f, F, hl⟩ := h.linked
  have hprefix := (hl.down 1).returned_initial
  rw [hl.clientIn.returned, (hl.serverOut.conn 1 hl.not_lost).written] at hprefix
  exact hprefix.eq_of_length (le_antisymm hprefix.length_le hge)

theorem Sound.client_reads (h : Sound P Q addr n k l) (hP : 1 ≤ P.windowSize)
    (hQ : 1 ≤ Q.windowSize) (hreads : l.client.client.deferedRead = [])
    (hall : ∀ q : Int, 1 ≤ q → q ≤ (l.server.written 1).length → q ∈ l.server.acked 1) :
    ∃ l', Goes P Q addr n k l l' ∧ l'.server = l.server ∧
      l'.client.returned = l.server.written 1 := by
  generalize hd : (l.server.written 1).length - l.client.returned.length = d
  induction d generalizing l with
  | zero => exact ⟨l, .refl h, rfl, h.client_read (by omega)⟩
  | succ d ih =>
    obtain ⟨l₁, hg₁, hs₁, hreads₁, hlen⟩ := h.clientRead hP hQ (.inl hreads)
      (h.client_ready hall (by omega))
    rw [← hs₁] at hall hd
    obtain ⟨l₂, hg₂, hs₂, hret⟩ := ih hg₁.sound (hreads₁.trans hreads) hall (by omega)
    exact ⟨l₂, hg₁.trans hg₂, hs₂.trans hs₁, by rw [hret, hs₁]⟩

/-- The blocked reads first, then new ones. -/
theorem Sound.client_catches_up (h : Sound P Q addr n k l) (hP : 1 ≤ P.windowSize)
    (hQ : 1 ≤ Q.windowSize)
    (hall : ∀ q : Int, 1 ≤ q → q ≤ (l.server.written 1).length → q ∈ l.server.acked 1) :
    ∃ l', Goes P Q addr n k l l' ∧ l'.server = l.server ∧
      l'.client.returned = l.server.written 1 := by
  obtain ⟨l₁, hg₁, hs₁, hidle, -⟩ := h.flush hP hQ
  rw [← hs₁] at hall ⊢
  by_cases hge : (l₁.server.written 1).length ≤ l₁.client.returned.length
  · exact ⟨l₁, hg₁, rfl, hg₁.sound.client_read hge⟩
  · have hready := hg₁.sound.client_ready hall (not_le.mp hge)
    have hreads : l₁.client.client.deferedRead = [] :=
      hidle.resolve_right (by rw [hready]; exact Bool.noConfusion)
    obtain ⟨l₂, hg₂, hs₂, hret⟩ := hg₁.sound.client_reads hP hQ hreads hall
    exact ⟨l₂, hg₁.trans hg₂, hs₂, hret⟩

omit [DecidableEq A] in
theorem Sound.client_flushed (h : Sound P Q addr n k l)
    (hall : ∀ q : Int, 1 ≤ q → q ≤ l.client.written.length → q ∈ l.client.acked) :
    l.client.client.flushed = true := by
  obtain ⟨f, F, hl⟩ := h.linked
  rw [← hl.clientOut.written, ← hl.clientOut.acked] at hall
  obtain ⟨hu, hw⟩ := (hl.clientOut.sends h.established).1.flushed hl.up hall
  simp [Client.flushed, hu, hw]

omit [DecidableEq A] in
theorem Sound.server_flushed (h : Sound P Q addr n k l)
    (hall : ∀ q : Int, 1 ≤ q → q ≤ (l.server.written 1).length → q ∈ l.server.acked 1) :
    l.server.server.pending 1 = some false := by
  obtain ⟨f, F, hl⟩ := h.linked
  have hc := hl.serverOut.conn 1 hl.not_lost
  obtain ⟨u, hu⟩ := Option.isSome_iff_exists.mp h.entries.unAcked
  obtain ⟨w, hw⟩ := Option.isSome_iff_exists.mp h.entries.write
  have hs := hc.sends
  rw [hu, hw, Option.getD_some, Option.getD_some] at hs
  rw [← hc.written, ← hc.acked] at hall
  obtain ⟨hu', hw'⟩ := hs.flushed (hl.down 1) hall
  simp [Server.pending, hu, hw, Buffer.len, hu', hw']

end Rounds

/-- From every state of an open, established connection whose client survives its
next epoch, even if the network loses everything that is on its way: the connection
can go on, with no more calls of `Write`, and stay open, until on both sides
everything written is acknowledged and everything the other side has written is
read. -/
theorem link_recovers [DecidableEq A] (P Q : Params) (hW : 1 ≤ P.windowSize)
    (hsame : Q.windowSize = P.windowSize) (hP : 2 ≤ P.epochLimit) (hQ : 2 ≤ Q.epochLimit) (addr : A)
    (l : Link A) (hr : (openLink P Q addr).Reachable l) (hest : l.client.established = true)
    (halive : l.client.client.currEpoch + 1 - l.client.client.latestActiveEpoch < P.epochLimit) :
    ∃ ls l', (healing P Q addr l.client.net.length l.server.net.length).Run l ls l' ∧
      l'.client.written = l.client.written ∧ l'.server.written 1 = l.server.written 1 ∧
      l'.client.client.flushed = true ∧ l'.server.server.pending 1 = some false ∧
      l'.server.returned 1 = l.client.written ∧ l'.client.returned = l.server.written 1 := by
  have hW' : 1 ≤ Q.windowSize := hsame ▸ hW
  obtain ⟨hlinked, hreceived⟩ := (received_inductive hW hW' addr).reachable l hr
  have h : Sound P Q addr l.client.net.length l.server.net.length l :=
    ⟨hlinked, hreceived, hest, le_refl _, le_refl _⟩
  obtain ⟨l₁, hg₁, halive₁, hup⟩ := h.up_all hW hsame hP hQ halive
  obtain ⟨l₂, hg₂, -, hdown⟩ := hg₁.sound.down_all hW hsame hP hQ halive₁
  have hup₂ : ∀ q : Int, 1 ≤ q → q ≤ l₂.client.written.length → q ∈ l₂.client.acked := by
    rw [hg₂.clientWritten, hg₁.clientWritten]
    exact fun q h₁ h₂ => hg₂.clientAcked (hup q h₁ h₂)
  obtain ⟨l₃, hg₃, -, hserver⟩ := hg₂.sound.server_reads hW hW' hup₂
  have hdown₃ : ∀ q : Int, 1 ≤ q → q ≤ (l₃.server.written 1).length → q ∈ l₃.server.acked 1 := by
    rw [hg₃.serverWritten, hg₂.serverWritten]
    exact fun q h₁ h₂ => hg₃.serverAcked (hdown q h₁ h₂)
  obtain ⟨l₄, hg₄, hs₄, hclient⟩ := hg₃.sound.client_catches_up hW hW' hdown₃
  have hall := (((hg₁.trans hg₂).trans hg₃).trans hg₄)
  obtain ⟨ls, hrun⟩ := hall.run
  refine ⟨ls, l₄, hrun, hall.clientWritten, hall.serverWritten, hall.sound.client_flushed ?_,
    hall.sound.server_flushed ?_, ?_, ?_⟩
  · rw [hg₄.clientWritten, hg₃.clientWritten]
    exact fun q h₁ h₂ => hg₄.clientAcked (hg₃.clientAcked (hup₂ q h₁ h₂))
  · rw [hg₄.serverWritten]
    exact fun q h₁ h₂ => hg₄.serverAcked (hdown₃ q h₁ h₂)
  · rw [hs₄, hserver, hg₂.clientWritten, hg₁.clientWritten]
  · rw [hclient, hg₃.serverWritten, hg₂.serverWritten, hg₁.serverWritten]

/-- The server has read the first of the client's two payloads, and no ack has
arrived. -/
theorem exchanged_recovers :
    exchanged.server.returned 1 = [[7]] ∧
    exchanged.client.client.unAckedMsgBuffer.l = [newData 1 1 [7], newData 1 2 [8]] ∧
    ∃ ls l', (healing pairwise pairwise () exchanged.client.net.length
        exchanged.server.net.length).Run exchanged ls l' ∧
      l'.client.client.flushed = true ∧ l'.server.returned 1 = [[7], [8]] := by
  have hwritten : exchanged.client.written = [[7], [8]] := by decide
  obtain ⟨ls, l', hrun, -, -, hflushed, -, hret, -⟩ := link_recovers pairwise pairwise (by decide)
    rfl (by decide) (by decide) () exchanged ⟨_, exchange, rfl, LTS.run_execD (by decide)⟩
    (by decide) (by decide)
  exact ⟨by decide, by decide, ls, l', hrun, hflushed, hret.trans hwritten⟩

end Cmu440.Lsp
