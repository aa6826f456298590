import Cmu440.Lsp.Link

/-!
# In order, exactly once

What the two ends of an open connection promise each other, for every network
that loses, repeats, delays and reorders datagrams:

* `delivers_in_order`: what has been read on one side is a prefix of what was
  written on the other;
* `needed_acks_remembered`: whatever the sender still waits to hear about and
  the receiver has accepted, the receiver remembers to acknowledge and
  acknowledges again in every epoch. The receiver ignores the retransmissions
  of what it has already passed, so the connection would stall otherwise. This
  is where the windows of the two sides have to agree.
-/
namespace Cmu440.Lsp

variable {A : Type} [DecidableEq A]

/-- **In order, exactly once.** In both directions, for all windows and every
network, as long as the connection is open; its id is 1 on both sides. -/
theorem delivers_in_order (P Q : Params) (hP : 1 ≤ P.windowSize) (hQ : 1 ≤ Q.windowSize) (addr : A)
    (l : Link A) (hr : (openLink P Q addr).Reachable l) :
    l.server.returned 1 <+: l.client.written ∧ l.client.returned <+: l.server.written 1 ∧
      l.server.server.connId ≤ 1 ∧ (l.client.established = true → l.client.client.connId = 1) := by
  obtain ⟨f, F, h⟩ := (link_follows hP hQ addr).reachable l hr
  refine ⟨?_, ?_, h.known.connId_le, h.clientIn.established⟩
  · rw [← h.serverIn.returned, ← h.clientOut.written]
    exact h.up.returned_initial
  · rw [← h.clientIn.returned, ← (h.serverOut.conn 1 h.not_lost).written]
    exact (h.down 1).returned_initial

/-! ## Acks -/

section Remembered

variable {W id : Int} {f : Flow Payload} {unAcked write read latestAck : Buffer} {expected : Int}

omit [DecidableEq A] in
/-- The windows of the two ends are the same, so what the sender waits for is
not yet trimmed from the receiver's acks. -/
theorem ack_remembered (hok : f.Ok W) (hs : Holds id f unAcked write)
    (hr : Receives W id f read latestAck expected) {m : Message} (hm : m ∈ unAcked.l)
    (hacc : m.seqNum ∈ f.accepted ∨ m.seqNum < expected) : newAck id m.seqNum ∈ latestAck.l := by
  have hout := hs.outstanding hm
  have hacc' : m.seqNum ∈ f.accepted := by
    rcases hacc with hacc | hlt
    · exact hacc
    · rw [hr.expected_eq] at hlt
      exact hok.returned_accepted _ hout.1.1 (by omega)
  exact hr.remembered _ hacc' fun p hp => hok.accepted_lt hout hp

variable {P Q : Params} {addr : A} {l : Link A} {F : Int → Flow Payload}

omit [DecidableEq A] in
theorem Linked.server_remembers (h : Linked P Q addr l f F) (hsame : Q.windowSize = P.windowSize)
    {m : Message} (hm : m ∈ l.client.client.unAckedMsgBuffer.l) (hty : m.type = .data)
    (hacc : m.seqNum ∈ l.server.accepted 1 ∨ m.seqNum < l.server.server.expected 1) :
    ∃ lab, l.server.server.latestAckBuffer 1 = some lab ∧ newAck 1 m.seqNum ∈ lab.l := by
  cases hest : l.client.established with
  | false => exact absurd (h.clientOut.unAcked_transmitted hm hty) (by
      rw [transmitted_nil (h.clientOut.waiting hest).1]
      nofun)
  | true =>
    have hs := (h.clientOut.sends hest).1.toHolds
    rw [h.clientIn.established hest] at hs
    have hin := h.serverIn.receiving.receives
    rw [hsame] at hin
    have hacc' : m.seqNum ∈ f.accepted ∨
        m.seqNum < (l.server.server.expectedSeqNum 1).getD 1 := by
      refine hacc.imp (h.serverIn.accepted _) fun hlt => ?_
      -- without an entry nothing is expected, and numbers start from 1
      unfold Server.expected at hlt
      cases he : l.server.server.expectedSeqNum 1 with
      | none =>
        rw [he] at hlt
        have h1 := (hs.outstanding hm).1.1
        have h2 : m.seqNum < 0 := hlt
        omega
      | some e =>
        rw [he] at hlt
        exact hlt
    have hack := ack_remembered h.up hs hin hm hacc'
    cases hlab : l.server.server.latestAckBuffer 1 with
    | none =>
      rw [hlab] at hack
      cases hack
    | some lab =>
      rw [hlab] at hack
      exact ⟨lab, rfl, hack⟩

omit [DecidableEq A] in
theorem Linked.client_remembers (h : Linked P Q addr l f F) (hsame : Q.windowSize = P.windowSize)
    {b : Buffer} (hb : l.server.server.unAckedMsgBuffer 1 = some b) {m : Message} (hm : m ∈ b.l)
    (hacc : m.seqNum ∈ l.client.accepted ∨ m.seqNum < l.client.client.expectedSeqNum) :
    newAck 1 m.seqNum ∈ l.client.client.latestAckBuffer.l := by
  have hs := (h.serverOut.conn 1 h.not_lost).sends.toHolds
  rw [hb] at hs
  have hok := h.down 1
  rw [hsame] at hok
  exact ack_remembered hok hs h.clientIn.receives hm (hacc.imp_left (h.clientIn.accepted _))

omit [DecidableEq A] in
/-- The connection the server has acks for is that of the client. -/
theorem Linked.address (h : Linked P Q addr l f F) (hused : ¬Unused l.server.server 1) :
    1 ∈ l.server.server.ids ∧ l.server.server.connIdHostportMap 1 = some addr := by
  rcases h.known with ⟨hc, -⟩ | ⟨hc, -, haddr⟩
  · exact absurd (.inr (by omega)) hused
  · refine ⟨?_, haddr⟩
    rw [Server.ids, hc]
    decide

end Remembered

/-- The client repeats its acks in an epoch. -/
theorem client_epoch_resends {P : Params} {c c' : Client} {replyc : Nat} {out : List ClientOut}
    (h : c.iterate P (some ⟨.epochtimer, replyc⟩) = some (c', out)) (hopen : c.isOpen = true)
    (hkept : c'.connLost = false) {m : Message} (hm : m ∈ c.latestAckBuffer.l) :
    .send m ∈ out := by
  have hclose : c.deferedClose = [] := by
    simp only [Client.isOpen, Bool.and_eq_true, decide_eq_true_eq] at hopen
    exact hopen.2
  have hepoch := iterate_epoch h
  simp only [Client.handleEpoch] at hepoch
  split at hepoch
  · cases hepoch
    cases hkept
  · cases hepoch
    refine List.mem_append_right _ ?_
    rw [if_pos (List.length_eq_zero_iff.mpr hclose)]
    exact List.mem_map_of_mem hm

/-- The server repeats the acks of a connection in an epoch after which the
connection is still open. -/
theorem server_epoch_resends {Q : Params} {s s' : Server A} {req : ServerReq A}
    {out : List (ServerOut A)} (hop : req.op = .epochtimer) (h : s.handle Q req = some (s', out))
    (hclose : s.deferedClose = []) {id : Int} (hid : id ∈ s.ids) (hkept : s'.active id = true)
    {addr : A} (haddr : s.connIdHostportMap id = some addr) {lab : Buffer}
    (hlab : s.latestAckBuffer id = some lab) {m : Message} (hm : m ∈ lab.l) :
    .send addr m ∈ out := by
  unfold Server.handle at h
  split at h
  · rename_i hguard
    simp only [hop] at h
    have hclosed : ∀ {s₁ : Server A} {lostOut : List (ServerOut A)},
        Server.detectLostAll Q { s with currEpoch := s.currEpoch + 1 } req.orders.first =
          some (s₁, lostOut) → s₁.deferedClose = [] := by
      intro s₁ lostOut hloop
      obtain ⟨lost, hdrops, -⟩ := drops_of_detectLostAll hloop
      exact hdrops.closing.trans hclose
    cases epochs_of_handleEpoch h with
    | ends hloop hclosing _ => exact absurd (hclosed hloop) hclosing
    | stays hloop _ =>
      obtain ⟨lost, hdrops, -⟩ := drops_of_detectLostAll hloop
      have hnot : id ∉ lost := by
        intro hmem
        simp [Server.active, (hdrops.gone id hmem).active] at hkept
      have hk := hdrops.kept id hnot
      have hlen : ¬lab.len = 0 := fun hz => by
        rw [Buffer.len_eq_zero.mp hz] at hm
        cases hm
      have haddr₁ : s'.connIdHostportMap id = some addr := hk.addr.trans haddr
      have hlab₁ : s'.latestAckBuffer id = some lab := hk.latestAck.trans hlab
      -- the loop over the acks comes to the connection
      have hsent : ServerOut.send addr m ∈ req.orders.second.flatMap s'.resendAcks := by
        refine List.mem_flatMap.mpr ⟨id, hguard.2.2.1.mem_iff.mpr hid, ?_⟩
        simp only [Server.resendAcks, hlab₁, hkept, if_true, if_neg hlen, haddr₁,
          sendMessageToAddr, List.mem_flatMap, List.mem_singleton]
        exact ⟨m, hm, rfl⟩
      refine List.mem_append_right _ (List.mem_append_left _ ?_)
      rw [if_pos (List.length_eq_zero_iff.mpr (hclosed hloop))]
      exact hsent
  · cases h

/-- **Acks that are needed are never forgotten**, in both directions, and are
sent in the next epoch. -/
theorem needed_acks_remembered (P Q : Params) (hW : 1 ≤ P.windowSize)
    (hsame : Q.windowSize = P.windowSize) (addr : A) (l : Link A)
    (hr : (openLink P Q addr).Reachable l) :
    (∀ m ∈ l.client.client.unAckedMsgBuffer.l, m.type = .data →
      (m.seqNum ∈ l.server.accepted 1 ∨ m.seqNum < l.server.server.expected 1) →
      (∃ lab, l.server.server.latestAckBuffer 1 = some lab ∧ newAck 1 m.seqNum ∈ lab.l) ∧
        ∀ (req : ServerReq A) s out, req.op = .epochtimer →
          l.server.server.handle Q req = some (s, out) → s.active 1 = true →
          .send addr (newAck 1 m.seqNum) ∈ out) ∧
    (∀ b, l.server.server.unAckedMsgBuffer 1 = some b → ∀ m ∈ b.l,
      (m.seqNum ∈ l.client.accepted ∨ m.seqNum < l.client.client.expectedSeqNum) →
      newAck 1 m.seqNum ∈ l.client.client.latestAckBuffer.l ∧
        ∀ replyc c out, l.client.client.iterate P (some ⟨.epochtimer, replyc⟩) = some (c, out) →
          c.connLost = false → .send (newAck 1 m.seqNum) ∈ out) := by
  obtain ⟨f, F, h⟩ := (link_follows hW (hsame ▸ hW) addr).reachable l hr
  constructor
  · intro m hm hty hacc
    obtain ⟨lab, hlab, hack⟩ := h.server_remembers hsame hm hty hacc
    refine ⟨⟨lab, hlab, hack⟩, fun req s out hop hhandle hkept => ?_⟩
    have hused := (h.serverOut.used (not_gone_of_latestAck hlab)).2
    obtain ⟨hid, haddr⟩ := h.address hused
    exact server_epoch_resends hop hhandle (Server.isOpen_closing h.isOpen_both.2) hid hkept haddr
      hlab hack
  · intro b hb m hm hacc
    have hack := h.client_remembers hsame hb hm hacc
    exact ⟨hack, fun replyc c out hit hkept =>
      client_epoch_resends hit h.isOpen_both.1 hkept hack⟩

/-! Two payloads each way: the second datagram of the client overtakes the
first, the server has read the first payload, and no ack has arrived. -/

def pairwise : Params := ⟨5, 2⟩

def exchange : List (LinkLbl Unit) :=
  [.client (some ⟨.doconnect, 0⟩),
    .server ⟨.receivemsg () newConnect, 0, ⟨[], [], []⟩⟩,
    .client (some ⟨.receivemsg (newAck 1 0), 0⟩),
    .client (some ⟨.dowrite [7], 1⟩), .client (some ⟨.dowrite [8], 2⟩),
    .server ⟨.receivemsg () (newData 1 2 [8]), 0, ⟨[1], [1], [1]⟩⟩,
    .server ⟨.receivemsg () (newData 1 1 [7]), 0, ⟨[1], [1], [1]⟩⟩,
    .server ⟨.doread, 1, ⟨[1], [1], [1]⟩⟩,
    .server ⟨.dowrite 1 [9], 2, ⟨[1], [1], [1]⟩⟩,
    .client (some ⟨.receivemsg (newData 1 1 [9]), 0⟩), .client (some ⟨.doread, 3⟩)]

def exchanged : Link Unit :=
  LTS.execD (fun l a => (Link.step pairwise pairwise () l a).filter Link.isOpen) .init exchange

theorem exchanged_in_order :
    exchanged.server.returned 1 = [[7]] ∧ exchanged.client.written = [[7], [8]] ∧
      exchanged.server.returned 1 <+: exchanged.client.written ∧
      exchanged.client.returned = [[9]] ∧ exchanged.client.returned <+: exchanged.server.written 1 :=
  have h := delivers_in_order pairwise pairwise (by decide) (by decide) () exchanged
    ⟨_, exchange, rfl, LTS.run_execD (by decide)⟩
  ⟨by decide, by decide, h.1, by decide, h.2.1⟩

theorem exchanged_remembers :
    newData 1 1 [7] ∈ exchanged.client.client.unAckedMsgBuffer.l ∧
      exchanged.server.server.expected 1 = 2 ∧
      ∃ lab, exchanged.server.server.latestAckBuffer 1 = some lab ∧ newAck 1 1 ∈ lab.l :=
  ⟨by decide, by decide,
    ((needed_acks_remembered pairwise pairwise (by decide) rfl () exchanged
      ⟨_, exchange, rfl, LTS.run_execD (by decide)⟩).1 (newData 1 1 [7]) (by decide) rfl
      (.inr (by decide))).1⟩

end Cmu440.Lsp
