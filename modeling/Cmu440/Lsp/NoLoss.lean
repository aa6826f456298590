import Cmu440.Lsp.ClientRuns
import Cmu440.Lsp.ServerSends

/-!
# Nothing is lost and nothing is held back

Client and server connections follow flows at their sending ends
(`ClientSends.step`, `ServerSends.step`). So on both sides, for any window and
whatever arrives: `unAckedMsgBuffer` and `writeBuffer` together hold exactly
the messages written and not acknowledged, in order, never more than a window
of them is outstanding, and a message waits only if the window is full.
-/
namespace Cmu440.Lsp

variable {A : Type}

/-! ## The invariant of the sender -/

/-- The buffers of a sender that was given `written` to send on the connection
`id`, has had `acked` acknowledged and has a window of `W`. -/
structure SenderWindow (W id : Int) (written : List Payload) (acked : List Int)
    (unAcked write : Buffer) : Prop where
  together : unAcked.l ++ write.l =
    (numbered id 1 written).filter fun m => decide (m.seqNum ∉ acked)
  before : ∀ m ∈ unAcked.l, ∀ m' ∈ write.l, m.seqNum < m'.seqNum
  span : ∀ m ∈ unAcked.l, ∀ m' ∈ unAcked.l, m'.seqNum - m.seqNum < W
  outstanding : (unAcked.len : Int) ≤ W
  notHeldBack : ∀ m, write.front = some m →
    ∃ m', unAcked.front = some m' ∧ m'.seqNum + W ≤ m.seqNum

section Window

variable {W id : Int} {f : Flow Payload} {unAcked write : Buffer}

/-- What is written is what was sent, and what was not. -/
theorem Holds.together (h : Holds id f unAcked write) (hok : f.Ok W) :
    unAcked.l ++ write.l =
      (numbered id 1 f.written).filter fun m => decide (m.seqNum ∉ f.acked) := by
  have hsplit : numbered id 1 f.written =
      transmitted id f ++ numbered id (f.sent + 1) (f.written.drop f.sent) := by
    conv_lhs => rw [← List.take_append_drop f.sent f.written, numbered_append]
    rw [List.length_take, Nat.min_eq_left hok.sent_le, Int.add_comm 1]
    rfl
  -- an acknowledged number has been sent
  have hqueued : write.l.filter (fun m => decide (m.seqNum ∉ f.acked)) = write.l := by
    refine List.filter_eq_self.mpr fun m hm => decide_eq_true fun hacked => ?_
    have h1 := (h.write_bounds hm).1
    have h2 := (hok.acked_sent _ hacked).2
    omega
  rw [hsplit, List.filter_append, ← h.unAcked_eq, ← h.write_eq, hqueued]

theorem Sends.senderWindow (hW : 1 ≤ W) (h : Sends W id f unAcked write) (hok : f.Ok W) :
    SenderWindow W id f.written f.acked unAcked write := by
  have hspan : ∀ m ∈ unAcked.l, ∀ m' ∈ unAcked.l, m'.seqNum - m.seqNum < W := by
    intro m hm m' hm'
    have h1 := hok.window _ (h.outstanding hm)
    have h2 := (h.outstanding hm').1.2
    omega
  refine ⟨h.together hok, ?_, hspan, ?_, ?_⟩
  · intro m hm m' hm'
    exact lt_of_le_of_lt (h.outstanding hm).1.2 (h.write_bounds hm').1
  · cases hfront : unAcked.front with
    | none =>
      rw [Buffer.len, Buffer.front_eq_none.mp hfront]
      simp only [List.length_nil, Nat.cast_zero]
      omega
    | some front =>
      have hmem : front ∈ unAcked.l := List.mem_of_head? hfront
      refine unAcked.increasing.length_le (Buffer.front_le hfront) (fun m hm => ?_) (by omega)
      have := hspan front hmem m hm
      omega
  · intro m hm
    have hmem : m ∈ write.l := List.mem_of_head? hm
    obtain ⟨m', hm', hle⟩ := h.full (List.ne_nil_of_mem hmem)
    have := (h.write_bounds hmem).1
    exact ⟨m', hm', by omega⟩

end Window

/-- The client follows a flow in every run. -/
theorem client_follows {P : Params} (hW : 1 ≤ P.windowSize) :
    (clientRuns P).Inductive fun r =>
      ∃ f : Flow Payload, f.Ok P.windowSize ∧ ClientSends P.windowSize r f where
  init := by
    rintro _ rfl
    exact ⟨.empty, .empty _, clientSends_init _⟩
  step := by
    rintro r incoming r' ⟨f, hok, h⟩ hst
    obtain ⟨f', hadv, h'⟩ := h.step hW hok hst
    exact ⟨f', hadv.ok hW hok, h'⟩

/-- So does every connection of the server. -/
theorem server_follows [DecidableEq A] {P : Params} (hW : 1 ≤ P.windowSize) :
    (serverRuns (A := A) P).Inductive fun r =>
      ∃ F : Int → Flow Payload, (∀ id, (F id).Ok P.windowSize) ∧ ServerSends P.windowSize r F where
  init := by
    rintro _ rfl
    exact ⟨fun _ => .empty, fun _ => .empty _, serverSends_init _⟩
  step := by
    rintro r req r' ⟨F, hok, h⟩ hst
    obtain ⟨F', hadv, h'⟩ := h.step hW hok hst
    exact ⟨F', fun id => (hadv id).ok hW (hok id), h'⟩

/-- **Sliding window and no loss.** In every run, whatever arrives, for the
established client and for every connection of the server that is not lost. -/
theorem sliding_window [DecidableEq A] (P : Params) (hW : 1 ≤ P.windowSize) :
    (∀ r, (clientRuns P).Reachable r → r.established = true →
      SenderWindow P.windowSize r.client.connId r.written r.acked
        r.client.unAckedMsgBuffer r.client.writeBuffer) ∧
    ∀ r : ServerRun A, (serverRuns P).Reachable r → ∀ id, r.lost id = false →
      SenderWindow P.windowSize id (r.written id) (r.acked id)
        ((r.server.unAckedMsgBuffer id).getD .newBuffer)
        ((r.server.writeBuffer id).getD .newBuffer) := by
  constructor
  · intro r hr hest
    obtain ⟨f, hok, h⟩ := (client_follows hW).reachable r hr
    rw [← h.written, ← h.acked]
    exact (h.sends hest).1.senderWindow hW hok
  · intro r hr id hlost
    obtain ⟨F, hok, h⟩ := (server_follows hW).reachable r hr
    have hc := h.conn id hlost
    rw [← hc.written, ← hc.acked]
    exact hc.sends.senderWindow hW (hok id)

/-! With a window of one, the second of two writes waits; on the server also
after `CloseConn`. -/

def oneByOne : Params := ⟨5, 1⟩

def twoWrites : List (Option ClientReq) :=
  [some ⟨.doconnect, 0⟩, some ⟨.receivemsg (newAck 1 0), 0⟩, some ⟨.dowrite [7], 1⟩,
    some ⟨.dowrite [8], 2⟩]

def clientQueue : ClientRun := LTS.execD (ClientRun.step oneByOne) .init twoWrites

def twoServerWrites : List (ServerReq Unit) :=
  [⟨.receivemsg () newConnect, 0, ⟨[], [], []⟩⟩, ⟨.dowrite 1 [7], 1, ⟨[1], [1], [1]⟩⟩,
    ⟨.dowrite 1 [8], 2, ⟨[1], [1], [1]⟩⟩, ⟨.docloseconn 1, 3, ⟨[1], [1], [1]⟩⟩]

def serverQueue : ServerRun Unit := LTS.execD (ServerRun.step oneByOne) .init twoServerWrites

theorem queues_in_window :
    clientQueue.client.writeBuffer.l = [newData 1 2 [8]] ∧
      SenderWindow 1 clientQueue.client.connId clientQueue.written clientQueue.acked
        clientQueue.client.unAckedMsgBuffer clientQueue.client.writeBuffer ∧
      serverQueue.written 1 = [[7], [8]] ∧
      SenderWindow 1 1 (serverQueue.written 1) (serverQueue.acked 1)
        ((serverQueue.server.unAckedMsgBuffer 1).getD .newBuffer)
        ((serverQueue.server.writeBuffer 1).getD .newBuffer) :=
  ⟨by decide, (sliding_window (A := Unit) oneByOne (by decide)).1 clientQueue
      ⟨_, twoWrites, rfl, LTS.run_execD (by decide)⟩ (by decide),
    by decide, (sliding_window (A := Unit) oneByOne (by decide)).2 serverQueue
      ⟨_, twoServerWrites, rfl, LTS.run_execD (by decide)⟩ 1 (by decide)⟩

end Cmu440.Lsp
