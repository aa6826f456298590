import Cmu440.Lsp.Link
import Cmu440.Lsp.ServerMaps

/-!
# What a receiver has

`Linked` says what a receiver has accepted in terms of the peer's flow. Here is what
it does with it (`Keeping`): an accepted number that `Read` has not passed is still
in the read buffer, and only accepted numbers are acknowledged. So on an open
connection, in either direction, the sender hears only of numbers that the receiver
has (`Received`).

The maps of the server agree (`MapsAgree`) as long as the connection is open: a
connection that is closed with something pending is not open any more.
-/
namespace Cmu440.Lsp

variable {A : Type}

/-! ## A receiving half -/

/-- A receiving half that has accepted the numbers `accepted`. -/
structure Keeping (accepted : List Int) (read latestAck : Buffer) (expected : Int) : Prop where
  kept : ∀ q ∈ accepted, q < expected ∨ ∃ m ∈ read.l, m.seqNum = q
  acks : ∀ m ∈ latestAck.l, m.seqNum ∈ accepted

theorem acceptData_read {W id : Int} {read latestAck : Buffer} {m : Message} {r : Buffer × Buffer}
    (hr : acceptData W id read latestAck m = some r) : r.1 = read.insert m := by
  simp only [acceptData, Option.bind_eq_bind, Option.bind_eq_some_iff, Option.pure_def,
    Option.some.injEq] at hr
  obtain ⟨latestAck', -, rfl⟩ := hr
  rfl

namespace Keeping

variable {accepted accepted' : List Int} {read latestAck : Buffer} {expected : Int}

theorem more (h : Keeping accepted read latestAck expected) (hsub : accepted ⊆ accepted')
    (hnew : ∀ q ∈ accepted', q ∈ accepted ∨ q < expected ∨ ∃ m ∈ read.l, m.seqNum = q) :
    Keeping accepted' read latestAck expected where
  kept q hq := (hnew q hq).elim (h.kept q) id
  acks m hm := hsub (h.acks m hm)

/-- What is in the read buffer is accepted. -/
theorem idle (h : Keeping accepted read latestAck expected) :
    Keeping (read.l.map (·.seqNum) ++ accepted) read latestAck expected := by
  refine h.more (List.subset_append_right _ _) fun q hq => ?_
  rcases List.mem_append.mp hq with hq | hq
  · exact .inr (.inr (List.mem_map.mp hq))
  · exact .inl hq

theorem acceptData (h : Keeping accepted read latestAck expected) {W id : Int} {m : Message}
    {r : Buffer × Buffer} (hr : acceptData W id read latestAck m = some r) :
    Keeping (r.1.l.map (·.seqNum) ++ accepted) r.1 r.2 expected := by
  have hread := acceptData_read hr
  refine ⟨fun q hq => ?_, fun x hx => ?_⟩
  · rcases List.mem_append.mp hq with hq | hq
    · exact .inr (List.mem_map.mp hq)
    · refine (h.kept q hq).imp_right fun ⟨x, hx, hxq⟩ => ⟨x, ?_, hxq⟩
      rw [hread]
      exact Buffer.mem_insert.mpr (.inl hx)
  · rcases acceptData_latestAck hr hx with hx | rfl
    · exact List.mem_append_right _ (h.acks x hx)
    · obtain ⟨x, hx, hxm⟩ := Buffer.exists_mem_insert read m
      exact List.mem_append_left _ (List.mem_map.mpr ⟨x, hread ▸ hx, hxm⟩)

/-- A read passes the expected number. -/
theorem deliver (h : Keeping accepted read latestAck expected) {m : Message} {read' : Buffer}
    (hm : read.remove = some (m, read')) (hexp : m.seqNum = expected) :
    Keeping accepted read' latestAck (expected + 1) where
  kept q hq := by
    rcases h.kept q hq with hlt | ⟨x, hx, rfl⟩
    · exact .inl (by omega)
    · rw [Buffer.remove_eq_some.mp hm] at hx
      rcases List.mem_cons.mp hx with rfl | hx
      · exact .inl (by omega)
      · exact .inr ⟨x, hx, rfl⟩
  acks := h.acks

/-- The next number is at the front of the read buffer once it is accepted. -/
theorem front (h : Keeping accepted read latestAck expected)
    (hge : ∀ m ∈ read.l, expected ≤ m.seqNum) (hacc : expected ∈ accepted) :
    ∃ m, read.front = some m ∧ m.seqNum = expected := by
  obtain ⟨x, hx, hxe⟩ := (h.kept _ hacc).resolve_left (lt_irrefl _)
  cases hf : read.front with
  | none =>
    rw [Buffer.front_eq_none.mp hf] at hx
    cases hx
  | some m =>
    have h₁ := Buffer.front_le hf x hx
    have h₂ := hge m (List.mem_of_head? hf)
    exact ⟨m, rfl, by omega⟩

end Keeping

/-! ## The client -/

section Sending

variable {W : Int} {r : ClientRun} {f : Flow Payload}

theorem ClientSends.unAcked_type (h : ClientSends W r f) {m : Message}
    (hm : m ∈ r.client.unAckedMsgBuffer.l) : m.type ≠ .ack := by
  cases hest : r.established with
  | true =>
    rw [(transmitted_data ((h.sends hest).1.mem_unAcked.mp hm).1).1]
    decide
  | false =>
    rw [(h.waiting hest).2.2.2] at hm
    split at hm
    · rw [List.mem_singleton.mp hm]
      decide
    · cases hm

theorem ClientSends.write_type (h : ClientSends W r f) {m : Message}
    (hm : m ∈ r.client.writeBuffer.l) : m.type ≠ .ack := by
  cases hest : r.established with
  | true =>
    rw [(h.sends hest).1.write_eq] at hm
    obtain ⟨i, p, -, rfl⟩ := mem_numbered.mp hm
    simp [newData]
  | false =>
    rw [(h.waiting hest).2.1] at hm
    cases hm

end Sending

structure ClientKept (r : ClientRun) : Prop where
  keeping : Keeping r.accepted r.client.readBuffer r.client.latestAckBuffer r.client.expectedSeqNum
  net : ∀ m ∈ r.net, m.type = .ack → m.seqNum = 0 ∨ m.seqNum ∈ r.accepted

theorem clientKept_init : ClientKept .init where
  keeping := ⟨fun _ hq => (List.not_mem_nil hq).elim, fun _ hm => (List.not_mem_nil hm).elim⟩
  net _ hm := (List.not_mem_nil hm).elim

section ClientRun

variable {P : Params} {W : Int} {r r' : ClientRun} {f : Flow Payload} {incoming : Option ClientReq}

theorem ClientKept.next (h : ClientKept r) {c : Client} {out : List ClientOut}
    (hk : Keeping (c.readBuffer.l.map (·.seqNum) ++ r.accepted) c.readBuffer c.latestAckBuffer
      c.expectedSeqNum)
    (hnet : ∀ m ∈ out.filterMap ClientOut.datagram, m.type = .ack →
      m.seqNum = 0 ∨ m ∈ c.latestAckBuffer.l ∨ ∃ x ∈ c.readBuffer.l, x.seqNum = m.seqNum) :
    ClientKept (r.record incoming c out) where
  keeping := hk
  net m hm hack := by
    rcases List.mem_append.mp hm with hm | hm
    · exact (h.net m hm hack).imp_right fun hq => List.mem_append_right _ hq
    · rcases hnet m hm hack with h0 | hl | hx
      · exact .inl h0
      · exact .inr (hk.acks m hl)
      · exact .inr (List.mem_append_left _ (List.mem_map.mpr hx))

/-- The receiving half is as it was. -/
theorem ClientKept.idle (h : ClientKept r) {c : Client} {out : List ClientOut}
    (hread : c.readBuffer = r.client.readBuffer)
    (hlatest : c.latestAckBuffer = r.client.latestAckBuffer)
    (hexp : c.expectedSeqNum = r.client.expectedSeqNum)
    (hnet : ∀ m ∈ out.filterMap ClientOut.datagram, m.type = .ack →
      m.seqNum = 0 ∨ m ∈ r.client.latestAckBuffer.l) : ClientKept (r.record incoming c out) := by
  refine h.next ?_ fun m hm hack => ?_
  · rw [hread, hlatest, hexp]
    exact h.keeping.idle
  · rw [hlatest]
    exact (hnet m hm hack).imp_right .inl

theorem ClientKept.step (h : ClientKept r) (hs : ClientSends W r f)
    (hst : r.step P incoming = some r') : ClientKept r' := by
  obtain ⟨-, c, out, rfl, heff⟩ := ClientRun.step_cases hst
  cases heff with
  | quiet hsame hout hpass =>
    refine h.idle hsame.read hsame.latestAck hsame.expected fun m hm => ?_
    rw [datagram_of_silent hout] at hm
    cases hm
  | read hm hexp hop hsame =>
    rename_i replyc m rb
    refine h.next ?_ fun x hx => by cases hx
    rw [hsame.read, hsame.latestAck, hsame.expected]
    exact (h.keeping.deliver hm hexp).idle
  | write hr hsame =>
    rename_i p replyc t
    refine h.idle hsame.read hsame.latestAck hsame.expected fun m hm hack => ?_
    rw [List.filterMap_append, filterMap_send] at hm
    rcases List.mem_append.mp hm with hm | hm
    · subst hr
      rw [mem_sendOrQueue.2.2 hm] at hack
      cases hack
    · cases hm
  | epoch hsame hout =>
    refine h.idle hsame.read hsame.latestAck hsame.expected fun m hm hack => ?_
    obtain ⟨o, ho, hom⟩ := List.mem_filterMap.mp hm
    obtain ⟨m', rfl, hm'⟩ := hout o ho
    cases hom
    rcases hm' with hm' | rfl | hm'
    · exact absurd hack (hs.unAcked_type hm')
    · exact .inl rfl
    · exact .inr hm'
  | ack htype hr hest hsame =>
    refine h.idle hsame.read hsame.latestAck hsame.expected fun m hm hack => ?_
    rw [filterMap_send] at hm
    exact absurd hack (hs.write_type ((mem_ackReceived hr).2.2 hm))
  | established htype hr hfound hzero hsame =>
    refine h.idle hsame.read hsame.latestAck hsame.expected fun m hm hack => ?_
    rw [List.filterMap_append, filterMap_send] at hm
    rcases List.mem_append.mp hm with hm | hm
    · exact absurd hack (hs.write_type ((mem_ackReceived hr).2.2 hm))
    · cases hm
  | data htype hge hconn hr hsame =>
    rename_i msg replyc t
    have hk := h.keeping.acceptData hr
    refine h.next ?_ fun m hm hack => ?_
    · rw [hsame.read, hsame.latestAck, hsame.expected]
      exact hk
    · -- the ack that is sent is for the message that is accepted
      cases List.mem_singleton.mp hm
      rw [hsame.read, acceptData_read hr]
      exact .inr (.inr (Buffer.exists_mem_insert _ msg))
  | connect hsame =>
    refine h.idle hsame.read hsame.latestAck hsame.expected fun m hm hack => ?_
    cases List.mem_singleton.mp hm
    cases hack

end ClientRun

/-! ## A connection of the server -/

/-- The receiving half of the connection. -/
def ServerHalf (accepted : List Int) (s : Server A) (id : Int) : Prop :=
  Keeping accepted ((s.readBuffer id).getD .newBuffer) ((s.latestAckBuffer id).getD .newBuffer)
    ((s.expectedSeqNum id).getD 1)

structure ConnKept (r : ServerRun A) (id : Int) : Prop where
  keeping : ServerHalf (r.accepted id) r.server id
  net : ∀ a m, (a, m) ∈ r.net → m.type = .ack → m.connID = id →
    m.seqNum = 0 ∨ m.seqNum ∈ r.accepted id

theorem connKept_init (id : Int) : ConnKept (.init : ServerRun A) id where
  keeping := ⟨fun _ hq => (List.not_mem_nil hq).elim, fun _ hm => (List.not_mem_nil hm).elim⟩
  net _ _ hm := (List.not_mem_nil hm).elim

section ServerRun

variable [DecidableEq A] {P : Params} {W : Int} {r r' : ServerRun A} {id : Int} {f : Flow Payload}
  {F : Int → Flow Payload} {req : ServerReq A} {s s' : Server A} {out : List (ServerOut A)}

omit [DecidableEq A] in
theorem ServerHalf.same {accepted : List Int} (h : ServerHalf accepted s id)
    (hread : s'.readBuffer id = s.readBuffer id)
    (hlatest : s'.latestAckBuffer id = s.latestAckBuffer id)
    (hexp : s'.expectedSeqNum id = s.expectedSeqNum id) : ServerHalf accepted s' id := by
  unfold ServerHalf
  rw [hread, hlatest, hexp]
  exact h

/-- Where there is something to read, the connection has an `expectedSeqNum`. -/
structure Expecting (s : Server A) (id : Int) : Prop where
  expected : ∀ rb, s.readBuffer id = some rb → s.expectedSeqNum id = some (s.expected id)
  unopened : s.connId < id → s.readBuffer id = none ∧ s.expectedSeqNum id = none

omit [DecidableEq A] in
theorem Receiving.expecting (h : Receiving W s id f) (hlive : Live s id) : Expecting s id :=
  ⟨fun _ hrb => h.expected_eq hlive hrb, h.unopened⟩

omit [DecidableEq A] in
theorem ServerHalf.read {accepted : List Int} (h : ServerHalf accepted s id)
    (he : Expecting s id) (heff : ReadEffect s s' out) (hlive : Live s' id) :
    ServerHalf accepted s' id ∧ ∀ m ∈ ((s.readBuffer id).getD .newBuffer).l,
      m.seqNum ∈ ServerRun.newlyAccepted s s' id := by
  have hlive' : Live s id := live_of_same heff.sameSending hlive
  -- a read buffer that stays has all its numbers recorded
  have stays : s'.readBuffer id = s.readBuffer id → ∀ m ∈ ((s.readBuffer id).getD .newBuffer).l,
      m.seqNum ∈ ServerRun.newlyAccepted s s' id := by
    intro hread m hm
    unfold ServerRun.newlyAccepted
    rw [hread]
    exact List.mem_append_left _ (List.mem_map_of_mem hm)
  cases heff with
  | quiet hsame hout =>
    have hk := hsame.conn id
    exact ⟨h.same hk.read hk.latestAck hk.expected, stays hk.read⟩
  | deliver hrb hm hexp =>
    rename_i id' rb rb' m replyc
    by_cases hid : id = id'
    · subst hid
      have hsome := he.expected rb hrb
      refine ⟨?_, fun x hx => ?_⟩
      · unfold ServerHalf at h ⊢
        rw [hrb, hsome] at h
        simp only [mapSet, Function.update_self, Option.getD_some]
        exact h.deliver hm hexp
      · simp only [ServerRun.newlyAccepted, mapSet, Function.update_self, Option.getD_some, hsome]
        rw [hrb, Option.getD_some, Buffer.remove_eq_some.mp hm] at hx
        rcases List.mem_cons.mp hx with rfl | hx
        · refine List.mem_append_right _ ?_
          rw [if_pos (by omega), hexp]
          exact List.mem_singleton_self _
        · exact List.mem_append_left _ (List.mem_map_of_mem hx)
    · exact ⟨h.same (Function.update_of_ne hid ..) rfl (Function.update_of_ne hid ..),
        stays (Function.update_of_ne hid ..)⟩
  | forget hidle =>
    rename_i id' replyc text
    by_cases hid : id = id'
    · subst hid
      rcases hlive' with ⟨hactive, -⟩ | hlt
      · rw [hidle] at hactive
        cases hactive
      · obtain ⟨h₁, h₂⟩ := he.unopened hlt
        have hread : mapDelete s.readBuffer id id = s.readBuffer id :=
          (Function.update_self ..).trans h₁.symm
        exact ⟨h.same hread rfl ((Function.update_self ..).trans h₂.symm), stays hread⟩
    · exact ⟨h.same (Function.update_of_ne hid ..) rfl (Function.update_of_ne hid ..),
        stays (Function.update_of_ne hid ..)⟩

omit [DecidableEq A] in
/-- What is newly accepted is in the read buffer or has been passed. -/
theorem ServerHalf.recorded {accepted : List Int} (h : ServerHalf accepted s' id) (s : Server A) :
    ServerHalf (ServerRun.newlyAccepted s s' id ++ accepted) s' id := by
  refine Keeping.more h (List.subset_append_right _ _) fun q hq => ?_
  rcases List.mem_append.mp hq with hq | hq
  · unfold ServerRun.newlyAccepted at hq
    rcases List.mem_append.mp hq with hq | hq
    · exact .inr (.inr (List.mem_map.mp hq))
    · split at hq
      · rename_i e e' he he'
        split at hq
        · rename_i hlt
          rw [List.mem_singleton.mp hq, he']
          exact .inr (.inl hlt)
        · cases hq
      · cases hq
  · exact .inl hq

theorem ConnKept.next (h : ConnKept r id)
    (hk : ServerHalf (ServerRun.newlyAccepted r.server s id ++ r.accepted id) s id)
    (hnet : ∀ a m, (a, m) ∈ out.filterMap ServerOut.datagram → m.type = .ack → m.connID = id →
      m.seqNum = 0 ∨ m.seqNum ∈ ServerRun.newlyAccepted r.server s id ++ r.accepted id) :
    ConnKept (r.record req s out) id where
  keeping := hk
  net a m hm hack hid := by
    rcases List.mem_append.mp hm with hm | hm
    · exact (h.net a m hm hack hid).imp_right fun hq => List.mem_append_right _ hq
    · exact hnet a m hm hack hid

/-- The receiving half is as it was, and no ack is sent but those of before. -/
theorem ConnKept.idle (h : ConnKept r id) (hread : s.readBuffer id = r.server.readBuffer id)
    (hlatest : s.latestAckBuffer id = r.server.latestAckBuffer id)
    (hexp : s.expectedSeqNum id = r.server.expectedSeqNum id)
    (hnet : ∀ a m, (a, m) ∈ out.filterMap ServerOut.datagram → m.type = .ack → m.connID = id →
      m.seqNum = 0 ∨ m.seqNum ∈ r.accepted id) : ConnKept (r.record req s out) id :=
  h.next ((h.keeping.same hread hlatest hexp).recorded r.server) fun a m hm hack hid =>
    (hnet a m hm hack hid).imp_right fun hq => List.mem_append_right _ hq

omit [DecidableEq A] in
/-- The acks that are repeated are acks of accepted numbers. -/
theorem ConnKept.resent (h : ConnKept r id) (hs : ServerSends W r F) {lost : List Int}
    (hdrops : Drops r.server lost s) (hsent : Resent s out) {a : A} {m : Message}
    (hm : (a, m) ∈ out.filterMap ServerOut.datagram) (hack : m.type = .ack) (hid : m.connID = id) :
    m.seqNum = 0 ∨ m.seqNum ∈ r.accepted id := by
  obtain ⟨o, ho, hom⟩ := List.mem_filterMap.mp hm
  obtain ⟨a', m', id', rfl, -, hfrom⟩ := hsent o ho
  cases hom
  have hkept : ¬Gone s id' → SameConn r.server s id' := fun hg =>
    hdrops.kept id' fun hmem => hg (hdrops.gone id' hmem)
  rcases hfrom with ⟨b, hb, hmb⟩ | ⟨b, hb, hmb | rfl⟩
  · rw [(hkept (not_gone_of_unAcked hb)).unAcked] at hb
    have hlost := (hs.used (not_gone_of_unAcked hb)).1
    have hsends := (hs.conn id' hlost).sends
    rw [hb] at hsends
    rw [(transmitted_data (hsends.mem_unAcked.mp hmb).1).1] at hack
    cases hack
  · rw [(hkept (not_gone_of_latestAck hb)).latestAck] at hb
    have hid' : id' = id := ((hs.acks id' b hb m hmb).2.symm.trans hid)
    subst hid'
    have hk := h.keeping.acks m
    rw [hb] at hk
    exact .inr (hk hmb)
  · exact .inl rfl

omit [DecidableEq A] in
theorem ServerSends.write_type (hs : ServerSends W r F) {w : Buffer} {u : Buffer}
    (hu : r.server.unAckedMsgBuffer id = some u) (hw : r.server.writeBuffer id = some w)
    {m : Message} (hm : m ∈ w.l) : m.type = .data := by
  have hsends := (hs.conn id (hs.used (not_gone_of_unAcked hu)).1).sends
  rw [hw, Option.getD_some] at hsends
  rw [hsends.write_eq] at hm
  obtain ⟨i, p, -, rfl⟩ := mem_numbered.mp hm
  rfl

theorem ConnKept.data (h : ConnKept r id) (he : Expecting r.server id) {addr : A} {msg : Message}
    {rb lab : Buffer} {t : Buffer × Buffer} {s₁ : Server A} (hlive : Live s id)
    (hrb : r.server.readBuffer (r.server.connIdOf addr) = some rb)
    (hlab : r.server.latestAckBuffer (r.server.connIdOf addr) = some lab)
    (ht : acceptData W (r.server.connIdOf addr) rb lab msg = some t)
    (hsame : SameConns { r.server with
        readBuffer := mapSet r.server.readBuffer (r.server.connIdOf addr) t.1
        latestAckBuffer := mapSet r.server.latestAckBuffer (r.server.connIdOf addr) t.2 } s₁)
    (heff : ReadEffect s₁ s out) :
    ConnKept (r.record req s
      (.send addr (newAck (r.server.connIdOf addr) msg.seqNum) :: out)) id := by
  have hk := hsame.conn id
  have hexp : s₁.expectedSeqNum id = r.server.expectedSeqNum id := hk.expected
  have hnew : ServerRun.newlyAccepted s₁ s id = ServerRun.newlyAccepted r.server s id := by
    unfold ServerRun.newlyAccepted
    rw [hexp]
  have hsend : ∀ a m, (a, m) ∈ (ServerOut.send addr
      (newAck (r.server.connIdOf addr) msg.seqNum) :: out).filterMap ServerOut.datagram →
      m = newAck (r.server.connIdOf addr) msg.seqNum := by
    intro a m hm
    simp only [List.filterMap_cons, ServerOut.datagram, heff.out.1, List.mem_singleton,
      Prod.mk.injEq] at hm
    exact hm.2
  by_cases hid : id = r.server.connIdOf addr
  · rw [← hid] at hrb hlab ht
    have hread : s₁.readBuffer id = some t.1 := by
      rw [hk.read]
      simp only [mapSet, ← hid, Function.update_self]
    have hlatest : s₁.latestAckBuffer id = some t.2 := by
      rw [hk.latestAck]
      simp only [mapSet, ← hid, Function.update_self]
    have he₁ : Expecting s₁ id := by
      refine ⟨fun b _ => ?_, fun hlt => ?_⟩
      · rw [Server.expected, hexp]
        exact he.expected rb hrb
      · rw [(he.unopened (hsame.connId ▸ hlt)).1] at hrb
        cases hrb
    have hhalf : ServerHalf (t.1.l.map (·.seqNum) ++ r.accepted id) s₁ id := by
      have hkeep := h.keeping
      unfold ServerHalf at hkeep ⊢
      rw [hrb, hlab, Option.getD_some, Option.getD_some] at hkeep
      rw [hread, hlatest, hexp, Option.getD_some, Option.getD_some]
      exact hkeep.acceptData ht
    obtain ⟨hhalf', hpassed⟩ := hhalf.read he₁ heff hlive
    rw [hread, Option.getD_some] at hpassed
    have hmem : ∀ q ∈ t.1.l.map (·.seqNum), q ∈ ServerRun.newlyAccepted r.server s id := by
      intro q hq
      obtain ⟨m, hm, rfl⟩ := List.mem_map.mp hq
      rw [← hnew]
      exact hpassed m hm
    refine h.next (Keeping.more (hhalf'.recorded r.server) ?_ fun q hq => .inl ?_) ?_
    · intro q hq
      rcases List.mem_append.mp hq with hq | hq
      · exact List.mem_append_left _ hq
      · rcases List.mem_append.mp hq with hq | hq
        · exact List.mem_append_left _ (hmem q hq)
        · exact List.mem_append_right _ hq
    · rcases List.mem_append.mp hq with hq | hq
      · exact List.mem_append_left _ hq
      · exact List.mem_append_right _ (List.mem_append_right _ hq)
    · intro a m hm _ _
      rw [hsend a m hm]
      obtain ⟨x, hx, hxm⟩ := Buffer.exists_mem_insert rb msg
      refine .inr (List.mem_append_left _ (hmem _ (List.mem_map.mpr ⟨x, ?_, hxm⟩)))
      rw [acceptData_read ht]
      exact hx
  · have hread : s₁.readBuffer id = r.server.readBuffer id :=
      hk.read.trans (Function.update_of_ne hid ..)
    have hhalf : ServerHalf (r.accepted id) s₁ id :=
      h.keeping.same hread (hk.latestAck.trans (Function.update_of_ne hid ..)) hexp
    have he₁ : Expecting s₁ id := by
      refine ⟨fun b hb => ?_, fun hlt => ?_⟩
      · rw [Server.expected, hexp]
        exact he.expected b (hread.symm.trans hb)
      · rw [hread, hexp]
        exact he.unopened (hsame.connId ▸ hlt)
    refine h.next ((hhalf.read he₁ heff hlive).1.recorded r.server) fun a m hm _ hmid => ?_
    rw [hsend a m hm] at hmid
    exact absurd hmid.symm hid

/-- In an event after which the connection is open, or its id is still unused. -/
theorem ConnKept.step (h : ConnKept r id) (hs : ServerSends W r F) (he : Expecting r.server id)
    (hst : r.step P req = some r') (hlive : Live r'.server id) : ConnKept r' id := by
  obtain ⟨s, out, rfl, heff⟩ := ServerRun.step_cases hst
  have hmono := connId_mono heff
  have hnot : s.activeConn id = none → s.connId < id := by
    intro hnone
    rcases hlive with ⟨ha, -⟩ | hlt
    · simp [ServerRun.record, Server.active, hnone] at ha
    · exact hlt
  have hfresh : r.server.connId < id → Gone r.server id := fun hlt => (hs.fresh id (.inr hlt)).1
  cases heff with
  | quiet hsame hout hpass =>
    have hk := hsame.conn id
    refine h.idle hk.read hk.latestAck hk.expected fun a m hm => ?_
    rw [hout.datagram] at hm
    cases hm
  | read hop heff =>
    refine h.next ((h.keeping.read he heff hlive).1.recorded r.server) fun a m hm => ?_
    rw [heff.out.1] at hm
    cases hm
  | write hop hclose hactive haddr hu hw hr =>
    rename_i id' p addr u w t
    refine h.idle rfl rfl rfl fun a m hm hack => ?_
    rw [List.filterMap_append, datagram_sends] at hm
    rcases List.mem_append.mp hm with hm | hm
    · obtain ⟨m', hm', heq⟩ := List.mem_map.mp hm
      cases heq
      subst hr
      rw [mem_sendOrQueue.2.2 hm'] at hack
      cases hack
    · cases hm
  | closeConn hop hactive hcloses hout =>
    rename_i id'
    have hne : id ≠ id' := by
      rintro rfl
      simp [Server.active, (hfresh (hcloses.connId ▸ hnot hcloses.inactive)).active] at hactive
    have hk := hcloses.others id hne
    refine h.idle hk.read hk.latestAck hk.expected fun a m hm => ?_
    rw [hout.datagram] at hm
    cases hm
  | epoch hop hdrops hlost hsent hsame hout =>
    rename_i s₁ lost out₁ out₂ out₃
    have hkept : id ∉ lost := by
      intro hmem
      have hlt := hnot (((hdrops.gone id hmem).same (hsame.conn id)).active)
      exact hdrops.known id hmem (hs.fresh id (.inr (lt_of_le_of_lt hmono hlt))).2.1
    have hk := (hsame.conn id).trans (hdrops.kept id hkept)
    refine h.idle hk.read hk.latestAck hk.expected fun a m hm hack hid => ?_
    rw [List.filterMap_append, List.filterMap_append, hlost.datagram, hout.datagram,
      List.append_nil, List.nil_append] at hm
    exact h.resent hs hdrops hsent hm hack hid
  | opened hop htype hclose hnew =>
    rename_i addr msg
    have hnet : ∀ a m, (a, m) ∈ [ServerOut.send addr (newAck (r.server.connId + 1) 0)].filterMap
        ServerOut.datagram → m.seqNum = 0 := by
      intro a m hm
      cases List.mem_singleton.mp hm
      rfl
    have hhalf : ServerHalf (r.accepted id) (r.server.handleConnect addr).1 id := by
      unfold Server.handleConnect
      rw [if_pos ⟨List.length_eq_zero_iff.mpr hclose, hnew⟩]
      by_cases hid : id = r.server.connId + 1
      · have hlt : r.server.connId < id := by omega
        obtain ⟨hread, hexp⟩ := he.unopened hlt
        have hkeep := h.keeping
        unfold ServerHalf at hkeep ⊢
        rw [hread, hexp, (hfresh hlt).latestAck] at hkeep
        simp only [mapSet, hid, Function.update_self, Option.getD_some]
        rw [← hid]
        exact hkeep
      · exact h.keeping.same (Function.update_of_ne hid ..) (Function.update_of_ne hid ..)
          (Function.update_of_ne hid ..)
    exact h.next (hhalf.recorded r.server) fun a m hm _ _ => .inl (hnet a m hm)
  | ackMissed hop htype hid hu hmiss hsame =>
    have hk := hsame.conn id
    exact h.idle hk.read hk.latestAck hk.expected fun a m hm => by cases hm
  | ack hop htype hid hu hw hr hsame =>
    have hk := hsame.conn id
    refine h.idle hk.read hk.latestAck hk.expected fun a m hm hack => ?_
    rw [datagram_sends] at hm
    obtain ⟨m', hm', heq⟩ := List.mem_map.mp hm
    cases heq
    rw [hs.write_type hu hw ((mem_ackReceived hr).2.2 hm')] at hack
    cases hack
  | lastAck hop htype hid hu hw hr hnil hclosed hsame =>
    rename_i addr msg u w t
    -- the last ack of a closed connection is for another one
    have hne : id ≠ r.server.connIdOf addr := by
      intro hid'
      rw [← hid'] at hu hclosed
      rcases hlive with ⟨ha, hc⟩ | hlt
      · rcases hclosed with hclosed | hclosed
        · have hactive : s.activeConn = r.server.activeConn := hsame.active
          simp only [ServerRun.record, Server.active, hactive] at ha
          rw [Server.active, ha] at hclosed
          cases hclosed
        · exact hclosed (hsame.closing hc)
      · exact not_gone_of_unAcked hu (hfresh (lt_of_le_of_lt hmono hlt))
    have hk := hsame.conn id
    refine h.idle (hk.read.trans (Function.update_of_ne hne ..))
      (hk.latestAck.trans (Function.update_of_ne hne ..))
      (hk.expected.trans (Function.update_of_ne hne ..)) fun a m hm hack => ?_
    rw [datagram_sends] at hm
    obtain ⟨m', hm', heq⟩ := List.mem_map.mp hm
    cases heq
    rw [hs.write_type hu hw ((mem_ackReceived hr).2.2 hm')] at hack
    cases hack
  | data hop htype hid hge hrb hlab hr hsame heff =>
    exact h.data he hlive hrb hlab hr hsame heff

end ServerRun

/-! ## Both ends -/

/-- What is acknowledged to either side is with the other. -/
structure Received (l : Link A) : Prop where
  client : ClientKept l.client
  server : ConnKept l.server 1
  up : ∀ q ∈ l.client.acked, q ∈ l.server.accepted 1
  down : ∀ q ∈ l.server.acked 1, q ∈ l.client.accepted
  opened : l.client.established = true → 1 ≤ l.server.server.connId
  maps : MapsAgree l.server.server

theorem received_init : Received (.init : Link A) where
  client := clientKept_init
  server := connKept_init 1
  up _ hq := (List.not_mem_nil hq).elim
  down _ hq := (List.not_mem_nil hq).elim
  opened hest := by cases hest
  maps := mapsAgree_newServer

section Link

variable [DecidableEq A] {P Q : Params} {addr : A} {l : Link A} {f : Flow Payload}
  {F : Int → Flow Payload}

theorem Received.client_step (h : Received l) (hl : Linked P Q addr l f F)
    {incoming : Option ClientReq} (hhears : l.clientHears addr incoming = true) {r : ClientRun}
    (hst : l.client.step P incoming = some r) : Received { l with client := r } := by
  have hkept := h.client.step hl.clientOut hst
  obtain ⟨-, c, out, rfl, heff⟩ := ClientRun.step_cases hst
  refine ⟨hkept, h.server, fun q hq => ?_, fun q hq => List.mem_append_right _ (h.down q hq),
    fun hest => ?_, h.maps⟩
  · rcases List.mem_append.mp hq with hq | hq
    · unfold ClientRun.newlyAcked at hq
      split at hq
      · rename_i msg replyc _
        split at hq
        · rename_i hnew
          obtain ⟨hack, m, hm, hdata, hseq⟩ := hnew
          have hmem : (addr, msg) ∈ l.server.net := of_decide_eq_true hhears
          have hpos := (transmitted_bounds (hl.fromClient hm hdata)).1
          rw [List.mem_singleton.mp hq]
          refine (h.server.net addr msg hmem hack ((hl.fromServer hmem).2 hack)).resolve_left ?_
          omega
        · cases hq
      · cases hq
    · exact h.up q hq
  · rcases connId_of_effect heff with ⟨hno, -⟩ | ⟨-, msg, replyc, rfl, hack, -⟩
    · refine h.opened ?_
      simpa [ClientRun.record, hno] using hest
    · have hmem : (addr, msg) ∈ l.server.net := of_decide_eq_true hhears
      have hused := hl.serverOut.net_used hmem
      rw [(hl.fromServer hmem).2 hack] at hused
      simp only [Unused, not_or, not_le, not_lt] at hused
      exact hused.2

/-- A connection that is closed is not open afterwards. -/
theorem settled_of_isOpen {s s' : Server A} {req : ServerReq A} {out : List (ServerOut A)}
    (h : MapsAgree s) (hclose : s.deferedClose = []) (hh : s.handle Q req = some (s', out))
    (hopen : s'.isOpen = true) : s.settled req = true := by
  have hmono := connId_mono (effect_of_serverHandle hh)
  unfold Server.settled
  split
  · rename_i id hop
    cases hactive : s.active id with
    | false => rfl
    | true =>
      exfalso
      obtain ⟨a, hent⟩ := h.entries_of_active hclose hactive
      obtain ⟨hlo, hhi⟩ := h.used id (.inl (by rw [hent.addr]; exact Option.some_ne_none a))
      have hstill : s'.active id = true := by
        refine Server.isOpen_active hopen fun hun => ?_
        rcases hun with hun | hun <;> omega
      unfold Server.handle at hh
      split at hh
      · simp only [hop, Server.handleCloseConn, hactive, if_true, Option.bind_eq_bind,
          Option.bind_eq_some_iff, Option.pure_def, Option.some.injEq, Prod.mk.injEq] at hh
        obtain ⟨t, -, s₁, -, rfl, -⟩ := hh
        simp [Server.active, mapDelete] at hstill
      · cases hh
  · rfl

theorem Received.server_step (h : Received l) (hl : Linked P Q addr l f F) {req : ServerReq A}
    (hhears : l.serverHears addr req = true) {r : ServerRun A}
    (hst : l.server.step Q req = some r) (hopen : r.server.isOpen = true) :
    Received { l with server := r } := by
  have hbefore := hl.isOpen_both.2
  have hkept := h.server.step hl.serverOut
    (hl.serverIn.receiving.expecting (live_of_isOpen hbefore)) hst (live_of_isOpen hopen)
  obtain ⟨⟨s, out⟩, hh, rfl⟩ := Option.map_eq_some_iff.mp hst
  refine ⟨h.client, hkept, fun q hq => List.mem_append_right _ (h.up q hq), fun q hq => ?_,
    fun hest => ?_, ?_⟩
  · rcases List.mem_append.mp hq with hq | hq
    · unfold ServerRun.newlyAcked at hq
      split at hq
      · rename_i a msg hop
        split at hq
        · rename_i hnew
          obtain ⟨hack, -, -, ⟨a', m⟩, hm, hdata, hid, hseq⟩ := hnew
          have hmem : msg ∈ l.client.net := by
            simp only [Link.serverHears, hop, decide_eq_true_eq] at hhears
            exact hhears.2
          have hsent := ((hl.serverOut.conn 1 hl.not_lost).sentData m).mpr ⟨⟨a', hm⟩, hdata, hid⟩
          have hpos := (transmitted_bounds hsent).1
          rw [List.mem_singleton.mp hq]
          refine (h.client.net msg hmem hack).resolve_left ?_
          simp only at hseq
          omega
        · cases hq
      · cases hq
    · exact h.down q hq
  · exact le_trans (h.opened hest) (connId_mono (effect_of_serverHandle hh))
  · exact h.maps.handle (settled_of_isOpen h.maps (Server.isOpen_closing hbefore) hh hopen) hh

/-- In every run, as long as the connection is open. -/
theorem received_inductive (hP : 1 ≤ P.windowSize) (hQ : 1 ≤ Q.windowSize) (addr : A) :
    (openLink P Q addr).Inductive fun l => (∃ f F, Linked P Q addr l f F) ∧ Received l where
  init := by
    rintro _ rfl
    exact ⟨⟨.empty, fun _ => .empty, linked_init P Q addr⟩, received_init⟩
  step := by
    rintro l a l' ⟨hl, h⟩ hst
    refine ⟨(link_follows hP hQ addr).step l a l' hl hst, ?_⟩
    obtain ⟨f, F, hl⟩ := hl
    obtain ⟨hst, hopen⟩ := Option.filter_eq_some_iff.mp hst
    cases a with
    | client incoming =>
      simp only [Link.step] at hst
      split at hst
      · rename_i hhears
        obtain ⟨r, hr, rfl⟩ := Option.map_eq_some_iff.mp hst
        exact h.client_step hl hhears hr
      · cases hst
    | server req =>
      simp only [Link.step] at hst
      split at hst
      · rename_i hhears
        obtain ⟨r, hr, rfl⟩ := Option.map_eq_some_iff.mp hst
        simp only [Link.isOpen, Bool.and_eq_true] at hopen
        exact h.server_step hl hhears hr hopen.2
      · cases hst

end Link

end Cmu440.Lsp
