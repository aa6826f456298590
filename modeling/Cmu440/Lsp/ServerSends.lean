import Cmu440.Lsp.ServerRuns

/-!
# The sending halves of the server

Whatever arrives, the sending half of every connection of the server follows a
flow until the server declares the connection lost (`ServerSends.step`). An
event moves at most one connection along its flow (`ServerSends.moves`); the
others stay as they are, and an epoch repeats what was sent.

Alongside go the facts that keep connections apart: an id that was not handed
out has no entry anywhere, nor has one that was lost a sending half, and every
ack carries the id of the connection it is kept for.
-/
namespace Cmu440.Lsp

variable {A : Type}

/-! ## The sending halves -/

/-- The id was not handed out. -/
def Unused (s : Server A) (id : Int) : Prop := id ≤ 0 ∨ s.connId < id

/-- What is written to, sent on and acknowledged on the connection is the
sending end of `f`. -/
structure ConnSends (W : Int) (r : ServerRun A) (id : Int) (f : Flow Payload) : Prop where
  written : f.written = r.written id
  acked : f.acked = r.acked id
  sentData : ∀ m, m ∈ transmitted id f ↔
    (∃ a, (a, m) ∈ r.net) ∧ m.type = .data ∧ m.connID = id
  sends : Sends W id f ((r.server.unAckedMsgBuffer id).getD .newBuffer)
    ((r.server.writeBuffer id).getD .newBuffer)
  seqNum : r.server.active id = true → r.server.deferedClose = [] →
    (r.server.seqNum id).getD 0 = f.written.length
  unused : Unused r.server id → f.written = []

/-- Every connection that is not lost sends along its flow. -/
structure ServerSends (W : Int) (r : ServerRun A) (F : Int → Flow Payload) : Prop where
  conn : ∀ id, r.lost id = false → ConnSends W r id (F id)
  gone : ∀ id, r.lost id = true → Gone r.server id
  nonneg : 0 ≤ r.server.connId
  fresh : ∀ id, Unused r.server id →
    Gone r.server id ∧ r.server.connIdHostportMap id = none ∧ r.lost id = false
  acks : ∀ id b, r.server.latestAckBuffer id = some b → ∀ m ∈ b.l, m.type = .ack ∧ m.connID = id
  netAcks : ∀ x ∈ r.net, x.2.type ≠ .data → ¬Unused r.server x.2.connID

theorem serverSends_init (W : Int) : ServerSends W (.init : ServerRun A) (fun _ => .empty) where
  conn id _ := by
    refine ⟨rfl, rfl, fun m => ?_, sends_empty W id, nofun, fun _ => rfl⟩
    simp [transmitted, numbered, Flow.empty, ServerRun.init]
  gone := nofun
  nonneg := le_refl _
  fresh _ _ := ⟨⟨rfl, rfl, rfl, rfl⟩, rfl, rfl⟩
  acks := nofun
  netAcks := nofun

section Connection

variable [DecidableEq A] {W : Int} {r : ServerRun A} {id : Int} {f : Flow Payload}

/-- An event that leaves the sending half of the connection as it is, and at
most repeats what was sent on it. -/
theorem ConnSends.idle (h : ConnSends W r id f) {req : ServerReq A} {s : Server A}
    {out : List (ServerOut A)}
    (hunAcked : (s.unAckedMsgBuffer id).getD .newBuffer =
      (r.server.unAckedMsgBuffer id).getD .newBuffer)
    (hwrite : (s.writeBuffer id).getD .newBuffer = (r.server.writeBuffer id).getD .newBuffer)
    (hseq : s.active id = true → s.deferedClose = [] → (s.seqNum id).getD 0 = f.written.length)
    (hconn : r.server.connId ≤ s.connId)
    (hwritten : ServerRun.newlyWritten id req out = [])
    (hacked : r.newlyAcked id req = [])
    (hdata : ∀ a m, (a, m) ∈ out.filterMap ServerOut.datagram → m.type = .data → m.connID = id →
      m ∈ transmitted id f) : ConnSends W (r.record req s out) id f where
  written := by
    simp only [ServerRun.record, hwritten, List.append_nil, h.written]
  acked := by
    simp only [ServerRun.record, hacked, List.nil_append, h.acked]
  sentData m := by
    simp only [ServerRun.record, List.mem_append]
    constructor
    · intro hm
      obtain ⟨⟨a, ha⟩, hty, hid⟩ := (h.sentData m).mp hm
      exact ⟨⟨a, .inl ha⟩, hty, hid⟩
    · rintro ⟨⟨a, ha | ha⟩, hty, hid⟩
      · exact (h.sentData m).mpr ⟨⟨a, ha⟩, hty, hid⟩
      · exact hdata a m ha hty hid
  sends := by
    simp only [ServerRun.record, hunAcked, hwrite]
    exact h.sends
  seqNum := hseq
  unused hun := h.unused (hun.imp_right (lt_of_le_of_lt hconn))

/-- An event that is not about the connection. -/
theorem ConnSends.kept (h : ConnSends W r id f) {req : ServerReq A} {s : Server A}
    {out : List (ServerOut A)} (hunAcked : s.unAckedMsgBuffer id = r.server.unAckedMsgBuffer id)
    (hwrite : s.writeBuffer id = r.server.writeBuffer id)
    (hseqNum : s.seqNum id = r.server.seqNum id)
    (hactive : s.activeConn id = r.server.activeConn id)
    (hclose : s.deferedClose = [] → r.server.deferedClose = [])
    (hconn : r.server.connId ≤ s.connId)
    (hwritten : ServerRun.newlyWritten id req out = [])
    (hacked : r.newlyAcked id req = [])
    (hdata : ∀ a m, (a, m) ∈ out.filterMap ServerOut.datagram → m.type = .data → m.connID = id →
      m ∈ transmitted id f) : ConnSends W (r.record req s out) id f := by
  refine h.idle (by rw [hunAcked]) (by rw [hwrite]) ?_ hconn hwritten hacked hdata
  intro ha hc
  rw [hseqNum]
  refine h.seqNum ?_ (hclose hc)
  unfold Server.active at ha ⊢
  rw [← hactive]
  exact ha

/-- The flow sends `sent`, and these are the datagrams of the event. -/
theorem ConnSends.forward (h : ConnSends W r id f) {f' : Flow Payload} {req : ServerReq A}
    {s : Server A} {out : List (ServerOut A)} {addr : A} {sent : List Message}
    (htr : transmitted id f' = transmitted id f ++ sent)
    (hout : out.filterMap ServerOut.datagram = sent.map (addr, ·))
    (hwritten : f'.written = r.written id ++ ServerRun.newlyWritten id req out)
    (hacked : f'.acked = r.newlyAcked id req ++ r.acked id)
    (hsends : Sends W id f' ((s.unAckedMsgBuffer id).getD .newBuffer)
      ((s.writeBuffer id).getD .newBuffer))
    (hseq : s.active id = true → s.deferedClose = [] → (s.seqNum id).getD 0 = f'.written.length)
    (hused : ¬Unused s id) : ConnSends W (r.record req s out) id f' where
  written := hwritten
  acked := hacked
  sentData m := by
    -- what goes out in this event is data of the connection
    have hnew : m ∈ sent → m.type = .data ∧ m.connID = id := by
      intro hm
      have hmem : m ∈ transmitted id f' := by
        rw [htr]
        exact List.mem_append_right _ hm
      exact transmitted_data hmem
    simp only [ServerRun.record, htr, hout, List.mem_append, h.sentData, List.mem_map]
    constructor
    · rintro (⟨⟨a, ha⟩, hm⟩ | hm)
      · exact ⟨⟨a, .inl ha⟩, hm⟩
      · exact ⟨⟨addr, .inr ⟨m, hm, rfl⟩⟩, hnew hm⟩
    · rintro ⟨⟨a, ha | ⟨m', hm', he⟩⟩, hm⟩
      · exact .inl ⟨⟨a, ha⟩, hm⟩
      · cases he
        exact .inr hm'
  sends := hsends
  seqNum := hseq
  unused hun := absurd hun hused

omit [DecidableEq A] in
/-- The history of acks in terms of the flow. -/
theorem ConnSends.newlyAcked_eq (h : ConnSends W r id f) (hok : f.Ok W) {req : ServerReq A}
    {addr : A} {msg : Message} (hop : req.op = .receivemsg addr msg) (htype : msg.type = .ack)
    (hid : r.server.connIdOf addr = id) (hpos : 0 < id) :
    r.newlyAcked id req ++ r.acked id = ackedBy f msg.seqNum := by
  have hiff : (∃ x ∈ r.net, x.2.type = .data ∧ x.2.connID = id ∧ x.2.seqNum = msg.seqNum) ↔
      f.Sent msg.seqNum := by
    constructor
    · rintro ⟨⟨a, m⟩, hx, hty, hc, hseq⟩
      simp only at hty hc hseq
      rw [← hseq]
      exact transmitted_bounds ((h.sentData m).mpr ⟨⟨a, hx⟩, hty, hc⟩)
    · intro hsent
      obtain ⟨m, hm, hseq⟩ := transmitted_exists id hok.sent_le hsent
      obtain ⟨⟨a, ha⟩, hty, hc⟩ := (h.sentData m).mp hm
      exact ⟨(a, m), ha, hty, hc, hseq⟩
  unfold ServerRun.newlyAcked ackedBy
  simp only [hop, htype, hid, hpos, hiff, true_and, h.acked]
  split <;> rfl

end Connection

/-! ## One event -/

section Event

variable [DecidableEq A] {P : Params} {s s' : Server A} {req : ServerReq A}
  {out : List (ServerOut A)} {id : Int} {r : ServerRun A}

/-- What is gone stays gone. -/
theorem Gone.step (h : Gone s id) (heff : ServerEffect P s req s' out)
    (hold : id ≠ s.connId + 1 ∨ s'.connId < id) : Gone s' id := by
  have of_same : ∀ {s₁ s₂ : Server A}, SameSending s₁ s₂ →
      s₂.latestAckBuffer = s₁.latestAckBuffer → Gone s₁ id → Gone s₂ id := by
    intro s₁ s₂ hs hl hg
    exact ⟨(congrFun hs.unAcked id).trans hg.unAcked, (congrFun hs.write id).trans hg.write,
      (congrFun hs.active id).trans hg.active, (congrFun hl id).trans hg.latestAck⟩
  -- a connection with a sending half is another one
  have other : ∀ {id' : Int} {u : Buffer}, s.unAckedMsgBuffer id' = some u → id ≠ id' := by
    rintro id' u hu rfl
    rw [h.unAcked] at hu
    cases hu
  cases heff with
  | quiet hsame => exact h.same (hsame.conn id)
  | read hop heff => exact of_same heff.sameSending heff.latestAck h
  | write hop hclose hactive haddr hu hw hr =>
    have hne := other hu
    exact ⟨(Function.update_of_ne hne ..).trans h.unAcked,
      (Function.update_of_ne hne ..).trans h.write, h.active, h.latestAck⟩
  | closeConn hop hactive hcloses hout =>
    rename_i id'
    have hne : id ≠ id' := by
      rintro rfl
      simp [Server.active, h.active] at hactive
    exact h.same (hcloses.others id hne)
  | epoch hop hdrops hlost hsent hsame hout =>
    rename_i s₁ lost _ _ _
    refine Gone.same ?_ (hsame.conn id)
    by_cases hid : id ∈ lost
    · exact hdrops.gone id hid
    · exact h.same (hdrops.kept id hid)
  | opened hop htype hclose hnew =>
    unfold Server.handleConnect at hold ⊢
    rw [if_pos ⟨List.length_eq_zero_iff.mpr hclose, hnew⟩] at hold ⊢
    have hne : id ≠ s.connId + 1 := by
      rintro rfl
      simp at hold
    exact ⟨(Function.update_of_ne hne ..).trans h.unAcked,
      (Function.update_of_ne hne ..).trans h.write, (Function.update_of_ne hne ..).trans h.active,
      (Function.update_of_ne hne ..).trans h.latestAck⟩
  | ackMissed hop htype hid hu hmiss hsame => exact h.same (hsame.conn id)
  | ack hop htype hid hu hw hr hsame =>
    have hne := other hu
    refine Gone.same ?_ (hsame.conn id)
    exact ⟨(Function.update_of_ne hne ..).trans h.unAcked,
      (Function.update_of_ne hne ..).trans h.write, h.active, h.latestAck⟩
  | lastAck hop htype hid hu hw hr hnil hclosed hsame =>
    have hne := other hu
    refine Gone.same ?_ (hsame.conn id)
    exact ⟨(Function.update_of_ne hne ..).trans h.unAcked,
      (Function.update_of_ne hne ..).trans h.write, h.active,
      (Function.update_of_ne hne ..).trans h.latestAck⟩
  | data hop htype hid hge hrb hlab hr hsame heff =>
    refine of_same heff.sameSending heff.latestAck (Gone.same ?_ (hsame.conn id))
    refine ⟨h.unAcked, h.write, h.active, (Function.update_of_ne ?_ ..).trans h.latestAck⟩
    rintro rfl
    rw [h.latestAck] at hlab
    cases hlab

/-- `latestAckBuffer` holds acks of its connection only. -/
theorem acks_step
    (h : ∀ id b, s.latestAckBuffer id = some b → ∀ m ∈ b.l, m.type = .ack ∧ m.connID = id)
    (heff : ServerEffect P s req s' out) :
    ∀ id b, s'.latestAckBuffer id = some b → ∀ m ∈ b.l, m.type = .ack ∧ m.connID = id := by
  intro id b hb
  cases heff with
  | quiet hsame | ackMissed _ _ _ _ _ hsame | ack _ _ _ _ _ _ hsame =>
    rw [hsame.latestAck] at hb
    exact h id b hb
  | read hop heff =>
    rw [heff.latestAck] at hb
    exact h id b hb
  | write => exact h id b hb
  | closeConn hop hactive hcloses hout =>
    rename_i id'
    by_cases hid : id = id'
    · subst hid
      rw [hcloses.latestAck] at hb
      cases hb
    · rw [(hcloses.others id hid).latestAck] at hb
      exact h id b hb
  | epoch hop hdrops hlost hsent hsame hout =>
    rename_i s₁ lost _ _ _
    rw [hsame.latestAck] at hb
    by_cases hid : id ∈ lost
    · rw [(hdrops.gone id hid).latestAck] at hb
      cases hb
    · rw [(hdrops.kept id hid).latestAck] at hb
      exact h id b hb
  | opened hop htype hclose hnew =>
    unfold Server.handleConnect at hb
    rw [if_pos ⟨List.length_eq_zero_iff.mpr hclose, hnew⟩] at hb
    simp only [mapSet, Function.update_apply] at hb
    split at hb
    · cases hb
      nofun
    · exact h id b hb
  | lastAck hop htype hid hu hw hr hnil hclosed hsame =>
    rw [hsame.latestAck] at hb
    simp only [Server.cleanUp, mapDelete, Function.update_apply] at hb
    split at hb
    · cases hb
    · exact h id b hb
  | data hop htype hid hge hrb hlab hr hsame heff =>
    rw [heff.latestAck, hsame.latestAck] at hb
    simp only [mapSet, Function.update_apply] at hb
    split at hb
    · rename_i hid'
      cases hb
      intro m hm
      rcases acceptData_latestAck hr hm with hm | rfl
      · rw [hid']
        exact h _ _ hlab m hm
      · exact ⟨rfl, hid'.symm⟩
    · exact h id b hb

theorem connId_mono (heff : ServerEffect P s req s' out) : s.connId ≤ s'.connId := by
  cases heff with
  | quiet hsame => exact le_of_eq hsame.connId.symm
  | read hop heff => exact le_of_eq heff.sameSending.connId.symm
  | write => exact le_refl _
  | closeConn hop hactive hcloses hout => exact le_of_eq hcloses.connId.symm
  | epoch hop hdrops hlost hsent hsame hout =>
    exact le_of_eq (hsame.connId.trans hdrops.connId).symm
  | opened hop htype hclose hnew =>
    unfold Server.handleConnect
    rw [if_pos ⟨List.length_eq_zero_iff.mpr hclose, hnew⟩]
    simp only
    omega
  | ackMissed _ _ _ _ _ hsame | ack _ _ _ _ _ _ hsame | lastAck _ _ _ _ _ _ _ _ hsame =>
    exact le_of_eq hsame.connId.symm
  | data _ _ _ _ _ _ _ hsame heff =>
    exact le_of_eq (heff.sameSending.connId.trans hsame.connId).symm

/-- No address is known for an id that was not handed out. -/
theorem addr_fresh (hg : Gone s id) (h : s.connIdHostportMap id = none)
    (heff : ServerEffect P s req s' out) (hold : id ≠ s.connId + 1 ∨ s'.connId < id) :
    s'.connIdHostportMap id = none := by
  cases heff with
  | quiet hsame => exact (congrFun hsame.addr id).trans h
  | read hop heff => exact (congrFun heff.maps.2 id).trans h
  | write => exact h
  | closeConn hop hactive hcloses hout =>
    rename_i id'
    have hne : id ≠ id' := by
      rintro rfl
      simp [Server.active, hg.active] at hactive
    exact (hcloses.others id hne).addr.trans h
  | epoch hop hdrops hlost hsent hsame hout =>
    have hnot : id ∉ _ := fun hm => hdrops.known id hm h
    exact (congrFun hsame.addr id).trans ((hdrops.kept id hnot).addr.trans h)
  | opened hop htype hclose hnew =>
    unfold Server.handleConnect at hold ⊢
    rw [if_pos ⟨List.length_eq_zero_iff.mpr hclose, hnew⟩] at hold ⊢
    have hne : id ≠ s.connId + 1 := by
      rintro rfl
      simp at hold
    exact (Function.update_of_ne hne ..).trans h
  | ackMissed _ _ _ _ _ hsame | ack _ _ _ _ _ _ hsame => exact (congrFun hsame.addr id).trans h
  | lastAck _ _ _ _ _ _ _ _ hsame =>
    rw [congrFun hsame.addr id]
    simp only [Server.cleanUp, mapDelete, Function.update_apply, h, ite_self]
  | data _ _ _ _ _ _ _ hsame heff =>
    exact (congrFun heff.maps.2 id).trans ((congrFun hsame.addr id).trans h)

/-- Only an epoch declares a connection lost, and only one it has an address
for. -/
theorem lost_known (heff : ServerEffect P s req s' out) (hid : id ∈ out.filterMap ServerOut.lost) :
    req.op = .epochtimer ∧ s.connIdHostportMap id ≠ none ∧ Gone s' id := by
  cases heff with
  | quiet hsame hout hpass =>
    rw [hout.lost] at hid
    cases hid
  | read hop heff =>
    rw [heff.out.2] at hid
    cases hid
  | write hop hclose hactive haddr hu hw hr =>
    rw [List.filterMap_append, lost_sends] at hid
    cases hid
  | closeConn hop hactive hcloses hout =>
    rw [hout.lost] at hid
    cases hid
  | epoch hop hdrops hlost hsent hsame hout =>
    rw [List.filterMap_append, List.filterMap_append, hlost.lost, hsent.lost, hout.lost,
      List.append_nil, List.append_nil] at hid
    exact ⟨hop, hdrops.known id hid, (hdrops.gone id hid).same (hsame.conn id)⟩
  | opened | ackMissed => cases hid
  | ack | lastAck =>
    rw [lost_sends] at hid
    cases hid
  | data _ _ _ _ _ _ _ _ heff =>
    rw [List.filterMap_cons, heff.out.2] at hid
    cases hid

theorem ServerSends.fresh_step {W : Int} {F : Int → Flow Payload} (h : ServerSends W r F)
    (heff : ServerEffect P r.server req s out) (hid : Unused s id) :
    Gone s id ∧ s.connIdHostportMap id = none ∧ (r.record req s out).lost id = false := by
  have hold : id ≠ r.server.connId + 1 ∨ s.connId < id := by
    refine hid.imp_left fun hle => ?_
    have := h.nonneg
    omega
  obtain ⟨hg, haddr, hlost⟩ := h.fresh id (hid.imp_right (lt_of_le_of_lt (connId_mono heff)))
  refine ⟨hg.step heff hold, addr_fresh hg haddr heff hold, ?_⟩
  simp only [ServerRun.record, hlost, Bool.false_or, decide_eq_false_iff_not]
  intro hmem
  exact (lost_known heff hmem).2.1 haddr

theorem ServerSends.gone_step {W : Int} {F : Int → Flow Payload} (h : ServerSends W r F)
    (heff : ServerEffect P r.server req s out) (hid : (r.record req s out).lost id = true) :
    Gone s id := by
  simp only [ServerRun.record, Bool.or_eq_true, decide_eq_true_eq] at hid
  rcases hid with hid | hid
  · refine (h.gone id hid).step heff (.inl ?_)
    rintro rfl
    rw [(h.fresh _ (.inr (by omega))).2.2] at hid
    cases hid
  · exact (lost_known heff hid).2.2

theorem serverWritten_nil (h : ∀ p, req.op = .dowrite id p → .reply req.replyc ⟨.nil, none⟩ ∉ out) :
    ServerRun.newlyWritten id req out = [] := by
  unfold ServerRun.newlyWritten
  split
  · rename_i id' p hop
    refine if_neg ?_
    rintro ⟨rfl, hmem⟩
    exact h p hop hmem
  · rfl

omit [DecidableEq A] in
theorem serverAcked_nil (h : ∀ addr msg, req.op = .receivemsg addr msg → msg.type = .ack → 0 < id →
      r.server.connIdOf addr ≠ id) : r.newlyAcked id req = [] := by
  unfold ServerRun.newlyAcked
  split
  · rename_i addr msg hop
    refine if_neg ?_
    rintro ⟨htype, hpos, hid, -⟩
    exact h addr msg hop htype hpos hid
  · rfl

omit [DecidableEq A] in
theorem serverAcked_nil_of_type {addr : A} {msg : Message} (hop : req.op = .receivemsg addr msg)
    (htype : msg.type ≠ .ack) :
    r.newlyAcked id req = [] := by
  refine serverAcked_nil fun a m hop' hm => ?_
  rw [hop] at hop'
  cases hop'
  exact absurd hm htype

section Step

variable {W : Int} {r : ServerRun A} {F : Int → Flow Payload} {req : ServerReq A} {s : Server A}
  {out : List (ServerOut A)}

omit [DecidableEq A] in
theorem ServerSends.used (h : ServerSends W r F) {id : Int} (hid : ¬Gone r.server id) :
    r.lost id = false ∧ ¬Unused r.server id := by
  refine ⟨?_, fun hun => hid (h.fresh id hun).1⟩
  by_contra hc
  exact hid (h.gone id (Bool.eq_true_of_not_eq_false hc))

omit [DecidableEq A] in
theorem not_gone_of_unAcked {id : Int} {b : Buffer} (hb : s.unAckedMsgBuffer id = some b) :
    ¬Gone s id := by
  intro hg
  rw [hg.unAcked] at hb
  cases hb

omit [DecidableEq A] in
theorem not_gone_of_latestAck {id : Int} {b : Buffer} (hb : s.latestAckBuffer id = some b) :
    ¬Gone s id := by
  intro hg
  rw [hg.latestAck] at hb
  cases hb

omit [DecidableEq A] in
/-- What is unacknowledged was sent, on the connection it is kept for. -/
theorem ServerSends.unAcked_transmitted (h : ServerSends W r F) {id : Int} {b : Buffer}
    (hb : r.server.unAckedMsgBuffer id = some b) {m : Message} (hm : m ∈ b.l) :
    m ∈ transmitted id (F id) := by
  have hs := (h.conn id (h.used (not_gone_of_unAcked hb)).1).sends
  rw [hb] at hs
  exact (hs.mem_unAcked.mp hm).1

/-- After the event every connection that is not lost sends along its flow. -/
structure Follows (W : Int) (r : ServerRun A) (F : Int → Flow Payload) (req : ServerReq A)
    (s : Server A) (out : List (ServerOut A)) : Prop where
  conn : ∀ id, (r.record req s out).lost id = false → ConnSends W (r.record req s out) id (F id)
  netAcks : ∀ x ∈ out.filterMap ServerOut.datagram, x.2.type ≠ .data → ¬Unused s x.2.connID

/-- One connection has gone on. -/
def Moved (W : Int) (r : ServerRun A) (F : Int → Flow Payload) (req : ServerReq A) (s : Server A)
    (out : List (ServerOut A)) : Prop :=
  ∃ id f, Advances W id (F id) f ∧ Follows W r (Function.update F id f) req s out

/-- The flow of the connection goes on and sends `sent`. The other connections
stay as they are. -/
theorem ServerSends.move (h : ServerSends W r F) {id : Int} {f : Flow Payload} {addr : A}
    {sent : List Message} (hrun : ∃ ls, (Flow.system W).Run (F id) ls f)
    (haccepted : f.accepted = (F id).accepted) (hreturned : f.returned = (F id).returned)
    (htr : transmitted id f = transmitted id (F id) ++ sent)
    (hout : out.filterMap ServerOut.datagram = sent.map (addr, ·))
    (hwritten : f.written = r.written id ++ ServerRun.newlyWritten id req out)
    (hacked : f.acked = r.newlyAcked id req ++ r.acked id)
    (hsends : Sends W id f ((s.unAckedMsgBuffer id).getD .newBuffer)
      ((s.writeBuffer id).getD .newBuffer))
    (hseq : s.active id = true → s.deferedClose = [] → (s.seqNum id).getD 0 = f.written.length)
    (hused : ¬Unused r.server id) (hlost : r.lost id = false)
    (hothers : ∀ id', id' ≠ id → s.unAckedMsgBuffer id' = r.server.unAckedMsgBuffer id' ∧
      s.writeBuffer id' = r.server.writeBuffer id' ∧ s.seqNum id' = r.server.seqNum id' ∧
      s.activeConn id' = r.server.activeConn id')
    (hclose : s.deferedClose = [] → r.server.deferedClose = [])
    (hconn : s.connId = r.server.connId)
    (hwritten' : ∀ id', id' ≠ id → ServerRun.newlyWritten id' req out = [])
    (hacked' : ∀ id', id' ≠ id → r.newlyAcked id' req = []) : Moved W r F req s out := by
  have hsent : ∀ a m, (a, m) ∈ out.filterMap ServerOut.datagram → m.type = .data ∧ m.connID = id := by
    intro a m hm
    rw [hout, List.mem_map] at hm
    obtain ⟨m', hm', he⟩ := hm
    cases he
    refine transmitted_data (f := f) ?_
    rw [htr]
    exact List.mem_append_right _ hm'
  refine ⟨id, f, ⟨hrun, haccepted, hreturned, htr ▸ List.prefix_append _ _⟩, fun id' hlost' => ?_,
    fun x hx hty => absurd (hsent x.1 x.2 hx).1 hty⟩
  by_cases hid : id' = id
  · subst hid
    rw [Function.update_self]
    refine (h.conn id' hlost).forward htr hout hwritten hacked hsends hseq ?_
    unfold Unused at hused ⊢
    rw [hconn]
    exact hused
  · rw [Function.update_of_ne hid]
    simp only [ServerRun.record, Bool.or_eq_false_iff] at hlost'
    obtain ⟨hu, hw, hs, ha⟩ := hothers id' hid
    refine (h.conn id' hlost'.1).kept hu hw hs ha hclose (le_of_eq hconn.symm) (hwritten' id' hid)
      (hacked' id' hid) ?_
    intro a m hm _ hc
    exact absurd (hc.symm.trans (hsent a m hm).2) hid

/-- An accepted `Write`. -/
theorem ServerSends.write (h : ServerSends W r F) (hW : 1 ≤ W) (hok : ∀ id, (F id).Ok W) {id : Int}
    {p : Payload} {addr : A} {u w : Buffer} {t : Buffer × Buffer × List Message}
    (hop : req.op = .dowrite id p) (hclose : r.server.deferedClose = [])
    (hactive : r.server.active id = true) (hu : r.server.unAckedMsgBuffer id = some u)
    (hw : r.server.writeBuffer id = some w)
    (ht : sendOrQueue W u w (newData id ((r.server.seqNum id).getD 0 + 1) p) = t) :
    Moved W r F req { r.server with
        seqNum := mapSet r.server.seqNum id ((r.server.seqNum id).getD 0 + 1)
        unAckedMsgBuffer := mapSet r.server.unAckedMsgBuffer id t.1
        writeBuffer := mapSet r.server.writeBuffer id t.2.1 }
      (t.2.2.map (.send addr) ++ [.reply req.replyc ⟨.nil, none⟩]) := by
  obtain ⟨hlost, hused⟩ := h.used (not_gone_of_unAcked hu)
  have hc := h.conn id hlost
  have hseq := hc.seqNum hactive hclose
  have hs := hc.sends
  rw [hu, hw] at hs
  rw [hseq] at ht
  obtain ⟨ls, k, hrun, hs', htr⟩ := hs.sendOrQueue hW (hok id) p ht
  have hout : (t.2.2.map (ServerOut.send addr) ++
      [ServerOut.reply req.replyc ⟨.nil, none⟩]).filterMap ServerOut.datagram = t.2.2.map (addr, ·) := by
    rw [List.filterMap_append, datagram_sends]
    exact List.append_nil _
  refine h.move ⟨ls, hrun⟩ rfl rfl htr hout ?_ ?_ ?_ ?_ hused hlost ?_ (fun hc => hc) rfl
    ?_ ?_
  · simp [ServerRun.newlyWritten, hop, hc.written]
  · simp [ServerRun.newlyAcked, hop, hc.acked]
  · simp only [mapSet, Function.update_self, Option.getD_some]
    exact hs'
  · intro _ _
    simp [mapSet, hseq]
  · intro id' hid
    exact ⟨Function.update_of_ne hid .., Function.update_of_ne hid ..,
      Function.update_of_ne hid .., rfl⟩
  · intro id' hid
    refine serverWritten_nil fun p' hop' => ?_
    rw [hop] at hop'
    cases hop'
    exact absurd rfl hid
  · intro id' hid
    exact serverAcked_nil fun a msg hop' => by rw [hop] at hop'; cases hop'

/-- An ack for the connection, which may be its last event. -/
theorem ServerSends.ack (h : ServerSends W r F) (hW : 1 ≤ W) (hok : ∀ id, (F id).Ok W) {addr : A}
    {msg : Message} {u w : Buffer} {t : Bool × Buffer × Buffer × List Message}
    (hop : req.op = .receivemsg addr msg) (htype : msg.type = .ack)
    (hid : r.server.connIdOf addr > 0)
    (hu : r.server.unAckedMsgBuffer (r.server.connIdOf addr) = some u)
    (hw : (r.server.writeBuffer (r.server.connIdOf addr)).getD .newBuffer = w)
    (ht : ackReceived W u w msg.seqNum = some t)
    (hunAcked : (s.unAckedMsgBuffer (r.server.connIdOf addr)).getD .newBuffer = t.2.1)
    (hwrite : (s.writeBuffer (r.server.connIdOf addr)).getD .newBuffer = t.2.2.1 ∨
      t.2.1.l = [] ∧ s.writeBuffer (r.server.connIdOf addr) = none)
    (hsame : s.seqNum (r.server.connIdOf addr) = r.server.seqNum (r.server.connIdOf addr) ∨
      r.server.active (r.server.connIdOf addr) = false ∨ r.server.deferedClose ≠ [])
    (hothers : ∀ id', id' ≠ r.server.connIdOf addr →
      s.unAckedMsgBuffer id' = r.server.unAckedMsgBuffer id' ∧
      s.writeBuffer id' = r.server.writeBuffer id' ∧ s.seqNum id' = r.server.seqNum id')
    (hactive : s.activeConn = r.server.activeConn)
    (hclose : s.deferedClose = [] → r.server.deferedClose = [])
    (hconn : s.connId = r.server.connId)
    (hout : out = t.2.2.2.map (.send addr)) : Moved W r F req s out := by
  obtain ⟨hlost, hused⟩ := h.used (not_gone_of_unAcked hu)
  have hc := h.conn _ hlost
  have hs := hc.sends
  rw [hu, hw] at hs
  obtain ⟨ls, k, hrun, hs', htr⟩ := hs.ackReceived hW (hok _) msg.seqNum ht
  subst hout
  refine h.move ⟨ls, hrun⟩ rfl rfl htr (datagram_sends _ _) ?_ ?_ ?_ ?_
    hused hlost ?_ hclose hconn ?_ ?_
  · simp [ServerRun.newlyWritten, hop, hc.written]
  · exact (hc.newlyAcked_eq (hok _) hop htype rfl hid).symm
  · rw [hunAcked]
    rcases hwrite with hwrite | ⟨hnil, hnone⟩
    · rw [hwrite]
      exact hs'
    · -- nothing waits while nothing is outstanding
      have hwnil : t.2.2.1.l = [] := by
        by_contra hne
        obtain ⟨m, hm, -⟩ := hs'.full hne
        rw [Buffer.front, hnil] at hm
        cases hm
      rw [hnone]
      have hnew : t.2.2.1 = .newBuffer := Buffer.ext hwnil
      rw [← hnew]
      exact hs'
  · intro ha hcl
    have ha' : r.server.active (r.server.connIdOf addr) = true := by
      unfold Server.active at ha ⊢
      rw [← hactive]
      exact ha
    rcases hsame with hsame | hinactive | hclosing
    · rw [hsame]
      exact hc.seqNum ha' (hclose hcl)
    · rw [hinactive] at ha'
      cases ha'
    · exact absurd (hclose hcl) hclosing
  · intro id' hid'
    obtain ⟨h1, h2, h3⟩ := hothers id' hid'
    exact ⟨h1, h2, h3, congrFun hactive id'⟩
  · intro id' _
    exact serverWritten_nil fun p hop' => by rw [hop] at hop'; cases hop'
  · intro id' hid'
    refine serverAcked_nil fun a m hop' _ _ he => ?_
    rw [hop] at hop'
    cases hop'
    exact hid' he.symm

/-- An event that moves no connection: the buffers of those that are not lost
are as they were, or empty before and after. -/
theorem ServerSends.stay (h : ServerSends W r F)
    (hlive : ∀ id, id ∉ out.filterMap ServerOut.lost → r.lost id = false →
      (s.unAckedMsgBuffer id).getD .newBuffer = (r.server.unAckedMsgBuffer id).getD .newBuffer ∧
      (s.writeBuffer id).getD .newBuffer = (r.server.writeBuffer id).getD .newBuffer ∧
      (s.active id = true → s.deferedClose = [] →
        (s.seqNum id).getD 0 = (F id).written.length))
    (hconn : r.server.connId ≤ s.connId)
    (hwritten : ∀ id, ServerRun.newlyWritten id req out = [])
    (hacked : ∀ id, r.newlyAcked id req = [])
    (hdata : ∀ a m, (a, m) ∈ out.filterMap ServerOut.datagram →
      (∃ id, m ∈ transmitted id (F id)) ∨ (m.type = .ack ∧ ¬Unused s m.connID)) :
    Follows W r F req s out := by
  constructor
  rotate_left
  · intro x hx hty
    rcases hdata x.1 x.2 hx with ⟨id, hm⟩ | ⟨-, hused⟩
    · exact absurd (transmitted_data hm).1 hty
    · exact hused
  intro id hlost
  simp only [ServerRun.record, Bool.or_eq_false_iff, decide_eq_false_iff_not] at hlost
  obtain ⟨hu, hw, hs⟩ := hlive id hlost.2 hlost.1
  refine (h.conn id hlost.1).idle hu hw hs hconn (hwritten id) (hacked id) ?_
  intro a m hm hty hc
  rcases hdata a m hm with ⟨id', hm'⟩ | ⟨hack, -⟩
  · have hid : id' = id := (transmitted_data hm').2.symm.trans hc
    rw [← hid]
    exact hm'
  · rw [hack] at hty
    cases hty

theorem ServerSends.opened_stay (h : ServerSends W r F) {addr : A} {msg : Message}
    (hop : req.op = .receivemsg addr msg) (htype : msg.type = .connect)
    (hclose : r.server.deferedClose = []) (hnew : r.server.connIdOf addr = 0) :
    Follows W r F req (r.server.handleConnect addr).1
      [.send addr (newAck (r.server.connId + 1) 0)] := by
  unfold Server.handleConnect
  rw [if_pos ⟨List.length_eq_zero_iff.mpr hclose, hnew⟩]
  refine h.stay (fun id _ hlost => ?_) (by simp only; omega) (fun id => ?_) (fun id => ?_) ?_
  · have hc := h.conn id hlost
    simp only [mapSet, Function.update_apply, Server.active]
    by_cases hid : id = r.server.connId + 1
    · have hun : Unused r.server id := .inr (by omega)
      have hg := (h.fresh id hun).1
      simp only [hid, if_true, Option.getD_some] at hg ⊢
      rw [hg.unAcked, hg.write, ← hid, hc.unused hun]
      exact ⟨rfl, rfl, fun _ _ => rfl⟩
    · simp only [if_neg hid, true_and]
      exact hc.seqNum
  · exact serverWritten_nil fun p hop' => by rw [hop] at hop'; cases hop'
  · exact serverAcked_nil_of_type hop (by simp [htype])
  · intro a m hm
    simp only [List.filterMap_cons, ServerOut.datagram, List.filterMap_nil,
      List.mem_singleton, Prod.mk.injEq] at hm
    rw [hm.2]
    refine .inr ⟨rfl, ?_⟩
    have := h.nonneg
    simp only [Unused, newAck]
    omega

theorem ServerSends.closeConn_stay (h : ServerSends W r F) {id : Int}
    (hop : req.op = .docloseconn id) (hcloses : Closes r.server id s) (hout : Silent out) :
    Follows W r F req s out := by
  refine h.stay (fun id' _ hlost => ?_) (le_of_eq hcloses.connId.symm) (fun id' => ?_)
    (fun id' => ?_) ?_
  · have hc := h.conn id' hlost
    by_cases hid : id' = id
    · subst hid
      have hdone : ¬s.active id' = true := by
        simp [Server.active, hcloses.inactive]
      rcases hcloses.sending with ⟨hu, hw⟩ | ⟨hu, hw, u, w, hu', hw', hunil, hwnil⟩
      · exact ⟨by rw [hu], by rw [hw], fun ha => absurd ha hdone⟩
      · rw [hu, hw, hu', hw']
        exact ⟨(Buffer.ext hunil).symm, (Buffer.ext hwnil).symm, fun ha => absurd ha hdone⟩
    · have hk := hcloses.others id' hid
      refine ⟨by rw [hk.unAcked], by rw [hk.write], fun ha hcl => ?_⟩
      rw [hk.seqNum]
      refine hc.seqNum ?_ (hcloses.closing.symm.trans hcl)
      rw [Server.active, ← hk.active]
      exact ha
  · exact serverWritten_nil fun p hop' => by rw [hop] at hop'; cases hop'
  · exact serverAcked_nil fun a m hop' => by rw [hop] at hop'; cases hop'
  · simp [hout.datagram]

/-- An epoch repeats acks and unacknowledged messages. -/
theorem ServerSends.epoch_stay (h : ServerSends W r F) {s₁ : Server A} {lost : List Int}
    {out₁ out₂ out₃ : List (ServerOut A)} (hop : req.op = .epochtimer)
    (hdrops : Drops r.server lost s₁) (hlost : LostOut out₁ lost) (hsent : Resent s₁ out₂)
    (hsame : SameConns s₁ s) (hout : Silent out₃) :
    Follows W r F req s (out₁ ++ out₂ ++ out₃) := by
  have hconn : s.connId = r.server.connId := hsame.connId.trans hdrops.connId
  have hlosts : (out₁ ++ out₂ ++ out₃).filterMap ServerOut.lost = lost := by
    rw [List.filterMap_append, List.filterMap_append, hlost.lost, hsent.lost, hout.lost,
      List.append_nil, List.append_nil]
  refine h.stay (fun id hid hl => ?_) (le_of_eq hconn.symm) (fun id => ?_) (fun id => ?_) ?_
  · rw [hlosts] at hid
    have hk := (hsame.conn id).trans (hdrops.kept id hid)
    refine ⟨by rw [hk.unAcked], by rw [hk.write], fun ha hcl => ?_⟩
    rw [hk.seqNum]
    refine (h.conn id hl).seqNum ?_ (hdrops.closing.symm.trans (hsame.closing hcl))
    rw [Server.active, ← hk.active]
    exact ha
  · exact serverWritten_nil fun p hop' => by rw [hop] at hop'; cases hop'
  · exact serverAcked_nil fun a m hop' => by rw [hop] at hop'; cases hop'
  · intro a m hm
    rw [List.filterMap_append, List.filterMap_append, hlost.datagram, hout.datagram,
      List.nil_append, List.append_nil] at hm
    obtain ⟨o, ho, hom⟩ := List.mem_filterMap.mp hm
    obtain ⟨a', m', id, rfl, -, hfrom⟩ := hsent o ho
    cases hom
    -- a connection that is lost has nothing left to repeat
    have hkept : ¬Gone s₁ id → id ∉ lost := fun hg hid => hg (hdrops.gone id hid)
    rcases hfrom with ⟨b, hb, hmem⟩ | ⟨b, hb, hmem⟩
    · rw [(hdrops.kept id (hkept (not_gone_of_unAcked hb))).unAcked] at hb
      exact .inl ⟨id, h.unAcked_transmitted hb hmem⟩
    · rw [(hdrops.kept id (hkept (not_gone_of_latestAck hb))).latestAck] at hb
      have hused := (h.used (not_gone_of_latestAck hb)).2
      unfold Unused at hused ⊢
      rw [hconn]
      rcases hmem with hmem | rfl
      · obtain ⟨hty, hid⟩ := h.acks id b hb m hmem
        exact .inr ⟨hty, hid ▸ hused⟩
      · exact .inr ⟨rfl, hused⟩

/-- An event that leaves all sending halves alone. -/
theorem ServerSends.quiet_stay (h : ServerSends W r F) (hsame : SameSending r.server s)
    (hwritten : ∀ id, ServerRun.newlyWritten id req out = [])
    (hacked : ∀ id, r.newlyAcked id req = [])
    (hdata : ∀ a m, (a, m) ∈ out.filterMap ServerOut.datagram →
      m.type = .ack ∧ ¬Unused s m.connID) :
    Follows W r F req s out := by
  refine h.stay (fun id _ hl => ?_) (le_of_eq hsame.connId.symm) hwritten hacked
    (fun a m hm => .inr (hdata a m hm))
  rw [Server.active, hsame.unAcked, hsame.write, hsame.seqNum, hsame.active]
  exact ⟨rfl, rfl, fun ha hcl => (h.conn id hl).seqNum ha (hsame.closing hcl)⟩

/-- Whatever the event, at most one connection sends along its flow. -/
theorem ServerSends.moves (hW : 1 ≤ P.windowSize) (h : ServerSends P.windowSize r F)
    (hok : ∀ id, (F id).Ok P.windowSize) (heff : ServerEffect P r.server req s out) :
    Follows P.windowSize r F req s out ∨ Moved P.windowSize r F req s out := by
  cases heff with
  | quiet hsame hout hpass =>
    refine .inl (h.quiet_stay hsame.toSameSending (fun id => ?_) (fun id => ?_) ?_)
    · exact serverWritten_nil fun p hop => hpass.reject id p hop
    · refine serverAcked_nil fun a msg hop htype hpos he => ?_
      have := hpass.noAck a msg hop htype
      omega
    · rw [hout.datagram]
      nofun
  | read hop heff =>
    refine .inl (h.quiet_stay heff.sameSending (fun id => ?_) (fun id => ?_) ?_)
    · exact serverWritten_nil fun p hop' => by rw [hop] at hop'; cases hop'
    · exact serverAcked_nil fun a m hop' => by rw [hop] at hop'; cases hop'
    · rw [heff.out.1]
      nofun
  | write hop hclose hactive haddr hu hw hr =>
    exact .inr (h.write hW hok hop hclose hactive hu hw hr)
  | closeConn hop hactive hcloses hout => exact .inl (h.closeConn_stay hop hcloses hout)
  | epoch hop hdrops hlost hsent hsame hout =>
    exact .inl (h.epoch_stay hop hdrops hlost hsent hsame hout)
  | opened hop htype hclose hnew => exact .inl (h.opened_stay hop htype hclose hnew)
  | ackMissed hop htype hid hu hmiss hsame =>
    refine .inr (h.ack hW hok hop htype hid hu rfl (ackReceived_missed hmiss) ?_ (.inl ?_) (.inl ?_)
      (fun id' _ => ?_) hsame.active hsame.closing hsame.connId rfl)
    · rw [hsame.unAcked, hu]
      rfl
    · rw [hsame.write]
    · rw [hsame.seqNum]
    · rw [hsame.unAcked, hsame.write, hsame.seqNum]
      exact ⟨rfl, rfl, rfl⟩
  | ack hop htype hid hu hw hr hsame =>
    refine .inr (h.ack hW hok hop htype hid hu (by rw [hw]; rfl) hr ?_ (.inl ?_) (.inl ?_)
      (fun id' hid' => ?_) hsame.active hsame.closing hsame.connId rfl)
    · rw [hsame.unAcked]
      simp only [mapSet, Function.update_self, Option.getD_some]
    · rw [hsame.write]
      simp only [mapSet, Function.update_self, Option.getD_some]
    · rw [hsame.seqNum]
    · rw [hsame.unAcked, hsame.write, hsame.seqNum]
      exact ⟨Function.update_of_ne hid' .., Function.update_of_ne hid' .., rfl⟩
  | lastAck hop htype hid hu hw hr hnil hclosed hsame =>
    refine .inr (h.ack hW hok hop htype hid hu (by rw [hw]; rfl) hr ?_ (.inr ⟨hnil, ?_⟩)
      (.inr hclosed) (fun id' hid' => ?_) hsame.active hsame.closing hsame.connId rfl)
    · rw [hsame.unAcked]
      simp only [Server.cleanUp, mapDelete, Function.update_self, Option.getD_none]
      exact (Buffer.ext hnil).symm
    · rw [hsame.write]
      exact Function.update_self ..
    · rw [hsame.unAcked, hsame.write, hsame.seqNum]
      exact ⟨Function.update_of_ne hid' .., Function.update_of_ne hid' ..,
        Function.update_of_ne hid' ..⟩
  | data hop htype hid hge hrb hlab hr hsame heff =>
    have hsending := heff.sameSending
    refine .inl (h.quiet_stay ⟨hsending.unAcked.trans hsame.unAcked,
      hsending.write.trans hsame.write, hsending.seqNum.trans hsame.seqNum,
      hsending.active.trans hsame.active, hsending.connId.trans hsame.connId,
      fun hcl => hsame.closing (hsending.closing hcl)⟩ (fun id => ?_) (fun id => ?_) ?_)
    · exact serverWritten_nil fun p hop' => by rw [hop] at hop'; cases hop'
    · exact serverAcked_nil_of_type hop (by simp [htype])
    · intro a m hm
      rw [List.filterMap_cons, heff.out.1] at hm
      simp only [ServerOut.datagram, List.mem_singleton, Prod.mk.injEq] at hm
      have hused := (h.used (not_gone_of_latestAck hlab)).2
      rw [hm.2]
      unfold Unused at hused ⊢
      rw [hsending.connId, hsame.connId]
      exact ⟨rfl, hused⟩

end Step

/-- Whatever arrives, the sending half of every connection that is not lost
follows a flow. -/
theorem ServerSends.step {r r' : ServerRun A} {F : Int → Flow Payload} {req : ServerReq A}
    (hW : 1 ≤ P.windowSize) (h : ServerSends P.windowSize r F)
    (hok : ∀ id, (F id).Ok P.windowSize) (hst : r.step P req = some r') :
    ∃ F', (∀ id, Advances P.windowSize id (F id) (F' id)) ∧ ServerSends P.windowSize r' F' := by
  obtain ⟨s, out, rfl, heff⟩ := ServerRun.step_cases hst
  have hrest : ∀ F', Follows P.windowSize r F' req s out →
      ServerSends P.windowSize (r.record req s out) F' := by
    intro F' hF
    refine ⟨hF.conn, fun id => h.gone_step heff, le_trans h.nonneg (connId_mono heff),
      fun id => h.fresh_step heff, acks_step h.acks heff, fun x hx hty => ?_⟩
    rcases List.mem_append.mp hx with hx | hx
    · have hused := h.netAcks x hx hty
      exact fun hun => hused (hun.imp_right (lt_of_le_of_lt (connId_mono heff)))
    · exact hF.netAcks x hx hty
  rcases h.moves hW hok heff with hstay | ⟨id, f, hadv, hmove⟩
  · exact ⟨F, fun id => .refl _ _ _, hrest F hstay⟩
  · refine ⟨Function.update F id f, fun id' => ?_, hrest _ hmove⟩
    by_cases hid : id' = id
    · subst hid
      rw [Function.update_self]
      exact hadv
    · rw [Function.update_of_ne hid]
      exact .refl _ _ _

end Event

end Cmu440.Lsp
