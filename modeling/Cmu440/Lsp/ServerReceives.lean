import Cmu440.Lsp.ServerSends

/-!
# The receiving halves of the server

While a connection of the server is open, its receiving half follows the flow
of the peer, provided the data that reaches it on this connection was sent by
the peer (`ConnReceives.step`). A data message and the read it wakes up are one
event of the server and two steps of the flow.
-/
namespace Cmu440.Lsp

variable {A : Type}

/-! ## Reading -/

/-- The connection is open and the server is not closing, or the id has still
to be handed out. -/
def Live (s : Server A) (id : Int) : Prop :=
  (s.active id = true ∧ s.deferedClose = []) ∨ s.connId < id

/-- The receiving half of the connection is the receiving end of `f`. -/
structure Receiving (W : Int) (s : Server A) (id : Int) (f : Flow Payload) : Prop where
  receives : Receives W id f ((s.readBuffer id).getD .newBuffer)
    ((s.latestAckBuffer id).getD .newBuffer) ((s.expectedSeqNum id).getD 1)
  present : s.active id = true → (s.latestAckBuffer id).isSome ∧ (s.expectedSeqNum id).isSome
  unopened : s.connId < id → s.readBuffer id = none ∧ s.expectedSeqNum id = none

theorem receiving_init (W id : Int) : Receiving W (.newServer : Server A) id .empty where
  receives := receives_empty W id
  present := nofun
  unopened _ := ⟨rfl, rfl⟩

section Receiving

variable {W : Int} {s s' : Server A} {id : Int} {f : Flow Payload}

theorem Receiving.same (h : Receiving W s id f) (hread : s'.readBuffer id = s.readBuffer id)
    (hlatest : s'.latestAckBuffer id = s.latestAckBuffer id)
    (hexp : s'.expectedSeqNum id = s.expectedSeqNum id)
    (hactive : s'.activeConn id = s.activeConn id) (hconn : s.connId ≤ s'.connId) :
    Receiving W s' id f where
  receives := by
    rw [hread, hlatest, hexp]
    exact h.receives
  present ha := by
    rw [hlatest, hexp]
    refine h.present ?_
    unfold Server.active at ha ⊢
    rw [← hactive]
    exact ha
  unopened hlt := by
    rw [hread, hexp]
    exact h.unopened (lt_of_le_of_lt hconn hlt)

/-- Where something can be read, the connection has an `expectedSeqNum`. -/
theorem Receiving.expected_eq (h : Receiving W s id f) (hlive : Live s id) {rb : Buffer}
    (hrb : s.readBuffer id = some rb) : s.expectedSeqNum id = some (s.expected id) := by
  rcases hlive with ⟨hactive, -⟩ | hlt
  · obtain ⟨e, he⟩ := Option.isSome_iff_exists.mp (h.present hactive).2
    rw [Server.expected, he]
    rfl
  · rw [(h.unopened hlt).1] at hrb
    cases hrb

/-- `e` is passed from `s` to `s'`, and it was accepted. -/
def Passed (s s' : Server A) (id : Int) (f : Flow Payload) : Prop :=
  ∀ e e', s.expectedSeqNum id = some e → s'.expectedSeqNum id = some e' → e < e' → e ∈ f.accepted

theorem passed_same (h : s'.expectedSeqNum id = s.expectedSeqNum id) : Passed s s' id f := by
  intro e e' he he' hlt
  rw [h, he] at he'
  cases he'
  exact absurd hlt (lt_irrefl _)

theorem live_of_same (hs : SameSending s s') (h : Live s' id) : Live s id := by
  rcases h with ⟨ha, hc⟩ | hlt
  · refine .inl ⟨?_, hs.closing hc⟩
    unfold Server.active at ha ⊢
    rw [← hs.active]
    exact ha
  · exact .inr (hs.connId ▸ hlt)

/-- A read, on a connection that is still open after it. -/
theorem Receiving.read (h : Receiving W s id f) {out : List (ServerOut A)}
    (heff : ReadEffect s s' out) (hlive : Live s' id) :
    ∃ f', Absorbs f f' ∧ Receiving W s' id f' ∧ f'.accepted = f.accepted ∧
      f'.returned = f.returned ++ out.filterMap (ServerOut.payload id) ∧ Passed s s' id f' := by
  have hlive' : Live s id := live_of_same heff.sameSending hlive
  cases heff with
  | quiet hsame hout =>
    have hk := hsame.conn id
    refine ⟨f, .refl f, h.same hk.read hk.latestAck hk.expected hk.active (le_of_eq hsame.connId.symm),
      rfl, ?_, passed_same hk.expected⟩
    rw [hout.payload, List.append_nil]
  | deliver hrb hm hexp =>
    rename_i id' rb rb' m replyc
    by_cases hid : id = id'
    · subst hid
      have hexp' := h.expected_eq hlive' hrb
      have hrec := h.receives
      rw [hrb, hexp'] at hrec
      obtain ⟨habs, hrec'⟩ := hrec.deliver hm hexp
      refine ⟨_, habs, ⟨?_, ?_, ?_⟩, rfl, ?_, ?_⟩
      · simp only [mapSet, Function.update_self, Option.getD_some]
        exact hrec'
      · intro ha
        refine ⟨(h.present ha).1, ?_⟩
        simp only [mapSet, Function.update_self, Option.isSome_some]
      · intro hlt
        rw [(h.unopened hlt).1] at hrb
        cases hrb
      · simp [ServerOut.payload]
      · intro e e' he _ _
        -- the number passed is that of the message returned
        rw [hexp', Option.some.injEq] at he
        rw [← he, ← hexp]
        refine hrec.read_accepted m ?_
        simp only [Option.getD_some, Buffer.remove_eq_some.mp hm]
        exact List.mem_cons_self
    · refine ⟨f, .refl f, h.same (Function.update_of_ne hid ..) rfl
        (Function.update_of_ne hid ..) rfl (le_refl _), rfl, ?_,
        passed_same (Function.update_of_ne hid ..)⟩
      simp [ServerOut.payload, Ne.symm hid]
  | forget hidle =>
    rename_i id' replyc text
    -- only a connection that is not open is forgotten
    have hkeep : mapDelete s.readBuffer id' id = s.readBuffer id ∧
        mapDelete s.expectedSeqNum id' id = s.expectedSeqNum id := by
      by_cases hid : id = id'
      · subst hid
        rcases hlive' with ⟨hactive, -⟩ | hlt
        · rw [hidle] at hactive
          cases hactive
        · obtain ⟨h1, h2⟩ := h.unopened hlt
          rw [h1, h2]
          exact ⟨Function.update_self .., Function.update_self ..⟩
      · exact ⟨Function.update_of_ne hid .., Function.update_of_ne hid ..⟩
    refine ⟨f, .refl f, h.same hkeep.1 rfl hkeep.2 rfl (le_refl _), rfl, ?_, passed_same hkeep.2⟩
    simp [ServerOut.payload]

end Receiving

/-! ## One event -/

/-- What the server has accepted and returned on the connection is the
receiving end of `f`. -/
structure ConnReceives (W : Int) (r : ServerRun A) (id : Int) (f : Flow Payload) : Prop where
  returned : f.returned = r.returned id
  accepted : ∀ q ∈ r.accepted id, q ∈ f.accepted
  receiving : Receiving W r.server id f

theorem connReceives_init (W id : Int) : ConnReceives W (.init : ServerRun A) id .empty :=
  ⟨rfl, nofun, receiving_init W id⟩

section Event

variable [DecidableEq A] {W : Int} {r : ServerRun A} {id : Int} {f : Flow Payload}

omit [DecidableEq A] in
theorem ConnReceives.advance (h : ConnReceives W r id f) {W' : Int} {f' : Flow Payload}
    (hadv : Advances W' id f f') : ConnReceives W r id f' where
  returned := hadv.returned.trans h.returned
  accepted := hadv.accepted ▸ h.accepted
  receiving := ⟨h.receiving.receives.advance hadv, h.receiving.present, h.receiving.unopened⟩

theorem ConnReceives.next (h : ConnReceives W r id f) {req : ServerReq A} {s : Server A}
    {out : List (ServerOut A)} {f' : Flow Payload} (hrec : Receiving W s id f')
    (hret : f'.returned = f.returned ++ out.filterMap (ServerOut.payload id))
    (hacc : ∀ q ∈ f.accepted, q ∈ f'.accepted) (hpass : Passed r.server s id f') :
    ConnReceives W (r.record req s out) id f' where
  returned := by
    rw [hret, h.returned]
    rfl
  accepted q hq := by
    simp only [ServerRun.record, List.mem_append] at hq
    rcases hq with hq | hq
    · unfold ServerRun.newlyAccepted at hq
      rcases List.mem_append.mp hq with hq | hq
      · obtain ⟨m, hm, rfl⟩ := List.mem_map.mp hq
        exact hrec.receives.read_accepted m hm
      · split at hq
        · rename_i e e' he he'
          split at hq
          · rename_i hlt
            rw [List.mem_singleton.mp hq]
            exact hpass e e' he he' hlt
          · cases hq
        · cases hq
    · exact hacc q (h.accepted q hq)
  receiving := hrec

/-- An event that leaves the receiving half as it is. -/
theorem ConnReceives.idle (h : ConnReceives W r id f) {req : ServerReq A} {s : Server A}
    {out : List (ServerOut A)} (hrec : Receiving W s id f)
    (hexp : s.expectedSeqNum id = r.server.expectedSeqNum id)
    (hout : out.filterMap (ServerOut.payload id) = []) :
    ConnReceives W (r.record req s out) id f :=
  h.next hrec (by rw [hout, List.append_nil]) (fun _ hq => hq) (passed_same hexp)

variable {P : Params}

theorem ConnReceives.opened (h : ConnReceives W r id f) {req : ServerReq A} {addr : A}
    (hfresh : r.server.connId < id → Gone r.server id)
    (hclose : r.server.deferedClose = []) (hnew : r.server.connIdOf addr = 0) :
    ConnReceives W (r.record req (r.server.handleConnect addr).1
      [.send addr (newAck (r.server.connId + 1) 0)]) id f := by
  unfold Server.handleConnect
  rw [if_pos ⟨List.length_eq_zero_iff.mpr hclose, hnew⟩]
  by_cases hid : id = r.server.connId + 1
  · -- the new buffers are empty, as the absent ones were
    have hlt : r.server.connId < id := by omega
    obtain ⟨hread, hexp⟩ := h.receiving.unopened hlt
    have hrec := h.receiving.receives
    rw [hread, hexp, (hfresh hlt).latestAck] at hrec
    refine h.next ⟨?_, fun _ => ?_, fun hlt' => ?_⟩ (List.append_nil _).symm (fun _ hq => hq) ?_
    · simp only [mapSet, hid, Function.update_self, Option.getD_some]
      rw [← hid]
      exact hrec
    · simp only [mapSet, hid, Function.update_self, Option.isSome_some, and_self]
    · simp only at hlt'
      omega
    · intro e e' he _ _
      rw [hexp] at he
      cases he
  · refine h.idle (h.receiving.same (Function.update_of_ne hid ..) (Function.update_of_ne hid ..)
      (Function.update_of_ne hid ..) (Function.update_of_ne hid ..) ?_)
      (Function.update_of_ne hid ..) rfl
    simp only
    omega

/-- A data message, which may wake up a read. -/
theorem ConnReceives.data (h : ConnReceives P.windowSize r id f) {req : ServerReq A} {addr : A}
    {msg : Message} {rb lab : Buffer} {t : Buffer × Buffer} {s₁ s : Server A}
    {out : List (ServerOut A)} (hlive : Live s id)
    (hpeer : r.server.connIdOf addr = id → msg ∈ transmitted id f)
    (hge : msg.seqNum ≥ r.server.expected (r.server.connIdOf addr))
    (hrb : r.server.readBuffer (r.server.connIdOf addr) = some rb)
    (hlab : r.server.latestAckBuffer (r.server.connIdOf addr) = some lab)
    (ht : acceptData P.windowSize (r.server.connIdOf addr) rb lab msg = some t)
    (hsame : SameConns { r.server with
        readBuffer := mapSet r.server.readBuffer (r.server.connIdOf addr) t.1
        latestAckBuffer := mapSet r.server.latestAckBuffer (r.server.connIdOf addr) t.2 } s₁)
    (heff : ReadEffect s₁ s out) :
    ∃ f', Absorbs f f' ∧ ConnReceives P.windowSize (r.record req s
      (.send addr (newAck (r.server.connIdOf addr) msg.seqNum) :: out)) id f' := by
  have hk := hsame.conn id
  have hlive₁ : Live s₁ id := live_of_same heff.sameSending hlive
  have hlive₀ : Live r.server id := live_of_same ⟨hsame.unAcked, hsame.write, hsame.seqNum,
    hsame.active, hsame.connId, hsame.closing⟩ hlive₁
  -- the message is accepted
  have haccept : ∃ f₁, Absorbs f f₁ ∧ Receiving P.windowSize s₁ id f₁ ∧
      f₁.returned = f.returned ∧ ∀ q ∈ f.accepted, q ∈ f₁.accepted := by
    by_cases hid : id = r.server.connIdOf addr
    · rw [← hid] at hge hrb hlab ht
      have hexp := h.receiving.expected_eq hlive₀ hrb
      have hrec := h.receiving.receives
      rw [hrb, hlab, hexp] at hrec
      obtain ⟨habs, hrec'⟩ := hrec.acceptData (hpeer hid.symm) hge ht
      refine ⟨_, habs, ⟨?_, fun _ => ?_, fun hlt => ?_⟩, rfl, fun q hq => List.mem_cons_of_mem _ hq⟩
      · rw [hk.read, hk.latestAck, hk.expected]
        simp only [mapSet, ← hid, Function.update_self, Option.getD_some, hexp]
        exact hrec'
      · rw [hk.latestAck, hk.expected]
        simp only [mapSet, ← hid, Function.update_self, Option.isSome_some, hexp, and_self]
      · rw [(h.receiving.unopened (hsame.connId ▸ hlt)).1] at hrb
        cases hrb
    · exact ⟨f, .refl f, h.receiving.same (hk.read.trans (Function.update_of_ne hid ..))
        (hk.latestAck.trans (Function.update_of_ne hid ..)) hk.expected hk.active
        (le_of_eq hsame.connId.symm), rfl, fun _ hq => hq⟩
  obtain ⟨f₁, habs, hrec, hret, hacc⟩ := haccept
  obtain ⟨f', habs', hrec', hacc', hret', hpass⟩ := hrec.read heff hlive
  refine ⟨f', habs.trans habs', h.next hrec' ?_ (fun q hq => hacc' ▸ hacc q hq) ?_⟩
  · rw [hret', hret]
    rfl
  · intro e e' he
    exact hpass e e' (hk.expected.trans he)

/-- On data from the peer, the receiving half of an open connection follows the
peer's flow. -/
theorem ConnReceives.step {r' : ServerRun A} {req : ServerReq A}
    (h : ConnReceives P.windowSize r id f)
    (hfresh : r.server.connId < id → Gone r.server id ∧ r.server.connIdHostportMap id = none)
    (hpeer : ∀ addr msg, req.op = .receivemsg addr msg → r.server.connIdOf addr = id →
      msg.type = .data → msg ∈ transmitted id f)
    (hst : r.step P req = some r') (hlive : Live r'.server id) :
    ∃ f', Absorbs f f' ∧ ConnReceives P.windowSize r' id f' := by
  obtain ⟨s, out, rfl, heff⟩ := ServerRun.step_cases hst
  have hmono := connId_mono heff
  -- an id that is not open at the end, and known, has not just been given up
  have hnot : s.activeConn id = none → s.connId < id := by
    intro hnone
    rcases hlive with ⟨ha, -⟩ | hlt
    · simp [ServerRun.record, Server.active, hnone] at ha
    · exact hlt
  cases heff with
  | quiet hsame hout hpass =>
    have hk := hsame.conn id
    exact ⟨f, .refl f, h.idle (h.receiving.same hk.read hk.latestAck hk.expected hk.active hmono)
      hk.expected (hout.payload id)⟩
  | read hop heff =>
    obtain ⟨f', habs, hrec, hacc, hret, hpass⟩ := h.receiving.read heff hlive
    exact ⟨f', habs, h.next hrec hret (fun q hq => hacc ▸ hq) hpass⟩
  | write hop hclose hactive haddr hu hw hr =>
    refine ⟨f, .refl f, h.idle (h.receiving.same rfl rfl rfl rfl (le_refl _)) rfl ?_⟩
    rw [List.filterMap_append, payload_sends]
    rfl
  | closeConn hop hactive hcloses hout =>
    rename_i id'
    have hne : id ≠ id' := by
      rintro rfl
      have hg := (hfresh (hcloses.connId ▸ hnot hcloses.inactive)).1
      simp [Server.active, hg.active] at hactive
    have hk := hcloses.others id hne
    exact ⟨f, .refl f, h.idle (h.receiving.same hk.read hk.latestAck hk.expected hk.active hmono)
      hk.expected (hout.payload id)⟩
  | epoch hop hdrops hlost hsent hsame hout =>
    rename_i s₁ lost out₁ out₂ out₃
    have hkept : id ∉ lost := by
      intro hmem
      have hlt := hnot (((hdrops.gone id hmem).same (hsame.conn id)).active)
      exact hdrops.known id hmem (hfresh (lt_of_le_of_lt hmono hlt)).2
    have hk := (hsame.conn id).trans (hdrops.kept id hkept)
    refine ⟨f, .refl f, h.idle (h.receiving.same hk.read hk.latestAck hk.expected hk.active hmono)
      hk.expected ?_⟩
    rw [List.filterMap_append, List.filterMap_append, hlost.payload, hsent.payload, hout.payload]
    rfl
  | opened hop htype hclose hnew =>
    exact ⟨f, .refl f, h.opened (fun hlt => (hfresh hlt).1) hclose hnew⟩
  | ackMissed hop htype hid hu hmiss hsame =>
    have hk := hsame.conn id
    exact ⟨f, .refl f, h.idle (h.receiving.same hk.read hk.latestAck hk.expected hk.active hmono)
      hk.expected rfl⟩
  | ack hop htype hid hu hw hr hsame =>
    have hk := hsame.conn id
    exact ⟨f, .refl f, h.idle (h.receiving.same hk.read hk.latestAck hk.expected hk.active hmono)
      hk.expected (payload_sends _ _ _)⟩
  | lastAck hop htype hid hu hw hr hnil hclosed hsame =>
    rename_i addr msg u w t
    -- the last ack of a closed connection is for another one
    have hne : id ≠ r.server.connIdOf addr := by
      intro he
      rw [← he] at hu hclosed
      rcases hlive with ⟨ha, hc⟩ | hlt
      · rcases hclosed with hclosed | hclosed
        · simp only [ServerRun.record, Server.active, hsame.active] at ha
          rw [Server.active] at hclosed
          rw [show (r.server.cleanUp addr (r.server.connIdOf addr)).activeConn =
            r.server.activeConn from rfl, hclosed] at ha
          cases ha
        · exact hclosed (hsame.closing hc)
      · exact not_gone_of_unAcked hu (hfresh (lt_of_le_of_lt hmono hlt)).1
    have hk := hsame.conn id
    refine ⟨f, .refl f, h.idle (h.receiving.same (hk.read.trans (Function.update_of_ne hne ..))
      (hk.latestAck.trans (Function.update_of_ne hne ..))
      (hk.expected.trans (Function.update_of_ne hne ..)) hk.active hmono)
      (hk.expected.trans (Function.update_of_ne hne ..)) (payload_sends _ _ _)⟩
  | data hop htype hid hge hrb hlab hr hsame heff =>
    exact h.data hlive (fun he => hpeer _ _ hop he htype) hge hrb hlab hr hsame heff

end Event

end Cmu440.Lsp
