import Cmu440.Lsp.ClientRuns
import Cmu440.Lsp.ServerReceives

/-!
# One client and the server

`Link` is a client at the address `addr`, the server, and the network between
them. The network keeps every datagram that was sent; either side may receive
any of them, any number of times and at any time, or never. API calls and
epochs come in any order on both sides, and the two sides may have different
parameters.

`openLink` are the runs in which neither side has closed the connection or has
declared it lost. The connection then has the number 1, and both directions are
flows (`Linked`): one side's sending half moves a flow at its sending end, and
the other side's receiving half at its receiving end.
-/
namespace Cmu440.Lsp

variable {A : Type}

structure Link (A : Type) where
  client : ClientRun
  server : ServerRun A

inductive LinkLbl (A : Type)
  | client (incoming : Option ClientReq)
  | server (req : ServerReq A)

namespace Link

def init : Link A := ⟨.init, .init⟩

variable [DecidableEq A]

/-- What the client receives was sent to it by the server. -/
def clientHears (addr : A) (l : Link A) : Option ClientReq → Bool
  | some ⟨.receivemsg msg, _⟩ => decide ((addr, msg) ∈ l.server.net)
  | _ => true

/-- What the server receives was sent to it by the client. -/
def serverHears (addr : A) (l : Link A) (req : ServerReq A) : Bool :=
  match req.op with
  | .receivemsg a msg => decide (a = addr ∧ msg ∈ l.client.net)
  | _ => true

/-- A step of the client with the parameters `P` or of the server with the
parameters `Q`. -/
def step (P Q : Params) (addr : A) (l : Link A) : LinkLbl A → Option (Link A)
  | .client incoming =>
    if l.clientHears addr incoming then
      (l.client.step P incoming).map fun r => { l with client := r }
    else none
  | .server req =>
    if l.serverHears addr req then (l.server.step Q req).map fun r => { l with server := r }
    else none

end Link

/-! ## Open connections -/

/-- `Close` has not been called and the connection is not declared lost. -/
def Client.isOpen (c : Client) : Bool :=
  c.clientRunning && !c.connLost && decide (c.deferedClose = [])

/-- `Close` and `CloseConn` have not been called and no connection is declared
lost. -/
def Server.isOpen (s : Server A) : Bool :=
  s.serverRunning && decide (s.deferedClose = []) && s.ids.all s.active

def Link.isOpen (l : Link A) : Bool := l.client.client.isOpen && l.server.server.isOpen

/-- The runs of the client with the parameters `P` and the server with the
parameters `Q` in which the connection stays open. -/
def openLink [DecidableEq A] (P Q : Params) (addr : A) : LTS (Link A) (LinkLbl A) :=
  .ofFn (· = .init) fun l a => (l.step P Q addr a).filter Link.isOpen

theorem Server.isOpen_closing {s : Server A} (h : s.isOpen = true) : s.deferedClose = [] := by
  simp only [Server.isOpen, Bool.and_eq_true, decide_eq_true_eq] at h
  exact h.1.2

theorem Server.isOpen_active {s : Server A} (h : s.isOpen = true) {id : Int}
    (hid : ¬Unused s id) : s.active id = true := by
  simp only [Server.isOpen, Bool.and_eq_true] at h
  have hmem : id ∈ s.ids := by
    simp only [Unused, not_or, not_le, not_lt] at hid
    refine List.mem_map.mpr ⟨(id - 1).toNat, List.mem_range.mpr ?_, ?_⟩ <;> omega
  exact List.all_eq_true.mp h.2 id hmem

/-- Nothing has been heard of the client, or it has the connection 1. -/
def Known (addr : A) (s : Server A) : Prop :=
  (s.connId = 0 ∧ s.hostportConnIdMap addr = none) ∨
    (s.connId = 1 ∧ s.hostportConnIdMap addr = some 1 ∧ s.connIdHostportMap 1 = some addr)

theorem Known.same {addr : A} {s s' : Server A} (h : Known addr s) (hconn : s'.connId = s.connId)
    (hhost : s'.hostportConnIdMap = s.hostportConnIdMap)
    (haddr : s'.connIdHostportMap 1 = s.connIdHostportMap 1) : Known addr s' := by
  unfold Known
  rw [hconn, hhost, haddr]
  exact h

theorem Known.connId_le {addr : A} {s : Server A} (h : Known addr s) : s.connId ≤ 1 := by
  rcases h with ⟨hc, -⟩ | ⟨hc, -⟩ <;> omega

theorem Known.eq_one {addr : A} {s : Server A} (h : Known addr s) {id : Int}
    (hid : ¬Unused s id) : id = 1 := by
  have := h.connId_le
  simp only [Unused, not_or, not_le, not_lt] at hid
  omega

theorem live_of_isOpen {s : Server A} (hopen : s.isOpen = true) : Live s 1 := by
  by_cases hun : Unused s 1
  · exact .inr (hun.resolve_left (by omega))
  · exact .inl ⟨Server.isOpen_active hopen hun, Server.isOpen_closing hopen⟩

section Open

variable [DecidableEq A] {W : Int} {P : Params} {r : ServerRun A} {F : Int → Flow Payload}
  {addr : A} {req : ServerReq A} {s : Server A} {out : List (ServerOut A)}

/-- In an event after which all connections are open, none has been closed, lost
or cleaned up. -/
theorem Known.step (hs : ServerSends W r F) (h : Known addr r.server)
    (heff : ServerEffect P r.server req s out)
    (hfrom : ∀ a msg, req.op = .receivemsg a msg → a = addr) (hopen : s.isOpen = true) :
    Known addr s := by
  -- a connection that has something is still open
  have hactive : ∀ {id : Int}, ¬Unused r.server id → s.active id = true := by
    intro id hid
    exact Server.isOpen_active hopen fun hun =>
      hid (hun.imp_right (lt_of_le_of_lt (connId_mono heff)))
  cases heff with
  | quiet hsame | ackMissed _ _ _ _ _ hsame | ack _ _ _ _ _ _ hsame =>
    exact h.same hsame.connId hsame.hostport (congrFun hsame.addr 1)
  | read hop heff =>
    exact h.same heff.sameSending.connId heff.maps.1 (congrFun heff.maps.2 1)
  | write => exact h
  | closeConn hop hact hcloses hout =>
    rename_i id
    have hused : ¬Unused r.server id := by
      intro hun
      simp [Server.active, (hs.fresh id hun).1.active] at hact
    have := hactive hused
    simp [Server.active, hcloses.inactive] at this
  | epoch hop hdrops hlost hsent hsame hout =>
    rename_i s₁ lost out₁ out₂ out₃
    have hnil : lost = [] := by
      refine List.eq_nil_iff_forall_not_mem.mpr fun id hid => ?_
      have hused : ¬Unused r.server id := fun hun => hdrops.known id hid (hs.fresh id hun).2.1
      have := hactive hused
      simp [Server.active, ((hdrops.gone id hid).same (hsame.conn id)).active] at this
    subst hnil
    exact h.same (hsame.connId.trans hdrops.connId) (hsame.hostport.trans (hdrops.hostport rfl))
      ((congrFun hsame.addr 1).trans (hdrops.kept 1 List.not_mem_nil).addr)
  | opened hop htype hclose hnew =>
    have ha := hfrom _ _ hop
    subst ha
    rcases h with ⟨hc, -⟩ | ⟨-, hhost, -⟩
    · unfold Server.handleConnect
      rw [if_pos ⟨List.length_eq_zero_iff.mpr hclose, hnew⟩]
      refine .inr ?_
      simp only [mapSet, hc, zero_add, Function.update_self, and_self]
    · simp [Server.connIdOf, hhost] at hnew
  | lastAck hop htype hid hu hw hr hnil hclosed hsame =>
    exfalso
    rcases hclosed with hclosed | hclosed
    · have := hactive (hs.used (not_gone_of_unAcked hu)).2
      rw [Server.active, hsame.active] at this
      rw [Server.active] at hclosed
      exact absurd (hclosed.symm.trans this) Bool.false_ne_true
    · exact hclosed (hsame.closing (Server.isOpen_closing hopen))
  | data hop htype hid hge hrb hlab hr hsame heff =>
    exact h.same (heff.sameSending.connId.trans hsame.connId) (heff.maps.1.trans hsame.hostport)
      ((congrFun heff.maps.2 1).trans (congrFun hsame.addr 1))

omit [DecidableEq A] in
/-- Every datagram of the server carries an id that was handed out. -/
theorem ServerSends.net_used (hs : ServerSends W r F) {a : A} {m : Message}
    (hm : (a, m) ∈ r.net) : ¬Unused r.server m.connID := by
  by_cases hty : m.type = .data
  · intro hun
    have hc := hs.conn m.connID (hs.fresh _ hun).2.2
    have hmem := (hc.sentData m).mpr ⟨⟨a, hm⟩, hty, rfl⟩
    simp [transmitted, numbered, hc.unused hun] at hmem
  · exact hs.netAcks (a, m) hm hty

end Open

/-! ## Both directions are flows -/

/-- Client to server is the flow `f`, and server to client is `F 1`. -/
structure Linked (P Q : Params) (addr : A) (l : Link A) (f : Flow Payload)
    (F : Int → Flow Payload) : Prop where
  up : f.Ok P.windowSize
  down : ∀ id, (F id).Ok Q.windowSize
  clientOut : ClientSends P.windowSize l.client f
  serverOut : ServerSends Q.windowSize l.server F
  clientIn : ClientReceives P.windowSize 1 l.client (F 1)
  serverIn : ConnReceives Q.windowSize l.server 1 f
  known : Known addr l.server.server
  isOpen : l.isOpen = true

theorem linked_init (P Q : Params) (addr : A) : Linked P Q addr .init .empty fun _ => .empty where
  up := .empty _
  down _ := .empty _
  clientOut := clientSends_init _
  serverOut := serverSends_init _
  clientIn := clientReceives_init _ _
  serverIn := connReceives_init _ _
  known := .inl ⟨rfl, rfl⟩
  isOpen := rfl

theorem ClientSends.absorb {W : Int} {r : ClientRun} {f f' : Flow Payload}
    (h : ClientSends W r f) (habs : Absorbs f f') : ClientSends W r f' := by
  have htr := habs.transmitted_eq
  refine ⟨habs.written.trans h.written, habs.acked.trans h.acked, fun m => ?_, h.acks, h.called,
    fun hest => ?_, fun hest => ?_⟩
  · rw [htr]
    exact h.sentData m
  · rw [habs.written]
    exact h.waiting hest
  · obtain ⟨hs, hseq⟩ := h.sends hest
    rw [habs.written]
    exact ⟨hs.absorb habs, hseq⟩

theorem ServerSends.absorb {W : Int} {r : ServerRun A} {F : Int → Flow Payload} {id : Int}
    {f : Flow Payload} (h : ServerSends W r F) (habs : Absorbs (F id) f) :
    ServerSends W r (Function.update F id f) := by
  refine ⟨fun id' hlost => ?_, h.gone, h.nonneg, h.fresh, h.acks, h.netAcks⟩
  have hc := h.conn id' hlost
  by_cases hid : id' = id
  · subst hid
    rw [Function.update_self]
    refine ⟨habs.written.trans hc.written, habs.acked.trans hc.acked, fun m => ?_,
      hc.sends.absorb habs, fun ha hcl => ?_, fun hun => habs.written.trans (hc.unused hun)⟩
    · rw [habs.transmitted_eq]
      exact hc.sentData m
    · rw [habs.written]
      exact hc.seqNum ha hcl
  · rw [Function.update_of_ne hid]
    exact hc

section Linked

variable [DecidableEq A] {P Q : Params} {addr : A} {l : Link A} {f : Flow Payload}
  {F : Int → Flow Payload}

omit [DecidableEq A] in
theorem Linked.isOpen_both (h : Linked P Q addr l f F) :
    l.client.client.isOpen = true ∧ l.server.server.isOpen = true := by
  have := h.isOpen
  simp only [Link.isOpen, Bool.and_eq_true] at this
  exact this

omit [DecidableEq A] in
theorem Linked.not_lost (h : Linked P Q addr l f F) : l.server.lost 1 = false := by
  by_cases hun : Unused l.server.server 1
  · exact (h.serverOut.fresh 1 hun).2.2
  · refine (h.serverOut.used fun hg => ?_).1
    have := Server.isOpen_active h.isOpen_both.2 hun
    simp [Server.active, hg.active] at this

omit [DecidableEq A] in
/-- What the server has sent comes from its end of the connection. -/
theorem Linked.fromServer (h : Linked P Q addr l f F) {msg : Message}
    (hm : (addr, msg) ∈ l.server.net) : FromPeer 1 (F 1) msg := by
  have hid := h.known.eq_one (h.serverOut.net_used hm)
  refine ⟨fun hty => ?_, fun _ => hid⟩
  exact ((h.serverOut.conn 1 h.not_lost).sentData msg).mpr ⟨⟨addr, hm⟩, hty, hid⟩

omit [DecidableEq A] in
/-- What the client has sent comes from its end of the connection. -/
theorem Linked.fromClient (h : Linked P Q addr l f F) {msg : Message} (hm : msg ∈ l.client.net)
    (hty : msg.type = .data) : msg ∈ transmitted 1 f := by
  have hmem := (h.clientOut.sentData msg).mpr ⟨hm, hty⟩
  cases hest : l.client.established with
  | true =>
    rw [h.clientIn.established hest] at hmem
    exact hmem
  | false => exact absurd hty (h.clientOut.no_data hest msg hm)

theorem Linked.client_step (hP : 1 ≤ P.windowSize) (hQ : 1 ≤ Q.windowSize) (h : Linked P Q addr l f F)
    {incoming : Option ClientReq} (hhears : l.clientHears addr incoming = true) {r : ClientRun}
    (hst : l.client.step P incoming = some r) (hopen : Link.isOpen { l with client := r } = true) :
    ∃ f' F', Linked P Q addr { l with client := r } f' F' := by
  obtain ⟨f', hadv, hout⟩ := h.clientOut.step hP h.up hst
  have hpeer : ∀ msg replyc, incoming = some ⟨.receivemsg msg, replyc⟩ → FromPeer 1 (F 1) msg := by
    rintro msg replyc rfl
    exact h.fromServer (of_decide_eq_true hhears)
  obtain ⟨g, habs, hin⟩ := h.clientIn.step hpeer hst
  refine ⟨f', Function.update F 1 g, hadv.ok hP h.up, fun id => ?_, hout, h.serverOut.absorb habs, ?_,
    h.serverIn.advance (hadv.relabel 1), h.known, hopen⟩
  · by_cases hid : id = 1
    · subst hid
      rw [Function.update_self]
      exact habs.ok hQ (h.down 1)
    · rw [Function.update_of_ne hid]
      exact h.down id
  · rw [Function.update_self]
    exact hin

theorem Linked.server_step (hP : 1 ≤ P.windowSize) (hQ : 1 ≤ Q.windowSize) (h : Linked P Q addr l f F)
    {req : ServerReq A} (hhears : l.serverHears addr req = true) {r : ServerRun A}
    (hst : l.server.step Q req = some r) (hopen : Link.isOpen { l with server := r } = true) :
    ∃ f' F', Linked P Q addr { l with server := r } f' F' := by
  have hfrom : ∀ a msg, req.op = .receivemsg a msg → a = addr ∧ msg ∈ l.client.net := by
    intro a msg hop
    simp only [Link.serverHears, hop, decide_eq_true_eq] at hhears
    exact hhears
  have hopen' : r.server.isOpen = true := by
    simp only [Link.isOpen, Bool.and_eq_true] at hopen
    exact hopen.2
  have hknown : Known addr r.server := by
    obtain ⟨s, out, rfl, heff⟩ := ServerRun.step_cases hst
    exact h.known.step h.serverOut heff (fun a msg hop => (hfrom a msg hop).1) hopen'
  obtain ⟨F', hadv, hout⟩ := h.serverOut.step hQ h.down hst
  obtain ⟨f', habs, hin⟩ := h.serverIn.step
    (fun hlt => ⟨(h.serverOut.fresh 1 (.inr hlt)).1, (h.serverOut.fresh 1 (.inr hlt)).2.1⟩)
    (fun a msg hop _ hty => h.fromClient (hfrom a msg hop).2 hty) hst (live_of_isOpen hopen')
  exact ⟨f', F', habs.ok hP h.up, fun id => (hadv id).ok hQ (h.down id), h.clientOut.absorb habs,
    hout, h.clientIn.advance (hadv 1), hin, hknown, hopen⟩

/-- In every run, as long as the connection is open, both directions are
flows. -/
theorem link_follows (hP : 1 ≤ P.windowSize) (hQ : 1 ≤ Q.windowSize) (addr : A) :
    (openLink P Q addr).Inductive fun l => ∃ f F, Linked P Q addr l f F where
  init := by
    rintro _ rfl
    exact ⟨.empty, fun _ => .empty, linked_init P Q addr⟩
  step := by
    rintro l a l' ⟨f, F, h⟩ hst
    obtain ⟨hst, hopen⟩ := Option.filter_eq_some_iff.mp hst
    cases a with
    | client incoming =>
      simp only [Link.step] at hst
      split at hst
      · rename_i hhears
        obtain ⟨r, hr, rfl⟩ := Option.map_eq_some_iff.mp hst
        exact h.client_step hP hQ hhears hr hopen
      · cases hst
    | server req =>
      simp only [Link.step] at hst
      split at hst
      · rename_i hhears
        obtain ⟨r, hr, rfl⟩ := Option.map_eq_some_iff.mp hst
        exact h.server_step hP hQ hhears hr hopen
      · cases hst

end Linked

end Cmu440.Lsp
