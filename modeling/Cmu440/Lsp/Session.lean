import Cmu440.Lsp.Sources
import Cmu440.Lsp.NoLoss

/-!
# Clients, the server and the network

`Session` is the server with a client at every address. As in `Link`, the network
keeps every datagram, and a datagram may arrive any number of times, at any time
or never; but here connections are closed and lost, and the network may deliver
what was sent on a connection after its end.

A message carries the id of its connection, and neither side looks at it: the
server goes by the address a datagram comes from (server_impl.go:138 and 184), and
the client takes everything from its socket. An id is handed out with every
Connect from an address that has no connection at the time, so a Connect that was
sent twice opens a second connection once the first is closed or lost. What is
under way on the first is then taken for the second, on both sides
(`connections_mix`).

In `steadySessions` the server opens one connection for an address. There the ids
on both sides agree, and connections are apart (`connections_isolated`).
-/
namespace Cmu440.Lsp

variable {A : Type}

/-! ## The model -/

/-- What the read buffer of the sender holds after a data message has been put
into it; nothing if the message is not accepted. mirrors server_impl.go:184-199 -/
def Server.inserts [DecidableEq A] (s : Server A) (clientAddr : A) (msg : Message) : List Message :=
  let connId := s.connIdOf clientAddr
  if msg.type = .data ∧ connId > 0 ∧ s.active connId ∧ s.deferedClose.length = 0 ∧
      msg.seqNum ≥ s.expected connId then
    match s.readBuffer connId with
    | some readBuffer => (readBuffer.insert msg).l
    | none => []
  else []

/-- `heard` are the datagrams the server has received, `inserted` the messages that
were in a read buffer for an address, and `closing` the calls of `Close` that wait,
each with the connections that were lost before it. -/
structure Session (A : Type) where
  clients : A → ClientRun
  server : ServerRun A
  heard : List (A × Message)
  inserted : List (A × Message)
  closing : List (Nat × (Int → Bool))

inductive SessionLbl (A : Type)
  | client (a : A) (incoming : Option ClientReq)
  | server (req : ServerReq A)

namespace Session

def init : Session A := ⟨fun _ => .init, .init, [], [], []⟩

variable [DecidableEq A]

/-- What a client receives was sent to it by the server. -/
def clientHears (s : Session A) (a : A) : Option ClientReq → Bool
  | some ⟨.receivemsg msg, _⟩ => decide ((a, msg) ∈ s.server.net)
  | _ => true

/-- What the server receives was sent by the client at that address. -/
def serverHears (s : Session A) (req : ServerReq A) : Bool :=
  match req.op with
  | .receivemsg a msg => decide (msg ∈ (s.clients a).net)
  | _ => true

def record (s : Session A) (req : ServerReq A) (srv : Server A) (out : List (ServerOut A)) :
    Session A where
  clients := s.clients
  server := s.server.record req srv out
  heard := s.heard ++ match req.op with
    | .receivemsg a msg => [(a, msg)]
    | _ => []
  inserted := s.inserted ++ match req.op with
    | .receivemsg a msg => (s.server.server.inserts a msg).map (a, ·)
    | _ => []
  closing := s.closing ++ match req.op, srv.serverRunning with
    | .doclose, true => [(req.replyc, s.server.lost)]
    | _, _ => []

/-- A step of the client at an address or of the server. -/
def step (P : A → Params) (Q : Params) (s : Session A) : SessionLbl A → Option (Session A)
  | .client a incoming =>
    if s.clientHears a incoming then
      ((s.clients a).step (P a) incoming).map fun r =>
        { s with clients := Function.update s.clients a r }
    else none
  | .server req =>
    if s.serverHears req then
      (s.server.server.handle Q req).map fun t => s.record req t.1 t.2
    else none

/-- The server opens a connection for an address only if it has not sent anything
there before. -/
def steady (s : Session A) : SessionLbl A → Bool
  | .client _ _ => true
  | .server req => match req.op with
    | .receivemsg a msg =>
      !(msg.type = .connect && s.server.server.deferedClose = [] &&
        s.server.server.connIdOf a = 0) || s.server.net.all fun x => x.1 ≠ a
    | _ => true

end Session

variable [DecidableEq A]

/-- Every run of the clients, with the parameters `P`, and the server, with the
parameters `Q`. -/
def sessions (P : A → Params) (Q : Params) : LTS (Session A) (SessionLbl A) :=
  .ofFn (· = .init) (Session.step P Q)

def steadySessions (P : A → Params) (Q : Params) : LTS (Session A) (SessionLbl A) :=
  .ofFn (· = .init) (LTS.guarded Session.steady (Session.step P Q))

/-- What a step is. -/
inductive SessionStep (P : A → Params) (Q : Params) (s : Session A) : SessionLbl A → Session A → Prop
  | client {a : A} {incoming : Option ClientReq} {r : ClientRun}
      (hheard : ∀ msg replyc, incoming = some ⟨.receivemsg msg, replyc⟩ → (a, msg) ∈ s.server.net)
      (hst : (s.clients a).step (P a) incoming = some r) :
      SessionStep P Q s (.client a incoming) { s with clients := Function.update s.clients a r }
  | server {req : ServerReq A} {srv : Server A} {out : List (ServerOut A)}
      (hheard : ∀ a msg, req.op = .receivemsg a msg → msg ∈ (s.clients a).net)
      (hh : s.server.server.handle Q req = some (srv, out)) :
      SessionStep P Q s (.server req) (s.record req srv out)

theorem Session.step_cases {P : A → Params} {Q : Params} {s s' : Session A} {l : SessionLbl A}
    (h : s.step P Q l = some s') : SessionStep P Q s l s' := by
  cases l with
  | client a incoming =>
    simp only [Session.step] at h
    split at h
    · rename_i hheard
      obtain ⟨r, hr, rfl⟩ := Option.map_eq_some_iff.mp h
      refine .client (fun msg replyc hreq => ?_) hr
      subst hreq
      exact of_decide_eq_true hheard
    · cases h
  | server req =>
    simp only [Session.step] at h
    split at h
    · rename_i hheard
      obtain ⟨⟨srv, out⟩, hh, rfl⟩ := Option.map_eq_some_iff.mp h
      refine .server (fun a msg hop => ?_) hh
      simpa [Session.serverHears, hop] using hheard
    · cases h

/-! ## Where everything comes from -/

/-- The server has accepted the number from the address. -/
def Session.Taken (s : Session A) (a : A) (q : Int) : Prop := ∃ m, (a, m) ∈ s.inserted ∧ m.seqNum = q

structure Traced (s : Session A) : Prop where
  clients : ∀ a, ClientFrom (fun m => (a, m) ∈ s.server.net) (s.clients a)
  server : ServerFrom (fun a m => m ∈ (s.clients a).net) s.Taken s.server
  inserted : ∀ x ∈ s.inserted, x.2.type = .data ∧ x.2 ∈ (s.clients x.1).net

/-- A blocked `Read` that is answered with the id takes the first message of its read
buffer, or is told of the end of the connection, and the buffer goes; any other leaves it. -/
def ReadFrom (s s' : Server A) (out : List (ServerOut A)) (id : Int) : Prop :=
  s'.readBuffer id = s.readBuffer id ∨
  (∃ rb rb' m replyc, s.readBuffer id = some rb ∧ rb.l = m :: rb'.l ∧
    s'.readBuffer id = some rb' ∧ .reply replyc ⟨.bundle id m.payload, none⟩ ∈ out) ∨
  s.active id = false ∧ s'.readBuffer id = none ∧
    ∃ replyc text, .reply replyc ⟨.bundle id [], some text⟩ ∈ out

omit [DecidableEq A] in
theorem ReadEffect.readFrom {s s' : Server A} {out : List (ServerOut A)} (h : ReadEffect s s' out)
    (id : Int) : ReadFrom s s' out id := by
  cases h with
  | quiet hsame hout => exact .inl (congrFun hsame.read id)
  | deliver hrb hm hexp =>
    rename_i id' rb rb' m replyc
    by_cases hid : id = id'
    · subst hid
      exact .inr (.inl ⟨rb, rb', m, replyc, hrb, Buffer.remove_eq_some.mp hm,
        Function.update_self .., List.mem_singleton_self _⟩)
    · exact .inl (Function.update_of_ne hid ..)
  | forget hina =>
    rename_i id' replyc text
    by_cases hid : id = id'
    · subst hid
      exact .inr (.inr ⟨hina, Function.update_self .., replyc, text, List.mem_singleton_self _⟩)
    · exact .inl (Function.update_of_ne hid ..)

omit [DecidableEq A] in
theorem ReadFrom.mono {s s₁ s' : Server A} {out out' : List (ServerOut A)} {id : Int}
    (h : ReadFrom s₁ s' out id) (hread : s₁.readBuffer id = s.readBuffer id)
    (hact : s₁.active id = s.active id) (hout : ∀ o ∈ out, o ∈ out') : ReadFrom s s' out' id := by
  unfold ReadFrom at h
  rw [hread, hact] at h
  rcases h with h | ⟨rb, rb', m, replyc, hrb, hl, hrb', hm⟩ | ⟨hina, hnone, replyc, text, hm⟩
  · exact .inl h
  · exact .inr (.inl ⟨rb, rb', m, replyc, hrb, hl, hrb', hout _ hm⟩)
  · exact .inr (.inr ⟨hina, hnone, replyc, text, hout _ hm⟩)

/-- The ack for a data message goes out when it is put into the read buffer, and what
`inserts` says is what the handler leaves there, up to a `Read` that it answers. -/
theorem inserts_of_ack {Q : Params} {s s' : Server A} {req : ServerReq A} {out : List (ServerOut A)}
    {a : A} {msg m : Message} (hop : req.op = .receivemsg a msg) (htype : msg.type = .data)
    (hh : s.handle Q req = some (s', out)) (hack : .send a m ∈ out) :
    (∃ x ∈ s.inserts a msg, x.seqNum = msg.seqNum) ∧
    ∃ rb, rb.l = s.inserts a msg ∧
      ReadFrom { s with readBuffer := mapSet s.readBuffer (s.connIdOf a) rb } s' out
        (s.connIdOf a) := by
  unfold Server.handle at hh
  split at hh
  · simp only [hop, Server.handleReceivedMsg, htype] at hh
    unfold Server.handleData at hh
    simp only at hh
    split at hh
    · rename_i hc
      split at hh
      · rename_i hge
        simp only [Option.bind_eq_bind, Option.bind_eq_some_iff] at hh
        obtain ⟨rb, hrb, lab, -, r, hr, hh⟩ := hh
        have hins : s.inserts a msg = (rb.insert msg).l := by
          unfold Server.inserts
          rw [if_pos ⟨htype, hc.1, hc.2.1, hc.2.2, hge⟩, hrb]
        obtain ⟨lab', -, hr⟩ := Option.bind_eq_some_iff.mp hr
        cases hr
        rw [hins]
        refine ⟨Buffer.exists_mem_insert rb msg, rb.insert msg, rfl, ?_⟩
        split at hh
        · split at hh
          · simp only [Option.bind_eq_some_iff, Option.pure_def, Option.some.injEq,
              Prod.mk.injEq] at hh
            obtain ⟨t, ht, rfl, rfl⟩ := hh
            refine ((effect_of_serverRead ht).readFrom _).mono rfl rfl fun o ho => ?_
            exact List.mem_append_right _ ho
          · cases hh
            exact .inl rfl
        · cases hh
          exact .inl rfl
      · cases hh
        cases hack
    · cases hh
      cases hack
  · cases hh

/-- What is in a read buffer for an address was sent from there. -/
theorem Traced.of_inserts {s : Session A} (h : Traced s) {a : A} {msg x : Message}
    (hmsg : msg ∈ (s.clients a).net) (hx : x ∈ s.server.server.inserts a msg) :
    x.type = .data ∧ x ∈ (s.clients a).net := by
  unfold Server.inserts at hx
  simp only at hx
  split at hx
  · rename_i hc
    split at hx
    · rename_i rb hrb
      rcases Buffer.mem_insert.mp hx with hx | ⟨rfl, -⟩
      · obtain ⟨a', ho', hty, hsent⟩ := h.server.filled.read _ rb hrb x hx
        have ho := h.server.filled.hostport a _ (hostport_of_connIdOf hc.2.1)
        rw [h.server.unique a a' _ ho ho']
        exact ⟨hty, hsent⟩
      · exact ⟨hc.1, hmsg⟩
    · cases hx
  · cases hx

theorem Traced.step {P : A → Params} {Q : Params} {s s' : Session A} {l : SessionLbl A}
    (h : Traced s) (hst : s.step P Q l = some s') : Traced s' := by
  cases Session.step_cases hst with
  | client hheard hr =>
    rename_i a incoming r
    -- the datagrams of every client stay
    have hnet : ∀ a' m, m ∈ (s.clients a').net → m ∈ (Function.update s.clients a r a').net := by
      intro a' m hm
      by_cases ha : a' = a
      · subst ha
        rw [Function.update_self]
        obtain ⟨-, c, out, rfl, -⟩ := ClientRun.step_cases hr
        exact List.mem_append_left _ hm
      · rw [Function.update_of_ne ha]
        exact hm
    refine ⟨fun a' => ?_, h.server.mono hnet fun _ _ hq => hq,
      fun x hx => (h.inserted x hx).imp_right (hnet x.1 x.2)⟩
    by_cases ha : a' = a
    · subst ha
      simp only [Function.update_self]
      exact (h.clients a').step hheard hr
    · simp only [Function.update_of_ne ha]
      exact h.clients a'
  | server hheard hh =>
    rename_i req srv out
    have htaken : ∀ a q, s.Taken a q → (s.record req srv out).Taken a q :=
      fun a q ⟨m, hm, hq⟩ => ⟨m, List.mem_append_left _ hm, hq⟩
    refine ⟨fun a => (h.clients a).mono fun m hm => List.mem_append_left _ hm, ?_, fun x hx => ?_⟩
    · refine (h.server.mono (fun _ _ hm => hm) htaken).step hheard ?_ hh
      intro a msg id hop htype hack
      obtain ⟨⟨x, hx, hq⟩, -⟩ := inserts_of_ack hop htype hh hack
      refine ⟨x, List.mem_append_right _ ?_, hq⟩
      simp only [hop]
      exact List.mem_map.mpr ⟨x, hx, rfl⟩
    · rcases List.mem_append.mp hx with hx | hx
      · exact h.inserted x hx
      · split at hx
        · rename_i a msg hop
          obtain ⟨y, hy, rfl⟩ := List.mem_map.mp hx
          exact h.of_inserts (hheard a msg hop) hy
        · cases hx

theorem traced_inductive (P : A → Params) (Q : Params) : (sessions P Q).Inductive Traced where
  init := by
    rintro _ rfl
    exact ⟨fun a => clientFrom_init _, serverFrom_init _ _, fun x hx => nomatch hx⟩
  step := fun _ _ _ h hst => h.step hst

/-! ## One connection for an address -/

def OneConnection (s : Session A) : Prop :=
  ∀ a id id', s.server.Opened a id → s.server.Opened a id' → id = id'

theorem steady_opens {s : Session A} {req : ServerReq A} {a : A} {id id' : Int}
    (hsteady : s.steady (.server req) = true) (hopens : s.server.server.Opens req a id) :
    ¬s.server.Opened a id' := by
  intro ho
  obtain ⟨⟨msg, hop, htype⟩, hclose, hnew, -⟩ := hopens
  have hall : s.server.net.all (fun x => x.1 ≠ a) = true := by
    simpa [Session.steady, hop, htype, hclose, hnew] using hsteady
  have hne := List.all_eq_true.mp hall _ ho
  simp at hne

theorem steady_inductive (P : A → Params) (Q : Params) :
    (steadySessions P Q).Inductive fun s => Traced s ∧ OneConnection s where
  init := by
    rintro _ rfl
    exact ⟨(traced_inductive P Q).init _ rfl, fun _ _ _ h => nomatch h⟩
  step := by
    intro s l s' ⟨h, hone⟩ hst
    obtain ⟨hsteady, hst⟩ := LTS.guarded_eq_some.mp hst
    refine ⟨h.step hst, fun a id id' ho ho' => ?_⟩
    cases Session.step_cases hst with
    | client hheard hr => exact hone a id id' ho ho'
    | server hheard hh =>
      rcases (h.server.opened_iff hh a id).mp ho with ho | ho <;>
        rcases (h.server.opened_iff hh a id').mp ho' with ho' | ho'
      · exact hone a id id' ho ho'
      · exact absurd ho (steady_opens hsteady ho')
      · exact absurd ho' (steady_opens hsteady ho)
      · rw [ho.2.2.2, ho'.2.2.2]

omit [DecidableEq A] in
/-- The client's connection was opened for it. -/
theorem Traced.opened_of_established {s : Session A} (h : Traced s) {a : A}
    (hest : (s.clients a).established = true) : s.server.Opened a (s.clients a).client.connId := by
  obtain ⟨-, m, hm, hid⟩ := (h.clients a).connId hest
  rw [← hid]
  exact (h.server.net a m hm).1

omit [DecidableEq A] in
/-- What a client sends apart from Connects carries the id of a connection that was
opened for it. -/
theorem Traced.opened_of_client {s : Session A} (h : Traced s) {a : A} {m : Message}
    (hm : m ∈ (s.clients a).net) (hty : m.type ≠ .connect) : s.server.Opened a m.connID := by
  rcases (h.clients a).net m hm with hc | ⟨hest, hid⟩
  · exact absurd hc hty
  · rw [hid]
    exact h.opened_of_established hest

/-! ## Isolation -/

/-- The buffers of the connection are as they were, up to what a blocked `Read` that
is answered in the same event takes. -/
structure Untouched (s s' : Server A) (out : List (ServerOut A)) (id : Int) : Prop where
  unAcked : s'.unAckedMsgBuffer id = s.unAckedMsgBuffer id
  write : s'.writeBuffer id = s.writeBuffer id
  latestAck : s'.latestAckBuffer id = s.latestAckBuffer id
  read : ReadFrom s s' out id

omit [DecidableEq A] in
theorem ReadEffect.untouched {s s' : Server A} {out : List (ServerOut A)} (h : ReadEffect s s' out)
    (id : Int) : Untouched s s' out id := by
  exact ⟨congrFun h.sameSending.unAcked id, congrFun h.sameSending.write id,
    congrFun h.latestAck id, h.readFrom id⟩

/-- Data and acks from an address concern its connection only. -/
theorem untouched_of_effect {Q : Params} {s s' : Server A} {req : ServerReq A}
    {out : List (ServerOut A)} {a : A} {msg : Message} {id : Int}
    (heff : ServerEffect Q s req s' out) (hop : req.op = .receivemsg a msg)
    (hty : msg.type ≠ .connect) (hid : s.connIdOf a > 0 → id ≠ s.connIdOf a) :
    Untouched s s' out id := by
  cases heff with
  | quiet hsame | ackMissed _ _ _ _ _ hsame =>
    exact ⟨congrFun hsame.unAcked id, congrFun hsame.write id, congrFun hsame.latestAck id,
      .inl (congrFun hsame.read id)⟩
  | read hop' | write hop' | closeConn hop' | epoch hop' =>
    rw [hop] at hop'
    cases hop'
  | opened hop' hty' =>
    rw [hop] at hop'
    cases hop'
    exact absurd hty' hty
  | ack hop' htype hpos hu hw hr hsame =>
    rw [hop] at hop'
    cases hop'
    have hne := hid hpos
    exact ⟨(congrFun hsame.unAcked id).trans (Function.update_of_ne hne ..),
      (congrFun hsame.write id).trans (Function.update_of_ne hne ..), congrFun hsame.latestAck id,
      .inl (congrFun hsame.read id)⟩
  | lastAck hop' htype hpos hu hw hr hnil hclosed hsame =>
    rw [hop] at hop'
    cases hop'
    have hne := hid hpos
    exact ⟨(congrFun hsame.unAcked id).trans (Function.update_of_ne hne ..),
      (congrFun hsame.write id).trans (Function.update_of_ne hne ..),
      (congrFun hsame.latestAck id).trans (Function.update_of_ne hne ..),
      .inl ((congrFun hsame.read id).trans (Function.update_of_ne hne ..))⟩
  | data hop' htype hpos hge hrb hlab hr hsame heff =>
    rw [hop] at hop'
    cases hop'
    have hne := hid hpos
    have hu := heff.untouched id
    refine ⟨hu.unAcked.trans (congrFun hsame.unAcked id), hu.write.trans (congrFun hsame.write id),
      hu.latestAck.trans ((congrFun hsame.latestAck id).trans (Function.update_of_ne hne ..)), ?_⟩
    refine hu.read.mono ((congrFun hsame.read id).trans (Function.update_of_ne hne ..)) ?_
      fun o ho => List.mem_cons_of_mem _ ho
    unfold Server.active
    rw [hsame.active]

/-- Before the connection is established, data and acks other than that of the
Connect are ignored. -/
theorem ClientFrom.ignores {P : Params} {sent : Message → Prop} {r : ClientRun}
    (h : ClientFrom sent r) (hest : r.established = false) {msg : Message} {replyc : Nat} {c : Client}
    {out : List ClientOut}
    (heff : ClientEffect P r.client (some ⟨.receivemsg msg, replyc⟩) c out)
    (hsig : .connEstablishedSignal ∉ out) : r.client.SameBuffers c := by
  cases heff with
  | quiet hsame => exact hsame
  | read _ _ hop => cases hop _ rfl
  | established => simp at hsig
  | data _ _ hconn => exact absurd (h.idle hest) hconn
  | ack htype hr hfound hsame =>
    have hmiss : (r.client.unAckedMsgBuffer.delete msg.seqNum).2 = false := by
      refine Bool.eq_false_iff.mpr fun hdel => ?_
      obtain ⟨m, hm, hseq⟩ := Buffer.delete_found.mp hdel
      rcases h.filled.unAcked m hm with ⟨-, rfl⟩ | hown
      · exact hfound ⟨(ackReceived_found hr).mpr ⟨_, hm, hseq⟩, hseq.symm⟩
      · exact absurd (hest.symm.trans hown.1.1) Bool.false_ne_true
    rw [ackReceived_missed hmiss] at hr
    cases hr
    exact hsame

/-- In a run in which an address has one connection, messages with an id change the
buffers of that connection only, on both sides; `Read` of the client returns what was
written to its connection, and `Read` of the server what was sent with the id it
returns. -/
theorem connections_isolated (P : A → Params) (Q : Params) {s : Session A}
    (hs : (steadySessions P Q).Reachable s) :
    (∀ a msg replyc orders srv out, msg ∈ (s.clients a).net → msg.type ≠ .connect →
      s.server.server.handle Q ⟨.receivemsg a msg, replyc, orders⟩ = some (srv, out) →
      ∀ id, id ≠ msg.connID → Untouched s.server.server srv out id) ∧
    (∀ a msg replyc r, (a, msg) ∈ s.server.net → msg.type ≠ .connect →
      (s.clients a).step (P a) (some ⟨.receivemsg msg, replyc⟩) = some r →
      msg.connID ≠ r.client.connId → (s.clients a).client.SameBuffers r.client) ∧
    (∀ a, ∀ p ∈ (s.clients a).returned, p ∈ s.server.written (s.clients a).client.connId) ∧
    ∀ id, ∀ p ∈ s.server.returned id,
      ∃ a m, m ∈ (s.clients a).net ∧ m.type = .data ∧ m.connID = id ∧ m.payload = p := by
  obtain ⟨h, hone⟩ := (steady_inductive P Q).reachable s hs
  refine ⟨fun a msg replyc orders srv out hm hty hh id hid => ?_,
    fun a msg replyc r hm hty hst hid => ?_, fun a p hp => ?_, fun id p hp => ?_⟩
  · refine untouched_of_effect (effect_of_serverHandle hh) rfl hty fun hpos => ?_
    have ho := h.server.filled.hostport a _ (hostport_of_connIdOf hpos)
    rw [hone a _ _ ho (h.opened_of_client hm hty)]
    exact hid
  · obtain ⟨-, c, out, rfl, heff⟩ := ClientRun.step_cases hst
    rcases connId_of_effect heff with ⟨hsig, hconn⟩ | ⟨-, msg', replyc', hreq, -, -, hconn⟩
    · cases hest : (s.clients a).established with
      | false => exact (h.clients a).ignores hest heff hsig
      | true =>
        refine absurd (hone a _ _ (h.server.net a msg hm).1 ?_) hid
        simp only [ClientRun.record, hconn]
        exact h.opened_of_established hest
    · cases hreq
      exact absurd hconn.symm hid
  · obtain ⟨m, ⟨hest, hty, hm⟩, rfl⟩ := (h.clients a).returned p hp
    obtain ⟨ho, ⟨-, hp⟩ | ⟨hack, -⟩⟩ := h.server.net a m hm
    · rw [hone a _ _ (h.opened_of_established hest) ho]
      exact hp
    · rw [hty] at hack
      cases hack
  · obtain ⟨m, ⟨a, ho, hty, hm⟩, rfl⟩ := h.server.returned id p hp
    refine ⟨a, m, hm, hty, ?_, rfl⟩
    exact hone a _ _ (h.opened_of_client hm (by simp [hty])) ho

/-! Two clients; data of the first arrives once more after `CloseConn`. -/

/-- A Connect of the client at `a` and its ack, which gives the connection `id`. -/
def connects (a : A) (id : Int) (ids : List Int) : List (SessionLbl A) :=
  [.client a (some ⟨.doconnect, 0⟩), .server ⟨.receivemsg a newConnect, 0, ⟨ids, ids, ids⟩⟩,
    .client a (some ⟨.receivemsg (newAck id 0), 0⟩)]

def lateData : List (SessionLbl Bool) :=
  connects false 1 [] ++ connects true 2 [1] ++
    [.client false (some ⟨.dowrite [7], 1⟩),
      .server ⟨.receivemsg false (newData 1 1 [7]), 0, ⟨[1, 2], [1, 2], [1, 2]⟩⟩,
      .server ⟨.doread, 2, ⟨[1, 2], [1, 2], [1, 2]⟩⟩,
      .server ⟨.docloseconn 1, 3, ⟨[1, 2], [1, 2], [1, 2]⟩⟩]

def afterCloseConn : Session Bool :=
  LTS.execD (LTS.guarded Session.steady (Session.step (fun _ => oneByOne) oneByOne)) .init lateData

theorem late_data_isolated :
    afterCloseConn.server.returned 1 = [[7]] ∧
      (∃ a m, m ∈ (afterCloseConn.clients a).net ∧ m.type = .data ∧ m.connID = 1 ∧ m.payload = [7]) ∧
      ∃ t, afterCloseConn.server.server.handle oneByOne
          ⟨.receivemsg false (newData 1 1 [7]), 4, ⟨[1, 2], [1, 2], [1, 2]⟩⟩ = some t ∧
        Untouched afterCloseConn.server.server t.1 t.2 2 := by
  have h := connections_isolated (fun _ => oneByOne) oneByOne (s := afterCloseConn)
    ⟨_, lateData, rfl, LTS.run_execD (by decide)⟩
  refine ⟨by decide, h.2.2.2 1 [7] (by decide), ?_⟩
  obtain ⟨t, ht⟩ := Option.isSome_iff_exists.mp (show (afterCloseConn.server.server.handle oneByOne
    ⟨.receivemsg false (newData 1 1 [7]), 4, ⟨[1, 2], [1, 2], [1, 2]⟩⟩).isSome = true by decide)
  exact ⟨t, ht, h.1 false _ _ _ t.1 t.2 (by decide) (by decide) ht 2 (by decide)⟩

/-! ## Two connections for an address -/

/-- `CloseConn` ends the client's connection 1, and its Connect arrives once more. -/
def reopened : List (SessionLbl Unit) :=
  connects () 1 [] ++
    [.server ⟨.docloseconn 1, 1, ⟨[1], [1], [1]⟩⟩,
      .server ⟨.receivemsg () newConnect, 0, ⟨[1], [1], [1]⟩⟩,
      .client () (some ⟨.dowrite [7], 2⟩)]

/-- The server takes what the client sends on connection 1 for connection 2, and the
client takes what the server writes to connection 2 for connection 1. -/
def mixing : List (SessionLbl Unit) :=
  [.server ⟨.receivemsg () (newData 1 1 [7]), 0, ⟨[1, 2], [1, 2], [1, 2]⟩⟩,
    .server ⟨.doread, 3, ⟨[1, 2], [1, 2], [1, 2]⟩⟩,
    .server ⟨.dowrite 2 [8], 4, ⟨[1, 2], [1, 2], [1, 2]⟩⟩,
    .client () (some ⟨.receivemsg (newData 2 1 [8]), 0⟩), .client () (some ⟨.doread, 5⟩)]

def afterReopening (ls : List (SessionLbl Unit)) : Session Unit :=
  LTS.execD (Session.step (fun _ => oneByOne) oneByOne) .init (reopened ++ ls)

theorem connections_mix :
    (∀ ls ∈ [[], mixing.take 1, mixing],
      (sessions (fun _ => oneByOne) oneByOne).Reachable (afterReopening ls)) ∧
    -- data with the id 1 goes into the read buffer of connection 2
    ((afterReopening []).server.server.readBuffer 2).map (·.l) = some [] ∧
    ((afterReopening (mixing.take 1)).server.server.readBuffer 2).map (·.l) =
      some [newData 1 1 [7]] ∧
    -- `Read` returns it with the id 2, which no message of the client carries
    (afterReopening mixing).server.returned 2 = [[7]] ∧
    (∀ m ∈ ((afterReopening mixing).clients ()).net, m.connID ≠ 2) ∧
    -- the client has the id 1, and reads what was not written to it
    ((afterReopening mixing).clients ()).client.connId = 1 ∧
    ((afterReopening mixing).clients ()).returned = [[8]] ∧
    (afterReopening mixing).server.written 1 = [] := by
  refine ⟨fun ls hls => ⟨_, reopened ++ ls, rfl, LTS.run_execD ?_⟩, by decide, by decide, by decide,
    by decide, by decide, by decide, by decide⟩
  revert ls
  decide

end Cmu440.Lsp
