import Cmu440.Lsp.Server

/-!
# Runs of the server

`ServerRun` is the server with a record, for every connection, of what went in
and out: the datagrams it has sent, the payloads accepted by `Write` and
returned by `Read`, the numbers acknowledged to it and the numbers it has
accepted, and which connections it has declared lost. Requests and datagrams
come in any order, from any address.

`ServerEffect` lists what one event can do to the connections.
-/
namespace Cmu440.Lsp

variable {A : Type}

/-! ## Outputs -/

def ServerOut.datagram : ServerOut A → Option (A × Message)
  | .send a m => some (a, m)
  | _ => none

/-- The payload a `Read` returns for the connection. -/
def ServerOut.payload (connId : Int) : ServerOut A → Option Payload
  | .reply _ ⟨.bundle id p, none⟩ => if id = connId then some p else none
  | _ => none

def ServerOut.lost : ServerOut A → Option Int
  | .connLost id => some id
  | _ => none

/-- Neither a datagram, nor a payload, nor a lost connection. -/
structure Silent (out : List (ServerOut A)) : Prop where
  datagram : out.filterMap ServerOut.datagram = []
  payload : ∀ id, out.filterMap (ServerOut.payload id) = []
  lost : out.filterMap ServerOut.lost = []

theorem silent_nil : Silent ([] : List (ServerOut A)) := ⟨rfl, fun _ => rfl, rfl⟩

theorem silent_error (replyc : Nat) (val : RetVal) (text : String) :
    Silent ([.reply replyc ⟨val, some text⟩] : List (ServerOut A)) := by
  refine ⟨rfl, fun id => ?_, rfl⟩
  cases val <;> rfl

theorem silent_nil_reply (replyc : Nat) (err : Option String) :
    Silent ([.reply replyc ⟨.nil, err⟩] : List (ServerOut A)) := ⟨rfl, fun _ => rfl, rfl⟩

theorem Silent.append {out out' : List (ServerOut A)} (h : Silent out) (h' : Silent out') :
    Silent (out ++ out') where
  datagram := by rw [List.filterMap_append, h.datagram, h'.datagram]; rfl
  payload id := by rw [List.filterMap_append, h.payload, h'.payload]; rfl
  lost := by rw [List.filterMap_append, h.lost, h'.lost]; rfl

theorem datagram_sends (a : A) (l : List Message) :
    (l.map (ServerOut.send a)).filterMap ServerOut.datagram = l.map (a, ·) := by
  rw [List.filterMap_map]
  exact congrFun List.filterMap_eq_map l

theorem payload_sends (a : A) (l : List Message) (id : Int) :
    (l.map (ServerOut.send a)).filterMap (ServerOut.payload id) = [] := by
  rw [List.filterMap_map]
  exact List.filterMap_eq_nil_iff.mpr fun _ _ => rfl

theorem lost_sends (a : A) (l : List Message) :
    (l.map (ServerOut.send a)).filterMap ServerOut.lost = [] := by
  rw [List.filterMap_map]
  exact List.filterMap_eq_nil_iff.mpr fun _ _ => rfl

/-! ## What an event can do -/

/-- The sending halves of all connections are as they were. -/
structure SameSending (s s' : Server A) : Prop where
  unAcked : s'.unAckedMsgBuffer = s.unAckedMsgBuffer
  write : s'.writeBuffer = s.writeBuffer
  seqNum : s'.seqNum = s.seqNum
  active : s'.activeConn = s.activeConn
  connId : s'.connId = s.connId
  closing : s'.deferedClose = [] → s.deferedClose = []

/-- So are the receiving halves and the addresses. -/
structure SameConns (s s' : Server A) : Prop extends SameSending s s' where
  read : s'.readBuffer = s.readBuffer
  latestAck : s'.latestAckBuffer = s.latestAckBuffer
  expected : s'.expectedSeqNum = s.expectedSeqNum
  hostport : s'.hostportConnIdMap = s.hostportConnIdMap
  addr : s'.connIdHostportMap = s.connIdHostportMap

theorem SameConns.refl (s : Server A) : SameConns s s :=
  ⟨⟨rfl, rfl, rfl, rfl, rfl, id⟩, rfl, rfl, rfl, rfl, rfl⟩

inductive ReadEffect (s : Server A) : Server A → List (ServerOut A) → Prop
  | quiet {s' : Server A} {out : List (ServerOut A)} (hsame : SameConns s s') (hout : Silent out) :
      ReadEffect s s' out
  | deliver {id : Int} {rb rb' : Buffer} {m : Message} {replyc : Nat}
      (hrb : s.readBuffer id = some rb) (hm : rb.remove = some (m, rb'))
      (hexp : m.seqNum = s.expected id) :
      ReadEffect s { s with
          readBuffer := mapSet s.readBuffer id rb'
          expectedSeqNum := mapSet s.expectedSeqNum id (s.expected id + 1) }
        [.reply replyc ⟨.bundle id m.payload, none⟩]
  | forget {id : Int} {replyc : Nat} {text : String} (hid : s.active id = false) :
      ReadEffect s { s with
          readBuffer := mapDelete s.readBuffer id
          expectedSeqNum := mapDelete s.expectedSeqNum id }
        [.reply replyc ⟨.bundle id [], some text⟩]

theorem ReadEffect.sameSending {s s' : Server A} {out : List (ServerOut A)}
    (h : ReadEffect s s' out) : SameSending s s' := by
  cases h with
  | quiet hsame hout => exact hsame.toSameSending
  | deliver | forget => exact ⟨rfl, rfl, rfl, rfl, rfl, id⟩

theorem ReadEffect.latestAck {s s' : Server A} {out : List (ServerOut A)}
    (h : ReadEffect s s' out) : s'.latestAckBuffer = s.latestAckBuffer := by
  cases h with
  | quiet hsame hout => exact hsame.latestAck
  | deliver | forget => rfl

theorem ReadEffect.maps {s s' : Server A} {out : List (ServerOut A)} (h : ReadEffect s s' out) :
    s'.hostportConnIdMap = s.hostportConnIdMap ∧ s'.connIdHostportMap = s.connIdHostportMap := by
  cases h with
  | quiet hsame hout => exact ⟨hsame.hostport, hsame.addr⟩
  | deliver | forget => exact ⟨rfl, rfl⟩

/-- A read sends nothing and declares nothing lost. -/
theorem ReadEffect.out {s s' : Server A} {out : List (ServerOut A)} (h : ReadEffect s s' out) :
    out.filterMap ServerOut.datagram = [] ∧ out.filterMap ServerOut.lost = [] := by
  cases h with
  | quiet hsame hout => exact ⟨hout.datagram, hout.lost⟩
  | deliver | forget => exact ⟨rfl, rfl⟩

theorem effect_of_serverRead {s s' : Server A} {replyc : Nat} {o : Orders}
    {out : List (ServerOut A)} (h : s.handleRead replyc o = some (s', out)) :
    ReadEffect s s' out := by
  unfold Server.handleRead at h
  split at h
  · cases h
    exact .quiet (.refl s) (silent_error _ _ _)
  · split at h
    · rename_i id hfind
      have hready := List.find?_some hfind
      simp only [Option.bind_eq_bind, Option.bind_eq_some_iff, Option.pure_def, Option.some.injEq,
        Prod.mk.injEq] at h
      obtain ⟨rb, hrb, ⟨m, rb'⟩, hm, rfl, rfl⟩ := h
      refine .deliver hrb hm ?_
      -- the loop has found the buffer to start with the expected message
      have hl := Buffer.remove_eq_some.mp hm
      simpa [hrb, Server.ready, Buffer.front, hl] using hready
    · split at h
      · rename_i id hfind
        have hlost := List.find?_some hfind
        cases h
        refine .forget ?_
        simp only [Bool.and_eq_true, Bool.not_eq_true'] at hlost
        exact hlost.2
      · cases h
        exact .quiet ⟨⟨rfl, rfl, rfl, rfl, rfl, id⟩, rfl, rfl, rfl, rfl, rfl⟩ silent_nil

/-- What the server keeps about one connection. -/
structure SameConn (s s' : Server A) (id : Int) : Prop where
  unAcked : s'.unAckedMsgBuffer id = s.unAckedMsgBuffer id
  write : s'.writeBuffer id = s.writeBuffer id
  seqNum : s'.seqNum id = s.seqNum id
  active : s'.activeConn id = s.activeConn id
  read : s'.readBuffer id = s.readBuffer id
  latestAck : s'.latestAckBuffer id = s.latestAckBuffer id
  expected : s'.expectedSeqNum id = s.expectedSeqNum id
  addr : s'.connIdHostportMap id = s.connIdHostportMap id

theorem SameConn.trans {s s₁ s₂ : Server A} {id : Int} (h' : SameConn s₁ s₂ id)
    (h : SameConn s s₁ id) : SameConn s s₂ id :=
  ⟨h'.unAcked.trans h.unAcked, h'.write.trans h.write, h'.seqNum.trans h.seqNum,
    h'.active.trans h.active, h'.read.trans h.read, h'.latestAck.trans h.latestAck,
    h'.expected.trans h.expected, h'.addr.trans h.addr⟩

theorem SameConns.conn {s s' : Server A} (h : SameConns s s') (id : Int) : SameConn s s' id :=
  ⟨congrFun h.unAcked id, congrFun h.write id, congrFun h.seqNum id, congrFun h.active id,
    congrFun h.read id, congrFun h.latestAck id, congrFun h.expected id, congrFun h.addr id⟩

/-- Nothing is left of the sending half, and of the acks to repeat. -/
structure Gone (s : Server A) (id : Int) : Prop where
  unAcked : s.unAckedMsgBuffer id = none
  write : s.writeBuffer id = none
  active : s.activeConn id = none
  latestAck : s.latestAckBuffer id = none

theorem Gone.same {s s' : Server A} {id : Int} (h : Gone s id) (hk : SameConn s s' id) :
    Gone s' id :=
  ⟨hk.unAcked.trans h.unAcked, hk.write.trans h.write, hk.active.trans h.active,
    hk.latestAck.trans h.latestAck⟩

/-- The connections of `lost` are given up, the others are as they were. -/
structure Drops (s : Server A) (lost : List Int) (s' : Server A) : Prop where
  connId : s'.connId = s.connId
  closing : s'.deferedClose = s.deferedClose
  known : ∀ id ∈ lost, s.connIdHostportMap id ≠ none
  gone : ∀ id ∈ lost, Gone s' id
  kept : ∀ id ∉ lost, SameConn s s' id
  hostport : lost = [] → s'.hostportConnIdMap = s.hostportConnIdMap

theorem drops_nil {s s' : Server A} (h : SameConns s s') (hclose : s'.deferedClose = s.deferedClose) :
    Drops s [] s' where
  connId := h.connId
  closing := hclose
  known := nofun
  gone := nofun
  kept id _ := h.conn id
  hostport _ := h.hostport

theorem Drops.trans {s s₁ s₂ : Server A} {l l' : List Int} (h : Drops s l s₁) (h' : Drops s₁ l' s₂) :
    Drops s (l ++ l') s₂ where
  connId := h'.connId.trans h.connId
  closing := h'.closing.trans h.closing
  known id hid := by
    by_cases hl : id ∈ l
    · exact h.known id hl
    · rw [← (h.kept id hl).addr]
      exact h'.known id ((List.mem_append.mp hid).resolve_left hl)
  gone id hid := by
    by_cases hl' : id ∈ l'
    · exact h'.gone id hl'
    · have hl : id ∈ l := (List.mem_append.mp hid).resolve_right hl'
      have hg := h.gone id hl
      have hk := h'.kept id hl'
      exact hg.same hk
  kept id hid := by
    rw [List.mem_append, not_or] at hid
    exact (h'.kept id hid.2).trans (h.kept id hid.1)
  hostport hnil := by
    rw [List.append_eq_nil_iff] at hnil
    exact (h'.hostport hnil.2).trans (h.hostport hnil.1)

/-- Only replies with an error and the marks of lost connections. -/
structure LostOut (out : List (ServerOut A)) (lost : List Int) : Prop where
  datagram : out.filterMap ServerOut.datagram = []
  payload : ∀ id, out.filterMap (ServerOut.payload id) = []
  lost : out.filterMap ServerOut.lost = lost

theorem LostOut.append {out out' : List (ServerOut A)} {l l' : List Int} (h : LostOut out l)
    (h' : LostOut out' l') : LostOut (out ++ out') (l ++ l') := by
  refine ⟨?_, ?_, ?_⟩
  · rw [List.filterMap_append, h.datagram, h'.datagram]
    rfl
  · intro id
    rw [List.filterMap_append, h.payload, h'.payload]
    rfl
  · rw [List.filterMap_append, h.lost, h'.lost]

theorem mem_sendMessageToAddr {raddr : Option A} {m : Message} {o : ServerOut A}
    (h : o ∈ sendMessageToAddr raddr m) : ∃ a, raddr = some a ∧ o = .send a m := by
  unfold sendMessageToAddr at h
  split at h
  · exact ⟨_, rfl, List.mem_singleton.mp h⟩
  · cases h

/-- The datagrams of an epoch: acks, and unacknowledged messages. -/
def Resent (s : Server A) (out : List (ServerOut A)) : Prop :=
  ∀ o ∈ out, ∃ a m id, o = .send a m ∧ s.connIdHostportMap id = some a ∧
    ((∃ b, s.unAckedMsgBuffer id = some b ∧ m ∈ b.l) ∨
      ∃ b, s.latestAckBuffer id = some b ∧ (m ∈ b.l ∨ m = newAck id 0))

theorem Resent.lost {s : Server A} {out : List (ServerOut A)} (h : Resent s out) :
    out.filterMap ServerOut.lost = [] := by
  refine List.filterMap_eq_nil_iff.mpr fun o ho => ?_
  obtain ⟨a, m, id, rfl, -⟩ := h o ho
  rfl

theorem Resent.payload {s : Server A} {out : List (ServerOut A)} (h : Resent s out) (id : Int) :
    out.filterMap (ServerOut.payload id) = [] := by
  refine List.filterMap_eq_nil_iff.mpr fun o ho => ?_
  obtain ⟨a, m, id', rfl, -⟩ := h o ho
  rfl

theorem resent_acks (s : Server A) (order : List Int) : Resent s (order.flatMap s.resendAcks) := by
  intro o ho
  obtain ⟨id, -, ho⟩ := List.mem_flatMap.mp ho
  unfold Server.resendAcks at ho
  split at ho
  · cases ho
  · rename_i b hb
    split at ho
    · split at ho
      · obtain ⟨a, ha, rfl⟩ := mem_sendMessageToAddr ho
        exact ⟨a, _, id, rfl, ha, .inr ⟨b, hb, .inr rfl⟩⟩
      · obtain ⟨m, hm, ho⟩ := List.mem_flatMap.mp ho
        obtain ⟨a, ha, rfl⟩ := mem_sendMessageToAddr ho
        exact ⟨a, m, id, rfl, ha, .inr ⟨b, hb, .inl hm⟩⟩
    · cases ho

theorem resent_unAcked (s : Server A) (order : List Int) :
    Resent s (order.flatMap s.resendUnAcked) := by
  intro o ho
  obtain ⟨id, -, ho⟩ := List.mem_flatMap.mp ho
  unfold Server.resendUnAcked at ho
  split at ho
  · cases ho
  · rename_i b hb
    obtain ⟨m, hm, ho⟩ := List.mem_flatMap.mp ho
    obtain ⟨a, ha, rfl⟩ := mem_sendMessageToAddr ho
    exact ⟨a, m, id, rfl, ha, .inl ⟨b, hb, hm⟩⟩

/-! ## Epochs -/

theorem exists_of_mapM {α β : Type} {f : α → Option β} {l : List α} {l' : List β}
    (h : l.mapM f = some l') {b : β} (hb : b ∈ l') : ∃ a ∈ l, f a = some b := by
  induction l generalizing l' with
  | nil =>
    cases h
    cases hb
  | cons a l ih =>
    simp only [List.mapM_cons, Option.bind_eq_bind, Option.bind_eq_some_iff, Option.pure_def,
      Option.some.injEq] at h
    obtain ⟨b₀, hb₀, l₀, hl₀, rfl⟩ := h
    rcases List.mem_cons.mp hb with rfl | hb
    · exact ⟨a, List.mem_cons_self, hb₀⟩
    · obtain ⟨x, hx, hfx⟩ := ih hl₀ hb
      exact ⟨x, List.mem_cons_of_mem _ hx, hfx⟩

theorem mem_of_mapM {α β : Type} {f : α → Option β} {l : List α} {l' : List β}
    (h : l.mapM f = some l') {a : α} (ha : a ∈ l) : ∃ b ∈ l', f a = some b := by
  induction l generalizing l' with
  | nil => cases ha
  | cons x l ih =>
    simp only [List.mapM_cons, Option.bind_eq_bind, Option.bind_eq_some_iff, Option.pure_def,
      Option.some.injEq] at h
    obtain ⟨b₀, hb₀, l₀, hl₀, rfl⟩ := h
    rcases List.mem_cons.mp ha with rfl | ha
    · exact ⟨b₀, List.mem_cons_self, hb₀⟩
    · obtain ⟨b, hb, hfb⟩ := ih hl₀ ha
      exact ⟨b, List.mem_cons_of_mem _ hb, hfb⟩

/-- The connection `id` with the client at `addr` is given up. -/
def Server.giveUp [DecidableEq A] (s : Server A) (id : Int) (addr : A) : Server A := { s with
  connLostInClosing := s.connLostInClosing || s.deferedClose.length > 0
  activeConn := mapDelete s.activeConn id
  hostportConnIdMap := mapDelete s.hostportConnIdMap addr
  connIdHostportMap := mapDelete s.connIdHostportMap id
  writeBuffer := mapDelete s.writeBuffer id
  unAckedMsgBuffer := mapDelete s.unAckedMsgBuffer id
  latestAckBuffer := mapDelete s.latestAckBuffer id
  latestActiveEpoch := mapDelete s.latestActiveEpoch id
  seqNum := mapDelete s.seqNum id }

/-- What the loop does with one connection: nothing, or it is given up, and a
blocked read may be told. -/
inductive Detects [DecidableEq A] (P : Params) (s : Server A) (id : Int) :
    Server A → List (ServerOut A) → Prop
  | kept (hsoon : ∀ e, s.latestActiveEpoch id = some e → s.currEpoch - e < P.epochLimit) :
      Detects P s id s []
  | lost {addr : A} (haddr : s.connIdHostportMap id = some addr) :
      Detects P s id (s.giveUp id addr) [.connLost id]
  | told {addr : A} {readReq : Nat} {rest : List Nat} (haddr : s.connIdHostportMap id = some addr)
      (hreads : s.deferedRead = readReq :: rest) :
      Detects P s id
        { s.giveUp id addr with
          readBuffer := mapDelete s.readBuffer id
          expectedSeqNum := mapDelete s.expectedSeqNum id
          deferedRead := rest }
        [.reply readReq ⟨.bundle id [], some "some connection gets lost"⟩, .connLost id]

/-- What an epoch sends on the connections that are left. -/
def Server.resent (s : Server A) (o : Orders) : List (ServerOut A) :=
  (if s.deferedClose.length = 0 then o.second.flatMap s.resendAcks else []) ++
    o.third.flatMap s.resendUnAcked

/-- What a `Close` that has waited returns. -/
def Server.closeRet (s : Server A) : RetType :=
  if s.connLostInClosing then
    ⟨.nil, some "some connections lost in the cleaning up process"⟩ else ⟨.nil, none⟩

/-- An epoch is the loop, and the end of the server when a `Close` waits and
nothing is pending any more. -/
inductive Epochs [DecidableEq A] (P : Params) (s : Server A) (o : Orders) :
    Server A → List (ServerOut A) → Prop
  | stays {s₁ : Server A} {lostOut : List (ServerOut A)}
      (hloop : Server.detectLostAll P { s with currEpoch := s.currEpoch + 1 } o.first =
        some (s₁, lostOut))
      (hbusy : s₁.deferedClose ≠ [] → ∃ id ∈ o.third, s₁.pending id = some true) :
      Epochs P s o s₁ (lostOut ++ s₁.resent o)
  | ends {s₁ : Server A} {lostOut : List (ServerOut A)}
      (hloop : Server.detectLostAll P { s with currEpoch := s.currEpoch + 1 } o.first =
        some (s₁, lostOut))
      (hclosing : s₁.deferedClose ≠ []) (hidle : ∀ id ∈ o.third, s₁.pending id = some false) :
      Epochs P s o { s₁ with serverRunning := false }
        (lostOut ++ s₁.resent o ++
          s₁.deferedClose.map (fun closeReq => .reply closeReq s₁.closeRet) ++ [.shutDown])

section Epoch

variable [DecidableEq A] {P : Params} {s s' : Server A} {out : List (ServerOut A)}

theorem detects_of_detectLost {id : Int} (h : s.detectLost P id = some (s', out)) :
    Detects P s id s' out := by
  unfold Server.detectLost at h
  split at h
  · rename_i hnone
    cases h
    exact .kept fun e he => by rw [hnone] at he; cases he
  · rename_i e he
    split at h
    · simp only [Option.bind_eq_bind, Option.bind_eq_some_iff, Option.pure_def, Option.some.injEq,
        Prod.mk.injEq] at h
      obtain ⟨rb, -, addr, haddr, rfl, rfl⟩ := h
      have haddr' : s.connIdHostportMap id = some addr := by
        split at haddr
        · exact haddr
        · exact haddr
      split
      · rename_i readReq rest hready hreads
        exact .told haddr' hreads
      · exact .lost haddr'
    · rename_i hlate
      cases h
      refine .kept fun e' he' => ?_
      rw [he] at he'
      cases he'
      exact not_le.mp hlate

/-- A relation that every connection's turn keeps, the loop keeps. -/
theorem detectLostAll_rule {R : Server A → Server A → List (ServerOut A) → Prop}
    (hnil : ∀ s, R s s [])
    (htrans : ∀ {s s₁ s₂ o₁ o₂}, R s s₁ o₁ → R s₁ s₂ o₂ → R s s₂ (o₁ ++ o₂))
    (hone : ∀ {s s₁ o id}, Detects P s id s₁ o → R s s₁ o) {order : List Int}
    (h : s.detectLostAll P order = some (s', out)) : R s s' out := by
  induction order generalizing s s' out with
  | nil =>
    cases h
    exact hnil s
  | cons id rest ih =>
    simp only [Server.detectLostAll, Option.bind_eq_bind, Option.bind_eq_some_iff, Option.pure_def,
      Option.some.injEq, Prod.mk.injEq] at h
    obtain ⟨⟨s₁, out₁⟩, h₁, ⟨s₂, out₂⟩, h₂, rfl, rfl⟩ := h
    exact htrans (hone (detects_of_detectLost h₁)) (ih h₂)

theorem Detects.drops {id : Int} (h : Detects P s id s' out) :
    ∃ lost, Drops s lost s' ∧ LostOut out lost := by
  cases h with
  | kept hsoon => exact ⟨[], drops_nil (.refl s) rfl, rfl, fun _ => rfl, rfl⟩
  | _ haddr =>
    refine ⟨[id], ⟨rfl, rfl, ?_, ?_, ?_, nofun⟩, rfl, fun _ => rfl, rfl⟩
    · intro id' hid
      rw [List.mem_singleton.mp hid, haddr]
      nofun
    · intro id' hid
      rw [List.mem_singleton.mp hid]
      exact ⟨Function.update_self .., Function.update_self .., Function.update_self ..,
        Function.update_self ..⟩
    · intro id' hid
      have hne : id' ≠ id := fun he => hid (he ▸ List.mem_singleton_self _)
      refine ⟨?_, ?_, ?_, ?_, ?_, ?_, ?_, ?_⟩ <;>
        first | exact Function.update_of_ne hne .. | rfl

theorem drops_of_detectLostAll {order : List Int} (h : s.detectLostAll P order = some (s', out)) :
    ∃ lost, Drops s lost s' ∧ LostOut out lost := by
  refine detectLostAll_rule (R := fun s s' out => ∃ lost, Drops s lost s' ∧ LostOut out lost)
    ?_ ?_ Detects.drops h
  · intro s
    exact ⟨[], drops_nil (.refl s) rfl, rfl, fun _ => rfl, rfl⟩
  · rintro s s₁ s₂ o₁ o₂ ⟨l₁, hd₁, ho₁⟩ ⟨l₂, hd₂, ho₂⟩
    exact ⟨l₁ ++ l₂, hd₁.trans hd₂, ho₁.append ho₂⟩

omit [DecidableEq A] in
theorem resent_epoch (s : Server A) (o : Orders) : Resent s (s.resent o) := by
  intro x hx
  rcases List.mem_append.mp hx with hx | hx
  · split at hx
    · exact resent_acks s _ x hx
    · cases hx
  · exact resent_unAcked s _ x hx

theorem epochs_of_handleEpoch {o : Orders} (h : s.handleEpoch P o = some (s', out)) :
    Epochs P s o s' out := by
  simp only [Server.handleEpoch, Option.bind_eq_bind, Option.bind_eq_some_iff] at h
  obtain ⟨⟨s₁, lostOut⟩, h₁, pending, hp, h⟩ := h
  split at h
  · rename_i hend
    simp only [Option.pure_def, Option.some.injEq, Prod.mk.injEq] at h
    obtain ⟨rfl, rfl⟩ := h
    rw [List.append_assoc lostOut]
    refine .ends h₁ (List.length_pos_iff.mp hend.1) fun id hid => ?_
    obtain ⟨x, hx, hpx⟩ := mem_of_mapM hp hid
    have hfalse := List.all_eq_true.mp hend.2 x hx
    rw [Bool.not_eq_true'] at hfalse
    rw [hpx, hfalse]
  · rename_i hstay
    simp only [Option.pure_def, Option.some.injEq, Prod.mk.injEq] at h
    obtain ⟨rfl, rfl⟩ := h
    rw [List.append_assoc lostOut]
    refine .stays h₁ fun hclosing => ?_
    by_contra hnone
    refine hstay ⟨List.length_pos_iff.mpr hclosing, List.all_eq_true.mpr fun x hx => ?_⟩
    obtain ⟨id, hid, hpx⟩ := exists_of_mapM hp hx
    cases x with
    | false => rfl
    | true => exact absurd ⟨id, hid, hpx⟩ hnone

end Epoch

/-- The request is no accepted `Write` and no ack for a connection. -/
structure PassiveReq [DecidableEq A] (s : Server A) (req : ServerReq A) (out : List (ServerOut A)) :
    Prop where
  reject : ∀ id p, req.op = .dowrite id p → .reply req.replyc ⟨.nil, none⟩ ∉ out
  noAck : ∀ a msg, req.op = .receivemsg a msg → msg.type = .ack → s.connIdOf a ≤ 0

/-- `CloseConn` ends the connection, and keeps its sending half while there is
something to send or to be acknowledged. -/
structure Closes (s : Server A) (id : Int) (s' : Server A) : Prop where
  connId : s'.connId = s.connId
  closing : s'.deferedClose = s.deferedClose
  others : ∀ id', id' ≠ id → SameConn s s' id'
  inactive : s'.activeConn id = none
  latestAck : s'.latestAckBuffer id = none
  sending : (s'.unAckedMsgBuffer id = s.unAckedMsgBuffer id ∧
      s'.writeBuffer id = s.writeBuffer id) ∨
    (s'.unAckedMsgBuffer id = none ∧ s'.writeBuffer id = none ∧
      ∃ u w, s.unAckedMsgBuffer id = some u ∧ s.writeBuffer id = some w ∧ u.l = [] ∧ w.l = [])

/-- The effects of one event on the connections, with its outputs. -/
inductive ServerEffect [DecidableEq A] (P : Params) (s : Server A) :
    ServerReq A → Server A → List (ServerOut A) → Prop
  | quiet {req : ServerReq A} {s' : Server A} {out : List (ServerOut A)} (hsame : SameConns s s')
      (hout : Silent out) (hpass : PassiveReq s req out) : ServerEffect P s req s' out
  | read {req : ServerReq A} {s' : Server A} {out : List (ServerOut A)} (hop : req.op = .doread)
      (heff : ReadEffect s s' out) : ServerEffect P s req s' out
  | write {req : ServerReq A} {id : Int} {p : Payload} {addr : A} {u w : Buffer}
      {r : Buffer × Buffer × List Message} (hop : req.op = .dowrite id p)
      (hclose : s.deferedClose = []) (hactive : s.active id = true)
      (haddr : s.connIdHostportMap id = some addr)
      (hu : s.unAckedMsgBuffer id = some u) (hw : s.writeBuffer id = some w)
      (hr : sendOrQueue P.windowSize u w (newData id ((s.seqNum id).getD 0 + 1) p) = r) :
      ServerEffect P s req { s with
          seqNum := mapSet s.seqNum id ((s.seqNum id).getD 0 + 1)
          unAckedMsgBuffer := mapSet s.unAckedMsgBuffer id r.1
          writeBuffer := mapSet s.writeBuffer id r.2.1 }
        (r.2.2.map (.send addr) ++ [.reply req.replyc ⟨.nil, none⟩])
  | closeConn {req : ServerReq A} {id : Int} {s' : Server A} {out : List (ServerOut A)}
      (hop : req.op = .docloseconn id) (hactive : s.active id = true) (hcloses : Closes s id s')
      (hout : Silent out) : ServerEffect P s req s' out
  | epoch {req : ServerReq A} {s₁ s' : Server A} {lost : List Int}
      {out₁ out₂ out₃ : List (ServerOut A)} (hop : req.op = .epochtimer) (hdrops : Drops s lost s₁)
      (hlost : LostOut out₁ lost) (hsent : Resent s₁ out₂) (hsame : SameConns s₁ s')
      (hout : Silent out₃) : ServerEffect P s req s' (out₁ ++ out₂ ++ out₃)
  | opened {req : ServerReq A} {addr : A} {msg : Message} (hop : req.op = .receivemsg addr msg)
      (htype : msg.type = .connect) (hclose : s.deferedClose = []) (hnew : s.connIdOf addr = 0) :
      ServerEffect P s req (s.handleConnect addr).1 [.send addr (newAck (s.connId + 1) 0)]
  | ackMissed {req : ServerReq A} {addr : A} {msg : Message} {u : Buffer} {s' : Server A}
      (hop : req.op = .receivemsg addr msg) (htype : msg.type = .ack)
      (hid : s.connIdOf addr > 0) (hu : s.unAckedMsgBuffer (s.connIdOf addr) = some u)
      (hmiss : (u.delete msg.seqNum).2 = false) (hsame : SameConns s s') :
      ServerEffect P s req s' []
  | ack {req : ServerReq A} {addr : A} {msg : Message} {u w : Buffer}
      {r : Bool × Buffer × Buffer × List Message} {s' : Server A}
      (hop : req.op = .receivemsg addr msg) (htype : msg.type = .ack)
      (hid : s.connIdOf addr > 0) (hu : s.unAckedMsgBuffer (s.connIdOf addr) = some u)
      (hw : s.writeBuffer (s.connIdOf addr) = some w)
      (hr : ackReceived P.windowSize u w msg.seqNum = some r)
      (hsame : SameConns { s with
          unAckedMsgBuffer := mapSet s.unAckedMsgBuffer (s.connIdOf addr) r.2.1
          writeBuffer := mapSet s.writeBuffer (s.connIdOf addr) r.2.2.1 } s') :
      ServerEffect P s req s' (r.2.2.2.map (.send addr))
  | lastAck {req : ServerReq A} {addr : A} {msg : Message} {u w : Buffer}
      {r : Bool × Buffer × Buffer × List Message} {s' : Server A}
      (hop : req.op = .receivemsg addr msg) (htype : msg.type = .ack)
      (hid : s.connIdOf addr > 0) (hu : s.unAckedMsgBuffer (s.connIdOf addr) = some u)
      (hw : s.writeBuffer (s.connIdOf addr) = some w)
      (hr : ackReceived P.windowSize u w msg.seqNum = some r) (hnil : r.2.1.l = [])
      (hclosed : s.active (s.connIdOf addr) = false ∨ s.deferedClose ≠ [])
      (hsame : SameConns (s.cleanUp addr (s.connIdOf addr)) s') :
      ServerEffect P s req s' (r.2.2.2.map (.send addr))
  | data {req : ServerReq A} {addr : A} {msg : Message} {rb lab : Buffer} {r : Buffer × Buffer}
      {s₁ s' : Server A} {out : List (ServerOut A)}
      (hop : req.op = .receivemsg addr msg) (htype : msg.type = .data)
      (hid : s.connIdOf addr > 0) (hge : msg.seqNum ≥ s.expected (s.connIdOf addr))
      (hrb : s.readBuffer (s.connIdOf addr) = some rb)
      (hlab : s.latestAckBuffer (s.connIdOf addr) = some lab)
      (hr : acceptData P.windowSize (s.connIdOf addr) rb lab msg = some r)
      (hsame : SameConns { s with
          readBuffer := mapSet s.readBuffer (s.connIdOf addr) r.1
          latestAckBuffer := mapSet s.latestAckBuffer (s.connIdOf addr) r.2 } s₁)
      (heff : ReadEffect s₁ s' out) :
      ServerEffect P s req s' (.send addr (newAck (s.connIdOf addr) msg.seqNum) :: out)

theorem pending_eq_false {s : Server A} {id : Int} {u : Buffer}
    (hu : s.unAckedMsgBuffer id = some u) (h : s.pending id = some false) :
    ∃ w, s.writeBuffer id = some w ∧ u.l = [] ∧ w.l = [] := by
  unfold Server.pending at h
  rw [hu] at h
  simp only at h
  split at h
  · cases h
  · rename_i hlen
    obtain ⟨w, hw, hwl⟩ := Option.map_eq_some_iff.mp h
    refine ⟨w, hw, Buffer.len_eq_zero.mp (Nat.eq_zero_of_not_pos hlen), ?_⟩
    exact Buffer.len_eq_zero.mp (Nat.eq_zero_of_not_pos (of_decide_eq_false hwl))

/-! ## The handlers taken apart

What is proved later about `Write`, an ack, `CloseConn` and `Close` goes by these cases. -/

/-- A `Write` is turned down, or its message is sent or queued. -/
inductive Writes (P : Params) (s : Server A) (id : Int) (p : Payload) (replyc : Nat) :
    Server A → List (ServerOut A) → Prop
  | rejected (text : String) : Writes P s id p replyc s [.reply replyc ⟨.nil, some text⟩]
  | accepted {addr : A} {u w : Buffer} {r : Buffer × Buffer × List Message}
      (hclose : s.deferedClose = []) (hactive : s.active id = true)
      (haddr : s.connIdHostportMap id = some addr)
      (hu : s.unAckedMsgBuffer id = some u) (hw : s.writeBuffer id = some w)
      (hr : sendOrQueue P.windowSize u w (newData id ((s.seqNum id).getD 0 + 1) p) = r) :
      Writes P s id p replyc { s with
          seqNum := mapSet s.seqNum id ((s.seqNum id).getD 0 + 1)
          unAckedMsgBuffer := mapSet s.unAckedMsgBuffer id r.1
          writeBuffer := mapSet s.writeBuffer id r.2.1 }
        (r.2.2.map (.send addr) ++ [.reply replyc ⟨.nil, none⟩])

theorem writes_of_handle {P : Params} {s s' : Server A} {id : Int} {p : Payload} {replyc : Nat}
    {out : List (ServerOut A)} (h : s.handleWrite P id p replyc = some (s', out)) :
    Writes P s id p replyc s' out := by
  unfold Server.handleWrite at h
  split at h
  · cases h
    exact .rejected _
  · rename_i hopen
    rw [not_or] at hopen
    split at h
    · rename_i addr haddr
      simp only [Option.bind_eq_bind, Option.bind_eq_some_iff, Option.pure_def, Option.some.injEq,
        Prod.mk.injEq] at h
      obtain ⟨u, hu, w, hw, rfl, rfl⟩ := h
      refine .accepted ?_ ?_ haddr hu hw rfl
      · exact List.length_eq_zero_iff.mp (Nat.eq_zero_of_not_pos hopen.1)
      · simpa using hopen.2
    · cases h
      exact .rejected _

/-- The connection is active in this epoch. -/
def Server.heardFrom (s : Server A) (id : Int) : Server A :=
  { s with latestActiveEpoch := mapSet s.latestActiveEpoch id s.currEpoch }

/-- An ack of nobody, of no message that waits for one, or of one that does; in the
last case the connection may be over. -/
inductive HandlesAck [DecidableEq A] (P : Params) (s : Server A) (addr : A) (msg : Message) :
    Server A → List (ServerOut A) → Prop
  | unknown (hid : ¬s.connIdOf addr > 0) : HandlesAck P s addr msg s []
  | missed {u : Buffer} (hid : s.connIdOf addr > 0)
      (hu : s.unAckedMsgBuffer (s.connIdOf addr) = some u)
      (hmiss : (u.delete msg.seqNum).2 = false) :
      HandlesAck P s addr msg (s.heardFrom (s.connIdOf addr)) []
  | acked {u w : Buffer} {r : Bool × Buffer × Buffer × List Message}
      (hid : s.connIdOf addr > 0) (hu : s.unAckedMsgBuffer (s.connIdOf addr) = some u)
      (hw : s.writeBuffer (s.connIdOf addr) = some w)
      (hr : ackReceived P.windowSize u w msg.seqNum = some r) :
      HandlesAck P s addr msg
        { s.heardFrom (s.connIdOf addr) with
          unAckedMsgBuffer := mapSet s.unAckedMsgBuffer (s.connIdOf addr) r.2.1
          writeBuffer := mapSet s.writeBuffer (s.connIdOf addr) r.2.2.1 }
        (r.2.2.2.map (.send addr))
  | last {u w : Buffer} {r : Bool × Buffer × Buffer × List Message}
      (hid : s.connIdOf addr > 0) (hu : s.unAckedMsgBuffer (s.connIdOf addr) = some u)
      (hw : s.writeBuffer (s.connIdOf addr) = some w)
      (hr : ackReceived P.windowSize u w msg.seqNum = some r) (hnil : r.2.1.l = [])
      (hclosed : s.active (s.connIdOf addr) = false ∨ s.deferedClose ≠ []) :
      HandlesAck P s addr msg
        (Server.cleanUp { s.heardFrom (s.connIdOf addr) with
          unAckedMsgBuffer := mapSet s.unAckedMsgBuffer (s.connIdOf addr) r.2.1
          writeBuffer := mapSet s.writeBuffer (s.connIdOf addr) r.2.2.1 } addr (s.connIdOf addr))
        (r.2.2.2.map (.send addr))

theorem handlesAck_of_handle [DecidableEq A] {P : Params} {s s' : Server A} {addr : A}
    {msg : Message} {out : List (ServerOut A)} (h : s.handleAck P addr msg = some (s', out)) :
    HandlesAck P s addr msg s' out := by
  unfold Server.handleAck at h
  simp only at h
  split at h
  · rename_i hid
    simp only [Option.bind_eq_bind, Option.bind_eq_some_iff] at h
    obtain ⟨u, hu, h⟩ := h
    split at h
    · simp only [Option.bind_eq_some_iff] at h
      obtain ⟨w, hw, r, hr, h⟩ := h
      split at h
      · rename_i hlast
        cases h
        refine .last hid hu hw hr (Buffer.len_eq_zero.mp hlast.1) ?_
        rcases hlast.2 with hina | hcl
        · exact .inl (by simpa [Server.active] using hina)
        · exact .inr (List.length_pos_iff.mp hcl)
      · cases h
        exact .acked hid hu hw hr
    · rename_i hmiss
      cases h
      exact .missed hid hu (Bool.eq_false_iff.mpr hmiss)
  · rename_i hid
    cases h
    exact .unknown hid

/-- What `CloseConn` forgets of a connection in any case. -/
def Server.forgetConn (s : Server A) (id : Int) : Server A := { s with
  readBuffer := mapDelete s.readBuffer id
  latestAckBuffer := mapDelete s.latestAckBuffer id
  latestActiveEpoch := mapDelete s.latestActiveEpoch id
  expectedSeqNum := mapDelete s.expectedSeqNum id
  seqNum := mapDelete s.seqNum id
  activeConn := mapDelete s.activeConn id }

/-- `CloseConn` tells one blocked read, and gives the sending half up at once if
nothing is pending. -/
inductive ClosesConn [DecidableEq A] (s : Server A) (id : Int) (replyc : Nat) :
    Server A → List (ServerOut A) → Prop
  | unknown : ClosesConn s id replyc s [.reply replyc ⟨.nil, some "connection ID doesn't exist"⟩]
  | waits {told : List (ServerOut A)} (hactive : s.active id = true) (htold : Silent told)
      (hpending : s.pending id = some true) :
      ClosesConn s id replyc
        (Server.forgetConn { s with deferedRead := s.deferedRead.tail } id)
        (told ++ [.reply replyc ⟨.nil, none⟩])
  | ends {told : List (ServerOut A)} {addr : A} {u : Buffer} (hactive : s.active id = true)
      (htold : Silent told) (hu : s.unAckedMsgBuffer id = some u)
      (hpending : s.pending id = some false) (haddr : s.connIdHostportMap id = some addr) :
      ClosesConn s id replyc
        (Server.forgetConn { s with
          deferedRead := s.deferedRead.tail
          writeBuffer := mapDelete s.writeBuffer id
          unAckedMsgBuffer := mapDelete s.unAckedMsgBuffer id
          hostportConnIdMap := mapDelete s.hostportConnIdMap addr
          connIdHostportMap := mapDelete s.connIdHostportMap id } id)
        (told ++ [.reply replyc ⟨.nil, none⟩])

theorem unblockRead_eq {s s' : Server A} {id : Int} {out : List (ServerOut A)}
    (h : s.unblockRead id = some (s', out)) :
    s' = { s with deferedRead := s.deferedRead.tail } ∧ Silent out := by
  unfold Server.unblockRead at h
  split at h
  · rename_i hreads
    obtain ⟨readReq, -, hr⟩ := Option.map_eq_some_iff.mp h
    cases hr
    rw [hreads]
    exact ⟨rfl, silent_error _ _ _⟩
  · rename_i hreads
    cases h
    rw [hreads, List.tail_nil, ← hreads]
    exact ⟨rfl, silent_nil⟩

theorem closesConn_of_handle [DecidableEq A] {s s' : Server A} {id : Int} {replyc : Nat}
    {out : List (ServerOut A)} (h : s.handleCloseConn id replyc = some (s', out)) :
    ClosesConn s id replyc s' out := by
  unfold Server.handleCloseConn at h
  split at h
  · rename_i hactive
    simp only [Option.bind_eq_bind, Option.bind_eq_some_iff, Option.pure_def, Option.some.injEq,
      Prod.mk.injEq] at h
    obtain ⟨⟨s₁, told⟩, h₁, s₂, h₂, rfl, rfl⟩ := h
    obtain ⟨rfl, htold⟩ := unblockRead_eq h₁
    unfold Server.releaseSending at h₂
    split at h₂
    · rename_i hpending
      cases h₂
      exact .waits hactive htold hpending
    · rename_i hu hpending
      obtain ⟨addr, haddr, rfl⟩ := Option.map_eq_some_iff.mp h₂
      exact .ends hactive htold hu hpending haddr
    · cases h₂
  · cases h
    exact .unknown

/-- The blocked reads are told that the server is closed. -/
def ToldClosed (out : List (ServerOut A)) : Prop :=
  ∀ o ∈ out, ∃ readReq, o = .reply readReq ⟨.bundle 0 [], some "the server is closed"⟩

theorem ToldClosed.silent {out : List (ServerOut A)} (h : ToldClosed out) : Silent out := by
  refine ⟨?_, fun id => ?_, ?_⟩ <;> refine List.filterMap_eq_nil_iff.mpr fun o ho => ?_ <;>
    obtain ⟨readReq, rfl⟩ := h o ho <;> rfl

/-- `Close` ends the server if nothing is pending, and otherwise waits. -/
inductive ClosesServer (s : Server A) (replyc : Nat) (o : Orders) :
    Server A → List (ServerOut A) → Prop
  | ends {told : List (ServerOut A)} (htold : ToldClosed told)
      (hidle : ∀ id ∈ o.first, s.pending id = some false) :
      ClosesServer s replyc o { s with deferedRead := [], serverRunning := false }
        (told ++ [.shutDown, .reply replyc ⟨.nil, none⟩])
  | waits {told : List (ServerOut A)} (htold : ToldClosed told) :
      ClosesServer s replyc o
        { s with deferedRead := [], deferedClose := s.deferedClose ++ [replyc] } told

theorem pending_of_firstPending {s : Server A} {order : List Int}
    (h : Server.handleClose.firstPending s order = some false) :
    ∀ id ∈ order, s.pending id = some false := by
  induction order with
  | nil => exact fun _ hid => nomatch hid
  | cons c rest ih =>
    simp only [Server.handleClose.firstPending, Option.bind_eq_bind, Option.bind_eq_some_iff] at h
    obtain ⟨b, hb, h⟩ := h
    split at h
    · cases h
    · rename_i hfalse
      rw [Bool.not_eq_true] at hfalse
      subst hfalse
      intro id hid
      rcases List.mem_cons.mp hid with rfl | hid
      · exact hb
      · exact ih h id hid

theorem closesServer_of_handle {s s' : Server A} {replyc : Nat} {o : Orders}
    {out : List (ServerOut A)} (h : s.handleClose replyc o = some (s', out)) :
    ClosesServer s replyc o s' out := by
  unfold Server.handleClose at h
  simp only [Option.bind_eq_bind, Option.bind_eq_some_iff] at h
  obtain ⟨told, h₁, b, hb, h⟩ := h
  have htold : ToldClosed told := by
    intro o ho
    obtain ⟨i, -, hi⟩ := exists_of_mapM h₁ ho
    obtain ⟨readReq, -, rfl⟩ := Option.map_eq_some_iff.mp hi
    exact ⟨readReq, rfl⟩
  split at h
  · rename_i hnone
    cases h
    rw [Bool.not_eq_true'] at hnone
    rw [hnone] at hb
    exact .ends htold fun id hid => pending_of_firstPending hb id hid
  · cases h
    exact .waits htold

/-! ## The effect of each handler -/

section Effects

variable [DecidableEq A] {P : Params} {s s' : Server A} {req : ServerReq A}
  {out : List (ServerOut A)}

theorem effect_of_serverWrite {id : Int} {p : Payload} (hop : req.op = .dowrite id p)
    (h : s.handleWrite P id p req.replyc = some (s', out)) : ServerEffect P s req s' out := by
  cases writes_of_handle h with
  | rejected text =>
    refine .quiet (.refl s) (silent_error _ _ _) ⟨?_, ?_⟩
    · intro id' p' _ hmem
      cases List.mem_singleton.mp hmem
    · intro a msg hop'
      rw [hop] at hop'
      cases hop'
  | accepted hclose hactive haddr hu hw hr => exact .write hop hclose hactive haddr hu hw hr

theorem effect_of_serverConnect {addr : A} {msg : Message} (hop : req.op = .receivemsg addr msg)
    (htype : msg.type = .connect) (h : s.handleConnect addr = (s', out)) :
    ServerEffect P s req s' out := by
  by_cases hc : s.deferedClose.length = 0 ∧ s.connIdOf addr = 0
  · have heff : ServerEffect P s req (s.handleConnect addr).1 _ :=
      .opened hop htype (List.length_eq_zero_iff.mp hc.1) hc.2
    have hout : out = [.send addr (newAck (s.connId + 1) 0)] := by
      rw [show out = (s.handleConnect addr).2 by rw [h]]
      unfold Server.handleConnect
      rw [if_pos hc]
    rw [h] at heff
    rw [hout]
    exact heff
  · unfold Server.handleConnect at h
    rw [if_neg hc] at h
    cases h
    refine .quiet (.refl s) silent_nil ⟨?_, ?_⟩
    · intro id p hop'
      rw [hop] at hop'
      cases hop'
    · intro a m hop' hty
      rw [hop] at hop'
      cases hop'
      rw [htype] at hty
      cases hty

theorem effect_of_serverAck {addr : A} {msg : Message} (hop : req.op = .receivemsg addr msg)
    (htype : msg.type = .ack) (h : s.handleAck P addr msg = some (s', out)) :
    ServerEffect P s req s' out := by
  cases handlesAck_of_handle h with
  | unknown hid =>
    refine .quiet (.refl s) silent_nil ⟨?_, ?_⟩
    · intro id p hop'
      rw [hop] at hop'
      cases hop'
    · intro a m hop' _
      rw [hop] at hop'
      cases hop'
      exact not_lt.mp hid
  | missed hid hu hmiss =>
    exact .ackMissed hop htype hid hu hmiss
      ⟨⟨rfl, rfl, rfl, rfl, rfl, id⟩, rfl, rfl, rfl, rfl, rfl⟩
  | acked hid hu hw hr =>
    exact .ack hop htype hid hu hw hr ⟨⟨rfl, rfl, rfl, rfl, rfl, id⟩, rfl, rfl, rfl, rfl, rfl⟩
  | last hid hu hw hr hnil hclosed =>
    refine .lastAck hop htype hid hu hw hr hnil hclosed
      ⟨⟨?_, ?_, rfl, rfl, rfl, id⟩, rfl, rfl, rfl, rfl, rfl⟩
    · exact Function.update_idem ..
    · exact Function.update_idem ..

theorem effect_of_serverData {addr : A} {msg : Message} {o : Orders}
    (hop : req.op = .receivemsg addr msg) (htype : msg.type = .data)
    (h : s.handleData P addr msg o = some (s', out)) : ServerEffect P s req s' out := by
  have ignored : ∀ s₁ : Server A, SameConns s s₁ → ServerEffect P s req s₁ [] := by
    intro s₁ hsame
    refine .quiet hsame silent_nil ⟨?_, ?_⟩
    · intro id p hop'
      rw [hop] at hop'
      cases hop'
    · intro a m hop' hty
      rw [hop] at hop'
      cases hop'
      rw [htype] at hty
      cases hty
  unfold Server.handleData at h
  simp only at h
  split at h
  · rename_i hc
    split at h
    · rename_i hge
      simp only [Option.bind_eq_bind, Option.bind_eq_some_iff] at h
      obtain ⟨rb, hrb, lab, hlab, r, hr, h⟩ := h
      -- without a blocked read, and for a message that is not the expected one
      have later : ∀ s₁ : Server A, SameConns { s with
          readBuffer := mapSet s.readBuffer (s.connIdOf addr) r.1
          latestAckBuffer := mapSet s.latestAckBuffer (s.connIdOf addr) r.2 } s₁ →
          ServerEffect P s req s₁ [.send addr (newAck (s.connIdOf addr) msg.seqNum)] :=
        fun s₁ hsame => .data hop htype hc.1 hge hrb hlab hr hsame (.quiet (.refl s₁) silent_nil)
      split at h
      · split at h
        · simp only [Option.bind_eq_some_iff, Option.pure_def, Option.some.injEq,
            Prod.mk.injEq] at h
          obtain ⟨t, ht, rfl, rfl⟩ := h
          refine .data hop htype hc.1 hge hrb hlab hr ?_ (effect_of_serverRead ht)
          exact ⟨⟨rfl, rfl, rfl, rfl, rfl, id⟩, rfl, rfl, rfl, rfl, rfl⟩
        · cases h
          exact later _ ⟨⟨rfl, rfl, rfl, rfl, rfl, id⟩, rfl, rfl, rfl, rfl, rfl⟩
      · cases h
        exact later _ ⟨⟨rfl, rfl, rfl, rfl, rfl, id⟩, rfl, rfl, rfl, rfl, rfl⟩
    · cases h
      exact ignored _ ⟨⟨rfl, rfl, rfl, rfl, rfl, id⟩, rfl, rfl, rfl, rfl, rfl⟩
  · cases h
    exact ignored s (.refl s)

theorem effect_of_serverCloseConn {id : Int} (hop : req.op = .docloseconn id)
    (h : s.handleCloseConn id req.replyc = some (s', out)) : ServerEffect P s req s' out := by
  cases closesConn_of_handle h with
  | unknown =>
    refine .quiet (.refl s) (silent_error _ _ _) ⟨?_, ?_⟩
    · intro id' p hop'
      rw [hop] at hop'
      cases hop'
    · intro a m hop'
      rw [hop] at hop'
      cases hop'
  | waits hactive htold hpending =>
    refine .closeConn hop hactive ⟨rfl, rfl, fun id' hne => ?_, Function.update_self ..,
      Function.update_self .., .inl ⟨rfl, rfl⟩⟩ (htold.append (silent_nil_reply _ _))
    exact ⟨rfl, rfl, Function.update_of_ne hne .., Function.update_of_ne hne ..,
      Function.update_of_ne hne .., Function.update_of_ne hne .., Function.update_of_ne hne .., rfl⟩
  | ends hactive htold hu hpending haddr =>
    obtain ⟨w, hw, hul, hwl⟩ := pending_eq_false hu hpending
    refine .closeConn hop hactive ⟨rfl, rfl, fun id' hne => ?_, Function.update_self ..,
      Function.update_self .., .inr ⟨Function.update_self .., Function.update_self .., _, w, hu, hw,
      hul, hwl⟩⟩ (htold.append (silent_nil_reply _ _))
    constructor <;> exact Function.update_of_ne hne ..

theorem effect_of_serverClose (hop : req.op = .doclose)
    (h : s.handleClose req.replyc req.orders = some (s', out)) : ServerEffect P s req s' out := by
  have pass : ∀ out, PassiveReq s req out := by
    intro out
    refine ⟨fun id p hop' => ?_, fun a m hop' => ?_⟩
    · rw [hop] at hop'
      cases hop'
    · rw [hop] at hop'
      cases hop'
  cases closesServer_of_handle h with
  | ends htold =>
    refine .quiet ⟨⟨rfl, rfl, rfl, rfl, rfl, id⟩, rfl, rfl, rfl, rfl, rfl⟩ ?_ (pass _)
    exact htold.silent.append ⟨rfl, fun _ => rfl, rfl⟩
  | waits htold =>
    refine .quiet ⟨⟨rfl, rfl, rfl, rfl, rfl, ?_⟩, rfl, rfl, rfl, rfl, rfl⟩ htold.silent (pass _)
    intro hnil
    exact absurd hnil (by simp)

theorem effect_of_serverEpoch (hop : req.op = .epochtimer)
    (h : s.handleEpoch P req.orders = some (s', out)) : ServerEffect P s req s' out := by
  have hdrops : ∀ {s₁ : Server A} {lostOut : List (ServerOut A)},
      Server.detectLostAll P { s with currEpoch := s.currEpoch + 1 } req.orders.first =
        some (s₁, lostOut) → ∃ lost, Drops s lost s₁ ∧ LostOut lostOut lost := by
    intro s₁ lostOut hloop
    obtain ⟨lost, hdrops, hlost⟩ := drops_of_detectLostAll hloop
    have hepoch : SameConns s { s with currEpoch := s.currEpoch + 1 } :=
      ⟨⟨rfl, rfl, rfl, rfl, rfl, id⟩, rfl, rfl, rfl, rfl, rfl⟩
    exact ⟨lost, (drops_nil hepoch rfl).trans hdrops, hlost⟩
  cases epochs_of_handleEpoch h with
  | stays hloop _ =>
    obtain ⟨lost, hd, hlost⟩ := hdrops hloop
    have heff : ServerEffect P s req s' (_ ++ _ ++ []) :=
      .epoch hop hd hlost (resent_epoch s' req.orders) (.refl s') silent_nil
    rw [List.append_nil] at heff
    exact heff
  | @ends s₁ lostOut hloop _ _ =>
    obtain ⟨lost, hd, hlost⟩ := hdrops hloop
    rw [List.append_assoc _ _ [ServerOut.shutDown]]
    refine .epoch hop hd hlost (resent_epoch s₁ req.orders)
      ⟨⟨rfl, rfl, rfl, rfl, rfl, id⟩, rfl, rfl, rfl, rfl, rfl⟩ ?_
    refine Silent.append ⟨?_, fun id => ?_, ?_⟩ ⟨rfl, fun _ => rfl, rfl⟩ <;>
      refine List.filterMap_eq_nil_iff.mpr fun o ho => ?_ <;>
      obtain ⟨r, -, rfl⟩ := List.mem_map.mp ho
    · rfl
    · unfold Server.closeRet
      split <;> rfl
    · rfl

theorem effect_of_serverHandle (h : s.handle P req = some (s', out)) :
    ServerEffect P s req s' out := by
  unfold Server.handle at h
  split at h
  · cases hop : req.op <;> simp only [hop] at h
    case doread => exact .read hop (effect_of_serverRead h)
    case dowrite id p => exact effect_of_serverWrite hop h
    case docloseconn id => exact effect_of_serverCloseConn hop h
    case doclose => exact effect_of_serverClose hop h
    case epochtimer => exact effect_of_serverEpoch hop h
    case receivemsg addr msg =>
      unfold Server.handleReceivedMsg at h
      cases htype : msg.type <;> simp only [htype] at h
      case connect => exact effect_of_serverConnect hop htype (Option.some.inj h)
      case ack => exact effect_of_serverAck hop htype h
      case data => exact effect_of_serverData hop htype h
  · cases h

end Effects

/-! ## The server with its history -/

structure ServerRun (A : Type) where
  server : Server A
  net : List (A × Message)
  written : Int → List Payload
  returned : Int → List Payload
  acked : Int → List Int
  accepted : Int → List Int
  lost : Int → Bool

namespace ServerRun

def init : ServerRun A :=
  ⟨.newServer, [], fun _ => [], fun _ => [], fun _ => [], fun _ => [], fun _ => false⟩

variable [DecidableEq A]

/-- The payload of a `Write` to the connection that returns nil. -/
def newlyWritten (connId : Int) (req : ServerReq A) (out : List (ServerOut A)) : List Payload :=
  match req.op with
  | .dowrite id p =>
    if id = connId ∧ .reply req.replyc ⟨.nil, none⟩ ∈ out then [p] else []
  | _ => []

/-- The number an ack on the connection acknowledges: that of a data message
sent on it before. -/
def newlyAcked (r : ServerRun A) (connId : Int) (req : ServerReq A) : List Int :=
  match req.op with
  | .receivemsg addr msg =>
    if msg.type = .ack ∧ 0 < connId ∧ r.server.connIdOf addr = connId ∧
        ∃ x ∈ r.net, x.2.type = .data ∧ x.2.connID = connId ∧ x.2.seqNum = msg.seqNum
    then [msg.seqNum] else []
  | _ => []

/-- A number is accepted when its message is in the read buffer, or has gone
from there to a blocked read in the same event. -/
def newlyAccepted (s s' : Server A) (connId : Int) : List Int :=
  ((s'.readBuffer connId).getD .newBuffer).l.map (·.seqNum) ++
    match s.expectedSeqNum connId, s'.expectedSeqNum connId with
    | some e, some e' => if e < e' then [e] else []
    | _, _ => []

def record (r : ServerRun A) (req : ServerReq A) (s : Server A) (out : List (ServerOut A)) :
    ServerRun A where
  server := s
  net := r.net ++ out.filterMap ServerOut.datagram
  written id := r.written id ++ newlyWritten id req out
  returned id := r.returned id ++ out.filterMap (ServerOut.payload id)
  acked id := r.newlyAcked id req ++ r.acked id
  accepted id := newlyAccepted r.server s id ++ r.accepted id
  lost id := r.lost id || decide (id ∈ out.filterMap ServerOut.lost)

def step (P : Params) (r : ServerRun A) (req : ServerReq A) : Option (ServerRun A) :=
  (r.server.handle P req).map fun t => r.record req t.1 t.2

end ServerRun

/-- Every run of the server, on any datagrams. -/
def serverRuns [DecidableEq A] (P : Params) : LTS (ServerRun A) (ServerReq A) :=
  .ofFn (· = .init) (ServerRun.step P)

theorem ServerRun.step_cases [DecidableEq A] {P : Params} {r r' : ServerRun A} {req : ServerReq A}
    (h : r.step P req = some r') :
    ∃ s out, r' = r.record req s out ∧ ServerEffect P r.server req s out := by
  obtain ⟨⟨s, out⟩, hh, rfl⟩ := Option.map_eq_some_iff.mp h
  exact ⟨s, out, rfl, effect_of_serverHandle hh⟩

end Cmu440.Lsp
