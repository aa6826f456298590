import Cmu440.Lsp.ClientRuns
import Cmu440.Lsp.ServerSends

/-!
# Where messages come from

A message gets into a buffer in one of four ways: a call of `Write` or
`NewClient` puts it there, it moves there from the write buffer, it is a data
message that has just been received, or it is the ack for one. `Contents` gives
a predicate for each of the four buffers of a connection; an event keeps them if
what it puts in satisfies them (`Client.Filled.step`, `Server.Filled.handle`),
and what is sent and returned in the event then comes from the buffers too.

`ClientFrom` and `ServerFrom` are the predicates the two sides keep in any run:
whom a connection was opened for, where its payloads were written, and which
data an ack is for. Neither side looks at the ids that messages carry, so
nothing here says that these agree.
-/
namespace Cmu440.Lsp

variable {A : Type}

/-! ## The blocks -/

/-- What the buffers of a connection hold. -/
structure Contents where
  unAcked : Message → Prop
  write : Message → Prop
  read : Message → Prop
  latestAck : Message → Prop

def Buffer.All (b : Buffer) (p : Message → Prop) : Prop := ∀ m ∈ b.l, p m

theorem Buffer.all_newBuffer (p : Message → Prop) : Buffer.newBuffer.All p := fun _ hm => nomatch hm

theorem Buffer.All.mono {b : Buffer} {p q : Message → Prop} (h : b.All p) (hpq : ∀ m, p m → q m) :
    b.All q :=
  fun m hm => hpq m (h m hm)

theorem Buffer.All.remove {b b' : Buffer} {p : Message → Prop} {m : Message} (h : b.All p)
    (hr : b.remove = some (m, b')) : p m ∧ b'.All p := by
  have hl := Buffer.remove_eq_some.mp hr
  refine ⟨h m (by rw [hl]; exact List.mem_cons_self), fun x hx => h x ?_⟩
  rw [hl]
  exact List.mem_cons_of_mem _ hx

theorem Buffer.All.insert {b : Buffer} {p : Message → Prop} {m : Message} (h : b.All p) (hm : p m) :
    (b.insert m).All p := by
  intro x hx
  rcases Buffer.mem_insert.mp hx with hx | ⟨rfl, -⟩
  · exact h x hx
  · exact hm

section Blocks

variable {S : Contents} {W : Int} {unAcked write : Buffer}

theorem all_sendOrQueue {m : Message} (hu : unAcked.All S.unAcked) (hw : write.All S.write)
    (hsent : ∀ x, S.write x → S.unAcked x) (hm : S.write m) :
    (sendOrQueue W unAcked write m).1.All S.unAcked ∧
      (sendOrQueue W unAcked write m).2.1.All S.write ∧
      ∀ x ∈ (sendOrQueue W unAcked write m).2.2, S.unAcked x := by
  refine ⟨fun x hx => ?_, fun x hx => ?_, fun x hx => ?_⟩
  · rcases mem_sendOrQueue.1 hx with hx | rfl
    · exact hu x hx
    · exact hsent _ hm
  · rcases mem_sendOrQueue.2.1 hx with hx | rfl
    · exact hw x hx
    · exact hm
  · rw [mem_sendOrQueue.2.2 hx]
    exact hsent _ hm

theorem all_ackReceived {q : Int} {r : Bool × Buffer × Buffer × List Message}
    (hr : ackReceived W unAcked write q = some r) (hu : unAcked.All S.unAcked)
    (hw : write.All S.write) (hsent : ∀ x, S.write x → S.unAcked x) :
    r.2.1.All S.unAcked ∧ r.2.2.1.All S.write ∧ ∀ x ∈ r.2.2.2, S.unAcked x := by
  refine ⟨fun x hx => ?_, fun x hx => hw x ((mem_ackReceived hr).2.1 hx),
    fun x hx => hsent x (hw x ((mem_ackReceived hr).2.2 hx))⟩
  rcases (mem_ackReceived hr).1 hx with ⟨hx, -⟩ | hx
  · exact hu x hx
  · exact hsent x (hw x hx)

theorem all_acceptData {id : Int} {read latestAck : Buffer} {m : Message} {r : Buffer × Buffer}
    (hr : acceptData W id read latestAck m = some r) (hread : read.All S.read)
    (hack : latestAck.All S.latestAck) (hm : S.read m) (hm' : S.latestAck (newAck id m.seqNum)) :
    r.1.All S.read ∧ r.2.All S.latestAck := by
  constructor
  · simp only [acceptData, Option.bind_eq_bind, Option.bind_eq_some_iff, Option.pure_def,
      Option.some.injEq] at hr
    obtain ⟨_, -, rfl⟩ := hr
    exact hread.insert hm
  · intro x hx
    rcases acceptData_latestAck hr hx with hx | rfl
    · exact hack x hx
    · exact hm'

end Blocks

/-! ## The client -/

structure Client.Filled (S : Contents) (c : Client) : Prop where
  unAcked : c.unAckedMsgBuffer.All S.unAcked
  write : c.writeBuffer.All S.write
  read : c.readBuffer.All S.read
  latestAck : c.latestAckBuffer.All S.latestAck

/-- What a request puts into the buffers of the client. -/
structure Client.Supplied (S : Contents) (c : Client) (incoming : Option ClientReq) : Prop where
  sent : ∀ m, S.write m → S.unAcked m
  writes : ∀ p replyc, incoming = some ⟨.dowrite p, replyc⟩ →
    S.write (newData c.connId (c.seqNum + 1) p)
  connects : ∀ replyc, incoming = some ⟨.doconnect, replyc⟩ → S.unAcked newConnect
  accepts : ∀ msg replyc, incoming = some ⟨.receivemsg msg, replyc⟩ → msg.type = .data →
    c.connId ≠ 0 → S.read msg ∧ S.latestAck (newAck c.connId msg.seqNum)

/-- The datagrams and payloads an iteration puts out come from the buffers, up to
the ack that tells the server that the client is there. -/
structure Client.Emits (S : Contents) (c : Client) (out : List ClientOut) : Prop where
  datagram : ∀ m ∈ out.filterMap ClientOut.datagram,
    S.unAcked m ∨ S.latestAck m ∨ 0 < c.connId ∧ m = newAck c.connId 0
  payload : ∀ p ∈ out.filterMap ClientOut.payload, ∃ m, S.read m ∧ m.payload = p

section Client

variable {S : Contents} {P : Params} {c c' : Client} {incoming : Option ClientReq}
  {out : List ClientOut}

theorem Client.SameBuffers.filled (hsame : c.SameBuffers c') (h : c.Filled S) : c'.Filled S where
  unAcked := by rw [hsame.unAcked]; exact h.unAcked
  write := by rw [hsame.write]; exact h.write
  read := by rw [hsame.read]; exact h.read
  latestAck := by rw [hsame.latestAck]; exact h.latestAck

theorem Client.Filled.effect (h : c.Filled S) (hs : c.Supplied S incoming)
    (heff : ClientEffect P c incoming c' out) : c'.Filled S := by
  cases heff with
  | quiet hsame | epoch hsame => exact hsame.filled h
  | read hm hexp hop hsame =>
    exact hsame.filled ⟨h.unAcked, h.write, (h.read.remove hm).2, h.latestAck⟩
  | write hr hsame =>
    obtain ⟨hu, hw, -⟩ := all_sendOrQueue h.unAcked h.write hs.sent (hs.writes _ _ rfl)
    rw [hr] at hu hw
    exact hsame.filled ⟨hu, hw, h.read, h.latestAck⟩
  | ack htype hr hest hsame | established htype hr _ _ hsame =>
    obtain ⟨hu, hw, -⟩ := all_ackReceived hr h.unAcked h.write hs.sent
    exact hsame.filled ⟨hu, hw, h.read, h.latestAck⟩
  | data htype hge hconn hr hsame =>
    obtain ⟨hm, hm'⟩ := hs.accepts _ _ rfl htype hconn
    obtain ⟨hread, hack⟩ := all_acceptData hr h.read h.latestAck hm hm'
    exact hsame.filled ⟨h.unAcked, h.write, hread, hack⟩
  | connect hsame =>
    exact hsame.filled ⟨h.unAcked.insert (hs.connects _ rfl), h.write, h.read, h.latestAck⟩

/-- The client repeats an ack with the number 0 only on a connection. -/
theorem epoch_datagram {m : Message} (hm : m ∈ (c.handleEpoch P).2.filterMap ClientOut.datagram) :
    m ∈ c.unAckedMsgBuffer.l ∨ m ∈ c.latestAckBuffer.l ∨ 0 < c.connId ∧ m = newAck c.connId 0 := by
  unfold Client.handleEpoch at hm
  simp only at hm
  split at hm
  · simp [ClientOut.datagram] at hm
  · simp only [List.filterMap_append, List.mem_append, filterMap_send] at hm
    rcases hm with (hm | hm) | hm
    · split at hm
      · rename_i hpos
        simp only [List.filterMap_cons, ClientOut.datagram, List.filterMap_nil,
          List.mem_singleton] at hm
        exact .inr (.inr ⟨hpos.1, hm⟩)
      · cases hm
    · exact .inl hm
    · split at hm
      · rw [filterMap_send] at hm
        exact .inr (.inl hm)
      · cases hm

theorem Client.Filled.emits (h : c.Filled S) (hs : c.Supplied S incoming)
    (hit : c.iterate P incoming = some (c', out)) : c.Emits S out := by
  have sends : ∀ l : List Message, (∀ x ∈ l, S.unAcked x) → c.Emits S (l.map .send) := by
    intro l hl
    refine ⟨fun m hm => ?_, fun p hp => ?_⟩
    · rw [filterMap_send] at hm
      exact .inl (hl m hm)
    · rw [payload_send] at hp
      cases hp
  have followed : ∀ (l : List Message) (o : ClientOut), (∀ x ∈ l, S.unAcked x) →
      o.datagram = none → o.payload = none → c.Emits S (l.map .send ++ [o]) := by
    intro l o hl hd hp
    refine ⟨fun m hm => ?_, fun p hm => ?_⟩
    · rw [List.filterMap_append, List.filterMap_cons_none hd, List.filterMap_nil,
        List.append_nil] at hm
      exact (sends l hl).datagram m hm
    · rw [List.filterMap_append, List.filterMap_cons_none hp, List.filterMap_nil,
        List.append_nil] at hm
      exact (sends l hl).payload p hm
  cases effect_of_iterate hit with
  | quiet hsame hout =>
    refine ⟨fun m hm => ?_, fun p hp => ?_⟩
    · rw [datagram_of_silent hout] at hm
      cases hm
    · rw [payload_of_silent hout] at hp
      cases hp
  | read hm hexp hop hsame =>
    refine ⟨fun m hm => by simp [ClientOut.datagram] at hm, fun p hp => ?_⟩
    simp only [List.filterMap_cons, ClientOut.payload, List.filterMap_nil, List.mem_singleton] at hp
    exact ⟨_, (h.read.remove hm).1, hp.symm⟩
  | write hr hsame =>
    obtain ⟨-, -, hl⟩ := all_sendOrQueue h.unAcked h.write hs.sent (hs.writes _ _ rfl)
    rw [hr] at hl
    exact followed _ _ hl rfl rfl
  | epoch hsame hout =>
    refine ⟨fun m hm => ?_, fun p hp => ?_⟩
    · have hepoch : (c.handleEpoch P).2 = out := congrArg Prod.snd (iterate_epoch hit)
      rw [← hepoch] at hm
      exact (epoch_datagram hm).imp (h.unAcked m) (.imp_left (h.latestAck m))
    · obtain ⟨o, ho, hp⟩ := List.mem_filterMap.mp hp
      obtain ⟨m, rfl, -⟩ := hout o ho
      cases hp
  | ack htype hr hest hsame =>
    exact sends _ (all_ackReceived hr h.unAcked h.write hs.sent).2.2
  | established htype hr hfound hzero hsame =>
    exact followed _ _ (all_ackReceived hr h.unAcked h.write hs.sent).2.2 rfl rfl
  | data htype hge hconn hr hsame =>
    refine ⟨fun m hm => ?_, fun p hp => by simp [ClientOut.payload] at hp⟩
    simp only [List.filterMap_cons, ClientOut.datagram, List.filterMap_nil, List.mem_singleton] at hm
    rw [hm]
    exact .inr (.inl (hs.accepts _ _ rfl htype hconn).2)
  | connect hsame =>
    refine ⟨fun m hm => ?_, fun p hp => by simp [ClientOut.payload] at hp⟩
    simp only [List.filterMap_cons, ClientOut.datagram, List.filterMap_nil, List.mem_singleton] at hm
    rw [hm]
    exact .inl (hs.connects _ rfl)

end Client

/-! ## The server -/

theorem of_mapDelete {K V : Type} [DecidableEq K] {m : K → Option V} {k x : K} {v : V}
    (h : mapDelete m k x = some v) : m x = some v := by
  by_cases hx : x = k
  · subst hx
    rw [mapDelete, Function.update_self] at h
    cases h
  · rw [mapDelete, Function.update_of_ne hx] at h
    exact h

theorem of_mapSet {K V : Type} [DecidableEq K] {m : K → Option V} {k x : K} {v w : V}
    (h : mapSet m k v x = some w) : x = k ∧ w = v ∨ m x = some w := by
  by_cases hx : x = k
  · subst hx
    rw [mapSet, Function.update_self] at h
    exact .inl ⟨rfl, (Option.some.inj h).symm⟩
  · rw [mapSet, Function.update_of_ne hx] at h
    exact .inr h

/-- Every entry of the maps was there before. -/
structure Forgets (s s' : Server A) : Prop where
  hostport : ∀ a id, s'.hostportConnIdMap a = some id → s.hostportConnIdMap a = some id
  addr : ∀ id a, s'.connIdHostportMap id = some a → s.connIdHostportMap id = some a
  unAcked : ∀ id b, s'.unAckedMsgBuffer id = some b → s.unAckedMsgBuffer id = some b
  write : ∀ id b, s'.writeBuffer id = some b → s.writeBuffer id = some b
  read : ∀ id b, s'.readBuffer id = some b → s.readBuffer id = some b
  latestAck : ∀ id b, s'.latestAckBuffer id = some b → s.latestAckBuffer id = some b

theorem Forgets.refl (s : Server A) : Forgets s s :=
  ⟨fun _ _ h => h, fun _ _ h => h, fun _ _ h => h, fun _ _ h => h, fun _ _ h => h, fun _ _ h => h⟩

theorem Forgets.trans {s s₁ s₂ : Server A} (h : Forgets s s₁) (h' : Forgets s₁ s₂) : Forgets s s₂ where
  hostport a id hid := h.hostport a id (h'.hostport a id hid)
  addr id a ha := h.addr id a (h'.addr id a ha)
  unAcked id b hb := h.unAcked id b (h'.unAcked id b hb)
  write id b hb := h.write id b (h'.write id b hb)
  read id b hb := h.read id b (h'.read id b hb)
  latestAck id b hb := h.latestAck id b (h'.latestAck id b hb)

theorem SameConns.forgets {s s' : Server A} (h : SameConns s s') : Forgets s s' where
  hostport a id hid := by rw [← h.hostport]; exact hid
  addr id a ha := by rw [← h.addr]; exact ha
  unAcked id b hb := by rw [← h.unAcked]; exact hb
  write id b hb := by rw [← h.write]; exact hb
  read id b hb := by rw [← h.read]; exact hb
  latestAck id b hb := by rw [← h.latestAck]; exact hb

theorem SameConns.forgets_back {s s' : Server A} (h : SameConns s s') : Forgets s' s where
  hostport a id hid := by rw [h.hostport]; exact hid
  addr id a ha := by rw [h.addr]; exact ha
  unAcked id b hb := by rw [h.unAcked]; exact hb
  write id b hb := by rw [h.write]; exact hb
  read id b hb := by rw [h.read]; exact hb
  latestAck id b hb := by rw [h.latestAck]; exact hb

section Forgets

variable [DecidableEq A] {P : Params} {s s' : Server A} {out : List (ServerOut A)}

theorem forgets_cleanUp (s : Server A) (addr : A) (id : Int) : Forgets s (s.cleanUp addr id) :=
  ⟨fun _ _ => of_mapDelete, fun _ _ => of_mapDelete, fun _ _ => of_mapDelete,
    fun _ _ => of_mapDelete, fun _ _ => of_mapDelete, fun _ _ => of_mapDelete⟩

theorem Detects.forgets {id : Int} (h : Detects P s id s' out) : Forgets s s' := by
  cases h with
  | kept hsoon => exact .refl s
  | lost haddr =>
    exact ⟨fun _ _ => of_mapDelete, fun _ _ => of_mapDelete, fun _ _ => of_mapDelete,
      fun _ _ => of_mapDelete, fun _ _ hb => hb, fun _ _ => of_mapDelete⟩
  | told haddr hreads =>
    exact ⟨fun _ _ => of_mapDelete, fun _ _ => of_mapDelete, fun _ _ => of_mapDelete,
      fun _ _ => of_mapDelete, fun _ _ => of_mapDelete, fun _ _ => of_mapDelete⟩

theorem forgets_detectLostAll {order : List Int} (h : s.detectLostAll P order = some (s', out)) :
    Forgets s s' :=
  detectLostAll_rule (R := fun s s' _ => Forgets s s') .refl (fun h₁ h₂ => h₁.trans h₂)
    Detects.forgets h

theorem forgets_epoch {o : Orders} (h : s.handleEpoch P o = some (s', out)) : Forgets s s' := by
  cases epochs_of_handleEpoch h with
  | stays hloop _ =>
    have hf := forgets_detectLostAll hloop
    exact ⟨hf.hostport, hf.addr, hf.unAcked, hf.write, hf.read, hf.latestAck⟩
  | ends hloop _ _ =>
    have hf := forgets_detectLostAll hloop
    exact ⟨hf.hostport, hf.addr, hf.unAcked, hf.write, hf.read, hf.latestAck⟩

theorem forgets_closeConn {id : Int} {replyc : Nat}
    (h : s.handleCloseConn id replyc = some (s', out)) : Forgets s s' := by
  cases closesConn_of_handle h with
  | unknown => exact .refl s
  | waits =>
    exact ⟨fun _ _ hb => hb, fun _ _ hb => hb, fun _ _ hb => hb, fun _ _ hb => hb,
      fun _ _ => of_mapDelete, fun _ _ => of_mapDelete⟩
  | ends =>
    exact ⟨fun _ _ => of_mapDelete, fun _ _ => of_mapDelete, fun _ _ => of_mapDelete,
      fun _ _ => of_mapDelete, fun _ _ => of_mapDelete, fun _ _ => of_mapDelete⟩

end Forgets

/-- The maps of addresses agree with `owner`, and the buffers hold what `S` says. -/
structure Server.Filled (owner : A → Int → Prop) (S : Int → Contents) (s : Server A) : Prop where
  hostport : ∀ a id, s.hostportConnIdMap a = some id → owner a id
  addr : ∀ id a, s.connIdHostportMap id = some a → owner a id
  unAcked : ∀ id b, s.unAckedMsgBuffer id = some b → b.All (S id).unAcked
  write : ∀ id b, s.writeBuffer id = some b → b.All (S id).write
  read : ∀ id b, s.readBuffer id = some b → b.All (S id).read
  latestAck : ∀ id b, s.latestAckBuffer id = some b → b.All (S id).latestAck

/-- What an event puts into the maps of the server. -/
structure Server.Supplied [DecidableEq A] (owner : A → Int → Prop) (S : Int → Contents) (s : Server A)
    (req : ServerReq A) (out : List (ServerOut A)) : Prop where
  sent : ∀ id m, (S id).write m → (S id).unAcked m
  opens : ∀ a msg, req.op = .receivemsg a msg → msg.type = .connect → s.deferedClose = [] →
    s.connIdOf a = 0 → owner a (s.connId + 1)
  writes : ∀ id p q, req.op = .dowrite id p → .reply req.replyc ⟨.nil, none⟩ ∈ out →
    (S id).write (newData id q p)
  accepts : ∀ a msg id, req.op = .receivemsg a msg → msg.type = .data →
    s.hostportConnIdMap a = some id → .send a (newAck id msg.seqNum) ∈ out →
    (S id).read msg ∧ (S id).latestAck (newAck id msg.seqNum)

/-- The datagrams and payloads an event puts out come from the buffers, up to the
ack of a Connect. -/
structure Server.Emits (owner : A → Int → Prop) (S : Int → Contents) (out : List (ServerOut A)) :
    Prop where
  datagram : ∀ a m, (a, m) ∈ out.filterMap ServerOut.datagram →
    ∃ id, owner a id ∧ ((S id).unAcked m ∨ (S id).latestAck m ∨ m = newAck id 0)
  payload : ∀ id, ∀ p ∈ out.filterMap (ServerOut.payload id), ∃ m, (S id).read m ∧ m.payload = p

theorem Server.Filled.forget {owner : A → Int → Prop} {S : Int → Contents} {s s' : Server A}
    (hf : Forgets s s') (h : s.Filled owner S) : s'.Filled owner S where
  hostport a id hid := h.hostport a id (hf.hostport a id hid)
  addr id a ha := h.addr id a (hf.addr id a ha)
  unAcked id b hb := h.unAcked id b (hf.unAcked id b hb)
  write id b hb := h.write id b (hf.write id b hb)
  read id b hb := h.read id b (hf.read id b hb)
  latestAck id b hb := h.latestAck id b (hf.latestAck id b hb)

section Server

variable [DecidableEq A] {owner : A → Int → Prop} {S : Int → Contents} {P : Params}
  {s s' : Server A} {req : ServerReq A} {out : List (ServerOut A)}

omit [DecidableEq A] in
theorem Server.Filled.readEffect (h : s.Filled owner S) (heff : ReadEffect s s' out) :
    s'.Filled owner S := by
  cases heff with
  | quiet hsame hout => exact h.forget hsame.forgets
  | deliver hrb hm hexp =>
    refine ⟨h.hostport, h.addr, h.unAcked, h.write, fun id b hb => ?_, h.latestAck⟩
    rcases of_mapSet hb with ⟨rfl, rfl⟩ | hb
    · exact ((h.read _ _ hrb).remove hm).2
    · exact h.read id b hb
  | forget hid =>
    exact ⟨h.hostport, h.addr, h.unAcked, h.write, fun id b hb => h.read id b (of_mapDelete hb),
      h.latestAck⟩

omit [DecidableEq A] in
theorem Server.Filled.readEmits (h : s.Filled owner S) (heff : ReadEffect s s' out) :
    Server.Emits owner S out := by
  refine ⟨fun a m hm => ?_, fun id p hp => ?_⟩
  · rw [heff.out.1] at hm
    cases hm
  · cases heff with
    | quiet hsame hout =>
      rw [hout.payload] at hp
      cases hp
    | deliver hrb hm hexp =>
      obtain ⟨o, ho, hpay⟩ := List.mem_filterMap.mp hp
      rw [List.mem_singleton.mp ho, ServerOut.payload] at hpay
      split at hpay
      · rename_i hid
        subst hid
        exact ⟨_, ((h.read _ _ hrb).remove hm).1, Option.some.inj hpay⟩
      · cases hpay
    | forget hid => cases hp

omit [DecidableEq A] in
theorem hostport_of_connIdOf {addr : A} (h : s.connIdOf addr > 0) :
    s.hostportConnIdMap addr = some (s.connIdOf addr) := by
  unfold Server.connIdOf at h ⊢
  cases hid : s.hostportConnIdMap addr with
  | none =>
    rw [hid] at h
    exact absurd h (lt_irrefl 0)
  | some id => rfl

omit [DecidableEq A] in
/-- The sending half of one connection changes. -/
theorem Server.Filled.setSending (h : s.Filled owner S) {id : Int} {u w : Buffer}
    (hu : u.All (S id).unAcked) (hw : w.All (S id).write) : Server.Filled owner S { s with
      unAckedMsgBuffer := mapSet s.unAckedMsgBuffer id u
      writeBuffer := mapSet s.writeBuffer id w } := by
  refine ⟨h.hostport, h.addr, fun id' b hb => ?_, fun id' b hb => ?_, h.read, h.latestAck⟩
  · rcases of_mapSet hb with ⟨rfl, rfl⟩ | hb
    · exact hu
    · exact h.unAcked id' b hb
  · rcases of_mapSet hb with ⟨rfl, rfl⟩ | hb
    · exact hw
    · exact h.write id' b hb

omit [DecidableEq A] in
/-- The receiving half of one connection changes. -/
theorem Server.Filled.setReceiving (h : s.Filled owner S) {id : Int} {rb lab : Buffer}
    (hrb : rb.All (S id).read) (hlab : lab.All (S id).latestAck) : Server.Filled owner S { s with
      readBuffer := mapSet s.readBuffer id rb
      latestAckBuffer := mapSet s.latestAckBuffer id lab } := by
  refine ⟨h.hostport, h.addr, h.unAcked, h.write, fun id' b hb => ?_, fun id' b hb => ?_⟩
  · rcases of_mapSet hb with ⟨rfl, rfl⟩ | hb
    · exact hrb
    · exact h.read id' b hb
  · rcases of_mapSet hb with ⟨rfl, rfl⟩ | hb
    · exact hlab
    · exact h.latestAck id' b hb

theorem Server.Filled.opened (h : s.Filled owner S) {addr : A} (hopen : s.deferedClose = [])
    (hnew : s.connIdOf addr = 0) (howner : owner addr (s.connId + 1)) :
    Server.Filled owner S (s.handleConnect addr).1 := by
  unfold Server.handleConnect
  rw [if_pos ⟨List.length_eq_zero_iff.mpr hopen, hnew⟩]
  refine ⟨fun a id hid => ?_, fun id a ha => ?_, fun id b hb => ?_, fun id b hb => ?_,
    fun id b hb => ?_, fun id b hb => ?_⟩
  · rcases of_mapSet hid with ⟨rfl, rfl⟩ | hid
    · exact howner
    · exact h.hostport a id hid
  · rcases of_mapSet ha with ⟨rfl, rfl⟩ | ha
    · exact howner
    · exact h.addr id a ha
  · rcases of_mapSet hb with ⟨rfl, rfl⟩ | hb
    · exact Buffer.all_newBuffer _
    · exact h.unAcked id b hb
  · rcases of_mapSet hb with ⟨rfl, rfl⟩ | hb
    · exact Buffer.all_newBuffer _
    · exact h.write id b hb
  · rcases of_mapSet hb with ⟨rfl, rfl⟩ | hb
    · exact Buffer.all_newBuffer _
    · exact h.read id b hb
  · rcases of_mapSet hb with ⟨rfl, rfl⟩ | hb
    · exact Buffer.all_newBuffer _
    · exact h.latestAck id b hb

omit [DecidableEq A] in
theorem emits_of_silent (hout : Silent out) : Server.Emits owner S out := by
  refine ⟨fun a m hm => ?_, fun id p hp => ?_⟩
  · rw [hout.datagram] at hm
    cases hm
  · rw [hout.payload] at hp
    cases hp

omit [DecidableEq A] in
theorem Server.Emits.append {out' : List (ServerOut A)} (h : Server.Emits owner S out)
    (h' : Server.Emits owner S out') : Server.Emits owner S (out ++ out') := by
  refine ⟨fun a m hm => ?_, fun id p hp => ?_⟩
  · rw [List.filterMap_append] at hm
    exact (List.mem_append.mp hm).elim (h.datagram a m) (h'.datagram a m)
  · rw [List.filterMap_append] at hp
    exact (List.mem_append.mp hp).elim (h.payload id p) (h'.payload id p)

omit [DecidableEq A] in
theorem emits_sends {addr : A} {id : Int} {l : List Message} (howner : owner addr id)
    (hl : ∀ m ∈ l, (S id).unAcked m ∨ (S id).latestAck m ∨ m = newAck id 0) :
    Server.Emits owner S (l.map (.send addr)) := by
  refine ⟨fun a m hm => ?_, fun id p hp => ?_⟩
  · rw [datagram_sends] at hm
    obtain ⟨x, hx, he⟩ := List.mem_map.mp hm
    cases he
    exact ⟨id, howner, hl m hx⟩
  · rw [payload_sends] at hp
    cases hp

omit [DecidableEq A] in
theorem Server.Filled.resent (h : s.Filled owner S) (hout : Resent s out) :
    Server.Emits owner S out := by
  refine ⟨fun a m hm => ?_, fun id p hp => ?_⟩
  · obtain ⟨o, ho, hdat⟩ := List.mem_filterMap.mp hm
    obtain ⟨a', m', id, rfl, haddr, hfrom⟩ := hout o ho
    cases hdat
    refine ⟨id, h.addr id a haddr, ?_⟩
    rcases hfrom with ⟨b, hb, hm⟩ | ⟨b, hb, hm | hm⟩
    · exact .inl (h.unAcked id b hb m hm)
    · exact .inr (.inl (h.latestAck id b hb m hm))
    · exact .inr (.inr hm)
  · rw [hout.payload] at hp
    cases hp

/-- One event keeps what the maps hold, and puts out what comes from there. -/
theorem Server.Filled.handle (h : s.Filled owner S) (hs : s.Supplied owner S req out)
    (hh : s.handle P req = some (s', out)) : s'.Filled owner S ∧ Server.Emits owner S out := by
  have heff := effect_of_serverHandle hh
  unfold Server.handle at hh
  split at hh
  case isFalse => cases hh
  cases heff with
  | quiet hsame hout => exact ⟨h.forget hsame.forgets, emits_of_silent hout⟩
  | read hop heff => exact ⟨h.readEffect heff, h.readEmits heff⟩
  | write hop hclose hactive haddr hu hw hr =>
    rename_i id p addr u w r
    obtain ⟨hu', hw', hl⟩ := all_sendOrQueue (W := P.windowSize) (h.unAcked id u hu)
      (h.write id w hw) (hs.sent id) (hs.writes id p ((s.seqNum id).getD 0 + 1) hop (by simp))
    rw [hr] at hu' hw' hl
    have hf := h.setSending hu' hw'
    refine ⟨⟨hf.hostport, hf.addr, hf.unAcked, hf.write, hf.read, hf.latestAck⟩, ?_⟩
    refine (emits_sends (h.addr id addr haddr) fun m hm => .inl (hl m hm)).append ?_
    exact emits_of_silent (silent_nil_reply _ _)
  | closeConn hop hactive hcloses hout =>
    simp only [hop] at hh
    exact ⟨h.forget (forgets_closeConn hh), emits_of_silent hout⟩
  | epoch hop hdrops hlost hsent hsame hout =>
    simp only [hop] at hh
    have hf := h.forget (forgets_epoch hh)
    refine ⟨hf, Server.Emits.append (.append ?_ ?_) (emits_of_silent hout)⟩
    · refine ⟨fun a m hm => ?_, fun id p hp => ?_⟩
      · rw [hlost.datagram] at hm
        cases hm
      · rw [hlost.payload] at hp
        cases hp
    · exact (hf.forget hsame.forgets_back).resent hsent
  | opened hop htype hclose hnew =>
    have howner := hs.opens _ _ hop htype hclose hnew
    exact ⟨h.opened hclose hnew howner,
      emits_sends (l := [_]) howner fun m hm => .inr (.inr (List.mem_singleton.mp hm))⟩
  | ackMissed hop htype hid hu hmiss hsame =>
    exact ⟨h.forget hsame.forgets, emits_of_silent silent_nil⟩
  | ack hop htype hid hu hw hr hsame =>
    obtain ⟨hu', hw', hl⟩ := all_ackReceived hr (h.unAcked _ _ hu) (h.write _ _ hw) (hs.sent _)
    exact ⟨(h.setSending hu' hw').forget hsame.forgets,
      emits_sends (h.hostport _ _ (hostport_of_connIdOf hid)) fun m hm => .inl (hl m hm)⟩
  | lastAck hop htype hid hu hw hr hnil hclosed hsame =>
    obtain ⟨-, -, hl⟩ := all_ackReceived hr (h.unAcked _ _ hu) (h.write _ _ hw) (hs.sent _)
    exact ⟨h.forget ((forgets_cleanUp s _ _).trans hsame.forgets),
      emits_sends (h.hostport _ _ (hostport_of_connIdOf hid)) fun m hm => .inl (hl m hm)⟩
  | data hop htype hid hge hrb hlab hr hsame heff =>
    rename_i addr msg rb lab r s₁ out₁
    have hhost := hostport_of_connIdOf hid
    obtain ⟨hm, hm'⟩ := hs.accepts _ _ _ hop htype hhost List.mem_cons_self
    obtain ⟨hread, hack⟩ := all_acceptData hr (h.read _ _ hrb) (h.latestAck _ _ hlab) hm hm'
    have hf := (h.setReceiving hread hack).forget hsame.forgets
    have hsend : Server.Emits owner S [.send addr (newAck (s.connIdOf addr) msg.seqNum)] := by
      refine emits_sends (l := [_]) (h.hostport _ _ hhost) fun m hm => .inr (.inl ?_)
      rw [List.mem_singleton.mp hm]
      exact hm'
    exact ⟨hf.readEffect heff, hsend.append (hf.readEmits heff)⟩

end Server

/-! ## Runs of the client -/

/-- The message carries the id of the client's connection. -/
def ClientRun.Owns (r : ClientRun) (m : Message) : Prop :=
  r.established = true ∧ m.connID = r.client.connId

/-- `sent` are the datagrams of the server. -/
def ClientRun.contents (sent : Message → Prop) (r : ClientRun) : Contents where
  unAcked m := r.established = false ∧ m = newConnect ∨ r.Owns m ∧ m.type = .data ∧ 1 ≤ m.seqNum
  write m := r.Owns m ∧ m.type = .data ∧ 1 ≤ m.seqNum
  read m := r.established = true ∧ m.type = .data ∧ sent m
  latestAck m := r.Owns m ∧ m.type = .ack

/-- The client sends Connects, and data and acks with the id of its connection. -/
structure ClientFrom (sent : Message → Prop) (r : ClientRun) : Prop where
  filled : r.client.Filled (r.contents sent)
  net : ∀ m ∈ r.net, m.type = .connect ∨ r.Owns m
  waiting : r.called = false → r.client.unAckedMsgBuffer.l = []
  idle : r.established = false → r.client.connId = 0
  connId : r.established = true → r.called = true ∧ ∃ m, sent m ∧ m.connID = r.client.connId
  seqNum : 0 ≤ r.client.seqNum
  returned : ∀ p ∈ r.returned, ∃ m, (r.contents sent).read m ∧ m.payload = p

theorem clientFrom_init (sent : Message → Prop) : ClientFrom sent .init where
  filled := ⟨Buffer.all_newBuffer _, Buffer.all_newBuffer _, Buffer.all_newBuffer _,
    Buffer.all_newBuffer _⟩
  net _ hm := nomatch hm
  waiting _ := rfl
  idle _ := rfl
  connId h := nomatch h
  seqNum := le_refl 0
  returned _ hp := nomatch hp

section ClientRun

variable {P : Params} {sent : Message → Prop} {r r' : ClientRun} {incoming : Option ClientReq}

theorem ClientFrom.mono (h : ClientFrom sent r) {sent' : Message → Prop}
    (hsent : ∀ m, sent m → sent' m) : ClientFrom sent' r where
  filled := ⟨h.filled.unAcked, h.filled.write, h.filled.read.mono fun m hm =>
    hm.imp_right (.imp_right (hsent m)), h.filled.latestAck⟩
  net := h.net
  waiting := h.waiting
  idle := h.idle
  connId hest := by
    obtain ⟨hcalled, m, hm, hid⟩ := h.connId hest
    exact ⟨hcalled, m, hsent m hm, hid⟩
  seqNum := h.seqNum
  returned p hp := by
    obtain ⟨m, hm, hmp⟩ := h.returned p hp
    exact ⟨m, hm.imp_right (.imp_right (hsent m)), hmp⟩

/-- On a connection, a data message carries its id. -/
theorem ClientFrom.established (h : ClientFrom sent r) (hconn : r.client.connId ≠ 0) :
    r.established = true := by
  cases hest : r.established with
  | true => rfl
  | false => exact absurd (h.idle hest) hconn

theorem ClientFrom.supplied (h : ClientFrom sent r) (hadm : r.admits incoming = true)
    (hheard : ∀ msg replyc, incoming = some ⟨.receivemsg msg, replyc⟩ → sent msg) :
    r.client.Supplied (r.contents sent) incoming where
  sent m hm := .inr hm
  writes p replyc hreq := by
    subst hreq
    have hseq := h.seqNum
    exact ⟨⟨hadm, rfl⟩, rfl, by simp only [newData]; omega⟩
  connects replyc hreq := by
    subst hreq
    cases hest : r.established with
    | false => exact .inl ⟨hest, rfl⟩
    | true => simp [ClientRun.admits, (h.connId hest).1] at hadm
  accepts msg replyc hreq htype hconn :=
    ⟨⟨h.established hconn, htype, hheard msg replyc hreq⟩, ⟨h.established hconn, rfl⟩, rfl⟩

theorem ClientFrom.step (h : ClientFrom sent r)
    (hheard : ∀ msg replyc, incoming = some ⟨.receivemsg msg, replyc⟩ → sent msg)
    (hst : r.step P incoming = some r') : ClientFrom sent r' := by
  unfold ClientRun.step at hst
  split at hst
  case isFalse => cases hst
  rename_i hadm
  obtain ⟨⟨c, out⟩, hit, rfl⟩ := Option.map_eq_some_iff.mp hst
  have heff := effect_of_iterate hit
  have hsup := h.supplied hadm hheard
  have hfilled := h.filled.effect hsup heff
  have hemits := h.filled.emits hsup hit
  have ho := origins_of_effect heff
  have hreturned : ∀ p ∈ r.returned ++ out.filterMap ClientOut.payload,
      ∃ m, (r.contents sent).read m ∧ m.payload = p := by
    intro p hp
    rcases List.mem_append.mp hp with hp | hp
    · exact h.returned p hp
    · exact hemits.payload p hp
  have hnet : ∀ m ∈ r.net ++ out.filterMap ClientOut.datagram, m.type = .connect ∨ r.Owns m := by
    intro m hm
    rcases List.mem_append.mp hm with hm | hm
    · exact h.net m hm
    · rcases hemits.datagram m hm with (⟨-, rfl⟩ | hm) | hm | ⟨hpos, rfl⟩
      · exact .inl rfl
      · exact .inr hm.1
      · exact .inr hm.1
      · exact .inr ⟨h.established (Int.ne_of_gt hpos), rfl⟩
  have hwaiting : (r.record incoming c out).called = false → c.unAckedMsgBuffer.l = [] := by
    intro hcalled
    simp only [ClientRun.record, Bool.or_eq_false_iff] at hcalled
    have hnot : r.established ≠ true := fun hest =>
      Bool.false_ne_true (hcalled.1.symm.trans (h.connId hest).1)
    refine List.eq_nil_iff_forall_not_mem.mpr fun x hx => ?_
    rcases ho.unAcked x hx with hx | hx | ⟨p, replyc, rfl, -⟩ | ⟨replyc, rfl, -⟩
    · rw [h.waiting hcalled.1] at hx
      cases hx
    · exact hnot (h.filled.write x hx).1.1
    · exact hnot hadm
    · simp at hcalled
  rcases connId_of_effect heff with ⟨hsig, hconn⟩ | ⟨hsig, msg, replyc, hreq, -, -, hconn⟩
  · have hest : (r.record incoming c out).established = r.established := by
      simp [ClientRun.record, hsig]
    have howns : ∀ m, r.Owns m → (r.record incoming c out).Owns m := by
      intro m hm
      exact ⟨hest.trans hm.1, hm.2.trans hconn.symm⟩
    refine ⟨⟨hfilled.unAcked.mono fun m hm => ?_, hfilled.write.mono fun m hm => ?_,
      hfilled.read.mono fun m hm => hm.imp_left hest.trans, hfilled.latestAck.mono fun m hm => ?_⟩, fun m hm => (hnet m hm).imp_right (howns m),
      hwaiting, fun hn => hconn.trans (h.idle (hest.symm.trans hn)), fun hn => ?_, ho.seqNum h.seqNum,
      fun p hp => ?_⟩
    · exact hm.imp (.imp_left hest.trans) (.imp_left (howns m))
    · exact hm.imp_left (howns m)
    · exact hm.imp_left (howns m)
    · obtain ⟨hcalled, m, hm, hid⟩ := h.connId (hest.symm.trans hn)
      exact ⟨by simp [ClientRun.record, hcalled], m, hm, hid.trans hconn.symm⟩
    · obtain ⟨m, hm, hmp⟩ := hreturned p hp
      exact ⟨m, hm.imp_left hest.trans, hmp⟩
  · -- the ack is for the Connect, so nothing else has been sent
    obtain ⟨⟨m₀, hm₀, hzero⟩, hleft⟩ := ho.established hsig
    have hnot : r.established = false := by
      rcases h.filled.unAcked m₀ hm₀ with ⟨hn, -⟩ | ⟨-, -, hpos⟩
      · exact hn
      · omega
    have hno : ∀ m, ¬r.Owns m := fun m hm => Bool.false_ne_true (hnot.symm.trans hm.1)
    have hnow : (r.record incoming c out).established = true := by simp [ClientRun.record, hsig]
    refine ⟨⟨fun m hm => ?_, hfilled.write.mono fun m hm => absurd hm.1 (hno m),
      hfilled.read.mono fun m hm => hm.imp_left fun _ => hnow, hfilled.latestAck.mono fun m hm => absurd hm.1 (hno m)⟩,
      fun m hm => (hnet m hm).imp_right fun hm => absurd hm (hno m), hwaiting,
      fun hn => absurd (hn.symm.trans hnow) Bool.false_ne_true,
      fun _ => ⟨?_, msg, hheard msg replyc hreq, hconn.symm⟩, ho.seqNum h.seqNum, fun p hp => ?_⟩
    · rcases hfilled.unAcked m hm with ⟨-, rfl⟩ | hm'
      · rcases hleft _ hm with hne | hw
        · exact absurd rfl hne
        · exact absurd (h.filled.write _ hw).1 (hno _)
      · exact absurd hm'.1 (hno m)
    · cases hcalled : r.called with
      | true => simp [ClientRun.record, hcalled]
      | false =>
        rw [h.waiting hcalled] at hm₀
        cases hm₀
    · obtain ⟨m, hm, hmp⟩ := hreturned p hp
      exact ⟨m, hm.imp_left fun _ => hnow, hmp⟩

end ClientRun

/-! ## Runs of the server -/

/-- The connection was opened for the address: its ack has been sent there. -/
def ServerRun.Opened (r : ServerRun A) (a : A) (id : Int) : Prop := (a, newAck id 0) ∈ r.net

/-- `sent` are the datagrams of the clients, and `taken` the numbers of the data
that was accepted from them. -/
def connContents (owner : A → Int → Prop) (sent : A → Message → Prop) (taken : A → Int → Prop)
    (written : Int → List Payload) (id : Int) : Contents where
  unAcked m := m.type = .data ∧ m.connID = id ∧ m.payload ∈ written id
  write m := m.type = .data ∧ m.connID = id ∧ m.payload ∈ written id
  read m := ∃ a, owner a id ∧ m.type = .data ∧ sent a m
  latestAck m := (m.type = .ack ∧ m.connID = id) ∧ ∃ a, owner a id ∧ taken a m.seqNum

/-- A connection sends what was written to it to the address it was opened for, and
acknowledges and returns data from there. -/
structure ServerFrom (sent : A → Message → Prop) (taken : A → Int → Prop) (r : ServerRun A) :
    Prop where
  filled : r.server.Filled r.Opened (connContents r.Opened sent taken r.written)
  net : ∀ a m, (a, m) ∈ r.net → r.Opened a m.connID ∧
    (m.type = .data ∧ m.payload ∈ r.written m.connID ∨
      m.type = .ack ∧ (m.seqNum = 0 ∨ taken a m.seqNum))
  opened : ∀ a id, r.Opened a id → 0 < id ∧ id ≤ r.server.connId
  unique : ∀ a a' id, r.Opened a id → r.Opened a' id → a = a'
  connId : 0 ≤ r.server.connId
  returned : ∀ id, ∀ p ∈ r.returned id,
    ∃ m, (∃ a, r.Opened a id ∧ m.type = .data ∧ sent a m) ∧ m.payload = p

theorem serverFrom_init (sent : A → Message → Prop) (taken : A → Int → Prop) :
    ServerFrom sent taken .init where
  filled :=
    { hostport := fun _ _ h => nomatch h
      addr := fun _ _ h => nomatch h
      unAcked := fun _ _ h => nomatch h
      write := fun _ _ h => nomatch h
      read := fun _ _ h => nomatch h
      latestAck := fun _ _ h => nomatch h }
  net _ _ h := nomatch h
  opened _ _ h := nomatch h
  unique _ _ _ h := nomatch h
  connId := le_refl 0
  returned _ _ h := nomatch h

/-- The event is a Connect that opens the connection. -/
def Server.Opens [DecidableEq A] (s : Server A) (req : ServerReq A) (a : A) (id : Int) : Prop :=
  (∃ msg, req.op = .receivemsg a msg ∧ msg.type = .connect) ∧ s.deferedClose = [] ∧
    s.connIdOf a = 0 ∧ id = s.connId + 1

section ServerRun

variable {P : Params} {sent sent' : A → Message → Prop} {taken taken' : A → Int → Prop}
  {r : ServerRun A} {req : ServerReq A} {s' : Server A} {out : List (ServerOut A)}

theorem connContents_mono {s : Server A} {owner owner' : A → Int → Prop}
    {written written' : Int → List Payload}
    (h : s.Filled owner (connContents owner sent taken written))
    (howner : ∀ a id, owner a id → owner' a id) (hsent : ∀ a m, sent a m → sent' a m)
    (htaken : ∀ a q, taken a q → taken' a q) (hwritten : ∀ id, written id ⊆ written' id) :
    s.Filled owner' (connContents owner' sent' taken' written') where
  hostport a id hid := howner a id (h.hostport a id hid)
  addr id a ha := howner a id (h.addr id a ha)
  unAcked id b hb := (h.unAcked id b hb).mono fun _ hm => ⟨hm.1, hm.2.1, hwritten id hm.2.2⟩
  write id b hb := (h.write id b hb).mono fun _ hm => ⟨hm.1, hm.2.1, hwritten id hm.2.2⟩
  read id b hb := (h.read id b hb).mono fun m ⟨a, ha, hty, hm⟩ => ⟨a, howner a id ha, hty, hsent a m hm⟩
  latestAck id b hb := (h.latestAck id b hb).mono fun m ⟨hm, a, ha, hq⟩ =>
    ⟨hm, a, howner a id ha, htaken a m.seqNum hq⟩

theorem ServerFrom.mono (h : ServerFrom sent taken r) (hsent : ∀ a m, sent a m → sent' a m)
    (htaken : ∀ a q, taken a q → taken' a q) : ServerFrom sent' taken' r where
  filled := connContents_mono h.filled (fun _ _ h => h) hsent htaken fun _ => List.Subset.refl _
  net a m hm := (h.net a m hm).imp_right (.imp_right (.imp_right (.imp_right (htaken a m.seqNum))))
  opened := h.opened
  unique := h.unique
  connId := h.connId
  returned id p hp := by
    obtain ⟨m, ⟨a, ha, hty, hm⟩, hmp⟩ := h.returned id p hp
    exact ⟨m, ⟨a, ha, hty, hsent a m hm⟩, hmp⟩

variable [DecidableEq A]

theorem Server.Opens.answered {s : Server A} {a : A} {id : Int} (hopens : s.Opens req a id)
    (hh : s.handle P req = some (s', out)) :
    s'.connId = s.connId + 1 ∧ (a, newAck id 0) ∈ out.filterMap ServerOut.datagram := by
  obtain ⟨⟨msg, hop, htype⟩, hclose, hnew, rfl⟩ := hopens
  unfold Server.handle at hh
  split at hh
  · simp only [hop, Server.handleReceivedMsg, htype, Option.some.injEq] at hh
    unfold Server.handleConnect at hh
    rw [if_pos ⟨List.length_eq_zero_iff.mpr hclose, hnew⟩] at hh
    cases hh
    exact ⟨rfl, List.mem_singleton_self _⟩
  · cases hh

/-- The maps and outputs after an event, in terms of who owned which connection
before. -/
theorem ServerFrom.after (h : ServerFrom sent taken r)
    (hsent : ∀ a msg, req.op = .receivemsg a msg → sent a msg)
    (htaken : ∀ a msg id, req.op = .receivemsg a msg → msg.type = .data →
      .send a (newAck id msg.seqNum) ∈ out → taken a msg.seqNum)
    (hh : r.server.handle P req = some (s', out))
    (owner : A → Int → Prop) (howner : ∀ a id, r.Opened a id ∨ r.server.Opens req a id → owner a id) :
    s'.Filled owner (connContents owner sent taken (r.record req s' out).written) ∧
      Server.Emits owner (connContents owner sent taken (r.record req s' out).written) out := by
  have hf : r.server.Filled owner (connContents owner sent taken (r.record req s' out).written) :=
    connContents_mono h.filled (fun a id ha => howner a id (.inl ha)) (fun _ _ h => h)
      (fun _ _ h => h) fun id => List.subset_append_left _ _
  refine hf.handle ⟨fun _ _ hm => hm, ?_, ?_, ?_⟩ hh
  · intro a msg hop htype hclose hnew
    exact howner a _ (.inr ⟨⟨msg, hop, htype⟩, hclose, hnew, rfl⟩)
  · intro id p q hop hreply
    refine ⟨rfl, rfl, List.mem_append_right _ ?_⟩
    simp only [ServerRun.newlyWritten, hop, hreply, and_self, if_true]
    exact List.mem_singleton_self p
  · intro a msg id hop htype hhost hack
    have ha := hf.hostport a id hhost
    exact ⟨⟨a, ha, htype, hsent a msg hop⟩, ⟨rfl, rfl⟩, a, ha, htaken a msg id hop htype hack⟩

/-- A connection is opened by a Connect, once. -/
theorem ServerFrom.opened_iff (h : ServerFrom sent taken r)
    (hh : r.server.handle P req = some (s', out)) (a : A) (id : Int) :
    (r.record req s' out).Opened a id ↔ r.Opened a id ∨ r.server.Opens req a id := by
  constructor
  · intro hopen
    rcases List.mem_append.mp hopen with hopen | hopen
    · exact .inl hopen
    · have hany : ServerFrom (fun _ _ => True) (fun _ _ => True) r :=
        h.mono (fun _ _ _ => trivial) fun _ _ _ => trivial
      obtain ⟨-, hemits⟩ := hany.after (fun _ _ _ => trivial) (fun _ _ _ _ _ _ => trivial) hh _
        fun _ _ ho => ho
      obtain ⟨id', howner, hm | ⟨hm, -⟩ | hm⟩ := hemits.datagram a (newAck id 0) hopen
      · cases hm.1
      · rw [show id = id' from hm.2]
        exact howner
      · cases hm
        exact howner
  · rintro (hopen | hopens)
    · exact List.mem_append_left _ hopen
    · exact List.mem_append_right _ (hopens.answered hh).2

theorem ServerFrom.step (h : ServerFrom sent taken r)
    (hsent : ∀ a msg, req.op = .receivemsg a msg → sent a msg)
    (htaken : ∀ a msg id, req.op = .receivemsg a msg → msg.type = .data →
      .send a (newAck id msg.seqNum) ∈ out → taken a msg.seqNum)
    (hh : r.server.handle P req = some (s', out)) :
    ServerFrom sent taken (r.record req s' out) := by
  have hiff := h.opened_iff hh
  obtain ⟨hfilled, hemits⟩ := h.after hsent htaken hh (r.record req s' out).Opened
    fun a id ho => (hiff a id).mpr ho
  have hconn := connId_mono (effect_of_serverHandle hh)
  have hold : ∀ a id, r.Opened a id → (r.record req s' out).Opened a id :=
    fun a id ho => (hiff a id).mpr (.inl ho)
  have hopened : ∀ a id, (r.record req s' out).Opened a id → 0 < id ∧ id ≤ s'.connId := by
    intro a id ho
    rcases (hiff a id).mp ho with ho | ho
    · have := h.opened a id ho
      omega
    · have h1 := (ho.answered hh).1
      have h2 := h.connId
      have h3 := ho.2.2.2
      omega
  have hunique : ∀ a a' id, (r.record req s' out).Opened a id →
      (r.record req s' out).Opened a' id → a = a' := by
    intro a a' id ho ho'
    rcases (hiff a id).mp ho with ho | ho <;> rcases (hiff a' id).mp ho' with ho' | ho'
    · exact h.unique a a' id ho ho'
    · have h1 := (h.opened a id ho).2
      have h2 := ho'.2.2.2
      omega
    · have h1 := (h.opened a' id ho').2
      have h2 := ho.2.2.2
      omega
    · obtain ⟨⟨msg, hop, -⟩, -⟩ := ho
      obtain ⟨⟨msg', hop', -⟩, -⟩ := ho'
      rw [hop] at hop'
      cases hop'
      rfl
  refine ⟨hfilled, fun a m hm => ?_, hopened, hunique, le_trans h.connId hconn, fun id p hp => ?_⟩
  · rcases List.mem_append.mp hm with hm | hm
    · obtain ⟨ho, hm⟩ := h.net a m hm
      exact ⟨hold a m.connID ho, hm.imp_left (.imp_right (List.mem_append_left _))⟩
    · obtain ⟨id, ho, ⟨hty, hid, hp⟩ | ⟨⟨hty, hid⟩, a', ho', hq⟩ | rfl⟩ := hemits.datagram a m hm
      · subst hid
        exact ⟨ho, .inl ⟨hty, hp⟩⟩
      · subst hid
        rw [hunique a a' _ ho ho']
        exact ⟨ho', .inr ⟨hty, .inr hq⟩⟩
      · exact ⟨ho, .inr ⟨rfl, .inl rfl⟩⟩
  · rcases List.mem_append.mp hp with hp | hp
    · obtain ⟨m, ⟨a, ha, hm⟩, hmp⟩ := h.returned id p hp
      exact ⟨m, ⟨a, hold a id ha, hm⟩, hmp⟩
    · exact hemits.payload id p hp

end ServerRun

end Cmu440.Lsp
