import Cmu440.Lsp.ServerRuns

/-!
# The per-connection maps of the server

A connection has entries in nine maps of server_impl.go, which are created
together by a Connect and deleted piecemeal: by `CloseConn`, by the epoch that
declares it lost, by the last ack after the end of the connection, and by the
read that reports the loss.

`MapsAgree` says which entries are there together. It holds as long as a
connection is closed only when nothing is pending on it (`settled`): then the
sending half, the addresses and `latestActiveEpoch` come and go together.
`CloseConn` with messages pending deletes `latestActiveEpoch` and the read buffer
alone.

Each handler has one lemma here: on maps that agree it finishes, and they agree
afterwards.
-/
namespace Cmu440.Lsp

variable {A : Type}

theorem isSome_mapSet {K V : Type} [DecidableEq K] {m : K → Option V} {k : K} (h : (m k).isSome)
    (v : V) (k' : K) : (mapSet m k v k').isSome = (m k').isSome := by
  by_cases hk : k' = k
  · rw [hk, h, mapSet, Function.update_self]
    rfl
  · rw [mapSet, Function.update_of_ne hk]

theorem mem_ids {s : Server A} {id : Int} : id ∈ s.ids ↔ 0 < id ∧ id ≤ s.connId := by
  simp only [Server.ids, List.mem_map, List.mem_range]
  constructor
  · rintro ⟨i, hi, rfl⟩
    omega
  · intro h
    exact ⟨(id - 1).toNat, by omega, by omega⟩

/-- The entries of a connection that has not ended. -/
structure Entries (s : Server A) (id : Int) (a : A) : Prop where
  addr : s.connIdHostportMap id = some a
  hostport : s.hostportConnIdMap a = some id
  active : s.active id = true
  read : (s.readBuffer id).isSome
  write : (s.writeBuffer id).isSome
  unAcked : (s.unAckedMsgBuffer id).isSome
  latestAck : (s.latestAckBuffer id).isSome
  latestActive : (s.latestActiveEpoch id).isSome

/-- What has no entry for another connection; the read buffer may outlive it, and
`activeConn` is not looked at once the server is closing. -/
structure NoEntries (s : Server A) (id : Int) : Prop where
  addr : s.connIdHostportMap id = none
  unAcked : s.unAckedMsgBuffer id = none
  latestActive : s.latestActiveEpoch id = none
  active : s.deferedClose = [] → s.active id = false

structure MapsAgree (s : Server A) : Prop where
  conns : ∀ id, (∃ addr, Entries s id addr) ∨ NoEntries s id
  hostport : ∀ addr id, s.hostportConnIdMap addr = some id → s.connIdHostportMap id = some addr
  used : ∀ id, s.connIdHostportMap id ≠ none ∨ s.readBuffer id ≠ none → 0 < id ∧ id ≤ s.connId
  connId : 0 ≤ s.connId
  closing : s.deferedClose ≠ [] → s.deferedRead = []

theorem mapsAgree_newServer : MapsAgree (.newServer : Server A) where
  conns _ := .inr ⟨rfl, rfl, rfl, fun _ => rfl⟩
  hostport _ _ h := nomatch h
  used id h := by
    rcases h with h | h <;> exact absurd rfl h
  connId := le_refl 0
  closing h := absurd rfl h

/-- The value `Read` asserts: a pointer to a `connIdPayloadBundle`. -/
def RetVal.isBundle : RetVal → Bool
  | .bundle _ _ => true
  | _ => false

/-- Every reply is one that `Read` can take. -/
def Bundles (out : List (ServerOut A)) : Prop :=
  ∀ k ret, .reply k ret ∈ out → ret.val.isBundle = true

theorem bundles_nil : Bundles ([] : List (ServerOut A)) := fun _ _ h => nomatch h

theorem bundles_reply {k : Nat} {ret : RetType} (h : ret.val.isBundle = true) :
    Bundles ([.reply k ret] : List (ServerOut A)) := by
  intro k' ret' hmem
  cases List.mem_singleton.mp hmem
  exact h

theorem Bundles.append {out out' : List (ServerOut A)} (h : Bundles out) (h' : Bundles out') :
    Bundles (out ++ out') :=
  fun k ret hmem => (List.mem_append.mp hmem).elim (h k ret) (h' k ret)

namespace MapsAgree

variable {s s' : Server A} {id : Int}

theorem entries (h : MapsAgree s) {addr : A} (haddr : s.connIdHostportMap id = some addr) :
    Entries s id addr := by
  rcases h.conns id with ⟨addr', he⟩ | hno
  · have : addr' = addr := Option.some.inj (he.addr.symm.trans haddr)
    exact this ▸ he
  · rw [hno.addr] at haddr
    cases haddr

theorem entries_of_active (h : MapsAgree s) (hopen : s.deferedClose = []) (hid : s.active id = true) :
    ∃ addr, Entries s id addr := by
  rcases h.conns id with he | hno
  · exact he
  · rw [hno.active hopen] at hid
    cases hid

/-- Nothing comes or goes, except the read buffer of a connection that is not
active. -/
structure Kept (s s' : Server A) : Prop where
  addr : s'.connIdHostportMap = s.connIdHostportMap
  hostport : s'.hostportConnIdMap = s.hostportConnIdMap
  active : s'.activeConn = s.activeConn
  connId : s'.connId = s.connId
  read : ∀ id, (s'.readBuffer id).isSome = (s.readBuffer id).isSome ∨
    s.active id = false ∧ s'.readBuffer id = none
  write : ∀ id, (s'.writeBuffer id).isSome = (s.writeBuffer id).isSome
  unAcked : ∀ id, (s'.unAckedMsgBuffer id).isSome = (s.unAckedMsgBuffer id).isSome
  latestAck : ∀ id, (s'.latestAckBuffer id).isSome = (s.latestAckBuffer id).isSome
  latestActive : ∀ id, (s'.latestActiveEpoch id).isSome = (s.latestActiveEpoch id).isSome
  open_ : s'.deferedClose = [] → s.deferedClose = []
  closing : s'.deferedClose ≠ [] → s'.deferedRead = []

theorem kept (h : MapsAgree s) (hk : Kept s s') : MapsAgree s' where
  conns id := by
    have hactive : s'.active id = s.active id := by rw [Server.active, hk.active]; rfl
    rcases h.conns id with ⟨addr, he⟩ | hno
    · refine .inl ⟨addr, ?_, ?_, hactive.trans he.active, ?_, ?_, ?_, ?_, ?_⟩
      · rw [hk.addr]; exact he.addr
      · rw [hk.hostport]; exact he.hostport
      · rcases hk.read id with hr | ⟨hina, -⟩
        · rw [hr]; exact he.read
        · rw [he.active] at hina; cases hina
      · rw [hk.write]; exact he.write
      · rw [hk.unAcked]; exact he.unAcked
      · rw [hk.latestAck]; exact he.latestAck
      · rw [hk.latestActive]; exact he.latestActive
    · refine .inr ⟨?_, ?_, ?_, fun hopen => hactive.trans (hno.active (hk.open_ hopen))⟩
      · rw [hk.addr]; exact hno.addr
      · have := hk.unAcked id
        rw [hno.unAcked] at this
        exact Option.isNone_iff_eq_none.mp (by simpa using this)
      · have := hk.latestActive id
        rw [hno.latestActive] at this
        exact Option.isNone_iff_eq_none.mp (by simpa using this)
  hostport addr id hid := by
    rw [hk.hostport] at hid
    rw [hk.addr]
    exact h.hostport addr id hid
  used id hid := by
    rw [hk.connId]
    rw [hk.addr] at hid
    refine h.used id (hid.imp_right fun hr hnone => ?_)
    rcases hk.read id with hsame | ⟨-, hdel⟩
    · rw [hnone] at hsame
      exact hr (Option.isNone_iff_eq_none.mp (by simpa using hsame))
    · exact hr hdel
  connId := hk.connId ▸ h.connId
  closing := hk.closing

/-- The connection ends. -/
structure Removed [DecidableEq A] (s s' : Server A) (id : Int) (addr : A) : Prop where
  others : ∀ id', id' ≠ id → SameConn s s' id' ∧ s'.latestActiveEpoch id' = s.latestActiveEpoch id'
  gone : NoEntries s' id
  hostport : s'.hostportConnIdMap = mapDelete s.hostportConnIdMap addr
  connId : s'.connId = s.connId
  closing : s'.deferedClose = s.deferedClose
  reads : s.deferedRead = [] → s'.deferedRead = []

theorem removed [DecidableEq A] (h : MapsAgree s) {addr : A} (hid : Entries s id addr)
    (hr : Removed s s' id addr) : MapsAgree s' where
  conns id' := by
    by_cases hne : id' = id
    · exact .inr (hne ▸ hr.gone)
    obtain ⟨hsame, hlatest⟩ := hr.others id' hne
    have hactive : s'.active id' = s.active id' := by rw [Server.active, hsame.active]; rfl
    rcases h.conns id' with ⟨addr', he⟩ | hno
    · refine .inl ⟨addr', hsame.addr.trans he.addr, ?_, hactive.trans he.active, ?_, ?_, ?_, ?_, ?_⟩
      · have hne' : addr' ≠ addr := by
          rintro rfl
          exact hne (Option.some.inj (he.hostport.symm.trans hid.hostport))
        rw [hr.hostport, mapDelete, Function.update_of_ne hne']
        exact he.hostport
      · rw [hsame.read]; exact he.read
      · rw [hsame.write]; exact he.write
      · rw [hsame.unAcked]; exact he.unAcked
      · rw [hsame.latestAck]; exact he.latestAck
      · rw [hlatest]; exact he.latestActive
    · refine .inr ⟨hsame.addr.trans hno.addr, hsame.unAcked.trans hno.unAcked,
        hlatest.trans hno.latestActive, fun hopen => hactive.trans (hno.active ?_)⟩
      rw [← hr.closing]
      exact hopen
  hostport addr' id' hid' := by
    rw [hr.hostport, mapDelete] at hid'
    by_cases hne : addr' = addr
    · rw [hne, Function.update_self] at hid'
      cases hid'
    · rw [Function.update_of_ne hne] at hid'
      have haddr := h.hostport addr' id' hid'
      have hne' : id' ≠ id := by
        rintro rfl
        exact hne (Option.some.inj (haddr.symm.trans hid.addr))
      exact (hr.others id' hne').1.addr.trans haddr
  used id' hid' := by
    rw [hr.connId]
    refine h.used id' ?_
    by_cases hne : id' = id
    · rw [hne, hid.addr]
      exact .inl (Option.some_ne_none addr)
    · rw [← (hr.others id' hne).1.addr, ← (hr.others id' hne).1.read]
      exact hid'
  connId := hr.connId ▸ h.connId
  closing hcl := hr.reads (h.closing (hr.closing ▸ hcl))

/-- A Connect opens the next connection. -/
theorem opened [DecidableEq A] (h : MapsAgree s) (addr : A) (hnew : s.hostportConnIdMap addr = none) :
    MapsAgree (s.handleConnect addr).1 := by
  unfold Server.handleConnect
  split
  · have hconn := h.connId
    -- the next number has no entries yet
    have hfree : s.connIdHostportMap (s.connId + 1) = none := by
      by_contra hne
      have := (h.used _ (.inl hne)).2
      omega
    refine ⟨fun id => ?_, fun addr' id hid => ?_, fun id hid => ?_, ?_, ?_⟩
    · by_cases hid : id = s.connId + 1
      · subst hid
        refine .inl ⟨addr, ?_⟩
        constructor <;> simp [Server.active, mapSet]
      · rcases h.conns id with ⟨addr', he⟩ | hno
        · have hne : addr' ≠ addr := by
            rintro rfl
            rw [he.hostport] at hnew
            cases hnew
          refine .inl ⟨addr', ?_⟩
          obtain ⟨h₁, h₂, h₃, h₄, h₅, h₆, h₇, h₈⟩ := he
          constructor <;> simpa [Server.active, mapSet, hid, hne] using by assumption
        · obtain ⟨h₁, h₂, h₃, h₄⟩ := hno
          refine .inr ⟨?_, ?_, ?_, ?_⟩ <;> simpa [Server.active, mapSet, hid] using by assumption
    · by_cases haddr : addr' = addr
      · subst haddr
        simp only [mapSet, Function.update_self, Option.some.injEq] at hid
        subst hid
        simp [mapSet]
      · simp only [mapSet, Function.update_of_ne haddr] at hid
        have hid' := h.hostport addr' id hid
        have hne : id ≠ s.connId + 1 := by
          rintro rfl
          rw [hfree] at hid'
          cases hid'
        simpa [mapSet, hne] using hid'
    · by_cases hne : id = s.connId + 1
      · subst hne
        exact ⟨by omega, le_refl _⟩
      · simp only [mapSet, Function.update_of_ne hne] at hid
        have := h.used id hid
        exact ⟨this.1, by simp only; omega⟩
    · simp only
      omega
    · exact h.closing
  · exact h

theorem kept_refl (h : MapsAgree s) : Kept s s :=
  ⟨rfl, rfl, rfl, rfl, fun _ => .inl rfl, fun _ => rfl, fun _ => rfl, fun _ => rfl, fun _ => rfl, id,
    h.closing⟩

/-! ## The handlers -/

theorem read_agrees (h : MapsAgree s) (replyc : Nat) (o : Orders) :
    ∃ t, s.handleRead replyc o = some t ∧ MapsAgree t.1 ∧ t.1.deferedClose = s.deferedClose ∧
      (s.deferedClose = [] → Bundles t.2) := by
  unfold Server.handleRead
  split
  · rename_i hclosed
    refine ⟨_, rfl, h, rfl, fun hopen => ?_⟩
    rw [hopen] at hclosed
    exact absurd hclosed (lt_irrefl 0)
  · rename_i hopen
    have hopen : s.deferedClose = [] := List.length_eq_zero_iff.mp (Nat.eq_zero_of_not_pos hopen)
    split
    · rename_i id hfind
      have hready := List.find?_some hfind
      cases hrb : s.readBuffer id with
      | none =>
        rw [hrb] at hready
        cases hready
      | some rb =>
        cases hrm : rb.remove with
        | none =>
          simp [hrb, Server.ready, Buffer.front, Buffer.remove_eq_none.mp hrm] at hready
        | some t =>
          simp only [hrm, Option.bind_eq_bind, Option.bind_some, Option.pure_def]
          refine ⟨_, rfl, h.kept { h.kept_refl with read := fun id' => .inl ?_ }, rfl,
            fun _ => bundles_reply rfl⟩
          exact isSome_mapSet (by rw [hrb]; rfl) _ _
    · split
      · rename_i id hfind
        have hlost := List.find?_some hfind
        simp only [Bool.and_eq_true, Bool.not_eq_true'] at hlost
        refine ⟨_, rfl, h.kept { h.kept_refl with read := fun id' => ?_ }, rfl,
          fun _ => bundles_reply rfl⟩
        by_cases hid : id' = id
        · exact .inr ⟨hid ▸ hlost.2, by rw [hid]; exact Function.update_self ..⟩
        · exact .inl (by simp only [mapDelete, Function.update_of_ne hid])
      · exact ⟨_, rfl, h.kept { h.kept_refl with closing := fun hcl => absurd hopen hcl }, rfl,
          fun _ => bundles_nil⟩

theorem write_agrees (h : MapsAgree s) (P : Params) (id : Int) (p : Payload) (replyc : Nat) :
    ∃ t, s.handleWrite P id p replyc = some t ∧ MapsAgree t.1 ∧
      ∀ k ret, .reply k ret ∈ t.2 → k = replyc := by
  unfold Server.handleWrite
  split
  · refine ⟨_, rfl, h, fun k ret hmem => ?_⟩
    cases List.mem_singleton.mp hmem
    rfl
  · split
    · rename_i addr haddr
      have he := h.entries haddr
      obtain ⟨u, hu⟩ := Option.isSome_iff_exists.mp he.unAcked
      obtain ⟨w, hw⟩ := Option.isSome_iff_exists.mp he.write
      rw [hu, hw]
      refine ⟨_, rfl, h.kept { h.kept_refl with
        unAcked := fun id' => isSome_mapSet he.unAcked _ _
        write := fun id' => isSome_mapSet he.write _ _ }, fun k ret hmem => ?_⟩
      rcases List.mem_append.mp hmem with hmem | hmem
      · obtain ⟨m, -, hm⟩ := List.mem_map.mp hmem
        cases hm
      · cases List.mem_singleton.mp hmem
        rfl
    · refine ⟨_, rfl, h, fun k ret hmem => ?_⟩
      cases List.mem_singleton.mp hmem
      rfl

theorem entries_of_connIdOf (h : MapsAgree s) {addr : A} (hid : s.connIdOf addr > 0) :
    Entries s (s.connIdOf addr) addr := by
  refine h.entries (h.hostport _ _ ?_)
  unfold Server.connIdOf at hid ⊢
  cases hh : s.hostportConnIdMap addr with
  | none =>
    rw [hh] at hid
    exact absurd hid (lt_irrefl 0)
  | some id => rfl

theorem data_agrees (h : MapsAgree s) (P : Params) (addr : A) (msg : Message) (o : Orders) :
    ∃ t, s.handleData P addr msg o = some t ∧ MapsAgree t.1 ∧ Bundles t.2 := by
  unfold Server.handleData
  simp only
  split
  · rename_i hc
    have he := h.entries_of_connIdOf hc.1
    have hopen := List.length_eq_zero_iff.mp hc.2.2
    obtain ⟨rb, hrb⟩ := Option.isSome_iff_exists.mp he.read
    obtain ⟨lab, hlab⟩ := Option.isSome_iff_exists.mp he.latestAck
    obtain ⟨r, hr⟩ := acceptData_isSome P.windowSize (s.connIdOf addr) rb lab msg
    have hkept : Kept s { s with
        latestActiveEpoch := mapSet s.latestActiveEpoch (s.connIdOf addr) s.currEpoch } :=
      { h.kept_refl with latestActive := fun id' => isSome_mapSet he.latestActive _ _ }
    split
    · have hkept' : Kept s { s with
          latestActiveEpoch := mapSet s.latestActiveEpoch (s.connIdOf addr) s.currEpoch
          readBuffer := mapSet s.readBuffer (s.connIdOf addr) r.1
          latestAckBuffer := mapSet s.latestAckBuffer (s.connIdOf addr) r.2 } :=
        { hkept with
          read := fun id' => .inl (isSome_mapSet he.read _ _)
          latestAck := fun id' => isSome_mapSet he.latestAck _ _ }
      have hsent : Bundles [ServerOut.send addr (newAck (s.connIdOf addr) msg.seqNum)] := by
        intro k ret hmem
        cases List.mem_singleton.mp hmem
      simp only [hrb, hlab, hr, Option.bind_eq_bind, Option.bind_some, Option.pure_def]
      split
      · rename_i readReq rest hreads
        split
        · have hread : MapsAgree { s with
              latestActiveEpoch := mapSet s.latestActiveEpoch (s.connIdOf addr) s.currEpoch
              readBuffer := mapSet s.readBuffer (s.connIdOf addr) r.1
              latestAckBuffer := mapSet s.latestAckBuffer (s.connIdOf addr) r.2
              deferedRead := rest } :=
            h.kept { hkept' with closing := fun hcl => absurd hopen hcl }
          obtain ⟨t, ht, hagree, -, hb⟩ := hread.read_agrees readReq o
          rw [ht]
          exact ⟨_, rfl, hagree, hsent.append (hb hopen)⟩
        · exact ⟨_, rfl, h.kept hkept', hsent⟩
      · exact ⟨_, rfl, h.kept hkept', hsent⟩
    · exact ⟨_, rfl, h.kept hkept, bundles_nil⟩
  · exact ⟨_, rfl, h, bundles_nil⟩

section Changes

variable [DecidableEq A]

theorem connect_agrees (h : MapsAgree s) (addr : A) : MapsAgree (s.handleConnect addr).1 := by
  cases hh : s.hostportConnIdMap addr with
  | none => exact h.opened addr hh
  | some id =>
    have hid := h.used id (.inl (by rw [h.hostport addr id hh]; nofun))
    have hne : ¬(s.deferedClose.length = 0 ∧ s.connIdOf addr = 0) := by
      rintro ⟨-, hzero⟩
      rw [Server.connIdOf, hh, Option.getD_some] at hzero
      omega
    rw [Server.handleConnect, if_neg hne]
    exact h

theorem bundles_connect (s : Server A) (addr : A) : Bundles (s.handleConnect addr).2 := by
  unfold Server.handleConnect
  split
  · intro k ret hmem
    cases List.mem_singleton.mp hmem
  · exact bundles_nil

theorem cleanUp_agrees (h : MapsAgree s) {addr : A} (he : Entries s id addr)
    (hclosing : s.deferedClose ≠ []) : MapsAgree (s.cleanUp addr id) := by
  refine h.removed he ⟨fun id' hne => ⟨?_, Function.update_of_ne hne ..⟩, ?_, rfl, rfl, rfl, fun hn => hn⟩
  · constructor <;> first | exact Function.update_of_ne hne .. | rfl
  · exact ⟨Function.update_self .., Function.update_self .., Function.update_self ..,
      fun hn => absurd hn hclosing⟩

theorem ack_agrees (h : MapsAgree s) (P : Params) (addr : A) (msg : Message) :
    ∃ t, s.handleAck P addr msg = some t ∧ MapsAgree t.1 ∧ ∀ k ret, .reply k ret ∉ t.2 := by
  unfold Server.handleAck
  simp only
  split
  · rename_i hid
    have he := h.entries_of_connIdOf hid
    obtain ⟨u, hu⟩ := Option.isSome_iff_exists.mp he.unAcked
    obtain ⟨w, hw⟩ := Option.isSome_iff_exists.mp he.write
    obtain ⟨r, hr⟩ := ackReceived_isSome P.windowSize u w msg.seqNum
    have hkept : Kept s { s with
        latestActiveEpoch := mapSet s.latestActiveEpoch (s.connIdOf addr) s.currEpoch } :=
      { h.kept_refl with latestActive := fun id' => isSome_mapSet he.latestActive _ _ }
    have hsent : ∀ k ret, ServerOut.reply k ret ∉ r.2.2.2.map (ServerOut.send addr) := by
      intro k ret hmem
      obtain ⟨m, -, hm⟩ := List.mem_map.mp hmem
      cases hm
    simp only [hu, hw, hr, Option.bind_eq_bind, Option.bind_some, Option.pure_def]
    split
    · have hkept' : MapsAgree { s with
          latestActiveEpoch := mapSet s.latestActiveEpoch (s.connIdOf addr) s.currEpoch
          unAckedMsgBuffer := mapSet s.unAckedMsgBuffer (s.connIdOf addr) r.2.1
          writeBuffer := mapSet s.writeBuffer (s.connIdOf addr) r.2.2.1 } :=
        h.kept { hkept with
          unAcked := fun id' => isSome_mapSet he.unAcked _ _
          write := fun id' => isSome_mapSet he.write _ _ }
      split
      · rename_i hlast
        refine ⟨_, rfl, ?_, hsent⟩
        -- an active connection is cleaned up only when the server is closing
        refine hkept'.cleanUp_agrees (hkept'.entries he.addr) ?_
        rcases hlast.2 with hina | hclosing
        · have hactive := he.active
          rw [Server.active] at hactive
          simp [Server.active, hactive] at hina
        · exact List.length_pos_iff.mp hclosing
      · exact ⟨_, rfl, hkept', hsent⟩
    · exact ⟨_, rfl, h.kept hkept, fun _ _ => List.not_mem_nil⟩
  · exact ⟨_, rfl, h, fun _ _ => List.not_mem_nil⟩

/-- A connection that times out has a read buffer and an address. -/
theorem detectLost_agrees (h : MapsAgree s) (P : Params) (id : Int) :
    ∃ t, s.detectLost P id = some t ∧ MapsAgree t.1 ∧ t.1.deferedClose = s.deferedClose ∧
      Bundles t.2 := by
  unfold Server.detectLost
  split
  · exact ⟨_, rfl, h, rfl, bundles_nil⟩
  · rename_i e hlatest
    split
    · rcases h.conns id with ⟨addr, he⟩ | hno
      · obtain ⟨rb, hrb⟩ := Option.isSome_iff_exists.mp he.read
        have hmark : Bundles [(ServerOut.connLost id : ServerOut A)] := by
          intro k ret hmem
          cases List.mem_singleton.mp hmem
        simp only [hrb, Option.bind_eq_bind, Option.bind_some, Option.pure_def]
        split
        · rename_i readReq rest hready hreads
          simp only [he.addr, Option.bind_some]
          refine ⟨_, rfl, h.removed he ⟨fun id' hne => ⟨?_, Function.update_of_ne hne ..⟩, ?_, rfl, rfl,
            rfl, fun hn => ?_⟩, rfl, (bundles_reply rfl).append hmark⟩
          · constructor <;> exact Function.update_of_ne hne ..
          · exact ⟨Function.update_self .., Function.update_self .., Function.update_self ..,
              fun _ => by simp [Server.active, mapDelete]⟩
          · rw [hn] at hreads
            cases hreads
        · simp only [he.addr, Option.bind_some]
          refine ⟨_, rfl, h.removed he ⟨fun id' hne => ⟨?_, Function.update_of_ne hne ..⟩, ?_, rfl, rfl,
            rfl, fun hn => hn⟩, rfl, bundles_nil.append hmark⟩
          · constructor <;> first | exact Function.update_of_ne hne .. | rfl
          · exact ⟨Function.update_self .., Function.update_self .., Function.update_self ..,
              fun _ => by simp [Server.active, mapDelete]⟩
      · rw [hno.latestActive] at hlatest
        cases hlatest
    · exact ⟨_, rfl, h, rfl, bundles_nil⟩

theorem detectLostAll_agrees (h : MapsAgree s) (P : Params) (order : List Int) :
    ∃ t, s.detectLostAll P order = some t ∧ MapsAgree t.1 ∧ t.1.deferedClose = s.deferedClose ∧
      Bundles t.2 := by
  induction order generalizing s with
  | nil => exact ⟨_, rfl, h, rfl, bundles_nil⟩
  | cons id rest ih =>
    obtain ⟨t₁, ht₁, h₁, hcl₁, hb₁⟩ := h.detectLost_agrees P id
    obtain ⟨t₂, ht₂, h₂, hcl₂, hb₂⟩ := ih h₁
    refine ⟨(t₂.1, t₁.2 ++ t₂.2), ?_, h₂, hcl₂.trans hcl₁, hb₁.append hb₂⟩
    simp only [Server.detectLostAll, ht₁, ht₂, Option.bind_eq_bind, Option.bind_some, Option.pure_def]

end Changes

theorem pending_isSome (h : MapsAgree s) (id : Int) : ∃ b, s.pending id = some b := by
  unfold Server.pending
  rcases h.conns id with ⟨addr, he⟩ | hno
  · obtain ⟨u, hu⟩ := Option.isSome_iff_exists.mp he.unAcked
    obtain ⟨w, hw⟩ := Option.isSome_iff_exists.mp he.write
    rw [hu]
    simp only
    split
    · exact ⟨_, rfl⟩
    · rw [hw]
      exact ⟨_, rfl⟩
  · rw [hno.unAcked]
    exact ⟨_, rfl⟩

theorem mapM_pending_isSome (h : MapsAgree s) (order : List Int) :
    ∃ l, order.mapM s.pending = some l := by
  induction order with
  | nil => exact ⟨[], rfl⟩
  | cons id rest ih =>
    obtain ⟨b, hb⟩ := h.pending_isSome id
    obtain ⟨l, hl⟩ := ih
    exact ⟨b :: l, by simp [hb, hl]⟩

theorem firstPending_isSome (h : MapsAgree s) (order : List Int) :
    ∃ b, Server.handleClose.firstPending s order = some b := by
  induction order with
  | nil => exact ⟨false, rfl⟩
  | cons id rest ih =>
    obtain ⟨b, hb⟩ := h.pending_isSome id
    unfold Server.handleClose.firstPending
    rw [hb]
    cases b with
    | true => exact ⟨true, rfl⟩
    | false => exact ih

theorem bundles_resent {out : List (ServerOut A)} (h : Resent s out) : Bundles out := by
  intro k ret hmem
  obtain ⟨a, m, id', ho, -⟩ := h _ hmem
  cases ho

theorem close_agrees (h : MapsAgree s) {replyc : Nat} {o : Orders} {out : List (ServerOut A)}
    (hc : s.handleClose replyc o = some (s', out)) : MapsAgree s' := by
  have hk : Kept s { s with deferedRead := [] } := { h.kept_refl with closing := fun _ => rfl }
  cases closesServer_of_handle hc with
  | ends => exact h.kept { hk with }
  | waits =>
    exact h.kept { hk with open_ := fun hn => absurd hn (by simp), closing := fun _ => rfl }

theorem close_isSome (h : MapsAgree s) (replyc : Nat) (o : Orders) (hreads : s.deferedRead = []) :
    ∃ t, s.handleClose replyc o = some t := by
  have hk : MapsAgree { s with deferedRead := [] } :=
    h.kept { h.kept_refl with closing := fun _ => rfl }
  obtain ⟨b, hb⟩ := hk.firstPending_isSome o.first
  unfold Server.handleClose
  rw [hreads]
  simp only [List.mapM_nil, Option.pure_def, Option.bind_eq_bind, Option.bind_some, hb]
  split <;> exact ⟨_, rfl⟩

section Events

variable [DecidableEq A]

theorem epoch_agrees (h : MapsAgree s) (P : Params) (o : Orders) :
    ∃ t, s.handleEpoch P o = some t ∧ MapsAgree t.1 ∧ (s.deferedClose = [] → Bundles t.2) := by
  have hnext : MapsAgree { s with currEpoch := s.currEpoch + 1 } := h.kept { h.kept_refl with }
  obtain ⟨t, ht, hagree, hcl, hb⟩ := hnext.detectLostAll_agrees P o.first
  obtain ⟨l, hl⟩ := hagree.mapM_pending_isSome o.third
  unfold Server.handleEpoch
  simp only [ht, hl, Option.bind_eq_bind, Option.bind_some, Option.pure_def]
  split
  · rename_i hclose
    refine ⟨_, rfl, hagree.kept { hagree.kept_refl with }, fun hopen => ?_⟩
    rw [hcl] at hclose
    simp only at hclose
    rw [hopen] at hclose
    exact absurd hclose.1 (lt_irrefl 0)
  · refine ⟨_, rfl, hagree, fun _ => (hb.append ?_).append (bundles_resent (resent_unAcked t.1 _))⟩
    split
    · exact bundles_resent (resent_acks t.1 _)
    · exact bundles_nil

/-- A connection on which nothing is pending ends completely. -/
theorem closeConn_agrees (h : MapsAgree s) {id : Int} {replyc : Nat} {out : List (ServerOut A)}
    (hsettled : s.active id = true → s.pending id = some false)
    (hc : s.handleCloseConn id replyc = some (s', out)) : MapsAgree s' := by
  cases closesConn_of_handle hc with
  | unknown => exact h
  | waits hactive _ hpending => cases hpending.symm.trans (hsettled hactive)
  | ends hactive _ hu hpending haddr =>
    refine h.removed (h.entries haddr) ⟨fun id' hne => ⟨?_, Function.update_of_ne hne ..⟩, ?_, rfl, rfl,
      rfl, fun hn => ?_⟩
    · constructor <;> exact Function.update_of_ne hne ..
    · exact ⟨Function.update_self .., Function.update_self .., Function.update_self ..,
        fun _ => by simp [Server.active, Server.forgetConn, mapDelete]⟩
    · simp only [Server.forgetConn, hn, List.tail_nil]

theorem closeConn_isSome (h : MapsAgree s) (id : Int) (replyc : Nat) (hopen : s.deferedClose = [])
    (hreads : s.deferedRead = []) : ∃ t, s.handleCloseConn id replyc = some t := by
  unfold Server.handleCloseConn
  split
  · rename_i hactive
    obtain ⟨addr, he⟩ := h.entries_of_active hopen hactive
    obtain ⟨u, hu⟩ := Option.isSome_iff_exists.mp he.unAcked
    obtain ⟨b, hb⟩ := h.pending_isSome id
    have hrelease : ∃ s₁, s.releaseSending id = some s₁ := by
      unfold Server.releaseSending
      rw [hu, hb]
      cases b with
      | true => exact ⟨s, rfl⟩
      | false => exact ⟨_, by rw [he.addr]; rfl⟩
    obtain ⟨s₁, hs₁⟩ := hrelease
    have hunblock : s.unblockRead id = some (s, []) := by rw [Server.unblockRead, hreads]
    simp [hunblock, hs₁]
  · exact ⟨_, rfl⟩

end Events

end MapsAgree

/-! ## Closing connections on which nothing is pending -/

/-- A connection is closed by `CloseConn` only when nothing is pending on it. -/
def Server.settled (s : Server A) (req : ServerReq A) : Bool :=
  match req.op with
  | .docloseconn id => !s.active id || s.pending id == some false
  | _ => true

theorem Server.settled_closeConn {s : Server A} {req : ServerReq A} {id : Int}
    (h : s.settled req = true) (hop : req.op = .docloseconn id) (hactive : s.active id = true) :
    s.pending id = some false := by
  simpa [Server.settled, hop, hactive] using h

section Handle

variable [DecidableEq A] {P : Params} {s s' : Server A} {req : ServerReq A}

theorem MapsAgree.handle (h : MapsAgree s) (hsettled : s.settled req = true)
    {out : List (ServerOut A)} (hh : s.handle P req = some (s', out)) : MapsAgree s' := by
  have agree : ∀ {o : Option (Server A × List (ServerOut A))} {Q : Server A × List (ServerOut A) → Prop},
      (∃ t, o = some t ∧ MapsAgree t.1 ∧ Q t) → o = some (s', out) → MapsAgree s' := by
    rintro o Q ⟨t, ht, hagree, -⟩ ho
    rw [ht] at ho
    cases ho
    exact hagree
  unfold Server.handle at hh
  split at hh
  · cases hop : req.op <;> simp only [hop] at hh
    case doread => exact agree (h.read_agrees req.replyc req.orders) hh
    case dowrite id p => exact agree (h.write_agrees P id p req.replyc) hh
    case docloseconn id => exact h.closeConn_agrees (Server.settled_closeConn hsettled hop) hh
    case doclose => exact h.close_agrees hh
    case epochtimer => exact agree (h.epoch_agrees P req.orders) hh
    case receivemsg addr msg =>
      unfold Server.handleReceivedMsg at hh
      cases htype : msg.type <;> simp only [htype] at hh
      case connect =>
        have hagree := h.connect_agrees addr
        rw [Option.some.inj hh] at hagree
        exact hagree
      case ack => exact agree (h.ack_agrees P addr msg) hh
      case data => exact agree (h.data_agrees P addr msg req.orders) hh
  · cases hh

end Handle

/-- The runs of the server whose events all meet the condition. -/
def serverRunsWhere [DecidableEq A] (P : Params) (g : Server A → ServerReq A → Bool) :
    LTS (ServerRun A) (ServerReq A) :=
  .ofFn (· = .init) (LTS.guarded (fun r req => g r.server req) (ServerRun.step P))

theorem serverRunsWhere_step [DecidableEq A] {P : Params} {g : Server A → ServerReq A → Bool}
    {r r' : ServerRun A} {req : ServerReq A} (h : (serverRunsWhere P g).step r req r') :
    g r.server req = true ∧ ∃ s out, r.server.handle P req = some (s, out) ∧
      r' = r.record req s out := by
  obtain ⟨hg, hstep⟩ := LTS.guarded_eq_some.mp h
  obtain ⟨⟨s, out⟩, hh, rfl⟩ := Option.map_eq_some_iff.mp hstep
  exact ⟨hg, s, out, hh, rfl⟩

theorem mapsAgree_inductive [DecidableEq A] (P : Params) {g : Server A → ServerReq A → Bool}
    (hg : ∀ s req, g s req = true → s.settled req = true) :
    (serverRunsWhere P g).Inductive fun r => MapsAgree r.server where
  init := by
    rintro _ rfl
    exact mapsAgree_newServer
  step := by
    intro r req r' h hstep
    obtain ⟨hgr, s, out, hh, rfl⟩ := serverRunsWhere_step hstep
    exact h.handle (hg _ _ hgr) hh

end Cmu440.Lsp
