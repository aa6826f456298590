import Cmu440.Lsp.ServerMaps

/-!
# Crashes of the server

The handlers of server_impl.go index the maps and take the fronts of lists
without checks. On maps that agree the only checks that are missed concern the
blocked reads: `handleCloseConn` and `handleClose` look for a blocked read at the
front of `deferedClose`.

* `server_never_crashes`: the event handler finishes on every event, and every `Read` gets a
  value of the type it asserts, as long as no connection with pending messages
  is closed, no connection is closed while a read is blocked or a `Close` waits, and
  `Read` and `Close` are not pending together.
* `server_crashes`: each of these conditions is needed.
-/
namespace Cmu440.Lsp

variable {A : Type}

/-- The event handler can take the event next. A request has a reply channel of
its own. -/
structure Server.Takes (s : Server A) (req : ServerReq A) : Prop where
  running : s.serverRunning = true
  first : req.orders.first.Perm s.ids
  second : req.orders.second.Perm s.ids
  third : req.orders.third.Perm s.ids
  fresh : req.replyc ∉ s.deferedRead

/-- The reply is for a call of `Read`. -/
def Server.AnswersRead (s : Server A) (req : ServerReq A) (k : Nat) : Prop :=
  k ∈ s.deferedRead ∨ req.op = .doread ∧ k = req.replyc

theorem Server.AnswersRead.blocked {s : Server A} {req : ServerReq A} {k : Nat}
    (h : s.AnswersRead req k) (hop : req.op ≠ .doread) : k ∈ s.deferedRead :=
  h.resolve_right fun hread => hop hread.1

def Server.orderly (s : Server A) (req : ServerReq A) : Bool :=
  match req.op with
  | .doread => s.deferedClose.isEmpty
  | .docloseconn id => !s.active id ||
      s.deferedClose.isEmpty && s.deferedRead.isEmpty && s.pending id == some false
  | .doclose => s.deferedRead.isEmpty
  | _ => true

theorem Server.settled_of_orderly {s : Server A} {req : ServerReq A} (h : s.orderly req = true) :
    s.settled req = true := by
  unfold Server.orderly at h
  unfold Server.settled
  split
  · rename_i id hop
    rw [hop] at h
    cases hactive : s.active id with
    | false => rfl
    | true =>
      simp only [hactive, Bool.not_true, Bool.false_or, Bool.and_eq_true] at h ⊢
      exact h.2
  · rfl

theorem server_never_crashes [DecidableEq A] (P : Params) {r : ServerRun A}
    (hr : (serverRunsWhere P Server.orderly).Reachable r) {req : ServerReq A}
    (htakes : r.server.Takes req) (horderly : r.server.orderly req = true) :
    ∃ s out, r.server.handle P req = some (s, out) ∧
      ∀ k ret, .reply k ret ∈ out → r.server.AnswersRead req k → ret.val.isBundle = true := by
  have h : MapsAgree r.server :=
    (mapsAgree_inductive P fun _ _ => Server.settled_of_orderly).reachable r hr
  rw [Server.handle, if_pos ⟨htakes.running, htakes.first, htakes.second, htakes.third⟩]
  unfold Server.orderly at horderly
  cases hop : req.op <;> simp only [hop] at horderly ⊢
  case doread =>
    obtain ⟨t, ht, -, -, hb⟩ := h.read_agrees req.replyc req.orders
    exact ⟨t.1, t.2, ht, fun k ret hmem _ => hb (List.isEmpty_iff.mp horderly) k ret hmem⟩
  case dowrite id p =>
    obtain ⟨t, ht, -, hreply⟩ := h.write_agrees P id p req.replyc
    refine ⟨t.1, t.2, ht, fun k ret hmem hread => ?_⟩
    rw [hreply k ret hmem] at hread
    exact absurd (hread.blocked (by simp [hop])) htakes.fresh
  case docloseconn id =>
    cases hactive : r.server.active id with
    | false =>
      refine ⟨_, _, by rw [Server.handleCloseConn, if_neg (by simp [hactive])], ?_⟩
      intro k ret hmem hread
      cases List.mem_singleton.mp hmem
      exact absurd (hread.blocked (by simp [hop])) htakes.fresh
    | true =>
      simp only [hactive, Bool.not_true, Bool.false_or, Bool.and_eq_true, List.isEmpty_iff] at horderly
      obtain ⟨t, ht⟩ := h.closeConn_isSome id req.replyc horderly.1.1 horderly.1.2
      refine ⟨t.1, t.2, ht, fun k ret _ hread => ?_⟩
      have hblocked := hread.blocked (by simp [hop])
      rw [horderly.1.2] at hblocked
      cases hblocked
  case doclose =>
    have hreads := List.isEmpty_iff.mp horderly
    obtain ⟨t, ht⟩ := h.close_isSome req.replyc req.orders hreads
    refine ⟨t.1, t.2, ht, fun k ret _ hread => ?_⟩
    have hblocked := hread.blocked (by simp [hop])
    rw [hreads] at hblocked
    cases hblocked
  case epochtimer =>
    obtain ⟨t, ht, -, hb⟩ := h.epoch_agrees P req.orders
    refine ⟨t.1, t.2, ht, fun k ret hmem hread => ?_⟩
    have hblocked := hread.blocked (by simp [hop])
    -- no read is blocked when a `Close` waits
    by_cases hopen : r.server.deferedClose = []
    · exact hb hopen k ret hmem
    · rw [h.closing hopen] at hblocked
      cases hblocked
  case receivemsg addr msg =>
    unfold Server.handleReceivedMsg
    cases htype : msg.type <;> simp only
    case connect =>
      exact ⟨_, _, rfl, fun k ret hmem _ => MapsAgree.bundles_connect _ addr k ret hmem⟩
    case ack =>
      obtain ⟨t, ht, -, hnone⟩ := h.ack_agrees P addr msg
      exact ⟨t.1, t.2, ht, fun k ret hmem => absurd hmem (hnone k ret)⟩
    case data =>
      obtain ⟨t, ht, -, hb⟩ := h.data_agrees P addr msg req.orders
      exact ⟨t.1, t.2, ht, fun k ret hmem _ => hb k ret hmem⟩

/-! ## The crashes -/

def impatient : Params := ⟨1, 2⟩

/-- An event when one connection has been opened. -/
def onOne (op : ServerOp Unit) (replyc : Nat) : ServerReq Unit := ⟨op, replyc, ⟨[1], [1], [1]⟩⟩

/-- The state after the first connection is opened and the given events. -/
def afterConnect (ls : List (ServerReq Unit)) : ServerRun Unit :=
  LTS.execD (ServerRun.step impatient) .init (⟨.receivemsg () newConnect, 0, ⟨[], [], []⟩⟩ :: ls)

theorem reachable_afterConnect {ls : List (ServerReq Unit)}
    (h : (LTS.exec (ServerRun.step impatient) .init
      (⟨.receivemsg () newConnect, 0, ⟨[], [], []⟩⟩ :: ls)).isSome = true) :
    (serverRuns impatient).Reachable (afterConnect ls) :=
  ⟨_, _, rfl, LTS.run_execD h⟩

/-- A `Read` is blocked. -/
def blockedRead : ServerRun Unit := afterConnect [onOne .doread 1]

/-- A message is unacknowledged, and a `Close` waits for its ack. -/
def closingServer : ServerRun Unit := afterConnect [onOne (.dowrite 1 [7]) 1, onOne .doclose 2]

/-- The ack has come. -/
def flushedServer : ServerRun Unit :=
  afterConnect [onOne (.dowrite 1 [7]) 1, onOne .doclose 2, onOne (.receivemsg () (newAck 1 1)) 0]

/-- The connection is closed before its message is acknowledged, and the ack of
an older message comes late. -/
def lateAck : ServerRun Unit :=
  afterConnect [onOne (.dowrite 1 [7]) 1, onOne (.docloseconn 1) 2,
    onOne (.receivemsg () (newAck 1 0)) 0]

/-- The event handler crashes on the event, in a state that a run leads to. -/
def CrashesOn (r : ServerRun Unit) (req : ServerReq Unit) : Prop :=
  (serverRuns impatient).Reachable r ∧ r.server.Takes req ∧ r.server.handle impatient req = none

theorem server_crashes :
    CrashesOn blockedRead (onOne (.docloseconn 1) 2) ∧ CrashesOn blockedRead (onOne .doclose 2) ∧
      CrashesOn lateAck (onOne .epochtimer 0) ∧ CrashesOn flushedServer (onOne (.docloseconn 1) 3) ∧
      (serverRuns impatient).Reachable closingServer ∧ closingServer.server.Takes (onOne .doread 3) ∧
      ∃ s, closingServer.server.handle impatient (onOne .doread 3) =
        some (s, [.reply 3 ⟨.nil, some "server is closed"⟩]) := by
  have takes : ∀ (r : ServerRun Unit) (op : ServerOp Unit) (k : Nat), r.server.serverRunning = true →
      r.server.ids = [1] → k ∉ r.server.deferedRead → r.server.Takes (onOne op k) := by
    intro r op k hrun hids hfresh
    have hperm : [1].Perm r.server.ids := by rw [hids]
    exact ⟨hrun, hperm, hperm, hperm, hfresh⟩
  refine ⟨⟨reachable_afterConnect (by decide), takes _ _ _ rfl rfl (by decide), by decide⟩,
    ⟨reachable_afterConnect (by decide), takes _ _ _ rfl rfl (by decide), by decide⟩,
    ⟨reachable_afterConnect (by decide), takes _ _ _ rfl rfl (by decide), by decide⟩,
    ⟨reachable_afterConnect (by decide), takes _ _ _ rfl rfl (by decide), by decide⟩,
    reachable_afterConnect (by decide), takes _ _ _ rfl rfl (by decide), _, rfl⟩

/-- A late ack of a connection that was closed with nothing pending does nothing. -/
theorem server_never_crashes_late_ack :
    ∃ s out, (afterConnect [onOne (.docloseconn 1) 1]).server.handle impatient
        (onOne (.receivemsg () (newAck 1 0)) 0) = some (s, out) ∧
      ∀ k ret, .reply k ret ∈ out →
        (afterConnect [onOne (.docloseconn 1) 1]).server.AnswersRead
          (onOne (.receivemsg () (newAck 1 0)) 0) k → ret.val.isBundle = true := by
  refine server_never_crashes impatient (r := afterConnect [onOne (.docloseconn 1) 1])
    ⟨_, [⟨.receivemsg () newConnect, 0, ⟨[], [], []⟩⟩, onOne (.docloseconn 1) 1], rfl, ?_⟩
    ⟨rfl, ?_, ?_, ?_, ?_⟩ rfl
  · exact LTS.run_of_exec rfl
  all_goals decide

end Cmu440.Lsp
