import Cmu440.Echo.Server

/-!
# Closing the queues

The goroutine that reads from a connection closes the connection's queue when the
reading fails, and only then tells the master. In between the connection is still an
active one: a line that the master takes from `broadcastMessageQueue` at that time it
sends to a closed channel, and the server is gone. One client that sends a line and
hangs up is enough (`hang_up_panics`).

`Moves` says once what the steps do to the connections, the master and the set of
active connections. A queue is closed if and only if its goroutine is past the line
that closes it (`QueuesOk`); so no queue is closed twice, in any run
(`queue_closed_once`). Until the server is closed, an active connection whose queue is
closed is one that waits to be unregistered (`Served`). So the master does not run
into a closed queue if it takes a line only when no active connection waits, and if
no queue is closed while a line for it is on its way (`handedOver`, `no_send_on_closed`).
-/
namespace Cmu440.Echo

/-- Its queue is closed. -/
def HandleConnection.hasClosed : HandleConnection → Bool
  | unregistering | returned => true
  | reading | sending _ | failed | closing _ => false

/-- The master has not been told to close. -/
def MasterRoutine.serving : MasterRoutine → Bool
  | select | broadcasting _ _ | responding _ => true
  | closing _ | signalling _ _ | deleting _ _ | returned => false

/-- Who has yet to get the line that is handed out. -/
def MasterRoutine.receivers : MasterRoutine → Finset Nat
  | broadcasting _ todo => todo
  | _ => ∅

/-- The part of the server that is about the queues. -/
structure View where
  conns : List RichConn
  active : Finset Nat
  master : MasterRoutine
  panicked : Option Panic

def MultiEchoServer.view (s : MultiEchoServer) : View :=
  ⟨s.conns, s.activeConnections, s.master, s.panicked⟩

/-! ## What a step does -/

inductive Moves (v : View) : EchoLbl → View → Prop
  | aside (l : EchoLbl) : Moves v l v
  | register (hm : v.master = .select) : Moves v (.master .register)
      { v with conns := v.conns ++ [.new], active := insert v.conns.length v.active }
  | broadcast (hm : v.master = .select) (message : Line) :
      Moves v (.master .broadcast) { v with master := .broadcasting message v.active }
  | unregister {c : Nat} {conn : RichConn} (hm : v.master = .select)
      (hc : v.conns[c]? = some conn) (hh : conn.handler = .unregistering) :
      Moves v (.master (.unregister c)) { v with
        conns := v.conns.set c { conn with handler := .returned }
        active := v.active.erase c }
  /-- The master goes on, with no line to hand out. -/
  | idle {l : EchoLbl} {m : MasterRoutine} (hserving : v.master.serving = true)
      (hnone : m.receivers = ∅) : Moves v l { v with master := m }
  /-- The master closes down. -/
  | shutDown {l : EchoLbl} {active : Finset Nat} {m : MasterRoutine} (hm : m.serving = false) :
      Moves v l { v with active := active, master := m }
  | signal {l : EchoLbl} {c : Nat} {conn : RichConn} {signal : Chan Unit 1} {todo : Finset Nat}
      (hc : v.conns[c]? = some conn) : Moves v l { v with
        conns := v.conns.set c { conn with closeSignal := signal }
        master := .deleting c todo }
  | deliver {c : Nat} {conn : RichConn} {message : Line} {todo : Finset Nat} {queue : Chan Line 100}
      (hm : v.master = .broadcasting message todo) (hc : v.conns[c]? = some conn)
      (hsend : conn.outgoingMessageQueue.trySend message = some queue) :
      Moves v (.master (.visit c)) { v with
        conns := v.conns.set c { conn with outgoingMessageQueue := queue }
        master := .broadcasting message (todo.erase c) }
  | sendOnClosed {c : Nat} {conn : RichConn} {message : Line} {todo : Finset Nat}
      (hm : v.master = .broadcasting message todo) (hc : v.conns[c]? = some conn) (hin : c ∈ todo)
      (hsend : conn.outgoingMessageQueue.trySend message = none) :
      Moves v (.master (.visit c)) { v with panicked := some (.sendOnClosed c) }
  /-- The goroutine that reads goes on, without a signal. -/
  | reads {l : EchoLbl} {c : Nat} {conn : RichConn} {handler : HandleConnection}
      (hc : v.conns[c]? = some conn) (hopen : conn.handler.hasClosed = false)
      (hopen' : handler.hasClosed = false) (hsignal : handler ≠ .closing true) :
      Moves v l { v with conns := v.conns.set c { conn with handler := handler } }
  | signalled {l : EchoLbl} {c : Nat} {conn : RichConn} {signal : Chan Unit 1}
      (hc : v.conns[c]? = some conn) (hopen : conn.handler.hasClosed = false)
      (hreceive : conn.closeSignal.receive = some ((), signal)) : Moves v l { v with
        conns := v.conns.set c { conn with closeSignal := signal, handler := .closing true } }
  | close {c : Nat} {conn : RichConn} {signalled : Bool} {queue : Chan Line 100}
      (hc : v.conns[c]? = some conn) (hh : conn.handler = .closing signalled)
      (hclose : conn.outgoingMessageQueue.close = some queue) : Moves v (.handle c) { v with
        conns := v.conns.set c { conn with
          outgoingMessageQueue := queue
          handler := if signalled then .returned else .unregistering } }
  | closeOfClosed {c : Nat} {conn : RichConn} {signalled : Bool}
      (hc : v.conns[c]? = some conn) (hh : conn.handler = .closing signalled)
      (hclose : conn.outgoingMessageQueue.close = none) :
      Moves v (.handle c) { v with panicked := some (.closeOfClosed c) }
  | writes {l : EchoLbl} {c : Nat} {conn : RichConn} {queue : Chan Line 100}
      {writer : WriteOutgoing} (hc : v.conns[c]? = some conn)
      (hqueue : queue.closed = conn.outgoingMessageQueue.closed) : Moves v l { v with
        conns := v.conns.set c { conn with outgoingMessageQueue := queue, writer := writer } }

namespace MultiEchoServer

variable {s s' : MultiEchoServer}

theorem masterRoutine_moves {l : MasterLbl} (h : s.masterRoutine l = some s') :
    Moves s.view (.master l) s'.view := by
  cases l with
  | register =>
    simp only [masterRoutine] at h
    split at h
    · rename_i hm _
      cases h
      exact .register hm
    · cases h
  | broadcast =>
    simp only [masterRoutine] at h
    split at h
    · rename_i hm _
      cases h
      exact .broadcast hm _
    · cases h
  | unregister c =>
    simp only [masterRoutine] at h
    split at h
    · rename_i hm hc
      split at h
      · rename_i hh
        cases h
        exact .unregister hm hc hh
      · cases h
    · cases h
  | closeSignal =>
    simp only [masterRoutine] at h
    split at h
    · cases h
      exact .shutDown rfl
    · cases h
  | requestCount i =>
    simp only [masterRoutine] at h
    split at h
    · rename_i hm _
      cases h
      exact .idle (congrArg MasterRoutine.serving hm) rfl
    · cases h
  | visit c =>
    simp only [masterRoutine] at h
    split at h
    · rename_i hm hc
      split at h
      · rename_i hin
        split at h
        · rename_i hsend
          cases h
          exact .deliver hm hc hsend
        · rename_i hsend
          cases h
          exact .sendOnClosed hm hc hin hsend
      · cases h
    · split at h
      · cases h
        exact .shutDown rfl
      · cases h
    · cases h
  | rangeEnd =>
    simp only [masterRoutine] at h
    split at h
    · rename_i hm
      split at h
      · cases h
        exact .idle (congrArg MasterRoutine.serving hm) rfl
      · cases h
    · split at h
      · cases h
        exact .shutDown rfl
      · cases h
    · cases h
  | next =>
    simp only [masterRoutine] at h
    split at h
    · split at h
      · cases h
      · rename_i hc
        split at h
        · cases h
          exact .signal hc
        · cases h
    · cases h
      exact .shutDown rfl
    · rename_i hm
      cases h
      exact .idle (congrArg MasterRoutine.serving hm) rfl
    · cases h

theorem readBytes_moves {c : Nat} {line : Option Line} (h : s.readBytes c line = some s') :
    Moves s.view (.read c line) s'.view := by
  unfold readBytes at h
  split at h
  · cases h
  · rename_i hc
    split at h
    · rename_i hh
      cases h
      exact .reads hc (congrArg HandleConnection.hasClosed hh) rfl nofun
    · rename_i hh
      cases h
      exact .reads hc (congrArg HandleConnection.hasClosed hh) rfl nofun
    · cases h

theorem handleConnection_moves {c : Nat} (h : s.handleConnection c = some s') :
    Moves s.view (.handle c) s'.view := by
  unfold handleConnection at h
  split at h
  · cases h
  · rename_i hc
    split at h
    · rename_i hh
      split at h
      · cases h
        exact .reads hc (congrArg HandleConnection.hasClosed hh) rfl nofun
      · cases h
    · rename_i hh
      split at h
      · rename_i hreceive
        cases h
        exact .signalled hc (congrArg HandleConnection.hasClosed hh) hreceive
      · cases h
        exact .reads hc (congrArg HandleConnection.hasClosed hh) rfl nofun
    · rename_i hh
      split at h
      · rename_i hclose
        cases h
        exact .close hc hh hclose
      · rename_i hclose
        cases h
        exact .closeOfClosed hc hh hclose
    · cases h

theorem writeOutgoing_moves {c : Nat} (h : s.writeOutgoingQueueToSocket c = some s') :
    Moves s.view (.write c) s'.view := by
  unfold writeOutgoingQueueToSocket at h
  split at h
  · cases h
  · rename_i hc
    split at h
    · split at h
      · rename_i hreceive
        cases h
        exact .writes hc (Chan.receive_closed hreceive)
      · split at h
        · cases h
          exact .writes hc rfl
        · cases h
    · cases h
      exact .writes hc rfl
    · cases h

theorem acceptConnections_view {ok : Bool} (h : s.acceptConnections ok = some s') :
    s'.view = s.view := by
  unfold acceptConnections at h
  split at h
  · split at h <;> cases h <;> rfl
  · split at h
    · split at h <;> cases h
      rfl
    · cases h
      rfl
  · cases h

theorem api_view {i : Nat} (h : s.api i = some s') : s'.view = s.view := by
  unfold api at h
  split at h
  · split at h <;> cases h
    rfl
  · cases h
    rfl
  · split at h <;> cases h
    rfl
  · cases h

theorem moves_of_step {l : EchoLbl} (h : s.step l = some s') :
    s.panicked = none ∧ Moves s.view l s'.view := by
  unfold step at h
  split at h
  · cases h
  rename_i hp
  refine ⟨by simpa using hp, ?_⟩
  cases l with
  | master l => exact masterRoutine_moves h
  | accept ok =>
    rw [acceptConnections_view h]
    exact .aside _
  | read c line => exact readBytes_moves h
  | handle c => exact handleConnection_moves h
  | write c => exact writeOutgoing_moves h
  | close =>
    cases h
    exact .aside _
  | count =>
    cases h
    exact .aside _
  | api i =>
    rw [api_view h]
    exact .aside _

end MultiEchoServer

/-! ## A queue is closed once -/

structure QueuesOk (v : View) : Prop where
  closed : ∀ (c : Nat) (conn : RichConn), v.conns[c]? = some conn →
    conn.outgoingMessageQueue.closed = conn.handler.hasClosed
  once : ∀ c, v.panicked ≠ some (.closeOfClosed c)

theorem QueuesOk.set {v v' : View} (h : QueuesOk v) {c : Nat} {conn : RichConn}
    (hconns : v'.conns = v.conns.set c conn) (hpanicked : v'.panicked = v.panicked)
    (hconn : conn.outgoingMessageQueue.closed = conn.handler.hasClosed) : QueuesOk v' where
  closed c' conn' hc' := by
    rw [hconns] at hc'
    rcases getElem?_moved hc' with ⟨-, hc'⟩ | ⟨-, rfl⟩
    · exact h.closed c' conn' hc'
    · exact hconn
  once := hpanicked ▸ h.once

theorem QueuesOk.moves {v v' : View} (h : QueuesOk v) {l : EchoLbl} (hm : Moves v l v') :
    QueuesOk v' := by
  cases hm with
  | aside | broadcast | idle | shutDown => exact ⟨h.closed, h.once⟩
  | register =>
    refine ⟨fun c conn hc => ?_, h.once⟩
    rcases getElem?_started hc with hc | ⟨-, rfl⟩
    · exact h.closed c conn hc
    · rfl
  | unregister hm hc hh =>
    refine h.set rfl rfl ((h.closed _ _ hc).trans ?_)
    rw [hh]
    rfl
  | signal hc =>
    have hclosed := h.closed _ _ hc
    exact h.set rfl rfl hclosed
  | deliver hm hc hsend => exact h.set rfl rfl ((Chan.trySend_closed hsend).trans (h.closed _ _ hc))
  | sendOnClosed => exact ⟨h.closed, nofun⟩
  | reads hc hopen hopen' =>
    exact h.set rfl rfl ((h.closed _ _ hc).trans (hopen.trans hopen'.symm))
  | signalled hc hopen => exact h.set rfl rfl ((h.closed _ _ hc).trans hopen)
  | close hc hh hclose =>
    refine h.set rfl rfl ((Chan.close_closed hclose).trans ?_)
    split <;> rfl
  | closeOfClosed hc hh hclose =>
    have hclosed := h.closed _ _ hc
    rw [Chan.close_eq_none.mp hclose, hh] at hclosed
    cases hclosed
  | writes hc hqueue => exact h.set rfl rfl (hqueue.trans (h.closed _ _ hc))

theorem queuesOk_inductive : echoServer.Inductive fun s => QueuesOk s.view where
  init s hs := by
    rw [hs]
    exact ⟨nofun, nofun⟩
  step s l s' h hstep := h.moves (MultiEchoServer.moves_of_step hstep).2

/-- Whatever the goroutines do: no queue is closed twice. -/
theorem queue_closed_once {s : MultiEchoServer} (hr : echoServer.Reachable s) (c : Nat) :
    s.panicked ≠ some (.closeOfClosed c) :=
  (queuesOk_inductive.reachable s hr).once c

/-! ## No line for a closed queue -/

/-- The master takes a line only when no active connection waits to be unregistered, and
no goroutine closes its queue while it has yet to get a line that is handed out. -/
def handedOver (s : MultiEchoServer) : EchoLbl → Bool
  | .master .broadcast => ∀ c ∈ s.activeConnections, s.handler c ≠ some .unregistering
  | .handle c => match s.handler c with
    | some (.closing _) => c ∉ s.master.receivers
    | _ => true
  | _ => true

def orderlyServer : LTS MultiEchoServer EchoLbl :=
  LTS.ofFn (· = .start) (LTS.guarded handedOver MultiEchoServer.step)

theorem not_receiver_of_close {s : MultiEchoServer} {c : Nat} (hg : handedOver s (.handle c) = true)
    {conn : RichConn} {signalled : Bool} (hc : s.conns[c]? = some conn)
    (hh : conn.handler = .closing signalled) : c ∉ s.master.receivers := by
  simpa [handedOver, MultiEchoServer.handler, hc, hh] using hg

/-- What is true of a connection until the server is closed. -/
structure Served (active : Finset Nat) (master : MasterRoutine) (c : Nat) (conn : RichConn) :
    Prop where
  noSignal : conn.closeSignal.buf = []
  notSignalled : conn.handler ≠ .closing true
  active : c ∈ active → conn.handler ≠ .returned
  receiver : c ∈ master.receivers → conn.handler.hasClosed = false

structure Orderly (v : View) : Prop where
  queues : QueuesOk v
  running : v.panicked = none
  served : v.master.serving = true → ∀ (c : Nat) (conn : RichConn), v.conns[c]? = some conn →
    Served v.active v.master c conn

/-- One connection changes; the others have no more to ask for than before. -/
theorem Orderly.set {v v' : View} (h : Orderly v) {c : Nat} {conn : RichConn}
    (hqueues : QueuesOk v') (hconns : v'.conns = v.conns.set c conn)
    (hpanicked : v'.panicked = v.panicked)
    (hserving : v'.master.serving = true → v.master.serving = true)
    (hactive : v'.active ⊆ v.active) (hreceivers : v'.master.receivers ⊆ v.master.receivers)
    (hconn : v.master.serving = true → Served v'.active v'.master c conn) : Orderly v' where
  queues := hqueues
  running := hpanicked.trans h.running
  served hs c' conn' hc' := by
    rw [hconns] at hc'
    rcases getElem?_moved hc' with ⟨-, hc'⟩ | ⟨rfl, rfl⟩
    · obtain ⟨hno, hnot, ha, hr⟩ := h.served (hserving hs) c' conn' hc'
      exact ⟨hno, hnot, fun hin => ha (hactive hin), fun hin => hr (hreceivers hin)⟩
    · exact hconn (hserving hs)

/-- As above, and the master does nothing. -/
theorem Orderly.setConn {v : View} (h : Orderly v) {c : Nat} {conn : RichConn}
    (hqueues : QueuesOk { v with conns := v.conns.set c conn })
    (hconn : v.master.serving = true → Served v.active v.master c conn) :
    Orderly { v with conns := v.conns.set c conn } :=
  h.set hqueues rfl rfl id (Finset.Subset.refl _) (Finset.Subset.refl _) hconn

theorem Orderly.register {v : View} (h : Orderly v)
    (hqueues : QueuesOk { v with
      conns := v.conns ++ [.new]
      active := insert v.conns.length v.active }) :
    Orderly { v with
      conns := v.conns ++ [.new]
      active := insert v.conns.length v.active } := by
  refine ⟨hqueues, h.running, fun hs c conn hc => ?_⟩
  rcases getElem?_started hc with hc | ⟨-, rfl⟩
  · obtain ⟨hno, hnot, ha, hr⟩ := h.served hs c conn hc
    refine ⟨hno, hnot, fun hin => ha ?_, hr⟩
    -- the new connection is another one
    have hlt := (List.getElem?_eq_some_iff.mp hc).1
    exact Finset.mem_of_mem_insert_of_ne hin (Nat.ne_of_lt hlt)
  · exact ⟨rfl, nofun, nofun, fun _ => rfl⟩

/-- A queue that is closed has its goroutine waiting, or is not active any more. -/
theorem Served.isOpen {active : Finset Nat} {master : MasterRoutine} {c : Nat} {conn : RichConn}
    (h : Served active master c conn) (hin : c ∈ active) (hwait : conn.handler ≠ .unregistering) :
    conn.handler.hasClosed = false := by
  have hreturned := h.active hin
  cases hh : conn.handler with
  | unregistering => exact absurd hh hwait
  | returned => exact absurd hh hreturned
  | reading | sending _ | failed | closing _ => rfl

/-- A connection whose goroutine closes its queue now. -/
theorem Served.close {active : Finset Nat} {master : MasterRoutine} {c : Nat}
    {conn conn' : RichConn} (h : Served active master c conn) {signalled : Bool}
    (hh : conn.handler = .closing signalled) (hrest : c ∉ master.receivers)
    (hsignal : conn'.closeSignal = conn.closeSignal)
    (hh' : conn'.handler = if signalled then .returned else .unregistering) :
    Served active master c conn' := by
  have hfalse : signalled = false := by
    cases signalled with
    | false => rfl
    | true => exact absurd hh h.notSignalled
  rw [hfalse, if_neg Bool.false_ne_true] at hh'
  refine ⟨hsignal ▸ h.noSignal, ?_, fun _ => ?_, fun hin => absurd hin hrest⟩
  · rw [hh']
    exact nofun
  · rw [hh']
    exact nofun

theorem Orderly.step {s : MultiEchoServer} {v' : View} (h : Orderly s.view) {l : EchoLbl}
    (hg : handedOver s l = true) (hm : Moves s.view l v') : Orderly v' := by
  have hqueues := h.queues.moves hm
  cases hm with
  | aside => exact h
  | register hm => exact h.register hqueues
  | broadcast hm message =>
    have hwait : ∀ c ∈ s.activeConnections, s.handler c ≠ some .unregistering :=
      of_decide_eq_true hg
    refine ⟨hqueues, h.running, fun _ c conn hc => ?_⟩
    have hserved := h.served (by rw [hm]; rfl) c conn hc
    refine ⟨hserved.noSignal, hserved.notSignalled, hserved.active, fun hin => ?_⟩
    refine hserved.isOpen hin fun hh => hwait c hin ?_
    have hc : s.conns[c]? = some conn := hc
    rw [MultiEchoServer.handler, hc, Option.map_some, hh]
  | unregister hm hc hh =>
    refine h.set hqueues rfl rfl id (Finset.erase_subset _ _) (Finset.Subset.refl _) fun hs => ?_
    refine ⟨(h.served hs _ _ hc).noSignal, nofun, fun hin => ?_, fun hin => ?_⟩
    · exact absurd hin (Finset.notMem_erase _ _)
    · rw [hm] at hin
      exact absurd hin (Finset.notMem_empty _)
  | idle hserving hnone =>
    refine ⟨hqueues, h.running, fun _ c conn hc => ?_⟩
    obtain ⟨hno, hnot, ha, -⟩ := h.served hserving c conn hc
    refine ⟨hno, hnot, ha, fun hin => ?_⟩
    rw [hnone] at hin
    exact absurd hin (Finset.notMem_empty _)
  | shutDown hm => exact ⟨hqueues, h.running, fun hs => absurd (hs.symm.trans hm) nofun⟩
  | signal hc => exact ⟨hqueues, h.running, nofun⟩
  | deliver hm hc hsend =>
    refine h.set hqueues rfl rfl (fun _ => by rw [hm]; rfl) (Finset.Subset.refl _) ?_ fun hs => ?_
    · rw [hm]
      exact Finset.erase_subset _ _
    · obtain ⟨hno, hnot, ha, -⟩ := h.served hs _ _ hc
      exact ⟨hno, hnot, ha, fun hin => absurd hin (Finset.notMem_erase _ _)⟩
  | sendOnClosed hm hc hin hsend =>
    have hserved := h.served (by rw [hm]; rfl) _ _ hc
    have hopen := hserved.receiver (by rw [hm]; exact hin)
    have hclosed := Chan.trySend_eq_none.mp hsend
    rw [h.queues.closed _ _ hc, hopen] at hclosed
    cases hclosed
  | reads hc hopen hopen' hsignal =>
    refine h.setConn hqueues fun hs => ?_
    refine ⟨(h.served hs _ _ hc).noSignal, hsignal, fun _ heq => ?_, fun _ => hopen'⟩
    cases hopen'.symm.trans (congrArg HandleConnection.hasClosed heq)
  | signalled hc hopen hreceive =>
    refine h.setConn hqueues fun hs => ?_
    -- before `Close` there is no signal to receive
    cases (h.served hs _ _ hc).noSignal.symm.trans (Chan.receive_buf hreceive)
  | close hc hh hclose =>
    refine h.setConn hqueues fun hs => ?_
    exact (h.served hs _ _ hc).close hh (not_receiver_of_close hg hc hh) rfl rfl
  | closeOfClosed hc hh hclose => exact absurd rfl (hqueues.once _)
  | writes hc hqueue =>
    refine h.setConn hqueues fun hs => ?_
    obtain ⟨hno, hnot, ha, hr⟩ := h.served hs _ _ hc
    exact ⟨hno, hnot, ha, hr⟩

theorem orderly_inductive : orderlyServer.Inductive fun s => Orderly s.view where
  init s hs := by
    rw [hs]
    exact ⟨⟨nofun, nofun⟩, rfl, nofun⟩
  step s l s' h hstep := by
    obtain ⟨hg, hstep⟩ := LTS.guarded_eq_some.mp hstep
    exact h.step hg (MultiEchoServer.moves_of_step hstep).2

/-- The master sends nothing to a closed queue, and no queue is closed twice: a queue that
is about to get a line is open, and so is one that is about to be closed. -/
theorem no_send_on_closed {s : MultiEchoServer} (hr : orderlyServer.Reachable s) :
    s.panicked = none ∧
    (∀ message todo, s.master = .broadcasting message todo → ∀ c ∈ todo, ∀ conn : RichConn,
      s.conns[c]? = some conn → conn.outgoingMessageQueue.closed = false) ∧
    ∀ (c : Nat) (conn : RichConn) (signalled : Bool), s.conns[c]? = some conn →
      conn.handler = .closing signalled → conn.outgoingMessageQueue.closed = false := by
  have h := orderly_inductive.reachable s hr
  refine ⟨h.running, fun message todo hm c hin conn hc => ?_, fun c conn signalled hc hh => ?_⟩
  · have hserving : s.master.serving = true := by
      rw [hm]
      rfl
    have hreceiver : c ∈ s.master.receivers := by
      rw [hm]
      exact hin
    rw [h.queues.closed c conn hc]
    exact (h.served hserving c conn hc).receiver hreceiver
  · rw [h.queues.closed c conn hc, hh]
    rfl

/-- A client connects. -/
def connect : List EchoLbl := [.accept true, .accept true, .master .register]

/-- Two clients; the second sends a line, the first hangs up and is unregistered, and
the line is handed out. -/
def hangUpFirst : List EchoLbl :=
  connect ++ connect ++ [.read 1 (some [7]), .handle 1, .read 0 none, .handle 0, .handle 0,
    .master (.unregister 0), .master .broadcast, .master (.visit 1), .master .rangeEnd]

theorem hangUpFirst_delivered :
    ∃ s, orderlyServer.Reachable s ∧
      s.conns.map (fun conn => conn.outgoingMessageQueue.closed) = [true, false] ∧
      s.conns.map (fun conn => conn.outgoingMessageQueue.buf) = [[], [[7]]] ∧
      s.panicked = none := by
  have hr : orderlyServer.Reachable (LTS.execD (LTS.guarded handedOver MultiEchoServer.step)
      .start hangUpFirst) := ⟨_, hangUpFirst, rfl, LTS.run_execD (by decide)⟩
  exact ⟨_, hr, by decide, by decide, (no_send_on_closed hr).1⟩

/-- A client sends a line and hangs up; its queue is closed before the master takes the
line. -/
def hangUp : List EchoLbl :=
  connect ++ [.read 0 (some [7]), .handle 0, .read 0 none, .handle 0, .handle 0,
    .master .broadcast, .master (.visit 0)]

theorem hang_up_panics :
    ∃ s, echoServer.Reachable s ∧ s.panicked = some (.sendOnClosed 0) :=
  ⟨LTS.execD MultiEchoServer.step .start hangUp, ⟨_, hangUp, rfl, LTS.run_execD (by decide)⟩,
    by decide⟩

end Cmu440.Echo
