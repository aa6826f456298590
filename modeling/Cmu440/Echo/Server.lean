import Cmu440.Core.Chan
import Cmu440.Core.LTS
import Mathlib.Data.Finset.Card

/-!
# The echo server

p0/src/github.com/cmu440/p0/server_impl.go. One goroutine accepts connections, the
master keeps the active ones and hands every line out to all of them, and each
connection has a goroutine that reads lines and one that writes out its queue. They
share channels only:

* `registerConnections`, `unregisterConnections`, `signalRequestConnectionCount` and
  the `responseChan`s are not buffered: the send and the receive are one step.
* `broadcastMessageQueue` has room for 10 lines, an `outgoingMessageQueue` for 100,
  and the signals for one each.

A step is one operation of one goroutine on a channel or on `activeConnections`, and
the goroutines take their steps in any order; so do any number of calls of `Close` and
`Count`. `range` visits a map in any order (`visit`). What comes from outside is any:
`ReadBytes` returns a line or an error at any time, and `Accept` a connection or,
closed or not, an error. The sockets themselves are left out, since nothing is said
about what is written to them. Connections are named by the order they were
registered in, and have all their channels from then on.

`panicked` is where the program ends when a channel is used that must not be.
-/
namespace Cmu440.Echo

abbrev Line : Type := List UInt8

/-- mirrors server_impl.go:125-149 -/
inductive HandleConnection
  /-- in `ReadBytes` -/
  | reading
  /-- at `broadcastMessageQueue <- line` -/
  | sending (line : Line)
  /-- at the `select`, after an error -/
  | failed
  /-- at `close`, in the case of the signal or in the default -/
  | closing (signalled : Bool)
  /-- at `unregisterConnections <- wrappedConn` -/
  | unregistering
  | returned
  deriving DecidableEq, Repr

/-- mirrors server_impl.go:155-159 -/
inductive WriteOutgoing
  | receiving
  | writing (message : Line)
  | returned
  deriving DecidableEq, Repr

/-- mirrors server_impl.go:15-19, with the two goroutines of the connection -/
structure RichConn where
  outgoingMessageQueue : Chan Line 100
  closeSignal : Chan Unit 1
  handler : HandleConnection
  writer : WriteOutgoing
  deriving DecidableEq

/-- mirrors server_impl.go:107-111 and, for the goroutines, 173-174 -/
def RichConn.new : RichConn := ⟨.make, .make, .reading, .receiving⟩

/-- mirrors server_impl.go:167-199; `todo` is what the `range` has yet to visit -/
inductive MasterRoutine
  | select
  | broadcasting (message : Line) (todo : Finset Nat)
  | closing (todo : Finset Nat)
  /-- at `wrappedConn.closeSignal <- -1` -/
  | signalling (conn : Nat) (todo : Finset Nat)
  /-- at `delete(activeConnections, wrappedConn)` -/
  | deleting (conn : Nat) (todo : Finset Nat)
  /-- at `request.responseChan <- len(activeConnections)` -/
  | responding (caller : Nat)
  | returned
  deriving DecidableEq

/-- mirrors server_impl.go:94-114 -/
inductive AcceptConnections
  | select
  | accepting
  /-- at `incomingConnections <- &richConn` -/
  | handing
  | returned
  deriving DecidableEq, Repr

/-- A call of `Close` or of `Count`. mirrors server_impl.go:74-87 -/
inductive ApiCall
  | signalMaster
  | closeListener
  | signalAccept
  | closed
  | request
  | await
  | counted (n : Nat)
  deriving DecidableEq, Repr

inductive Panic
  | sendOnClosed (conn : Nat)
  | closeOfClosed (conn : Nat)
  deriving DecidableEq, Repr

/-- mirrors server_impl.go:25-34, with what runs on it -/
structure MultiEchoServer where
  listenerClosed : Bool
  conns : List RichConn
  activeConnections : Finset Nat
  broadcastMessageQueue : Chan Line 10
  signalCloseMasterRoutine : Chan Unit 1
  signalCloseAcceptRoutine : Chan Unit 1
  master : MasterRoutine
  acceptor : AcceptConnections
  calls : List ApiCall
  panicked : Option Panic
  deriving DecidableEq

/-- What the master does next. -/
inductive MasterLbl
  | register
  | broadcast
  | unregister (conn : Nat)
  | closeSignal
  | requestCount (caller : Nat)
  /-- The `range` comes to a connection. -/
  | visit (conn : Nat)
  | rangeEnd
  /-- The next statement. -/
  | next
  deriving DecidableEq, Repr

inductive EchoLbl
  | master (l : MasterLbl)
  /-- The accepting goroutine; should it be in `Accept`, whether that succeeds. -/
  | accept (ok : Bool)
  /-- `ReadBytes` returns a line or an error. -/
  | read (conn : Nat) (line : Option Line)
  | handle (conn : Nat)
  | write (conn : Nat)
  | close
  | count
  | api (caller : Nat)
  deriving DecidableEq, Repr

namespace MultiEchoServer

/-- `New` and `Start`. mirrors server_impl.go:43-72 -/
def start : MultiEchoServer where
  listenerClosed := false
  conns := []
  activeConnections := ∅
  broadcastMessageQueue := .make
  signalCloseMasterRoutine := .make
  signalCloseAcceptRoutine := .make
  master := .select
  acceptor := .select
  calls := []
  panicked := none

def handler (s : MultiEchoServer) (conn : Nat) : Option HandleConnection :=
  s.conns[conn]?.map RichConn.handler

def setConn (s : MultiEchoServer) (conn : Nat) (wrappedConn : RichConn) : MultiEchoServer :=
  { s with conns := s.conns.set conn wrappedConn }

/-- mirrors server_impl.go:167-199 -/
def masterRoutine (s : MultiEchoServer) : MasterLbl → Option MultiEchoServer
  | .register =>
    match s.master, s.acceptor with
    | .select, .handing => some { s with
        conns := s.conns ++ [.new]
        activeConnections := insert s.conns.length s.activeConnections
        acceptor := .select }
    | _, _ => none
  | .broadcast =>
    match s.master, s.broadcastMessageQueue.receive with
    | .select, some (message, queue) => some { s with
        broadcastMessageQueue := queue
        master := .broadcasting message s.activeConnections }
    | _, _ => none
  | .unregister conn =>
    match s.master, s.conns[conn]? with
    | .select, some wrappedConn =>
      if wrappedConn.handler = .unregistering then
        some { s.setConn conn { wrappedConn with handler := .returned } with
          activeConnections := s.activeConnections.erase conn }
      else none
    | _, _ => none
  | .closeSignal =>
    match s.master, s.signalCloseMasterRoutine.receive with
    | .select, some (_, signal) => some { s with
        signalCloseMasterRoutine := signal
        master := .closing s.activeConnections }
    | _, _ => none
  | .requestCount caller =>
    match s.master, s.calls[caller]? with
    | .select, some .request => some { s with
        master := .responding caller
        calls := s.calls.set caller .await }
    | _, _ => none
  | .visit conn =>
    match s.master, s.conns[conn]? with
    | .broadcasting message todo, some wrappedConn =>
      if conn ∈ todo then
        match wrappedConn.outgoingMessageQueue.trySend message with
        | some queue => some { s.setConn conn { wrappedConn with outgoingMessageQueue := queue } with
            master := .broadcasting message (todo.erase conn) }
        | none => some { s with panicked := some (.sendOnClosed conn) }
      else none
    | .closing todo, _ =>
      if conn ∈ todo then some { s with master := .signalling conn (todo.erase conn) } else none
    | _, _ => none
  | .rangeEnd =>
    match s.master with
    | .broadcasting _ todo => if todo = ∅ then some { s with master := .select } else none
    | .closing todo => if todo = ∅ then some { s with master := .returned } else none
    | _ => none
  | .next =>
    match s.master with
    | .signalling conn todo =>
      match s.conns[conn]? with
      | none => none
      | some wrappedConn =>
        match wrappedConn.closeSignal.send () with
        | .done signal => some { s.setConn conn { wrappedConn with closeSignal := signal } with
            master := .deleting conn todo }
        | _ => none
    | .deleting conn todo => some { s with
        activeConnections := s.activeConnections.erase conn
        master := .closing todo }
    | .responding caller => some { s with
        master := .select
        calls := s.calls.set caller (.counted s.activeConnections.card) }
    | _ => none

/-- mirrors server_impl.go:94-114 -/
def acceptConnections (s : MultiEchoServer) (ok : Bool) : Option MultiEchoServer :=
  match s.acceptor with
  | .select =>
    match s.signalCloseAcceptRoutine.receive with
    | some (_, signal) => some { s with signalCloseAcceptRoutine := signal, acceptor := .returned }
    | none => some { s with acceptor := .accepting }
  | .accepting =>
    if ok then
      if s.listenerClosed then none else some { s with acceptor := .handing }
    else some { s with acceptor := .select }
  | _ => none

/-- mirrors server_impl.go:128 -/
def readBytes (s : MultiEchoServer) (conn : Nat) (line : Option Line) : Option MultiEchoServer :=
  match s.conns[conn]? with
  | none => none
  | some wrappedConn =>
    match wrappedConn.handler, line with
    | .reading, some line => some (s.setConn conn { wrappedConn with handler := .sending line })
    | .reading, none => some (s.setConn conn { wrappedConn with handler := .failed })
    | _, _ => none

/-- The rest of it. mirrors server_impl.go:129-149 -/
def handleConnection (s : MultiEchoServer) (conn : Nat) : Option MultiEchoServer :=
  match s.conns[conn]? with
  | none => none
  | some wrappedConn =>
    match wrappedConn.handler with
    | .sending line =>
      match s.broadcastMessageQueue.send line with
      | .done queue => some { s.setConn conn { wrappedConn with handler := .reading } with
          broadcastMessageQueue := queue }
      | _ => none
    | .failed =>
      match wrappedConn.closeSignal.receive with
      | some (_, signal) => some (s.setConn conn { wrappedConn with
          closeSignal := signal
          handler := .closing true })
      | none => some (s.setConn conn { wrappedConn with handler := .closing false })
    | .closing signalled =>
      match wrappedConn.outgoingMessageQueue.close with
      | some queue => some (s.setConn conn { wrappedConn with
          outgoingMessageQueue := queue
          handler := if signalled then .returned else .unregistering })
      | none => some { s with panicked := some (.closeOfClosed conn) }
    | _ => none

/-- mirrors server_impl.go:155-159 -/
def writeOutgoingQueueToSocket (s : MultiEchoServer) (conn : Nat) : Option MultiEchoServer :=
  match s.conns[conn]? with
  | none => none
  | some wrappedConn =>
    match wrappedConn.writer with
    | .receiving =>
      match wrappedConn.outgoingMessageQueue.receive with
      | some (message, queue) => some (s.setConn conn { wrappedConn with
          outgoingMessageQueue := queue
          writer := .writing message })
      | none =>
        if wrappedConn.outgoingMessageQueue.drained then
          some (s.setConn conn { wrappedConn with writer := .returned })
        else none
    | .writing _ => some (s.setConn conn { wrappedConn with writer := .receiving })
    | .returned => none

/-- mirrors server_impl.go:74-87 -/
def api (s : MultiEchoServer) (caller : Nat) : Option MultiEchoServer :=
  match s.calls[caller]? with
  | some .signalMaster =>
    match s.signalCloseMasterRoutine.send () with
    | .done signal => some { s with
        signalCloseMasterRoutine := signal
        calls := s.calls.set caller .closeListener }
    | _ => none
  | some .closeListener => some { s with
      listenerClosed := true
      calls := s.calls.set caller .signalAccept }
  | some .signalAccept =>
    match s.signalCloseAcceptRoutine.send () with
    | .done signal => some { s with
        signalCloseAcceptRoutine := signal
        calls := s.calls.set caller .closed }
    | _ => none
  | _ => none

def act (s : MultiEchoServer) : EchoLbl → Option MultiEchoServer
  | .master l => s.masterRoutine l
  | .accept ok => s.acceptConnections ok
  | .read conn line => s.readBytes conn line
  | .handle conn => s.handleConnection conn
  | .write conn => s.writeOutgoingQueueToSocket conn
  | .close => some { s with calls := s.calls ++ [.signalMaster] }
  | .count => some { s with calls := s.calls ++ [.request] }
  | .api caller => s.api caller

/-- A panic is the end of the program. -/
def step (s : MultiEchoServer) (l : EchoLbl) : Option MultiEchoServer :=
  if s.panicked.isSome then none else s.act l

end MultiEchoServer

def echoServer : LTS MultiEchoServer EchoLbl := LTS.ofFn (· = .start) MultiEchoServer.step

end Cmu440.Echo
