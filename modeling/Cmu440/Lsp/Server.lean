import Cmu440.Lsp.Window
import Mathlib.Logic.Function.Basic

/-!
# The LSP server

p1/src/github.com/cmu440/lsp/server_impl.go. As for the client, a handler is a
function from the state to the state and a list of outputs, and `none` is a nil
dereference.

* A Go map is a function into `Option`; reading an absent key gives the zero
  value, and calling a method on an absent buffer is a nil dereference.
* `A` stands for the clients' addresses. `sendMessageToAddr` with a nil address
  fails, and its error is dropped.
* `range` visits the entries of a map in any order. Connection ids are handed
  out from 1, so a loop runs through an arrangement of `ids`, and skips the ids
  that have no entry. The arrangements are part of the event.
* `connLost` in the outputs marks that a connection is declared lost.
-/
namespace Cmu440.Lsp

/-- mirrors server_impl.go:13-34; the channels are outputs -/
structure Server (A : Type) where
  readBuffer : Int → Option Buffer
  writeBuffer : Int → Option Buffer
  unAckedMsgBuffer : Int → Option Buffer
  latestAckBuffer : Int → Option Buffer
  deferedRead : List Nat
  deferedClose : List Nat
  hostportConnIdMap : A → Option Int
  connIdHostportMap : Int → Option A
  activeConn : Int → Option Bool
  expectedSeqNum : Int → Option Int
  seqNum : Int → Option Int
  latestActiveEpoch : Int → Option Int
  currEpoch : Int
  connId : Int
  serverRunning : Bool
  connLostInClosing : Bool

/-- The arrangements for the loops of one event, in the order of the text. -/
structure Orders where
  first : List Int
  second : List Int
  third : List Int
  deriving DecidableEq, Repr

inductive ServerOp (A : Type)
  | doread
  | dowrite (connId : Int) (payload : Payload)
  | docloseconn (connId : Int)
  | doclose
  | epochtimer
  | receivemsg (raddr : A) (msg : Message)
  deriving DecidableEq, Repr

structure ServerReq (A : Type) where
  op : ServerOp A
  replyc : Nat
  orders : Orders
  deriving DecidableEq, Repr

inductive ServerOut (A : Type)
  | send (raddr : A) (msg : Message)
  | reply (replyc : Nat) (ret : RetType)
  | connLost (connId : Int)
  | shutDown
  deriving DecidableEq, Repr

variable {A : Type}

/-! Whether an output was made, or a datagram sent, is decided by a look into a list. -/

instance [DecidableEq A] : LawfulBEq (ServerOut A) := inferInstance

instance [DecidableEq A] : LawfulBEq (A × Message) := inferInstance

/-- `m[k] = v` -/
def mapSet {K V : Type} [DecidableEq K] (m : K → Option V) (k : K) (v : V) : K → Option V :=
  Function.update m k (some v)

/-- `delete(m, k)` -/
def mapDelete {K V : Type} [DecidableEq K] (m : K → Option V) (k : K) : K → Option V :=
  Function.update m k none

/-- mirrors network.go, `sendMessageToAddr` -/
def sendMessageToAddr (raddr : Option A) (msg : Message) : List (ServerOut A) :=
  match raddr with
  | some a => [.send a msg]
  | none => []

namespace Server

/-- mirrors server_impl.go:50-70 -/
def newServer : Server A where
  readBuffer _ := none
  writeBuffer _ := none
  unAckedMsgBuffer _ := none
  latestAckBuffer _ := none
  deferedRead := []
  deferedClose := []
  hostportConnIdMap _ := none
  connIdHostportMap _ := none
  activeConn _ := none
  expectedSeqNum _ := none
  seqNum _ := none
  latestActiveEpoch _ := none
  currEpoch := 0
  connId := 0
  serverRunning := true
  connLostInClosing := false

/-- The connection ids handed out so far. -/
def ids (s : Server A) : List Int := (List.range s.connId.toNat).map fun i : Nat => (i : Int) + 1

/-- `s.activeConn[connId]` -/
def active (s : Server A) (connId : Int) : Bool := (s.activeConn connId).getD false

/-- `s.expectedSeqNum[connId]` -/
def expected (s : Server A) (connId : Int) : Int := (s.expectedSeqNum connId).getD 0

/-- The buffer starts with the expected message. -/
def ready (s : Server A) (connId : Int) (readBuffer : Buffer) : Bool :=
  match readBuffer.front with
  | some front => front.seqNum = s.expected connId
  | none => false

/-- mirrors server_impl.go:308-341 -/
def handleRead (s : Server A) (replyc : Nat) (o : Orders) : Option (Server A × List (ServerOut A)) :=
  if s.deferedClose.length > 0 then
    some (s, [.reply replyc ⟨.nil, some "server is closed"⟩])
  else
    match o.first.find? fun connId => (s.readBuffer connId).any (s.ready connId) with
    | some connId => do
      let readBuffer ← s.readBuffer connId
      let (readMsg, readBuffer) ← readBuffer.remove
      return ({ s with
          readBuffer := mapSet s.readBuffer connId readBuffer
          expectedSeqNum := mapSet s.expectedSeqNum connId (s.expected connId + 1) },
        [.reply replyc ⟨.bundle connId readMsg.payload, none⟩])
    | none =>
      match o.second.find? fun connId => (s.readBuffer connId).isSome && !s.active connId with
      | some connId =>
        some ({ s with
            readBuffer := mapDelete s.readBuffer connId
            expectedSeqNum := mapDelete s.expectedSeqNum connId },
          [.reply replyc ⟨.bundle connId [], some "some connection is lost"⟩])
      | none => some ({ s with deferedRead := s.deferedRead ++ [replyc] }, [])

/-- mirrors server_impl.go:344-371 -/
def handleWrite (P : Params) (s : Server A) (connId : Int) (payload : Payload) (replyc : Nat) :
    Option (Server A × List (ServerOut A)) :=
  if s.deferedClose.length > 0 ∨ !s.active connId then
    some (s, [.reply replyc ⟨.nil, some "server/connection closed or connection lost"⟩])
  else
    match s.connIdHostportMap connId with
    | some clientAddr => do
      let seqNum := (s.seqNum connId).getD 0 + 1
      let unAcked ← s.unAckedMsgBuffer connId
      let write ← s.writeBuffer connId
      let r := sendOrQueue P.windowSize unAcked write (newData connId seqNum payload)
      return ({ s with
          seqNum := mapSet s.seqNum connId seqNum
          unAckedMsgBuffer := mapSet s.unAckedMsgBuffer connId r.1
          writeBuffer := mapSet s.writeBuffer connId r.2.1 },
        r.2.2.map (.send clientAddr) ++ [.reply replyc ⟨.nil, none⟩])
    | none => some (s, [.reply replyc ⟨.nil, some "connection doesn't exist"⟩])

variable [DecidableEq A]

/-- `s.hostportConnIdMap[addr.String()]` -/
def connIdOf (s : Server A) (addr : A) : Int := (s.hostportConnIdMap addr).getD 0

/-- mirrors server_impl.go:120-137 -/
def handleConnect (s : Server A) (clientAddr : A) : Server A × List (ServerOut A) :=
  if s.deferedClose.length = 0 ∧ s.connIdOf clientAddr = 0 then
    let connId := s.connId + 1
    ({ s with
        connId := connId
        hostportConnIdMap := mapSet s.hostportConnIdMap clientAddr connId
        connIdHostportMap := mapSet s.connIdHostportMap connId clientAddr
        readBuffer := mapSet s.readBuffer connId .newBuffer
        writeBuffer := mapSet s.writeBuffer connId .newBuffer
        unAckedMsgBuffer := mapSet s.unAckedMsgBuffer connId .newBuffer
        latestAckBuffer := mapSet s.latestAckBuffer connId .newBuffer
        expectedSeqNum := mapSet s.expectedSeqNum connId 1
        seqNum := mapSet s.seqNum connId 0
        latestActiveEpoch := mapSet s.latestActiveEpoch connId s.currEpoch
        activeConn := mapSet s.activeConn connId true },
      [.send clientAddr (newAck connId 0)])
  else (s, [])

/-- mirrors server_impl.go:173-181 -/
def cleanUp (s : Server A) (clientAddr : A) (connId : Int) : Server A :=
  { s with
    hostportConnIdMap := mapDelete s.hostportConnIdMap clientAddr
    connIdHostportMap := mapDelete s.connIdHostportMap connId
    readBuffer := mapDelete s.readBuffer connId
    writeBuffer := mapDelete s.writeBuffer connId
    unAckedMsgBuffer := mapDelete s.unAckedMsgBuffer connId
    latestAckBuffer := mapDelete s.latestAckBuffer connId
    latestActiveEpoch := mapDelete s.latestActiveEpoch connId
    expectedSeqNum := mapDelete s.expectedSeqNum connId
    seqNum := mapDelete s.seqNum connId }

/-- The write buffer is looked at only if the ack was for an unacknowledged
message. mirrors server_impl.go:138-183 -/
def handleAck (P : Params) (s : Server A) (clientAddr : A) (msg : Message) :
    Option (Server A × List (ServerOut A)) :=
  let connId := s.connIdOf clientAddr
  if connId > 0 then do
    let s := { s with latestActiveEpoch := mapSet s.latestActiveEpoch connId s.currEpoch }
    let unAcked ← s.unAckedMsgBuffer connId
    if (unAcked.delete msg.seqNum).2 then
      let write ← s.writeBuffer connId
      let r ← ackReceived P.windowSize unAcked write msg.seqNum
      let s := { s with
        unAckedMsgBuffer := mapSet s.unAckedMsgBuffer connId r.2.1
        writeBuffer := mapSet s.writeBuffer connId r.2.2.1 }
      let out := r.2.2.2.map (ServerOut.send clientAddr)
      if r.2.1.len = 0 ∧ (!s.active connId ∨ s.deferedClose.length > 0) then
        return (s.cleanUp clientAddr connId, out)
      else return (s, out)
    else return (s, [])
  else some (s, [])

/-- mirrors server_impl.go:184-215 -/
def handleData (P : Params) (s : Server A) (clientAddr : A) (msg : Message) (o : Orders) :
    Option (Server A × List (ServerOut A)) :=
  let connId := s.connIdOf clientAddr
  if connId > 0 ∧ s.active connId ∧ s.deferedClose.length = 0 then
    let s := { s with latestActiveEpoch := mapSet s.latestActiveEpoch connId s.currEpoch }
    if msg.seqNum ≥ s.expected connId then do
      let read ← s.readBuffer connId
      let latestAck ← s.latestAckBuffer connId
      let r ← acceptData P.windowSize connId read latestAck msg
      let wake := msg.seqNum = s.expected connId
      let s := { s with
        readBuffer := mapSet s.readBuffer connId r.1
        latestAckBuffer := mapSet s.latestAckBuffer connId r.2 }
      let out := [ServerOut.send clientAddr (newAck connId msg.seqNum)]
      match s.deferedRead with
      | readReq :: rest =>
        if wake then
          let t ← handleRead { s with deferedRead := rest } readReq o
          return (t.1, out ++ t.2)
        else return (s, out)
      | [] => return (s, out)
    else some (s, [])
  else some (s, [])

/-- mirrors server_impl.go:116-216 -/
def handleReceivedMsg (P : Params) (s : Server A) (clientAddr : A) (msg : Message) (o : Orders) :
    Option (Server A × List (ServerOut A)) :=
  match msg.type with
  | .connect => some (s.handleConnect clientAddr)
  | .ack => s.handleAck P clientAddr msg
  | .data => s.handleData P clientAddr msg o

/-- One connection in the loop that looks for lost connections.
mirrors server_impl.go:223-251 -/
def detectLost (P : Params) (s : Server A) (connId : Int) : Option (Server A × List (ServerOut A)) :=
  match s.latestActiveEpoch connId with
  | none => some (s, [])
  | some latestActiveEpoch =>
    if s.currEpoch - latestActiveEpoch ≥ P.epochLimit then do
      let readBuffer ← s.readBuffer connId
      let s := { s with
        connLostInClosing := s.connLostInClosing || s.deferedClose.length > 0
        activeConn := mapDelete s.activeConn connId }
      -- a blocked read is told, unless there is still something to read
      let (s, out) := match s.ready connId readBuffer, s.deferedRead with
        | false, readReq :: rest =>
          ({ s with
              readBuffer := mapDelete s.readBuffer connId
              expectedSeqNum := mapDelete s.expectedSeqNum connId
              deferedRead := rest },
            [ServerOut.reply readReq ⟨.bundle connId [], some "some connection gets lost"⟩])
        | _, _ => (s, [])
      let clientAddr ← s.connIdHostportMap connId
      return ({ s with
          hostportConnIdMap := mapDelete s.hostportConnIdMap clientAddr
          connIdHostportMap := mapDelete s.connIdHostportMap connId
          writeBuffer := mapDelete s.writeBuffer connId
          unAckedMsgBuffer := mapDelete s.unAckedMsgBuffer connId
          latestAckBuffer := mapDelete s.latestAckBuffer connId
          latestActiveEpoch := mapDelete s.latestActiveEpoch connId
          seqNum := mapDelete s.seqNum connId },
        out ++ [.connLost connId])
    else some (s, [])

def detectLostAll (P : Params) (s : Server A) : List Int → Option (Server A × List (ServerOut A))
  | [] => some (s, [])
  | connId :: rest => do
    let r ← s.detectLost P connId
    let t ← detectLostAll P r.1 rest
    return (t.1, r.2 ++ t.2)

/-- mirrors server_impl.go:256-272 -/
def resendAcks (s : Server A) (connId : Int) : List (ServerOut A) :=
  match s.latestAckBuffer connId with
  | none => []
  | some latestAckBuffer =>
    if s.active connId then
      let clientAddr := s.connIdHostportMap connId
      if latestAckBuffer.len = 0 then sendMessageToAddr clientAddr (newAck connId 0)
      else latestAckBuffer.l.flatMap (sendMessageToAddr clientAddr)
    else []

/-- mirrors server_impl.go:282-286 -/
def resendUnAcked (s : Server A) (connId : Int) : List (ServerOut A) :=
  match s.unAckedMsgBuffer connId with
  | none => []
  | some unAckedMsgBuffer =>
    unAckedMsgBuffer.l.flatMap (sendMessageToAddr (s.connIdHostportMap connId))

/-- Whether the connection counts for `nonEmptyBuffer`. The write buffer is
looked at only if `unAckedMsgBuffer` is empty.
mirrors server_impl.go:278-280 and 420-422 -/
def pending (s : Server A) (connId : Int) : Option Bool :=
  match s.unAckedMsgBuffer connId with
  | none => some false
  | some unAckedMsgBuffer =>
    if unAckedMsgBuffer.len > 0 then some true
    else (s.writeBuffer connId).map fun writeBuffer => decide (writeBuffer.len > 0)

/-- mirrors server_impl.go:219-305 -/
def handleEpoch (P : Params) (s : Server A) (o : Orders) : Option (Server A × List (ServerOut A)) := do
  let (s, lost) ← detectLostAll P { s with currEpoch := s.currEpoch + 1 } o.first
  let acks := if s.deferedClose.length = 0 then o.second.flatMap s.resendAcks else []
  let pending ← o.third.mapM s.pending
  let out := lost ++ acks ++ o.third.flatMap s.resendUnAcked
  if s.deferedClose.length > 0 ∧ pending.all (! ·) then
    let ret : RetType := if s.connLostInClosing then
      ⟨.nil, some "some connections lost in the cleaning up process"⟩ else ⟨.nil, none⟩
    return ({ s with serverRunning := false },
      out ++ s.deferedClose.map (fun closeReq => .reply closeReq ret) ++ [.shutDown])
  else return (s, out)

/-- One blocked read is to be told that the connection is closed. The reply goes
to the request at the front of `deferedClose`. mirrors server_impl.go:379-384 -/
def unblockRead (s : Server A) (connId : Int) : Option (Server A × List (ServerOut A)) :=
  match s.deferedRead with
  | _ :: rest => s.deferedClose.head?.map fun readReq =>
    ({ s with deferedRead := rest },
      [.reply readReq ⟨.bundle connId [], some "some connection gets closed explicitly"⟩])
  | [] => some (s, [])

/-- The sending half is given up if nothing is pending.
mirrors server_impl.go:386-393 -/
def releaseSending (s : Server A) (connId : Int) : Option (Server A) :=
  match s.unAckedMsgBuffer connId, s.pending connId with
  | some _, some true => some s
  | some _, some false => (s.connIdHostportMap connId).map fun clientAddr => { s with
      writeBuffer := mapDelete s.writeBuffer connId
      unAckedMsgBuffer := mapDelete s.unAckedMsgBuffer connId
      hostportConnIdMap := mapDelete s.hostportConnIdMap clientAddr
      connIdHostportMap := mapDelete s.connIdHostportMap connId }
  | _, _ => none

/-- mirrors server_impl.go:374-406 -/
def handleCloseConn (s : Server A) (connId : Int) (replyc : Nat) :
    Option (Server A × List (ServerOut A)) :=
  if s.active connId then do
    let r ← s.unblockRead connId
    let s ← r.1.releaseSending connId
    return ({ s with
        readBuffer := mapDelete s.readBuffer connId
        latestAckBuffer := mapDelete s.latestAckBuffer connId
        latestActiveEpoch := mapDelete s.latestActiveEpoch connId
        expectedSeqNum := mapDelete s.expectedSeqNum connId
        seqNum := mapDelete s.seqNum connId
        activeConn := mapDelete s.activeConn connId },
      r.2 ++ [.reply replyc ⟨.nil, none⟩])
  else some (s, [.reply replyc ⟨.nil, some "connection ID doesn't exist"⟩])

/-- The replies to the blocked reads all go to the request at the front of
`deferedClose`. mirrors server_impl.go:409-434 -/
def handleClose (s : Server A) (replyc : Nat) (o : Orders) :
    Option (Server A × List (ServerOut A)) := do
  let out ← s.deferedRead.mapM fun _ => s.deferedClose.head?.map fun readReq =>
    ServerOut.reply readReq ⟨.bundle 0 [], some "the server is closed"⟩
  let s := { s with deferedRead := [] }
  let pending ← firstPending s o.first
  if !pending then
    return ({ s with serverRunning := false }, out ++ [.shutDown, .reply replyc ⟨.nil, none⟩])
  else return ({ s with deferedClose := s.deferedClose ++ [replyc] }, out)
where
  /-- The loop stops at the first connection with pending messages. -/
  firstPending (s : Server A) : List Int → Option Bool
    | [] => some false
    | connId :: rest => do
      if ← s.pending connId then return true
      else firstPending s rest

/-- One event of the event handler; a loop of the handler goes through the
connection ids in the order given. mirrors server_impl.go:444-462 -/
def handle (P : Params) (s : Server A) (req : ServerReq A) :
    Option (Server A × List (ServerOut A)) :=
  if s.serverRunning ∧ req.orders.first.Perm s.ids ∧ req.orders.second.Perm s.ids ∧
      req.orders.third.Perm s.ids then
    match req.op with
    | .receivemsg raddr msg => s.handleReceivedMsg P raddr msg req.orders
    | .epochtimer => s.handleEpoch P req.orders
    | .doread => s.handleRead req.replyc req.orders
    | .dowrite connId payload => s.handleWrite P connId payload req.replyc
    | .docloseconn connId => s.handleCloseConn connId req.replyc
    | .doclose => s.handleClose req.replyc req.orders
  else none

end Server

end Cmu440.Lsp
