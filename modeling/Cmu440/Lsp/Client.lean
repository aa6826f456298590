import Cmu440.Lsp.Window

/-!
# The LSP client

p1/src/github.com/cmu440/lsp/client_impl.go. The event handler is the only
goroutine that touches the state, so a handler is a function from the state to
the state and a list of outputs: datagrams, replies, and the signals to the
other goroutines (`NewClient`, the network handler and the epoch timer).
`none` is a nil dereference.

`turn` is the head of the loop: what the event handler does before it looks at
`requestc`. `iterate` is one iteration, given the request it receives if it
gets as far as receiving one.
-/
namespace Cmu440.Lsp

/-- mirrors client_impl.go:11-31; the channels are outputs -/
structure Client where
  writeBuffer : Buffer
  unAckedMsgBuffer : Buffer
  latestAckBuffer : Buffer
  readBuffer : Buffer
  deferedRead : List Nat
  deferedClose : List Nat
  connId : Int
  seqNum : Int
  expectedSeqNum : Int
  currEpoch : Int
  latestActiveEpoch : Int
  clientRunning : Bool
  connLost : Bool
  deriving DecidableEq

inductive ClientOp
  | doread
  | dowrite (payload : Payload)
  | doclose
  | doconnid
  | doconnect
  | epochtimer
  | receivemsg (msg : Message)
  deriving DecidableEq, Repr

structure ClientReq where
  op : ClientOp
  replyc : Nat
  deriving DecidableEq, Repr

inductive ClientOut
  | send (msg : Message)
  | reply (replyc : Nat) (ret : RetType)
  | connEstablishedSignal
  | connLostSignal
  | shutDown
  deriving DecidableEq, Repr

namespace Client

/-- mirrors client_impl.go:44-63 -/
def newClient : Client where
  writeBuffer := .newBuffer
  unAckedMsgBuffer := .newBuffer
  latestAckBuffer := .newBuffer
  readBuffer := .newBuffer
  deferedRead := []
  deferedClose := []
  connId := 0
  seqNum := 0
  expectedSeqNum := 1
  currEpoch := 0
  latestActiveEpoch := 0
  clientRunning := true
  connLost := false

/-- The next message for `Read` is there. -/
def ready (c : Client) : Bool :=
  match c.readBuffer.front with
  | some front => front.seqNum = c.expectedSeqNum
  | none => false

/-- Every message is sent and acknowledged. -/
def flushed (c : Client) : Bool := c.writeBuffer.len = 0 && c.unAckedMsgBuffer.len = 0

/-- mirrors client_impl.go:126-143 -/
def handleRead (c : Client) (replyc : Nat) : Option (Client × List ClientOut) :=
  if c.deferedClose.length > 0 then
    some (c, [.reply replyc ⟨.nil, some "client closed"⟩])
  else if !c.ready then
    some (c, [.reply replyc ⟨.nil, some "connection lost"⟩])
  else do
    let (readMsg, readBuffer) ← c.readBuffer.remove
    return ({ c with readBuffer := readBuffer, expectedSeqNum := c.expectedSeqNum + 1 },
      [.reply replyc ⟨.bytes readMsg.payload, none⟩])

/-- mirrors client_impl.go:146-172 -/
def handleWrite (P : Params) (c : Client) (payload : Payload) (replyc : Nat) :
    Client × List ClientOut :=
  if c.connLost then (c, [.reply replyc ⟨.nil, some "connection lost"⟩])
  else if c.deferedClose.length > 0 then (c, [.reply replyc ⟨.nil, some "client closed"⟩])
  else
    let r := sendOrQueue P.windowSize c.unAckedMsgBuffer c.writeBuffer
      (newData c.connId (c.seqNum + 1) payload)
    ({ c with seqNum := c.seqNum + 1, unAckedMsgBuffer := r.1, writeBuffer := r.2.1 },
      r.2.2.map .send ++ [.reply replyc ⟨.nil, none⟩])

/-- mirrors client_impl.go:175-203 -/
def handleEpoch (P : Params) (c : Client) : Client × List ClientOut :=
  let c := { c with currEpoch := c.currEpoch + 1 }
  if c.currEpoch - c.latestActiveEpoch ≥ P.epochLimit then
    ({ c with connLost := true }, [.connLostSignal, .shutDown])
  else
    (c,
      (if c.connId > 0 ∧ c.latestAckBuffer.len = 0 ∧ c.deferedClose.length = 0 then
        [.send (newAck c.connId 0)] else []) ++
      c.unAckedMsgBuffer.l.map .send ++
      (if c.deferedClose.length = 0 then c.latestAckBuffer.l.map .send else []))

/-- mirrors client_impl.go:211-239 -/
def handleAck (P : Params) (c : Client) (msg : Message) : Option (Client × List ClientOut) := do
  let r ← ackReceived P.windowSize c.unAckedMsgBuffer c.writeBuffer msg.seqNum
  let c := { c with unAckedMsgBuffer := r.2.1, writeBuffer := r.2.2.1 }
  -- an ack for the connection message
  if r.1 ∧ msg.seqNum = 0 then
    return ({ c with connId := msg.connID }, r.2.2.2.map .send ++ [.connEstablishedSignal])
  else
    return (c, r.2.2.2.map .send)

/-- mirrors client_impl.go:240-260 -/
def handleData (P : Params) (c : Client) (msg : Message) : Option (Client × List ClientOut) :=
  if c.connId = 0 ∨ c.deferedClose.length > 0 then some (c, [])
  else if msg.seqNum ≥ c.expectedSeqNum then do
    let r ← acceptData P.windowSize c.connId c.readBuffer c.latestAckBuffer msg
    return ({ c with readBuffer := r.1, latestAckBuffer := r.2 }, [.send (newAck c.connId msg.seqNum)])
  else some (c, [])

/-- mirrors client_impl.go:206-261 -/
def handleReceivedMsg (P : Params) (c : Client) (msg : Message) :
    Option (Client × List ClientOut) :=
  let c := { c with latestActiveEpoch := c.currEpoch }
  match msg.type with
  | .ack => c.handleAck P msg
  | .data => c.handleData P msg
  | .connect => some (c, [])

/-- mirrors client_impl.go:269-293 -/
def handleClose (c : Client) (replyc : Nat) : Client × List ClientOut :=
  let ret : RetType := if c.flushed then ⟨.nil, none⟩
    else ⟨.nil, some "connection lost before sending out all pending messages"⟩
  ({ c with clientRunning := false },
    (if c.connLost then [] else [.shutDown]) ++
      (replyc :: c.deferedClose).map fun r => .reply r ret)

/-- mirrors client_impl.go:296-301 -/
def handleConnect (c : Client) (replyc : Nat) : Client × List ClientOut :=
  ({ c with unAckedMsgBuffer := c.unAckedMsgBuffer.insert newConnect },
    [.send newConnect, .reply replyc ⟨.nil, none⟩])

/-- mirrors client_impl.go:341-356 -/
def handle (P : Params) (c : Client) (req : ClientReq) : Option (Client × List ClientOut) :=
  match req.op with
  | .doread => c.handleRead req.replyc
  | .dowrite payload => some (c.handleWrite P payload req.replyc)
  | .doclose => some (c.handleClose req.replyc)
  | .doconnid => some (c, [.reply req.replyc ⟨.int c.connId, none⟩])
  | .doconnect => some (c.handleConnect req.replyc)
  | .epochtimer => some (c.handleEpoch P)
  | .receivemsg msg => c.handleReceivedMsg P msg

inductive Turn
  | exit
  | unblock (c : Client) (req : ClientReq)
  | receive

/-- mirrors client_impl.go:313-328 -/
def turn (c : Client) : Turn :=
  if !c.clientRunning then .exit
  else if c.connId = 0 && c.connLost then .exit
  else
    match c.deferedRead, c.ready || c.connLost || c.deferedClose.length > 0 with
    | replyc :: rest, true => .unblock { c with deferedRead := rest } ⟨.doread, replyc⟩
    | _, _ =>
      match c.deferedClose, c.flushed || c.connLost with
      | replyc :: rest, true => .unblock { c with deferedClose := rest } ⟨.doclose, replyc⟩
      | _, _ => .receive

/-- A request that has to wait is put off. mirrors client_impl.go:330-337 -/
def deferRequest (c : Client) (req : ClientReq) : Option Client :=
  if req.op = .doread ∧ !c.ready then
    some { c with deferedRead := c.deferedRead ++ [req.replyc] }
  else if req.op = .doclose ∧ !c.flushed then
    some { c with deferedClose := c.deferedClose ++ [req.replyc] }
  else none

/-- One iteration of the event handler; `none` also if the iteration does not
receive exactly the given request. mirrors client_impl.go:311-358 -/
def iterate (P : Params) (c : Client) (incoming : Option ClientReq) :
    Option (Client × List ClientOut) :=
  match c.turn, incoming with
  | .unblock c req, none => c.handle P req
  | .receive, some req =>
    match c.deferRequest req with
    | some c => some (c, [])
    | none => c.handle P req
  | _, _ => none

end Client

end Cmu440.Lsp
