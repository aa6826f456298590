/-!
# Messages, parameters and replies

The types the LSP client and server share (message.go, params.go and common.go
in p1/src/github.com/cmu440/lsp). A payload is a list of bytes, and `nil` the
empty one. `EpochMillis` is read by the epoch timer only and is left out: an
epoch may fire at any time.

A request carries a fresh reply channel. It is named by a number here, and what
is sent on it is an output of the handler.
-/
namespace Cmu440.Lsp

abbrev Payload := List UInt8

/-- mirrors message.go:10-14 -/
inductive MsgType
  | connect | data | ack
  deriving DecidableEq, Repr

/-- mirrors message.go:17-22 -/
structure Message where
  type : MsgType
  connID : Int
  seqNum : Int
  payload : Payload
  deriving DecidableEq, Repr

def newConnect : Message := ⟨.connect, 0, 0, []⟩

def newData (connID seqNum : Int) (payload : Payload) : Message := ⟨.data, connID, seqNum, payload⟩

def newAck (connID seqNum : Int) : Message := ⟨.ack, connID, seqNum, []⟩

/-- mirrors params.go:15-26 -/
structure Params where
  epochLimit : Int
  windowSize : Int
  deriving DecidableEq, Repr

/-- What is put into the `interface{}` of a reply; `bundle` is the server's
`connIdPayloadBundle`. -/
inductive RetVal
  | nil
  | int (i : Int)
  | bytes (payload : Payload)
  | bundle (connId : Int) (payload : Payload)
  deriving DecidableEq, Repr

/-- mirrors common.go, `retType` -/
structure RetType where
  val : RetVal
  err : Option String
  deriving DecidableEq, Repr

end Cmu440.Lsp
