import Cmu440.Lsp.Answers

/-!
# The goroutines of the client

client_impl.go, network.go and epoch_timer.go: the event handler, the network
handler, the epoch timer and `NewClient`, over the channels between them.

* `requestc` is a queue with room for 100 requests, and `connLostSignal` and
  `connEstablishedSignal` have room for one signal each. The two `closeSignal`
  channels are not buffered: the send and the receive are one step.
* The event handler's iterations are those of `Client.iterate`; what it sends to
  the other goroutines in an iteration is kept in `todo`, and it takes the next
  request when all of it is sent. Replies are not kept: who has put a request
  into `requestc` waits for the reply.
* `ReadFromUDP` waits for a packet, which may be malformed, and returns an error
  once the connection is closed.

The event handler sends `connLostSignal` and shuts the others down again on every
epoch it finds in `requestc` after the connection is lost (client_impl.go:178-183),
and it shuts them down without taking requests, while they may wait for room in
`requestc` (`event_handler_stuck`). Without these two the sends always go through
(`event_handler_never_stuck`).
-/
namespace Cmu440.Lsp

/-- What the event handler sends to the others. -/
inductive Signal
  | connLost
  | connEstablished
  /-- `h.conn.Close()`, in `networkUtility.close`. -/
  | closeConn
  /-- `h.closeSignal`, to the network handler. -/
  | network
  /-- `c.closeSignal`, to the epoch timer. -/
  | timer
  deriving DecidableEq, Repr

/-- mirrors client_impl.go:303-307 and network.go:113-118 -/
def shutDownSignals : List Signal := [.closeConn, .network, .timer]

def ClientOut.signals : ClientOut → List Signal
  | .connLostSignal => [.connLost]
  | .connEstablishedSignal => [.connEstablished]
  | .shutDown => shutDownSignals
  | _ => []

/-- mirrors network.go:91-110 -/
inductive NetworkHandler
  | select
  | readFromUDP
  | send (msg : Message)
  | returned
  deriving DecidableEq, Repr

/-- mirrors epoch_timer.go:10-21 -/
inductive EpochTimer
  | select
  | send
  | returned
  deriving DecidableEq, Repr

/-- mirrors client_impl.go:70-86 -/
inductive NewClient
  | connect
  | waitReply
  | select
  | ready
  | failed
  deriving DecidableEq, Repr

structure Goroutines where
  client : Client
  todo : List Signal
  requestc : List ClientReq
  connLostSignal : Bool
  connEstablishedSignal : Bool
  connClosed : Bool
  network : NetworkHandler
  timer : EpochTimer
  newClient : NewClient
  deriving DecidableEq

inductive GoLbl
  /-- The event handler begins an iteration. -/
  | iterate
  /-- The event handler sends the next signal. -/
  | signal
  /-- The network handler finds no `closeSignal`. -/
  | noClose
  /-- A packet, or something else that cannot be used. -/
  | read (packet : Option Message)
  | readClosed
  | deliver
  | tick
  | epoch
  | connect
  | established
  | lost
  /-- A call of the API, by any goroutine of the user. -/
  | call (req : ClientReq)
  deriving DecidableEq, Repr

namespace Goroutines

def init : Goroutines where
  client := .newClient
  todo := []
  requestc := []
  connLostSignal := false
  connEstablishedSignal := false
  connClosed := false
  network := .select
  timer := .select
  newClient := .connect

/-- `requestc <- req` -/
def put (s : Goroutines) (req : ClientReq) : Option Goroutines :=
  if s.requestc.length < 100 then some { s with requestc := s.requestc ++ [req] } else none

/-- mirrors client_impl.go:309-358 -/
def runHandler (P : Params) (s : Goroutines) : Option Goroutines :=
  match s.todo, s.client.turn, s.requestc with
  | [], .receive, req :: rest => (s.client.iterate P (some req)).map fun t => { s with
      client := t.1
      todo := t.2.flatMap ClientOut.signals
      requestc := rest
      newClient := if req.op = .doconnect then .select else s.newClient }
  | [], .unblock _ _, _ => (s.client.iterate P none).map fun t => { s with
      client := t.1
      todo := t.2.flatMap ClientOut.signals }
  | _, _, _ => none

def sendSignal (s : Goroutines) : Option Goroutines :=
  match s.todo with
  | [] => none
  | .connLost :: rest =>
    if s.connLostSignal then none else some { s with connLostSignal := true, todo := rest }
  | .connEstablished :: rest =>
    if s.connEstablishedSignal then none
    else some { s with connEstablishedSignal := true, todo := rest }
  | .closeConn :: rest => some { s with connClosed := true, todo := rest }
  | .network :: rest =>
    if s.network = .select then some { s with network := .returned, todo := rest } else none
  | .timer :: rest =>
    if s.timer = .select then some { s with timer := .returned, todo := rest } else none

def step (P : Params) (s : Goroutines) : GoLbl → Option Goroutines
  | .iterate => s.runHandler P
  | .signal => s.sendSignal
  | .noClose =>
    -- `default` is taken only when nobody is sending
    if s.network = .select ∧ s.todo.head? ≠ some .network then
      some { s with network := .readFromUDP }
    else none
  | .read packet =>
    if s.network = .readFromUDP then
      match packet with
      | some msg => if s.connClosed then none else some { s with network := .send msg }
      | none => some { s with network := .select }
    else none
  | .readClosed =>
    if s.network = .readFromUDP ∧ s.connClosed then some { s with network := .select } else none
  | .deliver =>
    match s.network with
    | .send msg => (s.put ⟨.receivemsg msg, 0⟩).map fun s => { s with network := .select }
    | _ => none
  | .tick => if s.timer = .select then some { s with timer := .send } else none
  | .epoch =>
    if s.timer = .send then (s.put ⟨.epochtimer, 0⟩).map fun s => { s with timer := .select } else none
  | .connect =>
    if s.newClient = .connect then
      (s.put ⟨.doconnect, 0⟩).map fun s => { s with newClient := .waitReply }
    else none
  | .established =>
    if s.newClient = .select ∧ s.connEstablishedSignal then
      some { s with newClient := .ready, connEstablishedSignal := false }
    else none
  | .lost =>
    if s.newClient = .select ∧ s.connLostSignal then
      some { s with newClient := .failed, connLostSignal := false }
    else none
  | .call req =>
    if s.newClient = .ready ∧ req.op.isCall ∧ req.op ≠ .doconnect then s.put req else none

/-- No epoch is taken once the connection is lost, and two places of `requestc`
stay free. -/
def roomy (s : Goroutines) : GoLbl → Bool
  | .iterate => !(s.client.connLost && s.requestc.head?.any fun req => req.op = .epochtimer)
  | .deliver | .epoch | .connect | .call _ => s.requestc.length < 98
  | _ => true

end Goroutines

/-- Every interleaving of the goroutines, on any packets and calls. -/
def goroutines (P : Params) : LTS Goroutines GoLbl := .ofFn (· = .init) (Goroutines.step P)

def roomyRuns (P : Params) : LTS Goroutines GoLbl :=
  .ofFn (· = .init) (LTS.guarded Goroutines.roomy (Goroutines.step P))

/-- What a step can do, with the conditions under which it does it. -/
inductive Goroutines.Moves (P : Params) (s : Goroutines) : GoLbl → Goroutines → Prop
  | iterate {s' : Goroutines} (h : s.runHandler P = some s') : Moves P s .iterate s'
  | signal {s' : Goroutines} (h : s.sendSignal = some s') : Moves P s .signal s'
  | noClose (hn : s.network = .select) (hs : s.todo.head? ≠ some .network) :
      Moves P s .noClose { s with network := .readFromUDP }
  | read (msg : Message) (hn : s.network = .readFromUDP) (hc : s.connClosed = false) :
      Moves P s (.read (some msg)) { s with network := .send msg }
  | readOther (hn : s.network = .readFromUDP) : Moves P s (.read none) { s with network := .select }
  | readClosed (hn : s.network = .readFromUDP) (hc : s.connClosed = true) :
      Moves P s .readClosed { s with network := .select }
  | deliver (msg : Message) (hn : s.network = .send msg) (hroom : s.requestc.length < 100) :
      Moves P s .deliver
        { s with requestc := s.requestc ++ [⟨.receivemsg msg, 0⟩], network := .select }
  | tick (ht : s.timer = .select) : Moves P s .tick { s with timer := .send }
  | epoch (ht : s.timer = .send) (hroom : s.requestc.length < 100) :
      Moves P s .epoch { s with requestc := s.requestc ++ [⟨.epochtimer, 0⟩], timer := .select }
  | connect (hnew : s.newClient = .connect) (hroom : s.requestc.length < 100) :
      Moves P s .connect
        { s with requestc := s.requestc ++ [⟨.doconnect, 0⟩], newClient := .waitReply }
  | established (hnew : s.newClient = .select) (hest : s.connEstablishedSignal = true) :
      Moves P s .established { s with newClient := .ready, connEstablishedSignal := false }
  | lost (hnew : s.newClient = .select) (hlost : s.connLostSignal = true) :
      Moves P s .lost { s with newClient := .failed, connLostSignal := false }
  | call (req : ClientReq) (hnew : s.newClient = .ready) (hcall : req.op.isCall = true)
      (hop : req.op ≠ .doconnect) (hroom : s.requestc.length < 100) :
      Moves P s (.call req) { s with requestc := s.requestc ++ [req] }

theorem Goroutines.put_eq_some {s s' : Goroutines} {req : ClientReq} (h : s.put req = some s') :
    s.requestc.length < 100 ∧ s' = { s with requestc := s.requestc ++ [req] } := by
  unfold Goroutines.put at h
  split at h
  · rename_i hroom
    exact ⟨hroom, (Option.some.inj h).symm⟩
  · cases h

theorem Goroutines.moves_of_step {P : Params} {s s' : Goroutines} {l : GoLbl} (h : s.step P l = some s') :
    Moves P s l s' := by
  cases l <;> simp only [Goroutines.step] at h
  case iterate => exact .iterate h
  case signal => exact .signal h
  case noClose =>
    split at h <;> cases h
    rename_i hc
    exact .noClose hc.1 hc.2
  case read packet =>
    split at h
    · rename_i hn
      split at h
      · split at h <;> cases h
        rename_i hc
        exact .read _ hn (Bool.eq_false_iff.mpr hc)
      · cases h
        exact .readOther hn
    · cases h
  case readClosed =>
    split at h <;> cases h
    rename_i hc
    exact .readClosed hc.1 hc.2
  case deliver =>
    split at h
    · rename_i msg hn
      obtain ⟨s₁, hput, rfl⟩ := Option.map_eq_some_iff.mp h
      obtain ⟨hroom, rfl⟩ := Goroutines.put_eq_some hput
      exact .deliver msg hn hroom
    · cases h
  case tick =>
    split at h <;> cases h
    exact .tick ‹_›
  case epoch =>
    split at h
    · obtain ⟨s₁, hput, rfl⟩ := Option.map_eq_some_iff.mp h
      obtain ⟨hroom, rfl⟩ := Goroutines.put_eq_some hput
      exact .epoch ‹_› hroom
    · cases h
  case connect =>
    split at h
    · obtain ⟨s₁, hput, rfl⟩ := Option.map_eq_some_iff.mp h
      obtain ⟨hroom, rfl⟩ := Goroutines.put_eq_some hput
      exact .connect ‹_› hroom
    · cases h
  case established =>
    split at h <;> cases h
    rename_i hc
    exact .established hc.1 hc.2
  case lost =>
    split at h <;> cases h
    rename_i hc
    exact .lost hc.1 hc.2
  case call req =>
    split at h
    · rename_i hc
      obtain ⟨hroom, rfl⟩ := Goroutines.put_eq_some h
      exact .call req hc.1 hc.2.1 hc.2.2 hroom
    · cases h

/-! ## What an iteration sends -/

/-- The others have been shut down, or are about to be. -/
def Client.down (c : Client) : Bool := c.connLost || !c.clientRunning

inductive Signals (c : Client) (incoming : Option ClientReq) (c' : Client) (out : List ClientOut) : Prop
  | none (hout : out.flatMap ClientOut.signals = []) (hdown : c.down = true → c'.down = true)
  | lost (hout : out.flatMap ClientOut.signals = .connLost :: shutDownSignals)
      (hdown : c'.down = true) (hop : ∃ replyc, incoming = some ⟨.epochtimer, replyc⟩)
  | close (hout : out.flatMap ClientOut.signals = shutDownSignals) (hdown : c'.down = true)
      (hlost : c.connLost = false)
  | established (hout : out.flatMap ClientOut.signals = [.connEstablished])
      (hmem : .connEstablishedSignal ∈ out) (hdown : c'.down = c.down)

section Signals

variable {P : Params} {c c' : Client} {incoming : Option ClientReq} {out : List ClientOut}
  {replyc : Nat}

theorem Signals.congr {c₁ : Client} (h : Signals c₁ incoming c' out) (hdown : c₁.down = c.down)
    (hlost : c₁.connLost = c.connLost) : Signals c incoming c' out := by
  cases h with
  | none hout hd => exact .none hout (hdown ▸ hd)
  | lost hout hd hop => exact .lost hout hd hop
  | close hout hd hl => exact .close hout hd (hlost ▸ hl)
  | established hout hmem hd => exact .established hout hmem (hd.trans hdown)

theorem signals_sends (l : List Message) : (l.map ClientOut.send).flatMap ClientOut.signals = [] := by
  simp [ClientOut.signals]

theorem signals_read (h : c.handleRead replyc = some (c', out)) :
    Signals c incoming c' out := by
  unfold Client.handleRead at h
  split at h
  · cases h
    exact .none rfl id
  · split at h
    · cases h
      exact .none rfl id
    · simp only [Option.bind_eq_bind, Option.bind_eq_some_iff, Option.pure_def, Option.some.injEq,
        Prod.mk.injEq] at h
      obtain ⟨t, -, rfl, rfl⟩ := h
      exact .none rfl id

theorem signals_close (h : c.handleClose replyc = (c', out)) :
    Signals c incoming c' out := by
  unfold Client.handleClose at h
  simp only at h
  cases h
  have hreplies : ∀ (l : List Nat) (ret : RetType),
      (l.map fun r => ClientOut.reply r ret).flatMap ClientOut.signals = [] := by
    intro l ret
    simp [ClientOut.signals]
  have hdown : Client.down { c with clientRunning := false } = true := by simp [Client.down]
  by_cases hlost : c.connLost = true
  · refine .none ?_ fun _ => hdown
    rw [if_pos hlost, List.nil_append]
    exact hreplies _ _
  · refine .close ?_ hdown (Bool.eq_false_iff.mpr hlost)
    rw [if_neg hlost, List.flatMap_append, hreplies, List.append_nil]
    rfl

theorem signals_receive {msg : Message} (h : c.handleReceivedMsg P msg = some (c', out)) :
    Signals c (some ⟨.receivemsg msg, replyc⟩) c' out := by
  unfold Client.handleReceivedMsg at h
  cases htype : msg.type <;> simp only [htype] at h
  case connect =>
    cases h
    exact .none rfl id
  case data =>
    unfold Client.handleData at h
    simp only at h
    split at h
    · cases h
      exact .none rfl id
    · split at h
      · simp only [Option.bind_eq_bind, Option.bind_eq_some_iff, Option.pure_def,
          Option.some.injEq, Prod.mk.injEq] at h
        obtain ⟨r, -, rfl, rfl⟩ := h
        exact .none rfl id
      · cases h
        exact .none rfl id
  case ack =>
    unfold Client.handleAck at h
    simp only [Option.bind_eq_bind, Option.bind_eq_some_iff] at h
    obtain ⟨r, -, h⟩ := h
    split at h
    · cases h
      refine .established ?_ (by simp) rfl
      rw [List.flatMap_append, signals_sends]
      rfl
    · cases h
      exact .none (signals_sends _) id

theorem signals_handle {req : ClientReq} (h : c.handle P req = some (c', out)) :
    Signals c (some req) c' out := by
  obtain ⟨op, replyc⟩ := req
  unfold Client.handle at h
  cases op <;> simp only [Option.some.injEq] at h
  case doread => exact signals_read h
  case dowrite p =>
    unfold Client.handleWrite at h
    split at h
    · cases h
      exact .none rfl id
    · split at h
      · cases h
        exact .none rfl id
      · cases h
        refine .none ?_ id
        rw [List.flatMap_append, signals_sends]
        rfl
  case doclose => exact signals_close h
  case doconnid =>
    cases h
    exact .none rfl id
  case doconnect =>
    cases h
    exact .none rfl id
  case epochtimer =>
    unfold Client.handleEpoch at h
    simp only at h
    split at h
    · cases h
      exact .lost rfl (by simp [Client.down]) ⟨replyc, rfl⟩
    · cases h
      refine .none ?_ id
      have hack : ∀ (b : Prop) [Decidable b] (l : List Message),
          (if b then l.map ClientOut.send else []).flatMap ClientOut.signals = [] := by
        intro b _ l
        split
        · exact signals_sends l
        · rfl
      rw [List.flatMap_append, List.flatMap_append, signals_sends, hack, List.append_nil,
        List.append_nil]
      exact hack _ [newAck _ 0]
  case receivemsg msg => exact signals_receive h

theorem signals_iterate (h : c.iterate P incoming = some (c', out)) :
    Signals c incoming c' out := by
  cases iterates_of_iterate h with
  | wakeRead _ h => exact (signals_read h).congr rfl rfl
  | wakeClose _ _ h => exact (signals_close h).congr rfl rfl
  | deferRead | deferClose => exact .none rfl id
  | handle _ h => exact signals_handle h

end Signals

/-! ## The connection is established once -/

/-- The Connect is sent once, before anything else, and after its ack nothing with
the number 0 is sent. -/
structure Handshake (s : Goroutines) : Prop where
  connects : s.requestc.countP (fun req => req.op = .doconnect) =
    if s.newClient = .waitReply then 1 else 0
  calls : ∀ req ∈ s.requestc, req.op.isCall = true → req.op ≠ .doconnect → s.newClient = .ready
  early : s.newClient = .connect ∨ s.newClient = .waitReply →
    s.client.unAckedMsgBuffer.l = [] ∧ s.client.writeBuffer.l = [] ∧
      s.connEstablishedSignal = false ∧ .connEstablished ∉ s.todo
  seqNum : 0 ≤ s.client.seqNum
  write : ∀ m ∈ s.client.writeBuffer.l, 1 ≤ m.seqNum
  unAcked : ∀ m ∈ s.client.unAckedMsgBuffer.l, 0 ≤ m.seqNum
  established : s.connEstablishedSignal = true ∨ .connEstablished ∈ s.todo ∨ s.newClient = .ready →
    ∀ m ∈ s.client.unAckedMsgBuffer.l, 1 ≤ m.seqNum

theorem signal_established {c c' : Client} {incoming : Option ClientReq} {out : List ClientOut}
    (h : Signals c incoming c' out) (hmem : .connEstablished ∈ out.flatMap ClientOut.signals) :
    .connEstablishedSignal ∈ out := by
  cases h with
  | none hout | lost hout | close hout =>
    rw [hout] at hmem
    simp [shutDownSignals] at hmem
  | established hout hmem' => exact hmem'

section Iteration

variable {P : Params} {s : Goroutines} {incoming : Option ClientReq} {c : Client}
  {out : List ClientOut} {rest : List ClientReq}

/-- Only a client that is ready is asked to write. -/
theorem Handshake.ready_of_write (h : Handshake s) (hqueue : s.requestc = incoming.toList ++ rest)
    {p : List UInt8} {replyc : Nat} (hreq : incoming = some ⟨.dowrite p, replyc⟩) :
    s.newClient = .ready := by
  subst hreq
  exact h.calls ⟨.dowrite p, replyc⟩ (by rw [hqueue]; simp) rfl nofun

theorem Handshake.waits_of_connect (h : Handshake s)
    (hqueue : s.requestc = incoming.toList ++ rest) {req : ClientReq} (hreq : incoming = some req)
    (hop : req.op = .doconnect) :
    s.newClient = .waitReply ∧ rest.countP (fun req => req.op = .doconnect) = 0 := by
  subst hreq
  have := h.connects
  rw [hqueue] at this
  by_cases hne : s.newClient = .waitReply
  · simp [hne, hop] at this
    exact ⟨hne, by simpa using this⟩
  · simp [hne, hop] at this

/-- Once established, there is no second Connect. -/
theorem Handshake.connects_once (h : Handshake s) (hqueue : s.requestc = incoming.toList ++ rest)
    (hest : s.connEstablishedSignal = true ∨ s.newClient = .ready) {req : ClientReq}
    (hreq : incoming = some req) : req.op ≠ .doconnect := by
  intro hop
  have hwait := (h.waits_of_connect hqueue hreq hop).1
  rcases hest with hest | hready
  · rw [(h.early (.inr hwait)).2.2.1] at hest
    cases hest
  · rw [hready] at hwait
    cases hwait

/-- Before the Connect is taken an iteration has nothing to send. -/
theorem Handshake.iterate_early (h : Handshake s)
    (hit : s.client.iterate P incoming = some (c, out))
    (hqueue : s.requestc = incoming.toList ++ rest)
    (hearly : s.newClient = .connect ∨ s.newClient = .waitReply)
    (hno : incoming.any (fun req => req.op = .doconnect) = false) :
    c.unAckedMsgBuffer.l = [] ∧ c.writeBuffer.l = [] ∧
      .connEstablished ∉ out.flatMap ClientOut.signals := by
  have ho := origins_of_effect (effect_of_iterate hit)
  obtain ⟨hu, hw, -, -⟩ := h.early hearly
  have hnoWrite : ∀ p replyc, incoming ≠ some ⟨.dowrite p, replyc⟩ := by
    intro p replyc hreq
    rw [h.ready_of_write hqueue hreq] at hearly
    rcases hearly with hn | hn <;> cases hn
  refine ⟨List.eq_nil_iff_forall_not_mem.mpr fun m hm => ?_,
    List.eq_nil_iff_forall_not_mem.mpr fun m hm => ?_, fun hm => ?_⟩
  · rcases ho.unAcked m hm with hm | hm | ⟨p, replyc, hreq, -⟩ | ⟨replyc, rfl, -⟩
    · rw [hu] at hm
      cases hm
    · rw [hw] at hm
      cases hm
    · exact hnoWrite p replyc hreq
    · simp at hno
  · rcases ho.write m hm with hm | ⟨p, replyc, hreq, -⟩
    · rw [hw] at hm
      cases hm
    · exact hnoWrite p replyc hreq
  · obtain ⟨⟨m, hm, -⟩, -⟩ := ho.established (signal_established (signals_iterate hit) hm)
    rw [hu] at hm
    cases hm

theorem Handshake.iterate_unAcked (h : Handshake s)
    (hit : s.client.iterate P incoming = some (c, out)) :
    ∀ m ∈ c.unAckedMsgBuffer.l, 0 ≤ m.seqNum := by
  intro m hm
  rcases (origins_of_effect (effect_of_iterate hit)).unAcked m hm with
    hm | hm | ⟨p, replyc, -, hm⟩ | ⟨replyc, -, rfl⟩
  · exact h.unAcked m hm
  · have := h.write m hm
    omega
  · have := h.seqNum
    omega
  · exact le_refl 0

/-- The Connect is gone when its ack is signalled, and does not come back. -/
theorem Handshake.iterate_established (h : Handshake s)
    (hit : s.client.iterate P incoming = some (c, out))
    (hqueue : s.requestc = incoming.toList ++ rest)
    (hest : .connEstablished ∈ out.flatMap ClientOut.signals ∨
      s.connEstablishedSignal = true ∨ s.newClient = .ready) :
    ∀ m ∈ c.unAckedMsgBuffer.l, 1 ≤ m.seqNum := by
  have ho := origins_of_effect (effect_of_iterate hit)
  intro m hm
  rcases hest with hnow | hbefore
  · rcases (ho.established (signal_established (signals_iterate hit) hnow)).2 m hm with hne | hw
    · have := h.iterate_unAcked hit m hm
      omega
    · exact h.write m hw
  · rcases ho.unAcked m hm with hm | hm | ⟨p, replyc, -, hm⟩ | ⟨replyc, hreq, -⟩
    · exact h.established (hbefore.imp_right .inr) m hm
    · exact h.write m hm
    · have := h.seqNum
      omega
    · exact absurd rfl (h.connects_once hqueue hbefore hreq)

/-- An iteration that takes the request `incoming`; `newClient` is where it leaves
`NewClient`. -/
theorem Handshake.iterate (h : Handshake s) (hit : s.client.iterate P incoming = some (c, out))
    (hqueue : s.requestc = incoming.toList ++ rest) :
    Handshake { s with
      client := c
      todo := out.flatMap ClientOut.signals
      requestc := rest
      newClient := if incoming.any (fun req => req.op = .doconnect) then .select else s.newClient } := by
  have ho := origins_of_effect (effect_of_iterate hit)
  refine ⟨?_, fun req hreq hcall hop => ?_, fun hearly => ?_, ho.seqNum h.seqNum, fun m hm => ?_,
    h.iterate_unAcked hit, fun hest => ?_⟩
  · cases incoming with
    | none =>
      have := h.connects
      rw [hqueue] at this
      simpa using this
    | some req =>
      by_cases hop : req.op = .doconnect
      · simp [hop, (h.waits_of_connect hqueue rfl hop).2]
      · have := h.connects
        rw [hqueue] at this
        simpa [hop] using this
  · have hready := h.calls req (by rw [hqueue]; exact List.mem_append_right _ hreq) hcall hop
    cases incoming with
    | none => exact hready
    | some req' => simpa [h.connects_once hqueue (.inr hready) rfl] using hready
  · have hno : incoming.any (fun req => req.op = .doconnect) = false := by
      cases hany : incoming.any fun req => req.op = .doconnect with
      | true => simp [hany] at hearly
      | false => rfl
    have hearly : s.newClient = .connect ∨ s.newClient = .waitReply := by simpa [hno] using hearly
    obtain ⟨hu, hw, htodo⟩ := h.iterate_early hit hqueue hearly hno
    exact ⟨hu, hw, (h.early hearly).2.2.1, htodo⟩
  · rcases ho.write m hm with hm | ⟨p, replyc, -, hm⟩
    · exact h.write m hm
    · have := h.seqNum
      omega
  · refine h.iterate_established hit hqueue ?_
    rcases hest with hest | hest | hest
    · exact .inr (.inl hest)
    · exact .inl hest
    · refine .inr (.inr ?_)
      cases hany : incoming.any fun req => req.op = .doconnect with
      | true => simp [hany] at hest
      | false => simpa [hany] using hest

end Iteration

/-- The event handler, in both kinds of iteration. -/
theorem runHandler_cases {P : Params} {s s' : Goroutines} (h : s.runHandler P = some s') :
    ∃ incoming c out rest, s.client.iterate P incoming = some (c, out) ∧ s.todo = [] ∧
      s.requestc = incoming.toList ++ rest ∧ s' = { s with
        client := c
        todo := out.flatMap ClientOut.signals
        requestc := rest
        newClient := if incoming.any (fun req => req.op = .doconnect) then .select
          else s.newClient } := by
  unfold Goroutines.runHandler at h
  split at h
  · rename_i req rest htodo hturn hqueue
    obtain ⟨⟨c, out⟩, hit, rfl⟩ := Option.map_eq_some_iff.mp h
    refine ⟨some req, c, out, rest, hit, htodo, hqueue, ?_⟩
    simp
  · rename_i htodo hturn
    obtain ⟨⟨c, out⟩, hit, rfl⟩ := Option.map_eq_some_iff.mp h
    exact ⟨none, c, out, s.requestc, hit, htodo, rfl, rfl⟩
  · cases h

/-- A request that is no call, or one of a client that is ready, is put into the
queue. -/
theorem Handshake.put {s s' : Goroutines} (h : Handshake s) {req : ClientReq}
    (hput : s.put req = some s') (hop : req.op ≠ .doconnect)
    (hcall : req.op.isCall = true → s.newClient = .ready) : Handshake s' := by
  obtain ⟨-, rfl⟩ := Goroutines.put_eq_some hput
  refine ⟨?_, fun req' hreq' hcall' hop' => ?_, h.early, h.seqNum, h.write, h.unAcked, h.established⟩
  · have := h.connects
    simpa [hop] using this
  · rcases List.mem_append.mp hreq' with hreq' | hreq'
    · exact h.calls req' hreq' hcall' hop'
    · rw [List.mem_singleton.mp hreq'] at hcall'
      exact hcall hcall'

/-- Steps that touch neither the client, nor the queue, nor `NewClient`. -/
theorem Handshake.same {s s' : Goroutines} (h : Handshake s) (hclient : s'.client = s.client)
    (hqueue : s'.requestc = s.requestc) (hnew : s'.newClient = s.newClient)
    (hest : s'.connEstablishedSignal = true ∨ .connEstablished ∈ s'.todo →
      s.connEstablishedSignal = true ∨ .connEstablished ∈ s.todo) : Handshake s' := by
  have hquiet : s.newClient = .connect ∨ s.newClient = .waitReply →
      s'.connEstablishedSignal = false ∧ .connEstablished ∉ s'.todo := by
    intro hearly
    obtain ⟨-, -, hsignal, htodo⟩ := h.early hearly
    have hno : ¬(s'.connEstablishedSignal = true ∨ .connEstablished ∈ s'.todo) := by
      intro hn
      rcases hest hn with hn | hn
      · rw [hsignal] at hn
        cases hn
      · exact htodo hn
    rw [not_or] at hno
    exact ⟨Bool.eq_false_iff.mpr hno.1, hno.2⟩
  refine ⟨?_, ?_, fun hearly => ?_, ?_, ?_, ?_, fun hn => ?_⟩
  · rw [hqueue, hnew]
    exact h.connects
  · rw [hqueue, hnew]
    exact h.calls
  · rw [hnew] at hearly
    rw [hclient]
    exact ⟨(h.early hearly).1, (h.early hearly).2.1, hquiet hearly⟩
  · rw [hclient]
    exact h.seqNum
  · rw [hclient]
    exact h.write
  · rw [hclient]
    exact h.unAcked
  · rw [hclient]
    rw [hnew, ← or_assoc] at hn
    exact h.established (or_assoc.mp (hn.imp_left hest))

theorem sendSignal_cases {s s' : Goroutines} (h : s.sendSignal = some s') :
    ∃ sig rest, s.todo = sig :: rest ∧ s'.todo = rest ∧ s'.client = s.client ∧
      s'.requestc = s.requestc ∧ s'.newClient = s.newClient ∧
      (s'.connEstablishedSignal = true → s.connEstablishedSignal = true ∨ sig = .connEstablished) := by
  unfold Goroutines.sendSignal at h
  split at h
  · cases h
  · rename_i rest htodo
    split at h
    · cases h
    · cases h
      exact ⟨_, rest, htodo, rfl, rfl, rfl, rfl, .inl⟩
  · rename_i rest htodo
    split at h
    · cases h
    · cases h
      exact ⟨_, rest, htodo, rfl, rfl, rfl, rfl, fun _ => .inr rfl⟩
  · rename_i rest htodo
    cases h
    exact ⟨_, rest, htodo, rfl, rfl, rfl, rfl, .inl⟩
  · rename_i rest htodo
    split at h
    · cases h
      exact ⟨_, rest, htodo, rfl, rfl, rfl, rfl, .inl⟩
    · cases h
  · rename_i rest htodo
    split at h
    · cases h
      exact ⟨_, rest, htodo, rfl, rfl, rfl, rfl, .inl⟩
    · cases h

theorem Handshake.signal {s s' : Goroutines} (h : Handshake s) (hstep : s.sendSignal = some s') :
    Handshake s' := by
  obtain ⟨sig, rest, htodo, htodo', hclient, hqueue, hnew, hest⟩ := sendSignal_cases hstep
  refine h.same hclient hqueue hnew fun hn => ?_
  rw [htodo'] at hn
  rw [htodo]
  rcases hn with hn | hn
  · rcases hest hn with hn | rfl
    · exact .inl hn
    · exact .inr List.mem_cons_self
  · exact .inr (List.mem_cons_of_mem _ hn)

/-- `NewClient` puts its Connect into the queue. -/
theorem Handshake.connect {s s' : Goroutines} (h : Handshake s) (hnew : s.newClient = .connect)
    {replyc : Nat} (hput : s.put ⟨.doconnect, replyc⟩ = some s') :
    Handshake { s' with newClient := .waitReply } := by
  obtain ⟨-, rfl⟩ := Goroutines.put_eq_some hput
  have hready : s.newClient ≠ .ready := by
    rw [hnew]
    nofun
  refine ⟨?_, fun req hreq hcall hop => ?_, fun _ => h.early (.inl hnew), h.seqNum, h.write, h.unAcked,
    fun hn => h.established (hn.imp_right (Or.imp_right nofun))⟩
  · have := h.connects
    rw [hnew] at this
    simpa using this
  · rcases List.mem_append.mp hreq with hreq | hreq
    · exact absurd (h.calls req hreq hcall hop) hready
    · rw [List.mem_singleton.mp hreq] at hop
      exact absurd rfl hop

theorem Handshake.step {P : Params} {s s' : Goroutines} {l : GoLbl} (h : Handshake s)
    (hstep : s.step P l = some s') : Handshake s' := by
  cases Goroutines.moves_of_step hstep with
  | iterate hrun =>
    obtain ⟨incoming, c, out, rest, hit, -, hqueue, rfl⟩ := runHandler_cases hrun
    exact h.iterate hit hqueue
  | signal hsend => exact h.signal hsend
  | noClose | read | readOther | readClosed | tick => exact h.same rfl rfl rfl id
  | deliver msg _ hroom =>
    have hput : s.put ⟨.receivemsg msg, 0⟩ = some _ := if_pos hroom
    exact (h.put hput nofun nofun).same rfl rfl rfl id
  | epoch _ hroom =>
    have hput : s.put ⟨.epochtimer, 0⟩ = some _ := if_pos hroom
    exact (h.put hput nofun nofun).same rfl rfl rfl id
  | connect hnew hroom => exact h.connect hnew (if_pos hroom)
  | established hnew hest =>
    have hconnects := h.connects
    rw [hnew] at hconnects
    exact ⟨by simpa using hconnects, fun _ _ _ _ => rfl, nofun, h.seqNum, h.write, h.unAcked,
      fun _ => h.established (.inl hest)⟩
  | lost hnew =>
    have hconnects := h.connects
    rw [hnew] at hconnects
    refine ⟨by simpa using hconnects, fun req hreq hcall hop => ?_, nofun, h.seqNum, h.write,
      h.unAcked, fun hn => h.established (hn.imp_right (Or.imp_right nofun))⟩
    have := h.calls req hreq hcall hop
    rw [hnew] at this
    cases this
  | call req hnew _ hop hroom => exact h.put (if_pos hroom) hop fun _ => hnew

/-! ## The sends go through -/

/-- The lists of signals the event handler can be at. -/
inductive Plan : List Signal → Prop
  | done : Plan []
  | established : Plan [.connEstablished]
  | lost : Plan (.connLost :: shutDownSignals)
  | shutDown : Plan shutDownSignals
  | network : Plan [.network, .timer]
  | timer : Plan [.timer]

structure Deliverable (s : Goroutines) : Prop where
  plan : Plan s.todo
  established : .connEstablished ∈ s.todo → s.connEstablishedSignal = false
  lost : .connLost ∈ s.todo → s.connLostSignal = false
  closed : s.todo.head? = some .network → s.connClosed = true
  network : .network ∈ s.todo → s.network ≠ .returned
  timer : .timer ∈ s.todo → s.timer ≠ .returned
  up : s.client.down = false → s.connLostSignal = false ∧ s.network ≠ .returned ∧
    s.timer ≠ .returned ∧ .timer ∉ s.todo
  room : s.requestc.length ≤ 98

theorem Deliverable.iterate {P : Params} {s : Goroutines} (h : Deliverable s) (hs : Handshake s)
    {incoming : Option ClientReq} {c : Client} {out : List ClientOut} {rest : List ClientReq}
    {newClient : NewClient} (hit : s.client.iterate P incoming = some (c, out))
    (hqueue : s.requestc = incoming.toList ++ rest)
    (hepoch : ∀ replyc, incoming = some ⟨.epochtimer, replyc⟩ → s.client.connLost = false) :
    Deliverable { s with
      client := c
      todo := out.flatMap ClientOut.signals
      requestc := rest
      newClient := newClient } := by
  have hroom : rest.length ≤ 98 := by
    have := h.room
    rw [hqueue, List.length_append] at this
    omega
  have hrunning := running_of_iterate hit
  -- the others are shut down only once
  have hfirst : s.client.connLost = false → s.connLostSignal = false ∧ s.network ≠ .returned ∧
      s.timer ≠ .returned := by
    intro hlost
    obtain ⟨h₁, h₂, h₃, -⟩ := h.up (by simp [Client.down, hlost, hrunning])
    exact ⟨h₁, h₂, h₃⟩
  cases signals_iterate hit with
  | none hout hdown =>
    rw [hout]
    refine ⟨.done, nofun, nofun, nofun, nofun, nofun, fun hup => ?_, hroom⟩
    have hup₀ : s.client.down = false := by
      cases hd : s.client.down with
      | false => rfl
      | true =>
        rw [hdown hd] at hup
        cases hup
    obtain ⟨h₁, h₂, h₃, -⟩ := h.up hup₀
    exact ⟨h₁, h₂, h₃, nofun⟩
  | lost hout hdown hop =>
    obtain ⟨replyc, hop⟩ := hop
    obtain ⟨h₁, h₂, h₃⟩ := hfirst (hepoch replyc hop)
    rw [hout]
    refine ⟨.lost, by simp [shutDownSignals], fun _ => h₁, by simp, fun _ => h₂, fun _ => h₃,
      fun hup => ?_, hroom⟩
    rw [hdown] at hup
    cases hup
  | close hout hdown hlost =>
    obtain ⟨h₁, h₂, h₃⟩ := hfirst hlost
    rw [hout]
    refine ⟨.shutDown, by simp [shutDownSignals], fun _ => h₁, by simp [shutDownSignals], fun _ => h₂,
      fun _ => h₃, fun hup => ?_, hroom⟩
    rw [hdown] at hup
    cases hup
  | established hout hmem hdown =>
    have hfree : s.connEstablishedSignal = false := by
      refine Bool.eq_false_iff.mpr fun hest => ?_
      obtain ⟨⟨m, hm, hzero⟩, -⟩ := (origins_of_effect (effect_of_iterate hit)).established hmem
      have := hs.established (.inl hest) m hm
      omega
    rw [hout]
    refine ⟨.established, fun _ => hfree, by simp, by simp, by simp, by simp, fun hup => ?_, hroom⟩
    obtain ⟨h₁, h₂, h₃, -⟩ := h.up (hdown.symm.trans hup)
    exact ⟨h₁, h₂, h₃, by simp⟩

theorem Deliverable.signal {s s' : Goroutines} (h : Deliverable s) (hstep : s.sendSignal = some s') :
    Deliverable s' := by
  obtain ⟨hplan, hest, hlost, hclosed, hnet, htimer, hup, hroom⟩ := h
  unfold Goroutines.sendSignal at hstep
  generalize htodo : s.todo = todo at *
  cases hplan with
  | done => cases hstep
  | established =>
    simp only [hest List.mem_cons_self, Bool.false_eq_true, if_false, Option.some.injEq] at hstep
    subst hstep
    refine ⟨.done, nofun, nofun, nofun, nofun, nofun, fun hd => ?_, hroom⟩
    obtain ⟨h₁, h₂, h₃, -⟩ := hup hd
    exact ⟨h₁, h₂, h₃, nofun⟩
  | lost =>
    simp only [hlost List.mem_cons_self, Bool.false_eq_true, if_false, Option.some.injEq] at hstep
    subst hstep
    refine ⟨.shutDown, by simp [shutDownSignals], by simp [shutDownSignals], by simp [shutDownSignals],
      fun _ => hnet (by simp [shutDownSignals]), fun _ => htimer (by simp [shutDownSignals]),
      fun hd => ?_, hroom⟩
    exact absurd (by simp [shutDownSignals]) (hup hd).2.2.2
  | shutDown =>
    simp only [shutDownSignals, Option.some.injEq] at hstep
    subst hstep
    refine ⟨.network, by simp, by simp, fun _ => rfl, fun _ => hnet (by simp [shutDownSignals]),
      fun _ => htimer (by simp [shutDownSignals]), fun hd => ?_, hroom⟩
    exact absurd (by simp [shutDownSignals]) (hup hd).2.2.2
  | network =>
    simp only at hstep
    split at hstep
    · cases hstep
      refine ⟨.timer, by simp, by simp, by simp, by simp, fun _ => htimer (by simp), fun hd => ?_, hroom⟩
      exact absurd (by simp) (hup hd).2.2.2
    · cases hstep
  | timer =>
    simp only at hstep
    split at hstep
    · cases hstep
      refine ⟨.done, nofun, nofun, nofun, nofun, nofun, fun hd => ?_, hroom⟩
      exact absurd (by simp) (hup hd).2.2.2
    · cases hstep

/-- Steps of the others. -/
theorem Deliverable.other {s s' : Goroutines} (h : Deliverable s) (hclient : s'.client = s.client)
    (htodo : s'.todo = s.todo) (hroom : s'.requestc.length ≤ 98)
    (hest : s'.connEstablishedSignal = true → s.connEstablishedSignal = true)
    (hlost : s'.connLostSignal = true → s.connLostSignal = true)
    (hclosed : s'.connClosed = s.connClosed)
    (hnet : s'.network = .returned → s.network = .returned)
    (htimer : s'.timer = .returned → s.timer = .returned) : Deliverable s' := by
  have hfalse : ∀ {a b : Bool}, (b = true → a = true) → a = false → b = false := by
    intro a b himp ha
    rw [Bool.eq_false_iff] at ha ⊢
    exact fun hb => ha (himp hb)
  refine ⟨htodo ▸ h.plan, fun hm => ?_, fun hm => ?_, fun hm => ?_, fun hm hn => ?_, fun hm hn => ?_,
    fun hd => ?_, hroom⟩
  · exact hfalse hest (h.established (htodo ▸ hm))
  · exact hfalse hlost (h.lost (htodo ▸ hm))
  · rw [hclosed]
    exact h.closed (htodo ▸ hm)
  · exact h.network (htodo ▸ hm) (hnet hn)
  · exact h.timer (htodo ▸ hm) (htimer hn)
  · obtain ⟨h₁, h₂, h₃, h₄⟩ := h.up (hclient ▸ hd)
    exact ⟨hfalse hlost h₁, fun hn => h₂ (hnet hn), fun hn => h₃ (htimer hn), htodo ▸ h₄⟩

theorem Deliverable.step {P : Params} {s s' : Goroutines} {l : GoLbl} (h : Deliverable s)
    (hs : Handshake s) (hroomy : s.roomy l = true) (hstep : s.step P l = some s') :
    Deliverable s' := by
  have hput : s.requestc.length < 98 → ∀ req : ClientReq, (s.requestc ++ [req]).length ≤ 98 := by
    intro hlt req
    rw [List.length_append, List.length_singleton]
    omega
  cases Goroutines.moves_of_step hstep with
  | iterate hrun =>
    obtain ⟨incoming, c, out, rest, hit, -, hqueue, rfl⟩ := runHandler_cases hrun
    refine h.iterate hs hit hqueue ?_
    rintro replyc rfl
    simpa [Goroutines.roomy, hqueue] using hroomy
  | signal hsend => exact h.signal hsend
  | noClose | read | readOther | readClosed => exact h.other rfl rfl h.room id id rfl nofun id
  | tick => exact h.other rfl rfl h.room id id rfl id nofun
  | deliver => exact h.other rfl rfl (hput (of_decide_eq_true hroomy) _) id id rfl nofun id
  | epoch => exact h.other rfl rfl (hput (of_decide_eq_true hroomy) _) id id rfl id nofun
  | connect | call => exact h.other rfl rfl (hput (of_decide_eq_true hroomy) _) id id rfl id id
  | established => exact h.other rfl rfl h.room nofun id rfl id id
  | lost => exact h.other rfl rfl h.room id nofun rfl id id

theorem Deliverable.put {s : Goroutines} (h : Deliverable s) (req : ClientReq) :
    s.put req = some { s with requestc := s.requestc ++ [req] } :=
  if_pos (by have := h.room; omega)

/-- Once the connection is closed, the network handler comes to its `select`. -/
theorem Deliverable.network_selects {s : Goroutines} (h : Deliverable s) (P : Params)
    (hnet : s.network ≠ .returned) (hclosed : s.connClosed = true) :
    ∃ ls s', (goroutines P).Run s ls s' ∧ s'.network = .select ∧ s'.todo = s.todo := by
  cases hn : s.network with
  | select => exact ⟨[], s, .nil s, hn, rfl⟩
  | readFromUDP =>
    refine ⟨[.readClosed], { s with network := .select }, .single ?_, rfl, rfl⟩
    exact if_pos ⟨hn, hclosed⟩
  | send msg =>
    refine ⟨[.deliver], { s with
      requestc := s.requestc ++ [⟨.receivemsg msg, 0⟩], network := .select }, .single ?_, rfl, rfl⟩
    show Goroutines.step P s .deliver = _
    simp only [Goroutines.step, hn, h.put, Option.map_some]
  | returned => exact absurd hn hnet

theorem Deliverable.timer_selects {s : Goroutines} (h : Deliverable s) (P : Params)
    (htimer : s.timer ≠ .returned) :
    ∃ ls s', (goroutines P).Run s ls s' ∧ s'.timer = .select ∧ s'.todo = s.todo := by
  cases ht : s.timer with
  | select => exact ⟨[], s, .nil s, ht, rfl⟩
  | send =>
    refine ⟨[.epoch], { s with
      requestc := s.requestc ++ [⟨.epochtimer, 0⟩], timer := .select }, .single ?_, rfl, rfl⟩
    show Goroutines.step P s .epoch = _
    simp only [Goroutines.step, ht, h.put, Option.map_some, if_true]
  | returned => exact absurd ht htimer

/-- A send of the event handler to the other goroutines can always be completed,
as long as no epoch is taken after the one that found the connection lost and two
of the 100 places of `requestc` stay free. -/
theorem event_handler_never_stuck (P : Params) {s : Goroutines} (hr : (roomyRuns P).Reachable s)
    {sig : Signal} {rest : List Signal} (htodo : s.todo = sig :: rest) :
    ∃ ls s', (goroutines P).Run s ls s' ∧ s'.todo = rest := by
  have hind : (roomyRuns P).Inductive fun s => Handshake s ∧ Deliverable s := by
    refine ⟨?_, fun s l s' h hstep => ?_⟩
    · rintro _ rfl
      refine ⟨⟨rfl, nofun, fun _ => ⟨rfl, rfl, rfl, nofun⟩, le_refl 0, nofun, nofun, ?_⟩,
        ⟨.done, nofun, nofun, nofun, nofun, nofun, fun _ => ⟨rfl, nofun, nofun, nofun⟩, Nat.zero_le _⟩⟩
      exact fun _ m hm => nomatch hm
    · obtain ⟨hroomy, hstep⟩ := LTS.guarded_eq_some.mp hstep
      exact ⟨h.1.step hstep, h.2.step h.1 hroomy hstep⟩
  obtain ⟨-, h⟩ := hind.reachable s hr
  -- the send itself, once the receiver is there
  have now : ∀ {s₀ s₁ : Goroutines} {ls : List GoLbl}, (goroutines P).Run s ls s₀ →
      s₀.sendSignal = some s₁ → s₁.todo = rest → ∃ ls s', (goroutines P).Run s ls s' ∧ s'.todo = rest :=
    fun hrun hsend hrest => ⟨_, _, hrun.append (LTS.Run.single (M := goroutines P) (l := GoLbl.signal) hsend), hrest⟩
  cases sig with
  | connLost =>
    have hfree := h.lost (by rw [htodo]; exact List.mem_cons_self)
    exact now (.nil s) (by simp only [Goroutines.sendSignal, htodo, hfree]; rfl) rfl
  | connEstablished =>
    have hfree := h.established (by rw [htodo]; exact List.mem_cons_self)
    exact now (.nil s) (by simp only [Goroutines.sendSignal, htodo, hfree]; rfl) rfl
  | closeConn => exact now (.nil s) (by simp only [Goroutines.sendSignal, htodo]; rfl) rfl
  | network =>
    obtain ⟨ls, s₀, hrun, hsel, htodo₀⟩ :=
      h.network_selects P (h.network (by rw [htodo]; exact List.mem_cons_self))
        (h.closed (by rw [htodo]; rfl))
    rw [htodo] at htodo₀
    exact now hrun (by simp only [Goroutines.sendSignal, htodo₀, hsel]; rfl) rfl
  | timer =>
    obtain ⟨ls, s₀, hrun, hsel, htodo₀⟩ :=
      h.timer_selects P (h.timer (by rw [htodo]; exact List.mem_cons_self))
    rw [htodo] at htodo₀
    exact now hrun (by simp only [Goroutines.sendSignal, htodo₀, hsel]; rfl) rfl

/-! A client that is closed while the network handler has a packet and the timer an
epoch for it. -/

/-- `NewClient` returns. -/
def dialled : List GoLbl :=
  [.connect, .iterate, .noClose, .read (some (newAck 1 0)), .deliver, .iterate, .signal, .established]

def closedWhileBusy : List GoLbl :=
  dialled ++ [.noClose, .read (some (newData 1 1 [7])), .tick, .call ⟨.doclose, 1⟩, .iterate, .signal]

def busyClosing : Goroutines :=
  LTS.execD (LTS.guarded Goroutines.roomy (Goroutines.step oneEpoch)) .init closedWhileBusy

theorem busy_closing_never_stuck :
    busyClosing.todo = [.network, .timer] ∧ busyClosing.network = .send (newData 1 1 [7]) ∧
      ∃ ls s', (goroutines oneEpoch).Run busyClosing ls s' ∧ s'.todo = [.timer] :=
  ⟨rfl, rfl, event_handler_never_stuck oneEpoch
    ⟨_, closedWhileBusy, rfl, LTS.run_execD (by decide)⟩ rfl⟩

/-! ## The event handler blocked for ever -/

/-- The event handler is at a send, and will be at it in every later state. -/
def Goroutines.Stuck (P : Params) (s : Goroutines) : Prop :=
  s.todo ≠ [] ∧ ∀ ls s', (goroutines P).Run s ls s' → s'.todo = s.todo

/-- Two epochs are in `requestc` when the first finds the connection lost. -/
def lostTwice : List GoLbl :=
  dialled ++ [.tick, .epoch, .tick, .epoch, .iterate, .signal, .signal, .signal, .signal, .iterate]

def stuckOnLost : Goroutines := LTS.execD (Goroutines.step oneEpoch) .init lostTwice

/-- `requestc` is full, and the network handler has a packet for it, when the
connection is found lost. -/
def lostWhenFull : List GoLbl :=
  dialled ++ [.noClose, .read (some (newData 1 1 [7])), .tick, .epoch] ++
    List.replicate 99 (.call ⟨.doconnid, 1⟩) ++ [.iterate, .call ⟨.doconnid, 1⟩, .signal, .signal]

def stuckOnClose : Goroutines := LTS.execD (Goroutines.step oneEpoch) .init lostWhenFull

/-- The other goroutines leave the event handler where it is. `NewClient` has
returned, and takes no signal; on a full `requestc` the network handler waits. -/
theorem step_others {P : Params} {s s' : Goroutines} {l : GoLbl} (h : s.step P l = some s')
    (hiterate : l ≠ .iterate) (hsignal : l ≠ .signal) :
    s'.todo = s.todo ∧
      (s.newClient = .ready → s'.newClient = .ready ∧ s'.connLostSignal = s.connLostSignal) ∧
      (s.requestc.length = 100 → s'.requestc.length = 100 ∧
        ∀ msg, s.network = .send msg → s'.network = .send msg) := by
  cases Goroutines.moves_of_step h with
  | iterate => exact absurd rfl hiterate
  | signal => exact absurd rfl hsignal
  | noClose hn | read _ hn | readOther hn | readClosed hn =>
    refine ⟨rfl, fun hready => ⟨hready, rfl⟩, fun hfull => ⟨hfull, fun msg hm => ?_⟩⟩
    rw [hn] at hm
    cases hm
  | tick => exact ⟨rfl, fun hready => ⟨hready, rfl⟩, fun hfull => ⟨hfull, fun _ hm => hm⟩⟩
  | deliver _ _ hroom | epoch _ hroom | call _ _ _ _ hroom =>
    exact ⟨rfl, fun hready => ⟨hready, rfl⟩, fun hfull => absurd hfull (by omega)⟩
  | connect hnew hroom =>
    refine ⟨rfl, fun hready => ?_, fun hfull => absurd hfull (by omega)⟩
    rw [hnew] at hready
    cases hready
  | established hnew | lost hnew =>
    refine ⟨rfl, fun hready => ?_, fun hfull => ⟨hfull, fun _ hm => hm⟩⟩
    rw [hnew] at hready
    cases hready

/-- While the event handler is at a send, it does not take requests. -/
theorem runHandler_none {P : Params} {s : Goroutines} (h : s.todo ≠ []) : s.runHandler P = none := by
  unfold Goroutines.runHandler
  split
  · rename_i htodo _ _
    exact absurd htodo h
  · rename_i htodo _
    exact absurd htodo h
  · rfl

/-- Nobody takes the signal out of `connLostSignal` any more. -/
theorem stuck_of_lost (P : Params) {s : Goroutines} {rest : List Signal}
    (htodo : s.todo = .connLost :: rest) (hfull : s.connLostSignal = true)
    (hnew : s.newClient = .ready) : s.Stuck P := by
  refine ⟨by rw [htodo]; nofun, fun ls s' hrun => ?_⟩
  have hinv := hrun.invariant
    (I := fun t => t.todo = s.todo ∧ t.connLostSignal = true ∧ t.newClient = .ready) (by
      rintro t l t' ⟨ht, hlost, hready⟩ hstep
      have hstep : t.step P l = some t' := hstep
      by_cases hiterate : l = .iterate
      · rw [hiterate, Goroutines.step, runHandler_none (by rw [ht, htodo]; nofun)] at hstep
        cases hstep
      · by_cases hsignal : l = .signal
        · simp only [hsignal, Goroutines.step, Goroutines.sendSignal, ht, htodo, hlost, if_true] at hstep
          cases hstep
        · obtain ⟨h₁, h₂, -⟩ := step_others hstep hiterate hsignal
          exact ⟨h₁.trans ht, (h₂ hready).2.trans hlost, (h₂ hready).1⟩) ⟨rfl, hfull, hnew⟩
  exact hinv.1

/-- The network handler waits for room in `requestc`. -/
theorem stuck_of_full (P : Params) {s : Goroutines} {rest : List Signal} {msg : Message}
    (htodo : s.todo = .network :: rest) (hfull : s.requestc.length = 100)
    (hnet : s.network = .send msg) : s.Stuck P := by
  refine ⟨by rw [htodo]; nofun, fun ls s' hrun => ?_⟩
  have hinv := hrun.invariant
    (I := fun t => t.todo = s.todo ∧ t.requestc.length = 100 ∧ t.network = .send msg) (by
      rintro t l t' ⟨ht, hlen, hsend⟩ hstep
      have hstep : t.step P l = some t' := hstep
      by_cases hiterate : l = .iterate
      · rw [hiterate, Goroutines.step, runHandler_none (by rw [ht, htodo]; nofun)] at hstep
        cases hstep
      · by_cases hsignal : l = .signal
        · simp only [hsignal, Goroutines.step, Goroutines.sendSignal, ht, htodo, hsend] at hstep
          cases hstep
        · obtain ⟨h₁, -, h₃⟩ := step_others hstep hiterate hsignal
          exact ⟨h₁.trans ht, (h₃ hlen).1, (h₃ hlen).2 msg hsend⟩) ⟨rfl, hfull, hnet⟩
  exact hinv.1

theorem event_handler_stuck :
    (goroutines oneEpoch).Reachable stuckOnLost ∧
      stuckOnLost.todo = .connLost :: shutDownSignals ∧ stuckOnLost.Stuck oneEpoch ∧
      (goroutines oneEpoch).Reachable stuckOnClose ∧ stuckOnClose.todo = [.network, .timer] ∧
      stuckOnClose.Stuck oneEpoch :=
  ⟨⟨_, lostTwice, rfl, LTS.run_execD (by decide)⟩, rfl, stuck_of_lost oneEpoch rfl rfl rfl,
    ⟨_, lostWhenFull, rfl, LTS.run_execD (by decide +kernel)⟩, by decide +kernel,
    stuck_of_full oneEpoch (show stuckOnClose.todo = [.network, .timer] by decide +kernel)
      (by decide +kernel) (show stuckOnClose.network = .send (newData 1 1 [7]) by decide +kernel)⟩

end Cmu440.Lsp
